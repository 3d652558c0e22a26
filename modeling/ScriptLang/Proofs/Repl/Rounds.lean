import ScriptLang.Proofs.Eval.Replay
import ScriptLang.Repl

/-! # Rounds of the interactive loop

A round prompts for a line, takes it from the input and runs it as a program.
-/

namespace ScriptLang.Repl

variable {debug : Nat} {console : Console} {line : String}

def End.failure? : End → Option Failure
  | .endOfInput => none
  | .failed failure => some failure

theorem End.eq_failed {ending : End} {failure : Failure} (h : ending.failure? = some failure) :
    ending = .failed failure := by
  cases ending with
  | endOfInput => cases h
  | failed failure =>
    cases h
    rfl

theorem End.eq_endOfInput {ending : End} (h : ending.failure? = none) : ending = .endOfInput := by
  cases ending with
  | endOfInput => rfl
  | failed failure => cases h

/-- The console after a prompt and the input that is left. -/
def Console.ask (console : Console) (rest : List Char) : Console :=
  { console with machine := { console.machine.write prompt with input := rest } }

def Console.close (console : Console) : Console :=
  { console.ask [] with machine := (console.ask []).machine.write "\n" }

/-- What becomes of a line once its program has run. -/
def settle (root : Node) (err : String) : Outcome Value × Machine → Option Failure × Console
  | (.done value, machine) => (none, ⟨machine.write (echo root value), err⟩)
  | (.failed (.error error), machine) =>
    (none, ⟨machine, err ++ "Runtime error: " ++ error.report ++ "\n"⟩)
  | (.failed failure, machine) => (some failure, ⟨machine, err⟩)
  | (.unparsed _, machine) => (none, ⟨machine, err⟩)

theorem runLine_of_error {error : ParseError} (hp : parse line = .error error) :
    runLine debug line console =
      (none, { console with
        err := console.err ++ "Parse error: " ++ error.report line ++ "\n" }) := by
  unfold runLine
  rw [hp]

theorem runLine_of_ok {root : Node} (hp : parse line = .ok root) :
    runLine debug line console =
      settle root console.err (Session.runTree debug Session.globalFrame root console.machine) := by
  unfold runLine
  rw [hp]
  dsimp only
  obtain ⟨outcome, machine⟩ := Session.runTree debug Session.globalFrame root console.machine
  cases outcome with
  | done value => rfl
  | unparsed error => rfl
  | failed failure =>
    cases failure with
    | _ => rfl

/-- One round: why the loop ends with it, if it does, and the console after it. -/
def round (debug : Nat) (console : Console) : Option End × Console :=
  let (line, rest) := Machine.nextLine console.machine.input
  let asked := console.ask rest
  if line.isEmpty then (some .endOfInput, { asked with machine := asked.machine.write "\n" })
  else if line.all Blank.isBlank then (none, asked)
  else (runLine debug (String.ofList line) asked).map (Option.map End.failed) id

section Round

variable {line rest : List Char}

theorem round_of_nil (h : console.machine.input = []) :
    round debug console = (some .endOfInput, console.close) := by
  rw [round, h]
  rfl

variable (hn : Machine.nextLine console.machine.input = (line, rest)) (he : line ≠ [])
include hn he

theorem round_of_blank (hb : line.all Blank.isBlank = true) :
    round debug console = (none, console.ask rest) := by
  rw [round, hn]
  dsimp only
  rw [if_neg (by simpa using he), if_pos hb]

theorem round_of_line (hb : line.all Blank.isBlank = false) :
    round debug console =
      (runLine debug (String.ofList line) (console.ask rest)).map (Option.map End.failed) id := by
  rw [round, hn]
  dsimp only
  rw [if_neg (by simpa using he), if_neg (by rw [hb]; decide)]

end Round

theorem loop_succ {rounds : Nat} : loop debug (rounds + 1) console =
    match round debug console with
    | (none, after) => loop debug rounds after
    | (some ending, after) => (ending, after) := by
  rw [loop, round]
  dsimp only [Console.ask, Machine.write]
  split
  · rfl
  · split
    · rfl
    · generalize runLine debug _ _ = result
      obtain ⟨failure, after⟩ := result
      cases failure with
      | none => rfl
      | some failure => rfl

theorem settle_arises {root : Node} {err : String} {outcome : Outcome Value} {machine : Machine}
    (hm : machine.Arises) : (settle root err (outcome, machine)).2.machine.Arises := by
  cases outcome with
  | done value => exact hm.write _
  | unparsed error => exact hm
  | failed failure =>
    cases failure with
    | _ => exact hm

theorem runLine_arises (hm : console.machine.Arises) :
    (runLine debug line console).2.machine.Arises := by
  cases hp : parse line with
  | error error =>
    rw [runLine_of_error hp]
    exact hm
  | ok root =>
    rw [runLine_of_ok hp]
    exact settle_arises (hm.runTree hp)

theorem ask_arises (hm : console.machine.Arises) (rest : List Char) :
    (console.ask rest).machine.Arises :=
  (hm.write prompt).unread rest

theorem round_arises (hm : console.machine.Arises) : (round debug console).2.machine.Arises := by
  unfold round
  dsimp only
  split
  · exact (ask_arises hm _).write _
  · split
    · exact ask_arises hm _
    · exact runLine_arises (ask_arises hm _)

end ScriptLang.Repl
