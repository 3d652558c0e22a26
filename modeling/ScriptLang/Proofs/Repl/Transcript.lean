import ScriptLang.Proofs.Eval.Sessions
import ScriptLang.Proofs.Repl.Rounds

/-! # Transcripts of the interactive loop

The loop and the programs that it runs take lines from one input. A transcript says of each line
which of them takes it, and what becomes of the lines that are programs. To replay these programs
alone, it is enough to give them the lines that they take themselves.
-/

namespace ScriptLang.Repl

/-- A turn of the loop: a blank line, or a program and the lines that it takes itself. -/
inductive Turn where
  | blank (line : List Char)
  | ran (step : Session.Step) (reads : List (List Char))

def echoOf (step : Session.Step) : String :=
  match parse step.source, step.outcome with
  | .ok root, .done value => echo root value
  | _, _ => ""

def reportOf (step : Session.Step) : String :=
  match step.outcome with
  | .unparsed error => "Parse error: " ++ error.report step.source ++ "\n"
  | .failed (.error error) => "Runtime error: " ++ error.report ++ "\n"
  | _ => ""

namespace Turn

/-- The lines of the input that a turn takes, the loop's own line first. -/
def lines : Turn → List (List Char)
  | blank line => [line]
  | ran step reads => step.source.toList :: reads

def out : Turn → String
  | blank _ => prompt
  | ran step _ => prompt ++ step.output ++ echoOf step

def err : Turn → String
  | blank _ => ""
  | ran step _ => reportOf step

def step? : Turn → Option Session.Step
  | blank _ => none
  | ran step _ => some step

def reads : Turn → List (List Char)
  | blank _ => []
  | ran _ reads => reads

/-- Only a line that is not blank is a program. Whether it is one depends on its text alone. -/
def Fits : Turn → Prop
  | blank line => line.all Blank.isBlank = true
  | ran step reads => step.source.toList.all Blank.isBlank = false ∧ step.taken = reads.flatten ∧
    ∀ error, step.outcome = .unparsed error ↔ parse step.source = .error error

end Turn

def taken (turns : List Turn) : List Char := (turns.flatMap Turn.reads).flatten

def steps (turns : List Turn) : List Session.Step := turns.filterMap Turn.step?

/-- A console before a turn, the turn, and the console after it. -/
inductive Plays (debug : Nat) : Console → Turn → Console → Prop where
  | blank {console : Console} {line rest : List Char} : console.machine.input ≠ [] →
      Machine.nextLine console.machine.input = (line, rest) → line.all Blank.isBlank = true →
      Plays debug console (.blank line) (console.ask rest)
  | ran {console : Console} {machine : Machine} {step : Session.Step} {rest : List Char}
      {reads : List (List Char)} : console.machine.input ≠ [] →
      Machine.nextLine console.machine.input = (step.source.toList, rest) →
      step.source.toList.all Blank.isBlank = false →
      Session.Makes debug (console.ask rest).machine step reads machine →
      Plays debug console (.ran step reads)
        ⟨machine.write (echoOf step), console.err ++ reportOf step⟩

/-- Turns of the loop up to the end of the input, and the console after it. -/
inductive Transcript (debug : Nat) : Console → List Turn → Console → Prop where
  | close {console : Console} : console.machine.input = [] →
      Transcript debug console [] console.close
  | turn {console during after : Console} {turn : Turn} {turns : List Turn} :
      Plays debug console turn during → Transcript debug during turns after →
      Transcript debug console (turn :: turns) after

variable {debug : Nat} {console during after : Console} {machine : Machine} {step : Session.Step}
  {turn : Turn} {turns : List Turn}

theorem runLine_of_makes {reads : List (List Char)}
    (hm : Session.Makes debug console.machine step reads machine)
    (h : runLine debug step.source console = (none, during)) :
    during = ⟨machine.write (echoOf step), console.err ++ reportOf step⟩ := by
  have hran := hm.ran
  cases hp : parse step.source with
  | error error =>
    rw [Session.runSource, hp] at hran
    obtain ⟨ho, rfl⟩ := Prod.mk.inj hran
    rw [runLine_of_error hp] at h
    obtain ⟨-, rfl⟩ := Prod.mk.inj h
    simp only [echoOf, reportOf, hp, ← ho, Machine.write, String.append_empty, String.append_assoc]
  | ok root =>
    rw [Session.runSource, hp] at hran
    dsimp only at hran
    rw [runLine_of_ok hp, hran] at h
    cases ho : step.outcome with
    | done value =>
      rw [ho] at h
      obtain ⟨-, rfl⟩ := Prod.mk.inj h
      simp only [echoOf, reportOf, hp, ho, String.append_empty]
    | unparsed error =>
      rw [ho] at hran
      exact absurd (congrArg Prod.fst hran) Session.runTree_ne_unparsed
    | failed failure =>
      rw [ho] at h
      cases failure with
      | error error =>
        obtain ⟨-, rfl⟩ := Prod.mk.inj h
        simp only [echoOf, reportOf, hp, ho, Machine.write, String.append_empty,
          String.append_assoc]
      | _ => cases h

theorem length_nextLine {input line rest : List Char} (h : Machine.nextLine input = (line, rest))
    (hi : input ≠ []) : rest.length < input.length := by
  have happend := Machine.nextLine_append input
  have hne := Machine.nextLine_ne_nil hi
  rw [h] at happend hne
  rw [← happend, List.length_append]
  exact Nat.lt_add_of_pos_left (List.length_pos_iff.mpr hne)

theorem round_cases (hi : console.machine.input ≠ []) :
    (∃ turn during, round debug console = (none, during) ∧ Plays debug console turn during) ∨
      ∃ failure during, round debug console = (some (.failed failure), during) := by
  cases hn : Machine.nextLine console.machine.input with
  | mk line rest =>
    have hne : line ≠ [] := by
      have hne := Machine.nextLine_ne_nil hi
      rwa [hn] at hne
    cases hb : line.all Blank.isBlank with
    | true => exact .inl ⟨.blank line, _, round_of_blank hn hne hb, .blank hi hn hb⟩
    | false =>
      obtain ⟨step, reads, machine, hs, hm⟩ :=
        Session.exists_makes debug (console.ask rest).machine (String.ofList line)
      have hl : step.source.toList = line := by rw [hs, String.toList_ofList]
      rw [round_of_line hn hne hb, ← hs]
      cases hrun : runLine debug step.source (console.ask rest) with
      | mk failure during =>
        cases failure with
        | some failure => exact .inr ⟨failure, during, rfl⟩
        | none =>
          obtain rfl := runLine_of_makes hm hrun
          exact .inl ⟨.ran step reads, _, rfl, .ran hi (hl ▸ hn) (hl ▸ hb) hm⟩

namespace Plays

theorem ne_nil (h : Plays debug console turn during) : console.machine.input ≠ [] := by
  cases h with
  | blank hi => exact hi
  | ran hi => exact hi

theorem lines (h : Plays debug console turn during) :
    Reads console.machine.input turn.lines during.machine.input := by
  cases h with
  | blank hi hn => exact .next hi hn .done
  | ran hi hn _ hm => exact .next hi hn hm.input

theorem length_lt (h : Plays debug console turn during) :
    during.machine.input.length < console.machine.input.length := by
  cases h with
  | blank hi hn => exact length_nextLine hn hi
  | ran hi hn _ hm => exact hm.input.length_le.trans_lt (length_nextLine hn hi)

theorem fits (h : Plays debug console turn during) : turn.Fits := by
  cases h with
  | blank _ _ hb => exact hb
  | ran _ _ hb hm =>
    refine ⟨hb, hm.taken, fun error => ⟨fun ho => ?_, fun hp => ?_⟩⟩
    · exact Session.runSource_unparsed ((congrArg Prod.fst hm.ran).trans ho)
    · have hran := hm.ran
      rw [Session.runSource, hp] at hran
      exact (congrArg Prod.fst hran).symm

theorem out (h : Plays debug console turn during) :
    during.machine.out = console.machine.out ++ turn.out := by
  cases h with
  | blank => rfl
  | ran _ _ _ hm => simp only [hm.out, Console.ask, Machine.write, Turn.out, String.append_assoc]

theorem err (h : Plays debug console turn during) : during.err = console.err ++ turn.err := by
  cases h with
  | blank => exact String.append_empty.symm
  | ran => rfl

/-- The program of a turn makes the same step when it is run alone, on the lines that it takes and
those that other programs take after it. -/
theorem replay (h : Plays debug console turn during) {rest : List Char}
    (hend : during.machine.input = [] → rest = []) (out : String) : ∃ out', ∀ sources,
    Session.replay debug (turn.step?.toList.map (·.source) ++ sources)
      (console.machine.streaming out (turn.reads.flatten ++ rest)) =
        (turn.step?.toList ++ (Session.replay debug sources (during.machine.streaming out' rest)).1,
          (Session.replay debug sources (during.machine.streaming out' rest)).2) := by
  cases h with
  | blank => exact ⟨out, fun sources => rfl⟩
  | @ran _ step _ _ _ _ _ hm => exact ⟨step.output, fun sources => hm.replay hend sources out⟩

end Plays

theorem exists_transcript {rounds : Nat} (hr : console.machine.input.length < rounds)
    (h : loop debug rounds console = (.endOfInput, after)) :
    ∃ turns, Transcript debug console turns after := by
  induction rounds generalizing console with
  | zero => exact absurd hr (Nat.not_lt_zero _)
  | succ rounds ih =>
    rw [loop_succ] at h
    by_cases hi : console.machine.input = []
    · rw [round_of_nil hi] at h
      obtain ⟨-, rfl⟩ := Prod.mk.inj h
      exact ⟨[], .close hi⟩
    · rcases round_cases hi with ⟨turn, during, hround, hturn⟩ | ⟨failure, during, hround⟩
      · rw [hround] at h
        obtain ⟨turns, ht⟩ := ih (hturn.length_lt.trans_le (Nat.le_of_lt_succ hr)) h
        exact ⟨turn :: turns, .turn hturn ht⟩
      · rw [hround] at h
        cases (Prod.mk.inj h).1

namespace Transcript

theorem lines (h : Transcript debug console turns after) :
    Reads console.machine.input (turns.flatMap Turn.lines) [] := by
  induction h with
  | close hi =>
    rw [hi]
    exact .done
  | turn hturn _ ih =>
    rw [List.flatMap_cons]
    exact hturn.lines.append ih

theorem fits (h : Transcript debug console turns after) : ∀ turn ∈ turns, turn.Fits := by
  induction h with
  | close => exact nofun
  | turn hturn _ ih => exact List.forall_mem_cons.mpr ⟨hturn.fits, ih⟩

theorem ends (h : Transcript debug console turns after) : after.machine.input = [] := by
  induction h with
  | close => rfl
  | turn _ _ ih => exact ih

theorem out (h : Transcript debug console turns after) : after.machine.out =
    console.machine.out ++ String.join (turns.map Turn.out) ++ prompt ++ "\n" := by
  induction h with
  | close =>
    rw [List.map_nil, String.join_nil, String.append_empty]
    rfl
  | turn hturn _ ih =>
    rw [ih, hturn.out, List.map_cons, String.join_cons]
    simp only [String.append_assoc]

theorem err (h : Transcript debug console turns after) :
    after.err = console.err ++ String.join (turns.map Turn.err) := by
  induction h with
  | close => exact String.append_empty.symm
  | turn hturn _ ih => rw [ih, hturn.err, List.map_cons, String.join_cons, String.append_assoc]

theorem taken_of_nil (h : Transcript debug console turns after)
    (hi : console.machine.input = []) : taken turns = [] := by
  cases h with
  | close => rfl
  | turn hturn => exact absurd hi hturn.ne_nil

theorem taken_cons : taken (turn :: turns) = turn.reads.flatten ++ taken turns :=
  List.flatten_append

theorem steps_cons : steps (turn :: turns) = turn.step?.toList ++ steps turns := by
  cases turn with
  | blank line => rfl
  | ran step reads => rfl

/-- The programs of a transcript make the same steps when they are run alone, on the lines that they
take. -/
theorem replay (h : Transcript debug console turns after) (out : String) : ∃ out',
    Session.replay debug ((steps turns).map (·.source))
      (console.machine.streaming out (taken turns)) =
        (steps turns, after.machine.streaming out' []) := by
  induction h generalizing out with
  | close => exact ⟨out, rfl⟩
  | turn hturn ht ih =>
    obtain ⟨middle, hfirst⟩ := hturn.replay ht.taken_of_nil out
    obtain ⟨out', hrest⟩ := ih middle
    refine ⟨out', ?_⟩
    rw [steps_cons, taken_cons, List.map_append, hfirst, hrest]

end Transcript

/-- A loop that comes to the end of the input has taken every line once and in order: blank lines,
programs, and the lines that these programs take by `input`. Its output is that of the programs with
prompts and values between, and it leaves what the programs leave when they are replayed one after
another on the lines that they take. A line that is not parsed leaves the machine as it is. A
program with an error keeps what the statements before the failed one have done, and of that one
what it has done before its error. -/
theorem run_replays :
    (∀ debug input after, run debug ⟨.initial input, ""⟩ = (.endOfInput, after) →
      ∃ turns last, Reads input.toList (turns.flatMap Turn.lines) [] ∧
        (∀ turn ∈ turns, turn.Fits) ∧ after.machine.input = [] ∧
        after.machine.out = String.join (turns.map Turn.out) ++ prompt ++ "\n" ∧
        after.err = String.join (turns.map Turn.err) ∧
        Session.replay debug ((steps turns).map (·.source))
          (.initial (String.ofList (taken turns))) = (steps turns, last) ∧
        last = after.machine.streaming last.out [] ∧
        Session.globals last = Session.globals after.machine) ∧
    (∀ (machine : Machine) line rest, Machine.nextLine machine.input = (line, rest) →
      Eval.builtin .input [] machine = .ok (.str (lineText line)) { machine with input := rest } ∧
      ∀ prompt, Eval.builtin .input [.str prompt] machine =
        .ok (.str (lineText line)) { machine.write prompt with input := rest }) ∧
    (∀ function args, function ≠ .input → Unreading (Eval.builtin function args)) ∧
    (∀ debug line console error, parse line = .error error →
      runLine debug line console = (none, { console with
        err := console.err ++ "Parse error: " ++ error.report line ++ "\n" })) ∧
    ∀ debug line root console error after, parse line = .ok root →
      Session.runTree debug Session.globalFrame root console.machine =
        (.failed (.error error), after) →
      runLine debug line console =
        (none, ⟨after, console.err ++ "Runtime error: " ++ error.report ++ "\n"⟩) ∧
      ∃ before node rest value during last, root = .program (before ++ node :: rest) ∧
        Session.runTree debug Session.globalFrame (.program before) console.machine =
          (.done value, during) ∧
        Session.runTree debug Session.globalFrame (.program [node]) during =
          (.failed (.error error), last) ∧ last.unlogged = after.unlogged := by
  refine ⟨?_, ?_, fun _ _ => Unreading.builtin, fun _ _ _ _ => runLine_of_error, ?_⟩
  · intro debug input after h
    obtain ⟨turns, ht⟩ := exists_transcript (Nat.lt_add_one _) h
    obtain ⟨out, hreplay⟩ := ht.replay ""
    have hstart : (Machine.initial input).streaming "" (taken turns) =
        .initial (String.ofList (taken turns)) := by
      rw [Machine.initial, Machine.initial, String.toList_ofList]
      rfl
    rw [hstart] at hreplay
    have hout := ht.out
    have herr := ht.err
    rw [show (Machine.initial input).out = "" from rfl, String.empty_append] at hout
    rw [String.empty_append] at herr
    exact ⟨turns, _, ht.lines, ht.fits, ht.ends, hout, herr, hreplay, rfl, rfl⟩
  · intro machine line rest hn
    refine ⟨bind_of_eq_ok (readLine_eq machine hn), fun prompt => ?_⟩
    exact (bind_of_eq_ok rfl).trans (bind_of_eq_ok (readLine_eq (machine.write prompt) hn))
  · intro debug line root console error after hp hr
    refine ⟨?_, ?_⟩
    · rw [runLine_of_ok hp, hr]
      rfl
    · obtain ⟨nodes, rfl⟩ := exists_nodes_of_parse hp
      obtain ⟨before, node, rest, value, during, last, rfl, hbefore, hnode, hlast⟩ :=
        Session.runTree_fails hr
      exact ⟨before, node, rest, value, during, last, rfl, hbefore, hnode, hlast⟩

/-- Five lines: one that reads the next, a blank one, one that is not parsed, one with an error and
one without a line feed. -/
theorem run_replays_session :
    let input := "x = input();\nhello\n\n)\ny = 1; w;\nx;"
    let root : Node := .program
      [.assign (.str "y") (.literal (.int 1) (.str "Integer")), .exprStmt (.ident (.str "w"))]
    let console : Console := ⟨.initial "hello\n", ""⟩
    (∃ after, run 0 ⟨.initial input, ""⟩ = (.endOfInput, after) ∧
      after.machine.out = "> > > > > hello\n> \n" ∧
      ∃ turns : List Turn, Reads input.toList (turns.flatMap Turn.lines) [] ∧
        ∀ turn ∈ turns, turn.Fits) ∧
    Eval.builtin .input [] console.machine =
      .ok (.str "hello") { console.machine with input := [] } ∧
    Builtin.print ≠ .input ∧ Unreading (Eval.builtin .print [.int 1]) ∧
    (∃ error, parse ")" = .error error ∧ runLine 0 ")" console =
      (none, { console with err := console.err ++ "Parse error: " ++ error.report ")" ++ "\n" })) ∧
    parse root.render = .ok root ∧ ∃ after,
      Session.runTree 0 Session.globalFrame root console.machine =
        (.failed (.error (.undefinedVariable "w")), after) ∧
      runLine 0 root.render console = (none, ⟨after, console.err ++ "Runtime error: " ++
        (RuntimeError.undefinedVariable "w").report ++ "\n"⟩) ∧
      ∃ before node rest value during last, root = .program (before ++ node :: rest) ∧
        Session.runTree 0 Session.globalFrame (.program before) console.machine =
          (.done value, during) ∧
        Session.runTree 0 Session.globalFrame (.program [node]) during =
          (.failed (.error (.undefinedVariable "w")), last) ∧ last.unlogged = after.unlogged := by
  intro input root console
  obtain ⟨hruns, hreads, hunreading, hunparsed, hfails⟩ := run_replays
  have hends : (run 0 ⟨.initial input, ""⟩).1.failure? = none ∧
      (run 0 ⟨.initial input, ""⟩).2.machine.out = "> > > > > hello\n> \n" := by
    decide +kernel
  have hrun : run 0 ⟨.initial input, ""⟩ = (.endOfInput, (run 0 ⟨.initial input, ""⟩).2) :=
    Prod.ext (End.eq_endOfInput hends.1) rfl
  obtain ⟨turns, -, hlines, hfits, -⟩ := hruns 0 input _ hrun
  obtain ⟨error, herror⟩ : ∃ error, parse ")" = .error error := by
    cases hp : parse ")" with
    | error error => exact ⟨error, rfl⟩
    | ok root =>
      have hbad : (parse ")").isOk = false := by decide +kernel
      rw [hp] at hbad
      cases hbad
  have hy : IsName "y".toList := by decide
  have hw : IsName "w".toList := by decide
  have hp : parse root.render = .ok root :=
    parse_render (.mk (List.forall_mem_cons.mpr ⟨.assign (.mk hy (.int (by decide))),
      List.forall_mem_singleton.mpr (.expr (.ident hw))⟩))
  have hfailed : ∃ after, Session.runTree 0 Session.globalFrame root console.machine =
      (.failed (.error (.undefinedVariable "w")), after) := ⟨_, rfl⟩
  obtain ⟨after, hfailed⟩ := hfailed
  exact ⟨⟨_, hrun, hends.2, turns, hlines, hfits⟩,
    (hreads console.machine "hello\n".toList [] (by decide)).1, nofun, hunreading .print _ nofun,
    ⟨error, herror, hunparsed 0 _ console error herror⟩, hp, after, hfailed,
    hfails 0 _ root console _ after hp hfailed⟩

end ScriptLang.Repl
