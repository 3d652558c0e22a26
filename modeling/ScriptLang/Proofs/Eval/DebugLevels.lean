import ScriptLang.Proofs.Eval.Comparison
import ScriptLang.Proofs.Repl.Rounds

/-! # Debug levels

At a lower debug level a run does what it does at a higher one and logs less. Both runs need the
texts of the same values, except that of a function that is called: only some levels show it. Every
function that a parsed program makes has one.
-/

namespace ScriptLang

variable {α : Type} {low high : Nat} {machine : Machine}

/-- The machine with only what a debug level shows in its log. -/
def Machine.shownAt (level : Nat) (machine : Machine) : Machine :=
  { machine with log := machine.log.filter fun entry => decide (entry.level ≤ level) }

def shownAt (level : Nat) : EStateM.Result Failure Machine α → EStateM.Result Failure Machine α
  | .ok value machine => .ok value (machine.shownAt level)
  | .error failure machine => .error failure (machine.shownAt level)

namespace Comparison

/-- A run at a high level and the same run at a low one. Failures for want of a text are set
aside. -/
def levels (low high : Nat) : Comparison where
  first := high
  second := low
  Logs log log' := log' = log.filter fun entry => decide (entry.level ≤ low)
  Lost failure := failure = .fault .unusable

theorem shownAt_note {level : Nat} {message : Unit → String} (hle : low ≤ high) :
    (machine.note high level message).shownAt low =
      (machine.shownAt low).note low level message := by
  unfold Machine.note
  by_cases hlow : level ≤ low
  · rw [if_pos (hlow.trans hle), if_pos hlow]
    simp [Machine.shownAt, hlow]
  · rw [if_neg hlow]
    split
    · simp [Machine.shownAt, hlow]
    · rfl

theorem levels_like_iff {machine' : Machine} :
    (levels low high).Like machine machine' ↔ machine' = machine.shownAt low := by
  constructor
  · rintro ⟨log, rfl, rfl⟩
    rfl
  · rintro rfl
    exact ⟨_, rfl, rfl⟩

theorem lawful_levels (hle : low ≤ high) : (levels low high).Lawful where
  note hm := levels_like_iff.mpr (levels_like_iff.mp hm ▸ (shownAt_note hle).symm)
  tooDeep h := by cases h
  text h := h.trans hle
  text' _ := .inr rfl

theorem Agrees.shownAt_eq {result result' : EStateM.Result Failure Machine α}
    (h : (levels low high).Agrees result result') : result' = shownAt low result := by
  cases h with
  | ok hm =>
    rw [levels_like_iff.mp hm]
    rfl
  | error hm =>
    rw [levels_like_iff.mp hm]
    rfl

end Comparison

/-- What was parsed never wants a text that is not there. -/
theorem Machine.Arises.run_ne_unusable (hm : machine.Arises) {source : String} {root : Node}
    (hp : parse source = .ok root) {fuel : Nat} {context : Context} {after : Machine} :
    Eval.run fuel context root machine ≠ .error (.fault .unusable) after := by
  intro he
  rcases hm.run_fails hp he with h | h
  · cases h
  · cases h

theorem run_shownAt (hle : low ≤ high) (hm : machine.Arises) {source : String} {root : Node}
    (hp : parse source = .ok root) (fuel frame calls : Nat) :
    Eval.run fuel ⟨frame, low, calls⟩ root (machine.shownAt low) =
      shownAt low (Eval.run fuel ⟨frame, high, calls⟩ root machine) := by
  have hpaired : (Comparison.levels low high).Follows (Eval.run fuel ⟨frame, high, calls⟩ root)
      (Eval.run fuel ⟨frame, low, calls⟩ root) :=
    ((Comparison.lawful_levels hle).pairing.paired (.inl rfl)).run rfl
  rcases hpaired machine (machine.shownAt low) (Comparison.levels_like_iff.mpr rfl) with
    ⟨failure, after, he, rfl⟩ | ha
  · exact absurd he (hm.run_ne_unusable hp)
  · exact ha.shownAt_eq

namespace Session

variable {source : String}

theorem runTree_shownAt (hle : low ≤ high) (hm : machine.Arises) {root : Node}
    (hp : parse source = .ok root) (frame : Nat) :
    runTree low frame root (machine.shownAt low) =
      (runTree high frame root machine).map id (Machine.shownAt low) := by
  unfold runTree perform context
  rw [run_shownAt hle hm hp]
  cases Eval.run fuel ⟨frame, high, callLimit⟩ root machine with
  | ok value after => rfl
  | error failure after => rfl

theorem runSource_shownAt (hle : low ≤ high) (hm : machine.Arises) (frame : Nat)
    (source : String) : runSource low frame source (machine.shownAt low) =
      (runSource high frame source machine).map id (Machine.shownAt low) := by
  unfold runSource
  split
  · rfl
  · exact runTree_shownAt hle hm (by assumption) frame

theorem replay_shownAt (hle : low ≤ high) (hm : machine.Arises) (sources : List String) :
    replay low sources (machine.shownAt low) =
      (replay high sources machine).map id (Machine.shownAt low) := by
  induction sources generalizing machine with
  | nil => rfl
  | cons source sources ih =>
    have hrun := runSource_shownAt hle hm.silence globalFrame source
    have hafter : (runSource high globalFrame source { machine with out := "" }).2.Arises :=
      hm.silence.runSource
    unfold replay
    change (runSource low globalFrame source { machine.shownAt low with out := "" }) = _ at hrun
    rw [hrun]
    dsimp only [Prod.map]
    rw [ih hafter]
    rfl

end Session

namespace Repl

def Console.shownAt (level : Nat) (console : Console) : Console :=
  { console with machine := console.machine.shownAt level }

theorem settle_shownAt (root : Node) (err : String) (outcome : Outcome Value) :
    settle root err (outcome, machine.shownAt low) =
      (settle root err (outcome, machine)).map id (Console.shownAt low) := by
  cases outcome with
  | done value => rfl
  | unparsed error => rfl
  | failed failure =>
    cases failure with
    | _ => rfl

theorem runLine_shownAt (hle : low ≤ high) {console : Console} (hm : console.machine.Arises)
    (line : String) : runLine low line (console.shownAt low) =
      (runLine high line console).map id (Console.shownAt low) := by
  cases hp : parse line with
  | error error =>
    rw [runLine_of_error hp, runLine_of_error hp]
    rfl
  | ok root =>
    rw [runLine_of_ok hp, runLine_of_ok hp]
    dsimp only [Console.shownAt]
    rw [Session.runTree_shownAt hle hm hp]
    exact settle_shownAt root console.err _

theorem round_shownAt (hle : low ≤ high) {console : Console} (hm : console.machine.Arises) :
    round low (console.shownAt low) = (round high console).map id (Console.shownAt low) := by
  have hline := runLine_shownAt hle (ask_arises hm (Machine.nextLine console.machine.input).2)
    (String.ofList (Machine.nextLine console.machine.input).1)
  unfold round
  dsimp only [Console.shownAt, Machine.shownAt] at hline ⊢
  split
  · rfl
  · split
    · rfl
    · exact (congrArg (Prod.map (Option.map End.failed) id) hline).trans rfl

theorem loop_shownAt (hle : low ≤ high) {console : Console} (hm : console.machine.Arises)
    (rounds : Nat) : loop low rounds (console.shownAt low) =
      (loop high rounds console).map id (Console.shownAt low) := by
  induction rounds generalizing console with
  | zero => rfl
  | succ rounds ih =>
    have hafter : (round high console).2.machine.Arises := round_arises hm
    rw [loop_succ, loop_succ, round_shownAt hle hm]
    generalize round high console = result at hafter ⊢
    obtain ⟨ending, after⟩ := result
    cases ending with
    | none => exact ih hafter
    | some ending => rfl

end Repl

/-- Debug levels only decide how much is logged. Of two runs the one at the lower level ends as the
other does, with the same output, the same unread input and the same frames, and its log is what
the lower level shows of the other log. This holds of any parsed program on any machine that such
programs have left behind, of sources one after another and of the interactive loop. -/
theorem debug_levels_agree (hle : low ≤ high) :
    (∀ machine : Machine, machine.Arises → ∀ source root, parse source = .ok root →
      ∀ fuel frame calls, Eval.run fuel ⟨frame, low, calls⟩ root (machine.shownAt low) =
        shownAt low (Eval.run fuel ⟨frame, high, calls⟩ root machine)) ∧
    (∀ input sources, Session.replay low sources (.initial input) =
      (Session.replay high sources (.initial input)).map id (Machine.shownAt low)) ∧
    ∀ input, Repl.run low ⟨.initial input, ""⟩ =
      (Repl.run high ⟨.initial input, ""⟩).map id (Repl.Console.shownAt low) := by
  refine ⟨fun _ hm _ _ hp fuel frame calls => run_shownAt hle hm hp fuel frame calls,
    fun input sources => Session.replay_shownAt hle (.initial input) sources, fun input => ?_⟩
  have hm : (Repl.Console.mk (.initial input) "").machine.Arises := .initial input
  exact Repl.loop_shownAt hle hm _

/-- An assignment is logged at the second level. -/
theorem debug_levels_agree_assignment :
    let root : Node := .program [.assign (.str "x") (.literal (.int 1) (.str "Integer"))]
    let machine : Machine := .initial ""
    1 ≤ 2 ∧ machine.Arises ∧ parse root.render = .ok root ∧
      (∃ after after', Eval.run 9 ⟨0, 1, 9⟩ root (machine.shownAt 1) = .ok (.int 1) after ∧
        Eval.run 9 ⟨0, 2, 9⟩ root machine = .ok (.int 1) after' ∧
        after = after'.shownAt 1 ∧ after.log.size = 2 ∧ after'.log.size = 3) ∧
      Session.replay 1 [root.render] machine =
        (Session.replay 2 [root.render] machine).map id (Machine.shownAt 1) ∧
      Repl.run 1 ⟨.initial root.render, ""⟩ =
        (Repl.run 2 ⟨.initial root.render, ""⟩).map id (Repl.Console.shownAt 1) := by
  intro root machine
  have hx : IsName "x".toList := by decide
  have hp : parse root.render = .ok root :=
    parse_render (.mk (List.forall_mem_singleton.mpr (.assign (.mk hx (.int (by decide))))))
  obtain ⟨hruns, hsessions, hloops⟩ := debug_levels_agree (show 1 ≤ 2 by decide)
  have hrun := hruns machine (.initial "") _ _ hp 9 0 9
  have hhigh : Eval.run 9 ⟨0, 2, 9⟩ root machine = .ok (.int 1) _ := rfl
  rw [hhigh] at hrun
  exact ⟨by decide, .initial "", hp, ⟨_, _, hrun, hhigh, rfl, rfl, rfl⟩,
    hsessions "" [root.render], hloops root.render⟩

end ScriptLang
