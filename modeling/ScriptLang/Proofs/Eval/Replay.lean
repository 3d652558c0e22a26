import ScriptLang.Proofs.Eval.Soundness
import ScriptLang.Proofs.Eval.Streams
import ScriptLang.Session

/-! # Sources one after another

What a session shows of each of its sources: how it ends, what it prints and what it takes from
the input.
-/

namespace ScriptLang

variable {machine after : Machine} {debug frame : Nat} {source : String}

namespace Session

/-- A source that has been run. -/
structure Step where
  source : String
  outcome : Outcome Value
  output : String
  taken : List Char

/-- Runs sources in the outermost frame, one after another, whatever becomes of each. -/
def replay (debug : Nat) : List String → Machine → List Step × Machine
  | [], machine => ([], machine)
  | source :: sources, machine =>
    let (outcome, after) := runSource debug globalFrame source { machine with out := "" }
    let taken := machine.input.take (machine.input.length - after.input.length)
    let (steps, last) := replay debug sources after
    (⟨source, outcome, after.out, taken⟩ :: steps, last)

theorem runTree_ne_unparsed {root : Node} {error : ParseError} :
    (runTree debug frame root machine).1 ≠ .unparsed error := by
  unfold runTree perform
  split
  · exact nofun
  · exact nofun

theorem runSource_unparsed {error : ParseError}
    (h : (runSource debug frame source machine).1 = .unparsed error) :
    parse source = .error error := by
  unfold runSource at h
  split at h
  · rename_i hp
    cases h
    exact hp
  · exact absurd h runTree_ne_unparsed

section Streams

variable {α : Type} {action : Eval α} {lines : List (List Char)} {rest : List Char} {step : Step}

theorem leaving_eq : leaving (action machine) = (perform action machine).2 := by
  unfold perform
  cases action machine with
  | ok value machine => rfl
  | error failure machine => rfl

theorem perform_streaming {machine' : Machine} {out : String} {input : List Char}
    (h : action machine' = streaming out input (action machine)) :
    perform action machine' =
      ((perform action machine).1, (perform action machine).2.streaming out input) := by
  unfold perform
  rw [h]
  cases action machine with
  | ok value machine => rfl
  | error failure machine => rfl

/-- A source that runs on a machine makes a step: it prints and takes some lines from the input. It
makes the same step on every machine with other streams that begin with these lines. -/
structure Makes (debug : Nat) (machine : Machine) (step : Step) (lines : List (List Char))
    (after : Machine) : Prop where
  ran : runSource debug globalFrame step.source machine = (step.outcome, after)
  out : after.out = machine.out ++ step.output
  input : Reads machine.input lines after.input
  taken : step.taken = lines.flatten
  alike {out : String} {input rest : List Char} : Reads input lines rest →
    (after.input = [] → rest = []) →
    runSource debug globalFrame step.source (machine.streaming out input) =
      (step.outcome, after.streaming (out ++ step.output) rest)

theorem exists_makes (debug : Nat) (machine : Machine) (source : String) :
    ∃ step lines after, step.source = source ∧ Makes debug machine step lines after := by
  cases hp : parse source with
  | error error =>
    have hran (machine : Machine) :
        runSource debug globalFrame source machine = (.unparsed error, machine) := by
      rw [runSource, hp]
    refine ⟨⟨source, .unparsed error, "", []⟩, [], machine, rfl, ?_⟩
    refine ⟨hran machine, String.append_empty.symm, .done, rfl, ?_⟩
    intro out input rest hread _
    cases hread
    rw [String.append_empty]
    exact hran _
  | ok root =>
    have hran (machine : Machine) :
        runSource debug globalFrame source machine = runTree debug globalFrame root machine := by
      rw [runSource, hp]
    obtain ⟨text, lines, hout, hinput, halike⟩ :=
      streams_run Session.fuel (context debug globalFrame) root machine
    rw [leaving_eq] at hout hinput halike
    refine ⟨⟨source, (runTree debug globalFrame root machine).1, text, lines.flatten⟩, lines,
      (runTree debug globalFrame root machine).2, rfl, ?_⟩
    refine ⟨hran machine, hout, hinput, rfl, ?_⟩
    intro out input rest hread hend
    exact (hran _).trans (perform_streaming (halike hread hend))

theorem Makes.replay (h : Makes debug machine step lines after)
    (hend : after.input = [] → rest = []) (sources : List String) (out : String) :
    replay debug (step.source :: sources) (machine.streaming out (lines.flatten ++ rest)) =
      (step :: (Session.replay debug sources (after.streaming step.output rest)).1,
        (Session.replay debug sources (after.streaming step.output rest)).2) := by
  have hran : runSource debug globalFrame step.source
      (machine.streaming "" (lines.flatten ++ rest)) =
        (step.outcome, after.streaming step.output rest) := by
    rw [h.alike (h.input.again hend) hend, String.empty_append]
  have htaken : (lines.flatten ++ rest).take ((lines.flatten ++ rest).length - rest.length) =
      step.taken := by
    rw [h.taken, List.length_append, Nat.add_sub_cancel, List.take_left]
  rw [Session.replay]
  dsimp only [Machine.streaming] at hran ⊢
  rw [hran]
  dsimp only
  rw [htaken]

end Streams

end Session

namespace Machine.Arises

theorem run_fails (hm : machine.Arises) {root : Node} (hp : parse source = .ok root) {fuel : Nat}
    {context : Context} {failure : Failure} {after : Machine}
    (h : Eval.run fuel context root machine = .error failure after) :
    failure.Ordinary ∨ failure = .outOfFuel := by
  have hkept : Discipline.sound.Keeps (Eval.run fuel context root) Discipline.sound.Holds :=
    (Discipline.sound_lawful.kept fuel).run trivial (Discipline.sound_root hp)
  have hends := hkept machine hm.sound
  rw [h] at hends
  obtain ⟨-, ho | rfl | hf⟩ := hends
  · exact .inl ho
  · obtain ⟨-⟩ := WellFormed.of_parse hp
    exact absurd h run_ne_tooDeep
  · exact .inr hf

theorem runTree (hm : machine.Arises) {root : Node} (hp : parse source = .ok root) :
    (Session.runTree debug frame root machine).2.Arises := by
  have hran := hm.ran Session.fuel (Session.context debug frame) hp
  have heq : (Piece.run Session.fuel (Session.context debug frame) root).leave machine =
      (Session.runTree debug frame root machine).2 := by
    unfold Session.runTree Session.perform Piece.leave
    cases hr : Eval.run Session.fuel (Session.context debug frame) root machine with
    | ok value after => rw [Piece.perform, bind_of_eq_ok hr]; rfl
    | error failure after => rw [Piece.perform, bind_of_eq_error hr]
  rwa [← heq]

theorem runSource (hm : machine.Arises) :
    (Session.runSource debug frame source machine).2.Arises := by
  unfold Session.runSource
  split
  · exact hm
  · exact hm.runTree (by assumption)

theorem write (hm : machine.Arises) (text : String) : (machine.write text).Arises :=
  hm.streams (machine.out ++ text) machine.input machine.log

theorem unread (hm : machine.Arises) (input : List Char) :
    ({ machine with input } : Machine).Arises :=
  hm.streams machine.out input machine.log

theorem silence (hm : machine.Arises) : ({ machine with out := "" } : Machine).Arises :=
  hm.streams "" machine.input machine.log

end Machine.Arises

end ScriptLang
