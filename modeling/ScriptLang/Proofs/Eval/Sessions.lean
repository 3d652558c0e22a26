import ScriptLang.Proofs.Eval.Programs
import ScriptLang.Proofs.Eval.Soundness
import ScriptLang.Proofs.Syntax.Concatenation
import ScriptLang.Session

/-! # Sessions as one program

Programs that run one after another, each to its last statement, do together what they do when
their texts are joined by line breaks and run at once on a fresh machine.
-/

namespace ScriptLang

open Fuelled

variable {α β : Type} {context : Context} {machine after : Machine} {nodes nodes' : List Node}
  {result value : Value} {failure : Failure} {fuel : Nat}

def Returns (context : Context) (machine : Machine) (nodes : List Node) : Prop :=
  ∃ value after, Halts (fun fuel => Eval.sequence (Eval.execute fuel context) nodes) machine
    (.ok (.returned value) after)

theorem perform_sequence : (sequence context nodes).perform =
    fun fuel => Eval.sequence (Eval.execute fuel context) nodes := rfl

theorem not_returns (fuel : Nat)
    (h : (sequence context nodes).perform fuel machine = .ok .normal after) :
    ¬Returns context machine nodes := by
  rintro ⟨value, after', hr⟩
  have hhalts : Halts (sequence context nodes).perform machine (.ok .normal after) :=
    ⟨fuel, h, settled_ok⟩
  cases halts_unique hhalts hr

theorem Returns.tail {node : Node} {during : Machine}
    (h : Halts (execute context node).perform machine (.ok .normal during))
    (hr : Returns context during nodes) : Returns context machine (node :: nodes) := by
  obtain ⟨value, after, hr⟩ := hr
  refine ⟨value, after, ?_⟩
  rw [← perform_sequence] at hr ⊢
  rw [sequence_cons, halts_bind]
  exact .inl ⟨.normal, during, h, hr⟩

theorem Returns.head {node : Node}
    (h : Halts (execute context node).perform machine (.ok (.returned value) after)) :
    Returns context machine (node :: nodes) := by
  refine ⟨value, after, ?_⟩
  rw [← perform_sequence, sequence_cons, halts_bind]
  exact .inl ⟨.returned value, after, h, halts_pure.mpr rfl⟩

theorem Fuelled.HasValue.halts {node : Node} {action : Fuelled Value}
    (hv : HasValue context node action)
    (h : action.perform fuel machine = .ok value after) :
    Halts (Fuelled.execute context node).perform machine (.ok .normal after) :=
  (hv.execute machine _).mpr
    (halts_bind.mpr (.inl ⟨value, after, ⟨fuel, h, settled_ok⟩, halts_pure.mpr rfl⟩))

/-- A program that goes on does so with what its first statements leave, unless one of them
returns. -/
theorem program_append (h : (program context result nodes).perform fuel machine = .ok value after)
    (hn : ¬Returns context machine nodes) :
    (program context result (nodes ++ nodes')).perform fuel machine =
      (program context value nodes').perform fuel after := by
  induction nodes generalizing result machine with
  | nil =>
    cases h
    rfl
  | cons node nodes ih =>
    rw [List.cons_append]
    rcases hasValue_or context node with ⟨action, hv⟩ | hv
    · rw [hv.program] at h ⊢
      obtain ⟨first, during, hfirst, hrest⟩ := bind_eq_ok h
      rw [perform_bind, bind_of_eq_ok hfirst]
      exact ih hrest fun hr => hn (.tail (hv.halts hfirst) hr)
    · rw [program_of_not hv] at h ⊢
      obtain ⟨signal, during, hsignal, hrest⟩ := bind_eq_ok h
      rw [perform_bind, bind_of_eq_ok hsignal]
      have hhalts : Halts (execute context node).perform machine (.ok signal during) :=
        ⟨fuel, hsignal, settled_ok⟩
      cases signal with
      | normal => exact ih hrest fun hr => hn (.tail hhalts hr)
      | returned value => exact absurd (.head hhalts) hn
      | breakLoop => cases hrest
      | continueLoop => cases hrest

/-- The first statement of a program that fails does so alone, or the program goes on with what it
leaves. -/
theorem program_cons_error {node : Node}
    (h : (program context result (node :: nodes)).perform fuel machine = .error failure after) :
    (program context result [node]).perform fuel machine = .error failure after ∨
      ∃ value during, (program context value nodes).perform fuel during = .error failure after ∧
        ∀ nodes, (program context result (node :: nodes)).perform fuel machine =
          (program context value nodes).perform fuel during := by
  rcases hasValue_or context node with ⟨action, hv⟩ | hv
  · rw [hv.program] at h ⊢
    rcases bind_eq_error h with he | ⟨value, during, hvalue, hrest⟩
    · exact .inl (bind_of_eq_error he)
    · refine .inr ⟨value, during, hrest, fun nodes => ?_⟩
      rw [hv.program, perform_bind, bind_of_eq_ok hvalue]
  · rw [program_of_not hv] at h ⊢
    rcases bind_eq_error h with he | ⟨signal, during, hsignal, hrest⟩
    · exact .inl (bind_of_eq_error he)
    · cases signal with
      | normal =>
        refine .inr ⟨.nil, during, hrest, fun nodes => ?_⟩
        rw [program_of_not hv, perform_bind, bind_of_eq_ok hsignal]
        rfl
      | _ => exact .inl ((bind_of_eq_ok hsignal).trans hrest)

/-- A program that fails does so at one statement. Those before it run through, and the statement
fails alone as well. -/
theorem program_fails
    (h : (program context result nodes).perform fuel machine = .error failure after) :
    ∃ before node rest value during, nodes = before ++ node :: rest ∧
      (program context result before).perform fuel machine = .ok value during ∧
      (program context value [node]).perform fuel during = .error failure after := by
  induction nodes generalizing result machine with
  | nil => cases h
  | cons node nodes ih =>
    rcases program_cons_error h with halone | ⟨value, during, hrest, hgoes⟩
    · exact ⟨[], node, nodes, result, machine, rfl, rfl, halone⟩
    · obtain ⟨before, last, rest, value', during', rfl, hbefore, hlast⟩ := ih hrest
      exact ⟨node :: before, last, rest, value', during', rfl, (hgoes before).trans hbefore, hlast⟩

theorem eq_ok_of_visible {action : EStateM.Result Failure Machine α} {last : α}
    (h : visible action = visible (.ok last after)) :
    ∃ after' : Machine, action = .ok last after' ∧ after'.unlogged = after.unlogged := by
  cases action with
  | ok first after' =>
    obtain ⟨rfl, hm⟩ := EStateM.Result.ok.inj h
    exact ⟨after', rfl, hm⟩
  | error failure after' => cases h

theorem eq_error_of_visible {action : EStateM.Result Failure Machine α}
    (h : visible action = .error failure after) : ∃ failure' after',
      action = .error failure' after' ∧ failure'.reported = failure ∧ after'.unlogged = after := by
  cases action with
  | ok first after' => cases h
  | error failure' after' =>
    obtain ⟨hf, hm⟩ := EStateM.Result.error.inj h
    exact ⟨failure', after', rfl, hf, hm⟩

theorem program_unlogged {machine' : Machine} (hm : machine'.unlogged = machine.unlogged)
    (h : (program context result nodes).perform fuel machine = .ok value after) :
    ∃ after' : Machine, (program context result nodes).perform fuel machine' = .ok value after' ∧
      after'.unlogged = after.unlogged := by
  apply eq_ok_of_visible
  rw [← h]
  exact (follows_program fuel).visible_eq hm (h ▸ settled_ok)

theorem Returns.unlogged {machine' : Machine} (hm : machine'.unlogged = machine.unlogged)
    (h : Returns context machine nodes) : Returns context machine' nodes := by
  have hr : Resembles (sequence context nodes) (sequence context nodes) :=
    .of_follows fun fuel => lawful_anyLog.pairing.sequence fun _ =>
      (anyLog_paired fuel).execute rfl
  obtain ⟨value, after, h⟩ := h
  obtain ⟨result, hhalts, hv⟩ := hr.1 machine machine' _ hm h
  obtain ⟨after', rfl, -⟩ := eq_ok_of_visible hv
  exact ⟨value, after', hhalts⟩

namespace Session

def inner (debug : Nat) : Context := ⟨globalFrame, debug, callLimit - 1⟩

theorem fuel_eq_add_one : Session.fuel = (Session.fuel - 1) + 1 := by decide

theorem visible_run (debug : Nat) (machine : Machine) (nodes : List Node) :
    ∃ during : Machine, during.unlogged = machine.unlogged ∧
    visible (Eval.run Session.fuel (Session.context debug globalFrame) (.program nodes) machine) =
      visible ((program (inner debug) .nil nodes).perform (Session.fuel - 1) during) := by
  let message : Unit → String := fun _ =>
    "run program: " ++ Integer.text nodes.length ++ " statements"
  refine ⟨machine.note debug 1 message, Machine.unlogged_note, ?_⟩
  rw [fuel_eq_add_one]
  exact visible_finishing

theorem runTree_of_program {debug : Nat}
    (h : (program (inner debug) .nil nodes).perform (Session.fuel - 1) machine = .ok value after) :
    ∃ after' : Machine, runTree debug globalFrame (.program nodes) machine = (.done value, after') ∧
      after'.unlogged = after.unlogged := by
  obtain ⟨machine', hm, hv⟩ := visible_run debug machine nodes
  obtain ⟨during, hd, hafter⟩ := program_unlogged hm h
  rw [hd] at hv
  obtain ⟨after', hr, hm'⟩ := eq_ok_of_visible hv
  refine ⟨after', ?_, hm'.trans hafter⟩
  rw [runTree, perform, hr]

theorem runSource_of_program {debug : Nat} {source : String}
    (hp : parse source = .ok (.program nodes))
    (h : (program (inner debug) .nil nodes).perform (Session.fuel - 1) machine = .ok value after) :
    ∃ after' : Machine, runSource debug globalFrame source machine = (.done value, after') ∧
      after'.unlogged = after.unlogged := by
  obtain ⟨after', hr, hm⟩ := runTree_of_program h
  refine ⟨after', ?_, hm⟩
  rw [runSource, hp]
  exact hr

theorem runTree_of_program_error {debug : Nat} {error : RuntimeError} {machine' : Machine}
    (hm : machine'.unlogged = machine.unlogged)
    (h : (program (inner debug) .nil nodes).perform (Session.fuel - 1) machine =
      .error failure after) (hf : failure.reported = .error error) : ∃ after' : Machine,
      runTree debug globalFrame (.program nodes) machine' = (.failed (.error error), after') ∧
        after'.unlogged = after.unlogged := by
  obtain ⟨during, hd, hv⟩ := visible_run debug machine' nodes
  have hs : Settled ((program (inner debug) .nil nodes).perform (Session.fuel - 1) machine) := by
    rw [h, settled_error]
    rintro rfl
    cases hf
  rw [(follows_program (Session.fuel - 1)).visible_eq (hd.trans hm) hs, h, visible, hf] at hv
  obtain ⟨failure', after', hr, hf', hm'⟩ := eq_error_of_visible hv
  obtain rfl : failure' = .error error := by
    cases failure' with
    | tooDeep => exact absurd hr run_ne_tooDeep
    | _ => exact hf'
  refine ⟨after', ?_, hm'⟩
  rw [runTree, perform, hr]

/-- A program with an error keeps what the statements before the failed one have done, and of that
one what it has done before its error. -/
theorem runTree_fails {debug : Nat} {error : RuntimeError}
    (h : runTree debug globalFrame (.program nodes) machine = (.failed (.error error), after)) :
    ∃ before node rest value during last, nodes = before ++ node :: rest ∧
      runTree debug globalFrame (.program before) machine = (.done value, during) ∧
      runTree debug globalFrame (.program [node]) during = (.failed (.error error), last) ∧
      last.unlogged = after.unlogged := by
  unfold runTree perform at h
  split at h
  · cases h
  · rename_i hr
    cases h
    obtain ⟨machine', hm, hv⟩ := visible_run debug machine nodes
    rw [hr] at hv
    obtain ⟨failure, after', he, hf, hafter⟩ := eq_error_of_visible hv.symm
    obtain ⟨before, node, rest, value, during', rfl, hbefore, hnode⟩ := program_fails he
    obtain ⟨middle, hmiddle, hmm⟩ := program_unlogged hm.symm hbefore
    obtain ⟨during, hduring, hdm⟩ := runTree_of_program hmiddle
    rw [program_result value .nil (List.cons_ne_nil node [])] at hnode
    obtain ⟨last, hlast, hlm⟩ := runTree_of_program_error (hdm.trans hmm) hnode hf
    exact ⟨before, node, rest, value, during, last, rfl, hduring, hlast, hlm.trans hafter⟩

theorem program_of_runSource {debug : Nat} {source : String}
    (h : runSource debug globalFrame source machine = (.done value, after)) :
    ∃ nodes, parse source = .ok (.program nodes) ∧ ∃ during : Machine,
      (program (inner debug) .nil nodes).perform (Session.fuel - 1) machine = .ok value during ∧
        during.unlogged = after.unlogged := by
  unfold runSource at h
  split at h
  · cases h
  · rename_i root hp
    obtain ⟨nodes, rfl⟩ := exists_nodes_of_parse hp
    refine ⟨nodes, hp, ?_⟩
    unfold runTree perform at h
    split at h
    · rename_i hr
      cases h
      obtain ⟨machine', hm, hv⟩ := visible_run debug machine nodes
      rw [hr] at hv
      obtain ⟨during, hd, hm'⟩ := eq_ok_of_visible hv.symm
      obtain ⟨during', hd', hm''⟩ := program_unlogged hm.symm hd
      exact ⟨during', hd', hm''.trans hm'⟩
    · cases h

/-- Programs that run one after another and whose values they answer. None of them fails and none
ends with a `return` among its statements. -/
inductive Runs (debug : Nat) : Machine → List (String × Value) → Machine → Prop where
  | done {machine : Machine} : Runs debug machine [] machine
  | step {machine during after : Machine} {source : String} {value : Value}
      {steps : List (String × Value)} :
      runSource debug globalFrame source machine = (.done value, during) →
      (∀ nodes, parse source = .ok (.program nodes) → ¬Returns (inner debug) machine nodes) →
      Runs debug during steps after → Runs debug machine ((source, value) :: steps) after

def joined (steps : List (String × Value)) : String := "\n".intercalate (steps.map Prod.fst)

/-- What a session answers: the value of its last program, if that has a statement. -/
def Last (steps : List (String × Value)) (value : Value) : Prop :=
  ∀ source last, steps.getLast? = some (source, last) → parse source ≠ .ok (.program []) →
    value = last

theorem program_of_step {debug : Nat} {source : String}
    (h : runSource debug globalFrame source machine = (.done value, after))
    (hn : ∀ nodes, parse source = .ok (.program nodes) → ¬Returns (inner debug) machine nodes) :
    ∃ nodes, parse source = .ok (.program nodes) ∧ ∀ machine' : Machine,
      machine'.unlogged = machine.unlogged → ¬Returns (inner debug) machine' nodes ∧
        ∀ result, ∃ value' during,
          (program (inner debug) result nodes).perform (Session.fuel - 1) machine' =
            .ok value' during ∧ during.unlogged = after.unlogged ∧
              (nodes ≠ [] → value' = value) := by
  obtain ⟨nodes, hp, during, hd, hafter⟩ := program_of_runSource h
  refine ⟨nodes, hp, fun machine' hm => ⟨fun hr => hn nodes hp (hr.unlogged hm.symm), ?_⟩⟩
  intro result
  obtain ⟨during', hd', hm'⟩ := program_unlogged hm hd
  rcases eq_or_ne nodes [] with rfl | hne
  · cases hd'
    exact ⟨result, machine', rfl, hm'.trans hafter, fun h => absurd rfl h⟩
  · rw [program_result .nil result hne] at hd'
    exact ⟨value, during', hd', hm'.trans hafter, fun _ => rfl⟩

theorem parse_empty : parse "" = .ok (.program []) := by
  have hp : parse (Node.program []).render = .ok (.program []) :=
    parse_render (.mk (List.forall_mem_nil _))
  rwa [show (Node.program []).render = "" by decide] at hp

theorem Runs.program {debug : Nat} {steps : List (String × Value)}
    (h : Runs debug machine steps after) : ∃ nodes, parse (joined steps) = .ok (.program nodes) ∧
      ∀ machine' : Machine, machine'.unlogged = machine.unlogged → ∀ result, ∃ value during,
        (program (inner debug) result nodes).perform (Session.fuel - 1) machine' =
          .ok value during ∧ during.unlogged = after.unlogged ∧ Last steps value := by
  induction h with
  | done => exact ⟨[], parse_empty, fun machine' hm result => ⟨result, machine', rfl, hm, nofun⟩⟩
  | @step machine during after source value steps hrun hn hrest ih =>
    obtain ⟨nodes, hp, hfirst⟩ := program_of_step hrun hn
    obtain ⟨nodes', hp', hnext⟩ := ih
    cases steps with
    | nil =>
      cases hrest
      refine ⟨nodes, by simpa [joined] using hp, fun machine' hm result => ?_⟩
      obtain ⟨-, hprogram⟩ := hfirst machine' hm
      obtain ⟨value', during', hd, hm', hv⟩ := hprogram result
      refine ⟨value', during', hd, hm', ?_⟩
      rintro _ _ ⟨⟩ hne
      exact hv fun hnil => hne (hnil ▸ hp)
    | cons step steps =>
      refine ⟨nodes ++ nodes', ?_, fun machine' hm result => ?_⟩
      · rw [joined, List.map_cons, List.map_cons, String.intercalate_cons_cons]
        exact parse_append hp hp'
      · obtain ⟨hnot, hprogram⟩ := hfirst machine' hm
        obtain ⟨value', during', hd, hm', -⟩ := hprogram result
        obtain ⟨last, during'', hd', hm'', hlast⟩ := hnext during' hm' value'
        refine ⟨last, during'', (program_append hd hnot).trans hd', hm'', ?_⟩
        intro source' value'' hl
        exact hlast source' value'' hl

end Session

/-- Two texts that parse do so with a line break between them, and the statements of the first one
come first. So programs that run one after another answer and leave what the program of their
joined texts does on a fresh machine. -/
theorem sources_concatenate :
    (∀ first second program program', parse first = .ok program → parse second = .ok program' →
      ∃ nodes nodes', program = .program nodes ∧ program' = .program nodes' ∧
        parse (first ++ "\n" ++ second) = .ok (.program (nodes ++ nodes'))) ∧
      ∀ debug input steps after, Session.Runs debug (.initial input) steps after →
        ∃ value after', Session.runSource debug Session.globalFrame (Session.joined steps)
            (.initial input) = (.done value, after') ∧
          after'.unlogged = after.unlogged ∧ after'.out = after.out ∧
          Session.globals after' = Session.globals after ∧ Session.Last steps value := by
  constructor
  · intro first second program program' h h'
    obtain ⟨nodes, rfl⟩ := exists_nodes_of_parse h
    obtain ⟨nodes', rfl⟩ := exists_nodes_of_parse h'
    exact ⟨nodes, nodes', rfl, rfl, parse_append h h'⟩
  · intro debug input steps after hruns
    obtain ⟨nodes, hp, hprogram⟩ := hruns.program
    obtain ⟨value, during, hd, hm, hlast⟩ := hprogram (.initial input) rfl .nil
    obtain ⟨after', hrun, hm'⟩ := Session.runSource_of_program hp hd
    have hsame : after'.unlogged = after.unlogged := hm'.trans hm
    have hout : after'.out = after.out := congrArg (·.out) hsame
    have hstore : after'.store = after.store := congrArg (·.store) hsame
    refine ⟨value, after', hrun, hsame, hout, ?_, hlast⟩
    unfold Session.globals
    rw [hstore]

/-- An assignment and an expression. -/
theorem sources_concatenate_two :
    let first : Node := .program [.assign (.str "x") (.literal (.int 1) (.str "Integer"))]
    let second : Node := .program [.exprStmt (.ident (.str "x"))]
    let steps : List (String × Value) := [(first.render, .int 1), (second.render, .int 1)]
    (parse first.render = .ok first ∧ parse second.render = .ok second ∧
      ∃ nodes nodes', first = .program nodes ∧ second = .program nodes' ∧
        parse (first.render ++ "\n" ++ second.render) = .ok (.program (nodes ++ nodes'))) ∧
      ∃ after, Session.Runs 0 (.initial "") steps after ∧
        ∃ value after', Session.runSource 0 Session.globalFrame (Session.joined steps)
            (.initial "") = (.done value, after') ∧
          after'.unlogged = after.unlogged ∧ after'.out = after.out ∧
          Session.globals after' = Session.globals after ∧ Session.Last steps value := by
  intro first second steps
  have hx : IsName "x".toList := by decide
  have hassign : WellFormed.Statement (.assign (.str "x") (.literal (.int 1) (.str "Integer"))) :=
    .assign (.mk hx (.int (by decide)))
  have hfirst : parse first.render = .ok first :=
    parse_render (.mk (List.forall_mem_singleton.mpr hassign))
  have hsecond : parse second.render = .ok second :=
    parse_render (.mk (List.forall_mem_singleton.mpr (.expr (.ident hx))))
  refine ⟨⟨hfirst, hsecond, sources_concatenate.1 _ _ _ _ hfirst hsecond⟩, ?_⟩
  have hends : ∃ during, Session.runSource 0 Session.globalFrame first.render (.initial "") =
      (.done (.int 1), during) ∧
        ∃ after, Session.runSource 0 Session.globalFrame second.render during =
          (.done (.int 1), after) ∧
            ¬Returns (Session.inner 0) during [.exprStmt (.ident (.str "x"))] := by
    simp only [Session.runSource, hfirst, hsecond]
    exact ⟨_, rfl, _, rfl, not_returns 9 rfl⟩
  obtain ⟨during, hone, after, htwo, hnot⟩ := hends
  have hruns : Session.Runs 0 (.initial "") steps after := by
    refine .step hone (fun nodes hp => ?_) (.step htwo (fun nodes hp => ?_) .done)
    · obtain rfl := Node.program.inj (Except.ok.inj (hfirst.symm.trans hp))
      exact not_returns 9 rfl
    · obtain rfl := Node.program.inj (Except.ok.inj (hsecond.symm.trans hp))
      exact hnot
  exact ⟨after, hruns, sources_concatenate.2 _ _ _ _ hruns⟩

end ScriptLang
