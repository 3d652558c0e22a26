import Mathlib.Logic.Relation
import ScriptLang.Proofs.Eval.Programs
import ScriptLang.Proofs.Eval.Signals

/-! # How far a program comes

A program goes from each of its statements to the next until one returns or none is left. There is
only one way for it to go, so of each of its statements it can be said whether it comes to it.
-/

namespace ScriptLang

/-- A program on its way: the value so far, the statements that are left, and the machine. -/
structure Stage where
  value : Value
  rest : List Node
  machine : Machine

namespace Stage

variable {fuel : Nat} {context : Context} {stage next last : Stage} {value : Value}
  {node : Node} {nodes : List Node} {machine after : Machine}

def first (debug : Nat) (nodes : List Node) (machine : Machine) : Stage where
  value := .nil
  rest := nodes
  machine := machine.note debug 1 fun _ =>
    "run program: " ++ Integer.text nodes.length ++ " statements"

def piece (fuel : Nat) (context : Context) (stage : Stage) : Piece :=
  .program fuel context stage.value stage.rest

def finish (fuel : Nat) (context : Context) (stage : Stage) : EStateM.Result Failure Machine Value :=
  (Fuelled.program context stage.value stage.rest).perform fuel stage.machine

/-- The next statement ends without a jump. -/
def GoesTo (fuel : Nat) (context : Context) (stage next : Stage) : Prop :=
  Starts (stage.piece fuel context) stage.machine (next.piece fuel context) next.machine

/-- The statements in between end one after another, none of them with a jump. -/
def ComesTo (fuel : Nat) (context : Context) : Stage → Stage → Prop :=
  Relation.ReflTransGen (GoesTo fuel context)

/-- The program ends here with a value: no statement is left, or the next one returns. -/
inductive Ends (fuel : Nat) (context : Context) : Stage → Value → Machine → Prop where
  | done {value : Value} {machine : Machine} :
      Ends fuel context ⟨value, [], machine⟩ value machine
  | returned {former value : Value} {node : Node} {rest : List Node} {machine after : Machine} :
      Eval.execute fuel context node machine = .ok (.returned value) after →
      Ends fuel context ⟨former, node :: rest, machine⟩ value after

theorem GoesTo.eq_cons (h : stage.GoesTo fuel context next) :
    ∃ node, stage.rest = node :: next.rest := by
  obtain ⟨former, nodes, machine⟩ := stage
  obtain ⟨value, rest, after⟩ := next
  cases h with
  | afterExpr => exact ⟨_, rfl⟩
  | afterAssigned => exact ⟨_, rfl⟩
  | afterStatement => exact ⟨_, rfl⟩

theorem rightUnique_goesTo : Relator.RightUnique (GoesTo fuel context) := by
  rintro ⟨former, nodes, machine⟩ ⟨value, rest, after⟩ ⟨value', rest', after'⟩ h h'
  cases h with
  | afterExpr he =>
    cases h' with
    | afterExpr he' =>
      cases he.symm.trans he'
      rfl
    | afterStatement hn => exact absurd rfl (hn _)
  | afterAssigned he =>
    cases h' with
    | afterAssigned he' =>
      cases he.symm.trans he'
      rfl
    | afterStatement _ ha => exact absurd rfl (ha _ _)
  | afterStatement hn ha he =>
    cases h' with
    | afterExpr => exact absurd rfl (hn _)
    | afterAssigned => exact absurd rfl (ha _ _)
    | afterStatement _ _ he' =>
      cases he.symm.trans he'
      rfl

theorem not_hasValue (hn : ∀ expr, node ≠ .exprStmt expr) (ha : ∀ name expr, node ≠ .assign name expr)
    (action : Fuelled Value) : ¬Fuelled.HasValue context node action := by
  intro hv
  cases hv with
  | expr => exact hn _ rfl
  | assign => exact ha _ _ rfl

theorem GoesTo.finish_eq (h : stage.GoesTo fuel context next) :
    stage.finish fuel context = next.finish fuel context := by
  obtain ⟨former, nodes, machine⟩ := stage
  obtain ⟨value, rest, after⟩ := next
  cases h with
  | afterExpr he => exact bind_of_eq_ok he
  | afterAssigned he => exact bind_of_eq_ok he
  | afterStatement hn ha he =>
    rw [finish, Fuelled.program_of_not (not_hasValue hn ha)]
    exact bind_of_eq_ok he

theorem execute_ne_returned {action : Fuelled Value} (hv : Fuelled.HasValue context node action) :
    Eval.execute fuel context node machine ≠ .ok (.returned value) after := by
  intro h
  cases fuel with
  | zero => cases h
  | succ fuel =>
    cases hv with
    | expr =>
      obtain ⟨_, _, -, h⟩ := bind_eq_ok h
      cases h
    | assign =>
      obtain ⟨_, _, -, h⟩ := bind_eq_ok h
      cases h

theorem Ends.finish_eq (h : stage.Ends fuel context value after) :
    stage.finish fuel context = .ok value after := by
  cases h with
  | done => rfl
  | returned h =>
    have hv (action : Fuelled Value) : ¬Fuelled.HasValue context _ action :=
      fun hv => execute_ne_returned hv h
    rw [finish, Fuelled.program_of_not hv]
    exact bind_of_eq_ok h

theorem Ends.not_goesTo (h : stage.Ends fuel context value after) :
    ¬stage.GoesTo fuel context next := by
  intro hg
  obtain ⟨_, rest, _⟩ := next
  cases h with
  | done => cases hg
  | returned h =>
    cases hg with
    | afterExpr => exact execute_ne_returned .expr h
    | afterAssigned => exact execute_ne_returned .assign h
    | afterStatement _ _ he => cases he.symm.trans h

theorem ends_or_goesTo (h : stage.finish fuel context = .ok value after) :
    stage.Ends fuel context value after ∨
      ∃ next, stage.GoesTo fuel context next ∧ next.finish fuel context = .ok value after := by
  obtain ⟨former, nodes, machine⟩ := stage
  cases nodes with
  | nil =>
    cases h
    exact .inl .done
  | cons node rest =>
    rcases Fuelled.hasValue_or context node with ⟨action, hv⟩ | hv
    · rw [finish, hv.program] at h
      obtain ⟨result, during, he, h⟩ := bind_eq_ok h
      refine .inr ⟨⟨result, rest, during⟩, ?_, h⟩
      cases hv with
      | expr => exact .afterExpr he
      | assign => exact .afterAssigned he
    · rw [finish, Fuelled.program_of_not hv] at h
      obtain ⟨signal, during, he, h⟩ := bind_eq_ok h
      cases signal with
      | normal =>
        refine .inr ⟨⟨.nil, rest, during⟩, .afterStatement ?_ ?_ he, h⟩
        · rintro expr rfl
          exact hv _ .expr
        · rintro name expr rfl
          exact hv _ .assign
      | returned result =>
        cases h
        exact .inl (.returned he)
      | breakLoop => cases h
      | continueLoop => cases h

theorem ComesTo.suffix (h : stage.ComesTo fuel context last) : last.rest <:+ stage.rest := by
  induction h with
  | refl => exact List.suffix_rfl
  | tail _ hg ih =>
    obtain ⟨node, hn⟩ := hg.eq_cons
    exact (hn ▸ List.suffix_cons node _).trans ih

theorem ComesTo.finish_eq (h : stage.ComesTo fuel context last) :
    stage.finish fuel context = last.finish fuel context := by
  induction h with
  | refl => rfl
  | tail _ hg ih => exact ih.trans hg.finish_eq

/-- A program ends at one stage only. -/
theorem ComesTo.eq_of_ends {value' : Value} {after' : Machine} (hn : stage.ComesTo fuel context next)
    (he : next.Ends fuel context value after) (hl : stage.ComesTo fuel context last)
    (he' : last.Ends fuel context value' after') : last = next := by
  -- Of two stages on the way one comes first, and the program does not go on where it ends.
  rcases Relation.ReflTransGen.total_of_right_unique rightUnique_goesTo hn hl with h | h
  · exact (Relation.reflTransGen_iff_eq fun _ => he.not_goesTo).mp h
  · exact ((Relation.reflTransGen_iff_eq fun _ => he'.not_goesTo).mp h).symm

theorem ComesTo.exists_last (h : stage.ComesTo fuel context ⟨value, [], after⟩)
    (hr : stage.rest = nodes ++ [node]) : ∃ former during,
      stage.ComesTo fuel context ⟨former, [node], during⟩ ∧
        GoesTo fuel context ⟨former, [node], during⟩ ⟨value, [], after⟩ := by
  rcases h.cases_tail with rfl | ⟨⟨former, rest, during⟩, hc, hg⟩
  · exact absurd hr (List.append_ne_nil_of_right_ne_nil _ (List.cons_ne_nil _ _)).symm
  · obtain ⟨other, ho⟩ := hg.eq_cons
    obtain rfl : rest = [other] := ho
    have hs := ComesTo.suffix hc
    rw [hr, List.singleton_suffix_iff_getLast?_eq_some, List.getLast?_concat] at hs
    cases hs
    exact ⟨former, during, hc, hg⟩

/-- A program ends with a value where it comes to no further statement or to one that returns. -/
theorem finish_eq_ok_iff : stage.finish fuel context = .ok value after ↔
    ∃ last, stage.ComesTo fuel context last ∧ last.Ends fuel context value after := by
  constructor
  · intro h
    obtain ⟨former, nodes, machine⟩ := stage
    induction nodes generalizing former machine with
    | nil =>
      rcases ends_or_goesTo h with he | ⟨next, hg, -⟩
      · exact ⟨_, .refl, he⟩
      · exact nomatch hg.eq_cons
    | cons node rest ih =>
      rcases ends_or_goesTo h with he | ⟨⟨result, nodes, during⟩, hg, hrest⟩
      · exact ⟨_, .refl, he⟩
      · obtain ⟨_, hn⟩ := hg.eq_cons
        obtain ⟨-, rfl⟩ := List.cons.inj hn
        obtain ⟨last, hc, he⟩ := ih result during hrest
        exact ⟨last, hc.head hg, he⟩
  · rintro ⟨last, hc, he⟩
    exact hc.finish_eq.trans he.finish_eq

end Stage

variable {fuel : Nat} {context : Context} {machine : Machine} {nodes : List Node} {value : Value}

theorem finishing_done_iff {action : Eval Value} :
    (∃ after, Eval.finishing context action machine = .ok value after) ↔
      ∃ during, action machine = .ok value during := by
  unfold Eval.finishing
  dsimp only
  constructor
  · rintro ⟨after, h⟩
    split at h
    · cases h
      exact ⟨_, by assumption⟩
    · cases h
    · cases h
  · rintro ⟨during, h⟩
    rw [h]
    exact ⟨_, rfl⟩

theorem run_done_iff (hc : context.calls ≠ 0) :
    (∃ after, Eval.run (fuel + 1) context (.program nodes) machine = .ok value after) ↔
      ∃ during, (Stage.first context.debug nodes machine).finish fuel
        { context with calls := context.calls - 1 } = .ok value during := by
  have hrun : Eval.run (fuel + 1) context (.program nodes) machine =
      Eval.finishing context (if context.calls = 0 then throw .tooDeep else
        (Fuelled.program { context with calls := context.calls - 1 } .nil nodes).perform fuel)
        (Stage.first context.debug nodes machine).machine := rfl
  rw [hrun, if_neg hc]
  exact finishing_done_iff

end ScriptLang
