import ScriptLang.Proofs.Eval.Frames
import ScriptLang.Proofs.Eval.Pieces
import ScriptLang.Proofs.Eval.Uniform

/-! # Frames that a run can reach

A run changes only frames that can be reached from where it starts or that it makes itself, and it
hands out no others. For this reason functions that separate calls have made are independent.
-/

namespace ScriptLang

namespace Store

/-- The frames that can be reached from a frame and some values: those around a reached frame, and
those that the functions among the values or in a reached frame were made in. -/
inductive Reaches (store : Store) (scope : Nat) (values : List Value) : Nat → Prop where
  | scope : Reaches store scope values scope
  | value {closure : Closure} : .closure closure ∈ values → Reaches store scope values closure.scope
  | around {frame other : Nat} {found : Frame} : Reaches store scope values frame →
      store.frames[frame]? = some found → other ∈ found.ancestors →
      Reaches store scope values other
  | bound {frame : Nat} {found : Frame} {name : Name} {closure : Closure} :
      Reaches store scope values frame → store.frames[frame]? = some found →
      (name, .closure closure) ∈ found.bindings → Reaches store scope values closure.scope

/-- The store after something that started in a frame with some values and ended with others. -/
structure Confined (before : Store) (scope : Nat) (given : List Value) (after : Store)
    (values : List Value) : Prop where
  /-- Frames out of reach are as before. -/
  unchanged {frame : Nat} : frame < before.frames.size → ¬before.Reaches scope given frame →
    after.frames[frame]? = before.frames[frame]?
  /-- What can be reached could be reached before, or is new and has a number of its own. -/
  reached {frame : Nat} : after.Reaches scope (given ++ values) frame →
    before.Reaches scope given frame ∨ before.frames.size ≤ frame

def Confines (before : Store) (scope : Nat) (given : List Value) :
    EStateM.Result Failure Machine (List Value) → Prop
  | .ok values machine => before.Confined scope given machine.store values
  | .error _ machine => before.Confined scope given machine.store []

end Store

namespace Discipline

/-- Frames that could be reached at the start, and frames made since. -/
def Near (before : Store) (scope : Nat) (given : List Value) (frame : Nat) : Prop :=
  before.Reaches scope given frame ∨ before.frames.size ≤ frame

/-- Nothing leads from near frames to others, and the others are as at the start. -/
structure Closed (before : Store) (scope : Nat) (given : List Value) (store : Store) : Prop where
  size : before.frames.size ≤ store.frames.size
  unchanged {frame : Nat} : ¬Near before scope given frame →
    store.frames[frame]? = before.frames[frame]?
  around {frame other : Nat} {found : Frame} : Near before scope given frame →
    store.frames[frame]? = some found → other ∈ found.ancestors → Near before scope given other
  bound {frame : Nat} {found : Frame} {name : Name} {closure : Closure} :
    Near before scope given frame → store.frames[frame]? = some found →
    (name, .closure closure) ∈ found.bindings → Near before scope given closure.scope

def near (before : Store) (scope : Nat) (given : List Value) : Discipline where
  Good := Closed before scope given
  Scope := Near before scope given
  Home := Near before scope given
  Whole _ := True
  Expr _ := True
  Stmt _ := True
  Fails _ := True

variable {before store : Store} {scope frame : Nat} {given : List Value} {name : Name}
  {value : Value}

theorem near_uniform : (near before scope given).Uniform where
  same := rfl
  child _ _ := trivial
  text := trivial
  literal _ := trivial
  fault := trivial
  error := trivial
  whole _ := trivial
  tmod _ _ := trivial

theorem near_holds_iff : (near before scope given).Holds value ↔
    ∀ closure, value = .closure closure → Near before scope given closure.scope := by
  cases value with
  | closure function =>
    constructor
    · rintro ⟨hs, -⟩ closure he
      cases he
      exact hs
    · exact fun h => near_uniform.closure (h function rfl) trivial
  | _ => exact ⟨nofun, fun _ => trivial⟩

theorem Closed.start : Closed before scope given before where
  size := Nat.le_refl _
  unchanged _ := rfl
  around hn hf ho := by
    rcases hn with hn | hn
    · exact .inl (.around hn hf ho)
    · rw [Array.getElem?_eq_none hn] at hf
      cases hf
  bound hn hf hb := by
    rcases hn with hn | hn
    · exact .inl (.bound hn hf hb)
    · rw [Array.getElem?_eq_none hn] at hf
      cases hf

section Steps

variable (h : Closed before scope given store)
include h

theorem Closed.chain {other : Nat} (hn : Near before scope given frame)
    (ho : other ∈ store.chain frame) : Near before scope given other := by
  rcases Store.mem_chain_iff.mp ho with rfl | ⟨found, hf, ho⟩
  · exact hn
  · exact h.around hn hf ho

theorem Closed.push (hn : Near before scope given frame) :
    Closed before scope given (store.push (some frame)) where
  size := by
    rw [Store.size_push]
    exact Nat.le_succ_of_le h.size
  unchanged {other} ho := by
    rw [Store.getElem?_push, if_neg]
    · exact h.unchanged ho
    · rintro rfl
      exact ho (.inr h.size)
  around ho hf hm := by
    rw [Store.getElem?_push] at hf
    split at hf
    · cases hf
      exact h.chain hn hm
    · exact h.around ho hf hm
  bound ho hf hm := by
    rw [Store.getElem?_push] at hf
    split at hf
    · cases hf
      cases hm
    · exact h.bound ho hf hm

theorem Closed.define (hn : Near before scope given frame)
    (hv : ∀ closure, value = .closure closure → Near before scope given closure.scope) :
    Closed before scope given (store.define frame name value) where
  size := by
    rw [Store.size_define]
    exact h.size
  unchanged ho := by
    rw [Store.getElem?_define, if_neg]
    · exact h.unchanged ho
    · rintro rfl
      exact ho hn
  around ho hf hm := by
    rcases Store.cases_define hf with hf | ⟨-, old, hold, rfl⟩
    · exact h.around ho hf hm
    · exact h.around ho hold hm
  bound ho hf hm := by
    rcases Store.cases_define hf with hf | ⟨-, old, hold, rfl⟩
    · exact h.bound ho hf hm
    · rcases Frame.mem_bindings_define hm with hm | hm
      · exact hv _ (congrArg Prod.snd hm).symm
      · exact h.bound ho hold hm

theorem Closed.set (hn : Near before scope given frame)
    (hv : ∀ closure, value = .closure closure → Near before scope given closure.scope) :
    Closed before scope given (store.set frame name value) := by
  obtain ⟨owner, ho, he⟩ := Store.exists_set_eq store frame name value
  rw [he]
  exact h.define (h.chain hn ho) hv

theorem Closed.get (hn : Near before scope given frame)
    (hg : store.get? frame name = some value) :
    ∀ closure, value = .closure closure → Near before scope given closure.scope := by
  rintro closure rfl
  obtain ⟨owner, ho, found, hf, ⟨name, value⟩, hb, rfl⟩ := Store.exists_of_get? hg
  exact h.bound (h.chain hn ho) hf hb

/-- From near values only near frames can be reached. -/
theorem Closed.confined {values : List Value}
    (hv : ∀ value ∈ values, (near before scope given).Holds value) :
    before.Confined scope given store values where
  unchanged hlt hr := by
    refine h.unchanged ?_
    rintro (hn | hn)
    · exact hr hn
    · exact Nat.not_lt_of_le hn hlt
  reached hr := by
    induction hr with
    | scope => exact .inl .scope
    | value hm =>
      rcases List.mem_append.mp hm with hm | hm
      · exact .inl (.value hm)
      · exact near_holds_iff.mp (hv _ hm) _ rfl
    | around _ hf ho ih => exact h.around ih hf ho
    | bound _ hf hb ih => exact h.bound ih hf hb

end Steps

theorem near_lawful : (near before scope given).Lawful := by
  refine near_uniform.lawful (fun _ hn => hn) (fun store parent hg hn => ⟨hg.push hn, .inr hg.size⟩)
    (fun store frame name value hg hn hv => hg.define hn (near_holds_iff.mp hv))
    (fun store frame name value hg hn hv => hg.set hn (near_holds_iff.mp hv))
    (fun store frame name value hg hn he => near_holds_iff.mpr (hg.get hn he))
    (fun _ _ _ => trivial) (fun _ _ => trivial) trivial trivial

theorem near_confines {piece : Piece} {machine : Machine}
    (hs : (near machine.store scope given).Starting piece) :
    machine.store.Confines scope given (piece.perform machine) := by
  have he := near_lawful.perform hs machine .start
  cases hr : piece.perform machine with
  | ok values after =>
    rw [hr] at he
    exact he.1.confined he.2
  | error failure after =>
    rw [hr] at he
    exact he.1.confined nofun

end Discipline

/-- Frames out of reach are independent of what is run. Whatever an expression, a statement or a
call of a function with arguments does, and however it ends, the frames that could not be reached
from the current one, from the function and from the arguments are as before. What can be reached
afterwards, also from the result, could be reached before or is new. -/
theorem unreachable_frames_independent (fuel : Nat) (context : Context) (machine : Machine) :
    (∀ node, machine.store.Confines context.scope []
      ((Piece.evaluate fuel context node).perform machine)) ∧
    (∀ node, machine.store.Confines context.scope []
      ((Piece.execute fuel context node).perform machine)) ∧
    ∀ function args, machine.store.Confines context.scope (function :: args)
      ((Piece.call fuel context function args).perform machine) := by
  refine ⟨fun node => Discipline.near_confines ⟨.inl .scope, trivial⟩,
    fun node => Discipline.near_confines ⟨.inl .scope, trivial⟩, fun function args => ?_⟩
  have hg : ∀ value ∈ function :: args,
      (Discipline.near machine.store context.scope (function :: args)).Holds value := by
    intro value hv
    refine Discipline.near_holds_iff.mpr ?_
    rintro closure rfl
    exact .inl (.value hv)
  obtain ⟨hf, ha⟩ := List.forall_mem_cons.mp hg
  exact Discipline.near_confines ⟨.inl .scope, hf, ha⟩

end ScriptLang
