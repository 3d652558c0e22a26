import Mathlib.Data.Set.Basic
import ScriptLang.Proofs.Eval.Frames
import ScriptLang.Proofs.Eval.Pieces
import ScriptLang.Proofs.Eval.Uniform

/-! # Where a run makes names

Frames keep their names and the frames around them for good. A statement makes new names in the
frame that it is executed in and in frames of its own, an expression, a call and a `for` only in
frames of their own. In all other frames a run can do no more than bind names again that are there
already.
-/

namespace ScriptLang

def Frame.names (frame : Frame) : List Name := frame.bindings.map Prod.fst

/-- A store and a later one. All frames are still there, inside the same frames and with all their
names, and only some of them have got new names. -/
structure Store.Grows (before : Store) (places : Set Nat) (after : Store) : Prop where
  size : before.frames.size ≤ after.frames.size
  kept {frame : Nat} {found : Frame} : before.frames[frame]? = some found →
    ∃ later, after.frames[frame]? = some later ∧ later.ancestors = found.ancestors ∧
      found.names <+: later.names ∧ (frame ∉ places → later.names = found.names)

namespace Frame

variable {frame : Frame} {name : Name} {value : Value} {bindings : List (Name × Value)}

theorem mem_names_of_owns (h : frame.owns name = true) : name ∈ frame.names := by
  obtain ⟨value, hv⟩ := Option.isSome_iff_exists.mp h
  obtain ⟨before, after, hb, -⟩ := List.lookup_eq_some_iff.mp hv
  rw [names, hb]
  simp

theorem map_fst_bind_of_mem (h : name ∈ bindings.map Prod.fst) :
    (bind name value bindings).map Prod.fst = bindings.map Prod.fst := by
  induction bindings with
  | nil => cases h
  | cons first rest ih =>
    unfold bind
    split
    · rename_i he
      rw [List.map_cons, List.map_cons, he]
    · rename_i hne
      rcases List.mem_cons.mp h with he | hm
      · exact absurd he.symm hne
      · rw [List.map_cons, List.map_cons, ih hm]

theorem map_fst_prefix_bind :
    bindings.map Prod.fst <+: (bind name value bindings).map Prod.fst := by
  induction bindings with
  | nil => exact List.nil_prefix
  | cons first rest ih =>
    unfold bind
    split
    · rename_i he
      exact List.cons_prefix_cons.mpr ⟨he, List.prefix_rfl⟩
    · exact List.cons_prefix_cons.mpr ⟨rfl, ih⟩

theorem names_define_of_owns (h : frame.owns name = true) :
    (frame.define name value).names = frame.names :=
  map_fst_bind_of_mem (mem_names_of_owns h)

theorem names_prefix_define : frame.names <+: (frame.define name value).names :=
  map_fst_prefix_bind

end Frame

namespace Store

variable {before store : Store} {places : Set Nat} {frame : Nat} {name : Name} {value : Value}

namespace Grows

theorem refl : before.Grows places before :=
  ⟨Nat.le_refl _, fun hf => ⟨_, hf, rfl, List.prefix_rfl, fun _ => rfl⟩⟩

theorem push {parent : Option Nat} (h : before.Grows places store) :
    before.Grows places (store.push parent) where
  size := by
    rw [size_push]
    exact Nat.le_succ_of_le h.size
  kept {frame found} hf := by
    obtain ⟨later, hl, hkept⟩ := h.kept hf
    refine ⟨later, ?_, hkept⟩
    obtain ⟨hlt, -⟩ := Array.getElem?_eq_some_iff.mp hl
    rw [getElem?_push, if_neg (Nat.ne_of_lt hlt)]
    exact hl

theorem define (h : before.Grows places store)
    (hd : frame ∈ places ∨ before.frames.size ≤ frame ∨ store.owns name frame = true) :
    before.Grows places (store.define frame name value) where
  size := by
    rw [size_define]
    exact h.size
  kept {other found} hf := by
    obtain ⟨later, hl, ha, hp, hn⟩ := h.kept hf
    rw [getElem?_define, hl]
    split
    · rename_i he
      subst he
      refine ⟨_, rfl, ha, hp.trans Frame.names_prefix_define, fun hout => ?_⟩
      rcases hd with hin | hnew | howns
      · exact absurd hin hout
      · obtain ⟨hlt, -⟩ := Array.getElem?_eq_some_iff.mp hf
        exact absurd hlt (Nat.not_lt_of_le hnew)
      · rw [owns, hl] at howns
        rw [Frame.names_define_of_owns howns]
        exact hn hout
    · exact ⟨later, rfl, ha, hp, hn⟩

theorem set (h : before.Grows places store)
    (hd : frame ∈ places ∨ before.frames.size ≤ frame) :
    before.Grows places (store.set frame name value) := by
  unfold Store.set
  cases hr : store.resolve frame name with
  | none => exact h.define (hd.imp_right .inl)
  | some owner => exact h.define (.inr (.inr (List.find?_some hr)))

end Grows

end Store

namespace Discipline

/-- New names go to some of the old frames and to all new ones. -/
def naming (before : Store) (places : Set Nat) : Discipline where
  Good := before.Grows places
  Scope _ := True
  Home frame := frame ∈ places ∨ before.frames.size ≤ frame
  Whole _ := True
  Expr _ := True
  Stmt _ := True
  Fails _ := True

variable {before : Store} {places : Set Nat} {machine : Machine} {piece : Piece}

theorem naming_uniform : (naming before places).Uniform where
  same := rfl
  child _ _ := trivial
  text := trivial
  literal _ := trivial
  fault := trivial
  error := trivial
  whole _ := trivial
  tmod _ _ := trivial

theorem naming_holds (value : Value) : (naming before places).Holds value := by
  cases value with
  | closure function => exact naming_uniform.closure trivial trivial
  | _ => trivial

theorem naming_lawful : (naming before places).Lawful := by
  refine naming_uniform.lawful (fun _ _ => trivial)
    (fun store parent hg _ => ⟨hg.push, .inr hg.size⟩)
    (fun store frame name value hg hh _ => hg.define (hh.imp_right .inl))
    (fun store frame name value hg hh _ => hg.set hh)
    (fun store frame name value _ _ _ => naming_holds value)
    (fun _ _ _ => trivial) (fun _ _ => trivial) trivial trivial

theorem naming_starting (piece : Piece) : (naming before Set.univ).Starting piece := by
  have hhome (frame : Nat) : (naming before Set.univ).Home frame := .inl trivial
  cases piece with
  | evaluate fuel context node => exact ⟨trivial, trivial⟩
  | arguments fuel context nodes => exact ⟨trivial, fun _ _ => trivial⟩
  | execute fuel context node => exact ⟨hhome _, trivial⟩
  | sequence fuel context nodes => exact ⟨hhome _, fun _ _ => trivial⟩
  | clauses fuel context last nodes =>
    exact ⟨hhome _, fun _ => naming_uniform.body trivial, fun _ _ => naming_uniform.clause trivial⟩
  | header fuel context isLocal node => exact ⟨hhome _, naming_uniform.header trivial⟩
  | rounds fuel context loop count =>
    exact ⟨hhome _, fun _ _ => trivial, naming_uniform.header trivial, naming_uniform.body trivial⟩
  | call fuel context function args =>
    exact ⟨trivial, naming_holds function, fun value _ => naming_holds value⟩
  | bind frame names values =>
    exact ⟨hhome _, fun _ _ => .inr trivial, fun value _ => naming_holds value⟩
  | run fuel context root => exact ⟨hhome _, naming_uniform.root trivial⟩
  | program fuel context result nodes =>
    exact ⟨hhome _, naming_holds result, fun _ _ => trivial⟩

theorem grows_of_starting (h : (naming machine.store places).Starting piece) :
    machine.store.Grows places (piece.leave machine).store :=
  (naming_lawful.perform h machine .refl).good_leave

theorem grows_forStmt {fuel : Nat} {context : Context} {init condition post body : Node} :
    machine.store.Grows ∅
      ((Piece.execute fuel context (.forStmt init condition post body)).leave machine).store := by
  have hkeeps : (naming machine.store ∅).Keeps
      (Piece.execute fuel context (.forStmt init condition post body)).perform _ :=
    .values (naming_lawful.forStmt trivial trivial)
  exact (hkeeps machine .refl).good_leave

end Discipline

/-- Names are made in scope only. Whatever an expression, a call or a `for` does, and however it
ends, no frame that was there before has a new name afterwards. After a statement, a list of
statements or a program this may be so of the frame that it is executed in, and of no other. From
the start of a piece to the start and the end of every piece inside it, frames lose no names and
keep the frames around them. -/
theorem names_made_in_scope (fuel : Nat) (context : Context) (machine : Machine) :
    ((∀ node, machine.store.Grows ∅ ((Piece.evaluate fuel context node).leave machine).store) ∧
      (∀ function args,
        machine.store.Grows ∅ ((Piece.call fuel context function args).leave machine).store) ∧
      ∀ init condition post body, machine.store.Grows ∅
        ((Piece.execute fuel context (.forStmt init condition post body)).leave machine).store) ∧
    ((∀ node, machine.store.Grows {context.scope}
        ((Piece.execute fuel context node).leave machine).store) ∧
      (∀ nodes, machine.store.Grows {context.scope}
        ((Piece.sequence fuel context nodes).leave machine).store) ∧
      ∀ root, machine.store.Grows {context.scope}
        ((Piece.run fuel context root).leave machine).store) ∧
    ∀ piece inner during, Within piece machine inner during →
      machine.store.Grows Set.univ during.store ∧
        during.store.Grows Set.univ (inner.leave during).store := by
  have hhome : (Discipline.naming machine.store {context.scope}).Home context.scope := .inl rfl
  refine ⟨⟨fun node => ?_, fun function args => ?_, fun init condition post body => ?_⟩,
    ⟨fun node => ?_, fun nodes => ?_, fun root => ?_⟩, fun piece inner during hw => ?_⟩
  · exact Discipline.grows_of_starting ⟨trivial, trivial⟩
  · exact Discipline.grows_of_starting
      ⟨trivial, Discipline.naming_holds function, fun value _ => Discipline.naming_holds value⟩
  · exact Discipline.grows_forStmt
  · exact Discipline.grows_of_starting ⟨hhome, trivial⟩
  · exact Discipline.grows_of_starting ⟨hhome, fun _ _ => trivial⟩
  · exact Discipline.grows_of_starting ⟨hhome, Discipline.naming_uniform.root trivial⟩
  · have hstart := Discipline.naming_lawful.within hw (Discipline.naming_starting piece) .refl
    exact ⟨hstart.1, Discipline.grows_of_starting (Discipline.naming_starting inner)⟩

/-- The head of a `for` that is executed on the first machine: it binds its name in a new frame. -/
theorem names_made_in_scope_head :
    let init : Node := .assign (.str "i") (.literal (.int 1) (.str "Integer"))
    let during := (Machine.initial "").enter 0
    Within (.execute 9 ⟨0, 0, 9⟩ (.forStmt init .null .null (.block [.breakStmt]))) (.initial "")
        (.header 8 ⟨1, 0, 9⟩ true init) during ∧
      (Machine.initial "").store.Grows Set.univ during.store ∧
      during.store.Grows Set.univ ((Piece.header 8 ⟨1, 0, 9⟩ true init).leave during).store := by
  intro init during
  have hw : Within (.execute 9 ⟨0, 0, 9⟩ (.forStmt init .null .null (.block [.breakStmt])))
      (.initial "") (.header 8 ⟨1, 0, 9⟩ true init) during := .step .self .init
  exact ⟨hw, (names_made_in_scope 9 ⟨0, 0, 9⟩ (.initial "")).2.2 _ _ _ hw⟩

end ScriptLang
