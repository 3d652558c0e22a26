import ScriptLang.Eval.Machine

/-! # Frames before and after an operation

Binding a name changes one frame, and in it one binding. A fresh frame comes after all others. What
is looked up is bound in a frame on the way outwards.
-/

namespace ScriptLang

variable {store : Store} {frame other : Nat} {name : Name} {value : Value} {found : Frame}

namespace Frame

theorem mem_bind {binding : Name × Value} {bindings : List (Name × Value)}
    (h : binding ∈ bind name value bindings) : binding = (name, value) ∨ binding ∈ bindings := by
  induction bindings with
  | nil => exact .inl (List.mem_singleton.mp h)
  | cons first rest ih =>
    unfold bind at h
    split at h
    · rcases List.mem_cons.mp h with rfl | h
      · exact .inl rfl
      · exact .inr (List.mem_cons_of_mem _ h)
    · rcases List.mem_cons.mp h with rfl | h
      · exact .inr List.mem_cons_self
      · exact (ih h).imp_right (List.mem_cons_of_mem _)

theorem mem_bindings_define {binding : Name × Value}
    (h : binding ∈ (found.define name value).bindings) :
    binding = (name, value) ∨ binding ∈ found.bindings :=
  mem_bind h

theorem exists_mem_of_get? (h : found.get? name = some value) :
    ∃ binding ∈ found.bindings, binding.2 = value := by
  obtain ⟨before, after, hb, -⟩ := List.lookup_eq_some_iff.mp h
  exact ⟨(name, value), by simp [hb], rfl⟩

end Frame

namespace Store

theorem getElem?_define : (store.define frame name value).frames[other]? =
    if frame = other then store.frames[other]?.map (·.define name value)
    else store.frames[other]? :=
  Array.getElem?_modify

theorem size_define : (store.define frame name value).frames.size = store.frames.size :=
  Array.size_modify

theorem size_push {parent : Option Nat} :
    (store.push parent).frames.size = store.frames.size + 1 :=
  Array.size_push _

theorem getElem?_push {parent : Option Nat} : (store.push parent).frames[other]? =
    if other = store.frames.size then some ⟨(parent.map store.chain).getD [], []⟩
    else store.frames[other]? :=
  Array.getElem?_push

theorem cases_define (h : (store.define frame name value).frames[other]? = some found) :
    store.frames[other]? = some found ∨ frame = other ∧
      ∃ old, store.frames[other]? = some old ∧ found = old.define name value := by
  rw [getElem?_define] at h
  split at h
  · rename_i he
    obtain ⟨old, ho, rfl⟩ := Option.map_eq_some_iff.mp h
    exact .inr ⟨he, old, ho, rfl⟩
  · exact .inl h

theorem mem_chain_self : frame ∈ store.chain frame := List.mem_cons_self

/-- The frames from a given one outwards are it and its ancestors. -/
theorem mem_chain_iff : other ∈ store.chain frame ↔
    other = frame ∨ ∃ found, store.frames[frame]? = some found ∧ other ∈ found.ancestors := by
  rw [chain, List.mem_cons]
  cases h : store.frames[frame]? with
  | none => simp
  | some found => simp

theorem mem_chain_of_resolve (h : store.resolve frame name = some other) :
    other ∈ store.chain frame :=
  List.mem_of_find?_eq_some h

/-- What is set is defined in a frame on the way outwards. -/
theorem exists_set_eq (store : Store) (frame : Nat) (name : Name) (value : Value) :
    ∃ owner ∈ store.chain frame, store.set frame name value = store.define owner name value := by
  unfold set
  cases h : store.resolve frame name with
  | none => exact ⟨frame, mem_chain_self, rfl⟩
  | some owner => exact ⟨owner, mem_chain_of_resolve h, rfl⟩

theorem exists_of_get? (h : store.get? frame name = some value) :
    ∃ owner ∈ store.chain frame, ∃ found, store.frames[owner]? = some found ∧
      ∃ binding ∈ found.bindings, binding.2 = value := by
  obtain ⟨owner, ho, h⟩ := List.exists_of_findSome?_eq_some h
  obtain ⟨found, hf, h⟩ := Option.bind_eq_some_iff.mp h
  exact ⟨owner, ho, found, hf, Frame.exists_mem_of_get? h⟩

def All (P : Value → Prop) (store : Store) : Prop :=
  ∀ (i : Nat) (frame : Frame), store.frames[i]? = some frame →
    ∀ binding ∈ frame.bindings, P binding.2

variable {P : Value → Prop}

theorem All.push {parent : Option Nat} (h : store.All P) : (store.push parent).All P := by
  intro i frame hi
  rw [getElem?_push] at hi
  split at hi
  · cases hi
    exact nofun
  · exact h i frame hi

theorem All.define (h : store.All P) (hv : P value) : (store.define frame name value).All P := by
  intro i found hi binding hb
  rcases cases_define hi with hi | ⟨-, old, ho, rfl⟩
  · exact h i found hi binding hb
  · rcases Frame.mem_bindings_define hb with rfl | hb
    · exact hv
    · exact h i old ho binding hb

theorem All.set (h : store.All P) (hv : P value) : (store.set frame name value).All P := by
  obtain ⟨owner, -, he⟩ := exists_set_eq store frame name value
  rw [he]
  exact h.define hv

theorem All.get (h : store.All P) (hg : store.get? frame name = some value) : P value := by
  obtain ⟨owner, -, found, hf, binding, hb, rfl⟩ := exists_of_get? hg
  exact h owner found hf binding hb

end Store

theorem Machine.all_initial {P : Value → Prop} {input : String} (h : ∀ b, P (.builtin b)) :
    (initial input).store.All P := by
  intro i frame hi binding hb
  have hframe : frame = ⟨[], Builtin.all.map fun b => (.text b.name, .builtin b)⟩ := by
    rw [← Array.getElem?_toList] at hi
    exact List.mem_singleton.mp (List.mem_of_getElem? hi)
  rw [hframe] at hb
  obtain ⟨function, -, rfl⟩ := List.mem_map.mp hb
  exact h function

end ScriptLang
