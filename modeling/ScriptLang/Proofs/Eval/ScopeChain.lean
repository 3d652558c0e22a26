import ScriptLang.Proofs.Eval.Frames

/-! # The scope chain

Names are looked up along the links from a frame to the frames around it, and the first frame that
binds a name counts. Setting or defining a name changes one binding of one frame. A lookup notices
the change exactly if the changed frame is now the first on its way outwards that binds the name.
-/

namespace ScriptLang

namespace Store

/-- The stores made from nothing by fresh frames and by setting and defining names. -/
inductive Forest : Store → Prop where
  | empty : Forest ⟨#[]⟩
  | push {store : Store} {parent : Option Nat} : Forest store →
      (∀ frame ∈ parent, frame < store.frames.size) → Forest (store.push parent)
  | set {store : Store} {frame : Nat} {name : Name} {value : Value} : Forest store →
      Forest (store.set frame name value)
  | define {store : Store} {frame : Nat} {name : Name} {value : Value} : Forest store →
      Forest (store.define frame name value)

/-- The frame right around another one. -/
def parent? (store : Store) (frame : Nat) : Option Nat :=
  store.frames[frame]?.bind (·.ancestors.head?)

/-- Going from a frame to the one around it, and so on, a frame is the first that binds a name. -/
inductive FirstOwner (store : Store) (name : Name) (owner : Nat) : Nat → Prop where
  | here : (store.own? owner name).isSome = true → FirstOwner store name owner owner
  | outward {frame parent : Nat} : store.own? frame name = none →
      store.parent? frame = some parent → FirstOwner store name owner parent →
      FirstOwner store name owner frame

/-- How a name is looked up from a frame: the frame it belongs to is the first one on the way
outwards that binds it, and its value is the one bound there. There is no other way to fail than
that no frame binds the name. -/
structure LooksUp (store : Store) (frame : Nat) (name : Name) : Prop where
  owner (owner : Nat) : store.resolve frame name = some owner ↔ store.FirstOwner name owner frame
  found {owner : Nat} : store.resolve frame name = some owner →
    ∃ value, store.own? owner name = some value ∧ store.get? frame name = some value
  missing : store.resolve frame name = none → store.get? frame name = none
  runs {machine : Machine} {context : Context} {key : Json} : machine.store = store →
    context.scope = frame → Name.ofJson? key = some name →
    (∃ value, store.get? frame name = some value ∧
      Eval.lookup context key machine = .ok value machine) ∨
    store.get? frame name = none ∧ ∃ error : RuntimeError, error.kind = "NameError" ∧
      Eval.lookup context key machine = .error (.error error) machine

/-- What is different after a frame has bound a name to a value: one binding of one frame, and the
lookups for which this frame is now the first that binds the name. -/
structure Binds (before : Store) (frame : Nat) (name : Name) (value : Value) (after : Store) :
    Prop where
  size : after.frames.size = before.frames.size
  parent (other : Nat) : after.parent? other = before.parent? other
  frames {other : Nat} : other ≠ frame → after.frames[other]? = before.frames[other]?
  own (other : Nat) (label : Name) : after.own? other label =
    if other = frame ∧ label = name then some value else before.own? other label
  seen {other : Nat} : after.FirstOwner name frame other → after.get? other name = some value
  unseen {other : Nat} {label : Name} : ¬(label = name ∧ after.FirstOwner name frame other) →
    after.get? other label = before.get? other label

end Store

namespace Frame

variable {name label : Name} {value : Value}

theorem lookup_bind (bindings : List (Name × Value)) :
    (bind name value bindings).lookup label =
      if label = name then some value else bindings.lookup label := by
  induction bindings with
  | nil => by_cases h : label = name <;> simp [bind, List.lookup_cons, h, beq_false_of_ne]
  | cons first rest ih =>
    obtain ⟨other, old⟩ := first
    unfold bind
    split
    · rename_i he
      subst he
      by_cases h : label = other <;> simp [List.lookup_cons, h, beq_false_of_ne]
    · rename_i hne
      by_cases h : label = other
      · subst h
        simp [hne]
      · simpa [List.lookup_cons, beq_false_of_ne h] using ih

theorem get?_define (frame : Frame) : (frame.define name value).get? label =
    if label = name then some value else frame.get? label :=
  lookup_bind frame.bindings

end Frame

namespace Store

variable {store : Store} {frame other owner : Nat} {name label : Name} {value : Value}

theorem lt_of_own? (h : (store.own? frame name).isSome = true) : frame < store.frames.size := by
  obtain ⟨value, hv⟩ := Option.isSome_iff_exists.mp h
  obtain ⟨found, hf, -⟩ := Option.bind_eq_some_iff.mp hv
  exact (Array.getElem?_eq_some_iff.mp hf).1

theorem owns_eq : store.owns name frame = (store.own? frame name).isSome := by
  unfold owns own?
  cases store.frames[frame]? <;> rfl

theorem parent?_define :
    (store.define frame name value).parent? other = store.parent? other := by
  unfold parent?
  rw [getElem?_define]
  split
  · cases store.frames[other]? <;> rfl
  · rfl

theorem chain_define : (store.define frame name value).chain other = store.chain other := by
  unfold chain
  rw [getElem?_define]
  split
  · cases store.frames[other]? <;> rfl
  · rfl

theorem head?_chain {parent : Option Nat} :
    ((parent.map store.chain).getD []).head? = parent := by
  cases parent <;> rfl

/-- The frames from a given one outwards are found by following the links, and every link leads to
an older frame. -/
structure Linked (store : Store) : Prop where
  chain (frame : Nat) :
    store.chain frame = frame :: ((store.parent? frame).map store.chain).getD []
  older {frame parent : Nat} : store.parent? frame = some parent → parent < frame

theorem Linked.push {parent : Option Nat} (h : store.Linked)
    (hp : ∀ frame ∈ parent, frame < store.frames.size) : (store.push parent).Linked := by
  have hparent (frame : Nat) : (store.push parent).parent? frame =
      if frame = store.frames.size then parent else store.parent? frame := by
    unfold parent?
    rw [getElem?_push]
    split
    · exact head?_chain
    · rfl
  have hchain (frame : Nat) : (store.push parent).chain frame =
      if frame = store.frames.size then frame :: (parent.map store.chain).getD []
      else store.chain frame := by
    unfold Store.chain
    rw [getElem?_push]
    split <;> rfl
  have hold {frame around : Nat} (hf : store.parent? frame = some around) :
      around < store.frames.size := by
    obtain ⟨found, hfound, -⟩ := Option.bind_eq_some_iff.mp hf
    have hlt := (Array.getElem?_eq_some_iff.mp hfound).1
    exact Nat.lt_trans (h.older hf) hlt
  constructor
  · intro frame
    rw [hchain, hparent]
    split
    · cases parent with
      | none => rfl
      | some around => simp [hchain, Nat.ne_of_lt (hp around rfl)]
    · rw [h.chain frame]
      cases hf : store.parent? frame with
      | none => rfl
      | some around => simp [hchain, Nat.ne_of_lt (hold hf)]
  · intro frame around hf
    rw [hparent] at hf
    split at hf
    · rename_i he
      exact he ▸ hp around hf
    · exact h.older hf

theorem Linked.define (h : store.Linked) : (store.define frame name value).Linked := by
  constructor
  · intro other
    have hchain : (store.define frame name value).chain = store.chain :=
      funext fun _ => chain_define
    rw [hchain, parent?_define]
    exact h.chain other
  · intro other around hf
    rw [parent?_define] at hf
    exact h.older hf

theorem Forest.linked (h : store.Forest) : store.Linked := by
  induction h with
  | empty => exact ⟨fun _ => rfl, nofun⟩
  | push _ hp ih => exact ih.push hp
  | set _ ih => exact ih.define
  | define _ ih => exact ih.define

theorem resolve_eq_some_iff (h : store.Linked) :
    store.resolve frame name = some owner ↔ store.FirstOwner name owner frame := by
  have hstep (frame : Nat) : store.resolve frame name =
      if (store.own? frame name).isSome then some frame
      else (store.parent? frame).bind (store.resolve · name) := by
    rw [resolve, h.chain frame, List.find?_cons, owns_eq]
    cases (store.own? frame name).isSome with
    | true => rfl
    | false => cases store.parent? frame <;> rfl
  constructor
  · intro hr
    induction frame using Nat.strongRecOn with
    | ind frame ih =>
      rw [hstep] at hr
      split at hr
      · rename_i hown
        cases hr
        exact .here hown
      · rename_i hown
        obtain ⟨around, hp, hr⟩ := Option.bind_eq_some_iff.mp hr
        exact .outward (by simpa using hown) hp (ih around (h.older hp) hr)
  · intro hf
    induction hf with
    | here hown => rw [hstep, if_pos hown]
    | outward hown hp _ ih =>
      rw [hstep, if_neg (by simp [hown]), hp]
      exact ih

theorem get?_eq_bind : store.get? frame name =
    (store.resolve frame name).bind (store.own? · name) := by
  unfold get? resolve
  induction store.chain frame with
  | nil => rfl
  | cons first rest ih =>
    rw [List.findSome?_cons, List.find?_cons, owns_eq]
    cases hown : store.own? first name with
    | some value => simp [hown]
    | none => simpa using ih

theorem isSome_own?_of_resolve (h : store.resolve frame name = some owner) :
    (store.own? owner name).isSome = true := owns_eq ▸ List.find?_some h

theorem lookup_eq {machine : Machine} {context : Context} {key : Json}
    (h : Name.ofJson? key = some name) : Eval.lookup context key machine =
      match machine.store.get? context.scope name with
      | some value => .ok value machine
      | none => .error (.error (.undefinedVariable key.display)) machine := by
  have hstep : Eval.lookup context key machine =
      (match machine.store.get? context.scope name with
        | some value => (pure value : Eval Value)
        | none => Eval.fail (.undefinedVariable key.display)) machine := by
    simp only [Eval.lookup, Eval.nameOf, h]
    rfl
  rw [hstep]
  cases machine.store.get? context.scope name <;> rfl

theorem Linked.looksUp (h : store.Linked) : store.LooksUp frame name where
  owner _ := resolve_eq_some_iff h
  found := by
    intro owner hr
    obtain ⟨value, hv⟩ := Option.isSome_iff_exists.mp (isSome_own?_of_resolve hr)
    refine ⟨value, hv, ?_⟩
    rw [get?_eq_bind, hr]
    exact hv
  missing := by
    intro hr
    rw [get?_eq_bind, hr]
    rfl
  runs := by
    rintro machine context key rfl rfl hk
    rw [lookup_eq hk]
    cases hv : machine.store.get? context.scope name with
    | some value => exact .inl ⟨value, rfl, rfl⟩
    | none => exact .inr ⟨rfl, .undefinedVariable key.display, rfl, rfl⟩

theorem own?_define (hf : frame < store.frames.size) :
    (store.define frame name value).own? other label =
      if other = frame ∧ label = name then some value else store.own? other label := by
  unfold own?
  rw [getElem?_define]
  split
  · rename_i he
    subst he
    rw [Array.getElem?_eq_getElem hf, Option.map_some, Option.bind_some, Frame.get?_define]
    simp
  · rename_i hne
    rw [if_neg fun h => hne h.1.symm]

/-- Along any way outwards a lookup finds the new value if the changed frame comes first, and
otherwise what it found before. -/
theorem findSome?_define (hf : frame < store.frames.size) (frames : List Nat) :
    frames.findSome? (fun other => (store.define frame name value).own? other label) =
      if label = name ∧
          frames.find? ((store.define frame name value).owns name) = some frame
      then some value else frames.findSome? fun other => store.own? other label := by
  induction frames with
  | nil => simp
  | cons first rest ih =>
    rw [List.findSome?_cons, List.findSome?_cons, List.find?_cons, owns_eq, own?_define hf,
      own?_define hf, ih]
    by_cases hl : label = name
    · subst hl
      by_cases he : first = frame
      · simp [he]
      · cases hown : store.own? first label with
        | none => simp [he]
        | some old => simp [he]
    · simp [hl]

theorem get?_define (hf : frame < store.frames.size) :
    (store.define frame name value).get? other label =
      if label = name ∧ (store.define frame name value).resolve other name = some frame
      then some value else store.get? other label := by
  unfold get? resolve
  rw [chain_define]
  exact findSome?_define hf _

theorem Linked.binds_define (h : store.Linked) (hf : frame < store.frames.size) :
    store.Binds frame name value (store.define frame name value) where
  size := size_define
  parent _ := parent?_define
  frames ho := by rw [getElem?_define, if_neg ho.symm]
  own _ _ := own?_define hf
  seen ho := by
    rw [get?_define hf, if_pos ⟨rfl, (resolve_eq_some_iff h.define).mpr ho⟩]
  unseen ho := by
    rw [get?_define hf, if_neg]
    rintro ⟨hl, hr⟩
    exact ho ⟨hl, (resolve_eq_some_iff h.define).mp hr⟩

theorem resolved_lt (hf : frame < store.frames.size) :
    (store.resolve frame name).getD frame < store.frames.size := by
  cases hr : store.resolve frame name with
  | none => exact hf
  | some owner => exact lt_of_own? (isSome_own?_of_resolve hr)

/-- In every forest of frames names are looked up along the links. Setting a name changes the
binding in the frame that the name belongs to, or in the given frame if it belongs to none, and
defining a name the one in the given frame. -/
theorem scope_chain_laws (h : store.Forest) (hf : frame < store.frames.size) (name : Name)
    (value : Value) :
    store.LooksUp frame name ∧
      store.Binds ((store.resolve frame name).getD frame) name value
        (store.set frame name value) ∧
      store.Binds frame name value (store.define frame name value) :=
  ⟨h.linked.looksUp, h.linked.binds_define (resolved_lt hf), h.linked.binds_define hf⟩

/-- The middle one of three nested frames sets a name that the inner frame hides: the outer frame
has the new value, and so has a lookup from the middle, but not one from inside. -/
theorem scope_chain_laws_hidden :
    let x := Name.text "x"
    let nested := (((Store.mk #[]).push none).push (some 0)).push (some 1)
    let before := (nested.define 0 x (.str "outer")).define 2 x (.str "inner")
    let after := before.set 1 x (.str "new")
    before.Forest ∧ 1 < before.frames.size ∧ before.LooksUp 1 x ∧
      before.resolve 1 x = some 0 ∧ before.Binds 0 x (.str "new") after ∧
      before.Binds 1 x (.str "new") (before.define 1 x (.str "new")) ∧
      after.get? 1 x = some (.str "new") ∧ after.get? 2 x = some (.str "inner") := by
  intro x nested before after
  have hforest : before.Forest :=
    .define (.define (.push (.push (.push .empty (by simp)) (by decide)) (by decide)))
  have hlt : 1 < before.frames.size := by decide
  obtain ⟨hlooks, hset, hdefine⟩ := scope_chain_laws hforest hlt x (.str "new")
  have howner : before.resolve 1 x = some 0 := by decide
  rw [howner] at hset
  have hmiddle : after.get? 1 x = some (.str "new") := by rfl
  have hinner : after.get? 2 x = some (.str "inner") := by rfl
  exact ⟨hforest, hlt, hlooks, howner, hset, hdefine, hmiddle, hinner⟩

end Store

end ScriptLang
