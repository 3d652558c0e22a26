import ScriptLang.Proofs.Number.ExactValue
import ScriptLang.Value.Operator

/-! # Comparisons

Comparing numbers is comparing their exact values, so the comparisons of integers and floats are
those of one linear order, with a single number outside it. Equality of values is having the same
identity, which all values but that number have.
-/

namespace ScriptLang

namespace Number

variable {a b : Number} {x y : ExtendedRational}

@[simp]
theorem number?_toValue (number : Number) : number.toValue.number? = some number := by
  cases number with
  | int n => rfl
  | float x => rfl

theorem equal_toValue (a b : Number) :
    a.toValue.equal b.toValue = (compare a b == some .eq) := by
  cases a with
  | int m =>
    cases b with
    | int n =>
      rw [Bool.eq_iff_iff]
      simp [toValue, Value.equal, compare]
    | float y => rfl
  | float x =>
    cases b with
    | int n => rfl
    | float y => rfl

end Number

namespace Value

def Affirms (operator : Operator) (a b : Value) : Prop := a.apply operator b = .ok (bool true)

/-- The comparisons of two values answer what holds of two exact values. -/
structure ComparesAs (a b : Value) (x y : ExtendedRational) : Prop where
  lt : apply .lt a b = .ok (bool (decide (x < y)))
  le : apply .le a b = .ok (bool (decide (x ≤ y)))
  gt : apply .gt a b = .ok (bool (decide (y < x)))
  ge : apply .ge a b = .ok (bool (decide (y ≤ x)))
  eq : apply .eq a b = .ok (bool (decide (x = y)))

theorem comparison_toValue (operator : Operator) (a b : Number) :
    comparison operator a.toValue b.toValue =
      .ok (bool ((Number.compare a b).any (answers operator))) := by
  simp [comparison]

theorem comparesAs {a b : Number} {x y : ExtendedRational} (hx : a.exactValue? = some x)
    (hy : b.exactValue? = some y) : ComparesAs a.toValue b.toValue x y := by
  have hcompare := Number.compare_eq_cmp hx hy
  have horder (operator : Operator) : comparison operator a.toValue b.toValue =
      .ok (bool (answers operator (cmp x y))) := by
    rw [comparison_toValue, hcompare]
    rfl
  constructor
  · rw [apply, horder, answers, beq_eq_decide, decide_eq_decide.mpr (cmp_eq_lt_iff x y)]
  · rw [apply, horder, answers, bne, beq_eq_decide, ← decide_not,
      decide_eq_decide.mpr ((cmp_eq_gt_iff x y).not.trans not_lt)]
  · rw [apply, horder, answers, beq_eq_decide, decide_eq_decide.mpr (cmp_eq_gt_iff x y)]
  · rw [apply, horder, answers, bne, beq_eq_decide, ← decide_not,
      decide_eq_decide.mpr ((cmp_eq_lt_iff x y).not.trans not_lt)]
    all_goals nofun
  · rw [apply, Number.equal_toValue, hcompare, beq_eq_decide,
      decide_eq_decide.mpr (Option.some_inj.trans (cmp_eq_eq_iff x y))]

theorem apply_of_nan {a b : Number} (h : a = .float .nan ∨ b = .float .nan) {operator : Operator}
    (ho : operator ∈ [Operator.lt, .le, .gt, .ge, .eq]) :
    apply operator a.toValue b.toValue = .ok (bool false) := by
  have hcompare : Number.compare a b = none :=
    Number.compare_eq_none (h.imp Number.exactValue?_eq_none_iff.mpr Number.exactValue?_eq_none_iff.mpr)
  have horder (operator : Operator) : comparison operator a.toValue b.toValue = .ok (bool false) := by
    rw [comparison_toValue, hcompare]
    rfl
  simp only [List.mem_cons, List.not_mem_nil, or_false] at ho
  obtain rfl | rfl | rfl | rfl | rfl := ho
  · exact horder .lt
  · exact horder .le
  · exact horder .gt
  · exact horder .ge
  · rw [apply, Number.equal_toValue, hcompare]
    rfl

structure OrderLaws (a b c : Value) : Prop where
  one_of_three : Affirms .lt a b ∧ ¬ Affirms .eq a b ∧ ¬ Affirms .gt a b ∨
    ¬ Affirms .lt a b ∧ Affirms .eq a b ∧ ¬ Affirms .gt a b ∨
    ¬ Affirms .lt a b ∧ ¬ Affirms .eq a b ∧ Affirms .gt a b
  le_iff : Affirms .le a b ↔ Affirms .lt a b ∨ Affirms .eq a b
  ge_iff : Affirms .ge a b ↔ Affirms .le b a
  lt_trans : Affirms .lt a b → Affirms .lt b c → Affirms .lt a c
  eq_trans : Affirms .eq a b → Affirms .eq b c → Affirms .eq a c

section

variable {a b c : Value} {x y z : ExtendedRational}

namespace ComparesAs

variable (h : ComparesAs a b x y)
include h

theorem affirms_lt : Affirms .lt a b ↔ x < y := by simp [Affirms, h.lt]

theorem affirms_le : Affirms .le a b ↔ x ≤ y := by simp [Affirms, h.le]

theorem affirms_gt : Affirms .gt a b ↔ y < x := by simp [Affirms, h.gt]

theorem affirms_ge : Affirms .ge a b ↔ y ≤ x := by simp [Affirms, h.ge]

theorem affirms_eq : Affirms .eq a b ↔ x = y := by simp [Affirms, h.eq]

end ComparesAs

theorem orderLaws (hab : ComparesAs a b x y) (hba : ComparesAs b a y x) (hbc : ComparesAs b c y z)
    (hac : ComparesAs a c x z) : OrderLaws a b c where
  one_of_three := by
    rw [hab.affirms_lt, hab.affirms_eq, hab.affirms_gt]
    rcases lt_trichotomy x y with h | h | h
    · exact .inl ⟨h, h.ne, h.asymm⟩
    · exact .inr (.inl ⟨h.not_lt, h, h.not_gt⟩)
    · exact .inr (.inr ⟨h.asymm, h.ne', h⟩)
  le_iff := by
    rw [hab.affirms_le, hab.affirms_lt, hab.affirms_eq]
    exact le_iff_lt_or_eq
  ge_iff := hab.affirms_ge.trans hba.affirms_le.symm
  lt_trans h h' := hac.affirms_lt.mpr ((hab.affirms_lt.mp h).trans (hbc.affirms_lt.mp h'))
  eq_trans h h' := hac.affirms_eq.mpr ((hab.affirms_eq.mp h).trans (hbc.affirms_eq.mp h'))

end

/-- What equal values have in common: the exact value of numbers, the content of texts, truth values
and nil, and the number, name or place of what is equal to itself only. -/
inductive Identity where
  | number (value : ExtendedRational)
  | text (content : String)
  | truth (b : Bool)
  | nil
  | closure (number : Nat)
  | builtin (function : Builtin)
  | null
  | node (place : List Nat)

def identity? : Value → Option Identity
  | int n => (Number.int n).exactValue?.map .number
  | float x => (Number.float x).exactValue?.map .number
  | str s => some (.text s)
  | bool b => some (.truth b)
  | nil => some .nil
  | closure c => some (.closure c.number)
  | builtin f => some (.builtin f)
  | null => some .null
  | node place _ => some (.node place)

theorem identity?_toValue (number : Number) :
    number.toValue.identity? = number.exactValue?.map .number := by
  cases number with
  | int n => rfl
  | float x => rfl

theorem equal_toValue_iff (a b : Number) : a.toValue.equal b.toValue = true ↔
    a.toValue.identity? ≠ none ∧ a.toValue.identity? = b.toValue.identity? := by
  rw [Number.equal_toValue, identity?_toValue, identity?_toValue, beq_iff_eq]
  cases hx : a.exactValue? with
  | none => simp [Number.compare_eq_none (.inl hx)]
  | some x =>
    cases hy : b.exactValue? with
    | none => simp [Number.compare_eq_none (.inr hy)]
    | some y =>
      rw [Number.compare_eq_cmp hx hy, Option.some_inj, cmp_eq_eq_iff]
      simp

theorem equal_iff (a b : Value) :
    a.equal b = true ↔ a.identity? ≠ none ∧ a.identity? = b.identity? := by
  cases a with
  | int m =>
    cases b with
    | int n => exact equal_toValue_iff (.int m) (.int n)
    | float y => exact equal_toValue_iff (.int m) (.float y)
    | _ => simp [equal, identity?, Number.exactValue?]
  | float x =>
    cases b with
    | int n => exact equal_toValue_iff (.float x) (.int n)
    | float y => exact equal_toValue_iff (.float x) (.float y)
    | _ => simp [equal, identity?]
  | _ => cases b with
    | _ => simp [equal, identity?]

theorem identity?_eq_none_iff : a.identity? = none ↔ a = float .nan := by
  cases a with
  | int n => simp [identity?, Number.exactValue?]
  | float x => simp [identity?, Number.exactValue?_eq_none_iff]
  | _ => simp [identity?]

theorem affirms_eq_iff : Affirms .eq a b ↔ a.equal b = true := by simp [Affirms, apply]

structure EqualityLaws (a b c : Value) : Prop where
  symm : Affirms .eq a b → Affirms .eq b a
  trans : Affirms .eq a b → Affirms .eq b c → Affirms .eq a c
  self_iff : Affirms .eq a a ↔ a ≠ float .nan
  negation : ∃ answer, apply .eq a b = .ok (bool answer) ∧ apply .ne a b = .ok (bool !answer)

theorem equalityLaws (a b c : Value) : EqualityLaws a b c where
  symm := by
    rw [affirms_eq_iff, affirms_eq_iff, equal_iff, equal_iff]
    rintro ⟨hn, he⟩
    exact ⟨he ▸ hn, he.symm⟩
  trans := by
    rw [affirms_eq_iff, affirms_eq_iff, affirms_eq_iff, equal_iff, equal_iff, equal_iff]
    rintro ⟨hn, he⟩ ⟨-, he'⟩
    exact ⟨hn, he.trans he'⟩
  self_iff := by
    rw [affirms_eq_iff, equal_iff, ne_eq, identity?_eq_none_iff]
    exact and_iff_left rfl
  negation := ⟨_, rfl, rfl⟩

/-- Integers and floats are ordered together by their exact values, nothing compares to what is not
a number, and equality of all values is an equivalence but for that. -/
theorem comparisons_coherent :
    (∀ a b c : Number, ∀ x y z : ExtendedRational,
      a.exactValue? = some x → b.exactValue? = some y → c.exactValue? = some z →
        ComparesAs a.toValue b.toValue x y ∧ OrderLaws a.toValue b.toValue c.toValue) ∧
      (∀ a b : Number, a = .float .nan ∨ b = .float .nan →
        ∀ operator ∈ [Operator.lt, .le, .gt, .ge, .eq],
          apply operator a.toValue b.toValue = .ok (bool false)) ∧
      ∀ a b c : Value, EqualityLaws a b c := by
  refine ⟨fun a b c x y z hx hy hz => ?_, fun a b h operator ho => apply_of_nan h ho, equalityLaws⟩
  exact ⟨comparesAs hx hy,
    orderLaws (comparesAs hx hy) (comparesAs hy hx) (comparesAs hy hz) (comparesAs hx hz)⟩

/-- An integer that is no float is greater than the float before it, and less than the one after
it. -/
theorem comparisons_coherent_between :
    let below := Number.float (.finite false ⟨1076 * Binary64.binade, by decide⟩)
    let between := Number.int 9007199254740993
    let above := Number.float (.finite false ⟨1076 * Binary64.binade + 1, by decide⟩)
    below.exactValue? = some (.ofRat 9007199254740992) ∧
      between.exactValue? = some (.ofRat 9007199254740993) ∧
      above.exactValue? = some (.ofRat 9007199254740994) ∧
      Affirms .lt below.toValue between.toValue ∧ Affirms .lt between.toValue above.toValue ∧
      OrderLaws below.toValue between.toValue above.toValue ∧
      apply .le below.toValue (float .nan) = .ok (bool false) ∧
      EqualityLaws below.toValue between.toValue nil := by
  intro below between above
  have hbelow : below.exactValue? = some (.ofRat (9007199254740992 : ℕ)) :=
    congrArg (fun x => some (ExtendedRational.ofRat x)) (Binary64.exact_of_units (by decide +kernel))
  have habove : above.exactValue? = some (.ofRat (9007199254740994 : ℕ)) :=
    congrArg (fun x => some (ExtendedRational.ofRat x)) (Binary64.exact_of_units (by decide +kernel))
  have hbetween : between.exactValue? = some (.ofRat (9007199254740993 : ℤ)) := rfl
  obtain ⟨hnumbers, hnan, hvalues⟩ := comparisons_coherent
  obtain ⟨hlow, horder⟩ := hnumbers below between above _ _ _ hbelow hbetween habove
  obtain ⟨hhigh, -⟩ := hnumbers between above below _ _ _ hbetween habove hbelow
  refine ⟨by simpa using hbelow, by simpa using hbetween, by simpa using habove,
    hlow.affirms_lt.mpr ?_, hhigh.affirms_lt.mpr ?_, horder,
    hnan below (.float .nan) (.inr rfl) .le (by simp), hvalues _ _ _⟩
  · exact ExtendedRational.ofRat_strictMono (by norm_num)
  · exact ExtendedRational.ofRat_strictMono (by norm_num)

end Value

end ScriptLang
