import ScriptLang.Eval.Evaluator
import ScriptLang.Proofs.Eval.Operations
import ScriptLang.Proofs.Value.Comparisons

/-! # Selecting one of several numbers

The greatest and the least of several numbers are among them, as they are and not as a number of the
other kind, and of equal ones the first is taken. Every number is looked at before any are compared,
so what is no number is reported even if it would not have been selected.
-/

namespace ScriptLang.Value

open Number (toValue)

/-- The built-in functions that select one of their arguments, and the comparison with all others
that the selected one passes. -/
inductive Selects : Builtin → Operator → Prop where
  | max : Selects .max .ge
  | min : Selects .min .le

def IsOrdered (value : Value) : Prop := value.isNumber = true ∧ value ≠ float .nan

/-- The first of the values that passes a comparison with all of them. -/
structure Leads (stays : Operator) (values : List Value) (best : Value) : Prop where
  passes : ∀ value ∈ values, Affirms stays best value
  first : ∃ front back, values = front ++ best :: back ∧ ∀ value ∈ front, ¬ Affirms stays value best

variable {function : Builtin} {stays : Operator} {values permuted : List Value}
  {best other : Value}

theorem isNumber_eq (value : Value) : value.isNumber = value.number?.isSome := by
  cases value with
  | _ => rfl

theorem isOrdered_iff {value : Value} : value.IsOrdered ↔
    ∃ (number : Number) (x : ExtendedRational), value = number.toValue ∧ number.exactValue? = some x := by
  constructor
  · rintro ⟨hnumber, hnan⟩
    rw [isNumber_eq, Option.isSome_iff_exists] at hnumber
    obtain ⟨number, hnumber⟩ := hnumber
    obtain rfl := eq_of_number? hnumber
    have hexact : number.exactValue? ≠ none := by
      rw [ne_eq, Number.exactValue?_eq_none_iff]
      rintro rfl
      exact hnan rfl
    obtain ⟨x, hx⟩ := Option.ne_none_iff_exists'.mp hexact
    exact ⟨number, x, rfl, hx⟩
  · rintro ⟨number, x, rfl, hx⟩
    refine ⟨by simp [isNumber_eq], fun hnan => ?_⟩
    have hnumber := congrArg number? hnan
    rw [Number.number?_toValue] at hnumber
    cases hnumber
    cases hx

/-- The exact value of a number, and the least of all for what has none. -/
def exactValue (value : Value) : ExtendedRational :=
  (value.number?.bind Number.exactValue?).getD ⊥

theorem IsOrdered.comparesAs {a b : Value} (ha : a.IsOrdered) (hb : b.IsOrdered) :
    ComparesAs a b a.exactValue b.exactValue := by
  obtain ⟨first, x, rfl, hx⟩ := isOrdered_iff.mp ha
  obtain ⟨second, y, rfl, hy⟩ := isOrdered_iff.mp hb
  have hvalue {number : Number} {z : ExtendedRational} (hz : number.exactValue? = some z) :
      number.toValue.exactValue = z := by simp [exactValue, hz]
  rw [hvalue hx, hvalue hy]
  exact Value.comparesAs hx hy

section Order

variable (hs : Selects function stays) {a b c : Value}
include hs

/-- The comparison of a selection is one of exact values, upwards or downwards. -/
theorem exists_rank : ∃ (α : Type) (_ : LinearOrder α) (rank : Value → α), ∀ a b : Value,
    a.IsOrdered → b.IsOrdered →
      (Affirms stays a b ↔ rank a ≤ rank b) ∧ (Affirms .eq a b ↔ rank a = rank b) := by
  cases hs with
  | max =>
    refine ⟨ExtendedRationalᵒᵈ, inferInstance, fun value => .toDual value.exactValue, ?_⟩
    intro a b ha hb
    have h := ha.comparesAs hb
    exact ⟨h.affirms_ge, h.affirms_eq⟩
  | min =>
    refine ⟨ExtendedRational, inferInstance, exactValue, ?_⟩
    intro a b ha hb
    have h := ha.comparesAs hb
    exact ⟨h.affirms_le, h.affirms_eq⟩

theorem affirms_total (ha : a.IsOrdered) (hb : b.IsOrdered) :
    Affirms stays a b ∨ Affirms stays b a := by
  obtain ⟨_, _, rank, hrank⟩ := exists_rank hs
  rw [(hrank a b ha hb).1, (hrank b a hb ha).1]
  exact le_total (rank a) (rank b)

theorem affirms_trans (ha : a.IsOrdered) (hb : b.IsOrdered) (hc : c.IsOrdered)
    (hab : Affirms stays a b) (hbc : Affirms stays b c) : Affirms stays a c := by
  obtain ⟨_, _, rank, hrank⟩ := exists_rank hs
  rw [(hrank a b ha hb).1] at hab
  rw [(hrank b c hb hc).1] at hbc
  exact (hrank a c ha hc).1.mpr (hab.trans hbc)

theorem affirms_antisymm (ha : a.IsOrdered) (hb : b.IsOrdered) (hab : Affirms stays a b)
    (hba : Affirms stays b a) : Affirms .eq a b := by
  obtain ⟨_, _, rank, hrank⟩ := exists_rank hs
  rw [(hrank a b ha hb).1] at hab
  rw [(hrank b a hb ha).1] at hba
  exact (hrank a b ha hb).2.mpr (le_antisymm hab hba)

theorem affirms_toValue (a b : Number) : Affirms stays a.toValue b.toValue ↔
    (Number.compare a b).any (answers stays) = true := by
  have happly : apply stays a.toValue b.toValue = comparison stays a.toValue b.toValue := by
    cases hs with
    | max => rfl
    | min => rfl
  rw [Affirms, happly, comparison_toValue, Except.ok.injEq, bool.injEq]

end Order

theorem Leads.mem (h : Leads stays values best) : best ∈ values := by
  obtain ⟨front, back, rfl, -⟩ := h.first
  simp

section Selection

variable (hs : Selects function stays)
include hs

theorem affirms_self (hb : best.IsOrdered) : Affirms stays best best :=
  (affirms_total hs hb hb).elim id id

theorem leads_singleton (hb : best.IsOrdered) : Leads stays [best] best where
  passes := by simpa using affirms_self hs hb
  first := ⟨[], [], rfl, by simp⟩

/-- One more value is selected only if the best one before it does not pass the comparison. -/
theorem Leads.concat {next : Value} (h : Leads stays values best)
    (ho : ∀ value ∈ values, value.IsOrdered) (hn : next.IsOrdered) :
    (Affirms stays best next → Leads stays (values ++ [next]) best) ∧
      (¬ Affirms stays best next → Leads stays (values ++ [next]) next) := by
  have hb := ho best h.mem
  constructor
  · intro hkeep
    obtain ⟨front, back, hsplit, hfirst⟩ := h.first
    refine ⟨?_, front, back ++ [next], by simp [hsplit], hfirst⟩
    intro value hm
    rcases List.mem_append.mp hm with hm | hm
    · exact h.passes value hm
    · rwa [List.mem_singleton.mp hm]
  · intro hdrop
    have hnext : Affirms stays next best := (affirms_total hs hb hn).resolve_left hdrop
    refine ⟨?_, values, [], rfl, ?_⟩
    · intro value hm
      rcases List.mem_append.mp hm with hm | hm
      · exact affirms_trans hs hn hb (ho value hm) hnext (h.passes value hm)
      · rw [List.mem_singleton.mp hm]
        exact affirms_self hs hn
    · intro value hm hpass
      exact hdrop (affirms_trans hs hb (ho value hm) hn (h.passes value hm) hpass)

theorem Leads.keep {seen : List Number} {first next : Number}
    (h : Leads stays (seen.map toValue) first.toValue)
    (ho : ∀ value ∈ (seen ++ [next]).map toValue, value.IsOrdered) :
    Leads stays ((seen ++ [next]).map toValue) (keep stays first next).toValue := by
  rw [List.map_append, List.forall_mem_append] at ho
  obtain ⟨hkeep, hdrop⟩ := h.concat hs ho.1 (ho.2 next.toValue (by simp))
  rw [affirms_toValue hs] at hkeep hdrop
  rw [List.map_append]
  unfold Value.keep
  split
  next hpass => exact hkeep hpass
  next hfail => exact hdrop hfail

theorem leads_foldl {seen rest : List Number} {first : Number}
    (h : Leads stays (seen.map toValue) first.toValue)
    (ho : ∀ value ∈ (seen ++ rest).map toValue, value.IsOrdered) :
    Leads stays ((seen ++ rest).map toValue) (rest.foldl (Value.keep stays) first).toValue := by
  induction rest generalizing seen first with
  | nil => simpa using h
  | cons next rest ih =>
    rw [List.append_cons] at ho ⊢
    refine ih (h.keep hs fun value hm => ho value ?_) ho
    rw [List.map_append]
    exact List.mem_append_left _ hm

theorem Leads.perm (h : Leads stays values best) (h' : Leads stays permuted other)
    (hp : values.Perm permuted) (ho : ∀ value ∈ values, value.IsOrdered) :
    Affirms .eq best other := by
  have hm : other ∈ values := hp.mem_iff.mpr h'.mem
  exact affirms_antisymm hs (ho best h.mem) (ho other hm) (h.passes other hm)
    (h'.passes best (hp.mem_iff.mp h.mem))

end Selection

theorem numbers_eq_ok_iff {name : String} {found : List Number} :
    numbers name values = .ok found ↔ values = found.map toValue := by
  refine ⟨eq_map_of_numbers, ?_⟩
  rintro rfl
  induction found with
  | nil => rfl
  | cons number found ih => simp [numbers, ih, Except.map]

theorem numbers_eq_error_iff {name : String} {failure : Failure} :
    numbers name values = .error failure ↔ ∃ value, values.find? (!·.isNumber) = some value ∧
      failure = .error (.comparedNonNumber name value.kindName) := by
  induction values with
  | nil => exact iff_of_false nofun nofun
  | cons first values ih =>
    cases hfirst : first.number? with
    | none =>
      have hother : first.isNumber = false := by rw [isNumber_eq, hfirst, Option.isSome_none]
      have hfound : (first :: values).find? (!·.isNumber) = some first :=
        List.find?_cons_of_pos (by rw [hother]; rfl)
      simp [numbers, hfirst, hfound, eq_comm]
    | some number =>
      have hnumber : first.isNumber = true := by rw [isNumber_eq, hfirst, Option.isSome_some]
      have hfound : (first :: values).find? (!·.isNumber) = values.find? (!·.isNumber) :=
        List.find?_cons_of_neg (by rw [hnumber]; decide)
      rw [hfound, ← ih, numbers, hfirst]
      cases numbers name values with
      | ok found => exact iff_of_false nofun nofun
      | error other => exact Iff.rfl

theorem forall_isNumber_iff :
    (∀ value ∈ values, value.isNumber = true) ↔ ∃ found : List Number, values = found.map toValue := by
  constructor
  · intro h
    induction values with
    | nil => exact ⟨[], rfl⟩
    | cons value values ih =>
      obtain ⟨hvalue, hvalues⟩ := List.forall_mem_cons.mp h
      rw [isNumber_eq, Option.isSome_iff_exists] at hvalue
      obtain ⟨number, hnumber⟩ := hvalue
      obtain ⟨found, rfl⟩ := ih hvalues
      exact ⟨number :: found, by rw [List.map_cons, eq_of_number? hnumber]⟩
  · rintro ⟨found, rfl⟩ value hm
    obtain ⟨number, -, rfl⟩ := List.mem_map.mp hm
    rw [isNumber_eq, Number.number?_toValue, Option.isSome_some]

section Extreme

variable {name : String} {failure : Failure}

theorem extreme_of_short (h : values.length < 2) :
    extreme name stays values = .error (.error (.tooFewArguments name)) := by
  match values with
  | [] => rfl
  | [_] => rfl
  | _ :: _ :: _ =>
    simp only [List.length_cons] at h
    omega

theorem extreme_of_two_le (h : 2 ≤ values.length) : extreme name stays values =
    match numbers name values with
    | .error failure => .error failure
    | .ok [] => .ok nil
    | .ok (first :: rest) => .ok (rest.foldl (keep stays) first).toValue := by
  match values with
  | [] => simp at h
  | [_] => simp at h
  | _ :: _ :: _ => rfl

theorem extreme_of_numbers {first : Number} {rest : List Number}
    (h : 2 ≤ ((first :: rest).map toValue).length) :
    extreme name stays ((first :: rest).map toValue) =
      .ok (rest.foldl (keep stays) first).toValue := by
  rw [extreme_of_two_le h, numbers_eq_ok_iff.mpr rfl]

theorem extreme_eq_error_iff (h : 2 ≤ values.length) :
    extreme name stays values = .error failure ↔ ∃ value, values.find? (!·.isNumber) = some value ∧
      failure = .error (.comparedNonNumber name value.kindName) := by
  rw [← numbers_eq_error_iff, extreme_of_two_le h]
  split
  next other he => rw [he, Except.error.injEq, Except.error.injEq]
  next he => exact iff_of_false nofun (by rw [he]; nofun)
  next he => exact iff_of_false nofun (by rw [he]; nofun)

end Extreme

theorem builtin_eq (hs : Selects function stays) (values : List Value) :
    Eval.builtin function values = Eval.ofExcept (extreme function.name stays values) := by
  cases hs with
  | max => rfl
  | min => rfl

theorem ofExcept_eq_pure_iff {result : Except Failure Value} :
    Eval.ofExcept result = pure best ↔ result = .ok best := by
  constructor
  · intro h
    have hrun := congrFun h (Machine.initial "")
    cases result with
    | ok value => cases hrun; rfl
    | error failure => cases hrun
  · rintro rfl
    rfl

theorem ofExcept_eq_fail_iff {result : Except Failure Value} {error : RuntimeError} :
    Eval.ofExcept result = Eval.fail error ↔ result = .error (.error error) := by
  constructor
  · intro h
    have hrun := congrFun h (Machine.initial "")
    cases result with
    | ok value => cases hrun
    | error failure => cases hrun; rfl
  · rintro rfl
    rfl

section Selects

variable (hs : Selects function stays)
include hs

theorem builtin_eq_fail_iff {error : RuntimeError} :
    Eval.builtin function values = Eval.fail error ↔
      values.length < 2 ∧ error = .tooFewArguments function.name ∨
      2 ≤ values.length ∧ ∃ value, values.find? (!·.isNumber) = some value ∧
        error = .comparedNonNumber function.name value.kindName := by
  rw [builtin_eq hs, ofExcept_eq_fail_iff]
  rcases Nat.lt_or_ge values.length 2 with hl | hl
  · rw [extreme_of_short hl, or_iff_left (fun h => absurd h.1 (Nat.not_le.mpr hl)),
      and_iff_right hl, Except.error.injEq, Failure.error.injEq, eq_comm]
  · rw [extreme_eq_error_iff hl, or_iff_right (fun h => absurd h.1 (Nat.not_lt.mpr hl)),
      and_iff_right hl]
    simp only [Failure.error.injEq]

theorem exists_builtin_iff : (∃ best, Eval.builtin function values = pure best) ↔
    2 ≤ values.length ∧ ∀ value ∈ values, value.isNumber = true := by
  simp only [builtin_eq hs, ofExcept_eq_pure_iff]
  constructor
  · rintro ⟨best, h⟩
    rcases Nat.lt_or_ge values.length 2 with hl | hl
    · rw [extreme_of_short hl] at h
      cases h
    · refine ⟨hl, fun value hm => ?_⟩
      cases hfind : values.find? (!·.isNumber) with
      | none => simpa using List.find?_eq_none.mp hfind value hm
      | some other =>
        rw [extreme_eq_error_iff hl |>.mpr ⟨other, hfind, rfl⟩] at h
        cases h
  · rintro ⟨hl, h⟩
    obtain ⟨found, rfl⟩ := forall_isNumber_iff.mp h
    cases found with
    | nil => simp at hl
    | cons first rest => exact ⟨_, extreme_of_numbers hl⟩

theorem exists_leads (hl : 2 ≤ values.length) (ho : ∀ value ∈ values, value.IsOrdered) :
    ∃ best, Eval.builtin function values = pure best ∧ Leads stays values best := by
  obtain ⟨found, rfl⟩ := forall_isNumber_iff.mp fun value hm => (ho value hm).1
  cases found with
  | nil => simp at hl
  | cons first rest =>
    refine ⟨(rest.foldl (keep stays) first).toValue, ?_, ?_⟩
    · rw [builtin_eq hs, ofExcept_eq_pure_iff, extreme_of_numbers hl]
    · have hfirst : Leads stays ([first].map toValue) first.toValue :=
        leads_singleton hs (ho _ List.mem_cons_self)
      exact leads_foldl hs hfirst ho

end Selects

/-- Of several numbers the first is selected that passes the comparison with all of them, and an
equal one in whatever order they are given. There is an error if there are fewer than two arguments,
or else if one of them is no number, and the first such one is reported. -/
theorem selection_leads (hs : Selects function stays) (values : List Value) :
    (2 ≤ values.length → (∀ value ∈ values, value.IsOrdered) →
      ∃ best, Eval.builtin function values = pure best ∧ Leads stays values best ∧
        ∀ permuted, values.Perm permuted →
          ∃ other, Eval.builtin function permuted = pure other ∧ Affirms .eq best other) ∧
      (∀ error : RuntimeError,
        Eval.builtin function values = Eval.fail error ∧ error.kind = "TypeError" ↔
          2 ≤ values.length ∧ ∃ value, values.find? (!·.isNumber) = some value ∧
            error = .comparedNonNumber function.name value.kindName) ∧
      (∀ error : RuntimeError,
        Eval.builtin function values = Eval.fail error ∧ error.kind = "ArityError" ↔
          values.length < 2 ∧ error = .tooFewArguments function.name) ∧
      ((∃ best, Eval.builtin function values = pure best) ↔
        2 ≤ values.length ∧ ∀ value ∈ values, value.isNumber = true) := by
  refine ⟨fun hl ho => ?_, fun error => ?_, fun error => ?_, exists_builtin_iff hs⟩
  · obtain ⟨best, hrun, hbest⟩ := exists_leads hs hl ho
    refine ⟨best, hrun, hbest, fun permuted hp => ?_⟩
    obtain ⟨other, hother, hlead⟩ := exists_leads hs (hp.length_eq ▸ hl) fun value hm =>
      ho value (hp.mem_iff.mpr hm)
    exact ⟨other, hother, hbest.perm hs hlead hp ho⟩
  · rw [builtin_eq_fail_iff hs]
    constructor
    · rintro ⟨⟨-, rfl⟩ | h, hkind⟩
      · exact absurd hkind (by simp [RuntimeError.kind])
      · exact h
    · rintro ⟨hl, value, hfind, rfl⟩
      exact ⟨.inr ⟨hl, value, hfind, rfl⟩, rfl⟩
  · rw [builtin_eq_fail_iff hs]
    constructor
    · rintro ⟨h | ⟨-, value, -, rfl⟩, hkind⟩
      · exact h
      · exact absurd hkind (by simp [RuntimeError.kind])
    · rintro ⟨hl, rfl⟩
      exact ⟨.inl ⟨hl, rfl⟩, rfl⟩

/-- Of an integer and a float that are equal the one that comes first is selected. -/
theorem selection_leads_mixed :
    let one : Value := float (.finite false ⟨1023 * Binary64.binade, by decide⟩)
    let values := [int 0, one, int 1]
    Selects .max .ge ∧ 2 ≤ values.length ∧ (∀ value ∈ values, value.IsOrdered) ∧
      Eval.builtin .max values = pure one ∧ Leads .ge values one ∧
      Eval.builtin .max [int 1, int 0, one] = pure (int 1) ∧ Affirms .eq one (int 1) := by
  intro one values
  have hordered : ∀ value ∈ values, value.IsOrdered := by
    simp [values, one, IsOrdered, isNumber]
  have hone : Eval.builtin .max values = pure one := rfl
  have hint : Eval.builtin .max [int 1, int 0, one] = pure (int 1) := rfl
  obtain ⟨hselect, -⟩ := selection_leads .max values
  obtain ⟨best, hbest, hleads, hperm⟩ := hselect (by decide) hordered
  have hrotated : ([int 0, one] ++ [int 1]).Perm ([int 1] ++ [int 0, one]) := List.perm_append_comm
  obtain ⟨other, hother, heq⟩ := hperm _ hrotated
  have hpure {a b : Value} (h : (pure a : Eval Value) = pure b) : a = b :=
    Except.ok.inj (ofExcept_eq_pure_iff.mp h)
  obtain rfl := hpure (hbest.symm.trans hone)
  obtain rfl := hpure (hother.symm.trans hint)
  exact ⟨.max, by decide, hordered, hone, hleads, hint, heq⟩

end ScriptLang.Value
