import Mathlib.Data.List.Induction
import ScriptLang.Proofs.Number.ShortestDecimal

/-! # Sizes of numbers

Whatever is computed from integers of 64 bits, from floats and from short texts has few enough
digits to be written, and integers of 64 bits are not too large for floats.
-/

namespace ScriptLang

open DecimalDigit

namespace Integer

/-- Few enough digits to be written. -/
def IsShort (n : Int) : Prop := n.natAbs < 10 ^ digitLimit

variable {m n : Int}

theorem isShort_of_lt (h : n.natAbs < 10 ^ 700) : IsShort n :=
  Nat.lt_of_lt_of_le h (Nat.pow_le_pow_right (by decide) (by decide))

theorem natAbs_le_of_inRange (h : inRange n = true) : n.natAbs ≤ 2 ^ 63 := by
  rw [inRange_iff, least, greatest] at h
  omega

theorem inRange_tmod (h : inRange m = true) : inRange (m.tmod n) = true := by
  rw [inRange_iff, least, greatest] at h ⊢
  have hle : (m.tmod n).natAbs ≤ m.natAbs := by
    rw [Int.natAbs_tmod]
    exact Nat.mod_le _ _
  have hneg := Int.neg_tmod m n
  rcases Int.le_total 0 m with hm | hm
  · have := Int.tmod_nonneg n hm
    omega
  · have := Int.tmod_nonneg n (Int.neg_nonneg_of_nonpos hm)
    omega

theorem isShort_of_le (h : n.natAbs ≤ 2 ^ 63 * 2 ^ 63) : IsShort n :=
  isShort_of_lt (Nat.lt_of_le_of_lt h (by decide +kernel))

section InRange

variable (hm : inRange m = true) (hn : inRange n = true)
include hm hn

theorem isShort_add : IsShort (m + n) := by
  have hm := natAbs_le_of_inRange hm
  have hn := natAbs_le_of_inRange hn
  exact isShort_of_le (by omega)

theorem isShort_sub : IsShort (m - n) := by
  have hm := natAbs_le_of_inRange hm
  have hn := natAbs_le_of_inRange hn
  exact isShort_of_le (by omega)

theorem isShort_mul : IsShort (m * n) := by
  refine isShort_of_le ?_
  rw [Int.natAbs_mul]
  exact Nat.mul_le_mul (natAbs_le_of_inRange hm) (natAbs_le_of_inRange hn)

end InRange

theorem isShort_of_natAbs_le (hn : inRange n = true) (h : m.natAbs ≤ n.natAbs) : IsShort m := by
  have hn := natAbs_le_of_inRange hn
  exact isShort_of_le (by omega)

theorem isShort_tdiv (hm : inRange m = true) : IsShort (m.tdiv n) := by
  refine isShort_of_natAbs_le hm ?_
  rw [Int.natAbs_tdiv]
  exact Nat.div_le_self _ _

end Integer

theorem valueIn_lt {c : Char} (h : isAscii c = true) : valueIn c < 10 := by
  have hc := isAscii_iff.mp h
  rw [valueIn, if_pos h]
  show c.toNat - 48 < 10
  omega

theorem valueOf_lt {digits : List Char} (h : ∀ c ∈ digits, isAscii c = true) :
    valueOf 10 digits < 10 ^ digits.length := by
  induction digits using List.reverseRecOn with
  | nil => exact Nat.one_pos
  | append_singleton digits c ih =>
    have hc := valueIn_lt (h c (by simp))
    have hd := ih fun d hd => h d (List.mem_append_left _ hd)
    rw [valueOf_append_singleton, List.length_append, List.length_singleton, Nat.pow_succ]
    omega

namespace Binary64

variable {x : Binary64} {n : Int}

theorem natAbs_signed (negative : Bool) (magnitude : Nat) :
    (signed negative magnitude).natAbs = magnitude := by
  cases negative with
  | false => exact Int.natAbs_natCast _
  | true => exact (Int.natAbs_neg _).trans (Int.natAbs_natCast _)

theorem natAbs_lt_of_toUnits? (h : x.toUnits? = some n) : n.natAbs < 10 ^ 700 := by
  cases x with
  | nan => cases h
  | infinite => cases h
  | finite negative code =>
    cases h
    rw [natAbs_signed]
    exact (units_strictMono code.isLt).trans (by decide +kernel)

theorem isShort_of_truncate? (h : x.truncate? = some n) : Integer.IsShort n := by
  obtain ⟨u, hu, rfl⟩ := Option.map_eq_some_iff.mp h
  refine Integer.isShort_of_lt (Nat.lt_of_le_of_lt ?_ (natAbs_lt_of_toUnits? hu))
  rw [Int.natAbs_tdiv]
  exact Nat.div_le_self _ _

theorem natAbs_fdiv_scale_le (u : Int) : (u.fdiv scale).natAbs ≤ u.natAbs := by
  rw [Int.fdiv_eq_ediv_of_nonneg _ (Int.natCast_nonneg scale)]
  exact Int.natAbs_ediv_le_natAbs _ _

theorem isShort_of_round? (h : x.round? = some n) : Integer.IsShort n := by
  obtain ⟨u, -, h⟩ := Option.bind_eq_some_iff.mp h
  split at h
  · obtain ⟨v, hv, rfl⟩ := Option.map_eq_some_iff.mp h
    exact Integer.isShort_of_lt
      (Nat.lt_of_le_of_lt (natAbs_fdiv_scale_le v) (natAbs_lt_of_toUnits? hv))
  · obtain ⟨v, hv, rfl⟩ := Option.map_eq_some_iff.mp h
    have hle := natAbs_fdiv_scale_le (-v)
    rw [Int.natAbs_neg] at hle
    refine Integer.isShort_of_lt ?_
    rw [Int.natAbs_neg]
    exact Nat.lt_of_le_of_lt hle (natAbs_lt_of_toUnits? hv)

/-- Integers of 64 bits are smaller than the greatest finite number. -/
theorem scaled_lt_units : 2 ^ 63 * scale < units (codeBound - 1) := by decide +kernel

theorem exists_ofInt? (h : Integer.inRange n = true) : ∃ x, ofInt? n = some x := by
  have hle := Nat.mul_le_mul_right scale (Integer.natAbs_le_of_inRange h)
  have hlt := Nat.lt_of_le_of_lt hle scaled_lt_units
  rw [← Nat.mul_one (units _)] at hlt
  obtain ⟨code, he⟩ := ofRatio_of_lt Nat.one_pos hlt
  exact ⟨.finite _ code, congrArg bounded? he⟩

end Binary64

end ScriptLang
