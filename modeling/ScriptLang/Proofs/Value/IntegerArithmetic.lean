import Mathlib.Data.Rat.Floor
import ScriptLang.Proofs.Number.Magnitude
import ScriptLang.Value.Conversion

/-! # Integer arithmetic

Sums, differences, products, quotients, negatives and magnitudes of integers of 64 bits are the
exact results, or an overflow if these have more. The quotient is the exact one without its
fraction, and the remainder is what it leaves, which always has 64 bits.
-/

namespace ScriptLang

def truncated (x : ℚ) : ℤ := if 0 ≤ x then ⌊x⌋ else ⌈x⌉

theorem truncated_of_nonneg {x : ℚ} (h : 0 ≤ x) : truncated x = ⌊|x|⌋ := by
  rw [truncated, if_pos h, abs_of_nonneg h]

theorem truncated_of_nonpos {x : ℚ} (h : x ≤ 0) : truncated x = -⌊|x|⌋ := by
  rw [abs_of_nonpos h, Int.floor_neg, neg_neg, truncated]
  split
  next hn =>
    rw [le_antisymm h hn]
    rfl
  next => rfl

namespace Integer

variable {a b : Int}

theorem natAbs_div_eq_floor (a b : Int) :
    ((a.natAbs / b.natAbs : Nat) : Int) = ⌊|(a / b : ℚ)|⌋ := by
  have ha : |(a : ℚ)| = a.natAbs := by rw [Nat.cast_natAbs, Int.cast_abs]
  have hb : |(b : ℚ)| = b.natAbs := by rw [Nat.cast_natAbs, Int.cast_abs]
  rw [abs_div, ha, hb, Rat.floor_natCast_div_natCast, Int.natCast_ediv]

/-- Cutting off the fraction is what the quotient of the magnitudes and the signs come to. -/
theorem quotient_eq_truncated (a b : Int) : quotient a b = truncated (a / b : ℚ) := by
  unfold quotient
  dsimp only
  rw [natAbs_div_eq_floor]
  split
  next hdiffer =>
    have hsign : (a / b : ℚ) ≤ 0 := by
      rcases lt_or_ge a 0 with ha | ha
      · have hb : 0 ≤ b := by simpa [ha] using hdiffer
        exact div_nonpos_of_nonpos_of_nonneg (by exact_mod_cast ha.le) (by exact_mod_cast hb)
      · have hb : b < 0 := by simpa [not_lt.mpr ha] using hdiffer
        exact div_nonpos_of_nonneg_of_nonpos (by exact_mod_cast ha) (by exact_mod_cast hb.le)
    rw [truncated_of_nonpos hsign]
  next hsame =>
    have hsign : 0 ≤ (a / b : ℚ) := by
      rcases lt_or_ge a 0 with ha | ha
      · have hb : b < 0 := by simpa [ha] using hsame
        exact div_nonneg_of_nonpos (by exact_mod_cast ha.le) (by exact_mod_cast hb.le)
      · have hb : 0 ≤ b := by simpa [not_lt.mpr ha] using hsame
        exact div_nonneg (by exact_mod_cast ha) (by exact_mod_cast hb)
    rw [truncated_of_nonneg hsign]

theorem natAbs_quotient (a b : Int) : (quotient a b).natAbs = a.natAbs / b.natAbs := by
  rw [quotient_eq_tdiv, Int.natAbs_tdiv]
  rfl

/-- Of the integers no larger in magnitude than one of 64 bits a single one has more. -/
theorem inRange_eq_false_iff {n : Int} (ha : inRange a = true) (h : n.natAbs ≤ a.natAbs) :
    inRange n = false ↔ n = -least := by
  rw [← Bool.not_eq_true, inRange_iff]
  rw [inRange_iff] at ha
  unfold least greatest at *
  omega

theorem inRange_quotient_iff (ha : inRange a = true) (hb : b ≠ 0) :
    inRange (quotient a b) = false ↔ a = least ∧ b = -1 := by
  have hq := natAbs_quotient a b
  rw [inRange_eq_false_iff ha (hq.trans_le (Nat.div_le_self _ _))]
  rw [inRange_iff] at ha
  unfold least greatest at *
  by_cases hone : b.natAbs = 1
  · obtain rfl | rfl : b = 1 ∨ b = -1 := by omega
    · rw [quotient_eq_tdiv, Int.tdiv_one]
      omega
    · rw [quotient_eq_tdiv, Int.tdiv_neg, Int.tdiv_one]
      omega
  · have hhalf : a.natAbs / b.natAbs ≤ a.natAbs / 2 :=
      Nat.div_le_div_left (by omega) Nat.two_pos
    omega

theorem inRange_neg_iff (ha : inRange a = true) : inRange (-a) = false ↔ a = least :=
  (inRange_eq_false_iff ha (Int.natAbs_neg a).le).trans neg_inj

theorem inRange_abs_iff (ha : inRange a = true) : inRange |a| = false ↔ a = least := by
  rw [inRange_eq_false_iff ha (Int.natAbs_abs a).le, Int.abs_eq_natAbs]
  rw [inRange_iff] at ha
  unfold least greatest at *
  omega

theorem natAbs_remainder_lt (hb : b ≠ 0) : (remainder a b).natAbs < b.natAbs := by
  rw [remainder_eq_tmod, Int.natAbs_tmod]
  exact Nat.mod_lt _ (Int.natAbs_pos.mpr hb)

theorem sign_remainder (a b : Int) : remainder a b = 0 ∨ (remainder a b).sign = a.sign := by
  have hsign := Int.sign_tmod a b
  rw [← remainder_eq_tmod] at hsign
  split at hsign
  next => exact .inl (Int.sign_eq_zero_iff_zero.mp hsign)
  next => exact .inr hsign

end Integer

namespace Value

/-- The exact result of an operation, or an overflow if it does not have 64 bits. -/
def exactly (n : Int) : Except Failure Value :=
  if Integer.inRange n then .ok (int n) else .error (.error (.integerOverflow n))

theorem checked_eq_exactly {n : Int} (h : Integer.IsShort n) : checked n = exactly n := by
  unfold checked exactly
  unfold Integer.IsShort at h
  rw [← Nat.pow_eq] at h
  generalize Nat.pow 10 Integer.digitLimit = bound at *
  rw [if_neg (Nat.not_le_of_lt h)]

section

variable (a b : Int)

/-- What the operations on two integers come to. The operations that may not fit give the exact
result or an overflow, and only the least integer overflows a quotient or a change of sign. -/
structure ExactArithmetic : Prop where
  sum : apply .add (int a) (int b) = exactly (a + b)
  difference : apply .sub (int a) (int b) = exactly (a - b)
  product : apply .mul (int a) (int b) = exactly (a * b)
  quotient : b ≠ 0 → apply .div (int a) (int b) = exactly (truncated (a / b : ℚ))
  quotient_overflow : b ≠ 0 →
    (Integer.inRange (truncated (a / b : ℚ)) = false ↔ a = Integer.least ∧ b = -1)
  remainder : b ≠ 0 → ∃ rest : Int, apply .mod (int a) (int b) = .ok (int rest) ∧
    a = b * truncated (a / b : ℚ) + rest ∧ |rest| < |b| ∧ (rest = 0 ∨ rest.sign = a.sign)
  by_zero : b = 0 → apply .div (int a) (int b) = .error (.error .divisionByZero) ∧
    apply .mod (int a) (int b) = .error (.error .moduloByZero)
  negative : unary (.str "neg") (int a) = exactly (-a)
  negative_overflow : Integer.inRange (-a) = false ↔ a = Integer.least
  magnitude : abs (int a) = exactly |a|
  magnitude_overflow : Integer.inRange |a| = false ↔ a = Integer.least

end

variable {a b : Int}

theorem arithmetic_int (operator : Operator) (hb : b ≠ 0) :
    arithmetic operator (int a) (int b) = integerArithmetic operator a b := by
  have hzero : (Number.int b).isZero = false := by simpa [Number.isZero] using hb
  simp [arithmetic, number?, hzero]

/-- Arithmetic on integers of 64 bits is exact or an overflow. -/
theorem integer_arithmetic_exact (ha : Integer.inRange a = true) (hb : Integer.inRange b = true) :
    ExactArithmetic a b where
  sum := checked_eq_exactly (Integer.isShort_add ha hb)
  difference := checked_eq_exactly (Integer.isShort_sub ha hb)
  product := checked_eq_exactly (Integer.isShort_mul ha hb)
  quotient hn := by
    rw [apply, arithmetic_int .div hn, ← Integer.quotient_eq_truncated]
    refine checked_eq_exactly ?_
    rw [Integer.quotient_eq_tdiv]
    exact Integer.isShort_tdiv ha
  quotient_overflow hn := by
    rw [← Integer.quotient_eq_truncated]
    exact Integer.inRange_quotient_iff ha hn
  remainder hn := by
    refine ⟨_, arithmetic_int .mod hn, ?_, ?_, Integer.sign_remainder a b⟩
    · rw [← Integer.quotient_eq_truncated, Integer.remainder]
      omega
    · rw [Int.abs_eq_natAbs, Int.abs_eq_natAbs]
      exact_mod_cast Integer.natAbs_remainder_lt hn
  by_zero hz := by
    subst hz
    exact ⟨rfl, rfl⟩
  negative := checked_eq_exactly
    (Integer.isShort_of_natAbs_le ha (Int.natAbs_neg a).le)
  negative_overflow := Integer.inRange_neg_iff ha
  magnitude := by
    rw [Int.abs_eq_natAbs]
    exact checked_eq_exactly (Integer.isShort_of_natAbs_le ha (Int.natAbs_natCast _).le)
  magnitude_overflow := Integer.inRange_abs_iff ha

/-- Divided by minus one, the least integer overflows and leaves nothing. -/
theorem integer_arithmetic_exact_least :
    Integer.inRange Integer.least = true ∧ Integer.inRange (-1) = true ∧
      ExactArithmetic Integer.least (-1) ∧
      apply .mod (int Integer.least) (int (-1)) = .ok (int 0) :=
  ⟨by decide, by decide, integer_arithmetic_exact (by decide) (by decide), rfl⟩

end Value

end ScriptLang
