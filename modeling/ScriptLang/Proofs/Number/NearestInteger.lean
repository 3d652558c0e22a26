import Mathlib.Data.Rat.Floor
import Mathlib.Tactic.FieldSimp
import ScriptLang.Proofs.Number.ExactValue
import ScriptLang.Proofs.Value.IntegerArithmetic

/-! # Rounding to integers

A number is rounded by adding one half and cutting off the fraction, and the sum is itself rounded.
Below `2 ^ 52` that reaches the next integer only just below one half. From there to `2 ^ 53` the
sum lies in the middle between two integers and goes to the even one, and beyond it is the number.
So the result is the nearest integer but for the float below one half and for odd integers.
-/

namespace ScriptLang

/-- An integer is nearest to a number, and no other that is as near is farther from zero. -/
structure RoundsAway (x : ℚ) (n : ℤ) : Prop where
  nearest : ∀ m : ℤ, |x - n| ≤ |x - m|
  away : ∀ m : ℤ, |x - m| = |x - n| → |m| ≤ |n|

namespace RoundsAway

variable {x : ℚ} {m n : ℤ}

theorem unique (hm : RoundsAway x m) (hn : RoundsAway x n) : m = n := by
  have hdist : |x - m| = |x - n| := le_antisymm (hm.nearest n) (hn.nearest m)
  rcases abs_eq_abs.mp (le_antisymm (hn.away m hdist) (hm.away n hdist.symm)) with he | he
  · exact he
  · -- Opposite integers are equally near to zero only.
    have hzero : x = 0 ∨ n = 0 := by
      rw [he, Int.cast_neg, sub_neg_eq_add] at hdist
      rcases abs_eq_abs.mp hdist with h | h
      · right
        have : (n : ℚ) = 0 := by linarith
        exact_mod_cast this
      · left
        linarith
    rcases hzero with rfl | rfl
    · have hle := hn.nearest 0
      simp only [Int.cast_zero, sub_zero, zero_sub, abs_neg, abs_zero, abs_nonpos_iff,
        Int.cast_eq_zero] at hle
      rw [he, hle, neg_zero]
    · rw [he, neg_zero]

theorem self (n : ℤ) : RoundsAway n n := by
  refine ⟨fun m => by simp, fun m h => ?_⟩
  simp only [sub_self, abs_zero, abs_eq_zero, sub_eq_zero, Int.cast_inj] at h
  rw [h]

theorem neg (h : RoundsAway x n) : RoundsAway (-x) (-n) := by
  have hdist (m : ℤ) : |-x - m| = |x - (-m : ℤ)| := by
    rw [← abs_neg]
    congr 1
    push_cast
    ring
  constructor
  · intro m
    rw [hdist, hdist, neg_neg]
    exact h.nearest (-m)
  · intro m he
    rw [hdist, hdist, neg_neg] at he
    simpa using h.away (-m) he

theorem of_floor (hx : 0 ≤ x) (hle : n ≤ x + 1 / 2) (hlt : x + 1 / 2 < n + 1) :
    RoundsAway x n := by
  have hhalf : |x - n| ≤ 1 / 2 := abs_le.mpr ⟨by linarith, by linarith⟩
  have hother (m : ℤ) (hne : m ≠ n) : 1 / 2 ≤ |x - m| ∧ (|x - m| = 1 / 2 → m = n - 1) := by
    rcases lt_or_gt_of_ne hne with h | h
    · have hm : (m : ℚ) ≤ n - 1 := by exact_mod_cast Int.le_sub_one_of_lt h
      rw [abs_of_nonneg (by linarith)]
      refine ⟨by linarith, fun he => ?_⟩
      have : (n : ℚ) - 1 = m := by linarith
      exact_mod_cast this.symm
    · have hm : (n : ℚ) + 1 ≤ m := by exact_mod_cast Int.add_one_le_of_lt h
      rw [abs_of_neg (by linarith)]
      refine ⟨by linarith, fun he => ?_⟩
      exfalso
      linarith
  refine ⟨fun m => ?_, fun m he => ?_⟩
  · by_cases hne : m = n
    · rw [hne]
    · exact hhalf.trans (hother m hne).1
  · by_cases hne : m = n
    · rw [hne]
    · obtain ⟨hm, hlast⟩ := hother m hne
      have hmid : |x - m| = 1 / 2 := le_antisymm (he ▸ hhalf) hm
      have hpred := hlast hmid
      have hpos : 0 < n := by
        rw [hpred, Int.cast_sub, Int.cast_one, abs_of_nonneg (by linarith)] at hmid
        have : (0 : ℚ) < n := by linarith
        exact_mod_cast this
      rw [hpred, abs_of_nonneg (by omega), abs_of_nonneg hpos.le]
      omega

theorem of_div {num den : ℕ} (hd : 0 < den) (hx : 0 ≤ x) (he : x + 1 / 2 = num / den) :
    RoundsAway x (num / den : ℕ) := by
  have hpos : (0 : ℚ) < den := Nat.cast_pos.mpr hd
  have hle : num / den * den ≤ num := Nat.div_mul_le_self num den
  have hlt : num < (num / den + 1) * den := Nat.mul_comm .. ▸ Nat.lt_mul_div_succ num hd
  refine .of_floor hx ?_ ?_
  · rw [he, le_div_iff₀ hpos, Int.cast_natCast]
    exact_mod_cast hle
  · rw [he, div_lt_iff₀ hpos, Int.cast_natCast]
    exact_mod_cast hlt

end RoundsAway

namespace Binary64

variable {code near : Nat}

def halfCode : Nat := 1022 * binade

theorem two_pow_mul_two_pow {a b : Nat} (h : a + b = 1074) : 2 ^ a * 2 ^ b = scale := by
  rw [← Nat.pow_add, ← Nat.one_shiftLeft, h]
  rfl

theorem two_pow_scale (more : Nat) : 2 ^ (1074 + more) = 2 ^ more * scale := by
  have hshift (first : Nat) : 2 ^ (first + more) = 2 ^ more * 1 <<< first := by
    rw [Nat.one_shiftLeft, Nat.pow_add, Nat.mul_comm]
  exact hshift 1074

theorem two_pow_scale_zero : 2 ^ (1074 + 0) = scale := by
  rw [two_pow_scale, Nat.pow_zero, Nat.one_mul]

theorem units_first (shift : Nat) : units ((shift + 1) * binade) = binade * 2 ^ shift := by
  have hform : Form shift binade := ⟨.inr le_rfl, by decide⟩
  rw [Nat.succ_mul, units_of_form hform]

theorem units_last (shift : Nat) :
    units ((shift + 2) * binade - 1) = (2 * binade - 1) * 2 ^ shift := by
  have hform : Form shift (2 * binade - 1) := ⟨.inr (by decide), Nat.sub_le _ _⟩
  rw [Nat.add_mul, Nat.add_sub_assoc (by decide), units_of_form hform]

theorem units_last_add (shift : Nat) :
    units ((shift + 2) * binade - 1) + 2 ^ shift = units ((shift + 1 + 1) * binade) := by
  rw [units_last, units_first, Nat.pow_succ', ← Nat.succ_mul, Nat.mul_left_comm, ← Nat.mul_assoc]
  exact congrArg (· * 2 ^ shift) (by decide)

theorem units_last_integer : units ((1075 + 1) * binade - 1) + scale = units (1076 * binade) := by
  obtain ⟨shift, hshift⟩ : ∃ shift, shift = 1074 := ⟨_, rfl⟩
  have hstep : 2 ^ shift = scale := by
    rw [← Nat.one_shiftLeft, hshift]
    rfl
  have hlast := units_last_add shift
  rw [hstep, hshift] at hlast
  exact hlast

/-- Around one half and one all magnitudes are multiples of one power of two. -/
theorem exists_power_around_half : ∃ power, 0 < power ∧ scale = 2 ^ 54 * power ∧
    units (halfCode - 1) = (2 ^ 53 - 1) * power ∧ units halfCode = 2 ^ 53 * power ∧
    units (1023 * binade - 1) = (2 ^ 53 - 1) * (2 * power) ∧
    units (1023 * binade) = 2 ^ 53 * (2 * power) := by
  obtain ⟨shift, hshift⟩ : ∃ shift, shift = 1020 := ⟨_, rfl⟩
  have hhalf : halfCode = (shift + 1 + 1) * binade := by rw [hshift]; rfl
  have hone : 1023 * binade = (shift + 1 + 1 + 1) * binade := by rw [hshift]
  have hpower : 2 ^ (shift + 1) = 2 * 2 ^ shift := Nat.pow_succ'
  have hfirst (power : Nat) : binade * (2 * power) = 2 ^ 53 * power := by
    rw [binade_eq]
    ring
  refine ⟨2 ^ shift, Nat.two_pow_pos shift, (two_pow_mul_two_pow (by omega)).symm, ?_, ?_, ?_, ?_⟩
  · rw [hhalf]
    exact units_last shift
  · rw [hhalf, units_first, hpower, hfirst]
  · rw [hone, ← hpower]
    exact units_last (shift + 1)
  · rw [hone, units_first, Nat.pow_succ', hfirst, hpower]

theorem two_mul_half : 2 * units halfCode = scale := by
  obtain ⟨power, -, hscale, -, hhalf, -⟩ := exists_power_around_half
  rw [hscale, hhalf]
  ring

theorem units_half_pos : 0 < units halfCode := by
  have hdouble := two_mul_half
  have hpos := Shortest.scale_pos
  omega

theorem half_eq {a b : Nat} (h : a + b = 1073) : units halfCode = 2 ^ a * 2 ^ b := by
  have hscale : 2 ^ (a + 1) * 2 ^ b = scale := two_pow_mul_two_pow (by omega)
  rw [← two_mul_half, Nat.pow_succ', Nat.mul_assoc] at hscale
  exact (Nat.eq_of_mul_eq_mul_left Nat.two_pos hscale).symm

theorem units_integer (more : Nat) :
    units ((1074 + more + 1) * binade) = 2 ^ (52 + more) * scale := by
  rw [units_first, two_pow_scale, binade_eq, Nat.pow_add, Nat.mul_assoc]

theorem exists_form_above {least : Nat} (h : (least + 1) * binade ≤ code) : ∃ more digits,
    binade ≤ digits ∧ digits < 2 * binade ∧ code = (least + more) * binade + digits := by
  have hone : binade ≤ (least + 1) * binade := Nat.le_mul_of_pos_left binade (Nat.succ_pos least)
  obtain ⟨shift, digits, hlow, hhigh, rfl⟩ := exists_normal_form (hone.trans h)
  have hshift : least ≤ shift := by
    refine Nat.le_of_not_lt fun hlt => ?_
    have := Nat.mul_le_mul_right binade (Nat.succ_le_of_lt hlt)
    rw [Nat.succ_mul] at this
    rw [Nat.succ_mul] at h
    omega
  obtain ⟨more, rfl⟩ := Nat.exists_eq_add_of_le hshift
  exact ⟨more, digits, hlow, hhigh, rfl⟩

section

variable (h : Nearest near (units code + units halfCode) 1)
include h

/-- From `2 ^ 53` on half a step is more than one half, and the number is an integer. -/
theorem near_of_huge (hc : (1075 + 1) * binade ≤ code) :
    near = code ∧ ∃ n, units code = n * scale := by
  obtain ⟨more, digits, hlow, hhigh, rfl⟩ := exists_form_above hc
  have hform : Form (1075 + more) digits := ⟨.inr hlow, hhigh.le⟩
  have hpow : 2 ^ (1075 + more) = 2 ^ (1 + more) * scale := by
    rw [← two_pow_scale, ← Nat.add_assoc]
  have hunits := units_of_form hform
  have hstep : 2 * scale ≤ 2 ^ (1075 + more) := by
    rw [hpow, Nat.pow_add]
    exact Nat.mul_le_mul_right scale (Nat.le_mul_of_pos_right _ (Nat.two_pow_pos more))
  have hnext := units_succ_ge hform
  rw [Nat.succ_mul, ← hunits] at hnext
  have hhalf := two_mul_half
  have hpos := Shortest.scale_pos
  have hpred := units_strictMono.monotone (Nat.sub_le ((1075 + more) * binade + digits) 1)
  have hself : Nearest ((1075 + more) * binade + digits)
      (units ((1075 + more) * binade + digits) + units halfCode) 1 := by
    constructor <;> omega
  refine ⟨h.unique hself Nat.one_pos, digits * 2 ^ (1 + more), ?_⟩
  rw [hunits, hpow, Nat.mul_assoc]

/-- From `2 ^ 52` to `2 ^ 53` the sum is in the middle between two integers. -/
theorem near_of_large (hc : (1074 + 1) * binade ≤ code) (hlt : code < (1075 + 1) * binade) :
    near = code + code % 2 ∧ ∃ n, units code = n * scale ∧ units (code + 1) = (n + 1) * scale ∧
      n % 2 = code % 2 := by
  obtain ⟨more, digits, hlow, hhigh, he⟩ := exists_form_above hc
  obtain rfl : more = 0 := by
    refine Nat.eq_zero_of_not_pos fun hpos => ?_
    have := Nat.mul_le_mul_right binade (Nat.add_le_add_left (Nat.succ_le_of_lt hpos) 1074)
    omega
  have hunits := units_of_form (⟨.inr hlow, hhigh.le⟩ : Form (1074 + 0) digits)
  have hsucc := units_of_form (⟨.inr (by omega), hhigh⟩ : Form (1074 + 0) (digits + 1))
  rw [← Nat.add_assoc] at hsucc
  rw [← he, two_pow_scale_zero] at hunits hsucc
  have hparity : code % 2 = digits % 2 := by
    rw [he, binade_eq]
    omega
  have hhalf := two_mul_half
  have hpos := Shortest.scale_pos
  have hpred := units_strictMono.monotone (Nat.sub_le code 1)
  have hnext := units_lt_succ (code + 1)
  refine ⟨?_, digits, hunits, hsucc, hparity.symm⟩
  rw [Nat.succ_mul, ← hunits] at hsucc
  rcases Nat.mod_two_eq_zero_or_one code with heven | hodd
  · rw [heven, Nat.add_zero]
    have hself : Nearest code (units code + units halfCode) 1 := by constructor <;> omega
    exact h.unique hself Nat.one_pos
  · rw [hodd]
    have hother : Nearest (code + 1) (units code + units halfCode) 1 := by
      constructor
      · rw [Nat.add_sub_cancel]
        omega
      · omega
      · omega
      · omega
    exact h.unique hother Nat.one_pos

/-- From one half to `2 ^ 52` rounding the sum does not pass an integer: the sum is a float, unless
it has crossed a power of two, and this integer and the next half are floats on both sides of it. -/
theorem near_of_medium (hc : (1021 + 1) * binade ≤ code) (hlt : code < (1074 + 1) * binade) :
    units near / scale = (units code + units halfCode) / scale := by
  obtain ⟨more, digits, hlow, hhigh, he⟩ := exists_form_above hc
  obtain ⟨rest, hrest⟩ : ∃ rest, 52 = more + rest := by
    refine Nat.exists_eq_add_of_le (Nat.le_of_not_lt fun hgt => ?_)
    have := Nat.mul_le_mul_right binade (Nat.add_le_add_left (Nat.succ_le_of_lt hgt) 1021)
    omega
  have hunits := units_of_form (⟨.inr hlow, hhigh.le⟩ : Form (1021 + more) digits)
  rw [← he] at hunits
  have hhalf : units halfCode = 2 ^ rest * 2 ^ (1021 + more) := half_eq (by omega)
  have hsum : units code + units halfCode = (digits + 2 ^ rest) * 2 ^ (1021 + more) := by
    rw [hunits, hhalf, Nat.add_mul]
  by_cases hfew : digits + 2 ^ rest ≤ 2 * binade
  · obtain ⟨other, ho⟩ := exists_units hfew (1021 + more)
    rw [← hsum] at ho
    have hle := h.units_le Nat.one_pos (ho.ge.trans (Nat.mul_one _).ge)
    have hge := h.le_units Nat.one_pos ((Nat.mul_one _).le.trans ho.le)
    rw [Nat.le_antisymm hle hge, ho]
  · cases rest with
    | zero => omega
    | succ rest =>
      have hpower : 2 * binade * 2 ^ (1021 + more) = 2 ^ more * scale := by
        have hexp : 53 + (1021 + more) = 1074 + more := by omega
        rw [binade_eq, ← Nat.pow_succ', ← Nat.pow_add, hexp, two_pow_scale]
      have hmiddle : (binade + 2 ^ rest) * 2 ^ (1021 + more + 1) =
          2 ^ more * scale + units halfCode := by
        rw [← hpower, hhalf, Nat.pow_succ 2 (1021 + more)]
        generalize 2 ^ (1021 + more) = power
        ring
      have hsmall : binade + 2 ^ rest ≤ 2 * binade := by
        have := Nat.pow_le_pow_right Nat.two_pos (by omega : rest ≤ 52)
        rw [binade_eq]
        omega
      obtain ⟨below, hb⟩ := exists_units le_rfl (1021 + more)
      obtain ⟨above, ha⟩ := exists_units hsmall (1021 + more + 1)
      rw [hpower] at hb
      rw [hmiddle] at ha
      have hcrossed := Nat.mul_lt_mul_of_pos_right (Nat.lt_of_not_le hfew)
        (Nat.two_pow_pos (1021 + more))
      have hinner := Nat.mul_lt_mul_of_pos_right hhigh (Nat.two_pow_pos (1021 + more))
      rw [hpower] at hcrossed hinner
      have hdouble := two_mul_half
      have hpos := Shortest.scale_pos
      have hle : units near ≤ units above := h.units_le Nat.one_pos (by omega)
      have hge : units below ≤ units near := h.le_units Nat.one_pos (by omega)
      have hnext : (2 ^ more + 1) * scale = 2 ^ more * scale + scale := Nat.succ_mul ..
      rw [Nat.div_eq_of_lt_le (k := 2 ^ more) (by omega) (by omega),
        Nat.div_eq_of_lt_le (k := 2 ^ more) (by omega) (by omega)]

/-- Just below one half the sum is in the middle between one and the float before it. -/
theorem near_of_below_half (hc : code + 1 = halfCode) :
    units near / scale = (units code + units halfCode) / scale + 1 := by
  obtain ⟨power, hpower, hscale, hbefore, hhalf, hpred, hone⟩ := exists_power_around_half
  obtain rfl : code = halfCode - 1 := Nat.eq_sub_of_add_eq hc
  have hnext := units_lt_succ (1023 * binade)
  have heven : ¬ 1023 * binade % 2 = 1 := by decide
  have hnear : Nearest (1023 * binade) (units (halfCode - 1) + units halfCode) 1 :=
    ⟨by omega, by omega, fun hodd => absurd hodd heven, fun hodd => absurd hodd heven⟩
  have hquotient : units (1023 * binade) / scale = 1 := by
    rw [hone, hscale]
    exact Nat.div_eq_of_lt_le (by omega) (by omega)
  rw [h.unique hnear Nat.one_pos, hquotient, Nat.div_eq_of_lt (by omega)]

theorem near_of_small (hc : code + 1 < halfCode) :
    units near / scale = (units code + units halfCode) / scale := by
  obtain ⟨power, -, hscale, hbefore, hhalf, hpred, hone⟩ := exists_power_around_half
  have hcode : units code < units (halfCode - 1) := units_strictMono (Nat.lt_sub_of_add_lt hc)
  have hnear : units near < scale := by
    refine Nat.lt_of_not_le fun hle => ?_
    have hcodes : 1023 * binade ≤ near := units_strictMono.le_iff_le.mp (by omega)
    have hbelow := units_strictMono.monotone (Nat.sub_le_sub_right hcodes 1)
    have := h.lower
    omega
  rw [Nat.div_eq_of_lt hnear, Nat.div_eq_of_lt (by omega)]

end

theorem exact_strictMono : StrictMono (exact false) := fun _ _ h =>
  (div_lt_div_iff_of_pos_right scale_pos_rat).mpr (Nat.cast_lt.mpr (units_strictMono h))

theorem abs_exact (negative : Bool) (code : Nat) : |exact negative code| = exact false code := by
  have hnonneg : 0 ≤ exact false code := div_nonneg (Nat.cast_nonneg _) scale_pos_rat.le
  cases negative with
  | true => rw [exact_true, abs_neg, abs_of_nonneg hnonneg]
  | false => rw [abs_of_nonneg hnonneg]

theorem exact_before_half : exact false (halfCode - 1) = 1 / 2 - 1 / 2 ^ 54 := by
  obtain ⟨power, hpower, hscale, hbefore, -⟩ := exists_power_around_half
  have hne : (power : ℚ) ≠ 0 := Nat.cast_ne_zero.mpr hpower.ne'
  rw [exact_false, hbefore, hscale, Nat.cast_mul, Nat.cast_mul, mul_div_mul_right _ _ hne]
  norm_num

theorem exact_two_pow (more : Nat) :
    exact false ((1074 + more + 1) * binade) = 2 ^ (52 + more) := by
  rw [exact_of_units (units_integer more), Nat.cast_pow, Nat.cast_two]

/-- The numbers for which the sum with one half is rounded up to the next integer: the float before
one half, and the odd integers between `2 ^ 52` and `2 ^ 53`. -/
def Overshoots (x : ℚ) : Prop :=
  |x| = 1 / 2 - 1 / 2 ^ 54 ∨ 2 ^ 52 ≤ |x| ∧ |x| < 2 ^ 53 ∧ ∃ n : ℕ, |x| = 2 * n + 1

theorem overshoots_exact_iff {negative : Bool} : Overshoots (exact negative code) ↔
    code = halfCode - 1 ∨ 1075 * binade ≤ code ∧ code < 1076 * binade ∧
      ∃ n : ℕ, exact false code = 2 * n + 1 := by
  have hlow : exact false (1075 * binade) = 2 ^ 52 := exact_two_pow 0
  have hhigh : exact false (1076 * binade) = 2 ^ 53 := exact_two_pow 1
  rw [Overshoots, abs_exact, ← exact_before_half, ← hlow, ← hhigh, exact_strictMono.le_iff_le,
    exact_strictMono.lt_iff_lt, exact_strictMono.injective.eq_iff]

theorem sum_div_scale {n : Nat} (h : units code = n * scale) :
    (units code + units halfCode) / scale = n := by
  have hhalf := two_mul_half
  have hpos := Shortest.scale_pos
  have hnext : (n + 1) * scale = n * scale + scale := Nat.succ_mul ..
  exact Nat.div_eq_of_lt_le (by omega) (by omega)

/-- Between `2 ^ 52` and `2 ^ 53` even integers stay and odd ones go to the next. -/
theorem near_div_scale_of_large {n : Nat} (hnear : near = code + code % 2)
    (hn : units code = n * scale) (hsucc : units (code + 1) = (n + 1) * scale)
    (hparity : n % 2 = code % 2) : units near / scale = n + n % 2 := by
  rw [hparity, hnear]
  rcases Nat.mod_two_eq_zero_or_one code with heven | hodd
  · rw [heven, Nat.add_zero, hn, Nat.mul_div_cancel _ Shortest.scale_pos, Nat.add_zero]
  · rw [hodd, hsucc, Nat.mul_div_cancel _ Shortest.scale_pos]

/-- The magnitude of the rounded sum without its fraction is that of the sum, or one more. -/
theorem near_div_scale (h : Nearest near (units code + units halfCode) 1) (negative : Bool) :
    (¬ Overshoots (exact negative code) →
        units near / scale = (units code + units halfCode) / scale) ∧
      (Overshoots (exact negative code) →
        units near / scale = (units code + units halfCode) / scale + 1) := by
  have hpos : 0 < halfCode := by decide
  have hcodes : halfCode < 1075 * binade := by decide
  rw [overshoots_exact_iff]
  rcases Nat.lt_or_ge code halfCode with hsmall | hhalf
  · rcases Nat.lt_or_eq_of_le (Nat.succ_le_of_lt hsmall) with hlt | he
    · exact ⟨fun _ => near_of_small h hlt, fun ho => by omega⟩
    · exact ⟨fun ho => absurd (.inl (Nat.eq_sub_of_add_eq he)) ho, fun _ => near_of_below_half h he⟩
  rcases Nat.lt_or_ge code ((1074 + 1) * binade) with hmedium | hlarge
  · exact ⟨fun _ => near_of_medium h hhalf hmedium, fun ho => by omega⟩
  rcases Nat.lt_or_ge code ((1075 + 1) * binade) with hlt | hhuge
  · obtain ⟨hnear, n, hn, hsucc, hparity⟩ := near_of_large h hlarge hlt
    rw [near_div_scale_of_large hnear hn hsucc hparity, sum_div_scale hn, exact_of_units hn]
    constructor
    · intro ho
      refine congrArg (n + ·) (Nat.mod_two_ne_one.mp fun hodd => ho (.inr ⟨hlarge, hlt, n / 2, ?_⟩))
      have hn : n = 2 * (n / 2) + 1 := by omega
      exact_mod_cast hn
    · rintro (he | ⟨-, -, k, hk⟩)
      · omega
      · have hk : n = 2 * k + 1 := by exact_mod_cast hk
        omega
  · obtain ⟨rfl, n, hn⟩ := near_of_huge h hhuge
    rw [sum_div_scale hn, hn, Nat.mul_div_cancel _ Shortest.scale_pos]
    exact ⟨fun _ => rfl, fun ho => by omega⟩

theorem exists_near (hc : code < codeBound) :
    ∃ near, ∃ hn : near < codeBound, Nearest near (units code + units halfCode) 1 ∧
      ∀ negative, ofRatio negative (units code + units halfCode) 1 =
        .finite negative ⟨near, hn⟩ := by
  obtain ⟨near, h, he⟩ := exists_nearest (units code + units halfCode) Nat.one_pos
  have hn : near < codeBound := by
    rcases Nat.lt_or_ge code ((1075 + 1) * binade) with hlt | hhuge
    · have hcode := units_strictMono.monotone (Nat.le_sub_one_of_lt hlt)
      have hlast := units_last_integer
      have hdouble := two_mul_half
      have hle : units near ≤ units (1076 * binade) := h.units_le Nat.one_pos (by omega)
      exact Nat.lt_of_le_of_lt (units_strictMono.le_iff_le.mp hle) (by decide)
    · exact (near_of_huge h hhuge).1 ▸ hc
  exact ⟨near, hn, h, fun negative => by rw [he, dif_pos hn]⟩

theorem add_half {negative : Bool} {code : Fin codeBound} (h : 0 ≤ signed negative (units code)) :
    add (.finite negative code) half = ofRatio false (units code + units halfCode) 1 := by
  have hpos := units_half_pos
  have hsum : signed negative (units code) + signed false (units halfCode) =
      (units code + units halfCode : Nat) := by
    cases negative with
    | false => rfl
    | true =>
      have hzero : units code = 0 := by
        simp only [signed, if_true] at h
        omega
      simp [signed, hzero]
  have hne : ((units code + units halfCode : Nat) : Int) ≠ 0 := by omega
  have hsign : decide (((units code + units halfCode : Nat) : Int) < 0) = false := by
    simp only [decide_eq_false_iff_not]
    omega
  show (if signed negative (units code) + signed false (units halfCode) = 0 then _ else
    ofRatio (decide (signed negative (units code) + signed false (units halfCode) < 0))
      (signed negative (units code) + signed false (units halfCode)).natAbs 1) = _
  rw [hsum, if_neg hne, hsign, Int.natAbs_natCast]

theorem sub_half {negative : Bool} {code : Fin codeBound} (h : ¬ 0 ≤ signed negative (units code)) :
    sub (.finite negative code) half = ofRatio true (units code + units halfCode) 1 := by
  have hsum : signed negative (units code) + signed true (units halfCode) =
      -((units code + units halfCode : Nat) : Int) := by
    cases negative with
    | false => exact absurd (Int.natCast_nonneg _) h
    | true =>
      simp only [signed, if_true]
      omega
  have hpos := units_half_pos
  have hne : -((units code + units halfCode : Nat) : Int) ≠ 0 := by omega
  have hsign : decide (-((units code + units halfCode : Nat) : Int) < 0) = true := by
    simp only [decide_eq_true_eq]
    omega
  show (if signed negative (units code) + signed true (units halfCode) = 0 then _ else
    ofRatio (decide (signed negative (units code) + signed true (units halfCode) < 0))
      (signed negative (units code) + signed true (units halfCode)).natAbs 1) = _
  rw [hsum, if_neg hne, hsign, Int.natAbs_neg, Int.natAbs_natCast]

theorem round?_finite (negative : Bool) (code : Fin codeBound) :
    ∃ near, Nearest near (units code + units halfCode) 1 ∧
      (finite negative code).round? = some (signed negative (units near / scale)) := by
  obtain ⟨near, hn, h, he⟩ := exists_near code.isLt
  refine ⟨near, h, ?_⟩
  have hfloor : ((units near : Nat) : Int).fdiv scale = (units near / scale : Nat) := by
    rw [Int.fdiv_eq_ediv_of_nonneg _ (Int.natCast_nonneg scale), Int.natCast_ediv]
  show (if 0 ≤ signed negative (units code) then
      (add (.finite negative code) half).toUnits?.map (·.fdiv scale)
    else (sub (.finite negative code) half).toUnits?.map fun v => -(-v).fdiv scale) = _
  split
  next hsign =>
    rw [add_half hsign, he false]
    refine congrArg some (hfloor.trans ?_)
    cases negative with
    | false => rfl
    | true =>
      -- Zero is the one number with a minus that is not less than zero, and its sum is one half.
      have hzero : units code = 0 := by
        simp only [signed, if_true] at hsign
        omega
      have hle : units near ≤ units halfCode := h.units_le Nat.one_pos (by omega)
      have hdouble := two_mul_half
      have hpos := Shortest.scale_pos
      have hnone : units near / scale = 0 := Nat.div_eq_of_lt (by omega)
      rw [hnone]
      rfl
  next hsign =>
    rw [sub_half hsign, he true]
    have hminus : negative = true := by
      cases negative with
      | true => rfl
      | false => exact absurd (Int.natCast_nonneg _) hsign
    rw [hminus]
    refine congrArg some (congrArg Neg.neg ?_)
    rw [← hfloor]
    exact congrArg (Int.fdiv · scale) (Int.neg_neg _)

theorem div_add_half {num part whole : ℕ} (hpos : 0 < whole) (h : 2 * part = whole) :
    (num : ℚ) / whole + 1 / 2 = (num + part : ℕ) / whole := by
  have hne : (whole : ℚ) ≠ 0 := Nat.cast_ne_zero.mpr hpos.ne'
  have hhalf : (part : ℚ) / whole = 1 / 2 := by
    rw [div_eq_div_iff hne two_ne_zero, one_mul, ← h, Nat.cast_mul, Nat.cast_two, mul_comm]
  rw [Nat.cast_add, add_div, hhalf]

/-- The exact sum without its fraction is the nearest integer. -/
theorem roundsAway_sum (negative : Bool) (code : Nat) : RoundsAway (exact negative code)
    (signed negative ((units code + units halfCode) / scale)) := by
  have hpositive := RoundsAway.of_div Shortest.scale_pos
    (div_nonneg (Nat.cast_nonneg (units code)) scale_pos_rat.le)
    (div_add_half Shortest.scale_pos two_mul_half)
  cases negative with
  | false =>
    rw [signed_false]
    exact hpositive
  | true =>
    rw [exact_true, signed_true]
    exact hpositive.neg

end Binary64

namespace Value

open Binary64

/-- Every finite number is rounded to an integer, or that integer overflows. It is the nearest one,
or for those numbers that overshoot the one after it. -/
theorem round_nearest (negative : Bool) (code : Fin codeBound) :
    let x := exact negative code
    ∃ n : ℤ, (finite negative code).round? = some n ∧
      round (.float (.finite negative code)) = exactly n ∧
      (¬ Overshoots x → RoundsAway x n) ∧
      (Overshoots x → ∃ m : ℕ, RoundsAway x (signed negative m) ∧ n = signed negative (m + 1)) ∧
      ∀ m : ℤ, x = m → ¬ Overshoots x → n = m := by
  intro x
  obtain ⟨near, h, hround⟩ := round?_finite negative code
  obtain ⟨hexact, hover⟩ := near_div_scale h negative
  have hnearest : ¬ Overshoots x → RoundsAway x (signed negative (units near / scale : Nat)) := by
    intro ho
    rw [hexact ho]
    exact roundsAway_sum negative code
  refine ⟨_, hround, ?_, hnearest, fun ho => ?_, fun m hm ho => ?_⟩
  · rw [round, hround]
    exact checked_eq_exactly (isShort_of_round? hround)
  · exact ⟨_, roundsAway_sum negative code, by rw [hover ho]⟩
  · exact (hnearest ho).unique (hm ▸ .self m)

/-- The float before one half is rounded to one, and the odd integer after `2 ^ 52` to the even one
after it. -/
theorem round_overshoots :
    let before := exact false (halfCode - 1)
    let odd := exact false (1075 * binade + 1)
    (finite false ⟨halfCode - 1, by decide⟩).round? = some 1 ∧ RoundsAway before 0 ∧
      ¬ RoundsAway before 1 ∧
      (finite false ⟨1075 * binade + 1, by decide⟩).round? = some 4503599627370498 ∧
      odd = 4503599627370497 ∧ ¬ RoundsAway odd 4503599627370498 := by
  intro before odd
  have hbefore : RoundsAway before 0 := by
    have hzero : (units (halfCode - 1) + units halfCode) / scale = 0 := by decide +kernel
    have hsum := roundsAway_sum false (halfCode - 1)
    rwa [hzero] at hsum
  have hodd : odd = (4503599627370497 : ℤ) := exact_of_units (by decide +kernel)
  refine ⟨by decide +kernel, hbefore, fun h => ?_, by decide +kernel, by rw [hodd]; norm_num,
    fun h => ?_⟩
  · exact absurd (h.unique hbefore) (by decide)
  · rw [hodd] at h
    exact absurd (h.unique (.self _)) (by decide)

end Value

end ScriptLang
