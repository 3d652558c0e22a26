import Mathlib.Algebra.Order.Ring.Nat
import Mathlib.Order.Monotone.Basic
import Mathlib.Tactic.Linarith
import Mathlib.Tactic.Ring
import ScriptLang.Number.Binary64

/-! # Rounding to the nearest code

The magnitudes of the codes grow strictly, so a quotient has one nearest code, where a half belongs
to the even neighbour. It is the one that rounding a quotient gives.
-/

namespace ScriptLang.Binary64

variable {code shift digits num den : Nat}

theorem binade_eq : binade = 2 ^ 52 := rfl

/-- A code is written as multiples of a power of two: a whole binade of them at least, or fewer
without a factor. -/
structure Form (shift digits : Nat) : Prop where
  normal : shift = 0 ∨ binade ≤ digits
  le : digits ≤ 2 * binade

theorem units_of_form (h : Form shift digits) :
    units (shift * binade + digits) = digits * 2 ^ shift := by
  have hpos : 0 < binade := by decide
  have hcases : shift = 0 ∧ digits < binade ∨
      binade ≤ digits ∧ digits < 2 * binade ∨ digits = 2 * binade := by
    have := h.normal
    have := h.le
    omega
  rcases hcases with ⟨rfl, hlt⟩ | ⟨hle, hlt⟩ | rfl
  · rw [units, Nat.zero_mul, Nat.zero_add, Nat.div_eq_of_lt hlt, if_pos rfl, Nat.mod_eq_of_lt hlt,
      Nat.pow_zero, Nat.mul_one]
  · obtain ⟨rest, rfl⟩ := Nat.exists_eq_add_of_le hle
    have hrest : rest < binade := by omega
    have he : shift * binade + (binade + rest) = rest + binade * (shift + 1) := by ring
    rw [units, he, Nat.add_mul_div_left _ _ hpos, Nat.div_eq_of_lt hrest, Nat.add_mul_mod_self_left,
      Nat.mod_eq_of_lt hrest, if_neg (by omega), Nat.shiftLeft_eq]
    congr 2
    omega
  · have he : shift * binade + 2 * binade = binade * (shift + 2) := by ring
    rw [units, he, Nat.mul_div_cancel_left _ hpos, Nat.mul_mod_right, if_neg (by omega),
      Nat.shiftLeft_eq]
    have hs : shift + 2 - 1 = shift + 1 := by omega
    rw [hs]
    ring

theorem exists_form (code : Nat) :
    ∃ shift digits, Form shift digits ∧ code = shift * binade + digits := by
  have hpos : 0 < binade := by decide
  have hmod := Nat.mod_lt code hpos
  have hdiv := Nat.div_add_mod' code binade
  cases hq : code / binade with
  | zero =>
    refine ⟨0, code % binade, ⟨.inl rfl, by omega⟩, ?_⟩
    rw [hq] at hdiv
    exact hdiv.symm
  | succ shift =>
    refine ⟨shift, binade + code % binade, ⟨.inr (by omega), by omega⟩, ?_⟩
    rw [hq, Nat.succ_mul] at hdiv
    omega

theorem units_succ_ge (h : Form shift digits) :
    (digits + 1) * 2 ^ shift ≤ units (shift * binade + digits + 1) := by
  rcases Nat.lt_or_eq_of_le h.le with hlt | rfl
  · have hsucc : Form shift (digits + 1) := ⟨h.normal.imp_right Nat.le_succ_of_le, hlt⟩
    rw [Nat.add_assoc, units_of_form hsucc]
  · have hnext : Form (shift + 1) (binade + 1) := ⟨.inr (Nat.le_succ _), by decide⟩
    have he : shift * binade + 2 * binade + 1 = (shift + 1) * binade + (binade + 1) := by ring
    rw [he, units_of_form hnext, Nat.pow_succ]
    calc (2 * binade + 1) * 2 ^ shift ≤ (2 * binade + 2) * 2 ^ shift :=
          Nat.mul_le_mul_right _ (Nat.le_succ _)
      _ = (binade + 1) * (2 ^ shift * 2) := by ring

theorem units_lt_succ (code : Nat) : units code < units (code + 1) := by
  obtain ⟨shift, digits, hf, rfl⟩ := exists_form code
  rw [units_of_form hf]
  exact Nat.lt_of_lt_of_le (Nat.mul_lt_mul_of_pos_right (Nat.lt_succ_self digits)
    (Nat.two_pow_pos shift)) (units_succ_ge hf)

theorem units_strictMono : StrictMono units := strictMono_nat_of_lt_succ units_lt_succ

theorem exists_normal_form (h : binade ≤ code) : ∃ shift digits, binade ≤ digits ∧
    digits < 2 * binade ∧ code = shift * binade + digits := by
  have hpos : 0 < binade := by decide
  have hmod := Nat.mod_lt code hpos
  obtain ⟨shift, hshift⟩ := Nat.exists_eq_add_of_lt (Nat.div_pos h hpos)
  refine ⟨shift, binade + code % binade, by omega, by omega, ?_⟩
  calc code = code / binade * binade + code % binade := (Nat.div_add_mod' code binade).symm
    _ = shift * binade + (binade + code % binade) := by
      rw [hshift]
      ring

theorem exists_units (h : digits ≤ 2 * binade) (shift : Nat) :
    ∃ code, units code = digits * 2 ^ shift := by
  induction shift generalizing digits with
  | zero => exact ⟨_, units_of_form ⟨.inl rfl, h⟩⟩
  | succ shift ih =>
    by_cases hnormal : binade ≤ digits
    · exact ⟨_, units_of_form ⟨.inr hnormal, h⟩⟩
    · obtain ⟨code, hc⟩ : ∃ code, units code = 2 * digits * 2 ^ shift := ih (by omega)
      refine ⟨code, hc.trans ?_⟩
      ring

theorem units_succ_le (h : 0 < code) : units (code + 1) ≤ 2 * units code := by
  obtain ⟨shift, digits, hf, rfl⟩ := exists_form code
  rw [units_of_form hf]
  rcases Nat.lt_or_eq_of_le hf.le with hlt | rfl
  · have hsucc : Form shift (digits + 1) := ⟨hf.normal.imp_right Nat.le_succ_of_le, hlt⟩
    have hdigits : 1 ≤ digits := by
      refine Nat.pos_of_ne_zero fun hz => ?_
      have := hf.normal
      subst hz
      obtain rfl | hn := this
      · omega
      · exact absurd hn (by decide)
    rw [Nat.add_assoc, units_of_form hsucc, ← Nat.mul_assoc]
    exact Nat.mul_le_mul_right _ (by omega)
  · have hnext : Form (shift + 1) (binade + 1) := ⟨.inr (Nat.le_succ _), by decide⟩
    have he : shift * binade + 2 * binade + 1 = (shift + 1) * binade + (binade + 1) := by ring
    rw [he, units_of_form hnext, Nat.pow_succ]
    calc (binade + 1) * (2 ^ shift * 2) = (2 * binade + 2) * 2 ^ shift := by ring
      _ ≤ 2 * (2 * binade) * 2 ^ shift := Nat.mul_le_mul_right _ (by decide)
      _ = 2 * (2 * binade * 2 ^ shift) := Nat.mul_assoc ..

/-- A quotient of units lies between the middles to the neighbours of a code, which belong to the
even codes. -/
structure Nearest (code num den : Nat) : Prop where
  lower : (units (code - 1) + units code) * den ≤ 2 * num
  upper : 2 * num ≤ (units code + units (code + 1)) * den
  lower_odd : code % 2 = 1 → (units (code - 1) + units code) * den < 2 * num
  upper_odd : code % 2 = 1 → 2 * num < (units code + units (code + 1)) * den

theorem Nearest.not_lt {other : Nat} (h : Nearest code num den) (h' : Nearest other num den)
    (hd : 0 < den) : ¬ code < other := by
  intro hlt
  have hmono := units_strictMono.monotone
  have hle : units code + units (code + 1) ≤ units (other - 1) + units other :=
    Nat.add_le_add (hmono (by omega)) (hmono hlt)
  have hchain := Nat.mul_le_mul_right den hle
  have hupper := h.upper
  have hlower := h'.lower
  rcases Nat.lt_or_eq_of_le (Nat.succ_le_of_lt hlt) with hfar | rfl
  · have hstrict : units code + units (code + 1) < units (other - 1) + units other :=
      Nat.add_lt_add (units_strictMono (by omega)) (units_strictMono hfar)
    have := Nat.mul_lt_mul_of_pos_right hstrict hd
    omega
  · -- Neighbours share a middle, and one of the two codes is odd.
    rcases Nat.mod_two_eq_zero_or_one code with heven | hodd
    · have := h'.lower_odd (by omega)
      omega
    · have := h.upper_odd hodd
      omega

theorem Nearest.unique {other : Nat} (h : Nearest code num den) (h' : Nearest other num den)
    (hd : 0 < den) : code = other :=
  Nat.le_antisymm (Nat.le_of_not_lt (h'.not_lt h hd)) (Nat.le_of_not_lt (h.not_lt h' hd))

theorem Nearest.den_le (h : Nearest code num den) (hc : 0 < code) : den ≤ 2 * num := by
  have hpos : 0 < units (code - 1) + units code :=
    Nat.add_pos_right _ (Nat.lt_of_le_of_lt (Nat.zero_le _) (units_strictMono hc))
  exact Nat.le_trans (Nat.le_mul_of_pos_left den hpos) h.lower

theorem Nearest.num_le (h : Nearest code num den) (hc : code < codeBound) :
    num ≤ units codeBound * den := by
  have hmono := units_strictMono.monotone
  have hle := h.upper.trans (Nat.mul_le_mul_right den (Nat.add_le_add (hmono hc.le) (hmono hc)))
  rw [← Nat.two_mul, Nat.mul_assoc] at hle
  exact Nat.le_of_mul_le_mul_left hle Nat.two_pos

/-- Rounding does not pass a code. -/
theorem Nearest.units_le {other : Nat} (h : Nearest code num den) (hd : 0 < den)
    (ho : num ≤ units other * den) : units code ≤ units other := by
  refine Nat.le_of_not_lt fun hlt => ?_
  have hcode : other ≤ code - 1 := Nat.le_sub_one_of_lt (units_strictMono.lt_iff_lt.mp hlt)
  have hsum : 2 * units other < units (code - 1) + units code := by
    have := units_strictMono.monotone hcode
    omega
  have hfar := Nat.mul_lt_mul_of_pos_right hsum hd
  rw [Nat.mul_assoc] at hfar
  have := h.lower
  omega

theorem Nearest.le_units {other : Nat} (h : Nearest code num den) (hd : 0 < den)
    (ho : units other * den ≤ num) : units other ≤ units code := by
  refine Nat.le_of_not_lt fun hlt => ?_
  have hcode : code + 1 ≤ other := units_strictMono.lt_iff_lt.mp hlt
  have hsum : units code + units (code + 1) < 2 * units other := by
    have := units_strictMono.monotone hcode
    omega
  have hfar := Nat.mul_lt_mul_of_pos_right hsum hd
  rw [Nat.mul_assoc 2] at hfar
  have := h.upper
  omega

theorem Nearest.between {low high : Nat} (hlow : Nearest code low den) (hhigh : Nearest code high den)
    (hle : low ≤ num) (hge : num ≤ high) : Nearest code num den where
  lower := hlow.lower.trans (Nat.mul_le_mul_left 2 hle)
  upper := (Nat.mul_le_mul_left 2 hge).trans hhigh.upper
  lower_odd hodd := (hlow.lower_odd hodd).trans_le (Nat.mul_le_mul_left 2 hle)
  upper_odd hodd := (Nat.mul_le_mul_left 2 hge).trans_lt (hhigh.upper_odd hodd)

theorem nearest_units (hc : 0 < code) (hd : 0 < den) : Nearest code (units code * den) den := by
  have hpred : units (code - 1) < units code := units_strictMono (Nat.sub_lt hc Nat.one_pos)
  have hsucc := units_lt_succ code
  have hlower : (units (code - 1) + units code) * den < 2 * (units code * den) := by
    rw [← Nat.mul_assoc]
    exact Nat.mul_lt_mul_of_pos_right (by omega) hd
  have hupper : 2 * (units code * den) < (units code + units (code + 1)) * den := by
    rw [← Nat.mul_assoc]
    exact Nat.mul_lt_mul_of_pos_right (by omega) hd
  exact ⟨hlower.le, hupper.le, fun _ => hlower, fun _ => hupper⟩

theorem Nearest.congr {num' den' : Nat} (h : Nearest code num den) (hd : 0 < den) (hd' : 0 < den')
    (he : num * den' = num' * den) : Nearest code num' den' := by
  have hswap (a : Nat) : a * den' * den = a * den * den' := Nat.mul_right_comm a den' den
  have htwice : 2 * num' * den = 2 * num * den' := by rw [Nat.mul_assoc, ← he, Nat.mul_assoc]
  constructor
  · apply Nat.le_of_mul_le_mul_right _ hd
    rw [hswap, htwice]
    exact Nat.mul_le_mul_right den' h.lower
  · apply Nat.le_of_mul_le_mul_right _ hd
    rw [hswap, htwice]
    exact Nat.mul_le_mul_right den' h.upper
  · intro hodd
    apply Nat.lt_of_mul_lt_mul_right (a := den)
    rw [hswap, htwice]
    exact Nat.mul_lt_mul_of_pos_right (h.lower_odd hodd) hd'
  · intro hodd
    apply Nat.lt_of_mul_lt_mul_right (a := den)
    rw [hswap, htwice]
    exact Nat.mul_lt_mul_of_pos_right (h.upper_odd hodd) hd'

/-- A natural number is the nearest one to a quotient, where a half belongs to the even one. -/
structure Rounded (result num den : Nat) : Prop where
  lower : 2 * result * den ≤ 2 * num + den
  upper : 2 * num ≤ 2 * result * den + den
  lower_odd : result % 2 = 1 → 2 * result * den < 2 * num + den
  upper_odd : result % 2 = 1 → 2 * num < 2 * result * den + den

theorem rounded_roundDiv (num : Nat) (hd : 0 < den) : Rounded (roundDiv num den) num den := by
  have hnum := Nat.div_add_mod' num den
  have hmod := Nat.mod_lt num hd
  have hzero : 2 * (num / den) * den = 2 * (num / den * den) := Nat.mul_assoc ..
  have hone : 2 * (num / den + 1) * den = 2 * (num / den * den) + 2 * den := by ring
  unfold roundDiv
  dsimp only
  split_ifs with hlt hgt
  · constructor <;> omega
  · constructor <;> omega
  · -- An exact half: the quotient moves up when it is odd.
    rcases Nat.mod_two_eq_zero_or_one (num / den) with heven | hodd
    · rw [heven, Nat.add_zero]
      constructor <;> omega
    · rw [hodd]
      constructor <;> omega

theorem roundDiv_bounds (num den : Nat) :
    num / den ≤ roundDiv num den ∧ roundDiv num den ≤ num / den + 1 := by
  unfold roundDiv
  dsimp only
  split_ifs <;> omega

section

variable (hf : Form shift digits) (hr : Rounded digits num (den * 2 ^ shift))
include hf hr

theorem upper_of_rounded :
    2 * num ≤ (units (shift * binade + digits) + units (shift * binade + digits + 1)) * den ∧
    (digits % 2 = 1 →
      2 * num < (units (shift * binade + digits) + units (shift * binade + digits + 1)) * den) := by
  have hmiddle : 2 * digits * (den * 2 ^ shift) + den * 2 ^ shift ≤
      (units (shift * binade + digits) + units (shift * binade + digits + 1)) * den := by
    calc 2 * digits * (den * 2 ^ shift) + den * 2 ^ shift
        = (digits * 2 ^ shift + (digits + 1) * 2 ^ shift) * den := by ring
      _ ≤ _ := by
        rw [units_of_form hf]
        exact Nat.mul_le_mul_right den (Nat.add_le_add_left (units_succ_ge hf) _)
  exact ⟨hr.upper.trans hmiddle, fun hodd => (hr.upper_odd hodd).trans_le hmiddle⟩

/-- The code before the first of a binade is closer to it than a multiple of its power of two, so
there the quotient must not be smaller. -/
theorem lower_of_rounded
    (hfirst : 0 < shift → digits = binade → digits * (den * 2 ^ shift) ≤ num) :
    (units (shift * binade + digits - 1) + units (shift * binade + digits)) * den ≤ 2 * num ∧
    (digits % 2 = 1 →
      (units (shift * binade + digits - 1) + units (shift * binade + digits)) * den < 2 * num) := by
  by_cases hinner : shift = 0 ∨ binade < digits
  · cases digits with
    | zero =>
      obtain rfl : shift = 0 := hinner.resolve_right (Nat.not_lt_zero _)
      have hzero : units 0 = 0 := rfl
      simp [hzero]
    | succ d =>
      have hpred : Form shift d := ⟨hinner.imp_right Nat.le_of_lt_succ, Nat.le_of_succ_le hf.le⟩
      have hmiddle : (d * 2 ^ shift + (d + 1) * 2 ^ shift) * den + den * 2 ^ shift =
          2 * (d + 1) * (den * 2 ^ shift) := by ring
      have hlower := hr.lower
      have hlower_odd := hr.lower_odd
      rw [units_of_form hf, ← Nat.add_assoc, Nat.add_sub_cancel, units_of_form hpred]
      omega
  · have hshift : 0 < shift := by omega
    have hdigits : digits = binade := by
      have := hf.normal
      omega
    have hle := units_strictMono.monotone (Nat.sub_le (shift * binade + digits) 1)
    constructor
    · calc (units (shift * binade + digits - 1) + units (shift * binade + digits)) * den
          ≤ (units (shift * binade + digits) + units (shift * binade + digits)) * den :=
            Nat.mul_le_mul_right den (Nat.add_le_add_right hle _)
        _ = 2 * (digits * (den * 2 ^ shift)) := by
            rw [units_of_form hf]
            ring
        _ ≤ 2 * num := Nat.mul_le_mul_left 2 (hfirst hshift hdigits)
    · intro hodd
      rw [hdigits] at hodd
      exact absurd hodd (by decide)

/-- Rounding to multiples of a power of two gives the nearest code. -/
theorem nearest_of_rounded
    (hfirst : 0 < shift → digits = binade → digits * (den * 2 ^ shift) ≤ num) :
    Nearest (shift * binade + digits) num den := by
  have hparity : (shift * binade + digits) % 2 = digits % 2 := by
    rw [binade_eq]
    omega
  obtain ⟨hupper, hupper_odd⟩ := upper_of_rounded hf hr
  obtain ⟨hlower, hlower_odd⟩ := lower_of_rounded hf hr hfirst
  exact ⟨hlower, hupper, fun hodd => hlower_odd (hparity ▸ hodd),
    fun hodd => hupper_odd (hparity ▸ hodd)⟩

end

theorem bounds_of_shift (whole : Nat) {shift : Nat}
    (hs : shift = if whole < 2 * binade then 0 else whole.log2 - 52) :
    (shift = 0 ∨ binade ≤ whole / 2 ^ shift) ∧ whole / 2 ^ shift < 2 * binade := by
  have hp : 2 * binade = 2 ^ 53 := rfl
  split at hs
  next hlt =>
    subst hs
    simpa using hlt
  next hge =>
    have hne : whole ≠ 0 := by
      rintro rfl
      exact hge (by decide)
    have hlog : 53 ≤ whole.log2 := (Nat.le_log2 hne).mpr (hp ▸ Nat.le_of_not_lt hge)
    have hlow : 2 ^ 52 * 2 ^ shift ≤ whole := by
      rw [← Nat.pow_add, hs, Nat.add_sub_cancel' (by omega)]
      exact Nat.log2_self_le hne
    have hhigh : whole < 2 ^ 53 * 2 ^ shift := by
      rw [← Nat.pow_add, hs]
      have he : 53 + (whole.log2 - 52) = whole.log2 + 1 := by omega
      rw [he]
      exact Nat.lt_log2_self
    refine ⟨.inr ((Nat.le_div_iff_mul_le (Nat.two_pow_pos _)).mpr hlow), ?_⟩
    rw [hp]
    exact (Nat.div_lt_iff_lt_mul (Nat.two_pow_pos _)).mpr hhigh

/-- Rounding a quotient finds its nearest code, which may be too large for a finite number. -/
theorem exists_nearest (num : Nat) (hd : 0 < den) : ∃ code, Nearest code num den ∧
    ∀ negative, ofRatio negative num den =
      if h : code < codeBound then .finite negative ⟨code, h⟩ else .infinite negative := by
  have hbounds := bounds_of_shift (num / den) rfl
  revert hbounds
  unfold ofRatio
  dsimp only
  generalize (if num / den < 2 * binade then 0 else (num / den).log2 - 52) = shift
  rintro ⟨hnormal, hlt⟩
  rw [Nat.shiftLeft_eq]
  rw [Nat.div_div_eq_div_mul] at hnormal hlt
  have hpos : 0 < den * 2 ^ shift := Nat.mul_pos hd (Nat.two_pow_pos shift)
  obtain ⟨hlow, hhigh⟩ := roundDiv_bounds num (den * 2 ^ shift)
  have hform : Form shift (roundDiv num (den * 2 ^ shift)) :=
    ⟨hnormal.imp_right (·.trans hlow), by omega⟩
  have hnearest := nearest_of_rounded hform (rounded_roundDiv num hpos) fun hshift he => by
    rw [he]
    exact (Nat.le_div_iff_mul_le hpos).mp (hnormal.resolve_left (by omega))
  exact ⟨_, hnearest, fun _ => rfl⟩

/-- A quotient is rounded to its nearest code. -/
theorem ofRatio_of_nearest {negative : Bool} (hd : 0 < den) (hc : code < codeBound)
    (h : Nearest code num den) : ofRatio negative num den = .finite negative ⟨code, hc⟩ := by
  obtain ⟨other, hnearest, he⟩ := exists_nearest num hd
  obtain rfl := hnearest.unique h hd
  rw [he, dif_pos hc]

theorem ofRatio_of_lt {negative : Bool} (hd : 0 < den)
    (h : num < units (codeBound - 1) * den) :
    ∃ code, ofRatio negative num den = .finite negative code := by
  obtain ⟨code, hnearest, he⟩ := exists_nearest num hd
  have hc : code < codeBound := by
    refine Nat.lt_of_not_le fun hge => ?_
    have hpred := units_strictMono.monotone (Nat.sub_le_sub_right hge 1)
    have hself := units_strictMono.monotone (Nat.le_trans (Nat.sub_le codeBound 1) hge)
    have hsum := Nat.mul_le_mul_right den (Nat.add_le_add hpred hself)
    have hlower := hnearest.lower
    rw [Nat.add_mul] at hsum
    omega
  exact ⟨⟨code, hc⟩, by rw [he, dif_pos hc]⟩

end ScriptLang.Binary64
