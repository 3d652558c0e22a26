import ScriptLang.Proofs.Number.ShortestDecimal

/-! # Fewest digits

A grid of powers of ten has a point that reads back as a number wherever any of its points does, so
the shortest decimal lies on the coarsest grid that has one. A decimal with fewer digits would be
smaller than a power of ten that is not greater than the shortest decimal, and that power lies on a
coarser grid.
-/

namespace ScriptLang

open Binary64

variable {code : Nat} {d : Decimal}

namespace Shortest

variable {digits low high : Nat} {exponent : Int}

theorem reads_between (hlow : reads code ⟨low, exponent⟩ = true)
    (hhigh : reads code ⟨high, exponent⟩ = true) (hle : low ≤ digits) (hge : digits ≤ high) :
    reads code ⟨digits, exponent⟩ = true := by
  rw [reads_iff_nearest] at hlow hhigh ⊢
  exact hlow.between hhigh (Nat.mul_le_mul_right _ (Nat.mul_le_mul_right _ hle))
    (Nat.mul_le_mul_right _ (Nat.mul_le_mul_right _ hge))

theorem reads_refine (digits : Nat) (exponent : Int) (count : Nat) :
    reads code ⟨digits * 10 ^ count, exponent - count⟩ = reads code ⟨digits, exponent⟩ := by
  have hexp : count + (exponent - count).toNat + (-exponent).toNat =
      exponent.toNat + (-(exponent - count)).toNat := by omega
  have hpow : 10 ^ count * 10 ^ (exponent - count).toNat * 10 ^ (-exponent).toNat =
      10 ^ exponent.toNat * 10 ^ (-(exponent - count)).toNat := by
    rw [← Nat.pow_add, ← Nat.pow_add, ← Nat.pow_add, hexp]
  have hden (n : Nat) : 0 < 10 ^ n := Nat.pow_pos (by decide)
  have hvalue : digits * 10 ^ count * 10 ^ (exponent - count).toNat * scale * 10 ^ (-exponent).toNat =
      digits * 10 ^ exponent.toNat * scale * 10 ^ (-(exponent - count)).toNat := by
    calc digits * 10 ^ count * 10 ^ (exponent - count).toNat * scale * 10 ^ (-exponent).toNat
        = digits * (10 ^ count * 10 ^ (exponent - count).toNat * 10 ^ (-exponent).toNat) * scale := by
          ring
      _ = digits * 10 ^ exponent.toNat * scale * 10 ^ (-(exponent - count)).toNat := by
          rw [hpow]
          ring
  rw [Bool.eq_iff_iff, reads_iff_nearest, reads_iff_nearest]
  exact ⟨fun h => h.congr (hden _) (hden _) hvalue, fun h => h.congr (hden _) (hden _) hvalue.symm⟩

theorem exponent_of_onGrid (h : onGrid code exponent = some d) : d.exponent = exponent := by
  unfold onGrid at h
  dsimp only at h
  split at h <;> cases h <;> rfl

/-- One of the two points around a number reads back as it if any point of the grid does. -/
theorem isSome_onGrid_of_reads (hc : 0 < code) (h : reads code d = true) :
    (onGrid code d.exponent).isSome = true := by
  obtain ⟨digits, exponent⟩ := d
  have hnearest := reads_iff_nearest.mp h
  have hself : Nearest code (units code * 10 ^ (-exponent).toNat) (10 ^ (-exponent).toNat) :=
    nearest_units hc (Nat.pow_pos (by decide))
  have hstep : 0 < 10 ^ exponent.toNat * scale := Nat.mul_pos (Nat.pow_pos (by decide)) scale_pos
  generalize hvalue : units code * 10 ^ (-exponent).toNat = value at hself
  have haround : reads code ⟨value / (10 ^ exponent.toNat * scale), exponent⟩ = true ∨
      reads code ⟨value / (10 ^ exponent.toNat * scale) + 1, exponent⟩ = true := by
    simp only [reads_iff_nearest, Nat.mul_assoc] at hnearest ⊢
    rcases Nat.lt_or_ge (value / (10 ^ exponent.toNat * scale)) digits with hlt | hge
    · exact .inr (hself.between hnearest (Nat.lt_div_mul_add hstep |>.le.trans_eq (by ring))
        (Nat.mul_le_mul_right _ hlt))
    · exact .inl (hnearest.between hself (Nat.mul_le_mul_right _ hge) (Nat.div_mul_le_self _ _))
  unfold onGrid powerOfTen
  simp only [Nat.pow_eq]
  rw [hvalue]
  split
  · rfl
  · rfl
  · rfl
  next hbelow habove =>
    rw [hbelow, habove] at haround
    simp at haround

theorem exponent_le_top (hc : 0 < code) (h : reads code d = true) :
    d.exponent ≤ topExponent code := by
  refine Int.not_lt.mp fun hlt => ?_
  have hfew : units code < 10 ^ topExponent code * scale :=
    (Nat.div_lt_iff_lt_mul scale_pos).mp (lt_of_length_toDigits (units code / scale))
  have hden : (-d.exponent).toNat = 0 := by omega
  have hupper := (reads_iff_nearest.mp h).upper
  have hnext := units_succ_le hc
  have hpow : 10 ^ topExponent code * 10 ≤ d.digits * 10 ^ d.exponent.toNat :=
    calc 10 ^ topExponent code * 10 = 10 ^ (topExponent code + 1) := (Nat.pow_succ ..).symm
      _ ≤ 10 ^ d.exponent.toNat := Nat.pow_le_pow_right (by decide) (by omega)
      _ ≤ d.digits * 10 ^ d.exponent.toNat :=
        Nat.le_mul_of_pos_left _ (Nat.pos_of_ne_zero (digits_ne_zero hc h))
  have hscaled := Nat.mul_le_mul_right scale hpow
  rw [hden, Nat.pow_zero, Nat.mul_one] at hupper
  rw [Nat.mul_right_comm] at hscaled
  omega

theorem first_of_findSome?_range {α : Type} {f : Nat → Option α} {n : Nat} {found : α}
    (h : (List.range n).findSome? f = some found) :
    ∃ i, f i = some found ∧ ∀ j, j < i → f j = none := by
  obtain ⟨before, i, after, hrange, hi, hnone⟩ := List.findSome?_eq_some_iff.mp h
  refine ⟨i, hi, fun j hj => hnone j ?_⟩
  have hn : i < n := List.mem_range.mp (by simp [hrange])
  have hmem : j ∈ List.range n := List.mem_range.mpr (hj.trans hn)
  have hsorted := List.pairwise_lt_range (n := n)
  rw [hrange] at hmem hsorted
  obtain ⟨hafter, -⟩ := List.pairwise_cons.mp (List.pairwise_append.mp hsorted).2.1
  rcases List.mem_append.mp hmem with hbefore | hlate
  · exact hbefore
  · rcases List.mem_cons.mp hlate with rfl | hlate
    · exact absurd hj (Nat.lt_irrefl j)
    · exact absurd (hafter j hlate) (Nat.lt_asymm hj)

theorem exponent_le_of_reads (hc : 0 < code) (h : reads code d = true) :
    d.exponent ≤ (decimal code).exponent := by
  have htop := exponent_le_top hc h
  have hsome := isSome_onGrid_of_reads hc h
  obtain ⟨found, hfind⟩ := exists_onGrid hc
  have hdecimal : decimal code = found := by
    unfold decimal
    dsimp only
    rw [hfind, Option.getD_some]
  obtain ⟨i, hi, hnone⟩ := first_of_findSome?_range hfind
  rw [hdecimal, exponent_of_onGrid hi]
  refine Int.not_lt.mp fun hlt => ?_
  -- The grid of this decimal would have been looked at before.
  have hd : (topExponent code : Int) - (topExponent code - d.exponent).toNat = d.exponent := by omega
  have hnone := hnone (topExponent code - d.exponent).toNat (by omega)
  rw [hd] at hnone
  rw [hnone] at hsome
  exact Bool.noConfusion hsome

theorem decimal_digits_mod_ten (hc : 0 < code) : (decimal code).digits % 10 ≠ 0 := by
  intro hzero
  have hreads := reads_decimal hc
  have hcoarse : reads code ⟨(decimal code).digits / 10, (decimal code).exponent + 1⟩ = true := by
    rw [← reads_refine _ _ 1]
    have hdigits : (decimal code).digits / 10 * 10 ^ 1 = (decimal code).digits := by omega
    have hexp : (decimal code).exponent + 1 - (1 : Nat) = (decimal code).exponent := by omega
    rw [hdigits, hexp]
    exact hreads
  have := exponent_le_of_reads hc hcoarse
  dsimp only at this
  omega

/-- No decimal that reads back as a number has fewer digits than the shortest one. -/
theorem length_le_of_reads (hc : 0 < code) (h : reads code d = true) :
    (Nat.toDigits 10 (decimal code).digits).length ≤ (Nat.toDigits 10 d.digits).length := by
  refine Nat.le_of_not_lt fun hlt => ?_
  have hexp := exponent_le_of_reads hc h
  have hreads := reads_decimal hc
  have hfirst := le_of_length_toDigits (digits_ne_zero hc hreads)
  have hdigits := lt_of_length_toDigits d.digits
  obtain ⟨length, hlength⟩ : ∃ length, (Nat.toDigits 10 (decimal code).digits).length = length + 2 := by
    have := Nat.length_toDigits_pos (b := 10) (n := d.digits)
    exact Nat.exists_eq_add_of_le' (by omega)
  obtain ⟨count, hcount⟩ := Int.eq_ofNat_of_zero_le (Int.sub_nonneg_of_le hexp)
  have hfine : (decimal code).exponent - count = d.exponent := by omega
  have hcoarse : reads code ⟨10 ^ length, (decimal code).exponent + 1⟩ = true := by
    have hgrid : (decimal code).exponent + 1 - (count + 1 : Nat) = d.exponent := by omega
    rw [← reads_refine _ _ (count + 1), hgrid]
    rw [← reads_refine _ _ count, hfine] at hreads
    refine reads_between h hreads ?_ ?_
    · calc d.digits ≤ 10 ^ (length + 1) :=
            hdigits.le.trans (Nat.pow_le_pow_right (by decide) (by omega))
        _ ≤ 10 ^ length * 10 ^ (count + 1) := by
          rw [← Nat.pow_add]
          exact Nat.pow_le_pow_right (by decide) (by omega)
    · have hpow : 10 ^ length * 10 ^ (count + 1) = 10 ^ (length + 1) * 10 ^ count := by ring
      rw [hlength] at hfirst
      rw [hpow]
      exact Nat.mul_le_mul_right _ hfirst
  have := exponent_le_of_reads hc hcoarse
  dsimp only at this
  omega

end Shortest

end ScriptLang
