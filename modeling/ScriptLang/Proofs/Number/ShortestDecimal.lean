import ScriptLang.Number.Layout
import ScriptLang.Proofs.Number.Digits
import ScriptLang.Proofs.Number.Rounding

/-! # Shortest decimals read back

The finest grid that is looked at has a point close enough to every number, so there is always a
decimal, and whatever grid it lies on, the number is the nearest one to it. Written out in
positions, it is read as that number.
-/

namespace ScriptLang

open Binary64 DecimalDigit

variable {code : Nat} {d : Decimal}

namespace Shortest

theorem reads_iff_nearest : reads code d = true ↔
    Nearest code (d.digits * 10 ^ d.exponent.toNat * scale) (10 ^ (-d.exponent).toNat) := by
  have hassoc : 2 * d.digits * 10 ^ d.exponent.toNat * scale =
      2 * (d.digits * 10 ^ d.exponent.toNat * scale) := by ring
  simp only [reads, powerOfTen, Nat.pow_eq, hassoc]
  split
  next heven =>
    rw [Bool.and_eq_true, decide_eq_true_eq, decide_eq_true_eq]
    exact ⟨fun h => ⟨h.1, h.2, by omega, by omega⟩, fun h => ⟨h.lower, h.upper⟩⟩
  next hodd =>
    rw [Bool.and_eq_true, decide_eq_true_eq, decide_eq_true_eq]
    exact ⟨fun h => ⟨h.1.le, h.2.le, fun _ => h.1, fun _ => h.2⟩,
      fun h => ⟨h.lower_odd (by omega), h.upper_odd (by omega)⟩⟩

theorem reads_of_onGrid {exponent : Int} (h : onGrid code exponent = some d) :
    reads code d = true := by
  unfold onGrid at h
  dsimp only at h
  split at h
  next hbelow habove =>
    -- The nearer of the two points is one of them.
    cases h
    obtain ⟨hlow, hhigh⟩ := roundDiv_bounds
      (units code * (powerOfTen exponent).2) ((powerOfTen exponent).1 * scale)
    rcases Nat.lt_or_eq_of_le hhigh with hlt | he
    · rw [Nat.le_antisymm (Nat.le_of_lt_succ hlt) hlow]
      exact hbelow
    · rw [he]
      exact habove
  next hbelow _ =>
    cases h
    exact hbelow
  next _ habove =>
    cases h
    exact habove
  next => cases h

theorem scale_pos : 0 < scale := by decide +kernel

theorem scale_lt : 2 * scale < 10 ^ 324 := by decide +kernel

theorem reads_finest (hc : 0 < code) :
    reads code ⟨units code * 10 ^ 324 / scale, -324⟩ = true := by
  rw [reads_iff_nearest]
  have hpred : units (code - 1) < units code := units_strictMono (Nat.sub_lt hc Nat.one_pos)
  have hsucc := units_lt_succ code
  have hdiv := Nat.div_add_mod' (units code * 10 ^ 324) scale
  have hmod := Nat.mod_lt (units code * 10 ^ 324) scale_pos
  have hstep := scale_lt
  have hlower : (units (code - 1) + units code) * 10 ^ 324 <
      2 * (units code * 10 ^ 324 / scale * scale) := by
    have hle : units (code - 1) + units code + 1 ≤ 2 * units code := by omega
    have hmul := Nat.mul_le_mul_right (10 ^ 324) hle
    rw [Nat.add_mul, Nat.one_mul, Nat.mul_assoc] at hmul
    omega
  have hupper : 2 * (units code * 10 ^ 324 / scale * scale) <
      (units code + units (code + 1)) * 10 ^ 324 := by
    have hle : 2 * units code + 1 ≤ units code + units (code + 1) := by omega
    have hmul := Nat.mul_le_mul_right (10 ^ 324) hle
    rw [Nat.add_mul, Nat.one_mul, Nat.mul_assoc] at hmul
    omega
  have hnum (n : Nat) : n * 10 ^ (-324 : Int).toNat * scale = n * scale := by simp
  rw [hnum]
  exact ⟨hlower.le, hupper.le, fun _ => hlower, fun _ => hupper⟩

theorem isSome_onGrid_finest (hc : 0 < code) : (onGrid code (-324)).isSome = true := by
  have hreads := reads_finest hc
  unfold onGrid
  dsimp only
  split
  · rfl
  · rfl
  · rfl
  next hbelow _ =>
    have he : (powerOfTen (-324)).1 * scale = scale := Nat.one_mul _
    rw [he] at hbelow
    exact Bool.noConfusion (hbelow.symm.trans hreads)

theorem exists_onGrid (hc : 0 < code) : ∃ d, ((List.range (topExponent code + 325)).findSome?
    fun (i : Nat) => onGrid code (topExponent code - i)) = some d := by
  rw [← Option.isSome_iff_exists, List.findSome?_isSome_iff]
  refine ⟨topExponent code + 324, List.mem_range.mpr (Nat.lt_succ_self _), ?_⟩
  have he : (topExponent code : Int) - (topExponent code + 324 : Nat) = -324 := by omega
  rw [he]
  exact isSome_onGrid_finest hc

theorem reads_decimal (hc : 0 < code) : reads code (decimal code) = true := by
  obtain ⟨d, hd⟩ := exists_onGrid hc
  obtain ⟨i, -, hi⟩ := List.exists_of_findSome?_eq_some hd
  unfold decimal
  dsimp only
  rw [hd]
  exact reads_of_onGrid hi

theorem digits_ne_zero (hc : 0 < code) (hr : reads code d = true) : d.digits ≠ 0 := by
  intro hzero
  have hle := (reads_iff_nearest.mp hr).den_le hc
  rw [hzero, Nat.zero_mul, Nat.zero_mul] at hle
  have hden : 0 < 10 ^ (-d.exponent).toNat := Nat.pow_pos (by decide)
  omega

end Shortest

variable {mantissa : Nat} {exponent : Int}

theorem lt_of_length_toDigits (n : Nat) : n < 10 ^ (Nat.toDigits 10 n).length :=
  (Nat.length_toDigits_le_iff (by decide) Nat.length_toDigits_pos).mp le_rfl

theorem le_of_length_toDigits {n : Nat} (h : n ≠ 0) : 10 ^ ((Nat.toDigits 10 n).length - 1) ≤ n := by
  rcases Nat.eq_zero_or_pos ((Nat.toDigits 10 n).length - 1) with hzero | hpos
  · rw [hzero, Nat.pow_zero]
    exact Nat.pos_of_ne_zero h
  · refine Nat.le_of_not_lt fun hlt => ?_
    have := (Nat.length_toDigits_le_iff (by decide) hpos).mpr hlt
    omega

/-- A decimal with a nearest code is neither too large nor too small to look at. -/
theorem ofDecimal_of_nearest {negative : Bool} (hpos : 0 < code) (hc : code < codeBound)
    (h : Nearest code (mantissa * 10 ^ exponent.toNat * scale) (10 ^ (-exponent).toNat)) :
    Reading.ofDecimal negative mantissa exponent = .finite negative ⟨code, hc⟩ := by
  have hden : 0 < 10 ^ (-exponent).toNat := Nat.pow_pos (by decide)
  have hle := h.den_le hpos
  have hne : mantissa ≠ 0 := by
    rintro rfl
    simp at hle
  have hlarge : ¬ (310 ≤ ((Nat.toDigits 10 mantissa).length : Int) + exponent) := by
    intro hsize
    have hnum : 10 ^ 309 * 10 ^ (-exponent).toNat ≤ mantissa * 10 ^ exponent.toNat := by
      calc 10 ^ 309 * 10 ^ (-exponent).toNat
          = 10 ^ (309 + (-exponent).toNat) := (Nat.pow_add ..).symm
        _ ≤ 10 ^ ((Nat.toDigits 10 mantissa).length - 1 + exponent.toNat) :=
          Nat.pow_le_pow_right (by decide) (by omega)
        _ = 10 ^ ((Nat.toDigits 10 mantissa).length - 1) * 10 ^ exponent.toNat := Nat.pow_add ..
        _ ≤ mantissa * 10 ^ exponent.toNat :=
          Nat.mul_le_mul_right _ (le_of_length_toDigits hne)
    have hbound : units codeBound < 10 ^ 309 * scale := by decide +kernel
    have hfar := Nat.mul_lt_mul_of_pos_right hbound hden
    have hnum := Nat.mul_le_mul_right scale hnum
    rw [Nat.mul_right_comm] at hnum
    exact Nat.not_le_of_lt hfar (hnum.trans (h.num_le hc))
  have hsmall : ¬ (((Nat.toDigits 10 mantissa).length : Int) + exponent ≤ -324) := by
    intro hsize
    have hnum : mantissa * 10 ^ exponent.toNat * 10 ^ 324 ≤ 10 ^ (-exponent).toNat := by
      calc mantissa * 10 ^ exponent.toNat * 10 ^ 324
          ≤ 10 ^ (Nat.toDigits 10 mantissa).length * 10 ^ exponent.toNat * 10 ^ 324 :=
          Nat.mul_le_mul_right _ (Nat.mul_le_mul_right _ (lt_of_length_toDigits mantissa).le)
        _ = 10 ^ ((Nat.toDigits 10 mantissa).length + exponent.toNat + 324) := by
          rw [Nat.pow_add, Nat.pow_add]
        _ ≤ 10 ^ (-exponent).toNat := Nat.pow_le_pow_right (by decide) (by omega)
    have hfar := Nat.mul_lt_mul_of_pos_left Shortest.scale_lt
      (Nat.mul_pos (Nat.pos_of_ne_zero hne) (Nat.pow_pos (n := exponent.toNat) (a := 10) (by decide)))
    rw [Nat.mul_left_comm] at hfar
    exact Nat.not_le_of_lt hfar (hnum.trans hle)
  unfold Reading.ofDecimal
  dsimp only
  rw [if_neg hne, if_neg hlarge, if_neg hsmall]
  exact ofRatio_of_nearest hden hc h

theorem valueOf_append_zeros (digits : List Char) (count : Nat) :
    valueOf 10 (digits ++ List.replicate count '0') = valueOf 10 digits * 10 ^ count := by
  induction count with
  | zero => simp
  | succ count ih =>
    rw [List.replicate_succ', ← List.append_assoc, valueOf_append_singleton, ih, Nat.pow_succ,
      Nat.mul_assoc]
    rfl

theorem valueOf_zeros_append (count : Nat) (digits : List Char) :
    valueOf 10 (List.replicate count '0' ++ digits) = valueOf 10 digits := by
  induction count with
  | zero => rfl
  | succ count ih =>
    rw [List.replicate_succ, List.cons_append]
    exact ih

/-- The digits before and after a point spell a decimal. -/
structure Decimal.Parts (d : Decimal) (whole fraction : List Char) : Prop where
  whole_digits : ∀ c ∈ whole, isAscii c = true
  fraction_digits : ∀ c ∈ fraction, isAscii c = true
  whole_ne_nil : whole ≠ []
  fraction_ne_nil : fraction ≠ []
  lead : d.digits ≠ 0 → whole.head? = some '0' → whole = ['0']
  value : valueOf 10 (whole ++ fraction) * 10 ^ (-d.exponent).toNat =
    d.digits * 10 ^ d.exponent.toNat * 10 ^ fraction.length

theorem isAscii_of_mem_zeros {count : Nat} {c : Char} (h : c ∈ List.replicate count '0') :
    isAscii c = true := by
  rw [List.eq_of_mem_replicate h]
  decide

theorem positional_of_integral (h : 0 ≤ d.exponent) :
    d.positional = Nat.toDigits 10 d.digits ++ List.replicate d.exponent.toNat '0' := by
  have hplaces : (-d.exponent).toNat = 0 := by omega
  simp [Decimal.positional, hplaces]

theorem parts_of_integral (h : 0 ≤ d.exponent) : d.Parts d.positional ['0'] := by
  have hplaces : (-d.exponent).toNat = 0 := by omega
  rw [positional_of_integral h]
  refine ⟨fun c hc => ?_, by simp [isAscii], ?_, List.cons_ne_nil _ _, fun hn hzero => ?_, ?_⟩
  · rcases List.mem_append.mp hc with hc | hc
    · exact isAscii_of_mem_toDigits hc
    · exact isAscii_of_mem_zeros hc
  · exact List.append_ne_nil_of_left_ne_nil Nat.toDigits_ne_nil _
  · have hhead := head?_toDigits_ne hn
    obtain ⟨c, rest, he⟩ := List.exists_cons_of_ne_nil (Nat.toDigits_ne_nil (b := 10) (n := d.digits))
    rw [he] at hhead hzero
    exact absurd hzero hhead
  · have hzeros : Nat.toDigits 10 d.digits ++ List.replicate d.exponent.toNat '0' ++ ['0'] =
        Nat.toDigits 10 d.digits ++ List.replicate (d.exponent.toNat + 1) '0' := by
      rw [List.append_assoc, List.replicate_succ']
    rw [hzeros, valueOf_append_zeros, valueOf_toDigits, hplaces, Nat.pow_succ]
    simp [Nat.mul_assoc]

theorem parts_of_fractional (h : d.exponent < 0) :
    ∃ whole fraction, d.positional = whole ++ '.' :: fraction ∧ d.Parts whole fraction ∧
      ∃ zeros, whole ++ fraction = List.replicate zeros '0' ++ Nat.toDigits 10 d.digits := by
  have hplaces : (-d.exponent).toNat ≠ 0 := by omega
  have hdigits := Nat.length_toDigits_pos (b := 10) (n := d.digits)
  unfold Decimal.positional
  dsimp only
  rw [if_neg hplaces]
  generalize hpadded : List.replicate ((-d.exponent).toNat + 1 - (Nat.toDigits 10 d.digits).length) '0' ++
    Nat.toDigits 10 d.digits = padded
  have hlen : (-d.exponent).toNat < padded.length := by
    rw [← hpadded, List.length_append, List.length_replicate]
    omega
  have hascii : ∀ c ∈ padded, isAscii c = true := by
    rw [← hpadded]
    intro c hc
    rcases List.mem_append.mp hc with hc | hc
    · exact isAscii_of_mem_zeros hc
    · exact isAscii_of_mem_toDigits hc
  refine ⟨_, _, rfl, ⟨fun c hc => hascii c (List.mem_of_mem_take hc),
    fun c hc => hascii c (List.mem_of_mem_drop hc), ?_, ?_, fun hn hzero => ?_, ?_⟩,
    _, (List.take_append_drop ..).trans hpadded.symm⟩
  · exact List.ne_nil_of_length_pos (by rw [List.length_take]; omega)
  · exact List.ne_nil_of_length_pos (by rw [List.length_drop]; omega)
  · rw [List.head?_take] at hzero
    split at hzero
    · cases hzero
    by_cases hshort : (Nat.toDigits 10 d.digits).length ≤ (-d.exponent).toNat
    · -- A single zero is left before the point.
      have hone : padded.length - (-d.exponent).toNat = 1 := by
        rw [← hpadded, List.length_append, List.length_replicate]
        omega
      rw [hone]
      cases padded with
      | nil => cases hzero
      | cons c rest =>
        cases hzero
        rfl
    · have hnone : (-d.exponent).toNat + 1 - (Nat.toDigits 10 d.digits).length = 0 := by omega
      rw [← hpadded, hnone] at hzero
      exact absurd hzero (head?_toDigits_ne hn)
  · have he : d.exponent.toNat = 0 := by omega
    have hcount : padded.length - (padded.length - (-d.exponent).toNat) = (-d.exponent).toNat := by
      omega
    rw [List.take_append_drop, List.length_drop, hcount, ← hpadded, valueOf_zeros_append,
      valueOf_toDigits, he, Nat.pow_zero, Nat.mul_one]

theorem splitDigits_append {digits rest : List Char} (hd : ∀ c ∈ digits, isAscii c = true)
    (hr : ∀ c ∈ rest.head?, isAscii c = false) :
    Reading.splitDigits (digits ++ rest) = (digits, rest) := by
  rw [Reading.splitDigits, List.takeWhile_append_of_pos hd, List.dropWhile_append_of_pos hd]
  cases rest with
  | nil => simp
  | cons c rest => simp [hr c rfl]

theorem readUnsigned_of_digits {whole fraction : List Char} {negative : Bool}
    (hw : ∀ c ∈ whole, isAscii c = true) (hf : ∀ c ∈ fraction, isAscii c = true)
    (hn : whole ≠ []) : Reading.readUnsigned negative (whole ++ '.' :: fraction) =
      some (Reading.ofDecimal negative (valueOf 10 (whole ++ fraction)) (-fraction.length)) := by
  have hfraction : Reading.splitDigits fraction = (fraction, []) := by
    have h : Reading.splitDigits (fraction ++ []) = (fraction, []) := splitDigits_append hf (by simp)
    rwa [List.append_nil] at h
  have hpoint : ∀ c ∈ ('.' :: fraction).head?, isAscii c = false := by
    rintro c ⟨⟩
    decide
  rw [Reading.readUnsigned, splitDigits_append hw hpoint]
  simp [hfraction, hn, Reading.readExponent]

theorem readUnsigned_of_parts {whole fraction : List Char} {negative : Bool} (hpos : 0 < code)
    (hc : code < codeBound) (hr : Shortest.reads code d = true) (h : d.Parts whole fraction) :
    Reading.readUnsigned negative (whole ++ '.' :: fraction) =
      some (.finite negative ⟨code, hc⟩) := by
  rw [readUnsigned_of_digits h.whole_digits h.fraction_digits h.whole_ne_nil]
  have hexp : (-(-fraction.length : Int)).toNat = fraction.length := by omega
  have hexp' : (-fraction.length : Int).toNat = 0 := by omega
  rw [ofDecimal_of_nearest hpos hc]
  refine (Shortest.reads_iff_nearest.mp hr).congr (Nat.pow_pos (by decide)) (Nat.pow_pos (by decide)) ?_
  rw [hexp, hexp', Nat.pow_zero, Nat.mul_one, Nat.mul_right_comm, ← h.value, Nat.mul_right_comm]

end ScriptLang
