import Mathlib.Data.List.Basic
import ScriptLang.Proofs.Json.Numerals
import ScriptLang.Proofs.Number.SignificantDigits
import ScriptLang.Value.Conversion

/-! # Texts of floats

Every float that is a number is read back from its text. The text of a finite one has no exponent
and no zeros to spare, and no text with fewer significant digits is read as the same float.
-/

namespace ScriptLang

open Binary64 DecimalDigit Json.Reader

variable {d : Decimal} {whole fraction : List Char}

/-- A number without an exponent: a single zero or digits that do not start with one, and perhaps a
point and places that do not end in a zero. -/
structure Canonical (whole pointed : List Char) : Prop extends Numeral whole pointed [] where
  last : pointed.getLast? ≠ some '0'

theorem Json.Reader.Numeral.plain (h : Numeral whole fraction []) :
    ∀ c ∈ whole ++ fraction, isNumeralChar c = true := by
  have hfraction : ∀ c ∈ fraction, isNumeralChar c = true := by
    obtain rfl | ⟨places, rfl, -, hplaces⟩ := h.fraction
    · exact nofun
    · exact List.forall_mem_cons.mpr ⟨by decide, plain_of_digits hplaces⟩
  exact List.forall_mem_append.mpr ⟨plain_of_digits h.digits, hfraction⟩

theorem Json.Reader.Numeral.float?_eq (h : Numeral whole fraction []) (negative : Bool) :
    Reading.float? (withSign negative (whole ++ fraction)) =
      Reading.readUnsigned negative (whole ++ fraction) := by
  have hplain := h.plain
  obtain ⟨c, tail, rfl, hc⟩ := h.first
  exact float?_withSign hplain hc negative

theorem Json.Reader.Numeral.significant_eq (h : Numeral whole fraction []) (negative : Bool) :
    Reading.significant (withSign negative (whole ++ fraction)) =
      Blank.trim (· == '0') (whole ++ fraction.tail) := by
  have hsign : Reading.mantissaDigits (withSign negative (whole ++ fraction)).toList =
      Reading.mantissaDigits (whole ++ fraction) := by
    rw [withSign, String.toList_ofList]
    cases negative with
    | true => exact Reading.mantissaDigits_cons (by decide) (by decide)
    | false => rfl
  have hfraction : Reading.mantissaDigits fraction = fraction.tail := by
    obtain rfl | ⟨places, rfl, -, hplaces⟩ := h.fraction
    · rfl
    · have happend : Reading.mantissaDigits (places ++ []) = places ++ [] :=
        Reading.mantissaDigits_append hplaces
      rw [List.append_nil] at happend
      exact (Reading.mantissaDigits_cons (by decide) (by decide)).trans happend
  have hplain := plain_withSign h.plain negative
  rw [Reading.significant, trim_eq_self hplain, map_toAscii_eq_self hplain, hsign,
    Reading.mantissaDigits_append h.digits, hfraction]

theorem getLast?_toDigits_ne {n : Nat} (h : n % 10 ≠ 0) :
    (Nat.toDigits 10 n).getLast? ≠ some '0' := by
  have hall : ∀ k < 10, k ≠ 0 → k.digitChar ≠ '0' := by decide
  have hlast := hall (n % 10) (Nat.mod_lt n (by decide)) h
  rw [Nat.toDigits_eq_if (by decide)]
  split
  next hlt =>
    rw [Nat.mod_eq_of_lt hlt] at hlast
    simpa using hlast
  next => simpa using hlast

/-- A canonical text of a positive number, with the digits of a decimal and zeros around them. -/
structure Spelling (d : Decimal) (code : Fin codeBound) (whole pointed : List Char) : Prop
    extends Canonical whole pointed where
  reads (negative : Bool) : Reading.readUnsigned negative (whole ++ pointed) =
    some (.finite negative code)
  spelled : ∃ front back, whole ++ pointed.tail =
    List.replicate front '0' ++ Nat.toDigits 10 d.digits ++ List.replicate back '0'

section

variable {code : Fin codeBound} (hpos : 0 < code.val) (hreads : Shortest.reads code d = true)
include hpos hreads

theorem exists_spelling_of_fractional (hexp : d.exponent < 0) (hlast : d.digits % 10 ≠ 0) :
    ∃ whole fraction, d.positional = whole ++ fraction ∧ Spelling d code whole fraction := by
  obtain ⟨whole, places, htext, hparts, zeros, hdigits⟩ := parts_of_fractional hexp
  have hplaces : ('.' :: places).getLast? ≠ some '0' := by
    have hends := congrArg List.getLast? hdigits
    rw [List.getLast?_append_of_ne_nil _ hparts.fraction_ne_nil,
      List.getLast?_append_of_ne_nil _ Nat.toDigits_ne_nil] at hends
    rw [List.getLast?_cons_of_ne_nil hparts.fraction_ne_nil, hends]
    exact getLast?_toDigits_ne hlast
  exact ⟨whole, '.' :: places, htext,
    { digits := hparts.whole_digits
      ne_nil := hparts.whole_ne_nil
      lead := hparts.lead (Shortest.digits_ne_zero hpos hreads)
      fraction := .inr ⟨places, rfl, hparts.fraction_ne_nil, hparts.fraction_digits⟩
      exponent := .inl rfl
      last := hplaces
      reads := fun _ => readUnsigned_of_parts hpos code.isLt hreads hparts
      spelled := ⟨zeros, 0, by simpa using hdigits⟩ }⟩

theorem spelling_of_integral (hexp : 0 ≤ d.exponent) : Spelling d code d.positional [] := by
  have hparts := parts_of_integral hexp
  have htext := positional_of_integral hexp
  have hnumeral : Numeral d.positional [] [] := ⟨hparts.whole_digits, hparts.whole_ne_nil,
    hparts.lead (Shortest.digits_ne_zero hpos hreads), .inl rfl, .inl rfl⟩
  refine ⟨⟨hnumeral, nofun⟩, fun negative => ?_, 0, d.exponent.toNat, by simpa using htext⟩
  have hgrid : d.exponent - d.exponent.toNat = 0 := by omega
  have hvalue : valueOf 10 d.positional = d.digits * 10 ^ d.exponent.toNat := by
    rw [htext, valueOf_append_zeros, valueOf_toDigits]
  rw [← Shortest.reads_refine _ _ d.exponent.toNat, hgrid, ← hvalue] at hreads
  have hread : Reading.readUnsigned negative (d.positional ++ ([] ++ [])) =
      some (Reading.ofDecimal negative (valueOf 10 (d.positional ++ [])) 0) :=
    hnumeral.readUnsigned_eq
  rw [List.append_nil, List.append_nil] at hread
  rw [List.append_nil, hread,
    ofDecimal_of_nearest hpos code.isLt (Shortest.reads_iff_nearest.mp hreads)]

end

theorem exists_spelling {code : Fin codeBound} (hpos : 0 < code.val) : ∃ whole fraction,
    (Shortest.decimal code).positional = whole ++ fraction ∧
      Spelling (Shortest.decimal code) code whole fraction := by
  have hreads := Shortest.reads_decimal hpos
  rcases lt_or_ge (Shortest.decimal code).exponent 0 with hexp | hexp
  · exact exists_spelling_of_fractional hpos hreads hexp (Shortest.decimal_digits_mod_ten hpos)
  · exact ⟨_, [], (List.append_nil _).symm, spelling_of_integral hpos hreads hexp⟩

theorem canonical_zero : Canonical ['0'] [] where
  digits := List.forall_mem_singleton.mpr rfl
  ne_nil := List.cons_ne_nil _ _
  lead _ := rfl
  fraction := .inl rfl
  exponent := .inl rfl
  last := nofun

theorem exists_canonical (negative : Bool) (code : Fin codeBound) : ∃ whole fraction,
    (finite negative code).text = withSign negative (whole ++ fraction) ∧ Canonical whole fraction ∧
      Reading.float? (finite negative code).text = some (.finite negative code) ∧
      ∀ other, Reading.float? other = some (.finite negative code) →
        (Reading.significant (finite negative code).text).length ≤
          (Reading.significant other).length := by
  rcases Nat.eq_zero_or_pos code with hzero | hpos
  · obtain rfl : code = ⟨0, by decide⟩ := Fin.ext hzero
    refine ⟨['0'], [], rfl, canonical_zero, ?_, fun other _ => ?_⟩
    · exact canonical_zero.float?_eq negative
    · have hnone : Reading.significant (withSign negative (['0'] ++ [])) = [] :=
        canonical_zero.significant_eq negative
      exact (congrArg List.length hnone).le.trans (Nat.zero_le _)
  · obtain ⟨whole, fraction, htext, hspelling⟩ := exists_spelling hpos
    obtain ⟨front, back, hdigits⟩ := hspelling.spelled
    have hform : (finite negative code).text = withSign negative (whole ++ fraction) := by
      rw [text, if_neg hpos.ne', htext]
    refine ⟨whole, fraction, hform, hspelling.toCanonical, ?_, fun other hother => ?_⟩
    · rw [hform, hspelling.float?_eq, hspelling.reads]
    · have hfewest := Reading.length_le_significant hpos hother
      rw [hform, hspelling.significant_eq, hdigits]
      exact (Reading.length_trim_le front back).trans hfewest

namespace Value

theorem toFloat_text_iff {text : String} {x : Binary64} :
    toFloat (.str text) = .ok (.float x) ↔ Reading.float? text = some x := by
  cases h : Reading.float? text with
  | none => simp [toFloat, h]
  | some y => simp [toFloat, h]

/-- Floats are read back from their texts. That of a finite one is canonical after its sign, and no
text that is read as the same float has fewer significant digits. -/
theorem float_text_round_trip {x : Binary64} (hx : x ≠ .nan) :
    toFloat (.str (text (.float x))) = .ok (.float x) ∧
      ∀ negative code, x = .finite negative code →
        (∃ whole fraction, text (.float x) = withSign negative (whole ++ fraction) ∧
          Canonical whole fraction) ∧
        ∀ other, toFloat (.str other) = .ok (.float x) →
          (Reading.significant (text (.float x))).length ≤ (Reading.significant other).length := by
  simp only [toFloat_text_iff]
  cases x with
  | nan => exact absurd rfl hx
  | infinite negative =>
    refine ⟨?_, nofun⟩
    cases negative with
    | true => rfl
    | false => rfl
  | finite negative code =>
    obtain ⟨whole, fraction, hform, hcanonical, hread, hfewest⟩ := exists_canonical negative code
    refine ⟨hread, ?_⟩
    rintro _ _ ⟨⟩
    exact ⟨⟨whole, fraction, hform, hcanonical⟩, hfewest⟩

/-- One tenth is written with a single digit, and with no fewer in any other way. -/
theorem float_text_round_trip_tenth :
    let tenth : Binary64 := .finite false ⟨0x3FB999999999999A, by decide⟩
    tenth ≠ .nan ∧ text (.float tenth) = "0.1" ∧
      toFloat (.str (text (.float tenth))) = .ok (.float tenth) ∧
      toFloat (.str "1.000000000000000055e-1") = .ok (.float tenth) ∧
      (Reading.significant "0.1").length ≤
        (Reading.significant "1.000000000000000055e-1").length := by
  intro tenth
  have hx : tenth ≠ .nan := nofun
  obtain ⟨hround, hfinite⟩ := float_text_round_trip hx
  obtain ⟨-, hfewest⟩ := hfinite _ _ rfl
  have htext : text (.float tenth) = "0.1" := by decide +kernel
  have hother : toFloat (.str "1.000000000000000055e-1") = .ok (.float tenth) := by
    rw [toFloat_text_iff]
    decide +kernel
  rw [htext] at hfewest
  exact ⟨hx, htext, hround, hother, hfewest _ hother⟩

end Value

end ScriptLang
