import ScriptLang.Json.Reader
import ScriptLang.Proofs.Number.Magnitude
import ScriptLang.Proofs.Syntax.Tokens

/-! # Numbers in JSON texts

Integers and floats are read back from the texts they are written as, if what follows does not
continue them. Floats may be written with an exponent and are still exact: the digits are those of
the shortest decimal, and the exponent puts the point where it belongs.
-/

namespace ScriptLang

open DecimalDigit

namespace Json.Reader

variable {whole fraction exponent rest : List Char}

/-- The end of a line, of an item or of the whole text: what follows a value that was written. -/
def Stops (rest : List Char) : Prop := ∀ c ∈ rest.head?, c = ',' ∨ c = '\n'

theorem Stops.head {p : Char → Bool} (h : Stops rest) (hc : p ',' = false) (hn : p '\n' = false) :
    ∀ c ∈ rest.head?, p c = false := by
  intro c hm
  obtain rfl | rfl := h c hm
  · exact hc
  · exact hn

def IsFraction (text : List Char) : Prop :=
  ∃ places, text = '.' :: places ∧ places ≠ [] ∧ ∀ c ∈ places, isAscii c = true

def IsExponent (text : List Char) : Prop :=
  ∃ sign power, text = 'e' :: sign :: power ∧ (sign = '+' ∨ sign = '-') ∧ power ≠ [] ∧
    ∀ c ∈ power, isAscii c = true

/-- The parts of a number: its whole digits without zeros to spare, perhaps a fraction, and perhaps
an exponent. -/
structure Numeral (whole fraction exponent : List Char) : Prop where
  digits : ∀ c ∈ whole, isAscii c = true
  ne_nil : whole ≠ []
  lead : whole.head? = some '0' → whole = ['0']
  fraction : fraction = [] ∨ IsFraction fraction
  exponent : exponent = [] ∨ IsExponent exponent

section Numeral

variable (h : Numeral whole fraction exponent) (hs : Stops rest) {p : Char → Bool}
include h

theorem Numeral.first : ∃ c tail, whole = c :: tail ∧ isAscii c = true := by
  obtain ⟨c, tail, rfl⟩ := List.exists_cons_of_ne_nil h.ne_nil
  exact ⟨c, tail, rfl, h.digits c List.mem_cons_self⟩

include hs

theorem Numeral.head_exponent (he : p 'e' = false) (hc : p ',' = false) (hn : p '\n' = false) :
    ∀ c ∈ (exponent ++ rest).head?, p c = false := by
  obtain rfl | ⟨sign, power, rfl, -⟩ := h.exponent
  · exact hs.head hc hn
  · rintro c ⟨⟩
    exact he

theorem Numeral.head_fraction (hp : p '.' = false) (he : p 'e' = false) (hc : p ',' = false)
    (hn : p '\n' = false) : ∀ c ∈ (fraction ++ (exponent ++ rest)).head?, p c = false := by
  obtain hf | ⟨places, hf, -⟩ := h.fraction
  · rw [hf]
    exact h.head_exponent hs he hc hn
  · rw [hf]
    rintro c ⟨⟩
    exact hp

end Numeral

section Numeral

variable {negative : Bool} (h : Numeral whole fraction exponent) (hs : Stops rest)
include h

include hs

end Numeral

theorem readExponent_signed {sign : Char} {power : List Char} (hs : sign = '+' ∨ sign = '-')
    (hn : power ≠ []) (hd : ∀ c ∈ power, isAscii c = true) :
    Reading.readExponent ('e' :: sign :: power) =
      some (Binary64.signed (sign == '-') (valueOf 10 power)) := by
  obtain rfl | rfl := hs
  · simpa [Reading.readExponent, Reading.splitSign, hn] using hd
  · simpa [Reading.readExponent, Reading.splitSign, hn] using hd

theorem Numeral.readUnsigned_eq (h : Numeral whole fraction exponent) {negative : Bool} :
    Reading.readUnsigned negative (whole ++ (fraction ++ exponent)) =
      (Reading.readExponent exponent).map fun power =>
        Reading.ofDecimal negative (valueOf 10 (whole ++ fraction.tail))
          (power - fraction.tail.length) := by
  have hend : Stops [] := nofun
  have hexp : ∀ c ∈ exponent.head?, isAscii c = false := by
    simpa using h.head_exponent hend (p := isAscii) (by decide) (by decide) (by decide)
  have hfrac : ∀ c ∈ (fraction ++ exponent).head?, isAscii c = false := by
    simpa using h.head_fraction hend (p := isAscii) (by decide) (by decide) (by decide) (by decide)
  have hn := h.ne_nil
  rw [Reading.readUnsigned, splitDigits_append h.digits hfrac]
  obtain hf | ⟨places, hf, -, hd⟩ := h.fraction
  · subst hf
    obtain rfl | ⟨sign, power, rfl, -⟩ := h.exponent
    · simp [hn]
    · simp [hn]
  · subst hf
    have hplaces := splitDigits_append hd hexp
    simp [hplaces, hn]

/-- A text that is cut into the parts of a float and spells it. -/
structure SpellsFloat (text : List Char) (value : Bool → Binary64) : Prop where
  parts : ∃ whole fraction exponent, text = whole ++ (fraction ++ exponent) ∧
    Numeral whole fraction exponent ∧ (fraction ≠ [] ∨ exponent ≠ [])
  reads (negative : Bool) : Reading.readUnsigned negative text = some (value negative)

variable {code : Nat} {d : Decimal}

theorem spellsFloat_of_parts {places : List Char} (hpos : 0 < code) (hc : code < Binary64.codeBound)
    (hr : Shortest.reads code d = true) (h : d.Parts whole places) :
    SpellsFloat (whole ++ '.' :: places) (.finite · ⟨code, hc⟩) where
  parts := by
    refine ⟨whole, '.' :: places, [], by rw [List.append_nil], ?_, .inl (List.cons_ne_nil _ _)⟩
    exact ⟨h.whole_digits, h.whole_ne_nil, h.lead (Shortest.digits_ne_zero hpos hr),
      .inr ⟨places, rfl, h.fraction_ne_nil, h.fraction_digits⟩, .inl rfl⟩
  reads _ := readUnsigned_of_parts hpos hc hr h

theorem exponent_scientific (d : Decimal) :
    let power := Nat.toDigits 10 d.leading.natAbs
    let exponent := 'e' :: (if d.leading < 0 then '-' else '+') ::
      (List.replicate (2 - power.length) '0' ++ power)
    IsExponent exponent ∧ Reading.readExponent exponent = some d.leading := by
  intro power exponent
  have hs : (if d.leading < 0 then '-' else '+') = '+' ∨
      (if d.leading < 0 then '-' else '+') = '-' := by
    split
    · exact .inr rfl
    · exact .inl rfl
  have hn : List.replicate (2 - power.length) '0' ++ power ≠ [] :=
    List.append_ne_nil_of_right_ne_nil _ Nat.toDigits_ne_nil
  have hd : ∀ c ∈ List.replicate (2 - power.length) '0' ++ power, isAscii c = true := by
    intro c hc
    rcases List.mem_append.mp hc with hc | hc
    · exact isAscii_of_mem_zeros hc
    · exact isAscii_of_mem_toDigits hc
  have hsign : ((if d.leading < 0 then '-' else '+') == '-') = decide (d.leading < 0) := by
    by_cases h : d.leading < 0
    · simp [h]
    · simp [h]
  refine ⟨⟨_, _, rfl, hs, hn, hd⟩, ?_⟩
  rw [readExponent_signed hs hn hd, valueOf_zeros_append, valueOf_toDigits, hsign,
    Binary64.signed_natAbs]

/-- One digit stands before the point, and the exponent is that of this digit. -/
theorem scientific_parts (d : Decimal) : ∃ first fraction exponent,
    d.scientific = [first] ++ (fraction ++ exponent) ∧ Numeral [first] fraction exponent ∧
    exponent ≠ [] ∧ first :: fraction.tail = Nat.toDigits 10 d.digits ∧
    Reading.readExponent exponent = some d.leading := by
  obtain ⟨hexponent, hread⟩ := exponent_scientific d
  obtain ⟨first, others, hdigits⟩ :=
    List.exists_cons_of_ne_nil (Nat.toDigits_ne_nil (b := 10) (n := d.digits))
  have hascii : ∀ c ∈ first :: others, isAscii c = true :=
    fun c hc => isAscii_of_mem_toDigits (hdigits ▸ hc)
  obtain ⟨hfirst, hothers⟩ := List.forall_mem_cons.mp hascii
  have hnumeral : ∀ fraction, fraction = [] ∨ IsFraction fraction → Numeral [first] fraction _ :=
    fun fraction hf => ⟨List.forall_mem_singleton.mpr hfirst, List.cons_ne_nil _ _,
      by rintro ⟨⟩; rfl, hf, .inr hexponent⟩
  unfold Decimal.scientific
  rw [hdigits]
  cases others with
  | nil =>
    exact ⟨first, [], _, rfl, hnumeral _ (.inl rfl), List.cons_ne_nil _ _, rfl, hread⟩
  | cons second rest =>
    have hf : IsFraction ('.' :: second :: rest) := ⟨_, rfl, List.cons_ne_nil _ _, hothers⟩
    exact ⟨first, '.' :: second :: rest, _, rfl, hnumeral _ (.inr hf), List.cons_ne_nil _ _, rfl,
      hread⟩

theorem spellsFloat_scientific (hpos : 0 < code) (hc : code < Binary64.codeBound)
    (hr : Shortest.reads code d = true) : SpellsFloat d.scientific (.finite · ⟨code, hc⟩) := by
  obtain ⟨first, fraction, exponent, he, hn, hm, hdigits, hread⟩ := scientific_parts d
  refine ⟨⟨_, _, _, he, hn, .inr hm⟩, fun negative => ?_⟩
  have hlength : d.leading - fraction.tail.length = d.exponent := by
    rw [Decimal.leading, ← hdigits, List.length_cons]
    omega
  rw [he, hn.readUnsigned_eq, hread, Option.map_some, hlength, List.singleton_append, hdigits,
    valueOf_toDigits]
  exact congrArg some (ofDecimal_of_nearest hpos hc (Shortest.reads_iff_nearest.mp hr))

theorem spellsFloat_zero : SpellsFloat ['0', '.', '0'] (.finite · ⟨0, by decide⟩) := by
  have hd : ∀ c ∈ ['0'], isAscii c = true := List.forall_mem_singleton.mpr rfl
  have hf : IsFraction ['.', '0'] := ⟨['0'], rfl, List.cons_ne_nil _ _, hd⟩
  have hn : Numeral ['0'] ['.', '0'] [] :=
    ⟨hd, List.cons_ne_nil _ _, fun _ => rfl, .inr hf, .inl rfl⟩
  exact ⟨⟨_, _, _, rfl, hn, .inl (List.cons_ne_nil _ _)⟩,
    fun _ => readUnsigned_of_digits hd hd (List.cons_ne_nil _ _)⟩

theorem spellsFloat_fractional (hc : code < Binary64.codeBound) :
    SpellsFloat (Binary64.fractional code) (.finite · ⟨code, hc⟩) := by
  unfold Binary64.fractional
  split
  · rename_i hzero
    subst hzero
    exact spellsFloat_zero
  rename_i hne
  have hpos := Nat.pos_of_ne_zero hne
  have hr := Shortest.reads_decimal hpos
  dsimp only
  split
  · exact spellsFloat_scientific hpos hc hr
  split
  · rename_i hint
    exact spellsFloat_of_parts hpos hc hr (parts_of_integral hint)
  · rename_i hint
    obtain ⟨whole, places, he, hp, -⟩ := parts_of_fractional (Int.not_le.mp hint)
    rw [he]
    exact spellsFloat_of_parts hpos hc hr hp

end Json.Reader

end ScriptLang
