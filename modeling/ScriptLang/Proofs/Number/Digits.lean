import ScriptLang.Number.Reading

/-! # Plain numerals

The characters of a numeral are ASCII, none is a blank or an underscore, so reading looks at them
as they are. The digits of a natural number read back as that number.
-/

namespace ScriptLang

open DecimalDigit Blank

variable {c : Char} {text digits : List Char} {n : Nat}

theorem char_le_iff {a b : Char} : a ≤ b ↔ a.toNat ≤ b.toNat := Iff.rfl

theorem isAscii_iff : isAscii c = true ↔ 48 ≤ c.toNat ∧ c.toNat ≤ 57 := by
  simp only [isAscii, Bool.and_eq_true, decide_eq_true_eq, char_le_iff]
  exact Iff.rfl

def isNumeralChar (c : Char) : Bool :=
  isHexDigit c || c == '+' || c == '-' || c == '.' || c == 'x'

theorem toNat_lt_of_isNumeralChar (h : isNumeralChar c = true) : c.toNat < 128 := by
  simp only [isNumeralChar, isHexDigit, Bool.or_eq_true, Bool.and_eq_true, decide_eq_true_eq,
    beq_iff_eq, isAscii_iff, char_le_iff] at h
  obtain ((((((⟨-, h⟩ | ⟨-, h⟩) | ⟨-, h⟩) | rfl) | rfl) | rfl) | rfl) := h
  · omega
  · exact Nat.lt_of_le_of_lt h (by decide)
  · exact Nat.lt_of_le_of_lt h (by decide)
  all_goals decide

theorem isNumeralChar_of_isHexDigit (h : isHexDigit c = true) : isNumeralChar c = true := by
  simp [isNumeralChar, h]

theorem isHexDigit_of_isAscii (h : isAscii c = true) : isHexDigit c = true := by
  simp [isHexDigit, h]

theorem isNumeralChar_of_isAscii (h : isAscii c = true) : isNumeralChar c = true :=
  isNumeralChar_of_isHexDigit (isHexDigit_of_isAscii h)

theorem aroundNumber_of_isNumeralChar (h : isNumeralChar c = true) : aroundNumber c = false := by
  have hall : ∀ n < 128, isNumeralChar (Char.ofNat n) = true →
      aroundNumber (Char.ofNat n) = false := by decide
  have hc := hall c.toNat (toNat_lt_of_isNumeralChar h)
  rw [Char.ofNat_toNat] at hc
  exact hc h

theorem toAscii_of_isNumeralChar (h : isNumeralChar c = true) : toAscii c = c := by
  have hall : ∀ n < 128, isNumeralChar (Char.ofNat n) = true →
      toAscii (Char.ofNat n) = Char.ofNat n := by decide +kernel
  have hc := hall c.toNat (toNat_lt_of_isNumeralChar h)
  rw [Char.ofNat_toNat] at hc
  exact hc h

theorem ne_underscore_of_isNumeralChar (h : isNumeralChar c = true) : c ≠ '_' := by
  rintro rfl
  exact absurd h (by decide)

theorem dropWhile_eq_self {p : Char → Bool} (h : ∀ c ∈ text, p c = false) :
    text.dropWhile p = text := by
  cases text with
  | nil => rfl
  | cons c rest => rw [List.dropWhile_cons_of_neg (by simp [h c])]

theorem takeWhile_eq_self {p : Char → Bool} (h : ∀ c ∈ text, p c = true) :
    text.takeWhile p = text := by
  induction text with
  | nil => rfl
  | cons c rest ih =>
    rw [List.takeWhile_cons_of_pos (h c List.mem_cons_self),
      ih fun d hd => h d (List.mem_cons_of_mem c hd)]

theorem trim_eq_self (h : ∀ c ∈ text, isNumeralChar c = true) : trim aroundNumber text = text := by
  have hb : ∀ c ∈ text, aroundNumber c = false := fun c hc => aroundNumber_of_isNumeralChar (h c hc)
  rw [trim, dropWhile_eq_self hb, dropWhile_eq_self (by simpa using hb), List.reverse_reverse]

theorem map_toAscii_eq_self (h : ∀ c ∈ text, isNumeralChar c = true) : text.map toAscii = text := by
  rw [List.map_congr_left fun c hc => toAscii_of_isNumeralChar (h c hc), List.map_id']

theorem dropUnderscores_eq_self {isDigit : Char → Bool} {after : Bool}
    (h : ∀ c ∈ text, isNumeralChar c = true) :
    Reading.dropUnderscores isDigit after text = some text := by
  induction text generalizing after with
  | nil => rfl
  | cons c rest ih =>
    have hc := ne_underscore_of_isNumeralChar (h c List.mem_cons_self)
    rw [Reading.dropUnderscores]
    · simp [hc, ih fun d hd => h d (List.mem_cons_of_mem c hd)]
    · rintro d rest' rfl
      exact absurd rfl hc

theorem float?_eq_readSigned {text : String} (h : ∀ c ∈ text.toList, isNumeralChar c = true) :
    Reading.float? text = Reading.readSigned text.toList := by
  rw [Reading.float?, trim_eq_self h, map_toAscii_eq_self h, dropUnderscores_eq_self h,
    Option.bind_some]

theorem isAscii_of_mem_toDigits (h : c ∈ Nat.toDigits 10 n) : isAscii c = true := by
  have hd := Nat.isDigit_of_mem_toDigits (by decide) (by decide) h
  simp only [Char.isDigit, Bool.and_eq_true, decide_eq_true_eq] at hd
  exact isAscii_iff.mpr hd

theorem valueOf_append_singleton (base : Nat) : valueOf base (digits ++ [c]) =
    valueOf base digits * base + valueIn c := by
  simp [valueOf]

theorem valueIn_digitChar (h : n < 10) : valueIn n.digitChar = n := by
  have hall : ∀ n < 10, valueIn n.digitChar = n := by decide
  exact hall n h

theorem valueOf_toDigits (n : Nat) : valueOf 10 (Nat.toDigits 10 n) = n := by
  induction n using Nat.strongRecOn with
  | ind n ih =>
    rw [Nat.toDigits_eq_if (by decide)]
    split
    · rename_i h
      simpa [valueOf] using valueIn_digitChar h
    · rename_i h
      rw [valueOf_append_singleton, ih _ (by omega), valueIn_digitChar (Nat.mod_lt _ (by decide))]
      omega

theorem head?_toDigits_ne {n : Nat} (hn : n ≠ 0) : (Nat.toDigits 10 n).head? ≠ some '0' := by
  induction n using Nat.strongRecOn with
  | ind n ih =>
    rw [Nat.toDigits_eq_if (by decide)]
    split
    · rename_i hlt
      have hall : ∀ n < 10, n ≠ 0 → [n.digitChar].head? ≠ some '0' := by decide
      exact hall n hlt hn
    · rename_i hge
      have hrest := ih (n / 10) (by omega) (by omega)
      obtain ⟨c, rest, he⟩ := List.exists_cons_of_ne_nil (Nat.toDigits_ne_nil (b := 10) (n := n / 10))
      rw [he] at hrest ⊢
      exact hrest

theorem plain_of_digits (h : ∀ c ∈ digits, isAscii c = true) :
    ∀ c ∈ digits, isNumeralChar c = true := fun c hc => isNumeralChar_of_isAscii (h c hc)

theorem ne_sign_of_isHexDigit (h : isHexDigit c = true) : c ≠ '+' ∧ c ≠ '-' := by
  constructor
  · rintro rfl
    exact absurd h (by decide)
  · rintro rfl
    exact absurd h (by decide)

theorem ne_sign_of_isAscii (h : isAscii c = true) : c ≠ '+' ∧ c ≠ '-' :=
  ne_sign_of_isHexDigit (isHexDigit_of_isAscii h)

theorem splitSign_of_hexDigit {rest : List Char} (h : isHexDigit c = true) :
    Reading.splitSign (c :: rest) = (false, c :: rest) := by
  obtain ⟨hp, hm⟩ := ne_sign_of_isHexDigit h
  rw [Reading.splitSign]
  · exact fun _ he => hm (List.cons.inj he).1
  · exact fun _ he => hp (List.cons.inj he).1

theorem splitSign_of_digit {rest : List Char} (h : isAscii c = true) :
    Reading.splitSign (c :: rest) = (false, c :: rest) :=
  splitSign_of_hexDigit (isHexDigit_of_isAscii h)

theorem isHexDigit_of_isDigitIn {base : Nat} (h : Reading.isDigitIn base c = true) :
    isHexDigit c = true := (Bool.and_eq_true_iff.mp h).1

theorem isMark_of_isDigitIn {base : Nat} (h : Reading.isDigitIn base c = true) :
    Reading.isMark base c = false := by
  rw [Bool.eq_false_iff]
  intro hm
  simp only [Reading.isMark, Bool.or_eq_true, Bool.and_eq_true, beq_iff_eq] at hm
  obtain ⟨rfl, rfl | rfl⟩ | ⟨rfl, rfl | rfl⟩ := hm
  all_goals exact absurd h (by decide)

theorem dropMark_of_digits {base : Nat} (h : ∀ c ∈ digits, Reading.isDigitIn base c = true) :
    Reading.dropMark base digits = digits := by
  unfold Reading.dropMark
  split
  next c _ => rw [isMark_of_isDigitIn (h c (by simp)), if_neg Bool.false_ne_true]
  next c _ _ => rw [isMark_of_isDigitIn (h c (by simp)), if_neg Bool.false_ne_true]
  next => rfl

theorem isDigitIn_ten (h : isAscii c = true) : Reading.isDigitIn 10 c = true := by
  have hc := isAscii_iff.mp h
  simp only [Reading.isDigitIn, isHexDigit_of_isAscii h, valueIn, h, Bool.true_and, if_true,
    decide_eq_true_eq]
  show c.toNat - 48 < 10
  omega

/-- Digits of a base are read as the number that they spell, if decimal ones are not too many. -/
theorem integer_of_digitsIn {base : Nat} (hd : ∀ c ∈ digits, Reading.isDigitIn base c = true)
    (hn : digits ≠ []) : Reading.integer base digits =
      if base = 10 ∧ Integer.digitLimit < digits.length then .error (.tooLong digits.length)
      else .ok (valueOf base digits) := by
  have hplain : ∀ c ∈ digits, isNumeralChar c = true := fun c hc =>
    isNumeralChar_of_isHexDigit (isHexDigit_of_isDigitIn (hd c hc))
  have hblank : digits.dropWhile aroundNumber = digits :=
    dropWhile_eq_self fun c hc => aroundNumber_of_isNumeralChar (hplain c hc)
  have hsign : Reading.splitSign digits = (false, digits) := by
    obtain ⟨c, rest, rfl⟩ := List.exists_cons_of_ne_nil hn
    exact splitSign_of_hexDigit (isHexDigit_of_isDigitIn (hd c List.mem_cons_self))
  have hrun : digits.takeWhile (fun c => Reading.isDigitIn base c || c == '_') = digits :=
    takeWhile_eq_self fun c hc => by simp [hd c hc]
  simp only [Reading.integer, hblank, map_toAscii_eq_self hplain, hsign, dropMark_of_digits hd, hrun,
    dropUnderscores_eq_self hplain]
  simp [hn, Binary64.signed]

theorem integer_of_digits (hd : ∀ c ∈ digits, isAscii c = true) (hn : digits ≠ [])
    (hl : digits.length ≤ Integer.digitLimit) :
    Reading.integer 10 digits = .ok (valueOf 10 digits) := by
  rw [integer_of_digitsIn (fun c hc => isDigitIn_ten (hd c hc)) hn,
    if_neg fun h => Nat.not_lt.mpr hl h.2]

theorem Binary64.signed_natAbs (n : Int) : signed (decide (n < 0)) n.natAbs = n := by
  by_cases hn : n < 0
  · rw [decide_eq_true hn, signed, if_pos rfl]
    omega
  · rw [decide_eq_false hn, signed, if_neg Bool.false_ne_true]
    omega

end ScriptLang
