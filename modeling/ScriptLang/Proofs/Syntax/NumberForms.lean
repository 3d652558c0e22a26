import Mathlib.Data.List.Induction
import Mathlib.Data.Nat.Digits.Defs
import ScriptLang.Proofs.Syntax.Cutting

/-! # The forms of numbers

A number token is the longest number at the front of a text, although its forms are tried in a fixed
order: none that fits is shorter than one that comes after it. What the token stands for depends on
its form alone, so the digits of a hexadecimal number are never taken for an exponent.
-/

namespace ScriptLang

open DecimalDigit Lexeme

/-- One or more digits. -/
structure Run (digit : Char → Bool) where
  chars : List Char
  ne_nil : chars ≠ []
  digits : ∀ c ∈ chars, digit c = true

def isBinaryDigit (c : Char) : Bool := c == '0' || c == '1'

inductive Sign where
  | none | plus | minus

namespace Sign

def text : Sign → List Char
  | none => []
  | plus => ['+']
  | minus => ['-']

def isNegative : Sign → Bool
  | minus => true
  | _ => false

end Sign

def pointed : Option (Run isAscii) → List Char
  | none => []
  | some places => '.' :: places.chars

def exponentMark (capital : Bool) : Char := if capital then 'E' else 'e'

/-- The forms of a number, without its sign. -/
inductive NumberForm where
  | scientific (whole : Run isAscii) (places : Option (Run isAscii)) (capital : Bool)
      (power : Run isAscii)
  | fractional (whole places : Run isAscii)
  | binary (digits : Run isBinaryDigit)
  | hexadecimal (digits : Run isHexDigit)
  | decimal (digits : Run isAscii)

namespace NumberForm

def text : NumberForm → List Char
  | scientific whole places capital power =>
    whole.chars ++ (pointed places ++ exponentMark capital :: power.chars)
  | fractional whole places => whole.chars ++ '.' :: places.chars
  | binary digits => '0' :: 'b' :: digits.chars
  | hexadecimal digits => '0' :: 'x' :: digits.chars
  | decimal digits => digits.chars

/-- The base and the digits of a number that is an integer. -/
def integer? : NumberForm → Option (Nat × List Char)
  | binary digits => some (2, digits.chars)
  | hexadecimal digits => some (16, digits.chars)
  | decimal digits => some (10, digits.chars)
  | scientific .. | fractional .. => none

def signedText (form : NumberForm) (sign : Sign) : List Char := sign.text ++ form.text

end NumberForm

structure LongestNumber (text : List Char) (n : Nat) : Prop where
  le : n ≤ text.length
  number : ∃ (form : NumberForm) (sign : Sign), text.take n = form.signedText sign
  longest : ∀ (form : NumberForm) (sign : Sign), form.signedText sign <+: text →
    (form.signedText sign).length ≤ n

variable {digit mark : Char → Bool} {c : Char} {text rest : List Char} {n : Nat}

namespace Run

theorem first (run : Run digit) : ∃ c tail, run.chars = c :: tail ∧ digit c = true := by
  obtain ⟨c, tail, h⟩ := List.exists_cons_of_ne_nil run.ne_nil
  exact ⟨c, tail, h, run.digits c (h ▸ List.mem_cons_self)⟩

theorem takeWhile_append (run : Run digit) (h : ∀ c ∈ rest.head?, digit c = false) :
    (run.chars ++ rest).takeWhile digit = run.chars := by
  rw [List.takeWhile_append_of_pos run.digits]
  cases rest with
  | nil => simp
  | cons c rest => simp [h c rfl]

theorem length_le_takeWhile (run : Run digit) (rest : List Char) :
    run.chars.length ≤ ((run.chars ++ rest).takeWhile digit).length := by
  rw [List.takeWhile_append_of_pos run.digits, List.length_append]
  exact Nat.le_add_right _ _

theorem lt_markedRun (run : Run digit) (mark : Char → Bool) (hm : mark c = true) (rest : List Char) :
    run.chars.length < markedRun mark digit (c :: (run.chars ++ rest)) := by
  have hle := run.length_le_takeWhile rest
  have hpos := List.length_pos_iff.mpr run.ne_nil
  have hne : ((run.chars ++ rest).takeWhile digit).isEmpty = false := by
    rw [List.isEmpty_eq_false_iff, ← List.length_pos_iff]
    omega
  simp only [markedRun, hm, hne, Bool.not_false, Bool.and_self, if_true]
  omega

theorem markedRun_append (run : Run digit) (hm : mark c = true)
    (h : ∀ c ∈ rest.head?, digit c = false) :
    markedRun mark digit (c :: (run.chars ++ rest)) = run.chars.length + 1 := by
  have hne : run.chars.isEmpty = false := List.isEmpty_eq_false_iff.mpr run.ne_nil
  simp [markedRun, hm, run.takeWhile_append h, hne]

end Run

theorem markedRun_of_not (h : mark c = false) : markedRun mark digit (c :: rest) = 0 := by
  simp [markedRun, h]

theorem exists_run_of_markedRun (h : markedRun mark digit text ≠ 0) : ∃ c, mark c = true ∧
    ∃ run : Run digit, text.take (markedRun mark digit text) = c :: run.chars := by
  cases text with
  | nil => exact absurd rfl h
  | cons c rest =>
    simp only [markedRun] at h ⊢
    split at h
    next hm =>
      obtain ⟨hm, hne⟩ := Bool.and_eq_true_iff.mp hm
      have hrun : rest.takeWhile digit ≠ [] := by simpa using hne
      refine ⟨c, hm, ⟨rest.takeWhile digit, hrun, fun d hd => of_mem_takeWhile hd⟩, ?_⟩
      rw [if_pos (Bool.and_eq_true_iff.mpr ⟨hm, hne⟩), List.take_succ_cons, take_length_takeWhile]
    next => exact absurd rfl h

theorem unsignedLength_append (whole : Run isAscii) (h : ∀ c ∈ rest.head?, isAscii c = false) :
    unsignedLength (whole.chars ++ rest) = some (lengthOfParts (whole.chars == ['0'])
      whole.chars.length (markedRun (· == '.') isAscii rest)
      (markedRun (fun c => c == 'e' || c == 'E') isAscii
        (rest.drop (markedRun (· == '.') isAscii rest)))
      (markedRun (· == 'b') isBinaryDigit rest) (markedRun (· == 'x') isHexDigit rest)) := by
  have hne : whole.chars.isEmpty = false := List.isEmpty_eq_false_iff.mpr whole.ne_nil
  rw [unsignedLength_eq, whole.takeWhile_append h]
  simp only [hne, List.drop_left, ← List.drop_drop]
  rfl

theorem markedRun_pointed (places : Option (Run isAscii))
    (h : ∀ c ∈ rest.head?, isAscii c = false ∧ c ≠ '.') :
    markedRun (· == '.') isAscii (pointed places ++ rest) = (pointed places).length := by
  cases places with
  | none =>
    cases rest with
    | nil => rfl
    | cons c rest => exact markedRun_of_not (by simpa using (h c rfl).2)
  | some places => exact places.markedRun_append rfl fun c hc => (h c hc).1

section Parts

variable {zero : Bool} {whole fraction exponent binary hexadecimal : Nat}

theorem lengthOfParts_exponent (h : exponent ≠ 0) :
    lengthOfParts zero whole fraction exponent binary hexadecimal = whole + fraction + exponent := by
  simp [lengthOfParts, h]

theorem le_lengthOfParts_fraction (h : fraction ≠ 0) :
    whole + fraction ≤ lengthOfParts zero whole fraction exponent binary hexadecimal := by
  unfold lengthOfParts
  split
  · omega
  · simp [h]

end Parts

def zeroRun : Run isAscii := ⟨['0'], List.cons_ne_nil _ _, by simp [isAscii]⟩

theorem isExponentMark (capital : Bool) :
    (exponentMark capital == 'e' || exponentMark capital == 'E') = true := by
  cases capital <;> rfl

theorem exists_unsignedLength (form : NumberForm) (rest : List Char) :
    ∃ n, unsignedLength (form.text ++ rest) = some n ∧ form.text.length ≤ n := by
  cases form with
  | scientific whole places capital power =>
    have hrun := power.lt_markedRun (fun c => c == 'e' || c == 'E') (isExponentMark capital) rest
    have hstop : ∀ c ∈ (exponentMark capital :: (power.chars ++ rest)).head?,
        isAscii c = false ∧ c ≠ '.' := by
      rintro _ ⟨⟩
      cases capital <;> decide
    have hplaces := markedRun_pointed places hstop
    have hfirst : ∀ c ∈ (pointed places ++ exponentMark capital :: (power.chars ++ rest)).head?,
        isAscii c = false := by
      cases places with
      | none => exact fun c hc => (hstop c hc).1
      | some places =>
        rintro _ ⟨⟩
        decide
    rw [NumberForm.text, List.append_assoc, List.append_assoc, List.cons_append,
      unsignedLength_append whole hfirst, hplaces, List.drop_left, lengthOfParts_exponent]
    · refine ⟨_, rfl, ?_⟩
      simp only [List.length_append, List.length_cons]
      omega
    · omega
  | fractional whole places =>
    have hrun := places.lt_markedRun (· == '.') (beq_self_eq_true '.') rest
    have hstop : ∀ c ∈ ('.' :: (places.chars ++ rest)).head?, isAscii c = false := by simp [isAscii]
    rw [NumberForm.text, List.append_assoc, List.cons_append, unsignedLength_append whole hstop]
    refine ⟨_, rfl, le_trans ?_ (le_lengthOfParts_fraction (by omega))⟩
    simp only [List.length_append, List.length_cons]
    omega
  | binary digits =>
    have hrun := digits.lt_markedRun (· == 'b') (beq_self_eq_true 'b') rest
    have hstop : ∀ c ∈ ('b' :: (digits.chars ++ rest)).head?, isAscii c = false := by simp [isAscii]
    have hlength := unsignedLength_append zeroRun hstop
    rw [markedRun_of_not (by decide), List.drop_zero, markedRun_of_not (by decide)] at hlength
    refine ⟨_, hlength, ?_⟩
    simp only [zeroRun, lengthOfParts, NumberForm.text, List.length_cons]
    grind
  | hexadecimal digits =>
    have hrun := digits.lt_markedRun (· == 'x') (beq_self_eq_true 'x') rest
    have hstop : ∀ c ∈ ('x' :: (digits.chars ++ rest)).head?, isAscii c = false := by simp [isAscii]
    have hlength := unsignedLength_append zeroRun hstop
    rw [markedRun_of_not (by decide), List.drop_zero, markedRun_of_not (by decide),
      markedRun_of_not (by decide)] at hlength
    refine ⟨_, hlength, ?_⟩
    simp only [zeroRun, lengthOfParts, NumberForm.text, List.length_cons]
    grind
  | decimal digits =>
    have hrun := digits.length_le_takeWhile rest
    have hne : ((digits.chars ++ rest).takeWhile isAscii).isEmpty = false := by
      rw [List.isEmpty_eq_false_iff, ← List.length_pos_iff]
      exact (List.length_pos_iff.mpr digits.ne_nil).trans_le hrun
    rw [NumberForm.text, unsignedLength_eq]
    refine ⟨_, if_neg (by simp [hne]), hrun.trans (le_lengthOfParts fun hzero => ?_)⟩
    rw [beq_iff_eq.mp hzero, List.length_singleton]

theorem exists_pointed (text : List Char) :
    ∃ places, text.take (markedRun (· == '.') isAscii text) = pointed places := by
  by_cases h : markedRun (· == '.') isAscii text = 0
  · exact ⟨none, by rw [h]; rfl⟩
  · obtain ⟨c, hc, run, hrun⟩ := exists_run_of_markedRun h
    obtain rfl : c = '.' := by simpa using hc
    exact ⟨some run, hrun⟩

theorem exists_form (h : unsignedLength text = some n) :
    ∃ form : NumberForm, text.take n = form.text := by
  have htake (k : Nat) : text.take ((text.takeWhile isAscii).length + k) =
      text.takeWhile isAscii ++ (text.drop (text.takeWhile isAscii).length).take k := by
    rw [List.take_add, take_length_takeWhile]
  -- A zero that has the mark of a base after it has length one.
  have hzero {b : Bool} (hz : (text.takeWhile isAscii == ['0'] && b) = true) :
      text.takeWhile isAscii = ['0'] := beq_iff_eq.mp (Bool.and_eq_true_iff.mp hz).1
  unfold unsignedLength at h
  dsimp only at h
  split_ifs at h with hempty hexponent hfraction hbinary hhex
  all_goals
    obtain rfl := Option.some.inj h
    have hne : text.takeWhile isAscii ≠ [] := by simpa using hempty
    let whole : Run isAscii := ⟨text.takeWhile isAscii, hne, fun c hc => of_mem_takeWhile hc⟩
  · obtain ⟨places, hplaces⟩ := exists_pointed (text.drop (text.takeWhile isAscii).length)
    obtain ⟨c, hc, power, hpower⟩ := exists_run_of_markedRun (bne_iff_ne.mp hexponent)
    refine ⟨.scientific whole places (c == 'E') power, ?_⟩
    have hmark : exponentMark (c == 'E') = c := by
      obtain rfl | rfl : c = 'e' ∨ c = 'E' := by simpa using hc
      · rfl
      · rfl
    rw [Nat.add_assoc, htake, List.take_add, hplaces, hpower, NumberForm.text, hmark]
  · obtain ⟨c, hc, places, hplaces⟩ := exists_run_of_markedRun (bne_iff_ne.mp hfraction)
    obtain rfl : c = '.' := by simpa using hc
    exact ⟨.fractional whole places, by rw [htake, hplaces]; rfl⟩
  · obtain ⟨c, hc, digits, hdigits⟩ :=
      exists_run_of_markedRun (bne_iff_ne.mp (Bool.and_eq_true_iff.mp hbinary).2)
    obtain rfl : c = 'b' := by simpa using hc
    rw [hzero hbinary] at htake hdigits ⊢
    exact ⟨.binary digits, by rw [← List.length_singleton, htake, hdigits]; rfl⟩
  · obtain ⟨c, hc, digits, hdigits⟩ :=
      exists_run_of_markedRun (bne_iff_ne.mp (Bool.and_eq_true_iff.mp hhex).2)
    obtain rfl : c = 'x' := by simpa using hc
    rw [hzero hhex] at htake hdigits ⊢
    exact ⟨.hexadecimal digits, by rw [← List.length_singleton, htake, hdigits]; rfl⟩
  · exact ⟨.decimal whole, take_length_takeWhile isAscii text⟩

theorem NumberForm.unsignedLength_text (form : NumberForm) :
    unsignedLength form.text = some form.text.length := by
  obtain ⟨n, hn, hle⟩ := exists_unsignedLength form []
  rw [List.append_nil] at hn
  rw [hn, Nat.le_antisymm (unsignedLength_bounds hn).2 hle]

theorem NumberForm.plain (form : NumberForm) : ∀ c ∈ form.text, isNumeralChar c = true := by
  have hplain := plain_of_unsignedLength form.unsignedLength_text
  rwa [List.take_length] at hplain

theorem NumberForm.plain_signedText (form : NumberForm) (sign : Sign) :
    ∀ c ∈ form.signedText sign, isNumeralChar c = true := by
  refine List.forall_mem_append.mpr ⟨?_, form.plain⟩
  cases sign <;> simp [Sign.text, isNumeralChar]

theorem NumberForm.first (form : NumberForm) :
    ∃ c tail, form.text = c :: tail ∧ isAscii c = true :=
  digit_of_unsignedLength form.unsignedLength_text

theorem numberLength_of_digit (h : isAscii c = true) :
    numberLength (c :: rest) = unsignedLength (c :: rest) := by
  obtain ⟨hp, hm⟩ := ne_sign_of_isAscii h
  simp [numberLength, hp, hm]

theorem exists_numberLength (form : NumberForm) (sign : Sign) (rest : List Char) :
    ∃ n, numberLength (form.signedText sign ++ rest) = some n ∧
      (form.signedText sign).length ≤ n := by
  obtain ⟨n, hn, hle⟩ := exists_unsignedLength form rest
  cases sign with
  | none =>
    obtain ⟨c, tail, htext, hc⟩ := form.first
    have hsigned : form.signedText .none = form.text := rfl
    rw [hsigned]
    rw [htext, List.cons_append] at hn ⊢
    rw [numberLength_of_digit hc]
    exact ⟨n, hn, htext ▸ hle⟩
  | plus => exact ⟨n + 1, Option.map_eq_some_iff.mpr ⟨n, hn, rfl⟩, Nat.succ_le_succ hle⟩
  | minus => exact ⟨n + 1, Option.map_eq_some_iff.mpr ⟨n, hn, rfl⟩, Nat.succ_le_succ hle⟩

theorem exists_signedText (h : numberLength text = some n) :
    ∃ (form : NumberForm) (sign : Sign), text.take n = form.signedText sign := by
  cases text with
  | nil => cases h
  | cons c rest =>
    simp only [numberLength] at h
    split at h
    next hc =>
      obtain ⟨k, hk, rfl⟩ := Option.map_eq_some_iff.mp h
      obtain ⟨form, hform⟩ := exists_form hk
      rw [Bool.or_eq_true, beq_iff_eq, beq_iff_eq] at hc
      rw [List.take_succ_cons, hform]
      obtain rfl | rfl := hc
      · exact ⟨form, .plus, rfl⟩
      · exact ⟨form, .minus, rfl⟩
    next =>
      obtain ⟨form, hform⟩ := exists_form h
      exact ⟨form, .none, hform⟩

/-- The order in which the forms are tried does not matter. -/
theorem numberLength_eq_some_iff : numberLength text = some n ↔ LongestNumber text n := by
  have hlongest {m : Nat} (h : numberLength text = some m) : LongestNumber text m := by
    refine ⟨(numberLength_bounds h).2, exists_signedText h, ?_⟩
    rintro form sign ⟨rest, rfl⟩
    obtain ⟨k, hk, hle⟩ := exists_numberLength form sign rest
    obtain rfl := Option.some.inj (hk.symm.trans h)
    exact hle
  refine ⟨hlongest, fun h => ?_⟩
  obtain ⟨form, sign, htake⟩ := h.number
  obtain ⟨m, hm, hle⟩ := exists_numberLength form sign (text.drop n)
  rw [← htake, List.take_append_drop] at hm
  rw [← htake, List.length_take_of_le h.le] at hle
  obtain ⟨form', sign', htake'⟩ := exists_signedText hm
  have hge := h.longest form' sign' (htake' ▸ List.take_prefix m text)
  rw [← htake', List.length_take_of_le (numberLength_bounds hm).2] at hge
  rw [hm, Nat.le_antisymm hge hle]

/-- A number ends in front of what no number has in it. -/
theorem longestNumber_append (form : NumberForm) (sign : Sign)
    (h : ∀ c ∈ rest.head?, isNumeralChar c = false) :
    LongestNumber (form.signedText sign ++ rest) (form.signedText sign).length := by
  refine ⟨by simp, ⟨form, sign, List.take_left⟩, fun other sign' hp => ?_⟩
  refine (prefix_of_prefix_append hp fun c hc hm => ?_).length_le
  exact Bool.noConfusion ((h c hc).symm.trans (other.plain_signedText sign' c hm))

theorem first_eq_number_iff {accepts : Terminal → Bool} :
    first accepts text = some (.token .number, n) ↔
      accepts .number = true ∧ LongestNumber text n := by
  rw [← numberLength_eq_some_iff]
  exact first_eq_iff_length? rfl

/-- The sum of digits times powers of a base, the last digit being that of power zero. -/
def positionalValue (base : Nat) (digits : List Char) : Nat :=
  Nat.ofDigits base (digits.reverse.map valueIn)

theorem valueOf_eq_positionalValue (base : Nat) (digits : List Char) :
    valueOf base digits = positionalValue base digits := by
  induction digits using List.reverseRecOn with
  | nil => rfl
  | append_singleton digits c ih =>
    rw [valueOf_append_singleton, ih, positionalValue, positionalValue, List.reverse_concat,
      List.map_cons, Nat.ofDigits_cons, Nat.mul_comm, Nat.add_comm]

namespace Sign

def apply (sign : Sign) (magnitude : Nat) : Int := if sign.isNegative then -magnitude else magnitude

theorem splitSign_append (sign : Sign) (hc : isAscii c = true) :
    Reading.splitSign (sign.text ++ c :: rest) = (sign.isNegative, c :: rest) := by
  cases sign with
  | none => exact splitSign_of_digit hc
  | plus => rfl
  | minus => rfl

end Sign

theorem splitDigits_run (digits : Run isAscii) (h : ∀ c ∈ rest.head?, isAscii c = false) :
    Reading.splitDigits (digits.chars ++ rest) = (digits.chars, rest) :=
  splitDigits_append digits.digits h

theorem readExponent_mark (capital : Bool) (power : Run isAscii) :
    Reading.readExponent (exponentMark capital :: power.chars) =
      some (valueOf 10 power.chars : Int) := by
  obtain ⟨c, tail, hpower, hc⟩ := power.first
  have hsign : Reading.splitSign power.chars = (false, power.chars) := by
    rw [hpower]
    exact splitSign_of_digit hc
  have hall : power.chars.all isAscii = true := List.all_eq_true.mpr power.digits
  have hne : power.chars.isEmpty = false := List.isEmpty_eq_false_iff.mpr power.ne_nil
  simp only [Reading.readExponent, hsign, isExponentMark, hne, hall, Bool.not_false, Bool.and_self,
    if_true]
  rfl

theorem readUnsigned_scientific (whole : Run isAscii) (places : Option (Run isAscii))
    (capital : Bool) (power : Run isAscii) (negative : Bool) :
    Reading.readUnsigned negative (whole.chars ++ (pointed places ++ exponentMark capital ::
      power.chars)) = some (Reading.ofDecimal negative (valueOf 10 (whole.chars ++
        (pointed places).tail)) (valueOf 10 power.chars - (pointed places).tail.length)) := by
  have hstop : ∀ c ∈ (exponentMark capital :: power.chars).head?, isAscii c = false := by
    rintro _ ⟨⟩
    cases capital <;> rfl
  have hne : whole.chars.isEmpty = false := List.isEmpty_eq_false_iff.mpr whole.ne_nil
  have hexponent := readExponent_mark capital power
  cases places with
  | none =>
    have hsplit := splitDigits_run whole hstop
    have hpoint : exponentMark capital ≠ '.' := by cases capital <;> decide
    simp [Reading.readUnsigned, pointed, hsplit, hne, hexponent, hpoint]
  | some places =>
    have hfirst : ∀ c ∈ ('.' :: (places.chars ++ exponentMark capital :: power.chars)).head?,
        isAscii c = false := by simp [isAscii]
    have hsplit := splitDigits_run whole hfirst
    have hplaces := splitDigits_run places hstop
    simp [Reading.readUnsigned, pointed, hsplit, hplaces, hne, hexponent]

namespace NumberForm

variable (form : NumberForm) (sign : Sign)

theorem exists_float? (h : form.integer? = none) :
    ∃ x, Reading.float? (String.ofList (form.signedText sign)) = some x := by
  obtain ⟨x, hx⟩ : ∃ x, Reading.readUnsigned sign.isNegative form.text = some x := by
    cases form with
    | scientific whole places capital power =>
      exact ⟨_, readUnsigned_scientific whole places capital power sign.isNegative⟩
    | fractional whole places =>
      exact ⟨_, readUnsigned_of_digits whole.digits places.digits whole.ne_nil⟩
    | _ => cases h
  have hplain := form.plain_signedText sign
  obtain ⟨c, tail, htext, hc⟩ := form.first
  refine ⟨x, ?_⟩
  rw [float?_eq_readSigned (by simpa using hplain), String.toList_ofList, signedText, htext,
    readSigned_of_digit (sign.splitSign_append hc) hc, ← htext, hx]

end NumberForm

theorem number_binary (sign : Sign) (digits : List Char) :
    Literal.number (String.ofList (sign.text ++ '0' :: 'b' :: digits)) =
      Literal.integer (String.ofList (sign.text ++ '0' :: 'b' :: digits)) sign.isNegative 2 digits := by
  cases sign with
  | _ => simp [Literal.number, Sign.text, Sign.isNegative]

theorem number_hexadecimal (sign : Sign) (digits : List Char) :
    Literal.number (String.ofList (sign.text ++ '0' :: 'x' :: digits)) =
      Literal.integer (String.ofList (sign.text ++ '0' :: 'x' :: digits)) sign.isNegative 16
        digits := by
  cases sign with
  | _ => simp [Literal.number, Sign.text, Sign.isNegative]

theorem number_unmarked (sign : Sign) (hc : isAscii c = true) {tail : List Char}
    (hm : ∀ d ∈ tail, d ≠ 'b' ∧ d ≠ 'x') :
    Literal.number (String.ofList (sign.text ++ c :: tail)) =
      if (c :: tail).any fun c => c == '.' || c == 'e' || c == 'E' then
        match Reading.float? (String.ofList (sign.text ++ c :: tail)) with
        | some x => .ok (.literal (.float x) (.str "Float"))
        | none => .error (.notAFloat (String.ofList (sign.text ++ c :: tail)))
      else Literal.integer (String.ofList (sign.text ++ c :: tail)) sign.isNegative 10 (c :: tail) := by
  obtain ⟨hplus, hminus⟩ := ne_sign_of_isAscii hc
  have hdrop : (sign.text ++ c :: tail).dropWhile (fun c => c == '+' || c == '-') = c :: tail := by
    cases sign <;> simp [Sign.text, hplus, hminus]
  have hhead : ((sign.text ++ c :: tail).head? == some '-') = sign.isNegative := by
    cases sign <;> simp [Sign.text, Sign.isNegative, hminus]
  rw [Literal.number, String.toList_ofList, hdrop, hhead]
  split
  next he =>
    obtain ⟨-, rfl⟩ := List.cons.inj he
    exact absurd rfl (hm 'b' List.mem_cons_self).1
  next he =>
    obtain ⟨-, rfl⟩ := List.cons.inj he
    exact absurd rfl (hm 'x' List.mem_cons_self).2
  next => rfl

theorem isDigitIn_sixteen (h : isHexDigit c = true) : Reading.isDigitIn 16 c = true := by
  have hall : ∀ n < 128, isHexDigit (Char.ofNat n) = true → valueIn (Char.ofNat n) < 16 := by decide
  have hc := hall c.toNat (toNat_lt_of_isNumeralChar (isNumeralChar_of_isHexDigit h))
  rw [Char.ofNat_toNat] at hc
  rw [Reading.isDigitIn, h, Bool.true_and, decide_eq_true_eq]
  exact hc h

theorem isDigitIn_two (h : isBinaryDigit c = true) : Reading.isDigitIn 2 c = true := by
  rw [isBinaryDigit, Bool.or_eq_true, beq_iff_eq, beq_iff_eq] at h
  obtain rfl | rfl := h
  · rfl
  · rfl

def Unmarked (c : Char) : Prop := c ≠ 'b' ∧ c ≠ 'x'

theorem unmarked_of_isAscii (h : isAscii c = true) : Unmarked c := by
  constructor
  · rintro rfl
    cases h
  · rintro rfl
    cases h

namespace NumberForm

variable (form : NumberForm) (sign : Sign) {base : Nat} {digits : List Char}

theorem unmarked (h : ∀ base digits, form.integer? = some (base, digits) → base = 10) :
    ∀ c ∈ form.text, Unmarked c := by
  have hrun (run : Run isAscii) : ∀ c ∈ run.chars, Unmarked c := fun c hc =>
    unmarked_of_isAscii (run.digits c hc)
  have hpoint (places : Run isAscii) : ∀ c ∈ '.' :: places.chars, Unmarked c :=
    List.forall_mem_cons.mpr ⟨by simp [Unmarked], hrun places⟩
  cases form with
  | scientific whole places capital power =>
    have hmark : Unmarked (exponentMark capital) := by
      cases capital <;> simp [Unmarked, exponentMark]
    refine List.forall_mem_append.mpr ⟨hrun whole, List.forall_mem_append.mpr ⟨?_, ?_⟩⟩
    · cases places with
      | none => exact nofun
      | some places => exact hpoint places
    · exact List.forall_mem_cons.mpr ⟨hmark, hrun power⟩
  | fractional whole places => exact List.forall_mem_append.mpr ⟨hrun whole, hpoint places⟩
  | binary digits => exact absurd (h 2 _ rfl) (by decide)
  | hexadecimal digits => exact absurd (h 16 _ rfl) (by decide)
  | decimal digits => exact hrun digits

theorem number_of_unmarked (h : ∀ base digits, form.integer? = some (base, digits) → base = 10) :
    Literal.number (String.ofList (form.signedText sign)) =
      if form.text.any fun c => c == '.' || c == 'e' || c == 'E' then
        match Reading.float? (String.ofList (form.signedText sign)) with
        | some x => .ok (.literal (.float x) (.str "Float"))
        | none => .error (.notAFloat (String.ofList (form.signedText sign)))
      else
        Literal.integer (String.ofList (form.signedText sign)) sign.isNegative 10 form.text := by
  have hm := form.unmarked h
  obtain ⟨c, tail, htext, hc⟩ := form.first
  rw [htext, List.forall_mem_cons] at hm
  rw [signedText, htext]
  exact number_unmarked sign hc hm.2

theorem digits_of_integer (h : form.integer? = some (base, digits)) :
    digits ≠ [] ∧ ∀ c ∈ digits, Reading.isDigitIn base c = true := by
  cases form with
  | binary run =>
    cases h
    exact ⟨run.ne_nil, fun c hc => isDigitIn_two (run.digits c hc)⟩
  | hexadecimal run =>
    cases h
    exact ⟨run.ne_nil, fun c hc => isDigitIn_sixteen (run.digits c hc)⟩
  | decimal run =>
    cases h
    exact ⟨run.ne_nil, fun c hc => isDigitIn_ten (run.digits c hc)⟩
  | _ => cases h

theorem number_of_integer (h : form.integer? = some (base, digits)) :
    Literal.number (String.ofList (form.signedText sign)) =
      Literal.integer (String.ofList (form.signedText sign)) sign.isNegative base digits := by
  cases form with
  | binary run =>
    cases h
    exact number_binary sign run.chars
  | hexadecimal run =>
    cases h
    exact number_hexadecimal sign run.chars
  | decimal run =>
    have hten : ∀ base digits, (decimal run).integer? = some (base, digits) → base = 10 := by
      rintro _ _ ⟨⟩
      rfl
    cases h
    rw [number_of_unmarked _ _ hten, text, any_point_of_digits run.digits,
      if_neg Bool.false_ne_true]
  | _ => cases h

theorem number_integer (h : form.integer? = some (base, digits)) :
    Literal.number (String.ofList (form.signedText sign)) =
      if base = 10 ∧ Integer.digitLimit < digits.length then .error (.tooManyDigits digits.length)
      else Literal.checked (String.ofList (form.signedText sign))
        (sign.apply (positionalValue base digits)) := by
  obtain ⟨hne, hdigits⟩ := form.digits_of_integer h
  rw [form.number_of_integer sign h, Literal.integer, integer_of_digitsIn hdigits hne]
  by_cases hlong : base = 10 ∧ Integer.digitLimit < digits.length
  · rw [if_pos hlong, if_pos hlong]
  · rw [if_neg hlong, if_neg hlong, valueOf_eq_positionalValue]
    rfl

theorem number_float (h : form.integer? = none) :
    ∃ x, Reading.float? (String.ofList (form.signedText sign)) = some x ∧
      Literal.number (String.ofList (form.signedText sign)) =
        .ok (.literal (.float x) (.str "Float")) := by
  obtain ⟨x, hx⟩ := form.exists_float? sign h
  have hmarked : ∃ c ∈ form.text, (c == '.' || c == 'e' || c == 'E') = true := by
    cases form with
    | scientific whole places capital power =>
      refine ⟨exponentMark capital, by simp [text], ?_⟩
      rw [Bool.or_assoc, isExponentMark, Bool.or_true]
    | fractional whole places => exact ⟨'.', by simp [text], rfl⟩
    | _ => cases h
  refine ⟨x, hx, ?_⟩
  rw [number_of_unmarked _ _ (by rw [h]; nofun), if_pos (List.any_eq_true.mpr hmarked), hx]

/-- What the literal of a number stands for: a float if the number has a point or an exponent, and
else the positional value of its digits, unless it needs more than 64 bits or a decimal number has
too many digits for it to be computed. -/
structure StandsFor (form : NumberForm) (sign : Sign) (literal : Except LiteralError Node) : Prop where
  float_iff : (∃ x, literal = .ok (.literal (.float x) (.str "Float"))) ↔ form.integer? = none
  int_iff (n : Int) : literal = .ok (.literal (.int n) (.str "Integer")) ↔
    ∃ base digits, form.integer? = some (base, digits) ∧
      n = sign.apply (positionalValue base digits) ∧ Integer.inRange n = true ∧
      ¬(base = 10 ∧ 4300 < digits.length)
  error_iff : (∃ error, literal = .error error) ↔
    ∃ base digits, form.integer? = some (base, digits) ∧
      (Integer.inRange (sign.apply (positionalValue base digits)) = false ∨
        base = 10 ∧ 4300 < digits.length)

theorem standsFor : StandsFor form sign (Literal.number (String.ofList (form.signedText sign))) := by
  cases hform : form.integer? with
  | none =>
    obtain ⟨x, -, hx⟩ := form.number_float sign hform
    rw [hx]
    constructor <;> simp [hform]
  | some integer =>
    obtain ⟨base, digits⟩ := integer
    rw [form.number_integer sign hform]
    by_cases hlong : base = 10 ∧ Integer.digitLimit < digits.length
    · have hmany : base = 10 ∧ 4300 < digits.length := hlong
      rw [if_pos hlong]
      constructor <;> simp [hform, hmany]
    · have hshort : base = 10 → digits.length ≤ 4300 := fun hten =>
        Nat.le_of_not_lt fun hlength => hlong ⟨hten, hlength⟩
      rw [if_neg hlong, Literal.checked]
      by_cases hrange : Integer.inRange (sign.apply (positionalValue base digits)) = true
      · rw [if_pos hrange]
        constructor
        · simp [hform]
        · intro n
          have hn : sign.apply (positionalValue base digits) = n ↔
              n = sign.apply (positionalValue base digits) ∧ Integer.inRange n = true ∧
                (base = 10 → digits.length ≤ 4300) :=
            ⟨fun h => ⟨h.symm, h ▸ hrange, hshort⟩, fun h => h.1.symm⟩
          simpa [hform] using hn
        · simpa [hform, hrange] using hshort
      · rw [if_neg hrange]
        constructor
        · simp [hform]
        · intro n
          refine iff_of_false (by simp) ?_
          rintro ⟨_, _, h, rfl, hin, -⟩
          rw [hform] at h
          cases h
          exact hrange hin
        · simp [hform, hrange]

end NumberForm

/-- A number token is the longest number at its place, and its literal is what its form says. -/
theorem number_tokens_exact :
    (∀ (accepts : Terminal → Bool) (text : List Char) (n : Nat),
      first accepts text = some (.token .number, n) ↔
        accepts .number = true ∧ LongestNumber text n) ∧
      ∀ (form : NumberForm) (sign : Sign),
        form.StandsFor sign (Literal.number (String.ofList (form.signedText sign))) :=
  ⟨fun _ _ _ => first_eq_number_iff, NumberForm.standsFor⟩

end ScriptLang
