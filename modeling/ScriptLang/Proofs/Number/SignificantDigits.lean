import Mathlib.Data.List.TakeWhile
import ScriptLang.Number.Reading
import ScriptLang.Proofs.Number.FewestDigits
import ScriptLang.Proofs.Number.Magnitude

/-! # Significant digits

A text that is read as a number spells a decimal: the digits before its exponent, wherever its point
and its underscores are. Zeros at the ends of these digits do not count, and what is left has at
least as many digits as the shortest decimal.
-/

namespace ScriptLang

open Binary64 DecimalDigit

variable {code : Nat} {text digits rest : List Char}

namespace Reading

def isExponentMark (c : Char) : Bool := c == 'e' || c == 'E'

/-- The digits of a number's text before its exponent. -/
def mantissaDigits (text : List Char) : List Char :=
  (text.takeWhile fun c => !isExponentMark c).filter isAscii

/-- The digits of a number's text without the zeros in front of them and after them. -/
def significant (text : String) : List Char :=
  Blank.trim (· == '0')
    (mantissaDigits ((Blank.trim Blank.aroundNumber text.toList).map toAscii))

theorem isExponentMark_of_isAscii {c : Char} (h : isAscii c = true) : isExponentMark c = false := by
  rw [isExponentMark, Bool.or_eq_false_iff, beq_eq_false_iff_ne, beq_eq_false_iff_ne]
  constructor
  · rintro rfl
    exact absurd h (by decide)
  · rintro rfl
    exact absurd h (by decide)

theorem mantissaDigits_append (hd : ∀ c ∈ digits, isAscii c = true) :
    mantissaDigits (digits ++ rest) = digits ++ mantissaDigits rest := by
  have hmark : ∀ c ∈ digits, (!isExponentMark c) = true :=
    fun c hc => by rw [isExponentMark_of_isAscii (hd c hc), Bool.not_false]
  rw [mantissaDigits, List.takeWhile_append_of_pos hmark, List.filter_append,
    List.filter_eq_self.mpr hd]
  rfl

theorem mantissaDigits_cons {c : Char} (hm : isExponentMark c = false) (hc : isAscii c = false) :
    mantissaDigits (c :: rest) = mantissaDigits rest := by
  rw [mantissaDigits, List.takeWhile_cons_of_pos (by rw [hm, Bool.not_false]),
    List.filter_cons_of_neg (by rw [hc]; exact Bool.noConfusion)]
  rfl

theorem mantissaDigits_splitDigits (text : List Char) :
    mantissaDigits text = (splitDigits text).1 ++ mantissaDigits (splitDigits text).2 := by
  have hsplit : (splitDigits text).1 ++ (splitDigits text).2 = text := List.takeWhile_append_dropWhile
  have hdigits : ∀ c ∈ (splitDigits text).1, isAscii c = true :=
    fun c hc => List.mem_takeWhile_imp hc
  rw [← mantissaDigits_append hdigits, hsplit]

theorem mantissaDigits_splitSign (text : List Char) :
    mantissaDigits (splitSign text).2 = mantissaDigits text := by
  unfold splitSign
  split
  · exact (mantissaDigits_cons (by decide) (by decide)).symm
  · exact (mantissaDigits_cons (by decide) (by decide)).symm
  · rfl

theorem eq_filter_of_dropUnderscores {isDigit : Char → Bool} {after : Bool} {plain : List Char}
    (h : dropUnderscores isDigit after text = some plain) : plain = text.filter (· != '_') := by
  fun_induction dropUnderscores isDigit after text generalizing plain with
  | case1 => cases h; rfl
  | case2 after c rest hdigit ih => simpa using ih h
  | case3 => cases h
  | case4 => cases h
  | case5 after c rest hnext hc ih =>
    obtain ⟨tail, htail, rfl⟩ := Option.map_eq_some_iff.mp h
    rw [ih htail, List.filter_cons_of_pos (by simpa using hc)]

theorem mantissaDigits_dropUnderscores {isDigit : Char → Bool} {after : Bool} {plain : List Char}
    (h : dropUnderscores isDigit after text = some plain) :
    mantissaDigits plain = mantissaDigits text := by
  have hmark (c : Char) : (!(c != '_') || !isExponentMark c) = !isExponentMark c := by
    by_cases hc : c = '_'
    · rw [hc]
      decide
    · simp [hc]
  have hdigit (c : Char) : (isAscii c && c != '_') = isAscii c := by
    by_cases hc : c = '_'
    · rw [hc]
      decide
    · simp [hc]
  rw [eq_filter_of_dropUnderscores h, mantissaDigits, List.takeWhile_filter, List.filter_filter]
  simp only [hmark, hdigit]
  rfl

theorem mantissaDigits_of_readExponent {exponent : Int} (h : readExponent text = some exponent) :
    mantissaDigits text = [] := by
  cases text with
  | nil => rfl
  | cons mark rest =>
    have hmark : isExponentMark mark = true := by
      unfold readExponent at h
      dsimp only at h
      split at h
      next hc => simp_all [isExponentMark]
      next => cases h
    rw [mantissaDigits, List.takeWhile_cons_of_neg (by simp [hmark])]
    rfl

/-- Digits are rounded with some exponent, wherever the point among them is. -/
theorem exists_ofDecimal_of_readUnsigned {negative : Bool} {x : Binary64}
    (h : readUnsigned negative text = some x) :
    ∃ exponent, x = ofDecimal negative (valueOf 10 (mantissaDigits text)) exponent := by
  have hfinish (whole rest : List Char) (parts : List Char × List Char)
      (hparts : mantissaDigits rest = parts.1 ++ mantissaDigits parts.2)
      (hread : (if whole.isEmpty && parts.1.isEmpty then none
        else (readExponent parts.2).map fun exponent =>
          ofDecimal negative (valueOf 10 (whole ++ parts.1)) (exponent - parts.1.length)) = some x) :
      ∃ exponent, x = ofDecimal negative (valueOf 10 (whole ++ mantissaDigits rest)) exponent := by
    split at hread
    · cases hread
    · obtain ⟨exponent, hexponent, rfl⟩ := Option.map_eq_some_iff.mp hread
      rw [hparts, mantissaDigits_of_readExponent hexponent, List.append_nil]
      exact ⟨_, rfl⟩
  rw [mantissaDigits_splitDigits]
  unfold readUnsigned at h
  generalize splitDigits text = parts at h ⊢
  obtain ⟨whole, rest⟩ := parts
  dsimp only at h ⊢
  split at h
  next after =>
    refine hfinish whole _ (splitDigits after) ?_ h
    rw [mantissaDigits_cons (by decide) (by decide), mantissaDigits_splitDigits]
  next => exact hfinish whole rest ([], rest) rfl h

/-- The digits of a text that is read as a finite number are rounded to it. -/
theorem exists_ofDecimal_of_float? {text : String} {negative : Bool} {code : Fin codeBound}
    (h : float? text = some (.finite negative code)) : ∃ sign exponent,
      ofDecimal sign (valueOf 10 (mantissaDigits
        ((Blank.trim Blank.aroundNumber text.toList).map toAscii))) exponent =
          .finite negative code := by
  obtain ⟨plain, hplain, hread⟩ := Option.bind_eq_some_iff.mp h
  rw [← mantissaDigits_dropUnderscores hplain, ← mantissaDigits_splitSign]
  unfold readSigned at hread
  dsimp only at hread
  split at hread
  · cases hread
  split at hread
  · cases hread
  obtain ⟨exponent, he⟩ := exists_ofDecimal_of_readUnsigned hread
  exact ⟨_, exponent, he.symm⟩

theorem exists_zeros_trim (digits : List Char) : ∃ front back, digits =
    List.replicate front '0' ++ Blank.trim (· == '0') digits ++ List.replicate back '0' := by
  have hzeros (l : List Char) :
      l = List.replicate (l.takeWhile (· == '0')).length '0' ++ l.dropWhile (· == '0') := by
    have he : l.takeWhile (· == '0') = List.replicate (l.takeWhile (· == '0')).length '0' :=
      List.eq_replicate_of_mem fun c hc => by simpa using List.mem_takeWhile_imp hc
    rw [← he, List.takeWhile_append_dropWhile]
  have hback := congrArg List.reverse (hzeros (digits.dropWhile (· == '0')).reverse)
  rw [List.reverse_reverse, List.reverse_append, List.reverse_replicate] at hback
  have hfront := hzeros digits
  rw [hback, ← List.append_assoc] at hfront
  exact ⟨_, _, hfront⟩

theorem length_trim_le (front back : Nat) : (Blank.trim (· == '0')
    (List.replicate front '0' ++ digits ++ List.replicate back '0')).length ≤ digits.length := by
  have hzeros (count : Nat) : ∀ c ∈ List.replicate count '0', (c == '0') = true :=
    fun c hc => by rw [List.eq_of_mem_replicate hc]; rfl
  have hlength := List.length_dropWhile_le (· == '0') digits
  rw [Blank.trim, List.append_assoc, List.dropWhile_append_of_pos (hzeros front), List.dropWhile_append]
  split
  · rw [List.dropWhile_eq_nil_iff.mpr (hzeros back)]
    exact Nat.zero_le _
  · rw [List.reverse_append, List.reverse_replicate, List.dropWhile_append_of_pos (hzeros back),
      List.length_reverse]
    exact (List.length_dropWhile_le _ _).trans (by rwa [List.length_reverse])

theorem reads_of_ofDecimal {sign negative : Bool} {mantissa : Nat} {exponent : Int}
    {code : Fin codeBound} (hc : 0 < code.val)
    (h : ofDecimal sign mantissa exponent = .finite negative code) :
    Shortest.reads code ⟨mantissa, exponent⟩ = true := by
  have hzero : Binary64.zero sign ≠ .finite negative code := by
    rintro ⟨⟩
    exact Nat.lt_irrefl 0 hc
  unfold ofDecimal at h
  dsimp only at h
  split at h
  · exact absurd h hzero
  split at h
  · cases h
  split at h
  · exact absurd h hzero
  obtain ⟨near, hnear, hround⟩ := exists_nearest
    (mantissa * 10 ^ exponent.toNat * scale)
    (Nat.pow_pos (n := (-exponent).toNat) (a := 10) (by decide))
  simp only [Nat.pow_eq] at h
  rw [hround] at h
  split at h
  · cases h
    exact Shortest.reads_iff_nearest.mpr hnear
  · cases h

theorem length_toDigits_valueOf_le (hd : ∀ c ∈ digits, isAscii c = true) (hn : digits ≠ []) :
    (Nat.toDigits 10 (valueOf 10 digits)).length ≤ digits.length :=
  (Nat.length_toDigits_le_iff (by decide) (List.length_pos_iff.mpr hn)).mpr (valueOf_lt hd)

/-- No text that is read as a number has fewer significant digits than its shortest decimal. -/
theorem length_le_significant {text : String} {negative : Bool} {code : Fin codeBound}
    (hc : 0 < code.val) (h : float? text = some (.finite negative code)) :
    (Nat.toDigits 10 (Shortest.decimal code).digits).length ≤ (significant text).length := by
  obtain ⟨sign, exponent, hread⟩ := exists_ofDecimal_of_float? h
  have hreads := reads_of_ofDecimal hc hread
  unfold significant
  generalize hm : mantissaDigits ((Blank.trim Blank.aroundNumber text.toList).map toAscii) = digits
    at hreads ⊢
  obtain ⟨front, back, hzeros⟩ := exists_zeros_trim digits
  have hdigits : ∀ c ∈ Blank.trim (· == '0') digits, isAscii c = true := by
    intro c hmem
    have hall : c ∈ digits := by
      rw [hzeros]
      simp [hmem]
    rw [← hm] at hall
    exact (List.mem_filter.mp hall).2
  generalize Blank.trim (· == '0') digits = kept at hzeros hdigits
  have hvalue : valueOf 10 digits = valueOf 10 kept * 10 ^ back := by
    rw [hzeros, valueOf_append_zeros, valueOf_zeros_append]
  have hshift : exponent = exponent + back - back := by omega
  rw [hvalue, hshift, Shortest.reads_refine] at hreads
  have hkept : kept ≠ [] := by
    rintro rfl
    exact Shortest.digits_ne_zero hc hreads rfl
  exact (Shortest.length_le_of_reads hc hreads).trans (length_toDigits_valueOf_le hdigits hkept)

end Reading

end ScriptLang
