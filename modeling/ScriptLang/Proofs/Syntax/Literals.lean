import ScriptLang.Node.Literal
import ScriptLang.Proofs.Number.ShortestDecimal
import ScriptLang.Proofs.Syntax.Legible

/-! # Literals and their texts

The texts of literals are legible and stand for the values they were made from.
-/

namespace ScriptLang

open Lexeme

theorem unescape_cons {c : Char} (hs : c ≠ '\\') (text : List Char) :
    Literal.unescape (c :: text) = Literal.prepend c (Literal.unescape text) := by
  rw [Literal.unescape]
  · rintro _ _ _ _ _ rfl
    exact absurd rfl hs
  · rintro _ _ rfl
    exact absurd rfl hs

theorem unescape_escape (c : Char) (text : List Char) :
    Literal.unescape (escape c ++ text) = Literal.prepend c (Literal.unescape text) := by
  unfold escape
  split
  · rfl
  · rfl
  · rfl
  · rfl
  · rfl
  · rename_i _ hb _ _ _
    exact unescape_cons hb text

theorem unescape_flatMap (text : List Char) :
    Literal.unescape (text.flatMap escape) = .ok text := by
  induction text with
  | nil => rfl
  | cons c text ih =>
    rw [List.flatMap_cons, unescape_escape, ih]
    rfl

theorem string_stringText (value : String) : Literal.string (stringText value) = .ok value := by
  simp [Literal.string, stringText, unescape_flatMap, Except.map]

theorem stringTail_cons {c : Char} {text : List Char} (hq : c ≠ '"') (hs : c ≠ '\\') :
    stringTail (c :: text) = (stringTail text).map (· + 1) := by
  rw [stringTail]
  · simp [hs]
  · exact hq
  · rintro _ _ _ _ _ rfl
    exact absurd rfl hs
  · rintro _ _ rfl
    exact absurd rfl hs

theorem stringTail_escape (c : Char) (text : List Char) :
    stringTail (escape c ++ text) = (stringTail text).map (· + (escape c).length) := by
  unfold escape
  split
  · rfl
  · rfl
  · rfl
  · rfl
  · rfl
  · rename_i hq hb _ _ _
    exact stringTail_cons hq hb

theorem stringTail_flatMap (text rest : List Char) :
    stringTail (text.flatMap escape ++ '"' :: rest) = some ((text.flatMap escape).length + 1) := by
  induction text with
  | nil => rfl
  | cons c text ih =>
    rw [List.flatMap_cons, List.append_assoc, stringTail_escape, ih, Option.map_some,
      List.length_append]
    congr 1
    omega

theorem legible_stringText (value : String) : Word.Legible (.string, stringText value) := by
  refine .string fun rest => ?_
  have ht : (stringText value).toList = '"' :: (value.toList.flatMap escape ++ ['"']) := by
    simp [stringText]
  rw [← String.length_toList, ht, List.cons_append, List.append_assoc, List.singleton_append,
    stringLength, stringTail_flatMap]
  simp

open DecimalDigit

variable {digits rest : List Char}

theorem markedRun_of_ends {mark digit : Char → Bool} (hm : mark ' ' = false) (he : Ends rest) :
    markedRun mark digit rest = 0 := by
  cases rest with
  | nil => rfl
  | cons c rest =>
    obtain rfl : c = ' ' := he c rfl
    simp [markedRun, hm]

theorem unsignedLength_of_digits (hd : ∀ c ∈ digits, isAscii c = true) (hn : digits ≠ [])
    (he : Ends rest) : unsignedLength (digits ++ rest) = some digits.length := by
  have hw : (digits ++ rest).takeWhile isAscii = digits :=
    takeWhile_append_of_ends (by decide) hd he
  have hm (mark digit : Char → Bool) (hmark : mark ' ' = false) : markedRun mark digit rest = 0 :=
    markedRun_of_ends hmark he
  simp [unsignedLength, hw, hn, hm]

theorem numberLength_withSign {c : Char} {text : List Char} {n : Nat} (negative : Bool)
    (hc : isAscii c = true) (h : unsignedLength (c :: text ++ rest) = some n) :
    numberLength ((if negative then '-' :: c :: text else c :: text) ++ rest) =
      some (if negative then n + 1 else n) := by
  cases negative with
  | true => simpa [numberLength] using h
  | false =>
    have hs : (c == '+' || c == '-') = false := by
      obtain ⟨hp, hm⟩ := ne_sign_of_isAscii hc
      simp [hp, hm]
    simp only [Bool.false_eq_true, if_false, List.cons_append, numberLength, hs]
    exact h

theorem head?_withSign {c : Char} {text : List Char} (negative : Bool) (hc : isAscii c = true) :
    ((Binary64.withSign negative (c :: text)).toList.head? == some '-') = negative := by
  rw [Binary64.withSign, String.toList_ofList]
  cases negative with
  | true => rfl
  | false => simpa using (ne_sign_of_isAscii hc).2

theorem dropWhile_withSign {c : Char} {text : List Char} (negative : Bool)
    (hc : isAscii c = true) :
    (Binary64.withSign negative (c :: text)).toList.dropWhile (fun c => c == '+' || c == '-') =
      c :: text := by
  obtain ⟨hp, hm⟩ := ne_sign_of_isAscii hc
  rw [Binary64.withSign, String.toList_ofList]
  cases negative with
  | true => simp [hp, hm]
  | false => simp [hp, hm]

theorem toDigits_eq_cons (n : Nat) :
    ∃ c rest, Nat.toDigits 10 n = c :: rest ∧ isAscii c = true ∧ ∀ d ∈ rest, isAscii d = true := by
  obtain ⟨c, rest, h⟩ := List.exists_cons_of_ne_nil (Nat.toDigits_ne_nil (n := n) (b := 10))
  have hd : ∀ d ∈ c :: rest, isAscii d = true := fun d hd => isAscii_of_mem_toDigits (h ▸ hd)
  exact ⟨c, rest, h, List.forall_mem_cons.mp hd⟩

theorem length_toDigits_le {n : Nat} (h : n < 10000000000000000000000) :
    (Nat.toDigits 10 n).length ≤ Integer.digitLimit := by
  refine Nat.le_trans ((Nat.length_toDigits_le_iff (k := 22) (by decide) (by decide)).mpr h) ?_
  decide

theorem any_point_of_digits (h : ∀ d ∈ digits, isAscii d = true) :
    (digits.any fun c => c == '.' || c == 'e' || c == 'E') = false := by
  rw [List.any_eq_false]
  intro d hd hp
  simp only [Bool.or_eq_true, beq_iff_eq] at hp
  obtain (rfl | rfl) | rfl := hp
  all_goals exact absurd (h _ hd) (by decide)

theorem number_text {value : Int} (h : Integer.inRange value = true) :
    Literal.number (Integer.text value) = .ok (.literal (.int value) (.str "Integer")) := by
  obtain ⟨hlo, hhi⟩ := Integer.inRange_iff.mp h
  simp only [Integer.least, Integer.greatest] at hlo hhi
  obtain ⟨c, rest, hd, hc, hrest⟩ := toDigits_eq_cons value.natAbs
  have hdigits : ∀ d ∈ c :: rest, isAscii d = true := List.forall_mem_cons.mpr ⟨hc, hrest⟩
  have hsecond : ∀ d tail, isAscii d = false → c :: rest ≠ '0' :: d :: tail := by
    intro d tail hd he
    have hm : d ∈ rest := (List.cons.inj he).2 ▸ List.mem_cons_self
    exact Bool.noConfusion ((hrest d hm).symm.trans hd)
  have hlen : (c :: rest).length ≤ Integer.digitLimit := hd ▸ length_toDigits_le (by omega)
  have hvalue : valueOf 10 (c :: rest) = value.natAbs := hd ▸ valueOf_toDigits value.natAbs
  have hsign : (if decide (value < 0) then -(value.natAbs : Int) else value.natAbs) = value :=
    Binary64.signed_natAbs value
  rw [Integer.text_eq_withSign, hd, Literal.number, dropWhile_withSign _ hc, head?_withSign _ hc,
    any_point_of_digits hdigits]
  split
  next he => exact absurd he (hsecond 'b' _ (by decide))
  next he => exact absurd he (hsecond 'x' _ (by decide))
  next =>
    rw [if_neg Bool.false_ne_true, Literal.integer,
      integer_of_digits hdigits (List.cons_ne_nil _ _) hlen]
    simp only [hvalue, hsign, Literal.checked, h, if_true]

theorem legible_text (value : Int) : Word.Legible (.number, Integer.text value) := by
  refine .number fun rest he => ?_
  obtain ⟨c, digits, hd, hc, hdigits⟩ := toDigits_eq_cons value.natAbs
  have hu := unsignedLength_of_digits (List.forall_mem_cons.mpr ⟨hc, hdigits⟩)
    (List.cons_ne_nil _ _) he
  have hn := numberLength_withSign (decide (value < 0)) hc hu
  rw [Integer.text_eq_withSign, hd, ← String.length_toList, Binary64.withSign, String.toList_ofList,
    hn]
  split <;> rfl

/-- A text without a sign that is taken as a float and read as a value with the sign that stands in
front of it. -/
structure IsFloat (text : List Char) (value : Bool → Binary64) : Prop where
  first : ∃ c rest, text = c :: rest ∧ isAscii c = true
  chars : ∀ c ∈ text, isAscii c = true ∨ c = '.' ∨ c = 'e'
  marked : '.' ∈ text ∨ 'e' ∈ text
  length : ∀ rest, Ends rest → unsignedLength (text ++ rest) = some text.length
  reads : ∀ negative, Reading.readUnsigned negative text = some (value negative)

section

variable {text : List Char} {value : Bool → Binary64}

theorem IsFloat.legible (h : IsFloat text value) (negative : Bool) :
    Word.Legible (.number, Binary64.withSign negative text) := by
  refine .number fun rest he => ?_
  have hlength := h.length rest he
  obtain ⟨c, tail, rfl, hc⟩ := h.first
  rw [← String.length_toList, Binary64.withSign, String.toList_ofList,
    numberLength_withSign negative hc hlength]
  split <;> rfl

theorem IsFloat.plain (h : IsFloat text value) : ∀ c ∈ text, isNumeralChar c = true := by
  intro c hc
  obtain hc | rfl | rfl := h.chars c hc
  · exact isNumeralChar_of_isAscii hc
  · decide
  · decide

theorem IsFloat.float? (h : IsFloat text value) (negative : Bool) :
    Reading.float? (Binary64.withSign negative text) = some (value negative) := by
  have hplain := h.plain
  rw [← h.reads negative]
  obtain ⟨c, rest, rfl, hc⟩ := h.first
  exact float?_withSign hplain hc negative

theorem IsFloat.number (h : IsFloat text value) (negative : Bool) :
    Literal.number (Binary64.withSign negative text) =
      .ok (.literal (.float (value negative)) (.str "Float")) := by
  have hfloat := h.float? negative
  have hmarked : (text.any fun c => c == '.' || c == 'e' || c == 'E') = true := by
    rw [List.any_eq_true]
    rcases h.marked with hm | hm
    · exact ⟨_, hm, by decide⟩
    · exact ⟨_, hm, by decide⟩
  have hsecond : ∀ d rest, isAscii d = false → d ≠ '.' → d ≠ 'e' → text ≠ '0' :: d :: rest := by
    rintro d rest hd hp he rfl
    obtain h | h | h := h.chars d (List.mem_cons_of_mem _ List.mem_cons_self)
    · exact Bool.noConfusion (h.symm.trans hd)
    · exact hp h
    · exact he h
  obtain ⟨c, rest, rfl, hc⟩ := h.first
  rw [Literal.number, dropWhile_withSign negative hc, hmarked, hfloat]
  dsimp only
  split
  next he => exact absurd he (hsecond 'b' _ (by decide) (by decide) (by decide))
  next he => exact absurd he (hsecond 'x' _ (by decide) (by decide) (by decide))
  next => rfl

end

theorem isFloat_of_point {whole fraction : List Char} {value : Bool → Binary64}
    (hw : ∀ c ∈ whole, isAscii c = true) (hf : ∀ c ∈ fraction, isAscii c = true)
    (hwn : whole ≠ []) (hfn : fraction ≠ [])
    (hr : ∀ negative, Reading.readUnsigned negative (whole ++ '.' :: fraction) =
      some (value negative)) : IsFloat (whole ++ '.' :: fraction) value := by
  refine ⟨?_, ?_, .inl (by simp), ?_, hr⟩
  · obtain ⟨c, rest, rfl⟩ := List.exists_cons_of_ne_nil hwn
    exact ⟨c, rest ++ '.' :: fraction, rfl, hw c List.mem_cons_self⟩
  · intro c hc
    rcases List.mem_append.mp hc with hc | hc
    · exact .inl (hw c hc)
    · rcases List.mem_cons.mp hc with rfl | hc
      · exact .inr (.inl rfl)
      · exact .inl (hf c hc)
  · intro rest he
    have hwhole : (whole ++ '.' :: fraction ++ rest).takeWhile isAscii = whole := by
      rw [List.append_assoc, List.takeWhile_append_of_pos hw]
      simp [isAscii]
    have hrun : (fraction ++ rest).takeWhile isAscii = fraction :=
      takeWhile_append_of_ends (by decide) hf he
    have hfraction : markedRun (· == '.') isAscii ('.' :: (fraction ++ rest)) =
        fraction.length + 1 := by simp [markedRun, hrun, hfn]
    have hexponent : markedRun (fun c => c == 'e' || c == 'E') isAscii rest = 0 :=
      markedRun_of_ends (by decide) he
    rw [unsignedLength, hwhole]
    simp [hwn, hfraction, hexponent]

theorem isFloat_zero : IsFloat ['0', '.', '0'] .zero :=
  have hdigit : ∀ c ∈ ['0'], isAscii c = true := by simp [isAscii]
  isFloat_of_point hdigit hdigit (List.cons_ne_nil _ _) (List.cons_ne_nil _ _) fun _ =>
    readUnsigned_of_digits hdigit hdigit (List.cons_ne_nil _ _)

theorem isFloat_infinite : IsFloat ['1', 'e', '3', '0', '9'] .infinite := by
  refine ⟨⟨_, _, rfl, by decide⟩, by simp [isAscii], .inr (by decide), fun rest he => ?_, by decide⟩
  have hrun : (['3', '0', '9'] ++ rest).takeWhile isAscii = ['3', '0', '9'] :=
    takeWhile_append_of_ends (by decide) (by simp [isAscii]) he
  have hwhole : (['1', 'e', '3', '0', '9'] ++ rest).takeWhile isAscii = ['1'] := by simp [isAscii]
  rw [unsignedLength, hwhole]
  simp only [List.cons_append, List.nil_append] at hrun
  simp [markedRun, hrun]

theorem isFloat_of_parts {code : Nat} {whole fraction : List Char} (hpos : 0 < code)
    (hc : code < Binary64.codeBound) (h : (Shortest.decimal code).Parts whole fraction) :
    IsFloat (whole ++ '.' :: fraction) (.finite · ⟨code, hc⟩) :=
  isFloat_of_point h.whole_digits h.fraction_digits h.whole_ne_nil h.fraction_ne_nil fun _ =>
    readUnsigned_of_parts hpos hc (Shortest.reads_decimal hpos) h

theorem floatText_eq {value : Binary64} (h : value ≠ .nan) :
    ∃ negative text values, floatText value = Binary64.withSign negative text ∧
      IsFloat text values ∧ values negative = value := by
  cases value with
  | nan => exact absurd rfl h
  | infinite negative => exact ⟨negative, _, _, rfl, isFloat_infinite, rfl⟩
  | finite negative code =>
    obtain ⟨code, hc⟩ := code
    unfold floatText
    dsimp only
    split_ifs with hzero hint
    · subst hzero
      exact ⟨negative, _, _, rfl, isFloat_zero, rfl⟩
    · exact ⟨negative, _, _, rfl, isFloat_of_parts (Nat.pos_of_ne_zero hzero) hc
        (parts_of_integral hint), rfl⟩
    · obtain ⟨whole, fraction, htext, hparts, -⟩ := parts_of_fractional (Int.lt_of_not_ge hint)
      rw [htext]
      exact ⟨negative, _, _, rfl, isFloat_of_parts (Nat.pos_of_ne_zero hzero) hc hparts, rfl⟩

theorem legible_floatText {value : Binary64} (h : value ≠ .nan) :
    Word.Legible (.number, floatText value) := by
  obtain ⟨negative, text, values, htext, hfloat, -⟩ := floatText_eq h
  rw [htext]
  exact hfloat.legible negative

theorem number_floatText {value : Binary64} (h : value ≠ .nan) :
    Literal.number (floatText value) = .ok (.literal (.float value) (.str "Float")) := by
  obtain ⟨negative, text, values, htext, hfloat, hvalue⟩ := floatText_eq h
  rw [htext, hfloat.number negative, hvalue]

end ScriptLang
