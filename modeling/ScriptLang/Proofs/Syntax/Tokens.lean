import ScriptLang.Node.Literal
import ScriptLang.Number.Layout
import ScriptLang.Proofs.Grammar.Lexing
import ScriptLang.Proofs.Number.Digits

/-! # The texts of tokens

A keyword, an operator or a mark has its one spelling, an identifier is a word that is not
reserved and a number starts with a digit after its sign. A number is never read as something that
is no number.
-/

namespace ScriptLang

open DecimalDigit

/-- An identifier: a word that starts with no digit and is not reserved. -/
structure IsName (name : List Char) : Prop where
  ne_nil : name ≠ []
  word : ∀ c ∈ name, Lexeme.isWordChar c = true
  first : ∀ c ∈ name.head?, isAscii c = false
  free : String.ofList name ∉ Lexeme.reserved

theorem isName_iff {name : List Char} :
    IsName name ↔ name ≠ [] ∧ name.all Lexeme.isWordChar = true ∧
      name.head?.all (! isAscii ·) = true ∧ String.ofList name ∉ Lexeme.reserved := by
  simp only [List.all_eq_true, Option.all_eq_true, Bool.not_eq_true']
  exact ⟨fun ⟨hne, hword, hfirst, hfree⟩ => ⟨hne, hword, hfirst, hfree⟩,
    fun ⟨hne, hword, hfirst, hfree⟩ => ⟨hne, hword, hfirst, hfree⟩⟩

instance (name : List Char) : Decidable (IsName name) :=
  decidable_of_iff' _ isName_iff

/-- What a number looks like, as far as reading it depends on. -/
structure IsNumeral (text : List Char) : Prop where
  plain : ∀ c ∈ text, isNumeralChar c = true
  digit : ∃ negative c rest, Reading.splitSign text = (negative, c :: rest) ∧ isAscii c = true

namespace Lexeme

variable {text : List Char} {n : Nat}

theorem take_length_takeWhile (p : Char → Bool) (text : List Char) :
    text.take (text.takeWhile p).length = text.takeWhile p :=
  (List.prefix_iff_eq_take.mp (List.takeWhile_prefix p)).symm

theorem of_mem_takeWhile {p : Char → Bool} {c : Char} (h : c ∈ text.takeWhile p) : p c = true :=
  List.all_eq_true.mp List.all_takeWhile c h

theorem isName_of_identLength (h : identLength text = some n) : IsName (text.take n) := by
  unfold identLength at h
  dsimp only at h
  split at h
  next => cases h
  next c rest hw =>
    rw [Option.ite_none_left_eq_some, Option.some.injEq] at h
    obtain ⟨hc, rfl⟩ := h
    simp only [Bool.or_eq_true, not_or, Bool.not_eq_true, List.contains_eq_mem,
      decide_eq_false_iff_not] at hc
    rw [take_length_takeWhile]
    refine ⟨by simp [hw], fun d hd => of_mem_takeWhile hd, ?_, hc.2⟩
    rw [hw]
    simpa using hc.1

theorem of_mem_take_markedRun {mark digit : Char → Bool} {c : Char}
    (h : c ∈ text.take (markedRun mark digit text)) : mark c = true ∨ digit c = true := by
  cases text with
  | nil => simp at h
  | cons d rest =>
    simp only [markedRun] at h
    split at h
    next hm =>
      rw [List.take_succ_cons, take_length_takeWhile] at h
      cases h with
      | head => exact .inl (Bool.and_eq_true_iff.mp hm).1
      | tail _ h => exact .inr (of_mem_takeWhile h)
    next => simp at h

def Plain (text : List Char) : Prop := ∀ c ∈ text, isNumeralChar c = true

theorem plain_take_markedRun {mark digit : Char → Bool} (text : List Char)
    (hm : ∀ c, mark c = true → isNumeralChar c = true)
    (hd : ∀ c, digit c = true → isHexDigit c = true) :
    Plain (text.take (markedRun mark digit text)) := by
  intro c hc
  obtain h | h := of_mem_take_markedRun hc
  · exact hm c h
  · exact isNumeralChar_of_isHexDigit (hd c h)

theorem Plain.take_add {i j : Nat} (hi : Plain (text.take i)) (hj : Plain ((text.drop i).take j)) :
    Plain (text.take (i + j)) := by
  intro c hc
  rw [List.take_add, List.mem_append] at hc
  exact hc.elim (hi c) (hj c)

theorem plain_takeWhile_isAscii : Plain (text.take (text.takeWhile isAscii).length) := by
  intro c hc
  rw [take_length_takeWhile] at hc
  exact isNumeralChar_of_isAscii (of_mem_takeWhile hc)

theorem plain_of_unsignedLength (h : unsignedLength text = some n) : Plain (text.take n) := by
  have hascii : ∀ c, isAscii c = true → isHexDigit c = true := fun _ => isHexDigit_of_isAscii
  have hfraction (rest : List Char) : Plain (rest.take (markedRun (· == '.') isAscii rest)) :=
    plain_take_markedRun rest (by simp [isNumeralChar]) hascii
  have hexponent (rest : List Char) :
      Plain (rest.take (markedRun (fun c => c == 'e' || c == 'E') isAscii rest)) := by
    refine plain_take_markedRun rest (fun c hc => ?_) hascii
    rw [Bool.or_eq_true, beq_iff_eq, beq_iff_eq] at hc
    obtain rfl | rfl := hc <;> decide
  have hbinary (rest : List Char) :
      Plain (rest.take (markedRun (· == 'b') (fun c => c == '0' || c == '1') rest)) := by
    refine plain_take_markedRun rest (fun c hc => ?_) fun c hc => ?_
    · rw [beq_iff_eq] at hc
      subst hc
      decide
    · rw [Bool.or_eq_true, beq_iff_eq, beq_iff_eq] at hc
      obtain rfl | rfl := hc <;> decide
  have hhex (rest : List Char) : Plain (rest.take (markedRun (· == 'x') isHexDigit rest)) :=
    plain_take_markedRun rest (by simp [isNumeralChar]) fun _ => id
  have hzero : ∀ {b : Bool}, (text.takeWhile isAscii == ['0'] && b) = true →
      1 = (text.takeWhile isAscii).length := by
    intro b hb
    rw [Bool.and_eq_true, beq_iff_eq] at hb
    rw [hb.1]
    rfl
  unfold unsignedLength at h
  dsimp only at h
  split_ifs at h with _ _ _ hb hx
  · cases h
    refine (plain_takeWhile_isAscii.take_add (hfraction _)).take_add ?_
    rw [← List.drop_drop]
    exact hexponent _
  · cases h
    exact plain_takeWhile_isAscii.take_add (hfraction _)
  · cases h
    rw [hzero hb]
    exact plain_takeWhile_isAscii.take_add (hbinary _)
  · cases h
    rw [hzero hx]
    exact plain_takeWhile_isAscii.take_add (hhex _)
  · cases h
    exact plain_takeWhile_isAscii

theorem digit_of_unsignedLength (h : unsignedLength text = some n) :
    ∃ c rest, text = c :: rest ∧ isAscii c = true := by
  unfold unsignedLength at h
  dsimp only at h
  split at h
  next => cases h
  next he =>
    cases text with
    | nil => simp at he
    | cons c rest =>
      refine ⟨c, rest, rfl, ?_⟩
      cases hc : isAscii c with
      | true => rfl
      | false => simp [List.takeWhile, hc] at he

theorem isNumeral_of_numberLength (h : numberLength text = some n) : IsNumeral (text.take n) := by
  obtain ⟨hn, -⟩ := numberLength_bounds h
  cases text with
  | nil => cases h
  | cons c rest =>
    simp only [numberLength] at h
    split at h
    next hc =>
      obtain ⟨k, hk, rfl⟩ := Option.map_eq_some_iff.mp h
      obtain ⟨d, rest, rfl, hd⟩ := digit_of_unsignedLength hk
      obtain ⟨k, rfl⟩ :=
        Nat.exists_eq_add_one_of_ne_zero (Nat.ne_zero_of_lt (unsignedLength_bounds hk).1)
      rw [Bool.or_eq_true, beq_iff_eq, beq_iff_eq] at hc
      refine ⟨?_, ?_⟩
      · rw [List.take_succ_cons, List.forall_mem_cons]
        refine ⟨?_, plain_of_unsignedLength hk⟩
        obtain rfl | rfl := hc <;> decide
      · obtain rfl | rfl := hc
        · exact ⟨false, d, rest.take k, rfl, hd⟩
        · exact ⟨true, d, rest.take k, rfl, hd⟩
    next hc =>
      obtain ⟨d, rest, he, hd⟩ := digit_of_unsignedLength h
      cases he
      obtain ⟨k, rfl⟩ := Nat.exists_eq_add_one_of_ne_zero (Nat.ne_zero_of_lt hn)
      refine ⟨plain_of_unsignedLength h, false, c, rest.take k, ?_, hd⟩
      simp only [Bool.or_eq_true, beq_iff_eq, not_or] at hc
      rw [List.take_succ_cons, Reading.splitSign]
      · exact fun _ h => hc.2 (List.cons.inj h).1
      · exact fun _ h => hc.1 (List.cons.inj h).1

end Lexeme

def Token.Spelled (token : Token) : Prop :=
  match token.terminal with
  | .ident => IsName token.text.toList
  | .number => IsNumeral token.text.toList
  | .string => True
  | other => other.spelling? = some token.text

def Tree.Spelled (tree : Tree) : Prop := ∀ token ∈ tree.tokens, token.Spelled

namespace Tree

@[simp] theorem spelled_leaf {token : Token} : (leaf token).Spelled ↔ token.Spelled := by
  simp [Spelled, tokens]

@[simp] theorem spelled_node {production : Production} {children : List Tree} :
    (node production children).Spelled ↔ ∀ child ∈ children, child.Spelled := by
  simp only [Spelled, tokens, mem_forestTokens]
  constructor
  · intro h child hc token ht
    exact h token ⟨child, hc, ht⟩
  · rintro h token ⟨child, hc, ht⟩
    exact h child hc token ht

end Tree

namespace Derivation

variable {states : List Nat} {index n : Nat} {text : List Char} {tokens : List Token}

theorem spelled_of_terminalLength {terminal : Terminal}
    (h : Lexeme.terminalLength terminal text = some n) :
    Token.Spelled ⟨terminal, String.ofList (text.take n), index⟩ := by
  unfold Lexeme.terminalLength at h
  split at h
  next => simpa [Token.Spelled] using Lexeme.isName_of_identLength h
  next => simpa [Token.Spelled] using Lexeme.isNumeral_of_numberLength h
  next => trivial
  next =>
    obtain ⟨spelling, hs, h⟩ := Option.bind_eq_some_iff.mp h
    rw [Option.ite_none_right_eq_some, Option.some.injEq] at h
    obtain ⟨hp, rfl⟩ := h
    have ht : spelling.toList = text.take spelling.length := by
      rw [← String.length_toList]
      exact List.prefix_iff_eq_take.mp (List.isPrefixOf_iff_prefix.mp hp)
    have he : terminal.spelling? = some (String.ofList (text.take spelling.length)) := by
      rw [hs, ← ht, String.ofList_toList]
    cases terminal <;> first | exact he | cases hs

theorem Lexes.spelled (h : Lexes states index text tokens) : ∀ token ∈ tokens, token.Spelled := by
  induction h with
  | done => simp
  | trivia _ _ _ ih => exact ih
  | token hs _ _ ih =>
    obtain ⟨_, _, _, _, hl, _⟩ := hs
    rw [List.forall_mem_cons]
    exact ⟨spelled_of_terminalLength hl, ih⟩

end Derivation

theorem ofRatio_ne_nan (negative : Bool) (num den : Nat) :
    Binary64.ofRatio negative num den ≠ .nan := by
  rw [Binary64.ofRatio]
  split_ifs <;> exact Binary64.noConfusion

theorem ofDecimal_ne_nan (negative : Bool) (mantissa : Nat) (exponent : Int) :
    Reading.ofDecimal negative mantissa exponent ≠ .nan := by
  rw [Reading.ofDecimal]
  split_ifs
  · exact Binary64.noConfusion
  · exact Binary64.noConfusion
  · exact Binary64.noConfusion
  · exact ofRatio_ne_nan _ _ _

theorem toLower_of_isAscii {c : Char} (h : isAscii c = true) : c.toLower = c := by
  have hall : ∀ n < 128, isAscii (Char.ofNat n) = true →
      (Char.ofNat n).toLower = Char.ofNat n := by decide
  have hc := hall c.toNat (toNat_lt_of_isNumeralChar (isNumeralChar_of_isAscii h))
  rw [Char.ofNat_toNat] at hc
  exact hc h

variable {text rest : List Char} {negative : Bool} {c : Char}

/-- A text that starts with a digit is none of the words for special numbers. -/
theorem readSigned_of_digit (hs : Reading.splitSign text = (negative, c :: rest))
    (hc : isAscii c = true) :
    Reading.readSigned text = Reading.readUnsigned negative (c :: rest) := by
  have hword : ∀ d tail, isAscii d = false →
      (String.ofList ((c :: rest).map Char.toLower) == String.ofList (d :: tail)) = false := by
    intro d tail hd
    rw [beq_eq_false_iff_ne, ne_eq, String.ofList_inj, List.map_cons, List.cons.injEq,
      toLower_of_isAscii hc]
    rintro ⟨rfl, -⟩
    exact Bool.noConfusion (hc.symm.trans hd)
  have hi := hword 'i' ['n', 'f'] (by decide)
  have hi' := hword 'i' ['n', 'f', 'i', 'n', 'i', 't', 'y'] (by decide)
  have hn := hword 'n' ['a', 'n'] (by decide)
  rw [Reading.readSigned, hs]
  simp only [String.reduceOfList] at hi hi' hn
  simp only [hi, hi', hn, Bool.or_self, Bool.false_eq_true, if_false]

theorem Integer.text_eq_withSign (n : Int) :
    Integer.text n = Binary64.withSign (decide (n < 0)) (Nat.toDigits 10 n.natAbs) := by
  simp [Integer.text, Binary64.withSign]

theorem readSigned_withSign (hc : isAscii c = true) (negative : Bool) :
    Reading.readSigned (Binary64.withSign negative (c :: rest)).toList =
      Reading.readUnsigned negative (c :: rest) := by
  rw [Binary64.withSign, String.toList_ofList]
  cases negative with
  | true => exact readSigned_of_digit rfl hc
  | false => exact readSigned_of_digit (splitSign_of_digit hc) hc

theorem plain_withSign (h : ∀ d ∈ text, isNumeralChar d = true) (negative : Bool) :
    ∀ d ∈ (Binary64.withSign negative text).toList, isNumeralChar d = true := by
  rw [Binary64.withSign, String.toList_ofList]
  cases negative with
  | true => exact List.forall_mem_cons.mpr ⟨by decide, h⟩
  | false => exact h

theorem float?_withSign (h : ∀ d ∈ c :: rest, isNumeralChar d = true) (hc : isAscii c = true)
    (negative : Bool) : Reading.float? (Binary64.withSign negative (c :: rest)) =
      Reading.readUnsigned negative (c :: rest) := by
  rw [float?_eq_readSigned (plain_withSign h negative), readSigned_withSign hc]

theorem readUnsigned_ne_nan : Reading.readUnsigned negative text ≠ some .nan := by
  rw [Reading.readUnsigned]
  split
  split
  split_ifs
  · exact nofun
  · rw [ne_eq, Option.map_eq_some_iff]
    rintro ⟨exponent, -, h⟩
    exact ofDecimal_ne_nan _ _ _ h

theorem float?_ne_nan {text : String} (h : IsNumeral text.toList) :
    Reading.float? text ≠ some .nan := by
  obtain ⟨negative, c, rest, hs, hc⟩ := h.digit
  rw [float?_eq_readSigned h.plain, readSigned_of_digit hs hc]
  exact readUnsigned_ne_nan

end ScriptLang
