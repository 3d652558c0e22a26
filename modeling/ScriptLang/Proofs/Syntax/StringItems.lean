import Mathlib.Data.List.Forall2
import ScriptLang.Proofs.Syntax.NumberForms

/-! # The items of string literals

Between its quotes a string literal is a sequence of items: raw characters, escapes of one letter
and escapes of four digits. Recognising a literal and decoding it split it in the same way, and
there is only one, so every item stands for its own character and nothing that was decoded is looked
at again.
-/

namespace ScriptLang

open DecimalDigit Lexeme

inductive ShortEscape where
  | quote | backslash | lineFeed | carriageReturn | tab

namespace ShortEscape

def letter : ShortEscape → Char
  | quote => '"'
  | backslash => '\\'
  | lineFeed => 'n'
  | carriageReturn => 'r'
  | tab => 't'

def char : ShortEscape → Char
  | quote => '"'
  | backslash => '\\'
  | lineFeed => '\n'
  | carriageReturn => '\r'
  | tab => '\t'

theorem letter_injective : Function.Injective letter := by
  intro escape other h
  cases escape <;> cases other <;> simp_all [letter]

theorem letter_ne_u (escape : ShortEscape) : escape.letter ≠ 'u' := by
  cases escape <;> decide

end ShortEscape

/-- What a string literal consists of between its quotes. -/
inductive StringItem where
  | raw (c : Char) (free : c ≠ '"' ∧ c ≠ '\\')
  | short (escape : ShortEscape)
  | code (a b c d : Char) (hex : [a, b, c, d].all isHexDigit = true)

namespace StringItem

def text : StringItem → List Char
  | raw c _ => [c]
  | short escape => ['\\', escape.letter]
  | code a b c d _ => ['\\', 'u', a, b, c, d]

def codePoint : StringItem → Nat
  | raw c _ => c.toNat
  | short escape => escape.char.toNat
  | code a b c d _ => positionalValue 16 [a, b, c, d]

def Denotes (item : StringItem) (c : Char) : Prop := item.codePoint = c.toNat

def isSurrogate (item : StringItem) : Bool :=
  0xD800 ≤ item.codePoint && item.codePoint ≤ 0xDFFF

def inside (items : List StringItem) : List Char := items.flatMap text

def quoted (items : List StringItem) : List Char := '"' :: (inside items ++ ['"'])

variable {item other : StringItem} {items others : List StringItem} {c : Char}
  {back back' chars : List Char} {n : Nat}

@[simp] theorem inside_nil : inside [] = [] := rfl

@[simp] theorem inside_cons (item : StringItem) (items : List StringItem) :
    inside (item :: items) = item.text ++ inside items := rfl

theorem stringTail_item (item : StringItem) (back : List Char) :
    stringTail (item.text ++ back) = (stringTail back).map (· + item.text.length) := by
  cases item with
  | raw c free => exact stringTail_cons free.1 free.2
  | short escape => cases escape <;> rfl
  | code a b c d hex =>
    show stringTail ('\\' :: 'u' :: a :: b :: c :: d :: back) = _
    rw [stringTail, if_pos hex]
    rfl

theorem stringTail_inside (items : List StringItem) (back : List Char) :
    stringTail (inside items ++ '"' :: back) = some ((inside items).length + 1) := by
  induction items with
  | nil => rfl
  | cons item items ih =>
    rw [inside_cons, List.append_assoc, stringTail_item, ih, Option.map_some, List.length_append]
    congr 1
    omega

theorem exists_inside {text : List Char} (h : stringTail text = some n) :
    ∃ items, text.take n = inside items ++ ['"'] := by
  fun_induction stringTail text generalizing n with
  | case1 => cases h
  | case2 rest =>
    cases h
    exact ⟨[], rfl⟩
  | case3 a b c d rest hex ih =>
    obtain ⟨k, hk, rfl⟩ := Option.map_eq_some_iff.mp h
    obtain ⟨items, hitems⟩ := ih hk
    exact ⟨code a b c d hex :: items, by simp [hitems, text]⟩
  | case4 => cases h
  | case5 c rest _ hc ih =>
    obtain ⟨k, hk, rfl⟩ := Option.map_eq_some_iff.mp h
    obtain ⟨items, hitems⟩ := ih hk
    obtain ⟨escape, rfl⟩ : ∃ escape : ShortEscape, c = escape.letter := by
      simp only [List.contains_eq_mem, decide_eq_true_eq, List.mem_cons, List.not_mem_nil,
        or_false] at hc
      rcases hc with rfl | rfl | rfl | rfl | rfl
      · exact ⟨.quote, rfl⟩
      · exact ⟨.backslash, rfl⟩
      · exact ⟨.lineFeed, rfl⟩
      · exact ⟨.carriageReturn, rfl⟩
      · exact ⟨.tab, rfl⟩
    exact ⟨short escape :: items, by simp [hitems, text]⟩
  | case6 => cases h
  | case7 => cases h
  | case8 c rest hq _ _ hs ih =>
    obtain ⟨k, hk, rfl⟩ := Option.map_eq_some_iff.mp h
    obtain ⟨items, hitems⟩ := ih hk
    exact ⟨raw c ⟨hq, by simpa using hs⟩ :: items, by simp [hitems, text]⟩

theorem stringLength_eq_some_iff {text : List Char} :
    stringLength text = some n ↔ n ≤ text.length ∧ ∃ items, text.take n = quoted items := by
  constructor
  · intro h
    refine ⟨(stringLength_bounds h).2, ?_⟩
    obtain ⟨tail, rfl⟩ := eq_quote_of_stringLength h
    obtain ⟨k, hk, rfl⟩ := Option.map_eq_some_iff.mp h
    obtain ⟨items, hitems⟩ := exists_inside hk
    exact ⟨items, by rw [List.take_succ_cons, hitems, quoted]⟩
  · rintro ⟨hn, items, htake⟩
    have hlength : n = (inside items).length + 2 := by
      rw [← List.length_take_of_le hn, htake]
      simp [quoted]
    rw [← List.take_append_drop n text, htake, quoted, List.cons_append, List.append_assoc,
      stringLength, List.singleton_append, stringTail_inside, hlength]
    rfl

theorem text_append_inj (h : item.text ++ back = other.text ++ back') :
    item = other ∧ back = back' := by
  cases item with
  | raw c free =>
    cases other with
    | raw d free' =>
      obtain ⟨rfl, rfl⟩ := List.cons.inj h
      exact ⟨rfl, rfl⟩
    | short | code => exact absurd (List.cons.inj h).1 free.2
  | short escape =>
    cases other with
    | raw d free => exact absurd (List.cons.inj h).1.symm free.2
    | short escape' =>
      obtain ⟨hletter, hback⟩ := List.cons.inj (List.cons.inj h).2
      exact ⟨congrArg short (ShortEscape.letter_injective hletter), hback⟩
    | code => exact absurd (List.cons.inj (List.cons.inj h).2).1 escape.letter_ne_u
  | code a b c d hex =>
    cases other with
    | raw e free => exact absurd (List.cons.inj h).1.symm free.2
    | short escape =>
      exact absurd (List.cons.inj (List.cons.inj h).2).1.symm escape.letter_ne_u
    | code => simpa [text, and_assoc] using h

theorem text_append_ne_quote (item : StringItem) (back back' : List Char) :
    item.text ++ back ≠ '"' :: back' := by
  intro h
  cases item with
  | raw c free => exact free.1 (List.cons.inj h).1
  | short | code => exact absurd (List.cons.inj h).1 (by decide)

theorem inside_append_inj (h : inside items ++ '"' :: back = inside others ++ '"' :: back') :
    items = others ∧ back = back' := by
  induction items generalizing others with
  | nil =>
    cases others with
    | nil => exact ⟨rfl, (List.cons.inj h).2⟩
    | cons other others =>
      rw [inside_cons, List.append_assoc] at h
      exact absurd h.symm (text_append_ne_quote other _ _)
  | cons item items ih =>
    cases others with
    | nil =>
      rw [inside_cons, List.append_assoc] at h
      exact absurd h (text_append_ne_quote item _ _)
    | cons other others =>
      rw [inside_cons, inside_cons, List.append_assoc, List.append_assoc] at h
      obtain ⟨rfl, hrest⟩ := text_append_inj h
      obtain ⟨rfl, rfl⟩ := ih hrest
      exact ⟨rfl, rfl⟩

theorem quoted_injective : Function.Injective quoted := fun _ _ h =>
  (inside_append_inj (List.cons.inj h).2).1

theorem first_eq_string_iff {accepts : Terminal → Bool} {text : List Char} :
    first accepts text = some (.token .string, n) ↔
      accepts .string = true ∧ n ≤ text.length ∧ ∃! items, text.take n = quoted items := by
  have hunique : (∃ items, text.take n = quoted items) ↔ ∃! items, text.take n = quoted items := by
    refine ⟨fun ⟨items, h⟩ => ⟨items, h, fun others ho => ?_⟩, ExistsUnique.exists⟩
    exact quoted_injective (ho.symm.trans h)
  rw [← hunique, ← stringLength_eq_some_iff]
  exact first_eq_iff_length? rfl

theorem codePoint_code_lt {a b c d : Char} (hex : [a, b, c, d].all isHexDigit = true) :
    (code a b c d hex).codePoint < 0x10000 := by
  have hlt : ∀ value ∈ [a, b, c, d].reverse.map valueIn, value < 16 := by
    intro value hvalue
    obtain ⟨e, he, rfl⟩ := List.mem_map.mp hvalue
    have hdigit := isDigitIn_sixteen (List.all_eq_true.mp hex e (List.mem_reverse.mp he))
    rw [Reading.isDigitIn, Bool.and_eq_true, decide_eq_true_eq] at hdigit
    exact hdigit.2
  exact (Nat.ofDigits_lt_base_pow_length (by decide) hlt).trans_eq (by simp)

theorem isSurrogate_of_denotes (h : item.Denotes c) : item.isSurrogate = false := by
  have hvalid : c.toNat.isValidChar := c.valid
  rw [Denotes] at h
  simp only [isSurrogate, h, Bool.and_eq_false_iff, decide_eq_false_iff_not]
  unfold Nat.isValidChar at hvalid
  omega

theorem denotes_ofNat (h : item.isSurrogate = false) :
    item.Denotes (Char.ofNat item.codePoint) := by
  cases item with
  | raw c free => rw [Denotes, codePoint, Char.ofNat_toNat]
  | short escape => rw [Denotes, codePoint, Char.ofNat_toNat]
  | code a b c d hex =>
    have hlt := codePoint_code_lt hex
    have hvalid : (code a b c d hex).codePoint.isValidChar := by
      simp only [isSurrogate, Bool.and_eq_false_iff, decide_eq_false_iff_not] at h
      unfold Nat.isValidChar
      omega
    rw [Denotes, Char.ofNat, dif_pos hvalid]
    rfl

theorem denotes_iff (h : item.isSurrogate = false) :
    item.Denotes c ↔ c = Char.ofNat item.codePoint := by
  constructor
  · intro hc
    rw [hc, Char.ofNat_toNat]
  · rintro rfl
    exact denotes_ofNat h

/-- An item is decoded by itself, whatever comes after it. -/
theorem unescape_item (item : StringItem) (back : List Char) :
    Literal.unescape (item.text ++ back) =
      if item.isSurrogate then .error (.surrogate (String.ofList item.text.tail))
      else Literal.prepend (Char.ofNat item.codePoint) (Literal.unescape back) := by
  cases item with
  | raw c free =>
    have hdenotes : (raw c free).Denotes c := rfl
    rw [isSurrogate_of_denotes hdenotes, if_neg Bool.false_ne_true, codePoint, Char.ofNat_toNat]
    exact unescape_cons free.2 back
  | short escape => cases escape <;> rfl
  | code a b c d hex =>
    show Literal.unescape ('\\' :: 'u' :: a :: b :: c :: d :: back) = _
    rw [Literal.unescape, if_pos hex, valueOf_eq_positionalValue]
    rfl

theorem unescape_inside_eq_ok_iff :
    Literal.unescape (inside items) = .ok chars ↔ List.Forall₂ Denotes items chars := by
  induction items generalizing chars with
  | nil =>
    rw [List.forall₂_nil_left_iff]
    exact ⟨fun h => (Except.ok.inj h).symm, fun h => h ▸ rfl⟩
  | cons item items ih =>
    rw [inside_cons, unescape_item, List.forall₂_cons_left_iff]
    by_cases hs : item.isSurrogate = true
    · rw [if_pos hs]
      refine iff_of_false nofun ?_
      rintro ⟨c, _, hc, -⟩
      exact Bool.noConfusion (hs.symm.trans (isSurrogate_of_denotes hc))
    · rw [if_neg hs]
      have hdenotes {c : Char} := denotes_iff (c := c) (Bool.eq_false_iff.mpr hs)
      simp only [hdenotes, ← ih]
      cases Literal.unescape (inside items) with
      | error => simp [Literal.prepend, Except.map]
      | ok text => simp [Literal.prepend, Except.map, eq_comm]

theorem unescape_inside_eq_error_iff {error : LiteralError} :
    Literal.unescape (inside items) = .error error ↔ ∃ item, items.find? isSurrogate = some item ∧
      error = .surrogate (String.ofList item.text.tail) := by
  induction items with
  | nil => exact iff_of_false nofun nofun
  | cons item items ih =>
    rw [inside_cons, unescape_item]
    by_cases hs : item.isSurrogate = true
    · simp [hs, eq_comm]
    · rw [if_neg hs, List.find?_cons_of_neg hs, ← ih]
      cases Literal.unescape (inside items) with
      | error => simp [Literal.prepend, Except.map]
      | ok text => simp [Literal.prepend, Except.map]

theorem string_quoted (items : List StringItem) :
    Literal.string (String.ofList (quoted items)) =
      (Literal.unescape (inside items)).map String.ofList := by
  simp [Literal.string, quoted]

theorem string_quoted_eq_ok_iff {value : String} :
    Literal.string (String.ofList (quoted items)) = .ok value ↔
      List.Forall₂ Denotes items value.toList := by
  rw [string_quoted, ← unescape_inside_eq_ok_iff]
  cases Literal.unescape (inside items) with
  | error => simp [Except.map]
  | ok chars => simp [Except.map, String.ext_iff]

/-- Only a code may be a surrogate, for raw characters and short escapes are characters. -/
theorem exists_code_of_isSurrogate (h : item.isSurrogate = true) :
    ∃ a b c d hex, item = code a b c d hex := by
  have hdenotes {c : Char} (hc : item.Denotes c) : False :=
    Bool.noConfusion (h.symm.trans (isSurrogate_of_denotes hc))
  cases item with
  | raw c free => exact (hdenotes rfl).elim
  | short escape => exact (hdenotes rfl).elim
  | code a b c d hex => exact ⟨a, b, c, d, hex, rfl⟩

theorem string_quoted_eq_error_iff {error : LiteralError} :
    Literal.string (String.ofList (quoted items)) = .error error ↔
      ∃ a b c d hex, items.find? isSurrogate = some (code a b c d hex) ∧
        error = .surrogate (String.ofList ['u', a, b, c, d]) := by
  have herror : Literal.string (String.ofList (quoted items)) = .error error ↔
      Literal.unescape (inside items) = .error error := by
    rw [string_quoted]
    cases Literal.unescape (inside items) with
    | error => simp [Except.map]
    | ok chars => simp [Except.map]
  rw [herror, unescape_inside_eq_error_iff]
  constructor
  · rintro ⟨item, hfind, rfl⟩
    obtain ⟨a, b, c, d, hex, rfl⟩ := exists_code_of_isSurrogate (List.find?_some hfind)
    exact ⟨a, b, c, d, hex, hfind, rfl⟩
  · rintro ⟨a, b, c, d, hex, hfind, rfl⟩
    exact ⟨_, hfind, rfl⟩

end StringItem

open StringItem

/-- A string token is split into items in one way, and its text has the character of each item in
order, or names the first surrogate among them. -/
theorem string_tokens_exact :
    (∀ (accepts : Terminal → Bool) (text : List Char) (n : Nat),
      first accepts text = some (.token .string, n) ↔
        accepts .string = true ∧ n ≤ text.length ∧ ∃! items, text.take n = quoted items) ∧
      ∀ items : List StringItem,
        (∀ value : String, Literal.string (String.ofList (quoted items)) = .ok value ↔
          List.Forall₂ Denotes items value.toList) ∧
        ∀ error : LiteralError, Literal.string (String.ofList (quoted items)) = .error error ↔
          ∃ a b c d hex, items.find? isSurrogate = some (code a b c d hex) ∧
            error = .surrogate (String.ofList ['u', a, b, c, d]) := by
  constructor
  · intro accepts text n
    exact first_eq_string_iff
  · intro items
    exact ⟨fun _ => string_quoted_eq_ok_iff, fun _ => string_quoted_eq_error_iff⟩

end ScriptLang
