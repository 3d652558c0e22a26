import ScriptLang.Proofs.Syntax.Rendering
import ScriptLang.Proofs.Syntax.Tokens

/-! # Legible words

A word that is followed by a blank or by nothing is read as one token, whatever else the state
admits: keywords and names end where the word ends, no mark is the beginning of a longer one, a
sign with a blank after it starts no number and a slash starts no comment.
-/

namespace ScriptLang

open DecimalDigit Lexeme

def Ends (rest : List Char) : Prop := ∀ c ∈ rest.head?, c = ' '

/-- Words that are read as they were meant. -/
inductive Word.Legible : Word → Prop where
  | fixed {terminal : Terminal} : terminal ∈ Terminal.fixed → Legible (.fixed terminal)
  | name {text : String} : IsName text.toList → Legible (.name text)
  | number {text : String} :
      (∀ rest, Ends rest → numberLength (text.toList ++ rest) = some text.length) →
      Legible (.number, text)
  | string {text : String} :
      (∀ rest, stringLength (text.toList ++ rest) = some text.length) → Legible (.string, text)

variable {text rest : List Char} {accepts : Terminal → Bool}

theorem takeWhile_append_of_ends {p : Char → Bool} (hp : p ' ' = false)
    (h : ∀ c ∈ text, p c = true) (he : Ends rest) : (text ++ rest).takeWhile p = text := by
  rw [List.takeWhile_append_of_pos h]
  cases rest with
  | nil => simp
  | cons c rest =>
    obtain rfl : c = ' ' := he c rfl
    simp [hp]

theorem identLength_of_takeWhile {c : Char} {word : List Char}
    (h : text.takeWhile isWordChar = c :: word) : identLength text =
      if isAscii c || reserved.contains (String.ofList (c :: word)) then none
      else some (c :: word).length := by
  unfold identLength
  rw [h]

theorem identLength_of_isName (h : IsName text) (he : Ends rest) :
    identLength (text ++ rest) = some text.length := by
  have hw : (text ++ rest).takeWhile isWordChar = text :=
    takeWhile_append_of_ends (by decide) h.word he
  cases text with
  | nil => exact absurd rfl h.ne_nil
  | cons c text =>
    have hd := h.first c rfl
    have hf : reserved.contains (String.ofList (c :: text)) = false := by
      rw [List.contains_eq_mem, decide_eq_false h.free]
    rw [identLength_of_takeWhile hw, hd, hf, Bool.or_self, if_neg Bool.false_ne_true]

theorem identLength_eq_none {c : Char} (h : isWordChar c = false ∨ isAscii c = true) :
    identLength (c :: rest) = none := by
  cases hw : isWordChar c with
  | false => simp [identLength, hw]
  | true =>
    obtain h | h := h
    · rw [hw] at h
      cases h
    · have ht : (c :: rest).takeWhile isWordChar = c :: rest.takeWhile isWordChar :=
        List.takeWhile_cons_of_pos hw
      rw [identLength_of_takeWhile ht, h, Bool.true_or, if_pos rfl]

theorem identLength_of_reserved (h : String.ofList text ∈ reserved)
    (hw : ∀ c ∈ text, isWordChar c = true) (he : Ends rest) :
    identLength (text ++ rest) = none := by
  have ht : (text ++ rest).takeWhile isWordChar = text :=
    takeWhile_append_of_ends (by decide) hw he
  cases text with
  | nil => exact absurd h (by decide)
  | cons c text =>
    have hf : reserved.contains (String.ofList (c :: text)) = true := by
      rw [List.contains_eq_mem, decide_eq_true h]
    rw [identLength_of_takeWhile ht, hf, Bool.or_true, if_pos rfl]

theorem unsignedLength_eq_none (h : ∀ c ∈ text.head?, isAscii c = false) :
    unsignedLength text = none := by
  cases text with
  | nil => simp [unsignedLength]
  | cons c text =>
    have hc : isAscii c = false := h c rfl
    simp [unsignedLength, hc]

theorem numberLength_eq_none {c : Char} (h : isAscii c = false)
    (hs : c = '+' ∨ c = '-' → Ends rest) : numberLength (c :: rest) = none := by
  simp only [numberLength]
  split
  · rename_i hc
    have he : Ends rest := hs (by simpa using hc)
    rw [unsignedLength_eq_none, Option.map_none]
    intro d hd
    rw [he d hd]
    decide
  · exact unsignedLength_eq_none (by simpa using h)

/-- The facts about a fixed word that can be checked by looking at it. -/
structure IsFixed (first : Char) (tail : List Char) : Prop where
  word : (first :: tail).all isWordChar = true ∧ String.ofList (first :: tail) ∈ reserved ∨
    isWordChar first = false
  digit : isAscii first = false
  sign : first = '+' ∨ first = '-' → tail = []
  quote : first ≠ '"'
  blank : isBlank first = false
  slash : first = '/' → tail = []
  free : ' ' ∉ first :: tail

theorem isFixed_of_mem {terminal : Terminal} (h : terminal ∈ Terminal.fixed) :
    ∃ c tail, terminal.spelling? = some (String.ofList (c :: tail)) ∧ IsFixed c tail := by
  simp only [Terminal.fixed, List.mem_cons, List.not_mem_nil, or_false] at h
  rcases h with rfl | rfl | rfl | rfl | rfl | rfl | rfl | rfl | rfl | rfl | rfl | rfl | rfl | rfl |
    rfl | rfl | rfl | rfl | rfl | rfl | rfl | rfl | rfl | rfl | rfl | rfl | rfl | rfl | rfl | rfl |
    rfl | rfl | rfl
  all_goals
    refine ⟨_, _, rfl, ?_⟩
    constructor <;> decide

theorem mem_fixed_of_isSome {terminal : Terminal} (h : terminal.spelling?.isSome = true) :
    terminal ∈ Terminal.fixed := by
  cases terminal with
  | ident => cases h
  | number => cases h
  | string => cases h
  | endOfInput => cases h
  | _ => decide

/-- What stands at the beginning of a text in two parts, and has nothing of what the second part
starts with, stands in the first one. -/
theorem prefix_of_prefix_append {front word : List Char} (h : front <+: word ++ rest)
    (hf : ∀ c ∈ rest.head?, c ∉ front) : front <+: word := by
  obtain hle | hle := Nat.le_total front.length word.length
  · exact List.prefix_of_prefix_length_le h (List.prefix_append word rest) hle
  · obtain ⟨more, rfl⟩ := List.prefix_of_prefix_length_le (List.prefix_append word rest) h hle
    obtain ⟨after, rfl⟩ := (List.prefix_append_right_inj word).mp h
    cases more with
    | nil => simp
    | cons c more => exact absurd (by simp) (hf c rfl)

theorem terminalLength_fixed {terminal : Terminal} (h : terminal ∈ Terminal.fixed) :
    terminalLength terminal text = terminal.spelling?.bind fun spelling =>
      if spelling.toList.isPrefixOf text then some spelling.length else none := by
  unfold terminalLength
  split
  · exact absurd h (by decide)
  · exact absurd h (by decide)
  · exact absurd h (by decide)
  · rfl

/-- The fixed words that are tried before another one are no beginnings of it. -/
theorem fixed_pairwise : Terminal.fixed.Pairwise fun earlier later =>
    ∀ front ∈ earlier.spelling?, ∀ word ∈ later.spelling?, ¬front.toList <+: word.toList := by
  decide

/-- Nothing but a fixed word stands where one stands. -/
theorem IsFixed.length?_eq_none {c : Char} {word : List Char} (h : IsFixed c word)
    (he : Ends rest) : identLength (c :: word ++ rest) = none ∧
      numberLength (c :: word ++ rest) = none ∧ stringLength (c :: word ++ rest) = none ∧
      blockLength (c :: word ++ rest) = none ∧ lineLength (c :: word ++ rest) = none ∧
      blanksLength (c :: word ++ rest) = none := by
  have hslash : c = '/' → ∀ d ∈ (word ++ rest).head?, d = ' ' := by
    rintro rfl d hd
    rw [h.slash rfl] at hd
    exact he d hd
  refine ⟨?_, ?_, ?_, ?_, ?_, ?_⟩
  · obtain ⟨hw, hr⟩ | hw := h.word
    · exact identLength_of_reserved hr (List.all_eq_true.mp hw) he
    · exact identLength_eq_none (.inl hw)
  · refine numberLength_eq_none h.digit fun hc => ?_
    rw [h.sign hc]
    exact he
  · unfold stringLength
    split
    · rename_i heq
      exact absurd (List.cons.inj heq).1 h.quote
    · rfl
  · unfold blockLength
    split
    · rename_i heq
      rw [List.cons_append, List.cons.injEq] at heq
      exact absurd (hslash heq.1 '*' (by rw [heq.2]; rfl)) (by decide)
    · rfl
  · unfold lineLength
    split
    · rename_i heq
      rw [List.cons_append, List.cons.injEq] at heq
      exact absurd (hslash heq.1 '/' (by rw [heq.2]; rfl)) (by decide)
    · rfl
  · have hb := h.blank
    simp [blanksLength, hb]

theorem terminalLength_earlier {earlier terminal : Terminal} {spelling : String}
    (hm : earlier ∈ Terminal.fixed) (hs : terminal.spelling? = some spelling)
    (hf : ∀ front ∈ earlier.spelling?, ∀ word ∈ terminal.spelling?, ¬front.toList <+: word.toList)
    (he : Ends rest) : terminalLength earlier (spelling.toList ++ rest) = none := by
  obtain ⟨c, word, hw, hfixed⟩ := isFixed_of_mem hm
  rw [terminalLength_fixed hm, hw, Option.bind_some, if_neg]
  rw [List.isPrefixOf_iff_prefix]
  intro hp
  apply hf _ hw _ hs (prefix_of_prefix_append hp _)
  intro d hd
  rw [he d hd, String.toList_ofList]
  exact hfixed.free

theorem standsFirst_fixed {terminal : Terminal} {spelling : String}
    (hm : terminal ∈ Terminal.fixed) (hs : terminal.spelling? = some spelling)
    (ha : accepts terminal = true) (he : Ends rest) :
    StandsFirst accepts (spelling.toList ++ rest) (.token terminal) spelling.length := by
  obtain ⟨c, word, hw, hf⟩ := isFixed_of_mem hm
  obtain ⟨before, after, hsplit⟩ := List.append_of_mem hm
  obtain ⟨-, -, hpairs⟩ := List.pairwise_append.mp (hsplit ▸ fixed_pairwise)
  obtain rfl : spelling = String.ofList (c :: word) := Option.some.inj (hs.symm.trans hw)
  obtain ⟨hident, hnumber, hstring, hblock, hline, hblanks⟩ := hf.length?_eq_none he
  refine ⟨[.token .ident, .token .number, .token .string, .blockComment, .lineComment, .blanks] ++
    before.map token, after.map token, ?_, ha, ?_, ?_⟩
  · rw [order, hsplit]
    simp
  · simp [length?, terminalLength_fixed hm, hs]
  · intro other ho _
    rw [List.mem_append] at ho
    obtain ho | ho := ho
    · simp only [List.mem_cons, List.not_mem_nil, or_false] at ho
      obtain rfl | rfl | rfl | rfl | rfl | rfl := ho
      all_goals simpa [length?, terminalLength]
    · obtain ⟨earlier, hmem, rfl⟩ := List.mem_map.mp ho
      have hmf : earlier ∈ Terminal.fixed := hsplit ▸ List.mem_append_left _ hmem
      exact terminalLength_earlier hmf hs (hpairs earlier hmem terminal List.mem_cons_self) he

theorem identLength_of_numberLength {n : Nat} (h : numberLength text = some n) :
    identLength text = none := by
  cases text with
  | nil => cases h
  | cons c rest =>
    refine identLength_eq_none ?_
    simp only [numberLength] at h
    split at h
    · rename_i hc
      rw [Bool.or_eq_true, beq_iff_eq, beq_iff_eq] at hc
      refine .inl ?_
      obtain rfl | rfl := hc <;> decide
    · obtain ⟨_, _, hcons, hd⟩ := digit_of_unsignedLength h
      cases hcons
      exact .inr hd

theorem eq_quote_of_stringLength {n : Nat} (h : stringLength text = some n) :
    ∃ rest, text = '"' :: rest := by
  unfold stringLength at h
  split at h
  · exact ⟨_, rfl⟩
  · cases h

theorem standsFirst_number {n : Nat} (ha : accepts .number = true)
    (h : numberLength text = some n) : StandsFirst accepts text (.token .number) n := by
  refine ⟨[.token .ident], _, rfl, ha, h, fun other ho _ => ?_⟩
  obtain rfl := List.mem_singleton.mp ho
  exact identLength_of_numberLength h

theorem standsFirst_string {n : Nat} (ha : accepts .string = true)
    (h : stringLength text = some n) : StandsFirst accepts text (.token .string) n := by
  obtain ⟨tail, rfl⟩ := eq_quote_of_stringLength h
  refine ⟨[.token .ident, .token .number], _, rfl, ha, h, fun other ho _ => ?_⟩
  simp only [List.mem_cons, List.not_mem_nil, or_false] at ho
  obtain rfl | rfl := ho
  · show identLength ('"' :: tail) = none
    exact identLength_eq_none (.inl (by decide))
  · show numberLength ('"' :: tail) = none
    exact numberLength_eq_none (by decide) (by simp)

/-- A legible word in front of a blank or the end is the first lexeme wherever it is admitted. -/
theorem Word.Legible.standsFirst {word : Word} (h : word.Legible) (ha : accepts word.1 = true)
    (he : Ends rest) :
    StandsFirst accepts (word.2.toList ++ rest) (.token word.1) word.2.length := by
  cases h with
  | @fixed terminal hm =>
    obtain ⟨c, tail, hs, -⟩ := isFixed_of_mem hm
    have hw : (Word.fixed terminal).2 = String.ofList (c :: tail) := by simp [Word.fixed, hs]
    rw [hw]
    exact standsFirst_fixed hm hs ha he
  | @name text hn =>
    refine ⟨[], _, rfl, ha, ?_, by simp⟩
    show identLength (text.toList ++ rest) = some text.length
    rw [identLength_of_isName hn he, String.length_toList]
  | number hn => exact standsFirst_number ha (hn rest he)
  | string hs => exact standsFirst_string ha (hs rest)

end ScriptLang
