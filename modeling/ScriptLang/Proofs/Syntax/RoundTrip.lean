import ScriptLang.Proofs.Syntax.Deriving

/-! # Parsing what was rendered

The text of a well-formed program parses back to the program, and parsing gives nothing but
well-formed programs.
-/

namespace ScriptLang

open Derivation Lexeme

variable {words : List Word} {stack : Stack} {index : Nat} {tree : Tree} {program : Node}

/-- The tokens of words that stand one space apart, from a given index on. -/
def placed (index : Nat) : List Word → List Token
  | [] => []
  | (terminal, text) :: words => ⟨terminal, text, index⟩ :: placed (index + text.length + 1) words

theorem map_word_placed (index : Nat) (words : List Word) :
    (placed index words).map Token.word = words := by
  induction words generalizing index with
  | nil => rfl
  | cons word words ih => simp [placed, Token.word, ih]

def spaced : List Word → List Char
  | [] => []
  | word :: words => ' ' :: (word.2.toList ++ spaced words)

theorem ends_spaced (words : List Word) : Ends (spaced words) := by
  cases words with
  | nil => simp [Ends, spaced]
  | cons word words => simp [Ends, spaced]

theorem isBlank_of_isWordChar {c : Char} (h : isWordChar c = true) : isBlank c = false := by
  cases hb : isBlank c with
  | false => rfl
  | true =>
    simp only [isBlank, Bool.or_eq_true, beq_iff_eq] at hb
    obtain ((rfl | rfl) | rfl) | rfl := hb
    all_goals exact absurd h (by decide)

theorem isBlank_of_isNumeralChar {c : Char} (h : isNumeralChar c = true) : isBlank c = false := by
  cases hb : isBlank c with
  | false => rfl
  | true =>
    simp only [isBlank, Bool.or_eq_true, beq_iff_eq] at hb
    obtain ((rfl | rfl) | rfl) | rfl := hb
    all_goals exact absurd h (by decide)

theorem Word.Legible.head {word : Word} (h : word.Legible) :
    ∃ c tail, word.2.toList = c :: tail ∧ isBlank c = false := by
  cases h with
  | @fixed terminal hm =>
    obtain ⟨c, tail, hs, hf⟩ := isFixed_of_mem hm
    exact ⟨c, tail, by simp [Word.fixed, hs], hf.blank⟩
  | @name text hn =>
    obtain ⟨c, tail, ht⟩ := List.exists_cons_of_ne_nil hn.ne_nil
    exact ⟨c, tail, ht, isBlank_of_isWordChar (hn.word c (ht ▸ List.mem_cons_self))⟩
  | @number text hn =>
    have hl := hn [] (by simp [Ends])
    rw [List.append_nil] at hl
    have hp := (isNumeral_of_numberLength hl).plain
    rw [← String.length_toList, List.take_length] at hp
    cases ht : text.toList with
    | nil =>
      rw [ht] at hl
      cases hl
    | cons c tail => exact ⟨c, tail, rfl, isBlank_of_isNumeralChar (hp c (ht ▸ List.mem_cons_self))⟩
  | @string text hs =>
    obtain ⟨tail, ht⟩ := eq_quote_of_stringLength (hs [])
    rw [List.append_nil] at ht
    exact ⟨'"', tail, ht, by decide⟩

theorem standsFirst_blank {accepts : Terminal → Bool} {c : Char} {rest : List Char}
    (h : isBlank c = false) : StandsFirst accepts (' ' :: c :: rest) .blanks 1 := by
  refine ⟨[.token .ident, .token .number, .token .string, .blockComment, .lineComment],
    Terminal.fixed.map token, rfl, rfl, ?_, ?_⟩
  · have hs : isBlank ' ' = true := by decide
    simp [length?, blanksLength, hs, h]
  · intro other ho _
    simp only [List.mem_cons, List.not_mem_nil, or_false] at ho
    obtain rfl | rfl | rfl | rfl | rfl := ho
    · show identLength (' ' :: c :: rest) = none
      exact identLength_eq_none (.inl (by decide))
    · show numberLength (' ' :: c :: rest) = none
      exact numberLength_eq_none (by decide) (by simp)
    · rfl
    · rfl
    · rfl

theorem Shifts.accepts {token : Token} {stack' : Stack} (h : Shifts token stack stack') :
    Table.accepts (state stack) token.terminal = true := by
  cases h with
  | shift ha => simp [Table.accepts, ha]
  | reduce ha _ _ => simp [Table.accepts, ha]

theorem lexes_first {token : Token} {stack' : Stack} {rest : List Char} {tokens : List Token}
    (hf : StandsFirst (Table.accepts (state stack)) (token.text.toList ++ rest)
      (.token token.terminal) token.text.length) (hs : Shifts token stack stack')
    (hr : Lexes (path stack') (token.index + token.text.length) rest tokens) :
    Lexes (path stack) token.index (token.text.toList ++ rest) (token :: tokens) := by
  have ht : (token.text.toList ++ rest).take token.text.length = token.text.toList := by
    rw [← String.length_toList, List.take_left]
  have hd : (token.text.toList ++ rest).drop token.text.length = rest := by
    rw [← String.length_toList, List.drop_left]
  have hl := Lexes.token (headD_path stack ▸ hf) hs.takes (hd ▸ hr)
  rwa [ht, String.ofList_toList] at hl

theorem lexes_word {word : Word} {stack' : Stack} {rest : List Char} {tokens : List Token}
    (hw : word.Legible) (he : Ends rest) (hs : Shifts ⟨word.1, word.2, index⟩ stack stack')
    (hr : Lexes (path stack') (index + word.2.length) rest tokens) :
    Lexes (path stack) index (word.2.toList ++ rest) (⟨word.1, word.2, index⟩ :: tokens) :=
  lexes_first (hw.standsFirst (Shifts.accepts hs) he) hs hr

/-- Tokens that the machine reads are what the text of their words splits into. -/
theorem lexes_spaced (hl : ∀ word ∈ words, word.Legible)
    (h : Reads stack (placed (index + 1) words) tree) :
    Lexes (path stack) index (spaced words) (placed (index + 1) words) := by
  induction words generalizing stack index with
  | nil => exact .done
  | cons word words ih =>
    obtain ⟨hw, hws⟩ := List.forall_mem_cons.mp hl
    obtain ⟨c, tail, hc, hb⟩ := hw.head
    cases h with
    | shift hs hr =>
      have hrest := ih hws hr
      have hblank : StandsFirst (Table.accepts ((path stack).headD 0)) (spaced (word :: words))
          .blanks 1 := by
        rw [spaced, hc]
        exact standsFirst_blank hb
      exact .trivia hblank rfl (lexes_word hw (ends_spaced words) hs hrest)

theorem toList_render (word : Word) (words : List Word) :
    (" ".intercalate ((word :: words).map Prod.snd)).toList = word.2.toList ++ spaced words := by
  induction words generalizing word with
  | nil => simp [spaced]
  | cons next words ih =>
    rw [List.map_cons, List.map_cons, String.intercalate_cons_cons, ← List.map_cons,
      String.toList_append, ih]
    simp [spaced]

theorem lexes_render (hl : ∀ word ∈ program.words, word.Legible)
    (h : Reads [] (placed 0 program.words) tree) :
    Lexes [] 0 program.render.toList (placed 0 program.words) := by
  unfold Node.render
  cases hw : program.words with
  | nil => simpa [placed] using Lexes.done
  | cons word words =>
    rw [hw] at hl h
    obtain ⟨hword, hwords⟩ := List.forall_mem_cons.mp hl
    rw [toList_render]
    cases h with
    | shift hs hr => exact lexes_word hword (ends_spaced words) hs (lexes_spaced hwords hr)

theorem parse_render (h : WellFormed.Program program) : parse program.render = .ok program := by
  have hs := spells_of_program h
  obtain ⟨tree, hv, hr, ht, hp⟩ := hs.derives _ (map_word_placed 0 program.words)
  have hreads : Reads [] (placed 0 program.words) tree := ht ▸ reads_of_valid hv hr
  refine parse_eq_ok_iff.mpr ⟨placed 0 program.words, tree, ?_, ?_, hp⟩
  · exact ⟨lexes_render hs.legible hreads, hv, hr, ht⟩
  · exact ht ▸ Lowers.not_isBad_of_ofTree hv hp.ofTree hr

/-- The results of parsing are exactly the well-formed programs, and each is the result of parsing
its own text. -/
theorem parse_image :
    (∀ program, (∃ source, parse source = .ok program) ↔ WellFormed.Program program) ∧
      ∀ program, WellFormed.Program program → parse program.render = .ok program := by
  refine ⟨fun program => ⟨?_, fun h => ⟨program.render, parse_render h⟩⟩, fun _ => parse_render⟩
  rintro ⟨source, h⟩
  exact WellFormed.of_parse h

end ScriptLang
