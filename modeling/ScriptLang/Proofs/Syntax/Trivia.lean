import ScriptLang.Proofs.Syntax.Cutting

/-! # Trivia

Blanks, block comments that are closed and line comments whose line ends. A text splits into the
same tokens with and without them in front.
-/

namespace ScriptLang

open Derivation Lexeme

/-- Blanks and whole comments. -/
inductive Trivia : List Char → Prop where
  | nil : Trivia []
  | blank {c : Char} {text : List Char} : isBlank c = true → Trivia text → Trivia (c :: text)
  | block {inner text : List Char} : ¬['*', '/'] <:+: inner → Trivia text →
      Trivia ('/' :: '*' :: (inner ++ '*' :: '/' :: text))
  | line {inner text : List Char} : '\n' ∉ inner → Trivia text →
      Trivia ('/' :: '/' :: (inner ++ '\n' :: text))

variable {accepts : Terminal → Bool} {states : List Nat} {index n : Nat} {tokens : List Token}
  {gap text inner : List Char} {lexeme : Lexeme}

theorem Trivia.of_blanks (h : ∀ c ∈ text, isBlank c = true) : Trivia text := by
  induction text with
  | nil => exact .nil
  | cons c text ih =>
    obtain ⟨hc, htext⟩ := List.forall_mem_cons.mp h
    exact .blank hc (ih htext)

theorem Trivia.drop_blanks (h : Trivia text) : Trivia (text.dropWhile isBlank) := by
  induction h with
  | nil => exact .nil
  | blank hc _ ih => rwa [List.dropWhile_cons_of_pos hc]
  | block hi ht => exact .block hi ht
  | line hi ht => exact .line hi ht

theorem commentTail_append (h : ¬['*', '/'] <:+: inner) :
    commentTail (inner ++ '*' :: '/' :: text) = some (inner.length + 2) := by
  induction inner with
  | nil => rfl
  | cons c inner ih =>
    have hinner : ¬['*', '/'] <:+: inner := fun hi =>
      h (hi.trans (List.suffix_cons c inner).isInfix)
    rw [List.cons_append, commentTail, ih hinner]
    · rfl
    · rintro tail rfl heq
      cases inner with
      | nil => cases heq
      | cons d inner =>
        obtain ⟨rfl, -⟩ := List.cons.inj heq
        exact h ⟨[], inner, rfl⟩

theorem standsFirst_block (h : ¬['*', '/'] <:+: inner) :
    StandsFirst accepts ('/' :: '*' :: (inner ++ '*' :: '/' :: text)) .blockComment
      (inner.length + 4) := by
  refine standsFirst_of_length? rfl rfl ?_
  simp [length?, blockLength, commentTail_append h]

theorem standsFirst_line (h : '\n' ∉ inner) :
    StandsFirst accepts ('/' :: '/' :: (inner ++ '\n' :: text)) .lineComment
      (inner.length + 2) := by
  have hline : (inner ++ '\n' :: text).takeWhile (· != '\n') = inner := by
    rw [List.takeWhile_append_of_pos, List.takeWhile_cons_of_neg (by decide), List.append_nil]
    intro c hc
    rw [bne_iff_ne]
    rintro rfl
    exact h hc
  refine standsFirst_of_length? rfl rfl ?_
  simp [length?, lineLength, hline]

theorem drop_block :
    ('/' :: '*' :: (inner ++ '*' :: '/' :: text)).drop (inner.length + 4) = text := by
  simp [List.drop_append]

theorem drop_line :
    ('/' :: '/' :: (inner ++ '\n' :: text)).drop (inner.length + 2) = '\n' :: text := by
  simp

theorem standsFirst_blanks {c : Char} (h : isBlank c = true) :
    StandsFirst accepts (c :: text) .blanks ((c :: text).takeWhile isBlank).length := by
  refine standsFirst_of_length? rfl rfl ?_
  simp [length?, blanksLength, h]

/-- Only trivia stands where trivia starts, and what is left of them are trivia. -/
theorem Trivia.of_standsFirst (h : Trivia text) (hs : StandsFirst accepts text lexeme n) :
    lexeme.isTrivia = true ∧ Trivia (text.drop n) ∧ (lexeme = .lineComment → n < text.length) := by
  cases h with
  | nil => exact absurd rfl (StandsFirst.ne_nil hs)
  | @blank c text hc ht =>
    obtain ⟨rfl, rfl⟩ := hs.unique (standsFirst_blanks hc)
    refine ⟨rfl, ?_, by simp⟩
    rw [drop_length_takeWhile]
    exact (Trivia.blank hc ht).drop_blanks
  | @block inner text hi ht =>
    obtain ⟨rfl, rfl⟩ := hs.unique (standsFirst_block hi)
    refine ⟨rfl, ?_, by simp⟩
    rwa [drop_block]
  | @line inner text hi ht =>
    obtain ⟨rfl, rfl⟩ := hs.unique (standsFirst_line hi)
    refine ⟨rfl, ?_, by simp⟩
    rw [drop_line]
    exact .blank (by decide) ht

theorem lexes_dropWhile_iff (text : List Char) : Lexes states index text tokens ↔
    Lexes states (index + (text.takeWhile isBlank).length) (text.dropWhile isBlank) tokens := by
  cases text with
  | nil => rfl
  | cons c text =>
    cases hc : isBlank c with
    | false => simp [hc]
    | true =>
      rw [lexes_trivia_iff (standsFirst_blanks hc) rfl, drop_length_takeWhile]

theorem lexes_blank_iff {c : Char} (hc : isBlank c = true) :
    Lexes states index (c :: text) tokens ↔ Lexes states (index + 1) text tokens := by
  rw [lexes_dropWhile_iff (c :: text), lexes_dropWhile_iff text, List.takeWhile_cons_of_pos hc,
    List.dropWhile_cons_of_pos hc, List.length_cons, Nat.add_assoc index 1, Nat.add_comm 1]

theorem Trivia.lexes_iff (h : Trivia gap) : Lexes states index (gap ++ text) tokens ↔
    Lexes states (index + gap.length) text tokens := by
  induction h generalizing index with
  | nil => rfl
  | blank hc _ ih =>
    rw [List.cons_append, lexes_blank_iff hc, ih, List.length_cons, Nat.add_assoc, Nat.add_comm 1]
  | @block inner gap hi _ ih =>
    have hassoc : '/' :: '*' :: (inner ++ '*' :: '/' :: gap) ++ text =
        '/' :: '*' :: (inner ++ '*' :: '/' :: (gap ++ text)) := by simp
    have hindex : index + ('/' :: '*' :: (inner ++ '*' :: '/' :: gap)).length =
        index + (inner.length + 4) + gap.length := by
      simp only [List.length_cons, List.length_append]
      omega
    rw [hassoc, hindex, lexes_trivia_iff (standsFirst_block hi) rfl, drop_block, ih]
  | @line inner gap hi _ ih =>
    have hassoc : '/' :: '/' :: (inner ++ '\n' :: gap) ++ text =
        '/' :: '/' :: (inner ++ '\n' :: (gap ++ text)) := by simp
    have hindex : index + ('/' :: '/' :: (inner ++ '\n' :: gap)).length =
        index + (inner.length + 2) + 1 + gap.length := by
      simp only [List.length_cons, List.length_append]
      omega
    rw [hassoc, hindex, lexes_trivia_iff (standsFirst_line hi) rfl, drop_line,
      lexes_blank_iff (by decide), ih]

end ScriptLang
