import ScriptLang.Proofs.Syntax.Insertion
import ScriptLang.Proofs.Syntax.Stopping

/-! # Where errors are reported

An error is reported at the end of the longest part of the source that could still be read, where
a program can be completed on a new line. In a source that has a derivation it is reported at the
first bad literal. The line, the column and the offset are those of the text before.
-/

namespace ScriptLang

namespace Position

variable {front piece : List Char} {pieces : List (List Char)}

def advance (position : Position) (piece : List Char) : Position where
  line := position.line + piece.count '\n'
  column :=
    if '\n' ∈ piece then (piece.reverse.takeWhile (· != '\n')).length + 1
    else position.column + piece.length
  offset := position.offset + byteLength piece

/-- The position directly after a text: the offset counts its bytes, the line its line breaks, and
the column the characters since the last of them. Counting may be done piece by piece. -/
structure Marks (position : Position) (front : List Char) : Prop where
  offset : position.offset = (String.ofList front).utf8ByteSize
  line : position.line = 1 + front.count '\n'
  column : ∃ start ≤ front.length, (start = 0 ∨ front[start - 1]? = some '\n') ∧
    '\n' ∉ front.drop start ∧ position.column = front.length - start + 1
  counted (pieces : List (List Char)) : pieces.flatten = front →
    pieces.foldl advance ⟨1, 1, 0⟩ = position

theorem byteLength_eq (text : List Char) : byteLength text = (String.ofList text).utf8ByteSize := by
  induction text with
  | nil => rfl
  | cons c text ih =>
    rw [byteLength_cons, ih, String.ofList_cons, String.utf8ByteSize_append,
      String.utf8ByteSize_singleton]

theorem byteLength_append (front piece : List Char) :
    byteLength (front ++ piece) = byteLength front + byteLength piece := by
  rw [byteLength_eq, byteLength_eq, byteLength_eq, String.ofList_append,
    String.utf8ByteSize_append]

theorem after_append (front piece : List Char) :
    after (front ++ piece) = (after front).advance piece := by
  simp only [after, advance, mk.injEq, List.count_append, List.reverse_append, byteLength_append,
    and_true]
  constructor
  · omega
  · split
    · rename_i hm
      rw [List.takeWhile_append, if_neg]
      intro hall
      have heq := (List.takeWhile_prefix _).eq_of_length hall
      have hbreak := Lexeme.of_mem_takeWhile (heq ▸ List.mem_reverse.mpr hm)
      simp at hbreak
    · rename_i hm
      have hno : ∀ c ∈ piece.reverse, (c != '\n') = true := by
        intro c hc
        rw [bne_iff_ne]
        rintro rfl
        exact hm (List.mem_reverse.mp hc)
      rw [List.takeWhile_append_of_pos hno, List.length_append, List.length_reverse]
      omega

theorem foldl_advance (pieces : List (List Char)) (front : List Char) :
    pieces.foldl advance (after front) = after (front ++ pieces.flatten) := by
  induction pieces generalizing front with
  | nil => simp
  | cons piece pieces ih =>
    rw [List.foldl_cons, ← after_append, ih, List.flatten_cons, List.append_assoc]

theorem exists_lineStart (front : List Char) : ∃ start ≤ front.length,
    (start = 0 ∨ front[start - 1]? = some '\n') ∧ '\n' ∉ front.drop start ∧
      (front.reverse.takeWhile (· != '\n')).length = front.length - start := by
  have hsplit : front = (front.reverse.dropWhile (· != '\n')).reverse ++
      (front.reverse.takeWhile (· != '\n')).reverse := by
    rw [← List.reverse_append, List.takeWhile_append_dropWhile, List.reverse_reverse]
  have hlast : '\n' ∉ (front.reverse.takeWhile (· != '\n')).reverse := by
    intro hm
    have hbreak := Lexeme.of_mem_takeWhile (List.mem_reverse.mp hm)
    simp at hbreak
  have hbody := List.head?_dropWhile_not (· != '\n') front.reverse
  generalize front.reverse.takeWhile (· != '\n') = last at hsplit hlast ⊢
  generalize front.reverse.dropWhile (· != '\n') = body at hsplit hbody
  subst hsplit
  refine ⟨body.length, by simp, ?_, ?_, by simp⟩
  · cases body with
    | nil => exact .inl rfl
    | cons c body =>
      obtain rfl : c = '\n' := by simpa using hbody
      simp
  · rwa [List.drop_left' (List.length_reverse)]

theorem marks_after (front : List Char) : (after front).Marks front where
  offset := byteLength_eq front
  line := Nat.add_comm _ _
  column := by
    obtain ⟨start, hle, hbreak, hrest, hlength⟩ := exists_lineStart front
    exact ⟨start, hle, hbreak, hrest, congrArg (· + 1) hlength⟩
  counted := by
    rintro pieces rfl
    exact foldl_advance pieces []

end Position

open Derivation Lexeme

variable {source : String} {error : ParseError} {refusal : Refusal} {literal : BadLiteral}
  {stack : Stack} {text : List Char} {index : Nat} {tokens : List Token} {tree : Tree}

theorem append_ne_of_head {front text : String} (back : String)
    (hf : front.toList.head?.isSome) (h : front.toList.head? ≠ text.toList.head?) :
    front ++ back ≠ text := by
  rintro rfl
  rw [String.toList_append, List.head?_append, Option.or_of_isSome hf] at h
  exact h rfl

theorem LiteralError.exists_message (error : LiteralError) : ∃ front back : String,
    error.message = front ++ back ∧
      front.toList.head? ∈ [some 'i', some 'E', some 'c', some '\\'] := by
  cases error with
  | outOfRange text =>
    exact ⟨"integer literal ", text ++ " out of range", String.append_assoc .., by decide +kernel⟩
  | tooManyDigits count =>
    exact ⟨"Exceeds the limit (4300 digits) for integer string conversion: value has ", _,
      String.append_assoc .., by decide +kernel⟩
  | notAnInteger base text =>
    exact ⟨"invalid literal for int() with base ", _,
      (String.append_assoc ..).trans (String.append_assoc ..), by decide +kernel⟩
  | notAFloat text =>
    exact ⟨"could not convert string to float: ", Quoted.quote text, rfl, by decide +kernel⟩
  | surrogate escape =>
    exact ⟨"\\", escape ++ " is a surrogate, not a Unicode scalar value",
      String.append_assoc .., by decide +kernel⟩

theorem LiteralError.message_ne (error : LiteralError) :
    error.message ≠ "unexpected end of input" := by
  obtain ⟨front, back, hmessage, hhead⟩ := error.exists_message
  rw [hmessage]
  apply append_ne_of_head
  · rw [Option.isSome_iff_ne_none]
    intro heq
    rw [heq] at hhead
    exact absurd hhead (by decide)
  · intro heq
    rw [heq] at hhead
    exact absurd hhead (by decide +kernel)

theorem unexpected_ne {front : String} (back : String) (hf : front.toList.head?.isSome)
    (h : front.toList.head? ≠ some 'e') :
    "unexpected " ++ (front ++ back) ≠ "unexpected end of input" := by
  have hend : "unexpected end of input" = "unexpected " ++ "end of input" := by decide +kernel
  rw [hend, ne_eq, String.append_right_inj]
  exact append_ne_of_head back hf h

theorem ParseError.found_token_ne (token : Token) (expected : List Terminal) :
    (refused (.token token expected)).found ≠ "unexpected end of input" := by
  have hname : token.terminal.name.toList.head?.isSome ∧
      token.terminal.name.toList.head? ≠ some 'e' := by
    cases token.terminal <;> decide +kernel
  have hfound : (refused (.token token expected)).found =
      "unexpected " ++ (token.terminal.name ++ (" " ++ Quoted.quote token.text)) :=
    (String.append_assoc ..).trans (String.append_assoc ..)
  rw [hfound]
  exact unexpected_ne _ hname.1 hname.2

theorem ParseError.found_character_ne (c : Char) (index : Nat) (expected : List Terminal) :
    (refused (.character c index expected)).found ≠ "unexpected end of input" := by
  have htext : "unexpected character " = "unexpected " ++ "character " := by decide +kernel
  have hfound : (refused (.character c index expected)).found =
      "unexpected " ++ ("character " ++ Quoted.quote (String.singleton c)) := by
    rw [← String.append_assoc, ← htext]
    rfl
  rw [hfound]
  exact unexpected_ne _ (by decide +kernel) (by decide +kernel)

/-- The end of the input is reported where a text ends, and nowhere else. -/
theorem Derivation.Stops.found_iff (h : Stops stack text index refusal) :
    (ParseError.refused refusal).index = index ∧
      ((ParseError.refused refusal).found = "unexpected end of input" ↔ text = []) := by
  cases h with
  | endOfInput => exact ⟨rfl, iff_of_true rfl rfl⟩
  | token hs =>
    exact ⟨rfl, iff_of_false (ParseError.found_token_ne _ _) (StandsFirst.ne_nil hs)⟩
  | misplaced _ hs =>
    exact ⟨rfl, iff_of_false (ParseError.found_token_ne _ _) (StandsFirst.ne_nil hs)⟩
  | character =>
    exact ⟨rfl, iff_of_false (ParseError.found_character_ne _ _ _) (List.cons_ne_nil _ _)⟩

theorem exists_reached (h : ofSource source.toList = .error refusal) :
    ∃ front back tokens final, source.toList = front ++ back ∧
      Reached front back tokens final ∧ Stops final back front.length refusal := by
  obtain ⟨front, back, tokens, final, hsplit, hpass, hreads, hstop⟩ := exists_stop .nil h
  rw [Nat.zero_add] at hstop
  exact ⟨front, back, tokens, final, hsplit, ⟨hpass, hreads⟩, hstop⟩

/-- A source with a derivation still has one with a line break before a token. -/
theorem Derives.exists_break {token : Token} (h : Derives source tokens tree)
    (hm : token ∈ tokens) : ∃ front back, source.toList = front ++ back ∧
      front.length = token.index ∧ back ≠ [] ∧
      ∃ more tree, ofSource (front ++ '\n' :: more) = .ok tree := by
  have hlt := h.lexes.index_lt token hm
  rw [Nat.zero_add] at hlt
  have hlength : (source.toList.take token.index).length = token.index :=
    List.length_take_of_le hlt.le
  have hgap : Gap 0 tokens (source.toList.take token.index) (source.toList.drop token.index) :=
    .before hm (by rw [hlength, Nat.zero_add])
  have hbreak : Lexeme.isBlank '\n' = true := by decide
  obtain ⟨place, hinsert⟩ := h.insert (List.take_append_drop _ _).symm hgap hbreak .nil
  refine ⟨_, _, (List.take_append_drop _ _).symm, hlength, ?_, source.toList.drop token.index,
    tree.moved place, ?_⟩
  · exact List.ne_nil_of_length_pos (by rw [List.length_drop]; omega)
  · have hok := ofSource_eq_ok_iff_derives.mpr ⟨_, hinsert⟩
    simpa using hok

/-- The position of an error is that of the end of a part of the source that can be completed on a
new line: of the whole source if the input ends too early, and otherwise of a part. If the source
has a derivation, the first bad literal follows. -/
theorem error_positions (h : parse source = .error error) :
    ∃ front back, source.toList = front ++ back ∧ error.index = front.length ∧
      (error.position source).Marks front ∧
      (error.found = "unexpected end of input" ↔ back = []) ∧
      (∃ more tree, ofSource (front ++ '\n' :: more) = .ok tree) ∧
      ∀ tree, ofSource source.toList = .ok tree →
        ∃ before token after, tree.tokens = before ++ token :: after ∧
          token.index = front.length ∧ token.IsBad ∧ ∀ other ∈ before, ¬other.IsBad := by
  have hmarks {front back : List Char} (hs : source.toList = front ++ back)
      (hi : error.index = front.length) : (error.position source).Marks front := by
    rw [ParseError.position, Position.ofIndex, hi, hs, List.take_left]
    exact Position.marks_after front
  cases ho : ofSource source.toList with
  | error refusal =>
    obtain rfl : .refused refusal = error := by simpa [parse, ho] using h
    obtain ⟨front, back, tokens, final, hsplit, hreached, hstop⟩ := exists_reached ho
    obtain ⟨hi, hfound⟩ := hstop.found_iff
    refine ⟨front, back, hsplit, hi, hmarks hsplit hi, hfound, hreached.exists_completion, ?_⟩
    intro tree htree
    cases htree
  | ok tree =>
    obtain ⟨tokens, hd⟩ := ofSource_eq_ok_iff_derives.mp ho
    obtain ⟨literal, hliteral, rfl⟩ : ∃ literal, Phrase.ofTree tree = .error literal ∧
        error = .badLiteral literal := by
      simp only [parse, ho] at h
      split at h
      next literal hl =>
        cases h
        exact ⟨literal, hl, rfl⟩
      all_goals cases h
    obtain ⟨before, token, after, htokens, hi, hbad, hgood⟩ :=
      Lowers.exists_isBad_of_ofTree hd.valid hliteral
    have hm : token ∈ tokens := by simp [← hd.tokens_eq, htokens]
    obtain ⟨front, back, hsplit, hlength, hne, hmore⟩ := hd.exists_break hm
    have hindex : (ParseError.badLiteral literal).index = front.length := hi.symm.trans hlength.symm
    refine ⟨front, back, hsplit, hindex, hmarks hsplit hindex, ?_, hmore, ?_⟩
    · exact iff_of_false literal.error.message_ne hne
    · rintro _ ⟨⟩
      exact ⟨before, token, after, htokens, hlength.symm, hbad, hgood⟩

theorem error_positions_surrogate :
    let source := "\"ü\n\"; // é\n \"\\ud800\";"
    let error : ParseError := .badLiteral ⟨12, .surrogate "ud800"⟩
    parse source = .error error ∧ error.position source = ⟨3, 2, 14⟩ ∧
      ∃ front back, source.toList = front ++ back ∧ error.index = front.length ∧
        (error.position source).Marks front ∧
        (error.found = "unexpected end of input" ↔ back = []) ∧
        (∃ more tree, ofSource (front ++ '\n' :: more) = .ok tree) ∧
        ∀ tree, ofSource source.toList = .ok tree →
          ∃ before token after, tree.tokens = before ++ token :: after ∧
            token.index = front.length ∧ token.IsBad ∧ ∀ other ∈ before, ¬other.IsBad := by
  intro source error
  have hp : parse source = .error error := parse_eq_error (by decide +kernel)
  exact ⟨hp, by decide +kernel, error_positions hp⟩

end ScriptLang
