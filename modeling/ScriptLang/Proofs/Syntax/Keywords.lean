import ScriptLang.Proofs.Grammar.Resuming
import ScriptLang.Proofs.Syntax.Cutting
import ScriptLang.Proofs.Syntax.Tokens
import ScriptLang.Proofs.Parsing

/-! # Keywords as whole words

A keyword is read wherever its spelling stands and the state admits it. Only identifiers end where
a word ends, and they are tried first, so where the state admits one too a keyword is a whole word.
Elsewhere it may be cut off a longer one: this can happen to a connective after an operand, and to
`if` after `else`.
-/

namespace ScriptLang

open Lexeme

def Terminal.keywords : List Terminal :=
  [.ifWord, .elseWord, .whileWord, .forWord, .breakWord, .continueWord, .returnWord, .fnWord,
    .andWord, .orWord, .notWord, .loopWord, .trueWord, .falseWord, .nilWord]

variable {source text : List Char} {terminal : Terminal} {n index : Nat}
  {accepts : Terminal → Bool}

theorem Terminal.reserved_of_mem_keywords : ∀ terminal ∈ keywords, terminal ∈ fixed ∧
    ∃ spelling ∈ terminal.spelling?, spelling ∈ reserved ∧
      ∀ c ∈ spelling.toList, isWordChar c = true := by
  have hall : ∀ terminal ∈ keywords, terminal ∈ fixed ∧ ∃ spelling ∈ terminal.spelling?,
      spelling ∈ reserved ∧ spelling.toList.all isWordChar = true := by decide
  simpa only [List.all_eq_true] using hall

/-- No character of a word follows a token in its source. -/
def Token.IsWhole (token : Token) (source : List Char) : Prop :=
  ∀ c ∈ source[token.index + token.text.length]?, isWordChar c = false

/-- Whether a keyword can be cut off a longer word directly after a token of the given kind. -/
def Terminal.cutAfter (last keyword : Terminal) : Bool :=
  match last with
  | .elseWord => keyword = .ifWord
  | .ident | .number | .string | .trueWord | .falseWord | .nilWord | .rpar =>
    keyword = .andWord || keyword = .orWord
  | _ => false

namespace Table

variable {state next : Nat} {row : Row} {last : Terminal}

def actors (row : Row) : List Terminal :=
  row.shifts.map Prod.fst ++ row.reduction.toList.flatMap Prod.fst

theorem exists_mem_actors (h : Table.accepts state terminal = true) (ht : terminal ≠ .endOfInput) :
    ∃ row, rows[state]? = some row ∧ terminal ∈ actors row := by
  obtain ⟨action, ha⟩ := Option.isSome_iff_exists.mp h
  cases action with
  | shift next =>
    obtain ⟨row, hr, hl⟩ := action_shift ha
    exact ⟨row, hr, List.mem_append_left _ (List.mem_map_of_mem (mem_of_lookup hl))⟩
  | reduce production =>
    obtain ⟨row, lookahead, place, -, hr, hred, -, hl⟩ := action_reduce_lookahead ha
    refine ⟨row, hr, List.mem_append_right _ ?_⟩
    simpa [hred] using hl
  | accept => exact absurd (action_accept ha).2 ht

/-- Whether a state in which a token has been read admits identifiers, or only such keywords as can
be cut off a longer word after this token. -/
def admitsNames (state : Nat) (row : Row) : Bool :=
  match past state with
  | .n _ :: _ => true
  | .t last :: _ =>
    ((actors row).all fun terminal =>
      !Terminal.keywords.contains terminal || last.cutAfter terminal) ||
        Table.accepts state .ident
  | [] => (actors row).isEmpty || Table.accepts state .ident

theorem admitsNames_rows :
    (rows.toList.zipIdx.all fun (row, state) => admitsNames state row) = true := by
  decide +kernel

/-- After a token that has been shifted a keyword is admitted only with the identifiers, or if it
can be cut off a longer word. -/
theorem accepts_ident_or_cutAfter (hs : action state last = some (.shift next))
    (h : Table.accepts next terminal = true) (hk : terminal ∈ Terminal.keywords) :
    Table.accepts next .ident = true ∨ last.cutAfter terminal = true := by
  have hne : terminal ≠ .endOfInput := by
    rintro rfl
    exact absurd hk (by decide)
  obtain ⟨row, hr, hm⟩ := exists_mem_actors h hne
  have hc := of_zipIdx admitsNames_rows hr
  have hp := past_move (move_t_iff.mpr hs)
  unfold admitsNames at hc
  split at hc
  next hpast =>
    rw [hpast] at hp
    cases (List.cons_prefix_cons.mp hp).1
  next hpast =>
    rw [hpast] at hp
    obtain rfl := GrammarSymbol.t.inj (List.cons_prefix_cons.mp hp).1
    rw [Bool.or_eq_true, List.all_eq_true] at hc
    refine hc.symm.imp id fun hall => ?_
    have hterminal := hall terminal hm
    rwa [List.contains_iff_mem.mpr hk, Bool.not_true, Bool.false_or] at hterminal
  next =>
    rw [Bool.or_eq_true, List.isEmpty_iff] at hc
    refine .inl (hc.resolve_left fun hnil => ?_)
    rw [hnil] at hm
    cases hm

theorem accepts_ident_start : Table.accepts 0 .ident = true := by
  decide +kernel

end Table

theorem Lexeme.StandsFirst.whole_of_keyword (h : StandsFirst accepts text (.token terminal) n)
    (hk : terminal ∈ Terminal.keywords) (hi : accepts .ident = true) :
    ∀ c ∈ (text.drop n).head?, isWordChar c = false := by
  obtain ⟨hfixed, spelling, hs, hreserved, hword⟩ := Terminal.reserved_of_mem_keywords _ hk
  obtain ⟨before, after, horder, -, hl, hb⟩ := h
  -- Identifiers are the first to be tried.
  have hident : identLength text = none := by
    cases before with
    | nil =>
      obtain rfl : terminal = .ident := Lexeme.token.inj (List.cons.inj horder).1.symm
      exact absurd hk (by decide)
    | cons first before =>
      obtain ⟨rfl, -⟩ := List.cons.inj horder
      exact hb _ List.mem_cons_self hi
  simp only [length?, terminalLength_fixed hfixed, Option.mem_def.mp hs, Option.bind_some,
    Option.ite_none_right_eq_some, List.isPrefixOf_iff_prefix, Option.some.injEq] at hl
  obtain ⟨⟨rest, rfl⟩, rfl⟩ := hl
  have hwhole := takeWhile_of_reserved (by rwa [String.ofList_toList]) hword hident
  rw [← String.length_toList, List.drop_left]
  rw [List.takeWhile_append_of_pos hword] at hwhole
  have hnone : rest.takeWhile isWordChar = [] := by simpa using hwhole
  intro c hc
  cases rest with
  | nil => cases hc
  | cons d rest =>
    obtain rfl : d = c := Option.some.inj hc
    by_contra hd
    rw [List.takeWhile_cons_of_pos (by simpa using hd)] at hnone
    cases hnone

namespace Derivation

variable {states : List Nat} {before after tokens : List Token} {token : Token}

theorem Lexes.exists_standsFirst (h : Lexes states index text tokens)
    (ht : text = source.drop index) (hs : tokens = before ++ token :: after) :
    token.text.toList <+: source.drop token.index ∧
      ∃ reached, StandsFirst (Table.accepts (reached.headD 0)) (source.drop token.index)
        (.token token.terminal) token.text.length ∧
      (before = [] ∧ reached = states ∨
        ∃ last ∈ before.getLast?, ∃ earlier, Takes earlier last.terminal reached) := by
  induction h generalizing before with
  | done => simp at hs
  | @trivia states index n text tokens lexeme _ _ _ ih =>
    exact ih (by rw [ht, List.drop_drop]) hs
  | @token states taken index n text tokens terminal hfirst hk _ ih =>
    cases before with
    | nil =>
      obtain ⟨rfl, rfl⟩ := List.cons.inj hs
      rw [← ht, String.toList_ofList, String.length_ofList,
        List.length_take_of_le hfirst.bounds.2]
      exact ⟨List.take_prefix _ _, states, hfirst, .inl ⟨rfl, rfl⟩⟩
    | cons first before =>
      obtain ⟨rfl, rfl⟩ := List.cons.inj hs
      obtain ⟨htext, reached, hreached, hlast⟩ := ih (by rw [ht, List.drop_drop]) rfl
      refine ⟨htext, reached, hreached, .inr ?_⟩
      rcases hlast with ⟨rfl, rfl⟩ | ⟨last, hm, earlier, htakes⟩
      · exact ⟨_, rfl, states, hk⟩
      · refine ⟨last, ?_, earlier, htakes⟩
        rw [Option.mem_def, List.getLast?_cons, Option.mem_def.mp hm, Option.getD_some]

theorem Takes.exists_shift {taken : List Nat} (h : Takes states terminal taken) :
    ∃ state, Table.action state terminal = some (.shift (taken.headD 0)) := by
  induction h with
  | shift ha => exact ⟨_, ha⟩
  | reduce _ _ _ ih => exact ih

end Derivation

open Derivation

/-- A keyword of a program is not followed by a character of a word, unless it stands directly
after a token where it can be cut off a longer word. -/
theorem keywords_whole {source : String} {program : Node} (h : parse source = .ok program) :
    ∃ tree, ofSource source.toList = .ok tree ∧
      ∀ before token after, tree.tokens = before ++ token :: after →
        token.terminal ∈ Terminal.keywords →
        token.text.toList <+: source.toList.drop token.index ∧
          (token.IsWhole source.toList ∨
            ∃ last ∈ before.getLast?, last.terminal.cutAfter token.terminal = true) := by
  obtain ⟨tokens, tree, hd, -, -⟩ := parse_eq_ok_iff.mp h
  refine ⟨tree, ofSource_eq_ok_iff_derives.mpr ⟨tokens, hd⟩, ?_⟩
  intro before token after htokens hk
  rw [hd.tokens_eq] at htokens
  obtain ⟨htext, reached, hfirst, hreached⟩ :=
    hd.lexes.exists_standsFirst (List.drop_zero).symm htokens
  refine ⟨htext, ?_⟩
  have hwhole (hident : Table.accepts (reached.headD 0) .ident = true) :
      token.IsWhole source.toList := by
    intro c hc
    apply hfirst.whole_of_keyword hk hident c
    rwa [List.head?_drop, List.getElem?_drop]
  rcases hreached with ⟨-, rfl⟩ | ⟨last, hm, earlier, htakes⟩
  · exact .inl (hwhole Table.accepts_ident_start)
  · obtain ⟨state, hshift⟩ := htakes.exists_shift
    have haccepts : Table.accepts (reached.headD 0) token.terminal = true := by
      obtain ⟨_, _, _, ha, _, _⟩ := hfirst
      exact ha
    rcases Table.accepts_ident_or_cutAfter hshift haccepts hk with hident | hcut
    · exact .inl (hwhole hident)
    · exact .inr ⟨last, hm, hcut⟩

theorem keywords_whole_alternative :
    let source := "if a \x7b\x7d else iff \x7b\x7d"
    ∃ program, parse source = .ok program ∧ ∃ tree, ofSource source.toList = .ok tree ∧
      ∀ before token after, tree.tokens = before ++ token :: after →
        token.terminal ∈ Terminal.keywords →
        token.text.toList <+: source.toList.drop token.index ∧
          (token.IsWhole source.toList ∨
            ∃ last ∈ before.getLast?, last.terminal.cutAfter token.terminal = true) := by
  intro source
  obtain ⟨program, hp⟩ : ∃ program, parse source = .ok program := exists_parse (by decide +kernel)
  exact ⟨program, hp, keywords_whole hp⟩

/-- A connective is cut off a name that stands directly after a value. -/
theorem connective_not_whole :
    ∃ program tree, parse "x = 1 andy;" = .ok program ∧
      ofSource "x = 1 andy;".toList = .ok tree ∧ ∃ token ∈ tree.tokens,
        token.terminal ∈ Terminal.keywords ∧ ¬token.IsWhole "x = 1 andy;".toList := by
  obtain ⟨program, hp⟩ : ∃ program, parse "x = 1 andy;" = .ok program :=
    exists_parse (by decide +kernel)
  have htokens : ((ofSource "x = 1 andy;".toList).toOption.map Tree.tokens).any
      (·.contains ⟨.andWord, "and", 6⟩) = true := by
    decide +kernel
  cases hd : ofSource "x = 1 andy;".toList with
  | error refusal =>
    rw [hd] at htokens
    cases htokens
  | ok tree =>
    rw [hd] at htokens
    have hm : ⟨.andWord, "and", 6⟩ ∈ tree.tokens := List.contains_iff_mem.mp htokens
    refine ⟨program, tree, hp, rfl, _, hm, by decide, ?_⟩
    intro h
    exact absurd (h 'y' rfl) (by decide)

end ScriptLang
