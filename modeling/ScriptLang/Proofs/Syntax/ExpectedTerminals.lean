import ScriptLang.Proofs.Syntax.ErrorPositions
import ScriptLang.Proofs.Syntax.Tokens

/-! # Expected terminals

An error lists the terminals with an action in the state that refuses. A terminal that is shifted
there can come next. The state may reduce on others, since the automaton merges the contexts in
which a production can stand, and then it may turn out below that they cannot come next here.
-/

namespace ScriptLang

namespace Table

variable {state : Nat} {terminal : Terminal} {production : Production}

theorem mem_expected_iff :
    terminal ∈ expected state ↔ terminal ≠ .endOfInput ∧ accepts state terminal = true := by
  have hnames : terminal ∈ Terminal.byName ↔ terminal ≠ .endOfInput := by
    cases terminal <;> decide
  rw [expected, List.mem_filter, hnames]

def endsPrograms (row : Row) : Bool :=
  row.reduction.all fun (lookahead, place) =>
    lookahead = atEnd || (Grammar.productions.toList[place]?.all (·.lhs != .program))

theorem endsPrograms_rows : (rows.toList.all endsPrograms) = true := by
  decide +kernel

theorem eq_endOfInput_of_reduce (h : action state terminal = some (.reduce production))
    (hp : production.lhs = .program) : terminal = .endOfInput := by
  obtain ⟨row, lookahead, place, -, hr, hred, hplace, hl⟩ := action_reduce_lookahead h
  have hrow : row ∈ rows.toList := Array.mem_def.mp (Array.mem_of_getElem? hr)
  have hc := List.all_eq_true.mp endsPrograms_rows row hrow
  simp only [endsPrograms, hred, Array.getElem?_toList, hplace, hp, Option.all_some,
    bne_self_eq_false, Bool.or_false, decide_eq_true_eq] at hc
  rw [hc] at hl
  exact List.mem_singleton.mp hl

end Table

namespace Derivation

open Lexeme
open Table (action)

variable {stack refusing shifted final : Stack} {token : Token} {tokens : List Token}
  {terminal : Terminal} {text front back : List Char} {index : Nat} {refusal : Refusal}

theorem Refuses.state_ne_accepting (h : Refuses terminal stack refusing) (hb : Built stack)
    (hs : state stack ≠ Table.accepting) : state refusing ≠ Table.accepting := by
  induction h with
  | here => exact hs
  | @reduce stack reduced refusing production ha hr hrefuses ih =>
    obtain ⟨hreduced, -⟩ := hb.reduce ha hr
    by_cases hp : production.lhs = .program
    · -- The end of the input is not refused after a whole program.
      obtain rfl := Table.eq_endOfInput_of_reduce ha hp
      intro heq
      have hnone := hrefuses.action_eq_none
      rw [heq] at hnone
      cases hnone
    · apply ih hreduced
      intro heq
      obtain ⟨target, hg, rfl⟩ := reduce_eq_some_iff.mp hr
      obtain rfl : target = Table.accepting := heq
      have hmove : Table.move (state (stack.drop production.rhs.length)) (.n production.lhs) =
          some Table.accepting := hg
      exact hp (GrammarSymbol.n.inj (Table.move_accepting hmove).2)

/-- The expected terminals are those of one state, after any reductions. If nothing that the state
on top admits stands there, none are made. -/
theorem Stops.exists_refusing (h : Stops stack text index refusal) (hb : Built stack)
    (hs : state stack ≠ Table.accepting) :
    ∃ refusing, Built refusing ∧ word refusing = word stack ∧ state refusing ≠ Table.accepting ∧
      (ParseError.refused refusal).expected = Table.expected (state refusing) ∧
      (text ≠ [] → first (Table.accepts (state stack)) text = none → refusing = stack) := by
  cases h with
  | @endOfInput _ refusing hr =>
    obtain ⟨hbuilt, hw⟩ := hr.built hb
    exact ⟨refusing, hbuilt, hw, hr.state_ne_accepting hb hs, rfl, fun hne => absurd rfl hne⟩
  | @token _ _ n terminal refusing hfirst hr =>
    obtain ⟨hbuilt, hw⟩ := hr.built hb
    refine ⟨refusing, hbuilt, hw, hr.state_ne_accepting hb hs, rfl, fun _ hnone => ?_⟩
    cases hnone.symm.trans (first_eq_some_iff.mpr hfirst)
  | misplaced => exact ⟨stack, hb, rfl, hs, rfl, fun _ _ => rfl⟩
  | character => exact ⟨stack, hb, rfl, hs, rfl, fun _ _ => rfl⟩

theorem Takes.mem_expected {taken : List Nat} (h : Takes (path stack) terminal taken) :
    terminal ∈ Table.expected (state stack) := by
  rw [← headD_path]
  exact Table.mem_expected_iff.mpr ⟨h.ne_endOfInput, h.accepts⟩

theorem Built.exists_shifts (hb : Built stack) (hs : state stack ≠ Table.accepting) :
    ∃ token shifted, Shifts token stack shifted := by
  obtain ⟨words, hwords⟩ := hb.exists_completes
  obtain ⟨⟨tree, hreads⟩, -⟩ := hwords.reads rfl hb (map_word_placed 0 words)
  generalize placed 0 words = tokens at hreads
  cases hreads with
  | shift h _ => exact ⟨_, _, h⟩
  | finish hf =>
    -- The program may end here, so another statement may follow.
    have hident : action 0 (Token.mk .ident "x" 0).terminal = some (.shift 6) :=
      Table.action_start_iff.mpr rfl
    by_cases hne : stack = []
    · subst hne
      exact ⟨_, _, .shift hident⟩
    · obtain ⟨shifted, hshifts, -⟩ := (hf.settles hb hne hs hident).shifts rfl
      exact ⟨_, shifted, hshifts⟩

theorem Reached.continues_of_shifts (h : Reached front back tokens final) (hb : Built refusing)
    (hw : word refusing = tokens) (hs : Shifts token refusing shifted) :
    Continues front token.terminal := by
  obtain ⟨hbuilt, -⟩ := hs.built hb
  obtain ⟨words, hwords⟩ := hbuilt.exists_completes
  obtain ⟨⟨tree, hreads⟩, -⟩ := hwords.reads rfl hbuilt (map_word_placed 0 words)
  have hsound := (Reads.shift hs hreads).sound hb
  rw [hw] at hsound
  cases (h.reads.reads_iff .nil).mp (reads_iff.mpr hsound) with
  | shift hshifts _ => exact h.continues_iff.mpr ⟨_, hshifts.takes⟩

/-- What the expected terminals of an error say about what can come next after `front`. The text
goes on with `back`, the states are those before any reductions, and `refusing` is the state that
refuses what stands there. -/
structure Expects (front back : List Char) (states : List Nat) (refusing : Nat)
    (expected : List Terminal) : Prop where
  listed : expected = Table.expected refusing
  /-- A terminal can come next exactly if the automaton takes it. -/
  taken (terminal : Terminal) : Continues front terminal ↔ ∃ taken, Takes states terminal taken
  shifted (terminal : Terminal) (next : Nat) : action refusing terminal = some (.shift next) →
    terminal ∈ expected ∧ Continues front terminal
  /-- A terminal that is listed though it cannot come next is one to reduce on. -/
  reduced : ∀ terminal ∈ expected, ¬Continues front terminal →
    ∃ production, action refusing terminal = some (.reduce production)
  nonempty : ∃ terminal ∈ expected, Continues front terminal
  /-- If nothing that can come next stands there, everything that can come next is listed. -/
  complete : back ≠ [] → first (Table.accepts (states.headD 0)) back = none →
    ∀ terminal, Continues front terminal → terminal ∈ expected

theorem Reached.expects (h : Reached front back tokens final)
    (hs : Stops final back index refusal) :
    ∃ refusing, Expects front back (path final) refusing (ParseError.refused refusal).expected := by
  obtain ⟨hbuilt, hword⟩ := h.reads.built .nil
  have hfinal : state final ≠ Table.accepting := h.reads.state_ne_accepting (by decide)
  obtain ⟨refusing, hb, hw, hstate, hexpected, hmissed⟩ := hs.exists_refusing hbuilt hfinal
  -- Whatever is shifted after any reductions is listed and can come next.
  have hgood {token : Token} {shifted : Stack} (hshifts : Shifts token refusing shifted) :
      token.terminal ∈ Table.expected (state refusing) ∧ Continues front token.terminal :=
    ⟨hshifts.takes.mem_expected, h.continues_of_shifts hb (hw.trans hword) hshifts⟩
  have hshifted (terminal : Terminal) (next : Nat)
      (ha : action (state refusing) terminal = some (.shift next)) :
      terminal ∈ Table.expected (state refusing) ∧ Continues front terminal := by
    have htoken : action (state refusing) (Token.mk terminal "" 0).terminal =
        some (.shift next) := ha
    exact hgood (.shift htoken)
  rw [hexpected]
  refine ⟨state refusing, rfl, fun terminal => h.continues_iff, hshifted, ?_, ?_, ?_⟩
  · intro terminal hm hnot
    obtain ⟨hne, haccepts⟩ := Table.mem_expected_iff.mp hm
    obtain ⟨action, ha⟩ := Option.isSome_iff_exists.mp haccepts
    cases action with
    | shift next => exact absurd (hshifted terminal next ha).2 hnot
    | reduce production => exact ⟨production, ha⟩
    | accept => exact absurd (Table.action_accept ha).2 hne
  · obtain ⟨token, shifted, hshifts⟩ := hb.exists_shifts hstate
    exact ⟨token.terminal, hgood hshifts⟩
  · intro hne hnone terminal hcontinues
    rw [headD_path] at hnone
    obtain rfl := hmissed hne hnone
    obtain ⟨taken, htakes⟩ := h.continues_iff.mp hcontinues
    exact htakes.mem_expected

end Derivation

open Derivation Lexeme

variable {source : String} {refusal : Refusal}

/-- The expected terminals of an error are those with an action in the state that refuses. Those
that it shifts can come next where the error is reported, and one that cannot is one on which it
reduces. At least one of them can come next, and if no token that the state admits stands there,
all that can are listed. -/
theorem expected_terminals (h : parse source = .error (.refused refusal)) :
    ∃ front back tokens final refusing, source.toList = front ++ back ∧
      (ParseError.refused refusal).index = front.length ∧ Reached front back tokens final ∧
      Expects front back (path final) refusing (ParseError.refused refusal).expected := by
  have ho : ofSource source.toList = .error refusal := by
    unfold parse at h
    split at h
    next other ho =>
      cases h
      exact ho
    next =>
      split at h
      all_goals cases h
  obtain ⟨front, back, tokens, final, hsplit, hreached, hstop⟩ := exists_reached ho
  obtain ⟨refusing, hexpects⟩ := hreached.expects hstop
  exact ⟨front, back, tokens, final, refusing, hsplit, hstop.found_iff.1, hreached, hexpects⟩

theorem expected_terminals_character :
    let refusal : Refusal := .character '$' 6 Table.afterPrimary
    parse "x = 1 $" = .error (.refused refusal) ∧
      ∃ front back tokens final refusing, "x = 1 $".toList = front ++ back ∧
        (ParseError.refused refusal).index = front.length ∧ Reached front back tokens final ∧
        Expects front back (path final) refusing (ParseError.refused refusal).expected := by
  intro refusal
  have hp : parse "x = 1 $" = .error (.refused refusal) := parse_eq_error (by decide +kernel)
  exact ⟨hp, expected_terminals hp⟩

/-- Some of the terminals that are listed after a value belong to other contexts: an assignment
does not go on with a comma. -/
theorem expected_comma_refused :
    let refusal : Refusal := .character '$' 6 Table.afterPrimary
    parse "x = 1 $" = .error (.refused refusal) ∧
      Terminal.comma ∈ (ParseError.refused refusal).expected ∧
      ¬Continues ("x = 1 $".toList.take (ParseError.refused refusal).index) .comma := by
  intro refusal
  refine ⟨parse_eq_error (by decide +kernel), by decide, ?_⟩
  rintro ⟨lexeme, more, tree, hok, hm⟩
  obtain ⟨tokens, hlex, -, -, rfl⟩ := ofSource_eq_ok_iff.mp hok
  have hspelled : Token.Spelled ⟨.comma, String.ofList lexeme, 7⟩ := hlex.spelled _ hm
  obtain rfl : [','] = lexeme := String.ofList_injective (Option.some.inj hspelled)
  have hrefused : (match ofSource ("x = 1 \n,".toList ++ more) with
      | .ok tree => some tree
      | .error _ => none) = none := by
    set_option maxRecDepth 2000 in with_unfolding_all rfl
  have htext : "x = 1 $".toList.take 6 ++ '\n' :: ([','] ++ more) = "x = 1 \n,".toList ++ more := by
    simp
  have hok : ofSource ("x = 1 \n,".toList ++ more) = .ok tree := htext ▸ hok
  rw [hok] at hrefused
  cases hrefused

end ScriptLang
