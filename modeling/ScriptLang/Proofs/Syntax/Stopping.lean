import ScriptLang.Proofs.Grammar.Resuming
import ScriptLang.Proofs.Syntax.Completion
import ScriptLang.Proofs.Syntax.Passing

/-! # Where reading stops

A text that has no derivation is read up to the place of the error, where the machine is left with
a stack. What has been read there can be completed on a new line, and a terminal may come next
exactly if the automaton takes it.
-/

namespace ScriptLang.Derivation

open Lexeme

variable {stack stack' final refusing : Stack} {token : Token} {terminal : Terminal}
  {tokens more : List Token} {states taken goal : List Nat} {fuel index n : Nat}
  {text front back : List Char} {tree : Tree} {refusal : Refusal}

inductive ReadsOn : Stack → List Token → Stack → Prop where
  | nil {stack : Stack} : ReadsOn stack [] stack
  | cons {stack shifted final : Stack} {token : Token} {tokens : List Token} :
      Shifts token stack shifted → ReadsOn shifted tokens final →
      ReadsOn stack (token :: tokens) final

theorem ReadsOn.built (h : ReadsOn stack tokens final) (hb : Built stack) :
    Built final ∧ word final = word stack ++ tokens := by
  induction h with
  | nil => exact ⟨hb, (List.append_nil _).symm⟩
  | cons hs _ ih =>
    obtain ⟨hshifted, hw⟩ := hs.built hb
    obtain ⟨hfinal, hword⟩ := ih hshifted
    exact ⟨hfinal, by rw [hword, hw, List.append_assoc, List.singleton_append]⟩

/-- What follows tokens that have been read is read from where they have led to. -/
theorem ReadsOn.reads_iff (h : ReadsOn stack tokens final) (hb : Built stack) :
    Reads stack (tokens ++ more) tree ↔ Reads final more tree := by
  induction h with
  | nil => rfl
  | cons hs _ ih =>
    rw [← ih (hs.built hb).1, List.cons_append]
    constructor
    · rintro (_ | ⟨hs', hr⟩)
      rwa [hs.unique hb hs']
    · exact .shift hs

theorem ReadsOn.state_ne_accepting (h : ReadsOn stack tokens final)
    (hs : state stack ≠ Table.accepting) : state final ≠ Table.accepting := by
  induction h with
  | nil => exact hs
  | cons hshift _ ih => exact ih hshift.state_ne_accepting

theorem Takes.shifts (h : Takes states token.terminal taken) (hs : states = path stack) :
    ∃ shifted, Shifts token stack shifted ∧ path shifted = taken := by
  generalize hterminal : token.terminal = terminal at h
  induction h generalizing stack with
  | shift ha =>
    subst hs hterminal
    rw [headD_path] at ha
    exact ⟨_, .shift ha, rfl⟩
  | @reduce states taken terminal production next ha hg _ ih =>
    subst hs hterminal
    rw [headD_path] at ha
    have hdrop : (path stack).drop production.rhs.length =
        path (stack.drop production.rhs.length) := List.map_drop.symm
    rw [hdrop, headD_path] at hg
    obtain ⟨reduced, hr⟩ : ∃ reduced, Derivation.reduce production stack = some reduced :=
      ⟨_, reduce_eq_some_iff.mpr ⟨next, hg, rfl⟩⟩
    have hreduced : next :: (path stack).drop production.rhs.length = path reduced := by
      obtain ⟨_, hg', rfl⟩ := reduce_eq_some_iff.mp hr
      cases hg.symm.trans hg'
      rw [hdrop]
      rfl
    obtain ⟨shifted, hshifts, hpath⟩ := ih hreduced rfl
    exact ⟨shifted, .reduce ha hr hshifts, hpath⟩

inductive Refuses (terminal : Terminal) : Stack → Stack → Prop where
  | here {stack : Stack} : Table.action (state stack) terminal = none →
      Refuses terminal stack stack
  | reduce {stack reduced refusing : Stack} {production : Production} :
      Table.action (state stack) terminal = some (.reduce production) →
      reduce production stack = some reduced → Refuses terminal reduced refusing →
      Refuses terminal stack refusing

theorem Refuses.built (h : Refuses terminal stack refusing) (hb : Built stack) :
    Built refusing ∧ word refusing = word stack := by
  induction h with
  | here => exact ⟨hb, rfl⟩
  | reduce ha hr _ ih =>
    obtain ⟨hreduced, hword⟩ := hb.reduce ha hr
    rw [← hword]
    exact ih hreduced

theorem Refuses.action_eq_none (h : Refuses terminal stack refusing) :
    Table.action (state refusing) terminal = none := by
  induction h with
  | here ha => exact ha
  | reduce _ _ _ ih => exact ih

theorem refuses_of_feed {q : Nat} (hb : Built stack) (hf : weight stack < fuel)
    (h : feed fuel stack token = .refused q) :
    ∃ refusing, Refuses token.terminal stack refusing ∧ q = state refusing := by
  induction fuel generalizing stack with
  | zero => exact absurd hf (Nat.not_lt_zero _)
  | succ fuel ih =>
    unfold feed at h
    split at h
    next ha =>
      cases h
      exact ⟨stack, .here ha, rfl⟩
    next => cases h
    next ha =>
      cases stack with
      | nil => cases (Table.action_accept ha).1
      | cons => cases h
    next production ha =>
      obtain ⟨reduced, hr⟩ := hb.exists_reduced ha
      rw [hr] at h
      have hweight := weight_lt hb ha hr
      obtain ⟨refusing, hrefuses, hq⟩ := ih (hb.reduce ha hr).1 (by omega) h
      exact ⟨refusing, .reduce ha hr hrefuses, hq⟩

theorem shifts_ne_endOfInput : ∀ row ∈ Table.rows.toList, ∀ entry ∈ row.shifts,
    entry.1 ≠ .endOfInput := by
  decide +kernel

theorem Takes.ne_endOfInput (h : Takes states terminal taken) : terminal ≠ .endOfInput := by
  induction h with
  | shift ha =>
    obtain ⟨row, hr, hl⟩ := Table.action_shift ha
    have hrow : row ∈ Table.rows.toList := Array.mem_def.mp (Array.mem_of_getElem? hr)
    exact shifts_ne_endOfInput row hrow _ (Table.mem_of_lookup hl)
  | reduce _ _ _ ih => exact ih

/-- Why a text cannot be read on: it ends too early, its next token is refused, or nothing that the
state admits stands there. -/
inductive Stops (stack : Stack) : List Char → Nat → Refusal → Prop where
  | endOfInput {index : Nat} {refusing : Stack} : Refuses .endOfInput stack refusing →
      Stops stack [] index (.endOfInput index (Table.expected (state refusing)))
  | token {text : List Char} {index n : Nat} {terminal : Terminal} {refusing : Stack} :
      StandsFirst (Table.accepts (state stack)) text (.token terminal) n →
      Refuses terminal stack refusing →
      Stops stack text index (.token ⟨terminal, String.ofList (text.take n), index⟩
        (Table.expected (state refusing)))
  | misplaced {text : List Char} {index n : Nat} {terminal : Terminal} :
      first (Table.accepts (state stack)) text = none →
      StandsFirst (fun _ => true) text (.token terminal) n →
      Stops stack text index (.token ⟨terminal, String.ofList (text.take n), index⟩
        (Table.expected (state stack)))
  | character {c : Char} {text : List Char} {index : Nat} :
      first (Table.accepts (state stack)) (c :: text) = none →
      Stops stack (c :: text) index (.character c index (Table.expected (state stack)))

theorem stops_nil (hb : Built stack) (h : scan [] 0 index stack = .error refusal) :
    Stops stack [] index refusal := by
  rw [scan] at h
  split at h
  next => cases h
  next hfeed => exact absurd rfl (shifts_of_feed hfeed).takes.ne_endOfInput
  next hfeed =>
    cases h
    obtain ⟨refusing, hrefuses, rfl⟩ := refuses_of_feed hb (weight_lt_feedFuel stack) hfeed
    exact .endOfInput hrefuses

theorem scan_error_cases (hb : Built stack) (h : scan text 0 index stack = .error refusal) :
    Stops stack text index refusal ∨
    (∃ lexeme n, StandsFirst (Table.accepts (state stack)) text lexeme n ∧
      lexeme.isTrivia = true) ∨
    ∃ terminal n stack', StandsFirst (Table.accepts (state stack)) text (.token terminal) n ∧
      Shifts ⟨terminal, String.ofList (text.take n), index⟩ stack stack' := by
  cases text with
  | nil => exact .inl (stops_nil hb h)
  | cons c rest =>
    rw [scan] at h
    split at h
    next terminal n hf =>
      have hs := first_eq_some_iff.mp hf
      dsimp only at h
      split at h
      next stack' hfeed => exact .inr (.inr ⟨terminal, n, stack', hs, shifts_of_feed hfeed⟩)
      next hfeed =>
        obtain ⟨_, _, _, _, hl, _⟩ := hs
        obtain rfl : terminal = .endOfInput := (finishes_of_feed hfeed).1
        cases hl
      next hfeed =>
        cases h
        obtain ⟨refusing, hrefuses, rfl⟩ := refuses_of_feed hb (weight_lt_feedFuel stack) hfeed
        exact .inl (.token hs hrefuses)
    next lexeme n hno hf =>
      refine .inr (.inl ⟨lexeme, n, first_eq_some_iff.mp hf, ?_⟩)
      cases lexeme with
      | token terminal => exact (hno terminal rfl).elim
      | blockComment | lineComment | blanks => rfl
    next hf =>
      dsimp only at h
      split at h
      next terminal n hall =>
        cases h
        exact .inl (.misplaced hf (first_eq_some_iff.mp hall))
      next =>
        cases h
        exact .inl (.character hf)

theorem Passes.of_trivia {lexeme : Lexeme}
    (hs : StandsFirst (Table.accepts (states.headD 0)) text lexeme n) (ht : lexeme.isTrivia = true)
    (hd : text.drop n = front ++ back)
    (h : Passes goal back True states (index + n) front tokens) :
    Passes goal back True states index (text.take n ++ front) tokens := by
  have hlength : (text.take n).length = n := List.length_take_of_le hs.bounds.2
  rw [← List.take_append_drop n text, hd, ← List.append_assoc] at hs
  refine .trivia hs ht ?_ (fun _ _ => trivial) ?_
  · rw [List.length_append, hlength]
    exact Nat.le_add_right _ _
  · rwa [List.drop_left' hlength]

theorem Passes.of_token (hs : StandsFirst (Table.accepts (states.headD 0)) text (.token terminal) n)
    (hk : Takes states terminal taken) (hd : text.drop n = front ++ back)
    (h : Passes goal back True taken (index + n) front tokens) :
    Passes goal back True states index (text.take n ++ front)
      (⟨terminal, String.ofList (text.take n), index⟩ :: tokens) := by
  have hlength : (text.take n).length = n := List.length_take_of_le hs.bounds.2
  have hle : n ≤ (text.take n ++ front).length := by
    rw [List.length_append, hlength]
    exact Nat.le_add_right _ _
  have hrest : Passes goal back True taken (index + n) ((text.take n ++ front).drop n) tokens := by
    rwa [List.drop_left' hlength]
  rw [← List.take_append_drop n text, hd, ← List.append_assoc] at hs
  have htoken := Passes.token hs hk hle hrest
  rwa [List.take_left' hlength] at htoken

/-- A text that has no derivation is read up to some place, and then reading stops. -/
theorem exists_stop (hb : Built stack) (h : scan text 0 index stack = .error refusal) :
    ∃ front back tokens final, text = front ++ back ∧
      Passes (path final) back True (path stack) index front tokens ∧
      ReadsOn stack tokens final ∧ Stops final back (index + front.length) refusal := by
  induction hlen : text.length using Nat.strongRecOn generalizing text index stack with
  | ind length ih =>
    rcases scan_error_cases hb h with
      hstop | ⟨lexeme, n, hs, ht⟩ | ⟨terminal, n, stack', hs, hshift⟩
    · exact ⟨[], text, [], stack, rfl, .here, .nil, hstop⟩
    all_goals
      obtain ⟨hn, hle⟩ := hs.bounds
      have hlength (front : List Char) :
          index + n + front.length = index + (text.take n ++ front).length := by
        rw [List.length_append, List.length_take_of_le hle, Nat.add_assoc]
      have hshort : (text.drop n).length < length := by
        rw [List.length_drop]
        omega
    · rw [scan_of_trivia hs ht] at h
      obtain ⟨front, back, tokens, final, hd, hpass, hreads, hstop⟩ := ih _ hshort hb h rfl
      refine ⟨text.take n ++ front, back, tokens, final, ?_, ?_, hreads, hlength front ▸ hstop⟩
      · rw [List.append_assoc, ← hd, List.take_append_drop]
      · exact .of_trivia (by rwa [headD_path]) ht hd hpass
    · rw [scan_of_shifts hb hs hshift] at h
      obtain ⟨front, back, tokens, final, hd, hpass, hreads, hstop⟩ :=
        ih _ hshort (hshift.built hb).1 h rfl
      refine ⟨text.take n ++ front, back, _, final, ?_, ?_, .cons hshift hreads,
        hlength front ▸ hstop⟩
      · rw [List.append_assoc, ← hd, List.take_append_drop]
      · exact .of_token (by rwa [headD_path]) hshift.takes hd hpass

structure Reached (front back : List Char) (tokens : List Token) (final : Stack) : Prop where
  passes : Passes (path final) back True [] 0 front tokens
  reads : ReadsOn [] tokens final

theorem Reached.built (h : Reached front back tokens final) : Built final :=
  (h.reads.built .nil).1

/-- A text that goes on with a new line has a derivation exactly if the rest of it is read from
where the front has led to. -/
theorem Reached.ofSource_iff (h : Reached front back tokens final) :
    ofSource (front ++ '\n' :: text) = .ok tree ↔
      ∃ more, Lexes (path final) (front.length + 1) text more ∧ Reads final more tree := by
  have hblank : isBlank '\n' = true := by decide
  have hbreaks : Breaks ('\n' :: text) := by
    rintro c ⟨⟩
    exact hblank
  have hlexes (all : List Token) : Lexes [] 0 (front ++ '\n' :: text) all ↔
      ∃ more, all = tokens ++ more ∧ Lexes (path final) (front.length + 1) text more := by
    rw [h.passes.lexes_iff hbreaks (by rintro - c ⟨⟩; rfl), Nat.zero_add]
    simp only [lexes_blank_iff hblank]
  simp only [ofSource_eq_ok_iff, ← reads_iff, hlexes]
  constructor
  · rintro ⟨_, ⟨more, rfl, hmore⟩, hreads⟩
    exact ⟨more, hmore, (h.reads.reads_iff .nil).mp hreads⟩
  · rintro ⟨more, hmore, hreads⟩
    exact ⟨tokens ++ more, ⟨more, rfl, hmore⟩, (h.reads.reads_iff .nil).mpr hreads⟩

theorem Reached.exists_completion (h : Reached front back tokens final) :
    ∃ more tree, ofSource (front ++ '\n' :: more) = .ok tree := by
  obtain ⟨words, hwords⟩ := h.built.exists_completes
  obtain ⟨⟨tree, hreads⟩, -⟩ :=
    hwords.reads rfl h.built (map_word_placed (front.length + 2) words)
  have hlex := lexes_spaced hwords.legible hreads
  exact ⟨spaced words, tree, h.ofSource_iff.mpr ⟨_, hlex, hreads⟩⟩

/-- A terminal may come next after the front of a text: some token of it can be placed on a new
line so that what follows can complete a program. -/
def Continues (front : List Char) (terminal : Terminal) : Prop :=
  ∃ lexeme more tree, ofSource (front ++ '\n' :: (lexeme ++ more)) = .ok tree ∧
    ⟨terminal, String.ofList lexeme, front.length + 1⟩ ∈ tree.tokens

/-- A terminal may come next exactly if the automaton takes it. -/
theorem Reached.continues_iff (h : Reached front back tokens final) :
    Continues front terminal ↔ ∃ taken, Takes (path final) terminal taken := by
  constructor
  · rintro ⟨lexeme, rest, tree, htree, hm⟩
    obtain ⟨more, hlex, hreads⟩ := h.ofSource_iff.mp htree
    have htokens : tree.tokens = tokens ++ more := by
      have hall := ((h.reads.reads_iff .nil).mpr hreads).sound .nil
      simpa [word] using hall.2.2
    rw [htokens, List.mem_append] at hm
    rcases hm with hm | hm
    · have hlt := h.passes.index_lt _ hm
      dsimp only at hlt
      omega
    · obtain ⟨_, taken, -, htakes⟩ := hlex.first_of_index hm rfl
      exact ⟨taken, htakes⟩
  · rintro ⟨taken, htakes⟩
    have hlegible := legible_ofTerminal htakes.ne_endOfInput
    have hword : Word.ofTerminal terminal = (terminal, (Word.ofTerminal terminal).2) := by
      cases terminal <;> rfl
    generalize (Word.ofTerminal terminal).2 = text at hword
    rw [hword] at hlegible
    have htoken : Takes (path final) (Token.mk terminal text (front.length + 1)).terminal taken :=
      htakes
    obtain ⟨shifted, hshifts, rfl⟩ := htoken.shifts rfl
    obtain ⟨hbuilt, -⟩ := hshifts.built h.built
    obtain ⟨words, hwords⟩ := hbuilt.exists_completes
    obtain ⟨⟨tree, hreads⟩, -⟩ :=
      hwords.reads rfl hbuilt (map_word_placed (front.length + 1 + text.length + 1) words)
    have hrest := lexes_spaced hwords.legible hreads
    have hlex := lexes_word hlegible (ends_spaced words) hshifts hrest
    have hall : Reads final (_ :: _) tree := .shift hshifts hreads
    refine ⟨text.toList, spaced words, tree, h.ofSource_iff.mpr ⟨_, hlex, hall⟩, ?_⟩
    have htokens := (((h.reads.reads_iff .nil).mpr hall).sound .nil).2.2
    rw [htokens, String.ofList_toList]
    simp

end ScriptLang.Derivation
