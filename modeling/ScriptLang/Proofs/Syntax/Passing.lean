import ScriptLang.Proofs.Syntax.Trivia

/-! # Texts that are read up to a place

The lexemes of a text that end where its front ends stay the same when something else follows,
as long as that starts with a blank: the automaton is led to the same states. A line comment at the
end of the front needs its line to end there.
-/

namespace ScriptLang.Derivation

open Lexeme

variable {accepts : Terminal → Bool} {states taken goal : List Nat} {index n : Nat}
  {front rest back : List Char} {tokens more : List Token} {line : Prop} {token : Token}

/-- Lexemes that end where the front of a text does lead from the given states to the goal.
Whether the last one may be a line comment is said by `line`. -/
inductive Passes (goal : List Nat) (rest : List Char) (line : Prop) :
    List Nat → Nat → List Char → List Token → Prop where
  | here {index : Nat} : Passes goal rest line goal index [] []
  | trivia {states : List Nat} {index n : Nat} {front : List Char} {tokens : List Token}
      {lexeme : Lexeme} :
      StandsFirst (Table.accepts (states.headD 0)) (front ++ rest) lexeme n →
      lexeme.isTrivia = true → n ≤ front.length →
      (lexeme = .lineComment → n = front.length → line) →
      Passes goal rest line states (index + n) (front.drop n) tokens →
      Passes goal rest line states index front tokens
  | token {states taken : List Nat} {index n : Nat} {front : List Char} {tokens : List Token}
      {terminal : Terminal} :
      StandsFirst (Table.accepts (states.headD 0)) (front ++ rest) (.token terminal) n →
      Takes states terminal taken → n ≤ front.length →
      Passes goal rest line taken (index + n) (front.drop n) tokens →
      Passes goal rest line states index front
        (⟨terminal, String.ofList (front.take n), index⟩ :: tokens)

theorem Lexes.index_le (h : Lexes states index front tokens) :
    ∀ token ∈ tokens, index ≤ token.index ∧ 0 < token.text.length := by
  induction h with
  | done => simp
  | trivia _ _ _ ih => exact fun token ht => (ih token ht).imp_left (Nat.le_add_right _ _).trans
  | token hs _ _ ih =>
    intro token ht
    rcases List.mem_cons.mp ht with rfl | ht
    · constructor
      · exact Nat.le_refl _
      · obtain ⟨hpos, hn⟩ := hs.bounds
        rw [← String.length_toList, String.toList_ofList, List.length_take_of_le hn]
        exact hpos
    · exact (ih token ht).imp_left (Nat.le_add_right _ _).trans

theorem Lexes.first_of_index (h : Lexes states index front tokens)
    (hm : token ∈ tokens) (hi : token.index = index) : ∃ n taken,
      StandsFirst (Table.accepts (states.headD 0)) front (.token token.terminal) n ∧
        Takes states token.terminal taken := by
  cases h with
  | done => cases hm
  | trivia hs _ h =>
    have hpos := hs.bounds.1
    have hle := (h.index_le token hm).1
    omega
  | token hs hk h =>
    rcases List.mem_cons.mp hm with rfl | hm
    · exact ⟨_, _, hs, hk⟩
    · have hpos := hs.bounds.1
      have hle := (h.index_le token hm).1
      omega

theorem Lexes.index_lt (h : Lexes states index front tokens) :
    ∀ token ∈ tokens, token.index < index + front.length := by
  induction h with
  | done => simp
  | trivia hs _ _ ih =>
    intro token ht
    have hlt := ih token ht
    have hn := hs.bounds.2
    rw [List.length_drop] at hlt
    omega
  | token hs _ _ ih =>
    intro token ht
    obtain ⟨hpos, hn⟩ := hs.bounds
    rcases List.mem_cons.mp ht with rfl | ht
    · dsimp only
      omega
    · have hlt := ih token ht
      rw [List.length_drop] at hlt
      omega

theorem Passes.index_lt (h : Passes goal rest line states index front tokens) :
    ∀ token ∈ tokens, token.index < index + front.length := by
  induction h with
  | here => simp
  | trivia _ _ hn _ _ ih =>
    intro token ht
    have hlt := ih token ht
    rw [List.length_drop] at hlt
    omega
  | token hs _ hn _ ih =>
    intro token ht
    rcases List.mem_cons.mp ht with rfl | ht
    · have hpos := hs.bounds.1
      dsimp only
      omega
    · have hlt := ih token ht
      rw [List.length_drop] at hlt
      omega

theorem slash_shifts : ∀ row ∈ Table.rows.toList, ∀ entry ∈ row.shifts, entry.1 = .slash →
    Table.accepts entry.2 .star = false := by
  decide +kernel

theorem not_accepts_star {terminal : Terminal} (h : Takes states terminal taken)
    (ht : terminal = .slash) : Table.accepts (taken.headD 0) .star = false := by
  induction h with
  | shift ha =>
    obtain ⟨row, hr, hl⟩ := Table.action_shift ha
    have hrow : row ∈ Table.rows.toList := Array.mem_def.mp (Array.mem_of_getElem? hr)
    exact slash_shifts row hrow _ (Table.mem_of_lookup hl) ht
  | reduce _ _ _ ih => exact ih ht

theorem eq_star_of_standsFirst {lexeme : Lexeme} {text : List Char}
    (h : StandsFirst accepts ('*' :: text) lexeme n) : lexeme = .token .star := by
  obtain ⟨_, _, _, _, hl, _⟩ := h
  cases lexeme with
  | token terminal =>
    have hstar : ∀ terminal ∈ Terminal.fixed, ∀ spelling ∈ terminal.spelling?,
        spelling.toList.head? = some '*' → terminal = .star := by decide
    obtain ⟨hm, spelling, hs, hc, -⟩ := mem_fixed_of_isSeparator (by decide) hl
    rw [hstar terminal hm spelling hs hc]
  | blockComment => cases hl
  | lineComment => cases hl
  | blanks => cases hl

/-- Where a slash is followed by a star in a text that is read, the two open a comment. -/
theorem Passes.not_slash_star {terminal : Terminal}
    (hs : StandsFirst accepts (front ++ rest) (.token terminal) n)
    (hk : Takes states terminal taken)
    (h : Passes goal rest line taken index (front.drop n) tokens) (tail : List Char) :
    front ≠ '/' :: '*' :: tail := by
  rintro rfl
  have hslash : ∀ terminal ∈ Terminal.fixed, ∀ spelling ∈ terminal.spelling?,
      spelling.toList.head? = some '/' → terminal = .slash ∧ spelling.length = 1 := by decide
  obtain ⟨_, _, _, _, hl, _⟩ := hs
  obtain ⟨hm, spelling, hspelling, hc, rfl⟩ := mem_fixed_of_isSeparator (by decide) hl
  obtain ⟨rfl, hone⟩ := hslash terminal hm spelling hspelling hc
  have hstar := not_accepts_star hk rfl
  rw [hone] at h
  cases h with
  | trivia hs ht =>
    rw [eq_star_of_standsFirst hs] at ht
    cases ht
  | token hs =>
    cases eq_star_of_standsFirst hs
    obtain ⟨_, _, _, ha, _⟩ := hs
    cases hstar.symm.trans ha

theorem blanks_of_standsFirst (h : StandsFirst accepts (front ++ rest) .blanks n)
    (hn : n ≤ front.length) : ∀ c ∈ front.take n, isBlank c = true := by
  obtain ⟨_, _, _, _, hl, _⟩ := h
  have hlength : ((front ++ rest).takeWhile isBlank).length = n := by
    simp only [length?, blanksLength] at hl
    split_ifs at hl
    exact Option.some.inj hl
  have htake := take_length_takeWhile isBlank (front ++ rest)
  rw [hlength, List.take_append_of_le_length hn] at htake
  rw [htake]
  exact fun c hc => of_mem_takeWhile hc

/-- What is read up to a place is read in the same way when something else follows, and then that
is read. -/
theorem Passes.lexes_iff {all : List Token} (h : Passes goal rest line states index front tokens)
    (hb : Breaks back) (hline : line → ∀ c ∈ back.head?, c = '\n') :
    Lexes states index (front ++ back) all ↔
      ∃ more, all = tokens ++ more ∧ Lexes goal (index + front.length) back more := by
  induction h generalizing all with
  | here => simp
  | @trivia states index n front tokens lexeme hs ht hn hl _ ih =>
    have hdrop : (front ++ back).drop n = front.drop n ++ back := List.drop_append_of_le_length hn
    have hskip : Lexes states index (front ++ back) all ↔
        Lexes states (index + n) (front.drop n ++ back) all := by
      cases lexeme with
      | token => cases ht
      | blockComment => rw [lexes_trivia_iff (standsFirst_blockComment_cut hs hn) rfl, hdrop]
      | lineComment =>
        have hcut := standsFirst_lineComment_cut hs hn fun he => hline (hl rfl he)
        rw [lexes_trivia_iff hcut rfl, hdrop]
      | blanks =>
        -- They may go on in what follows, so they are skipped instead.
        have hblank : ∀ c ∈ front.take n, isBlank c = true := blanks_of_standsFirst hs hn
        have hsplit : front ++ back = front.take n ++ (front.drop n ++ back) := by
          rw [← List.append_assoc, List.take_append_drop]
        rw [hsplit, (Trivia.of_blanks hblank).lexes_iff, List.length_take_of_le hn]
    rw [hskip, ih, List.length_drop, Nat.add_assoc, Nat.add_sub_cancel' hn]
  | @token states taken index n front tokens terminal hs hk hn h ih =>
    have hdrop : (front ++ back).drop n = front.drop n ++ back := List.drop_append_of_le_length hn
    have hcut := standsFirst_token_cut hs hn hb (h.not_slash_star hs hk)
    have hlength : index + n + (front.drop n).length = index + front.length := by
      rw [List.length_drop, Nat.add_assoc, Nat.add_sub_cancel' hn]
    rw [lexes_token_iff hcut, hdrop, List.take_append_of_le_length hn, ← hlength]
    constructor
    · rintro ⟨other, later, hother, hlater, rfl⟩
      obtain rfl := hk.unique hother
      obtain ⟨more, rfl, hmore⟩ := ih.mp hlater
      exact ⟨more, rfl, hmore⟩
    · rintro ⟨more, rfl, hmore⟩
      exact ⟨taken, tokens ++ more, hk, ih.mpr ⟨more, rfl, hmore⟩, rfl⟩

theorem Passes.lexes (h : Passes goal rest line states index front tokens) (hb : Breaks back)
    (hline : line → ∀ c ∈ back.head?, c = '\n')
    (hback : Lexes goal (index + front.length) back more) :
    Lexes states index (front ++ back) (tokens ++ more) :=
  (h.lexes_iff hb hline).mpr ⟨more, rfl, hback⟩

end ScriptLang.Derivation
