import ScriptLang.Proofs.Grammar.Relocation
import ScriptLang.Proofs.Parsing
import ScriptLang.Proofs.Syntax.Passing

/-! # Trivia between tokens

A blank followed by any trivia may be inserted next to a token, at the start and at the end of a
source text, as long as the end is not inside a comment: the text still parses to the same program.
-/

namespace ScriptLang

open Derivation Lexeme

variable {states taken : List Nat} {index n : Nat} {tokens : List Token} {front back : List Char}
  {lexeme : Lexeme} {terminal : Terminal}

/-- The front of a text, which splits into tokens from a given index on, ends directly before or
after one of them, at the start of the text, or at its end with nothing but trivia after the last
token, so inside no comment. -/
inductive Gap (index : Nat) (tokens : List Token) (front back : List Char) : Prop where
  | start : front = [] → Gap index tokens front back
  | before {token : Token} : token ∈ tokens → token.index = index + front.length →
      Gap index tokens front back
  | after {token : Token} : token ∈ tokens →
      token.index + token.text.length = index + front.length → Gap index tokens front back
  | finish {lead trail : List Char} : front = lead ++ trail → back = [] → Trivia trail →
      (lead = [] ∨ ∃ token ∈ tokens, token.index + token.text.length = index + lead.length) →
      Gap index tokens front back

namespace Derivation

/-- A line comment reaches up to a line break or the end, where no token stands. -/
theorem not_standsFirst_after_line {accepts accepts' : Terminal → Bool} {m : Nat}
    (h : StandsFirst accepts (front ++ back) .lineComment front.length) :
    ¬StandsFirst accepts' back (.token terminal) m := by
  intro hs
  obtain ⟨_, _, _, _, hl, _⟩ := h
  have hline := lineLength_stops hl
  rw [List.drop_left] at hline
  cases back with
  | nil => exact StandsFirst.ne_nil hs rfl
  | cons c back =>
    obtain rfl : c = '\n' := hline c rfl
    obtain ⟨hblanks, -⟩ := hs.unique (standsFirst_blanks (by decide))
    cases hblanks

theorem gap_of_trivia (hs : StandsFirst (Table.accepts (states.headD 0)) (front ++ back) lexeme n)
    (ht : lexeme.isTrivia = true) (h : Lexes states (index + n) ((front ++ back).drop n) tokens)
    (hg : Gap index tokens front back) (hne : front ≠ []) :
    n ≤ front.length ∧ (lexeme = .lineComment → n ≠ front.length) ∧
      Gap (index + n) tokens (front.drop n) back := by
  cases hg with
  | start hnil => exact absurd hnil hne
  | @before token hm hi =>
    have hle := (h.index_le token hm).1
    have hn : n ≤ front.length := by omega
    refine ⟨hn, ?_, .before hm (by rw [List.length_drop]; omega)⟩
    rintro rfl rfl
    rw [List.drop_left] at h
    obtain ⟨_, _, htoken, -⟩ := h.first_of_index hm hi
    exact not_standsFirst_after_line hs htoken
  | @after token hm hi =>
    obtain ⟨hle, hpos⟩ := h.index_le token hm
    have hn : n < front.length := by omega
    exact ⟨hn.le, fun _ => hn.ne, .after hm (by rw [List.length_drop]; omega)⟩
  | @finish lead trail hfront hback htrail hlead =>
    subst hback
    rw [List.append_nil] at hs
    rcases hlead with rfl | ⟨token, hm, hi⟩
    · rw [List.nil_append] at hfront
      subst hfront
      obtain ⟨-, hdrop, hline⟩ := htrail.of_standsFirst hs
      exact ⟨hs.bounds.2, fun hl => (hline hl).ne, .finish rfl rfl hdrop (.inl rfl)⟩
    · obtain ⟨hle, hpos⟩ := h.index_le token hm
      have hn : n < lead.length := by omega
      have hlt : n < front.length := by
        rw [hfront, List.length_append]
        omega
      have hdrop : front.drop n = lead.drop n ++ trail := by
        rw [hfront, List.drop_append_of_le_length hn.le]
      have htoken : token.index + token.text.length = index + n + (lead.drop n).length := by
        rw [List.length_drop]
        omega
      exact ⟨hlt.le, fun _ => hlt.ne, .finish hdrop rfl htrail (.inr ⟨token, hm, htoken⟩)⟩

theorem gap_of_token {rest : List Token}
    (hs : StandsFirst (Table.accepts (states.headD 0)) (front ++ back) (.token terminal) n)
    (h : Lexes taken (index + n) ((front ++ back).drop n) rest)
    (hg : Gap index (⟨terminal, String.ofList ((front ++ back).take n), index⟩ :: rest) front back)
    (hne : front ≠ []) : n ≤ front.length ∧ Gap (index + n) rest (front.drop n) back := by
  have hlength : (String.ofList ((front ++ back).take n)).length = n := by
    rw [← String.length_toList, String.toList_ofList, List.length_take_of_le hs.bounds.2]
  have hpos := List.length_pos_iff.mpr hne
  cases hg with
  | start hnil => exact absurd hnil hne
  | @before token hm hi =>
    rcases List.mem_cons.mp hm with rfl | hm
    · dsimp only at hi
      omega
    · have hle := (h.index_le token hm).1
      exact ⟨by omega, .before hm (by rw [List.length_drop]; omega)⟩
  | @after token hm hi =>
    rcases List.mem_cons.mp hm with rfl | hm
    · dsimp only at hi
      rw [hlength] at hi
      exact ⟨by omega, .start (List.drop_eq_nil_of_le (by omega))⟩
    · have hle := (h.index_le token hm).1
      exact ⟨by omega, .after hm (by rw [List.length_drop]; omega)⟩
  | @finish lead trail hfront hback htrail hlead =>
    subst hback
    rw [List.append_nil] at hs hlength
    have hn := hs.bounds.2
    refine ⟨hn, ?_⟩
    rcases hlead with rfl | ⟨token, hm, hi⟩
    · rw [List.nil_append] at hfront
      obtain ⟨hfalse, -⟩ := (hfront ▸ htrail).of_standsFirst hs
      cases hfalse
    · have hdrop (hle : n ≤ lead.length) : front.drop n = lead.drop n ++ trail := by
        rw [hfront, List.drop_append_of_le_length hle]
      rcases List.mem_cons.mp hm with rfl | hm
      · rw [List.append_nil, hlength] at hi
        have hlead : n = lead.length := Nat.add_left_cancel hi
        exact .finish (hdrop hlead.le) rfl htrail (.inl (List.drop_eq_nil_of_le hlead.ge))
      · have hle := (h.index_le token hm).1
        refine .finish (hdrop (by omega)) rfl htrail (.inr ⟨token, hm, ?_⟩)
        rw [List.length_drop]
        omega

/-- A text is read up to a gap, and then on from there. -/
theorem Lexes.split {text : List Char} (h : Lexes states index text tokens)
    (ht : text = front ++ back) (hg : Gap index tokens front back) :
    ∃ goal before after, tokens = before ++ after ∧
      Passes goal back False states index front before ∧
      Lexes goal (index + front.length) back after := by
  induction h generalizing front with
  | done =>
    obtain ⟨rfl, rfl⟩ := List.append_eq_nil_iff.mp ht.symm
    exact ⟨_, [], [], rfl, .here, .done⟩
  | @trivia states index n text tokens lexeme hs htrivia h ih =>
    subst ht
    rcases eq_or_ne front [] with rfl | hne
    · exact ⟨states, [], tokens, rfl, .here, .trivia hs htrivia h⟩
    · obtain ⟨hn, hline, hg⟩ := gap_of_trivia hs htrivia h hg hne
      obtain ⟨goal, before, after, rfl, hpass, hlex⟩ := ih (List.drop_append_of_le_length hn) hg
      refine ⟨goal, before, after, rfl, .trivia hs htrivia hn hline hpass, ?_⟩
      rwa [List.length_drop, Nat.add_assoc, Nat.add_sub_cancel' hn] at hlex
  | @token states taken index n text tokens terminal hs hk h ih =>
    subst ht
    rcases eq_or_ne front [] with rfl | hne
    · exact ⟨states, [], _, rfl, .here, .token hs hk h⟩
    · obtain ⟨hn, hg⟩ := gap_of_token hs h hg hne
      obtain ⟨goal, before, after, rfl, hpass, hlex⟩ := ih (List.drop_append_of_le_length hn) hg
      rw [List.take_append_of_le_length hn]
      refine ⟨goal, _ :: before, after, rfl, .token hs hk hn hpass, ?_⟩
      rwa [List.length_drop, Nat.add_assoc, Nat.add_sub_cancel' hn] at hlex

def shifted (place distance index : Nat) : Nat := if index < place then index else index + distance

theorem Lexes.insert {blank : Char} {rest : List Char}
    (h : Lexes states index (front ++ back) tokens)
    (hg : Gap index tokens front back) (hb : isBlank blank = true) (ht : Trivia rest) :
    Lexes states index (front ++ (blank :: rest ++ back))
      (tokens.map (Token.moved (shifted (index + front.length) (rest.length + 1)))) := by
  obtain ⟨goal, before, after, rfl, hpass, hlex⟩ := h.split rfl hg
  have hbefore : before.map (Token.moved (shifted (index + front.length) (rest.length + 1))) =
      before := by
    refine (List.map_congr_left fun token hm => ?_).trans (List.map_id before)
    simp [Token.moved, shifted, hpass.index_lt token hm]
  have hafter : after.map (Token.moved (shifted (index + front.length) (rest.length + 1))) =
      after.map (Token.moved (· + (rest.length + 1))) := by
    refine List.map_congr_left fun token hm => ?_
    simp [Token.moved, shifted, Nat.not_lt.mpr (hlex.index_le token hm).1]
  rw [List.map_append, hbefore, hafter]
  refine hpass.lexes ?_ False.elim ?_
  · rintro c ⟨⟩
    exact hb
  · exact (Trivia.blank hb ht).lexes_iff.mpr (hlex.moved (rest.length + 1))

end Derivation

/-- A derivation of a text with trivia in a gap: the later tokens are further on. -/
theorem Derives.insert {source : String} {tree : Tree} {blank : Char} {rest : List Char}
    (h : Derives source tokens tree) (hs : source.toList = front ++ back)
    (hg : Gap 0 tokens front back) (hb : isBlank blank = true) (ht : Trivia rest) :
    ∃ place, Derives (String.ofList (front ++ blank :: rest ++ back))
      (tokens.map (Token.moved place)) (tree.moved place) := by
  refine ⟨shifted (0 + front.length) (rest.length + 1), ?_, h.valid.moved, ?_, ?_⟩
  · have hlex := h.lexes
    rw [hs] at hlex
    rw [String.toList_ofList, List.append_assoc]
    exact hlex.insert hg hb ht
  · rw [Tree.root_moved, h.root]
  · rw [Tree.tokens_moved, h.tokens_eq]

/-- Trivia that starts with a blank is insignificant between tokens. -/
theorem parse_insert {source : String} {program : Node} {tree : Tree} {blank : Char}
    {rest : List Char} (hp : parse source = .ok program)
    (hd : Derivation.ofSource source.toList = .ok tree) (hs : source.toList = front ++ back)
    (hg : Gap 0 tree.tokens front back) (hb : isBlank blank = true) (ht : Trivia rest) :
    parse (String.ofList (front ++ blank :: rest ++ back)) = .ok program := by
  obtain ⟨tokens, tree', hderives, hgood, hlowers⟩ := parse_eq_ok_iff.mp hp
  obtain rfl : tree' = tree := by
    have he := ofSource_eq_ok_iff_derives.mpr ⟨tokens, hderives⟩
    exact Except.ok.inj (he.symm.trans hd)
  rw [hderives.tokens_eq] at hg
  obtain ⟨place, hderived⟩ := hderives.insert hs hg hb ht
  have hgood' : ∀ token ∈ tokens.map (Token.moved place), ¬token.IsBad := by
    intro token hm
    obtain ⟨original, horiginal, rfl⟩ := List.mem_map.mp hm
    exact hgood original horiginal
  exact parse_eq_ok_iff.mpr ⟨_, _, hderived, hgood', hlowers.moved⟩

theorem parse_insert_comments :
    let program : Node := .program [.exprStmt (.ident (.str "x"))]
    let comments : List Char := "/*a*///b\n".toList
    (parse "x ;" = .ok program ∧ Trivia comments ∧
      ∃ tree, Derivation.ofSource "x ;".toList = .ok tree ∧ Gap 0 tree.tokens ['x'] [' ', ';']) ∧
      parse (String.ofList (['x'] ++ '\t' :: comments ++ [' ', ';'])) = .ok program := by
  intro program comments
  have hx : IsName "x".toList := by decide
  have hp : parse program.render = .ok program :=
    parse_render (.mk (List.forall_mem_singleton.mpr (.expr (.ident hx))))
  rw [show program.render = "x ;" by decide] at hp
  have hline : Trivia "//b\n".toList := @Trivia.line ['b'] [] (by decide) .nil
  have ht : Trivia comments := @Trivia.block ['a'] _ (by decide) hline
  have htokens : (Derivation.ofSource "x ;".toList).toOption.map Tree.tokens =
      some [⟨.ident, "x", 0⟩, ⟨.semicolon, ";", 2⟩] := by decide +kernel
  cases hd : Derivation.ofSource "x ;".toList with
  | error refusal =>
    rw [hd] at htokens
    cases htokens
  | ok tree =>
    rw [hd] at htokens
    have htree : tree.tokens = [⟨.ident, "x", 0⟩, ⟨.semicolon, ";", 2⟩] := Option.some.inj htokens
    have hg : Gap 0 tree.tokens ['x'] [' ', ';'] := .after (htree ▸ List.mem_cons_self) rfl
    exact ⟨⟨hp, ht, tree, rfl, hg⟩, parse_insert hp hd rfl hg (by decide) ht⟩

end ScriptLang
