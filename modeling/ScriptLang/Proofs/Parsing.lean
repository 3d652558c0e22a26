import ScriptLang.Parse
import ScriptLang.Proofs.Grammar.Lexing
import ScriptLang.Proofs.Grammar.Lowering

/-! # What parsing accepts

A source text is parsed exactly if it splits into tokens that have a derivation and none of them
is a bad literal. The result is what the derivation means. There is at most one way to split the
text, one derivation of the tokens and one meaning of the derivation.
-/

namespace ScriptLang

open Derivation (Lexes)

/-- A derivation of a source text. -/
structure Derives (source : String) (tokens : List Token) (tree : Tree) : Prop where
  lexes : Lexes [] 0 source.toList tokens
  valid : tree.Valid
  root : tree.root = .n .program
  tokens_eq : tree.tokens = tokens

variable {source : String} {tokens : List Token} {tree : Tree} {program : Node}

theorem Derives.unique {tokens' : List Token} {tree' : Tree} (h : Derives source tokens tree)
    (h' : Derives source tokens' tree') : tokens = tokens' ∧ tree = tree' := by
  obtain rfl := h.lexes.unique h'.lexes
  refine ⟨rfl, Derivation.tree_unique h.valid h.root h'.valid h'.root ?_⟩
  rw [h.tokens_eq, h'.tokens_eq]

theorem ofSource_eq_ok_iff_derives :
    Derivation.ofSource source.toList = .ok tree ↔ ∃ tokens, Derives source tokens tree := by
  rw [Derivation.ofSource_eq_ok_iff]
  constructor
  · rintro ⟨tokens, hl, hv, hr, ht⟩
    exact ⟨tokens, hl, hv, hr, ht⟩
  · rintro ⟨tokens, hl, hv, hr, ht⟩
    exact ⟨tokens, hl, hv, hr, ht⟩

theorem Lowers.Program.unique {node node' : Node} (h : Program tree node)
    (h' : Program tree node') : node = node' := by
  have he := h.ofTree.symm.trans h'.ofTree
  cases he
  rfl

theorem parse_eq_ok_iff : parse source = .ok program ↔
    ∃ tokens tree, Derives source tokens tree ∧ (∀ token ∈ tokens, ¬token.IsBad) ∧
      Lowers.Program tree program := by
  constructor
  · intro h
    unfold parse at h
    split at h
    · cases h
    · rename_i tree hs
      obtain ⟨tokens, hd⟩ := ofSource_eq_ok_iff_derives.mp hs
      split at h
      · cases h
      · rename_i node ho
        obtain ⟨hg, _, he, hp⟩ := (Lowers.ofTree_eq_ok_iff hd.valid hd.root).mp ho
        cases he
        cases h
        exact ⟨tokens, tree, hd, hd.tokens_eq ▸ hg, hp⟩
      · rename_i phrase hne ho
        obtain ⟨-, node, he, -⟩ := (Lowers.ofTree_eq_ok_iff hd.valid hd.root).mp ho
        exact absurd he (hne node)
  · rintro ⟨tokens, tree, hd, -, hp⟩
    simp only [parse, ofSource_eq_ok_iff_derives.mpr ⟨tokens, hd⟩, hp.ofTree]

theorem exists_parse (h : (parse source).toOption.isSome = true) :
    ∃ program, parse source = .ok program := by
  cases hp : parse source with
  | ok program => exact ⟨program, rfl⟩
  | error error =>
    rw [hp] at h
    cases h

theorem parse_eq_error {error : ParseError} (h : (match parse source with
    | .error error => some error
    | .ok _ => none) = some error) : parse source = .error error := by
  split at h
  next hp =>
    cases h
    exact hp
  next => cases h

/-- Parsing succeeds exactly on the texts that have a derivation without bad literals, with its
one meaning, and reports an error for all others. -/
theorem parse_exact (source : String) :
    (∀ program, parse source = .ok program ↔
      ∃ tokens tree, Derives source tokens tree ∧ (∀ token ∈ tokens, ¬token.IsBad) ∧
        Lowers.Program tree program) ∧
    (∀ tokens tree tokens' tree', Derives source tokens tree → Derives source tokens' tree' →
      tokens = tokens' ∧ tree = tree') ∧
    (∀ tree node node', Lowers.Program tree node → Lowers.Program tree node' → node = node') ∧
    ((∃ error, parse source = .error error) ↔
      ¬∃ tokens tree, Derives source tokens tree ∧ ∀ token ∈ tokens, ¬token.IsBad) := by
  refine ⟨fun _ => parse_eq_ok_iff, fun _ _ _ _ h h' => h.unique h', fun _ _ _ h h' => h.unique h',
    ?_⟩
  constructor
  · rintro ⟨error, he⟩ ⟨tokens, tree, hd, hg⟩
    obtain ⟨program, hp⟩ : ∃ program, Lowers.Program tree program :=
      Lowers.stands_of_valid hd.valid (hd.tokens_eq ▸ hg) hd.root
    rw [parse_eq_ok_iff.mpr ⟨tokens, tree, hd, hg, hp⟩] at he
    cases he
  · intro hn
    cases hp : parse source with
    | error error => exact ⟨error, rfl⟩
    | ok program =>
      obtain ⟨tokens, tree, hd, hg, -⟩ := parse_eq_ok_iff.mp hp
      exact absurd ⟨tokens, tree, hd, hg⟩ hn

end ScriptLang
