import ScriptLang.Proofs.Grammar.Pending
import ScriptLang.Proofs.Syntax.RoundTrip

/-! # Completing what has been read

Whatever the machine has read can be completed to a program. The production that is pending in the
state on top is read to its end, with an identifier for every operand and an empty block for every
block. It is then reduced, and so on until the whole program has been read.
-/

namespace ScriptLang

open Derivation Lexeme Lowers
open Table (Pending Covers Follows ComesNext isRest goto accepting rank)

def Word.ofTerminal : Terminal → Word
  | .ident => .name "x"
  | .number => (.number, Integer.text 0)
  | .string => (.string, stringText "")
  | terminal => .fixed terminal

variable {terminal : Terminal} {symbol : GrammarSymbol} {symbols : List GrammarSymbol}
  {words : List Word} {tokens rest : List Token} {production : Production} {dot n next : Nat}
  {states : List Nat} {stack : Stack} {tree : Tree}

theorem legible_ofTerminal (h : terminal ≠ .endOfInput) : (Word.ofTerminal terminal).Legible := by
  cases terminal with
  | ident => exact .name (by decide)
  | number => exact legible_text 0
  | string => exact legible_stringText ""
  | endOfInput => exact absurd rfl h
  | _ => exact .fixed (by decide)

def GrammarSymbol.shortest : GrammarSymbol → List Word
  | .t terminal => [.ofTerminal terminal]
  | .n .block => [.fixed .lbrace, .fixed .rbrace]
  | .n _ => [.ofTerminal .ident]

theorem spells_operand : ∀ level, Spells (Nonterminal.ofLevel level) [Word.ofTerminal .ident]
    (Expr · (.ident (.str "x"))) := by
  have hprimary : Spells (Nonterminal.ofLevel 6) [Word.ofTerminal .ident]
      (Expr · (.ident (.str "x"))) :=
    spells_token (.name (by decide)) (by decide) fun token ht htext => htext ▸ .ident ht
  intro level
  rcases Nat.le_total level 6 with hle | hle
  · exact hprimary.climbTo hle
  · obtain ⟨k, rfl⟩ := Nat.exists_eq_add_of_le hle
    have hlevel : Nonterminal.ofLevel (6 + k) = Nonterminal.ofLevel 6 := by
      rw [Nat.add_comm]
      rfl
    rwa [hlevel]

theorem spells_shortest (h : isRest symbol = true) :
    SpellAll [symbol] symbol.shortest fun _ => True := by
  cases symbol with
  | t terminal =>
    have hend : terminal ≠ .endOfInput := by
      rintro rfl
      cases h
    have hword : Word.ofTerminal terminal = (terminal, (Word.ofTerminal terminal).2) := by
      cases terminal <;> rfl
    have hl := legible_ofTerminal hend
    rw [hword] at hl
    rw [GrammarSymbol.shortest, hword]
    exact (SpellAll.token hl .nil).imp fun _ _ => trivial
  | n nonterminal =>
    cases nonterminal with
    | block =>
      have hb : Spells .block _ (Block · (.block [])) := spells_of_block (.mk (by simp))
      exact hb.one.imp fun _ _ => trivial
    | expression => exact (spells_operand 0).expression.one.imp fun _ _ => trivial
    | equality => exact (spells_operand 1).one.imp fun _ _ => trivial
    | relational => exact (spells_operand 2).one.imp fun _ _ => trivial
    | additive => exact (spells_operand 3).one.imp fun _ _ => trivial
    | multiplicative => exact (spells_operand 4).one.imp fun _ _ => trivial
    | unary => exact (spells_operand 5).one.imp fun _ _ => trivial
    | _ => cases h

theorem spells_rest (h : ∀ symbol ∈ symbols, isRest symbol = true) :
    SpellAll symbols (symbols.flatMap GrammarSymbol.shortest) fun _ => True := by
  induction symbols with
  | nil => exact SpellAll.nil.imp fun _ _ => trivial
  | cons symbol symbols ih =>
    obtain ⟨hs, hrest⟩ := List.forall_mem_cons.mp h
    exact ((spells_shortest hs).append (ih hrest)).imp fun _ _ => trivial

namespace Derivation

/-- Words that complete what has led to the given states: those for the rest of the pending
production, and then those that complete what it is reduced to. -/
inductive Completes : List Nat → List Word → Prop where
  | done {below : List Nat} : Completes (accepting :: below) []
  | pending {states : List Nat} {production : Production} {dot next : Nat} {words : List Word} :
      Pending (states.headD 0) production dot →
      goto ((states.drop dot).headD 0) production.lhs = some next →
      Completes (next :: states.drop dot) words →
      Completes states ((production.rhs.drop dot).flatMap GrammarSymbol.shortest ++ words)

theorem Completes.legible (h : Completes states words) : ∀ word ∈ words, word.Legible := by
  induction h with
  | done => simp
  | pending hp _ _ ih =>
    exact List.forall_mem_append.mpr ⟨(spells_rest hp.fits.rest).legible, ih⟩

def completed (stack : Stack) (production : Production) (dot next : Nat) (rest : List Tree) :
    Stack :=
  (next, .node production ((stack.take dot).reverse.map Prod.snd ++ rest)) :: stack.drop dot

theorem path_completed {trees : List Tree} : path (completed stack production dot next trees) =
    next :: (path stack).drop dot :=
  congrArg _ List.map_drop

theorem Built.pending_trees {trees : List Tree} (h : Built stack)
    (hp : Pending (state stack) production dot) (hv : ∀ tree ∈ trees, tree.Valid)
    (hr : trees.map Tree.root = production.rhs.drop dot) :
    (∀ child ∈ (stack.take dot).reverse.map Prod.snd ++ trees, child.Valid) ∧
      ((stack.take dot).reverse.map Prod.snd ++ trees).map Tree.root = production.rhs := by
  constructor
  · refine List.forall_mem_append.mpr ⟨fun child hc => ?_, hv⟩
    simp only [List.map_reverse, List.mem_reverse, List.mem_map] at hc
    obtain ⟨entry, he, rfl⟩ := hc
    exact h.valid entry (List.mem_of_mem_take he)
  · have hroots := congrArg List.reverse (h.roots_pending hp).1
    rw [List.reverse_reverse, roots, ← List.map_reverse] at hroots
    rw [List.map_append, List.map_map, hr]
    exact (congrArg (· ++ production.rhs.drop dot) hroots).trans (List.take_append_drop dot _)

theorem Built.completed {trees : List Tree} (h : Built stack)
    (hp : Pending (state stack) production dot) (hv : ∀ tree ∈ trees, tree.Valid)
    (hr : trees.map Tree.root = production.rhs.drop dot)
    (hg : goto (state (stack.drop dot)) production.lhs = some next) :
    Built (completed stack production dot next trees) := by
  obtain ⟨hvalid, hroots⟩ := h.pending_trees hp hv hr
  exact .cons (h.drop dot) (.node hp.mem hroots hvalid) hg

theorem weight_completed_lt {trees : List Tree} (h : Built stack)
    (hp : Pending (state stack) production dot) :
    weight (Derivation.completed stack production dot next trees) < weight stack := by
  obtain ⟨hroots, hle⟩ := h.roots_pending hp
  have hfits := hp.fits
  have hrank := Table.rank_le (.n production.lhs)
  simp only [weight, Derivation.completed, Tree.root_node, List.length_drop]
  cases stack with
  | nil =>
    obtain rfl : dot = 0 := by simpa using hle
    simp [(hfits.start rfl).2, rank]
  | cons entry below =>
    rcases dot with _ | _ | dot
    · have hnil := h.eq_nil (hfits.start rfl).1
      cases hnil
    · have hone : production.rhs.take 1 = [entry.2.root] := by
        rw [← List.reverse_inj, ← hroots]
        rfl
      have hlt := hfits.climbs _ hone
      simp only [List.length_cons]
      omega
    · simp only [List.length_cons] at hle ⊢
      omega

/-- There are words that complete what has been read. -/
theorem Built.exists_completes (h : Built stack) : ∃ words, Completes (path stack) words := by
  induction hw : weight stack using Nat.strongRecOn generalizing stack with
  | ind size ih =>
    by_cases hs : state stack = accepting
    · cases h with
      | nil => cases hs
      | @cons below top tree =>
        obtain rfl : top = accepting := hs
        exact ⟨[], .done⟩
    · obtain ⟨row, hr⟩ := h.exists_row
      obtain ⟨production, dot, hp⟩ := Table.exists_pending hr hs
      obtain ⟨next, hg⟩ := h.exists_goto hp
      obtain ⟨trees, hv, hroots, -⟩ := (spells_rest hp.fits.rest).derives
        (((production.rhs.drop dot).flatMap GrammarSymbol.shortest).map fun word =>
          ⟨word.1, word.2, 0⟩) (by simp [Function.comp_def, Token.word])
      have hlt : weight (Derivation.completed stack production dot next trees) < weight stack :=
        weight_completed_lt h hp
      obtain ⟨words, hwords⟩ := ih _ (hw ▸ hlt) (h.completed hp hv hroots hg) rfl
      rw [path_completed] at hwords
      refine ⟨_, .pending (by rwa [headD_path]) ?_ hwords⟩
      rwa [path, ← List.map_drop, ← path, headD_path]

def Awaits : Stack → Terminal → Prop
  | [], _ => True
  | (_, tree) :: below, terminal =>
    ∀ nonterminal, tree.root = .n nonterminal → Follows (state below) nonterminal terminal

theorem Built.covers (h : Built stack)
    (hc : Covers production terminal (state (stack.drop n))
      ((roots (stack.take n)).reverse ++ symbols)) :
    Covers production terminal (state stack) symbols := by
  induction h generalizing n symbols with
  | nil => simpa [roots] using hc
  | @cons below next tree _ _ hm ih =>
    cases n with
    | zero => simpa [roots] using hc
    | succ n =>
      have hc' : Covers production terminal (state below) (tree.root :: symbols) :=
        ih (by simpa [roots] using hc)
      obtain ⟨target, htarget, -, hrest⟩ := hc'
      cases hm.symm.trans htarget
      exact hrest

/-- What comes next after the first symbols of a production may follow the last of them. -/
theorem Built.awaits {other : Terminal} (h : Built stack) (hn : 0 < n)
    (hc : Covers production terminal (state (stack.drop n))
      ((roots (stack.take n)).reverse ++ symbols)) (ho : ComesNext terminal symbols other) :
    Awaits stack other := by
  cases h with
  | nil => trivial
  | @cons below next tree hb _ hm =>
    obtain ⟨n, rfl⟩ := Nat.exists_eq_add_one_of_ne_zero (Nat.ne_zero_of_lt hn)
    have hc' : Covers production terminal (state below) (tree.root :: symbols) :=
      hb.covers (n := n) (by simpa [roots] using hc)
    obtain ⟨_, _, hfollows, _⟩ := hc'
    exact fun nonterminal hr => hfollows nonterminal hr other ho

/-- Tokens with the words that complete what has been read are read. -/
theorem Completes.reads (h : Completes states words) (hs : states = path stack) (hb : Built stack)
    (ht : tokens.map Token.word = words) :
    (∃ tree, Reads stack tokens tree) ∧ Awaits stack (look tokens) := by
  induction h generalizing stack tokens with
  | done =>
    obtain rfl := List.map_eq_nil_iff.mp ht
    cases hb with
    | nil => cases hs
    | @cons below top tree hb hv hm =>
      obtain ⟨rfl, -⟩ := List.cons.inj hs
      obtain ⟨hzero, hroot⟩ := Table.move_accepting hm
      refine ⟨⟨tree, .finish (.accept rfl)⟩, fun nonterminal hr => ?_⟩
      obtain rfl : nonterminal = .program := GrammarSymbol.n.inj (hr.symm.trans hroot)
      rw [hroot] at hm
      exact ⟨accepting, hm, hzero ▸ Table.has_bits_iff.mpr (List.mem_singleton_self _)⟩
  | @pending states production dot next words hp hg _ ih =>
    subst hs
    rw [headD_path] at hp
    rw [path, ← List.map_drop, ← path, headD_path] at hg
    obtain ⟨front, back, rfl, hfront, hback⟩ := List.map_eq_append_iff.mp ht
    obtain ⟨trees, hv, hroots, rfl, -⟩ := (spells_rest hp.fits.rest).derives front hfront
    obtain ⟨hvalid, hall⟩ := hb.pending_trees hp hv hroots
    obtain ⟨⟨tree, hreads⟩, hawaits⟩ :=
      ih path_completed.symm (hb.completed hp hv hroots hg) hback
    -- The whole right-hand side can be read from below, so its rest can be read from here.
    have hcov : Covers production (look back) (state (stack.drop dot))
        ((roots (stack.take dot)).reverse ++ trees.map Tree.root) := by
      rw [(hb.roots_pending hp).1, List.reverse_reverse, hroots, List.take_append_drop]
      exact Table.covers_of_follows (hawaits _ rfl) hp.mem
    constructor
    · refine ⟨tree, ?_⟩
      have hstart := reads_rest hp.mem hall hvalid
        (fun child hc _ _ _ => reads_tree (hvalid child hc)) hg hreads rfl
        (by rw [List.take_append_drop]; exact hb.covers hcov)
      rwa [List.take_append_drop] at hstart
    · rcases Nat.eq_zero_or_pos dot with rfl | hd
      · rw [hb.eq_nil (hp.fits.start rfl).1]
        trivial
      · refine hb.awaits hd hcov (comesNext_look hv fun other ho => ?_)
        have hstarts := Table.startsChecked_of_mem hp.mem
        simp only [Table.startsChecked, Bool.and_eq_true, List.all_eq_true, bne_iff_ne] at hstarts
        exact hstarts.1 _ (hall ▸ List.mem_map_of_mem (List.mem_append_right _ ho))

end Derivation

end ScriptLang
