import ScriptLang.Proofs.Grammar.Lookahead
import ScriptLang.Proofs.Grammar.Stack

/-! # Acceptance

The machine reads exactly the token sequences that have a derivation, and the tree it builds is the
only one. Soundness follows the steps of the machine, completeness the nodes of the derivation.
-/

namespace ScriptLang.Derivation

open Table (action move Follows Covers ComesNext)

variable {stack stack' reduced : Stack} {token : Token} {tokens rest : List Token} {tree : Tree}
  {production : Production} {fuel : Nat}

/-- The machine shifts a token, after any reductions that it asks for. -/
inductive Shifts (token : Token) : Stack → Stack → Prop where
  | shift {stack : Stack} {next : Nat} : action (state stack) token.terminal = some (.shift next) →
      Shifts token stack ((next, .leaf token) :: stack)
  | reduce {stack reduced shifted : Stack} {production : Production} :
      action (state stack) token.terminal = some (.reduce production) →
      reduce production stack = some reduced → Shifts token reduced shifted →
      Shifts token stack shifted

inductive Finishes : Stack → Tree → Prop where
  | accept {top : Nat} {tree : Tree} {below : Stack} : action top .endOfInput = some .accept →
      Finishes ((top, tree) :: below) tree
  | reduce {stack reduced : Stack} {production : Production} {tree : Tree} :
      action (state stack) .endOfInput = some (.reduce production) →
      reduce production stack = some reduced → Finishes reduced tree → Finishes stack tree

/-- The machine shifts tokens one by one and then accepts a tree. -/
inductive Reads : Stack → List Token → Tree → Prop where
  | finish {stack : Stack} {tree : Tree} : Finishes stack tree → Reads stack [] tree
  | shift {stack shifted : Stack} {token : Token} {rest : List Token} {tree : Tree} :
      Shifts token stack shifted → Reads shifted rest tree → Reads stack (token :: rest) tree

theorem shifts_of_feed (h : feed fuel stack token = .shifted stack') :
    Shifts token stack stack' := by
  induction fuel generalizing stack with
  | zero => cases h
  | succ fuel ih =>
    unfold feed at h
    split at h
    next => cases h
    next next ha =>
      cases h
      exact .shift ha
    next => cases stack <;> cases h
    next production ha =>
      split at h
      next reduced hr => exact .reduce ha hr (ih h)
      next => cases h

theorem finishes_of_feed (h : feed fuel stack token = .accepted tree) :
    token.terminal = .endOfInput ∧ Finishes stack tree := by
  induction fuel generalizing stack with
  | zero => cases h
  | succ fuel ih =>
    unfold feed at h
    split at h
    next => cases h
    next => cases h
    next ha =>
      obtain ⟨_, ht⟩ := Table.action_accept ha
      cases stack with
      | nil => cases h
      | cons entry below =>
        cases h
        exact ⟨ht, .accept (ht ▸ ha)⟩
    next production ha =>
      split at h
      next reduced hr =>
        obtain ⟨ht, hf⟩ := ih h
        exact ⟨ht, .reduce (ht ▸ ha) hr hf⟩
      next => cases h

theorem feed_of_shifts (hb : Built stack) (h : Shifts token stack stack')
    (hf : weight stack < fuel) : feed fuel stack token = .shifted stack' := by
  induction h generalizing fuel with
  | shift ha =>
    obtain ⟨fuel, rfl⟩ := Nat.exists_eq_add_one_of_ne_zero (Nat.ne_zero_of_lt hf)
    simp only [feed, ha]
  | reduce ha hr _ ih =>
    obtain ⟨fuel, rfl⟩ := Nat.exists_eq_add_one_of_ne_zero (Nat.ne_zero_of_lt hf)
    have hw := weight_lt hb ha hr
    simp only [feed, ha, hr]
    exact ih (hb.reduce ha hr).1 (by omega)

theorem feed_of_finishes (hb : Built stack) (h : Finishes stack tree)
    (ht : token.terminal = .endOfInput) (hf : weight stack < fuel) :
    feed fuel stack token = .accepted tree := by
  induction h generalizing fuel with
  | accept ha =>
    obtain ⟨fuel, rfl⟩ := Nat.exists_eq_add_one_of_ne_zero (Nat.ne_zero_of_lt hf)
    simp only [feed, state, ht, ha, Derivation.accept]
  | reduce ha hr _ ih =>
    obtain ⟨fuel, rfl⟩ := Nat.exists_eq_add_one_of_ne_zero (Nat.ne_zero_of_lt hf)
    have hw := weight_lt hb ha hr
    simp only [feed, ht, ha, hr]
    exact ih (hb.reduce ha hr).1 (by omega)

theorem weight_lt_feedFuel (stack : Stack) : weight stack < feedFuel stack := by
  cases stack with
  | nil => simp [weight, feedFuel]
  | cons entry below =>
    have hr := Table.rank_le entry.2.root
    simp only [weight, feedFuel, List.length_cons]
    omega

theorem feed_eq_shifted_iff (hb : Built stack) :
    feed (feedFuel stack) stack token = .shifted stack' ↔ Shifts token stack stack' :=
  ⟨shifts_of_feed, fun h => feed_of_shifts hb h (weight_lt_feedFuel stack)⟩

theorem feed_eq_accepted_iff (hb : Built stack) (token : Token)
    (ht : token.terminal = .endOfInput) :
    feed (feedFuel stack) stack token = .accepted tree ↔ Finishes stack tree :=
  ⟨fun h => (finishes_of_feed h).2, fun h => feed_of_finishes hb h ht (weight_lt_feedFuel stack)⟩

theorem Shifts.built (h : Shifts token stack stack') (hb : Built stack) :
    Built stack' ∧ word stack' = word stack ++ [token] := by
  induction h with
  | shift ha => exact ⟨.cons hb (.leaf _) (Table.move_t_iff.mpr ha), rfl⟩
  | reduce ha hr _ ih =>
    obtain ⟨hb', hw⟩ := hb.reduce ha hr
    rw [← hw]
    exact ih hb'

theorem Finishes.sound (h : Finishes stack tree) (hb : Built stack) :
    tree.Valid ∧ tree.root = .n .program ∧ tree.tokens = word stack := by
  induction h with
  | accept ha =>
    obtain ⟨rfl, _⟩ := Table.action_accept ha
    cases hb with
    | cons hb hv hm =>
      obtain ⟨hs, hr⟩ := Table.move_accepting hm
      rw [hb.eq_nil hs]
      exact ⟨hv, hr, rfl⟩
  | reduce ha hr _ ih =>
    obtain ⟨hb', hw⟩ := hb.reduce ha hr
    rw [← hw]
    exact ih hb'

theorem Reads.sound (h : Reads stack tokens tree) (hb : Built stack) :
    tree.Valid ∧ tree.root = .n .program ∧ tree.tokens = word stack ++ tokens := by
  induction h with
  | finish hf => simpa using hf.sound hb
  | shift hs _ ih =>
    obtain ⟨hb', hw⟩ := hs.built hb
    simpa [hw] using ih hb'

def look : List Token → Terminal
  | [] => .endOfInput
  | token :: _ => token.terminal

theorem Reads.reduce (ha : action (state stack) (look rest) = some (.reduce production))
    (hr : Derivation.reduce production stack = some reduced) (h : Reads reduced rest tree) :
    Reads stack rest tree := by
  cases h with
  | finish hf => exact .finish (.reduce ha hr hf)
  | shift hs hrest => exact .shift (.reduce ha hr hs) hrest

/-- A tree that is no whole program starts with a token, and with one that fits its root. -/
theorem exists_first (hv : tree.Valid) (hp : tree.root ≠ .n .program) :
    ∃ token tokens, tree.tokens = token :: tokens ∧ token.terminal ∈ Table.firstOf tree.root := by
  induction hv with
  | leaf token => exact ⟨token, [], rfl, by simp [Table.firstOf]⟩
  | @node production children hm hroots _ ih =>
    have hc := Table.startsChecked_of_mem hm
    simp only [Table.startsChecked, Bool.and_eq_true, Bool.or_eq_true, decide_eq_true_eq] at hc
    obtain ⟨hall, hstart⟩ := hc
    have hstart := hstart.resolve_left fun h => hp (by simp [h])
    cases children with
    | nil =>
      rw [← hroots] at hstart
      cases hstart
    | cons first others =>
      rw [← hroots] at hall hstart
      have hne : first.root ≠ .n .program := by
        have := List.all_eq_true.mp hall first.root (by simp)
        simpa using this
      obtain ⟨token, tokens, ht, hf⟩ := ih first (by simp) hne
      refine ⟨token, tokens ++ Tree.forestTokens others, ?_, ?_⟩
      · simp [Tree.tokens, Tree.forestTokens, ht]
      · exact Table.has_bits_iff.mp ((Table.has_bits_iff.mpr hf).of_isWithin hstart)

theorem comesNext_look {trees : List Tree} (hv : ∀ tree ∈ trees, tree.Valid)
    (hp : ∀ tree ∈ trees, tree.root ≠ .n .program) :
    ComesNext (look rest) (trees.map Tree.root) (look (Tree.forestTokens trees ++ rest)) := by
  cases trees with
  | nil => rfl
  | cons first others =>
    obtain ⟨token, tokens, ht, hf⟩ := exists_first (hv first (by simp)) (hp first (by simp))
    simpa [ComesNext, Tree.forestTokens, ht, look] using hf

/-- The rest of a right-hand side is read onto the stack if each of its trees can be. The trees
before it are there as `done`, the last one first. -/
theorem reads_rest {children : List Tree} {base : Stack} {next : Nat}
    (hm : production ∈ Grammar.productions) (hroots : children.map Tree.root = production.rhs)
    (hvalid : ∀ child ∈ children, child.Valid)
    (hread : ∀ child ∈ children, ∀ {stack : Stack} {rest : List Token} {next : Nat},
      move (state stack) child.root = some next →
      (∀ nonterminal, child.root = .n nonterminal →
        Follows (state stack) nonterminal (look rest)) →
      Reads ((next, child) :: stack) rest tree → Reads stack (child.tokens ++ rest) tree)
    (hg : Table.goto (state base) production.lhs = some next)
    (h : Reads ((next, .node production children) :: base) rest tree) {todo : List Tree}
    {done : Stack} (hd : done.reverse.map Prod.snd ++ todo = children)
    (hcov : Covers production (look rest) (state (done ++ base)) (todo.map Tree.root)) :
    Reads (done ++ base) (Tree.forestTokens todo ++ rest) tree := by
  induction todo generalizing done with
  | nil =>
    have hlen : production.rhs.length = done.length := by
      rw [← hroots, ← hd]
      simp
    refine Reads.reduce hcov (reduce_eq_some_iff.mpr ⟨next, ?_, rfl⟩) ?_
    · rwa [hlen, List.drop_left]
    · rw [List.append_nil] at hd
      rw [hlen, List.drop_left, List.take_left, hd]
      exact h
  | cons child todo ih =>
    obtain ⟨target, hmove, hfollow, hcov⟩ := hcov
    have hchild : child ∈ children := by simp [← hd]
    have htodo : ∀ other ∈ todo, other ∈ children := by
      intro other ho
      simp [← hd, ho]
    have hnp : ∀ other ∈ todo, other.root ≠ .n .program := by
      have hs := Table.startsChecked_of_mem hm
      simp only [Table.startsChecked, Bool.and_eq_true, List.all_eq_true, bne_iff_ne] at hs
      exact fun other ho => hs.1 _ (hroots ▸ List.mem_map_of_mem (htodo other ho))
    have hnext : Reads ((target, child) :: done ++ base) (Tree.forestTokens todo ++ rest) tree :=
      ih (by simpa using hd) hcov
    rw [Tree.forestTokens, List.append_assoc]
    refine hread child hchild hmove (fun nonterminal hn => hfollow nonterminal hn _ ?_) hnext
    exact comesNext_look (fun other ho => hvalid other (htodo other ho)) hnp

/-- A valid tree that the state on top expects is read onto the stack, if what follows it may. -/
theorem reads_tree {subtree : Tree} (hv : subtree.Valid) {stack : Stack} {rest : List Token}
    {next : Nat} (hm : move (state stack) subtree.root = some next)
    (hf : ∀ nonterminal, subtree.root = .n nonterminal →
      Follows (state stack) nonterminal (look rest))
    (h : Reads ((next, subtree) :: stack) rest tree) :
    Reads stack (subtree.tokens ++ rest) tree := by
  induction hv generalizing stack rest next with
  | leaf token => exact .shift (.shift (Table.move_t_iff.mp hm)) h
  | @node production children hmem hroots hvalid ih =>
    have hcov := Table.covers_of_follows (hf _ rfl) hmem
    have hstart : Reads ([] ++ stack) (Tree.forestTokens children ++ rest) tree :=
      reads_rest hmem hroots hvalid (fun child hc _ _ _ => ih child hc) hm h rfl (hroots ▸ hcov)
    exact hstart

theorem reads_of_valid (hv : tree.Valid) (hr : tree.root = .n .program) :
    Reads [] tree.tokens tree := by
  have hg : Table.goto 0 .program = some Table.accepting :=
    Table.goto_eq_some_iff.mpr ⟨_, Table.row_start, rfl⟩
  have hf : Follows 0 .program .endOfInput :=
    ⟨Table.accepting, hg, Table.has_bits_iff.mpr (List.mem_singleton_self _)⟩
  have h : Reads [(Table.accepting, tree)] [] tree := .finish (.accept rfl)
  rw [← List.append_nil tree.tokens]
  refine reads_tree hv (by rw [hr]; exact hg) ?_ h
  rintro nonterminal hn
  rw [hr] at hn
  cases hn
  exact hf

theorem reads_iff : Reads [] tokens tree ↔
    tree.Valid ∧ tree.root = .n .program ∧ tree.tokens = tokens := by
  constructor
  · intro h
    simpa [word] using h.sound .nil
  · rintro ⟨hv, hr, rfl⟩
    exact reads_of_valid hv hr

theorem Shifts.unique {other : Stack} (hb : Built stack) (h : Shifts token stack stack')
    (h' : Shifts token stack other) : stack' = other := by
  have he := (feed_eq_shifted_iff hb).mpr h
  rw [(feed_eq_shifted_iff hb).mpr h'] at he
  exact (Fed.shifted.inj he).symm

theorem Reads.unique {other : Tree} (hb : Built stack) (h : Reads stack tokens tree)
    (h' : Reads stack tokens other) : tree = other := by
  induction h with
  | finish hf =>
    cases h' with
    | finish hf' =>
      have he := (feed_eq_accepted_iff hb ⟨.endOfInput, "", 0⟩ rfl).mpr hf
      rw [(feed_eq_accepted_iff hb _ rfl).mpr hf'] at he
      exact (Fed.accepted.inj he).symm
  | shift hs _ ih =>
    cases h' with
    | shift hs' hr' =>
      cases hs.unique hb hs'
      exact ih (hs.built hb).1 hr'

/-- The grammar is unambiguous: tokens determine their derivation. -/
theorem tree_unique {other : Tree} (hv : tree.Valid) (hr : tree.root = .n .program)
    (hv' : other.Valid) (hr' : other.root = .n .program) (ht : tree.tokens = other.tokens) :
    tree = other := by
  have h := reads_of_valid hv hr
  rw [ht] at h
  exact h.unique .nil (reads_of_valid hv' hr')

end ScriptLang.Derivation
