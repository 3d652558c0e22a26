import ScriptLang.Proofs.Grammar.Items

/-! # Stacks of the machine

A stack is built by moves of the automaton over valid trees. Reductions keep it so and keep the
tokens that have been read, hence an accepted tree is a derivation of all of them. There are fewer
reductions before a token than the machine allows.
-/

namespace ScriptLang

namespace Tree

@[simp] theorem root_leaf (token : Token) : (leaf token).root = .t token.terminal := rfl

@[simp] theorem root_node (production : Production) (children : List Tree) :
    (node production children).root = .n production.lhs := rfl

theorem forestTokens_append (first rest : List Tree) :
    forestTokens (first ++ rest) = forestTokens first ++ forestTokens rest := by
  induction first with
  | nil => rfl
  | cons tree first ih => simp [forestTokens, ih]

theorem mem_forestTokens {trees : List Tree} {token : Token} :
    token ∈ forestTokens trees ↔ ∃ tree ∈ trees, token ∈ tree.tokens := by
  induction trees with
  | nil => simp [forestTokens]
  | cons tree trees ih => simp [forestTokens, ih]

end Tree

namespace Derivation

open Table (move past rank)

variable {stack reduced below : Stack} {token : Token} {terminal : Terminal} {tree : Tree}
  {production : Production}

/-- The stack stands for a path of the automaton that is labelled with valid trees. -/
inductive Built : Stack → Prop where
  | nil : Built []
  | cons {below : Stack} {next : Nat} {tree : Tree} : Built below → tree.Valid →
      move (state below) tree.root = some next → Built ((next, tree) :: below)

def word : Stack → List Token
  | [] => []
  | (_, tree) :: below => word below ++ tree.tokens

def roots (stack : Stack) : List GrammarSymbol := stack.map fun entry => entry.2.root

theorem Built.drop (h : Built stack) (n : Nat) : Built (stack.drop n) := by
  induction h generalizing n with
  | nil => simpa using Built.nil
  | cons hb hv hm ih =>
    cases n with
    | zero => exact .cons hb hv hm
    | succ n => exact ih n

theorem Built.valid (h : Built stack) : ∀ entry ∈ stack, entry.2.Valid := by
  induction h with
  | nil => simp
  | cons _ hv _ ih => exact List.forall_mem_cons.mpr ⟨hv, ih⟩

theorem Built.past_prefix (h : Built stack) : past (state stack) <+: roots stack := by
  induction h with
  | nil => exact List.nil_prefix
  | cons _ _ hm ih => exact (Table.past_move hm).trans (List.prefix_cons_inj _ |>.mpr ih)

theorem Built.eq_nil (h : Built stack) (hs : state stack = 0) : stack = [] := by
  cases h with
  | nil => rfl
  | cons _ _ hm => exact (Table.move_ne_zero hm hs).elim

theorem word_eq_append (stack : Stack) (n : Nat) :
    word stack = word (stack.drop n) ++
      Tree.forestTokens ((stack.take n).reverse.map Prod.snd) := by
  induction stack generalizing n with
  | nil => simp [word, Tree.forestTokens]
  | cons entry below ih =>
    cases n with
    | zero => simp [Tree.forestTokens]
    | succ n =>
      simp [word, ih n, Tree.forestTokens_append, Tree.forestTokens]

theorem reduce_eq_some_iff : reduce production stack = some reduced ↔
    ∃ next, Table.goto (state (stack.drop production.rhs.length)) production.lhs = some next ∧
      reduced = (next, .node production
        ((stack.take production.rhs.length).reverse.map Prod.snd)) ::
          stack.drop production.rhs.length := by
  simp only [reduce, Option.map_eq_some_iff]
  exact exists_congr fun next => and_congr_right fun _ => eq_comm

theorem Built.roots_take (h : Built stack)
    (ha : Table.action (state stack) terminal = some (.reduce production)) :
    roots (stack.take production.rhs.length) = production.rhs.reverse := by
  have hp := h.past_prefix
  rw [(Table.past_reduce ha).1, List.prefix_iff_eq_take, List.length_reverse] at hp
  rw [hp, roots, roots, List.map_take]

theorem Built.reduce (h : Built stack)
    (ha : Table.action (state stack) terminal = some (.reduce production))
    (hr : reduce production stack = some reduced) : Built reduced ∧ word reduced = word stack := by
  obtain ⟨next, hg, rfl⟩ := reduce_eq_some_iff.mp hr
  obtain ⟨_, _, place, _, _, hp⟩ := Table.action_reduce ha
  constructor
  · refine .cons (h.drop _) (.node (Array.mem_of_getElem? hp) ?_ ?_) hg
    · have hroots := congrArg List.reverse (h.roots_take ha)
      simpa [roots, List.map_reverse, Function.comp_def] using hroots
    · intro child hc
      simp only [List.map_reverse, List.mem_reverse, List.mem_map] at hc
      obtain ⟨entry, he, rfl⟩ := hc
      exact h.valid entry (List.mem_of_mem_take he)
  · rw [word_eq_append stack production.rhs.length]
    rfl

/-- A measure that every reduction makes smaller. -/
def weight : Stack → Nat
  | [] => 17
  | (_, tree) :: below => 16 * (below.length + 1) + rank tree.root

theorem weight_lt (h : Built stack)
    (ha : Table.action (state stack) terminal = some (.reduce production))
    (hr : Derivation.reduce production stack = some reduced) : weight reduced < weight stack := by
  obtain ⟨next, hg, rfl⟩ := reduce_eq_some_iff.mp hr
  obtain ⟨_, _, place, _, _, hp⟩ := Table.action_reduce ha
  have hroots := h.roots_take ha
  have hlen : production.rhs.length ≤ stack.length := by
    have hl := congrArg List.length hroots
    simp only [roots, List.length_map, List.length_take, List.length_reverse] at hl
    omega
  have hrank := Table.rank_le (.n production.lhs)
  simp only [weight, Tree.root_node, List.length_drop]
  cases stack with
  | nil =>
    have hnil : production.rhs = [] := by simpa using hlen
    simp [hnil, Table.lhs_eq_program (Array.mem_of_getElem? hp) hnil, rank]
  | cons entry below =>
    obtain ⟨top, tree⟩ := entry
    match hrhs : production.rhs with
    | [] => exact (List.cons_ne_nil _ _ (h.eq_nil ((Table.past_reduce ha).2 hrhs))).elim
    | [symbol] =>
      have hs : tree.root = symbol := by simpa [hrhs, roots] using hroots
      have hlt := Table.rank_lt (Array.mem_of_getElem? hp) hrhs
      simp only [List.length_cons, List.length_nil]
      rw [hs]
      omega
    | _ :: _ :: rest =>
      simp only [hrhs, List.length_cons] at hlen ⊢
      omega

end Derivation

end ScriptLang
