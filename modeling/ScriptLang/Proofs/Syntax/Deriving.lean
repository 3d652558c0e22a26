import ScriptLang.Proofs.Grammar.Lowering
import ScriptLang.Proofs.Syntax.Literals
import ScriptLang.Proofs.Syntax.WellFormed

/-! # Deriving rendered programs

Any tokens with the words of a well-formed program have a derivation that means the program. The
levels of operators are climbed up as far as a place needs, and chains grow at their right end.
-/

namespace ScriptLang

open Lowers

def Token.word (token : Token) : Word := (token.terminal, token.text)

/-- The words are legible, and all tokens with these words have a derivation from a nonterminal
with a given meaning. -/
structure Spells (lhs : Nonterminal) (words : List Word) (Q : Tree → Prop) : Prop where
  legible : ∀ word ∈ words, word.Legible
  derives : ∀ tokens : List Token, tokens.map Token.word = words →
    ∃ tree : Tree, tree.Valid ∧ tree.root = .n lhs ∧ tree.tokens = tokens ∧ Q tree

structure SpellAll (symbols : List GrammarSymbol) (words : List Word) (R : List Tree → Prop) :
    Prop where
  legible : ∀ word ∈ words, word.Legible
  derives : ∀ tokens : List Token, tokens.map Token.word = words →
    ∃ trees : List Tree, (∀ tree ∈ trees, tree.Valid) ∧ trees.map Tree.root = symbols ∧
      Tree.forestTokens trees = tokens ∧ R trees

variable {lhs : Nonterminal} {rhs symbols symbols' : List GrammarSymbol} {words words' : List Word}
  {R R' : List Tree → Prop} {Q : Tree → Prop}

theorem SpellAll.nil : SpellAll [] [] (· = []) := by
  refine ⟨by simp, fun tokens ht => ?_⟩
  obtain rfl := List.map_eq_nil_iff.mp ht
  exact ⟨[], by simp, rfl, rfl, rfl⟩

theorem SpellAll.append (h : SpellAll symbols words R) (h' : SpellAll symbols' words' R') :
    SpellAll (symbols ++ symbols') (words ++ words')
      (fun trees => ∃ first rest, trees = first ++ rest ∧ R first ∧ R' rest) := by
  refine ⟨List.forall_mem_append.mpr ⟨h.legible, h'.legible⟩, fun tokens ht => ?_⟩
  obtain ⟨front, back, rfl, hf, hb⟩ := List.map_eq_append_iff.mp ht
  obtain ⟨first, hv, hr, hts, hR⟩ := h.derives front hf
  obtain ⟨rest, hv', hr', hts', hR'⟩ := h'.derives back hb
  refine ⟨first ++ rest, ?_, ?_, ?_, first, rest, rfl, hR, hR'⟩
  · exact List.forall_mem_append.mpr ⟨hv, hv'⟩
  · rw [List.map_append, hr, hr']
  · rw [Tree.forestTokens_append, hts, hts']

theorem SpellAll.imp (h : SpellAll symbols words R) (hR : ∀ trees, R trees → R' trees) :
    SpellAll symbols words R' := by
  refine ⟨h.legible, fun tokens ht => ?_⟩
  obtain ⟨trees, hv, hr, hts, h⟩ := h.derives tokens ht
  exact ⟨trees, hv, hr, hts, hR trees h⟩

theorem Spells.one (h : Spells lhs words Q) :
    SpellAll [.n lhs] words (fun trees => ∃ tree, trees = [tree] ∧ Q tree) := by
  refine ⟨h.legible, fun tokens ht => ?_⟩
  obtain ⟨tree, hv, hr, hts, hQ⟩ := h.derives tokens ht
  refine ⟨[tree], by simpa, by simpa, ?_, tree, rfl, hQ⟩
  simp [Tree.forestTokens, hts]

theorem SpellAll.n (h : Spells lhs words Q) (h' : SpellAll symbols words' R) :
    SpellAll (.n lhs :: symbols) (words ++ words')
      (fun trees => ∃ tree rest, Q tree ∧ trees = tree :: rest ∧ R rest) := by
  refine (h.one.append h').imp ?_
  rintro _ ⟨_, rest, rfl, ⟨tree, rfl, hQ⟩, hR⟩
  exact ⟨tree, rest, hQ, rfl, hR⟩

theorem SpellAll.token {terminal : Terminal} {text : String}
    (hl : Word.Legible (terminal, text)) (h : SpellAll symbols words R) :
    SpellAll (.t terminal :: symbols) ((terminal, text) :: words)
      (fun trees => ∃ token rest, token.terminal = terminal ∧ token.text = text ∧
        trees = .leaf token :: rest ∧ R rest) := by
  refine ⟨List.forall_mem_cons.mpr ⟨hl, h.legible⟩, fun tokens ht => ?_⟩
  obtain ⟨token, others, rfl, hw, ho⟩ := List.map_eq_cons_iff.mp ht
  obtain ⟨rest, hv, hr, hts, hR⟩ := h.derives others ho
  obtain ⟨hterminal, htext⟩ := Prod.mk.inj hw
  refine ⟨.leaf token :: rest, ?_, ?_, ?_, token, rest, hterminal, htext, rfl, hR⟩
  · exact List.forall_mem_cons.mpr ⟨.leaf token, hv⟩
  · rw [List.map_cons, hr, Tree.root_leaf, hterminal]
  · rw [Tree.forestTokens, Tree.tokens, hts, List.singleton_append]

theorem SpellAll.t (terminal : Terminal) (hs : terminal.spelling?.isSome = true)
    (h : SpellAll symbols words R) :
    SpellAll (.t terminal :: symbols) (Word.fixed terminal :: words)
      (fun trees => ∃ token rest, token.terminal = terminal ∧ trees = .leaf token :: rest ∧
        R rest) := by
  refine (SpellAll.token (.fixed (mem_fixed_of_isSome hs)) h).imp ?_
  rintro _ ⟨token, rest, ht, -, rfl, hR⟩
  exact ⟨token, rest, ht, rfl, hR⟩

theorem SpellAll.node (h : SpellAll rhs words R) (hp : ⟨lhs, rhs⟩ ∈ Grammar.productions.toList)
    (hR : ∀ trees, R trees → Q (.node ⟨lhs, rhs⟩ trees)) : Spells lhs words Q := by
  refine ⟨h.legible, fun tokens ht => ?_⟩
  obtain ⟨trees, hv, hr, hts, hRt⟩ := h.derives tokens ht
  refine ⟨.node ⟨lhs, rhs⟩ trees, .node (Array.mem_toList_iff.mp hp) hr hv, rfl, ?_, hR trees hRt⟩
  rw [Tree.tokens, hts]

def Nonterminal.maybe (part : Nonterminal) : List (List GrammarSymbol) := [[], [.n part]]

/-- What is spelled where a part may be left out. -/
def SpellMaybe (part : Nonterminal) (words : List Word) (R : List Tree → Prop) : Prop :=
  ∃ symbols ∈ part.maybe, SpellAll symbols words R

theorem SpellMaybe.absent (hR : R []) : SpellMaybe lhs [] R := by
  refine ⟨[], List.mem_cons_self, SpellAll.nil.imp ?_⟩
  rintro _ rfl
  exact hR

theorem Spells.present (h : Spells lhs words Q) (hR : ∀ tree, Q tree → R [tree]) :
    SpellMaybe lhs words R := by
  refine ⟨[.n lhs], List.mem_cons_of_mem _ List.mem_cons_self, h.one.imp ?_⟩
  rintro _ ⟨tree, rfl, hQ⟩
  exact hR tree hQ

/-- The nonterminal of the expressions that bind at least so tightly. -/
def Nonterminal.ofLevel : Nat → Nonterminal
  | 0 => .logical
  | 1 => .equality
  | 2 => .relational
  | 3 => .additive
  | 4 => .multiplicative
  | 5 => .unary
  | _ => .primary

def Nonterminal.chainOf : Nat → Nonterminal
  | 0 => .logicalTail
  | 1 => .equalityTail
  | 2 => .relationalTail
  | 3 => .additiveTail
  | _ => .multiplicativeTail

open Nonterminal (ofLevel chainOf)

variable {node left right : Node} {level : Nat}

theorem Spells.single (h : Spells lhs words (Expr · node)) {up : Nonterminal}
    (hp : ⟨up, [.n lhs]⟩ ∈ Grammar.productions.toList) (hu : Table.isOperand up = true) :
    Spells up words (Expr · node) := by
  refine h.one.node hp ?_
  rintro _ ⟨tree, rfl, he⟩
  exact .single hu he

theorem ofLevel_climbs : ∀ level < 6,
    ⟨ofLevel level, [.n (ofLevel (level + 1))]⟩ ∈ Grammar.productions.toList ∧
      Table.isOperand (ofLevel level) = true := by
  decide

theorem Spells.climb (h : Spells (ofLevel (level + 1)) words (Expr · node)) :
    Spells (ofLevel level) words (Expr · node) := by
  by_cases hl : level < 6
  · obtain ⟨hp, hu⟩ := ofLevel_climbs level hl
    exact h.single hp hu
  · obtain ⟨k, rfl⟩ := Nat.exists_eq_add_of_le (Nat.le_of_not_lt hl)
    have he : ∀ k, ofLevel (6 + k) = .primary := by
      intro k
      rw [Nat.add_comm]
      rfl
    rw [he, ← he (k + 1)]
    exact h

theorem Spells.climbTo {target : Nat} (h : Spells (ofLevel level) words (Expr · node))
    (hle : target ≤ level) : Spells (ofLevel target) words (Expr · node) := by
  obtain ⟨k, rfl⟩ := Nat.exists_eq_add_of_le hle
  induction k with
  | zero => exact h
  | succ k ih => exact ih h.climb (Nat.le_add_right _ _)

theorem Spells.expression (h : Spells (ofLevel level) words (Expr · node)) :
    Spells .expression words (Expr · node) :=
  (h.climbTo (Nat.zero_le level)).single (by decide) rfl

theorem Spells.parens (h : Spells .expression words (Expr · node)) :
    Spells .primary (Word.fixed .lpar :: (words ++ [Word.fixed .rpar])) (Expr · node) := by
  refine (SpellAll.t .lpar rfl (.n h (.t .rpar rfl .nil))).node (by decide) ?_
  rintro _ ⟨_, _, -, rfl, _, _, he, rfl, _, _, -, rfl, rfl⟩
  exact .parens he

theorem Spells.place (h : Spells (ofLevel node.tightness) words (Expr · node)) (level : Nat) :
    Spells (ofLevel level) (node.place level words) (Expr · node) := by
  unfold Node.place
  split
  · have hp : Spells (ofLevel (level + 6)) _ (Expr · node) := h.expression.parens
    exact hp.climbTo (Nat.le_add_right _ _)
  · rename_i hl
    exact h.climbTo (Nat.le_of_not_lt hl)

/-- A tree of a level is an operand alone or with a chain after it. -/
theorem expr_level_cases {up : Nonterminal} {children : List Tree} (hl : up.isLevel = true)
    (h : Expr (.node ⟨up, rhs⟩ children) node) :
    (∃ child, children = [child] ∧ Expr child node) ∨
      ∃ first chain start, children = [first, chain] ∧ Expr first start ∧
        Extends start chain node := by
  cases h with
  | single _ he => exact .inl ⟨_, rfl, he⟩
  | chain _ he hx => exact .inr ⟨_, _, _, rfl, he, hx⟩
  | _ => cases hl

structure HasChain (level : Nat) (terminal : Terminal) : Prop where
  isLevel : (ofLevel level).isLevel = true
  expansions : (ofLevel level).expansions =
    [[.n (ofLevel (level + 1)), .n (chainOf level)], [.n (ofLevel (level + 1))]]
  operator : terminal ∈ (chainOf level).operators
  start : [.t terminal, .n (ofLevel (level + 1))] ∈ (chainOf level).expansions
  more : [.n (chainOf level), .t terminal, .n (ofLevel (level + 1))] ∈ (chainOf level).expansions

theorem mem_productions (h : rhs ∈ lhs.expansions) : ⟨lhs, rhs⟩ ∈ Grammar.productions := by
  obtain ⟨production, hm, rfl⟩ := List.mem_map.mp h
  obtain ⟨hp, hl⟩ := List.mem_filter.mp hm
  obtain rfl : production.lhs = lhs := by simpa using hl
  exact Array.mem_toList_iff.mp hp

theorem Tree.Valid.children {production : Production} {children : List Tree}
    (h : (Tree.node production children).Valid) : production ∈ Grammar.productions ∧
      children.map Tree.root = production.rhs ∧ ∀ child ∈ children, child.Valid := by
  cases h with
  | node hp hr hc => exact ⟨hp, hr, hc⟩

theorem valid_chained {terminal : Terminal} {child chain : Tree} (hc : HasChain level terminal)
    (hv : child.Valid) (hr : child.root = .n (ofLevel (level + 1))) (hv' : chain.Valid)
    (hr' : chain.root = .n (chainOf level)) :
    (Tree.node ⟨ofLevel level, [.n (ofLevel (level + 1)), .n (chainOf level)]⟩
      [child, chain]).Valid :=
  .node (mem_productions (by simp [hc.expansions])) (by simp [hr, hr']) (by simp [hv, hv'])

/-- One more operator and operand at the right end of a chain. -/
theorem exists_extended {token : Token} {first operand : Tree}
    (hc : HasChain level token.terminal) (hv : first.Valid) (hroot : first.root = .n (ofLevel level))
    (he : Expr first left) (hv' : operand.Valid) (hroot' : operand.root = .n (ofLevel (level + 1)))
    (he' : Expr operand right) :
    ∃ tree : Tree, tree.Valid ∧ tree.root = .n (ofLevel level) ∧
      tree.tokens = first.tokens ++ token :: operand.tokens ∧
      Expr tree (.binary (.str token.text) left right) := by
  cases first with
  | leaf => cases hroot
  | node production children =>
    obtain ⟨up, rhs⟩ := production
    obtain rfl : up = ofLevel level := by simpa using hroot
    obtain ⟨hp, hroots, hcs⟩ := hv.children
    have hr := rhs_mem_expansions hp
    simp only [hc.expansions, List.mem_cons, List.not_mem_nil, or_false] at hr
    obtain ⟨child, rfl, hec⟩ | ⟨child, chain, start, rfl, hec, hx⟩ :=
      expr_level_cases hc.isLevel he
    · obtain rfl | rfl := hr
      · simp at hroots
      · have hchain : (Tree.node ⟨chainOf level, _⟩ [.leaf token, operand]).Valid :=
          .node (mem_productions hc.start) (by simp [hroot']) (by simp [hv', Tree.Valid.leaf])
        refine ⟨_, valid_chained hc (hcs child (by simp)) (by simpa using hroots) hchain rfl, rfl, ?_,
          .chain hc.isLevel hec (.one hc.operator he')⟩
        simp [Tree.tokens, Tree.forestTokens]
    · obtain rfl | rfl := hr
      · have hcr : child.root = .n (ofLevel (level + 1)) ∧ chain.root = .n (chainOf level) := by
          simpa using hroots
        have hchain : (Tree.node ⟨chainOf level, _⟩ [chain, .leaf token, operand]).Valid :=
          .node (mem_productions hc.more) (by simp [hroot', hcr.2])
            (by simp [hv', hcs chain (by simp), Tree.Valid.leaf])
        refine ⟨_, valid_chained hc (hcs child (by simp)) hcr.1 hchain rfl, rfl, ?_,
          .chain hc.isLevel hec (.more hc.operator hx he')⟩
        simp [Tree.tokens, Tree.forestTokens]
      · simp at hroots

theorem Spells.binary {terminal : Terminal} {op : String} (hl : Word.Legible (terminal, op))
    (hc : HasChain level terminal) (h : Spells (ofLevel level) words (Expr · left))
    (h' : Spells (ofLevel (level + 1)) words' (Expr · right)) :
    Spells (ofLevel level) (words ++ (terminal, op) :: words')
      (Expr · (.binary (.str op) left right)) := by
  refine ⟨List.forall_mem_append.mpr ⟨h.legible, List.forall_mem_cons.mpr ⟨hl, h'.legible⟩⟩,
    fun tokens ht => ?_⟩
  obtain ⟨front, back, rfl, hf, hb⟩ := List.map_eq_append_iff.mp ht
  obtain ⟨token, others, rfl, hw, ho⟩ := List.map_eq_cons_iff.mp hb
  obtain ⟨rfl, rfl⟩ := Prod.mk.inj hw
  obtain ⟨first, hv, hroot, rfl, he⟩ := h.derives front hf
  obtain ⟨operand, hv', hroot', rfl, he'⟩ := h'.derives others ho
  exact exists_extended hc hv hroot he hv' hroot' he'

theorem exists_operator {op : String} (h : op ∈ binaryOperators) : ∃ terminal level,
    operator? op = some (terminal, level) ∧ Word.fixed terminal = (terminal, op) ∧
      Word.Legible (terminal, op) ∧ HasChain level terminal := by
  simp only [binaryOperators, List.mem_cons, List.not_mem_nil, or_false] at h
  obtain rfl | rfl | rfl | rfl | rfl | rfl | rfl | rfl | rfl | rfl | rfl | rfl | rfl := h
  all_goals
    exact ⟨_, _, rfl, rfl, .fixed (by decide), rfl, rfl, by decide, by decide, by decide⟩

section Lists

variable {α : Type} {many : Nonterminal} {item : List GrammarSymbol} {spelling : α → List Word}
  {I : α → List Tree → Prop} {L : List α → Tree → Prop} {items before : List α}

theorem Spells.grow (hp : ⟨many, .n many :: item⟩ ∈ Grammar.productions.toList)
    (hmore : ∀ before a tree trees, L before tree → I a trees →
      L (before ++ [a]) (.node ⟨many, .n many :: item⟩ (tree :: trees)))
    (h : Spells many words (L before)) (hitems : ∀ a ∈ items, SpellAll item (spelling a) (I a)) :
    Spells many (words ++ items.flatMap spelling) (L (before ++ items)) := by
  induction items generalizing words before with
  | nil => simpa using h
  | cons a items ih =>
    obtain ⟨ha, hitems⟩ := List.forall_mem_cons.mp hitems
    have hb : Spells many (words ++ spelling a) (L (before ++ [a])) := by
      refine (SpellAll.n h ha).node hp ?_
      rintro _ ⟨tree, trees, hl, rfl, hi⟩
      exact hmore before a tree trees hl hi
    simpa using ih hb hitems

theorem spells_many (hp : ⟨many, item⟩ ∈ Grammar.productions.toList)
    (hp' : ⟨many, .n many :: item⟩ ∈ Grammar.productions.toList)
    (hone : ∀ a trees, I a trees → L [a] (.node ⟨many, item⟩ trees))
    (hmore : ∀ before a tree trees, L before tree → I a trees →
      L (before ++ [a]) (.node ⟨many, .n many :: item⟩ (tree :: trees)))
    (hn : items ≠ []) (hitems : ∀ a ∈ items, SpellAll item (spelling a) (I a)) :
    Spells many (items.flatMap spelling) (L items) := by
  cases items with
  | nil => exact absurd rfl hn
  | cons a items =>
    obtain ⟨ha, hitems⟩ := List.forall_mem_cons.mp hitems
    exact (ha.node hp (hone a)).grow hp' hmore hitems

theorem spells_optional (hnil : items = [] → R []) (hsome : ∀ tree, Q tree → R [tree])
    (h : items ≠ [] → Spells many (items.flatMap spelling) Q) :
    SpellMaybe many (items.flatMap spelling) R := by
  by_cases hi : items = []
  · rw [hi, List.flatMap_nil]
    exact .absent (hnil hi)
  · exact (h hi).present hsome

end Lists

theorem sentences_eq (nodes : List Node) :
    Node.sentences nodes = nodes.flatMap fun node => node.close node.words := by
  induction nodes with
  | nil => rfl
  | cons node nodes ih => simp [Node.sentences, ih]

theorem wordsOf_eq (nodes : List Node) : Node.wordsOf nodes = nodes.map Node.words := by
  induction nodes with
  | nil => rfl
  | cons node nodes ih => simp [Node.wordsOf, ih]

theorem spells_body {nodes : List Node}
    (h : ∀ node ∈ nodes, Spells .statement (node.close node.words) (Statement · node)) :
    SpellMaybe .statements (Node.sentences nodes) (Body · nodes) := by
  rw [sentences_eq]
  have hmany (hn : nodes ≠ []) :
      Spells .statements (nodes.flatMap fun node => node.close node.words) (Statements · nodes) := by
    refine spells_many (L := fun nodes tree => Statements tree nodes)
      (by decide) (by decide)
      ?_ ?_ hn fun node hm => (h node hm).one
    · rintro node _ ⟨tree, rfl, hs⟩
      exact .one hs
    · rintro before node tree _ hb ⟨tree', rfl, hs⟩
      exact .more hb hs
  exact spells_optional (fun hn => hn ▸ .none) (fun _ => .some) hmany

theorem spells_elseIfs {nodes : List Node}
    (h : ∀ node ∈ nodes, Spells .elseIfClause node.words (Clause · node)) :
    SpellMaybe .elseIfClauses (Node.wordsOf nodes).flatten (ElseIfs · nodes) := by
  rw [wordsOf_eq, ← List.flatMap_def]
  have hmany (hn : nodes ≠ []) :
      Spells .elseIfClauses (nodes.flatMap Node.words) (Clauses · nodes) := by
    refine spells_many (L := fun nodes tree => Clauses tree nodes)
      (by decide) (by decide)
      ?_ ?_ hn fun node hm => (h node hm).one
    · rintro node _ ⟨tree, rfl, hs⟩
      exact .one hs
    · rintro before node tree _ hb ⟨tree', rfl, hs⟩
      exact .more hb hs
  exact spells_optional (fun hn => hn ▸ .none) (fun _ => .some) hmany

theorem spells_moreArgs {nodes : List Node} (hn : nodes ≠ [])
    (h : ∀ node ∈ nodes, Spells .expression node.words (Expr · node)) :
    Spells .argumentsTail (nodes.flatMap fun node => Word.fixed .comma :: node.words)
      (MoreArgs · nodes) := by
  refine spells_many (L := fun nodes tree => MoreArgs tree nodes)
    (by decide) (by decide)
    ?_ ?_ hn fun node hm => SpellAll.t .comma rfl (h node hm).one
  · rintro node _ ⟨_, _, -, rfl, tree, rfl, he⟩
    exact .one he
  · rintro before node tree _ hb ⟨_, _, -, rfl, tree', rfl, he⟩
    exact .more hb he

theorem spells_args {nodes : List Node}
    (h : ∀ node ∈ nodes, Spells .expression node.words (Expr · node)) :
    SpellMaybe .arguments (Node.commas (Node.wordsOf nodes)) (Args · nodes) := by
  rw [wordsOf_eq]
  cases nodes with
  | nil => exact .absent .none
  | cons node nodes =>
    obtain ⟨hnode, hnodes⟩ := List.forall_mem_cons.mp h
    have ha : Spells .arguments (Node.commas ((node :: nodes).map Node.words))
        fun tree => Args [tree] (node :: nodes) := by
      rw [List.map_cons, Node.commas, List.flatMap_map]
      by_cases hn : nodes = []
      · subst hn
        rw [List.flatMap_nil, List.append_nil]
        refine hnode.one.node (by decide) ?_
        rintro _ ⟨tree, rfl, he⟩
        exact .one he
      · refine (SpellAll.n hnode (spells_moreArgs hn hnodes).one).node
          (by decide) ?_
        rintro _ ⟨tree, _, he, rfl, tree', rfl, hm⟩
        exact .more he hm
    exact ha.present fun _ => id

theorem spells_moreNames {names : List String} (hn : names ≠ [])
    (h : ∀ name ∈ names, IsName name.toList) :
    Spells .parametersTail (names.flatMap fun name => [Word.fixed .comma, Word.name name])
      (MoreNames · names) := by
  refine spells_many (L := fun names tree => MoreNames tree names)
    (by decide) (by decide)
    ?_ ?_ hn fun name hm => SpellAll.t .comma rfl (.token (.name (h name hm)) .nil)
  · rintro name _ ⟨_, _, -, rfl, token, _, ht, rfl, rfl, rfl⟩
    exact .one ht
  · rintro before name tree _ hb ⟨_, _, -, rfl, token, _, ht, rfl, rfl, rfl⟩
    exact .more hb ht

theorem spells_names {names : List String} (h : ∀ name ∈ names, IsName name.toList) :
    SpellMaybe .parameters (Node.commas ((names.map Json.str).map Node.param)) (Names · names) := by
  rw [List.map_map]
  cases names with
  | nil => exact .absent .none
  | cons name names =>
    obtain ⟨hname, hnames⟩ := List.forall_mem_cons.mp h
    have ha : Spells .parameters (Node.commas ((name :: names).map (Node.param ∘ Json.str)))
        fun tree => Names [tree] (name :: names) := by
      rw [List.map_cons, Node.commas, List.flatMap_map]
      by_cases hn : names = []
      · subst hn
        rw [List.flatMap_nil, List.append_nil]
        refine (SpellAll.token (.name hname) .nil).node (by decide) ?_
        rintro _ ⟨token, _, ht, rfl, rfl, rfl⟩
        exact .one ht
      · refine (SpellAll.token (.name hname) (spells_moreNames hn hnames).one).node
          (by decide) ?_
        rintro _ ⟨token, _, ht, rfl, rfl, tree', rfl, hm⟩
        exact .more ht hm
    exact ha.present fun _ => id

theorem spells_optExpr (h : node ≠ .null → Spells .expression node.words (Expr · node)) :
    SpellMaybe .expression node.words (OptExpr · node) := by
  by_cases hn : node = .null
  · subst hn
    exact .absent .none
  · exact (h hn).present fun _ => .some

theorem spells_optAssignment
    (h : node ≠ .null → Spells .assignment node.words (Assignment · node)) :
    SpellMaybe .assignment node.words (OptAssignment · node) := by
  by_cases hn : node = .null
  · subst hn
    exact .absent .none
  · exact (h hn).present fun _ => .some

theorem spells_else (h : node ≠ .null → Spells .block node.words (Block · node)) :
    SpellMaybe .elseClause (node.otherwise node.words) (Else · node) := by
  by_cases hn : node = .null
  · subst hn
    exact .absent .none
  · have hw : node.otherwise node.words = Word.fixed .elseWord :: node.words := by
      unfold Node.otherwise
      split
      · exact absurd rfl hn
      · rfl
    have hc : Spells .elseClause (Word.fixed .elseWord :: node.words) (Else [·] node) := by
      refine (SpellAll.t .elseWord rfl (h hn).one).node (by decide) ?_
      rintro _ ⟨_, _, -, rfl, tree, rfl, hb⟩
      exact .some hb
    rw [hw]
    exact hc.present fun _ => id

theorem Spells.statement {kind : Nonterminal} (h : Spells kind words (Statement · node))
    (hp : ⟨.statement, [.n kind]⟩ ∈ Grammar.productions.toList) :
    Spells .statement words (Statement · node) := by
  refine h.one.node hp ?_
  rintro _ ⟨tree, rfl, hs⟩
  exact .single hs

theorem spells_token {terminal : Terminal} {text : String}
    (hl : Word.Legible (terminal, text)) (hp : ⟨.primary, [.t terminal]⟩ ∈ Grammar.productions.toList)
    (h : ∀ token : Token, token.terminal = terminal → token.text = text →
      Expr (.node ⟨.primary, [.t terminal]⟩ [.leaf token]) node) :
    Spells .primary [(terminal, text)] (Expr · node) := by
  refine (SpellAll.token hl .nil).node hp ?_
  rintro _ ⟨token, _, ht, htext, rfl, rfl⟩
  exact h token ht htext

theorem Spells.neg (h : Spells .unary words (Expr · node)) :
    Spells .unary (Word.fixed .minus :: words) (Expr · (.unary (.str "neg") node)) := by
  refine (SpellAll.t .minus rfl h.one).node (by decide) ?_
  rintro _ ⟨token, _, ht, rfl, tree, rfl, h⟩
  exact .neg ht h

theorem Spells.not (h : Spells .unary words (Expr · node)) :
    Spells .unary (Word.fixed .notWord :: words) (Expr · (.unary (.str "not") node)) := by
  refine (SpellAll.t .notWord rfl h.one).node (by decide) ?_
  rintro _ ⟨token, _, ht, rfl, tree, rfl, h⟩
  exact .not ht h

theorem spells_call {name : String} {args : List Node} (hn : IsName name.toList)
    (h : ∀ arg ∈ args, Spells .expression arg.words (Expr · arg)) :
    Spells .call (Word.name name :: Word.fixed .lpar ::
      (Node.commas (Node.wordsOf args) ++ [Word.fixed .rpar]))
      (Expr · (.call (.ident (.str name)) args)) := by
  obtain ⟨symbols, hm, ha⟩ := spells_args h
  have hp : ∀ symbols ∈ Nonterminal.maybe .arguments,
      (⟨.call, .t .ident :: .t .lpar :: (symbols ++ [.t .rpar])⟩ : Production) ∈
        Grammar.productions.toList := by decide
  refine (SpellAll.token (.name hn) (.t .lpar rfl (ha.append (.t .rpar rfl .nil)))).node
    (hp symbols hm) ?_
  rintro _ ⟨_, _, ht, rfl, rfl, _, _, -, rfl, args, _, rfl, ha, _, _, -, rfl, rfl⟩
  exact .call ht ha

theorem spells_function {names : List String} {body : Node}
    (hn : ∀ name ∈ names, IsName name.toList) (h : Spells .block body.words (Block · body)) :
    Spells .function (Word.fixed .fnWord :: Word.fixed .lpar ::
      (Node.commas ((names.map Json.str).map Node.param) ++ Word.fixed .rpar :: body.words))
      (Expr · (.funcDef (names.map .str) body)) := by
  obtain ⟨symbols, hm, hn⟩ := spells_names hn
  have hp : ∀ symbols ∈ Nonterminal.maybe .parameters,
      (⟨.function, .t .fnWord :: .t .lpar :: (symbols ++ [.t .rpar, .n .block])⟩ : Production) ∈
        Grammar.productions.toList := by decide
  refine (SpellAll.t .fnWord rfl (.t .lpar rfl (hn.append (.t .rpar rfl h.one)))).node
    (hp symbols hm) ?_
  rintro _ ⟨_, _, -, rfl, _, _, -, rfl, params, _, rfl, hn, _, _, -, rfl, tree, rfl, hb⟩
  exact .function hn hb

theorem spells_block {nodes : List Node}
    (h : ∀ node ∈ nodes, Spells .statement (node.close node.words) (Statement · node)) :
    Spells .block (Word.fixed .lbrace :: (Node.sentences nodes ++ [Word.fixed .rbrace]))
      (Block · (.block nodes)) := by
  obtain ⟨symbols, hm, hb⟩ := spells_body h
  have hp : ∀ symbols ∈ Nonterminal.maybe .statements,
      (⟨.block, .t .lbrace :: (symbols ++ [.t .rbrace])⟩ : Production) ∈
        Grammar.productions.toList := by decide
  refine (SpellAll.t .lbrace rfl (hb.append (.t .rbrace rfl .nil))).node (hp symbols hm) ?_
  rintro _ ⟨_, _, -, rfl, body, _, rfl, hb, _, _, -, rfl, rfl⟩
  exact .mk hb

theorem spells_return (h : node ≠ .null → Spells .expression node.words (Expr · node)) :
    Spells .returnStatement (Word.fixed .returnWord :: (node.words ++ [Word.fixed .semicolon]))
      (Statement · (.returnStmt node)) := by
  obtain ⟨symbols, hm, ho⟩ := spells_optExpr h
  have hp : ∀ symbols ∈ Nonterminal.maybe .expression,
      (⟨.returnStatement, .t .returnWord :: (symbols ++ [.t .semicolon])⟩ : Production) ∈
        Grammar.productions.toList := by decide
  refine (SpellAll.t .returnWord rfl (ho.append (.t .semicolon rfl .nil))).node (hp symbols hm) ?_
  rintro _ ⟨_, _, -, rfl, value, _, rfl, ho, _, _, -, rfl, rfl⟩
  exact .return ho

theorem spells_if {condition body last : Node} {clauses : List Node}
    (hc : Spells .expression condition.words (Expr · condition))
    (hb : Spells .block body.words (Block · body))
    (hcs : ∀ clause ∈ clauses, Spells .elseIfClause clause.words (Clause · clause))
    (hl : last ≠ .null → Spells .block last.words (Block · last)) :
    Spells .ifStatement (Word.fixed .ifWord :: (condition.words ++ (body.words ++
      ((Node.wordsOf clauses).flatten ++ last.otherwise last.words))))
      (Statement · (.ifStmt condition body clauses last)) := by
  obtain ⟨symbols, hm, hcs⟩ := spells_elseIfs hcs
  obtain ⟨symbols', hm', hl⟩ := spells_else hl
  have hp : ∀ symbols ∈ Nonterminal.maybe .elseIfClauses, ∀ symbols' ∈ Nonterminal.maybe .elseClause,
      (⟨.ifStatement, .t .ifWord :: .n .expression :: .n .block :: (symbols ++ symbols')⟩ :
        Production) ∈ Grammar.productions.toList := by decide
  refine (SpellAll.t .ifWord rfl (.n hc (.n hb (hcs.append hl)))).node
    (hp symbols hm symbols' hm') ?_
  rintro _ ⟨_, _, -, rfl, _, _, he, rfl, _, _, hb, rfl, _, _, rfl, hcs, hl⟩
  exact .if he hb hcs hl

theorem spells_for {init condition post body : Node}
    (hi : init ≠ .null → Spells .assignment init.words (Assignment · init))
    (hc : condition ≠ .null → Spells .expression condition.words (Expr · condition))
    (hp : post ≠ .null → Spells .assignment post.words (Assignment · post))
    (hb : Spells .block body.words (Block · body)) :
    Spells .forStatement (Word.fixed .forWord :: Word.fixed .lpar :: (init.words ++
      Word.fixed .semicolon :: (condition.words ++ Word.fixed .semicolon ::
        (post.words ++ Word.fixed .rpar :: body.words))))
      (Statement · (.forStmt init condition post body)) := by
  obtain ⟨inits, hmi, hi⟩ := spells_optAssignment hi
  obtain ⟨conditions, hmc, hc⟩ := spells_optExpr hc
  obtain ⟨posts, hmp, hp⟩ := spells_optAssignment hp
  have hall : ∀ inits ∈ Nonterminal.maybe .assignment, ∀ conditions ∈ Nonterminal.maybe .expression,
      ∀ posts ∈ Nonterminal.maybe .assignment,
      (⟨.forStatement, .t .forWord :: .t .lpar :: (inits ++ .t .semicolon :: (conditions ++
        .t .semicolon :: (posts ++ [.t .rpar, .n .block])))⟩ : Production) ∈
        Grammar.productions.toList := by decide
  have hlast := hp.append (.t .rpar rfl hb.one)
  have hmiddle := hc.append (.t .semicolon rfl hlast)
  refine (SpellAll.t .forWord rfl (.t .lpar rfl (hi.append (.t .semicolon rfl hmiddle)))).node
    (hall inits hmi conditions hmc posts hmp) ?_
  rintro _ ⟨_, _, -, rfl, _, _, -, rfl, _, _, rfl, hi, _, _, hm, rfl, _, _, rfl, hc,
    _, _, hm', rfl, _, _, rfl, hp, _, _, -, rfl, _, rfl, hb⟩
  exact .for hm hm' hi hc hp hb

theorem spells_break : Spells .breakStatement [Word.fixed .breakWord, Word.fixed .semicolon]
    (Statement · .breakStmt) := by
  refine (SpellAll.t .breakWord rfl (.t .semicolon rfl .nil)).node (by decide) ?_
  rintro _ ⟨_, _, -, rfl, _, _, -, rfl, rfl⟩
  exact .break

theorem spells_continue : Spells .continueStatement
    [Word.fixed .continueWord, Word.fixed .semicolon] (Statement · .continueStmt) := by
  refine (SpellAll.t .continueWord rfl (.t .semicolon rfl .nil)).node (by decide) ?_
  rintro _ ⟨_, _, -, rfl, _, _, -, rfl, rfl⟩
  exact .continue

theorem spells_while {condition body : Node}
    (hc : Spells .expression condition.words (Expr · condition))
    (hb : Spells .block body.words (Block · body)) :
    Spells .whileStatement (Word.fixed .whileWord :: (condition.words ++ body.words))
      (Statement · (.whileStmt condition body)) := by
  refine (SpellAll.t .whileWord rfl (.n hc hb.one)).node (by decide) ?_
  rintro _ ⟨_, _, -, rfl, _, _, he, rfl, _, rfl, hb⟩
  exact .while he hb

theorem spells_loop {body : Node} (hb : Spells .block body.words (Block · body)) :
    Spells .loopStatement (Word.fixed .loopWord :: body.words) (Statement · (.loopStmt body)) := by
  refine (SpellAll.t .loopWord rfl hb.one).node (by decide) ?_
  rintro _ ⟨_, _, -, rfl, _, rfl, hb⟩
  exact .loop hb

theorem spells_exprStmt (h : Spells .expression node.words (Expr · node)) :
    Spells .expressionStatement (node.words ++ [Word.fixed .semicolon])
      (Statement · (.exprStmt node)) := by
  refine (SpellAll.n h (.t .semicolon rfl .nil)).node (by decide) ?_
  rintro _ ⟨_, _, he, rfl, _, _, -, rfl, rfl⟩
  exact .expr he

mutual

theorem spells_of_expr {node : Node} : WellFormed.Expr node →
    Spells (ofLevel node.tightness) node.words (Expr · node)
  | .int hr => by
    rw [Node.words]
    exact spells_token (legible_text _) (by decide) fun token ht htext =>
      .number ht (htext ▸ number_text hr)
  | .float hn => by
    rw [Node.words]
    exact spells_token (legible_floatText hn) (by decide) fun token ht htext =>
      .number ht (htext ▸ number_floatText hn)
  | .string => by
    rw [Node.words]
    exact spells_token (legible_stringText _) (by decide) fun token ht htext =>
      .string ht (htext ▸ string_stringText _)
  | @WellFormed.Expr.bool value => by
    rw [Node.words]
    cases value with
    | true => exact spells_token (.fixed (by decide)) (by decide) fun token ht _ => .true ht
    | false => exact spells_token (.fixed (by decide)) (by decide) fun token ht _ => .false ht
  | .nil => by
    rw [Node.words]
    exact spells_token (.fixed (by decide)) (by decide) fun token ht _ => .nil ht
  | .ident hn => by
    rw [Node.words]
    exact spells_token (.name hn) (by decide) fun token ht htext => htext ▸ .ident ht
  | .neg he => by
    rw [Node.words]
    exact ((spells_of_expr he).place 5).neg
  | .not he => by
    rw [Node.words]
    exact ((spells_of_expr he).place 5).not
  | @WellFormed.Expr.binary op left right hop hl hr => by
    obtain ⟨terminal, level, ho, hw, hlegible, hc⟩ := exists_operator hop
    have ht : (Node.binary (.str op) left right).tightness = level := by simp [Node.tightness, ho]
    rw [Node.words, ho, ht]
    simp only [hw]
    exact .binary hlegible hc ((spells_of_expr hl).place level)
      ((spells_of_expr hr).place (level + 1))
  | .call hn ha => by
    rw [Node.words, Node.words, List.singleton_append]
    show Spells .primary _ _
    exact (spells_call hn fun arg hm => (spells_of_expr (ha arg hm)).expression).single
      (by decide) rfl
  | .function hn hb => by
    rw [Node.words]
    show Spells .primary _ _
    exact (spells_function hn (spells_of_block hb)).single (by decide) rfl

theorem spells_of_block {node : Node} : WellFormed.Block node →
    Spells .block node.words (Block · node)
  | .mk hs => by
    rw [Node.words]
    exact spells_block fun node hm => spells_of_statement (hs node hm)

theorem spells_of_assignment {node : Node} : WellFormed.Assignment node →
    Spells .assignment node.words (Assignment · node)
  | .mk hn he => by
    rw [Node.words]
    refine (SpellAll.token (.name hn) (.t .equal rfl (spells_of_expr he).expression.one)).node
      (by decide) ?_
    rintro _ ⟨token, _, ht, rfl, rfl, _, _, -, rfl, tree, rfl, h⟩
    exact .mk ht h

theorem spells_of_clause {node : Node} : WellFormed.Clause node →
    Spells .elseIfClause node.words (Clause · node)
  | .mk he hb => by
    rw [Node.words]
    have hbody := SpellAll.n (spells_of_expr he).expression (spells_of_block hb).one
    refine (SpellAll.t .elseWord rfl (.t .ifWord rfl hbody)).node
      (by decide) ?_
    rintro _ ⟨_, _, -, rfl, _, _, -, rfl, _, _, he, rfl, _, rfl, hb⟩
    exact .mk he hb

theorem spells_of_statement {node : Node} : WellFormed.Statement node →
    Spells .statement (node.close node.words) (Statement · node)
  | .assign h => by
    have hs : Spells .assignStatement (node.words ++ [Word.fixed .semicolon]) (Statement · node) := by
      refine (SpellAll.n (spells_of_assignment h) (.t .semicolon rfl .nil)).node
        (by decide) ?_
      rintro _ ⟨_, _, ha, rfl, _, _, -, rfl, rfl⟩
      exact .assign ha
    cases h
    exact hs.statement (by decide)
  | .return h => by
    simp only [Node.close, Node.words]
    exact (spells_return fun hn => (spells_of_expr (h hn)).expression).statement
      (by decide)
  | .break => spells_break.statement (by decide)
  | .continue => spells_continue.statement (by decide)
  | .if he hb hc hl => by
    simp only [Node.close, Node.words]
    exact (spells_if (spells_of_expr he).expression (spells_of_block hb)
      (fun clause hm => spells_of_clause (hc clause hm)) fun hn => spells_of_block (hl hn)).statement
      (by decide)
  | .while he hb => by
    simp only [Node.close, Node.words]
    exact (spells_while (spells_of_expr he).expression (spells_of_block hb)).statement
      (by decide)
  | .loop hb => by
    simp only [Node.close, Node.words]
    exact (spells_loop (spells_of_block hb)).statement (by decide)
  | .for hi hc hp hb => by
    simp only [Node.close, Node.words]
    exact (spells_for (fun hn => spells_of_assignment (hi hn))
      (fun hn => (spells_of_expr (hc hn)).expression) (fun hn => spells_of_assignment (hp hn))
      (spells_of_block hb)).statement (by decide)
  | .expr he => by
    simp only [Node.close, Node.words]
    exact (spells_exprStmt (spells_of_expr he).expression).statement
      (by decide)

end

theorem spells_of_program {program : Node} (h : WellFormed.Program program) :
    Spells .program program.words (Program · program) := by
  obtain ⟨hs⟩ := h
  obtain ⟨symbols, hm, hb⟩ := spells_body fun node hm => spells_of_statement (hs node hm)
  have hp : ∀ symbols ∈ Nonterminal.maybe .statements,
      (⟨.program, symbols⟩ : Production) ∈ Grammar.productions.toList := by decide
  rw [Node.words]
  exact hb.node (hp symbols hm) fun _ => .mk

end ScriptLang
