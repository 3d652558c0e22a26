import ScriptLang.Proofs.Grammar.Meaning
import ScriptLang.Proofs.Grammar.Stack

/-! # Lowering every derivation

A derivation means something unless one of its tokens is a bad literal, and it is lowered exactly
then. The argument follows the productions: whatever the parts of a right-hand side mean, the rules
say what the whole means.
-/

namespace ScriptLang

def Nonterminal.expansions (lhs : Nonterminal) : List (List GrammarSymbol) :=
  (Grammar.productions.toList.filter (·.lhs = lhs)).map (·.rhs)

theorem rhs_mem_expansions {production : Production} (h : production ∈ Grammar.productions) :
    production.rhs ∈ production.lhs.expansions :=
  List.mem_map.mpr ⟨production, List.mem_filter.mpr ⟨Array.mem_toList_iff.mpr h, by simp⟩, rfl⟩

/-- A number or a string that has no value. -/
def Token.IsBad (token : Token) : Prop :=
  token.terminal = .number ∧ (∃ error, Literal.number token.text = .error error) ∨
    token.terminal = .string ∧ ∃ error, Literal.string token.text = .error error

namespace Lowers

/-- What a tree must mean that a nonterminal stands for. -/
def Stands : Nonterminal → Tree → Prop
  | .program, tree => ∃ node, Program tree node
  | .block, tree => ∃ node, Block tree node
  | .statements, tree => ∃ nodes, Statements tree nodes
  | .assignment, tree => ∃ node, Assignment tree node
  | .elseIfClause, tree => ∃ node, Clause tree node
  | .elseIfClauses, tree => ∃ nodes, Clauses tree nodes
  | .elseClause, tree => ∃ node, Else [tree] node
  | .arguments, tree => ∃ nodes, Args [tree] nodes
  | .argumentsTail, tree => ∃ nodes, MoreArgs tree nodes
  | .parameters, tree => ∃ names, Names [tree] names
  | .parametersTail, tree => ∃ names, MoreNames tree names
  | .logicalTail, tree | .equalityTail, tree | .relationalTail, tree | .additiveTail, tree
  | .multiplicativeTail, tree => ∀ left, ∃ node, Extends left tree node
  | .expression, tree | .logical, tree | .equality, tree | .relational, tree | .additive, tree
  | .multiplicative, tree | .unary, tree | .primary, tree | .call, tree | .function, tree =>
    ∃ node, Expr tree node
  | _, tree => ∃ node, Statement tree node

def StandAll : List GrammarSymbol → List Tree → Prop
  | [], trees => trees = []
  | .t terminal :: symbols, trees => ∃ token rest,
    (token.terminal = terminal ∧ ¬token.IsBad) ∧ trees = .leaf token :: rest ∧ StandAll symbols rest
  | .n nonterminal :: symbols, trees => ∃ tree rest,
    Stands nonterminal tree ∧ trees = tree :: rest ∧ StandAll symbols rest

section Rules

variable {lhs : Nonterminal} {rhs : List GrammarSymbol} {trees : List Tree} {tree : Tree}

theorem stands_operand (h : Table.isOperand lhs = true) :
    Stands lhs tree ↔ ∃ node, Expr tree node := by
  cases lhs <;> first | rfl | cases h

theorem stands_chain (h : lhs.operators ≠ []) :
    Stands lhs tree ↔ ∀ left, ∃ node, Extends left tree node := by
  cases lhs <;> first | rfl | exact absurd rfl h

theorem program_total (hr : rhs ∈ Nonterminal.program.expansions) (hs : StandAll rhs trees) :
    ∃ node, Program (.node ⟨.program, rhs⟩ trees) node := by
  have hr : rhs ∈ [_, _] := hr
  simp only [List.mem_cons, List.not_mem_nil, or_false] at hr
  obtain rfl | rfl := hr
  · obtain ⟨_, _, ⟨_, h⟩, rfl, rfl⟩ := hs
    exact ⟨_, .mk (.some h)⟩
  · obtain rfl := hs
    exact ⟨_, .mk .none⟩

theorem block_total (hr : rhs ∈ Nonterminal.block.expansions) (hs : StandAll rhs trees) :
    ∃ node, Block (.node ⟨.block, rhs⟩ trees) node := by
  have hr : rhs ∈ [_, _] := hr
  simp only [List.mem_cons, List.not_mem_nil, or_false] at hr
  obtain rfl | rfl := hr
  · obtain ⟨_, _, -, rfl, _, _, ⟨_, h⟩, rfl, _, _, -, rfl, rfl⟩ := hs
    exact ⟨_, .mk (.some h)⟩
  · obtain ⟨_, _, -, rfl, _, _, -, rfl, rfl⟩ := hs
    exact ⟨_, .mk .none⟩

theorem statements_total (hr : rhs ∈ Nonterminal.statements.expansions) (hs : StandAll rhs trees) :
    ∃ node, Statements (.node ⟨.statements, rhs⟩ trees) node := by
  have hr : rhs ∈ [_, _] := hr
  simp only [List.mem_cons, List.not_mem_nil, or_false] at hr
  obtain rfl | rfl := hr
  · obtain ⟨_, _, ⟨_, h⟩, rfl, rfl⟩ := hs
    exact ⟨_, .one h⟩
  · obtain ⟨_, _, ⟨_, hb⟩, rfl, _, _, ⟨_, h⟩, rfl, rfl⟩ := hs
    exact ⟨_, .more hb h⟩

theorem assignment_total (hr : rhs ∈ Nonterminal.assignment.expansions) (hs : StandAll rhs trees) :
    ∃ node, Assignment (.node ⟨.assignment, rhs⟩ trees) node := by
  have hr : rhs ∈ [_] := hr
  simp only [List.mem_cons, List.not_mem_nil, or_false] at hr
  subst hr
  obtain ⟨_, _, ⟨ht, -⟩, rfl, _, _, -, rfl, _, _, ⟨_, h⟩, rfl, rfl⟩ := hs
  exact ⟨_, .mk ht h⟩

theorem clause_total (hr : rhs ∈ Nonterminal.elseIfClause.expansions) (hs : StandAll rhs trees) :
    ∃ node, Clause (.node ⟨.elseIfClause, rhs⟩ trees) node := by
  have hr : rhs ∈ [_] := hr
  simp only [List.mem_cons, List.not_mem_nil, or_false] at hr
  subst hr
  obtain ⟨_, _, -, rfl, _, _, -, rfl, _, _, ⟨_, he⟩, rfl, _, _, ⟨_, hb⟩, rfl, rfl⟩ := hs
  exact ⟨_, .mk he hb⟩

theorem clauses_total (hr : rhs ∈ Nonterminal.elseIfClauses.expansions) (hs : StandAll rhs trees) :
    ∃ node, Clauses (.node ⟨.elseIfClauses, rhs⟩ trees) node := by
  have hr : rhs ∈ [_, _] := hr
  simp only [List.mem_cons, List.not_mem_nil, or_false] at hr
  obtain rfl | rfl := hr
  · obtain ⟨_, _, ⟨_, h⟩, rfl, rfl⟩ := hs
    exact ⟨_, .one h⟩
  · obtain ⟨_, _, ⟨_, hb⟩, rfl, _, _, ⟨_, h⟩, rfl, rfl⟩ := hs
    exact ⟨_, .more hb h⟩

theorem moreArgs_total (hr : rhs ∈ Nonterminal.argumentsTail.expansions) (hs : StandAll rhs trees) :
    ∃ node, MoreArgs (.node ⟨.argumentsTail, rhs⟩ trees) node := by
  have hr : rhs ∈ [_, _] := hr
  simp only [List.mem_cons, List.not_mem_nil, or_false] at hr
  obtain rfl | rfl := hr
  · obtain ⟨_, _, -, rfl, _, _, ⟨_, h⟩, rfl, rfl⟩ := hs
    exact ⟨_, .one h⟩
  · obtain ⟨_, _, ⟨_, hb⟩, rfl, _, _, -, rfl, _, _, ⟨_, h⟩, rfl, rfl⟩ := hs
    exact ⟨_, .more hb h⟩

theorem moreNames_total (hr : rhs ∈ Nonterminal.parametersTail.expansions) (hs : StandAll rhs trees) :
    ∃ node, MoreNames (.node ⟨.parametersTail, rhs⟩ trees) node := by
  have hr : rhs ∈ [_, _] := hr
  simp only [List.mem_cons, List.not_mem_nil, or_false] at hr
  obtain rfl | rfl := hr
  · obtain ⟨_, _, -, rfl, _, _, ⟨ht, -⟩, rfl, rfl⟩ := hs
    exact ⟨_, .one ht⟩
  · obtain ⟨_, _, ⟨_, hb⟩, rfl, _, _, -, rfl, _, _, ⟨ht, -⟩, rfl, rfl⟩ := hs
    exact ⟨_, .more hb ht⟩

theorem call_total (hr : rhs ∈ Nonterminal.call.expansions) (hs : StandAll rhs trees) :
    ∃ node, Expr (.node ⟨.call, rhs⟩ trees) node := by
  have hr : rhs ∈ [_, _] := hr
  simp only [List.mem_cons, List.not_mem_nil, or_false] at hr
  obtain rfl | rfl := hr
  · obtain ⟨_, _, ⟨ht, -⟩, rfl, _, _, -, rfl, _, _, ⟨_, h⟩, rfl, _, _, -, rfl, rfl⟩ := hs
    exact ⟨_, .call ht h⟩
  · obtain ⟨_, _, ⟨ht, -⟩, rfl, _, _, -, rfl, _, _, -, rfl, rfl⟩ := hs
    exact ⟨_, .call ht .none⟩

theorem function_total (hr : rhs ∈ Nonterminal.function.expansions) (hs : StandAll rhs trees) :
    ∃ node, Expr (.node ⟨.function, rhs⟩ trees) node := by
  have hr : rhs ∈ [_, _] := hr
  simp only [List.mem_cons, List.not_mem_nil, or_false] at hr
  obtain rfl | rfl := hr
  · obtain ⟨_, _, -, rfl, _, _, -, rfl, _, _, ⟨_, h⟩, rfl, _, _, -, rfl, _, _, ⟨_, hb⟩, rfl, rfl⟩ := hs
    exact ⟨_, .function h hb⟩
  · obtain ⟨_, _, -, rfl, _, _, -, rfl, _, _, -, rfl, _, _, ⟨_, hb⟩, rfl, rfl⟩ := hs
    exact ⟨_, .function .none hb⟩

theorem else_total (hr : rhs ∈ Nonterminal.elseClause.expansions) (hs : StandAll rhs trees) :
    ∃ node, Else [.node ⟨.elseClause, rhs⟩ trees] node := by
  have hr : rhs ∈ [_] := hr
  simp only [List.mem_cons, List.not_mem_nil, or_false] at hr
  subst hr
  obtain ⟨_, _, -, rfl, _, _, ⟨_, hb⟩, rfl, rfl⟩ := hs
  exact ⟨_, .some hb⟩

theorem args_total (hr : rhs ∈ Nonterminal.arguments.expansions) (hs : StandAll rhs trees) :
    ∃ node, Args [.node ⟨.arguments, rhs⟩ trees] node := by
  have hr : rhs ∈ [_, _] := hr
  simp only [List.mem_cons, List.not_mem_nil, or_false] at hr
  obtain rfl | rfl := hr
  · obtain ⟨_, _, ⟨_, h⟩, rfl, _, _, ⟨_, hm⟩, rfl, rfl⟩ := hs
    exact ⟨_, .more h hm⟩
  · obtain ⟨_, _, ⟨_, h⟩, rfl, rfl⟩ := hs
    exact ⟨_, .one h⟩

theorem names_total (hr : rhs ∈ Nonterminal.parameters.expansions) (hs : StandAll rhs trees) :
    ∃ node, Names [.node ⟨.parameters, rhs⟩ trees] node := by
  have hr : rhs ∈ [_, _] := hr
  simp only [List.mem_cons, List.not_mem_nil, or_false] at hr
  obtain rfl | rfl := hr
  · obtain ⟨_, _, ⟨ht, -⟩, rfl, _, _, ⟨_, hm⟩, rfl, rfl⟩ := hs
    exact ⟨_, .more ht hm⟩
  · obtain ⟨_, _, ⟨ht, -⟩, rfl, rfl⟩ := hs
    exact ⟨_, .one ht⟩

theorem standAll_append {front symbols : List GrammarSymbol}
    (h : StandAll (front ++ symbols) trees) :
    ∃ first rest, StandAll front first ∧ StandAll symbols rest ∧ trees = first ++ rest := by
  induction front generalizing trees with
  | nil => exact ⟨[], trees, rfl, h, rfl⟩
  | cons symbol front ih =>
    cases symbol with
    | t terminal =>
      obtain ⟨token, _, ht, rfl, h⟩ := h
      obtain ⟨first, rest, hf, hs, rfl⟩ := ih h
      exact ⟨.leaf token :: first, rest, ⟨token, first, ht, rfl, hf⟩, hs, rfl⟩
    | n nonterminal =>
      obtain ⟨tree, _, ht, rfl, h⟩ := h
      obtain ⟨first, rest, hf, hs, rfl⟩ := ih h
      exact ⟨tree :: first, rest, ⟨tree, first, ht, rfl, hf⟩, hs, rfl⟩

theorem optional_total {α : Type} {nonterminal : Nonterminal} {R : List Tree → α → Prop}
    (hr : rhs ∈ [[], [.n nonterminal]]) (hs : StandAll rhs trees) (hnone : ∃ a, R [] a)
    (hsome : ∀ tree, Stands nonterminal tree → ∃ a, R [tree] a) : ∃ a, R trees a := by
  simp only [List.mem_cons, List.not_mem_nil, or_false] at hr
  obtain rfl | rfl := hr
  · obtain rfl := hs
    exact hnone
  · obtain ⟨tree, _, ht, rfl, rfl⟩ := hs
    exact hsome tree ht

theorem return_total (hr : rhs ∈ Nonterminal.returnStatement.expansions)
    (hs : StandAll rhs trees) : ∃ node, Statement (.node ⟨.returnStatement, rhs⟩ trees) node := by
  have hparts : ∀ rhs ∈ Nonterminal.returnStatement.expansions,
      ∃ value ∈ [[], [.n .expression]],
        rhs = .t .returnWord :: (value ++ [.t .semicolon]) := by decide
  obtain ⟨value, hv, rfl⟩ := hparts rhs hr
  obtain ⟨_, _, -, rfl, hs⟩ := hs
  obtain ⟨_, _, hvs, ⟨_, _, -, rfl, rfl⟩, rfl⟩ := standAll_append hs
  obtain ⟨_, h⟩ := optional_total hv hvs ⟨_, .none⟩ fun _ ⟨_, h⟩ => ⟨_, OptExpr.some h⟩
  exact ⟨_, .return h⟩

theorem if_total (hr : rhs ∈ Nonterminal.ifStatement.expansions) (hs : StandAll rhs trees) :
    ∃ node, Statement (.node ⟨.ifStatement, rhs⟩ trees) node := by
  have hparts : ∀ rhs ∈ Nonterminal.ifStatement.expansions,
      ∃ clauses ∈ [[], [.n .elseIfClauses]], ∃ last ∈ [[], [.n .elseClause]],
        rhs = .t .ifWord :: .n .expression :: .n .block :: (clauses ++ last) := by decide
  obtain ⟨clauses, hc, last, hl, rfl⟩ := hparts rhs hr
  obtain ⟨_, _, -, rfl, _, _, ⟨_, he⟩, rfl, _, _, ⟨_, hb⟩, rfl, hs⟩ := hs
  obtain ⟨_, _, hcs, hls, rfl⟩ := standAll_append hs
  obtain ⟨_, hc⟩ := optional_total hc hcs ⟨_, .none⟩ fun _ ⟨_, h⟩ => ⟨_, ElseIfs.some h⟩
  obtain ⟨_, hl⟩ := optional_total hl hls ⟨_, Else.none⟩ fun _ h => h
  exact ⟨_, .if he hb hc hl⟩

theorem for_total (hr : rhs ∈ Nonterminal.forStatement.expansions) (hs : StandAll rhs trees) :
    ∃ node, Statement (.node ⟨.forStatement, rhs⟩ trees) node := by
  have hparts : ∀ rhs ∈ Nonterminal.forStatement.expansions,
      ∃ init ∈ [[], [.n .assignment]], ∃ condition ∈ [[], [.n .expression]],
      ∃ post ∈ [[], [.n .assignment]],
        rhs = .t .forWord :: .t .lpar :: (init ++ .t .semicolon :: (condition ++
          .t .semicolon :: (post ++ [.t .rpar, .n .block]))) := by decide
  obtain ⟨init, hi, condition, hc, post, hp, rfl⟩ := hparts rhs hr
  obtain ⟨_, _, -, rfl, _, _, -, rfl, hs⟩ := hs
  obtain ⟨_, _, his, ⟨_, _, ⟨hm, -⟩, rfl, hrest⟩, rfl⟩ := standAll_append hs
  obtain ⟨_, _, hcs, ⟨_, _, ⟨hm', -⟩, rfl, hlast⟩, rfl⟩ := standAll_append hrest
  obtain ⟨_, _, hps, ⟨_, _, -, rfl, _, _, ⟨_, hb⟩, rfl, rfl⟩, rfl⟩ := standAll_append hlast
  obtain ⟨_, hi⟩ := optional_total hi his ⟨_, .none⟩ fun _ ⟨_, h⟩ => ⟨_, OptAssignment.some h⟩
  obtain ⟨_, hc⟩ := optional_total hc hcs ⟨_, .none⟩ fun _ ⟨_, h⟩ => ⟨_, OptExpr.some h⟩
  obtain ⟨_, hp⟩ := optional_total hp hps ⟨_, .none⟩ fun _ ⟨_, h⟩ => ⟨_, OptAssignment.some h⟩
  exact ⟨_, .for hm hm' hi hc hp hb⟩

/-- The productions of a chain: an operator and an operand, possibly after more of them. -/
def isChain (lhs : Nonterminal) : List GrammarSymbol → Bool
  | [.t op, .n operand] => lhs.operators.contains op && Table.isOperand operand
  | [.n chain, .t op, .n operand] =>
    chain = lhs && lhs.operators.contains op && Table.isOperand operand
  | _ => false

theorem extends_total (hl : lhs.operators ≠ []) (hp : ⟨lhs, rhs⟩ ∈ Grammar.productions)
    (hs : StandAll rhs trees) (left : Node) : ∃ node, Extends left (.node ⟨lhs, rhs⟩ trees) node := by
  have hall : (Grammar.productions.toList.all fun p =>
      p.lhs.operators = [] || isChain p.lhs p.rhs) = true := by decide
  have hc : isChain lhs rhs = true := by
    simpa [hl] using List.all_eq_true.mp hall _ (Array.mem_toList_iff.mpr hp)
  unfold isChain at hc
  split at hc
  · simp only [Bool.and_eq_true, List.contains_iff_mem] at hc
    obtain ⟨_, _, ⟨ht, -⟩, rfl, _, _, h, rfl, rfl⟩ := hs
    obtain ⟨_, h⟩ := (stands_operand hc.2).mp h
    exact ⟨_, .one (ht ▸ hc.1) h⟩
  · simp only [Bool.and_eq_true, List.contains_iff_mem, decide_eq_true_eq] at hc
    obtain ⟨_, _, hb, rfl, _, _, ⟨ht, -⟩, rfl, _, _, h, rfl, rfl⟩ := hs
    obtain ⟨⟨rfl, hop⟩, hoperand⟩ := hc
    obtain ⟨_, hb⟩ := (stands_chain hl).mp hb left
    obtain ⟨_, h⟩ := (stands_operand hoperand).mp h
    exact ⟨_, .more (ht ▸ hop) hb h⟩
  · cases hc

def isClimb (lhs : Nonterminal) : List GrammarSymbol → Bool
  | [.n operand] => Table.isOperand operand
  | [.n operand, .n chain] => lhs.isLevel && Table.isOperand operand && chain.operators ≠ []
  | _ => false

theorem climb_total (hl : Table.isOperand lhs = true) (hc : isClimb lhs rhs = true)
    (hs : StandAll rhs trees) : ∃ node, Expr (.node ⟨lhs, rhs⟩ trees) node := by
  unfold isClimb at hc
  split at hc
  · obtain ⟨_, _, h, rfl, rfl⟩ := hs
    obtain ⟨_, h⟩ := (stands_operand hc).mp h
    exact ⟨_, .single hl h⟩
  · simp only [Bool.and_eq_true, decide_eq_true_eq] at hc
    obtain ⟨_, _, h, rfl, _, _, ht, rfl, rfl⟩ := hs
    obtain ⟨start, h⟩ := (stands_operand hc.1.2).mp h
    obtain ⟨_, ht⟩ := (stands_chain hc.2).mp ht start
    exact ⟨_, .chain hc.1.1 h ht⟩
  · cases hc

theorem unary_total (hr : rhs ∈ Nonterminal.unary.expansions) (hs : StandAll rhs trees) :
    ∃ node, Expr (.node ⟨.unary, rhs⟩ trees) node := by
  have hr : rhs ∈ [_, _, _] := hr
  simp only [List.mem_cons, List.not_mem_nil, or_false] at hr
  obtain rfl | rfl | rfl := hr
  · obtain ⟨_, _, ⟨ht, -⟩, rfl, _, _, ⟨_, h⟩, rfl, rfl⟩ := hs
    exact ⟨_, .neg ht h⟩
  · obtain ⟨_, _, ⟨ht, -⟩, rfl, _, _, ⟨_, h⟩, rfl, rfl⟩ := hs
    exact ⟨_, .not ht h⟩
  · exact climb_total rfl rfl hs

theorem number_total {token : Token} (ht : token.terminal = .number) (h : ¬token.IsBad) :
    ∃ node, Literal.number token.text = .ok node := by
  cases hn : Literal.number token.text with
  | ok node => exact ⟨node, rfl⟩
  | error error => exact absurd (.inl ⟨ht, error, hn⟩) h

theorem string_total {token : Token} (ht : token.terminal = .string) (h : ¬token.IsBad) :
    ∃ text, Literal.string token.text = .ok text := by
  cases hn : Literal.string token.text with
  | ok text => exact ⟨text, rfl⟩
  | error error => exact absurd (.inr ⟨ht, error, hn⟩) h

theorem primary_total (hr : rhs ∈ Nonterminal.primary.expansions) (hs : StandAll rhs trees) :
    ∃ node, Expr (.node ⟨.primary, rhs⟩ trees) node := by
  have hr : rhs ∈ [_, _, _, _, _, _, _, _, _] := hr
  simp only [List.mem_cons, List.not_mem_nil, or_false] at hr
  obtain rfl | rfl | rfl | rfl | rfl | rfl | rfl | rfl | rfl := hr
  · obtain ⟨_, _, ⟨ht, hb⟩, rfl, rfl⟩ := hs
    obtain ⟨_, hn⟩ := number_total ht hb
    exact ⟨_, .number ht hn⟩
  · obtain ⟨_, _, ⟨ht, hb⟩, rfl, rfl⟩ := hs
    obtain ⟨_, hs⟩ := string_total ht hb
    exact ⟨_, .string ht hs⟩
  · obtain ⟨_, _, ⟨ht, -⟩, rfl, rfl⟩ := hs
    exact ⟨_, .true ht⟩
  · obtain ⟨_, _, ⟨ht, -⟩, rfl, rfl⟩ := hs
    exact ⟨_, .false ht⟩
  · obtain ⟨_, _, ⟨ht, -⟩, rfl, rfl⟩ := hs
    exact ⟨_, .nil ht⟩
  · exact climb_total rfl rfl hs
  · exact climb_total rfl rfl hs
  · obtain ⟨_, _, ⟨ht, -⟩, rfl, rfl⟩ := hs
    exact ⟨_, .ident ht⟩
  · obtain ⟨_, _, -, rfl, _, _, ⟨_, h⟩, rfl, _, _, -, rfl, rfl⟩ := hs
    exact ⟨_, .parens h⟩

theorem level_total (hl : lhs.isLevel = true) (hp : ⟨lhs, rhs⟩ ∈ Grammar.productions)
    (hs : StandAll rhs trees) : ∃ node, Expr (.node ⟨lhs, rhs⟩ trees) node := by
  have hall : (Grammar.productions.toList.all fun p =>
      !p.lhs.isLevel || Table.isOperand p.lhs && isClimb p.lhs p.rhs) = true := by decide
  have hc : Table.isOperand lhs = true ∧ isClimb lhs rhs = true := by
    simpa [hl] using List.all_eq_true.mp hall _ (Array.mem_toList_iff.mpr hp)
  exact climb_total hc.1 hc.2 hs

theorem statement_total (hr : rhs ∈ Nonterminal.statement.expansions) (hs : StandAll rhs trees) :
    ∃ node, Statement (.node ⟨.statement, rhs⟩ trees) node := by
  have hr : rhs ∈ [_, _, _, _, _, _, _, _, _] := hr
  simp only [List.mem_cons, List.not_mem_nil, or_false] at hr
  obtain rfl | rfl | rfl | rfl | rfl | rfl | rfl | rfl | rfl := hr
  all_goals
    obtain ⟨_, _, ⟨_, h⟩, rfl, rfl⟩ := hs
    exact ⟨_, .single h⟩

theorem stands_node (hp : ⟨lhs, rhs⟩ ∈ Grammar.productions) (hs : StandAll rhs trees) :
    Stands lhs (.node ⟨lhs, rhs⟩ trees) := by
  have hr := rhs_mem_expansions hp
  cases lhs with
  | program => exact program_total hr hs
  | block => exact block_total hr hs
  | statements => exact statements_total hr hs
  | statement => exact statement_total hr hs
  | assignment => exact assignment_total hr hs
  | returnStatement => exact return_total hr hs
  | ifStatement => exact if_total hr hs
  | elseIfClause => exact clause_total hr hs
  | elseIfClauses => exact clauses_total hr hs
  | elseClause => exact else_total hr hs
  | forStatement => exact for_total hr hs
  | call => exact call_total hr hs
  | arguments => exact args_total hr hs
  | argumentsTail => exact moreArgs_total hr hs
  | function => exact function_total hr hs
  | parameters => exact names_total hr hs
  | parametersTail => exact moreNames_total hr hs
  | unary => exact unary_total hr hs
  | primary => exact primary_total hr hs
  | expression =>
    obtain rfl := List.mem_singleton.mp hr
    exact climb_total rfl rfl hs
  | logical | equality | relational | additive | multiplicative => exact level_total rfl hp hs
  | logicalTail | equalityTail | relationalTail | additiveTail | multiplicativeTail =>
    exact extends_total (by decide) hp hs
  | assignStatement =>
    obtain rfl := List.mem_singleton.mp hr
    obtain ⟨_, _, ⟨_, h⟩, rfl, _, _, -, rfl, rfl⟩ := hs
    exact ⟨_, .assign h⟩
  | expressionStatement =>
    obtain rfl := List.mem_singleton.mp hr
    obtain ⟨_, _, ⟨_, h⟩, rfl, _, _, -, rfl, rfl⟩ := hs
    exact ⟨_, .expr h⟩
  | breakStatement =>
    obtain rfl := List.mem_singleton.mp hr
    obtain ⟨_, _, -, rfl, _, _, -, rfl, rfl⟩ := hs
    exact ⟨_, .break⟩
  | continueStatement =>
    obtain rfl := List.mem_singleton.mp hr
    obtain ⟨_, _, -, rfl, _, _, -, rfl, rfl⟩ := hs
    exact ⟨_, .continue⟩
  | whileStatement =>
    obtain rfl := List.mem_singleton.mp hr
    obtain ⟨_, _, -, rfl, _, _, ⟨_, he⟩, rfl, _, _, ⟨_, hb⟩, rfl, rfl⟩ := hs
    exact ⟨_, .while he hb⟩
  | loopStatement =>
    obtain rfl := List.mem_singleton.mp hr
    obtain ⟨_, _, -, rfl, _, _, ⟨_, hb⟩, rfl, rfl⟩ := hs
    exact ⟨_, .loop hb⟩

theorem standAll_map (hn : ∀ tree ∈ trees, ∀ lhs, tree.root = .n lhs → Stands lhs tree)
    (hg : ∀ token ∈ Tree.forestTokens trees, ¬token.IsBad) :
    StandAll (trees.map Tree.root) trees := by
  induction trees with
  | nil => rfl
  | cons tree trees ih =>
    obtain ⟨ht, hts⟩ := List.forall_mem_cons.mp hn
    rw [Tree.forestTokens] at hg
    have hrest := ih hts fun token hm => hg token (List.mem_append_right _ hm)
    cases tree with
    | leaf token =>
      have hb := hg token (List.mem_append_left _ (by simp [Tree.tokens]))
      exact ⟨token, trees, ⟨rfl, hb⟩, rfl, hrest⟩
    | node production children => exact ⟨_, trees, ht _ rfl, rfl, hrest⟩

/-- Without bad literals every derivation has a meaning. -/
theorem stands_of_valid (h : tree.Valid) (hg : ∀ token ∈ tree.tokens, ¬token.IsBad)
    (hl : tree.root = .n lhs) : Stands lhs tree := by
  induction h generalizing lhs with
  | leaf token => cases hl
  | @node production children hp hroots _ ih =>
    obtain rfl : production.lhs = lhs := by simpa using hl
    rw [Tree.tokens] at hg
    refine stands_node hp (hroots ▸ standAll_map (fun child hc lhs hlhs => ?_) hg)
    exact ih child hc (fun token hm => hg token (Tree.mem_forestTokens.mpr ⟨child, hc, hm⟩)) hlhs

end Rules

open Phrase (ofTree ofForest build)

variable {tree : Tree} {trees : List Tree} {phrase : Phrase} {parts : List Phrase} {token : Token}

theorem ofTree_of_ofForest (h : ofForest trees = .ok parts) (hm : tree ∈ trees) :
    ∃ phrase, ofTree tree = .ok phrase := by
  induction trees generalizing parts with
  | nil => cases hm
  | cons first trees ih =>
    rw [ofForest] at h
    split at h
    · cases h
    · rename_i phrase hf
      split at h
      · rename_i others hr
        cases hm with
        | head => exact ⟨phrase, hf⟩
        | tail _ hm => exact ih hr hm
      · cases h

theorem ofForest_of_ofTree {production : Production}
    (h : ofTree (.node production trees) = .ok phrase) :
    ∃ parts, ofForest trees = .ok parts ∧ build production.lhs parts = .ok phrase := by
  rw [ofTree] at h
  split at h
  · rename_i parts hf
    exact ⟨parts, hf, h⟩
  · cases h

theorem not_isBad_of_ofToken (h : Phrase.ofToken token = .ok phrase) : ¬token.IsBad := by
  rintro (⟨ht, error, he⟩ | ⟨ht, error, he⟩)
  · simp [Phrase.ofToken, ht, he, Phrase.literal] at h
  · simp [Phrase.ofToken, ht, he, Phrase.literal, Except.map] at h

theorem literal_alone {production : Production} (hp : production ∈ Grammar.productions)
    (h : .t .number ∈ production.rhs ∨ .t .string ∈ production.rhs) :
    production.lhs = .primary ∧ production.rhs.length = 1 := by
  have hall : ∀ p ∈ Grammar.productions.toList, .t .number ∈ p.rhs ∨ .t .string ∈ p.rhs →
      p.lhs = .primary ∧ p.rhs.length = 1 := by decide
  exact hall production (Array.mem_toList_iff.mpr hp) h

/-- A bad literal is alone in its production. -/
theorem eq_singleton_of_isBad {production : Production} (hp : production ∈ Grammar.productions)
    (hroots : trees.map Tree.root = production.rhs) (hm : .leaf token ∈ trees) (hb : token.IsBad) :
    production.lhs = .primary ∧ trees = [.leaf token] := by
  have hr : .t token.terminal ∈ production.rhs :=
    hroots ▸ List.mem_map.mpr ⟨_, hm, Tree.root_leaf token⟩
  have hl : .t .number ∈ production.rhs ∨ .t .string ∈ production.rhs := by
    obtain ⟨ht, -⟩ | ⟨ht, -⟩ := hb
    · exact .inl (ht ▸ hr)
    · exact .inr (ht ▸ hr)
  obtain ⟨hlhs, hlen⟩ := literal_alone hp hl
  obtain ⟨child, rfl⟩ : ∃ child, trees = [child] := by
    rw [← hroots, List.length_map] at hlen
    exact List.length_eq_one_iff.mp hlen
  obtain rfl := List.mem_singleton.mp hm
  exact ⟨hlhs, rfl⟩

theorem not_isBad_of_leaf {production : Production} (hp : production ∈ Grammar.productions)
    (hroots : trees.map Tree.root = production.rhs) (hm : .leaf token ∈ trees)
    (h : ofTree (.node production trees) = .ok phrase) : ¬token.IsBad := by
  intro hb
  obtain ⟨hlhs, rfl⟩ := eq_singleton_of_isBad hp hroots hm hb
  obtain ⟨parts, hf, hbuild⟩ := ofForest_of_ofTree h
  obtain rfl : [Phrase.token token] = parts :=
    Except.ok.inj ((ofForest_leaf ofForest_nil).symm.trans hf)
  rw [hlhs] at hbuild
  exact not_isBad_of_ofToken hbuild hb

theorem not_isBad_of_ofTree {lhs : Nonterminal} (hv : tree.Valid) (h : ofTree tree = .ok phrase)
    (hl : tree.root = .n lhs) : ∀ token ∈ tree.tokens, ¬token.IsBad := by
  induction hv generalizing phrase lhs with
  | leaf token => cases hl
  | node hp hroots _ ih =>
    intro token hm
    rw [Tree.tokens] at hm
    obtain ⟨child, hc, hm⟩ := Tree.mem_forestTokens.mp hm
    cases child with
    | leaf t =>
      obtain rfl : token = t := by simpa [Tree.tokens] using hm
      exact not_isBad_of_leaf hp hroots hc h
    | node production children =>
      obtain ⟨parts, hf, -⟩ := ofForest_of_ofTree h
      obtain ⟨phrase, ho⟩ := ofTree_of_ofForest hf hc
      exact ih _ hc ho rfl token hm

/-- A program's derivation is lowered exactly to what it means, and it means something exactly if
it has no bad literals. -/
theorem ofTree_eq_ok_iff (hv : tree.Valid) (hr : tree.root = .n .program) :
    ofTree tree = .ok phrase ↔
      (∀ token ∈ tree.tokens, ¬token.IsBad) ∧ ∃ node, phrase = .node node ∧ Program tree node := by
  constructor
  · intro h
    have hg := not_isBad_of_ofTree hv h hr
    obtain ⟨node, hp⟩ : ∃ node, Program tree node := stands_of_valid hv hg hr
    exact ⟨hg, node, Except.ok.inj (h.symm.trans hp.ofTree), hp⟩
  · rintro ⟨-, node, rfl, hp⟩
    exact hp.ofTree

variable {literal : BadLiteral}

theorem isBad_of_ofToken (h : Phrase.ofToken token = .error literal) :
    token.IsBad ∧ token.index = literal.index := by
  unfold Phrase.ofToken at h
  split at h
  next ht =>
    cases hn : Literal.number token.text with
    | ok value => simp [hn, Phrase.literal] at h
    | error error =>
      simp only [hn, Phrase.literal, Except.error.injEq] at h
      exact ⟨.inl ⟨ht, error, hn⟩, h ▸ rfl⟩
  next ht =>
    cases hs : Literal.string token.text with
    | ok value => simp [hs, Phrase.literal, Except.map] at h
    | error error =>
      simp only [hs, Phrase.literal, Except.map, Except.error.injEq] at h
      exact ⟨.inr ⟨ht, error, hs⟩, h ▸ rfl⟩
  all_goals cases h

theorem Optional.ofTree {absent : Prop} (h : Optional [tree] absent phrase) :
    ∃ phrase, ofTree tree = .ok phrase := by
  rcases h with ⟨hnil, -⟩ | ⟨_, hone, h⟩
  · cases hnil
  · cases hone
    exact ⟨phrase, h⟩

theorem Stands.ofTree {lhs : Nonterminal} (h : Stands lhs tree) :
    ∃ phrase, ofTree tree = .ok phrase := by
  cases lhs with
  | program => exact h.imp' _ fun _ h => h.ofTree
  | block => exact h.imp' _ fun _ h => h.ofTree
  | statements => exact h.imp' _ fun _ h => h.ofTree
  | assignment => exact h.imp' _ fun _ h => h.ofTree
  | elseIfClause => exact h.imp' _ fun _ h => h.ofTree
  | elseIfClauses => exact h.imp' _ fun _ h => h.ofTree
  | argumentsTail => exact h.imp' _ fun _ h => h.ofTree
  | parametersTail => exact h.imp' _ fun _ h => h.ofTree
  | elseClause =>
    obtain ⟨_, h⟩ := h
    exact h.optional.ofTree
  | arguments =>
    obtain ⟨_, h⟩ := h
    exact h.optional.ofTree
  | parameters =>
    obtain ⟨_, h⟩ := h
    exact h.optional.ofTree
  | logicalTail | equalityTail | relationalTail | additiveTail | multiplicativeTail =>
    obtain ⟨_, h⟩ := h .nil
    obtain ⟨operands, h, -⟩ := h.ofTree
    exact ⟨_, h⟩
  | expression | logical | equality | relational | additive | multiplicative | unary | primary
  | call | function => exact h.imp' _ fun _ h => h.ofTree
  | _ => exact h.imp' _ fun _ h => h.ofTree

theorem split_of_ofForest_eq_error (h : ofForest trees = .error literal) :
    ∃ before child after, trees = before ++ child :: after ∧
      (∀ tree ∈ before, ∃ phrase, ofTree tree = .ok phrase) ∧ ofTree child = .error literal := by
  induction trees with
  | nil => cases h
  | cons first trees ih =>
    rw [ofForest] at h
    split at h
    next hf =>
      cases h
      exact ⟨[], first, trees, rfl, by simp, hf⟩
    next phrase hf =>
      split at h
      next => cases h
      next hrest =>
        cases h
        obtain ⟨before, child, after, rfl, hok, he⟩ := ih hrest
        exact ⟨first :: before, child, after, rfl, List.forall_mem_cons.mpr ⟨⟨phrase, hf⟩, hok⟩, he⟩

/-- A derivation that is not lowered has a bad literal, and the first one is reported. -/
theorem exists_isBad_of_ofTree (hv : tree.Valid) (h : ofTree tree = .error literal) :
    ∃ before token after, tree.tokens = before ++ token :: after ∧ token.index = literal.index ∧
      token.IsBad ∧ ∀ other ∈ before, ¬other.IsBad := by
  induction hv with
  | leaf token => cases h
  | @node production children hp hroots hvalid ih =>
    rw [ofTree] at h
    split at h
    next parts hf =>
      by_cases hleaf : ∃ token, .leaf token ∈ children ∧ token.IsBad
      · obtain ⟨token, hm, hbad⟩ := hleaf
        obtain ⟨hlhs, rfl⟩ := eq_singleton_of_isBad hp hroots hm hbad
        obtain rfl : [Phrase.token token] = parts :=
          Except.ok.inj ((ofForest_leaf ofForest_nil).symm.trans hf)
        rw [hlhs] at h
        obtain ⟨-, hi⟩ := isBad_of_ofToken h
        exact ⟨[], token, [], by simp [Tree.tokens, Tree.forestTokens], hi, hbad, by simp⟩
      · have hgood : ∀ token ∈ Tree.forestTokens children, ¬token.IsBad := by
          intro token hm
          obtain ⟨child, hc, hm⟩ := Tree.mem_forestTokens.mp hm
          cases child with
          | leaf t =>
            obtain rfl : token = t := by simpa [Tree.tokens] using hm
            exact fun hbad => hleaf ⟨token, hc, hbad⟩
          | node =>
            obtain ⟨phrase, ho⟩ := ofTree_of_ofForest hf hc
            exact not_isBad_of_ofTree (hvalid _ hc) ho rfl token hm
        obtain ⟨phrase, ho⟩ := (stands_of_valid (.node hp hroots hvalid) hgood rfl).ofTree
        rw [ofTree, hf] at ho
        cases h.symm.trans ho
    next hf =>
      cases h
      obtain ⟨earlier, child, later, rfl, hok, he⟩ := split_of_ofForest_eq_error hf
      obtain ⟨before, token, after, htokens, hi, hbad, hgood⟩ := ih child (by simp) he
      refine ⟨Tree.forestTokens earlier ++ before, token, after ++ Tree.forestTokens later, ?_, hi,
        hbad, List.forall_mem_append.mpr ⟨?_, hgood⟩⟩
      · simp [Tree.tokens, Tree.forestTokens_append, Tree.forestTokens, htokens]
      · intro other hm
        obtain ⟨tree, htree, hm⟩ := Tree.mem_forestTokens.mp hm
        obtain ⟨phrase, ho⟩ := hok tree htree
        cases tree with
        | node => exact not_isBad_of_ofTree (hvalid _ (by simp [htree])) ho rfl other hm
        | leaf t =>
          obtain rfl : other = t := by simpa [Tree.tokens] using hm
          intro hb
          obtain ⟨-, hone⟩ := eq_singleton_of_isBad hp hroots (List.mem_append_left _ htree) hb
          have hpos := List.length_pos_of_mem htree
          have hlen := congrArg List.length hone
          simp only [List.length_append, List.length_cons, List.length_nil] at hlen
          omega

end Lowers

end ScriptLang
