import ScriptLang.Node.Lowering
import ScriptLang.Proofs.Grammar.Lookahead

/-! # What derivations mean

The rules by which a derivation stands for a syntax tree: operators of one level group to the left,
unary ones to the right, and what is left out is null or an empty list. Lowering follows these
rules and fails only on a bad literal.
-/

namespace ScriptLang

def Nonterminal.isLevel : Nonterminal → Bool
  | .logical | .equality | .relational | .additive | .multiplicative => true
  | _ => false

/-- The operators of a chain of one level; only chains have any. -/
def Nonterminal.operators : Nonterminal → List Terminal
  | .logicalTail => [.andWord, .orWord]
  | .equalityTail => [.eq, .ne]
  | .relationalTail => [.le, .ge, .lt, .gt]
  | .additiveTail => [.plus, .minus]
  | .multiplicativeTail => [.star, .slash, .percent]
  | _ => []

namespace Lowers

inductive MoreNames : Tree → List String → Prop where
  | one {rhs : List GrammarSymbol} {comma name : Token} : name.terminal = .ident →
      MoreNames (.node ⟨.parametersTail, rhs⟩ [.leaf comma, .leaf name]) [name.text]
  | more {rhs : List GrammarSymbol} {before : Tree} {comma name : Token} {names : List String} :
      MoreNames before names → name.terminal = .ident →
      MoreNames (.node ⟨.parametersTail, rhs⟩ [before, .leaf comma, .leaf name])
        (names ++ [name.text])

inductive Names : List Tree → List String → Prop where
  | none : Names [] []
  | one {rhs : List GrammarSymbol} {name : Token} : name.terminal = .ident →
      Names [.node ⟨.parameters, rhs⟩ [.leaf name]] [name.text]
  | more {rhs : List GrammarSymbol} {name : Token} {rest : Tree} {names : List String} :
      name.terminal = .ident → MoreNames rest names →
      Names [.node ⟨.parameters, rhs⟩ [.leaf name, rest]] (name.text :: names)

mutual

/-- The node of an expression. -/
inductive Expr : Tree → Node → Prop where
  | single {lhs : Nonterminal} {rhs : List GrammarSymbol} {child : Tree} {node : Node} :
      Table.isOperand lhs = true → Expr child node → Expr (.node ⟨lhs, rhs⟩ [child]) node
  | number {rhs : List GrammarSymbol} {token : Token} {node : Node} :
      token.terminal = .number → Literal.number token.text = .ok node →
      Expr (.node ⟨.primary, rhs⟩ [.leaf token]) node
  | string {rhs : List GrammarSymbol} {token : Token} {text : String} :
      token.terminal = .string → Literal.string token.text = .ok text →
      Expr (.node ⟨.primary, rhs⟩ [.leaf token]) (.literal (.str text) (.str "String"))
  | true {rhs : List GrammarSymbol} {token : Token} : token.terminal = .trueWord →
      Expr (.node ⟨.primary, rhs⟩ [.leaf token]) (.literal (.bool true) (.str "Bool"))
  | false {rhs : List GrammarSymbol} {token : Token} : token.terminal = .falseWord →
      Expr (.node ⟨.primary, rhs⟩ [.leaf token]) (.literal (.bool false) (.str "Bool"))
  | nil {rhs : List GrammarSymbol} {token : Token} : token.terminal = .nilWord →
      Expr (.node ⟨.primary, rhs⟩ [.leaf token]) (.literal .nil (.str "Nil"))
  | ident {rhs : List GrammarSymbol} {token : Token} : token.terminal = .ident →
      Expr (.node ⟨.primary, rhs⟩ [.leaf token]) (.ident (.str token.text))
  | parens {rhs : List GrammarSymbol} {left right : Token} {inner : Tree} {node : Node} :
      Expr inner node → Expr (.node ⟨.primary, rhs⟩ [.leaf left, inner, .leaf right]) node
  | neg {rhs : List GrammarSymbol} {token : Token} {operand : Tree} {node : Node} :
      token.terminal = .minus → Expr operand node →
      Expr (.node ⟨.unary, rhs⟩ [.leaf token, operand]) (.unary (.str "neg") node)
  | not {rhs : List GrammarSymbol} {token : Token} {operand : Tree} {node : Node} :
      token.terminal = .notWord → Expr operand node →
      Expr (.node ⟨.unary, rhs⟩ [.leaf token, operand]) (.unary (.str "not") node)
  | chain {level : Nonterminal} {rhs : List GrammarSymbol} {first tail : Tree}
      {start node : Node} : level.isLevel = true → Expr first start → Extends start tail node →
      Expr (.node ⟨level, rhs⟩ [first, tail]) node
  | call {rhs : List GrammarSymbol} {name left right : Token} {args : List Tree}
      {nodes : List Node} : name.terminal = .ident → Args args nodes →
      Expr (.node ⟨.call, rhs⟩ ([.leaf name, .leaf left] ++ args ++ [.leaf right]))
        (.call (.ident (.str name.text)) nodes)
  | function {rhs : List GrammarSymbol} {word left right : Token} {params : List Tree}
      {body : Tree} {names : List String} {node : Node} : Names params names → Block body node →
      Expr (.node ⟨.function, rhs⟩ ([.leaf word, .leaf left] ++ params ++ [.leaf right, body]))
        (.funcDef (names.map .str) node)

/-- The node that a chain of operators and operands makes of the node to its left. -/
inductive Extends : Node → Tree → Node → Prop where
  | one {lhs : Nonterminal} {rhs : List GrammarSymbol} {op : Token} {operand : Tree}
      {left right : Node} : op.terminal ∈ lhs.operators → Expr operand right →
      Extends left (.node ⟨lhs, rhs⟩ [.leaf op, operand]) (.binary (.str op.text) left right)
  | more {lhs : Nonterminal} {rhs : List GrammarSymbol} {before operand : Tree} {op : Token}
      {left middle right : Node} : op.terminal ∈ lhs.operators → Extends left before middle →
      Expr operand right →
      Extends left (.node ⟨lhs, rhs⟩ [before, .leaf op, operand])
        (.binary (.str op.text) middle right)

inductive Args : List Tree → List Node → Prop where
  | none : Args [] []
  | one {rhs : List GrammarSymbol} {first : Tree} {node : Node} : Expr first node →
      Args [.node ⟨.arguments, rhs⟩ [first]] [node]
  | more {rhs : List GrammarSymbol} {first rest : Tree} {node : Node} {nodes : List Node} :
      Expr first node → MoreArgs rest nodes →
      Args [.node ⟨.arguments, rhs⟩ [first, rest]] (node :: nodes)

inductive MoreArgs : Tree → List Node → Prop where
  | one {rhs : List GrammarSymbol} {comma : Token} {arg : Tree} {node : Node} : Expr arg node →
      MoreArgs (.node ⟨.argumentsTail, rhs⟩ [.leaf comma, arg]) [node]
  | more {rhs : List GrammarSymbol} {before arg : Tree} {comma : Token} {nodes : List Node}
      {node : Node} : MoreArgs before nodes → Expr arg node →
      MoreArgs (.node ⟨.argumentsTail, rhs⟩ [before, .leaf comma, arg]) (nodes ++ [node])

inductive OptExpr : List Tree → Node → Prop where
  | none : OptExpr [] .null
  | some {tree : Tree} {node : Node} : Expr tree node → OptExpr [tree] node

inductive Assignment : Tree → Node → Prop where
  | mk {rhs : List GrammarSymbol} {name mark : Token} {value : Tree} {node : Node} :
      name.terminal = .ident → Expr value node →
      Assignment (.node ⟨.assignment, rhs⟩ [.leaf name, .leaf mark, value])
        (.assign (.str name.text) node)

inductive OptAssignment : List Tree → Node → Prop where
  | none : OptAssignment [] .null
  | some {tree : Tree} {node : Node} : Assignment tree node → OptAssignment [tree] node

inductive Block : Tree → Node → Prop where
  | mk {rhs : List GrammarSymbol} {left right : Token} {body : List Tree} {nodes : List Node} :
      Body body nodes →
      Block (.node ⟨.block, rhs⟩ ([.leaf left] ++ body ++ [.leaf right])) (.block nodes)

/-- The statements of a block or a program, if there are any. -/
inductive Body : List Tree → List Node → Prop where
  | none : Body [] []
  | some {tree : Tree} {nodes : List Node} : Statements tree nodes → Body [tree] nodes

inductive Statements : Tree → List Node → Prop where
  | one {rhs : List GrammarSymbol} {tree : Tree} {node : Node} : Statement tree node →
      Statements (.node ⟨.statements, rhs⟩ [tree]) [node]
  | more {rhs : List GrammarSymbol} {before tree : Tree} {nodes : List Node} {node : Node} :
      Statements before nodes → Statement tree node →
      Statements (.node ⟨.statements, rhs⟩ [before, tree]) (nodes ++ [node])

inductive Else : List Tree → Node → Prop where
  | none : Else [] .null
  | some {rhs : List GrammarSymbol} {word : Token} {body : Tree} {node : Node} :
      Block body node → Else [.node ⟨.elseClause, rhs⟩ [.leaf word, body]] node

inductive ElseIfs : List Tree → List Node → Prop where
  | none : ElseIfs [] []
  | some {tree : Tree} {nodes : List Node} : Clauses tree nodes → ElseIfs [tree] nodes

inductive Clause : Tree → Node → Prop where
  | mk {rhs : List GrammarSymbol} {word word' : Token} {condition body : Tree}
      {test node : Node} : Expr condition test → Block body node →
      Clause (.node ⟨.elseIfClause, rhs⟩ [.leaf word, .leaf word', condition, body])
        (.elseIf test node)

inductive Clauses : Tree → List Node → Prop where
  | one {rhs : List GrammarSymbol} {tree : Tree} {node : Node} : Clause tree node →
      Clauses (.node ⟨.elseIfClauses, rhs⟩ [tree]) [node]
  | more {rhs : List GrammarSymbol} {before tree : Tree} {nodes : List Node} {node : Node} :
      Clauses before nodes → Clause tree node →
      Clauses (.node ⟨.elseIfClauses, rhs⟩ [before, tree]) (nodes ++ [node])

inductive Statement : Tree → Node → Prop where
  | single {rhs : List GrammarSymbol} {child : Tree} {node : Node} : Statement child node →
      Statement (.node ⟨.statement, rhs⟩ [child]) node
  | assign {rhs : List GrammarSymbol} {child : Tree} {mark : Token} {node : Node} :
      Assignment child node → Statement (.node ⟨.assignStatement, rhs⟩ [child, .leaf mark]) node
  | return {rhs : List GrammarSymbol} {word mark : Token} {value : List Tree} {node : Node} :
      OptExpr value node →
      Statement (.node ⟨.returnStatement, rhs⟩ ([.leaf word] ++ value ++ [.leaf mark]))
        (.returnStmt node)
  | break {rhs : List GrammarSymbol} {word mark : Token} :
      Statement (.node ⟨.breakStatement, rhs⟩ [.leaf word, .leaf mark]) .breakStmt
  | continue {rhs : List GrammarSymbol} {word mark : Token} :
      Statement (.node ⟨.continueStatement, rhs⟩ [.leaf word, .leaf mark]) .continueStmt
  | if {rhs : List GrammarSymbol} {word : Token} {condition body : Tree}
      {clauses otherwise : List Tree} {test node last : Node} {nodes : List Node} :
      Expr condition test → Block body node → ElseIfs clauses nodes → Else otherwise last →
      Statement (.node ⟨.ifStatement, rhs⟩
        ([.leaf word, condition, body] ++ clauses ++ otherwise)) (.ifStmt test node nodes last)
  | while {rhs : List GrammarSymbol} {word : Token} {condition body : Tree} {test node : Node} :
      Expr condition test → Block body node →
      Statement (.node ⟨.whileStatement, rhs⟩ [.leaf word, condition, body])
        (.whileStmt test node)
  | loop {rhs : List GrammarSymbol} {word : Token} {body : Tree} {node : Node} :
      Block body node →
      Statement (.node ⟨.loopStatement, rhs⟩ [.leaf word, body]) (.loopStmt node)
  | for {rhs : List GrammarSymbol} {word left mark mark' right : Token}
      {init condition post : List Tree} {body : Tree} {start test step node : Node} :
      mark.terminal = .semicolon → mark'.terminal = .semicolon →
      OptAssignment init start → OptExpr condition test → OptAssignment post step →
      Block body node →
      Statement (.node ⟨.forStatement, rhs⟩ (.leaf word :: .leaf left :: (init ++ .leaf mark ::
        (condition ++ .leaf mark' :: (post ++ [.leaf right, body]))))) (.forStmt start test step node)
  | expr {rhs : List GrammarSymbol} {child : Tree} {mark : Token} {node : Node} :
      Expr child node → Statement (.node ⟨.expressionStatement, rhs⟩ [child, .leaf mark])
        (.exprStmt node)

end

inductive Program : Tree → Node → Prop where
  | mk {rhs : List GrammarSymbol} {body : List Tree} {nodes : List Node} : Body body nodes →
      Program (.node ⟨.program, rhs⟩ body) (.program nodes)

open Phrase (ofTree ofForest build)

theorem ofTree_leaf (token : Token) : ofTree (.leaf token) = .ok (.token token) := by
  rw [ofTree]

theorem ofForest_nil : ofForest [] = .ok [] := by rw [ofForest]

theorem ofForest_cons {tree : Tree} {rest : List Tree} {first : Phrase} {others : List Phrase}
    (h : ofTree tree = .ok first) (hr : ofForest rest = .ok others) :
    ofForest (tree :: rest) = .ok (first :: others) := by
  simp only [ofForest, h, hr]

theorem ofForest_leaf {token : Token} {rest : List Tree} {others : List Phrase}
    (hr : ofForest rest = .ok others) :
    ofForest (.leaf token :: rest) = .ok (.token token :: others) :=
  ofForest_cons (ofTree_leaf token) hr

theorem ofTree_node {production : Production} {children : List Tree} {parts : List Phrase}
    {phrase : Phrase} (h : ofForest children = .ok parts)
    (hb : build production.lhs parts = .ok phrase) :
    ofTree (.node production children) = .ok phrase := by
  simp only [ofTree, h, hb]

theorem MoreNames.ofTree {tree : Tree} {names : List String} (h : MoreNames tree names) :
    ofTree tree = .ok (.names names) := by
  induction h with
  | one _ => exact ofTree_node (ofForest_leaf (ofForest_leaf ofForest_nil)) rfl
  | more _ _ ih =>
    exact ofTree_node (ofForest_cons ih (ofForest_leaf (ofForest_leaf ofForest_nil))) rfl

/-- The phrases of a part that may be left out, in front of those of the parts after it. -/
def Optional (trees : List Tree) (absent : Prop) (phrase : Phrase) : Prop :=
  trees = [] ∧ absent ∨ ∃ tree, trees = [tree] ∧ Phrase.ofTree tree = .ok phrase

theorem Optional.ofForest {trees rest : List Tree} {absent : Prop} {phrase : Phrase}
    {others : List Phrase} (h : Optional trees absent phrase) (hr : ofForest rest = .ok others) :
    absent ∧ ofForest (trees ++ rest) = .ok others ∨
      ofForest (trees ++ rest) = .ok (phrase :: others) := by
  obtain ⟨rfl, ha⟩ | ⟨tree, rfl, ht⟩ := h
  · exact .inl ⟨ha, hr⟩
  · exact .inr (ofForest_cons ht hr)

theorem Names.optional {trees : List Tree} {names : List String} (h : Names trees names) :
    Optional trees (names = []) (.names names) := by
  cases h with
  | none => exact .inl ⟨rfl, rfl⟩
  | one _ => exact .inr ⟨_, rfl, ofTree_node (ofForest_leaf ofForest_nil) rfl⟩
  | more _ hm =>
    exact .inr ⟨_, rfl, ofTree_node (ofForest_leaf (ofForest_cons hm.ofTree ofForest_nil)) rfl⟩

theorem build_single {lhs : Nonterminal} (h : Table.isOperand lhs = true) (node : Node) :
    build lhs [.node node] = .ok (.node node) := by
  cases lhs <;> first | rfl | cases h

theorem build_chain {level : Nonterminal} (h : level.isLevel = true) (first : Node)
    (rest : List (String × Node)) :
    build level [.node first, .operands rest] = .ok (.node (Phrase.chain first rest)) := by
  cases level <;> first | rfl | cases h

theorem build_operand {lhs : Nonterminal} {op : Token} (h : op.terminal ∈ lhs.operators)
    (operand : Node) :
    build lhs [.token op, .node operand] = .ok (.operands [(op.text, operand)]) := by
  cases lhs <;> first | rfl | cases h

theorem build_operands {lhs : Nonterminal} {op : Token} (h : op.terminal ∈ lhs.operators)
    (before : List (String × Node)) (operand : Node) :
    build lhs [.operands before, .token op, .node operand] =
      .ok (.operands (before ++ [(op.text, operand)])) := by
  cases lhs <;> first | rfl | cases h

theorem chain_concat (first : Node) (before : List (String × Node)) (op : String)
    (operand : Node) : Phrase.chain first (before ++ [(op, operand)]) =
      .binary (.str op) (Phrase.chain first before) operand := by
  simp [Phrase.chain]

theorem ofTree_token {rhs : List GrammarSymbol} {token : Token} {phrase : Phrase}
    (h : Phrase.ofToken token = .ok phrase) :
    Phrase.ofTree (.node ⟨.primary, rhs⟩ [.leaf token]) = .ok phrase :=
  ofTree_node (ofForest_leaf ofForest_nil) h

mutual

theorem Expr.ofTree {tree : Tree} {node : Node} : Expr tree node →
    Phrase.ofTree tree = .ok (.node node)
  | .single h he => ofTree_node (ofForest_cons he.ofTree ofForest_nil) (build_single h _)
  | .number ht hn => ofTree_token (by simp [Phrase.ofToken, ht, hn, Phrase.literal])
  | .string ht hs => ofTree_token (by simp [Phrase.ofToken, ht, hs, Phrase.literal, Except.map])
  | .true ht => ofTree_token (by simp [Phrase.ofToken, ht])
  | .false ht => ofTree_token (by simp [Phrase.ofToken, ht])
  | .nil ht => ofTree_token (by simp [Phrase.ofToken, ht])
  | .ident ht => ofTree_token (by simp [Phrase.ofToken, ht])
  | .parens he =>
    ofTree_node (ofForest_leaf (ofForest_cons he.ofTree (ofForest_leaf ofForest_nil))) rfl
  | .neg ht he => by
    refine ofTree_node (ofForest_leaf (ofForest_cons he.ofTree ofForest_nil)) ?_
    show Except.ok (Phrase.node (.unary (.str (if _ then _ else _)) _)) = _
    rw [if_pos ht]
  | .not ht he => by
    refine ofTree_node (ofForest_leaf (ofForest_cons he.ofTree ofForest_nil)) ?_
    show Except.ok (Phrase.node (.unary (.str (if _ then _ else _)) _)) = _
    rw [if_neg (by simp [ht])]
  | .chain h he hx => by
    obtain ⟨operands, ho, rfl⟩ := hx.ofTree
    exact ofTree_node (ofForest_cons he.ofTree (ofForest_cons ho ofForest_nil)) (build_chain h _ _)
  | .call _ ha => by
    obtain ⟨rfl, hf⟩ | hf := ha.optional.ofForest (ofForest_leaf ofForest_nil)
    · exact ofTree_node (ofForest_leaf (ofForest_leaf hf)) rfl
    · exact ofTree_node (ofForest_leaf (ofForest_leaf hf)) rfl
  | .function hn hb => by
    obtain ⟨rfl, hf⟩ | hf :=
      hn.optional.ofForest (ofForest_leaf (ofForest_cons hb.ofTree ofForest_nil))
    · exact ofTree_node (ofForest_leaf (ofForest_leaf hf)) rfl
    · exact ofTree_node (ofForest_leaf (ofForest_leaf hf)) rfl

theorem Extends.ofTree {left node : Node} {tree : Tree} : Extends left tree node →
    ∃ operands, Phrase.ofTree tree = .ok (.operands operands) ∧ Phrase.chain left operands = node
  | .one h he =>
    ⟨_, ofTree_node (ofForest_leaf (ofForest_cons he.ofTree ofForest_nil)) (build_operand h _), rfl⟩
  | .more h hx he => by
    obtain ⟨operands, ho, rfl⟩ := hx.ofTree
    exact ⟨_, ofTree_node (ofForest_cons ho (ofForest_leaf (ofForest_cons he.ofTree ofForest_nil)))
      (build_operands h _ _), chain_concat _ _ _ _⟩

theorem Args.optional {trees : List Tree} {nodes : List Node} : Args trees nodes →
    Optional trees (nodes = []) (.nodes nodes)
  | .none => .inl ⟨rfl, rfl⟩
  | .one he => .inr ⟨_, rfl, ofTree_node (ofForest_cons he.ofTree ofForest_nil) rfl⟩
  | .more he hm =>
    .inr ⟨_, rfl, ofTree_node (ofForest_cons he.ofTree (ofForest_cons hm.ofTree ofForest_nil)) rfl⟩

theorem MoreArgs.ofTree {tree : Tree} {nodes : List Node} : MoreArgs tree nodes →
    Phrase.ofTree tree = .ok (.nodes nodes)
  | .one he => ofTree_node (ofForest_leaf (ofForest_cons he.ofTree ofForest_nil)) rfl
  | .more hm he =>
    ofTree_node (ofForest_cons hm.ofTree (ofForest_leaf (ofForest_cons he.ofTree ofForest_nil))) rfl

theorem OptExpr.optional {trees : List Tree} {node : Node} : OptExpr trees node →
    Optional trees (node = .null) (.node node)
  | .none => .inl ⟨rfl, rfl⟩
  | .some he => .inr ⟨_, rfl, he.ofTree⟩

theorem Assignment.ofTree {tree : Tree} {node : Node} : Assignment tree node →
    Phrase.ofTree tree = .ok (.node node)
  | .mk _ he =>
    ofTree_node (ofForest_leaf (ofForest_leaf (ofForest_cons he.ofTree ofForest_nil))) rfl

theorem OptAssignment.optional {trees : List Tree} {node : Node} : OptAssignment trees node →
    Optional trees (node = .null) (.node node)
  | .none => .inl ⟨rfl, rfl⟩
  | .some ha => .inr ⟨_, rfl, ha.ofTree⟩

theorem Block.ofTree {tree : Tree} {node : Node} : Block tree node →
    Phrase.ofTree tree = .ok (.node node)
  | .mk hb => by
    obtain ⟨rfl, hf⟩ | hf := hb.optional.ofForest (ofForest_leaf ofForest_nil)
    · exact ofTree_node (ofForest_leaf hf) rfl
    · exact ofTree_node (ofForest_leaf hf) rfl

theorem Body.optional {trees : List Tree} {nodes : List Node} : Body trees nodes →
    Optional trees (nodes = []) (.nodes nodes)
  | .none => .inl ⟨rfl, rfl⟩
  | .some hs => .inr ⟨_, rfl, hs.ofTree⟩

theorem Statements.ofTree {tree : Tree} {nodes : List Node} : Statements tree nodes →
    Phrase.ofTree tree = .ok (.nodes nodes)
  | .one hs => ofTree_node (ofForest_cons hs.ofTree ofForest_nil) rfl
  | .more hb hs => ofTree_node (ofForest_cons hb.ofTree (ofForest_cons hs.ofTree ofForest_nil)) rfl

theorem Else.optional {trees : List Tree} {node : Node} : Else trees node →
    Optional trees (node = .null) (.node node)
  | .none => .inl ⟨rfl, rfl⟩
  | .some hb =>
    .inr ⟨_, rfl, ofTree_node (ofForest_leaf (ofForest_cons hb.ofTree ofForest_nil)) rfl⟩

theorem ElseIfs.optional {trees : List Tree} {nodes : List Node} : ElseIfs trees nodes →
    Optional trees (nodes = []) (.nodes nodes)
  | .none => .inl ⟨rfl, rfl⟩
  | .some hc => .inr ⟨_, rfl, hc.ofTree⟩

theorem Clause.ofTree {tree : Tree} {node : Node} : Clause tree node →
    Phrase.ofTree tree = .ok (.node node)
  | .mk he hb => ofTree_node (ofForest_leaf (ofForest_leaf
      (ofForest_cons he.ofTree (ofForest_cons hb.ofTree ofForest_nil)))) rfl

theorem Clauses.ofTree {tree : Tree} {nodes : List Node} : Clauses tree nodes →
    Phrase.ofTree tree = .ok (.nodes nodes)
  | .one hc => ofTree_node (ofForest_cons hc.ofTree ofForest_nil) rfl
  | .more hb hc => ofTree_node (ofForest_cons hb.ofTree (ofForest_cons hc.ofTree ofForest_nil)) rfl

theorem Statement.ofTree {tree : Tree} {node : Node} : Statement tree node →
    Phrase.ofTree tree = .ok (.node node)
  | .single hs => ofTree_node (ofForest_cons hs.ofTree ofForest_nil) rfl
  | .assign ha => ofTree_node (ofForest_cons ha.ofTree (ofForest_leaf ofForest_nil)) rfl
  | .return ho => by
    obtain ⟨rfl, hf⟩ | hf := ho.optional.ofForest (ofForest_leaf ofForest_nil)
    · exact ofTree_node (ofForest_leaf hf) rfl
    · exact ofTree_node (ofForest_leaf hf) rfl
  | .break => ofTree_node (ofForest_leaf (ofForest_leaf ofForest_nil)) rfl
  | .continue => ofTree_node (ofForest_leaf (ofForest_leaf ofForest_nil)) rfl
  | .if he hb hc ho => by
    have hl := ho.optional.ofForest ofForest_nil
    rw [List.append_nil] at hl
    obtain ⟨rfl, hl⟩ | hl := hl <;> obtain ⟨rfl, hf⟩ | hf := hc.optional.ofForest hl
    all_goals
      exact ofTree_node (ofForest_leaf (ofForest_cons he.ofTree (ofForest_cons hb.ofTree hf))) rfl
  | .while he hb =>
    ofTree_node (ofForest_leaf (ofForest_cons he.ofTree (ofForest_cons hb.ofTree ofForest_nil))) rfl
  | .loop hb => ofTree_node (ofForest_leaf (ofForest_cons hb.ofTree ofForest_nil)) rfl
  | @Statement.for _ _ _ mark mark' right _ _ _ _ _ _ _ _ hm hm' hi hc hp hb => by
    have hr := ofForest_cons (ofTree_leaf right) (ofForest_cons hb.ofTree ofForest_nil)
    obtain ⟨rfl, hr⟩ | hr := hp.optional.ofForest hr <;>
      obtain ⟨rfl, hr⟩ | hr := hc.optional.ofForest (ofForest_cons (ofTree_leaf mark') hr) <;>
      obtain ⟨rfl, hr⟩ | hr := hi.optional.ofForest (ofForest_cons (ofTree_leaf mark) hr)
    all_goals
      refine ofTree_node (ofForest_leaf (ofForest_leaf hr)) ?_
      show Except.ok (Phrase.node (Phrase.forHeader 0 .null .null .null _)) = _
      simp [Phrase.forHeader, hm, hm']
  | .expr he => ofTree_node (ofForest_cons he.ofTree (ofForest_leaf ofForest_nil)) rfl

end

theorem Program.ofTree {tree : Tree} {node : Node} (h : Program tree node) :
    Phrase.ofTree tree = .ok (.node node) := by
  obtain ⟨hb⟩ := h
  have hf := hb.optional.ofForest ofForest_nil
  rw [List.append_nil] at hf
  obtain ⟨rfl, hf⟩ | hf := hf
  · exact ofTree_node hf rfl
  · exact ofTree_node hf rfl

end Lowers

end ScriptLang
