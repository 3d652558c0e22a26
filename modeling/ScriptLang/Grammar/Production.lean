import ScriptLang.Grammar.Terminal

/-! # Grammar

Nonterminals, productions and derivation trees. Lists are left recursive, so that a tail such as
`additiveTail` collects the operators and operands of one level from left to right.
-/

namespace ScriptLang

inductive Nonterminal where
  | program | statement | assignStatement | assignment | returnStatement | breakStatement
  | continueStatement | ifStatement | elseIfClause | elseClause | whileStatement | loopStatement
  | forStatement | expressionStatement | block | expression | logical | equality | relational
  | additive | multiplicative | unary | primary | call | arguments | function | parameters
  | statements | elseIfClauses | logicalTail | equalityTail | relationalTail | additiveTail
  | multiplicativeTail | argumentsTail | parametersTail
  deriving DecidableEq, Repr

inductive GrammarSymbol where
  | t (terminal : Terminal)
  | n (nonterminal : Nonterminal)
  deriving DecidableEq, Repr

/-- A nonterminal and one of the sequences that it may stand for. -/
structure Production where
  lhs : Nonterminal
  rhs : List GrammarSymbol
  deriving DecidableEq, Repr

namespace Grammar

open GrammarSymbol

/-- The productions; the parse table refers to them by their place. -/
def productions : Array Production := #[
  ⟨.program, [n .statements]⟩,
  ⟨.program, []⟩,
  ⟨.statement, [n .assignStatement]⟩,
  ⟨.statement, [n .returnStatement]⟩,
  ⟨.statement, [n .breakStatement]⟩,
  ⟨.statement, [n .continueStatement]⟩,
  ⟨.statement, [n .ifStatement]⟩,
  ⟨.statement, [n .whileStatement]⟩,
  ⟨.statement, [n .loopStatement]⟩,
  ⟨.statement, [n .forStatement]⟩,
  ⟨.statement, [n .expressionStatement]⟩,
  ⟨.assignStatement, [n .assignment, t .semicolon]⟩,
  ⟨.assignment, [t .ident, t .equal, n .expression]⟩,
  ⟨.returnStatement, [t .returnWord, n .expression, t .semicolon]⟩,
  ⟨.returnStatement, [t .returnWord, t .semicolon]⟩,
  ⟨.breakStatement, [t .breakWord, t .semicolon]⟩,
  ⟨.continueStatement, [t .continueWord, t .semicolon]⟩,
  ⟨.ifStatement, [t .ifWord, n .expression, n .block, n .elseIfClauses, n .elseClause]⟩,
  ⟨.ifStatement, [t .ifWord, n .expression, n .block, n .elseIfClauses]⟩,
  ⟨.ifStatement, [t .ifWord, n .expression, n .block, n .elseClause]⟩,
  ⟨.ifStatement, [t .ifWord, n .expression, n .block]⟩,
  ⟨.elseIfClause, [t .elseWord, t .ifWord, n .expression, n .block]⟩,
  ⟨.elseClause, [t .elseWord, n .block]⟩,
  ⟨.whileStatement, [t .whileWord, n .expression, n .block]⟩,
  ⟨.loopStatement, [t .loopWord, n .block]⟩,
  ⟨.forStatement, [t .forWord, t .lpar, n .assignment, t .semicolon, n .expression,
    t .semicolon, n .assignment, t .rpar, n .block]⟩,
  ⟨.forStatement, [t .forWord, t .lpar, n .assignment, t .semicolon, n .expression,
    t .semicolon, t .rpar, n .block]⟩,
  ⟨.forStatement, [t .forWord, t .lpar, n .assignment, t .semicolon, t .semicolon,
    n .assignment, t .rpar, n .block]⟩,
  ⟨.forStatement, [t .forWord, t .lpar, n .assignment, t .semicolon,
    t .semicolon, t .rpar, n .block]⟩,
  ⟨.forStatement, [t .forWord, t .lpar, t .semicolon, n .expression, t .semicolon,
    n .assignment, t .rpar, n .block]⟩,
  ⟨.forStatement, [t .forWord, t .lpar, t .semicolon, n .expression,
    t .semicolon, t .rpar, n .block]⟩,
  ⟨.forStatement, [t .forWord, t .lpar, t .semicolon, t .semicolon,
    n .assignment, t .rpar, n .block]⟩,
  ⟨.forStatement, [t .forWord, t .lpar, t .semicolon, t .semicolon, t .rpar, n .block]⟩,
  ⟨.expressionStatement, [n .expression, t .semicolon]⟩,
  ⟨.block, [t .lbrace, n .statements, t .rbrace]⟩,
  ⟨.block, [t .lbrace, t .rbrace]⟩,
  ⟨.expression, [n .logical]⟩,
  ⟨.logical, [n .equality, n .logicalTail]⟩,
  ⟨.logical, [n .equality]⟩,
  ⟨.equality, [n .relational, n .equalityTail]⟩,
  ⟨.equality, [n .relational]⟩,
  ⟨.relational, [n .additive, n .relationalTail]⟩,
  ⟨.relational, [n .additive]⟩,
  ⟨.additive, [n .multiplicative, n .additiveTail]⟩,
  ⟨.additive, [n .multiplicative]⟩,
  ⟨.multiplicative, [n .unary, n .multiplicativeTail]⟩,
  ⟨.multiplicative, [n .unary]⟩,
  ⟨.unary, [t .minus, n .unary]⟩,
  ⟨.unary, [t .notWord, n .unary]⟩,
  ⟨.unary, [n .primary]⟩,
  ⟨.primary, [t .number]⟩,
  ⟨.primary, [t .string]⟩,
  ⟨.primary, [t .trueWord]⟩,
  ⟨.primary, [t .falseWord]⟩,
  ⟨.primary, [t .nilWord]⟩,
  ⟨.primary, [n .call]⟩,
  ⟨.primary, [n .function]⟩,
  ⟨.primary, [t .ident]⟩,
  ⟨.primary, [t .lpar, n .expression, t .rpar]⟩,
  ⟨.call, [t .ident, t .lpar, n .arguments, t .rpar]⟩,
  ⟨.call, [t .ident, t .lpar, t .rpar]⟩,
  ⟨.arguments, [n .expression, n .argumentsTail]⟩,
  ⟨.arguments, [n .expression]⟩,
  ⟨.function, [t .fnWord, t .lpar, n .parameters, t .rpar, n .block]⟩,
  ⟨.function, [t .fnWord, t .lpar, t .rpar, n .block]⟩,
  ⟨.parameters, [t .ident, n .parametersTail]⟩,
  ⟨.parameters, [t .ident]⟩,
  ⟨.statements, [n .statement]⟩,
  ⟨.statements, [n .statements, n .statement]⟩,
  ⟨.elseIfClauses, [n .elseIfClause]⟩,
  ⟨.elseIfClauses, [n .elseIfClauses, n .elseIfClause]⟩,
  ⟨.logicalTail, [t .andWord, n .equality]⟩,
  ⟨.logicalTail, [t .orWord, n .equality]⟩,
  ⟨.logicalTail, [n .logicalTail, t .andWord, n .equality]⟩,
  ⟨.logicalTail, [n .logicalTail, t .orWord, n .equality]⟩,
  ⟨.equalityTail, [t .eq, n .relational]⟩,
  ⟨.equalityTail, [t .ne, n .relational]⟩,
  ⟨.equalityTail, [n .equalityTail, t .eq, n .relational]⟩,
  ⟨.equalityTail, [n .equalityTail, t .ne, n .relational]⟩,
  ⟨.relationalTail, [t .le, n .additive]⟩,
  ⟨.relationalTail, [t .ge, n .additive]⟩,
  ⟨.relationalTail, [t .lt, n .additive]⟩,
  ⟨.relationalTail, [t .gt, n .additive]⟩,
  ⟨.relationalTail, [n .relationalTail, t .le, n .additive]⟩,
  ⟨.relationalTail, [n .relationalTail, t .ge, n .additive]⟩,
  ⟨.relationalTail, [n .relationalTail, t .lt, n .additive]⟩,
  ⟨.relationalTail, [n .relationalTail, t .gt, n .additive]⟩,
  ⟨.additiveTail, [t .plus, n .multiplicative]⟩,
  ⟨.additiveTail, [t .minus, n .multiplicative]⟩,
  ⟨.additiveTail, [n .additiveTail, t .plus, n .multiplicative]⟩,
  ⟨.additiveTail, [n .additiveTail, t .minus, n .multiplicative]⟩,
  ⟨.multiplicativeTail, [t .star, n .unary]⟩,
  ⟨.multiplicativeTail, [t .slash, n .unary]⟩,
  ⟨.multiplicativeTail, [t .percent, n .unary]⟩,
  ⟨.multiplicativeTail, [n .multiplicativeTail, t .star, n .unary]⟩,
  ⟨.multiplicativeTail, [n .multiplicativeTail, t .slash, n .unary]⟩,
  ⟨.multiplicativeTail, [n .multiplicativeTail, t .percent, n .unary]⟩,
  ⟨.argumentsTail, [t .comma, n .expression]⟩,
  ⟨.argumentsTail, [n .argumentsTail, t .comma, n .expression]⟩,
  ⟨.parametersTail, [t .comma, t .ident]⟩,
  ⟨.parametersTail, [n .parametersTail, t .comma, t .ident]⟩]

end Grammar

/-- A derivation tree: tokens at its leaves, productions at its inner nodes. -/
inductive Tree where
  | leaf (token : Token)
  | node (production : Production) (children : List Tree)

namespace Tree

def root : Tree → GrammarSymbol
  | leaf token => .t token.terminal
  | node production _ => .n production.lhs

mutual

def tokens : Tree → List Token
  | leaf token => [token]
  | node _ children => forestTokens children

def forestTokens : List Tree → List Token
  | [] => []
  | tree :: rest => tree.tokens ++ forestTokens rest

end

/-- Every inner node uses a production of the grammar. -/
inductive Valid : Tree → Prop where
  | leaf (token : Token) : Valid (leaf token)
  | node {production : Production} {children : List Tree} :
      production ∈ Grammar.productions → children.map root = production.rhs →
      (∀ child ∈ children, Valid child) → Valid (node production children)

end Tree

end ScriptLang
