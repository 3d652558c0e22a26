import ScriptLang.Grammar.Production
import ScriptLang.Node.Literal

/-! # From derivations to syntax trees

Every subtree of a derivation stands for a phrase. Phrases are built from the leaves upwards and
from left to right, so of several bad literals the first in the text is reported.
-/

namespace ScriptLang

/-- What a part of a derivation stands for. -/
inductive Phrase where
  | token (token : Token)
  | node (node : Node)
  | nodes (nodes : List Node)
  | operands (operands : List (String × Node))
  | names (names : List String)

structure BadLiteral where
  index : Nat
  error : LiteralError
  deriving DecidableEq, Repr

namespace Phrase

/-- An operator chain of one level, folded to the left. -/
def chain (first : Node) (operands : List (String × Node)) : Node :=
  operands.foldl (fun left (op, right) => .binary (.str op) left right) first

def literal (token : Token) (value : Except LiteralError Node) : Except BadLiteral Phrase :=
  match value with
  | .ok value => .ok (node value)
  | .error error => .error ⟨token.index, error⟩

/-- The node of a token that is an operand by itself. -/
def ofToken (token : Token) : Except BadLiteral Phrase :=
  match token.terminal with
  | .number => literal token (Literal.number token.text)
  | .string =>
    literal token ((Literal.string token.text).map fun s => .literal (.str s) (.str "String"))
  | .trueWord => .ok (node (.literal (.bool true) (.str "Bool")))
  | .falseWord => .ok (node (.literal (.bool false) (.str "Bool")))
  | .nilWord => .ok (node (.literal .nil (.str "Nil")))
  | _ => .ok (node (.ident (.str token.text)))

/-- The header of a `for` statement, read part by part: `part` counts the semicolons so far. -/
def forHeader (part : Nat) (init condition post : Node) : List Phrase → Node
  | [] => .null
  | [node body] => .forStmt init condition post body
  | node n :: rest =>
    match part with
    | 0 => forHeader 0 n condition post rest
    | 1 => forHeader 1 init n post rest
    | _ => forHeader part init condition n rest
  | token t :: rest =>
    forHeader (if t.terminal = .semicolon then part + 1 else part) init condition post rest
  | _ :: rest => forHeader part init condition post rest

/-- The phrase of a nonterminal whose parts are given. Lists that fit no production of it have
the empty list of nodes for their phrase. -/
def build (nonterminal : Nonterminal) (parts : List Phrase) : Except BadLiteral Phrase :=
  match nonterminal, parts with
  | .program, [nodes body] => .ok (node (.program body))
  | .program, [] => .ok (node (.program []))
  | .block, [_, nodes statements, _] => .ok (node (.block statements))
  | .block, [_, _] => .ok (node (.block []))
  | .statements, [node n] => .ok (nodes [n])
  | .statements, [nodes ns, node n] => .ok (nodes (ns ++ [n]))
  | .assignStatement, [n, _] => .ok n
  | .assignment, [token name, _, node value] => .ok (node (.assign (.str name.text) value))
  | .returnStatement, [_, node value, _] => .ok (node (.returnStmt value))
  | .returnStatement, [_, _] => .ok (node (.returnStmt .null))
  | .breakStatement, _ => .ok (node .breakStmt)
  | .continueStatement, _ => .ok (node .continueStmt)
  | .ifStatement, [_, node condition, node body] => .ok (node (.ifStmt condition body [] .null))
  | .ifStatement, [_, node condition, node body, nodes clauses] =>
    .ok (node (.ifStmt condition body clauses .null))
  | .ifStatement, [_, node condition, node body, node otherwise] =>
    .ok (node (.ifStmt condition body [] otherwise))
  | .ifStatement, [_, node condition, node body, nodes clauses, node otherwise] =>
    .ok (node (.ifStmt condition body clauses otherwise))
  | .elseIfClause, [_, _, node condition, node body] => .ok (node (.elseIf condition body))
  | .elseIfClauses, [node clause] => .ok (nodes [clause])
  | .elseIfClauses, [nodes clauses, node clause] => .ok (nodes (clauses ++ [clause]))
  | .elseClause, [_, body] => .ok body
  | .whileStatement, [_, node condition, node body] => .ok (node (.whileStmt condition body))
  | .loopStatement, [_, node body] => .ok (node (.loopStmt body))
  | .forStatement, _ :: _ :: rest => .ok (node (forHeader 0 .null .null .null rest))
  | .expressionStatement, [node expr, _] => .ok (node (.exprStmt expr))
  | .logical, [node first, operands rest] => .ok (node (chain first rest))
  | .equality, [node first, operands rest] => .ok (node (chain first rest))
  | .relational, [node first, operands rest] => .ok (node (chain first rest))
  | .additive, [node first, operands rest] => .ok (node (chain first rest))
  | .multiplicative, [node first, operands rest] => .ok (node (chain first rest))
  | .unary, [token op, node operand] =>
    .ok (node (.unary (.str (if op.terminal = .minus then "neg" else "not")) operand))
  | .primary, [token t] => ofToken t
  | .primary, [_, expr, _] => .ok expr
  | .call, [token name, _, nodes args, _] =>
    .ok (node (.call (.ident (.str name.text)) args))
  | .call, [token name, _, _] => .ok (node (.call (.ident (.str name.text)) []))
  | .arguments, [node first] => .ok (nodes [first])
  | .arguments, [node first, nodes rest] => .ok (nodes (first :: rest))
  | .argumentsTail, [_, node arg] => .ok (nodes [arg])
  | .argumentsTail, [nodes args, _, node arg] => .ok (nodes (args ++ [arg]))
  | .function, [_, _, names params, _, node body] => .ok (node (.funcDef (params.map .str) body))
  | .function, [_, _, _, node body] => .ok (node (.funcDef [] body))
  | .parameters, [token first] => .ok (names [first.text])
  | .parameters, [token first, names rest] => .ok (names (first.text :: rest))
  | .parametersTail, [_, token param] => .ok (names [param.text])
  | .parametersTail, [names params, _, token param] => .ok (names (params ++ [param.text]))
  | _, [token op, node operand] => .ok (operands [(op.text, operand)])
  | _, [operands before, token op, node operand] =>
    .ok (operands (before ++ [(op.text, operand)]))
  | _, [single] => .ok single
  | _, _ => .ok (nodes [])

mutual

def ofTree : Tree → Except BadLiteral Phrase
  | .leaf t => .ok (token t)
  | .node production children =>
    match ofForest children with
    | .ok parts => build production.lhs parts
    | .error error => .error error

def ofForest : List Tree → Except BadLiteral (List Phrase)
  | [] => .ok []
  | tree :: rest =>
    match ofTree tree with
    | .error error => .error error
    | .ok first =>
      match ofForest rest with
      | .ok others => .ok (first :: others)
      | .error error => .error error

end

end Phrase

end ScriptLang
