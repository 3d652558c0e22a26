import ScriptLang.Json.Basic

/-! # Syntax trees

One type for all nodes. Programs that were parsed use it in a disciplined way; trees that come
from data files need not: a plain value may stand in the place of any node, and names, operators
and the kinds of literals may be any JSON value. A literal may even hold a node, which is marked
with the place of the literal before the tree is run.
-/

namespace ScriptLang

inductive Node where
  | null
  | nil
  | bool (value : Bool)
  | int (value : Int)
  | float (value : Binary64)
  | str (value : String)
  | program (body : List Node)
  | block (statements : List Node)
  | elseIf (condition body : Node)
  | ifStmt (condition thenBlock : Node) (elseIfs : List Node) (elseBlock : Node)
  | whileStmt (condition body : Node)
  | forStmt (init condition post body : Node)
  | loopStmt (body : Node)
  | breakStmt
  | continueStmt
  | returnStmt (value : Node)
  | exprStmt (expr : Node)
  | assign (name : Json) (value : Node)
  | funcDef (params : List Json) (body : Node)
  | call (func : Node) (args : List Node)
  | binary (op : Json) (left right : Node)
  | unary (op : Json) (operand : Node)
  | literal (value : Node) (kind : Json)
  | ident (name : Json)
  | held (place : List Nat) (node : Node)
  deriving Inhabited

namespace Node

/-- The name of a node's kind, in data files and in messages. -/
def kindName : Node → String
  | null => "NoneType"
  | nil => "NilVal"
  | bool _ => "bool"
  | int _ => "int"
  | float _ => "float"
  | str _ => "str"
  | program .. => "Program"
  | block .. => "Block"
  | elseIf .. => "ElseIf"
  | ifStmt .. => "IfStmt"
  | whileStmt .. => "WhileStmt"
  | forStmt .. => "ForStmt"
  | loopStmt .. => "LoopStmt"
  | breakStmt => "BreakStmt"
  | continueStmt => "ContinueStmt"
  | returnStmt .. => "ReturnStmt"
  | exprStmt .. => "ExprStmt"
  | assign .. => "Assign"
  | funcDef .. => "FuncDef"
  | call .. => "Call"
  | binary .. => "BinaryOp"
  | unary .. => "UnaryOp"
  | literal .. => "Literal"
  | ident .. => "Ident"
  | held _ node => node.kindName

def inspectFields (kind : String) (fields : List (String × String)) : String :=
  kind ++ "(" ++ ", ".intercalate (fields.map fun (name, text) => name ++ "=" ++ text) ++ ")"

def inspectList (items : List String) : String := "[" ++ ", ".intercalate items ++ "]"

mutual

/-- The text of a node inside a message. -/
def inspect (node : Node) : String :=
  match node with
  | null => "None"
  | nil => "nil"
  | bool b => (Json.bool b).inspect
  | int n => Integer.text n
  | float x => x.inspect
  | str s => Quoted.quote s
  | program body => inspectFields "Program" [("body", inspectList (inspectAll body))]
  | block statements =>
    inspectFields "Block" [("statements", inspectList (inspectAll statements))]
  | elseIf condition body =>
    inspectFields "ElseIf" [("condition", condition.inspect), ("block", body.inspect)]
  | ifStmt condition thenBlock elseIfs elseBlock =>
    inspectFields "IfStmt" [("condition", condition.inspect), ("then_block", thenBlock.inspect),
      ("elseif_clauses", inspectList (inspectAll elseIfs)), ("else_block", elseBlock.inspect)]
  | whileStmt condition body =>
    inspectFields "WhileStmt" [("condition", condition.inspect), ("body", body.inspect)]
  | forStmt init condition post body =>
    inspectFields "ForStmt" [("init", init.inspect), ("condition", condition.inspect),
      ("post", post.inspect), ("body", body.inspect)]
  | loopStmt body => inspectFields "LoopStmt" [("body", body.inspect)]
  | breakStmt => inspectFields "BreakStmt" []
  | continueStmt => inspectFields "ContinueStmt" []
  | returnStmt value => inspectFields "ReturnStmt" [("value", value.inspect)]
  | exprStmt expr => inspectFields "ExprStmt" [("expr", expr.inspect)]
  | assign name value =>
    inspectFields "Assign" [("name", name.inspect), ("value", value.inspect)]
  | funcDef params body =>
    inspectFields "FuncDef" [("params", (Json.arr params).inspect), ("body", body.inspect)]
  | call func args =>
    inspectFields "Call" [("func", func.inspect), ("args", inspectList (inspectAll args))]
  | binary op left right =>
    inspectFields "BinaryOp" [("op", op.inspect), ("left", left.inspect), ("right", right.inspect)]
  | unary op operand =>
    inspectFields "UnaryOp" [("op", op.inspect), ("operand", operand.inspect)]
  | literal value kind =>
    inspectFields "Literal" [("value", value.inspect), ("literal_type", kind.inspect)]
  | ident name => inspectFields "Ident" [("name", name.inspect)]
  | held _ node => node.inspect

def inspectAll : List Node → List String
  | [] => []
  | node :: rest => node.inspect :: inspectAll rest

end

end Node

end ScriptLang
