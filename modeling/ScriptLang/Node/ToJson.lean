import ScriptLang.Node.Basic

/-! # Syntax trees as JSON

Every node becomes an object with its kind first and all its fields after it; plain values stay
what they are.
-/

namespace ScriptLang.Node

def object (kind : String) (fields : List (String × Json)) : Json :=
  .obj (("type", .str kind) :: fields)

mutual

def toJson (node : Node) : Json :=
  match node with
  | null | nil => .null
  | bool b => .bool b
  | int n => .int n
  | float x => .float x
  | str s => .str s
  | program body => object "Program" [("body", .arr (toJsonAll body))]
  | block statements => object "Block" [("statements", .arr (toJsonAll statements))]
  | elseIf condition body =>
    object "ElseIf" [("condition", condition.toJson), ("block", body.toJson)]
  | ifStmt condition thenBlock elseIfs elseBlock =>
    object "IfStmt" [("condition", condition.toJson), ("then_block", thenBlock.toJson),
      ("elseif_clauses", .arr (toJsonAll elseIfs)), ("else_block", elseBlock.toJson)]
  | whileStmt condition body =>
    object "WhileStmt" [("condition", condition.toJson), ("body", body.toJson)]
  | forStmt init condition post body =>
    object "ForStmt" [("init", init.toJson), ("condition", condition.toJson),
      ("post", post.toJson), ("body", body.toJson)]
  | loopStmt body => object "LoopStmt" [("body", body.toJson)]
  | breakStmt => object "BreakStmt" []
  | continueStmt => object "ContinueStmt" []
  | returnStmt value => object "ReturnStmt" [("value", value.toJson)]
  | exprStmt expr => object "ExprStmt" [("expr", expr.toJson)]
  | assign name value => object "Assign" [("name", name), ("value", value.toJson)]
  | funcDef params body => object "FuncDef" [("params", .arr params), ("body", body.toJson)]
  | call func args => object "Call" [("func", func.toJson), ("args", .arr (toJsonAll args))]
  | binary op left right =>
    object "BinaryOp" [("op", op), ("left", left.toJson), ("right", right.toJson)]
  | unary op operand => object "UnaryOp" [("op", op), ("operand", operand.toJson)]
  | literal value kind => object "Literal" [("value", value.toJson), ("literal_type", kind)]
  | ident name => object "Ident" [("name", name)]
  | held _ node => node.toJson

def toJsonAll : List Node → List Json
  | [] => []
  | node :: rest => node.toJson :: toJsonAll rest

end

end ScriptLang.Node
