import ScriptLang.Node.Basic
import ScriptLang.Number.Reading

/-! # Syntax trees from JSON

Reading is lenient: unknown fields are ignored, some fields may be missing, a text or an object
may stand for the list of its characters or keys, and float literals may be written as integers,
booleans or numeric texts. The fields of a node are read in a fixed order, and the first that
cannot be read decides the error.
-/

namespace ScriptLang

inductive TreeError where
  | notAnObject
  | unknownKind (kind : Json)
  | missingField (name : String)
  | notAList
  | notANumber (text : String)
  | notConvertible
  | tooLarge
  deriving Inhabited

namespace Node

/-- A field read in all the ways in which a node may use it. -/
structure Field where
  raw : Json
  node : Except TreeError Node
  nodes : Except TreeError (List Node)

abbrev Fields := List (String × Field)

namespace Fields

def get (fields : Fields) (name : String) : Except TreeError Field :=
  match fields.lookup name with
  | some field => .ok field
  | none => .error (.missingField name)

def raw (fields : Fields) (name : String) : Except TreeError Json := (fields.get name).map Field.raw

def node (fields : Fields) (name : String) : Except TreeError Node := (fields.get name).bind Field.node

def nodes (fields : Fields) (name : String) : Except TreeError (List Node) :=
  (fields.get name).bind Field.nodes

def node? (fields : Fields) (name : String) : Except TreeError Node :=
  match fields.lookup name with
  | some field => field.node
  | none => .ok .null

def nodes? (fields : Fields) (name : String) : Except TreeError (List Node) :=
  match fields.lookup name with
  | some field => field.nodes
  | none => .ok []

end Fields

/-- A value as a list: an array's items, a text's characters or an object's keys. -/
def listOf : Json → Except TreeError (List Json)
  | .arr items => .ok items
  | .str s => .ok (s.toList.map fun c => .str (String.singleton c))
  | .obj fields => .ok (fields.map fun (key, _) => .str key)
  | _ => .error .notAList

def floatOf : Node → Except TreeError Binary64
  | .float x => .ok x
  | .int n => (Binary64.ofInt? n).elim (.error .tooLarge) .ok
  | .bool b => (Binary64.ofInt? (if b then 1 else 0)).elim (.error .tooLarge) .ok
  | .str s => (Reading.float? s).elim (.error (.notANumber s)) .ok
  | _ => .error .notConvertible

/-- A literal, whose kind is read first. -/
def literalOf (fields : Fields) : Except TreeError Node := do
  let kind ← fields.raw "literal_type"
  match kind with
  | .str "Nil" => .ok (.literal .nil kind)
  | .str "Float" => return .literal (.float (← floatOf (← fields.node "value"))) kind
  | _ => return .literal (← fields.node "value") kind

def ofFields (kind : String) (fields : Fields) : Except TreeError Node := do
  match kind with
  | "Program" => return .program (← fields.nodes "body")
  | "Block" => return .block (← fields.nodes "statements")
  | "ElseIf" => return .elseIf (← fields.node "condition") (← fields.node "block")
  | "IfStmt" =>
    return .ifStmt (← fields.node "condition") (← fields.node "then_block")
      (← fields.nodes? "elseif_clauses") (← fields.node? "else_block")
  | "WhileStmt" => return .whileStmt (← fields.node "condition") (← fields.node "body")
  | "ForStmt" =>
    return .forStmt (← fields.node? "init") (← fields.node? "condition") (← fields.node? "post")
      (← fields.node "body")
  | "LoopStmt" => return .loopStmt (← fields.node "body")
  | "BreakStmt" => return .breakStmt
  | "ContinueStmt" => return .continueStmt
  | "ReturnStmt" => return .returnStmt (← fields.node? "value")
  | "ExprStmt" => return .exprStmt (← fields.node "expr")
  | "Assign" => return .assign (← fields.raw "name") (← fields.node "value")
  | "FuncDef" => return .funcDef (← listOf (← fields.raw "params")) (← fields.node "body")
  | "Call" => return .call (← fields.node "func") (← fields.nodes "args")
  | "BinaryOp" =>
    return .binary (← fields.raw "op") (← fields.node "left") (← fields.node "right")
  | "UnaryOp" => return .unary (← fields.raw "op") (← fields.node "operand")
  | "Literal" => literalOf fields
  | "Ident" => return .ident (← fields.raw "name")
  | _ => .error (.unknownKind (.str kind))

mutual

/-- The node that a JSON value stands for. -/
def ofJson : Json → Except TreeError Node
  | .null => .ok .null
  | .bool b => .ok (.bool b)
  | .int n => .ok (.int n)
  | .float x => .ok (.float x)
  | .str s => .ok (.str s)
  | .arr _ => .error .notAnObject
  | .obj fields =>
    match fields.lookup "type" with
    | some (.str kind) => ofFields kind (readFields fields)
    | some kind => .error (.unknownKind kind)
    | none => .error (.unknownKind .null)

def nodesOf : Json → Except TreeError (List Node)
  | .arr items => ofItems items
  | .str s => .ok (s.toList.map fun c => .str (String.singleton c))
  | .obj fields => .ok (fields.map fun (key, _) => .str key)
  | .null | .bool _ | .int _ | .float _ => .error .notAList

/-- The nodes of the items of an array, up to the first that is none. -/
def ofItems : List Json → Except TreeError (List Node)
  | [] => .ok []
  | item :: rest =>
    match ofJson item with
    | .error error => .error error
    | .ok node => (ofItems rest).map (node :: ·)

def readFields : List (String × Json) → Fields
  | [] => []
  | (name, value) :: rest => (name, ⟨value, ofJson value, nodesOf value⟩) :: readFields rest

end

end Node

end ScriptLang
