import ScriptLang.Node.OfJson

/-! # Places of literals

A node that a literal holds is one value, however often the literal is evaluated, and differs from
what any other literal holds, even if the two look alike. What tells them apart is the place of the
literal: the way to it from the root, as the numbers of the children passed, the last one first.
-/

namespace ScriptLang.Node

/-- Whether a value of a literal is no node of its own. -/
def isPlain : Node → Bool
  | null | nil | bool _ | int _ | float _ | str _ => true
  | _ => false

/-- The value of a literal at a given place. -/
def hold (place : List Nat) (value : Node) : Node :=
  if value.isPlain then value else held place value

def bare : Node → Node
  | held _ node => node
  | node => node

mutual

/-- Marks what the literals of a tree hold; the tree itself is at the given place. -/
def placed (place : List Nat) (node : Node) : Node :=
  match node with
  | null => null
  | nil => nil
  | bool b => bool b
  | int n => int n
  | float x => float x
  | str s => str s
  | program body => program (placedAll place 0 body)
  | block statements => block (placedAll place 0 statements)
  | elseIf condition body =>
    elseIf (condition.placed (0 :: place)) (body.placed (1 :: place))
  | ifStmt condition thenBlock elseIfs elseBlock =>
    ifStmt (condition.placed (0 :: place)) (thenBlock.placed (1 :: place))
      (placedAll (2 :: place) 0 elseIfs) (elseBlock.placed (3 :: place))
  | whileStmt condition body =>
    whileStmt (condition.placed (0 :: place)) (body.placed (1 :: place))
  | forStmt init condition post body =>
    forStmt (init.placed (0 :: place)) (condition.placed (1 :: place)) (post.placed (2 :: place))
      (body.placed (3 :: place))
  | loopStmt body => loopStmt (body.placed (0 :: place))
  | breakStmt => breakStmt
  | continueStmt => continueStmt
  | returnStmt value => returnStmt (value.placed (0 :: place))
  | exprStmt expr => exprStmt (expr.placed (0 :: place))
  | assign name value => assign name (value.placed (0 :: place))
  | funcDef params body => funcDef params (body.placed (0 :: place))
  | call func args => call (func.placed (0 :: place)) (placedAll (1 :: place) 0 args)
  | binary op left right => binary op (left.placed (0 :: place)) (right.placed (1 :: place))
  | unary op operand => unary op (operand.placed (0 :: place))
  | literal value kind => literal (hold place (value.placed (0 :: place))) kind
  | ident name => ident name
  | held other node => held other node

def placedAll (place : List Nat) (number : Nat) : List Node → List Node
  | [] => []
  | node :: rest => node.placed (number :: place) :: placedAll place (number + 1) rest

end

/-- The tree that a JSON value stands for, ready to be run. -/
def load (json : Json) : Except TreeError Node := (ofJson json).map (placed [])

end ScriptLang.Node
