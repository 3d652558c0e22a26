import ScriptLang.Node.Basic

/-! # Values

What expressions evaluate to. The last two kinds come only from trees that were not parsed: the
missing value of a literal, and a node that a literal holds, with the place of the literal.
-/

namespace ScriptLang

inductive Builtin where
  | print | toString | string | int | float | max | min | round | abs | input | exit | exec
  deriving DecidableEq, Repr

namespace Builtin

def name : Builtin → String
  | print => "print"
  | toString => "to_string"
  | string => "string"
  | int => "int"
  | float => "float"
  | max => "max"
  | min => "min"
  | round => "round"
  | abs => "abs"
  | input => "input"
  | exit => "exit"
  | exec => "exec"

def arity? : Builtin → Option Nat
  | print | max | min | input | exit => none
  | toString | string | int | float | round | abs | exec => some 1

def all : List Builtin :=
  [print, toString, string, int, float, max, min, round, abs, input, exit, exec]

def ofName? (name : String) : Option Builtin := all.find? (·.name == name)

end Builtin

/-- A function of a program with the frame it was made in. No two have the same number. -/
structure Closure where
  number : Nat
  params : List Json
  body : Node
  scope : Nat

namespace Closure

def paramNames? (closure : Closure) : Option (List String) :=
  closure.params.mapM fun
    | .str s => some s
    | _ => none

end Closure

inductive Value where
  | int (value : Int)
  | float (value : Binary64)
  | str (value : String)
  | bool (value : Bool)
  | nil
  | closure (closure : Closure)
  | builtin (function : Builtin)
  | null
  | node (place : List Nat) (node : Node)

namespace Value

def ofNode : Node → Value
  | .null => null
  | .nil => nil
  | .bool b => bool b
  | .int n => int n
  | .float x => float x
  | .str s => str s
  | .held place held => node place held
  | other => node [] other

/-- The tree that a value is by itself; functions are none. -/
def toTree? : Value → Option Node
  | null => some .null
  | nil => some .nil
  | bool b => some (.bool b)
  | int n => some (.int n)
  | float x => some (.float x)
  | str s => some (.str s)
  | node _ n => some n
  | closure _ | builtin _ => none

def kindName : Value → String
  | int _ => "Integer"
  | float _ => "Float"
  | str _ => "String"
  | bool _ => "Bool"
  | nil => "Nil"
  | closure _ => "Function"
  | builtin _ => "NativeFunction"
  | null => "NoneType"
  | node _ n => n.kindName

/-- Only `nil` and `false` do not count as true. -/
def isTruthy : Value → Bool
  | nil | bool false => false
  | _ => true

def isInteger : Value → Bool
  | int _ => true
  | _ => false

def isNumber : Value → Bool
  | int _ | float _ => true
  | _ => false

def isNil : Value → Bool
  | nil => true
  | _ => false

/-- The text of a value. A function has one only if its parameters are texts. -/
def text? : Value → Option String
  | int n => some (Integer.text n)
  | float x => some x.text
  | str s => some s
  | bool true => some "true"
  | bool false => some "false"
  | nil => some "nil"
  | closure c => c.paramNames?.map fun names => "<fn(" ++ ", ".intercalate names ++ ")>"
  | builtin b => some ("<builtin " ++ b.name ++ ">")
  | null => some "None"
  | node _ n => some n.inspect

def hasText : Value → Bool
  | closure c => c.paramNames?.isSome
  | _ => true

theorem isSome_text? (value : Value) : value.text?.isSome = value.hasText := by
  cases value with
  | closure c => simp [text?, hasText]
  | bool b => cases b <;> rfl
  | _ => rfl

def text (value : Value) : String := value.text?.getD ""

/-- The text of a value inside the text of a larger structure. -/
def inspect? : Value → Option String
  | float x => some x.inspect
  | str s => some (Quoted.quote s)
  | bool b => some (Json.bool b).inspect
  | other => other.text?

end Value

end ScriptLang
