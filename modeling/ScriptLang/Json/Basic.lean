import ScriptLang.Number.Integer
import ScriptLang.Number.Layout
import ScriptLang.Text.Quoted

/-! # JSON values

Integers are kept apart from other numbers and the fields of an object keep their order.
-/

namespace ScriptLang

inductive Json where
  | null
  | bool (value : Bool)
  | int (value : Int)
  | float (value : Binary64)
  | str (value : String)
  | arr (items : List Json)
  | obj (fields : List (String × Json))
  deriving Inhabited

namespace Json

/-- Sets a field: an old field keeps its place and gets the new value. -/
def put (fields : List (String × Json)) (key : String) (value : Json) : List (String × Json) :=
  if fields.any (·.1 == key) then fields.map fun field => if field.1 == key then (key, value) else field
  else fields ++ [(key, value)]

def field? (key : String) : Json → Option Json
  | obj fields => fields.lookup key
  | _ => none

mutual

/-- The text of a value inside a message. -/
def inspect : Json → String
  | null => "None"
  | bool true => "True"
  | bool false => "False"
  | int n => Integer.text n
  | float x => x.inspect
  | str s => Quoted.quote s
  | arr items => "[" ++ ", ".intercalate (inspectItems items) ++ "]"
  | obj fields => "\x7b" ++ ", ".intercalate (inspectFields fields) ++ "\x7d"

def inspectItems : List Json → List String
  | [] => []
  | item :: rest => item.inspect :: inspectItems rest

def inspectFields : List (String × Json) → List String
  | [] => []
  | (key, value) :: rest => (Quoted.quote key ++ ": " ++ value.inspect) :: inspectFields rest

end

/-- The text of a value on its own: as in a message, but strings stand without quotes. -/
def display : Json → String
  | str s => s
  | other => other.inspect

end Json

end ScriptLang
