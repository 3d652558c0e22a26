import ScriptLang.Number.Reading
import ScriptLang.Value.Operator

/-! # Conversions and selections

The numeric built-in functions on values.
-/

namespace ScriptLang.Value

def ofBool (b : Bool) : Int := if b then 1 else 0

def integerOfText (text : String) : Except Failure Value :=
  match Reading.splitInteger? text.toList with
  | none => .ok nil
  | some (negative, digits) =>
    if Integer.digitLimit < digits.length then
      .error (.fault (.integerTextTooLong digits.length))
    else checked (Binary64.signed negative (DecimalDigit.valueOf 10 digits))

/-- An integer result of a function that needs a finite float. -/
def ofFinite (function : String) (x : Binary64) (result : Option Int) : Except Failure Value :=
  match result with
  | some n => checked n
  | none => .error (.error (.notFinite function x.text))

/-- Conversion to an integer, towards zero. -/
def toInteger : Value → Except Failure Value
  | bool b => .ok (int (ofBool b))
  | int n => .ok (int n)
  | float x => ofFinite "int" x x.truncate?
  | str s => integerOfText s
  | nil => .ok nil
  | other => .error (.error (.notConvertible "int" other.kindName))

def toFloat : Value → Except Failure Value
  | bool b => (Number.toFloat (.int (ofBool b))).map float
  | int n => (Number.toFloat (.int n)).map float
  | float x => .ok (float x)
  | str s => .ok ((Reading.float? s).elim nil float)
  | nil => .ok nil
  | other => .error (.error (.notConvertible "float" other.kindName))

/-- Rounding to an integer, halves away from zero. -/
def round : Value → Except Failure Value
  | bool b => .ok (int (ofBool b))
  | int n => .ok (int n)
  | float x => ofFinite "round" x x.round?
  | other => .error (.error (.roundedNonNumber other.kindName))

/-- The absolute value of a number, and `nil` for all else. -/
def abs : Value → Except Failure Value
  | int n => checked n.natAbs
  | float x => .ok (float x.abs)
  | _ => .ok nil

def numbers (function : String) : List Value → Except Failure (List Number)
  | [] => .ok []
  | value :: rest =>
    match value.number? with
    | some number => (numbers function rest).map (number :: ·)
    | none => .error (.error (.comparedNonNumber function value.kindName))

/-- The first of two numbers if it stands in the given order to the second, else the second. -/
def keep (stays : Operator) (best next : Number) : Number :=
  if (Number.compare best next).any (answers stays) then best else next

/-- The value that remains when every value has met the best one before it. -/
def extreme (function : String) (stays : Operator) (values : List Value) :
    Except Failure Value :=
  match values with
  | [] | [_] => .error (.error (.tooFewArguments function))
  | _ =>
    match numbers function values with
    | .error failure => .error failure
    | .ok [] => .ok nil
    | .ok (first :: rest) => .ok (rest.foldl (keep stays) first).toValue

end ScriptLang.Value
