import ScriptLang.Value.Basic

/-! # Comparing values

Numbers are compared by their exact values, whatever their kinds. Other values equal only values
of their own kind, and functions and nodes only themselves.
-/

namespace ScriptLang

/-- An exact value in units of `2 ^ -1074`, or an infinity. -/
inductive Extended where
  | negInfinity
  | finite (units : Int)
  | posInfinity
  deriving DecidableEq, Repr

namespace Extended

def compare : Extended → Extended → Ordering
  | negInfinity, negInfinity => .eq
  | negInfinity, _ => .lt
  | _, negInfinity => .gt
  | finite a, finite b => Ord.compare a b
  | finite _, posInfinity => .lt
  | posInfinity, finite _ => .gt
  | posInfinity, posInfinity => .eq

end Extended

inductive Number where
  | int (value : Int)
  | float (value : Binary64)
  deriving DecidableEq

namespace Number

def extended? : Number → Option Extended
  | int n => some (.finite (n * Binary64.scale))
  | float .nan => none
  | float (.infinite negative) => some (if negative then .negInfinity else .posInfinity)
  | float (.finite negative code) => some (.finite (Binary64.signed negative (Binary64.units code)))

/-- The order of two numbers; what is not a number has none. -/
def compare : Number → Number → Option Ordering
  | int a, int b => some (Ord.compare a b)
  | a, b => a.extended?.bind fun x => b.extended?.map x.compare

def isInRange (number : Number) : Bool :=
  (compare (int Integer.least) number).any (· != .gt) &&
    (compare number (int Integer.greatest)).any (· != .gt)

def toValue : Number → Value
  | int n => .int n
  | float x => .float x

end Number

namespace Value

def number? : Value → Option Number
  | int n => some (.int n)
  | float x => some (.float x)
  | _ => none

/-- The number that a value counts as where truth values are numbers too. -/
def arithmeticNumber? : Value → Option Number
  | bool b => some (.int (if b then 1 else 0))
  | other => other.number?

/-- Equality as the language sees it. -/
def equal : Value → Value → Bool
  | int a, int b => a == b
  | int a, float b => Number.compare (.int a) (.float b) == some .eq
  | float a, int b => Number.compare (.float a) (.int b) == some .eq
  | float a, float b => Number.compare (.float a) (.float b) == some .eq
  | str a, str b => a == b
  | bool a, bool b => a == b
  | nil, nil => true
  | closure a, closure b => a.number == b.number
  | builtin a, builtin b => a == b
  | null, null => true
  | node a _, node b _ => a == b
  | _, _ => false

end Value

end ScriptLang
