import ScriptLang.Value.Failure
import ScriptLang.Value.Order

/-! # Operators

Integers stay integers as long as both operands are, and a float makes the operation one on
floats. `+` also joins texts.
-/

namespace ScriptLang

inductive Operator where
  | and | or | add | sub | mul | div | mod | eq | ne | lt | gt | le | ge
  deriving DecidableEq, Repr

namespace Operator

def symbol : Operator → String
  | and => "and"
  | or => "or"
  | add => "+"
  | sub => "-"
  | mul => "*"
  | div => "/"
  | mod => "%"
  | eq => "=="
  | ne => "!="
  | lt => "<"
  | gt => ">"
  | le => "<="
  | ge => ">="

def all : List Operator := [and, or, add, sub, mul, div, mod, eq, ne, lt, gt, le, ge]

def ofJson? : Json → Option Operator
  | .str s => all.find? (·.symbol == s)
  | _ => none

end Operator

namespace Number

def toFloat : Number → Except Failure Binary64
  | int n => (Binary64.ofInt? n).elim (.error (.fault .tooLargeForFloat)) .ok
  | float x => .ok x

def isZero : Number → Bool
  | int n => n == 0
  | float x => x == .zero false || x == .zero true

end Number

namespace Value

def checked (n : Int) : Except Failure Value :=
  if Integer.inRange n then .ok (int n)
  else if Nat.pow 10 Integer.digitLimit ≤ n.natAbs then .error (.fault .integerTooLong)
  else .error (.error (.integerOverflow n))

/-- The text of a value, which a malformed function lacks. -/
def textOrFault (value : Value) : Except Failure String :=
  match value.text? with
  | some text => .ok text
  | none => .error (.fault .unusable)

/-- Arithmetic on integers. Division truncates, and the remainder has the sign of the dividend and
is not longer, so its range is not checked. -/
def integerArithmetic (operator : Operator) (a b : Int) : Except Failure Value :=
  match operator with
  | .add => checked (a + b)
  | .sub => checked (a - b)
  | .mul => checked (a * b)
  | .div => checked (Integer.quotient a b)
  | _ => .ok (int (Integer.remainder a b))

def floatArithmetic (operator : Operator) (a b : Binary64) : Except Failure Value :=
  match operator with
  | .add => .ok (float (a.add b))
  | .sub => .ok (float (a.sub b))
  | .mul => .ok (float (a.mul b))
  | .div => .ok (float (a.div b))
  | _ => (a.rem? b).elim (.error (.fault .remainderUndefined)) fun x => .ok (float x)

/-- One of the five arithmetic operators on any two values. -/
def arithmetic (operator : Operator) (left right : Value) : Except Failure Value :=
  match left.number?, right.number? with
  | some a, some b =>
    if operator = .div && b.isZero then .error (.error .divisionByZero)
    else if operator = .mod && b.isZero then .error (.error .moduloByZero)
    else
      match a, b with
      | .int m, .int n => integerArithmetic operator m n
      | _, _ => do floatArithmetic operator (← a.toFloat) (← b.toFloat)
  | _, _ => .error (.error (.unsupportedOperands operator.symbol left.kindName right.kindName))

def answers (operator : Operator) (order : Ordering) : Bool :=
  match operator with
  | .lt => order == .lt
  | .gt => order == .gt
  | .le => order != .gt
  | _ => order != .lt

/-- A comparison of numbers; nothing is less, equal or greater than what is not a number. -/
def comparison (operator : Operator) (left right : Value) : Except Failure Value :=
  match left.number?, right.number? with
  | some a, some b => .ok (bool ((Number.compare a b).any (answers operator)))
  | _, _ => .error (.error (.unsupportedComparison operator.symbol left.kindName right.kindName))

/-- The sum, which joins texts if either operand is one. -/
def sum (left right : Value) : Except Failure Value :=
  match left, right with
  | str a, other => other.textOrFault.map fun b => str (a ++ b)
  | other, str b => other.textOrFault.map fun a => str (a ++ b)
  | _, _ => arithmetic .add left right

/-- An operator applied to two values. The two that need not evaluate both have no place here. -/
def apply (operator : Operator) (left right : Value) : Except Failure Value :=
  match operator with
  | .add => sum left right
  | .sub | .mul | .div | .mod => arithmetic operator left right
  | .eq => .ok (bool (left.equal right))
  | .ne => .ok (bool !(left.equal right))
  | .lt | .gt | .le | .ge => comparison operator left right
  | .and | .or => .error (.error (.unknownOperator operator.symbol))

def binary (operator : Json) (left right : Value) : Except Failure Value :=
  match Operator.ofJson? operator with
  | some known => apply known left right
  | none => .error (.error (.unknownOperator operator.display))

def unary (operator : Json) (operand : Value) : Except Failure Value :=
  match operator with
  | .str "not" => .ok (bool !operand.isTruthy)
  | .str "neg" =>
    match operand with
    | int n => checked (-n)
    | float x => .ok (float x.neg)
    | other => .error (.error (.negatedNonNumber other.kindName))
  | other => .error (.error (.unknownUnary other.display))

end Value

end ScriptLang
