import ScriptLang.Number.Binary64

/-! # Shortest decimals

A positive finite number is the nearest one to all reals of an interval, whose ends belong to it
when the code is even. Its shortest decimal lies on the coarsest grid of powers of ten that has
a point in the interval; of two points the nearer is taken, of two equally near ones the even.
-/

namespace ScriptLang

/-- A decimal `digits * 10 ^ exponent`. -/
structure Decimal where
  digits : Nat
  exponent : Int
  deriving DecidableEq, Repr

namespace Shortest

def powerOfTen (exponent : Int) : Nat × Nat :=
  (Nat.pow 10 exponent.toNat, Nat.pow 10 (-exponent).toNat)

/-- Whether a decimal reads back as the number with a given positive code. -/
def reads (code : Nat) (d : Decimal) : Bool :=
  let (num, den) := powerOfTen d.exponent
  let twice := 2 * d.digits * num * Binary64.scale
  let lower := (Binary64.units (code - 1) + Binary64.units code) * den
  let upper := (Binary64.units code + Binary64.units (code + 1)) * den
  if code % 2 = 0 then lower ≤ twice && twice ≤ upper else lower < twice && twice < upper

/-- The point of a grid that reads back as the number, if there is one. -/
def onGrid (code : Nat) (exponent : Int) : Option Decimal :=
  let (num, den) := powerOfTen exponent
  let value := Binary64.units code * den
  let step := num * Binary64.scale
  let below : Decimal := ⟨value / step, exponent⟩
  let above : Decimal := ⟨value / step + 1, exponent⟩
  match reads code below, reads code above with
  | true, true => some ⟨Binary64.roundDiv value step, exponent⟩
  | true, false => some below
  | false, true => some above
  | false, false => none

/-- The exponent of the coarsest grid to look at: its first point is beyond the interval, or
the grid above it has none inside. -/
def topExponent (code : Nat) : Nat :=
  (Nat.toDigits 10 (Binary64.units code / Binary64.scale)).length

/-- The shortest decimal of a positive code. The grid of `10 ^ -324` always has a point. -/
def decimal (code : Nat) : Decimal :=
  let top := topExponent code
  ((List.range (top + 325)).findSome? fun (i : Nat) => onGrid code (top - i)).getD ⟨0, 0⟩

end Shortest

end ScriptLang
