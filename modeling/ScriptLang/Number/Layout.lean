import ScriptLang.Number.Shortest

/-! # Numbers as text

The language writes numbers positionally whatever their size and without a point when they are
integral. Data files use an exponent for very large and very small numbers and always show that
a number is no integer.
-/

namespace ScriptLang

namespace Decimal

/-- A decimal written out, with a point only if there are places after it. -/
def positional (d : Decimal) : List Char :=
  let digits := Nat.toDigits 10 d.digits
  let places := (-d.exponent).toNat
  if places = 0 then digits ++ List.replicate d.exponent.toNat '0'
  else
    let padded := List.replicate (places + 1 - digits.length) '0' ++ digits
    padded.take (padded.length - places) ++ '.' :: padded.drop (padded.length - places)

/-- The exponent of the first digit. -/
def leading (d : Decimal) : Int := (Nat.toDigits 10 d.digits).length - 1 + d.exponent

/-- A decimal with one digit before the point and an exponent of at least two digits. -/
def scientific (d : Decimal) : List Char :=
  let exponent := Nat.toDigits 10 d.leading.natAbs
  let mantissa := match Nat.toDigits 10 d.digits with
    | first :: second :: rest => first :: '.' :: second :: rest
    | digits => digits
  mantissa ++ 'e' :: (if d.leading < 0 then '-' else '+') ::
    (List.replicate (2 - exponent.length) '0' ++ exponent)

end Decimal

namespace Binary64

def withSign (negative : Bool) (text : List Char) : String :=
  String.ofList (if negative then '-' :: text else text)

def text : Binary64 → String
  | .nan => "NaN"
  | .infinite negative => if negative then "-inf" else "inf"
  | .finite negative code =>
    withSign negative <| if code.val = 0 then ['0'] else (Shortest.decimal code).positional

/-- A positive code as a number that is visibly no integer: positional for exponents from -4
to 15. -/
def fractional (code : Nat) : List Char :=
  if code = 0 then ['0', '.', '0']
  else
    let d := Shortest.decimal code
    if d.leading < -4 || 16 ≤ d.leading then d.scientific
    else if 0 ≤ d.exponent then d.positional ++ ['.', '0']
    else d.positional

/-- The text of a number inside the text of a larger structure. -/
def inspect : Binary64 → String
  | .nan => "nan"
  | .infinite negative => if negative then "-inf" else "inf"
  | .finite negative code => withSign negative (fractional code)

def dataText : Binary64 → String
  | .nan => "NaN"
  | .infinite negative => if negative then "-Infinity" else "Infinity"
  | .finite negative code => withSign negative (fractional code)

/-- The bit pattern as sixteen digits, or `nan`. -/
def bitsText (x : Binary64) : String :=
  match x.toBits? with
  | none => "nan"
  | some bits =>
    let digits := Nat.toDigits 16 bits
    String.ofList (List.replicate (16 - digits.length) '0' ++ digits)

end Binary64

end ScriptLang
