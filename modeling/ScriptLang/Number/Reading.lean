import ScriptLang.Number.Binary64
import ScriptLang.Number.Integer
import ScriptLang.Text.Blank
import ScriptLang.Text.DecimalDigit

/-! # Reading numbers

A number may be surrounded by white space, may have underscores between digits and may use the
decimal digits of any script. A floating-point text is rounded once from its exact value.
-/

namespace ScriptLang.Reading

open DecimalDigit

/-- The number nearest to `mantissa * 10 ^ exponent`. From `10 ^ 309` on all are infinite and
below `10 ^ -324` all are zero. -/
def ofDecimal (negative : Bool) (mantissa : Nat) (exponent : Int) : Binary64 :=
  let size := (Nat.toDigits 10 mantissa).length + exponent
  if mantissa = 0 then .zero negative
  else if 310 ≤ size then .infinite negative
  else if size ≤ -324 then .zero negative
  else .ofRatio negative (mantissa * Nat.pow 10 exponent.toNat * Binary64.scale)
    (Nat.pow 10 (-exponent).toNat)

def splitSign : List Char → Bool × List Char
  | '-' :: rest => (true, rest)
  | '+' :: rest => (false, rest)
  | text => (false, text)

def splitDigits (text : List Char) : List Char × List Char :=
  (text.takeWhile isAscii, text.dropWhile isAscii)

/-- A text without the underscores between its digits; an underscore elsewhere is an error. -/
def dropUnderscores (isDigit : Char → Bool) (afterDigit : Bool) : List Char → Option (List Char)
  | [] => some []
  | '_' :: c :: rest =>
    if afterDigit && isDigit c then dropUnderscores isDigit false (c :: rest) else none
  | c :: rest =>
    if c == '_' then none else (dropUnderscores isDigit (isDigit c) rest).map (c :: ·)

/-- The exponent part of a number: absent, or a mark, a sign and digits up to the end. -/
def readExponent : List Char → Option Int
  | [] => some 0
  | mark :: rest =>
    let (negative, digits) := splitSign rest
    if (mark == 'e' || mark == 'E') && !digits.isEmpty && digits.all isAscii then
      some (Binary64.signed negative (valueOf 10 digits))
    else none

def readUnsigned (negative : Bool) (text : List Char) : Option Binary64 :=
  let (whole, rest) := splitDigits text
  let (fraction, rest) := match rest with
    | '.' :: after => splitDigits after
    | _ => ([], rest)
  if whole.isEmpty && fraction.isEmpty then none
  else (readExponent rest).map fun exponent =>
    ofDecimal negative (valueOf 10 (whole ++ fraction)) (exponent - fraction.length)

/-- The number that an ASCII text without underscores spells. -/
def readSigned (text : List Char) : Option Binary64 :=
  let (negative, body) := splitSign text
  let word := String.ofList (body.map Char.toLower)
  if word == "inf" || word == "infinity" then some (.infinite negative)
  else if word == "nan" then some .nan
  else readUnsigned negative body

def float? (text : String) : Option Binary64 :=
  (dropUnderscores isAscii false
    ((Blank.trim Blank.aroundNumber text.toList).map toAscii)).bind readSigned

inductive IntegerError where
  | malformed
  | tooLong (digits : Nat)
  deriving DecidableEq, Repr

def isDigitIn (base : Nat) (c : Char) : Bool := isHexDigit c && valueIn c < base

def isMark (base : Nat) (c : Char) : Bool :=
  (base == 2 && (c == 'b' || c == 'B')) || (base == 16 && (c == 'x' || c == 'X'))

/-- Digits without the mark of their base, which is a zero and a letter and may be followed by an
underscore. -/
def dropMark (base : Nat) : List Char → List Char
  | '0' :: c :: '_' :: rest => if isMark base c then rest else '0' :: c :: '_' :: rest
  | '0' :: c :: rest => if isMark base c then rest else '0' :: c :: rest
  | text => text

/-- The integer that a text spells in a base. Only decimal texts are limited in length. -/
def integer (base : Nat) (text : List Char) : Except IntegerError Int :=
  let (negative, marked) := splitSign ((text.dropWhile Blank.aroundNumber).map toAscii)
  let body := dropMark base marked
  let run := body.takeWhile fun c => isDigitIn base c || c == '_'
  match dropUnderscores (isDigitIn base) false run with
  | none => .error .malformed
  | some digits =>
    if base == 10 && Integer.digitLimit < digits.length then .error (.tooLong digits.length)
    else if digits.isEmpty || !(body.drop run.length).all Blank.aroundNumber then .error .malformed
    else .ok (Binary64.signed negative (valueOf base digits))

/-- The digits of an integer text, an optional sign and ASCII digits, and whether it is negative. -/
def splitInteger? (text : List Char) : Option (Bool × List Char) :=
  let (negative, digits) := splitSign text
  if !digits.isEmpty && digits.all isAscii then some (negative, digits) else none

end ScriptLang.Reading
