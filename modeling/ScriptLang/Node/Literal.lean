import ScriptLang.Node.Basic
import ScriptLang.Number.Reading

/-! # Literals

What the texts of number and string tokens stand for.
-/

namespace ScriptLang

inductive LiteralError where
  | outOfRange (text : String)
  | tooManyDigits (count : Nat)
  | notAnInteger (base : Nat) (text : String)
  | notAFloat (text : String)
  | surrogate (escape : String)
  deriving DecidableEq, Repr

def tooManyDigitsMessage (count : Nat) : String :=
  "Exceeds the limit (4300 digits) for integer string conversion: value has " ++
    Integer.text count ++ " digits; use sys.set_int_max_str_digits() to increase the limit"

def notAFloatMessage (text : String) : String :=
  "could not convert string to float: " ++ Quoted.quote text

namespace LiteralError

/-- Only the beginning of a text that is no integer is shown. -/
def message : LiteralError → String
  | outOfRange text => "integer literal " ++ text ++ " out of range"
  | tooManyDigits count => tooManyDigitsMessage count
  | notAnInteger base text =>
    "invalid literal for int() with base " ++ Integer.text base ++ ": " ++
      String.ofList ((Quoted.quote text).toList.take 200)
  | notAFloat text => notAFloatMessage text
  | surrogate escape => "\\" ++ escape ++ " is a surrogate, not a Unicode scalar value"

end LiteralError

namespace Literal

open DecimalDigit (isHexDigit valueOf)

def shortEscape? : Char → Option Char
  | '"' => some '"'
  | '\\' => some '\\'
  | 'n' => some '\n'
  | 'r' => some '\r'
  | 't' => some '\t'
  | _ => none

def prepend (c : Char) : Except LiteralError (List Char) → Except LiteralError (List Char) :=
  Except.map (c :: ·)

/-- The text that the inside of a string literal stands for. A backslash that starts no escape
stands for itself. -/
def unescape : List Char → Except LiteralError (List Char)
  | [] => .ok []
  | '\\' :: 'u' :: a :: b :: c :: d :: rest =>
    if [a, b, c, d].all isHexDigit then
      let code := valueOf 16 [a, b, c, d]
      if 0xD800 ≤ code && code ≤ 0xDFFF then .error (.surrogate (String.ofList ['u', a, b, c, d]))
      else prepend (Char.ofNat code) (unescape rest)
    else prepend '\\' (unescape ('u' :: a :: b :: c :: d :: rest))
  | '\\' :: c :: rest =>
    match shortEscape? c with
    | some char => prepend char (unescape rest)
    | none => prepend '\\' (unescape (c :: rest))
  | c :: rest => prepend c (unescape rest)

/-- The text of a string literal, whose first and last characters are its quotes. -/
def string (text : String) : Except LiteralError String :=
  (unescape (text.toList.drop 1).dropLast).map String.ofList

def checked (text : String) (value : Int) : Except LiteralError Node :=
  if Integer.inRange value then .ok (.literal (.int value) (.str "Integer"))
  else .error (.outOfRange text)

/-- The literal node of an integer in a base, given its sign and the text after it. -/
def integer (text : String) (negative : Bool) (base : Nat) (digits : List Char) :
    Except LiteralError Node :=
  match Reading.integer base digits with
  | .ok value => checked text (if negative then -value else value)
  | .error (.tooLong count) => .error (.tooManyDigits count)
  | .error .malformed => .error (.notAnInteger base (String.ofList digits))

/-- The literal node of a number. With a point or an exponent it is a float, unless the digits are
marked as binary or hexadecimal. -/
def number (text : String) : Except LiteralError Node :=
  let chars := text.toList
  let negative := chars.head? == some '-'
  let digits := chars.dropWhile fun c => c == '+' || c == '-'
  match digits with
  | '0' :: 'b' :: rest => integer text negative 2 rest
  | '0' :: 'x' :: rest => integer text negative 16 rest
  | _ =>
    if digits.any fun c => c == '.' || c == 'e' || c == 'E' then
      match Reading.float? text with
      | some x => .ok (.literal (.float x) (.str "Float"))
      | none => .error (.notAFloat text)
    else integer text negative 10 digits

end Literal

end ScriptLang
