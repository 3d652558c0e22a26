import ScriptLang.Json.Basic
import ScriptLang.Number.Reading

/-! # Reading JSON

Beside standard JSON the words `NaN`, `Infinity` and `-Infinity` are read as numbers. Of fields
with one key the last counts, at the place of the first.
-/

namespace ScriptLang.Json

inductive ReadError where
  | malformed
  | integerTooLong (digits : Nat)
  deriving DecidableEq, Repr

namespace Reader

open DecimalDigit (isAscii isHexDigit valueOf)

def isBlank (c : Char) : Bool := c == ' ' || c == '\t' || c == '\n' || c == '\r'

def skipBlanks (text : List Char) : List Char := text.dropWhile isBlank

/-- The character of a code; what is no character is replaced. -/
def charOf (code : Nat) : Char :=
  if code.isValidChar then Char.ofNat code else '\uFFFD'

/-- The character after a backslash other than `u`. -/
def unescape? : Char → Option Char
  | '"' => some '"'
  | '\\' => some '\\'
  | '/' => some '/'
  | 'b' => some '\x08'
  | 'f' => some '\x0c'
  | 'n' => some '\n'
  | 'r' => some '\r'
  | 't' => some '\t'
  | _ => none

def prepend (c : Char) : Except ReadError (List Char × List Char) →
    Except ReadError (List Char × List Char)
  | .ok (text, rest) => .ok (c :: text, rest)
  | .error e => .error e

/-- The rest of a string. Two escapes may spell one character as a pair of surrogates. -/
def readString : List Char → Except ReadError (List Char × List Char)
  | [] => .error .malformed
  | '"' :: rest => .ok ([], rest)
  | '\\' :: 'u' :: a :: b :: c :: d :: '\\' :: 'u' :: e :: f :: g :: h :: rest =>
    let high := valueOf 16 [a, b, c, d]
    let low := valueOf 16 [e, f, g, h]
    if !([a, b, c, d].all isHexDigit) then .error .malformed
    else if 0xD800 ≤ high && high < 0xDC00 && [e, f, g, h].all isHexDigit && 0xDC00 ≤ low &&
        low < 0xE000 then
      prepend (charOf (0x10000 + (high - 0xD800) * 0x400 + (low - 0xDC00))) (readString rest)
    else prepend (charOf high) (readString ('\\' :: 'u' :: e :: f :: g :: h :: rest))
  | '\\' :: 'u' :: a :: b :: c :: d :: rest =>
    if [a, b, c, d].all isHexDigit then prepend (charOf (valueOf 16 [a, b, c, d])) (readString rest)
    else .error .malformed
  | '\\' :: c :: rest =>
    match unescape? c with
    | some char => prepend char (readString rest)
    | none => .error .malformed
  | c :: rest => if c.toNat < 0x20 || c == '\\' then .error .malformed else prepend c (readString rest)

/-- A mark and the run of digits after it, or nothing if either is missing. -/
def splitMarked (mark : Char → Bool) (signed : Bool) : List Char → List Char × List Char
  | [] => ([], [])
  | c :: rest =>
    let (sign, digits) := match rest with
      | s :: after => if signed && (s == '+' || s == '-') then ([s], after) else ([], rest)
      | [] => ([], rest)
    let run := digits.takeWhile isAscii
    if mark c && !run.isEmpty then (c :: sign ++ run, digits.drop run.length) else ([], c :: rest)

def splitMinus : List Char → List Char × List Char
  | '-' :: rest => (['-'], rest)
  | text => ([], text)

/-- The digits at the front of a number. A zero there is the only one. -/
def wholeDigits : List Char → List Char
  | '0' :: _ => ['0']
  | text => text.takeWhile isAscii

/-- A number. Without a fraction and an exponent it is an integer. -/
def readNumber (text : List Char) : Except ReadError (Json × List Char) :=
  let (minus, body) := splitMinus text
  let digits := wholeDigits body
  let (fraction, rest) := splitMarked (· == '.') false (body.drop digits.length)
  let (exponent, rest) := splitMarked (fun c => c == 'e' || c == 'E') true rest
  if digits.isEmpty then .error .malformed
  else if fraction.isEmpty && exponent.isEmpty then
    if Integer.digitLimit < digits.length then .error (.integerTooLong digits.length)
    else .ok (int (Binary64.signed (!minus.isEmpty) (valueOf 10 digits)), rest)
  else
    match Reading.readSigned (minus ++ digits ++ fraction ++ exponent) with
    | some x => .ok (float x, rest)
    | none => .error .malformed

def words : List (String × Json) :=
  [("null", null), ("true", bool true), ("false", bool false), ("NaN", float .nan),
    ("Infinity", float (.infinite false)), ("-Infinity", float (.infinite true))]

def readPlain (text : List Char) : Except ReadError (Json × List Char) :=
  match words.find? fun (word, _) => word.toList.isPrefixOf text with
  | some (word, value) => .ok (value, text.drop word.length)
  | none => readNumber text

mutual

def readValue : Nat → List Char → Except ReadError (Json × List Char)
  | 0, _ => .error .malformed
  | fuel + 1, text =>
    match text with
    | '"' :: rest => (readString rest).map fun (s, after) => (str (String.ofList s), after)
    | '[' :: rest =>
      match skipBlanks rest with
      | ']' :: after => .ok (arr [], after)
      | _ => (readItems fuel rest).map fun (items, after) => (arr items, after)
    | '\x7b' :: rest =>
      match skipBlanks rest with
      | '\x7d' :: after => .ok (obj [], after)
      | _ => (readFields fuel rest).map fun (fields, after) =>
          (obj (fields.foldl (fun done field => put done field.1 field.2) []), after)
    | _ => readPlain text

def readItems : Nat → List Char → Except ReadError (List Json × List Char)
  | 0, _ => .error .malformed
  | fuel + 1, text => do
    let (item, rest) ← readValue fuel (skipBlanks text)
    match skipBlanks rest with
    | ',' :: after => (readItems fuel after).map fun (items, rest) => (item :: items, rest)
    | ']' :: after => .ok ([item], after)
    | _ => .error .malformed

def readFields : Nat → List Char → Except ReadError (List (String × Json) × List Char)
  | 0, _ => .error .malformed
  | fuel + 1, text => do
    let (key, rest) ← match skipBlanks text with
      | '"' :: rest => readString rest
      | _ => .error .malformed
    let rest ← match skipBlanks rest with
      | ':' :: rest => .ok rest
      | _ => .error ReadError.malformed
    let (value, rest) ← readValue fuel (skipBlanks rest)
    match skipBlanks rest with
    | ',' :: after =>
      (readFields fuel after).map fun (fields, rest) => ((String.ofList key, value) :: fields, rest)
    | '\x7d' :: after => .ok ([(String.ofList key, value)], after)
    | _ => .error .malformed

end

end Reader

def read (text : String) : Except ReadError Json := do
  let chars := text.toList
  let (value, rest) ← Reader.readValue (2 * chars.length + 2) (Reader.skipBlanks chars)
  if (Reader.skipBlanks rest).isEmpty then .ok value else .error .malformed

end ScriptLang.Json
