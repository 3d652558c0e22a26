import ScriptLang.Grammar.Terminal
import ScriptLang.Text.DecimalDigit

/-! # Lexemes

What may stand at a place of a source text: a token, a comment or blanks. Each kind says how many
characters it takes from the front of a text, if it is there at all. Kinds are tried in a fixed
order and the first that fits is taken, however long it is.
-/

namespace ScriptLang

inductive Lexeme where
  | token (terminal : Terminal)
  | blockComment
  | lineComment
  | blanks
  deriving DecidableEq, Repr

namespace Lexeme

open DecimalDigit (isAscii isHexDigit)

/-- Letters without accents, digits and the underscore. -/
def isWordChar (c : Char) : Bool := c.isAlphanum || c == '_'

def isBlank (c : Char) : Bool := c == ' ' || c == '\t' || c == '\r' || c == '\n'

def reserved : List String :=
  ["if", "else", "while", "for", "break", "continue", "return", "fn", "class", "and", "or", "not",
    "loop", "true", "false", "nil"]

/-- An identifier is a whole word that starts with no digit and is not reserved. -/
def identLength (text : List Char) : Option Nat :=
  let word := text.takeWhile isWordChar
  match word with
  | [] => none
  | c :: _ => if isAscii c || reserved.contains (String.ofList word) then none else some word.length

/-- The length of a mark and the run of digits after it, or zero if either is missing. -/
def markedRun (mark digit : Char → Bool) : List Char → Nat
  | [] => 0
  | c :: rest =>
    let run := rest.takeWhile digit
    if mark c && !run.isEmpty then run.length + 1 else 0

/-- A number without its sign: with an exponent, with a fraction, binary, hexadecimal or decimal,
in this order. -/
def unsignedLength (text : List Char) : Option Nat :=
  let whole := text.takeWhile isAscii
  let rest := text.drop whole.length
  let fraction := markedRun (· == '.') isAscii rest
  let exponent := markedRun (fun c => c == 'e' || c == 'E') isAscii (rest.drop fraction)
  let binary := markedRun (· == 'b') (fun c => c == '0' || c == '1') rest
  let hexadecimal := markedRun (· == 'x') isHexDigit rest
  if whole.isEmpty then none
  else if exponent != 0 then some (whole.length + fraction + exponent)
  else if fraction != 0 then some (whole.length + fraction)
  else if whole == ['0'] && binary != 0 then some (1 + binary)
  else if whole == ['0'] && hexadecimal != 0 then some (1 + hexadecimal)
  else some whole.length

def numberLength : List Char → Option Nat
  | [] => none
  | c :: rest =>
    if c == '+' || c == '-' then (unsignedLength rest).map (· + 1) else unsignedLength (c :: rest)

def stringTail : List Char → Option Nat
  | [] => none
  | '"' :: _ => some 1
  | '\\' :: 'u' :: a :: b :: c :: d :: rest =>
    if [a, b, c, d].all isHexDigit then (stringTail rest).map (· + 6) else none
  | '\\' :: c :: rest =>
    if ['"', '\\', 'n', 'r', 't'].contains c then (stringTail rest).map (· + 2) else none
  | c :: rest => if c == '\\' then none else (stringTail rest).map (· + 1)

def stringLength : List Char → Option Nat
  | '"' :: rest => (stringTail rest).map (· + 1)
  | _ => none

/-- The rest of a block comment, up to the first mark that closes it. -/
def commentTail : List Char → Option Nat
  | [] => none
  | '*' :: '/' :: _ => some 2
  | _ :: rest => (commentTail rest).map (· + 1)

def blockLength : List Char → Option Nat
  | '/' :: '*' :: rest => (commentTail rest).map (· + 2)
  | _ => none

def lineLength : List Char → Option Nat
  | '/' :: '/' :: rest => some ((rest.takeWhile (· != '\n')).length + 2)
  | _ => none

def blanksLength (text : List Char) : Option Nat :=
  let run := text.takeWhile isBlank
  if run.isEmpty then none else some run.length

/-- The length of a terminal at the front of a text. A keyword need not end where a word ends. -/
def terminalLength (terminal : Terminal) (text : List Char) : Option Nat :=
  match terminal with
  | .ident => identLength text
  | .number => numberLength text
  | .string => stringLength text
  | other =>
    other.spelling?.bind fun spelling =>
      if spelling.toList.isPrefixOf text then some spelling.length else none

def length? : Lexeme → List Char → Option Nat
  | token terminal, text => terminalLength terminal text
  | blockComment, text => blockLength text
  | lineComment, text => lineLength text
  | blanks, text => blanksLength text

def order : List Lexeme :=
  [token .ident, token .number, token .string, blockComment, lineComment, blanks] ++
    Terminal.fixed.map token

def admits (accepts : Terminal → Bool) : Lexeme → Bool
  | token terminal => accepts terminal
  | _ => true

/-- The first admissible lexeme at the front of a text, with its length. -/
def first (accepts : Terminal → Bool) (text : List Char) : Option (Lexeme × Nat) :=
  order.findSome? fun lexeme =>
    if lexeme.admits accepts then (lexeme.length? text).map (lexeme, ·) else none

end Lexeme

end ScriptLang
