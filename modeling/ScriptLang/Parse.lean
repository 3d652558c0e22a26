import ScriptLang.Grammar.Derivation
import ScriptLang.Node.Lowering
import ScriptLang.Text.Position

/-! # Parsing

A source text is parsed as a whole or not at all. Literals are looked at only after a derivation
has been found.
-/

namespace ScriptLang

/-- Why a source text is no program. -/
inductive ParseError where
  | refused (refusal : Refusal)
  | badLiteral (literal : BadLiteral)
  deriving DecidableEq, Repr

namespace ParseError

/-- The index of the character at which the error is reported. -/
def index : ParseError → Nat
  | refused (.token token _) => token.index
  | refused (.character _ index _) => index
  | refused (.endOfInput index _) => index
  | badLiteral literal => literal.index

def expected : ParseError → List Terminal
  | refused (.token _ expected) => expected
  | refused (.character _ _ expected) => expected
  | refused (.endOfInput _ expected) => expected
  | badLiteral _ => []

def found : ParseError → String
  | refused (.token token _) =>
    "unexpected " ++ token.terminal.name ++ " " ++ Quoted.quote token.text
  | refused (.character c _ _) => "unexpected character " ++ Quoted.quote (String.singleton c)
  | refused (.endOfInput _ _) => "unexpected end of input"
  | badLiteral literal => literal.error.message

def message (error : ParseError) : String :=
  if error.expected.isEmpty then error.found
  else error.found ++ ", expected one of: " ++ ", ".intercalate (error.expected.map Terminal.name)

def position (error : ParseError) (source : String) : Position :=
  .ofIndex source.toList error.index

def report (error : ParseError) (source : String) : String :=
  let position := error.position source
  "line " ++ Integer.text position.line ++ ", column " ++ Integer.text position.column ++ ": " ++
    error.message

end ParseError

/-- The program that a source text spells. -/
def parse (source : String) : Except ParseError Node :=
  match Derivation.ofSource source.toList with
  | .error refusal => .error (.refused refusal)
  | .ok tree =>
    match Phrase.ofTree tree with
    | .error literal => .error (.badLiteral literal)
    | .ok (.node program) => .ok program
    | .ok _ => .ok (.program [])

end ScriptLang
