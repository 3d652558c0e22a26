import ScriptLang.Grammar.Terminal
import ScriptLang.Node.Basic
import ScriptLang.Number.Layout

/-! # Rendering programs

A program as a list of words, which become a text with single spaces between them. There are
parentheses only around operands that bind less tightly than their place needs: the left operand
of an operator may be of the same level, the right one may not.
-/

namespace ScriptLang

/-- A token without its place. -/
abbrev Word := Terminal × String

namespace Word

def fixed (terminal : Terminal) : Word := (terminal, terminal.spelling?.getD "")

def name (name : String) : Word := (.ident, name)

end Word

def escape : Char → List Char
  | '"' => ['\\', '"']
  | '\\' => ['\\', '\\']
  | '\n' => ['\\', 'n']
  | '\r' => ['\\', 'r']
  | '\t' => ['\\', 't']
  | c => [c]

def stringText (value : String) : String :=
  String.ofList ('"' :: value.toList.flatMap escape ++ ['"'])

/-- A float with its shortest digits and at least one place after the point, and the infinities as
numbers that are too large. -/
def floatText : Binary64 → String
  | .nan => ""
  | .infinite negative => Binary64.withSign negative ['1', 'e', '3', '0', '9']
  | .finite negative code =>
    Binary64.withSign negative <|
      if code.val = 0 then ['0', '.', '0']
      else
        let decimal := Shortest.decimal code
        if 0 ≤ decimal.exponent then decimal.positional ++ ['.', '0'] else decimal.positional

/-- The terminal of an operator of two operands and how tightly it binds. -/
def operator? : String → Option (Terminal × Nat)
  | "and" => some (.andWord, 0)
  | "or" => some (.orWord, 0)
  | "==" => some (.eq, 1)
  | "!=" => some (.ne, 1)
  | "<=" => some (.le, 2)
  | ">=" => some (.ge, 2)
  | "<" => some (.lt, 2)
  | ">" => some (.gt, 2)
  | "+" => some (.plus, 3)
  | "-" => some (.minus, 3)
  | "*" => some (.star, 4)
  | "/" => some (.slash, 4)
  | "%" => some (.percent, 4)
  | _ => none

namespace Node

open Word (fixed name)

/-- How tightly an expression binds: operators of two operands by their level, then those of one
operand, then all that needs no operator. -/
def tightness : Node → Nat
  | binary (.str op) _ _ => ((operator? op).map Prod.snd).getD 0
  | unary _ _ => 5
  | _ => 6

/-- The words of an operand in a place for expressions that bind at least so tightly. -/
def place (level : Nat) (node : Node) (words : List Word) : List Word :=
  if node.tightness < level then fixed .lpar :: (words ++ [fixed .rpar]) else words

def commas : List (List Word) → List Word
  | [] => []
  | first :: rest => first ++ rest.flatMap (fixed .comma :: ·)

/-- An assignment that stands as a statement ends with a semicolon. -/
def close (node : Node) (words : List Word) : List Word :=
  match node with
  | assign .. => words ++ [fixed .semicolon]
  | _ => words

def otherwise (node : Node) (words : List Word) : List Word :=
  match node with
  | null => []
  | _ => fixed .elseWord :: words

def param : Json → List Word
  | .str text => [name text]
  | _ => []

mutual

/-- The words of a node; what is left out has none. -/
def words : Node → List Word
  | literal (int value) _ => [(.number, Integer.text value)]
  | literal (float value) _ => [(.number, floatText value)]
  | literal (str value) _ => [(.string, stringText value)]
  | literal (bool value) _ => [fixed (if value then .trueWord else .falseWord)]
  | literal nil _ => [fixed .nilWord]
  | ident (.str text) => [name text]
  | unary (.str op) operand =>
    fixed (if op = "neg" then .minus else .notWord) :: operand.place 5 operand.words
  | binary (.str op) left right =>
    match operator? op with
    | some (terminal, level) =>
      left.place level left.words ++ fixed terminal :: right.place (level + 1) right.words
    | none => []
  | call func args => func.words ++ fixed .lpar :: (commas (wordsOf args) ++ [fixed .rpar])
  | funcDef params body =>
    fixed .fnWord :: fixed .lpar :: (commas (params.map param) ++ fixed .rpar :: body.words)
  | block statements => fixed .lbrace :: (sentences statements ++ [fixed .rbrace])
  | assign (.str text) value => name text :: fixed .equal :: value.words
  | returnStmt value => fixed .returnWord :: (value.words ++ [fixed .semicolon])
  | breakStmt => [fixed .breakWord, fixed .semicolon]
  | continueStmt => [fixed .continueWord, fixed .semicolon]
  | ifStmt condition body clauses last =>
    fixed .ifWord :: (condition.words ++ (body.words ++ ((wordsOf clauses).flatten ++
      last.otherwise last.words)))
  | elseIf condition body =>
    fixed .elseWord :: fixed .ifWord :: (condition.words ++ body.words)
  | whileStmt condition body => fixed .whileWord :: (condition.words ++ body.words)
  | loopStmt body => fixed .loopWord :: body.words
  | forStmt init condition post body =>
    fixed .forWord :: fixed .lpar :: (init.words ++ fixed .semicolon :: (condition.words ++
      fixed .semicolon :: (post.words ++ fixed .rpar :: body.words)))
  | exprStmt expr => expr.words ++ [fixed .semicolon]
  | program body => sentences body
  | _ => []

def wordsOf : List Node → List (List Word)
  | [] => []
  | node :: rest => node.words :: wordsOf rest

def sentences : List Node → List Word
  | [] => []
  | node :: rest => node.close node.words ++ sentences rest

end

/-- The text of a program, with single spaces between its words. -/
def render (program : Node) : String := " ".intercalate (program.words.map Prod.snd)

end Node

end ScriptLang
