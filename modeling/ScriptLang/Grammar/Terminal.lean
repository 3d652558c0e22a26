/-! # Terminals

The kinds of tokens, their names in messages and the spelling of those that have only one.
-/

namespace ScriptLang

/-- The kinds of tokens. The end of the input is one of them. -/
inductive Terminal where
  | ident | number | string
  | continueWord | returnWord | breakWord | falseWord | whileWord | elseWord | loopWord | trueWord
  | andWord | forWord | nilWord | notWord | eq | fnWord | ge | ifWord | le | ne | orWord
  | comma | equal | gt | lbrace | lpar | lt | minus | percent | plus | rbrace | rpar | semicolon
  | slash | star
  | endOfInput
  deriving DecidableEq, Repr

namespace Terminal

def name : Terminal → String
  | ident => "IDENT"
  | number => "NUMBER"
  | string => "STRING"
  | continueWord => "CONTINUE"
  | returnWord => "RETURN"
  | breakWord => "BREAK"
  | falseWord => "FALSE"
  | whileWord => "WHILE"
  | elseWord => "ELSE"
  | loopWord => "LOOP"
  | trueWord => "TRUE"
  | andWord => "AND"
  | forWord => "FOR"
  | nilWord => "NIL"
  | notWord => "NOT"
  | eq => "EQ"
  | fnWord => "FN"
  | ge => "GE"
  | ifWord => "IF"
  | le => "LE"
  | ne => "NE"
  | orWord => "OR"
  | comma => "COMMA"
  | equal => "EQUAL"
  | gt => "GT"
  | lbrace => "LBRACE"
  | lpar => "LPAR"
  | lt => "LT"
  | minus => "MINUS"
  | percent => "PERCENT"
  | plus => "PLUS"
  | rbrace => "RBRACE"
  | rpar => "RPAR"
  | semicolon => "SEMICOLON"
  | slash => "SLASH"
  | star => "STAR"
  | endOfInput => "$END"

/-- The one spelling of a keyword, an operator or a mark. -/
def spelling? : Terminal → Option String
  | continueWord => "continue"
  | returnWord => "return"
  | breakWord => "break"
  | falseWord => "false"
  | whileWord => "while"
  | elseWord => "else"
  | loopWord => "loop"
  | trueWord => "true"
  | andWord => "and"
  | forWord => "for"
  | nilWord => "nil"
  | notWord => "not"
  | eq => "=="
  | fnWord => "fn"
  | ge => ">="
  | ifWord => "if"
  | le => "<="
  | ne => "!="
  | orWord => "or"
  | comma => ","
  | equal => "="
  | gt => ">"
  | lbrace => "\x7b"
  | lpar => "("
  | lt => "<"
  | minus => "-"
  | percent => "%"
  | plus => "+"
  | rbrace => "\x7d"
  | rpar => ")"
  | semicolon => ";"
  | slash => "/"
  | star => "*"
  | ident | number | string | endOfInput => none

/-- The terminals in the order of their names, the end of the input left out. -/
def byName : List Terminal :=
  [andWord, breakWord, comma, continueWord, elseWord, eq, equal, falseWord, fnWord, forWord, ge,
    gt, ident, ifWord, lbrace, le, loopWord, lpar, lt, minus, ne, nilWord, notWord, number, orWord,
    percent, plus, rbrace, returnWord, rpar, semicolon, slash, star, string, trueWord, whileWord]

/-- The terminals of one spelling, in the order in which they are tried: longer spellings first,
and those of one length by name. -/
def fixed : List Terminal :=
  [continueWord, returnWord, breakWord, falseWord, whileWord, elseWord, loopWord, trueWord,
    andWord, forWord, nilWord, notWord, eq, fnWord, ge, ifWord, le, ne, orWord, comma, equal, gt,
    lbrace, lpar, lt, minus, percent, plus, rbrace, rpar, semicolon, slash, star]

end Terminal

structure Token where
  terminal : Terminal
  text : String
  index : Nat
  deriving DecidableEq, Repr

end ScriptLang
