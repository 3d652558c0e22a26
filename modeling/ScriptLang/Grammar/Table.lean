import ScriptLang.Grammar.Production

/-! # Parse table

The LALR(1) automaton of the grammar. A state has at most one reduction, made on a set of
terminals that may follow, and its moves on terminals and nonterminals. The sets are named for what
comes before these terminals, and in one case after them. States that expect an operand share their
moves up to the level at which the operand is taken.
-/

namespace ScriptLang

/-- What the machine does in one state. -/
structure Row where
  reduction : Option (List Terminal × Nat)
  shifts : List (Terminal × Nat)
  gotos : List (Nonterminal × Nat)

namespace Row

/-- Only a reduction by a production, given by its place. -/
def complete (follow : List Terminal) (production : Nat) : Row := ⟨some (follow, production), [], []⟩

def moves (shifts : List (Terminal × Nat)) (gotos : List (Nonterminal × Nat)) : Row :=
  ⟨none, shifts, gotos⟩

def adding (row : Row) (shifts : List (Terminal × Nat)) (gotos : List (Nonterminal × Nat)) : Row :=
  { row with shifts := shifts ++ row.shifts, gotos := gotos ++ row.gotos }

def completing (row : Row) (follow : List Terminal) (production : Nat) : Row :=
  { row with reduction := some (follow, production) }

end Row

namespace Table

open Row

def atEnd : List Terminal :=
  [.endOfInput]

/-- The terminals after an operand. -/
def afterPrimary : List Terminal :=
  [.andWord, .comma, .eq, .ge, .gt, .lbrace, .le, .lt, .minus, .ne, .orWord, .percent, .plus,
    .rpar, .semicolon, .slash, .star]

/-- The terminals after an identifier at the start of a statement. -/
def afterLeadingIdent : List Terminal :=
  [.andWord, .eq, .ge, .gt, .le, .lt, .minus, .ne, .orWord, .percent, .plus, .semicolon, .slash,
    .star]

def afterAdditive : List Terminal :=
  [.andWord, .comma, .eq, .lbrace, .ne, .orWord, .rpar, .semicolon]

def afterStatement : List Terminal :=
  [.endOfInput, .breakWord, .continueWord, .falseWord, .fnWord, .forWord, .ident, .ifWord,
    .loopWord, .lpar, .minus, .nilWord, .notWord, .number, .rbrace, .returnWord, .string,
    .trueWord, .whileWord]

def afterLogical : List Terminal :=
  [.comma, .lbrace, .rpar, .semicolon]

def afterMultiplicative : List Terminal :=
  [.andWord, .comma, .eq, .ge, .gt, .lbrace, .le, .lt, .ne, .orWord, .rpar, .semicolon]

def afterRelational : List Terminal :=
  [.andWord, .comma, .lbrace, .orWord, .rpar, .semicolon]

def afterUnary : List Terminal :=
  [.andWord, .comma, .eq, .ge, .gt, .lbrace, .le, .lt, .minus, .ne, .orWord, .plus, .rpar,
    .semicolon]

/-- The end of a list in parentheses. -/
def beforeParen : List Terminal :=
  [.rpar]

def afterAssignment : List Terminal :=
  [.rpar, .semicolon]

def afterBlock : List Terminal :=
  [.endOfInput, .andWord, .breakWord, .comma, .continueWord, .elseWord, .eq, .falseWord, .fnWord,
    .forWord, .ge, .gt, .ident, .ifWord, .lbrace, .le, .loopWord, .lpar, .lt, .minus, .ne,
    .nilWord, .notWord, .number, .orWord, .percent, .plus, .rbrace, .returnWord, .rpar,
    .semicolon, .slash, .star, .string, .trueWord, .whileWord]

def afterElseIf : List Terminal :=
  [.endOfInput, .breakWord, .continueWord, .elseWord, .falseWord, .fnWord, .forWord, .ident,
    .ifWord, .loopWord, .lpar, .minus, .nilWord, .notWord, .number, .rbrace, .returnWord, .string,
    .trueWord, .whileWord]

def afterListItem : List Terminal :=
  [.comma, .rpar]

/-- The moves on the first token of an operand. -/
def operandShifts (ident : Nat) : List (Terminal × Nat) :=
  [(.falseWord, 3), (.fnWord, 4), (.ident, ident), (.lpar, 9), (.minus, 10), (.nilWord, 11),
    (.notWord, 12), (.number, 13), (.string, 15), (.trueWord, 16)]

/-- The levels of expressions, from the tightest, each with the state after it. -/
def levels : List (Nonterminal × Nat) :=
  [(.unary, 39), (.multiplicative, 33), (.additive, 19), (.relational, 35), (.equality, 24),
    (.logical, 31)]

/-- The moves on an operand, up to the level that leads to the given state. -/
def operandGotos (level : Nonterminal) (state : Nat) : List (Nonterminal × Nat) :=
  [(.call, 28), (.function, 29), (.primary, 34)] ++
    levels.takeWhile (·.1 != level) ++ [(level, state)]

def operandRow (level : Nonterminal) (state : Nat) : Row :=
  moves (operandShifts 47) (operandGotos level state)

def expressionRow (state : Nat) : Row := operandRow .expression state

def statementRow : Row :=
  moves
    ([(.breakWord, 1), (.continueWord, 2), (.forWord, 5), (.ifWord, 7), (.loopWord, 8),
      (.returnWord, 14), (.whileWord, 17)] ++ operandShifts 6)
    ([(.assignStatement, 20), (.assignment, 21), (.breakStatement, 22), (.continueStatement, 23),
      (.expressionStatement, 25), (.forStatement, 27), (.ifStatement, 30), (.loopStatement, 32),
      (.returnStatement, 36), (.whileStatement, 40)] ++ operandGotos .expression 26)

/-- The rows of the states, in order. -/
@[irreducible] def rows : Array Row := #[
  -- 0
  (statementRow.completing atEnd 1).adding [] [(.statements, 18), (.program, 37), (.statement, 38)],
  moves [(.semicolon, 41)] [],
  moves [(.semicolon, 42)] [],
  complete afterPrimary 53,
  moves [(.lpar, 43)] [],
  moves [(.lpar, 44)] [],
  (complete afterLeadingIdent 57).adding [(.equal, 45), (.lpar, 46)] [],
  expressionRow 48,
  moves [(.lbrace, 49)] [(.block, 50)],
  expressionRow 51,
  -- 10
  operandRow .unary 52,
  complete afterPrimary 54,
  operandRow .unary 53,
  complete afterPrimary 50,
  (expressionRow 55).adding [(.semicolon, 54)] [],
  complete afterPrimary 51,
  complete afterPrimary 52,
  expressionRow 56,
  (statementRow.completing atEnd 0).adding [] [(.statement, 57)],
  (complete afterAdditive 42).adding [(.ge, 58), (.gt, 59), (.le, 60), (.lt, 61)]
    [(.relationalTail, 62)],
  -- 20
  complete afterStatement 2,
  moves [(.semicolon, 63)] [],
  complete afterStatement 4,
  complete afterStatement 5,
  (complete afterLogical 38).adding [(.andWord, 64), (.orWord, 65)] [(.logicalTail, 66)],
  complete afterStatement 10,
  moves [(.semicolon, 67)] [],
  complete afterStatement 9,
  complete afterPrimary 55,
  complete afterPrimary 56,
  -- 30
  complete afterStatement 6,
  complete afterLogical 36,
  complete afterStatement 8,
  (complete afterMultiplicative 44).adding [(.minus, 68), (.plus, 69)] [(.additiveTail, 70)],
  complete afterPrimary 49,
  (complete afterRelational 40).adding [(.eq, 71), (.ne, 72)] [(.equalityTail, 73)],
  complete afterStatement 3,
  moves [] [],
  complete afterStatement 67,
  (complete afterUnary 46).adding [(.percent, 74), (.slash, 75), (.star, 76)]
    [(.multiplicativeTail, 77)],
  -- 40
  complete afterStatement 7,
  complete afterStatement 15,
  complete afterStatement 16,
  moves [(.ident, 78), (.rpar, 79)] [(.parameters, 80)],
  moves [(.ident, 81), (.semicolon, 82)] [(.assignment, 83)],
  expressionRow 84,
  (expressionRow 87).adding [(.rpar, 85)] [(.arguments, 86)],
  (complete afterPrimary 57).adding [(.lpar, 46)] [],
  moves [(.lbrace, 49)] [(.block, 88)],
  statementRow.adding [(.rbrace, 89)] [(.statements, 90), (.statement, 38)],
  -- 50
  complete afterStatement 24,
  moves [(.rpar, 91)] [],
  complete afterPrimary 47,
  complete afterPrimary 48,
  complete afterStatement 14,
  moves [(.semicolon, 92)] [],
  moves [(.lbrace, 49)] [(.block, 93)],
  complete afterStatement 68,
  operandRow .additive 94,
  operandRow .additive 95,
  -- 60
  operandRow .additive 96,
  operandRow .additive 97,
  (complete afterAdditive 41).adding [(.ge, 98), (.gt, 99), (.le, 100), (.lt, 101)] [],
  complete afterStatement 11,
  operandRow .equality 102,
  operandRow .equality 103,
  (complete afterLogical 37).adding [(.andWord, 104), (.orWord, 105)] [],
  complete afterStatement 33,
  operandRow .multiplicative 106,
  operandRow .multiplicative 107,
  -- 70
  (complete afterMultiplicative 43).adding [(.minus, 108), (.plus, 109)] [],
  operandRow .relational 110,
  operandRow .relational 111,
  (complete afterRelational 39).adding [(.eq, 112), (.ne, 113)] [],
  operandRow .unary 114,
  operandRow .unary 115,
  operandRow .unary 116,
  (complete afterUnary 45).adding [(.percent, 117), (.slash, 118), (.star, 119)] [],
  (complete beforeParen 66).adding [(.comma, 120)] [(.parametersTail, 121)],
  moves [(.lbrace, 49)] [(.block, 122)],
  -- 80
  moves [(.rpar, 123)] [],
  moves [(.equal, 45)] [],
  (expressionRow 125).adding [(.semicolon, 124)] [],
  moves [(.semicolon, 126)] [],
  complete afterAssignment 12,
  complete afterPrimary 60,
  moves [(.rpar, 127)] [],
  (complete beforeParen 62).adding [(.comma, 128)] [(.argumentsTail, 129)],
  (complete afterStatement 20).adding [(.elseWord, 130)]
    [(.elseIfClauses, 131), (.elseClause, 132), (.elseIfClause, 133)],
  complete afterBlock 35,
  -- 90
  statementRow.adding [(.rbrace, 134)] [(.statement, 57)],
  complete afterPrimary 58,
  complete afterStatement 13,
  complete afterStatement 23,
  complete afterMultiplicative 80,
  complete afterMultiplicative 82,
  complete afterMultiplicative 79,
  complete afterMultiplicative 81,
  operandRow .additive 135,
  operandRow .additive 136,
  -- 100
  operandRow .additive 137,
  operandRow .additive 138,
  complete afterRelational 71,
  complete afterRelational 72,
  operandRow .equality 139,
  operandRow .equality 140,
  complete afterUnary 88,
  complete afterUnary 87,
  operandRow .multiplicative 141,
  operandRow .multiplicative 142,
  -- 110
  complete afterAdditive 75,
  complete afterAdditive 76,
  operandRow .relational 143,
  operandRow .relational 144,
  complete afterPrimary 93,
  complete afterPrimary 92,
  complete afterPrimary 91,
  operandRow .unary 145,
  operandRow .unary 146,
  operandRow .unary 147,
  -- 120
  moves [(.ident, 148)] [],
  (complete beforeParen 65).adding [(.comma, 149)] [],
  complete afterPrimary 64,
  moves [(.lbrace, 49)] [(.block, 150)],
  moves [(.ident, 81), (.rpar, 151)] [(.assignment, 152)],
  moves [(.semicolon, 153)] [],
  (expressionRow 155).adding [(.semicolon, 154)] [],
  complete afterPrimary 59,
  expressionRow 156,
  (complete beforeParen 61).adding [(.comma, 157)] [],
  -- 130
  moves [(.ifWord, 158), (.lbrace, 49)] [(.block, 159)],
  (complete afterStatement 18).adding [(.elseWord, 130)] [(.elseClause, 160), (.elseIfClause, 161)],
  complete afterStatement 19,
  complete afterElseIf 69,
  complete afterBlock 34,
  complete afterMultiplicative 84,
  complete afterMultiplicative 86,
  complete afterMultiplicative 83,
  complete afterMultiplicative 85,
  complete afterRelational 73,
  -- 140
  complete afterRelational 74,
  complete afterUnary 90,
  complete afterUnary 89,
  complete afterAdditive 77,
  complete afterAdditive 78,
  complete afterPrimary 96,
  complete afterPrimary 95,
  complete afterPrimary 94,
  complete afterListItem 99,
  moves [(.ident, 162)] [],
  -- 150
  complete afterPrimary 63,
  moves [(.lbrace, 49)] [(.block, 163)],
  moves [(.rpar, 164)] [],
  moves [(.ident, 81), (.rpar, 165)] [(.assignment, 166)],
  moves [(.ident, 81), (.rpar, 167)] [(.assignment, 168)],
  moves [(.semicolon, 169)] [],
  complete afterListItem 97,
  expressionRow 170,
  expressionRow 171,
  complete afterStatement 22,
  -- 160
  complete afterStatement 17,
  complete afterElseIf 70,
  complete afterListItem 100,
  complete afterStatement 32,
  moves [(.lbrace, 49)] [(.block, 172)],
  moves [(.lbrace, 49)] [(.block, 173)],
  moves [(.rpar, 174)] [],
  moves [(.lbrace, 49)] [(.block, 175)],
  moves [(.rpar, 176)] [],
  moves [(.ident, 81), (.rpar, 177)] [(.assignment, 178)],
  -- 170
  complete afterListItem 98,
  moves [(.lbrace, 49)] [(.block, 179)],
  complete afterStatement 31,
  complete afterStatement 30,
  moves [(.lbrace, 49)] [(.block, 180)],
  complete afterStatement 28,
  moves [(.lbrace, 49)] [(.block, 181)],
  moves [(.lbrace, 49)] [(.block, 182)],
  moves [(.rpar, 183)] [],
  complete afterElseIf 21,
  -- 180
  complete afterStatement 29,
  complete afterStatement 27,
  complete afterStatement 26,
  moves [(.lbrace, 49)] [(.block, 184)],
  complete afterStatement 25]

/-- The state in which the whole input has been read. -/
def accepting : Nat := 37

inductive Action where
  | shift (state : Nat)
  | reduce (production : Production)
  | accept
  deriving DecidableEq, Repr

def action (state : Nat) (terminal : Terminal) : Option Action :=
  if state = accepting then if terminal = .endOfInput then some .accept else none
  else
    rows[state]?.bind fun row =>
      match row.shifts.lookup terminal with
      | some next => some (.shift next)
      | none => row.reduction.bind fun (follow, production) =>
          if follow.contains terminal then Grammar.productions[production]?.map .reduce else none

def goto (state : Nat) (nonterminal : Nonterminal) : Option Nat :=
  rows[state]?.bind fun row => row.gotos.lookup nonterminal

def accepts (state : Nat) (terminal : Terminal) : Bool := (action state terminal).isSome

/-- The terminals with an action in a state, by name. -/
def expected (state : Nat) : List Terminal := Terminal.byName.filter (accepts state)

end Table

end ScriptLang
