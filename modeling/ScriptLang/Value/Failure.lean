import ScriptLang.Number.Integer

/-! # Failures of a run

Errors are part of the language and are reported to its users. Faults are not: they come from
malformed trees and from the few operations that have no result and no error either.
-/

namespace ScriptLang

/-- An error of the language. -/
inductive RuntimeError where
  | undefinedVariable (name : String)
  | unsupportedOperands (operator left right : String)
  | unsupportedComparison (operator left right : String)
  | negatedNonNumber (kind : String)
  | unknownUnary (operator : String)
  | unknownOperator (operator : String)
  | divisionByZero
  | moduloByZero
  | integerOverflow (value : Int)
  | notFinite (function text : String)
  | notConvertible (function kind : String)
  | roundedNonNumber (kind : String)
  | comparedNonNumber (function kind : String)
  | wrongArity (callee : String) (expected actual : Nat)
  | tooFewArguments (function : String)
  | tooManyArguments (function : String)
  | promptNotText
  | codeNotInteger
  | sourceNotText
  | notCallable (kind text : String)
  | jumpOutsideLoop (keyword : String)
  | recursionTooDeep
  deriving DecidableEq, Repr

namespace RuntimeError

def kind : RuntimeError → String
  | undefinedVariable _ => "NameError"
  | divisionByZero | moduloByZero => "ZeroDivisionError"
  | integerOverflow _ | notFinite .. => "OverflowError"
  | wrongArity .. | tooFewArguments _ | tooManyArguments _ => "ArityError"
  | jumpOutsideLoop _ => "ControlFlowError"
  | recursionTooDeep => "RecursionError"
  | _ => "TypeError"

def message : RuntimeError → String
  | undefinedVariable name => "undefined variable " ++ name
  | unsupportedOperands operator left right =>
    "unsupported " ++ operator ++ " for " ++ left ++ " and " ++ right
  | unsupportedComparison operator left right =>
    "comparison " ++ operator ++ " not supported for " ++ left ++ " and " ++ right
  | negatedNonNumber kind => "unary - expects a number, got " ++ kind
  | unknownUnary operator => "unsupported unary operator " ++ operator
  | unknownOperator operator => "unknown operator " ++ operator
  | divisionByZero => "division by zero"
  | moduloByZero => "modulo by zero"
  | integerOverflow value => "integer overflow: " ++ Integer.text value
  | notFinite function text => function ++ "() cannot convert " ++ text ++ " to Integer"
  | notConvertible function kind => function ++ "() cannot convert " ++ kind
  | roundedNonNumber kind => "round() expects a number, got " ++ kind
  | comparedNonNumber function kind => function ++ "() expects numbers, got " ++ kind
  | wrongArity callee expected actual =>
    callee ++ " expects " ++ Integer.text expected ++ " arguments, got " ++ Integer.text actual
  | tooFewArguments function => function ++ " expects at least 2 arguments"
  | tooManyArguments function => function ++ " expects at most 1 argument"
  | promptNotText => "input prompt must be a String"
  | codeNotInteger => "exit code must be an Integer"
  | sourceNotText => "exec expects a String"
  | notCallable kind text => kind ++ " value " ++ text ++ " is not callable"
  | jumpOutsideLoop keyword => keyword ++ " outside loop"
  | recursionTooDeep => "maximum recursion depth exceeded"

def report (error : RuntimeError) : String := error.kind ++ ": " ++ error.message

end RuntimeError

/-- A failure that the language has no error for. -/
inductive Fault where
  | remainderUndefined
  | integerTextTooLong (digits : Nat)
  | integerTooLong
  | tooLargeForFloat
  | notAStatement (kind : String)
  | notAnExpression (kind : String)
  | missingPart
  | unusable
  deriving DecidableEq, Repr

/-- How a run ends without a value. -/
inductive Failure where
  | error (error : RuntimeError)
  | fault (fault : Fault)
  | exit (code : Int)
  | tooDeep
  | outOfFuel
  deriving DecidableEq, Repr

end ScriptLang
