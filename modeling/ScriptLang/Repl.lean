import ScriptLang.Session

/-! # The interactive loop

Every line is a program of its own on one machine. The value of a last expression statement is
shown unless it is `nil`. Errors are reported and the loop goes on.
-/

namespace ScriptLang.Repl

/-- A machine with a second stream of output for errors. -/
structure Console where
  machine : Machine
  err : String

inductive End where
  | endOfInput
  | failed (failure : Failure)

def prompt : String := "> "

/-- Whether a program's value is that of an expression. -/
def endsInExpression : Node → Bool
  | .program body =>
    match body.getLast? with
    | some (.exprStmt _) => true
    | _ => false
  | _ => false

def echo (program : Node) (value : Value) : String :=
  if endsInExpression program && !value.isNil then value.text ++ "\n" else ""

def runLine (debug : Nat) (line : String) (console : Console) : Option Failure × Console :=
  match parse line with
  | .error error =>
    (none, { console with err := console.err ++ "Parse error: " ++ error.report line ++ "\n" })
  | .ok program =>
    match Session.runTree debug Session.globalFrame program console.machine with
    | (.done value, machine) =>
      (none, { console with machine := machine.write (echo program value) })
    | (.failed (.error error), machine) =>
      (none, { machine, err := console.err ++ "Runtime error: " ++ error.report ++ "\n" })
    | (.failed failure, machine) => (some failure, { console with machine })
    | (.unparsed _, machine) => (none, { console with machine })

/-- Reads and runs at most `rounds` lines. -/
def loop (debug : Nat) : Nat → Console → End × Console
  | 0, console => (.endOfInput, console)
  | rounds + 1, console =>
    let machine := console.machine.write prompt
    let (line, rest) := Machine.nextLine machine.input
    let console := { console with machine := { machine with input := rest } }
    if line.isEmpty then (.endOfInput, { console with machine := console.machine.write "\n" })
    else if line.all Blank.isBlank then loop debug rounds console
    else
      match runLine debug (String.ofList line) console with
      | (none, console) => loop debug rounds console
      | (some failure, console) => (.failed failure, console)

/-- Reads and runs lines until the input ends. Every round but the last takes a character of the
input at least. -/
def run (debug : Nat) (console : Console) : End × Console :=
  loop debug (console.machine.input.length + 1) console

end ScriptLang.Repl
