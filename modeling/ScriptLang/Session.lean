import ScriptLang.Eval.Evaluator

/-! # Sessions

Programs that run one after another on one machine. A program that is not parsed changes nothing.
-/

namespace ScriptLang

inductive Outcome (α : Type) where
  | done (result : α)
  | unparsed (error : ParseError)
  | failed (failure : Failure)

namespace Session

/-- The number of calls that may be nested. It stands for the recursion limit of the host, 10000
frames of its stack, and is no bound of the language itself. -/
def callLimit : Nat := 1000

/-- More fuel than any run that ends within a lifetime needs. -/
def fuel : Nat := 1000000000000000

/-- The outermost frame, which holds the built-in functions. -/
def globalFrame : Nat := 0

def context (debug frame : Nat) : Context := ⟨frame, debug, callLimit⟩

def perform {α : Type} (action : Eval α) (machine : Machine) : Outcome α × Machine :=
  match action machine with
  | .ok value machine => (.done value, machine)
  | .error failure machine => (.failed failure, machine)

def runTree (debug frame : Nat) (root : Node) : Machine → Outcome Value × Machine :=
  perform (Eval.run fuel (context debug frame) root)

def runSource (debug frame : Nat) (source : String) (machine : Machine) :
    Outcome Value × Machine :=
  match parse source with
  | .error error => (.unparsed error, machine)
  | .ok program => runTree debug frame program machine

/-- Executes one node as a statement of the outermost frame. -/
def executeNode (debug : Nat) (node : Node) : Machine → Outcome Signal × Machine :=
  perform (Eval.execute fuel (context debug globalFrame) node)

def callValue (debug : Nat) (function : Value) (args : List Value) :
    Machine → Outcome Value × Machine :=
  perform (Eval.call fuel (context debug globalFrame) function args)

/-- The variables of the outermost frame, without the built-in functions in their own places. -/
def globals (machine : Machine) : List (Name × Value) :=
  match machine.store.frames[globalFrame]? with
  | none => []
  | some frame =>
    frame.bindings.filter fun
      | (.text name, .builtin function) => function.name != name
      | _ => true

end Session

/-- A text as it is read from a file: carriage returns, alone or before a line feed, end lines. -/
def universalLines : List Char → List Char
  | [] => []
  | '\r' :: '\n' :: rest => '\n' :: universalLines rest
  | '\r' :: rest => '\n' :: universalLines rest
  | c :: rest => c :: universalLines rest

end ScriptLang
