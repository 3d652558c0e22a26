import ScriptLang.Eval.Store
import ScriptLang.Value.Failure

/-! # The state of a run

Output, the unread part of the input and the debug log are data like the frames. A failure keeps
the state that it was reached in.
-/

namespace ScriptLang

/-- A message of the debug log with the least debug level that shows it. -/
structure LogEntry where
  level : Nat
  message : String
  deriving DecidableEq, Repr

structure Machine where
  store : Store
  closures : Nat
  out : String
  input : List Char
  log : Array LogEntry

/-- Where something is evaluated: the current frame, the debug level and the number of calls that
may still be nested. -/
structure Context where
  scope : Nat
  debug : Nat
  calls : Nat

inductive Signal where
  | normal
  | breakLoop
  | continueLoop
  | returned (value : Value)

abbrev Eval := EStateM Failure Machine

namespace Machine

/-- The machine before the first program: one frame with the built-in functions. -/
def initial (input : String) : Machine where
  store := ⟨#[⟨[], Builtin.all.map fun b => (.text b.name, .builtin b)⟩]⟩
  closures := 0
  out := ""
  input := input.toList
  log := #[]

def write (machine : Machine) (text : String) : Machine :=
  { machine with out := machine.out ++ text }

def note (machine : Machine) (debug level : Nat) (message : Unit → String) : Machine :=
  if level ≤ debug then { machine with log := machine.log.push ⟨level, message ()⟩ } else machine

/-- The next line of the input, its line feed included, and the input after it. -/
def nextLine (input : List Char) : List Char × List Char :=
  let line := input.takeWhile (· != '\n')
  match input.drop line.length with
  | [] => (line, [])
  | c :: rest => (line ++ [c], rest)

end Machine

namespace Eval

def fail {α : Type} (error : RuntimeError) : Eval α := throw (.error error)

def fault {α : Type} (fault : Fault) : Eval α := throw (.fault fault)

def ofExcept {α : Type} : Except Failure α → Eval α
  | .ok value => pure value
  | .error failure => throw failure

def note (context : Context) (level : Nat) (message : Unit → String) : Eval PUnit :=
  modify fun machine => machine.note context.debug level message

def write (text : String) : Eval PUnit := modify (·.write text)

def newFrame (parent : Nat) : Eval Nat :=
  modifyGet fun machine =>
    (machine.store.frames.size, { machine with store := machine.store.push (some parent) })

def nameOf (name : Json) : Eval Name :=
  match Name.ofJson? name with
  | some name => pure name
  | none => fault .unusable

def lookup (context : Context) (name : Json) : Eval Value := do
  let key ← nameOf name
  match (← get).store.get? context.scope key with
  | some value => pure value
  | none => fail (.undefinedVariable name.display)

def define (frame : Nat) (name : Json) (value : Value) : Eval PUnit := do
  let key ← nameOf name
  modify fun machine => { machine with store := machine.store.define frame key value }

def assign (frame : Nat) (name : Json) (value : Value) : Eval PUnit := do
  let key ← nameOf name
  modify fun machine => { machine with store := machine.store.set frame key value }

/-- A closure with a number of its own. -/
def newClosure (params : List Json) (body : Node) (scope : Nat) : Eval Value :=
  modifyGet fun machine =>
    (.closure ⟨machine.closures, params, body, scope⟩,
      { machine with closures := machine.closures + 1 })

/-- A line of the input without the line feeds and carriage returns at its end. -/
def readLine : Eval String :=
  modifyGet fun machine =>
    let (line, rest) := Machine.nextLine machine.input
    let text := (line.reverse.dropWhile fun c => c == '\r' || c == '\n').reverse
    (String.ofList text, { machine with input := rest })

end Eval

end ScriptLang
