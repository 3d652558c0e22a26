import ScriptLang.Eval.Machine
import ScriptLang.Node.Place
import ScriptLang.Parse
import ScriptLang.Value.Conversion

/-! # Evaluation

Expressions have values and statements end with signals: a jump travels outwards until a loop or
a call takes it. Evaluation is bounded by fuel, one unit for every level of nesting and for every
round of a loop, so that it always ends; more fuel never changes an answer.
-/

namespace ScriptLang

namespace Eval

/-- The kinds of nodes that are statements or expressions. -/
def handledKinds : List String :=
  ["ExprStmt", "Assign", "Block", "IfStmt", "WhileStmt", "ForStmt", "LoopStmt", "BreakStmt",
    "ContinueStmt", "ReturnStmt", "Literal", "Ident", "UnaryOp", "BinaryOp", "FuncDef", "Call"]

def statementsOf : Node → Eval (List Node)
  | .block statements => pure statements
  | _ => fault .missingPart

/-- The condition of a clause that is tried after an `if`. -/
def conditionOf : Node → Eval Node
  | .elseIf condition _ => pure condition
  | .ifStmt condition .. => pure condition
  | .whileStmt condition _ => pure condition
  | .forStmt _ condition .. => pure condition
  | _ => fault .missingPart

def clauseStatements : Node → Eval (List Node)
  | .elseIf _ body => statementsOf body
  | _ => fault .missingPart

/-- The statements of a program. A text in place of a body counts as its characters. -/
def bodyOf : Node → Eval (List Node)
  | .program body => pure body
  | .whileStmt _ body => textBody body
  | .forStmt _ _ _ body => textBody body
  | .loopStmt body => textBody body
  | .funcDef _ body => textBody body
  | _ => fault .missingPart
where
  textBody : Node → Eval (List Node)
    | .str s => pure (s.toList.map fun c => .str (String.singleton c))
    | _ => fault .unusable

def textOf (value : Value) : Eval String := ofExcept value.textOrFault

def demandText (value : Value) : Eval PUnit :=
  if value.hasText then pure () else fault .unusable

/-- Runs statements up to the first that does not end normally. -/
def sequence (run : Node → Eval Signal) : List Node → Eval Signal
  | [] => pure .normal
  | statement :: rest => do
    match ← run statement with
    | .normal => sequence run rest
    | signal => pure signal

/-- Repeats a round until it says how the loop ends. -/
def iterate (round : Eval (Option Signal)) : Nat → Eval Signal
  | 0 => throw .outOfFuel
  | fuel + 1 => do
    match ← round with
    | none => iterate round fuel
    | some signal => pure signal

/-- What the signal of a loop's body means for the loop; `next` runs before the next round. -/
def afterBody (context : Context) (keyword : String) (next : Eval PUnit) :
    Signal → Eval (Option Signal)
  | .breakLoop => do
    note context 3 fun _ => keyword ++ ": break"
    pure (some .normal)
  | .returned value => pure (some (.returned value))
  | .normal | .continueLoop => do
    next
    pure none

def clauses (context : Context) (evaluate : Node → Eval Value)
    (run : List Node → Eval Signal) (elseBlock : Node) : List Node → Eval Signal
  | [] =>
    match elseBlock with
    | .null => pure .normal
    | block => do run (← statementsOf block)
  | clause :: rest => do
    let condition ← evaluate (← conditionOf clause)
    demandText condition
    note context 3 fun _ =>
      "else if condition " ++ condition.text ++ " -> " ++ (Json.bool condition.isTruthy).inspect
    if condition.isTruthy then run (← clauseStatements clause)
    else clauses context evaluate run elseBlock rest

/-- Evaluates and then binds, in the current frame itself if `isLocal` and else wherever the name
belongs. -/
def assignment (context : Context) (isLocal : Bool) (name : Json) (value : Eval Value) :
    Eval Value := do
  let value ← value
  if isLocal then define context.scope name value else assign context.scope name value
  demandText value
  note context 2 fun _ =>
    "assign " ++ name.display ++ ": " ++ value.kindName ++ " = " ++ value.text
  pure value

/-- Whether the condition of a `for` holds; a missing one does. -/
def holds (evaluate : Node → Eval Value) : Node → Eval Bool
  | .null => pure true
  | condition => do
    let value ← evaluate condition
    pure value.isTruthy

/-- An assignment in the header of a `for`. Other nodes there have no name, some not even a
value. -/
def headerAssignment (context : Context) (isLocal : Bool) (evaluate : Node → Eval Value) :
    Node → Eval PUnit
  | .null => pure ()
  | .assign name value => do
    let _ ← assignment context isLocal name (evaluate value)
  | .returnStmt value => do
    let _ ← evaluate value
    fault .missingPart
  | .literal value _ => do
    let _ ← evaluate value.bare
    fault .missingPart
  | _ => fault .missingPart

def afterCall : Signal → Eval Value
  | .returned value => pure value
  | .normal => pure .nil
  | .breakLoop => fail (.jumpOutsideLoop "break")
  | .continueLoop => fail (.jumpOutsideLoop "continue")

def bindParams (frame : Nat) : List Json → List Value → Eval PUnit
  | name :: names, value :: values => do
    define frame name value
    bindParams frame names values
  | _, _ => pure ()

/-- Notes the call of a function. A function without a text has no such message, which matters only
where the message is shown. -/
def noteCall (context : Context) (function : Value) (depth : Nat) : Eval PUnit := do
  if 2 ≤ context.debug then demandText function
  note context 2 fun _ => "call " ++ function.text ++ " at depth " ++ Integer.text depth

def builtin (function : Builtin) (args : List Value) : Eval Value :=
  match function, args with
  | .print, _ => do
    let texts ← args.mapM textOf
    write (" ".intercalate texts ++ "\n")
    pure .nil
  | .toString, [value] => return .str (← textOf value)
  | .string, [value] => return .str (← textOf value)
  | .int, [value] => ofExcept value.toInteger
  | .float, [value] => ofExcept value.toFloat
  | .round, [value] => ofExcept value.round
  | .abs, [value] => ofExcept value.abs
  | .max, _ => ofExcept (Value.extreme "max" .ge args)
  | .min, _ => ofExcept (Value.extreme "min" .le args)
  | .input, [] => return .str (← readLine)
  | .input, [.str prompt] => do
    write prompt
    return .str (← readLine)
  | .input, [_] => fail .promptNotText
  | .input, _ => fail (.tooManyArguments "input")
  | .exit, [] => throw (.exit 0)
  | .exit, [.int code] => throw (.exit code)
  | .exit, [_] => fail .codeNotInteger
  | .exit, _ => fail (.tooManyArguments "exit")
  | _, _ => pure .nil

/-- Runs the statements of a program; the value is that of the last one. -/
def program (evaluate : Node → Eval Value) (assign : Json → Node → Eval Value)
    (run : Node → Eval Signal) : Value → List Node → Eval Value
  | result, [] => pure result
  | _, statement :: rest => do
    match statement with
    | .exprStmt expr => program evaluate assign run (← evaluate expr) rest
    | .assign name value => program evaluate assign run (← assign name value) rest
    | other =>
      match ← run other with
      | .normal => program evaluate assign run .nil rest
      | signal => afterCall signal

/-- Notes the end of a program however it ends. Too many nested calls become an error here. -/
def finishing (context : Context) (action : Eval Value) : Eval Value := fun machine =>
  let finish (machine : Machine) := machine.note context.debug 1 fun _ => "program finished"
  match action machine with
  | .ok value machine => .ok value (finish machine)
  | .error .tooDeep machine => .error (.error .recursionTooDeep) (finish machine)
  | .error failure machine => .error failure (finish machine)

mutual

def evaluate : Nat → Context → Node → Eval Value
  | 0, _, _ => throw .outOfFuel
  | fuel + 1, context, node =>
    match node with
    | .literal value _ => pure (.ofNode value)
    | .ident name => lookup context name
    | .funcDef params body => newClosure params body context.scope
    | .unary op operand => do
      let value ← evaluate fuel context operand
      ofExcept (value.unary op)
    | .binary op left right => do
      let first ← evaluate fuel context left
      match Operator.ofJson? op with
      | some .and =>
        if first.isTruthy then return .bool (← evaluate fuel context right).isTruthy
        else return .bool false
      | some .or =>
        if first.isTruthy then return .bool true
        else return .bool (← evaluate fuel context right).isTruthy
      | _ => do
        let second ← evaluate fuel context right
        ofExcept (first.binary op second)
    | .call func args => do
      let function ← evaluate fuel context func
      let values ← args.mapM (evaluate fuel context)
      call fuel context function values
    | other => fault (.notAnExpression other.kindName)

def execute : Nat → Context → Node → Eval Signal
  | 0, _, _ => throw .outOfFuel
  | fuel + 1, context, node =>
    match node with
    | .exprStmt expr => do
      let _ ← evaluate fuel context expr
      pure .normal
    | .assign name value => do
      let _ ← assignment context false name (evaluate fuel context value)
      pure .normal
    | .block statements => sequence (execute fuel context) statements
    | .ifStmt condition thenBlock elseIfs elseBlock => do
      let value ← evaluate fuel context condition
      demandText value
      note context 3 fun _ =>
        "if condition " ++ value.text ++ " -> " ++ (Json.bool value.isTruthy).inspect
      if value.isTruthy then sequence (execute fuel context) (← statementsOf thenBlock)
      else
        clauses context (evaluate fuel context) (sequence (execute fuel context)) elseBlock elseIfs
    | .whileStmt condition body =>
      iterate (do
        if (← evaluate fuel context condition).isTruthy then
          let signal ← sequence (execute fuel context) (← statementsOf body)
          afterBody context "while" (pure ()) signal
        else pure (some .normal)) fuel
    | .loopStmt body =>
      iterate (do
        let signal ← sequence (execute fuel context) (← statementsOf body)
        afterBody context "loop" (pure ()) signal) fuel
    | .forStmt init condition post body => do
      let inner := { context with scope := ← newFrame context.scope }
      headerAssignment inner true (evaluate fuel inner) init
      iterate (do
        if ← holds (evaluate fuel inner) condition then
          let signal ← sequence (execute fuel inner) (← statementsOf body)
          afterBody inner "for" (headerAssignment inner false (evaluate fuel inner) post) signal
        else pure (some .normal)) fuel
    | .breakStmt => pure .breakLoop
    | .continueStmt => pure .continueLoop
    | .returnStmt .null => pure (.returned .nil)
    | .returnStmt value => return .returned (← evaluate fuel context value)
    | other => fault (.notAStatement other.kindName)

def call : Nat → Context → Value → List Value → Eval Value
  | 0, _, _, _ => throw .outOfFuel
  | fuel + 1, context, function, args =>
    match function with
    | .builtin function =>
      if function.arity?.any (· != args.length) then
        fail (.wrongArity function.name (function.arity?.getD 0) args.length)
      else do
        note context 2 fun _ =>
          "call builtin " ++ function.name ++ " with " ++ Integer.text args.length ++ " arguments"
        match function, args with
        | .exec, [.str source] =>
          match parse source with
          | .error error => pure (.str (error.report source))
          | .ok program => run fuel { context with scope := ← newFrame context.scope } program
        | .exec, _ => fail .sourceNotText
        | _, _ => builtin function args
    | .closure closure =>
      if closure.params.length != args.length then do
        fail (.wrongArity (← textOf function) closure.params.length args.length)
      else if context.calls = 0 then throw .tooDeep
      else do
        let frame ← newFrame closure.scope
        bindParams frame closure.params args
        let depth := (← get).store.depth frame
        noteCall context function depth
        let inner : Context := ⟨frame, context.debug, context.calls - 1⟩
        let signal ← sequence (execute fuel inner) (← statementsOf closure.body)
        afterCall signal
    | other => do fail (.notCallable other.kindName (← textOf other))

/-- The value of a program. Running counts as one nested call. -/
def run : Nat → Context → Node → Eval Value
  | 0, _, _ => throw .outOfFuel
  | fuel + 1, context, root => do
    let body ← bodyOf root
    note context 1 fun _ => "run program: " ++ Integer.text body.length ++ " statements"
    finishing context <|
      if context.calls = 0 then throw .tooDeep
      else
        let inner := { context with calls := context.calls - 1 }
        program (evaluate fuel inner)
          (fun name value => assignment inner false name (evaluate fuel inner value))
          (execute fuel inner) .nil body

end

end Eval

end ScriptLang
