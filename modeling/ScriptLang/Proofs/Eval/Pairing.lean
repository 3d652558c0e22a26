import ScriptLang.Proofs.Eval.Runs

/-! # Two runs side by side

The same code is run twice, perhaps with more fuel and at another debug level. If a relation
between actions is kept by the operations one by one, then it holds between the two runs of every
part of the evaluator.
-/

namespace ScriptLang

/-- An operation on the frames and on the number of closures alone. -/
def Machine.reframe {α : Type} (change : Store → Nat → α × Store × Nat) (machine : Machine) :
    α × Machine :=
  let (result, store, closures) := change machine.store machine.closures
  (result, { machine with store, closures })

/-- A relation between the actions of two runs. -/
structure Pairing where
  first : Nat
  second : Nat
  Pairs : {α : Type} → Eval α → Eval α → Prop

namespace Pairing

variable (P : Pairing)

def other (context : Context) : Context := { context with debug := P.second }

/-- The second run has as much fuel as the first, or more if a run that is cut short says
nothing. -/
def Affords (fuel more : Nat) : Prop :=
  fuel = more ∨ fuel ≤ more ∧ ∀ {α : Type} (action : Eval α), P.Pairs (throw .outOfFuel) action

/-- Every single operation keeps to the relation. -/
structure Lawful : Prop where
  value {α : Type} {result : α} : P.Pairs (pure result) (pure result)
  failure {α : Type} {failure : Failure} : P.Pairs (throw failure : Eval α) (throw failure)
  bind {α β : Type} {action action' : Eval α} {next next' : α → Eval β} :
    P.Pairs action action' → (∀ result, P.Pairs (next result) (next' result)) →
    P.Pairs (action >>= next) (action' >>= next')
  frames {α : Type} {next next' : Machine → Eval α} :
    (∀ machine machine', machine'.store = machine.store →
      P.Pairs (next machine) (next' machine')) →
    P.Pairs (get >>= next) (get >>= next')
  reframe {α : Type} (change : Store → Nat → α × Store × Nat) :
    P.Pairs (modifyGet (Machine.reframe change)) (modifyGet (Machine.reframe change))
  write {text : String} : P.Pairs (Eval.write text) (Eval.write text)
  readLine : P.Pairs Eval.readLine Eval.readLine
  note {context : Context} {level : Nat} {message : Unit → String} : context.debug = P.first →
    P.Pairs (Eval.note context level message) (Eval.note (P.other context) level message)
  noteCall {context : Context} {function : Value} {depth : Nat} : context.debug = P.first →
    P.Pairs (Eval.noteCall context function depth) (Eval.noteCall (P.other context) function depth)
  finishing {context : Context} {action action' : Eval Value} : context.debug = P.first →
    P.Pairs action action' →
    P.Pairs (Eval.finishing context action) (Eval.finishing (P.other context) action')

variable {P} {α β : Type} {action action' : Eval α} {context : Context} {node : Node}
  {nodes : List Node} {name : Json} {value : Value} {fuel more : Nat}

theorem Affords.of_le (hle : fuel ≤ more)
    (h : ∀ {α : Type} (action : Eval α), P.Pairs (MonadExcept.throw Failure.outOfFuel) action) :
    P.Affords fuel more :=
  .inr ⟨hle, h⟩

theorem Affords.succ (h : P.Affords (fuel + 1) more) :
    ∃ less, more = less + 1 ∧ P.Affords fuel less := by
  rcases h with rfl | ⟨hle, hout⟩
  · exact ⟨fuel, rfl, .inl rfl⟩
  · obtain ⟨less, rfl⟩ := Nat.exists_eq_add_one_of_ne_zero (Nat.ne_zero_of_lt hle)
    exact ⟨less, rfl, .inr ⟨Nat.le_of_succ_le_succ hle, hout⟩⟩

namespace Lawful

variable (h : P.Lawful)
include h

omit h in
theorem ite {p : Prop} [Decidable p] {other other' : Eval α} (ha : P.Pairs action action')
    (ho : P.Pairs other other') :
    P.Pairs (if p then action else other) (if p then action' else other') := by
  split
  · exact ha
  · exact ho

theorem ofExcept {result : Except Failure α} :
    P.Pairs (Eval.ofExcept result) (Eval.ofExcept result) := by
  cases result with
  | ok value => exact h.value
  | error failure => exact h.failure

theorem nameOf : P.Pairs (Eval.nameOf name) (Eval.nameOf name) := by
  unfold Eval.nameOf
  split
  · exact h.value
  · exact h.failure

theorem demandText : P.Pairs (Eval.demandText value) (Eval.demandText value) := by
  unfold Eval.demandText
  split
  · exact h.value
  · exact h.failure

theorem textOf : P.Pairs (Eval.textOf value) (Eval.textOf value) := h.ofExcept

theorem newFrame {parent : Nat} : P.Pairs (Eval.newFrame parent) (Eval.newFrame parent) :=
  h.reframe fun store closures => (store.frames.size, store.push (some parent), closures)

theorem newClosure {params : List Json} {body : Node} {scope : Nat} :
    P.Pairs (Eval.newClosure params body scope) (Eval.newClosure params body scope) :=
  h.reframe fun store closures =>
    (Value.closure ⟨closures, params, body, scope⟩, store, closures + 1)

theorem define {frame : Nat} :
    P.Pairs (Eval.define frame name value) (Eval.define frame name value) :=
  h.bind h.nameOf fun key => h.reframe fun store closures =>
    (PUnit.unit, store.define frame key value, closures)

theorem assign {frame : Nat} :
    P.Pairs (Eval.assign frame name value) (Eval.assign frame name value) :=
  h.bind h.nameOf fun key => h.reframe fun store closures =>
    (PUnit.unit, store.set frame key value, closures)

theorem lookup : P.Pairs (Eval.lookup context name) (Eval.lookup (P.other context) name) := by
  refine h.bind h.nameOf fun key => h.frames fun machine machine' hs => ?_
  rw [hs]
  dsimp only [other]
  cases machine.store.get? context.scope key with
  | some value => exact h.value
  | none => exact h.failure

theorem statementsOf : P.Pairs (Eval.statementsOf node) (Eval.statementsOf node) := by
  unfold Eval.statementsOf
  split
  · exact h.value
  · exact h.failure

theorem conditionOf : P.Pairs (Eval.conditionOf node) (Eval.conditionOf node) := by
  cases node with
  | elseIf => exact h.value
  | ifStmt => exact h.value
  | whileStmt => exact h.value
  | forStmt => exact h.value
  | _ => exact h.failure

theorem clauseStatements :
    P.Pairs (Eval.clauseStatements node) (Eval.clauseStatements node) := by
  unfold Eval.clauseStatements
  split
  · exact h.statementsOf
  · exact h.failure

theorem textBody : P.Pairs (Eval.bodyOf.textBody node) (Eval.bodyOf.textBody node) := by
  unfold Eval.bodyOf.textBody
  split
  · exact h.value
  · exact h.failure

theorem bodyOf : P.Pairs (Eval.bodyOf node) (Eval.bodyOf node) := by
  cases node with
  | program => exact h.value
  | whileStmt => exact h.textBody
  | forStmt => exact h.textBody
  | loopStmt => exact h.textBody
  | funcDef => exact h.textBody
  | _ => exact h.failure

theorem afterCall {signal : Signal} :
    P.Pairs (Eval.afterCall signal) (Eval.afterCall signal) := by
  cases signal with
  | returned value => exact h.value
  | normal => exact h.value
  | breakLoop => exact h.failure
  | continueLoop => exact h.failure

theorem bindParams {frame : Nat} {names : List Json} {values : List Value} :
    P.Pairs (Eval.bindParams frame names values) (Eval.bindParams frame names values) := by
  induction names generalizing values with
  | nil => exact h.value
  | cons name names ih =>
    cases values with
    | nil => exact h.value
    | cons value values => exact h.bind h.define fun _ => ih

theorem mapM {act act' : α → Eval β} {items : List α}
    (ha : ∀ item, P.Pairs (act item) (act' item)) :
    P.Pairs (items.mapM act) (items.mapM act') := by
  induction items with
  | nil => exact h.value
  | cons item items ih =>
    rw [List.mapM_cons, List.mapM_cons]
    exact h.bind (ha item) fun _ => h.bind ih fun _ => h.value

theorem builtin {function : Builtin} {args : List Value} :
    P.Pairs (Eval.builtin function args) (Eval.builtin function args) := by
  unfold Eval.builtin
  split
  · exact h.bind (h.mapM fun _ => h.textOf) fun _ => h.bind h.write fun _ => h.value
  · exact h.bind h.textOf fun _ => h.value
  · exact h.bind h.textOf fun _ => h.value
  · exact h.ofExcept
  · exact h.ofExcept
  · exact h.ofExcept
  · exact h.ofExcept
  · exact h.ofExcept
  · exact h.ofExcept
  · exact h.bind h.readLine fun _ => h.value
  · exact h.bind h.write fun _ => h.bind h.readLine fun _ => h.value
  · exact h.failure
  · exact h.failure
  · exact h.failure
  · exact h.failure
  · exact h.failure
  · exact h.failure
  · exact h.value

theorem sequence {run run' : Node → Eval Signal}
    (hr : ∀ node, P.Pairs (run node) (run' node)) :
    P.Pairs (Eval.sequence run nodes) (Eval.sequence run' nodes) := by
  induction nodes with
  | nil => exact h.value
  | cons node nodes ih =>
    refine h.bind (hr node) fun signal => ?_
    split
    · exact ih
    · exact h.value

theorem program {evaluate evaluate' : Node → Eval Value} {assign assign' : Json → Node → Eval Value}
    {run run' : Node → Eval Signal} {result : Value}
    (he : ∀ node, P.Pairs (evaluate node) (evaluate' node))
    (ha : ∀ name node, P.Pairs (assign name node) (assign' name node))
    (hr : ∀ node, P.Pairs (run node) (run' node)) :
    P.Pairs (Eval.program evaluate assign run result nodes)
      (Eval.program evaluate' assign' run' result nodes) := by
  induction nodes generalizing result with
  | nil => exact h.value
  | cons node nodes ih =>
    unfold Eval.program
    split
    · exact h.bind (he _) fun _ => ih
    · exact h.bind (ha _ _) fun _ => ih
    · refine h.bind (hr _) fun signal => ?_
      split
      · exact ih
      · exact h.afterCall

theorem iterate {round round' : Eval (Option Signal)} (hr : P.Pairs round round')
    (hf : P.Affords fuel more) : P.Pairs (Eval.iterate round fuel) (Eval.iterate round' more) := by
  induction fuel generalizing more with
  | zero =>
    rcases hf with rfl | ⟨-, hout⟩
    · exact h.failure
    · exact hout _
  | succ fuel ih =>
    obtain ⟨less, rfl, hless⟩ := hf.succ
    refine h.bind hr fun result => ?_
    cases result with
    | none => exact ih hless
    | some signal => exact h.value

theorem afterBody (hd : context.debug = P.first) {keyword : String} {next next' : Eval PUnit}
    {signal : Signal} (hn : P.Pairs next next') :
    P.Pairs (Eval.afterBody context keyword next signal)
      (Eval.afterBody (P.other context) keyword next' signal) := by
  cases signal with
  | breakLoop => exact h.bind (h.note hd) fun _ => h.value
  | returned value => exact h.value
  | normal => exact h.bind hn fun _ => h.value
  | continueLoop => exact h.bind hn fun _ => h.value

theorem clauses (hd : context.debug = P.first) {evaluate evaluate' : Node → Eval Value}
    {run run' : List Node → Eval Signal} {last : Node}
    (he : ∀ node, P.Pairs (evaluate node) (evaluate' node))
    (hr : ∀ nodes, P.Pairs (run nodes) (run' nodes)) :
    P.Pairs (Eval.clauses context evaluate run last nodes)
      (Eval.clauses (P.other context) evaluate' run' last nodes) := by
  induction nodes with
  | nil =>
    unfold Eval.clauses
    split
    · exact h.value
    · exact h.bind h.statementsOf hr
  | cons clause clauses ih =>
    refine h.bind h.conditionOf fun condition => h.bind (he condition) fun value => ?_
    refine h.bind h.demandText fun _ => h.bind (h.note hd) fun _ => ?_
    split
    · exact h.bind h.clauseStatements hr
    · exact ih

theorem assignment (hd : context.debug = P.first) {isLocal : Bool} {value value' : Eval Value}
    (hv : P.Pairs value value') :
    P.Pairs (Eval.assignment context isLocal name value)
      (Eval.assignment (P.other context) isLocal name value') := by
  refine h.bind hv fun result => ?_
  have hnoted {message : Unit → String} : P.Pairs (do
      Eval.demandText result
      Eval.note context 2 message
      pure result) (do
      Eval.demandText result
      Eval.note (P.other context) 2 message
      pure result) :=
    h.bind h.demandText fun _ => h.bind (h.note hd) fun _ => h.value
  dsimp only
  split
  · exact h.bind h.define fun _ => hnoted
  · exact h.bind h.assign fun _ => hnoted

theorem headerAssignment (hd : context.debug = P.first) {isLocal : Bool}
    {evaluate evaluate' : Node → Eval Value}
    (he : ∀ node, P.Pairs (evaluate node) (evaluate' node)) :
    P.Pairs (Eval.headerAssignment context isLocal evaluate node)
      (Eval.headerAssignment (P.other context) isLocal evaluate' node) := by
  cases node with
  | null => exact h.value
  | assign name value => exact h.bind (h.assignment hd (he value)) fun _ => h.value
  | returnStmt value => exact h.bind (he value) fun _ => h.failure
  | literal value kind => exact h.bind (he value.bare) fun _ => h.failure
  | _ => exact h.failure

end Lawful

structure Paired (P : Pairing) (fuel more : Nat) : Prop where
  affords : P.Affords fuel more
  evaluate {context : Context} {node : Node} : context.debug = P.first →
    P.Pairs (Eval.evaluate fuel context node) (Eval.evaluate more (P.other context) node)
  execute {context : Context} {node : Node} : context.debug = P.first →
    P.Pairs (Eval.execute fuel context node) (Eval.execute more (P.other context) node)
  call {context : Context} {function : Value} {args : List Value} : context.debug = P.first →
    P.Pairs (Eval.call fuel context function args) (Eval.call more (P.other context) function args)
  run {context : Context} {root : Node} : context.debug = P.first →
    P.Pairs (Eval.run fuel context root) (Eval.run more (P.other context) root)

namespace Lawful

variable (h : P.Lawful) (ih : P.Paired fuel more)
include h ih

theorem round_succ {loop : Loop} (hd : context.debug = P.first) :
    P.Pairs (loop.round fuel context) (loop.round more (P.other context)) := by
  have htest : P.Pairs (loop.test fuel context) (loop.test more (P.other context)) := by
    unfold Loop.test
    split
    · exact h.bind (ih.evaluate hd) fun _ => h.value
    · exact h.value
  refine h.bind htest fun goesOn => ?_
  split
  · refine h.bind h.statementsOf fun nodes => ?_
    refine h.bind (h.sequence fun _ => ih.execute hd) fun signal => ?_
    exact h.afterBody hd (h.headerAssignment hd fun _ => ih.evaluate hd)
  · exact h.value

theorem evaluate_succ (hd : context.debug = P.first) :
    P.Pairs (Eval.evaluate (fuel + 1) context node)
      (Eval.evaluate (more + 1) (P.other context) node) := by
  cases node with
  | literal value kind => exact h.value
  | ident name => exact h.lookup
  | funcDef params body => exact h.newClosure
  | unary op operand => exact h.bind (ih.evaluate hd) fun _ => h.ofExcept
  | binary op left right =>
    refine h.bind (ih.evaluate hd) fun first => ?_
    split
    · split
      · exact h.bind (ih.evaluate hd) fun _ => h.value
      · exact h.value
    · split
      · exact h.value
      · exact h.bind (ih.evaluate hd) fun _ => h.value
    · exact h.bind (ih.evaluate hd) fun _ => h.ofExcept
  | call func args =>
    refine h.bind (ih.evaluate hd) fun function => ?_
    exact h.bind (h.mapM fun _ => ih.evaluate hd) fun values => ih.call hd
  | _ => exact h.failure

theorem execute_succ (hd : context.debug = P.first) :
    P.Pairs (Eval.execute (fuel + 1) context node)
      (Eval.execute (more + 1) (P.other context) node) := by
  cases node with
  | exprStmt expr => exact h.bind (ih.evaluate hd) fun _ => h.value
  | assign name value => exact h.bind (h.assignment hd (ih.evaluate hd)) fun _ => h.value
  | block statements => exact h.sequence fun _ => ih.execute hd
  | ifStmt condition body clauses last =>
    refine h.bind (ih.evaluate hd) fun value => ?_
    refine h.bind h.demandText fun _ => h.bind (h.note hd) fun _ => ?_
    have hsequence (nodes : List Node) : P.Pairs (Eval.sequence (Eval.execute fuel context) nodes)
        (Eval.sequence (Eval.execute more (P.other context)) nodes) :=
      h.sequence fun _ => ih.execute hd
    split
    · exact h.bind h.statementsOf hsequence
    · exact h.clauses hd (fun _ => ih.evaluate hd) hsequence
  | whileStmt condition body =>
    rw [Loop.execute_whileStmt, Loop.execute_whileStmt]
    exact h.iterate (h.round_succ ih hd) ih.affords
  | loopStmt body =>
    rw [Loop.execute_loopStmt, Loop.execute_loopStmt]
    exact h.iterate (h.round_succ ih hd) ih.affords
  | forStmt init condition post body =>
    rw [execute_forStmt, execute_forStmt]
    refine h.bind h.newFrame fun frame => ?_
    have hinner : ({ context with scope := frame } : Context).debug = P.first := hd
    refine h.bind (h.headerAssignment hinner fun _ => ih.evaluate hinner) fun _ => ?_
    exact h.iterate (h.round_succ ih hinner) ih.affords
  | breakStmt => exact h.value
  | continueStmt => exact h.value
  | returnStmt value =>
    cases value with
    | null => exact h.value
    | _ => exact h.bind (ih.evaluate hd) fun _ => h.value
  | _ => exact h.failure

theorem call_succ {function : Value} {args : List Value} (hd : context.debug = P.first) :
    P.Pairs (Eval.call (fuel + 1) context function args)
      (Eval.call (more + 1) (P.other context) function args) := by
  cases function with
  | builtin function =>
    unfold Eval.call
    dsimp only
    split
    · exact h.failure
    · refine h.bind (h.note hd) fun _ => ?_
      split
      · split
        · exact h.value
        · exact h.bind h.newFrame fun frame => ih.run hd
      · exact h.failure
      · exact h.builtin
  | closure closure =>
    unfold Eval.call
    dsimp only
    split
    · exact h.bind h.textOf fun _ => h.failure
    · refine ite h.failure ?_
      refine h.bind h.newFrame fun frame => h.bind h.bindParams fun _ => ?_
      refine h.frames fun machine machine' hs => ?_
      rw [hs]
      have hinner : (⟨frame, context.debug, context.calls - 1⟩ : Context).debug = P.first := hd
      refine h.bind (h.noteCall hd) fun _ => h.bind h.statementsOf fun nodes => ?_
      exact h.bind (h.sequence fun _ => ih.execute hinner) fun _ => h.afterCall
  | _ => exact h.bind h.textOf fun _ => h.failure

theorem run_succ {root : Node} (hd : context.debug = P.first) :
    P.Pairs (Eval.run (fuel + 1) context root) (Eval.run (more + 1) (P.other context) root) := by
  refine h.bind h.bodyOf fun nodes => h.bind (h.note hd) fun _ => ?_
  refine h.finishing hd (ite h.failure ?_)
  have hinner : ({ context with calls := context.calls - 1 } : Context).debug = P.first := hd
  exact h.program (fun _ => ih.evaluate hinner)
    (fun _ _ => h.assignment hinner (ih.evaluate hinner)) fun _ => ih.execute hinner

omit ih in
/-- The two runs of any part of the evaluator are related. -/
theorem paired (hf : P.Affords fuel more) : P.Paired fuel more := by
  induction fuel generalizing more with
  | zero =>
    have hout {α : Type} {action : Eval α} (ha : more = 0 → action = throw .outOfFuel) :
        P.Pairs (MonadExcept.throw Failure.outOfFuel) action := by
      rcases hf with rfl | ⟨-, hout⟩
      · rw [ha rfl]
        exact h.failure
      · exact hout action
    refine ⟨hf, fun _ => hout ?_, fun _ => hout ?_, fun _ => hout ?_, fun _ => hout ?_⟩
    all_goals
      rintro rfl
      rfl
  | succ fuel ih =>
    obtain ⟨less, rfl, hless⟩ := hf.succ
    have ih := ih hless
    exact ⟨hf, h.evaluate_succ ih, h.execute_succ ih, h.call_succ ih, h.run_succ ih⟩

end Lawful

end Pairing

end ScriptLang
