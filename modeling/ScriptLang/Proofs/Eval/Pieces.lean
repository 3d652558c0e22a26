import ScriptLang.Proofs.Eval.Runs

/-! # The pieces of a run

A run is made of pieces, down to the evaluation of single nodes. Each piece starts on the machine
that the pieces before it have left. From a good store, all pieces of a disciplined run start and
end in good stores.
-/

namespace ScriptLang

/-- A piece of a run: a part of the evaluator at work. -/
inductive Piece where
  | evaluate (fuel : Nat) (context : Context) (node : Node)
  | arguments (fuel : Nat) (context : Context) (nodes : List Node)
  | execute (fuel : Nat) (context : Context) (node : Node)
  | sequence (fuel : Nat) (context : Context) (nodes : List Node)
  | clauses (fuel : Nat) (context : Context) (last : Node) (nodes : List Node)
  | header (fuel : Nat) (context : Context) (isLocal : Bool) (node : Node)
  | rounds (fuel : Nat) (context : Context) (loop : Loop) (count : Nat)
  | call (fuel : Nat) (context : Context) (function : Value) (args : List Value)
  | bind (frame : Nat) (names : List Json) (values : List Value)
  | run (fuel : Nat) (context : Context) (root : Node)
  | program (fuel : Nat) (context : Context) (result : Value) (nodes : List Node)

def Signal.values : Signal → List Value
  | .returned value => [value]
  | _ => []

/-- The values that a piece ends with: of an expression its value, of a statement the value that it
returns. -/
def Piece.perform : Piece → Eval (List Value)
  | evaluate fuel context node => return [← Eval.evaluate fuel context node]
  | arguments fuel context nodes => nodes.mapM (Eval.evaluate fuel context)
  | execute fuel context node => return (← Eval.execute fuel context node).values
  | sequence fuel context nodes =>
    return (← Eval.sequence (Eval.execute fuel context) nodes).values
  | clauses fuel context last nodes =>
    return (← Eval.clauses context (Eval.evaluate fuel context)
      (Eval.sequence (Eval.execute fuel context)) last nodes).values
  | header fuel context isLocal node => do
    Eval.headerAssignment context isLocal (Eval.evaluate fuel context) node
    return []
  | rounds fuel context loop count =>
    return (← Eval.iterate (loop.round fuel context) count).values
  | call fuel context function args => return [← Eval.call fuel context function args]
  | bind frame names values => do
    Eval.bindParams frame names values
    return []
  | run fuel context root => return [← Eval.run fuel context root]
  | program fuel context result nodes =>
    return [← Eval.program (Eval.evaluate fuel context)
      (fun name value => Eval.assignment context false name (Eval.evaluate fuel context value))
      (Eval.execute fuel context) result nodes]

def Piece.leave (piece : Piece) (machine : Machine) : Machine :=
  match piece.perform machine with
  | .ok _ after => after
  | .error _ after => after

def Machine.enter (machine : Machine) (parent : Nat) : Machine :=
  { machine with store := machine.store.push (some parent) }

/-- Whether an operator looks at its second operand. -/
def Operator.needsBoth (op : Json) (first : Value) : Bool :=
  match ofJson? op with
  | some .and => first.isTruthy
  | some .or => !first.isTruthy
  | _ => true

open Piece in
/-- The pieces that a piece starts itself, and on which machines. The messages of the log are left
open. -/
inductive Starts : Piece → Machine → Piece → Machine → Prop where
  | operand {fuel context machine op operand} :
      Starts (evaluate (fuel + 1) context (.unary op operand)) machine
        (evaluate fuel context operand) machine
  | left {fuel context machine op left right} :
      Starts (evaluate (fuel + 1) context (.binary op left right)) machine
        (evaluate fuel context left) machine
  | right {fuel context machine op left right value after} :
      Eval.evaluate fuel context left machine = .ok value after →
      Operator.needsBoth op value = true →
      Starts (evaluate (fuel + 1) context (.binary op left right)) machine
        (evaluate fuel context right) after
  | callee {fuel context machine func args} :
      Starts (evaluate (fuel + 1) context (.call func args)) machine
        (evaluate fuel context func) machine
  | arguments {fuel context machine func args function after} :
      Eval.evaluate fuel context func machine = .ok function after →
      Starts (evaluate (fuel + 1) context (.call func args)) machine
        (arguments fuel context args) after
  | call {fuel context machine func args function after values later} :
      Eval.evaluate fuel context func machine = .ok function after →
      args.mapM (Eval.evaluate fuel context) after = .ok values later →
      Starts (evaluate (fuel + 1) context (.call func args)) machine
        (call fuel context function values) later
  | argument {fuel context machine node nodes} :
      Starts (arguments fuel context (node :: nodes)) machine (evaluate fuel context node) machine
  | moreArguments {fuel context machine node nodes value after} :
      Eval.evaluate fuel context node machine = .ok value after →
      Starts (arguments fuel context (node :: nodes)) machine (arguments fuel context nodes) after
  | exprStmt {fuel context machine expr} :
      Starts (execute (fuel + 1) context (.exprStmt expr)) machine
        (evaluate fuel context expr) machine
  | assigned {fuel context machine name value} :
      Starts (execute (fuel + 1) context (.assign name value)) machine
        (evaluate fuel context value) machine
  | returned {fuel context machine value} : value ≠ .null →
      Starts (execute (fuel + 1) context (.returnStmt value)) machine
        (evaluate fuel context value) machine
  | block {fuel context machine nodes} :
      Starts (execute (fuel + 1) context (.block nodes)) machine
        (sequence fuel context nodes) machine
  | statement {fuel context machine node nodes} :
      Starts (sequence fuel context (node :: nodes)) machine (execute fuel context node) machine
  | moreStatements {fuel context machine node nodes after} :
      Eval.execute fuel context node machine = .ok .normal after →
      Starts (sequence fuel context (node :: nodes)) machine (sequence fuel context nodes) after
  | condition {fuel context machine condition body clauses last} :
      Starts (execute (fuel + 1) context (.ifStmt condition body clauses last)) machine
        (evaluate fuel context condition) machine
  | thenBlock {fuel context machine condition nodes clauses last value after message} :
      Eval.evaluate fuel context condition machine = .ok value after → value.isTruthy = true →
      Starts (execute (fuel + 1) context (.ifStmt condition (.block nodes) clauses last)) machine
        (sequence fuel context nodes) (after.note context.debug 3 message)
  | otherwise {fuel context machine condition body nodes last value after message} :
      Eval.evaluate fuel context condition machine = .ok value after → value.isTruthy = false →
      Starts (execute (fuel + 1) context (.ifStmt condition body nodes last)) machine
        (clauses fuel context last nodes) (after.note context.debug 3 message)
  | lastBlock {fuel context machine nodes} :
      Starts (clauses fuel context (.block nodes) []) machine (sequence fuel context nodes) machine
  | clause {fuel context machine last clause nodes condition} :
      Eval.conditionOf clause machine = .ok condition machine →
      Starts (clauses fuel context last (clause :: nodes)) machine
        (evaluate fuel context condition) machine
  | clauseBlock {fuel context machine last condition body nodes value after message} :
      Eval.evaluate fuel context condition machine = .ok value after → value.isTruthy = true →
      Starts (clauses fuel context last (.elseIf condition (.block body) :: nodes)) machine
        (sequence fuel context body) (after.note context.debug 3 message)
  | moreClauses {fuel context machine last clause nodes condition value after message} :
      Eval.conditionOf clause machine = .ok condition machine →
      Eval.evaluate fuel context condition machine = .ok value after → value.isTruthy = false →
      Starts (clauses fuel context last (clause :: nodes)) machine
        (clauses fuel context last nodes) (after.note context.debug 3 message)
  | whileStmt {fuel context machine condition body} :
      Starts (execute (fuel + 1) context (.whileStmt condition body)) machine
        (rounds fuel context (.whileLoop condition body) fuel) machine
  | loopStmt {fuel context machine body} :
      Starts (execute (fuel + 1) context (.loopStmt body)) machine
        (rounds fuel context (.endless body) fuel) machine
  | init {fuel machine init condition post body} {context : Context} :
      Starts (execute (fuel + 1) context (.forStmt init condition post body)) machine
        (header fuel { context with scope := machine.store.frames.size } true init)
        (machine.enter context.scope)
  | forStmt {fuel machine init condition post body after} {context : Context} :
      Eval.headerAssignment { context with scope := machine.store.frames.size } true
        (Eval.evaluate fuel { context with scope := machine.store.frames.size }) init
        (machine.enter context.scope) = .ok () after →
      Starts (execute (fuel + 1) context (.forStmt init condition post body)) machine
        (rounds fuel { context with scope := machine.store.frames.size }
          (.forLoop condition post body) fuel) after
  | headerValue {fuel context machine isLocal name value} :
      Starts (header fuel context isLocal (.assign name value)) machine
        (evaluate fuel context value) machine
  | headerReturn {fuel context machine isLocal value} :
      Starts (header fuel context isLocal (.returnStmt value)) machine
        (evaluate fuel context value) machine
  | headerLiteral {fuel context machine isLocal value kind} :
      Starts (header fuel context isLocal (.literal value kind)) machine
        (evaluate fuel context value.bare) machine
  | test {fuel context machine loop condition count} :
      Loop.condition? loop = some condition →
      Starts (rounds fuel context loop (count + 1)) machine
        (evaluate fuel context condition) machine
  | body {fuel context machine loop nodes count after} :
      Loop.test fuel context loop machine = .ok true after → loop.body = .block nodes →
      Starts (rounds fuel context loop (count + 1)) machine (sequence fuel context nodes) after
  | post {fuel context machine loop nodes count after signal later} :
      Loop.test fuel context loop machine = .ok true after → loop.body = .block nodes →
      Eval.sequence (Eval.execute fuel context) nodes after = .ok signal later →
      signal = .normal ∨ signal = .continueLoop →
      Starts (rounds fuel context loop (count + 1)) machine
        (header fuel context false loop.post) later
  | again {fuel context machine loop count after} :
      Loop.round fuel context loop machine = .ok none after →
      Starts (rounds fuel context loop (count + 1)) machine (rounds fuel context loop count) after
  | exec {fuel machine source root message} {context : Context} : parse source = .ok root →
      Starts (call (fuel + 1) context (.builtin .exec) [.str source]) machine
        (run fuel { context with scope := machine.store.frames.size } root)
        ((machine.note context.debug 2 message).enter context.scope)
  | bind {fuel machine args} {context : Context} {closure : Closure} :
      closure.params.length = args.length → context.calls ≠ 0 →
      Starts (call (fuel + 1) context (.closure closure) args) machine
        (bind machine.store.frames.size closure.params args) (machine.enter closure.scope)
  | called {fuel machine args nodes after message} {context : Context} {closure : Closure} :
      closure.params.length = args.length → context.calls ≠ 0 →
      Eval.bindParams machine.store.frames.size closure.params args
        (machine.enter closure.scope) = .ok () after →
      closure.body = .block nodes →
      Starts (call (fuel + 1) context (.closure closure) args) machine
        (sequence fuel ⟨machine.store.frames.size, context.debug, context.calls - 1⟩ nodes)
        (after.note context.debug 2 message)
  | moreParams {frame machine name names value values after} :
      Eval.define frame name value machine = .ok () after →
      Starts (bind frame (name :: names) (value :: values)) machine (bind frame names values) after
  | program {fuel machine root nodes message} {context : Context} :
      Eval.bodyOf root machine = .ok nodes machine → context.calls ≠ 0 →
      Starts (run (fuel + 1) context root) machine
        (program fuel { context with calls := context.calls - 1 } .nil nodes)
        (machine.note context.debug 1 message)
  | topExpr {fuel context machine result expr nodes} :
      Starts (program fuel context result (.exprStmt expr :: nodes)) machine
        (evaluate fuel context expr) machine
  | topAssigned {fuel context machine result name value nodes} :
      Starts (program fuel context result (.assign name value :: nodes)) machine
        (evaluate fuel context value) machine
  | topStatement {fuel context machine result node nodes} :
      (∀ expr, node ≠ .exprStmt expr) → (∀ name value, node ≠ .assign name value) →
      Starts (program fuel context result (node :: nodes)) machine
        (execute fuel context node) machine
  | afterExpr {fuel context machine result expr nodes value after} :
      Eval.evaluate fuel context expr machine = .ok value after →
      Starts (program fuel context result (.exprStmt expr :: nodes)) machine
        (program fuel context value nodes) after
  | afterAssigned {fuel context machine result name node nodes value after} :
      Eval.assignment context false name (Eval.evaluate fuel context node) machine =
        .ok value after →
      Starts (program fuel context result (.assign name node :: nodes)) machine
        (program fuel context value nodes) after
  | afterStatement {fuel context machine result node nodes after} :
      (∀ expr, node ≠ .exprStmt expr) → (∀ name value, node ≠ .assign name value) →
      Eval.execute fuel context node machine = .ok .normal after →
      Starts (program fuel context result (node :: nodes)) machine
        (program fuel context .nil nodes) after

/-- The pieces that are started in the course of a piece, it among them. -/
inductive Within (piece : Piece) (machine : Machine) : Piece → Machine → Prop where
  | self : Within piece machine piece machine
  | step {inner last : Piece} {during after : Machine} : Within piece machine inner during →
      Starts inner during last after → Within piece machine last after

namespace Discipline

def Starting (D : Discipline) : Piece → Prop
  | .evaluate _ context node => D.Scope context.scope ∧ D.Expr node
  | .arguments _ context nodes => D.Scope context.scope ∧ ∀ node ∈ nodes, D.Expr node
  | .execute _ context node => D.Home context.scope ∧ D.Stmt node
  | .sequence _ context nodes => D.Home context.scope ∧ ∀ node ∈ nodes, D.Stmt node
  | .clauses _ context last nodes =>
    D.Home context.scope ∧ (last ≠ .null → D.Body last) ∧ ∀ node ∈ nodes, D.Clause node
  | .header _ context _ node => D.Home context.scope ∧ D.Header node
  | .rounds _ context loop _ => D.Home context.scope ∧ D.Rounds loop
  | .call _ context function args =>
    D.Scope context.scope ∧ D.Holds function ∧ ∀ value ∈ args, D.Holds value
  | .bind frame names values =>
    D.Home frame ∧ (∀ name ∈ names, D.Names name) ∧ ∀ value ∈ values, D.Holds value
  | .run _ context root => D.Home context.scope ∧ D.Root root
  | .program _ context result nodes =>
    D.Home context.scope ∧ D.Holds result ∧ ∀ node ∈ nodes, D.Stmt node

variable {D : Discipline} {α : Type} {Q : α → Prop} {machine after : Machine}

theorem values_of_carries {signal : Signal} (h : D.Carries signal) :
    ∀ value ∈ signal.values, D.Holds value := by
  cases signal with
  | returned value => exact List.forall_mem_singleton.mpr h
  | _ => exact nofun

theorem Keeps.one {action : Eval Value} (h : D.Keeps action D.Holds) :
    D.Keeps (do return [← action]) fun values => ∀ value ∈ values, D.Holds value :=
  h.bind fun _ hv => .pure (List.forall_mem_singleton.mpr hv)

theorem Keeps.values {action : Eval Signal} (h : D.Keeps action D.Carries) :
    D.Keeps (do return (← action).values) fun values => ∀ value ∈ values, D.Holds value :=
  h.bind fun _ hc => .pure (values_of_carries hc)

theorem Keeps.none {action : Eval PUnit} (h : D.Keeps action fun _ => True) :
    D.Keeps (do action; return []) fun values => ∀ value ∈ values, D.Holds value :=
  h.bind fun _ _ => .pure nofun

theorem Lawful.perform (h : D.Lawful) {piece : Piece} (ht : D.Starting piece) :
    D.Keeps piece.perform fun values => ∀ value ∈ values, D.Holds value := by
  cases piece with
  | evaluate fuel context node => exact .one ((h.kept fuel).evaluate ht.1 ht.2)
  | arguments fuel context nodes => exact (h.kept fuel).arguments ht.1 ht.2
  | execute fuel context node => exact .values ((h.kept fuel).execute ht.1 ht.2)
  | sequence fuel context nodes => exact .values ((h.kept fuel).sequence ht.1 ht.2)
  | clauses fuel context last nodes =>
    exact .values (keeps_clauses (fun _ => (h.kept fuel).evaluate (h.scope_of_home ht.1))
      (fun _ => (h.kept fuel).sequence ht.1) ht.2.1 ht.2.2)
  | header fuel context isLocal node => exact .none (h.header_succ (h.kept fuel) ht.1 ht.2)
  | rounds fuel context loop count =>
    exact .values (h.keeps_iterate (h.round_succ (h.kept fuel) ht.1 ht.2) count)
  | call fuel context function args => exact .one ((h.kept fuel).call ht.1 ht.2.1 ht.2.2)
  | bind frame names values => exact .none (h.keeps_bindParams ht.1 ht.2.1 ht.2.2)
  | run fuel context root => exact .one ((h.kept fuel).run ht.1 ht.2)
  | program fuel context result nodes =>
    exact .one (h.program_succ (h.kept fuel) ht.1 ht.2.1 ht.2.2)

theorem Ends.good_leave {piece : Piece} {Q : List Value → Prop}
    (h : D.Ends Q (piece.perform machine)) : D.Good (piece.leave machine).store := by
  unfold Piece.leave
  cases hr : piece.perform machine with
  | ok values after =>
    rw [hr] at h
    exact h.1
  | error failure after =>
    rw [hr] at h
    exact h.1

theorem Keeps.of_ok {action : Eval α} {result : α} (h : D.Keeps action Q)
    (hg : D.Good machine.store) (hr : action machine = .ok result after) :
    D.Good after.store ∧ Q result := by
  have he := h machine hg
  rw [hr] at he
  exact he

theorem Lawful.evaluated (h : D.Lawful) {fuel : Nat} {context : Context} {node : Node}
    {value : Value} (hs : D.Scope context.scope) (hn : D.Expr node) (hg : D.Good machine.store)
    (hr : Eval.evaluate fuel context node machine = .ok value after) :
    D.Good after.store ∧ D.Holds value :=
  ((h.kept fuel).evaluate hs hn).of_ok hg hr

theorem store_note {debug level : Nat} {message : Unit → String} :
    (machine.note debug level message).store = machine.store := by
  unfold Machine.note
  split <;> rfl

theorem good_note {debug level : Nat} {message : Unit → String} (h : D.Good machine.store) :
    D.Good (machine.note debug level message).store :=
  store_note.symm ▸ h

/-- What a piece starts may be started, on a good store. -/
theorem Lawful.starts (h : D.Lawful) {piece inner : Piece} {later : Machine}
    (hs : Starts piece machine inner later) (hp : D.Starting piece) (hg : D.Good machine.store) :
    D.Starting inner ∧ D.Good later.store := by
  cases hs with
  | operand => exact ⟨⟨hp.1, (h.expr hp.2).1⟩, hg⟩
  | left => exact ⟨⟨hp.1, (h.expr hp.2).1⟩, hg⟩
  | right hr =>
    obtain ⟨hleft, hright, -⟩ := h.expr hp.2
    exact ⟨⟨hp.1, hright⟩, (h.evaluated hp.1 hleft hg hr).1⟩
  | callee => exact ⟨⟨hp.1, (h.expr hp.2).1⟩, hg⟩
  | arguments hr =>
    obtain ⟨hfunc, hargs⟩ := h.expr hp.2
    exact ⟨⟨hp.1, hargs⟩, (h.evaluated hp.1 hfunc hg hr).1⟩
  | call hr hr' =>
    obtain ⟨hfunc, hargs⟩ := h.expr hp.2
    obtain ⟨hg, hf⟩ := h.evaluated hp.1 hfunc hg hr
    obtain ⟨hg, hv⟩ := ((h.kept _).arguments hp.1 hargs).of_ok hg hr'
    exact ⟨⟨hp.1, hf, hv⟩, hg⟩
  | argument => exact ⟨⟨hp.1, hp.2 _ List.mem_cons_self⟩, hg⟩
  | moreArguments hr =>
    obtain ⟨hnode, hnodes⟩ := List.forall_mem_cons.mp hp.2
    exact ⟨⟨hp.1, hnodes⟩, (h.evaluated hp.1 hnode hg hr).1⟩
  | exprStmt => exact ⟨⟨h.scope_of_home hp.1, h.stmt hp.2⟩, hg⟩
  | assigned => exact ⟨⟨h.scope_of_home hp.1, (h.stmt hp.2).2⟩, hg⟩
  | returned hn => exact ⟨⟨h.scope_of_home hp.1, h.stmt hp.2 hn⟩, hg⟩
  | block => exact ⟨⟨hp.1, h.stmt hp.2⟩, hg⟩
  | statement => exact ⟨⟨hp.1, hp.2 _ List.mem_cons_self⟩, hg⟩
  | moreStatements hr =>
    obtain ⟨hnode, hnodes⟩ := List.forall_mem_cons.mp hp.2
    exact ⟨⟨hp.1, hnodes⟩, (((h.kept _).execute hp.1 hnode).of_ok hg hr).1⟩
  | condition => exact ⟨⟨h.scope_of_home hp.1, (h.stmt hp.2).1⟩, hg⟩
  | thenBlock hr =>
    obtain ⟨hcond, hbody, -⟩ := h.stmt hp.2
    exact ⟨⟨hp.1, hbody⟩, good_note (h.evaluated (h.scope_of_home hp.1) hcond hg hr).1⟩
  | otherwise hr =>
    obtain ⟨hcond, -, hclauses, hlast⟩ := h.stmt hp.2
    have he := h.evaluated (h.scope_of_home hp.1) hcond hg hr
    exact ⟨⟨hp.1, hlast, hclauses⟩, good_note he.1⟩
  | lastBlock => exact ⟨⟨hp.1, hp.2.1 nofun⟩, hg⟩
  | clause hc =>
    obtain ⟨hclause, -⟩ := List.forall_mem_cons.mp hp.2.2
    exact ⟨⟨h.scope_of_home hp.1, ((keeps_conditionOf hclause).of_ok hg hc).2⟩, hg⟩
  | clauseBlock hr =>
    obtain ⟨⟨hcond, hbody⟩, -⟩ := List.forall_mem_cons.mp hp.2.2
    exact ⟨⟨hp.1, hbody⟩, good_note (h.evaluated (h.scope_of_home hp.1) hcond hg hr).1⟩
  | moreClauses hc hr =>
    obtain ⟨hclause, hclauses⟩ := List.forall_mem_cons.mp hp.2.2
    have hcond := ((keeps_conditionOf hclause).of_ok hg hc).2
    have he := h.evaluated (h.scope_of_home hp.1) hcond hg hr
    exact ⟨⟨hp.1, hp.2.1, hclauses⟩, good_note he.1⟩
  | whileStmt =>
    obtain ⟨hcond, hbody⟩ := h.stmt hp.2
    exact ⟨⟨hp.1, rounds_whileLoop hcond hbody⟩, hg⟩
  | loopStmt => exact ⟨⟨hp.1, rounds_endless (h.stmt hp.2)⟩, hg⟩
  | init =>
    obtain ⟨hinit, -⟩ := h.stmt hp.2
    obtain ⟨hg, hframe⟩ := h.push hg (h.scope_of_home hp.1)
    exact ⟨⟨hframe, hinit⟩, hg⟩
  | forStmt hr =>
    obtain ⟨hinit, hcond, hpost, hbody⟩ := h.stmt hp.2
    obtain ⟨hg, hframe⟩ := h.push hg (h.scope_of_home hp.1)
    refine ⟨⟨hframe, rounds_forLoop hcond hpost hbody⟩, ?_⟩
    exact (Keeps.of_ok (h.header_succ (h.kept _) (by exact hframe) hinit) hg hr).1
  | headerValue => exact ⟨⟨h.scope_of_home hp.1, hp.2.2⟩, hg⟩
  | headerReturn => exact ⟨⟨h.scope_of_home hp.1, hp.2.1⟩, hg⟩
  | headerLiteral => exact ⟨⟨h.scope_of_home hp.1, hp.2.1⟩, hg⟩
  | test hc => exact ⟨⟨h.scope_of_home hp.1, hp.2.1 _ hc⟩, hg⟩
  | body hr hb =>
    have hbody := hp.2.2.2
    rw [hb] at hbody
    exact ⟨⟨hp.1, hbody⟩, ((h.test_succ (h.kept _) hp.1 hp.2).of_ok hg hr).1⟩
  | post hr hb hr' =>
    have hbody := hp.2.2.2
    rw [hb] at hbody
    obtain ⟨hg, -⟩ := (h.test_succ (h.kept _) hp.1 hp.2).of_ok hg hr
    exact ⟨⟨hp.1, hp.2.2.1⟩, (((h.kept _).sequence hp.1 hbody).of_ok hg hr').1⟩
  | again hr => exact ⟨hp, ((h.round_succ (h.kept _) hp.1 hp.2).of_ok hg hr).1⟩
  | exec hparse =>
    obtain ⟨hg, hframe⟩ := h.push (good_note hg) hp.1
    rw [store_note] at hframe
    exact ⟨⟨hframe, h.parse hparse⟩, hg⟩
  | bind =>
    obtain ⟨hscope, hnames, -⟩ := hp.2.1
    obtain ⟨hg, hframe⟩ := h.push hg hscope
    exact ⟨⟨hframe, hnames, hp.2.2⟩, hg⟩
  | called _ _ hr hb =>
    obtain ⟨hscope, hnames, -, hbody⟩ := hp.2.1
    rw [hb] at hbody
    obtain ⟨hg, hframe⟩ := h.push hg hscope
    have hbind := h.keeps_bindParams hframe hnames hp.2.2
    exact ⟨⟨hframe, hbody⟩, good_note (hbind.of_ok hg hr).1⟩
  | moreParams hr =>
    obtain ⟨hframe, hnames, hvalues⟩ := hp
    obtain ⟨hname, hnames⟩ := List.forall_mem_cons.mp hnames
    obtain ⟨hvalue, hvalues⟩ := List.forall_mem_cons.mp hvalues
    exact ⟨⟨hframe, hnames, hvalues⟩, ((h.keeps_define hframe hname hvalue).of_ok hg hr).1⟩
  | program hr => exact ⟨⟨hp.1, trivial, ((keeps_bodyOf hp.2).of_ok hg hr).2⟩, good_note hg⟩
  | topExpr =>
    obtain ⟨hnode, -⟩ := List.forall_mem_cons.mp hp.2.2
    exact ⟨⟨h.scope_of_home hp.1, h.stmt hnode⟩, hg⟩
  | topAssigned =>
    obtain ⟨hnode, -⟩ := List.forall_mem_cons.mp hp.2.2
    exact ⟨⟨h.scope_of_home hp.1, (h.stmt hnode).2⟩, hg⟩
  | topStatement => exact ⟨⟨hp.1, hp.2.2 _ List.mem_cons_self⟩, hg⟩
  | afterExpr hr =>
    obtain ⟨hnode, hnodes⟩ := List.forall_mem_cons.mp hp.2.2
    obtain ⟨hg, hv⟩ := h.evaluated (h.scope_of_home hp.1) (h.stmt hnode) hg hr
    exact ⟨⟨hp.1, hv, hnodes⟩, hg⟩
  | afterAssigned hr =>
    obtain ⟨hnode, hnodes⟩ := List.forall_mem_cons.mp hp.2.2
    obtain ⟨hname, hvalue⟩ := h.stmt hnode
    obtain ⟨hg, hv⟩ := (h.keeps_assignment hp.1 hname
      ((h.kept _).evaluate (h.scope_of_home hp.1) hvalue)).of_ok hg hr
    exact ⟨⟨hp.1, hv, hnodes⟩, hg⟩
  | afterStatement _ _ hr =>
    obtain ⟨hnode, hnodes⟩ := List.forall_mem_cons.mp hp.2.2
    exact ⟨⟨hp.1, trivial, hnodes⟩, (((h.kept _).execute hp.1 hnode).of_ok hg hr).1⟩

/-- All pieces of a disciplined run start and end as the discipline says. -/
theorem Lawful.within (h : D.Lawful) {piece inner : Piece} {during : Machine}
    (hw : Within piece machine inner during) (hp : D.Starting piece) (hg : D.Good machine.store) :
    D.Good during.store ∧
      D.Ends (fun values => ∀ value ∈ values, D.Holds value) (inner.perform during) := by
  have hstart : D.Starting inner ∧ D.Good during.store := by
    induction hw with
    | self => exact ⟨hp, hg⟩
    | step _ hs ih => exact h.starts hs ih.1 ih.2
  exact ⟨hstart.2, h.perform hstart.1 during hstart.2⟩

end Discipline

end ScriptLang
