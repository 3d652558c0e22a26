import ScriptLang.Proofs.Eval.Operations

/-! # Uniform disciplines

Many disciplines ask the same of all nodes and allow every failure that is no exit. Then whatever
holds of a node has to hold of its children only.
-/

namespace ScriptLang

def Node.children : Node → List Node
  | program body => body
  | block statements => statements
  | elseIf condition body => [condition, body]
  | ifStmt condition thenBlock elseIfs elseBlock => condition :: thenBlock :: elseBlock :: elseIfs
  | whileStmt condition body => [condition, body]
  | forStmt init condition post body => [init, condition, post, body]
  | loopStmt body => [body]
  | returnStmt value => [value]
  | exprStmt expr => [expr]
  | assign _ value => [value]
  | funcDef _ body => [body]
  | call func args => func :: args
  | binary _ left right => [left, right]
  | unary _ operand => [operand]
  | literal value _ => [value]
  | held _ node => [node]
  | _ => []

namespace Discipline

structure Uniform (D : Discipline) : Prop where
  same : D.Stmt = D.Expr
  child {node child : Node} : D.Expr node → child ∈ node.children → D.Expr child
  text {text : String} : D.Expr (.str text)
  literal {n : Int} {kind : Json} : D.Expr (.literal (.int n) kind) → D.Whole n
  fault {fault : Fault} : D.Fails (.fault fault)
  error {error : RuntimeError} : D.Fails (.error error)
  whole {n : Int} : Integer.inRange n = true → D.Whole n
  tmod {a b : Int} : D.Whole a → D.Whole b → D.Whole (a.tmod b)

namespace Uniform

variable {D : Discipline} (u : D.Uniform)
include u

variable {node : Node} {kind : Json}

theorem stmt_of_child {child : Node} (h : D.Expr node) (hc : child ∈ node.children) :
    D.Stmt child := by
  rw [u.same]
  exact u.child h hc

theorem body (h : D.Expr node) : D.Body node := by
  cases node with
  | block statements => exact fun statement hs => u.stmt_of_child h hs
  | _ => exact u.fault

theorem clause (h : D.Expr node) : D.Clause node := by
  cases node with
  | elseIf condition body =>
    exact ⟨u.child h (by simp [Node.children]), u.body (u.child h (by simp [Node.children]))⟩
  | ifStmt => exact ⟨u.child h (by simp [Node.children]), u.fault⟩
  | whileStmt => exact ⟨u.child h (by simp [Node.children]), u.fault⟩
  | forStmt => exact ⟨u.child h (by simp [Node.children]), u.fault⟩
  | _ => exact u.fault

theorem bare (h : D.Expr node) : D.Expr node.bare := by
  cases node with
  | held place node => exact u.child h List.mem_cons_self
  | _ => exact h

theorem header (h : D.Expr node) : D.Header node := by
  cases node with
  | null => trivial
  | assign name value => exact ⟨.inr u.fault, u.child h List.mem_cons_self⟩
  | returnStmt value => exact ⟨u.child h List.mem_cons_self, u.fault⟩
  | literal value kind => exact ⟨u.bare (u.child h List.mem_cons_self), u.fault⟩
  | _ => exact u.fault

theorem letters (node : Node) : D.Letters node := by
  cases node with
  | str text =>
    intro c
    rw [u.same]
    exact u.text
  | _ => exact u.fault

theorem root (h : D.Expr node) : D.Root node := by
  cases node with
  | program body => exact fun statement hs => u.stmt_of_child h hs
  | whileStmt => exact u.letters _
  | forStmt => exact u.letters _
  | loopStmt => exact u.letters _
  | funcDef => exact u.letters _
  | _ => exact u.fault

theorem closure {closure : Closure} (hs : D.Scope closure.scope) (hb : D.Expr closure.body) :
    D.Holds (.closure closure) :=
  ⟨hs, fun _ _ => .inr u.fault, .inr u.fault, u.body hb⟩

theorem reckons : D.Reckons where
  whole := u.whole
  tmod := u.tmod
  small _ := .inr fun _ => u.fault
  remainder := u.fault
  longText := u.fault
  error _ _ := u.error

theorem ofNode (h : D.Expr (.literal node kind)) : D.Holds (.ofNode node) := by
  cases node with
  | int n => exact u.literal h
  | _ => trivial

theorem expr (h : D.Expr node) : D.ExprParts node := by
  cases node with
  | literal value kind => exact u.ofNode h
  | ident name => exact .inr u.fault
  | funcDef params body =>
    exact fun number scope hs => u.closure hs (u.child h List.mem_cons_self)
  | unary op operand =>
    exact ⟨u.child h List.mem_cons_self, fun value hv => u.reckons.unary hv fun _ _ => u.error⟩
  | binary op left right =>
    refine ⟨u.child h (by simp [Node.children]), u.child h (by simp [Node.children]), ?_⟩
    exact fun hand hor first second hf hs => u.reckons.binary hf hs hand hor fun _ => u.error
  | call func args =>
    exact ⟨u.child h List.mem_cons_self, fun arg ha => u.child h (List.mem_cons_of_mem _ ha)⟩
  | _ => exact u.fault

theorem stmt (h : D.Stmt node) : D.StmtParts node := by
  rw [u.same] at h
  cases node with
  | exprStmt expr => exact u.child h List.mem_cons_self
  | assign name value => exact ⟨.inr u.fault, u.child h List.mem_cons_self⟩
  | block statements => exact fun statement hs => u.stmt_of_child h hs
  | ifStmt condition body clauses last =>
    refine ⟨u.child h (by simp [Node.children]), u.body (u.child h (by simp [Node.children])),
      fun clause hc => u.clause (u.child h (by simp [Node.children, hc])),
      fun _ => u.body (u.child h (by simp [Node.children]))⟩
  | whileStmt condition body =>
    exact ⟨u.child h (by simp [Node.children]), u.body (u.child h (by simp [Node.children]))⟩
  | loopStmt body => exact u.body (u.child h List.mem_cons_self)
  | forStmt init condition post body =>
    refine ⟨u.header (u.child h (by simp [Node.children])),
      fun _ => u.child h (by simp [Node.children]),
      u.header (u.child h (by simp [Node.children])),
      u.body (u.child h (by simp [Node.children]))⟩
  | breakStmt => trivial
  | continueStmt => trivial
  | returnStmt value => exact fun _ => u.child h List.mem_cons_self
  | _ => exact u.fault

/-- What is left to show of a uniform discipline concerns frames, parsing and the other ends of a
run. -/
theorem lawful (hscope : ∀ frame, D.Home frame → D.Scope frame)
    (hpush : ∀ store parent, D.Good store → D.Scope parent →
      D.Good (store.push (some parent)) ∧ D.Home store.frames.size)
    (hdefine : ∀ store frame name value, D.Good store → D.Home frame → D.Holds value →
      D.Good (store.define frame name value))
    (hset : ∀ store frame name value, D.Good store → D.Home frame → D.Holds value →
      D.Good (store.set frame name value))
    (hget : ∀ store frame name value, D.Good store → D.Scope frame →
      store.get? frame name = some value → D.Holds value)
    (hparse : ∀ source program, parse source = .ok program → D.Expr program)
    (hexit : ∀ code, D.Whole code → D.Fails (.exit code)) (hdeep : D.Fails .tooDeep)
    (hfuel : D.Fails .outOfFuel) : D.Lawful where
  scope_of_home := hscope _
  push := hpush _ _
  define := hdefine _ _ _ _
  set := hset _ _ _ _
  get := hget _ _ _ _
  expr := u.expr
  stmt := u.stmt
  toInteger := u.reckons.toInteger
  toFloat := u.reckons.toFloat
  round := u.reckons.round
  abs := u.reckons.abs
  extreme := u.reckons.extreme
  parse hp := u.root (hparse _ _ hp)
  zero := u.whole rfl
  exit := hexit _
  tooDeep := hdeep
  outOfFuel := hfuel
  error _ _ := u.error

end Uniform

end Discipline

end ScriptLang
