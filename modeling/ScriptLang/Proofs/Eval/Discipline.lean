import ScriptLang.Eval.Evaluator

/-! # Disciplines

A discipline says which stores a run may reach, which frames it may read and bind names in, which
integers may occur, which nodes may be run and which failures may end it. If every single operation
keeps to it, so does every run, however it ends.
-/

namespace ScriptLang

section Bind

variable {α β : Type} {action : Eval α} {next : α → Eval β} {machine during after : Machine}
  {failure : Failure}

theorem bind_of_eq_ok {first : α} (h : action machine = .ok first during) :
    (action >>= next) machine = next first during := by
  show EStateM.bind action next machine = _
  rw [EStateM.bind, h]

theorem bind_of_eq_error (h : action machine = .error failure after) :
    (action >>= next) machine = .error failure after := by
  show EStateM.bind action next machine = _
  rw [EStateM.bind, h]

theorem bind_eq_ok {last : β} (h : (action >>= next) machine = .ok last after) :
    ∃ first during, action machine = .ok first during ∧ next first during = .ok last after := by
  cases hr : action machine with
  | ok first during => exact ⟨first, during, rfl, (bind_of_eq_ok hr).symm.trans h⟩
  | error failure during =>
    rw [bind_of_eq_error hr] at h
    cases h

theorem bind_eq_error (h : (action >>= next) machine = .error failure after) :
    action machine = .error failure after ∨
      ∃ first during, action machine = .ok first during ∧
        next first during = .error failure after := by
  cases hr : action machine with
  | ok first during => exact .inr ⟨first, during, rfl, (bind_of_eq_ok hr).symm.trans h⟩
  | error failure during =>
    rw [bind_of_eq_error hr] at h
    cases h
    exact .inl rfl

end Bind

structure Discipline where
  Good : Store → Prop
  /-- Frames that may be read. -/
  Scope : Nat → Prop
  /-- Frames that statements may bind names in. -/
  Home : Nat → Prop
  Whole : Int → Prop
  Expr : Node → Prop
  Stmt : Node → Prop
  Fails : Failure → Prop

namespace Discipline

variable (D : Discipline)

def Body : Node → Prop
  | .block statements => ∀ statement ∈ statements, D.Stmt statement
  | _ => D.Fails (.fault .missingPart)

/-- What may follow an `if` under a condition of its own. -/
def Clause : Node → Prop
  | .elseIf condition body => D.Expr condition ∧ D.Body body
  | .ifStmt condition .. => D.Expr condition ∧ D.Fails (.fault .missingPart)
  | .whileStmt condition _ => D.Expr condition ∧ D.Fails (.fault .missingPart)
  | .forStmt _ condition .. => D.Expr condition ∧ D.Fails (.fault .missingPart)
  | _ => D.Fails (.fault .missingPart)

/-- A name that can be bound, or else the failure to use it. -/
def Names (name : Json) : Prop := (Name.ofJson? name).isSome = true ∨ D.Fails (.fault .unusable)

def Header : Node → Prop
  | .null => True
  | .assign name value => D.Names name ∧ D.Expr value
  | .returnStmt value => D.Expr value ∧ D.Fails (.fault .missingPart)
  | .literal value _ => D.Expr value.bare ∧ D.Fails (.fault .missingPart)
  | _ => D.Fails (.fault .missingPart)

def Letters : Node → Prop
  | .str _ => ∀ c, D.Stmt (.str (String.singleton c))
  | _ => D.Fails (.fault .unusable)

def Root : Node → Prop
  | .program body => ∀ statement ∈ body, D.Stmt statement
  | .whileStmt _ body => D.Letters body
  | .forStmt _ _ _ body => D.Letters body
  | .loopStmt body => D.Letters body
  | .funcDef _ body => D.Letters body
  | _ => D.Fails (.fault .missingPart)

def Holds : Value → Prop
  | .int n => D.Whole n
  | .closure c => D.Scope c.scope ∧ (∀ name ∈ c.params, D.Names name) ∧
    (c.paramNames?.isSome = true ∨ D.Fails (.fault .unusable)) ∧ D.Body c.body
  | _ => True

def Fine : Except Failure Value → Prop
  | .ok value => D.Holds value
  | .error failure => D.Fails failure

def Carries : Signal → Prop
  | .returned value => D.Holds value
  | _ => True

/-- What an expression is made of. -/
def ExprParts : Node → Prop
  | .literal value _ => D.Holds (.ofNode value)
  | .ident name => D.Names name
  | .funcDef params body =>
    ∀ number scope, D.Scope scope → D.Holds (.closure ⟨number, params, body, scope⟩)
  | .unary op operand => D.Expr operand ∧ ∀ value, D.Holds value → D.Fine (value.unary op)
  | .binary op left right => D.Expr left ∧ D.Expr right ∧
    (Operator.ofJson? op ≠ some .and → Operator.ofJson? op ≠ some .or →
      ∀ first second, D.Holds first → D.Holds second → D.Fine (first.binary op second))
  | .call func args => D.Expr func ∧ ∀ arg ∈ args, D.Expr arg
  | other => D.Fails (.fault (.notAnExpression other.kindName))

def StmtParts : Node → Prop
  | .exprStmt expr => D.Expr expr
  | .assign name value => D.Names name ∧ D.Expr value
  | .block statements => ∀ statement ∈ statements, D.Stmt statement
  | .ifStmt condition body clauses last => D.Expr condition ∧ D.Body body ∧
    (∀ clause ∈ clauses, D.Clause clause) ∧ (last ≠ .null → D.Body last)
  | .whileStmt condition body => D.Expr condition ∧ D.Body body
  | .loopStmt body => D.Body body
  | .forStmt init condition post body =>
    D.Header init ∧ (condition ≠ .null → D.Expr condition) ∧ D.Header post ∧ D.Body body
  | .breakStmt | .continueStmt => True
  | .returnStmt value => value ≠ .null → D.Expr value
  | other => D.Fails (.fault (.notAStatement other.kindName))

/-- Every single operation keeps to the discipline. -/
structure Lawful : Prop where
  scope_of_home {frame : Nat} : D.Home frame → D.Scope frame
  push {store : Store} {parent : Nat} : D.Good store → D.Scope parent →
    D.Good (store.push (some parent)) ∧ D.Home store.frames.size
  define {store : Store} {frame : Nat} {name : Name} {value : Value} : D.Good store →
    D.Home frame → D.Holds value → D.Good (store.define frame name value)
  set {store : Store} {frame : Nat} {name : Name} {value : Value} : D.Good store →
    D.Home frame → D.Holds value → D.Good (store.set frame name value)
  get {store : Store} {frame : Nat} {name : Name} {value : Value} : D.Good store →
    D.Scope frame → store.get? frame name = some value → D.Holds value
  expr {node : Node} : D.Expr node → D.ExprParts node
  stmt {node : Node} : D.Stmt node → D.StmtParts node
  toInteger {value : Value} : D.Holds value → D.Fine value.toInteger
  toFloat {value : Value} : D.Holds value → D.Fine value.toFloat
  round {value : Value} : D.Holds value → D.Fine value.round
  abs {value : Value} : D.Holds value → D.Fine value.abs
  extreme {function : String} {stays : Operator} {values : List Value} :
    (∀ value ∈ values, D.Holds value) → D.Fine (Value.extreme function stays values)
  parse {source : String} {program : Node} : parse source = .ok program → D.Root program
  zero : D.Whole 0
  exit {code : Int} : D.Whole code → D.Fails (.exit code)
  tooDeep : D.Fails .tooDeep
  outOfFuel : D.Fails .outOfFuel
  error {error : RuntimeError} : (∀ op, error ≠ .unknownUnary op) →
    (∀ op, error ≠ .unknownOperator op) → D.Fails (.error error)

variable {D} {α β : Type} {Q : α → Prop} {R : β → Prop}

def Ends (D : Discipline) (Q : α → Prop) : EStateM.Result Failure Machine α → Prop
  | .ok result machine => D.Good machine.store ∧ Q result
  | .error failure machine => D.Good machine.store ∧ D.Fails failure

/-- From a good store an action ends in a good store, with a result as required or a failure that
may occur. -/
def Keeps (D : Discipline) (action : Eval α) (Q : α → Prop) : Prop :=
  ∀ machine : Machine, D.Good machine.store → D.Ends Q (action machine)

theorem Keeps.pure {result : α} (h : Q result) : D.Keeps (pure result) Q :=
  fun _ hg => ⟨hg, h⟩

theorem Keeps.throw {failure : Failure} (h : D.Fails failure) :
    D.Keeps (throw failure : Eval α) Q :=
  fun _ hg => ⟨hg, h⟩

theorem Keeps.bind {action : Eval α} {next : α → Eval β} (h : D.Keeps action Q)
    (hn : ∀ result, Q result → D.Keeps (next result) R) : D.Keeps (action >>= next) R := by
  intro machine hg
  have he := h machine hg
  show D.Ends R (EStateM.bind action next machine)
  unfold EStateM.bind
  cases hr : action machine with
  | ok result after =>
    rw [hr] at he
    exact hn result he.2 after he.1
  | error failure after =>
    rw [hr] at he
    exact he

theorem Keeps.imp {Q' : α → Prop} {action : Eval α} (h : D.Keeps action Q)
    (hq : ∀ result, Q result → Q' result) : D.Keeps action Q' := by
  intro machine hg
  have he := h machine hg
  cases hr : action machine with
  | ok result after =>
    rw [hr] at he
    exact ⟨he.1, hq result he.2⟩
  | error failure after =>
    rw [hr] at he
    exact he

theorem Keeps.get {next : Machine → Eval β}
    (h : ∀ machine : Machine, D.Good machine.store → D.Ends R (next machine machine)) :
    D.Keeps (get >>= next) R :=
  h

theorem Keeps.modify {change : Machine → Machine}
    (h : ∀ machine, (change machine).store = machine.store) :
    D.Keeps (modify change : Eval PUnit) fun _ => True := by
  intro machine hg
  refine ⟨?_, trivial⟩
  rw [h]
  exact hg

section Operations

variable {context : Context} {level frame : Nat} {message : Unit → String} {name : Json}
  {value : Value}

theorem keeps_note : D.Keeps (Eval.note context level message) fun _ => True := by
  refine Keeps.modify fun machine => ?_
  unfold Machine.note
  split <;> rfl

theorem keeps_write {text : String} : D.Keeps (Eval.write text) fun _ => True :=
  Keeps.modify fun _ => rfl

theorem keeps_readLine : D.Keeps Eval.readLine fun _ => True :=
  fun _ hg => ⟨hg, trivial⟩

theorem keeps_ofExcept {result : Except Failure Value} (h : D.Fine result) :
    D.Keeps (Eval.ofExcept result) D.Holds := by
  cases result with
  | ok value => exact .pure h
  | error failure => exact .throw h

theorem keeps_nameOf (h : D.Names name) : D.Keeps (Eval.nameOf name) fun _ => True := by
  unfold Eval.nameOf
  rcases h with h | h
  · obtain ⟨key, hk⟩ := Option.isSome_iff_exists.mp h
    rw [hk]
    exact .pure trivial
  · split
    · exact .pure trivial
    · exact .throw h

theorem hasText_or_fails (h : D.Holds value) :
    value.hasText = true ∨ D.Fails (.fault .unusable) := by
  cases value with
  | closure c => exact h.2.2.1
  | _ => exact .inl rfl

theorem keeps_demandText (h : D.Holds value) : D.Keeps (Eval.demandText value) fun _ => True := by
  unfold Eval.demandText
  split
  · exact .pure trivial
  · rename_i hn
    exact .throw ((hasText_or_fails h).resolve_left hn)

theorem textOrFault_cases (h : D.Holds value) : (∃ text, value.textOrFault = .ok text) ∨
    value.textOrFault = .error (.fault .unusable) ∧ D.Fails (.fault .unusable) := by
  unfold Value.textOrFault
  cases ht : value.text? with
  | some text => exact .inl ⟨text, rfl⟩
  | none =>
    have hs := value.isSome_text?
    rw [ht, Option.isSome_none] at hs
    exact .inr ⟨rfl, (hasText_or_fails h).resolve_left (Bool.eq_false_iff.mp hs.symm)⟩

theorem keeps_textOf (h : D.Holds value) : D.Keeps (Eval.textOf value) fun _ => True := by
  unfold Eval.textOf
  rcases textOrFault_cases h with ⟨text, he⟩ | ⟨he, hf⟩
  · rw [he]
    exact .pure trivial
  · rw [he]
    exact .throw hf

theorem keeps_newClosure {params : List Json} {body : Node}
    (hn : ∀ number, D.Holds (.closure ⟨number, params, body, frame⟩)) :
    D.Keeps (Eval.newClosure params body frame) D.Holds :=
  fun machine hg => ⟨hg, hn machine.closures⟩

variable (h : D.Lawful)
include h

theorem Lawful.keeps_newFrame (hs : D.Scope frame) : D.Keeps (Eval.newFrame frame) D.Home :=
  fun _ hg => h.push hg hs

theorem Lawful.keeps_lookup (hs : D.Scope context.scope) (hn : D.Names name) :
    D.Keeps (Eval.lookup context name) D.Holds := by
  unfold Eval.lookup
  refine (keeps_nameOf hn).bind fun key _ => Keeps.get fun machine hg => ?_
  cases hget : machine.store.get? context.scope key with
  | some value => exact ⟨hg, h.get hg hs hget⟩
  | none => exact ⟨hg, h.error nofun nofun⟩

theorem Lawful.keeps_define (hf : D.Home frame) (hn : D.Names name) (hv : D.Holds value) :
    D.Keeps (Eval.define frame name value) fun _ => True :=
  (keeps_nameOf hn).bind fun _ _ _ hg => ⟨h.define hg hf hv, trivial⟩

theorem Lawful.keeps_assign (hf : D.Home frame) (hn : D.Names name) (hv : D.Holds value) :
    D.Keeps (Eval.assign frame name value) fun _ => True :=
  (keeps_nameOf hn).bind fun _ _ _ hg => ⟨h.set hg hf hv, trivial⟩

theorem Lawful.keeps_fail {error : RuntimeError} (hu : ∀ op, error ≠ .unknownUnary op)
    (hb : ∀ op, error ≠ .unknownOperator op) : D.Keeps (Eval.fail error : Eval α) Q :=
  .throw (h.error hu hb)

end Operations

end Discipline

end ScriptLang
