import ScriptLang.Proofs.Eval.Discipline

/-! # Disciplined runs

A run of disciplined code from a good store keeps to the discipline. Sequences, loops and calls
keep to it as far as their parts do, and the parts of the evaluator follow together by induction on
the fuel.
-/

namespace ScriptLang

/-- A loop without what stands before its first round. -/
inductive Loop where
  | whileLoop (condition body : Node)
  | endless (body : Node)
  | forLoop (condition post body : Node)

namespace Loop

def condition? : Loop → Option Node
  | whileLoop condition _ => some condition
  | endless _ => none
  | forLoop .null _ _ => none
  | forLoop condition _ _ => some condition

def body : Loop → Node
  | whileLoop _ body => body
  | endless body => body
  | forLoop _ _ body => body

def post : Loop → Node
  | forLoop _ post _ => post
  | _ => .null

def keyword : Loop → String
  | whileLoop .. => "while"
  | endless _ => "loop"
  | forLoop .. => "for"

variable (fuel : Nat) (context : Context)

def test (loop : Loop) : Eval Bool :=
  match loop.condition? with
  | some condition => return (← Eval.evaluate fuel context condition).isTruthy
  | none => return true

/-- One round, which says how the loop ends if it does. -/
def round (loop : Loop) : Eval (Option Signal) := do
  if ← loop.test fuel context then
    let signal ← Eval.sequence (Eval.execute fuel context) (← Eval.statementsOf loop.body)
    Eval.afterBody context loop.keyword
      (Eval.headerAssignment context false (Eval.evaluate fuel context) loop.post) signal
  else pure (some .normal)

theorem execute_whileStmt {condition body : Node} :
    Eval.execute (fuel + 1) context (.whileStmt condition body) =
      Eval.iterate ((whileLoop condition body).round fuel context) fuel := by
  rw [Eval.execute]
  simp [round, test, condition?, Loop.body, post, keyword, Eval.headerAssignment]

theorem execute_loopStmt {body : Node} :
    Eval.execute (fuel + 1) context (.loopStmt body) =
      Eval.iterate ((endless body).round fuel context) fuel := rfl

theorem round_forLoop {condition post body : Node} :
    (forLoop condition post body).round fuel context = (do
      if ← Eval.holds (Eval.evaluate fuel context) condition then
        let signal ← Eval.sequence (Eval.execute fuel context) (← Eval.statementsOf body)
        Eval.afterBody context "for"
          (Eval.headerAssignment context false (Eval.evaluate fuel context) post) signal
      else pure (some .normal)) := by
  cases condition with
  | null => rfl
  | _ => rfl

end Loop

theorem execute_forStmt {fuel : Nat} {context : Context} {init condition post body : Node} :
    Eval.execute (fuel + 1) context (.forStmt init condition post body) = (do
      let inner := { context with scope := ← Eval.newFrame context.scope }
      Eval.headerAssignment inner true (Eval.evaluate fuel inner) init
      Eval.iterate ((Loop.forLoop condition post body).round fuel inner) fuel) := by
  rw [Eval.execute]
  simp only [Loop.round_forLoop]

namespace Discipline

variable {D : Discipline} {α β : Type} {Q : α → Prop} {context : Context} {node : Node}
  {nodes : List Node} {name : Json} {value : Value}

theorem keeps_statementsOf (h : D.Body node) :
    D.Keeps (Eval.statementsOf node) fun nodes => ∀ node ∈ nodes, D.Stmt node := by
  unfold Eval.statementsOf
  split
  · exact .pure h
  · rename_i hn
    unfold Body at h
    split at h
    · exact absurd rfl (hn _)
    · exact .throw h

theorem keeps_conditionOf (h : D.Clause node) :
    D.Keeps (Eval.conditionOf node) D.Expr := by
  cases node with
  | elseIf => exact .pure h.1
  | ifStmt => exact .pure h.1
  | whileStmt => exact .pure h.1
  | forStmt => exact .pure h.1
  | _ => exact .throw h

theorem keeps_clauseStatements (h : D.Clause node) :
    D.Keeps (Eval.clauseStatements node) fun nodes => ∀ node ∈ nodes, D.Stmt node := by
  cases node with
  | elseIf => exact keeps_statementsOf h.2
  | ifStmt => exact .throw h.2
  | whileStmt => exact .throw h.2
  | forStmt => exact .throw h.2
  | _ => exact .throw h

theorem keeps_textBody (h : D.Letters node) :
    D.Keeps (Eval.bodyOf.textBody node) fun nodes => ∀ node ∈ nodes, D.Stmt node := by
  cases node with
  | str text =>
    refine .pure fun node hm => ?_
    obtain ⟨c, -, rfl⟩ := List.mem_map.mp hm
    exact h c
  | _ => exact .throw h

theorem keeps_bodyOf (h : D.Root node) :
    D.Keeps (Eval.bodyOf node) fun nodes => ∀ node ∈ nodes, D.Stmt node := by
  cases node with
  | program => exact .pure h
  | whileStmt => exact keeps_textBody h
  | forStmt => exact keeps_textBody h
  | loopStmt => exact keeps_textBody h
  | funcDef => exact keeps_textBody h
  | _ => exact .throw h

theorem keeps_mapM {action : α → Eval β} {R : β → Prop} {items : List α}
    (h : ∀ item ∈ items, D.Keeps (action item) R) :
    D.Keeps (items.mapM action) fun results => ∀ result ∈ results, R result := by
  induction items with
  | nil => exact .pure (by simp)
  | cons item items ih =>
    obtain ⟨hitem, hitems⟩ := List.forall_mem_cons.mp h
    rw [List.mapM_cons]
    refine hitem.bind fun first hf => (ih hitems).bind fun others ho => .pure ?_
    exact List.forall_mem_cons.mpr ⟨hf, ho⟩

theorem keeps_sequence {run : Node → Eval Signal}
    (h : ∀ node ∈ nodes, D.Keeps (run node) D.Carries) :
    D.Keeps (Eval.sequence run nodes) D.Carries := by
  induction nodes with
  | nil => exact .pure trivial
  | cons node nodes ih =>
    obtain ⟨hnode, hnodes⟩ := List.forall_mem_cons.mp h
    refine hnode.bind fun signal hs => ?_
    split
    · exact ih hnodes
    · exact .pure hs

def Rounds (D : Discipline) (loop : Loop) : Prop :=
  (∀ condition ∈ loop.condition?, D.Expr condition) ∧ D.Header loop.post ∧ D.Body loop.body

theorem rounds_whileLoop {condition body : Node} (hc : D.Expr condition) (hb : D.Body body) :
    D.Rounds (.whileLoop condition body) := by
  refine ⟨?_, trivial, hb⟩
  rintro _ ⟨⟩
  exact hc

theorem rounds_endless {body : Node} (hb : D.Body body) : D.Rounds (.endless body) :=
  ⟨nofun, trivial, hb⟩

theorem rounds_forLoop {condition post body : Node} (hc : condition ≠ .null → D.Expr condition)
    (hp : D.Header post) (hb : D.Body body) : D.Rounds (.forLoop condition post body) := by
  refine ⟨fun found hf => ?_, hp, hb⟩
  cases condition with
  | null => cases hf
  | _ =>
    cases hf
    exact hc nofun

def Outcome (D : Discipline) (result : Option Signal) : Prop := ∀ signal ∈ result, D.Carries signal

theorem Lawful.keeps_iterate (h : D.Lawful) {round : Eval (Option Signal)}
    (hr : D.Keeps round D.Outcome) (fuel : Nat) :
    D.Keeps (Eval.iterate round fuel) D.Carries := by
  induction fuel with
  | zero => exact .throw h.outOfFuel
  | succ fuel ih =>
    refine hr.bind fun result ho => ?_
    cases result with
    | none => exact ih
    | some signal => exact .pure (ho signal rfl)

theorem keeps_afterBody {keyword : String} {next : Eval PUnit} {signal : Signal}
    (hn : D.Keeps next fun _ => True) (hs : D.Carries signal) :
    D.Keeps (Eval.afterBody context keyword next signal) D.Outcome := by
  cases signal with
  | breakLoop =>
    refine keeps_note.bind fun _ _ => .pure ?_
    rintro _ ⟨⟩
    trivial
  | returned value =>
    refine .pure ?_
    rintro _ ⟨⟩
    exact hs
  | normal => exact hn.bind fun _ _ => .pure nofun
  | continueLoop => exact hn.bind fun _ _ => .pure nofun

theorem keeps_clauses {evaluate : Node → Eval Value} {run : List Node → Eval Signal} {last : Node}
    (he : ∀ node, D.Expr node → D.Keeps (evaluate node) D.Holds)
    (hr : ∀ nodes, (∀ node ∈ nodes, D.Stmt node) → D.Keeps (run nodes) D.Carries)
    (hl : last ≠ .null → D.Body last) (hc : ∀ node ∈ nodes, D.Clause node) :
    D.Keeps (Eval.clauses context evaluate run last nodes) D.Carries := by
  induction nodes with
  | nil =>
    unfold Eval.clauses
    split
    · exact .pure trivial
    · rename_i hn
      exact (keeps_statementsOf (hl hn)).bind fun nodes hs => hr nodes hs
  | cons clause clauses ih =>
    obtain ⟨hclause, hclauses⟩ := List.forall_mem_cons.mp hc
    refine (keeps_conditionOf hclause).bind fun condition hcond => ?_
    refine (he condition hcond).bind fun value hv => ?_
    refine (keeps_demandText hv).bind fun _ _ => keeps_note.bind fun _ _ => ?_
    split
    · exact (keeps_clauseStatements hclause).bind fun nodes hs => hr nodes hs
    · exact ih hclauses

section Lawful

variable (h : D.Lawful)
include h

theorem Lawful.keeps_assignment {isLocal : Bool} {action : Eval Value}
    (hs : D.Home context.scope) (hn : D.Names name) (ha : D.Keeps action D.Holds) :
    D.Keeps (Eval.assignment context isLocal name action) D.Holds := by
  refine ha.bind fun value hv => ?_
  have hnoted {message : Unit → String} : D.Keeps (do
      Eval.demandText value
      Eval.note context 2 message
      pure value) D.Holds :=
    (keeps_demandText hv).bind fun _ _ => keeps_note.bind fun _ _ => .pure hv
  dsimp only
  split
  · exact (h.keeps_define hs hn hv).bind fun _ _ => hnoted
  · exact (h.keeps_assign hs hn hv).bind fun _ _ => hnoted

theorem Lawful.keeps_headerAssignment {isLocal : Bool} {evaluate : Node → Eval Value}
    (hs : D.Home context.scope) (he : ∀ node, D.Expr node → D.Keeps (evaluate node) D.Holds)
    (hn : D.Header node) :
    D.Keeps (Eval.headerAssignment context isLocal evaluate node) fun _ => True := by
  cases node with
  | null => exact .pure trivial
  | assign name value =>
    exact (h.keeps_assignment hs hn.1 (he value hn.2)).bind fun _ _ => .pure trivial
  | returnStmt value => exact (he value hn.1).bind fun _ _ => .throw hn.2
  | literal value kind => exact (he value.bare hn.1).bind fun _ _ => .throw hn.2
  | _ => exact .throw hn

theorem Lawful.keeps_afterCall {signal : Signal} (hs : D.Carries signal) :
    D.Keeps (Eval.afterCall signal) D.Holds := by
  cases signal with
  | returned value => exact .pure hs
  | normal => exact .pure trivial
  | breakLoop => exact h.keeps_fail nofun nofun
  | continueLoop => exact h.keeps_fail nofun nofun

theorem Lawful.keeps_bindParams {frame : Nat} {names : List Json} {values : List Value}
    (hf : D.Home frame) (hn : ∀ name ∈ names, D.Names name)
    (hv : ∀ value ∈ values, D.Holds value) :
    D.Keeps (Eval.bindParams frame names values) fun _ => True := by
  induction names generalizing values with
  | nil => exact .pure trivial
  | cons name names ih =>
    obtain ⟨hname, hnames⟩ := List.forall_mem_cons.mp hn
    cases values with
    | nil => exact .pure trivial
    | cons value values =>
      obtain ⟨hvalue, hvalues⟩ := List.forall_mem_cons.mp hv
      exact (h.keeps_define hf hname hvalue).bind fun _ _ => ih hnames hvalues

omit h in
theorem keeps_noteCall {depth : Nat} (hv : D.Holds value) :
    D.Keeps (Eval.noteCall context value depth) fun _ => True := by
  unfold Eval.noteCall
  dsimp only
  split
  · exact (keeps_demandText hv).bind fun _ _ => keeps_note
  · exact keeps_note

theorem Lawful.keeps_builtin {function : Builtin} {args : List Value}
    (hv : ∀ value ∈ args, D.Holds value) : D.Keeps (Eval.builtin function args) D.Holds := by
  unfold Eval.builtin
  split
  · refine (keeps_mapM fun value hm => keeps_textOf (hv value hm)).bind fun _ _ => ?_
    exact keeps_write.bind fun _ _ => .pure trivial
  · exact (keeps_textOf (hv _ List.mem_cons_self)).bind fun _ _ => .pure trivial
  · exact (keeps_textOf (hv _ List.mem_cons_self)).bind fun _ _ => .pure trivial
  · exact keeps_ofExcept (h.toInteger (hv _ List.mem_cons_self))
  · exact keeps_ofExcept (h.toFloat (hv _ List.mem_cons_self))
  · exact keeps_ofExcept (h.round (hv _ List.mem_cons_self))
  · exact keeps_ofExcept (h.abs (hv _ List.mem_cons_self))
  · exact keeps_ofExcept (h.extreme hv)
  · exact keeps_ofExcept (h.extreme hv)
  · exact keeps_readLine.bind fun _ _ => .pure trivial
  · exact keeps_write.bind fun _ _ => keeps_readLine.bind fun _ _ => .pure trivial
  · exact h.keeps_fail nofun nofun
  · exact h.keeps_fail nofun nofun
  · exact .throw (h.exit h.zero)
  · exact .throw (h.exit (hv _ List.mem_cons_self))
  · exact h.keeps_fail nofun nofun
  · exact h.keeps_fail nofun nofun
  · exact .pure trivial

theorem Lawful.keeps_program {evaluate : Node → Eval Value} {assign : Json → Node → Eval Value}
    {run : Node → Eval Signal} {result : Value}
    (he : ∀ node, D.Expr node → D.Keeps (evaluate node) D.Holds)
    (ha : ∀ name node, D.Names name → D.Expr node → D.Keeps (assign name node) D.Holds)
    (hr : ∀ node, D.Stmt node → D.Keeps (run node) D.Carries)
    (hv : D.Holds result) (hs : ∀ node ∈ nodes, D.Stmt node) :
    D.Keeps (Eval.program evaluate assign run result nodes) D.Holds := by
  induction nodes generalizing result with
  | nil => exact .pure hv
  | cons node nodes ih =>
    obtain ⟨hnode, hnodes⟩ := List.forall_mem_cons.mp hs
    unfold Eval.program
    split
    · exact (he _ (h.stmt hnode)).bind fun _ hv => ih hv hnodes
    · obtain ⟨hn, hx⟩ := h.stmt hnode
      exact (ha _ _ hn hx).bind fun _ hv => ih hv hnodes
    · refine (hr _ hnode).bind fun signal hc => ?_
      split
      · exact ih trivial hnodes
      · exact h.keeps_afterCall hc

theorem Lawful.keeps_finishing {action : Eval Value} (ha : D.Keeps action D.Holds) :
    D.Keeps (Eval.finishing context action) D.Holds := by
  intro machine hg
  have he := ha machine hg
  have hnote (machine : Machine) (message : Unit → String) :
      (machine.note context.debug 1 message).store = machine.store := by
    unfold Machine.note
    split <;> rfl
  unfold Eval.finishing
  dsimp only
  split
  · rename_i hr
    rw [hr] at he
    exact ⟨(hnote _ _).symm ▸ he.1, he.2⟩
  · rename_i hr
    rw [hr] at he
    exact ⟨(hnote _ _).symm ▸ he.1, h.error nofun nofun⟩
  · rename_i hr
    rw [hr] at he
    exact ⟨(hnote _ _).symm ▸ he.1, he.2⟩

end Lawful

structure Kept (D : Discipline) (fuel : Nat) : Prop where
  evaluate {context : Context} {node : Node} : D.Scope context.scope → D.Expr node →
    D.Keeps (Eval.evaluate fuel context node) D.Holds
  execute {context : Context} {node : Node} : D.Home context.scope → D.Stmt node →
    D.Keeps (Eval.execute fuel context node) D.Carries
  call {context : Context} {function : Value} {args : List Value} : D.Scope context.scope →
    D.Holds function → (∀ value ∈ args, D.Holds value) →
    D.Keeps (Eval.call fuel context function args) D.Holds
  run {context : Context} {root : Node} : D.Home context.scope → D.Root root →
    D.Keeps (Eval.run fuel context root) D.Holds

section Kept

variable {fuel : Nat}

theorem Kept.arguments (ih : D.Kept fuel) (hs : D.Scope context.scope)
    (hn : ∀ node ∈ nodes, D.Expr node) :
    D.Keeps (nodes.mapM (Eval.evaluate fuel context)) fun values =>
      ∀ value ∈ values, D.Holds value :=
  keeps_mapM fun node hm => ih.evaluate hs (hn node hm)

theorem Kept.sequence (ih : D.Kept fuel) (hs : D.Home context.scope)
    (hn : ∀ node ∈ nodes, D.Stmt node) :
    D.Keeps (Eval.sequence (Eval.execute fuel context) nodes) D.Carries :=
  keeps_sequence fun node hm => ih.execute hs (hn node hm)

theorem Kept.body (ih : D.Kept fuel) {next : Signal → Eval β} {R : β → Prop}
    (hs : D.Home context.scope) (hb : D.Body node)
    (hn : ∀ signal, D.Carries signal → D.Keeps (next signal) R) :
    D.Keeps (do
      let signal ← Eval.sequence (Eval.execute fuel context) (← Eval.statementsOf node)
      next signal) R :=
  (keeps_statementsOf hb).bind fun _ hstmts => (ih.sequence hs hstmts).bind hn

variable (h : D.Lawful) (ih : D.Kept fuel)
include h ih

theorem Lawful.header_succ {isLocal : Bool} (hs : D.Home context.scope) (hn : D.Header node) :
    D.Keeps (Eval.headerAssignment context isLocal (Eval.evaluate fuel context) node)
      fun _ => True :=
  h.keeps_headerAssignment hs (fun _ => ih.evaluate (h.scope_of_home hs)) hn

theorem Lawful.test_succ {loop : Loop} (hs : D.Home context.scope) (hl : D.Rounds loop) :
    D.Keeps (loop.test fuel context) fun _ => True := by
  unfold Loop.test
  split
  · rename_i hc
    exact (ih.evaluate (h.scope_of_home hs) (hl.1 _ hc)).bind fun _ _ => .pure trivial
  · exact .pure trivial

theorem Lawful.round_succ {loop : Loop} (hs : D.Home context.scope) (hl : D.Rounds loop) :
    D.Keeps (loop.round fuel context) D.Outcome := by
  refine (h.test_succ ih hs hl).bind fun goesOn _ => ?_
  split
  · exact ih.body hs hl.2.2 fun _ => keeps_afterBody (h.header_succ ih hs hl.2.1)
  · exact .pure (by simp [Outcome, Carries])

theorem Lawful.evaluate_succ (hs : D.Scope context.scope) (hn : D.Expr node) :
    D.Keeps (Eval.evaluate (fuel + 1) context node) D.Holds := by
  have hparts := h.expr hn
  cases node with
  | literal value kind => exact .pure hparts
  | ident name => exact h.keeps_lookup hs hparts
  | funcDef params body => exact keeps_newClosure fun number => hparts number _ hs
  | unary op operand =>
    exact (ih.evaluate hs hparts.1).bind fun value hv => keeps_ofExcept (hparts.2 value hv)
  | binary op left right =>
    obtain ⟨hleft, hright, hop⟩ := hparts
    refine (ih.evaluate hs hleft).bind fun first hf => ?_
    split
    · split
      · exact (ih.evaluate hs hright).bind fun _ _ => .pure trivial
      · exact .pure trivial
    · split
      · exact .pure trivial
      · exact (ih.evaluate hs hright).bind fun _ _ => .pure trivial
    · rename_i hand hor
      exact (ih.evaluate hs hright).bind fun second hsecond =>
        keeps_ofExcept (hop hand hor first second hf hsecond)
  | call func args =>
    obtain ⟨hfunc, hargs⟩ := hparts
    refine (ih.evaluate hs hfunc).bind fun function hf => ?_
    exact (ih.arguments hs hargs).bind fun values hv => ih.call hs hf hv
  | _ => exact .throw hparts

/-- A `for` binds names in a frame of its own, so it may be executed wherever frames are read. -/
theorem Lawful.forStmt_succ {init condition post body : Node} (hs : D.Scope context.scope)
    (hparts : D.StmtParts (.forStmt init condition post body)) :
    D.Keeps (Eval.execute (fuel + 1) context (.forStmt init condition post body)) D.Carries := by
  obtain ⟨hinit, hcond, hpost, hbody⟩ := hparts
  rw [execute_forStmt]
  refine (h.keeps_newFrame hs).bind fun frame hframe => ?_
  refine (h.header_succ ih hframe hinit).bind fun _ _ => ?_
  exact h.keeps_iterate (h.round_succ ih hframe (rounds_forLoop hcond hpost hbody)) fuel

theorem Lawful.execute_succ (hs : D.Home context.scope) (hn : D.Stmt node) :
    D.Keeps (Eval.execute (fuel + 1) context node) D.Carries := by
  have hparts := h.stmt hn
  have hscope := h.scope_of_home hs
  cases node with
  | exprStmt expr => exact (ih.evaluate hscope hparts).bind fun _ _ => .pure trivial
  | assign name value =>
    exact (h.keeps_assignment hs hparts.1 (ih.evaluate hscope hparts.2)).bind fun _ _ =>
      .pure trivial
  | block statements => exact ih.sequence hs hparts
  | ifStmt condition body clauses last =>
    obtain ⟨hcond, hbody, hclauses, hlast⟩ := hparts
    refine (ih.evaluate hscope hcond).bind fun value hv => ?_
    refine (keeps_demandText hv).bind fun _ _ => keeps_note.bind fun _ _ => ?_
    split
    · exact (keeps_statementsOf hbody).bind fun nodes hstmts => ih.sequence hs hstmts
    · exact keeps_clauses (fun _ => ih.evaluate hscope) (fun _ => ih.sequence hs) hlast hclauses
  | whileStmt condition body =>
    rw [Loop.execute_whileStmt]
    exact h.keeps_iterate (h.round_succ ih hs (rounds_whileLoop hparts.1 hparts.2)) fuel
  | loopStmt body =>
    rw [Loop.execute_loopStmt]
    exact h.keeps_iterate (h.round_succ ih hs (rounds_endless hparts)) fuel
  | forStmt init condition post body => exact h.forStmt_succ ih hscope hparts
  | breakStmt => exact .pure trivial
  | continueStmt => exact .pure trivial
  | returnStmt value =>
    cases value with
    | null => exact .pure trivial
    | _ => exact (ih.evaluate hscope (hparts nofun)).bind fun _ hv => .pure hv
  | _ => exact .throw hparts

theorem Lawful.call_succ {function : Value} {args : List Value} (hs : D.Scope context.scope)
    (hf : D.Holds function) (hv : ∀ value ∈ args, D.Holds value) :
    D.Keeps (Eval.call (fuel + 1) context function args) D.Holds := by
  cases function with
  | builtin function =>
    unfold Eval.call
    dsimp only
    split
    · exact h.keeps_fail nofun nofun
    · refine keeps_note.bind fun _ _ => ?_
      split
      · split
        · exact .pure trivial
        · rename_i hparse
          exact (h.keeps_newFrame hs).bind fun _ hframe => ih.run hframe (h.parse hparse)
      · exact h.keeps_fail nofun nofun
      · exact h.keeps_builtin hv
  | closure closure =>
    obtain ⟨hscope, hnames, -, hbody⟩ := id hf
    unfold Eval.call
    dsimp only
    split
    · exact (keeps_textOf hf).bind fun _ _ => h.keeps_fail nofun nofun
    · split
      · exact .throw h.tooDeep
      · refine (h.keeps_newFrame hscope).bind fun frame hframe => ?_
        refine (h.keeps_bindParams hframe hnames hv).bind fun _ _ => ?_
        refine Keeps.get fun machine hg => ?_
        refine (keeps_noteCall hf).bind (fun _ _ => ?_) machine hg
        exact ih.body hframe hbody fun _ => h.keeps_afterCall
  | _ => exact (keeps_textOf hf).bind fun _ _ => h.keeps_fail nofun nofun

theorem Lawful.program_succ {result : Value} (hs : D.Home context.scope) (hv : D.Holds result)
    (hn : ∀ node ∈ nodes, D.Stmt node) :
    D.Keeps (Eval.program (Eval.evaluate fuel context)
      (fun name value => Eval.assignment context false name (Eval.evaluate fuel context value))
      (Eval.execute fuel context) result nodes) D.Holds := by
  have hscope := h.scope_of_home hs
  refine h.keeps_program (fun _ => ih.evaluate hscope) ?_ (fun _ => ih.execute hs) hv hn
  exact fun name node hname hnode => h.keeps_assignment hs hname (ih.evaluate hscope hnode)

theorem Lawful.run_succ {root : Node} (hs : D.Home context.scope) (hr : D.Root root) :
    D.Keeps (Eval.run (fuel + 1) context root) D.Holds := by
  refine (keeps_bodyOf hr).bind fun nodes hn => keeps_note.bind fun _ _ => h.keeps_finishing ?_
  split
  · exact .throw h.tooDeep
  · exact h.program_succ ih hs trivial hn

end Kept

/-- Every part of the evaluator keeps to a lawful discipline, whatever the fuel. -/
theorem Lawful.kept (h : D.Lawful) (fuel : Nat) : D.Kept fuel := by
  induction fuel with
  | zero =>
    have hout {α : Type} {Q : α → Prop} : D.Keeps (throw .outOfFuel : Eval α) Q := .throw h.outOfFuel
    exact ⟨fun _ _ => hout, fun _ _ => hout, fun _ _ _ => hout, fun _ _ => hout⟩
  | succ fuel ih => exact ⟨h.evaluate_succ ih, h.execute_succ ih, h.call_succ ih, h.run_succ ih⟩

theorem Lawful.forStmt (h : D.Lawful) {fuel : Nat} {init condition post body : Node}
    (hs : D.Scope context.scope) (hn : D.Stmt (.forStmt init condition post body)) :
    D.Keeps (Eval.execute fuel context (.forStmt init condition post body)) D.Carries := by
  cases fuel with
  | zero => exact .throw h.outOfFuel
  | succ fuel => exact h.forStmt_succ (h.kept fuel) hs (h.stmt hn)

end Discipline

end ScriptLang
