import ScriptLang.Proofs.Eval.Pieces
import ScriptLang.Proofs.Eval.Uniform

/-! # Where signals come from

A statement ends with a signal only if it contains a statement that sends it, with nothing in
between that takes it: loops take `break` and `continue`, and functions take everything. So errors
for jumps outside loops arise only in bodies that contain such a jump.
-/

namespace ScriptLang

variable {α β : Type} {fuel : Nat} {context : Context} {node : Node} {nodes : List Node}
  {machine after : Machine}

namespace Node

def isLoop : Node → Bool
  | whileStmt .. | forStmt .. | loopStmt _ => true
  | _ => false

def isFunction : Node → Bool
  | funcDef .. => true
  | _ => false

/-- A node in a tree that is not inside any node of some kind. -/
inductive Free (closed : Node → Bool) (inner : Node) : Node → Prop where
  | self : Free closed inner inner
  | child {node child : Node} : closed node = false → child ∈ node.children →
      Free closed inner child → Free closed inner node

/-- A jump in a tree that is neither inside a loop of the tree nor inside a function. -/
def HasJump (node jump : Node) : Prop :=
  Free (fun outer => outer.isLoop || outer.isFunction) jump node

/-- The tree contains a statement that may end it with the signal. -/
def Sends (node : Node) : Signal → Prop
  | .normal => True
  | .breakLoop => node.HasJump .breakStmt
  | .continueLoop => node.HasJump .continueStmt
  | .returned _ => ∃ value, Free isFunction (.returnStmt value) node

variable {part : Node} {signal : Signal}

theorem Sends.returned {value : Value} (hf : node.isFunction = false) (hc : part ∈ node.children)
    (h : part.Sends (.returned value)) : node.Sends (.returned value) := by
  obtain ⟨result, h⟩ := h
  exact ⟨result, .child hf hc h⟩

theorem Sends.child (hl : node.isLoop = false) (hf : node.isFunction = false)
    (hc : part ∈ node.children) (h : part.Sends signal) : node.Sends signal := by
  have ho : (node.isLoop || node.isFunction) = false := by rw [hl, hf, Bool.or_false]
  cases signal with
  | normal => trivial
  | breakLoop => exact .child ho hc h
  | continueLoop => exact .child ho hc h
  | returned value => exact h.returned hf hc

theorem not_hasJump_of_isLoop {jump : Node} (hl : node.isLoop = true)
    (hj : jump.isLoop = false) : ¬node.HasJump jump := by
  intro h
  cases h with
  | self =>
    rw [hl] at hj
    cases hj
  | child ho =>
    rw [hl] at ho
    cases ho

/-- The tree has the jump that an error names. -/
def JumpsBy (node : Node) (keyword : String) : Prop :=
  keyword = "break" ∧ node.HasJump .breakStmt ∨ keyword = "continue" ∧ node.HasJump .continueStmt

end Node

namespace Discipline

def failing (Fails : Failure → Prop) : Discipline where
  Good _ := True
  Scope _ := True
  Home _ := True
  Whole _ := True
  Expr _ := True
  Stmt _ := True
  Fails := Fails

abbrev Gives (action : Eval α) (Q : α → Prop) : Prop :=
  (failing fun _ => True).Keeps action Q

theorem gives_any {action : Eval α} : Gives action fun _ => True := by
  intro machine _
  cases action machine with
  | ok result after => exact ⟨trivial, trivial⟩
  | error failure after => exact ⟨trivial, trivial⟩

theorem Gives.of_eq_ok {action : Eval α} {Q : α → Prop} {result : α} (h : Gives action Q)
    (hr : action machine = .ok result after) : Q result := by
  have he := h machine trivial
  rw [hr] at he
  exact he.2

theorem gives_bind {action : Eval α} {next : α → Eval β} {Q : β → Prop}
    (h : ∀ result, Gives (next result) Q) : Gives (action >>= next) Q :=
  gives_any.bind fun result _ => h result

variable {parent : Node}

theorem gives_sequence {run : Node → Eval Signal}
    (h : ∀ node ∈ nodes, Gives (run node) parent.Sends) :
    Gives (Eval.sequence run nodes) parent.Sends := by
  induction nodes with
  | nil => exact .pure trivial
  | cons node nodes ih =>
    obtain ⟨hnode, hnodes⟩ := List.forall_mem_cons.mp h
    refine hnode.bind fun signal hs => ?_
    split
    · exact ih hnodes
    · exact .pure hs

theorem gives_statementsOf :
    Gives (Eval.statementsOf node) fun statements => node = .block statements := by
  cases node with
  | block statements => exact .pure rfl
  | _ => exact .throw trivial

theorem gives_block {run : Node → Eval Signal} (hr : ∀ node, Gives (run node) node.Sends) :
    Gives (Eval.sequence run nodes) (Node.block nodes).Sends :=
  gives_sequence fun statement hm => (hr statement).imp fun _ hs => hs.child rfl rfl hm

theorem gives_part {run : Node → Eval Signal} {Q : Signal → Prop}
    (hr : ∀ node, Gives (run node) node.Sends) (hq : ∀ signal, node.Sends signal → Q signal) :
    Gives (Eval.statementsOf node >>= Eval.sequence run) Q := by
  refine gives_statementsOf.bind ?_
  rintro statements rfl
  exact (gives_block hr).imp hq

theorem gives_clauses {evaluate : Node → Eval Value} {run : Node → Eval Signal} {last : Node}
    (hr : ∀ node, Gives (run node) node.Sends)
    (hl : ∀ signal, last.Sends signal → parent.Sends signal)
    (hc : ∀ clause ∈ nodes, ∀ signal, clause.Sends signal → parent.Sends signal) :
    Gives (Eval.clauses context evaluate (Eval.sequence run) last nodes) parent.Sends := by
  induction nodes with
  | nil =>
    unfold Eval.clauses
    split
    · exact .pure trivial
    · exact gives_part hr hl
  | cons clause clauses ih =>
    obtain ⟨hclause, hclauses⟩ := List.forall_mem_cons.mp hc
    refine gives_bind fun _ => gives_bind fun _ => gives_bind fun _ => gives_bind fun _ => ?_
    split
    · cases clause with
      | elseIf condition body =>
        refine gives_part hr fun signal hs => hclause signal (hs.child rfl rfl ?_)
        exact List.mem_cons_of_mem _ List.mem_cons_self
      | _ => exact .throw trivial
    · exact ih hclauses

/-- A loop ends normally or returns what its body does. -/
theorem gives_round {loop : Loop} (hr : ∀ node, Gives (Eval.execute fuel context node) node.Sends)
    (hb : ∀ value, loop.body.Sends (.returned value) → parent.Sends (.returned value)) :
    Gives (loop.round fuel context) fun result => ∀ signal ∈ result, parent.Sends signal := by
  refine gives_bind fun goesOn => ?_
  split
  · refine gives_statementsOf.bind fun statements hs => (gives_block hr).bind fun signal hsig => ?_
    rw [← hs] at hsig
    cases signal with
    | breakLoop => exact gives_bind fun _ => .pure (by simp [Node.Sends])
    | returned value => exact .pure (by simpa using hb value hsig)
    | normal => exact gives_bind fun _ => .pure (by simp)
    | continueLoop => exact gives_bind fun _ => .pure (by simp)
  · exact .pure (by simp [Node.Sends])

theorem gives_iterate {round : Eval (Option Signal)}
    (hr : Gives round fun result => ∀ signal ∈ result, parent.Sends signal) :
    Gives (Eval.iterate round fuel) parent.Sends := by
  induction fuel with
  | zero => exact .throw trivial
  | succ fuel ih =>
    refine hr.bind fun result hs => ?_
    cases result with
    | none => exact ih
    | some signal => exact .pure (hs signal rfl)

/-- A statement ends with a signal only if it contains a statement that sends it. -/
theorem gives_execute : Gives (Eval.execute fuel context node) node.Sends := by
  induction fuel generalizing context node with
  | zero => exact .throw trivial
  | succ fuel ih =>
    have hr {context : Context} (node : Node) : Gives (Eval.execute fuel context node) node.Sends :=
      ih
    cases node with
    | exprStmt expr => exact gives_bind fun _ => .pure trivial
    | assign name value => exact gives_bind fun _ => .pure trivial
    | block statements => exact gives_block hr
    | ifStmt condition body clauses last =>
      refine gives_bind fun value => gives_bind fun _ => gives_bind fun _ => ?_
      split
      · exact gives_part hr fun signal hs => hs.child rfl rfl (by simp [Node.children])
      · exact gives_clauses hr (fun signal hs => hs.child rfl rfl (by simp [Node.children]))
          fun clause hm signal hs => hs.child rfl rfl (by simp [Node.children, hm])
    | whileStmt condition body =>
      rw [Loop.execute_whileStmt]
      exact gives_iterate (gives_round hr fun value hs =>
        hs.returned rfl (by simp [Node.children, Loop.body]))
    | loopStmt body =>
      rw [Loop.execute_loopStmt]
      exact gives_iterate (gives_round hr fun value hs =>
        hs.returned rfl (by simp [Node.children, Loop.body]))
    | forStmt init condition post body =>
      rw [execute_forStmt]
      refine gives_bind fun frame => gives_bind fun _ => ?_
      exact gives_iterate (gives_round hr fun value hs =>
        hs.returned rfl (by simp [Node.children, Loop.body]))
    | breakStmt => exact .pure .self
    | continueStmt => exact .pure .self
    | returnStmt value =>
      cases value with
      | null => exact .pure ⟨_, .self⟩
      | _ => exact gives_bind fun _ => .pure ⟨_, .self⟩
    | _ => exact .throw trivial

def calm : Discipline :=
  failing fun failure => ∀ keyword, failure ≠ .error (.jumpOutsideLoop keyword)

abbrev Calm (action : Eval α) : Prop := calm.Keeps action fun _ => True

theorem Calm.ne {action : Eval α} (h : Calm action) {keyword : String} :
    action machine ≠ .error (.error (.jumpOutsideLoop keyword)) after := by
  intro he
  have hends := h machine trivial
  rw [he] at hends
  exact hends.2 keyword rfl

theorem calm_body : calm.Body node := by
  cases node with
  | block statements => exact fun _ _ => trivial
  | _ => exact fun _ => nofun

theorem calm_holds {value : Value} : calm.Holds value := by
  cases value with
  | closure closure =>
    exact ⟨trivial, fun _ _ => .inr fun _ => nofun, .inr fun _ => nofun, calm_body⟩
  | _ => trivial

theorem calm_define {frame : Nat} {name : Json} {value : Value} :
    Calm (Eval.define frame name value) :=
  (keeps_nameOf (.inr fun _ => nofun)).bind fun _ _ _ _ => ⟨trivial, trivial⟩

theorem calm_assign {frame : Nat} {name : Json} {value : Value} :
    Calm (Eval.assign frame name value) :=
  (keeps_nameOf (.inr fun _ => nofun)).bind fun _ _ _ _ => ⟨trivial, trivial⟩

theorem calm_bindParams {frame : Nat} {names : List Json} {values : List Value} :
    Calm (Eval.bindParams frame names values) := by
  induction names generalizing values with
  | nil => exact .pure trivial
  | cons name names ih =>
    cases values with
    | nil => exact .pure trivial
    | cons value values => exact calm_define.bind fun _ _ => ih

end Discipline

open Discipline

theorem noteCall_eq_ok {value : Value} {depth : Nat}
    (h : Eval.noteCall context value depth machine = .ok () after) :
    ∃ message, after = machine.note context.debug 2 message := by
  unfold Eval.noteCall at h
  dsimp only at h
  split at h
  · unfold Eval.demandText at h
    split at h
    · cases h
      exact ⟨_, rfl⟩
    · cases h
  · cases h
    exact ⟨_, rfl⟩

theorem afterCall_eq_jump {signal : Signal} {keyword : String} (hs : node.Sends signal)
    (h : Eval.afterCall signal machine = .error (.error (.jumpOutsideLoop keyword)) after) :
    node.JumpsBy keyword := by
  cases signal with
  | returned value => cases h
  | normal => cases h
  | breakLoop =>
    cases h
    exact .inl ⟨rfl, hs⟩
  | continueLoop =>
    cases h
    exact .inr ⟨rfl, hs⟩

/-- An error for an escaped jump comes from the body itself or from what the body runs. -/
theorem call_eq_jump {closure : Closure} {args : List Value} {keyword : String}
    (h : Eval.call (fuel + 1) context (.closure closure) args machine =
      .error (.error (.jumpOutsideLoop keyword)) after) :
    closure.body.JumpsBy keyword ∨ ∃ inner nodes during,
      Starts (.call (fuel + 1) context (.closure closure) args) machine
        (.sequence fuel inner nodes) during ∧
      Eval.sequence (Eval.execute fuel inner) nodes during =
        .error (.error (.jumpOutsideLoop keyword)) after := by
  unfold Eval.call at h
  dsimp only at h
  split at h
  · refine absurd h (Calm.ne ((keeps_textOf calm_holds).bind fun _ _ => .throw ?_))
    intro keyword hk
    cases hk
  · rename_i hlength
    split at h
    · cases h
    · rename_i hcalls
      have hlength : closure.params.length = args.length := by simpa using hlength
      rw [bind_of_eq_ok (show Eval.newFrame closure.scope machine = .ok _ _ from rfl)] at h
      obtain ⟨_, bound, hb, h⟩ := (bind_eq_error h).resolve_left calm_bindParams.ne
      rw [bind_of_eq_ok (show (get : Eval Machine) bound = .ok bound bound from rfl)] at h
      obtain ⟨_, noted, hn, h⟩ := (bind_eq_error h).resolve_left
        (Calm.ne (keeps_noteCall calm_holds))
      obtain ⟨message, rfl⟩ := noteCall_eq_ok hn
      obtain ⟨nodes, _, hs, h⟩ := (bind_eq_error h).resolve_left
        (Calm.ne ((keeps_statementsOf calm_body).imp fun _ _ => trivial))
      have hbody : closure.body = .block nodes := gives_statementsOf.of_eq_ok hs
      rw [hbody] at hs ⊢
      cases hs
      rcases bind_eq_error h with h | ⟨signal, last, hsignal, h⟩
      · exact .inr ⟨_, _, _, .called hlength hcalls hb hbody, h⟩
      · exact .inl (afterCall_eq_jump ((gives_block fun _ => gives_execute).of_eq_ok hsignal) h)

def Piece.top (fuel : Nat) (context : Context) : Node → Piece
  | .exprStmt expr => .evaluate fuel context expr
  | .assign _ value => .evaluate fuel context value
  | other => .execute fuel context other

theorem Within.head {piece inner last : Piece} {during : Machine}
    (hs : Starts piece machine inner during) (hw : Within inner during last after) :
    Within piece machine last after := by
  induction hw with
  | self => exact .step .self hs
  | step _ hl ih => exact .step ih hl

theorem assignment_eq_jump {isLocal : Bool} {name : Json} {value : Eval Value} {keyword : String}
    (h : Eval.assignment context isLocal name value machine =
      .error (.error (.jumpOutsideLoop keyword)) after) :
    value machine = .error (.error (.jumpOutsideLoop keyword)) after := by
  rcases bind_eq_error h with h | ⟨result, during, -, h⟩
  · exact h
  · refine absurd h (Calm.ne ?_)
    have hnoted {message : Unit → String} : Calm (do
        Eval.demandText result
        Eval.note context 2 message
        pure result) :=
      (keeps_demandText calm_holds).bind fun _ _ => keeps_note.bind fun _ _ => .pure trivial
    dsimp only
    split
    · exact calm_define.bind fun _ _ => hnoted
    · exact calm_assign.bind fun _ _ => hnoted

theorem finishing_eq_jump {action : Eval Value} {keyword : String}
    (h : Eval.finishing context action machine =
      .error (.error (.jumpOutsideLoop keyword)) after) :
    ∃ during, action machine = .error (.error (.jumpOutsideLoop keyword)) during := by
  unfold Eval.finishing at h
  dsimp only at h
  split at h
  · cases h
  · cases h
  · cases h
    exact ⟨_, by assumption⟩

/-- A statement that a piece gets to fails for an escaped jump. -/
def FailsWithin (piece : Piece) (machine : Machine) (nodes : List Node) (keyword : String) : Prop :=
  ∃ node ∈ nodes, ∃ fuel context during after,
    Within piece machine (.top fuel context node) during ∧
      (Piece.top fuel context node).perform during =
        .error (.error (.jumpOutsideLoop keyword)) after

theorem FailsWithin.head {piece inner : Piece} {during : Machine} {nodes' : List Node}
    {keyword : String} (hs : Starts piece machine inner during)
    (h : FailsWithin inner during nodes keyword) (hn : ∀ node ∈ nodes, node ∈ nodes') :
    FailsWithin piece machine nodes' keyword := by
  obtain ⟨node, hm, fuel, context, start, last, hw, he⟩ := h
  exact ⟨node, hn node hm, fuel, context, start, last, .head hs hw, he⟩

theorem program_eq_jump {result : Value} {keyword : String} {root : Node}
    (hl : root.isLoop = false) (hf : root.isFunction = false)
    (hc : ∀ node ∈ nodes, node ∈ root.children)
    (h : Eval.program (Eval.evaluate fuel context)
      (fun name value => Eval.assignment context false name (Eval.evaluate fuel context value))
      (Eval.execute fuel context) result nodes machine =
        .error (.error (.jumpOutsideLoop keyword)) after) :
    root.JumpsBy keyword ∨
      FailsWithin (.program fuel context result nodes) machine nodes keyword := by
  induction nodes generalizing result machine with
  | nil => cases h
  | cons node nodes ih =>
    obtain ⟨hnode, hnodes⟩ := List.forall_mem_cons.mp hc
    have hrest {inner : Value} {during : Machine}
        (hs : Starts (.program fuel context result (node :: nodes)) machine
          (.program fuel context inner nodes) during)
        (h : root.JumpsBy keyword ∨
          FailsWithin (.program fuel context inner nodes) during nodes keyword) :
        root.JumpsBy keyword ∨
          FailsWithin (.program fuel context result (node :: nodes)) machine (node :: nodes)
            keyword :=
      h.imp_right fun h => h.head hs fun _ hm => List.mem_cons_of_mem _ hm
    unfold Eval.program at h
    split at h
    · rcases bind_eq_error h with h | ⟨value, during, hv, h⟩
      · exact .inr ⟨_, List.mem_cons_self, fuel, context, machine, after, .step .self .topExpr,
          bind_of_eq_error h⟩
      · exact hrest (.afterExpr hv) (ih hnodes h)
    · rcases bind_eq_error h with h | ⟨value, during, hv, h⟩
      · exact .inr ⟨_, List.mem_cons_self, fuel, context, machine, after, .step .self .topAssigned,
          bind_of_eq_error (assignment_eq_jump h)⟩
      · exact hrest (.afterAssigned hv) (ih hnodes h)
    · rename_i he ha
      have htop : Piece.top fuel context node = .execute fuel context node := by
        unfold Piece.top
        split
        · exact absurd rfl (he _)
        · exact absurd rfl (ha _ _)
        · rfl
      rcases bind_eq_error h with h | ⟨signal, during, hv, h⟩
      · refine .inr ⟨node, List.mem_cons_self, fuel, context, machine, after, ?_, ?_⟩
        · rw [htop]
          exact .step .self (.topStatement he ha)
        · rw [htop]
          exact bind_of_eq_error h
      · split at h
        · exact hrest (.afterStatement he ha hv) (ih hnodes h)
        · exact .inl (afterCall_eq_jump ((gives_execute.of_eq_ok hv).child hl hf hnode) h)

theorem run_eq_jump {body : List Node} {keyword : String}
    (h : Eval.run fuel context (.program body) machine =
      .error (.error (.jumpOutsideLoop keyword)) after) :
    (Node.program body).JumpsBy keyword ∨
      FailsWithin (.run fuel context (.program body)) machine body keyword := by
  cases fuel with
  | zero => cases h
  | succ fuel =>
    obtain ⟨nodes, _, hb, h⟩ := (bind_eq_error h).resolve_left nofun
    cases hb
    obtain ⟨_, noted, hn, h⟩ := (bind_eq_error h).resolve_left nofun
    cases hn
    obtain ⟨during, h⟩ := finishing_eq_jump h
    split at h
    · cases h
    · rename_i hcalls
      refine (program_eq_jump rfl rfl (fun _ hm => hm) h).imp_right fun hr => ?_
      exact hr.head (.program rfl hcalls) fun _ hm => hm

/-- Statements end with signals only if they contain, outside loops and functions of their own,
the statements that send them. So loops never end with `break` or `continue`, and the error for a
jump outside loops is made only for a body that has such a jump, unless it was made before while
the body ran. -/
theorem signals_come_from_free_statements :
    (∀ fuel context node machine signal after,
      Eval.execute fuel context node machine = .ok signal after → node.Sends signal) ∧
    (∀ fuel context nodes machine signal after,
      Eval.sequence (Eval.execute fuel context) nodes machine = .ok signal after →
        (Node.block nodes).Sends signal) ∧
    (∀ fuel context node machine signal after, Node.isLoop node = true →
      Eval.execute fuel context node machine = .ok signal after →
        signal ≠ .breakLoop ∧ signal ≠ .continueLoop) ∧
    (∀ fuel context closure args machine keyword after,
      Eval.call fuel context (.closure closure) args machine =
        .error (.error (.jumpOutsideLoop keyword)) after →
      closure.body.JumpsBy keyword ∨ ∃ less inner nodes during,
        Starts (.call fuel context (.closure closure) args) machine
          (.sequence less inner nodes) during ∧
        Eval.sequence (Eval.execute less inner) nodes during =
          .error (.error (.jumpOutsideLoop keyword)) after) ∧
    ∀ fuel context body machine keyword after,
      Eval.run fuel context (.program body) machine =
        .error (.error (.jumpOutsideLoop keyword)) after →
      (Node.program body).JumpsBy keyword ∨
        FailsWithin (.run fuel context (.program body)) machine body keyword := by
  refine ⟨fun _ _ _ _ _ _ he => gives_execute.of_eq_ok he,
    fun _ _ _ _ _ _ he => (gives_block fun _ => gives_execute).of_eq_ok he, ?_, ?_,
    fun _ _ _ _ _ _ he => run_eq_jump he⟩
  · intro fuel context node machine signal after hl he
    have hs : node.Sends signal := gives_execute.of_eq_ok he
    constructor
    · rintro rfl
      exact Node.not_hasJump_of_isLoop hl rfl hs
    · rintro rfl
      exact Node.not_hasJump_of_isLoop hl rfl hs
  · intro fuel context closure args machine keyword after he
    cases fuel with
    | zero => cases he
    | succ fuel =>
      refine (call_eq_jump he).imp_right ?_
      rintro ⟨inner, nodes, during, hs, he⟩
      exact ⟨fuel, inner, nodes, during, hs, he⟩

/-- A `break` under an `if`, alone, in a loop, in a function and in a program. -/
theorem signals_come_from_free_statements_break :
    let jump : Node :=
      .ifStmt (.literal (.bool true) (.str "Bool")) (.block [.breakStmt]) [] .null
    let closure : Closure := ⟨0, [], .block [jump], 0⟩
    let machine : Machine := .initial ""
    let failure : Failure := .error (.jumpOutsideLoop "break")
    (∃ after, Eval.execute 9 ⟨0, 0, 9⟩ jump machine = .ok .breakLoop after ∧
      jump.Sends .breakLoop) ∧
    (∃ after, Eval.sequence (Eval.execute 9 ⟨0, 0, 9⟩) [jump] machine = .ok .breakLoop after ∧
      (Node.block [jump]).Sends .breakLoop) ∧
    (∃ after, Eval.execute 9 ⟨0, 0, 9⟩ (.loopStmt (.block [jump])) machine = .ok .normal after ∧
      Signal.normal ≠ .breakLoop ∧ Signal.normal ≠ .continueLoop) ∧
    (∃ after, Eval.call 9 ⟨0, 0, 9⟩ (.closure closure) [] machine = .error failure after ∧
      (closure.body.JumpsBy "break" ∨ ∃ less inner nodes during,
        Starts (.call 9 ⟨0, 0, 9⟩ (.closure closure) []) machine
          (.sequence less inner nodes) during ∧
        Eval.sequence (Eval.execute less inner) nodes during = .error failure after)) ∧
    ∃ after, Eval.run 9 ⟨0, 0, 9⟩ (.program [jump]) machine = .error failure after ∧
      ((Node.program [jump]).JumpsBy "break" ∨
        FailsWithin (.run 9 ⟨0, 0, 9⟩ (.program [jump])) machine [jump] "break") := by
  intro jump closure machine failure
  have hs : Eval.execute 9 ⟨0, 0, 9⟩ jump machine = .ok .breakLoop _ := rfl
  have hb : Eval.sequence (Eval.execute 9 ⟨0, 0, 9⟩) [jump] machine = .ok .breakLoop _ := rfl
  have hl : Eval.execute 9 ⟨0, 0, 9⟩ (.loopStmt (.block [jump])) machine = .ok .normal _ := rfl
  have hc : Eval.call 9 ⟨0, 0, 9⟩ (.closure closure) [] machine = .error failure _ := rfl
  have hr : Eval.run 9 ⟨0, 0, 9⟩ (.program [jump]) machine = .error failure _ := rfl
  obtain ⟨hstatement, hblock, hloop, hcall, hrun⟩ := signals_come_from_free_statements
  exact ⟨⟨_, hs, hstatement _ _ _ _ _ _ hs⟩, ⟨_, hb, hblock _ _ _ _ _ _ hb⟩,
    ⟨_, hl, hloop _ _ _ _ _ _ rfl hl⟩, ⟨_, hc, hcall _ _ _ _ _ _ _ hc⟩,
    ⟨_, hr, hrun _ _ _ _ _ _ hr⟩⟩

end ScriptLang
