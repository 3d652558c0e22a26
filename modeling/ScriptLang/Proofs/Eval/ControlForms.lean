import ScriptLang.Proofs.Eval.Unbounded
import ScriptLang.Proofs.Syntax.WellFormed

/-! # Derived control forms

A `for` is a `while` in a frame of its own, a `loop` is a `while` whose condition is true, and an
`else if` is an `if` in the `else` before it. What a `for` does between rounds has to be done before
every `continue` of its body as well.
-/

namespace ScriptLang

namespace Node

mutual

/-- Has steps taken before every `continue` that belongs to the loop around a node. -/
def beforeContinue (steps : List Node) : Node → Node
  | .continueStmt => .block (steps ++ [.continueStmt])
  | .block statements => .block (beforeContinues steps statements)
  | .ifStmt condition body clauses last =>
    .ifStmt condition (beforeContinue steps body) (beforeContinues steps clauses)
      (beforeContinue steps last)
  | .elseIf condition body => .elseIf condition (beforeContinue steps body)
  | node => node

def beforeContinues (steps : List Node) : List Node → List Node
  | [] => []
  | node :: nodes => beforeContinue steps node :: beforeContinues steps nodes

end

def steps : Node → List Node
  | .null => []
  | post => [post]

/-- The body of a `while` in place of a `for`. -/
def withSteps (post : Node) (body : List Node) : Node :=
  .block (beforeContinues post.steps body ++ post.steps)

def orTrue : Node → Node
  | .null => .literal (.bool true) (.str "Bool")
  | condition => condition

end Node

namespace Fuelled

variable {context : Context} {node : Node} {nodes steps : List Node}

theorem round_yields {loop : Loop} :
    (round context loop).Yields fun result => ∀ signal ∈ result, signal ≠ .continueLoop := by
  refine yields_bind fun goesOn => ?_
  split
  · refine yields_bind fun signal => ?_
    cases signal with
    | breakLoop => exact yields_bind fun _ => yields_pure (by simp)
    | returned value => exact yields_pure (by simp)
    | _ => exact yields_bind fun _ => yields_pure (by simp)
  · exact yields_pure (by simp)

def onContinue (context : Context) (steps : List Node) : Signal → Fuelled Signal
  | .continueLoop => sequence context steps >>= andThen (pure .continueLoop)
  | signal => pure signal

theorem bind_onContinue {action : Fuelled Signal} (h : action.Yields (· ≠ .continueLoop)) :
    (action >>= onContinue context steps) ≈ action := by
  refine bind_equiv_self fun machine signal after hv => ?_
  cases signal with
  | continueLoop => exact absurd rfl (h _ _ _ hv)
  | _ => rfl

/-- The steps are followed by a `continue`, so they do not end normally. -/
theorem onContinue_continue {next : Fuelled Signal} :
    (onContinue context steps .continueLoop >>= andThen next) =
      onContinue context steps .continueLoop := by
  refine (bind_assoc _ _ _).trans (bind_congr fun signal => ?_)
  cases signal with
  | _ => exact pure_bind _ _

theorem onContinue_andThen {next : Fuelled Signal} (signal : Signal) :
    (onContinue context steps signal >>= andThen (next >>= onContinue context steps)) =
      (andThen next signal >>= onContinue context steps) := by
  cases signal with
  | continueLoop => exact onContinue_continue.trans (pure_bind _ _).symm
  | normal => exact pure_bind _ _
  | _ => exact (pure_bind _ _).trans (pure_bind _ _).symm

theorem sequence_beforeContinues
    (h : ∀ node ∈ nodes, execute context (node.beforeContinue steps) ≈
      (execute context node >>= onContinue context steps)) :
    sequence context (Node.beforeContinues steps nodes) ≈
      (sequence context nodes >>= onContinue context steps) := by
  induction nodes with
  | nil => exact Setoid.refl _
  | cons node nodes ih =>
    rw [List.forall_mem_cons] at h
    rw [Node.beforeContinues, sequence_cons, sequence_cons, bind_assoc]
    calc
      (execute context (node.beforeContinue steps) >>=
          andThen (sequence context (Node.beforeContinues steps nodes)))
        ≈ ((execute context node >>= onContinue context steps) >>=
          andThen (sequence context nodes >>= onContinue context steps)) :=
        bind_equiv h.1 (andThen_equiv (ih h.2))
      _ ≈ (execute context node >>= fun signal =>
          andThen (sequence context nodes) signal >>= onContinue context steps) := by
        apply equiv_of_eq
        simp only [bind_assoc, onContinue_andThen]

theorem clauses_beforeContinues {last : Node}
    (h : ∀ clause ∈ nodes, ∃ condition body, clause = .elseIf condition body ∧
      block context (body.beforeContinue steps) ≈
        (block context body >>= onContinue context steps))
    (hl : clauses context (last.beforeContinue steps) [] ≈
      (clauses context last [] >>= onContinue context steps)) :
    clauses context (last.beforeContinue steps) (Node.beforeContinues steps nodes) ≈
      (clauses context last nodes >>= onContinue context steps) := by
  induction nodes with
  | nil => exact hl
  | cons clause nodes ih =>
    rw [List.forall_mem_cons] at h
    obtain ⟨⟨condition, body, rfl, hb⟩, h⟩ := h
    rw [Node.beforeContinues, Node.beforeContinue, clauses_cons, clauses_cons, choice_bind]
    exact choice_equiv hb (ih h)

theorem last_beforeContinue {last : Node} (hw : last ≠ .null → WellFormed.Block last)
    (h : last ≠ .null → block context (last.beforeContinue steps) ≈
      (block context last >>= onContinue context steps)) :
    clauses context (last.beforeContinue steps) [] ≈
      (clauses context last [] >>= onContinue context steps) := by
  by_cases hn : last = .null
  · subst hn
    exact Setoid.refl _
  · cases hw hn with
    | mk hs =>
      rw [clauses_nil hn, clauses_nil (by simp [Node.beforeContinue])]
      exact h hn

theorem continue_beforeContinue :
    execute context (Node.beforeContinue steps .continueStmt) ≈
      (execute context .continueStmt >>= onContinue context steps) := calc
  execute context (Node.beforeContinue steps .continueStmt)
    ≈ sequence context (steps ++ [.continueStmt]) := execute_block
  _ ≈ (sequence context steps >>= andThen (pure .continueLoop)) := by
    rw [sequence_append, sequence_singleton]
    exact bind_equiv_right (andThen_equiv execute_continueStmt)
  _ ≈ (pure .continueLoop >>= onContinue context steps) := by
    apply equiv_of_eq
    rw [pure_bind]
    rfl
  _ ≈ (execute context .continueStmt >>= onContinue context steps) :=
    bind_equiv_left (Setoid.symm execute_continueStmt)

theorem execute_onContinue {action : Fuelled Signal} (he : execute context node ≈ action)
    (h : action.Yields (· ≠ .continueLoop)) :
    execute context node ≈ (execute context node >>= onContinue context steps) :=
  Setoid.symm (bind_onContinue (h.of_equiv he))

mutual

theorem execute_beforeContinue {node : Node} : WellFormed.Statement node →
    execute context (node.beforeContinue steps) ≈
      (execute context node >>= onContinue context steps)
  | .continue => continue_beforeContinue
  | .if _ hb hc hl => by
    refine Setoid.trans execute_ifStmt
      (Setoid.trans ?_ (bind_equiv_left (Setoid.symm execute_ifStmt)))
    rw [choice_bind]
    refine choice_equiv (block_beforeContinue hb) ?_
    exact clauses_beforeContinues (fun clause hm => clause_beforeContinue (hc clause hm))
      (last_beforeContinue hl fun hn => block_beforeContinue (hl hn))
  | .assign (.mk _ _) => execute_onContinue execute_assign (yields_bind fun _ => yields_pure nofun)
  | .expr _ => execute_onContinue execute_exprStmt (yields_bind fun _ => yields_pure nofun)
  | .break => execute_onContinue execute_breakStmt (yields_pure nofun)
  | .while _ _ => execute_onContinue execute_whileStmt (yields_looping round_yields)
  | .loop _ => execute_onContinue execute_loopStmt (yields_looping round_yields)
  | .for _ _ _ _ => execute_onContinue execute_forStmt
    (yields_bind fun _ => yields_bind fun _ => yields_looping round_yields)
  | @WellFormed.Statement.return value _ => by
    by_cases hn : value = .null
    · subst hn
      exact execute_onContinue execute_returnNull (yields_pure nofun)
    · exact execute_onContinue (execute_returnStmt hn) (yields_bind fun _ => yields_pure nofun)

theorem block_beforeContinue {node : Node} : WellFormed.Block node →
    block context (node.beforeContinue steps) ≈
      (block context node >>= onContinue context steps)
  | .mk h => by
    rw [Node.beforeContinue, block_eq, block_eq]
    exact sequence_beforeContinues fun node hm => execute_beforeContinue (h node hm)

theorem clause_beforeContinue {node : Node} : WellFormed.Clause node →
    ∃ condition body, node = .elseIf condition body ∧
      block context (body.beforeContinue steps) ≈
        (block context body >>= onContinue context steps)
  | .mk _ hb => ⟨_, _, rfl, block_beforeContinue hb⟩

end

theorem lift_note (hd : context.debug < 3) {message : Unit → String} :
    lift (Eval.note context 3 message) = pure () := by
  unfold Eval.note Machine.note
  simp only [Nat.not_le.mpr hd, if_false]
  rfl

theorem sequence_steps {post : Node} (h : post ≠ .null → WellFormed.Assignment post) :
    sequence context post.steps ≈ (header context false post >>= fun _ => pure .normal) := by
  by_cases hn : post = .null
  · subst hn
    exact Setoid.refl _
  · cases h hn with
    | mk _ _ =>
      rw [header_assign, bind_assoc]
      exact sequence_singleton ▸ execute_assign

theorem test_true {body : Node} :
    test context (.whileLoop (.literal (.bool true) (.str "Bool")) body) ≈ pure true := by
  have h : evaluate context (.literal (.bool true) (.str "Bool")) ≈ pure (.bool true) :=
    equiv_of_succ fun _ => rfl
  exact bind_equiv_left h

theorem test_orTrue {condition post body body' : Node} :
    test context (.forLoop condition post body) ≈
      test context (.whileLoop condition.orTrue body') := by
  cases condition with
  | null => exact Setoid.symm test_true
  | _ => exact Setoid.refl _

theorem afterBody_onContinue {condition condition' post body body' : Node} (hd : context.debug < 3)
    (h : post ≠ .null → WellFormed.Assignment post) (signal : Signal) :
    afterBody context (.forLoop condition post body) signal ≈
      ((onContinue context post.steps signal >>= andThen (sequence context post.steps)) >>=
        afterBody context (.whileLoop condition' body')) := by
  -- What follows the steps does nothing more.
  have hstep (last : Signal)
      (hl : afterBody context (.whileLoop condition' body') last = pure none) :
      (header context false post >>= fun _ => pure none) ≈
        ((sequence context post.steps >>= andThen (pure last)) >>=
          afterBody context (.whileLoop condition' body')) := by
    rw [bind_assoc]
    refine Setoid.symm (Setoid.trans (bind_equiv_left (sequence_steps h)) ?_)
    apply equiv_of_eq
    simp only [bind_assoc, pure_bind, andThen, hl]
  cases signal with
  | normal =>
    have h := hstep .normal rfl
    rw [bind_andThen_pure] at h
    exact h
  | continueLoop =>
    rw [onContinue_continue]
    exact hstep .continueLoop rfl
  | breakLoop =>
    apply equiv_of_eq
    simp only [onContinue, pure_bind, andThen, afterBody, lift_note hd]
  | returned value => exact Setoid.refl _

theorem round_forLoop_equiv {condition post : Node} {body : List Node} (hd : context.debug < 3)
    (hp : post ≠ .null → WellFormed.Assignment post)
    (hb : ∀ statement ∈ body, WellFormed.Statement statement) :
    round context (.forLoop condition post (.block body)) ≈
      round context (.whileLoop condition.orTrue (post.withSteps body)) := by
  refine bind_equiv test_orTrue fun goesOn => ?_
  split
  · rw [Loop.body, Loop.body, block_eq]
    calc
      (sequence context body >>= afterBody context (.forLoop condition post (.block body)))
        ≈ (sequence context body >>= fun signal =>
            (onContinue context post.steps signal >>= andThen (sequence context post.steps)) >>=
              afterBody context (.whileLoop condition.orTrue (post.withSteps body))) :=
        bind_equiv_right (afterBody_onContinue hd hp)
      _ ≈ (((sequence context body >>= onContinue context post.steps) >>=
            andThen (sequence context post.steps)) >>=
              afterBody context (.whileLoop condition.orTrue (post.withSteps body))) := by
        apply equiv_of_eq
        simp only [bind_assoc]
      _ ≈ (block context (post.withSteps body) >>=
            afterBody context (.whileLoop condition.orTrue (post.withSteps body))) := by
        refine bind_equiv_left ?_
        rw [Node.withSteps, block_eq, sequence_append]
        exact bind_equiv_left (Setoid.symm
          (sequence_beforeContinues fun node hm => execute_beforeContinue (hb node hm)))
  · exact Setoid.refl _

end Fuelled

namespace Eval

/-- A `for` done as a `while` in a fresh frame, where the initial value is defined first. -/
def forAsWhile (fuel : Nat) (context : Context) (init condition post : Node) (body : List Node) :
    Eval Signal := do
  let inner := { context with scope := ← newFrame context.scope }
  match init with
  | .assign name value =>
    let _ ← assignment inner true name (evaluate fuel inner value)
  | _ => pure ()
  execute fuel inner (.whileStmt condition.orTrue (post.withSteps body))

end Eval

namespace Fuelled

def forAsWhile (context : Context) (init condition post : Node) (body : List Node) :
    Fuelled Signal := do
  let inner := { context with scope := ← lift (Eval.newFrame context.scope) }
  header inner true init
  execute inner (.whileStmt condition.orTrue (post.withSteps body))

theorem perform_forAsWhile {init condition post : Node} {body : List Node}
    (h : init ≠ .null → WellFormed.Assignment init) :
    (forAsWhile context init condition post body).perform =
      fun fuel => Eval.forAsWhile fuel context init condition post body := by
  funext fuel
  by_cases hn : init = .null
  · subst hn
    rfl
  · cases h hn with
    | mk _ _ =>
      simp only [forAsWhile, Eval.forAsWhile, header_assign, bind_assoc, pure_bind, perform_bind]
      rfl

theorem execute_forStmt_equiv {init condition post : Node} {body : List Node}
    (hd : context.debug < 3) (hp : post ≠ .null → WellFormed.Assignment post)
    (hb : ∀ statement ∈ body, WellFormed.Statement statement) :
    execute context (.forStmt init condition post (.block body)) ≈
      forAsWhile context init condition post body := by
  refine Setoid.trans execute_forStmt ?_
  refine bind_equiv_right fun frame => bind_equiv_right fun _ => ?_
  have hinner : ({ context with scope := frame } : Context).debug < 3 := hd
  exact Setoid.trans (looping_congr (round_forLoop_equiv hinner hp hb))
    (Setoid.symm execute_whileStmt)

theorem execute_loopStmt_equiv {body : Node} (hd : context.debug < 3) :
    execute context (.loopStmt body) ≈
      execute context (.whileStmt (.literal (.bool true) (.str "Bool")) body) := by
  refine Setoid.trans execute_loopStmt (Setoid.trans (looping_congr ?_)
    (Setoid.symm execute_whileStmt))
  refine bind_equiv (Setoid.symm test_true) fun goesOn => ?_
  split
  · refine bind_equiv_right fun signal => ?_
    cases signal with
    | breakLoop =>
      apply equiv_of_eq
      simp only [afterBody, lift_note hd]
    | _ => exact Setoid.refl _
  · exact Setoid.refl _

theorem execute_elseIf_equiv {condition condition' body body' last : Node} {clauses : List Node}
    (hd : context.debug < 3) :
    execute context (.ifStmt condition body (.elseIf condition' body' :: clauses) last) ≈
      execute context (.ifStmt condition body []
        (.block [.ifStmt condition' body' clauses last])) := by
  refine Setoid.trans execute_ifStmt (Setoid.trans ?_ (Setoid.symm execute_ifStmt))
  refine choice_equiv (Setoid.refl _) ?_
  have hn : Node.block [.ifStmt condition' body' clauses last] ≠ .null := nofun
  rw [clauses_cons, clauses_nil hn, block_eq, sequence_singleton]
  refine Setoid.trans ?_ (Setoid.symm execute_ifStmt)
  apply equiv_of_eq
  simp only [choice, lift_note hd]

end Fuelled

/-- Below the debug level that shows which loop was left, a `for`, a `loop` and an `else if` end
just as what they stand for, or do not end either. -/
theorem derived_control_forms {context : Context} (hd : context.debug < 3) (machine : Machine) :
    (∀ init condition post body,
      WellFormed.Statement (.forStmt init condition post (.block body)) →
      EndAlike
        (fun fuel => Eval.execute fuel context (.forStmt init condition post (.block body)))
        (fun fuel => Eval.forAsWhile fuel context init condition post body) machine) ∧
      (∀ body, EndAlike (fun fuel => Eval.execute fuel context (.loopStmt body))
        (fun fuel => Eval.execute fuel context
          (.whileStmt (.literal (.bool true) (.str "Bool")) body)) machine) ∧
      ∀ condition body condition' body' clauses last, EndAlike
        (fun fuel => Eval.execute fuel context
          (.ifStmt condition body (.elseIf condition' body' :: clauses) last))
        (fun fuel => Eval.execute fuel context
          (.ifStmt condition body [] (.block [.ifStmt condition' body' clauses last])))
        machine := by
  refine ⟨fun init condition post body hw => ?_, fun body => ?_, fun _ _ _ _ _ _ => ?_⟩
  · cases hw with
    | assign h => cases h
    | «for» hi hc hp hb =>
      cases hb with
      | mk hb =>
        have h : EndAlike _ (Fuelled.forAsWhile context init condition post body).perform machine :=
          Fuelled.execute_forStmt_equiv hd hp hb machine
        rwa [Fuelled.perform_forAsWhile hi] at h
  · exact Fuelled.execute_loopStmt_equiv hd machine
  · exact Fuelled.execute_elseIf_equiv hd machine

/-- A `for` with a `continue` ends, and so does the `while` in its place. -/
theorem derived_control_forms_counting :
    let name : Json := .str "i"
    let number (n : Int) : Node := .literal (.int n) (.str "Integer")
    let init : Node := .assign name (number 0)
    let condition : Node := .binary (.str "<") (.ident name) (number 1)
    let post : Node := .assign name (.binary (.str "+") (.ident name) (number 1))
    let body : List Node := [.continueStmt]
    WellFormed.Statement (.forStmt init condition post (.block body)) ∧
      ∃ after, Halts (fun fuel => Eval.forAsWhile fuel ⟨0, 2, 9⟩ init condition post body)
        (.initial "") (.ok .normal after) := by
  intro name number init condition post body
  have hi : IsName "i".toList := by decide
  have hint (n : Int) (h : Integer.inRange n = true) : WellFormed.Expr (number n) := .int h
  have hw : WellFormed.Statement (.forStmt init condition post (.block body)) := by
    refine .for (fun _ => .mk hi (hint 0 (by decide))) (fun _ => ?_) (fun _ => .mk hi ?_)
      (.mk (List.forall_mem_singleton.mpr .continue))
    · exact .binary (by decide) (.ident hi) (hint 1 (by decide))
    · exact .binary (by decide) (.ident hi) (hint 1 (by decide))
  have hd : (⟨0, 2, 9⟩ : Context).debug < 3 := by decide
  exact ⟨hw, _, ((derived_control_forms hd (.initial "")).1 init condition post body hw _).mp
    ⟨20, rfl, settled_ok⟩⟩

end ScriptLang
