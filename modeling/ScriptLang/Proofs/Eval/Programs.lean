import ScriptLang.Proofs.Eval.Unbounded
import ScriptLang.Proofs.Syntax.RoundTrip

/-! # Ways to run a list of statements

A program, a block and the body of a function run the same statements and differ in what they make
of the end. They also write different messages to the log, so runs are compared by what can be seen
of them: the log cannot, nor whether a call that is nested too deeply has been reported yet.
-/

namespace ScriptLang

variable {α β : Type}

namespace Machine

/-- What a program can see of a machine. -/
def unlogged (machine : Machine) : Machine := { machine with log := #[] }

@[simp] theorem unlogged_note {machine : Machine} {debug level : Nat} {message : Unit → String} :
    (machine.note debug level message).unlogged = machine.unlogged := by
  unfold note
  split
  · rfl
  · rfl

end Machine

namespace Failure

/-- A call that is nested too deeply, as programs report it. -/
def reported : Failure → Failure
  | tooDeep => .error .recursionTooDeep
  | failure => failure

end Failure

def visible : EStateM.Result Failure Machine α → EStateM.Result Failure Machine α
  | .ok value machine => .ok value machine.unlogged
  | .error failure machine => .error failure.reported machine.unlogged

theorem settled_visible {result : EStateM.Result Failure Machine α} :
    Settled (visible result) ↔ Settled result := by
  cases result with
  | ok value machine => exact ⟨fun _ => settled_ok, fun _ => settled_ok⟩
  | error failure machine =>
    rw [visible, settled_error, settled_error]
    cases failure with
    | _ => simp [Failure.reported]

theorem settled_of_visible {result result' : EStateM.Result Failure Machine α}
    (h : visible result' = visible result) (hs : Settled result) : Settled result' :=
  settled_visible.mp (h ▸ settled_visible.mpr hs)

theorem Comparison.Agrees.visible_eq {C : Comparison}
    {result result' : EStateM.Result Failure Machine α} (h : C.Agrees result result') :
    visible result' = visible result := by
  cases h with
  | ok hm =>
    obtain ⟨log, rfl, -⟩ := hm
    rfl
  | error hm =>
    obtain ⟨log, rfl, -⟩ := hm
    rfl

/-- What never reads the log cannot be seen to depend on it. -/
theorem Comparison.Follows.visible_eq {debug : Nat} {action : Eval α} {machine machine' : Machine}
    (h : (Comparison.atLevel debug fun _ _ => True).Follows action action)
    (hm : machine'.unlogged = machine.unlogged) (hs : Settled (action machine)) :
    visible (action machine') = visible (action machine) := by
  have hl : (Comparison.atLevel debug fun _ _ => True).Like machine machine' := by
    refine ⟨machine'.log, ?_, trivial⟩
    cases machine
    cases machine'
    cases hm
    rfl
  rcases h machine machine' hl with ⟨failure, after, he, rfl⟩ | ha
  · exact absurd he (hs after)
  · exact ha.visible_eq

/-- Each run ends if the other does, in results that are related. -/
def Matches (R : EStateM.Result Failure Machine α → EStateM.Result Failure Machine β → Prop)
    (family : Nat → Eval α) (family' : Nat → Eval β) (machine : Machine) : Prop :=
  (∀ result, Halts family machine result →
    ∃ result', Halts family' machine result' ∧ R result result') ∧
  ∀ result', Halts family' machine result' →
    ∃ result, Halts family machine result ∧ R result result'

namespace Fuelled

/-- Whatever can be seen of the end of one action can be seen of that of the other. -/
def Covers (action action' : Fuelled α) : Prop :=
  ∀ machine machine' result, machine'.unlogged = machine.unlogged →
    Halts action.perform machine result →
      ∃ result', Halts action'.perform machine' result' ∧ visible result' = visible result

def Resembles (action action' : Fuelled α) : Prop := Covers action action' ∧ Covers action' action

variable {action action' action'' : Fuelled α} {next next' : α → Fuelled β} {context : Context}
  {node : Node} {nodes : List Node}

theorem Covers.bind (h : Covers action action') (hn : ∀ value, Covers (next value) (next' value)) :
    Covers (action >>= next) (action' >>= next') := by
  intro machine machine' result hm hr
  rcases halts_bind.mp hr with ⟨value, after, ha, hr⟩ | ⟨failure, after, ha, rfl⟩
  · obtain ⟨result', ha', hv⟩ := h machine machine' _ hm ha
    cases result' with
    | ok value' after' =>
      obtain ⟨rfl, hm'⟩ := EStateM.Result.ok.inj hv
      obtain ⟨result', hr', hv'⟩ := hn value' after after' result hm' hr
      exact ⟨result', halts_bind.mpr (.inl ⟨value', after', ha', hr'⟩), hv'⟩
    | error failure after' => cases hv
  · obtain ⟨result', ha', hv⟩ := h machine machine' _ hm ha
    cases result' with
    | ok value' after' => cases hv
    | error failure' after' =>
      obtain ⟨hf, hm'⟩ := EStateM.Result.error.inj hv
      refine ⟨.error failure' after', halts_bind.mpr (.inr ⟨failure', after', ha', rfl⟩), ?_⟩
      rw [visible, visible, hf, hm']

namespace Resembles

theorem symm (h : Resembles action action') : Resembles action' action := ⟨h.2, h.1⟩

theorem bind (h : Resembles action action') (hn : ∀ value, Resembles (next value) (next' value)) :
    Resembles (action >>= next) (action' >>= next') :=
  ⟨h.1.bind fun value => (hn value).1, h.2.bind fun value => (hn value).2⟩

theorem equiv_left (h : Resembles action' action'') (he : action ≈ action') :
    Resembles action action'' := by
  constructor
  · intro machine machine' result hm hr
    exact h.1 machine machine' result hm ((he machine result).mp hr)
  · intro machine machine' result hm hr
    obtain ⟨result', hr', hv⟩ := h.2 machine machine' result hm hr
    exact ⟨result', (he machine' result').mpr hr', hv⟩

theorem equiv_right (h : Resembles action action') (he : action' ≈ action'') :
    Resembles action action'' :=
  (h.symm.equiv_left (Setoid.symm he)).symm

theorem of_follows {debug : Nat}
    (h : ∀ fuel, (Comparison.atLevel debug fun _ _ => True).Follows (action.perform fuel)
      (action.perform fuel)) : Resembles action action := by
  have hc : Covers action action := by
    rintro machine machine' result hm ⟨fuel, rfl, hs⟩
    have hv := (h fuel).visible_eq hm hs
    exact ⟨action.perform fuel machine', ⟨fuel, rfl, settled_of_visible hv hs⟩, hv⟩
  exact ⟨hc, hc⟩

end Resembles

theorem lawful_anyLog {debug : Nat} : (Comparison.atLevel debug fun _ _ => True).Lawful :=
  Comparison.lawful_atLevel fun _ => trivial

theorem anyLog_paired {debug : Nat} (fuel : Nat) :
    (Comparison.atLevel debug fun _ _ => True).pairing.Paired fuel fuel :=
  lawful_anyLog.pairing.paired (.inl rfl)

theorem resembles_newFrame {parent : Nat} :
    Resembles (lift (Eval.newFrame parent)) (lift (Eval.newFrame parent)) :=
  .of_follows fun _ => (@lawful_anyLog 0).pairing.newFrame

theorem resembles_silent {action : Eval PUnit}
    (h : ∀ machine : Machine, ∃ log, action machine = .ok () { machine with log }) :
    Resembles (lift action) (pure ()) := by
  constructor
  · intro machine machine' result hm hr
    obtain ⟨rfl, -⟩ := halts_lift.mp hr
    obtain ⟨log, he⟩ := h machine
    refine ⟨_, halts_pure.mpr rfl, ?_⟩
    rw [he, visible, visible, hm]
    rfl
  · intro machine machine' result hm hr
    obtain rfl := halts_pure.mp hr
    obtain ⟨log, he⟩ := h machine'
    refine ⟨_, halts_lift.mpr ⟨he, settled_ok⟩, ?_⟩
    rw [visible, visible, ← hm]
    rfl

theorem Resembles.silent_bind {first : Eval PUnit}
    (h : ∀ machine : Machine, ∃ log, first machine = .ok () { machine with log })
    (hr : Resembles action action') : Resembles (lift first >>= fun _ => action) action' :=
  (resembles_silent h).bind fun _ => hr

theorem exists_log_note {level : Nat} {message : Unit → String} (machine : Machine) :
    ∃ log, Eval.note context level message machine = .ok () { machine with log } := by
  show ∃ log, EStateM.Result.ok () (machine.note context.debug level message) = _
  unfold Machine.note
  split
  · exact ⟨_, rfl⟩
  · exact ⟨machine.log, rfl⟩

def resume (next : Fuelled Value) : Signal → Fuelled Value
  | .normal => next
  | signal => lift (Eval.afterCall signal)

theorem resume_of_ne {next : Fuelled Value} {signal : Signal} (h : signal ≠ .normal) :
    resume next signal = lift (Eval.afterCall signal) := by
  cases signal with
  | normal => exact absurd rfl h
  | _ => rfl

def program (context : Context) (result : Value) (nodes : List Node) : Fuelled Value :=
  ofFollows (fun fuel => Eval.program (Eval.evaluate fuel context)
      (fun name value => Eval.assignment context false name (Eval.evaluate fuel context value))
      (Eval.execute fuel context) result nodes) context.debug
    fun hle => Comparison.lawful_budget.pairing.program
      (fun _ => (Comparison.budget_paired hle).evaluate rfl)
      (fun _ _ => Comparison.lawful_budget.pairing.assignment rfl
        ((Comparison.budget_paired hle).evaluate rfl))
      fun _ => (Comparison.budget_paired hle).execute rfl

theorem follows_program {result : Value} (fuel : Nat) :
    (Comparison.atLevel context.debug fun _ _ => True).Follows
      ((program context result nodes).perform fuel) ((program context result nodes).perform fuel) :=
  lawful_anyLog.pairing.program (fun _ => (anyLog_paired fuel).evaluate rfl)
    (fun _ _ => lawful_anyLog.pairing.assignment rfl ((anyLog_paired fuel).evaluate rfl))
    fun _ => (anyLog_paired fuel).execute rfl

theorem resembles_program {result : Value} :
    Resembles (program context result nodes) (program context result nodes) :=
  .of_follows follows_program

inductive HasValue (context : Context) : Node → Fuelled Value → Prop where
  | expr {value : Node} : HasValue context (.exprStmt value) (evaluate context value)
  | assign {name : Json} {value : Node} :
      HasValue context (.assign name value) (assignment context false name value)

theorem HasValue.execute {value : Fuelled Value} (h : HasValue context node value) :
    execute context node ≈ (value >>= fun _ => pure .normal) := by
  cases h with
  | expr => exact execute_exprStmt
  | assign => exact execute_assign

theorem HasValue.program {value : Fuelled Value} {result : Value}
    (h : HasValue context node value) :
    program context result (node :: nodes) =
      value >>= fun result => program context result nodes := by
  cases h with
  | expr => rfl
  | assign => rfl

theorem program_of_not {result : Value} (h : ∀ value, ¬ HasValue context node value) :
    program context result (node :: nodes) =
      execute context node >>= resume (program context .nil nodes) := by
  ext fuel : 2
  cases node with
  | exprStmt => exact absurd .expr (h _)
  | assign => exact absurd .assign (h _)
  | _ =>
    refine bind_congr fun signal => ?_
    cases signal with
    | _ => rfl

theorem hasValue_or (context : Context) (node : Node) :
    (∃ value, HasValue context node value) ∨ ∀ value, ¬ HasValue context node value :=
  (Classical.em _).imp_right not_exists.mp

/-- Only the last statement decides the value. -/
theorem program_result (result result' : Value) (h : nodes ≠ []) :
    program context result nodes = program context result' nodes := by
  cases nodes with
  | nil => exact absurd rfl h
  | cons node nodes => rfl

theorem program_cons {result : Value} (h : nodes ≠ []) :
    program context result (node :: nodes) ≈
      (execute context node >>= resume (program context .nil nodes)) := by
  rcases hasValue_or context node with ⟨value, hv⟩ | hv
  · rw [hv.program]
    refine Setoid.trans ?_ (bind_equiv_left (Setoid.symm hv.execute))
    rw [bind_assoc]
    apply bind_equiv_right
    intro result
    apply equiv_of_eq
    rw [pure_bind, resume, program_result result .nil h]
  · exact equiv_of_eq (program_of_not hv)

theorem program_concat {before : List Node} {last : Node} {result : Value} :
    program context result (before ++ [last]) ≈
      (sequence context before >>= resume (program context .nil [last])) := by
  induction before generalizing result with
  | nil => exact Setoid.refl _
  | cons node before ih =>
    rw [List.cons_append, sequence_cons, bind_assoc]
    refine Setoid.trans (program_cons (List.append_ne_nil_of_right_ne_nil _ (by simp)))
      (bind_equiv_right fun signal => ?_)
    cases signal with
    | normal => exact ih
    | _ => exact Setoid.refl _

def finishing (context : Context) (action : Fuelled Value) : Fuelled Value :=
  ofFollows (fun fuel => Eval.finishing context (action.perform fuel)) context.debug
    fun hle => Comparison.lawful_budget.pairing.finishing rfl (action.follows hle)

theorem visible_finishing {action : Eval Value} {machine : Machine} :
    visible (Eval.finishing context action machine) = visible (action machine) := by
  unfold Eval.finishing
  cases action machine with
  | ok value after => simp [visible]
  | error failure after =>
    cases failure with
    | _ => simp [visible, Failure.reported]

theorem resembles_finishing {action : Fuelled Value} (h : Resembles action action) :
    Resembles (finishing context action) action := by
  constructor
  · rintro machine machine' result hm ⟨fuel, rfl, hs⟩
    have hv : visible (action.perform fuel machine) =
        visible ((finishing context action).perform fuel machine) := visible_finishing.symm
    obtain ⟨result', hr', hv'⟩ := h.1 machine machine' _ hm ⟨fuel, rfl, settled_of_visible hv hs⟩
    exact ⟨result', hr', hv'.trans hv⟩
  · intro machine machine' result hm hr
    obtain ⟨_, ⟨fuel, rfl, hs⟩, hv⟩ := h.1 machine machine' result hm hr
    have hv' : visible ((finishing context action).perform fuel machine') =
        visible (action.perform fuel machine') := visible_finishing
    exact ⟨_, ⟨fuel, rfl, settled_of_visible hv' hs⟩, hv'.trans hv⟩

theorem run_equiv {body : List Node} :
    run { context with calls := context.calls + 1 } (.program body) ≈
      (lift (Eval.note context 1 fun _ =>
          "run program: " ++ Integer.text body.length ++ " statements") >>= fun _ =>
        finishing context (program context .nil body)) :=
  equiv_of_succ fun _ => rfl

theorem resembles_run {body : List Node} :
    Resembles (run { context with calls := context.calls + 1 } (.program body))
      (program context .nil body) := by
  refine Resembles.equiv_left ?_ run_equiv
  exact .silent_bind (fun machine => exists_log_note machine)
    (resembles_finishing resembles_program)

variable {R : EStateM.Result Failure Machine α → EStateM.Result Failure Machine β → Prop}
  {machine : Machine}

def Leads (R : EStateM.Result Failure Machine α → EStateM.Result Failure Machine β → Prop)
    (family : Nat → Eval α) (family' : Nat → Eval β) (machine : Machine) : Prop :=
  ∀ result, Halts family machine result →
    ∃ result', Halts family' machine result' ∧ R result result'

theorem matches_iff {family : Nat → Eval α} {family' : Nat → Eval β} :
    Matches R family family' machine ↔
      Leads R family family' machine ∧ Leads (fun r' r => R r r') family' family machine := Iff.rfl

theorem Leads.lift {action : Eval α} {action' : Eval β} (hs : Settled (action' machine))
    (h : R (action machine) (action' machine)) :
    Leads R (Fuelled.lift action).perform (Fuelled.lift action').perform machine := by
  rintro _ ⟨_, rfl, -⟩
  exact ⟨_, ⟨0, rfl, hs⟩, h⟩

theorem Leads.bind {γ : Type} {action : Fuelled γ} {next : γ → Fuelled α} {next' : γ → Fuelled β}
    (hv : ∀ value after, Halts action.perform machine (.ok value after) →
      Leads R (next value).perform (next' value).perform after)
    (he : ∀ failure after, R (.error failure after) (.error failure after)) :
    Leads R (action >>= next).perform (action >>= next').perform machine := by
  intro result hr
  rcases halts_bind.mp hr with ⟨value, after, ha, hr⟩ | ⟨failure, after, ha, rfl⟩
  · obtain ⟨result', hr', h⟩ := hv value after ha result hr
    exact ⟨result', halts_bind.mpr (.inl ⟨value, after, ha, hr'⟩), h⟩
  · exact ⟨_, halts_bind.mpr (.inr ⟨failure, after, ha, rfl⟩), he failure after⟩

theorem Leads.equiv {first first' : Fuelled α} {second second' : Fuelled β}
    (hl : Leads R first'.perform second'.perform machine) (h : first ≈ first')
    (h' : second ≈ second') : Leads R first.perform second.perform machine := by
  intro result hr
  obtain ⟨result', hr', hrel⟩ := hl result ((h machine result).mp hr)
  exact ⟨result', (h' machine result').mpr hr', hrel⟩

theorem matches_lift {action : Eval α} {action' : Eval β} (hs : Settled (action machine))
    (hs' : Settled (action' machine)) (h : R (action machine) (action' machine)) :
    Matches R (lift action).perform (lift action').perform machine :=
  matches_iff.mpr ⟨.lift hs' h, .lift hs h⟩

theorem matches_bind {γ : Type} {action : Fuelled γ} {next : γ → Fuelled α} {next' : γ → Fuelled β}
    (hv : ∀ value after, Halts action.perform machine (.ok value after) →
      Matches R (next value).perform (next' value).perform after)
    (he : ∀ failure after, R (.error failure after) (.error failure after)) :
    Matches R (action >>= next).perform (action >>= next').perform machine :=
  matches_iff.mpr ⟨.bind (fun value after ha => (hv value after ha).1) he,
    .bind (fun value after ha => (hv value after ha).2) he⟩

theorem matches_equiv {first first' : Fuelled α} {second second' : Fuelled β} (h : first ≈ first')
    (h' : second ≈ second') (hm : Matches R first'.perform second'.perform machine) :
    Matches R first.perform second.perform machine :=
  matches_iff.mpr ⟨(matches_iff.mp hm).1.equiv h h', (matches_iff.mp hm).2.equiv h' h⟩

end Fuelled

/-- The value that statements leave: that of the last one if it has a value. -/
inductive LastValue (context : Context) (machine after : Machine) : List Node → Value → Prop where
  | none : LastValue context machine after [] .nil
  | expr {before : List Node} {expr : Node} {during : Machine} {value : Value} :
      Halts (fun fuel => Eval.sequence (Eval.execute fuel context) before) machine
        (.ok .normal during) →
      Halts (fun fuel => Eval.evaluate fuel context expr) during (.ok value after) →
      LastValue context machine after (before ++ [.exprStmt expr]) value
  | assign {before : List Node} {name : Json} {expr : Node} {during : Machine} {value : Value} :
      Halts (fun fuel => Eval.sequence (Eval.execute fuel context) before) machine
        (.ok .normal during) →
      Halts (fun fuel => Eval.assignment context false name (Eval.evaluate fuel context expr))
        during (.ok value after) →
      LastValue context machine after (before ++ [.assign name expr]) value
  | other {before : List Node} {last : Node} : (∀ expr, last ≠ .exprStmt expr) →
      (∀ name expr, last ≠ .assign name expr) →
      LastValue context machine after (before ++ [last]) .nil

/-- What a program answers when its statements, run as a block, end in some way. -/
inductive Answers (context : Context) (machine : Machine) (body : List Node) :
    EStateM.Result Failure Machine Signal → EStateM.Result Failure Machine Value → Prop where
  | normal {after : Machine} {value : Value} : LastValue context machine after body value →
      Answers context machine body (.ok .normal after) (.ok value after)
  | returned {after : Machine} {value : Value} :
      Answers context machine body (.ok (.returned value) after) (.ok value after)
  | breakLoop {after : Machine} : Answers context machine body (.ok .breakLoop after)
      (.error (.error (.jumpOutsideLoop "break")) after)
  | continueLoop {after : Machine} : Answers context machine body (.ok .continueLoop after)
      (.error (.error (.jumpOutsideLoop "continue")) after)
  | failed {failure : Failure} {after : Machine} :
      Answers context machine body (.error failure after) (.error failure after)

theorem Answers.of_ne {context : Context} {machine after : Machine} {body : List Node}
    {signal : Signal} (h : signal ≠ .normal) :
    Answers context machine body (.ok signal after) (Eval.afterCall signal after) := by
  cases signal with
  | normal => exact absurd rfl h
  | returned value => exact .returned
  | breakLoop => exact .breakLoop
  | continueLoop => exact .continueLoop

namespace Fuelled

variable {context : Context} {machine : Machine}

theorem settled_afterCall {signal : Signal} {after : Machine} :
    Settled (Eval.afterCall signal after) := by
  cases signal with
  | normal => exact settled_ok
  | returned value => exact settled_ok
  | breakLoop => exact settled_error.mpr nofun
  | continueLoop => exact settled_error.mpr nofun

theorem matches_last {before : List Node} {last : Node} {during : Machine}
    (h : Halts (sequence context before).perform machine (.ok .normal during)) :
    Matches (Answers context machine (before ++ [last])) (execute context last).perform
      (program context .nil [last]).perform during := by
  by_cases hv : ∃ value, HasValue context last value
  · obtain ⟨action, hv⟩ := hv
    refine matches_equiv hv.execute (equiv_of_eq hv.program) ?_
    refine matches_bind (fun value after ha => ?_) fun _ _ => .failed
    refine matches_lift settled_ok settled_ok (.normal ?_)
    cases hv with
    | expr => exact .expr h ha
    | assign => exact .assign h ha
  · have hn := not_exists.mp hv
    refine matches_equiv (equiv_of_eq (bind_pure _).symm) (equiv_of_eq (program_of_not hn)) ?_
    refine matches_bind (fun signal after ha => ?_) fun _ _ => .failed
    by_cases hs : signal = .normal
    · subst hs
      refine matches_lift settled_ok settled_ok (.normal (.other ?_ ?_))
      · rintro expr rfl
        exact hn _ .expr
      · rintro name expr rfl
        exact hn _ .assign
    · rw [resume_of_ne hs]
      exact matches_lift settled_ok settled_afterCall (.of_ne hs)

theorem matches_answers {body : List Node} :
    Matches (Answers context machine body) (sequence context body).perform
      (program context .nil body).perform machine := by
  rcases List.eq_nil_or_concat body with rfl | ⟨before, last, rfl⟩
  · exact matches_lift settled_ok settled_ok (.normal .none)
  · have he : sequence context (before ++ [last]) =
        sequence context before >>= andThen (execute context last) := by
      rw [sequence_append, sequence_singleton]
    rw [List.concat_eq_append]
    refine matches_equiv (equiv_of_eq he) program_concat ?_
    refine matches_bind (fun signal during hb => ?_) fun _ _ => .failed
    by_cases hn : signal = .normal
    · subst hn
      exact matches_last hb
    · rw [andThen_of_ne hn, resume_of_ne hn]
      exact matches_lift settled_ok settled_afterCall (.of_ne hn)

theorem perform_call {fuel : Nat} {function : Value} {args : List Value} :
    (call context function args).perform fuel = Eval.call fuel context function args := rfl

theorem call_exec {source : String} {root : Node} (hp : parse source = .ok root) :
    call context (.builtin .exec) [.str source] ≈
      (lift (Eval.note context 2 fun _ => "call builtin " ++ Builtin.exec.name ++ " with " ++
          Integer.text (1 : Nat) ++ " arguments") >>= fun _ =>
        lift (Eval.newFrame context.scope) >>= fun frame =>
          run { context with scope := frame } root) := by
  refine equiv_of_succ fun fuel => ?_
  rw [perform_call, Eval.call]
  simp only [hp]
  rfl

theorem call_closure {closure : Closure} {nodes : List Node} (hc : context.calls ≠ 0)
    (hp : closure.params = []) (hb : closure.body = .block nodes) :
    call context (.closure closure) [] ≈
      (lift (Eval.newFrame closure.scope) >>= fun frame =>
        lift (do
          let depth := (← get).store.depth frame
          Eval.noteCall context (.closure closure) depth) >>= fun _ =>
        sequence ⟨frame, context.debug, context.calls - 1⟩ nodes >>= fun signal =>
          lift (Eval.afterCall signal)) := by
  refine equiv_of_succ fun fuel => ?_
  rw [perform_call, Eval.call]
  simp only [hp, hb, if_neg hc]
  rfl

theorem exists_log_noteCall {closure : Closure} (h : closure.params = []) {frame : Nat}
    (machine : Machine) : ∃ log, (do
      let depth := (← get).store.depth frame
      Eval.noteCall context (.closure closure) depth : Eval PUnit) machine =
        .ok () { machine with log } := by
  have ht : (Value.closure closure).hasText = true := by
    simp [Value.hasText, Closure.paramNames?, h]
  show ∃ log, Eval.noteCall context (.closure closure) (machine.store.depth frame) machine = _
  unfold Eval.noteCall Eval.demandText
  rw [ht]
  split
  · exact exists_log_note machine
  · exact exists_log_note machine

/-- A function returns where a program ends with an expression. -/
theorem program_return {before : List Node} {expr : Node} (hn : expr ≠ .null) :
    program context .nil (before ++ [.exprStmt expr]) ≈
      (sequence context (before ++ [.returnStmt expr]) >>= fun signal =>
        lift (Eval.afterCall signal)) := by
  refine Setoid.trans program_concat ?_
  rw [sequence_append, sequence_singleton, bind_assoc]
  refine bind_equiv_right fun signal => ?_
  cases signal with
  | normal =>
    refine Setoid.trans (equiv_of_eq HasValue.expr.program)
      (Setoid.symm (Setoid.trans (bind_equiv_left (execute_returnStmt hn)) ?_))
    exact equiv_of_eq (bind_assoc _ _ _)
  | _ => exact Setoid.refl _

theorem resembles_exec {source : String} {before : List Node} {expr : Node} (number : Nat)
    (hp : parse source = .ok (.program (before ++ [.exprStmt expr]))) (hc : context.calls ≠ 0) :
    Resembles
      (call context
        (.closure ⟨number, [], .block (before ++ [.returnStmt expr]), context.scope⟩) [])
      (call context (.builtin .exec) [.str source]) := by
  have hn : expr ≠ .null := by
    cases WellFormed.of_parse hp with
    | mk hw =>
      cases hw (.exprStmt expr) (by simp) with
      | assign h => cases h
      | expr h =>
        rintro rfl
        cases h
  obtain ⟨scope, debug, calls⟩ := context
  obtain ⟨calls, rfl⟩ := Nat.exists_eq_add_one_of_ne_zero hc
  refine (Resembles.equiv_left ?_ (call_closure hc rfl rfl)).equiv_right
    (Setoid.symm (call_exec hp))
  refine Resembles.symm (.silent_bind (fun machine => exists_log_note machine) ?_)
  refine resembles_newFrame.bind fun frame => ?_
  refine Resembles.symm (.silent_bind (fun machine => exists_log_noteCall rfl machine) ?_)
  have hrun := @resembles_run ⟨frame, debug, calls⟩ (before ++ [.exprStmt expr])
  exact hrun.symm.equiv_left (Setoid.symm (program_return hn))

end Fuelled

/-- A program answers what its statements end with as a block. `exec` of a text that ends with an
expression is a call of the function that returns it instead, and `exec` of a text that is not
parsed is the report. -/
theorem statement_lists_run_alike :
    (∀ context machine body,
      Matches (fun result result' => ∃ answer, Answers context machine body result answer ∧
          visible result' = visible answer)
        (fun fuel => Eval.sequence (Eval.execute fuel context) body)
        (fun fuel => Eval.run fuel { context with calls := context.calls + 1 } (.program body))
        machine) ∧
      (∀ source before expr, parse source = .ok (.program (before ++ [.exprStmt expr])) →
        ∀ context machine number, context.calls ≠ 0 →
          Matches (fun result result' => visible result' = visible result)
            (fun fuel => Eval.call fuel context
              (.closure ⟨number, [], .block (before ++ [.returnStmt expr]), context.scope⟩) [])
            (fun fuel => Eval.call fuel context (.builtin .exec) [.str source]) machine) ∧
      ∀ source error, parse source = .error error → ∀ context machine,
        ∃ after : Machine, after.unlogged = machine.unlogged ∧
          ∀ fuel, Eval.call (fuel + 1) context (.builtin .exec) [.str source] machine =
            .ok (.str (error.report source)) after := by
  refine ⟨fun context machine body => ?_, fun source before expr hp context machine number hc => ?_,
    fun source error hp context machine => ?_⟩
  · have hm : Matches (Answers context machine body) (Fuelled.sequence context body).perform
        (Fuelled.program context .nil body).perform machine := Fuelled.matches_answers
    constructor
    · intro result hr
      obtain ⟨answer, ha, hm⟩ := hm.1 result hr
      obtain ⟨result', hr', hv⟩ := Fuelled.resembles_run.2 machine machine answer rfl ha
      exact ⟨result', hr', answer, hm, hv⟩
    · intro result' hr'
      obtain ⟨answer, ha, hv⟩ := Fuelled.resembles_run.1 machine machine result' rfl hr'
      obtain ⟨result, hr, hm⟩ := hm.2 answer ha
      exact ⟨result, hr, answer, hm, hv.symm⟩
  · have h := Fuelled.resembles_exec number hp hc
    constructor
    · intro result hr
      exact h.1 machine machine result rfl hr
    · intro result' hr'
      obtain ⟨result, hr, hv⟩ := h.2 machine machine result' rfl hr'
      exact ⟨result, hr, hv.symm⟩
  · let message : Unit → String := fun _ =>
      "call builtin " ++ Builtin.exec.name ++ " with " ++ Integer.text (1 : Nat) ++ " arguments"
    refine ⟨machine.note context.debug 2 message, Machine.unlogged_note, fun fuel => ?_⟩
    rw [Eval.call]
    simp only [hp]
    rfl

/-- A text that is parsed and one that is not. -/
theorem statement_lists_run_alike_text :
    let number : Node := .literal (.int 2) (.str "Integer")
    let first : Node := .assign (.str "x") number
    let last : Node := .ident (.str "x")
    let root : Node := .program ([first] ++ [.exprStmt last])
    let context : Context := ⟨0, 0, 9⟩
    (parse root.render = .ok root ∧
      Matches (fun result result' => visible result' = visible result)
        (fun fuel => Eval.call fuel context
          (.closure ⟨0, [], .block ([first] ++ [.returnStmt last]), context.scope⟩) [])
        (fun fuel => Eval.call fuel context (.builtin .exec) [.str root.render])
        (.initial "")) ∧
      ∃ error, parse ")" = .error error ∧
        ∃ after : Machine, after.unlogged = (Machine.initial "").unlogged ∧
          ∀ fuel, Eval.call (fuel + 1) context (.builtin .exec) [.str ")"] (.initial "") =
            .ok (.str (error.report ")")) after := by
  intro number first last root context
  have hx : IsName "x".toList := by decide
  have hfirst : WellFormed.Statement first := .assign (.mk hx (.int (by decide)))
  have hroot : parse root.render = .ok root := by
    refine parse_render (.mk (List.forall_mem_append.mpr ⟨?_, ?_⟩))
    · exact List.forall_mem_singleton.mpr hfirst
    · exact List.forall_mem_singleton.mpr (.expr (.ident hx))
  have hexec := statement_lists_run_alike.2.1 _ _ _ hroot context (.initial "") 0 (by decide)
  refine ⟨⟨hroot, hexec⟩, ?_⟩
  have hnone : (parse ")").toOption.isNone = true := by decide +kernel
  cases he : parse ")" with
  | ok root =>
    rw [he] at hnone
    cases hnone
  | error error =>
    exact ⟨error, rfl, statement_lists_run_alike.2.2 _ _ he context (.initial "")⟩

end ScriptLang
