import ScriptLang.Proofs.Eval.Comparison

/-! # Runs without a bound

Fuel only cuts runs short: once a run ends, more fuel does not change how. So an action that is
given for every amount of fuel has an end of its own, or none. Two such actions are the same if
they end alike, whatever fuel each of them needs.
-/

namespace ScriptLang

variable {α β : Type}

/-- The end of a run that was not cut short. -/
def Settled (result : EStateM.Result Failure Machine α) : Prop :=
  ∀ machine, result ≠ .error .outOfFuel machine

theorem settled_ok {value : α} {machine : Machine} :
    Settled (.ok value machine : EStateM.Result Failure Machine α) := fun _ h => nomatch h

theorem settled_error {failure : Failure} {machine : Machine} :
    Settled (.error failure machine : EStateM.Result Failure Machine α) ↔ failure ≠ .outOfFuel := by
  constructor
  · rintro h rfl
    exact h machine rfl
  · rintro h _ he
    cases he
    exact h rfl

theorem Settled.error {failure : Failure} {machine machine' : Machine}
    (h : Settled (.error failure machine : EStateM.Result Failure Machine α)) :
    Settled (.error failure machine' : EStateM.Result Failure Machine β) :=
  settled_error.mpr (settled_error.mp h)

/-- With enough fuel the run ends, and ends so. -/
def Halts (family : Nat → Eval α) (machine : Machine) (result : EStateM.Result Failure Machine α) :
    Prop :=
  ∃ fuel, family fuel machine = result ∧ Settled result

/-- Both runs end, and end alike, or neither does. -/
def EndAlike (family family' : Nat → Eval α) (machine : Machine) : Prop :=
  ∀ result, Halts family machine result ↔ Halts family' machine result

namespace Comparison

/-- Runs at one debug level. Only those that are cut short say nothing. -/
def atLevel (debug : Nat) (Logs : Array LogEntry → Array LogEntry → Prop) : Comparison :=
  ⟨debug, debug, Logs, (· = .outOfFuel)⟩

theorem lawful_atLevel {debug : Nat} {Logs : Array LogEntry → Array LogEntry → Prop}
    (h : ∀ {log log' entry}, Logs log log' → Logs (log.push entry) (log'.push entry)) :
    (atLevel debug Logs).Lawful where
  note := by
    rintro machine _ level message ⟨log, rfl, hlogs⟩
    unfold Machine.note
    show Like _ (if level ≤ debug then _ else _) (if level ≤ debug then _ else _)
    split
    · exact ⟨log.push ⟨level, message ()⟩, rfl, h hlogs⟩
    · exact ⟨log, rfl, hlogs⟩
  tooDeep := by
    intro h
    cases h
  text := id
  text' := .inl

def budget (debug : Nat) : Comparison := atLevel debug Eq

theorem lawful_budget {debug : Nat} : (budget debug).Lawful :=
  lawful_atLevel fun h => h ▸ rfl

theorem budget_paired {debug fuel more : Nat} (hle : fuel ≤ more) :
    (budget debug).pairing.Paired fuel more :=
  lawful_budget.pairing.paired (affords rfl hle)

theorem budget_follows_iff {debug : Nat} {action action' : Eval α} :
    (budget debug).Follows action action' ↔
      ∀ machine, Settled (action machine) → action' machine = action machine := by
  constructor
  · intro h machine hs
    rcases h machine machine ⟨_, rfl, rfl⟩ with ⟨failure, after, he, rfl⟩ | ha
    · exact absurd he (hs after)
    · generalize action machine = result at ha
      generalize action' machine = result' at ha
      cases ha with
      | ok hm =>
        obtain ⟨log, rfl, rfl⟩ := hm
        rfl
      | error hm =>
        obtain ⟨log, rfl, rfl⟩ := hm
        rfl
  · rintro h machine _ ⟨log, rfl, rfl⟩
    by_cases hs : Settled (action machine)
    · right
      show (budget debug).Agrees (action machine) (action' machine)
      rw [h machine hs]
      cases action machine with
      | ok result after => exact .ok ⟨_, rfl, rfl⟩
      | error failure after => exact .error ⟨_, rfl, rfl⟩
    · left
      obtain ⟨after, he⟩ := Classical.not_forall.mp hs
      exact ⟨.outOfFuel, after, Classical.not_not.mp he, rfl⟩

end Comparison

/-- An action for every amount of fuel. -/
@[ext]
structure Fuelled (α : Type) where
  perform : Nat → Eval α
  steady {fuel more : Nat} {machine : Machine} : fuel ≤ more → Settled (perform fuel machine) →
    perform more machine = perform fuel machine

namespace Fuelled

theorem follows (action : Fuelled α) {fuel more debug : Nat} (hle : fuel ≤ more) :
    (Comparison.budget debug).Follows (action.perform fuel) (action.perform more) :=
  Comparison.budget_follows_iff.mpr fun _ => action.steady hle

def ofFollows (perform : Nat → Eval α) (debug : Nat)
    (h : ∀ {fuel more}, fuel ≤ more →
      (Comparison.budget debug).Follows (perform fuel) (perform more)) : Fuelled α :=
  ⟨perform, fun hle => Comparison.budget_follows_iff.mp (h hle) _⟩

def lift (action : Eval α) : Fuelled α := ⟨fun _ => action, fun _ _ => rfl⟩

instance : Monad Fuelled where
  pure result := lift (pure result)
  bind action next := ofFollows
    (fun fuel => action.perform fuel >>= fun result => (next result).perform fuel) 0
    fun hle => (action.follows hle).bind fun result => (next result).follows hle

def looping (round : Fuelled (Option Signal)) : Fuelled Signal :=
  ofFollows (fun fuel => Eval.iterate (round.perform fuel) fuel) 0
    fun hle => Comparison.lawful_budget.pairing.iterate (round.follows hle)
      (Comparison.affords rfl hle)

variable {fuel : Nat} {machine : Machine}

@[simp] theorem perform_lift {action : Eval α} : (lift action).perform fuel = action := rfl

@[simp] theorem perform_pure {result : α} :
    (pure result : Fuelled α).perform fuel = pure result := rfl

@[simp] theorem perform_bind {action : Fuelled α} {next : α → Fuelled β} :
    (action >>= next).perform fuel =
      action.perform fuel >>= fun result => (next result).perform fuel := rfl

@[simp] theorem perform_ite {p : Prop} [Decidable p] {action other : Fuelled α} :
    (if p then action else other).perform fuel =
      if p then action.perform fuel else other.perform fuel := by
  split
  · rfl
  · rfl

instance : LawfulMonad Fuelled := LawfulMonad.mk' Fuelled
  (fun action => by
    ext fuel : 2
    exact bind_pure (action.perform fuel))
  (fun result next => by
    ext fuel : 2
    exact pure_bind result fun result => (next result).perform fuel)
  (fun action next last => by
    ext fuel : 2
    exact bind_assoc (action.perform fuel) _ _)

theorem halts_mono {action : Fuelled α} {result : EStateM.Result Failure Machine α} {more : Nat}
    (h : action.perform fuel machine = result) (hs : Settled result) (hle : fuel ≤ more) :
    action.perform more machine = result := by
  subst h
  exact action.steady hle hs

theorem halts_unique {action : Fuelled α} {result result' : EStateM.Result Failure Machine α}
    (h : Halts action.perform machine result) (h' : Halts action.perform machine result') :
    result = result' := by
  obtain ⟨fuel, h, hs⟩ := h
  obtain ⟨fuel', h', hs'⟩ := h'
  rw [← halts_mono h hs (Nat.le_max_left fuel fuel'),
    ← halts_mono h' hs' (Nat.le_max_right fuel fuel')]

theorem halts_lift {action : Eval α} {result : EStateM.Result Failure Machine α} :
    Halts (lift action).perform machine result ↔ action machine = result ∧ Settled result :=
  ⟨fun ⟨_, h⟩ => h, fun h => ⟨0, h⟩⟩

theorem halts_pure {value : α} {result : EStateM.Result Failure Machine α} :
    Halts (pure value : Fuelled α).perform machine result ↔ result = .ok value machine := by
  refine halts_lift.trans ⟨fun ⟨h, _⟩ => h.symm, ?_⟩
  rintro rfl
  exact ⟨rfl, settled_ok⟩

theorem halts_bind {action : Fuelled α} {next : α → Fuelled β}
    {result : EStateM.Result Failure Machine β} :
    Halts (action >>= next).perform machine result ↔
      (∃ value after, Halts action.perform machine (.ok value after) ∧
        Halts (next value).perform after result) ∨
      ∃ failure after, Halts action.perform machine (.error failure after) ∧
        result = .error failure after := by
  constructor
  · rintro ⟨fuel, h, hs⟩
    change EStateM.bind _ _ machine = result at h
    unfold EStateM.bind at h
    split at h
    · rename_i value after he
      exact .inl ⟨value, after, ⟨fuel, he, settled_ok⟩, fuel, h, hs⟩
    · rename_i failure after he
      subst h
      exact .inr ⟨failure, after, ⟨fuel, he, hs.error⟩, rfl⟩
  · rintro (⟨value, after, ⟨fuel, h, hs⟩, fuel', h', hs'⟩ | ⟨failure, after, ⟨fuel, h, hs⟩, rfl⟩)
    · refine ⟨max fuel fuel', ?_, hs'⟩
      change EStateM.bind _ _ machine = result
      unfold EStateM.bind
      rw [halts_mono h hs (Nat.le_max_left fuel fuel')]
      exact halts_mono h' hs' (Nat.le_max_right fuel fuel')
    · refine ⟨fuel, ?_, hs.error⟩
      change EStateM.bind _ _ machine = _
      unfold EStateM.bind
      rw [h]

def Yields (action : Fuelled α) (P : α → Prop) : Prop :=
  ∀ machine value after, Halts action.perform machine (.ok value after) → P value

theorem yields_pure {value : α} {P : α → Prop} (h : P value) :
    (pure value : Fuelled α).Yields P := by
  intro machine value' after hv
  cases halts_pure.mp hv
  exact h

theorem yields_bind {action : Fuelled α} {next : α → Fuelled β} {P : β → Prop}
    (h : ∀ value, (next value).Yields P) : (action >>= next).Yields P := by
  intro machine value after hv
  rcases halts_bind.mp hv with ⟨_, _, -, hv⟩ | ⟨_, _, -, ⟨⟩⟩
  exact h _ _ _ _ hv

/-- A loop ends as one of its rounds says. -/
theorem yields_looping {round : Fuelled (Option Signal)} {P : Signal → Prop}
    (h : round.Yields fun result => ∀ signal ∈ result, P signal) : (looping round).Yields P := by
  rintro machine signal after ⟨fuel, hv, -⟩
  have hcount {count : Nat} {machine : Machine}
      (hv : Eval.iterate (round.perform fuel) count machine = .ok signal after) : P signal := by
    induction count generalizing machine with
    | zero => cases hv
    | succ count ih =>
      change EStateM.bind _ _ machine = _ at hv
      unfold EStateM.bind at hv
      split at hv
      · rename_i result during hr
        cases result with
        | none => exact ih hv
        | some last =>
          cases hv
          exact h _ _ _ ⟨fuel, hr, settled_ok⟩ signal rfl
      · cases hv
  exact hcount hv

instance : Setoid (Fuelled α) where
  r action action' := ∀ machine, EndAlike action.perform action'.perform machine
  iseqv := ⟨fun _ _ _ => .rfl, fun h machine result => (h machine result).symm,
    fun h h' machine result => (h machine result).trans (h' machine result)⟩

instance : @Trans (Fuelled α) (Fuelled α) (Fuelled α) (· ≈ ·) (· ≈ ·) (· ≈ ·) := ⟨Setoid.trans⟩

theorem equiv_of_eq {action action' : Fuelled α} (h : action = action') : action ≈ action' :=
  h ▸ Setoid.refl action

theorem Yields.of_equiv {action action' : Fuelled α} {P : α → Prop} (h : action.Yields P)
    (he : action' ≈ action) : action'.Yields P :=
  fun machine value after hv => h machine value after ((he machine _).mp hv)

theorem bind_equiv {action action' : Fuelled α} {next next' : α → Fuelled β}
    (h : action ≈ action') (hn : ∀ value, next value ≈ next' value) :
    (action >>= next) ≈ (action' >>= next') := by
  intro machine result
  rw [halts_bind, halts_bind]
  refine or_congr ?_ ?_
  · refine exists_congr fun value => exists_congr fun after => and_congr (h machine _) ?_
    exact hn value after result
  · refine exists_congr fun failure => exists_congr fun after => and_congr_left' ?_
    exact h machine _

theorem bind_equiv_right {action : Fuelled α} {next next' : α → Fuelled β}
    (hn : ∀ value, next value ≈ next' value) : (action >>= next) ≈ (action >>= next') :=
  bind_equiv (Setoid.refl action) hn

theorem bind_equiv_left {action action' : Fuelled α} {next : α → Fuelled β}
    (h : action ≈ action') : (action >>= next) ≈ (action' >>= next) :=
  bind_equiv h fun value => Setoid.refl (next value)

/-- What is done with values that never come does not matter. -/
theorem bind_equiv_self {action : Fuelled α} {next : α → Fuelled α}
    (h : action.Yields fun value => next value = pure value) : (action >>= next) ≈ action := by
  intro machine result
  rw [halts_bind]
  constructor
  · rintro (⟨value, after, hv, hr⟩ | ⟨failure, after, hf, rfl⟩)
    · rw [h _ _ _ hv, halts_pure] at hr
      rwa [hr]
    · exact hf
  · intro hr
    cases result with
    | ok value after => exact .inl ⟨value, after, hr, (h _ _ _ hr).symm ▸ halts_pure.mpr rfl⟩
    | error failure after => exact .inr ⟨failure, after, hr, rfl⟩

theorem Halts.of_follows {action action' : Fuelled α} {result : EStateM.Result Failure Machine α}
    (h : ∀ fuel, ∃ more,
      (Comparison.budget 0).Follows (action.perform fuel) (action'.perform more))
    (hr : Halts action.perform machine result) : Halts action'.perform machine result := by
  obtain ⟨fuel, rfl, hs⟩ := hr
  obtain ⟨more, hf⟩ := h fuel
  exact ⟨more, Comparison.budget_follows_iff.mp hf machine hs, hs⟩

theorem equiv_of_succ {action action' : Fuelled α}
    (h : ∀ fuel, action.perform (fuel + 1) = action'.perform fuel) : action ≈ action' := by
  refine fun machine result => ⟨Halts.of_follows fun fuel => ⟨fuel, ?_⟩,
    Halts.of_follows fun fuel => ⟨fuel + 1, ?_⟩⟩
  · rw [← h fuel]
    exact action.follows (Nat.le_succ fuel)
  · rw [h fuel]
    exact action'.follows Nat.le.refl

def afterRound (round : Fuelled (Option Signal)) : Option Signal → Fuelled Signal
  | none => looping round
  | some signal => pure signal

theorem looping_unfold (round : Fuelled (Option Signal)) :
    looping round ≈ (round >>= afterRound round) := by
  refine fun machine result => ⟨Halts.of_follows fun fuel => ⟨fuel, ?_⟩,
    Halts.of_follows fun fuel => ⟨fuel + 1, ?_⟩⟩
  · cases fuel with
    | zero => exact .lost rfl
    | succ fuel =>
      refine (round.follows Nat.le.refl).bind fun result => ?_
      cases result with
      | none =>
        exact Comparison.lawful_budget.pairing.iterate (round.follows Nat.le.refl)
          (Comparison.affords rfl (Nat.le_succ fuel))
      | some signal => exact .pure
  · refine (round.follows (Nat.le_succ fuel)).bind fun result => ?_
    cases result with
    | none =>
      exact Comparison.lawful_budget.pairing.iterate (round.follows (Nat.le_succ fuel))
        (Comparison.affords rfl Nat.le.refl)
    | some signal => exact .pure

theorem looping_congr {round round' : Fuelled (Option Signal)} (h : round ≈ round') :
    looping round ≈ looping round' := by
  -- By induction on the rounds that the fuel allows, each of which the other loop can do as well.
  have hforth {round round' : Fuelled (Option Signal)} (h : round ≈ round') {fuel count : Nat}
      {machine : Machine} {result : EStateM.Result Failure Machine Signal}
      (he : Eval.iterate (round.perform fuel) count machine = result) (hs : Settled result) :
      Halts (looping round').perform machine result := by
    induction count generalizing machine with
    | zero =>
      subst he
      exact absurd rfl (hs machine)
    | succ count ih =>
      rw [looping_unfold round' machine result, halts_bind]
      change EStateM.bind _ _ machine = result at he
      unfold EStateM.bind at he
      split at he
      · rename_i value after hv
        refine .inl ⟨value, after, (h machine _).mp ⟨fuel, hv, settled_ok⟩, ?_⟩
        cases value with
        | none => exact ih he
        | some signal => exact halts_pure.mpr he.symm
      · rename_i failure after hf
        subst he
        exact .inr ⟨failure, after, (h machine _).mp ⟨fuel, hf, hs.error⟩, rfl⟩
  exact fun machine result => ⟨fun ⟨fuel, he, hs⟩ => hforth h he hs,
    fun ⟨fuel, he, hs⟩ => hforth (Setoid.symm h) he hs⟩

section Evaluator

variable (context : Context)

def evaluate (node : Node) : Fuelled Value :=
  ofFollows (fun fuel => Eval.evaluate fuel context node) context.debug
    fun hle => (Comparison.budget_paired hle).evaluate rfl

def execute (node : Node) : Fuelled Signal :=
  ofFollows (fun fuel => Eval.execute fuel context node) context.debug
    fun hle => (Comparison.budget_paired hle).execute rfl

def call (function : Value) (args : List Value) : Fuelled Value :=
  ofFollows (fun fuel => Eval.call fuel context function args) context.debug
    fun hle => (Comparison.budget_paired hle).call rfl

def run (root : Node) : Fuelled Value :=
  ofFollows (fun fuel => Eval.run fuel context root) context.debug
    fun hle => (Comparison.budget_paired hle).run rfl

def sequence (nodes : List Node) : Fuelled Signal :=
  ofFollows (fun fuel => Eval.sequence (Eval.execute fuel context) nodes) context.debug
    fun hle => Comparison.lawful_budget.pairing.sequence fun _ =>
      (Comparison.budget_paired hle).execute rfl

def block (node : Node) : Fuelled Signal := lift (Eval.statementsOf node) >>= sequence context

def assignment (isLocal : Bool) (name : Json) (value : Node) : Fuelled Value :=
  ofFollows (fun fuel => Eval.assignment context isLocal name (Eval.evaluate fuel context value))
    context.debug fun hle => Comparison.lawful_budget.pairing.assignment rfl
      ((Comparison.budget_paired hle).evaluate rfl)

def header (isLocal : Bool) (node : Node) : Fuelled PUnit :=
  ofFollows (fun fuel => Eval.headerAssignment context isLocal (Eval.evaluate fuel context) node)
    context.debug fun hle => Comparison.lawful_budget.pairing.headerAssignment rfl fun _ =>
      (Comparison.budget_paired hle).evaluate rfl

def clauses (last : Node) (nodes : List Node) : Fuelled Signal :=
  ofFollows (fun fuel => Eval.clauses context (Eval.evaluate fuel context)
      (Eval.sequence (Eval.execute fuel context)) last nodes) context.debug
    fun hle => Comparison.lawful_budget.pairing.clauses rfl
      (fun _ => (Comparison.budget_paired hle).evaluate rfl)
      fun _ => Comparison.lawful_budget.pairing.sequence fun _ =>
        (Comparison.budget_paired hle).execute rfl

def test (loop : Loop) : Fuelled Bool :=
  match loop.condition? with
  | some condition => evaluate context condition >>= fun value => pure value.isTruthy
  | none => pure true

def afterBody (loop : Loop) : Signal → Fuelled (Option Signal)
  | .breakLoop => do
    lift (Eval.note context 3 fun _ => loop.keyword ++ ": break")
    pure (some .normal)
  | .returned value => pure (some (.returned value))
  | .normal | .continueLoop => do
    header context false loop.post
    pure none

def round (loop : Loop) : Fuelled (Option Signal) := do
  if ← test context loop then
    let signal ← block context loop.body
    afterBody context loop signal
  else pure (some .normal)

def choice (message : Value → String) (condition : Node) (yes no : Fuelled Signal) :
    Fuelled Signal := do
  let value ← evaluate context condition
  lift (Eval.demandText value)
  lift (Eval.note context 3 fun _ => message value)
  if value.isTruthy then yes else no

def andThen (next : Fuelled Signal) : Signal → Fuelled Signal
  | .normal => next
  | signal => pure signal

end Evaluator

variable {context : Context} {node condition value : Node} {nodes : List Node} {name : Json}

theorem sequence_nil : sequence context [] = pure .normal := rfl

theorem sequence_cons :
    sequence context (node :: nodes) =
      execute context node >>= andThen (sequence context nodes) := by
  ext fuel : 2
  refine bind_congr fun signal => ?_
  cases signal with
  | _ => rfl

theorem sequence_append {nodes' : List Node} :
    sequence context (nodes ++ nodes') =
      sequence context nodes >>= andThen (sequence context nodes') := by
  induction nodes with
  | nil => rfl
  | cons node nodes ih =>
    rw [List.cons_append, sequence_cons, sequence_cons, bind_assoc, ih]
    congr 1
    funext signal
    cases signal with
    | normal => rfl
    | _ => exact (pure_bind _ _).symm

theorem andThen_equiv {next next' : Fuelled Signal} (h : next ≈ next') (signal : Signal) :
    andThen next signal ≈ andThen next' signal := by
  cases signal with
  | normal => exact h
  | _ => exact Setoid.refl _

theorem andThen_of_ne {next : Fuelled Signal} {signal : Signal} (h : signal ≠ .normal) :
    andThen next signal = pure signal := by
  cases signal with
  | normal => exact absurd rfl h
  | _ => rfl

theorem bind_andThen_pure (action : Fuelled Signal) :
    (action >>= andThen (pure .normal)) = action := by
  refine Eq.trans (bind_congr fun signal => ?_) (bind_pure action)
  cases signal with
  | _ => rfl

theorem sequence_singleton : sequence context [node] = execute context node := by
  rw [sequence_cons, sequence_nil, bind_andThen_pure]

theorem block_eq : block context (.block nodes) = sequence context nodes :=
  pure_bind nodes _

theorem choice_equiv {message : Value → String} {yes yes' no no' : Fuelled Signal}
    (hy : yes ≈ yes') (hn : no ≈ no') :
    choice context message condition yes no ≈ choice context message condition yes' no' := by
  refine bind_equiv_right fun value => bind_equiv_right fun _ => bind_equiv_right fun _ => ?_
  split
  · exact hy
  · exact hn

theorem choice_bind {message : Value → String} {yes no : Fuelled Signal}
    {next : Signal → Fuelled Signal} :
    (choice context message condition yes no >>= next) =
      choice context message condition (yes >>= next) (no >>= next) := by
  simp only [choice, bind_assoc]
  refine bind_congr fun value => bind_congr fun _ => bind_congr fun _ => ?_
  split
  · rfl
  · rfl

theorem header_assign {isLocal : Bool} :
    header context isLocal (.assign name value) =
      assignment context isLocal name value >>= fun _ => pure () := rfl

theorem clauses_nil {last : Node} (h : last ≠ .null) :
    clauses context last [] = block context last := by
  ext fuel : 2
  show Eval.clauses _ _ _ _ _ = _
  unfold Eval.clauses
  split
  · exact absurd rfl h
  · rfl

theorem clauses_cons {last : Node} :
    clauses context last (.elseIf condition node :: nodes) =
      choice context (fun value => "else if condition " ++ value.text ++ " -> " ++
        (Json.bool value.isTruthy).inspect) condition
        (block context node) (clauses context last nodes) := by
  ext fuel : 2
  simp only [choice, perform_bind, perform_ite]
  rfl

theorem perform_round {loop : Loop} :
    (round context loop).perform = fun fuel => loop.round fuel context := by
  funext fuel
  simp only [round, block, bind_assoc, perform_bind, perform_ite]
  have htest : (test context loop).perform fuel = loop.test fuel context := by
    unfold test Loop.test
    cases loop.condition? with
    | none => rfl
    | some condition => rfl
  rw [htest]
  refine bind_congr fun goesOn => ite_congr rfl (fun _ => ?_) fun _ => rfl
  refine bind_congr fun nodes => bind_congr fun signal => ?_
  cases signal with
  | _ => rfl

theorem execute_exprStmt : execute context (.exprStmt value) ≈
    (evaluate context value >>= fun _ => pure .normal) :=
  equiv_of_succ fun _ => rfl

theorem execute_assign : execute context (.assign name value) ≈
    (assignment context false name value >>= fun _ => pure .normal) :=
  equiv_of_succ fun _ => rfl

theorem execute_block : execute context (.block nodes) ≈ sequence context nodes :=
  equiv_of_succ fun _ => rfl

theorem execute_ifStmt {body last : Node} :
    execute context (.ifStmt condition body nodes last) ≈
      choice context (fun value => "if condition " ++ value.text ++ " -> " ++
        (Json.bool value.isTruthy).inspect) condition
        (block context body) (clauses context last nodes) := by
  refine equiv_of_succ fun fuel => ?_
  simp only [choice, perform_bind, perform_ite]
  rfl

theorem execute_whileStmt {body : Node} : execute context (.whileStmt condition body) ≈
    looping (round context (.whileLoop condition body)) := by
  refine equiv_of_succ fun fuel => ?_
  show _ = Eval.iterate ((round _ _).perform fuel) fuel
  rw [perform_round]
  exact Loop.execute_whileStmt fuel context

theorem execute_loopStmt {body : Node} : execute context (.loopStmt body) ≈
    looping (round context (.endless body)) := by
  refine equiv_of_succ fun fuel => ?_
  show _ = Eval.iterate ((round _ _).perform fuel) fuel
  rw [perform_round]
  exact Loop.execute_loopStmt fuel context

theorem execute_forStmt {init post body : Node} :
    execute context (.forStmt init condition post body) ≈ (do
      let inner := { context with scope := ← lift (Eval.newFrame context.scope) }
      header inner true init
      looping (round inner (.forLoop condition post body))) := by
  refine equiv_of_succ fun fuel => ?_
  refine ScriptLang.execute_forStmt.trans (bind_congr fun frame => bind_congr fun _ => ?_)
  show _ = Eval.iterate ((round _ _).perform fuel) fuel
  rw [perform_round]

theorem execute_breakStmt : execute context .breakStmt ≈ pure .breakLoop :=
  equiv_of_succ fun _ => rfl

theorem execute_continueStmt : execute context .continueStmt ≈ pure .continueLoop :=
  equiv_of_succ fun _ => rfl

theorem execute_returnNull : execute context (.returnStmt .null) ≈ pure (.returned .nil) :=
  equiv_of_succ fun _ => rfl

theorem execute_returnStmt (h : value ≠ .null) : execute context (.returnStmt value) ≈
    (evaluate context value >>= fun value => pure (.returned value)) := by
  refine equiv_of_succ fun fuel => ?_
  cases value with
  | null => exact absurd rfl h
  | _ => rfl

end Fuelled

end ScriptLang
