import ScriptLang.Proofs.Eval.Pairing

/-! # Comparing two runs

The same code is run twice, on machines that differ in their logs only. The second run may have
more fuel and another debug level. It does what the first one does, unless the first is lost: it
runs out of fuel, say. Messages are written but never read, so this follows from the operations
one by one.
-/

namespace ScriptLang

/-- How two runs are compared. -/
structure Comparison where
  first : Nat
  second : Nat
  Logs : Array LogEntry → Array LogEntry → Prop
  /-- Failures of the first run that say nothing about the second. -/
  Lost : Failure → Prop

namespace Comparison

variable (C : Comparison)

/-- Machines that differ in their logs only. -/
def Like (machine machine' : Machine) : Prop :=
  ∃ log, machine' = { machine with log } ∧ C.Logs machine.log log

inductive Agrees {α : Type} : EStateM.Result Failure Machine α → EStateM.Result Failure Machine α →
    Prop where
  | ok {result : α} {machine machine' : Machine} : C.Like machine machine' →
      Agrees (.ok result machine) (.ok result machine')
  | error {failure : Failure} {machine machine' : Machine} : C.Like machine machine' →
      Agrees (.error failure machine) (.error failure machine')

/-- The second action does what the first one does, unless that is lost. -/
def Follows {α : Type} (action action' : Eval α) : Prop :=
  ∀ machine machine', C.Like machine machine' →
    (∃ failure after, action machine = .error failure after ∧ C.Lost failure) ∨
      C.Agrees (action machine) (action' machine')

def pairing : Pairing := ⟨C.first, C.second, C.Follows⟩

structure Lawful : Prop where
  note {machine machine' : Machine} {level : Nat} {message : Unit → String} :
    C.Like machine machine' →
    C.Like (machine.note C.first level message) (machine'.note C.second level message)
  /-- Calls that are nested too deeply are reported as an error. -/
  tooDeep : C.Lost .tooDeep → C.Lost (.error .recursionTooDeep)
  /-- Only at some debug levels the text of a function is needed when it is called. -/
  text : 2 ≤ C.second → 2 ≤ C.first
  text' : 2 ≤ C.first → 2 ≤ C.second ∨ C.Lost (.fault .unusable)

variable {C} {α β : Type} {action action' : Eval α}

theorem Follows.pure {result : α} : C.Follows (pure result) (pure result) :=
  fun _ _ hm => .inr (.ok hm)

theorem Follows.throw {failure : Failure} :
    C.Follows (throw failure : Eval α) (throw failure) :=
  fun _ _ hm => .inr (.error hm)

theorem Follows.lost {failure : Failure} (h : C.Lost failure) :
    C.Follows (MonadExcept.throw failure) action :=
  fun machine _ _ => .inl ⟨failure, machine, rfl, h⟩

theorem Follows.bind {next next' : α → Eval β} (h : C.Follows action action')
    (hn : ∀ result, C.Follows (next result) (next' result)) :
    C.Follows (action >>= next) (action' >>= next') := by
  intro machine machine' hm
  show (∃ failure after, EStateM.bind action next machine = _ ∧ _) ∨
    C.Agrees (EStateM.bind action next machine) (EStateM.bind action' next' machine')
  unfold EStateM.bind
  rcases h machine machine' hm with ⟨failure, after, he, hl⟩ | ha
  · rw [he]
    exact .inl ⟨failure, after, rfl, hl⟩
  · generalize action machine = result at ha ⊢
    generalize action' machine' = result' at ha ⊢
    cases ha with
    | ok hm => exact hn _ _ _ hm
    | error hm => exact .inr (.error hm)

theorem Follows.modifyGet {change : Machine → α × Machine}
    (h : ∀ machine log, change { machine with log } =
      ((change machine).1, { (change machine).2 with log }))
    (hl : ∀ machine, (change machine).2.log = machine.log) :
    C.Follows (modifyGet change) (modifyGet change) := by
  rintro machine _ ⟨log, rfl, hlogs⟩
  refine .inr ?_
  show C.Agrees (.ok (change machine).1 (change machine).2)
    (.ok (change { machine with log }).1 (change { machine with log }).2)
  rw [h machine log]
  exact .ok ⟨log, rfl, (hl machine).symm ▸ hlogs⟩

theorem Follows.get {next next' : Machine → Eval β}
    (h : ∀ machine machine', machine'.store = machine.store →
      C.Follows (next machine) (next' machine')) :
    C.Follows (get >>= next) (get >>= next') := by
  rintro machine _ ⟨log, rfl, hlogs⟩
  exact h machine { machine with log } rfl machine { machine with log } ⟨log, rfl, hlogs⟩

section Lawful

variable {context : Context} {value : Value} (h : C.Lawful)
include h

theorem Lawful.follows_note (hd : context.debug = C.first) {level : Nat}
    {message : Unit → String} :
    C.Follows (Eval.note context level message)
      (Eval.note (C.pairing.other context) level message) := by
  intro machine machine' hm
  refine .inr (.ok ?_)
  rw [hd]
  exact h.note hm

theorem Lawful.follows_noteCall (hd : context.debug = C.first) {depth : Nat} :
    C.Follows (Eval.noteCall context value depth)
      (Eval.noteCall (C.pairing.other context) value depth) := by
  unfold Eval.noteCall
  dsimp only
  split
  · split
    · refine Follows.bind ?_ fun _ => h.follows_note hd
      unfold Eval.demandText
      split
      · exact .pure
      · exact .throw
    · rename_i hf hs
      have hl := (h.text' (hd ▸ hf)).resolve_left hs
      unfold Eval.demandText
      split
      · exact h.follows_note hd
      · exact fun machine _ _ => .inl ⟨_, machine, rfl, hl⟩
  · split
    · rename_i hf hs
      exact absurd (hd ▸ h.text hs) hf
    · exact h.follows_note hd

theorem Lawful.follows_finishing (hd : context.debug = C.first) {action action' : Eval Value}
    (ha : C.Follows action action') :
    C.Follows (Eval.finishing context action)
      (Eval.finishing (C.pairing.other context) action') := by
  intro machine machine' hm
  unfold Eval.finishing
  dsimp only [Pairing.other]
  rw [hd]
  rcases ha machine machine' hm with ⟨failure, after, he, hl⟩ | ha
  · rw [he]
    left
    cases failure with
    | tooDeep => exact ⟨_, _, rfl, h.tooDeep hl⟩
    | _ => exact ⟨_, _, rfl, hl⟩
  · right
    generalize action machine = result at ha
    generalize action' machine' = result' at ha
    cases ha with
    | ok hm => exact .ok (h.note hm)
    | @error failure _ _ hm =>
      cases failure with
      | _ => exact .error (h.note hm)

/-- The operations one by one do on the second machine what they do on the first. -/
theorem Lawful.pairing : C.pairing.Lawful where
  value := .pure
  failure := .throw
  bind := .bind
  frames := .get
  reframe _ := .modifyGet (fun _ _ => rfl) fun _ => rfl
  write := .modifyGet (fun _ _ => rfl) fun _ => rfl
  readLine := .modifyGet (fun _ _ => rfl) fun _ => rfl
  note hd := h.follows_note hd
  noteCall hd := h.follows_noteCall hd
  finishing hd := h.follows_finishing hd

omit h in
theorem affords (hl : C.Lost .outOfFuel) {fuel more : Nat} (hle : fuel ≤ more) :
    C.pairing.Affords fuel more :=
  .of_le hle fun _ => .lost hl

end Lawful

end Comparison

end ScriptLang
