import ScriptLang.Proofs.Eval.Soundness
import ScriptLang.Proofs.Number.ShortestDecimal

/-! # The two faults of parsed programs

Of the operators and built-in functions only two can fail without an error of the language, each on
certain values: `%` on an infinite dividend, and `int` on a text of too many digits.
-/

namespace ScriptLang

namespace Binary64

theorem bounded?_ne_infinite {x : Binary64} {negative : Bool} :
    x.bounded? ≠ some (.infinite negative) := by
  cases x with
  | _ => exact nofun

theorem ofInt?_ne_zero {n : Int} {x : Binary64} (h : ofInt? n = some x) (hn : n ≠ 0) :
    (∃ negative, ∃ code : Fin codeBound, x = .finite negative code ∧ code.val ≠ 0) := by
  obtain ⟨code, hnearest, he⟩ := exists_nearest (n.natAbs * scale) Nat.one_pos
  unfold ofInt? at h
  rw [he] at h
  split at h
  · rename_i hc
    cases h
    refine ⟨_, _, rfl, ?_⟩
    rintro rfl
    have hupper := hnearest.upper
    have hunits : (units 0 + units (0 + 1)) * 1 = 1 := by decide
    have hpos := Nat.mul_pos (Int.natAbs_pos.mpr hn) Shortest.scale_pos
    omega
  · cases h

theorem rem?_eq_none_iff {x y : Binary64} (hy : ∀ negative, y ≠ .zero negative) :
    x.rem? y = none ↔ (∃ negative, x = .infinite negative) ∧ y ≠ .nan := by
  cases x with
  | nan => simp [rem?]
  | infinite s =>
    cases y with
    | nan => simp [rem?]
    | infinite t => simp [rem?]
    | finite t b => simp [rem?]
  | finite s a =>
    cases y with
    | nan => simp [rem?]
    | infinite t => simp [rem?]
    | finite t b =>
      have hb : b.val ≠ 0 := fun h => hy t (congrArg (finite t) (Fin.ext h))
      simp [rem?, hb]

end Binary64

/-- Faults that only large integers and functions without a text lead to. -/
inductive Fault.Foreign : Fault → Prop where
  | integerTooLong : Foreign .integerTooLong
  | tooLargeForFloat : Foreign .tooLargeForFloat
  | unusable : Foreign .unusable

namespace Value

variable {operator : Operator} {a b : Value} {fault : Fault}

/-- A number that is neither zero nor what is not a number. -/
def IsDivisor (value : Value) : Prop :=
  ∃ number, value.number? = some number ∧ number.isZero = false ∧ number ≠ .float .nan

/-- A dividend and a divisor without a remainder. -/
def Undivided (a b : Value) : Prop :=
  (∃ negative, a = .float (.infinite negative)) ∧ b.IsDivisor

/-- A text of a sign and so many digits that they are not read. -/
def IsTooLong (text : String) (count : Nat) : Prop :=
  ∃ negative digits, Reading.splitInteger? text.toList = some (negative, digits) ∧
    digits.length = count ∧ Integer.digitLimit < count

theorem foreign_of_checked {n : Int} (h : checked n = .error (.fault fault)) :
    fault.Foreign := by
  unfold checked at h
  -- The bound on lengths is too large to be evaluated.
  generalize Nat.pow 10 Integer.digitLimit = bound at h
  split at h
  · cases h
  · split at h
    · cases h
      exact .integerTooLong
    · cases h

theorem foreign_of_integerArithmetic {m n : Int}
    (h : integerArithmetic operator m n = .error (.fault fault)) : fault.Foreign := by
  cases operator with
  | add => exact foreign_of_checked h
  | sub => exact foreign_of_checked h
  | mul => exact foreign_of_checked h
  | div => exact foreign_of_checked h
  | _ => cases h

theorem foreign_of_map_text {join : String → String}
    (h : (a.textOrFault.map fun text => str (join text)) = .error (.fault fault)) :
    fault.Foreign := by
  unfold textOrFault at h
  cases ht : a.text? with
  | some text =>
    rw [ht] at h
    cases h
  | none =>
    rw [ht] at h
    cases h
    exact .unusable

theorem failure_of_number_toFloat {number : Number} {failure : Failure}
    (h : number.toFloat = .error failure) : failure = .fault .tooLargeForFloat := by
  cases number with
  | int n =>
    rw [Number.toFloat] at h
    cases hx : Binary64.ofInt? n with
    | some x =>
      rw [hx] at h
      cases h
    | none =>
      rw [hx] at h
      cases h
      rfl
  | float x => cases h

theorem ofInt?_of_toFloat {n : Int} {x : Binary64} (h : (Number.int n).toFloat = .ok x) :
    Binary64.ofInt? n = some x := by
  rw [Number.toFloat] at h
  cases hx : Binary64.ofInt? n with
  | some y =>
    rw [hx] at h
    cases h
    rfl
  | none =>
    rw [hx] at h
    cases h

theorem toFloat_ne_zero {number : Number} {x : Binary64} (h : number.toFloat = .ok x)
    (hz : number.isZero = false) (negative : Bool) : x ≠ .zero negative := by
  cases number with
  | int n =>
    have hn : n ≠ 0 := by simpa [Number.isZero] using hz
    obtain ⟨s, code, rfl, hc⟩ := Binary64.ofInt?_ne_zero (ofInt?_of_toFloat h) hn
    exact fun he => hc (congrArg Fin.val (Binary64.finite.inj he).2)
  | float y =>
    cases h
    rintro rfl
    cases negative with
    | _ => simp [Number.isZero] at hz

/-- Only an infinite number is taken for one. -/
theorem eq_float_of_toFloat {number : Number} {negative : Bool}
    (h : number.toFloat = .ok (.infinite negative)) : number = .float (.infinite negative) := by
  cases number with
  | int n => exact absurd (ofInt?_of_toFloat h) Binary64.bounded?_ne_infinite
  | float x =>
    cases h
    rfl

def arithmeticOperators : List Operator := [.add, .sub, .mul, .div, .mod]

theorem failure_of_floatArithmetic {x y : Binary64} {failure : Failure}
    (ho : operator ∈ arithmeticOperators)
    (h : floatArithmetic operator x y = .error failure) :
    failure = .fault .remainderUndefined ∧ operator = .mod ∧ x.rem? y = none := by
  cases operator with
  | mod =>
    unfold floatArithmetic at h
    cases hr : x.rem? y with
    | some r =>
      rw [hr] at h
      cases h
    | none =>
      rw [hr] at h
      cases h
      exact ⟨rfl, rfl, rfl⟩
  | add => cases h
  | sub => cases h
  | mul => cases h
  | div => cases h
  | _ => exact absurd ho (by decide)

theorem fault_of_arithmetic (ho : operator ∈ arithmeticOperators)
    (h : arithmetic operator a b = .error (.fault fault)) :
    fault.Foreign ∨ fault = .remainderUndefined ∧ operator = .mod ∧ a.Undivided b := by
  unfold arithmetic at h
  split at h
  · rename_i x y hx hy
    split at h
    · cases h
    · split at h
      · cases h
      · rename_i hmod
        split at h
        · exact .inl (foreign_of_integerArithmetic h)
        · cases hu : x.toFloat with
          | error failure =>
            rw [hu, failure_of_number_toFloat hu] at h
            cases h
            exact .inl .tooLargeForFloat
          | ok u =>
            cases hv : y.toFloat with
            | error failure =>
              rw [hu, hv, failure_of_number_toFloat hv] at h
              cases h
              exact .inl .tooLargeForFloat
            | ok v =>
              rw [hu, hv] at h
              obtain ⟨hf, rfl, hr⟩ := failure_of_floatArithmetic ho h
              cases hf
              have hz : y.isZero = false := by simpa using hmod
              obtain ⟨⟨negative, rfl⟩, hn⟩ :=
                (Binary64.rem?_eq_none_iff (toFloat_ne_zero hv hz)).mp hr
              rw [eq_float_of_toFloat hu] at hx
              refine .inr ⟨rfl, rfl, ⟨negative, eq_of_number? hx⟩, y, hy, hz, ?_⟩
              rintro rfl
              cases hv
              exact hn rfl
  · cases h

theorem arithmetic_of_undivided (hb : b.Sound) (h : a.Undivided b) :
    arithmetic .mod a b = .error (.fault .remainderUndefined) := by
  obtain ⟨⟨negative, rfl⟩, number, hn, hz, hnan⟩ := h
  unfold arithmetic
  rw [hn]
  dsimp only [number?]
  rw [hz]
  have hfloat : ∃ x, number.toFloat = .ok x ∧ x ≠ .nan := by
    cases number with
    | int n =>
      obtain rfl := eq_of_number? hn
      obtain ⟨x, hx⟩ := Binary64.exists_ofInt? hb
      obtain ⟨s, code, rfl, -⟩ := Binary64.ofInt?_ne_zero hx (by simpa [Number.isZero] using hz)
      refine ⟨.finite s code, ?_, nofun⟩
      rw [Number.toFloat, hx]
      rfl
    | float x => exact ⟨x, rfl, fun he => hnan (congrArg _ he)⟩
  obtain ⟨x, hx, hne⟩ := hfloat
  have hrem : Binary64.rem? (.infinite negative) x = none := by
    cases x with
    | nan => exact absurd rfl hne
    | _ => rfl
  show floatArithmetic .mod (.infinite negative) =<< number.toFloat = _
  rw [hx]
  show (Binary64.rem? (.infinite negative) x).elim _ _ = _
  rw [hrem]
  rfl

theorem fault_of_apply (h : apply operator a b = .error (.fault fault)) :
    fault.Foreign ∨ fault = .remainderUndefined ∧ operator = .mod ∧ a.Undivided b := by
  cases operator with
  | add =>
    change sum a b = _ at h
    unfold sum at h
    split at h
    · exact .inl (foreign_of_map_text h)
    · exact .inl (foreign_of_map_text h)
    · exact fault_of_arithmetic (by decide) h
  | sub => exact fault_of_arithmetic (by decide) h
  | mul => exact fault_of_arithmetic (by decide) h
  | div => exact fault_of_arithmetic (by decide) h
  | mod => exact fault_of_arithmetic (by decide) h
  | eq => cases h
  | ne => cases h
  | and => cases h
  | or => cases h
  | _ =>
    change comparison _ a b = _ at h
    unfold comparison at h
    split at h
    · cases h
    · cases h

theorem binary_of_undivided (hb : b.Sound) (h : a.Undivided b) :
    a.binary (.str "%") b = .error (.fault .remainderUndefined) := by
  have hop : Operator.ofJson? (.str "%") = some .mod := by decide
  rw [binary, hop]
  exact arithmetic_of_undivided hb h

theorem ofJson?_eq_mod {op : String} (h : Operator.ofJson? (.str op) = some .mod) : op = "%" := by
  have hs := List.find?_some (p := fun known : Operator => known.symbol == op) h
  exact (beq_iff_eq.mp hs).symm

theorem fault_of_binary {op : String} (h : a.binary (.str op) b = .error (.fault fault)) :
    fault.Foreign ∨ fault = .remainderUndefined ∧ op = "%" ∧ a.Undivided b := by
  unfold binary at h
  split at h
  · rename_i known hk
    rcases fault_of_apply h with hf | ⟨hf, rfl, hu⟩
    · exact .inl hf
    · exact .inr ⟨hf, ofJson?_eq_mod hk, hu⟩
  · cases h

theorem foreign_of_unary {op : Json} (h : a.unary op = .error (.fault fault)) :
    fault.Foreign := by
  unfold unary at h
  split at h
  · cases h
  · split at h
    · exact foreign_of_checked h
    · cases h
    · cases h
  · cases h

theorem foreign_of_ofFinite {function : String} {x : Binary64} {result : Option Int}
    (h : ofFinite function x result = .error (.fault fault)) : fault.Foreign := by
  cases result with
  | some n => exact foreign_of_checked h
  | none => cases h

theorem fault_of_toInteger (h : a.toInteger = .error (.fault fault)) : fault.Foreign ∨
    ∃ text count, a = .str text ∧ IsTooLong text count ∧ fault = .integerTextTooLong count := by
  cases a with
  | float x => exact .inl (foreign_of_ofFinite h)
  | str text =>
    change integerOfText text = _ at h
    unfold integerOfText at h
    split at h
    · cases h
    · rename_i negative digits hs
      split at h
      · rename_i hl
        cases h
        exact .inr ⟨text, _, rfl, ⟨negative, digits, hs, rfl, hl⟩, rfl⟩
      · exact .inl (foreign_of_checked h)
  | _ => cases h

theorem toInteger_of_isTooLong {text : String} {count : Nat} (h : IsTooLong text count) :
    (str text).toInteger = .error (.fault (.integerTextTooLong count)) := by
  obtain ⟨negative, digits, hs, rfl, hl⟩ := h
  show integerOfText text = _
  rw [integerOfText, hs]
  exact if_pos hl

theorem foreign_of_map_toFloat {number : Number}
    (h : number.toFloat.map float = .error (.fault fault)) : fault.Foreign := by
  cases hx : number.toFloat with
  | ok x =>
    rw [hx] at h
    cases h
  | error failure =>
    rw [hx, failure_of_number_toFloat hx] at h
    cases h
    exact .tooLargeForFloat

theorem foreign_of_toFloat (h : a.toFloat = .error (.fault fault)) : fault.Foreign := by
  cases a with
  | int n => exact foreign_of_map_toFloat h
  | bool b => exact foreign_of_map_toFloat h
  | _ => cases h

theorem foreign_of_round (h : a.round = .error (.fault fault)) : fault.Foreign := by
  cases a with
  | float x => exact foreign_of_ofFinite h
  | _ => cases h

theorem foreign_of_abs (h : a.abs = .error (.fault fault)) : fault.Foreign := by
  cases a with
  | int n => exact foreign_of_checked h
  | _ => cases h

end Value

def Failure.IsError (failure : Failure) : Prop := ∃ error, failure = .error error

namespace Discipline

/-- On sound values operations fail with errors or with one of two faults. -/
def reckoning : Discipline :=
  { sound with
    Fails := fun failure => failure.IsError ∨ failure = .fault .remainderUndefined ∨
      ∃ digits, failure = .fault (.integerTextTooLong digits) }

theorem reckoning_reckons : reckoning.Reckons where
  whole h := h
  tmod h _ := Integer.inRange_tmod h
  small h := .inl h
  remainder := .inr (.inl rfl)
  longText := .inr (.inr ⟨_, rfl⟩)
  error _ _ := .inl ⟨_, rfl⟩

theorem holds_of_sound {Good : Store → Prop} {Fails : Failure → Prop} {value : Value}
    (h : value.Sound) : ({ sound with Good, Fails } : Discipline).Holds value := by
  cases value with
  | int n => exact h
  | closure function =>
    obtain ⟨⟨names, hp⟩, hb⟩ := h
    refine ⟨trivial, fun name hn => .inl ?_,
      .inl (Closure.isSome_paramNames?_iff.mpr ⟨names, hp⟩), ?_⟩
    · rw [hp] at hn
      obtain ⟨text, -, rfl⟩ := List.mem_map.mp hn
      rfl
    · obtain ⟨number, params, body, scope⟩ := function
      obtain ⟨hs⟩ := hb
      exact hs
  | _ => trivial

theorem isError_or_fault {result : Except Failure Value} {failure : Failure}
    (h : reckoning.Fine result) (he : result = .error failure) :
    failure.IsError ∨ ∃ fault, failure = .fault fault ∧ ¬fault.Foreign := by
  subst he
  rcases h with h | rfl | ⟨digits, rfl⟩
  · exact .inl h
  · exact .inr ⟨_, rfl, nofun⟩
  · exact .inr ⟨_, rfl, nofun⟩

theorem isError_of_foreign {result : Except Failure Value} {failure : Failure}
    (h : reckoning.Fine result) (hf : ∀ fault, result = .error (.fault fault) → fault.Foreign)
    (he : result = .error failure) : failure.IsError := by
  rcases isError_or_fault h he with h | ⟨fault, rfl, hn⟩
  · exact h
  · exact absurd (hf fault he) hn

end Discipline

open Discipline

namespace Value.Sound

variable {a b : Value} {failure : Failure}

theorem fine_binary {op : String} (ha : a.Sound) (hb : b.Sound) :
    reckoning.Fine (a.binary (.str op) b) := by
  by_cases hand : Operator.ofJson? (.str op) = some .and
  · rw [Value.binary, hand]
    exact .inl ⟨_, rfl⟩
  · by_cases hor : Operator.ofJson? (.str op) = some .or
    · rw [Value.binary, hor]
      exact .inl ⟨_, rfl⟩
    · exact reckoning_reckons.binary (holds_of_sound ha) (holds_of_sound hb) hand hor
        fun _ => .inl ⟨_, rfl⟩

/-- An operator fails with an error, or it is `%` on what has no remainder. -/
theorem binary_fails {op : String} (ha : a.Sound) (hb : b.Sound)
    (h : a.binary (.str op) b = .error failure) :
    failure.IsError ∨ failure = .fault .remainderUndefined ∧ op = "%" ∧ a.Undivided b := by
  rcases isError_or_fault (fine_binary ha hb) h with he | ⟨fault, rfl, hn⟩
  · exact .inl he
  · obtain ⟨rfl, hop, hu⟩ := (fault_of_binary h).resolve_left hn
    exact .inr ⟨rfl, hop, hu⟩

theorem unary_fails {op : Json} (ha : a.Sound) (h : a.unary op = .error failure) :
    failure.IsError :=
  isError_of_foreign (reckoning_reckons.unary (holds_of_sound ha) fun _ _ => .inl ⟨_, rfl⟩)
    (fun _ => foreign_of_unary) h

theorem toInteger_fails (ha : a.Sound) (h : a.toInteger = .error failure) :
    failure.IsError ∨ ∃ text count, a = .str text ∧ IsTooLong text count ∧
      failure = .fault (.integerTextTooLong count) := by
  rcases isError_or_fault (reckoning_reckons.toInteger (holds_of_sound ha)) h with
    he | ⟨fault, rfl, hn⟩
  · exact .inl he
  · obtain ⟨text, count, rfl, hl, rfl⟩ := (fault_of_toInteger h).resolve_left hn
    exact .inr ⟨text, count, rfl, hl, rfl⟩

theorem toFloat_fails (ha : a.Sound) (h : a.toFloat = .error failure) : failure.IsError :=
  isError_of_foreign (reckoning_reckons.toFloat (holds_of_sound ha))
    (fun _ => foreign_of_toFloat) h

theorem round_fails (ha : a.Sound) (h : a.round = .error failure) : failure.IsError :=
  isError_of_foreign (reckoning_reckons.round (holds_of_sound ha)) (fun _ => foreign_of_round) h

theorem abs_fails (ha : a.Sound) (h : a.abs = .error failure) : failure.IsError :=
  isError_of_foreign (reckoning_reckons.abs (holds_of_sound ha)) (fun _ => foreign_of_abs) h

theorem extreme_fails {function : String} {stays : Operator} {values : List Value}
    (h : extreme function stays values = .error failure) : failure.IsError := by
  obtain rfl | ⟨kind, rfl⟩ := error_of_extreme h
  · exact ⟨_, rfl⟩
  · exact ⟨_, rfl⟩

end Value.Sound

/-- How a built-in function fails that is not `exec`. -/
inductive BuiltinFails : Builtin → List Value → Failure → Prop where
  | error {function : Builtin} {args : List Value} {error : RuntimeError} :
      BuiltinFails function args (.error error)
  | exit {args : List Value} {code : Int} : BuiltinFails .exit args (.exit code)
  | tooLong {text : String} {count : Nat} : Value.IsTooLong text count →
      BuiltinFails .int [.str text] (.fault (.integerTextTooLong count))

theorem BuiltinFails.of_isError {function : Builtin} {args : List Value} {failure : Failure}
    (h : failure.IsError) : BuiltinFails function args failure := by
  obtain ⟨error, rfl⟩ := h
  exact .error

namespace Discipline

variable {function : Builtin} {args : List Value} {Fails : Failure → Prop}

def tame (Fails : Failure → Prop) : Discipline := { sound with Good := fun _ => True, Fails }

theorem tame_ofExcept {result : Except Failure Value}
    (h : ∀ failure, result = .error failure → Fails failure) :
    (tame Fails).Keeps (Eval.ofExcept result) fun _ => True := by
  cases result with
  | ok value => exact .pure trivial
  | error failure => exact .throw (h failure rfl)

theorem tame_textOf {value : Value} (h : value.Sound) :
    (tame Fails).Keeps (Eval.textOf value) fun _ => True :=
  keeps_textOf (holds_of_sound h)

theorem tame_builtin (hs : ∀ value ∈ args, value.Sound) :
    (tame (BuiltinFails function args)).Keeps (Eval.builtin function args) fun _ => True := by
  unfold Eval.builtin
  split
  · refine (keeps_mapM fun value hm => tame_textOf (hs value hm)).bind fun _ _ => ?_
    exact keeps_write.bind fun _ _ => .pure trivial
  · exact (tame_textOf (hs _ List.mem_cons_self)).bind fun _ _ => .pure trivial
  · exact (tame_textOf (hs _ List.mem_cons_self)).bind fun _ _ => .pure trivial
  · refine tame_ofExcept fun failure he => ?_
    rcases Value.Sound.toInteger_fails (hs _ List.mem_cons_self) he with
      h | ⟨text, count, rfl, hl, rfl⟩
    · exact .of_isError h
    · exact .tooLong hl
  · exact tame_ofExcept fun _ he =>
      .of_isError (Value.Sound.toFloat_fails (hs _ List.mem_cons_self) he)
  · exact tame_ofExcept fun _ he =>
      .of_isError (Value.Sound.round_fails (hs _ List.mem_cons_self) he)
  · exact tame_ofExcept fun _ he =>
      .of_isError (Value.Sound.abs_fails (hs _ List.mem_cons_self) he)
  · exact tame_ofExcept fun _ he => .of_isError (Value.Sound.extreme_fails he)
  · exact tame_ofExcept fun _ he => .of_isError (Value.Sound.extreme_fails he)
  · exact keeps_readLine.bind fun _ _ => .pure trivial
  · exact keeps_write.bind fun _ _ => keeps_readLine.bind fun _ _ => .pure trivial
  · exact .throw .error
  · exact .throw .error
  · exact .throw .exit
  · exact .throw .exit
  · exact .throw .error
  · exact .throw .error
  · exact .pure trivial

end Discipline

theorem builtin_fails {function : Builtin} {args : List Value} {machine after : Machine}
    {failure : Failure} (hs : ∀ value ∈ args, value.Sound)
    (h : Eval.builtin function args machine = .error failure after) :
    BuiltinFails function args failure := by
  have hends := (tame_builtin hs : (tame (BuiltinFails function args)).Keeps _ _) machine trivial
  rw [h] at hends
  exact hends.2

end ScriptLang
