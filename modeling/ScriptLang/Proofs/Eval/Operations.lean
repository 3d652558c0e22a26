import ScriptLang.Proofs.Eval.Discipline
import ScriptLang.Proofs.Number.Magnitude

/-! # Disciplined operations on values

The results of the operators and of the numeric functions keep to a discipline if integers of 64
bits do and if it allows for what may go wrong: errors, remainders of infinite numbers, texts that
are too long to be read as integers, and for larger integers all faults.
-/

namespace ScriptLang

namespace Value

theorem eq_of_number? {value : Value} {number : Number} (h : value.number? = some number) :
    value = number.toValue := by
  cases value with
  | int n => cases h; rfl
  | float x => cases h; rfl
  | _ => cases h

theorem eq_map_of_numbers {function : String} {values : List Value} {found : List Number}
    (h : numbers function values = .ok found) : values = found.map Number.toValue := by
  induction values generalizing found with
  | nil =>
    cases h
    rfl
  | cons value rest ih =>
    unfold numbers at h
    split at h
    · rename_i number hn
      cases hr : numbers function rest with
      | error failure =>
        rw [hr] at h
        cases h
      | ok others =>
        rw [hr] at h
        cases h
        rw [List.map_cons, ← eq_of_number? hn, ← ih hr]
    · cases h

theorem error_of_numbers {function : String} {values : List Value} {failure : Failure}
    (h : numbers function values = .error failure) :
    ∃ kind, failure = .error (.comparedNonNumber function kind) := by
  induction values with
  | nil => cases h
  | cons value rest ih =>
    unfold numbers at h
    split at h
    · cases hr : numbers function rest with
      | error other =>
        rw [hr] at h
        cases h
        exact ih hr
      | ok others =>
        rw [hr] at h
        cases h
    · cases h
      exact ⟨_, rfl⟩

theorem foldl_keep_mem (stays : Operator) (rest : List Number) (first : Number) :
    rest.foldl (keep stays) first ∈ first :: rest := by
  induction rest generalizing first with
  | nil => exact List.mem_cons_self
  | cons next rest ih =>
    rw [List.foldl_cons]
    have hk : keep stays first next = first ∨ keep stays first next = next := by
      unfold keep
      split
      · exact .inl rfl
      · exact .inr rfl
    rcases List.mem_cons.mp (ih (keep stays first next)) with h | h
    · rcases hk with hk | hk
      · rw [h, hk]
        exact List.mem_cons_self
      · rw [h, hk]
        exact List.mem_cons_of_mem _ List.mem_cons_self
    · exact List.mem_cons_of_mem _ (List.mem_cons_of_mem _ h)

theorem mem_of_extreme {function : String} {stays : Operator} {values : List Value} {best : Value}
    (h : extreme function stays values = .ok best) : best ∈ values := by
  unfold extreme at h
  split at h
  · cases h
  · cases h
  · rename_i hnil _
    split at h
    · cases h
    · rename_i hn
      exact absurd (eq_map_of_numbers hn) hnil
    · rename_i first rest hn
      cases h
      rw [eq_map_of_numbers hn]
      exact List.mem_map_of_mem (foldl_keep_mem stays rest first)

theorem error_of_extreme {function : String} {stays : Operator} {values : List Value}
    {failure : Failure} (h : extreme function stays values = .error failure) :
    failure = .error (.tooFewArguments function) ∨
      ∃ kind, failure = .error (.comparedNonNumber function kind) := by
  unfold extreme at h
  split at h
  · cases h
    exact .inl rfl
  · cases h
    exact .inl rfl
  · split at h
    · rename_i hn
      cases h
      exact .inr (error_of_numbers hn)
    · cases h
    · cases h

/-- The digits of an integer text that is not too long spell a short integer. -/
theorem isShort_of_splitInteger? {text digits : List Char} {negative : Bool}
    (h : Reading.splitInteger? text = some (negative, digits))
    (hl : digits.length ≤ Integer.digitLimit) :
    Integer.IsShort (Binary64.signed negative (DecimalDigit.valueOf 10 digits)) := by
  unfold Reading.splitInteger? at h
  dsimp only at h
  split at h
  · rename_i hd
    cases h
    obtain ⟨-, hall⟩ := Bool.and_eq_true_iff.mp hd
    rw [Integer.IsShort, Binary64.natAbs_signed]
    exact Nat.lt_of_lt_of_le (valueOf_lt (List.all_eq_true.mp hall))
      (Nat.pow_le_pow_right (by decide) hl)
  · cases h

end Value

namespace Discipline

structure Reckons (D : Discipline) : Prop where
  whole {n : Int} : Integer.inRange n = true → D.Whole n
  tmod {a b : Int} : D.Whole a → D.Whole b → D.Whole (a.tmod b)
  /-- There are only integers of 64 bits, or else all faults may occur. -/
  small {n : Int} : D.Whole n → Integer.inRange n = true ∨ ∀ fault, D.Fails (.fault fault)
  remainder : D.Fails (.fault .remainderUndefined)
  longText {digits : Nat} : D.Fails (.fault (.integerTextTooLong digits))
  error {error : RuntimeError} : (∀ op, error ≠ .unknownUnary op) →
    (∀ op, error ≠ .unknownOperator op) → D.Fails (.error error)

namespace Reckons

variable {D : Discipline} (r : D.Reckons) {a b : Value}
include r

theorem checked {n : Int} (h : Integer.IsShort n ∨ D.Fails (.fault .integerTooLong)) :
    D.Fine (Value.checked n) := by
  unfold Value.checked
  unfold Integer.IsShort at h
  rw [← Nat.pow_eq] at h
  -- The bound on lengths is too large to be evaluated.
  generalize Nat.pow 10 Integer.digitLimit = bound at *
  split
  · rename_i hr
    exact r.whole hr
  · split
    · rename_i hle
      exact h.resolve_left (Nat.not_lt_of_le hle)
    · exact r.error nofun nofun

theorem checked_of_whole {m n : Int} (hm : D.Whole m)
    (h : Integer.inRange m = true → Integer.IsShort n) : D.Fine (Value.checked n) := by
  rcases r.small hm with hm | hf
  · exact r.checked (.inl (h hm))
  · exact r.checked (.inr (hf _))

theorem integerArithmetic {operator : Operator} {m n : Int} (hm : D.Whole m) (hn : D.Whole n) :
    D.Fine (Value.integerArithmetic operator m n) := by
  have hboth {k : Int} (h : Integer.inRange m = true → Integer.inRange n = true →
      Integer.IsShort k) : D.Fine (Value.checked k) := by
    rcases r.small hn with hn | hf
    · exact r.checked_of_whole hm fun hm => h hm hn
    · exact r.checked (.inr (hf _))
  cases operator with
  | add => exact hboth Integer.isShort_add
  | sub => exact hboth Integer.isShort_sub
  | mul => exact hboth Integer.isShort_mul
  | div =>
    rw [Value.integerArithmetic, Integer.quotient_eq_tdiv]
    exact r.checked_of_whole hm Integer.isShort_tdiv
  | _ =>
    simp only [Value.integerArithmetic, Integer.remainder_eq_tmod]
    exact r.tmod hm hn

theorem floatArithmetic {operator : Operator} {x y : Binary64} :
    D.Fine (Value.floatArithmetic operator x y) := by
  unfold Value.floatArithmetic
  split
  · trivial
  · trivial
  · trivial
  · trivial
  · cases x.rem? y with
    | none => exact r.remainder
    | some r => trivial

theorem number_toFloat {number : Number} (h : D.Holds number.toValue) :
    (∃ x, number.toFloat = .ok x) ∨
      number.toFloat = .error (.fault .tooLargeForFloat) ∧ D.Fails (.fault .tooLargeForFloat) := by
  cases number with
  | int n =>
    rw [Number.toFloat]
    cases hx : Binary64.ofInt? n with
    | some x => exact .inl ⟨x, rfl⟩
    | none =>
      rcases r.small h with hr | hf
      · obtain ⟨x, hs⟩ := Binary64.exists_ofInt? hr
        rw [hx] at hs
        cases hs
      · exact .inr ⟨rfl, hf _⟩
  | float x => exact .inl ⟨x, rfl⟩

theorem bind_toFloat {number : Number} {next : Binary64 → Except Failure Value}
    (h : D.Holds number.toValue) (hn : ∀ x, D.Fine (next x)) :
    D.Fine (number.toFloat >>= next) := by
  rcases r.number_toFloat h with ⟨x, he⟩ | ⟨he, hf⟩
  · rw [he]
    exact hn x
  · rw [he]
    exact hf

theorem arithmetic {operator : Operator} (ha : D.Holds a) (hb : D.Holds b) :
    D.Fine (Value.arithmetic operator a b) := by
  unfold Value.arithmetic
  split
  · rename_i x y hx hy
    rw [Value.eq_of_number? hx] at ha
    rw [Value.eq_of_number? hy] at hb
    split
    · exact r.error nofun nofun
    · split
      · exact r.error nofun nofun
      · split
        · exact r.integerArithmetic ha hb
        · exact r.bind_toFloat ha fun x => r.bind_toFloat hb fun y => r.floatArithmetic
  · exact r.error nofun nofun

theorem comparison {operator : Operator} : D.Fine (Value.comparison operator a b) := by
  unfold Value.comparison
  split
  · trivial
  · exact r.error nofun nofun

omit r in
theorem map_text {join : String → String} (ha : D.Holds a) :
    D.Fine (a.textOrFault.map fun text => .str (join text)) := by
  rcases textOrFault_cases ha with ⟨text, he⟩ | ⟨he, hf⟩
  · rw [he]
    trivial
  · rw [he]
    exact hf

theorem sum (ha : D.Holds a) (hb : D.Holds b) : D.Fine (Value.sum a b) := by
  unfold Value.sum
  split
  · exact map_text hb
  · exact map_text ha
  · exact r.arithmetic ha hb

theorem apply {operator : Operator} (ha : D.Holds a) (hb : D.Holds b) (hand : operator ≠ .and)
    (hor : operator ≠ .or) : D.Fine (Value.apply operator a b) := by
  cases operator with
  | add => exact r.sum ha hb
  | sub => exact r.arithmetic ha hb
  | mul => exact r.arithmetic ha hb
  | div => exact r.arithmetic ha hb
  | mod => exact r.arithmetic ha hb
  | eq => trivial
  | ne => trivial
  | lt => exact r.comparison
  | gt => exact r.comparison
  | le => exact r.comparison
  | ge => exact r.comparison
  | and => exact absurd rfl hand
  | or => exact absurd rfl hor

theorem binary {op : Json} (ha : D.Holds a) (hb : D.Holds b)
    (hand : Operator.ofJson? op ≠ some .and) (hor : Operator.ofJson? op ≠ some .or)
    (hop : Operator.ofJson? op = none → D.Fails (.error (.unknownOperator op.display))) :
    D.Fine (a.binary op b) := by
  unfold Value.binary
  split
  · rename_i known hk
    exact r.apply ha hb (fun he => hand (he ▸ hk)) fun he => hor (he ▸ hk)
  · rename_i hn
    exact hop hn

theorem unary {op : Json} (ha : D.Holds a)
    (hop : op ≠ .str "not" → op ≠ .str "neg" → D.Fails (.error (.unknownUnary op.display))) :
    D.Fine (a.unary op) := by
  unfold Value.unary
  split
  · trivial
  · split
    · exact r.checked_of_whole ha fun hr => Integer.isShort_of_natAbs_le hr (Int.natAbs_neg _).le
    · trivial
    · exact r.error nofun nofun
  · rename_i hnot hneg
    exact hop hnot hneg

theorem ofFinite {function : String} {x : Binary64} {result : Option Int}
    (h : ∀ n ∈ result, Integer.IsShort n) : D.Fine (Value.ofFinite function x result) := by
  cases result with
  | none => exact r.error nofun nofun
  | some n => exact r.checked (.inl (h n rfl))

theorem integerOfText {text : String} : D.Fine (Value.integerOfText text) := by
  unfold Value.integerOfText
  split
  · trivial
  · rename_i hs
    split
    · exact r.longText
    · rename_i hl
      exact r.checked (.inl (Value.isShort_of_splitInteger? hs (Nat.le_of_not_lt hl)))

theorem ofBool (b : Bool) : D.Whole (Value.ofBool b) := by
  cases b with
  | false => exact r.whole rfl
  | true => exact r.whole rfl

theorem toInteger (ha : D.Holds a) : D.Fine a.toInteger := by
  cases a with
  | int n => exact ha
  | float x => exact r.ofFinite fun n hn => Binary64.isShort_of_truncate? hn
  | str text => exact r.integerOfText
  | bool b => exact r.ofBool b
  | nil => trivial
  | _ => exact r.error nofun nofun

theorem map_toFloat {number : Number} (h : D.Holds number.toValue) :
    D.Fine (number.toFloat.map .float) := by
  rcases r.number_toFloat h with ⟨x, he⟩ | ⟨he, hf⟩
  · rw [he]
    trivial
  · rw [he]
    exact hf

theorem toFloat (ha : D.Holds a) : D.Fine a.toFloat := by
  cases a with
  | int n => exact r.map_toFloat ha
  | float x => trivial
  | str text =>
    show D.Holds ((Reading.float? text).elim .nil .float)
    cases Reading.float? text with
    | none => trivial
    | some x => trivial
  | bool b => exact r.map_toFloat (r.ofBool b)
  | nil => trivial
  | _ => exact r.error nofun nofun

theorem round (ha : D.Holds a) : D.Fine a.round := by
  cases a with
  | int n => exact ha
  | float x => exact r.ofFinite fun n hn => Binary64.isShort_of_round? hn
  | bool b => exact r.ofBool b
  | _ => exact r.error nofun nofun

theorem abs (ha : D.Holds a) : D.Fine a.abs := by
  cases a with
  | int n =>
    exact r.checked_of_whole ha fun hr =>
      Integer.isShort_of_natAbs_le hr (Int.natAbs_natCast _).le
  | _ => trivial

theorem extreme {function : String} {stays : Operator} {values : List Value}
    (h : ∀ value ∈ values, D.Holds value) : D.Fine (Value.extreme function stays values) := by
  cases he : Value.extreme function stays values with
  | ok best => exact h best (Value.mem_of_extreme he)
  | error failure =>
    obtain rfl | ⟨kind, rfl⟩ := Value.error_of_extreme he
    · exact r.error nofun nofun
    · exact r.error nofun nofun

end Reckons

end Discipline

end ScriptLang
