import Mathlib.Data.Int.ConditionallyCompleteOrder
import Mathlib.Data.Rat.Cast.Order
import Mathlib.Order.Compare
import Mathlib.Order.WithBot
import ScriptLang.Proofs.Number.Magnitude
import ScriptLang.Value.Order

/-! # Exact values

Finite numbers stand for rational numbers, integers for themselves, and the infinities for the ends
of the order. Numbers of both kinds are compared by these values, without any rounding.
-/

namespace ScriptLang

namespace Binary64

variable {code : Nat}

theorem signed_false (magnitude : Nat) : signed false magnitude = magnitude := rfl

theorem signed_true (magnitude : Nat) : signed true magnitude = -magnitude := rfl

def exact (negative : Bool) (code : Nat) : ℚ := signed negative (units code) / scale

theorem scale_pos_rat : (0 : ℚ) < scale := Nat.cast_pos.mpr Shortest.scale_pos

theorem exact_false (code : Nat) : exact false code = units code / scale := rfl

theorem exact_true (code : Nat) : exact true code = -exact false code := by
  rw [exact_false, ← neg_div, exact, signed_true, Int.cast_neg, Int.cast_natCast]

theorem exact_of_units {n : Nat} (h : units code = n * scale) : exact false code = n := by
  rw [exact_false, h, Nat.cast_mul, mul_div_cancel_right₀ _ scale_pos_rat.ne']

end Binary64

/-- Rational numbers between two infinities. -/
abbrev ExtendedRational := WithBot (WithTop ℚ)

def ExtendedRational.ofRat (x : ℚ) : ExtendedRational := ((x : WithTop ℚ) : WithBot (WithTop ℚ))

namespace ExtendedRational

theorem ofRat_strictMono : StrictMono ofRat :=
  fun _ _ h => WithBot.coe_lt_coe.mpr (WithTop.coe_lt_coe.mpr h)

theorem bot_lt_ofRat (x : ℚ) : ⊥ < ofRat x := WithBot.bot_lt_coe _

theorem ofRat_lt_top (x : ℚ) : ofRat x < ⊤ := WithBot.coe_lt_coe.mpr (WithTop.coe_lt_top _)

end ExtendedRational

open ExtendedRational

namespace Extended

def value : Extended → ExtendedRational
  | negInfinity => ⊥
  | finite units => ofRat (units / Binary64.scale)
  | posInfinity => ⊤

theorem value_finite_strictMono : StrictMono fun units => (finite units).value :=
  fun _ _ h => ofRat_strictMono
    ((div_lt_div_iff_of_pos_right Binary64.scale_pos_rat).mpr (Int.cast_lt.mpr h))

theorem compare_eq_cmp (a b : Extended) : a.compare b = cmp a.value b.value := by
  have hbot (x : ℚ) := bot_lt_ofRat x
  have htop (x : ℚ) := ofRat_lt_top x
  cases a with
  | negInfinity =>
    cases b with
    | negInfinity => exact (cmp_self_eq_eq _).symm
    | finite units => exact ((cmp_eq_lt_iff _ _).mpr (hbot _)).symm
    | posInfinity => exact ((cmp_eq_lt_iff _ _).mpr bot_lt_top).symm
  | finite units =>
    cases b with
    | negInfinity => exact ((cmp_eq_gt_iff _ _).mpr (hbot _)).symm
    | finite other => exact (cmp_eq_compare _ _).symm.trans (value_finite_strictMono.cmp_map_eq _ _).symm
    | posInfinity => exact ((cmp_eq_lt_iff _ _).mpr (htop _)).symm
  | posInfinity =>
    cases b with
    | negInfinity => exact ((cmp_eq_gt_iff _ _).mpr bot_lt_top).symm
    | finite units => exact ((cmp_eq_gt_iff _ _).mpr (htop _)).symm
    | posInfinity => exact (cmp_self_eq_eq _).symm

end Extended

namespace Number

variable {a b : Number} {x y : ExtendedRational}

/-- The exact value of a number, which all but one have. -/
def exactValue? : Number → Option ExtendedRational
  | int n => some (ofRat n)
  | float .nan => none
  | float (.infinite negative) => some (if negative then ⊥ else ⊤)
  | float (.finite negative code) => some (ofRat (Binary64.exact negative code))

theorem exactValue?_eq (number : Number) :
    number.exactValue? = number.extended?.map Extended.value := by
  cases number with
  | int n =>
    have hscale := Binary64.scale_pos_rat.ne'
    have hvalue : ((n * Binary64.scale : Int) : ℚ) / Binary64.scale = n := by
      rw [Int.cast_mul, Int.cast_natCast, mul_div_cancel_right₀ _ hscale]
    exact congrArg (fun x => some (ofRat x)) hvalue.symm
  | float x =>
    cases x with
    | nan => rfl
    | infinite negative =>
      cases negative with
      | true => rfl
      | false => rfl
    | finite negative code => rfl

theorem exactValue?_eq_none_iff : a.exactValue? = none ↔ a = .float .nan := by
  cases a with
  | int n => simp [exactValue?]
  | float x =>
    cases x with
    | nan => simp [exactValue?]
    | infinite negative => simp [exactValue?]
    | finite negative code => simp [exactValue?]

/-- Numbers are compared as their exact values are. -/
theorem compare_eq_cmp (hx : a.exactValue? = some x) (hy : b.exactValue? = some y) :
    compare a b = some (cmp x y) := by
  have hextended (ha : a.exactValue? = some x) (hb : b.exactValue? = some y) :
      (a.extended?.bind fun u => b.extended?.map u.compare) = some (cmp x y) := by
    rw [exactValue?_eq] at ha hb
    obtain ⟨u, hu, rfl⟩ := Option.map_eq_some_iff.mp ha
    obtain ⟨v, hv, rfl⟩ := Option.map_eq_some_iff.mp hb
    rw [hu, hv, Option.bind_some, Option.map_some, Extended.compare_eq_cmp]
  cases a with
  | int m =>
    cases b with
    | int n =>
      cases hx
      cases hy
      have hmono : StrictMono fun k : Int => ofRat k := fun _ _ h => ofRat_strictMono (Int.cast_lt.mpr h)
      exact congrArg some ((cmp_eq_compare m n).symm.trans (hmono.cmp_map_eq m n).symm)
    | float d => exact hextended hx hy
  | float d => exact hextended hx hy

theorem compare_eq_none (h : a.exactValue? = none ∨ b.exactValue? = none) : compare a b = none := by
  rw [exactValue?_eq_none_iff, exactValue?_eq_none_iff] at h
  obtain rfl | rfl := h
  · rfl
  · cases a with
    | int n => rfl
    | float x => simp [compare, extended?]

end Number

end ScriptLang
