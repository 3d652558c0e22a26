/-! # Integers of the language

Integers have 64 bits, and an operation whose exact result needs more is an error. Texts of more
than 4300 digits are neither read nor written.
-/

namespace ScriptLang.Integer

def least : Int := -9223372036854775808

def greatest : Int := 9223372036854775807

def inRange (n : Int) : Bool := least ≤ n && n ≤ greatest

/-- The greatest number of digits that is read or written. -/
def digitLimit : Nat := 4300

def text (n : Int) : String :=
  String.ofList (if n < 0 then '-' :: Nat.toDigits 10 n.natAbs else Nat.toDigits 10 n.natAbs)

/-- The quotient of the magnitudes, rounded down, and negative if the signs differ. -/
def quotient (a b : Int) : Int :=
  let magnitude : Int := (a.natAbs / b.natAbs : Nat)
  if decide (a < 0) != decide (b < 0) then -magnitude else magnitude

def remainder (a b : Int) : Int := a - b * quotient a b

theorem inRange_iff {n : Int} : inRange n = true ↔ least ≤ n ∧ n ≤ greatest := by
  simp [inRange]

theorem quotient_eq_tdiv (a b : Int) : quotient a b = a.tdiv b := by
  unfold quotient
  cases a with
  | ofNat m =>
    cases b with
    | ofNat n =>
      have hm := Int.not_lt.mpr (Int.natCast_nonneg m)
      have hn := Int.not_lt.mpr (Int.natCast_nonneg n)
      simp [Int.tdiv, hm, hn]
    | negSucc n => simp [Int.tdiv, Int.negSucc_lt_zero]
  | negSucc m =>
    cases b with
    | ofNat n => simp [Int.tdiv, Int.negSucc_lt_zero]
    | negSucc n => simp [Int.tdiv, Int.negSucc_lt_zero]

theorem remainder_eq_tmod (a b : Int) : remainder a b = a.tmod b := by
  rw [remainder, quotient_eq_tdiv, Int.tmod_def]

end ScriptLang.Integer
