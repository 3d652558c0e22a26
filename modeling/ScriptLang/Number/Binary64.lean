/-! # Binary floating point

A finite number of the 64-bit format is a sign and a code, the bits below the sign read as a
natural number. Codes grow with the magnitudes they stand for, and every magnitude is a whole
number of units of `2 ^ -1074`, so all operations are exact natural arithmetic followed by one
rounding of a quotient.
-/

namespace ScriptLang

/-- The number of codes that share an exponent. -/
abbrev Binary64.binade : Nat := 1 <<< 52

/-- The code of infinity; all smaller codes are finite. -/
abbrev Binary64.codeBound : Nat := 2047 * Binary64.binade

/-- A number of the 64-bit binary format. All that is not a number is one value. -/
inductive Binary64 where
  | nan
  | infinite (negative : Bool)
  | finite (negative : Bool) (code : Fin Binary64.codeBound)
  deriving DecidableEq

namespace Binary64

/-- The magnitude of a code, in units of `2 ^ -1074`. -/
def units (code : Nat) : Nat :=
  if code / binade = 0 then code % binade
  else (binade + code % binade) <<< (code / binade - 1)

/-- The number of units in one. -/
def scale : Nat := 1 <<< 1074

def signed (negative : Bool) (magnitude : Nat) : Int :=
  if negative then -(magnitude : Int) else magnitude

/-- The nearest natural number to a quotient; a half goes to the even neighbour. -/
def roundDiv (num den : Nat) : Nat :=
  let quotient := num / den
  let twice := 2 * (num % den)
  if twice < den then quotient
  else if den < twice then quotient + 1
  else quotient + quotient % 2

/-- The nearest number to a quotient of units; a half goes to the even code. -/
def ofRatio (negative : Bool) (num den : Nat) : Binary64 :=
  let whole := num / den
  let shift := if whole < 2 * binade then 0 else whole.log2 - 52
  let code := shift * binade + roundDiv num (den <<< shift)
  if h : code < codeBound then .finite negative ⟨code, h⟩ else .infinite negative

def zero (negative : Bool) : Binary64 := .finite negative ⟨0, by decide⟩

def half : Binary64 := .finite false ⟨1022 * binade, by decide⟩

def toUnits? : Binary64 → Option Int
  | .finite negative code => some (signed negative (units code))
  | _ => none

def signBit : Nat := 1 <<< 63

def ofBits (bits : Nat) : Binary64 :=
  let negative := signBit ≤ bits
  let code := bits % signBit
  if h : code < codeBound then .finite negative ⟨code, h⟩
  else if code = codeBound then .infinite negative
  else .nan

/-- The bit pattern; what is not a number has none of its own. -/
def toBits? : Binary64 → Option Nat
  | .nan => none
  | .infinite negative => some ((if negative then signBit else 0) + codeBound)
  | .finite negative code => some ((if negative then signBit else 0) + code)

def neg : Binary64 → Binary64
  | .nan => .nan
  | .infinite s => .infinite !s
  | .finite s code => .finite (!s) code

def abs : Binary64 → Binary64
  | .nan => .nan
  | .infinite _ => .infinite false
  | .finite _ code => .finite false code

/-- The sum. An exact zero is negative only if both terms are. -/
def add : Binary64 → Binary64 → Binary64
  | .nan, _ => .nan
  | _, .nan => .nan
  | .infinite s, .infinite t => if s = t then .infinite s else .nan
  | .infinite s, .finite .. => .infinite s
  | .finite .., .infinite t => .infinite t
  | .finite s a, .finite t b =>
    let sum := signed s (units a) + signed t (units b)
    if sum = 0 then zero (s && t) else ofRatio (sum < 0) sum.natAbs 1

def sub (x y : Binary64) : Binary64 := add x (neg y)

def mul : Binary64 → Binary64 → Binary64
  | .nan, _ => .nan
  | _, .nan => .nan
  | .infinite s, .infinite t => .infinite (s != t)
  | .infinite s, .finite t b => if b.val = 0 then .nan else .infinite (s != t)
  | .finite s a, .infinite t => if a.val = 0 then .nan else .infinite (s != t)
  | .finite s a, .finite t b => ofRatio (s != t) (units a * units b) scale

def div : Binary64 → Binary64 → Binary64
  | .nan, _ => .nan
  | _, .nan => .nan
  | .infinite _, .infinite _ => .nan
  | .infinite s, .finite t _ => .infinite (s != t)
  | .finite s _, .infinite t => zero (s != t)
  | .finite s a, .finite t b =>
    if b.val = 0 then if a.val = 0 then .nan else .infinite (s != t)
    else ofRatio (s != t) (units a * scale) (units b)

/-- The remainder of truncated division, with the sign of the dividend. There is none of an
infinite dividend, nor for the divisor zero. -/
def rem? : Binary64 → Binary64 → Option Binary64
  | .nan, _ => some .nan
  | _, .nan => some .nan
  | .infinite _, _ => none
  | .finite s a, .infinite _ => some (.finite s a)
  | .finite s a, .finite _ b =>
    if b.val = 0 then none else some (ofRatio s (units a % units b) 1)

def bounded? : Binary64 → Option Binary64
  | .infinite _ => none
  | x => some x

/-- The nearest number to an integer, unless that is infinite. -/
def ofInt? (n : Int) : Option Binary64 := (ofRatio (n < 0) (n.natAbs * scale) 1).bounded?

def truncate? (x : Binary64) : Option Int := x.toUnits?.map (·.tdiv scale)

/-- The nearest integer to a finite number, computed by adding a half away from zero and cutting
off the fraction. The sum itself is rounded. -/
def round? (x : Binary64) : Option Int :=
  x.toUnits?.bind fun u =>
    if 0 ≤ u then (add x half).toUnits?.map (·.fdiv scale)
    else (sub x half).toUnits?.map fun v => -(-v).fdiv scale

end Binary64

end ScriptLang
