/-
Doubles as exact numbers: every finite double is `m · 2^e` for a natural
number `m` and an integer `e`, and every fraction of natural numbers has a
nearest double (`nearest`, a tie going to the even significand).

What the machine's operations lack is built on these two: the remainder with
the sign of the dividend (`remainder`), rounding to an integer, and the length
of a pair (`hypotenuse`).
-/

namespace Workflow.Number

def twoTo (n : Nat) : Nat := Nat.pow 2 n

def tenTo (n : Nat) : Nat := Nat.pow 10 n

/-- A double taken apart: not a number, an infinity, or `± m · 2^e`. -/
inductive Parts where
  | nan
  | infinite (negative : Bool)
  | finite (negative : Bool) (m : Nat) (e : Int)
  deriving Repr, DecidableEq, Inhabited

/-- The parts of a double. A normal one has `2^52 ≤ m < 2^53`, a subnormal one the least exponent. -/
def parts (x : Float) : Parts :=
  let bits := x.toBits.toNat
  let negative := twoTo 63 ≤ bits
  let biased : Nat := (bits / twoTo 52) % twoTo 11
  let fraction := bits % twoTo 52
  if biased = 2047 then
    if fraction = 0 then .infinite negative else .nan
  else if biased = 0 then .finite negative fraction (-1074)
  else .finite negative (twoTo 52 + fraction) ((biased : Int) - 1075)

def infinity : Float := Float.ofBits 0x7ff0000000000000

def notANumber : Float := Float.ofBits 0x7ff8000000000000

def withSign (negative : Bool) (x : Float) : Float := if negative then -x else x

/-- Whether the sign bit is set; it is for the negative zero. -/
def signBit (x : Float) : Bool := twoTo 63 ≤ x.toBits.toNat

/-- Whether a double is neither an infinity nor not a number. -/
def isFinite (x : Float) : Bool :=
  match parts x with
  | .finite .. => true
  | _ => false

/-- `num / den` rounded to the nearest integer, a tie going to the even one. -/
def roundDiv (num den : Nat) : Nat :=
  let q := num / den
  let twice := 2 * (num % den)
  if twice < den then q
  else if den < twice then q + 1
  else if q % 2 = 0 then q else q + 1

/-- `num · 2^(-e) / den` as a fraction of natural numbers. -/
def scale (num den : Nat) (e : Int) : Nat × Nat :=
  if 0 ≤ e then (num, den * twoTo e.toNat) else (num * twoTo (-e).toNat, den)

/-- The exponent at which `num / den` has a significand of 53 bits, or the least one. -/
def unitExponent (num den : Nat) : Int :=
  let guess : Int := (Nat.log2 num : Int) - (Nat.log2 den : Int) - 52
  let (a, b) := scale num den guess
  let e := if a < b * twoTo 52 then guess - 1 else guess
  max e (-1074)

/-- The double nearest to `± num / den`, a tie going to the even significand; an infinity when the
magnitude is too large. -/
def nearest (negative : Bool) (num den : Nat) : Float :=
  if num = 0 ∨ den = 0 then withSign negative 0.0
  else
    let e := unitExponent num den
    let (a, b) := scale num den e
    let m := roundDiv a b
    let bits : Nat :=
      if m < twoTo 52 then m else (e + 1075).toNat * twoTo 52 + (m - twoTo 52)
    if 2047 * twoTo 52 ≤ bits then withSign negative infinity
    else withSign negative (Float.ofBits bits.toUInt64)

/-- The double nearest to `± m · 2^e`. -/
def ofScaled (negative : Bool) (m : Nat) (e : Int) : Float :=
  if 0 ≤ e then nearest negative (m * twoTo e.toNat) 1 else nearest negative m (twoTo (-e).toNat)

def ofInt (n : Int) : Float := nearest (n < 0) n.natAbs 1

/-- An integer with the stated sign. -/
def signed (negative : Bool) (n : Nat) : Int := if negative then -(n : Int) else n

def truncate? (x : Float) : Option Int :=
  match parts x with
  | .finite negative m e =>
    some (signed negative (if 0 ≤ e then m * twoTo e.toNat else m / twoTo (-e).toNat))
  | _ => none

/-- The integer that a double is equal to, if it is one. -/
def integer? (x : Float) : Option Int :=
  match parts x with
  | .finite negative m e =>
    if 0 ≤ e then some (signed negative (m * twoTo e.toNat))
    else if m % twoTo (-e).toNat = 0 then some (signed negative (m / twoTo (-e).toNat))
    else none
  | _ => none

/-- The integer nearest to a finite double, a tie going to the even one. -/
def roundToInt? (x : Float) : Option Int :=
  match parts x with
  | .finite negative m e =>
    some (signed negative (if 0 ≤ e then m * twoTo e.toNat else roundDiv m (twoTo (-e).toNat)))
  | _ => none

/-- How an integer compares with a finite double, both taken exactly. -/
def compareInt (n : Int) (negative : Bool) (m : Nat) (e : Int) : Ordering :=
  if 0 ≤ e then compare n (signed negative (m * twoTo e.toNat))
  else compare (n * twoTo (-e).toNat) (signed negative m)

/-- The exact remainder of two finite doubles with the sign of the dividend; not a number for a
zero divisor or an infinite dividend, the dividend itself for an infinite divisor. -/
def remainder (x y : Float) : Float :=
  match parts x, parts y with
  | .finite negative m e, .finite _ n f =>
    if n = 0 then notANumber
    else
      let unit := min e f
      ofScaled negative ((m * twoTo (e - unit).toNat) % (n * twoTo (f - unit).toNat)) unit
  | .finite .., .infinite _ => x
  | _, _ => notANumber

/-- The integer square root, by bisection between `lo` and `hi`. -/
def sqrtBetween (n lo hi : Nat) : Nat :=
  if lo + 1 < hi then
    let mid := (lo + hi) / 2
    if mid * mid ≤ n then sqrtBetween n mid hi else sqrtBetween n lo mid
  else lo
termination_by hi - lo

/-- The double nearest to the square root of `x² + y²`. -/
def hypotenuse (x y : Float) : Float :=
  match parts x, parts y with
  | .finite _ m e, .finite _ n f =>
    let unit := min e f
    let a := m * twoTo (e - unit).toNat
    let b := n * twoTo (f - unit).toNat
    let square := a * a + b * b
    -- Sixty-four more bits than the result has decide every rounding but an exact tie.
    let r := sqrtBetween (square * twoTo 128) 0 (twoTo ((Nat.log2 square + 128) / 2 + 1))
    let sticky := if r * r = square * twoTo 128 then 2 * r else 2 * r + 1
    ofScaled false sticky (unit - 65)
  | .infinite _, _ => infinity
  | _, .infinite _ => infinity
  | _, _ => notANumber

end Workflow.Number
