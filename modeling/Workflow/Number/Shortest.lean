/-
The decimal text of a double: the fewest digits that read back as the same
double, and of these the nearest to it.

A decimal reads back as `m · 2^e` when it lies in the interval of numbers that
round to it, whose ends belong to it when `m` is even. The search tries grids
of one digit, two digits and so on; on each grid only the two neighbours of
the value can be the nearest hit.
-/
import Workflow.Number.Binary

namespace Workflow.Number

/-- A decimal `digits · 10^exponent`. -/
structure Decimal where
  digits : Nat
  exponent : Int
  deriving Repr, DecidableEq, Inhabited

/-- The number of decimal digits of a positive number; one for zero. -/
def digitCount (n : Nat) : Nat := (Nat.toDigits 10 n).length

/-- The two factors that turn `c · 10^s` and `x · 2^t` into comparable natural numbers. -/
def commonScale (s t : Int) : Nat × Nat :=
  (tenTo s.toNat * twoTo (-t).toNat, tenTo (-s).toNat * twoTo t.toNat)

/-- The number of digits before the decimal point of `m · 2^e`, counted as a power of ten: the `p`
with `10^(p-1) ≤ m · 2^e < 10^p`. -/
def magnitude (m : Nat) (e : Int) : Int :=
  if 0 ≤ e then digitCount (m * twoTo e.toNat)
  else
    let den := twoTo (-e).toNat
    if den ≤ m then digitCount (m / den)
    else
      -- Below one: the digits of the denominator give the place up to one.
      let guess : Int := (digitCount m : Int) - (digitCount den : Int) + 1
      if tenTo (1 - guess).toNat * m < den then guess - 1 else guess

/-- The nearest decimal on the grid of `k` digits that reads back as `m · 2^e`, if one does. -/
def onGrid (m : Nat) (e : Int) (p : Int) (k : Nat) : Option Decimal :=
  let s := p - k
  let t := e - 2
  let (a, b) := commonScale s t
  let value := 4 * m * b
  let low := (if m = twoTo 52 ∧ -1074 < e then 4 * m - 1 else 4 * m - 2) * b
  let high := (4 * m + 2) * b
  let inside (c : Nat) : Bool :=
    if m % 2 = 0 then low ≤ c * a ∧ c * a ≤ high else low < c * a ∧ c * a < high
  let below := value / a
  let above := below + 1
  match inside below, inside above with
  | true, true =>
    let down := value - below * a
    let up := above * a - value
    if down < up ∨ (down = up ∧ below % 2 = 0) then some ⟨below, s⟩ else some ⟨above, s⟩
  | true, false => some ⟨below, s⟩
  | false, true => some ⟨above, s⟩
  | false, false => none

/-- The first grid of `k`, `k + 1`, … digits with a hit. -/
def firstGrid (m : Nat) (e : Int) (p : Int) (k : Nat) : Nat → Decimal
  | 0 => ⟨m * twoTo e.toNat, 0⟩
  | more + 1 =>
    match onGrid m e p k with
    | some d => d
    | none => firstGrid m e p (k + 1) more

/-- The shortest decimal that reads back as `m · 2^e`, for a positive `m`. -/
def shortest (m : Nat) (e : Int) : Decimal :=
  firstGrid m e (magnitude m e) 1 20

def Decimal.normalize (d : Decimal) : Decimal :=
  go d.digits d.exponent d.digits
where
  go (n : Nat) (e : Int) : Nat → Decimal
    | 0 => ⟨n, e⟩
    | fuel + 1 => if n ≠ 0 ∧ n % 10 = 0 then go (n / 10) (e + 1) (fuel / 10) else ⟨n, e⟩

def natText (n : Nat) : String := String.ofList (Nat.toDigits 10 n)

/-- The digits of an integer as text, with a minus sign when negative. -/
def intText (n : Int) : String :=
  if n < 0 then "-" ++ natText n.natAbs else natText n.natAbs

/-- The most digits that an integer may have where it is read from decimal text or written to it. -/
def maxDigits : Nat := 4300

/-- Whether an integer has too many digits to be written. -/
def isOverlong (n : Int) : Bool := tenTo maxDigits ≤ n.natAbs

/-- An exponent with its sign and at least two digits. -/
def exponentText (e : Int) : String :=
  let digits := natText e.natAbs
  (if e < 0 then "-" else "+") ++ (if digits.length < 2 then "0" ++ digits else digits)

/-- Digits with the point after the first `n` of them, zeros added where they run out. -/
def placePoint (digits : List Char) (n : Int) : String :=
  if n ≤ 0 then
    "0." ++ String.ofList (List.replicate (-n).toNat '0' ++ digits)
  else
    let whole := digits.take n.toNat
    let zeros := List.replicate (n.toNat - whole.length) '0'
    let rest := digits.drop n.toNat
    String.ofList (whole ++ zeros) ++ "." ++ (if rest.isEmpty then "0" else String.ofList rest)

/-- One digit, the point if more follow, and the exponent. -/
def scientific (digits : List Char) (e : Int) : String :=
  match digits with
  | [] => "0e" ++ exponentText e
  | [d] => String.singleton d ++ "e" ++ exponentText e
  | d :: rest => String.singleton d ++ "." ++ String.ofList rest ++ "e" ++ exponentText e

/-- The text of a positive finite double: positional from `10^-4` up to `10^16`, with an exponent
outside. -/
def positiveText (m : Nat) (e : Int) : String :=
  let d := (shortest m e).normalize
  let digits := Nat.toDigits 10 d.digits
  let leading : Int := d.exponent + digits.length - 1
  if -4 ≤ leading ∧ leading < 16 then placePoint digits (leading + 1)
  else scientific digits leading

def floatText (x : Float) : String :=
  match parts x with
  | .nan => "nan"
  | .infinite negative => if negative then "-inf" else "inf"
  | .finite negative m e =>
    (if negative then "-" else "") ++ (if m = 0 then "0.0" else positiveText m e)

end Workflow.Number
