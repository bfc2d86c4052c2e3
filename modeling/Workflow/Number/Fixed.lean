/-
Decimal texts of a chosen length: a fixed number of places, a fixed number of
significant digits with an exponent, or whichever of the two is shorter. All
are the exact value rounded once, a tie going to the even digit.
-/
import Workflow.Number.Shortest

namespace Workflow.Number

/-- `m · 2^e · 10^places` rounded to an integer. -/
def scaledDigits (m : Nat) (e places : Int) : Nat :=
  let (up, down) := commonScale places (-e)
  -- `10^places · 2^e = up / down`, for `commonScale` splits each power by its sign.
  roundDiv (m * up) down

/-- Digits with the last `places` after a point; no point without places unless `keepPoint`. -/
def withPlaces (n places : Nat) (keepPoint : Bool) : String :=
  let digits := Nat.toDigits 10 n
  let padded := List.replicate (places + 1 - digits.length) '0' ++ digits
  let whole := padded.take (padded.length - places)
  let rest := padded.drop (padded.length - places)
  String.ofList whole ++ (if places = 0 && !keepPoint then "" else ".") ++ String.ofList rest

/-- The value of `m · 2^e` with a fixed number of places. -/
def fixedText (m : Nat) (e : Int) (places : Nat) (keepPoint : Bool) : String :=
  withPlaces (scaledDigits m e places) places keepPoint

/-- The first `k` significant digits of `m · 2^e`, rounded, and the power of ten of the leading
one; for zero the exponent is zero. -/
def significant (m : Nat) (e : Int) (k : Nat) : Nat × Int :=
  if m = 0 then (0, 0)
  else
    let p := magnitude m e
    let n := scaledDigits m e (k - p)
    if n < tenTo k then (n, p - 1) else (n / 10, p)

/-- `k` digits as one digit, the point and the rest. -/
def mantissaText (n k : Nat) (keepPoint : Bool) : String :=
  withPlaces n (k - 1) keepPoint

/-- The value of `m · 2^e` with `places` digits after the point and an exponent. -/
def exponentForm (m : Nat) (e : Int) (places : Nat) (keepPoint : Bool) : String :=
  let (n, x) := significant m e (places + 1)
  mantissaText n (places + 1) keepPoint ++ "e" ++ exponentText x

/-- Drops zeros at the end of the places, and the point with the last of them. -/
def dropTrailingZeros (text : String) : String :=
  let cs := text.toList
  if cs.contains '.' then
    let kept := (cs.reverse.dropWhile (· = '0'))
    match kept with
    | '.' :: rest => String.ofList rest.reverse
    | _ => String.ofList kept.reverse
  else text

/-- The value of `m · 2^e` in `digits` significant digits, with an exponent when it is below
`10^-4` or has more digits before the point; `full` keeps the trailing zeros. -/
def generalText (m : Nat) (e : Int) (digits : Nat) (full : Bool) : String :=
  let k := max digits 1
  let (n, x) := significant m e k
  if -4 ≤ x ∧ x < k then
    let text := fixedText m e (k - 1 - x).toNat full
    if full then text else dropTrailingZeros text
  else
    let mantissa := mantissaText n k full
    (if full then mantissa else dropTrailingZeros mantissa) ++ "e" ++ exponentText x

/-- A double rounded to a number of places (to a power of ten, when negative), again as a
double. -/
def roundPlaces (negative : Bool) (m : Nat) (e places : Int) : Float :=
  let n := scaledDigits m e places
  if 0 ≤ places then nearest negative n (tenTo places.toNat)
  else nearest negative (n * tenTo (-places).toNat) 1

/-- An integer rounded to a multiple of a power of ten, a tie going to the even multiple. -/
def roundToPower (n : Int) (power : Nat) : Int :=
  signed (n < 0) (roundDiv n.natAbs (tenTo power) * tenTo power)

end Workflow.Number
