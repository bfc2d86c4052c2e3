/-
The operators on values: arithmetic on numbers of all types, joining and
repeating sequences, differences of sets, and directives in texts.

Integers are exact and unbounded. A quotient of integers is the nearest double
to the exact quotient. Floor division rounds down, and a remainder has the sign
of the divisor.
-/
import Workflow.Source.Operator
import Workflow.Value.Format

namespace Workflow

open Source (BinaryOp UnaryOp)

namespace Number

/-- The remainder of two doubles with the sign of the divisor, which is not zero. -/
def floorMod (x y : Float) : Float :=
  let r := remainder x y
  if r == 0.0 then withSign (signBit y) 0.0
  else if (y < 0.0) != (r < 0.0) then r + y
  else r

/-- The quotient of two doubles rounded down; the divisor is not zero. -/
def floorDiv (x y : Float) : Float :=
  let r := remainder x y
  let q := (x - r) / y
  let q := if r != 0.0 && ((y < 0.0) != (r < 0.0)) then q - 1.0 else q
  if q == 0.0 then withSign (signBit (x / y)) 0.0
  else
    let down := q.floor
    if q - down > 0.5 then down + 1.0 else down

/-- Whether a double is an odd integer. -/
def isOdd (x : Float) : Bool :=
  match integer? x with
  | some n => n % 2 != 0
  | none => false

/-- An integer to a natural power. -/
def powInt (n : Int) (k : Nat) : Int :=
  if n.natAbs ≤ 1 ∧ 0 < k then if k % 2 = 1 then n else n.natAbs
  else signed (n < 0 ∧ k % 2 = 1) (Nat.pow n.natAbs k)

/-- Bits of two integers joined by `f`, each integer taken as an endless two's complement. -/
def bitwise (f : Bool → Bool → Bool) (a b : Int) : Int :=
  let width := max (Nat.log2 a.natAbs) (Nat.log2 b.natAbs) + 2
  let m : Int := twoTo width
  let x := (a % m).toNat
  let y := (b % m).toNat
  let bits := (List.range width).foldl
    (fun n i => if f (x.testBit i) (y.testBit i) then n + twoTo i else n) 0
  if f (a < 0) (b < 0) then (bits : Int) - m else bits

end Number

structure Complex where
  re : Float
  im : Float
  deriving Inhabited

namespace Complex

def mul (a b : Complex) : Complex :=
  ⟨a.re * b.re - a.im * b.im, a.re * b.im + a.im * b.re⟩

/-- The quotient, scaled by the larger part of the divisor; nothing for a zero divisor. -/
def div? (a b : Complex) : Option Complex :=
  if b.re.abs >= b.im.abs then
    if b.re.abs == 0.0 then none
    else
      let ratio := b.im / b.re
      let den := b.re + b.im * ratio
      some ⟨(a.re + a.im * ratio) / den, (a.im - a.re * ratio) / den⟩
  else if b.im.abs >= b.re.abs then
    let ratio := b.re / b.im
    let den := b.re * ratio + b.im
    some ⟨(a.re * ratio + a.im) / den, (a.im * ratio - a.re) / den⟩
  else some ⟨Number.notANumber, Number.notANumber⟩

/-- A natural power, by repeated squaring from the low bit on. -/
def powNat (x : Complex) (n : Nat) : Complex :=
  go ⟨1.0, 0.0⟩ x n n
where
  go (r p : Complex) (n : Nat) : Nat → Complex
    | 0 => r
    | fuel + 1 =>
      if n = 0 then r
      else go (if n % 2 = 1 then r.mul p else r) (p.mul p) (n / 2) fuel

def powPolar (a b : Complex) : Complex :=
  let radius := Number.hypotenuse a.re a.im
  let angle := Float.atan2 a.im a.re
  let size := radius.pow b.re
  let phase := angle * b.re
  let (size, phase) :=
    if b.im != 0.0 then (size / (angle * b.im).exp, phase + b.im * radius.log) else (size, phase)
  ⟨size * phase.cos, size * phase.sin⟩

/-- A power: small integer exponents by multiplication, others in polar form. -/
def pow (a b : Complex) : Outcome Complex := do
  let result ←
    match b.im == 0.0, Number.integer? b.re with
    | true, some n =>
      if n.natAbs ≤ 100 then
        if 0 < n then pure (a.powNat n.toNat)
        else
          match div? ⟨1.0, 0.0⟩ (a.powNat n.natAbs) with
          | some c => pure c
          | none => throw Fault.complexZeroPower
      else polar a b
    | _, _ => polar a b
  if result.re.isInf || result.im.isInf then throw .complexPowerOverflow else return result
where
  polar (a b : Complex) : Outcome Complex :=
    if b.re == 0.0 && b.im == 0.0 then pure ⟨1.0, 0.0⟩
    else if a.re == 0.0 && a.im == 0.0 then
      if b.im != 0.0 || b.re < 0.0 then throw .complexZeroPower else pure ⟨0.0, 0.0⟩
    else pure (powPolar a b)

end Complex

namespace Numeric

/-- The nearest double to a real number. -/
def toFloat : Numeric → Outcome Float
  | .int n =>
    let x := Number.ofInt n
    if Number.isFinite x then pure x else throw .integerTooLargeForFloat
  | .float x => pure x
  | .complex re _ => pure re

def toComplex : Numeric → Outcome Complex
  | .complex re im => pure ⟨re, im⟩
  | n => do return ⟨← n.toFloat, 0.0⟩

def complexValue (c : Complex) : Value := .complex c.re c.im

/-- The power of two doubles. A negative number to a broken power is complex. -/
def floatPow (x y : Float) : Outcome Value :=
  if y == 0.0 then pure (.float 1.0)
  else if x.isNaN then pure (.float x)
  else if y.isNaN then pure (.float (if x == 1.0 then 1.0 else y))
  else if y.isInf then
    let size := x.abs
    if size == 1.0 then pure (.float 1.0)
    else if (y > 0.0) == (size > 1.0) then pure (.float y.abs)
    else pure (.float 0.0)
  else if x.isInf then
    if y > 0.0 then pure (.float (if Number.isOdd y then x else x.abs))
    else pure (.float (if Number.isOdd y then Number.withSign (Number.signBit x) 0.0 else 0.0))
  else if x == 0.0 then
    if y < 0.0 then throw .zeroToNegativePower
    else pure (.float (if Number.isOdd y then x else 0.0))
  else if x < 0.0 && (Number.integer? y).isNone then do
    return complexValue (← Complex.pow ⟨x, 0.0⟩ ⟨y, 0.0⟩)
  else
    let negate := x < 0.0 && Number.isOdd y
    let size := x.abs
    let r := if size == 1.0 then 1.0 else size.pow y
    if r.isInf then throw .powerOverflow else pure (.float (Number.withSign negate r))

/-- The quotient of two integers as the nearest double. -/
def intQuotient (a b : Int) : Outcome Value :=
  if b = 0 then throw .divisionByZero
  else
    let q := Number.nearest ((a < 0) != (b < 0)) a.natAbs b.natAbs
    if Number.isFinite q then pure (.float q) else throw .quotientTooLargeForFloat

/-- The size, in bits of a number or members of a sequence, from which on a value does not fit into
memory. -/
def sizeLimit : Nat := Number.twoTo 33

/-- An operator on integers; nothing when it is none. -/
def onInts (op : BinaryOp) (a b : Int) : Option (Outcome Value) :=
  match op with
  | .add => some (pure (.int (a + b)))
  | .sub => some (pure (.int (a - b)))
  | .mult => some (pure (.int (a * b)))
  | .div => some (intQuotient a b)
  | .floorDiv =>
    some (if b = 0 then throw .integerDivisionByZero else pure (.int (Int.fdiv a b)))
  | .mod => some (if b = 0 then throw .integerModuloByZero else pure (.int (Int.fmod a b)))
  | .pow =>
    some <|
      if 0 ≤ b then
        if sizeLimit ≤ Nat.log2 a.natAbs * b.toNat then throw .outOfMemory
        else pure (.int (Number.powInt a b.toNat))
      else do floatPow (← (Numeric.int a).toFloat) (← (Numeric.int b).toFloat)
  | .bitAnd => some (pure (.int (Number.bitwise (· && ·) a b)))
  | .bitOr => some (pure (.int (Number.bitwise (· || ·) a b)))
  | .bitXor => some (pure (.int (Number.bitwise (· != ·) a b)))
  | .leftShift =>
    some (if b < 0 then throw .negativeShift else pure (.int (a * Number.twoTo b.toNat)))
  | .rightShift =>
    some (if b < 0 then throw .negativeShift else pure (.int (Int.fdiv a (Number.twoTo b.toNat))))
  | .matMult => none

/-- An operator on doubles; nothing when it is none. -/
def onFloats (op : BinaryOp) (x y : Float) : Option (Outcome Value) :=
  match op with
  | .add => some (pure (.float (x + y)))
  | .sub => some (pure (.float (x - y)))
  | .mult => some (pure (.float (x * y)))
  | .div => some (if y == 0.0 then throw .floatDivisionByZero else pure (.float (x / y)))
  | .floorDiv =>
    some (if y == 0.0 then throw .floatFloorDivisionByZero else pure (.float (Number.floorDiv x y)))
  | .mod => some (if y == 0.0 then throw .floatModuloByZero else pure (.float (Number.floorMod x y)))
  | .pow => some (floatPow x y)
  | _ => none

/-- An operator on complex numbers; nothing when it is none. -/
def onComplex (op : BinaryOp) (a b : Complex) : Option (Outcome Value) :=
  match op with
  | .add => some (pure (.complex (a.re + b.re) (a.im + b.im)))
  | .sub => some (pure (.complex (a.re - b.re) (a.im - b.im)))
  | .mult => some (pure (complexValue (a.mul b)))
  | .div =>
    some <| match a.div? b with
      | some c => pure (complexValue c)
      | none => throw .complexDivisionByZero
  | .pow => some (do return complexValue (← a.pow b))
  | _ => none

/-- An operator on two numbers, in the widest of their types; nothing when it has no meaning
there. -/
def binary? (op : BinaryOp) (a b : Numeric) : Option (Outcome Value) :=
  match a, b with
  | .int m, .int n => onInts op m n
  | .complex .., _ | _, .complex .. => widen onComplex toComplex
  | _, _ => widen onFloats toFloat
where
  /-- Converts both operands, then applies the operator. -/
  widen {α : Type} (f : BinaryOp → α → α → Option (Outcome Value)) (convert : Numeric → Outcome α) :
      Option (Outcome Value) :=
    match convert a, convert b with
    | .ok x, .ok y => f op x y
    | .error e, _ => some (throw e)
    | _, .error e => some (throw e)

end Numeric

namespace Value

/-- The name of a binary operator in complaints about its operands. -/
def operatorName : BinaryOp → String
  | .pow => "** or pow()"
  | op => op.sign

def operandFault (op : BinaryOp) (a b : Value) : Fault :=
  .unsupportedOperands (operatorName op) a.typeName b.typeName

/-- Joins two sequences of one type. -/
def concat (a b : Value) : Outcome Value :=
  match a, b with
  | .str s, .str t => pure (.str (s ++ t))
  | .str _, _ => throw (.concatMismatch "str" b.typeName)
  | .list s, .list t => pure (.list (s ++ t))
  | .list _, _ => throw (.concatMismatch "list" b.typeName)
  | .tuple s, .tuple t => pure (.tuple (s ++ t))
  | .tuple _, _ => throw (.concatMismatch "tuple" b.typeName)
  | .bytes s, .bytes t => pure (.bytes (s ++ t))
  | .bytes _, _ => throw (.concatToBytes b.typeName)
  | _, _ => throw (operandFault .add a b)

def repeatList (n : Int) (items : List α) : List α :=
  (List.replicate n.toNat items).flatten

/-- A sequence repeated; nothing when the value is no sequence. -/
def repeat? (n : Int) : Value → Option Value
  | .str s => some (.str (String.ofList (repeatList n s.toList)))
  | .list items => some (.list (repeatList n items))
  | .tuple items => some (.tuple (repeatList n items))
  | .bytes data => some (.bytes (repeatList n data))
  | _ => Option.none

/-- Whether a value is a sequence that can be repeated. -/
def isSequence : Value → Bool
  | .str _ | .list _ | .tuple _ | .bytes _ => true
  | _ => false

/-- Why a sequence of this kind cannot have a length beyond a word of 64 bits. -/
def tooLong : Value → Fault
  | .str _ => .repeatedTextTooLong
  | .bytes _ => .repeatedBytesTooLong
  | _ => .outOfMemory

/-- Repeats a sequence as often as a value says, which fits into a word of 64 bits. -/
def repeatBy (sequence count : Value) : Outcome Value :=
  match position? count with
  | some n =>
    if -(Number.twoTo 63 : Int) ≤ n ∧ n < Number.twoTo 63 then do
      let size := (← length sequence) * n.toNat
      if Number.twoTo 63 ≤ size then throw (tooLong sequence)
      else if Numeric.sizeLimit ≤ size then throw .outOfMemory
      else return (repeat? (if size = 0 then 0 else n) sequence).getD sequence
    else throw .countTooLarge
  | Option.none => throw (.repeatByNonInteger count.typeName)

/-- Repeats the sequence among the operands as often as the other says. -/
def multiply (a b : Value) : Outcome Value :=
  if isSequence a then repeatBy a b
  else if isSequence b then repeatBy b a
  else throw (operandFault .mult a b)

/-- Whether a value is a view that takes part in set operations. -/
def isSetView : Value → Bool
  | .view .keys _ | .view .items _ => true
  | _ => false

/-- A set operation on two lists of members. -/
def combineSets (op : BinaryOp) (a b : List Value) : Option (List Value) :=
  let without (xs ys : List Value) := xs.filter fun x => !ys.any (same x)
  match op with
  | .sub => some (without a b)
  | .bitAnd => some (a.filter fun x => b.any (same x))
  | .bitOr => some (a ++ b)
  | .bitXor => some (without a b ++ without b a)
  | _ => Option.none

/-- A set operation: both operands are sets, or one is a view and the other yields members. -/
def setOperation (op : BinaryOp) (a b : Value) : Outcome Value :=
  let joined (s t : List Value) : Outcome Value :=
    match combineSets op s t with
    | some items => pure (setOf items)
    | Option.none => throw (operandFault op a b)
  if isSetView a || isSetView b then do
    if (combineSets op [] []).isNone then throw (operandFault op a b)
    let s ← iterate a
    s.forM requireKey
    let t ← iterate b
    t.forM requireKey
    joined s t
  else
    match a, b with
    | .set s, .set t => joined s t
    | _, _ => throw (operandFault op a b)

/-- Entries of two dictionaries together; those of the second win. -/
def mergeDicts (a b : List (Value × Value)) : Value :=
  .dict (b.foldl (fun acc (k, v) => insertEntry k v acc) a)

/-- An operator on operands that are not both numbers. -/
def binaryOther (op : BinaryOp) (a b : Value) : Outcome Value :=
  match op with
  | .add => concat a b
  | .mult => multiply a b
  | .mod =>
    match a with
    | .str template => format template b
    | _ => throw (operandFault op a b)
  | .sub | .bitAnd | .bitXor => setOperation op a b
  | .bitOr =>
    match a, b with
    | .dict s, .dict t => pure (mergeDicts s t)
    | _, _ => setOperation op a b
  | _ => throw (operandFault op a b)

def binary (op : BinaryOp) (a b : Value) : Outcome Value :=
  match a, b with
  | .bool s, .bool t =>
    match op with
    | .bitAnd => pure (.bool (s && t))
    | .bitOr => pure (.bool (s || t))
    | .bitXor => pure (.bool (s != t))
    | _ => numbers
  | _, _ => numbers
where
  /-- The operator on numbers, or else on other values. -/
  numbers : Outcome Value :=
    match numeric? a, numeric? b with
    | some x, some y => (x.binary? op y).getD (throw (operandFault op a b))
    | _, _ => binaryOther op a b

def unary (op : UnaryOp) (v : Value) : Outcome Value :=
  match op, numeric? v with
  | .not, _ => pure (.bool !v.truthy)
  | .minus, some (.int n) => pure (.int (-n))
  | .minus, some (.float x) => pure (.float (-x))
  | .minus, some (.complex re im) => pure (.complex (-re) (-im))
  | .plus, some (.int n) => pure (.int n)
  | .plus, some (.float x) => pure (.float x)
  | .plus, some (.complex re im) => pure (.complex re im)
  | .invert, some (.int n) => pure (.int (-n - 1))
  | _, _ => throw (.badUnaryOperand op.sign v.typeName)

end Value

end Workflow
