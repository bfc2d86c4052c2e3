/-
Byte strings and text: UTF-8 in both directions, and the two-byte and
four-byte forms that a body may come in.

Decoding names the first fault: the bytes of an ill-formed sequence up to the
one that breaks it, and why. The lenient form puts one replacement character in
the place of each such run.
-/

namespace Workflow.Text

def encodeUtf8 (s : String) : List UInt8 := s.toUTF8.toList

/-- Why a byte sequence is ill-formed. -/
inductive Utf8Fault where
  | invalidStart
  | invalidContinuation
  | unexpectedEnd
  deriving Repr, DecidableEq, Inhabited

def Utf8Fault.reason : Utf8Fault → String
  | invalidStart => "invalid start byte"
  | invalidContinuation => "invalid continuation byte"
  | unexpectedEnd => "unexpected end of data"

def isContinuation (b : UInt8) : Bool := b.toNat / 64 = 2

/-- What stands at the start of a byte string: a character and the number of its bytes, or a fault
and the number of bytes that it covers. -/
inductive Utf8Step where
  | char (c : Char) (size : Nat)
  | fault (f : Utf8Fault) (size : Nat)
  deriving Inhabited

def payload (b : UInt8) : Nat := b.toNat % 64

/-- Reads a three-byte sequence after its start byte `a`. -/
def threeBytes (a : Nat) : List UInt8 → Utf8Step
  | [] => .fault .unexpectedEnd 1
  | b :: rest =>
    if !isContinuation b || (a = 0xe0 && b.toNat < 0xa0) || (a = 0xed && 0xa0 ≤ b.toNat) then
      .fault .invalidContinuation 1
    else
      match rest with
      | [] => .fault .unexpectedEnd 2
      | c :: _ =>
        if !isContinuation c then .fault .invalidContinuation 2
        else .char (Char.ofNat ((a % 16) * 4096 + payload b * 64 + payload c)) 3

/-- Reads a four-byte sequence after its start byte `a`. -/
def fourBytes (a : Nat) : List UInt8 → Utf8Step
  | [] => .fault .unexpectedEnd 1
  | b :: rest =>
    if !isContinuation b || (a = 0xf0 && b.toNat < 0x90) || (a = 0xf4 && 0x90 ≤ b.toNat) then
      .fault .invalidContinuation 1
    else
      match rest with
      | [] => .fault .unexpectedEnd 2
      | c :: rest =>
        if !isContinuation c then .fault .invalidContinuation 2
        else
          match rest with
          | [] => .fault .unexpectedEnd 3
          | d :: _ =>
            if !isContinuation d then .fault .invalidContinuation 3
            else .char (Char.ofNat
              ((a % 8) * 262144 + payload b * 4096 + payload c * 64 + payload d)) 4

/-- Reads the sequence that starts with the byte `first`. -/
def utf8Step (first : UInt8) (rest : List UInt8) : Utf8Step :=
  let a := first.toNat
  if a < 0x80 then .char (Char.ofNat a) 1
  else if a < 0xc2 then .fault .invalidStart 1
  else if a < 0xe0 then
    match rest with
    | [] => .fault .unexpectedEnd 1
    | b :: _ =>
      if isContinuation b then .char (Char.ofNat ((a % 32) * 64 + payload b)) 2
      else .fault .invalidContinuation 1
  else if a < 0xf0 then threeBytes a rest
  else if a < 0xf5 then fourBytes a rest
  else .fault .invalidStart 1

/-- The first fault of a byte string: its position, its size and its kind. -/
structure Utf8Error where
  position : Nat
  size : Nat
  fault : Utf8Fault
  /-- The byte at the position. -/
  byte : UInt8
  deriving Repr, Inhabited

/-- Decodes from `position` on, with `done` read before, reversed. -/
def decodeFrom (position : Nat) (done : List Char) : List UInt8 → Except Utf8Error (List Char)
  | [] => .ok done.reverse
  | first :: rest =>
    match utf8Step first rest with
    | .char c size => decodeFrom (position + size) (c :: done) (rest.drop (size - 1))
    | .fault f size => .error ⟨position, size, f, first⟩
termination_by data => data.length
decreasing_by
  simp only [List.length_drop, List.length_cons]
  omega

/-- The text of a byte string in UTF-8, or its first fault. -/
def decodeUtf8 (data : List UInt8) : Except Utf8Error String :=
  (decodeFrom 0 [] data).map String.ofList

/-- Decodes with `mend` in the place of each ill-formed run. -/
def decodeMending (mend : List Char) : List UInt8 → List Char
  | [] => []
  | first :: rest =>
    match utf8Step first rest with
    | .char c size => c :: decodeMending mend (rest.drop (size - 1))
    | .fault _ size => mend ++ decodeMending mend (rest.drop (size - 1))
termination_by data => data.length
decreasing_by
  all_goals simp only [List.length_drop, List.length_cons]
  all_goals omega

/-- The text of a byte string in UTF-8, with a replacement character for each ill-formed run. -/
def decodeLossy (data : List UInt8) : String :=
  String.ofList (decodeMending [Char.ofNat 0xfffd] data)

/-- Bytes in groups of two or four taken as numbers, the low byte first when `little`. -/
def groupBytes (little : Bool) (size : Nat) (data : List UInt8) : List Nat :=
  go data data.length
where
  go (data : List UInt8) : Nat → List Nat
    | 0 => []
    | fuel + 1 =>
      if data.length < size then []
      else
        let chunk := data.take size
        let ordered := if little then chunk.reverse else chunk
        ordered.foldl (fun n b => 256 * n + b.toNat) 0 :: go (data.drop size) fuel

/-- Whether a number is half of a surrogate pair. -/
def isSurrogate (n : Nat) : Bool := 0xd800 ≤ n && n < 0xe000

/-- Joins surrogate pairs; nothing when a half stands alone. -/
def joinSurrogates : List Nat → Option (List Char)
  | [] => some []
  | a :: rest =>
    if isSurrogate a then
      match rest with
      | b :: rest =>
        if a < 0xdc00 && 0xdc00 ≤ b && b < 0xe000 then
          (joinSurrogates rest).map (Char.ofNat (0x10000 + (a - 0xd800) * 1024 + (b - 0xdc00)) :: ·)
        else none
      | [] => none
    else (joinSurrogates rest).map (Char.ofNat a :: ·)

/-- The text of a byte string in two-byte units. -/
def decodeUtf16 (little : Bool) (data : List UInt8) : Option String :=
  if data.length % 2 = 0 then (joinSurrogates (groupBytes little 2 data)).map String.ofList
  else none

/-- The text of a byte string in four-byte units. -/
def decodeUtf32 (little : Bool) (data : List UInt8) : Option String :=
  let codes := groupBytes little 4 data
  if data.length % 4 = 0 && codes.all (fun n => n < 0x110000 && !isSurrogate n) then
    some (String.ofList (codes.map Char.ofNat))
  else none

end Workflow.Text
