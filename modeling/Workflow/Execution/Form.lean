/-
Form data: fields set apart by `&`, names by `=`, blanks written as `+` and
other characters by the hexadecimal digits of their bytes.
-/
import Workflow.Text.CharSet
import Workflow.Text.Utf8

namespace Workflow.Form

/-- The bytes of a run of ASCII characters, escapes resolved. -/
def unescape : List Char → List UInt8
  | '%' :: a :: b :: rest =>
    if Text.isHexDigit a && Text.isHexDigit b then (Text.hexValue [a, b]).toUInt8 :: unescape rest
    else '%'.toNat.toUInt8 :: unescape (a :: b :: rest)
  | c :: rest => c.toNat.toUInt8 :: unescape rest
  | [] => []

/-- The longest runs of characters that are all ASCII or all not, in order; `current` is the run
being read, reversed. -/
def runs (current : List Char) : List Char → List (List Char)
  | [] => if current.isEmpty then [] else [current.reverse]
  | c :: rest =>
    match current with
    | [] => runs [c] rest
    | d :: _ =>
      if (c.toNat < 0x80) = (d.toNat < 0x80) then runs (c :: current) rest
      else current.reverse :: runs [c] rest

/-- A text with its escapes resolved. Each ASCII run is decoded on its own. -/
def decode (cs : List Char) : String :=
  String.join ((runs [] cs).map fun run =>
    if run.all fun c => c.toNat < 0x80 then Text.decodeLossy (unescape run)
    else String.ofList run)

def decodePart (s : String) : String :=
  decode (s.toList.map fun c => if c = '+' then ' ' else c)

/-- The fields of form data in order. A field without a value has an empty one; empty fields are
left out. -/
def fields (text : String) : List (String × String) :=
  (text.splitOn "&").filterMap fun field =>
    if field.isEmpty then none
    else
      match field.splitOn "=" with
      | name :: rest => some (decodePart name, decodePart ("=".intercalate rest))
      | [] => none

end Workflow.Form
