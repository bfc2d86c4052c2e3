/-
The functions that expressions may call.
-/
import Workflow.Number.Read
import Workflow.Text.Utf8
import Workflow.Value.Arithmetic
import Workflow.Value.Methods

namespace Workflow.Value

/-- The integer that a text or byte string denotes; `shown` is its literal for the complaint. -/
def readInteger (base : Nat) (text shown : String) : Outcome Value :=
  match Number.overlong? base text, Number.readInt? base text with
  | some count, _ => throw (.overlongText count)
  | Option.none, some n => pure (.int n)
  | Option.none, Option.none =>
    throw (.integerLiteral base (String.ofList (shown.toList.take 200)))

/-- A byte string as text, one character a byte. -/
def latinText (data : List UInt8) : String :=
  String.ofList (data.map fun b => Char.ofNat b.toNat)

def integerOfFloat (x : Float) : Outcome Value :=
  match Number.parts x with
  | .nan => throw .nanToInteger
  | .infinite _ => throw .infinityToInteger
  | .finite .. => pure (.int ((Number.truncate? x).getD 0))

def toInteger : Value → Outcome Value
  | .int n => pure (.int n)
  | .bool b => pure (.int (if b then 1 else 0))
  | .float x => integerOfFloat x
  | .str s => readInteger 10 s (Text.quoted s)
  | .bytes data => readInteger 10 (latinText data) (Text.quotedBytes data)
  | v => throw (.integerArgument v.typeName)

/-- Converts a text to an integer in a base. -/
def toIntegerInBase (v base : Value) : Outcome Value := do
  let b ← integerArgument base
  if (b < 2 ∧ b ≠ 0) ∨ 36 < b then throw .integerBase
  match v with
  | .str s => readInteger b.toNat s (Text.quoted s)
  | .bytes data => readInteger b.toNat (latinText data) (Text.quotedBytes data)
  | _ => throw .integerBaseOfNonText

/-- The double that a text denotes. -/
def readDouble (text shown : String) : Outcome Value :=
  match Number.readFloat? text with
  | some x => pure (.float x)
  | Option.none => throw (.floatLiteral shown)

def toDouble : Value → Outcome Value
  | .float x => pure (.float x)
  | .int n => do return .float (← (Numeric.int n).toFloat)
  | .bool b => pure (.float (if b then 1.0 else 0.0))
  | .str s => readDouble s (Text.quoted s)
  | .bytes data => readDouble (latinText data) (Text.quotedBytes data)
  | v => throw (.floatArgument v.typeName)

/-- The fault of an ill-formed byte string. -/
def utf8Fault (e : Text.Utf8Error) : Fault :=
  .undecodable "utf-8" e.byte.toNat e.position
    (if e.size = 1 then Option.none else some (e.position + e.size - 1)) e.fault.reason

/-- Decodes a byte string in one of the codecs, a fault being refused, dropped or mended as
`errors` says. -/
def decodeBytes (data : List UInt8) (codec errors : String) : Outcome Value :=
  let name := (Text.toLower codec).map fun c => if c = '_' then '-' else c
  let mend := if errors = "ignore" then [] else [Char.ofNat 0xfffd]
  let lenient := errors = "ignore" ∨ errors = "replace"
  if name ∈ ["utf-8", "utf8", "u8"] then
    if lenient then pure (.str (String.ofList (Text.decodeMending mend data)))
    else
      match Text.decodeUtf8 data with
      | .ok s => pure (.str s)
      | .error e => throw (utf8Fault e)
  else if name ∈ ["latin-1", "latin1", "iso-8859-1", "iso8859-1", "8859", "l1", "cp819", "latin"] then
    pure (.str (latinText data))
  else if name ∈ ["ascii", "us-ascii", "646"] then
    if lenient then
      pure (.str (String.ofList (data.flatMap fun b =>
        if b.toNat < 128 then [Char.ofNat b.toNat] else mend)))
    else
      match data.zipIdx.find? (fun (b, _) => 128 ≤ b.toNat) with
      | Option.none => pure (.str (latinText data))
      | some (b, i) => throw (.undecodable "ascii" b.toNat i Option.none "ordinal not in range(128)")
  else throw (.unknownCodec codec)

/-- A codec or error-handler name given as an argument. -/
def codecArgument (name : String) : Value → Outcome String
  | .str s => pure s
  | v => throw (.codecArgument name (argumentName v))

/-- Converts to text; with more arguments, decodes a byte string. -/
def toText : List Value → Outcome Value
  | [] => pure (.str "")
  | [v] => do return .str (← v.shown)
  | v :: codec :: rest => do
    let codec ← codecArgument "encoding" codec
    let errors ← match rest with
      | e :: _ => codecArgument "errors" e
      | [] => pure "strict"
    match v with
    | .bytes data => decodeBytes data codec errors
    | .str _ => throw .decodingText
    | v => throw (.decodingOther v.typeName)

def roundWhole : Value → Outcome Value
  | .int n => pure (.int n)
  | .bool b => pure (.int (if b then 1 else 0))
  | .float x =>
    match Number.parts x with
    | .nan => throw .nanToInteger
    | .infinite _ => throw .infinityToInteger
    | .finite .. => pure (.int ((Number.roundToInt? x).getD 0))
  | v => throw (.noRounding v.typeName)

/-- Rounds a double to a number of places. -/
def roundDouble (x : Float) (places : Int) : Outcome Value :=
  match Number.parts x with
  | .finite negative m e =>
    if 323 < places then pure (.float x)
    else if places < -308 then pure (.float (Number.withSign negative 0.0))
    else
      let r := Number.roundPlaces negative m e places
      if Number.isFinite r then pure (.float r) else throw .roundedTooLarge
  | _ => pure (.float x)

/-- Rounds to a number of places. -/
def roundTo (v places : Value) : Outcome Value :=
  match v, places with
  | v, .none => roundWhole v
  | .float x, places => do roundDouble x (← integerArgument places)
  | v, places =>
    match numeric? v with
    | some (.int n) => do
      let p ← integerArgument places
      return .int (if 0 ≤ p then n else Number.roundToPower n (-p).toNat)
    | _ => throw (.noRounding v.typeName)

def absolute (v : Value) : Outcome Value :=
  match numeric? v with
  | some (.int n) => pure (.int n.natAbs)
  | some (.float x) => pure (.float x.abs)
  | some (.complex re im) => pure (.float (Number.hypotenuse re im))
  | Option.none => throw (.badAbsOperand v.typeName)

/-- The first of the values that no other one precedes in the ordering. -/
def extreme (op : OrderOp) : Value → List Value → Outcome Value
  | best, [] => pure best
  | best, v :: rest => do
    if ← order op v best then extreme op v rest else extreme op best rest

/-- The least or greatest of the arguments, or of the members of the only one. -/
def extremeOf (function : String) (op : OrderOp) (args : List Value) : Outcome Value := do
  if args.isEmpty then throw (.argumentCount function (.between 1 1000) 0)
  let items ← match args with
    | [v] => iterate v
    | args => pure args
  match items with
  | [] => throw (.emptySequence function)
  | v :: rest => extreme op v rest

/-- The sum of the members of a value, from a start. -/
def sum (args : List Value) : Outcome Value := do
  match args with
  | [] => throw (.missingPositional "sum" 1)
  | v :: rest => do
    if 1 < rest.length then throw (.argumentCount "sum" (.taking 0 2) args.length)
    let items ← iterate v
    let start := rest.headD (.int 0)
    match start with
    | .str _ => throw .sumOfTexts
    | .bytes _ => throw .sumOfBytes
    | _ => items.foldlM (binary .add) start

/-- The arguments of a function with named parameters. -/
def requireParameters (names : List String) (args : List Value) : Outcome Unit :=
  if args.length < names.length then
    throw (.missingArguments "<lambda>" (names.drop args.length))
  else if names.length < args.length then
    throw (.tooManyArguments "<lambda>" names.length args.length)
  else pure ()

/-- The entries of a dictionary, for a function that asks any value for the given attribute. -/
def requireDict (name : String) (v : Value) : Outcome (List (Value × Value)) :=
  match v with
  | .dict entries => pure entries
  | v => throw (.absentAttribute v.typeName name)

/-- The functions that expressions may call, by name; nothing for other names. -/
def function? (name : String) (args : List Value) : Option (Outcome Value) :=
  let first := args.headD .none
  let second := args.getD 1 .none
  match name with
  | "len" => some do
    requireArity name .one args.length
    return .int (← length first)
  | "str" => some do
    requireArity name (.taking 0 3) args.length
    toText args
  | "int" => some do
    requireArity name (.taking 0 2) args.length
    match args with
    | [] => return .int 0
    | [v] => toInteger v
    | _ => toIntegerInBase first second
  | "float" => some do
    requireArity name (.between 0 1) args.length
    if args.isEmpty then return .float 0.0 else toDouble first
  | "bool" => some do
    requireArity name (.between 0 1) args.length
    return .bool first.truthy
  | "round" => some do
    if args.isEmpty then throw (.missingNamed "round" "number" 1)
    requireArity name (.taking 0 2) args.length
    roundTo first second
  | "abs" => some do
    requireArity name .one args.length
    absolute first
  | "min" => some (extremeOf name .lt args)
  | "max" => some (extremeOf name .gt args)
  | "sum" => some (sum args)
  | "sorted" => some do
    requireArity name (.between 1 1) args.length
    return .list (← sorted (← iterate first))
  | "list" => some do
    requireArity name (.between 0 1) args.length
    if args.isEmpty then return .list [] else return .list (← iterate first)
  | "lower" => some do
    requireParameters ["value"] args
    return .str (Text.toLower (← first.shown))
  | "upper" => some do
    requireParameters ["value"] args
    return .str (Text.toUpper (← first.shown))
  | "contains" => some do
    requireParameters ["container", "item"] args
    match first with
    | .none => return .bool false
    | container => return .bool (← contains container second)
  | "startswith" => some do
    requireParameters ["value", "prefix"] args
    hasAffix name List.isPrefixOf (← first.shown) [second]
  | "endswith" => some do
    requireParameters ["value", "suffix"] args
    hasAffix name List.isSuffixOf (← first.shown) [second]
  | "keys" => some do
    requireParameters ["mapping"] args
    return .list ((← requireDict name first).map (·.1))
  | "values" => some do
    requireParameters ["mapping"] args
    return .list ((← requireDict name first).map (·.2))
  | _ => Option.none

end Workflow.Value
