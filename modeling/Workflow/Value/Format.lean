/-
Texts with directives: `%` followed by an optional key in parentheses, flags, a
width, a precision and a letter stands for one of the arguments.

The arguments are the members of a tuple, or one value. A value with keys also
serves directives that name a key, and then need not be used up.
-/
import Workflow.Number.Fixed
import Workflow.Value.Sequence

namespace Workflow.Value

structure FormatFlags where
  left : Bool := false
  sign : Bool := false
  blank : Bool := false
  alternate : Bool := false
  zero : Bool := false
  deriving Repr, Inhabited

/-- The arguments that are still to be used: those of a tuple, or a single value. -/
inductive FormatArgs where
  | many (rest : List Value)
  | single (v : Value)
  | used
  deriving Inhabited

def FormatArgs.next : FormatArgs → Outcome (Value × FormatArgs)
  | .many (v :: rest) => pure (v, .many rest)
  | .single v => pure (v, .used)
  | _ => throw .tooFewFormatArguments

def FormatArgs.left : FormatArgs → Bool
  | .many rest => !rest.isEmpty
  | .single _ => true
  | .used => false

/-- The key of a directive, up to the closing parenthesis that matches; the number of characters it
takes with both parentheses is returned too. -/
def formatKey (depth : Nat) (done : List Char) : List Char → Option (String × List Char)
  | [] => Option.none
  | ')' :: rest =>
    match depth with
    | 0 => some (String.ofList done.reverse, rest)
    | d + 1 => formatKey d (')' :: done) rest
  | '(' :: rest => formatKey (depth + 1) ('(' :: done) rest
  | c :: rest => formatKey depth (c :: done) rest

/-- The flags at the start of a directive. -/
def formatFlags (flags : FormatFlags) : List Char → FormatFlags × List Char
  | '-' :: rest => formatFlags { flags with left := true } rest
  | '+' :: rest => formatFlags { flags with sign := true } rest
  | ' ' :: rest => formatFlags { flags with blank := true } rest
  | '#' :: rest => formatFlags { flags with alternate := true } rest
  | '0' :: rest => formatFlags { flags with zero := true } rest
  | cs => (flags, cs)

/-- Decimal digits as a number, and what follows. -/
def takeNumber (cs : List Char) : Nat × List Char :=
  ((cs.takeWhile Char.isDigit).foldl (fun n c => 10 * n + (c.toNat - 48)) 0,
   cs.dropWhile Char.isDigit)

/-- A width or precision: a number, or `*` for the next argument. -/
def formatSize (args : FormatArgs) : List Char → Outcome (Option Int × List Char × FormatArgs)
  | '*' :: rest => do
    let (v, args) ← args.next
    match v with
    | .int n => return (some n, rest, args)
    | .bool b => return (some (if b then 1 else 0), rest, args)
    | _ => throw .formatWidth
  | c :: rest =>
    if c.isDigit then
      let (n, rest) := takeNumber (c :: rest)
      pure (some (n : Int), rest, args)
    else pure (Option.none, c :: rest, args)
  | [] => pure (Option.none, [], args)

/-- Sign, prefix and digits of a converted number, before padding. -/
structure FormatBody where
  /-- The sign, or the blank in its place. -/
  sign : String := ""
  /-- The `0x` or `0o` that stays in front of padding zeros. -/
  lead : String := ""
  digits : String
  deriving Inhabited

/-- Puts a converted argument into its width: zeros go between the sign and the digits, blanks
outside. -/
def formatPad (flags : FormatFlags) (width : Nat) (numeric : Bool) (body : FormatBody) : String :=
  let size := body.sign.length + body.lead.length + body.digits.length
  let gap := width - size
  let fill (c : Char) := String.ofList (List.replicate gap c)
  if flags.left then body.sign ++ body.lead ++ body.digits ++ fill ' '
  else if numeric && flags.zero then body.sign ++ body.lead ++ fill '0' ++ body.digits
  else fill ' ' ++ body.sign ++ body.lead ++ body.digits

def formatSign (flags : FormatFlags) (negative : Bool) : String :=
  if negative then "-" else if flags.sign then "+" else if flags.blank then " " else ""

/-- The digits of a number in a base up to sixteen. -/
def baseDigits (base n : Nat) : String := String.ofList (Nat.toDigits base n)

/-- An integer as a directive's letter asks. -/
def formatInteger (flags : FormatFlags) (precision : Option Nat) (letter : Char) (n : Int) :
    FormatBody :=
  let digits :=
    if letter = 'x' then baseDigits 16 n.natAbs
    else if letter = 'X' then (baseDigits 16 n.natAbs).map Char.toUpper
    else if letter = 'o' then baseDigits 8 n.natAbs
    else Number.natText n.natAbs
  let zeros := precision.getD 0 - digits.length
  let lead :=
    if flags.alternate then
      if letter = 'x' then "0x" else if letter = 'X' then "0X" else if letter = 'o' then "0o" else ""
    else ""
  ⟨formatSign flags (n < 0), lead, String.ofList (List.replicate zeros '0') ++ digits⟩

/-- A double as a directive's letter asks. -/
def formatDouble (flags : FormatFlags) (precision : Nat) (letter : Char) (x : Float) : FormatBody :=
  let lower := letter.toLower
  let upper (s : String) := if letter = lower then s else s.map Char.toUpper
  match Number.parts x with
  | .nan => ⟨formatSign flags false, "", upper "nan"⟩
  | .infinite negative => ⟨formatSign flags negative, "", upper "inf"⟩
  | .finite negative m e =>
    let text :=
      if lower = 'f' then Number.fixedText m e precision flags.alternate
      else if lower = 'e' then Number.exponentForm m e precision flags.alternate
      else Number.generalText m e precision flags.alternate
    ⟨formatSign flags negative, "", upper text⟩

/-- The integer that an argument gives to a directive for integers. -/
def formatIntegerArgument (letter : Char) (v : Value) : Outcome Int :=
  let exact := letter = 'x' ∨ letter = 'X' ∨ letter = 'o'
  match v with
  | .int n => pure n
  | .bool b => pure (if b then 1 else 0)
  | .float x =>
    if exact then throw (.formatNeedsInteger letter "float")
    else
      match Number.parts x with
      | .nan => throw .nanToInteger
      | .infinite _ => throw .infinityToInteger
      | _ => pure ((Number.truncate? x).getD 0)
  | v =>
    if exact then throw (.formatNeedsInteger letter v.typeName)
    else throw (.formatNeedsNumber letter v.typeName)

/-- The double that an argument gives to a directive for doubles. -/
def formatDoubleArgument (v : Value) : Outcome Float :=
  match v with
  | .float x => pure x
  | .int n =>
    let x := Number.ofInt n
    if Number.isFinite x then pure x else throw .integerTooLargeForFloat
  | .bool b => pure (if b then 1.0 else 0.0)
  | v => throw (.formatNeedsReal v.typeName)

/-- The character that an argument gives to the directive for characters. -/
def formatCharArgument (v : Value) : Outcome String :=
  match v with
  | .str s => if s.length = 1 then pure s else throw .formatNeedsChar
  | .int n =>
    if 0 ≤ n ∧ n < 0x110000 then pure (String.singleton (Char.ofNat n.toNat))
    else throw .formatCharRange
  | .bool b => pure (String.singleton (Char.ofNat (if b then 1 else 0)))
  | _ => throw .formatNeedsChar

/-- A literal with every character beyond the first 128 escaped. -/
def asciiOnly (literal : String) : String :=
  String.ofList (literal.toList.flatMap fun c =>
    if c.toNat < 0x80 then [c] else Text.escapeCode c.toNat)

/-- The text for one argument. `position` is the place of the letter, for the complaint about one
that means nothing. -/
def formatArgument (flags : FormatFlags) (width : Nat) (precision : Option Nat) (letter : Char)
    (position : Nat) (v : Value) : Outcome String :=
  let text (s : String) :=
    let cut := match precision with
      | some p => String.ofList (s.toList.take p)
      | Option.none => s
    pure (formatPad flags width false ⟨"", "", cut⟩)
  if letter = 's' then do text (← v.shown)
  else if letter = 'r' then do text (← v.spelled)
  else if letter = 'a' then do text (asciiOnly (← v.spelled))
  else if letter ∈ ['d', 'i', 'u', 'o', 'x', 'X'] then do
    let n ← formatIntegerArgument letter v
    if letter ∈ ['d', 'i', 'u'] ∧ Number.isOverlong n then throw .overlongInteger
    return formatPad flags width true (formatInteger flags precision letter n)
  else if letter ∈ ['e', 'E', 'f', 'F', 'g', 'G'] then do
    let x ← formatDoubleArgument v
    return formatPad flags width true (formatDouble flags (precision.getD 6) letter x)
  else if letter = 'c' then do
    let s ← formatCharArgument v
    return formatPad flags width false ⟨"", "", s⟩
  else throw (.formatUnknown letter position)

/-- The value whose keys a directive may name. -/
def formatMapping? : Value → Option Value
  | .dict entries => some (.dict entries)
  | .list items => some (.list items)
  | .bytes data => some (.bytes data)
  | _ => Option.none

/-- Replaces the directives of the rest of a text; `total` is the length of the whole text. -/
def formatFrom (mapping : Option Value) (total : Nat) :
    Nat → List Char → FormatArgs → Outcome (List Char)
  | 0, _, _ => throw .formatIncomplete
  | _ + 1, [], args =>
    if args.left && mapping.isNone then throw .unusedFormatArguments else pure []
  | fuel + 1, '%' :: spec, args => do
    let (args, spec) ← match spec with
      | '(' :: rest =>
        match mapping with
        | Option.none => throw .formatNeedsMapping
        | some m =>
          match formatKey 0 [] rest with
          | Option.none => throw .formatIncompleteKey
          | some (key, rest) => do
            let v ← subscript m (.str key)
            pure (FormatArgs.single v, rest)
      | _ => pure (args, spec)
    let (flags, spec) := formatFlags {} spec
    let (width, spec, args) ← formatSize args spec
    let flags := if (width.getD 0) < 0 then { flags with left := true } else flags
    let (precision, spec, args) ← match spec with
      | '.' :: rest => do
        let (p, rest, args) ← formatSize args rest
        pure (some (p.getD 0).toNat, rest, args)
      | _ => pure (Option.none, spec, args)
    let spec := match spec with
      | c :: rest => if c = 'h' ∨ c = 'l' ∨ c = 'L' then rest else c :: rest
      | [] => []
    match spec with
    | [] => throw .formatIncomplete
    | '%' :: rest => return '%' :: (← formatFrom mapping total fuel rest args)
    | letter :: rest => do
      let (v, args) ← args.next
      let text ← formatArgument flags (width.getD 0).natAbs precision letter
        (total - rest.length - 1) v
      return text.toList ++ (← formatFrom mapping total fuel rest args)
  | fuel + 1, c :: rest, args => return c :: (← formatFrom mapping total fuel rest args)

def format (template : String) (argument : Value) : Outcome Value := do
  let cs := template.toList
  let args := match argument with
    | .tuple items => FormatArgs.many items
    | v => FormatArgs.single v
  let out ← formatFrom (formatMapping? argument) cs.length (cs.length + 1) cs args
  return .str (String.ofList out)

end Workflow.Value
