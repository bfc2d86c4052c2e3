/-
The choice of quotes for texts that a script shows as they are: descriptions
and formatted texts keep their line ends and avoid backslashes where the
quotes allow it.
-/
import Workflow.Text.Quoted

namespace Workflow.Source

/-- The quotes around a text. -/
inductive Quote where
  | single
  | double
  | tripleDouble
  | tripleSingle
  deriving Repr, DecidableEq, Inhabited

namespace Quote

def mark : Quote → List Char
  | single => ['\'']
  | double => ['"']
  | tripleDouble => ['"', '"', '"']
  | tripleSingle => ['\'', '\'', '\'']

def char : Quote → Char
  | single | tripleSingle => '\''
  | double | tripleDouble => '"'

/-- The quotes between which a text may run over several lines. -/
def multi : List Quote := [tripleDouble, tripleSingle]

def all : List Quote := [single, double, tripleDouble, tripleSingle]

end Quote

/-- Whether one text occurs in another. -/
def occursIn (part : List Char) : List Char → Bool
  | [] => part.isEmpty
  | c :: rest => part.isPrefixOf (c :: rest) || occursIn part rest

/-- A character that is shown as it is where possible. Line ends and tabs are escaped only on
request. -/
def shownChar (escapeLayout : Bool) (c : Char) : List Char :=
  if !escapeLayout && (c = '\n' || c = '\t') then [c]
  else if c = '\\' then ['\\', '\\']
  else if Text.isPrintable c then [c]
  else if c = '\n' then ['\\', 'n']
  else if c = '\t' then ['\\', 't']
  else if c = '\r' then ['\\', 'r']
  else Text.escapeCode c.toNat

/-- A quoted text without its quotes. -/
def unquoted (s : String) : List Char := ((Text.quoted s).toList.drop 1).dropLast

/-- The inside of a text between one of the offered quotes, with the quotes that fit it, best first.
Where none fits, the text is escaped throughout. -/
def shownText (s : String) (offered : List Quote) (escapeLayout : Bool) : List Char × List Quote :=
  let shown := s.toList.flatMap (shownChar escapeLayout)
  let fitting := if shown.contains '\n' then offered.filter (· ∈ Quote.multi) else offered
  let fitting := fitting.filter fun q => !occursIn q.mark shown
  match fitting, shown.getLast? with
  | [], _ =>
    let quote := Text.quoteFor s.toList
    let chosen := (offered.find? fun q => q.char = quote).getD
      (if quote = '"' then Quote.double else Quote.single)
    (unquoted s, [chosen])
  | fitting, none => (shown, fitting)
  | fitting, some last =>
    -- A quote that the text ends with comes last, and has its end escaped.
    let ordered := fitting.filter (·.char ≠ last) ++ fitting.filter (·.char = last)
    let clash := (ordered.head?.map (·.char)) = some last
    (if clash then shown.dropLast ++ ['\\', last] else shown, ordered)

/-- A text between the first fitting of the offered quotes. -/
def quotedWithin (offered : List Quote) (s : String) : String :=
  let (shown, quotes) := shownText s offered false
  let mark := (quotes.headD .single).mark
  String.ofList (mark ++ shown ++ mark)

/-- The quotes and insides that suit all the pieces of a formatted text, each piece restricting the
choice for the next; nothing when a piece leaves none. A fixed piece has its layout escaped. -/
def shownPieces (offered : List Quote) : List (String × Bool) → Option (List Char × List Quote)
  | [] => some ([], offered)
  | (content, fixed) :: rest =>
    let (shown, quotes) := shownText content offered fixed
    if quotes.all (· ∉ offered) then none
    else
      match shownPieces quotes rest with
      | none => none
      | some (more, quotes) => some (shown ++ more, quotes)

/-- A text escaped as between single quotes, whatever quotes it holds. -/
def escapedSingle (s : String) : List Char := s.toList.flatMap (Text.quoteChar '\'')

/-- The pieces of a formatted text between quotes that suit them all. -/
def quotedPieces (pieces : List (String × Bool)) : String :=
  match shownPieces Quote.all pieces with
  | some (shown, quotes) =>
    let mark := (quotes.headD .single).mark
    String.ofList (mark ++ shown ++ mark)
  | none =>
    let mark := Quote.tripleSingle.mark
    String.ofList (mark ++ pieces.flatMap (fun p => escapedSingle p.1) ++ mark)

end Workflow.Source
