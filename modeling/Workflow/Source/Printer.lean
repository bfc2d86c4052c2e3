/-
The text of a script: one layout for every tree, four spaces a level, a blank
line before each definition, and parentheses only where the grammar needs them.

Each expression is written for a level of the grammar: a form that binds less
tightly than its level is put in parentheses.
-/
import Workflow.Number.Shortest
import Workflow.Source.Quoting
import Workflow.Source.Tree
import Workflow.Text.Quoted
import Workflow.Value.Text

namespace Workflow.Source

/-- The levels of the grammar, from the loosest to the tightest. -/
structure Level where
  rank : Nat
  deriving Repr, DecidableEq, Inhabited

namespace Level

def named : Level := ⟨1⟩
def tuple : Level := ⟨2⟩
def yields : Level := ⟨3⟩
def test : Level := ⟨4⟩
def or : Level := ⟨5⟩
def and : Level := ⟨6⟩
def not : Level := ⟨7⟩
def comparison : Level := ⟨8⟩
def bitOr : Level := ⟨9⟩
def bitXor : Level := ⟨10⟩
def bitAnd : Level := ⟨11⟩
def shift : Level := ⟨12⟩
def sum : Level := ⟨13⟩
def term : Level := ⟨14⟩
def factor : Level := ⟨15⟩
def power : Level := ⟨16⟩
def await : Level := ⟨17⟩
def atom : Level := ⟨18⟩

/-- The next tighter level. -/
def next (l : Level) : Level := ⟨min (l.rank + 1) 18⟩

end Level

def BinaryOp.level : BinaryOp → Level
  | bitOr => .bitOr
  | bitXor => .bitXor
  | bitAnd => .bitAnd
  | leftShift | rightShift => .shift
  | add | sub => .sum
  | mult | matMult | div | mod | floorDiv => .term
  | pow => .power

/-- Puts a form of its own level in parentheses where a tighter one is asked for. -/
def enclose (own asked : Level) (text : String) : String :=
  if own.rank < asked.rank then "(" ++ text ++ ")" else text

/-- Items set apart by commas; a single one is followed by a comma. -/
def itemsText : List String → String
  | [one] => one ++ ","
  | items => ", ".intercalate items

/-- The text of a double literal, of which an infinite one is too large a number. -/
def doubleText (x : Float) : String :=
  if Number.isFinite x then Number.floatText x else "1e309"

def Constant.text (plain : Bool) : Constant → String
  | .none => "None"
  | .bool b => if b then "True" else "False"
  | .int n => Number.natText n
  | .float x => doubleText x
  | .imaginary x => (if Number.isFinite x then Value.partText x else "1e309") ++ "j"
  | .str text marked =>
    (if marked then "u" else "") ++ (if plain then quotedWithin Quote.all text else Text.quoted text)
  | .bytes data => Text.quotedBytes data
  | .ellipsis => "..."

/-- A text with its braces doubled. -/
def doubleBraces (s : String) : String :=
  String.ofList (s.toList.flatMap fun c => if c = '\x7b' ∨ c = '\x7d' then [c, c] else [c])

mutual

/-- The text of an expression for a level of the grammar. With `plain`, texts inside avoid
backslashes. -/
def Expr.text (plain : Bool) (asked : Level) : Expr → String
  | .constant value => value.text plain
  | .name id => id
  | .named target value => enclose .named asked (target ++ " := " ++ value.text plain .atom)
  | .boolean .or values =>
    enclose .or asked (" or ".intercalate (risingTexts plain Level.or.next values))
  | .boolean .and values =>
    enclose .and asked (" and ".intercalate (risingTexts plain Level.and.next values))
  | .binary op left right =>
    let own := op.level
    let (leftLevel, rightLevel) := if op = .pow then (own.next, own) else (own, own.next)
    enclose own asked
      (left.text plain leftLevel ++ " " ++ op.sign ++ " " ++ right.text plain rightLevel)
  | .unary .not operand => enclose .not asked ("not " ++ operand.text plain .not)
  | .unary op operand => enclose .factor asked (op.sign ++ operand.text plain .factor)
  | .lambda params body =>
    let shown := paramsText plain params
    enclose .test asked
      ((if shown.isEmpty then "lambda: " else "lambda " ++ shown ++ ": ") ++ body.text plain .test)
  | .choice test body orElse =>
    enclose .test asked
      (body.text plain Level.test.next ++ " if " ++ test.text plain Level.test.next ++ " else " ++
        orElse.text plain .test)
  | .dict items => "\x7b" ++ ", ".intercalate (dictItemTexts plain items) ++ "\x7d"
  | .set items => "\x7b" ++ ", ".intercalate (exprTexts plain .test items) ++ "\x7d"
  | .list items => "[" ++ ", ".intercalate (exprTexts plain .test items) ++ "]"
  | .tuple items =>
    let shown := itemsText (exprTexts plain .test items)
    if items.isEmpty ∨ Level.tuple.rank < asked.rank then "(" ++ shown ++ ")" else shown
  | .comprehension kind element clauses =>
    let shown := element.text plain .test ++ clausesText plain clauses
    match kind with
    | .list => "[" ++ shown ++ "]"
    | .set => "\x7b" ++ shown ++ "\x7d"
    | .generator => "(" ++ shown ++ ")"
  | .dictComprehension key value clauses =>
    "\x7b" ++ key.text plain .test ++ ": " ++ value.text plain .test ++ clausesText plain clauses ++
      "\x7d"
  | .await value => enclose .await asked ("await " ++ value.text plain .atom)
  | .yield value =>
    enclose .yields asked
      (match optionText plain .atom value with
        | some shown => "yield " ++ shown
        | none => "yield")
  | .yieldFrom value => enclose .yields asked ("yield from " ++ value.text plain .atom)
  | .compare first rest =>
    enclose .comparison asked
      (first.text plain Level.comparison.next ++ comparisonsText plain rest)
  | .call function args keywords =>
    function.text plain .atom ++ "(" ++
      ", ".intercalate (exprTexts plain .test args ++ keywordTexts plain keywords) ++ ")"
  | .format pieces =>
    "f" ++
      (if plain then quotedWithin Quote.all (String.join ((pieceTexts pieces).map (·.1)))
       else quotedPieces (pieceTexts pieces))
  | .attr value name =>
    let shown := value.text plain .atom
    match value with
    | .constant (.int _) | .constant (.bool _) => shown ++ " ." ++ name
    | _ => shown ++ "." ++ name
  | .subscript value index =>
    value.text plain .atom ++ "[" ++
      (match index with
        | .tuple items =>
          if items.isEmpty then "()" else itemsText (exprTexts plain .test items)
        | index => index.text plain .test) ++ "]"
  | .starred value => "*" ++ value.text plain .bitOr
  | .slice lower upper step =>
    (optionText plain .test lower).getD "" ++ ":" ++ (optionText plain .test upper).getD "" ++
      (match optionText plain .test step with
        | some shown => ":" ++ shown
        | none => "")
termination_by structural e => e

def exprTexts (plain : Bool) (asked : Level) : List Expr → List String
  | [] => []
  | e :: rest => e.text plain asked :: exprTexts plain asked rest
termination_by structural es => es

/-- The texts of the operands of a connective, each for a tighter level than the one before. -/
def risingTexts (plain : Bool) (asked : Level) : List Expr → List String
  | [] => []
  | e :: rest => e.text plain asked :: risingTexts plain asked.next rest
termination_by structural es => es

def optionText (plain : Bool) (asked : Level) : Option Expr → Option String
  | none => none
  | some e => some (e.text plain asked)
termination_by structural e => e

def dictItemTexts (plain : Bool) : List DictItem → List String
  | [] => []
  | .entry key value :: rest =>
    (key.text plain .test ++ ": " ++ value.text plain .test) :: dictItemTexts plain rest
  | .spread mapping :: rest => ("**" ++ mapping.text plain .bitOr) :: dictItemTexts plain rest
termination_by structural items => items

def clausesText (plain : Bool) : List Clause → String
  | [] => ""
  | .mk isAsync target iter conditions :: rest =>
    (if isAsync then " async for " else " for ") ++ target.text plain .tuple ++ " in " ++
      iter.text plain Level.test.next ++
      String.join ((exprTexts plain Level.test.next conditions).map (" if " ++ ·)) ++
      clausesText plain rest
termination_by structural clauses => clauses

def comparisonsText (plain : Bool) : List Comparison → String
  | [] => ""
  | .mk op right :: rest =>
    " " ++ op.sign ++ " " ++ right.text plain Level.comparison.next ++ comparisonsText plain rest
termination_by structural rest => rest

def keywordTexts (plain : Bool) : List Keyword → List String
  | [] => []
  | .mk (some name) value :: rest =>
    (name ++ "=" ++ value.text plain .test) :: keywordTexts plain rest
  | .mk none value :: rest => ("**" ++ value.text plain .test) :: keywordTexts plain rest
termination_by structural keywords => keywords

/-- The insides of the pieces of a formatted text, each with whether it is a fixed text. -/
def pieceTexts : List Piece → List (String × Bool)
  | [] => []
  | .text content :: rest => (doubleBraces content, true) :: pieceTexts rest
  | .value value conversion spec :: rest =>
    let shown := value.text true Level.test.next
    let converted := match conversion with
      | some c => "!" ++ String.singleton c.letter
      | none => ""
    ("\x7b" ++ (if shown.startsWith "\x7b" then " " else "") ++ shown ++ converted ++
      specText spec ++ "\x7d", false) :: pieceTexts rest
termination_by structural pieces => pieces

/-- The format of a value after its colon. -/
def specText : Option (List Piece) → String
  | none => ""
  | some pieces => ":" ++ String.join ((pieceTexts pieces).map (·.1))
termination_by structural spec => spec

/-- The text of a parameter without its default. -/
def paramText (plain : Bool) : Param → String
  | .mk name hint _ =>
    name ++
      (match optionText plain .test hint with
        | some shown => ": " ++ shown
        | none => "")
termination_by structural p => p

def paramTexts (plain : Bool) : List Param → List String
  | [] => []
  | .mk name hint fallback :: rest =>
    (name ++
      (match optionText plain .test hint with
        | some shown => ": " ++ shown
        | none => "") ++
      (match optionText plain .test fallback with
        | some shown => "=" ++ shown
        | none => "")) :: paramTexts plain rest
termination_by structural ps => ps

def optionParamText (plain : Bool) : Option Param → Option String
  | none => none
  | some p => some (paramText plain p)
termination_by structural p => p

def paramsText (plain : Bool) : Params → String
  | .mk positional regular rest named others =>
    let collecting := match optionParamText plain rest with
      | some shown => ["*" ++ shown]
      | none => if named.isEmpty then [] else ["*"]
    let extra := match optionParamText plain others with
      | some shown => ["**" ++ shown]
      | none => []
    ", ".intercalate
      (paramTexts plain positional ++ (if positional.isEmpty then [] else ["/"]) ++
        paramTexts plain regular ++ collecting ++ paramTexts plain named ++ extra)
termination_by structural ps => ps

end

mutual

/-- The text of a pattern for a level of the grammar. -/
def Pattern.text (asked : Level) : Pattern → String
  | .value expr => expr.text false .test
  | .singleton value => value.text false
  | .sequence items => "[" ++ ", ".intercalate (patternTexts .test items) ++ "]"
  | .star name => "*" ++ name.getD "_"
  | .mapping entries rest =>
    let more := match rest with
      | some name => ["**" ++ name]
      | none => []
    "\x7b" ++ ", ".intercalate (entryTexts entries ++ more) ++ "\x7d"
  | .instanceOf type items named =>
    type.text false .atom ++ "(" ++
      ", ".intercalate (patternTexts .test items ++ namedTexts named) ++ ")"
  | .capture pattern name => enclose .test asked (pattern.text .bitOr ++ " as " ++ name)
  | .bind name => name
  | .wildcard => "_"
  | .either options =>
    enclose .bitOr asked (" | ".intercalate (patternTexts Level.bitOr.next options))
termination_by structural p => p

def patternTexts (asked : Level) : List Pattern → List String
  | [] => []
  | p :: rest => p.text asked :: patternTexts asked rest
termination_by structural ps => ps

def entryTexts : List (Expr × Pattern) → List String
  | [] => []
  | (key, p) :: rest => (key.text false .test ++ ": " ++ p.text .test) :: entryTexts rest
termination_by structural ps => ps

def namedTexts : List (String × Pattern) → List String
  | [] => []
  | (name, p) :: rest => (name ++ "=" ++ p.text .test) :: namedTexts rest
termination_by structural ps => ps

end

/-- A line at a level of indentation. -/
def indented (depth : Nat) (line : String) : String :=
  String.ofList (List.replicate (4 * depth) ' ') ++ line

/-- An expression as a part of a statement. -/
def Expr.shown (e : Expr) : String := e.text false .test

def Alias.text (a : Alias) : String :=
  match a.given with
  | some given => a.name ++ " as " ++ given
  | none => a.name

def WithItem.text (item : WithItem) : String :=
  match item.target with
  | some target => item.context.shown ++ " as " ++ target.shown
  | none => item.context.shown

/-- The description that opens a block, between triple quotes. -/
def docLine (depth : Nat) (text : String) (marked : Bool) : String :=
  indented depth ((if marked then "u" else "") ++ quotedWithin Quote.multi text)

def decoratorLines (depth : Nat) (decorators : List Expr) : List String :=
  decorators.map fun e => indented depth ("@" ++ e.shown)

mutual

/-- The lines of a statement. A definition has a blank line before it. -/
def Stmt.lines (depth : Nat) : Stmt → List String
  | .function isAsync name params returns decorators body =>
    let arrow := match returns with
      | some e => " -> " ++ e.shown
      | none => ""
    "" :: decoratorLines depth decorators ++
      indented depth ((if isAsync then "async def " else "def ") ++ name ++ "(" ++
        paramsText false params ++ ")" ++ arrow ++ ":") :: describedLines (depth + 1) body
  | .classDef name bases keywords decorators body =>
    let args := exprTexts false .test bases ++ keywordTexts false keywords
    "" :: decoratorLines depth decorators ++
      indented depth ("class " ++ name ++
        (if args.isEmpty then "" else "(" ++ ", ".intercalate args ++ ")") ++ ":") ::
      describedLines (depth + 1) body
  | .ret value =>
    [indented depth (match value with
      | some e => "return " ++ e.shown
      | none => "return")]
  | .delete targets => [indented depth ("del " ++ ", ".intercalate (exprTexts false .test targets))]
  | .assign targets value =>
    [indented depth
      (String.join ((exprTexts false .tuple targets).map (· ++ " = ")) ++ value.shown)]
  | .augment target op value =>
    [indented depth (target.shown ++ " " ++ op.sign ++ "= " ++ value.shown)]
  | .annotate target hint value simple =>
    let left := match target, simple with
      | .name id, false => "(" ++ id ++ ")"
      | target, _ => target.shown
    let right := match value with
      | some e => " = " ++ e.shown
      | none => ""
    [indented depth (left ++ ": " ++ hint.shown ++ right)]
  | .forEach isAsync target iter body orElse =>
    indented depth ((if isAsync then "async for " else "for ") ++ target.text false .tuple ++
      " in " ++ iter.shown ++ ":") :: blockLines (depth + 1) body ++ elseLines depth "else:" orElse
  | .loop test body orElse =>
    indented depth ("while " ++ test.shown ++ ":") :: blockLines (depth + 1) body ++
      elseLines depth "else:" orElse
  | .branch test body orElse =>
    indented depth ("if " ++ test.shown ++ ":") :: blockLines (depth + 1) body ++
      otherwiseLines depth orElse
  | .using isAsync items body =>
    indented depth ((if isAsync then "async with " else "with ") ++
      ", ".intercalate (items.map (·.text)) ++ ":") :: blockLines (depth + 1) body
  | .select subject cases =>
    indented depth ("match " ++ subject.shown ++ ":") :: caseLines (depth + 1) cases
  | .raise error cause =>
    let from_ := match cause with
      | some e => " from " ++ e.shown
      | none => ""
    [indented depth (match error with
      | some e => "raise " ++ e.shown ++ from_
      | none => "raise")]
  | .attempt group body handlers orElse ensure =>
    indented depth "try:" :: blockLines (depth + 1) body ++
      handlerLines depth (if group then "except*" else "except") handlers ++
      elseLines depth "else:" orElse ++ elseLines depth "finally:" ensure
  | .assertion test message =>
    let tail := match message with
      | some e => ", " ++ e.shown
      | none => ""
    [indented depth ("assert " ++ test.shown ++ tail)]
  | .importNames names => [indented depth ("import " ++ ", ".intercalate (names.map (·.text)))]
  | .importFrom module names level =>
    [indented depth ("from " ++ String.ofList (List.replicate level '.') ++ module.getD "" ++
      " import " ++ ", ".intercalate (names.map (·.text)))]
  | .globalNames names => [indented depth ("global " ++ ", ".intercalate names)]
  | .nonlocalNames names => [indented depth ("nonlocal " ++ ", ".intercalate names)]
  | .expr value => [indented depth (value.text false .yields)]
  | .pass => [indented depth "pass"]
  | .stop => [indented depth "break"]
  | .next => [indented depth "continue"]
termination_by structural s => s

def blockLines (depth : Nat) : List Stmt → List String
  | [] => []
  | s :: rest => s.lines depth ++ blockLines depth rest
termination_by structural body => body

/-- The lines of a block that may open with a description. -/
def describedLines (depth : Nat) : List Stmt → List String
  | [] => []
  | s :: rest =>
    (match s.docText? with
      | some (text, marked) => [docLine depth text marked]
      | none => s.lines depth) ++ blockLines depth rest
termination_by structural body => body

/-- The lines of a block under a header, none when it is empty. -/
def elseLines (depth : Nat) (header : String) : List Stmt → List String
  | [] => []
  | s :: rest => indented depth header :: s.lines (depth + 1) ++ blockLines (depth + 1) rest
termination_by structural body => body

/-- The lines of what a condition leaves: a single further condition continues the chain. -/
def otherwiseLines (depth : Nat) : List Stmt → List String
  | [] => []
  | s :: rest =>
    match s, rest with
    | .branch test body orElse, [] =>
      indented depth ("elif " ++ test.shown ++ ":") :: blockLines (depth + 1) body ++
        otherwiseLines depth orElse
    | s, rest => indented depth "else:" :: s.lines (depth + 1) ++ blockLines (depth + 1) rest
termination_by structural body => body

def handlerLines (depth : Nat) (word : String) : List Handler → List String
  | [] => []
  | .mk type name body :: rest =>
    let shownType := match type with
      | some e => " " ++ e.shown
      | none => ""
    let shownName := match name with
      | some n => " as " ++ n
      | none => ""
    indented depth (word ++ shownType ++ shownName ++ ":") :: blockLines (depth + 1) body ++
      handlerLines depth word rest
termination_by structural handlers => handlers

def caseLines (depth : Nat) : List Case → List String
  | [] => []
  | .mk pattern guard body :: rest =>
    let condition := match guard with
      | some e => " if " ++ e.shown
      | none => ""
    indented depth ("case " ++ pattern.text .test ++ condition ++ ":") ::
      blockLines (depth + 1) body ++ caseLines depth rest
termination_by structural cases => cases

end

/-- Lines as one text. The blank line before a definition is left out where nothing stands before
it. -/
def joinLines : List String → String
  | "" :: rest => "\n".intercalate rest
  | lines => "\n".intercalate lines

/-- The text of a script. -/
def scriptText (body : List Stmt) : String := joinLines (describedLines 0 body)

def Stmt.text (s : Stmt) : String := joinLines (s.lines 0)

end Workflow.Source
