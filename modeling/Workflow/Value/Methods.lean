/-
The methods of texts, lists and dictionaries.
-/
import Workflow.Text.Case
import Workflow.Text.Search
import Workflow.Value.Sequence

namespace Workflow.Value

/-- Refuses a number of arguments outside the range that a method takes. -/
def requireArity (function : String) (arity : Arity) (given : Nat) : Outcome Unit :=
  let ok : Bool := match arity with
    | .none => given = 0
    | .one => given = 1
    | .between least most => least ≤ given ∧ given ≤ most
    | .taking least most => least ≤ given ∧ given ≤ most
  if ok then pure () else throw (.argumentCount function arity given)

/-- The name of an argument's type in complaints about it. -/
def argumentName : Value → String
  | .none => "None"
  | v => v.typeName

def integerArgument (v : Value) : Outcome Int :=
  match position? v with
  | some n => pure n
  | Option.none => throw (.notAnInteger v.typeName)

/-- A limit on a number of steps: negative ones set none. -/
def limitArgument (unlimited : Nat) (n : Int) : Nat := if n < 0 then unlimited else n.toNat

/-- The part of a text between two optional bounds, and the place where it starts; nothing when the
bounds cross. -/
def window (cs : List Char) (bounds : List Value) : Outcome (Option (Nat × List Char)) := do
  let start ← match bounds with
    | v :: _ => sliceBound v
    | [] => pure Option.none
  let stop ← match bounds with
    | _ :: v :: _ => sliceBound v
    | _ => pure Option.none
  let size : Int := cs.length
  let settle (n : Int) := if n < 0 then max (n + size) 0 else n
  let first := settle (start.getD 0)
  let last := min (settle (stop.getD size)) size
  if last < first then return Option.none
  return some (first.toNat, (cs.drop first.toNat).take (last - first).toNat)

/-- Whether a text starts (or ends) with one of the offered texts. They are looked at one by one, so
that a match hides a later one of the wrong type. -/
def anyAffix (function : String) (test : List Char → Bool) : List Value → Outcome Bool
  | [] => pure false
  | .str t :: rest => if test t.toList then pure true else anyAffix function test rest
  | v :: _ => throw (.affixTuple function v.typeName)

/-- Whether a text starts (or ends) with a text, or with one of a tuple of texts. -/
def hasAffix (function : String) (test : List Char → List Char → Bool) (s : String)
    (args : List Value) : Outcome Value := do
  requireArity function (.taking 1 3) args.length
  let part ← window s.toList args.tail
  let fits (t : List Char) : Bool := (part.map fun (_, cs) => test t cs).getD false
  match args.headD .none with
  | .tuple items => return .bool (← anyAffix function fits items)
  | .str t => return .bool (fits t.toList)
  | v => throw (.affixArgument function v.typeName)

/-- The text argument of a search. -/
def searchText (args : List Value) : Outcome (List Char) :=
  match args with
  | .str t :: _ => pure t.toList
  | v :: _ => throw (.expectedText v.typeName)
  | [] => pure []

/-- Trims a text at one end or both, of blanks or of the given characters. -/
def stripMethod (function : String) (cut : (Char → Bool) → String → String) (s : String)
    (args : List Value) : Outcome Value := do
  requireArity function (.between 0 1) args.length
  match args with
  | [] | [.none] => return .str (cut Text.isBlank s)
  | .str chars :: _ => return .str (cut chars.toList.contains s)
  | _ => throw (.stripArgument function)

/-- Splits a text at blanks or at a separator. -/
def splitMethod (s : String) (args : List Value) : Outcome Value := do
  requireArity "split" (.taking 0 2) args.length
  let limit ← match args with
    | _ :: n :: _ => do pure (limitArgument (s.length + 1) (← integerArgument n))
    | _ => pure (s.length + 1)
  let parts ← match args with
    | [] | .none :: _ => pure (Text.splitWords limit s.toList)
    | .str separator :: _ =>
      if separator.isEmpty then throw .emptySeparator
      else pure (Text.splitAt separator.toList limit s.toList)
    | v :: _ => throw (.expectedTextOrNone v.typeName)
  return .list (parts.map fun cs => .str (String.ofList cs))

def replaceMethod (s : String) (args : List Value) : Outcome Value := do
  requireArity "replace" (.between 2 3) args.length
  match args with
  | .str old :: .str new :: rest => do
    let limit ← match rest with
      | n :: _ => do pure (limitArgument (s.length + 1) (← integerArgument n))
      | [] => pure (s.length + 1)
    return .str (String.ofList (Text.replaceAt old.toList new.toList limit s.toList))
  | .str _ :: new :: _ => throw (.argumentType "replace" 2 "str" (argumentName new))
  | old :: _ => throw (.argumentType "replace" 1 "str" (argumentName old))
  | [] => return .str s

def joinMethod (separator : String) (args : List Value) : Outcome Value := do
  requireArity "str.join" .one args.length
  match args.head?.bind items? with
  | Option.none => throw .joinOfNonIterable
  | some items => do
    let texts ← items.zipIdx.mapM fun (item, i) =>
      match item with
      | .str t => pure t
      | v => throw (.joinItem i v.typeName)
    return .str (separator.intercalate texts)

def textMethod? (name : String) (s : String) (args : List Value) : Option (Outcome Value) :=
  let plain (f : String → String) : Outcome Value := do
    requireArity ("str." ++ name) .none args.length
    return .str (f s)
  match name with
  | "lower" => some (plain Text.toLower)
  | "upper" => some (plain Text.toUpper)
  | "title" => some (plain Text.toTitle)
  | "strip" => some (stripMethod name Text.trimWhere s args)
  | "lstrip" => some (stripMethod name Text.trimStartWhere s args)
  | "rstrip" => some (stripMethod name Text.trimEndWhere s args)
  | "split" => some (splitMethod s args)
  | "replace" => some (replaceMethod s args)
  | "startswith" => some (hasAffix name List.isPrefixOf s args)
  | "endswith" => some (hasAffix name List.isSuffixOf s args)
  | "join" => some (joinMethod s args)
  | "count" => some do
    requireArity name (.taking 1 3) args.length
    let needle ← searchText args
    let part ← window s.toList args.tail
    return .int ((part.map fun (_, cs) => (Text.occurrences needle cs : Int)).getD 0)
  | "find" => some do
    requireArity name (.taking 1 3) args.length
    let needle ← searchText args
    let part ← window s.toList args.tail
    let place := part.bind fun (start, cs) => Text.indexFrom needle start cs
    return .int ((place.map fun n => (n : Int)).getD (-1))
  | _ => Option.none

/-- A bound of a search in a list. -/
def searchBound (size : Nat) (v : Value) : Outcome Nat :=
  match position? v with
  | some n => pure (if n < 0 then (n + size).toNat else n.toNat)
  | Option.none => throw .badSearchIndex

/-- The place of the first item from a place on that counts as `v`. -/
def indexOf (v : Value) (stop place : Nat) : List Value → Option Nat
  | [] => Option.none
  | item :: rest =>
    if stop ≤ place then Option.none
    else if same item v then some place
    else indexOf v stop (place + 1) rest

def listMethod? (name : String) (items : List Value) (args : List Value) : Option (Outcome Value) :=
  match name with
  | "count" => some do
    requireArity "list.count" .one args.length
    let v := args.headD .none
    return .int (items.countP fun item => same item v)
  | "index" => some do
    requireArity name (.between 1 3) args.length
    let v := args.headD .none
    let start ← match args with
      | _ :: n :: _ => searchBound items.length n
      | _ => pure 0
    let stop ← match args with
      | _ :: _ :: n :: _ => searchBound items.length n
      | _ => pure items.length
    match indexOf v stop start (items.drop start) with
    | some place => return .int place
    | Option.none => throw (.notInList (← v.spelled))
  | _ => Option.none

def dictMethod? (name : String) (entries : List (Value × Value)) (args : List Value) :
    Option (Outcome Value) :=
  let shown (kind : ViewKind) : Outcome Value := do
    requireArity ("dict." ++ name) .none args.length
    return .view kind entries
  match name with
  | "get" => some do
    requireArity name (.between 1 2) args.length
    let key := args.headD .none
    requireKey key
    return (lookup key entries).getD (args.getD 1 .none)
  | "keys" => some (shown .keys)
  | "values" => some (shown .values)
  | "items" => some (shown .items)
  | _ => Option.none

/-- Calls a method of a value; nothing when the value's type has no such method. -/
def method? (target : Value) (name : String) (args : List Value) : Option (Outcome Value) :=
  match target with
  | .str s => textMethod? name s args
  | .list items => listMethod? name items args
  | .dict entries => dictMethod? name entries args
  | _ => Option.none

end Workflow.Value
