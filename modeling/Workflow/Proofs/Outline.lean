/-
The outline of a script: what a reader makes of its lines who knows words,
quotes and brackets, but not the grammar.

`lexemes?` cuts a line into words, quoted texts and other marks, and fails where
a quoted text does not end on its line. `statements?` leaves out blank lines and
comments and puts lines together while a bracket is open.

A line is read one character after the other (`scan`), so that it is read piece
by piece too: `Reads` says what a piece comes to, whatever follows it. A quoted
text is one lexeme whatever stands in it (`Reads.quoted`), and an identifier is
a part of one word (`Reads.name`).
-/
import Mathlib.Data.List.Forall2
import Mathlib.Data.List.TakeWhile
import Workflow.Handler.Writer
import Workflow.Source.Lexer
import Workflow.Text.Quoted

namespace Workflow.Outline

/-! ## Lines -/

/-- A part of a line. -/
inductive Lexeme where
  | word (name : String)
  /-- A quoted text, as it is written. -/
  | text (literal : String)
  | mark (c : Char)
  deriving Repr, DecidableEq, Inhabited

/-- Letters, digits and underscores, and the points of dotted names. -/
def isWordChar (c : Char) : Bool := c.isAlphanum || c = '_' || c = '.'

/-- Where a reader stands between two characters of a line: in its code, with the word read so far,
or in a quoted text, with what is read of it, perhaps after a backslash. -/
inductive Mode where
  | code (word : List Char)
  | inside (quote : Char) (read : List Char)
  | escaped (quote : Char) (read : List Char)
  deriving Repr, DecidableEq, Inhabited

/-- The word read so far, if there is one. -/
def flush (word : List Char) : List Lexeme :=
  if word.isEmpty then [] else [.word (String.ofList word)]

/-- Reads a character. Line ends are blanks of the code, but no part of a quoted text. -/
def Mode.step : Mode → Char → Option (List Lexeme × Mode)
  | .code word, c =>
    if isWordChar c then some ([], .code (word ++ [c]))
    else if c = ' ' ∨ c = '\n' then some (flush word, .code [])
    else if c = '#' ∨ c = '\r' then none
    else if c = '\'' ∨ c = '"' then some (flush word, .inside c [c])
    else some (flush word ++ [.mark c], .code [])
  | .inside quote read, c =>
    if c = '\n' ∨ c = '\r' then none
    else if c = quote then some ([.text (String.ofList (read ++ [c]))], .code [])
    else if c = '\\' then some ([], .escaped quote (read ++ [c]))
    else some ([], .inside quote (read ++ [c]))
  | .escaped quote read, c =>
    if c = '\n' ∨ c = '\r' then none else some ([], .inside quote (read ++ [c]))

/-- Reads characters one after the other. -/
def scan : Mode → List Char → Option (List Lexeme × Mode)
  | m, [] => some ([], m)
  | m, c :: rest => (m.step c).bind fun (xs, m) => (scan m rest).map fun (ys, m) => (xs ++ ys, m)

/-- What a line of code consists of. Nothing when a quoted text does not end on the line, or when a
comment follows the code. -/
def lexemes? (line : String) : Option (List Lexeme) :=
  match scan (.code []) line.toList with
  | some (xs, .code word) => some (xs ++ flush word)
  | _ => none

/-- How many spaces a line starts with. -/
def indentOf (line : String) : Nat := (line.toList.takeWhile (· = ' ')).length

/-- Whether a line is blank or a comment. -/
def isFree (line : String) : Bool :=
  match line.toList.dropWhile (· = ' ') with
  | [] => true
  | c :: _ => c = '#'

/-- Whether a line is a comment. -/
def isRemark (line : String) : Bool := (line.toList.dropWhile (· = ' ')).head? = some '#'

/-- Whether a line holds no line end. -/
def IsSingle (line : String) : Prop := '\n' ∉ line.toList ∧ '\r' ∉ line.toList

/-! ## Statements -/

/-- The marks among lexemes. -/
def marks (xs : List Lexeme) : List Char :=
  xs.filterMap fun
    | .mark c => some c
    | _ => none

/-- Opens or closes a bracket; the brackets to be closed are given innermost first. -/
def bracketStep (awaited : List Char) (c : Char) : Option (List Char) :=
  match Source.closer? c with
  | some close => some (close :: awaited)
  | none =>
    if c = ')' ∨ c = ']' ∨ c = '\x7d' then
      match awaited with
      | d :: rest => if d = c then some rest else none
      | [] => none
    else some awaited

/-- The brackets that wait to be closed after some marks. Nothing when one is closed that is not
open. -/
def brackets (awaited marks : List Char) : Option (List Char) := marks.foldlM bracketStep awaited

/-- A statement: the indentation of its first line, and what all its lines consist of. -/
structure Statement where
  indent : Nat
  parts : List Lexeme
  deriving Repr, DecidableEq, Inhabited

/-- A statement of which some lines are read, and the brackets that are open in it. -/
structure Unfinished where
  statement : Statement
  awaited : List Char
  deriving Repr, DecidableEq, Inhabited

/-- Reads a line of a statement. -/
def Unfinished.extend (u : Unfinished) (xs : List Lexeme) : Option Unfinished :=
  (brackets u.awaited (marks xs)).map fun awaited =>
    { statement := { u.statement with parts := u.statement.parts ++ xs }, awaited }

/-- The statements of some lines, of which the first go on with an unfinished one. -/
def statementsFrom (current : Option Unfinished) : List String → Option (List Statement)
  | [] => if current.isNone then some [] else none
  | line :: rest =>
    if isFree line then statementsFrom current rest
    else do
      let u := current.getD ⟨⟨indentOf line, []⟩, []⟩
      let u ← u.extend (← lexemes? line)
      if u.awaited.isEmpty then return u.statement :: (← statementsFrom none rest)
      else statementsFrom (some u) rest

/-- The statements of some lines. Nothing when a line cannot be read, or a bracket stays open. -/
def statements? (lines : List String) : Option (List Statement) := statementsFrom none lines

/-! ## Reading piece by piece -/

theorem scan_append {m m' : Mode} {a : List Char} {xs : List Lexeme} (h : scan m a = some (xs, m'))
    (b : List Char) : scan m (a ++ b) = (scan m' b).map fun (ys, m) => (xs ++ ys, m) := by
  induction a generalizing m xs with
  | nil =>
    obtain ⟨rfl, rfl⟩ : xs = [] ∧ m = m' := by simpa [scan, eq_comm] using h
    simp
  | cons c rest ih =>
    obtain ⟨⟨ys, k⟩, hc, h⟩ := Option.bind_eq_some_iff.mp h
    obtain ⟨⟨zs, k'⟩, hr, h⟩ := Option.map_eq_some_iff.mp h
    obtain ⟨rfl, rfl⟩ : ys ++ zs = xs ∧ k' = m' := by simpa using h
    simp [scan, hc, ih hr, Function.comp_def]

theorem scan_cons {m m' : Mode} {c : Char} {xs : List Lexeme} (h : m.step c = some (xs, m'))
    (rest : List Char) : scan m (c :: rest) = (scan m' rest).map fun (ys, m) => (xs ++ ys, m) := by
  simp [scan, h]

theorem return_notMem {m : Mode} {cs : List Char} {r : List Lexeme × Mode}
    (h : scan m cs = some r) : '\r' ∉ cs := by
  induction cs generalizing m r with
  | nil => simp
  | cons c rest ih =>
    obtain ⟨⟨xs, k⟩, hc, h⟩ := Option.bind_eq_some_iff.mp h
    obtain ⟨t, hr, -⟩ := Option.map_eq_some_iff.mp h
    rw [List.mem_cons, not_or]
    refine ⟨?_, ih hr⟩
    rintro rfl
    cases m <;> simp [Mode.step, isWordChar] at hc

/-- A piece of a line is read from one place to another. -/
structure Reads (m : Mode) (piece : String) (xs : List Lexeme) (m' : Mode) : Prop where
  scan_eq : scan m piece.toList = some (xs, m')
  noFeed : '\n' ∉ piece.toList

namespace Reads

variable {m m' m'' : Mode} {a b : String} {xs ys : List Lexeme}

theorem append (ha : Reads m a xs m') (hb : Reads m' b ys m'') :
    Reads m (a ++ b) (xs ++ ys) m'' where
  scan_eq := by simp [scan_append ha.scan_eq, hb.scan_eq]
  noFeed := by simp [ha.noFeed, hb.noFeed]

/-- A piece of which every character is known. -/
theorem fixed {cs : List Char} (h : scan m cs = some (xs, m') ∧ cs.contains '\n' = false) :
    Reads m (String.ofList cs) xs m' where
  scan_eq := by rw [String.toList_ofList, h.1]
  noFeed := by simpa using h.2

theorem lexemes? {word : List Char} (h : Reads (.code []) a xs (.code word)) :
    lexemes? a = some (xs ++ flush word) := by
  rw [Outline.lexemes?, h.scan_eq]

end Reads

/-- A name or a number as it stands in code: a run of the characters of words. -/
def IsName (s : String) : Prop := s ≠ "" ∧ ∀ c ∈ s.toList, isWordChar c

theorem IsName.append {a b : String} (ha : IsName a) (hb : ∀ c ∈ b.toList, isWordChar c) :
    IsName (a ++ b) := by
  refine ⟨by simp [ha.1], fun c hc => ?_⟩
  rw [String.toList_append, List.mem_append] at hc
  exact hc.elim (ha.2 c) (hb c)

theorem scan_word {word cs : List Char} (h : ∀ c ∈ cs, isWordChar c) :
    scan (.code word) cs = some ([], .code (word ++ cs)) := by
  induction cs generalizing word with
  | nil => simp [scan]
  | cons c rest ih =>
    have hc : (Mode.code word).step c = some ([], .code (word ++ [c])) :=
      if_pos (h c List.mem_cons_self)
    rw [scan_cons hc, ih fun d hd => h d (List.mem_cons_of_mem _ hd)]
    simp

theorem not_isWordChar_feed : isWordChar '\n' = false := by decide

/-- A name goes on with the word that it stands in. -/
theorem Reads.name {s : String} (h : IsName s) (word : List Char) :
    Reads (.code word) s [] (.code (word ++ s.toList)) where
  scan_eq := scan_word h.2
  noFeed hm := by simpa [not_isWordChar_feed] using h.2 _ hm

@[simp] theorem flush_nil : flush [] = [] := rfl

@[simp] theorem flush_cons (c : Char) (word : List Char) :
    flush (c :: word) = [.word (String.ofList (c :: word))] := rfl

theorem flush_name {s : String} (h : IsName s) : flush s.toList = [.word s] := by
  simp [flush, h.1]

/-! ## Quoted texts -/

theorem scan_inside {quote : Char} {read cs : List Char}
    (h : ∀ c ∈ cs, c ≠ '\n' ∧ c ≠ '\r' ∧ c ≠ quote ∧ c ≠ '\\') :
    scan (.inside quote read) cs = some ([], .inside quote (read ++ cs)) := by
  induction cs generalizing read with
  | nil => simp [scan]
  | cons c rest ih =>
    obtain ⟨hn, hr, hq, hb⟩ := h c List.mem_cons_self
    have hrest := @ih (read ++ [c]) fun d hd => h d (List.mem_cons_of_mem _ hd)
    simp [scan, Mode.step, hn, hr, hq, hb, hrest]

theorem scan_escape {quote c : Char} {read : List Char} (hn : c ≠ '\n') (hr : c ≠ '\r')
    (hq : quote ≠ '\\') :
    scan (.inside quote read) ['\\', c] = some ([], .inside quote (read ++ ['\\', c])) := by
  simp [scan, Mode.step, hn, hr, hq.symm]

theorem mem_hexPadded {width n : Nat} {c : Char} (h : c ∈ Text.hexPadded width n) :
    c ≠ '\n' ∧ c ≠ '\r' ∧ c ≠ '\'' ∧ c ≠ '"' ∧ c ≠ '\\' := by
  have digits : ∀ d < 16, Text.hexChar d ≠ '\n' ∧ Text.hexChar d ≠ '\r' ∧ Text.hexChar d ≠ '\'' ∧
      Text.hexChar d ≠ '"' ∧ Text.hexChar d ≠ '\\' := by decide
  induction width generalizing n with
  | zero => simp [Text.hexPadded] at h
  | succ width ih =>
    rw [Text.hexPadded, List.mem_append, List.mem_singleton] at h
    rcases h with h | rfl
    · exact ih h
    · exact digits _ (Nat.mod_lt _ (by decide))

theorem quoteFor_eq (cs : List Char) : Text.quoteFor cs = '"' ∨ Text.quoteFor cs = '\'' := by
  unfold Text.quoteFor
  split
  · exact .inl rfl
  · exact .inr rfl

/-- A piece of a quoted text is read without an end of the text. -/
def StaysInside (quote : Char) (piece : List Char) : Prop :=
  ∀ read, scan (.inside quote read) piece = some ([], .inside quote (read ++ piece))

theorem StaysInside.append {quote : Char} {a b : List Char} (ha : StaysInside quote a)
    (hb : StaysInside quote b) : StaysInside quote (a ++ b) := by
  intro read
  rw [scan_append (ha read), hb]
  simp

theorem staysInside_escapeCode {quote : Char} (hq : quote = '"' ∨ quote = '\'') (n : Nat) :
    StaysInside quote (Text.escapeCode n) := by
  have escape : ∀ c width, c = 'x' ∨ c = 'u' ∨ c = 'U' →
      StaysInside quote (['\\', c] ++ Text.hexPadded width n) := by
    intro c width hc
    refine .append (fun read => ?_) fun read => scan_inside fun d hd => ?_
    · refine scan_escape ?_ ?_ ?_
      · rcases hc with rfl | rfl | rfl <;> decide
      · rcases hc with rfl | rfl | rfl <;> decide
      · rcases hq with rfl | rfl <;> decide
    · obtain ⟨hn, hr, hs, hdq, hb⟩ := mem_hexPadded hd
      rcases hq with rfl | rfl <;> exact ⟨hn, hr, ‹_›, hb⟩
  unfold Text.escapeCode
  split
  · exact escape 'x' 2 (by simp)
  · split
    · exact escape 'u' 4 (by simp)
    · exact escape 'U' 8 (by simp)

theorem staysInside_quoteChar {quote : Char} (hq : quote = '"' ∨ quote = '\'') (c : Char) :
    StaysInside quote (Text.quoteChar quote c) := by
  have hb : quote ≠ '\\' := by rcases hq with rfl | rfl <;> decide
  unfold Text.quoteChar
  split
  case isTrue h =>
    intro read
    refine scan_escape ?_ ?_ hb <;> rcases h with rfl | rfl <;> first | decide | skip
    all_goals rcases hq with rfl | rfl <;> decide
  case isFalse h =>
    obtain ⟨hcq, hcb⟩ := not_or.mp h
    split
    · exact fun read => scan_escape (by decide) (by decide) hb
    case isFalse hn =>
      split
      · exact fun read => scan_escape (by decide) (by decide) hb
      case isFalse hr =>
        split
        · exact fun read => scan_escape (by decide) (by decide) hb
        · split
          · refine fun read => scan_inside fun d hd => ?_
            obtain rfl := List.mem_singleton.mp hd
            exact ⟨hn, hr, hcq, hcb⟩
          · exact staysInside_escapeCode hq _

theorem staysInside_quoteChars {quote : Char} (hq : quote = '"' ∨ quote = '\'') (cs : List Char) :
    StaysInside quote (cs.flatMap (Text.quoteChar quote)) := by
  induction cs with
  | nil => simp [StaysInside, scan]
  | cons c rest ih => exact (staysInside_quoteChar hq c).append ih

theorem scan_quoted (word : List Char) (s : String) :
    scan (.code word) (Text.quoted s).toList =
      some (flush word ++ [.text (Text.quoted s)], .code []) := by
  have hq := quoteFor_eq s.toList
  have hopen : (Mode.code word).step (Text.quoteFor s.toList) =
      some (flush word, .inside (Text.quoteFor s.toList) [Text.quoteFor s.toList]) := by
    rcases hq with h | h <;> rw [h] <;> rfl
  have hclose : ∀ read, scan (.inside (Text.quoteFor s.toList) read) [Text.quoteFor s.toList] =
      some ([.text (String.ofList (read ++ [Text.quoteFor s.toList]))], .code []) := by
    intro read
    rcases hq with h | h <;> rw [h] <;> rfl
  rw [Text.quoted, String.toList_ofList, List.cons_append, scan_cons hopen,
    scan_append (staysInside_quoteChars hq _ _), hclose]
  simp

theorem feed_notMem_escapeCode (n : Nat) : '\n' ∉ Text.escapeCode n := by
  have hex : ∀ width, '\n' ∉ Text.hexPadded width n := fun _ hm => (mem_hexPadded hm).1 rfl
  unfold Text.escapeCode
  split
  · simp [hex]
  · split <;> simp [hex]

theorem feed_notMem_quoteChar {quote : Char} (hq : quote = '"' ∨ quote = '\'') (c : Char) :
    '\n' ∉ Text.quoteChar quote c := by
  unfold Text.quoteChar
  split
  case isTrue h =>
    have hc : c ≠ '\n' := by
      rintro rfl
      rcases h with h | h
      · rcases hq with rfl | rfl <;> exact absurd h (by decide)
      · exact absurd h (by decide)
    simp [hc.symm]
  case isFalse h =>
    split
    · decide
    case isFalse hn =>
      split
      · decide
      · split
        · decide
        · split
          · simpa using fun hc => hn hc.symm
          · exact feed_notMem_escapeCode _

theorem feed_notMem_quoted (s : String) : '\n' ∉ (Text.quoted s).toList := by
  have hq := quoteFor_eq s.toList
  have hne : '\n' ≠ Text.quoteFor s.toList := by rcases hq with h | h <;> rw [h] <;> decide
  rw [Text.quoted, String.toList_ofList]
  simp only [List.cons_append, List.mem_cons, List.mem_append, List.mem_flatMap, List.not_mem_nil,
    or_false, not_or, not_exists, not_and]
  exact ⟨hne, fun c _ => feed_notMem_quoteChar hq c, hne⟩

/-- A quoted text is one lexeme. -/
theorem Reads.quoted (s : String) (word : List Char) :
    Reads (.code word) (Text.quoted s) (flush word ++ [.text (Text.quoted s)]) (.code []) where
  scan_eq := scan_quoted word s
  noFeed := feed_notMem_quoted s

/-! ## Whole lines -/

theorem scan_spaces {a : List Char} (ha : ∀ c ∈ a, c = ' ') (b : List Char) :
    scan (.code []) (a ++ b) = scan (.code []) b := by
  induction a with
  | nil => rfl
  | cons c rest ih =>
    obtain rfl := ha c List.mem_cons_self
    have hc : (Mode.code []).step ' ' = some ([], .code []) := rfl
    rw [List.cons_append, scan_cons hc, ih fun d hd => ha d (List.mem_cons_of_mem _ hd)]
    cases scan (.code []) b <;> rfl

/-- Spaces at the start of a line are no part of its code. -/
theorem lexemes?_indented {a b : String} (ha : ∀ c ∈ a.toList, c = ' ') :
    lexemes? (a ++ b) = lexemes? b := by
  rw [lexemes?, String.toList_append, scan_spaces ha, lexemes?]

/-- A line on which something can be read is neither blank nor a comment. -/
theorem isFree_eq_false {line : String} {xs : List Lexeme} (h : lexemes? line = some xs)
    (hne : xs ≠ []) : isFree line = false := by
  have hsplit := List.takeWhile_append_dropWhile (p := (· = ' ')) (l := line.toList)
  have hspaces : ∀ c ∈ line.toList.takeWhile (· = ' '), c = ' ' := fun c hc => by
    simpa using List.mem_takeWhile_imp hc
  rw [lexemes?, ← hsplit, scan_spaces hspaces] at h
  unfold isFree
  cases hd : line.toList.dropWhile (· = ' ') with
  | nil =>
    rw [hd] at h
    exact absurd (by simpa [scan, eq_comm] using h) hne
  | cons c rest =>
    have hc : c ≠ '#' := by
      rintro rfl
      simp [hd, scan, Mode.step, isWordChar] at h
    simpa using hc

/-- The first pieces of a line that is not indented. -/
structure Begins (piece : String) (xs : List Lexeme) (m : Mode) : Prop extends
    Reads (.code []) piece xs m where
  starts : ∃ c cs, piece.toList = c :: cs ∧ c ≠ ' '

/-- A line on which the given parts can be read. -/
structure Shows (line : String) (xs : List Lexeme) : Prop where
  lexemes : lexemes? line = some xs
  single : IsSingle line

/-- The first line of a statement, not indented. -/
structure Starts (line : String) (xs : List Lexeme) : Prop extends Shows line xs where
  ne_nil : xs ≠ []
  indent : indentOf line = 0

/-- A statement on one line that is not indented. -/
structure OneLine (line : String) (xs : List Lexeme) : Prop extends Starts line xs where
  closed : brackets [] (marks xs) = some []

namespace Begins

variable {m m' : Mode} {a b : String} {xs ys : List Lexeme}

theorem fixed {c : Char} {cs : List Char}
    (h : scan (.code []) (c :: cs) = some (xs, m) ∧ (c :: cs).contains '\n' = false)
    (hc : c ≠ ' ') : Begins (String.ofList (c :: cs)) xs m where
  toReads := .fixed h
  starts := ⟨c, cs, String.toList_ofList, hc⟩

theorem name {s : String} (h : IsName s) : Begins s [] (.code s.toList) where
  toReads := by simpa using Reads.name h []
  starts := by
    cases hs : s.toList with
    | nil => exact absurd (String.toList_eq_nil_iff.mp hs) h.1
    | cons c cs =>
      refine ⟨c, cs, rfl, ?_⟩
      rintro rfl
      exact absurd (h.2 ' ' (by simp [hs])) (by decide)

theorem quoted (s : String) : Begins (Text.quoted s) [.text (Text.quoted s)] (.code []) where
  toReads := Reads.quoted s []
  starts := by
    refine ⟨Text.quoteFor s.toList, _, by rw [Text.quoted, String.toList_ofList]; rfl, ?_⟩
    rcases quoteFor_eq s.toList with h | h <;> rw [h] <;> decide

theorem append (ha : Begins a xs m) (hb : Reads m b ys m') : Begins (a ++ b) (xs ++ ys) m' where
  toReads := ha.toReads.append hb
  starts := by
    obtain ⟨c, cs, he, hc⟩ := ha.starts
    exact ⟨c, cs ++ b.toList, by simp [he], hc⟩

theorem single (ha : Begins a xs m) : IsSingle a := ⟨ha.noFeed, return_notMem ha.scan_eq⟩

theorem indent (ha : Begins a xs m) : indentOf a = 0 := by
  obtain ⟨c, cs, he, hc⟩ := ha.starts
  simp [indentOf, he, hc]

theorem first {word : List Char} (h : Begins a xs (.code word)) (hys : xs ++ flush word = ys)
    (hne : ys ≠ []) : Starts a ys where
  lexemes := hys ▸ h.toReads.lexemes?
  single := h.single
  ne_nil := hne
  indent := h.indent

theorem line {word : List Char} (h : Begins a xs (.code word)) (hys : xs ++ flush word = ys)
    (hclosed : brackets [] (marks ys) = some []) (hne : ys ≠ []) : OneLine a ys where
  toStarts := h.first hys hne
  closed := hclosed

end Begins

/-! ## Brackets -/

@[simp] theorem marks_nil : marks [] = [] := rfl

@[simp] theorem marks_word (name : String) (xs : List Lexeme) :
    marks (.word name :: xs) = marks xs := rfl

@[simp] theorem marks_text (literal : String) (xs : List Lexeme) :
    marks (.text literal :: xs) = marks xs := rfl

@[simp] theorem marks_mark (c : Char) (xs : List Lexeme) :
    marks (.mark c :: xs) = c :: marks xs := rfl

@[simp] theorem brackets_nil (awaited : List Char) : brackets awaited [] = some awaited := rfl

@[simp] theorem marks_append (a b : List Lexeme) : marks (a ++ b) = marks a ++ marks b :=
  List.filterMap_append

@[simp] theorem marks_flush (word : List Char) : marks (flush word) = [] := by
  cases word <;> rfl

theorem brackets_append (awaited a b : List Char) :
    brackets awaited (a ++ b) = (brackets awaited a).bind (brackets · b) := by
  simp only [brackets, List.foldlM_append]
  rfl

theorem bracketStep_base {awaited awaited' : List Char} {c : Char}
    (h : bracketStep awaited c = some awaited') (base : List Char) :
    bracketStep (awaited ++ base) c = some (awaited' ++ base) := by
  unfold bracketStep at h ⊢
  split
  case h_1 close hc =>
    obtain rfl : close :: awaited = awaited' := by simpa [hc] using h
    rfl
  case h_2 hc =>
    simp only [hc] at h
    split
    case isTrue hm =>
      simp only [hm, if_true] at h
      cases awaited with
      | nil => simp at h
      | cons d rest =>
        by_cases hd : d = c
        · obtain rfl : rest = awaited' := by simpa [hd] using h
          simp [hd]
        · simp [hd] at h
    case isFalse hm =>
      obtain rfl : awaited = awaited' := by simpa [hm] using h
      rfl

/-- Brackets that are opened and closed leave those around them open. -/
theorem brackets_base {awaited awaited' ms : List Char} (h : brackets awaited ms = some awaited')
    (base : List Char) : brackets (awaited ++ base) ms = some (awaited' ++ base) := by
  induction ms generalizing awaited with
  | nil =>
    obtain rfl : awaited = awaited' := by simpa [brackets] using h
    rfl
  | cons c rest ih =>
    obtain ⟨next, hc, hr⟩ := Option.bind_eq_some_iff.mp h
    exact Option.bind_eq_some_iff.mpr ⟨next ++ base, bracketStep_base hc base, ih hr⟩

/-! ## Putting statements together -/

theorem statementsFrom_append {a : List String} {current : Option Unfinished} {ss : List Statement}
    (h : statementsFrom current a = some ss) (b : List String) :
    statementsFrom current (a ++ b) = (statementsFrom none b).map (ss ++ ·) := by
  induction a generalizing current ss with
  | nil =>
    cases current with
    | none =>
      obtain rfl : ss = [] := by simpa [statementsFrom, eq_comm] using h
      simp
    | some u => simp [statementsFrom] at h
  | cons line rest ih =>
    rw [List.cons_append, statementsFrom]
    rw [statementsFrom] at h
    by_cases hf : isFree line
    · simp only [hf, if_true] at h ⊢
      exact ih h
    · simp only [hf, Bool.false_eq_true, if_false, Option.bind_eq_bind] at h ⊢
      obtain ⟨xs, hxs, h⟩ := Option.bind_eq_some_iff.mp h
      obtain ⟨u, hu, h⟩ := Option.bind_eq_some_iff.mp h
      rw [hxs, Option.bind_some, hu, Option.bind_some]
      by_cases hw : u.awaited.isEmpty
      · simp only [hw, if_true] at h ⊢
        obtain ⟨ts, hts, h⟩ := Option.bind_eq_some_iff.mp h
        obtain rfl : u.statement :: ts = ss := by simpa using h
        rw [ih hts]
        cases statementsFrom none b <;> rfl
      · simp only [hw, Bool.false_eq_true, if_false] at h ⊢
        exact ih h

/-- Lines that read as statements stay so when others follow. -/
theorem statements?_append {a b : List String} {ss ts : List Statement}
    (ha : statements? a = some ss) (hb : statements? b = some ts) :
    statements? (a ++ b) = some (ss ++ ts) := by
  rw [statements?, statementsFrom_append ha, ← statements?, hb]
  rfl

theorem statements?_free {line : String} (h : isFree line) : statements? [line] = some [] := by
  simp [statements?, statementsFrom, h]

/-- What the lines of a statement consist of, after its first line: a bracket is open before each
of them, and none after the last. -/
def Spans : List Char → List (List Lexeme) → Prop
  | awaited, [] => awaited = []
  | awaited, xs :: rest => awaited ≠ [] ∧ ∃ next, brackets awaited (marks xs) = some next ∧
      Spans next rest

/-- Inside brackets a line without parts may as well be left out. -/
theorem statementsFrom_shows {line : String} {xs : List Lexeme} (h : Shows line xs)
    {u : Unfinished} (hne : u.awaited ≠ []) {next : List Char}
    (hb : brackets u.awaited (marks xs) = some next) (rest : List String) :
    statementsFrom (some u) (line :: rest) =
      if next.isEmpty then
        (statementsFrom none rest).map
          ({ u.statement with parts := u.statement.parts ++ xs } :: ·)
      else
        statementsFrom
          (some ⟨{ u.statement with parts := u.statement.parts ++ xs }, next⟩) rest := by
  rw [statementsFrom]
  by_cases hf : isFree line
  · have hxs : xs = [] := by
      by_contra hxs
      simp [isFree_eq_false h.lexemes hxs] at hf
    subst hxs
    obtain rfl : u.awaited = next := by simpa [brackets, marks] using hb
    simp [hf, hne]
  · simp only [hf, Bool.false_eq_true, if_false, h.lexemes, Option.getD_some, Unfinished.extend, hb,
      Option.map_some, Option.bind_eq_bind, Option.bind_some]
    split
    · cases statementsFrom none rest <;> rfl
    · rfl

theorem statementsFrom_spans {lines : List String} {xss : List (List Lexeme)}
    (hl : List.Forall₂ Shows lines xss) (u : Unfinished) (hne : u.awaited ≠ [])
    (hs : Spans u.awaited xss) : statementsFrom (some u) lines =
      some [{ u.statement with parts := u.statement.parts ++ xss.flatten }] := by
  induction hl generalizing u with
  | nil => exact absurd hs hne
  | @cons line xs lines xss hline hrest ih =>
    obtain ⟨-, next, hnext, hs⟩ := hs
    rw [statementsFrom_shows hline hne hnext]
    by_cases hw : next = []
    · subst hw
      cases xss with
      | nil =>
        cases hrest
        simp [statementsFrom]
      | cons => exact absurd rfl hs.1
    · simp only [List.isEmpty_iff, hw, if_false]
      rw [ih _ hw hs]
      simp

theorem statements?_spans {line : String} {xs : List Lexeme} {lines : List String}
    {xss : List (List Lexeme)} (h : Shows line xs) (hne : xs ≠ [])
    (hl : List.Forall₂ Shows lines xss) {awaited : List Char}
    (hb : brackets [] (marks xs) = some awaited) (hs : Spans awaited xss) :
    statements? (line :: lines) = some [⟨indentOf line, xs ++ xss.flatten⟩] := by
  have hf := isFree_eq_false h.lexemes hne
  rw [statements?, statementsFrom]
  simp only [hf, Bool.false_eq_true, if_false, h.lexemes, Option.getD_none, Unfinished.extend, hb,
    Option.map_some, Option.bind_eq_bind, Option.bind_some]
  by_cases hw : awaited = []
  · subst hw
    cases xss with
    | nil =>
      cases hl
      simp [statementsFrom]
    | cons => exact absurd rfl hs.1
  · simp only [List.isEmpty_iff, hw, if_false]
    rw [statementsFrom_spans hl _ hw hs]
    simp

end Workflow.Outline
