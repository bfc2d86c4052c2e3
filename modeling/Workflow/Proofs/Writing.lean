/-
What a writer adds: `Writes w w' ss` says that from `w` to `w'` lines are added that
read as the statements `ss`, and that the level is kept.

It holds of a comment and of a blank line with no statement, of a line of code
with one, of lines inside brackets with one for all of them
(`Adds.writes_spans`), and of what is written one after the other or on the next
level. The count of statements tells exactly whether there is one, so that an
arm without a statement gets a `pass` (`Writes.arm`).
-/
import Workflow.Handler.Text
import Workflow.Proofs.Literals

namespace Workflow

/-! ## Lines -/

namespace Outline

open Handler

theorem Starts.isEmpty {t : String} {xs : List Lexeme} (h : Starts t xs) : t.isEmpty = false := by
  rw [Bool.eq_false_iff]
  intro he
  have hl := h.lexemes
  rw [(String.isEmpty_iff).mp he] at hl
  exact h.ne_nil (by simpa [lexemes?, scan, eq_comm] using hl)

theorem scan_blank_comment {a b : List Char} (ha : ∀ c ∈ a, Text.isBlank c) (word : List Char) :
    scan (.code word) (a ++ '#' :: b) = none := by
  induction a generalizing word with
  | nil => simp [scan, Mode.step, isWordChar]
  | cons c rest ih =>
    have hrest := fun word => ih (fun d hd => ha d (List.mem_cons_of_mem _ hd)) word
    have hc : Text.isBlank c := ha c List.mem_cons_self
    have hq : ¬ (c = '\'' ∨ c = '"') := by
      rintro (rfl | rfl) <;> exact absurd hc (by decide)
    rw [List.cons_append, scan]
    unfold Mode.step
    simp only [hq, if_false]
    split
    · simp [hrest]
    · split
      · simp [hrest]
      · split
        · rfl
        · simp [hrest]

/-- Code is no comment. -/
theorem Shows.not_isComment {t : String} {xs : List Lexeme} (h : Shows t xs) :
    Writer.isComment t = false := by
  rw [Writer.isComment, decide_eq_false_iff_not]
  intro hc
  have hsplit := List.takeWhile_append_dropWhile (p := Text.isBlank) (l := t.toList)
  cases hd : t.toList.dropWhile Text.isBlank with
  | nil => simp [hd] at hc
  | cons c rest =>
    obtain rfl : c = '#' := by simpa [hd] using hc
    have hl := h.lexemes
    rw [lexemes?, ← hsplit, hd, scan_blank_comment fun c hc => List.mem_takeWhile_imp hc] at hl
    cases hl

end Outline

namespace Handler

open Outline

/-- The line that a text makes on a level. -/
def Writer.lineOf (level : Nat) (t : String) : String :=
  if t.isEmpty then "" else Writer.margin level ++ t

theorem Writer.write_lines (w : Writer) (t : String) :
    (w.write t).lines.toList = w.lines.toList ++ [lineOf w.level t] := by
  unfold Writer.write lineOf
  split <;> simp

@[simp] theorem Writer.write_level (w : Writer) (t : String) : (w.write t).level = w.level := by
  unfold Writer.write
  split <;> rfl

theorem Writer.statements_le_write (w : Writer) (t : String) :
    w.statements ≤ (w.write t).statements := by
  unfold Writer.write
  split
  · exact le_rfl
  · dsimp only
    split <;> omega

theorem mem_margin {n : Nat} {c : Char} (h : c ∈ (Writer.margin n).toList) : c = ' ' := by
  rw [Writer.margin, String.toList_ofList] at h
  exact (List.mem_replicate.mp h).2

theorem isSingle_append {a b : String} (ha : IsSingle a) (hb : IsSingle b) : IsSingle (a ++ b) := by
  simp only [IsSingle, String.toList_append, List.mem_append, not_or]
  exact ⟨⟨ha.1, hb.1⟩, ⟨ha.2, hb.2⟩⟩

theorem isSingle_margin (n : Nat) : IsSingle (Writer.margin n) :=
  ⟨fun h => absurd (mem_margin h) (by decide), fun h => absurd (mem_margin h) (by decide)⟩

theorem isSingle_empty : IsSingle "" := ⟨by simp, by simp⟩

theorem isSingle_lineOf {t : String} (h : IsSingle t) (n : Nat) : IsSingle (Writer.lineOf n t) := by
  unfold Writer.lineOf
  split
  · exact isSingle_empty
  · exact isSingle_append (isSingle_margin n) h

theorem shows_lineOf {t : String} {xs : List Lexeme} (h : Shows t xs) (n : Nat) :
    Shows (Writer.lineOf n t) xs where
  lexemes := by
    unfold Writer.lineOf
    split
    · next he => rw [← h.lexemes, (String.isEmpty_iff).mp he]
    · rw [lexemes?_indented fun _ => mem_margin, h.lexemes]
  single := isSingle_lineOf h.single n

theorem forall₂_shows_lineOf {ts : List String} {xss : List (List Lexeme)}
    (h : List.Forall₂ Shows ts xss) (n : Nat) :
    List.Forall₂ Shows (ts.map (Writer.lineOf n)) xss := by
  induction h with
  | nil => exact .nil
  | cons ht _ ih => exact .cons (shows_lineOf ht n) ih

theorem indentOf_lineOf {t : String} {xs : List Lexeme} (h : Starts t xs) (n : Nat) :
    indentOf (Writer.lineOf n t) = 4 * n := by
  have hz : t.toList.takeWhile (· = ' ') = [] := List.length_eq_zero_iff.mp h.indent
  have ht : (Writer.margin n ++ t).toList.takeWhile (· = ' ') = (Writer.margin n).toList := by
    rw [String.toList_append, List.takeWhile_append_of_pos fun c hc => by simpa using mem_margin hc,
      hz, List.append_nil]
  rw [Writer.lineOf, h.isEmpty, if_neg (by simp), indentOf, ht, Writer.margin,
    String.toList_ofList, List.length_replicate]

theorem isSingle_of_shows {lines : List String} {xss : List (List Lexeme)}
    (h : List.Forall₂ Shows lines xss) : ∀ line ∈ lines, IsSingle line := by
  induction h with
  | nil => simp
  | cons hs _ ih => exact List.forall_mem_cons.mpr ⟨hs.single, ih⟩

/-- Code is a statement. -/
theorem statements_write {t : String} {xs : List Lexeme} (h : Starts t xs) (w : Writer) :
    (w.write t).statements = w.statements + 1 := by
  rw [Writer.write, h.isEmpty, if_neg (by simp), h.toShows.not_isComment]
  simp

/-! ## Comments -/

theorem not_isBlank_of_mem_wordsFrom {current cs w : List Char} {c : Char}
    (hcur : ∀ d ∈ current, Text.isBlank d = false) (hw : w ∈ Text.wordsFrom current cs)
    (hc : c ∈ w) : Text.isBlank c = false := by
  induction cs generalizing current with
  | nil =>
    rw [Text.wordsFrom] at hw
    split at hw
    · simp at hw
    · rw [List.mem_singleton.mp hw, List.mem_reverse] at hc
      exact hcur c hc
  | cons d rest ih =>
    rw [Text.wordsFrom] at hw
    split at hw
    · split at hw
      · exact ih (by simp) hw
      · rcases List.mem_cons.mp hw with rfl | hw
        · exact hcur c (List.mem_reverse.mp hc)
        · exact ih (by simp) hw
    · next hd =>
      refine ih (fun e he => ?_) hw
      rcases List.mem_cons.mp he with rfl | he
      · exact Bool.eq_false_iff.mpr hd
      · exact hcur e he

theorem mem_intercalate {sep : List Char} {ts : List (List Char)} {c : Char}
    (h : c ∈ sep.intercalate ts) : c ∈ sep ∨ ∃ t ∈ ts, c ∈ t := by
  induction ts with
  | nil => simp at h
  | cons t rest ih =>
    cases rest with
    | nil => exact .inr ⟨t, by simp, by simpa using h⟩
    | cons u us =>
      rw [List.intercalate_cons_cons, List.mem_append, List.mem_append] at h
      rcases h with (h | h) | h
      · exact .inr ⟨t, by simp, h⟩
      · exact .inl h
      · exact (ih h).imp_right fun ⟨v, hv, hc⟩ => ⟨v, List.mem_cons_of_mem _ hv, hc⟩

/-- Whatever a text holds, it has no line ends when it is made one line. -/
theorem isSingle_singleLine (s : String) : IsSingle (Text.singleLine s) := by
  have key : ∀ c, Text.isBlank c → c ≠ ' ' → c ∉ (Text.singleLine s).toList := by
    intro c hb hs hc
    rw [Text.singleLine, String.toList_intercalate] at hc
    rcases mem_intercalate hc with hc | ⟨t, ht, hc⟩
    · exact hs (by simpa using hc)
    · obtain ⟨u, hu, rfl⟩ := List.mem_map.mp ht
      obtain ⟨w, hw, rfl⟩ := List.mem_map.mp hu
      rw [String.toList_ofList] at hc
      have := not_isBlank_of_mem_wordsFrom (by simp) hw hc
      simp [hb] at this
  exact ⟨key '\n' (by decide) (by decide), key '\r' (by decide) (by decide)⟩

/-- The line of a comment. -/
def commentLine (level : Nat) (text : String) : String :=
  Writer.margin level ++ ("# " ++ Text.singleLine text)

theorem commentLine_isSingle (n : Nat) (text : String) : IsSingle (commentLine n text) :=
  isSingle_append (isSingle_margin n)
    (isSingle_append ⟨by simp, by simp⟩ (isSingle_singleLine text))

theorem commentLine_dropWhile (n : Nat) (text : String) :
    (commentLine n text).toList.dropWhile (· = ' ') =
      '#' :: ' ' :: (Text.singleLine text).toList := by
  rw [commentLine, String.toList_append,
    List.dropWhile_append_of_pos fun c hc => by simpa using mem_margin hc]
  simp

theorem commentLine_isFree (n : Nat) (text : String) : isFree (commentLine n text) := by
  simp [isFree, commentLine_dropWhile]

/-- A comment is one line, and no statement. -/
theorem Writer.comment_eq (w : Writer) (text : String) :
    w.comment text = { w with lines := w.lines.push (commentLine w.level text) } := by
  have hne : ("# " ++ Text.singleLine text).isEmpty = false := by
    simp [Bool.eq_false_iff, String.isEmpty_iff]
  have hc : Writer.isComment ("# " ++ Text.singleLine text) = true := by
    simp [Writer.isComment, Text.isBlank]
  simp [Writer.comment, Writer.write, hne, hc, commentLine]

/-! ## Writing -/

/-- A statement on a level. -/
def onLevel (level : Nat) (parts : List Lexeme) : Statement := ⟨4 * level, parts⟩

/-- From one writer to another the given lines are added. -/
structure Adds (w w' : Writer) (lines : List String) : Prop where
  level : w'.level = w.level
  lines_eq : w'.lines.toList = w.lines.toList ++ lines
  statements_le : w.statements ≤ w'.statements

namespace Adds

variable {w w' w'' : Writer} {a b : List String}

theorem refl (w : Writer) : Adds w w [] := ⟨rfl, by simp, le_rfl⟩

theorem trans (h : Adds w w' a) (h' : Adds w' w'' b) : Adds w w'' (a ++ b) where
  level := h'.level.trans h.level
  lines_eq := by rw [h'.lines_eq, h.lines_eq, List.append_assoc]
  statements_le := h.statements_le.trans h'.statements_le

theorem write (w : Writer) (t : String) : Adds w (w.write t) [Writer.lineOf w.level t] :=
  ⟨w.write_level t, w.write_lines t, w.statements_le_write t⟩

theorem writeAll (w : Writer) (ts : List String) :
    Adds w (w.writeAll ts) (ts.map (Writer.lineOf w.level)) := by
  induction ts generalizing w with
  | nil => exact refl w
  | cons t rest ih =>
    have h := ih (w.write t)
    rw [Writer.write_level] at h
    exact (write w t).trans h

theorem indented {body : Writer → Writer} (h : Adds w.push (body w.push) a) :
    Adds w (w.indented body) a where
  level := by
    have hl := h.level
    simp only [Writer.push] at hl
    simp [Writer.indented, Writer.pop, Writer.push, hl]
  lines_eq := h.lines_eq
  statements_le := h.statements_le

end Adds

/-- From one writer to another lines are added that read as the given statements. -/
structure Writes (w w' : Writer) (ss : List Statement) : Prop where
  level : w'.level = w.level
  added : ∃ lines, w'.lines.toList = w.lines.toList ++ lines ∧ statements? lines = some ss ∧
    ∀ line ∈ lines, IsSingle line
  silent : ss = [] → w'.statements = w.statements
  counted : ss ≠ [] → w.statements < w'.statements

namespace Writes

variable {w w' w'' : Writer} {ss ts : List Statement}

theorem statements_le (h : Writes w w' ss) : w.statements ≤ w'.statements := by
  by_cases hs : ss = []
  · exact (h.silent hs).ge
  · exact (h.counted hs).le

theorem congr (h : Writes w w' ss) (he : ss = ts) : Writes w w' ts := he ▸ h

theorem refl (w : Writer) : Writes w w [] :=
  ⟨rfl, ⟨[], by simp, rfl, by simp⟩, fun _ => rfl, fun h => absurd rfl h⟩

theorem trans (h : Writes w w' ss) (h' : Writes w' w'' ts) : Writes w w'' (ss ++ ts) where
  level := h'.level.trans h.level
  added := by
    obtain ⟨a, ha, has, hsa⟩ := h.added
    obtain ⟨b, hb, hbs, hsb⟩ := h'.added
    refine ⟨a ++ b, by rw [hb, ha, List.append_assoc], statements?_append has hbs, ?_⟩
    intro line hl
    exact (List.mem_append.mp hl).elim (hsa line) (hsb line)
  silent he := by
    obtain ⟨hs, ht⟩ := List.append_eq_nil_iff.mp he
    rw [h'.silent ht, h.silent hs]
  counted he := by
    by_cases hs : ss = []
    · have ht : ts ≠ [] := fun ht => he (by rw [hs, ht]; rfl)
      exact h.statements_le.trans_lt (h'.counted ht)
    · exact (h.counted hs).trans_le h'.statements_le

/-- A line that is blank or a comment is added. -/
theorem free {line : String} (hf : isFree line) (hs : IsSingle line) :
    Writes w { w with lines := w.lines.push line } [] where
  level := rfl
  added := ⟨[line], by simp, statements?_free hf, by simpa using hs⟩
  silent _ := rfl
  counted h := absurd rfl h

theorem comment (w : Writer) (text : String) : Writes w (w.comment text) [] := by
  rw [Writer.comment_eq]
  exact free (commentLine_isFree _ _) (commentLine_isSingle _ _)

theorem empty (w : Writer) : Writes w (w.write "") [] :=
  @free w "" rfl isSingle_empty

theorem blank (w : Writer) : Writes w w.blank [] := by
  unfold Writer.blank
  split
  · split
    · exact refl w
    · exact empty w
  · exact refl w

theorem line {t : String} {xs : List Lexeme} (h : OneLine t xs) :
    Writes w (w.write t) [onLevel w.level xs] where
  level := w.write_level t
  added := by
    refine ⟨[Writer.lineOf w.level t], w.write_lines t, ?_, ?_⟩
    · have hs := statements?_spans (shows_lineOf h.toShows w.level) h.ne_nil .nil h.closed rfl
      rw [hs, indentOf_lineOf h.toStarts]
      simp [onLevel]
    · simpa using isSingle_lineOf h.single _
  silent h := by cases h
  counted _ := by
    rw [statements_write h.toStarts]
    exact Nat.lt_succ_self _

theorem lines {ts : List String} {xss : List (List Lexeme)} (h : List.Forall₂ OneLine ts xss) :
    Writes w (w.writeAll ts) (xss.map (onLevel w.level)) := by
  induction h generalizing w with
  | nil => exact refl w
  | @cons t xs ts xss ht _ ih =>
    have hrest := @ih (w.write t)
    rw [Writer.write_level] at hrest
    exact (line ht).trans hrest

theorem indented {body : Writer → Writer} (h : Writes w.push (body w.push) ss) :
    Writes w (w.indented body) ss where
  level := by
    have hl := h.level
    simp only [Writer.push] at hl
    simp [Writer.indented, Writer.pop, Writer.push, hl]
  added := h.added
  silent := h.silent
  counted := h.counted

/-- What is written apart can be added anywhere. -/
theorem extend {other : Writer} {n : Nat} (h : Writes { level := n } other ss) :
    Writes w (w.extend other) ss where
  level := rfl
  added := by
    obtain ⟨lines, hl, hs, hsingle⟩ := h.added
    exact ⟨lines, by simpa [Writer.extend] using hl, hs, hsingle⟩
  silent hs := by simpa [Writer.extend] using h.silent hs
  counted hs := by
    have := h.counted hs
    simp only [Writer.extend]
    omega

end Writes

/-- Lines inside brackets are one statement with the line before them. -/
theorem Adds.writes_spans {w w' : Writer} {t : String} {x : List Lexeme} {lines : List String}
    {xss : List (List Lexeme)} {awaited : List Char} (h : Adds (w.write t) w' lines)
    (ht : Starts t x) (hl : List.Forall₂ Shows lines xss)
    (hb : brackets [] (marks x) = some awaited) (hs : Spans awaited xss) :
    Writes w w' [onLevel w.level (x ++ xss.flatten)] where
  level := h.level.trans (w.write_level t)
  added := by
    refine ⟨Writer.lineOf w.level t :: lines, ?_, ?_, ?_⟩
    · rw [h.lines_eq, w.write_lines, List.append_assoc, List.singleton_append]
    · rw [statements?_spans (shows_lineOf ht.toShows w.level) ht.ne_nil hl hb hs,
        indentOf_lineOf ht]
      rfl
    · intro line hline
      rcases List.mem_cons.mp hline with rfl | hline
      · exact isSingle_lineOf ht.single _
      · exact isSingle_of_shows hl line hline
  silent h := by cases h
  counted _ := by
    have hw := statements_write ht w
    have hle := h.statements_le
    omega

theorem spans_items {xss : List (List Lexeme)} {awaited : List Char}
    (h : ∀ xs ∈ xss, brackets awaited (marks xs) = some awaited) (hne : awaited ≠ [])
    {last : List Lexeme} (hl : brackets awaited (marks last) = some []) :
    Spans awaited (xss ++ [last]) := by
  induction xss with
  | nil => exact ⟨hne, [], hl, rfl⟩
  | cons xs rest ih =>
    exact ⟨hne, awaited, h xs List.mem_cons_self, ih fun ys hy => h ys (List.mem_cons_of_mem _ hy)⟩

/-- Items between brackets, each on a line of the next level, are one statement with the lines
around them. -/
theorem Writes.bracketed {w : Writer} {first last : String} {items : List String}
    {x y : List Lexeme} {xss : List (List Lexeme)} {awaited : List Char} (hfirst : Starts first x)
    (hopen : brackets [] (marks x) = some awaited) (hitems : List.Forall₂ Shows items xss)
    (heven : ∀ xs ∈ xss, brackets awaited (marks xs) = some awaited) (hlast : Shows last y)
    (hclose : brackets awaited (marks y) = some []) (hne : awaited ≠ []) :
    Writes w (((w.write first).indented (·.writeAll items)).write last)
      [onLevel w.level (x ++ xss.flatten ++ y)] := by
  have hadds : Adds (w.write first) ((w.write first).indented (·.writeAll items))
      (items.map (Writer.lineOf (w.write first).push.level)) :=
    .indented (Adds.writeAll _ items)
  have hw := (hadds.trans (Adds.write _ last)).writes_spans hfirst
    (List.rel_append (forall₂_shows_lineOf hitems _) (.cons (shows_lineOf hlast _) .nil)) hopen
    (spans_items heven hne hclose)
  simpa using hw

/-! ## Arms -/

/-- The statements of an arm on a level, which does nothing if it has none. -/
def armOf (level : Nat) (ss : List Statement) : List Statement :=
  if ss.isEmpty then [onLevel level [.word "pass"]] else ss

theorem oneLine_pass : OneLine "pass" [.word "pass"] :=
  (Begins.fixed ⟨rfl, rfl⟩ (by decide)).line rfl rfl (by simp)

/-- What is written where it must not be empty. -/
theorem Writes.padded {w w' : Writer} {ss : List Statement} (h : Writes w w' ss) :
    Writes w (if w'.statements = w.statements then w'.write "pass" else w') (armOf w.level ss) := by
  unfold armOf
  by_cases hs : ss = []
  · subst hs
    rw [if_pos (h.silent rfl)]
    have hp : Writes w' (w'.write "pass") [onLevel w'.level [.word "pass"]] :=
      Writes.line oneLine_pass
    rw [h.level] at hp
    exact h.trans hp
  · rw [if_neg (h.counted hs).ne', if_neg (by simpa using hs)]
    exact h

theorem Writes.arm {w : Writer} {body : Writer → Writer} {ss : List Statement}
    (h : Writes w.push (body w.push) ss) :
    Writes w (writeArm body w) (armOf (w.level + 1) ss) :=
  .indented h.padded

/-! ## Literals -/

theorem linesOf_append {after : List Char} (ha : '\n' ∉ after) (t : List Char) :
    ∃ init last, linesOf t = init ++ [last] ∧
      linesOf (t ++ after) = init ++ [last ++ String.ofList after] := by
  induction t using lines_induct with
  | last t ht =>
    refine ⟨[], String.ofList t, by rw [linesOf_last ht]; rfl, ?_⟩
    rw [linesOf_last (by simp [ht, ha]), String.ofList_append]
    rfl
  | line l t hl ih =>
    obtain ⟨init, last, ht, hta⟩ := ih
    refine ⟨String.ofList l :: init, last, by rw [linesOf_line hl, ht]; rfl, ?_⟩
    rw [List.append_assoc, List.cons_append, linesOf_line hl, hta]
    rfl

/-- A literal is written with what stands around it as the lines of the whole. -/
theorem writeLiteral_eq {before after : String} (hb : '\n' ∉ before.toList)
    (ha : '\n' ∉ after.toList) (t : String) (w : Writer) :
    ∃ l rest, linesOf (before ++ t ++ after).toList = (before ++ l) :: rest ∧
      writeLiteral before (linesOf t.toList) after w =
        (w.write (before ++ l)).indented (·.writeAll rest) := by
  by_cases ht : '\n' ∈ t.toList
  · obtain ⟨l, u, he, hl⟩ := List.eq_append_cons_of_mem ht
    obtain ⟨init, last, hu, hua⟩ := linesOf_append ha u
    refine ⟨String.ofList l, init ++ [last ++ after], ?_, ?_⟩
    · have hbl : '\n' ∉ before.toList ++ l := by simp [hb, hl]
      rw [String.toList_append, String.toList_append, he, ← List.append_assoc, List.append_assoc,
        List.cons_append, linesOf_line hbl, hua]
      simp
    · have hne : ∃ d ds, init ++ [last] = d :: ds := by cases init <;> simp
      obtain ⟨d, ds, hds⟩ := hne
      rw [he, linesOf_line hl, hu, hds, writeLiteral, ← hds]
      · simp [Writer.writeAll]
      · simp
  · refine ⟨t ++ after, [], ?_, ?_⟩
    · rw [linesOf_last (by simp [hb, ha, ht]), String.ofList_toList, String.append_assoc]
    · rw [linesOf_last ht, String.ofList_toList, writeLiteral, String.append_assoc]
      rfl

theorem indentOf_append {a b : String} {xs : List Lexeme} {m : Mode} (h : Begins a xs m) :
    indentOf (a ++ b) = 0 := by
  obtain ⟨c, cs, he, hc⟩ := h.starts
  simp [indentOf, he, hc]

/-- The literal of a configuration is written as one statement with what stands around it. -/
theorem Writes.literal {w : Writer} {data : Names} (hj : (Value.ofFields data).isJson)
    {before after : String} {xs ys : List Lexeme} {base : List Char}
    (hbefore : Begins before xs (.code [])) (hne : xs ≠ [])
    (hbase : brackets [] (marks xs) = some base) (hafter : Reads (.code []) after ys (.code []))
    (hclose : brackets base (marks ys) = some []) :
    Writes w (writeLiteral before (literalLines data) after w)
      [onLevel w.level (xs ++ literalParts data ++ ys)] := by
  obtain ⟨x, xss, next, hlines, hx, hb, hs⟩ :=
    literal_spans hj hbefore.toReads hbase hafter hclose
  obtain ⟨l, rest, hl, hw⟩ :=
    writeLiteral_eq hbefore.noFeed hafter.noFeed (layout 0 0 (Value.ofFields data)) w
  rw [hl] at hlines
  cases hlines with
  | cons hfirst hrest =>
    -- A first line without parts would open no bracket, and be the only one.
    have hxne : x ≠ [] := by
      rintro rfl
      obtain rfl : next = [] := by simpa [eq_comm] using hb
      cases xss with
      | nil => simp_all
      | cons => exact absurd rfl hs.1
    have hstart : Starts (before ++ l) x :=
      { toShows := hfirst, ne_nil := hxne, indent := indentOf_append hbefore }
    have hadds : Adds (w.write (before ++ l)) ((w.write (before ++ l)).indented (·.writeAll rest))
        (rest.map (Writer.lineOf (w.write (before ++ l)).push.level)) :=
      .indented (Adds.writeAll _ rest)
    rw [show literalLines data = linesOf (layout 0 0 (Value.ofFields data)).toList from rfl, hw,
      ← hx]
    exact hadds.writes_spans hstart (forall₂_shows_lineOf hrest _) hb hs

end Handler

end Workflow
