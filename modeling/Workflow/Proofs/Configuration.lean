/-
The configuration of an action, as a reader of scripts takes it.

An action assigns the literal of its configuration to a variable, either as it is
or inside a call that fills in formulas. The lines of the assignment, on any level,
are read as one statement, and its literal has the configuration for its value
(`writeAction_denotes`). A configuration that opens more brackets than a reader of
scripts takes is written all the same, and cannot be read (`give_refused`).
-/
import Workflow.Proofs.Assignment
import Workflow.Proofs.Script

namespace Workflow

namespace Handler

open Outline Source

/-- The variable that takes a configuration has a name of plain letters. -/
theorem isVariable_props {p : Plan} {h : Handler} (hp : ofPlan p = .ok h) (s : Step) :
    IsVariable (h.propsVariable s) := by
  have hname := isIdentifier_variableOf hp s.id
  have htext : (h.propsVariable s).toList =
      ['p', 'r', 'o', 'p', 's', '_'] ++ (h.variableOf s.id).toList := by
    simp [propsVariable]
  refine ⟨⟨'p', _, htext, rfl⟩, fun c hc => ?_, fun hk => ?_⟩
  · rw [htext, List.mem_append] at hc
    rcases hc with hc | hc
    · fin_cases hc <;> rfl
    · exact hname.2 c hc
  · have hall : ∀ k ∈ keywords, ['p', 'r', 'o', 'p', 's', '_'].isPrefixOf k.toList = false := by
      decide
    have := hall _ hk
    simp [htext, List.isPrefixOf] at this

/-! ## Lines of an assignment -/

/-- Lines on a level, as a script of their own: below the head of a block, unless they stand at the
margin. -/
def headed (level : Nat) (lines : List String) : String :=
  "\n".intercalate (if level = 0 then lines else "if True:" :: lines)

/-- A statement in a script of its own on a level. -/
def headedStatement (level : Nat) (s : Stmt) : List Stmt :=
  if level = 0 then [s] else [.branch (.constant (.bool true)) [s] []]

theorem toList_intercalate_append (a first : String) (rest : List String) :
    ("\n".intercalate ((a ++ first) :: rest)).toList =
      a.toList ++ ("\n".intercalate (first :: rest)).toList := by
  cases rest <;> simp

theorem linesOf_ne_nil (t : List Char) : ∃ first rest, linesOf t = first :: rest := by
  induction t using lines_induct with
  | last t ht => exact ⟨_, _, linesOf_last ht⟩
  | line l t hl ih => exact ⟨_, _, linesOf_line hl t⟩

theorem head?_linesOf {t : List Char} {c : Char} (ht : t.head? = some c) (hc : c ≠ '\n')
    {first : String} {rest : List String} (h : linesOf t = first :: rest) :
    first.isEmpty = false := by
  cases t with
  | nil => simp at ht
  | cons d u =>
    obtain rfl : d = c := by simpa using ht
    induction u using lines_induct with
    | last u hu =>
      rw [linesOf_last (by simp [hu, hc.symm])] at h
      obtain ⟨rfl, -⟩ := List.cons.inj h
      rw [Bool.eq_false_iff, Ne, String.isEmpty_iff, String.ofList_eq_empty_iff]
      simp
    | line l u hl ih =>
      rw [← List.cons_append, linesOf_line (by simp [hl, hc.symm])] at h
      obtain ⟨rfl, -⟩ := List.cons.inj h
      rw [Bool.eq_false_iff, Ne, String.isEmpty_iff, String.ofList_eq_empty_iff]
      simp

/-- Lines below the first that are moved to a level are the text moved to that margin. -/
theorem toList_lineOf {n : Nat} (u : List Char) : indents u →
    ∀ {first : String} {rest : List String}, linesOf u = first :: rest →
    ("\n".intercalate (first :: rest.map (Writer.lineOf n))).toList = reindent (4 * n) u := by
  induction u using lines_induct with
  | last u hu =>
    intro _ first rest hlines
    rw [linesOf_last hu] at hlines
    obtain ⟨rfl, rfl⟩ := List.cons.inj hlines
    simp [reindent_line hu]
  | line l u hl ih =>
    intro hind first rest hlines
    rw [linesOf_line hl] at hlines
    obtain ⟨rfl, rfl⟩ := List.cons.inj hlines
    obtain ⟨next, more, hu⟩ := linesOf_ne_nil u
    have hblank : u.head? = some ' ' ∧ indents u := by
      clear hlines ih hu
      induction l with
      | nil => simpa [indents] using hind
      | cons c l ihl =>
        obtain ⟨-, hl⟩ := not_or.mp (mt List.mem_cons.mpr hl)
        simp only [List.cons_append, indents, Bool.and_eq_true] at hind
        exact ihl hl hind.2
    have hnext : Writer.lineOf n next = Writer.margin n ++ next := by
      rw [Writer.lineOf, head?_linesOf hblank.1 (by decide) hu, if_neg (by decide)]
    have hmargin : (Writer.margin n).toList = List.replicate (4 * n) ' ' := String.toList_ofList
    have hfeed : reindent (4 * n) ('\n' :: u) =
        '\n' :: (List.replicate (4 * n) ' ' ++ reindent (4 * n) u) := by
      simp [reindent]
    rw [hu, List.map_cons, toList_intercalate_cons, hnext, toList_intercalate_append,
      ih hblank.2 hu, reindent_append, reindent_line hl, hfeed, hmargin]
    simp

/-- The lines of an assignment of a text are read as the assignment of what the text, moved to the
margin of its further lines, is read as. -/
theorem exists_writeLiteral {x : String} (hx : IsVariable x) (hmatch : x ≠ "match")
    {pre post : String} (hpre : '\n' ∉ pre.toList) (hpost : '\n' ∉ post.toList) {t : String}
    (w : Writer) (hind : indents (pre ++ t ++ post).toList) {d : Nat} (hd : d ≤ Layout.maxBrackets)
    {ts : List Token} {e : Expr}
    (hs : Spelled true d (reindent (4 * (w.level + 1)) (pre ++ t ++ post).toList) ts)
    (he : Assignable ts e) :
    ∃ lines, Adds w (writeLiteral (x ++ " = " ++ pre) (linesOf t.toList) post w) lines ∧
      readScript (headed w.level lines) =
        .ok (headedStatement w.level (.assign [.name x] e)) := by
  have hfeed : '\n' ∉ x.toList := fun hc => absurd (hx.chars _ hc) (by decide)
  have hbefore : '\n' ∉ (x ++ " = " ++ pre).toList := by simp [hfeed, hpre]
  obtain ⟨l, rest, hlines, hwrite⟩ := writeLiteral_eq hbefore hpost t w
  have hlevel : (w.write (x ++ " = " ++ pre ++ l)).push.level = w.level + 1 := by
    simp [Writer.push]
  have hmore : Adds (w.write (x ++ " = " ++ pre ++ l))
      ((w.write (x ++ " = " ++ pre ++ l)).indented (·.writeAll rest)) _ :=
    .indented (Adds.writeAll (w.write (x ++ " = " ++ pre ++ l)).push rest)
  have hadds := (Adds.write w (x ++ " = " ++ pre ++ l)).trans hmore
  rw [hlevel, List.singleton_append] at hadds
  refine ⟨_, hwrite ▸ hadds, ?_⟩
  have hne : (x ++ " = " ++ pre ++ l).isEmpty = false := by
    rw [Bool.eq_false_iff, Ne, String.isEmpty_iff]
    intro h
    simpa using congrArg String.toList h
  have hmargin : (Writer.margin w.level).toList = List.replicate (4 * w.level) ' ' :=
    String.toList_ofList
  have hwhole : (x ++ " = " ++ pre ++ t ++ post).toList =
      x.toList ++ ([' ', '=', ' '] ++ (pre ++ t ++ post).toList) := by
    simp
  have htext : ("\n".intercalate (Writer.lineOf w.level (x ++ " = " ++ pre ++ l) ::
      rest.map (Writer.lineOf (w.level + 1)))).toList =
      List.replicate (4 * w.level) ' ' ++ (x.toList ++ ' ' :: '=' :: ' ' ::
        reindent (4 * (w.level + 1)) (pre ++ t ++ post).toList) := by
    have hall : indents (x ++ " = " ++ pre ++ t ++ post).toList := by
      rw [hwhole]
      exact indents_append (indents_line hfeed) (indents_append (indents_line (by simp)) hind)
    rw [Writer.lineOf, hne, if_neg (by decide), toList_intercalate_append,
      toList_lineOf _ hall hlines, hmargin, hwhole, reindent_append, reindent_append,
      reindent_line hfeed]
    simp
  rw [readScript, headed, headedStatement]
  by_cases hzero : w.level = 0
  · rw [if_pos hzero, if_pos hzero, htext, hzero]
    rw [hzero] at hs
    exact readCharacters_assign hx hmatch hs hd he
  · rw [if_neg hzero, if_neg hzero, toList_intercalate_cons, htext]
    have hhead : "if True:".toList ++ "\n".toList = blockHead ++ ['\n'] := by
      simp [blockHead]
    rw [hhead, List.append_assoc]
    exact readCharacters_nested hx hmatch hs hd he (by omega)

/-! ## Actions -/

/-- The line that says which node is executed. -/
def stepLine (s : Step) : String := "context.current_step = " ++ Text.quoted s.id

/-- Writes the assignment of an action's configuration. -/
def writeConfig (h : Handler) (s : Step) (w : Writer) : Writer :=
  if isDynamic s then
    writeLiteral (h.propsVariable s ++ " = interpolate_config(") (literalLines s.data)
      ", context)" w
  else writeLiteral (h.propsVariable s ++ " = ") (literalLines s.data) "" w

/-- The lines that execute an action and keep its result. -/
def callLines (h : Handler) (s : Step) : List String :=
  [h.resultVariable s ++ " = await " ++ h.aliasOf s.kind ++ "(" ++ h.propsVariable s ++
     ", secrets)",
   "context.set_result(" ++ Text.quoted s.id ++ ", " ++ h.resultVariable s ++ ")",
   "logger.info(" ++ Text.quoted ("Node " ++ s.id ++ " completed") ++ ")"]

theorem writeAction_eq (h : Handler) (s : Step) (w : Writer) :
    writeAction h s w = (writeConfig h s (w.write (stepLine s))).writeAll (callLines h s) := rfl

/-- What an action assigns: the literal of its configuration, or a call that fills in formulas. -/
def configValue (s : Step) (e : Expr) : Expr :=
  if isDynamic s then .call (.name "interpolate_config") [e, .name "context"] [] else e

/-- How many brackets are open where the configuration of an action nests deepest. -/
def configDepth (s : Step) : Nat :=
  (Value.ofFields s.data).nesting + if isDynamic s then 1 else 0

/-- The assignment of a configuration is read as one statement. -/
theorem exists_writeConfig {p : Plan} {h : Handler} (hp : ofPlan p = .ok h) {s : Step}
    (hplain : (Value.ofFields s.data).isPlain)
    (hshort : (Value.ofFields s.data).hasOverlong = false)
    (hdepth : configDepth s ≤ Layout.maxBrackets) (w : Writer) :
    ∃ lines e, Adds w (writeConfig h s w) lines ∧
      readScript (headed w.level lines) =
        .ok (headedStatement w.level (.assign [.name (h.propsVariable s)] (configValue s e))) ∧
      ∀ names, Formula.eval names e = .ok (Value.ofFields s.data) := by
  have hx := isVariable_props hp s
  have hmatch : h.propsVariable s ≠ "match" := by
    intro he
    have := congrArg String.toList he
    simp [propsVariable] at this
  have hdenotes : ∀ m, DenotesValue (Value.ofFields s.data)
      (reindent m (layout 0 0 (Value.ofFields s.data)).toList) := fun m =>
    denotes_layout m _ 0 0 (.inl rfl) hplain hshort
  have hind : indents (layout 0 0 (Value.ofFields s.data)).toList := by
    obtain ⟨ts, e, hs, -⟩ := hdenotes 0
    simpa using hs.stands.indented
  obtain ⟨ts, e, hs, hparse, heval⟩ := hdenotes (4 * (w.level + 1))
  have hlines : literalLines s.data = linesOf (layout 0 0 (Value.ofFields s.data)).toList := rfl
  unfold configDepth at hdepth
  unfold configValue writeConfig
  rw [hlines]
  generalize layout 0 0 (Value.ofFields s.data) = t at *
  by_cases hdynamic : isDynamic s
  · rw [if_pos hdynamic] at hdepth
    have hf : IsVariable "interpolate_config" :=
      ⟨⟨_, _, rfl, rfl⟩, isIdChar_fixed rfl, by decide⟩
    have hc : IsVariable "context" := ⟨⟨_, _, rfl, rfl⟩, isIdChar_fixed rfl, by decide⟩
    have hcall := Spelled.call hf hc hs
    have htext : reindent (4 * (w.level + 1)) ("interpolate_config(" ++ t ++ ", context)").toList =
        "interpolate_config".toList ++ '(' :: (reindent (4 * (w.level + 1)) t.toList ++
          ',' :: ' ' :: "context".toList ++ [')']) := by
      simp
    have hall : indents ("interpolate_config(" ++ t ++ ", context)").toList := by
      rw [String.toList_append, String.toList_append]
      exact indents_append (indents_append (indents_line (by simp)) hind) (indents_line (by simp))
    obtain ⟨lines, hadds, hread⟩ := exists_writeLiteral hx hmatch (by simp) (by simp) w hall hdepth
      (htext ▸ hcall) (hparse.assignable_call _ _)
    have hjoin : h.propsVariable s ++ " = " ++ "interpolate_config(" =
        h.propsVariable s ++ " = interpolate_config(" := String.append_assoc ..
    rw [hjoin] at hadds
    exact ⟨lines, e, by simpa [hdynamic] using hadds, by simpa [hdynamic] using hread, heval⟩
  · rw [if_neg hdynamic] at hdepth
    have hall : indents ("" ++ t ++ "").toList := by simpa using hind
    have hs : Spelled true _ _ ts := hs
    obtain ⟨lines, hadds, hread⟩ := exists_writeLiteral hx hmatch (by simp) (by simp) w hall hdepth
      (by simpa using hs) hparse.assignable
    exact ⟨lines, e, by simpa [hdynamic] using hadds, by simpa [hdynamic] using hread, heval⟩

/-! ## Deep configurations -/

/-- Lists in each other, the innermost one empty. -/
def nested : Nat → Value
  | 0 => .list []
  | n + 1 => .list [nested n]

theorem isPlain_nested (n : Nat) : (nested n).isPlain := by
  induction n with
  | zero => rfl
  | succ n ih => simp [nested, Value.isPlain, Value.arePlain, ih]

theorem hasOverlong_nested (n : Nat) : (nested n).hasOverlong = false := by
  induction n with
  | zero => simp [nested, Value.hasOverlong, Value.anyOverlong]
  | succ n ih => simp [nested, Value.hasOverlong, Value.anyOverlong, ih]

theorem nesting_nested (n : Nat) : (nested n).nesting = n + 1 := by
  induction n with
  | zero => rfl
  | succ n ih => simp [nested, Value.nesting, Value.nestingAll, ih]

theorem nested_text (n : Nat) :
    '[' :: (List.replicate (n + 1) '[' ++ List.replicate (n + 1) ']') ++ [']'] =
      List.replicate (n + 2) '[' ++ List.replicate (n + 2) ']' := by
  rw [List.replicate_succ (n := n + 1), List.replicate_succ' (n := n + 1) (a := ']')]
  simp

theorem literal_nested (n : Nat) : (nested n).literal.toList =
    List.replicate (n + 1) '[' ++ List.replicate (n + 1) ']' := by
  induction n with
  | zero => simp [nested, Value.literal, Value.literals]
  | succ n ih => simp [← nested_text, nested, Value.literal, Value.literals, ih]

theorem layout_nested (n column allowance : Nat) : (layout column allowance (nested n)).toList =
    List.replicate (n + 1) '[' ++ List.replicate (n + 1) ']' := by
  induction n generalizing column allowance with
  | zero =>
    rw [nested, layout]
    split
    · exact literal_nested 0
    · simp [layoutItems]
  | succ n ih =>
    rw [nested, layout]
    split
    · exact literal_nested (n + 1)
    · simp [← nested_text, layoutItems, ih]

/-- An action that gives a value. -/
def give (v : Value) : Step :=
  { id := "give", kind := "value", role := .action, data := [("value", v)], structural := false,
    category := .core }

/-- A plan with one action. -/
def giving (v : Value) : Plan where
  steps := [
    { id := "start", kind := "trigger-manual", role := .trigger, data := [], structural := false,
      category := .core },
    give v]
  edges := [{ source := "start", target := "give" }]
  entry := "start"
  hasCycle := false
  depth := 2

theorem exists_giving (v : Value) : ∃ h, ofPlan (giving v) = .ok h ∧
    .action (give v) ∈ h.flow.written ∧ h.propsVariable (give v) = "props_give" := by
  obtain ⟨h, hp⟩ := exists_eq_ok (x := ofPlan (giving v)) (by cbv)
  have hwritten : (ofPlan (giving v)).map (·.flow.written) = .ok [.action (give v)] := by cbv
  have hname : (ofPlan (giving v)).map (·.propsVariable (give v)) = .ok "props_give" := by cbv
  rw [hp] at hwritten hname
  have hwritten : h.flow.written = [.action (give v)] := Except.ok.inj hwritten
  exact ⟨h, hp, hwritten ▸ List.mem_singleton_self _, Except.ok.inj hname⟩

theorem layout_give (n : Nat) : (layout 0 0 (Value.ofFields (give (nested n)).data)).toList =
    '\x7b' :: ((Text.quoted "value").toList ++ ':' :: ' ' ::
      (List.replicate (n + 1) '[' ++ (List.replicate (n + 1) ']' ++ ['\x7d']))) := by
  have hdata : Value.ofFields (give (nested n)).data = .dict [(.str "value", nested n)] := rfl
  rw [hdata, layout]
  split
  · simp [Value.literal, Value.entryLiterals, literal_nested]
  · simp [Value.literal, layoutEntries, layout_nested]

theorem hasFormula_nested (n : Nat) : hasFormula (nested n) = false := by
  induction n with
  | zero => simp [nested, hasFormula, itemsHaveFormula]
  | succ n ih => simp [nested, hasFormula, itemsHaveFormula, ih]

theorem give_plain (n : Nat) : (Value.ofFields (give (nested n)).data).isPlain ∧
    (Value.ofFields (give (nested n)).data).hasOverlong = false ∧
    configDepth (give (nested n)) = n + 2 ∧ isDynamic (give (nested n)) = false := by
  have hdata : Value.ofFields (give (nested n)).data = .dict [(.str "value", nested n)] := rfl
  have hdynamic : isDynamic (give (nested n)) = false := by
    rw [isDynamic, hdata]
    simp [hasFormula, entriesHaveFormula, hasFormula_nested]
  rw [configDepth, hdata, hdynamic]
  refine ⟨?_, ?_, ?_, rfl⟩
  · simp [Value.isPlain, Value.arePlainEntries, isPlain_nested, Value.field?]
  · simp [Value.hasOverlong, Value.anyOverlongEntry, hasOverlong_nested]
  · simp [Value.nesting, Value.nestingEntries, nesting_nested]

/-- The lines with which an action assigns its configuration are read as one assignment to its
variable, on whatever level they stand; the literal in it has the configuration for its value, as
long as no more brackets are open in it than a script may have. -/
theorem writeAction_denotes {p : Plan} {h : Handler} (hp : ofPlan p = .ok h) {s : Step}
    (hplain : (Value.ofFields s.data).isPlain)
    (hshort : (Value.ofFields s.data).hasOverlong = false)
    (hdepth : configDepth s ≤ Layout.maxBrackets) (w : Writer) :
    ∃ lines e,
      (writeAction h s w).lines.toList = w.lines.toList ++
        Writer.lineOf w.level (stepLine s) :: lines ++ (callLines h s).map (Writer.lineOf w.level) ∧
      readScript (headed w.level lines) =
        .ok (headedStatement w.level (.assign [.name (h.propsVariable s)] (configValue s e))) ∧
      ∀ names, Formula.eval names e = .ok (Value.ofFields s.data) := by
  obtain ⟨lines, e, hadds, hread, heval⟩ :=
    exists_writeConfig hp hplain hshort hdepth (w.write (stepLine s))
  rw [Writer.write_level] at hread
  refine ⟨lines, e, ?_, hread, heval⟩
  have hall := ((Adds.write w (stepLine s)).trans hadds).trans (Adds.writeAll _ (callLines h s))
  rw [hadds.level, Writer.write_level] at hall
  rw [writeAction_eq, hall.lines_eq]
  simp

/-- The deepest configuration that is read, on the level of a body. -/
theorem give_denotes : ∃ h lines e, ofPlan (giving (nested 198)) = .ok h ∧
    .action (give (nested 198)) ∈ h.flow.written ∧
    configDepth (give (nested 198)) = Layout.maxBrackets ∧
    (writeAction h (give (nested 198)) { level := 3 }).lines.toList =
      Writer.lineOf 3 (stepLine (give (nested 198))) :: lines ++
        (callLines h (give (nested 198))).map (Writer.lineOf 3) ∧
    readScript (headed 3 lines) =
      .ok [.branch (.constant (.bool true)) [.assign [.name "props_give"] e] []] ∧
    Formula.eval [] e = .ok (Value.ofFields (give (nested 198)).data) := by
  generalize hn : 198 = n
  obtain ⟨h, hp, hmem, hname⟩ := exists_giving (nested n)
  obtain ⟨hplain, hshort, hdepth, hdynamic⟩ := give_plain n
  have hfull : configDepth (give (nested n)) = Layout.maxBrackets := by
    rw [hdepth, ← hn]
    rfl
  obtain ⟨lines, e, hlines, hread, heval⟩ :=
    writeAction_denotes hp hplain hshort hfull.le { level := 3 }
  refine ⟨h, lines, e, hp, hmem, hfull, hlines, ?_, heval []⟩
  rwa [hname, configValue, hdynamic] at hread

/-- A configuration that nests one level deeper is written, but cannot be read. -/
theorem give_refused : ∃ h lines, ofPlan (giving (nested 199)) = .ok h ∧
    .action (give (nested 199)) ∈ h.flow.written ∧
    (Value.ofFields (give (nested 199)).data).isPlain ∧
    (Value.ofFields (give (nested 199)).data).hasOverlong = false ∧
    (writeAction h (give (nested 199)) {}).lines.toList =
      Writer.lineOf 0 (stepLine (give (nested 199))) :: lines ++
        (callLines h (give (nested 199))).map (Writer.lineOf 0) ∧
    readScript (headed 0 lines) = .error .malformed := by
  generalize hn : 199 = n
  obtain ⟨h, hp, hmem, hname⟩ := exists_giving (nested n)
  obtain ⟨hplain, hshort, -, hdynamic⟩ := give_plain n
  have htext := layout_give n
  have hliteral : literalLines (give (nested n)).data =
      [layout 0 0 (Value.ofFields (give (nested n)).data)] := by
    have hfeed : '\n' ∉ (layout 0 0 (Value.ofFields (give (nested n)).data)).toList := by
      rw [htext]
      simp [Outline.feed_notMem_quoted]
    exact (linesOf_last hfeed).trans (by rw [String.ofList_toList])
  generalize layout 0 0 (Value.ofFields (give (nested n)).data) = t at htext hliteral
  have hwrite : ∀ w : Writer,
      writeConfig h (give (nested n)) w = w.write ("props_give = " ++ t) := by
    intro w
    rw [writeConfig, hdynamic, if_neg (by decide), hname, hliteral, writeLiteral,
      String.append_empty]
    rfl
  have hadds := ((Adds.write {} (stepLine (give (nested n)))).trans
    (Adds.write _ ("props_give = " ++ t))).trans (Adds.writeAll _ (callLines h (give (nested n))))
  have hempty : ("props_give = " ++ t).isEmpty = false := by
    rw [Bool.eq_false_iff, Ne, String.isEmpty_iff]
    intro he
    simpa using congrArg String.toList he
  have hline : (headed 0 [Writer.lineOf 0 ("props_give = " ++ t)]).toList =
      dictHead "props_give" "value" ++ (List.replicate (n + 1) '[' ++
        (List.replicate (n + 1) ']' ++ ['\x7d'])) := by
    rw [headed, if_pos rfl, String.intercalate_singleton, Writer.lineOf, hempty, if_neg (by decide),
      String.toList_append, String.toList_append, htext]
    simp [dictHead, Writer.margin]
  have hx : IsVariable "props_give" := ⟨⟨_, _, rfl, rfl⟩, isIdChar_fixed rfl, by decide⟩
  refine ⟨h, [Writer.lineOf 0 ("props_give = " ++ t)], hp, hmem, hplain, hshort, ?_, ?_⟩
  · rw [writeAction_eq, hwrite, hadds.lines_eq]
    simp only [Writer.write_level]
    rfl
  · rw [readScript, hline]
    refine readCharacters_deep hx (by decide) "value" (by rw [← hn]; decide) fun c hc => ?_
    rw [List.mem_append, List.mem_replicate, List.mem_singleton] at hc
    rcases hc with ⟨-, rfl⟩ | rfl <;> decide

end Handler

end Workflow
