/-
The statements of a handler are nested as blocks have to be.

`Suite n` is the grammar: statements on level `n`, where each header is followed by
a body on the next level. The grammar is what is shown of every piece of a handler;
what a reader checks line by line follows from it (`Suite.nested`). The main
statement, `code_nested`, is about the text of a handler: whatever texts stand in
its plan, its lines are lines, its comments are comments, and its statements are
nested.
-/
import Mathlib.Data.List.Chain
import Workflow.Proofs.Document

namespace Workflow

namespace Outline

open Handler (onLevel)

/-! ## Blocks -/

/-- The words that headers start with. -/
def headerWords : List String :=
  ["class", "async", "def", "try", "except", "if", "elif", "else", "for"]

/-- Whether a statement with the given parts is a header. -/
def opensBlock : List Lexeme → Bool
  | .word name :: _ => name ∈ headerWords
  | _ => false

/-- How one statement may follow another: one level deeper if that is a header, and never deeper
otherwise. -/
def Follows (s t : Statement) : Prop :=
  if opensBlock s.parts then t.indent = s.indent + 4 else t.indent ≤ s.indent

/-- Statements are nested as blocks have to be: the first is not indented, each follows the one
before it, and no header is the last. -/
structure Nested (ss : List Statement) : Prop where
  first : ∀ s ∈ ss.head?, s.indent = 0
  follows : ss.IsChain Follows
  last : ∀ s ∈ ss.getLast?, opensBlock s.parts = false
  levels : ∀ s ∈ ss, 4 ∣ s.indent

/-- Statements on a level, in which each header has a body on the next level. -/
inductive Suite : Nat → List Statement → Prop
  | nil {n : Nat} : Suite n []
  | simple {n : Nat} {parts : List Lexeme} {rest : List Statement} :
      opensBlock parts = false → Suite n rest → Suite n (onLevel n parts :: rest)
  | block {n : Nat} {parts : List Lexeme} {body rest : List Statement} :
      opensBlock parts → Suite (n + 1) body → body ≠ [] → Suite n rest →
      Suite n (onLevel n parts :: (body ++ rest))

namespace Suite

variable {n : Nat} {a b : List Statement}

theorem append (ha : Suite n a) (hb : Suite n b) : Suite n (a ++ b) := by
  induction ha with
  | nil => exact hb
  | simple hp _ ih => exact .simple hp (ih hb)
  | block hp hbody hne _ _ ih =>
    rw [List.cons_append, List.append_assoc]
    exact .block hp hbody hne (ih hb)

/-- A header with its body. -/
theorem one {parts : List Lexeme} (hp : opensBlock parts) (hb : Suite (n + 1) b) (hne : b ≠ []) :
    Suite n (onLevel n parts :: b) := by
  simpa using block hp hb hne nil

theorem simples {xss : List (List Lexeme)} (h : ∀ xs ∈ xss, opensBlock xs = false) :
    Suite n (xss.map (onLevel n)) := by
  induction xss with
  | nil => exact .nil
  | cons xs rest ih =>
    exact .simple (h xs List.mem_cons_self) (ih fun ys hy => h ys (List.mem_cons_of_mem _ hy))

theorem flatMap {α : Type} {items : List α} {f : α → List Statement}
    (h : ∀ x ∈ items, Suite n (f x)) : Suite n (items.flatMap f) := by
  induction items with
  | nil => exact .nil
  | cons x rest ih =>
    exact (h x List.mem_cons_self).append (ih fun y hy => h y (List.mem_cons_of_mem _ hy))

theorem head (h : Suite n a) : ∀ s ∈ a.head?, s.indent = 4 * n := by
  cases h <;> simp [onLevel]

theorem levels (h : Suite n a) : ∀ s ∈ a, 4 ∣ s.indent ∧ 4 * n ≤ s.indent := by
  induction h with
  | nil => simp
  | simple _ _ ih => exact List.forall_mem_cons.mpr ⟨by simp [onLevel], ih⟩
  | block _ _ _ _ ihb ihr =>
    refine List.forall_mem_cons.mpr ⟨by simp [onLevel], fun s hs => ?_⟩
    rcases List.mem_append.mp hs with hs | hs
    · have := ihb s hs
      exact ⟨this.1, by omega⟩
    · exact ihr s hs

theorem last (h : Suite n a) : ∀ s ∈ a.getLast?, opensBlock s.parts = false := by
  induction h with
  | nil => simp
  | @simple n parts rest hp _ ih =>
    cases rest with
    | nil => simpa [onLevel] using hp
    | cons s rest => simpa using ih
  | @block n parts body rest _ _ hne _ ihb ihr =>
    cases rest with
    | nil =>
      cases body with
      | nil => exact absurd rfl hne
      | cons s body => simpa using ihb
    | cons s rest => simpa [List.getLast?_append, List.getLast?_cons] using ihr

theorem follows (h : Suite n a) : a.IsChain Follows := by
  induction h with
  | nil => exact .nil
  | @simple n parts rest hp hrest ih =>
    refine List.isChain_cons_iff _ _ _ |>.mpr ?_
    cases rest with
    | nil => exact .inl rfl
    | cons t rest =>
      refine .inr ⟨t, rest, ?_, ih, rfl⟩
      have ht := hrest.head t (by simp)
      simp [Follows, onLevel, hp, ht]
  | @block n parts body rest hp hbody hne hrest ihb ihr =>
    have hfirst : ∀ t ∈ body.head?, Follows (onLevel n parts) t := by
      intro t ht
      have := hbody.head t ht
      simp only [Follows, onLevel, hp, if_true]
      omega
    have hlast : ∀ s ∈ body.getLast?, ∀ t ∈ rest.head?, Follows s t := by
      intro s hs t ht
      have hp := hbody.last s hs
      have hle := (hbody.levels s (List.mem_of_getLast? hs)).2
      have := hrest.head t ht
      simp only [Follows, hp, Bool.false_eq_true, if_false]
      omega
    have hinner : (body ++ rest).IsChain Follows := List.isChain_append.mpr ⟨ihb, ihr, hlast⟩
    cases body with
    | nil => exact absurd rfl hne
    | cons t body => exact .cons_cons (hfirst t (by simp)) hinner

/-- What the grammar allows a reader finds nested. -/
theorem nested (h : Suite 0 a) : Nested a where
  first := by simpa using h.head
  follows := h.follows
  last := h.last
  levels s hs := (h.levels s hs).1

end Suite

theorem not_mem_headerWords {name : String} (h : '_' ∈ name.toList) : name ∉ headerWords := by
  intro hm
  have none : ∀ w ∈ headerWords, '_' ∉ w.toList := by decide
  exact none name hm h

/-- A name with an underscore starts no header. -/
theorem opensBlock_name {name : String} (h : '_' ∈ name.toList) (rest : List Lexeme) :
    opensBlock (.word name :: rest) = false := by
  simp [opensBlock, not_mem_headerWords h]

end Outline

namespace Handler

open Outline

/-! ## Handlers -/

theorem suite_demand (unmet : List Lexeme) (r : Refusal) (n : Nat) :
    Suite n (demandScript unmet r n) :=
  .one rfl (.simple rfl .nil) (List.cons_ne_nil _ _)

theorem suite_webhookInput (n : Nat) : Suite n (webhookInputScript n) :=
  .simples (by simp [assignVariable, opensBlock, headerWords])

theorem suite_access (access : Access) (n : Nat) : Suite n (accessScript access n) := by
  cases access with
  | «open» => exact suite_webhookInput n
  | token => exact (suite_demand _ _ n).append (suite_webhookInput n)
  | signature secret =>
    exact .simple rfl
      (((suite_demand _ _ n).append (suite_demand _ _ n)).append (suite_webhookInput n))
  | misconfigured => exact .simple rfl .nil

theorem suite_guard (guard : Guard) (n : Nat) : Suite n (guardScript guard n) := by
  cases guard with
  | manual =>
    exact (suite_demand _ _ n).append (.simples (by simp [assignVariable, opensBlock, headerWords]))
  | webhook methods access => exact (suite_demand _ _ n).append (suite_access access n)
  | cron schedule condition =>
    refine ((suite_demand _ _ n).append
      (.simples (by simp [assignVariable, opensBlock, headerWords]))).append ?_
    cases condition with
    | none => exact .nil
    | some condition => exact .one rfl (.simple rfl (.simple rfl .nil)) (List.cons_ne_nil _ _)

theorem suite_arm {n : Nat} {ss : List Statement} (h : Suite n ss) : Suite n (armOf n ss) := by
  unfold armOf
  split
  · exact .simple rfl .nil
  · exact h

theorem armOf_ne_nil (n : Nat) (ss : List Statement) : armOf n ss ≠ [] := by
  unfold armOf
  split
  · exact List.cons_ne_nil _ _
  · next h => simpa using h

theorem suite_action (h : Handler) (s : Step) (n : Nat) : Suite n (actionScript h s n) := by
  refine .simples ?_
  simp only [List.forall_mem_cons, List.not_mem_nil, false_imp_iff, implies_true, and_true]
  refine ⟨rfl, ?_, ?_, rfl, rfl⟩
  · exact opensBlock_name (by simp [propsVariable]) _
  · exact opensBlock_name (by simp [resultVariable]) _

theorem suite_formula {target : String} (ht : '_' ∈ target.toList) (formula : String) (n : Nat) :
    Suite n (formulaScript target formula n) :=
  .simple (opensBlock_name ht _) .nil

theorem underscore_condition (h : Handler) (s : Step) : '_' ∈ (h.conditionVariable s).toList := by
  simp [conditionVariable]

theorem underscore_subject (h : Handler) (s : Step) : '_' ∈ (h.subjectVariable s).toList := by
  simp [subjectVariable]

theorem suite_loopVariables (h : Handler) (s : Step) (n : Nat) :
    Suite n (loopVariablesScript h s n) :=
  .simples (by simp [assignVariable, opensBlock, headerWords])

mutual

theorem suite_block (h : Handler) : ∀ (b : Block) (n : Nat), Suite n (blockScript h b n)
  | .trigger _, n | .unsupported _, n | .unreadable _ _, n => .simple rfl .nil
  | .action s, n => .simple rfl (suite_action h s n)
  | .branch s yes no, n => by
    have hyes := suite_arm (suite_blocks h yes (n + 1))
    have hno := suite_arm (suite_blocks h no (n + 1))
    have hf := suite_formula (underscore_condition h s) s.condition n
    exact ((Suite.append (.simple rfl .nil) hf).append (.one rfl hyes (armOf_ne_nil _ _))).append
      (.one rfl hno (armOf_ne_nil _ _))
  | .subject s, n => .simple rfl (suite_formula (underscore_subject h s) s.subject n)
  | .select s arms other, n => by
    have hother := suite_arm (suite_blocks h other (n + 1))
    have hf := suite_formula (underscore_subject h s) s.subject n
    exact ((Suite.append (.simple rfl .nil) hf).append
      (suite_arms h (h.subjectVariable s) (by decide) arms n)).append
      (.one rfl hother (armOf_ne_nil _ _))
  | .loop s body, n => by
    have hbody := suite_blocks h body (n + 1)
    have hitems : opensBlock (assign (h.itemsVariable s)
        (call "list" (evaluation s.iterator ++ [.word "or", .mark '[', .mark ']']))) = false :=
      opensBlock_name (by simp [itemsVariable]) _
    have hinner := (suite_loopVariables h s (n + 1)).append hbody
    exact .simple rfl (.simple hitems (.one rfl hinner (List.cons_ne_nil _ _)))
  | .join s, n => .simple rfl (.simple rfl .nil)

theorem suite_blocks (h : Handler) : ∀ (bs : List Block) (n : Nat), Suite n (blocksScript h bs n)
  | [], _ => .nil
  | b :: rest, n => (suite_block h b n).append (suite_blocks h rest n)

theorem suite_arms (h : Handler) (target : String) {keyword : String}
    (hk : keyword ∈ headerWords) : ∀ (arms : List (String × List Block)) (n : Nat),
      Suite n (armsScript h target keyword arms n)
  | [], _ => .nil
  | (value, body) :: rest, n => by
    have hbody := suite_arm (suite_blocks h body (n + 1))
    have helif : "elif" ∈ headerWords := by decide
    have hrest := suite_arms h target helif rest n
    exact .block (by simpa [test, opensBlock] using hk) hbody (armOf_ne_nil _ _) hrest

end

theorem suite_continuation (h : Handler) (c : Continuation) :
    Suite 3 (continuationScript h c 3) :=
  .one rfl (suite_arm (suite_blocks h c.body 4)) (armOf_ne_nil _ _)

theorem suite_fetch (h : Handler) : Suite 2 (fetchScript h 2) := by
  have hstart : Suite 2 ([assign "workflow_id"
        (call "env.get" [.text "\"WORKFLOW_ID\""] ++ Lexeme.word "or" :: call "new_id" []),
      assign "execution_id" (call "new_id" []),
      assign "logger" (call "Logger" [.word "workflow_id", .mark ',', .word "execution_id"]),
      assign "context"
        (call "create_context" [.word "workflow_id", .mark ',', .word "execution_id"])].map
      (onLevel 2)) :=
    .simples (by simp [assign, opensBlock, headerWords])
  have hmain : Suite 3 (mainScript h) :=
    (suite_guard h.guard 3).append (suite_blocks h h.flow.main 3)
  have htry := ((Suite.flatMap fun c (_ : c ∈ h.flow.continuations) => suite_continuation h c).append
    hmain).append (.simple (rfl : opensBlock successParts = false) .nil)
  have hfailure : Suite 3 (failureScript 3) :=
    .simples (by simp [failureParts, call, opensBlock, headerWords])
  exact ((hstart.append (.simple rfl .nil)).append (.one rfl htry (by simp))).append
    (.one rfl hfailure (List.cons_ne_nil _ _))

theorem suite_script (h : Handler) : Suite 0 (script h) := by
  have himports : Suite 0 (importsScript h 0) := by
    refine .simples ?_
    simp only [List.forall_mem_cons, List.forall_mem_map]
    exact ⟨rfl, rfl, fun _ _ => rfl⟩
  have hne : fetchScript h 2 ≠ [] := by simp [fetchScript]
  exact .simple rfl (himports.append (.block rfl (.simple rfl (.one rfl (suite_fetch h) hne))
    (List.cons_ne_nil _ _) (.simple rfl .nil)))

/-! ## Levels -/

/-- An emission leaves the level as it finds it. -/
def Keeps (emit : Writer → Writer) : Prop := ∀ w, (emit w).level = w.level

@[simp] theorem Writer.blank_level (w : Writer) : w.blank.level = w.level := by
  unfold Writer.blank
  split
  · split <;> rfl
  · rfl

@[simp] theorem Writer.comment_level (w : Writer) (text : String) :
    (w.comment text).level = w.level :=
  w.write_level _

@[simp] theorem Writer.writeAll_level (w : Writer) (lines : List String) :
    (w.writeAll lines).level = w.level := (Adds.writeAll w lines).level

@[simp] theorem Writer.extend_level (w other : Writer) : (w.extend other).level = w.level := rfl

theorem Writer.indented_level (w : Writer) {body : Writer → Writer} (h : Keeps body) :
    (w.indented body).level = w.level := by
  rw [Writer.indented, Writer.pop, h w.push]
  exact Nat.add_sub_cancel ..

theorem keeps_refusal (r : Refusal) : Keeps (writeRefusal r) := fun w => w.write_level _

theorem keeps_token : Keeps writeTokenDemand := fun w => by
  rw [writeTokenDemand, Writer.indented_level _ (keeps_refusal _), Writer.write_level]

theorem keeps_access (access : Access) : Keeps (writeAccess access) := by
  intro w
  cases access with
  | «open» => exact Writer.writeAll_level w _
  | token => exact (Writer.writeAll_level _ _).trans (keeps_token w)
  | signature secret =>
    simp only [writeAccess, writeWebhookInput, writeSignatureDemand, Writer.writeAll_level,
      Writer.indented_level _ (keeps_refusal _), Writer.write_level]
  | misconfigured => exact keeps_refusal _ w

theorem keeps_guard (guard : Guard) : Keeps (writeGuard guard) := by
  intro w
  cases guard with
  | manual => exact (Writer.writeAll_level _ _).trans (keeps_token w)
  | webhook methods access =>
    simp only [writeGuard, keeps_access access _, Writer.indented_level _ (keeps_refusal _),
      Writer.write_level]
  | cron schedule condition =>
    have hskip : Keeps (·.writeAll ["logger.info(\"Cron condition is false, skipping run\")",
        "return create_empty_response(204)"]) := fun w => w.writeAll_level _
    cases condition <;> simp only [writeGuard, Writer.writeAll_level, Writer.write_level,
      Writer.indented_level _ (keeps_refusal _), Writer.indented_level _ hskip]

theorem keeps_head (s : Step) : Keeps (writeNodeHead s) := fun w => by simp [writeNodeHead]

theorem keeps_literal (before : String) (lines : List String) (after : String) :
    Keeps (writeLiteral before lines after) := by
  intro w
  unfold writeLiteral
  split
  · exact w.write_level _
  · exact w.write_level _
  · rw [Writer.indented_level _ fun w => by simp, Writer.write_level]

theorem keeps_action (h : Handler) (s : Step) : Keeps (writeAction h s) := by
  intro w
  simp only [writeAction, Writer.writeAll_level]
  split <;> rw [keeps_literal, Writer.write_level]

theorem keeps_arm {body : Writer → Writer} (h : Keeps body) : Keeps (writeArm body) := by
  refine fun w => Writer.indented_level _ fun w => ?_
  dsimp only
  split
  · rw [Writer.write_level, h]
  · exact h w

mutual

theorem keeps_block (h : Handler) : ∀ b : Block, Keeps (writeBlock h b)
  | .trigger s | .unsupported s => fun w => (Writer.comment_level _ _).trans (keeps_head s w)
  | .action s => fun w => (keeps_action h s _).trans (keeps_head s w)
  | .branch s yes no => fun w => by
    simp only [writeBlock, keeps_arm (keeps_blocks h yes) _, keeps_arm (keeps_blocks h no) _,
      writeFormula, Writer.write_level, keeps_head s w]
  | .subject s => fun w => (Writer.write_level _ _).trans (keeps_head s w)
  | .select s arms other => fun w => by
    simp only [writeBlock, keeps_arm (keeps_blocks h other) _, keeps_arms h _ _ arms _,
      writeFormula, Writer.write_level, keeps_head s w]
  | .loop s body => fun w => by
    simp only [writeBlock, Writer.pop, keeps_blocks h body _, writeLoopHead, Writer.writeAll_level,
      Writer.push, keeps_head s w, Nat.add_sub_cancel]
  | .join s => fun w => (Writer.write_level _ _).trans (keeps_head s w)
  | .unreadable s _ => keeps_head s

theorem keeps_blocks (h : Handler) : ∀ bs : List Block, Keeps (writeBlocks h bs)
  | [] => fun _ => rfl
  | b :: rest => fun w => (keeps_blocks h rest _).trans (keeps_block h b w)

theorem keeps_arms (h : Handler) (target keyword : String) :
    ∀ arms : List (String × List Block), Keeps (writeArms h target keyword arms)
  | [] => fun _ => rfl
  | (value, body) :: rest => fun w => by
    simp only [writeArms, keeps_arms h target "elif" rest _, keeps_arm (keeps_blocks h body) _,
      Writer.write_level]

end

theorem keeps_imports (h : Handler) : Keeps (writeImports h) := fun w => by
  simp only [writeImports, Writer.writeAll_level, Writer.write_level,
    Writer.indented_level _ fun w => w.writeAll_level _]

theorem keeps_secrets (secrets : List String) : Keeps (writeSecrets secrets) := by
  intro w
  unfold writeSecrets
  split
  · exact w.write_level _
  · simp only [Writer.write_level, Writer.indented_level _ fun w => w.writeAll_level _]

theorem keeps_continuations (h : Handler) : Keeps (writeContinuations h) := by
  intro w
  unfold writeContinuations
  induction h.flow.continuations generalizing w with
  | nil => rfl
  | cons c rest ih =>
    rw [List.foldl_cons, ih]
    simp

theorem keeps_fetch (h : Handler) : Keeps (writeFetch h) := by
  intro w
  have hfailure : Keeps writeFailure := fun w => w.writeAll_level _
  have hbody : Keeps fun w => ((writeContinuations h w).extend (mainBody h)).blank.writeAll
      ["return create_json_response(",
       "    \x7b\"success\": True, \"result\": context.result(), \"logs\": logger.get_logs()\x7d, 200",
       ")"] := fun w => by
    simp only [Writer.writeAll_level, Writer.blank_level, Writer.extend_level,
      keeps_continuations h w]
  simp only [writeFetch, Writer.indented_level _ hfailure, Writer.write_level,
    Writer.indented_level _ hbody, Writer.blank_level, keeps_secrets _ _, Writer.writeAll_level]

/-- Every emission of a handler leaves the level as it finds it. -/
structure LevelKept (h : Handler) : Prop where
  imports : Keeps (writeImports h)
  secrets : Keeps (writeSecrets h.secrets)
  guard : ∀ guard, Keeps (writeGuard guard)
  head : ∀ s, Keeps (writeNodeHead s)
  action : ∀ s, Keeps (writeAction h s)
  block : ∀ b, Keeps (writeBlock h b)
  blocks : ∀ bs, Keeps (writeBlocks h bs)
  arms : ∀ target keyword arms, Keeps (writeArms h target keyword arms)
  continuations : Keeps (writeContinuations h)
  fetch : Keeps (writeFetch h)

theorem levelKept (h : Handler) : LevelKept h where
  imports := keeps_imports h
  secrets := keeps_secrets h.secrets
  guard := keeps_guard
  head := keeps_head
  action := keeps_action h
  block := keeps_block h
  blocks := keeps_blocks h
  arms := keeps_arms h
  continuations := keeps_continuations h
  fetch := keeps_fetch h

/-! ## The text -/

theorem commentLine_isRemark (n : Nat) (text : String) : isRemark (commentLine n text) := by
  simp [isRemark, commentLine_dropWhile]

/-- **No text of a plan can break the lines or the blocks of its handler.** The lines of a handler's
text are those that were written, and none holds a line end. A reader who knows words, quotes and
brackets finds the statements of the handler in them, in which texts stand as quoted texts only; and
these are nested: after a header, and nowhere else, the next statement is one level deeper. Whatever
a comment says, it is one line and a comment, and every emission leaves the level as it finds it. -/
theorem code_nested {p : Plan} {h : Handler} (hp : ofPlan p = .ok h) (hj : p.IsJson) :
    linesOf h.code.toList = h.document.lines.toList ++ [""] ∧
      (∀ line ∈ h.document.lines.toList, IsSingle line) ∧
      outline? h.code = some h.script ∧ Nested h.script ∧
      (∀ (w : Writer) (text : String), ∃ line,
        w.comment text = { w with lines := w.lines.push line } ∧ IsSingle line ∧ isRemark line) ∧
      LevelKept h := by
  have hj' := isJson_ofPlan hp hj
  obtain ⟨hlines, hsingle⟩ := lines_code hp hj'
  refine ⟨hlines, hsingle, outline_code hp hj', (suite_script h).nested, fun w text => ?_,
    levelKept h⟩
  exact ⟨_, w.comment_eq text, commentLine_isSingle _ _, commentLine_isRemark _ _⟩

/-- A plan whose texts try to end lines, quotes, brackets and comments. -/
def hostile : Plan where
  steps := [
    { id := "start\nimport os", kind := "trigger-webhook", role := .trigger,
      data := [("methods", .list [.str "get\"]:"]), ("verifySignature", .bool true),
        ("secretKeyRef", .str "key'\")\n")],
      structural := false, category := .core },
    { id := "which", kind := "switch", role := .action,
      data := [("expression", .str "x'\r\n#"), ("cases", .list [.str "a\":\n", .str "b"])],
      structural := true, category := .core },
    { id := "work )]\x7d", kind := "run\n  pass", role := .action,
      data := [("text", .str "\"\"\"\n)\x7d # \\"), ("deep", .list [.dict [(.str "\x7d\n", .none)]])],
      structural := false, category := .externalLib, secrets := ["token\"\n:"] }]
  edges := [
    { source := "start\nimport os", target := "which" },
    { source := "which", target := "work )]\x7d", sourcePort := some "a\":\n" }]
  entry := "start\nimport os"
  hasCycle := false
  depth := 3

theorem hostile_handler : ∃ h, ofPlan hostile = .ok h := exists_eq_ok (by cbv)

theorem hostile_isJson : hostile.IsJson := by
  unfold Plan.IsJson
  decide

theorem hostile_nested : ∃ h, ofPlan hostile = .ok h ∧ hostile.IsJson ∧
    (∀ line ∈ h.document.lines.toList, IsSingle line) ∧ outline? h.code = some h.script ∧
    Nested h.script := by
  obtain ⟨h, hp⟩ := hostile_handler
  obtain ⟨-, hsingle, houtline, hnested, -, -⟩ := code_nested hp hostile_isJson
  exact ⟨h, hp, hostile_isJson, hsingle, houtline, hnested⟩

end Handler

end Workflow
