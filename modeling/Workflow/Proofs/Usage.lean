/-
Which names a script imports, calls and binds, read off its statements.

What a handler's statements come to is put together from what each block has of its
own (`mem_gather_blocks`), so that each reading of the whole script is the same
question about the forms of blocks: the imports in order (`importsIn_script`), the
names that are called (`mem_calledIn_script`) and the names that `fetch` binds
(`mem_boundIn_fetch`).
-/
import Workflow.Proofs.Nesting

namespace Workflow

namespace Outline

/-! ## Reading statements -/

/-- The words among lexemes. -/
def wordsOf (xs : List Lexeme) : List String :=
  xs.filterMap fun
    | .word name => some name
    | _ => none

/-- A member of a module, and the name that an import gives it. -/
structure Import where
  source : String
  member : String
  name : String
  deriving Repr, DecidableEq, Inhabited

/-- The members that an import takes from a module: one under another name, or a list. -/
def membersOf (source : String) : List Lexeme → List Import
  | [.word member, .word _, .word name] => [⟨source, member, name⟩]
  | members => (wordsOf members).map fun name => ⟨source, name, name⟩

/-- What a statement imports. -/
def importsOf : List Lexeme → List Import
  | .word first :: .word source :: .word _ :: members =>
    if first = "from" then membersOf source members else []
  | _ => []

/-- A name before an opening parenthesis. -/
def called : Lexeme → Lexeme → List String
  | .word name, .mark c => if c = '(' then [name] else []
  | _, _ => []

/-- The names before opening parentheses. -/
def calls : List Lexeme → List String
  | x :: y :: rest => called x y ++ calls (y :: rest)
  | _ => []

/-- What a statement calls. Imports and the heads of coroutines have parentheses, but call
nothing. -/
def callsOf : List Lexeme → List String
  | .word first :: rest =>
    if first = "from" ∨ first = "async" then [] else calls (.word first :: rest)
  | parts => calls parts

/-- The names that a statement assigns or defines. -/
def boundBy : List Lexeme → List String
  | .word first :: .mark c :: _ => if c = '=' then [first] else []
  | .word first :: .word second :: rest =>
    if first = "for" ∨ first = "class" then [second]
    else if first = "async" then wordsOf rest
    else if first = "except" then (wordsOf rest).drop 1
    else []
  | _ => []

/-- What all statements come to. -/
def gather {α : Type} (g : List Lexeme → List α) (ss : List Statement) : List α :=
  ss.flatMap fun s => g s.parts

/-- What is imported at the top of a script. -/
def importsIn (ss : List Statement) : List Import := gather importsOf (ss.filter (·.indent = 0))

/-- What is called anywhere in a script. -/
def calledIn (ss : List Statement) : List String := gather callsOf ss

/-- Whether a statement is the head of a coroutine. -/
def isHeadOf (name : String) : List Lexeme → Bool
  | .word first :: .word second :: .word third :: _ =>
    first = "async" && second = "def" && third = name
  | _ => false

/-- The coroutine of a name: its head, and the statements below it that are indented deeper. -/
def coroutine (name : String) (ss : List Statement) : List Statement :=
  match ss.dropWhile fun s => !isHeadOf name s.parts with
  | [] => []
  | head :: rest => head :: rest.takeWhile (head.indent < ·.indent)

/-! ## Putting readings together -/

section

variable {α : Type} (g : List Lexeme → List α)

@[simp] theorem gather_nil : gather g [] = [] := rfl

@[simp] theorem gather_cons (s : Statement) (ss : List Statement) :
    gather g (s :: ss) = g s.parts ++ gather g ss := rfl

@[simp] theorem gather_append (a b : List Statement) :
    gather g (a ++ b) = gather g a ++ gather g b := List.flatMap_append

@[simp] theorem gather_onLevel (n : Nat) (xss : List (List Lexeme)) :
    gather g (xss.map (Handler.onLevel n)) = xss.flatMap g := by
  simp [gather, List.flatMap_map, Handler.onLevel]

theorem gather_flatMap {β : Type} (items : List β) (f : β → List Statement) :
    gather g (items.flatMap f) = items.flatMap fun x => gather g (f x) := by
  simp [gather, List.flatMap_assoc]

end

@[simp] theorem calls_nil : calls [] = [] := rfl

@[simp] theorem calls_mark (c : Char) (xs : List Lexeme) : calls (.mark c :: xs) = calls xs := by
  cases xs <;> rfl

@[simp] theorem calls_text (literal : String) (xs : List Lexeme) :
    calls (.text literal :: xs) = calls xs := by
  cases xs <;> rfl

@[simp] theorem calls_word_mark (name : String) (c : Char) (xs : List Lexeme) :
    calls (.word name :: .mark c :: xs) = (if c = '(' then [name] else []) ++ calls xs := by
  rw [calls, calls_mark]
  rfl

@[simp] theorem calls_word_word (name name' : String) (xs : List Lexeme) :
    calls (.word name :: .word name' :: xs) = calls (.word name' :: xs) := rfl

/-- Where no parenthesis follows, calls are apart. -/
theorem calls_append {a b : List Lexeme} (h : b.head? ≠ some (.mark '(')) :
    calls (a ++ b) = calls a ++ calls b := by
  induction a with
  | nil => simp [calls]
  | cons x rest ih =>
    cases rest with
    | nil =>
      cases b with
      | nil => simp [calls]
      | cons y b =>
        have hxy : called x y = [] := by
          cases x <;> cases y <;> simp_all [called]
        simp [calls, hxy]
    | cons y rest =>
      simp only [List.cons_append, calls, List.append_assoc] at ih ⊢
      rw [ih]

/-- Without a parenthesis there is no call. -/
theorem calls_eq_nil {xs : List Lexeme} (h : '(' ∉ marks xs) : calls xs = [] := by
  induction xs with
  | nil => rfl
  | cons x rest ih =>
    cases rest with
    | nil => rfl
    | cons y rest =>
      have hrest : '(' ∉ marks (y :: rest) := by
        cases x with
        | mark c => exact fun hm => h (marks_mark c _ ▸ List.mem_cons_of_mem _ hm)
        | word name => exact h
        | text literal => exact h
      have hxy : called x y = [] := by
        cases x with
        | word name =>
          cases y with
          | mark c => exact if_neg fun hc => h (by simp [hc])
          | word _ => rfl
          | text _ => rfl
        | mark _ => rfl
        | text _ => rfl
      rw [calls, hxy, ih hrest]
      rfl

end Outline

namespace Handler

open Outline
open Outline.Lexeme (word mark text)

/-! ## Blocks -/

/-- The tests of the arms of a selection, the first with the given keyword. -/
def armTests (target keyword : String) : List (String × List Block) → List (List Lexeme)
  | [] => []
  | (value, _) :: rest =>
    test keyword (call "str" [word target] ++ [mark '=', mark '=', text (Text.quoted value)]) ::
      armTests target "elif" rest

/-- The statements that a block has of its own, without those of the blocks in it, all on one
level. -/
def ownScript (h : Handler) : Block → List Statement
  | .trigger s | .unsupported s | .unreadable s _ => headScript s 0
  | .action s => headScript s 0 ++ actionScript h s 0
  | .branch s _ _ =>
    headScript s 0 ++ formulaScript (h.conditionVariable s) s.condition 0 ++
      [onLevel 0 (test "if" [word (h.conditionVariable s)]), onLevel 0 [word "else", mark ':']]
  | .subject s => headScript s 0 ++ formulaScript (h.subjectVariable s) s.subject 0
  | .select s arms _ =>
    headScript s 0 ++ formulaScript (h.subjectVariable s) s.subject 0 ++
      (armTests (h.subjectVariable s) "if" arms).map (onLevel 0) ++
      [onLevel 0 [word "else", mark ':']]
  | .loop s _ => headScript s 0 ++ loopHeadScript h s 0 ++ loopVariablesScript h s 0
  | .join s => headScript s 0 ++ [onLevel 0 (word "await" :: call (h.continuationName s.id) [])]

theorem mem_gather_arm {α : Type} {g : List Lexeme → List α} (hg : g [word "pass"] = []) {x : α}
    (n : Nat) (ss : List Statement) : x ∈ gather g (armOf n ss) ↔ x ∈ gather g ss := by
  unfold armOf
  split
  · next he =>
    rw [List.isEmpty_iff.mp he]
    simp [onLevel, hg]
  · rfl

section

variable {α : Type} {g : List Lexeme → List α} {x : α}

mutual

theorem mem_gather_block (hg : g [word "pass"] = []) (h : Handler) : ∀ (b : Block) (n : Nat),
    x ∈ gather g (blockScript h b n) ↔ ∃ c ∈ blocksIn [b], x ∈ gather g (ownScript h c)
  | .trigger s, n | .unsupported s, n | .unreadable s _, n | .action s, n | .subject s, n
  | .join s, n => by
    simp [blockScript, blocksIn, visitsOf, Block.visits, ownScript, headScript, formulaScript,
      actionScript, onLevel]
  | .branch s yes no, n => by
    have hown : gather g (ownScript h (.branch s yes no)) =
        gather g (headScript s n ++ formulaScript (h.conditionVariable s) s.condition n ++
          [onLevel n (test "if" [word (h.conditionVariable s)]),
           onLevel n [word "else", mark ':']]) := rfl
    simp only [blocksIn_branch, List.exists_mem_cons_iff, or_and_right, exists_or, hown, blockScript,
      gather_append, gather_cons, gather_nil, List.mem_append, mem_gather_arm hg,
      mem_gather_blocks hg h yes, mem_gather_blocks hg h no, List.not_mem_nil,
      or_false, or_assoc, or_left_comm]
  | .select s arms other, n => by
    have hown : gather g (ownScript h (.select s arms other)) =
        gather g (headScript s n ++ formulaScript (h.subjectVariable s) s.subject n) ++
          (armTests (h.subjectVariable s) "if" arms).flatMap g ++
          gather g [onLevel n [word "else", mark ':']] := by
      rw [ownScript, gather_append, gather_append, gather_onLevel]
      rfl
    simp only [blocksIn_select, List.exists_mem_cons_iff, or_and_right, exists_or, hown, blockScript,
      gather_append, gather_cons, gather_nil, List.mem_append, mem_gather_arm hg,
      mem_gather_blocks hg h other, mem_gather_arms hg h _ _ arms, List.not_mem_nil,
      or_false, or_assoc, or_left_comm]
  | .loop s body, n => by
    have hown : gather g (ownScript h (.loop s body)) =
        gather g (headScript s n ++ loopHeadScript h s n ++ loopVariablesScript h s (n + 1)) := rfl
    simp only [blocksIn_loop, List.exists_mem_cons_iff, hown, blockScript, gather_append,
      List.mem_append, mem_gather_blocks hg h body]

theorem mem_gather_blocks (hg : g [word "pass"] = []) (h : Handler) : ∀ (bs : List Block) (n : Nat),
    x ∈ gather g (blocksScript h bs n) ↔ ∃ c ∈ blocksIn bs, x ∈ gather g (ownScript h c)
  | [], _ => by simp [blocksScript]
  | b :: rest, n => by
    rw [blocksIn_cons, blocksScript, gather_append, List.mem_append, mem_gather_block hg h b n,
      mem_gather_blocks hg h rest n]
    simp only [List.mem_append, or_and_right, exists_or]

theorem mem_gather_arms (hg : g [word "pass"] = []) (h : Handler) (target keyword : String) :
    ∀ (arms : List (String × List Block)) (n : Nat),
      x ∈ gather g (armsScript h target keyword arms n) ↔
        x ∈ (armTests target keyword arms).flatMap g ∨
          ∃ c ∈ arms.flatMap (fun a => blocksIn a.2), x ∈ gather g (ownScript h c)
  | [], _ => by simp [armsScript, armTests]
  | (value, body) :: rest, n => by
    simp only [armsScript, armTests, gather_append, gather_cons, List.mem_append, onLevel,
      mem_gather_arm hg, mem_gather_blocks hg h body, mem_gather_arms hg h target "elif" rest n,
      List.flatMap_cons, or_and_right, exists_or, or_assoc, or_left_comm]

end

end

/-! ## Handlers -/

/-- The statements that every `fetch` has, besides its secrets. -/
def frameParts : List (List Lexeme) :=
  [assign "workflow_id" (call "env.get" [text "\"WORKFLOW_ID\""] ++ word "or" :: call "new_id" []),
   assign "execution_id" (call "new_id" []),
   assign "logger" (call "Logger" [word "workflow_id", mark ',', word "execution_id"]),
   assign "context" (call "create_context" [word "workflow_id", mark ',', word "execution_id"]),
   [word "try", mark ':'],
   successParts,
   [word "except", word "Exception", word "as", word "error", mark ':'],
   call "logger.error" [text "\"Workflow execution failed\"", mark ',', word "error"],
   failureParts]

/-- What the statements of `fetch` come to: what every `fetch` has, its secrets, the heads of its
continuations, its guard, and the blocks that are written. -/
theorem mem_gather_fetch {α : Type} {g : List Lexeme → List α} (hg : g [word "pass"] = [])
    {p : Plan} {h : Handler} (hp : ofPlan p = .ok h) {x : α} :
    x ∈ gather g (fetchScript h 2) ↔
      x ∈ frameParts.flatMap g ∨ x ∈ gather g (secretsScript h.secrets 2) ∨
        (∃ c ∈ h.flow.continuations, x ∈ g (coroutineHead (h.continuationName c.join) [])) ∨
        x ∈ gather g (guardScript h.guard 3) ∨
        ∃ b ∈ h.flow.written, x ∈ gather g (ownScript h b) := by
  obtain ⟨-, -, -, -, hf, -⟩ := ofPlan_eq_ok hp
  have hcs : x ∈ gather g (h.flow.continuations.flatMap fun c => continuationScript h c 3) ↔
      (∃ c ∈ h.flow.continuations, x ∈ g (coroutineHead (h.continuationName c.join) [])) ∨
        ∃ c ∈ h.flow.continuations, ∃ b ∈ blocksIn c.body, x ∈ gather g (ownScript h b) := by
    simp only [gather_flatMap, List.mem_flatMap, continuationScript, gather_cons, List.mem_append,
      mem_gather_arm hg, mem_gather_blocks hg, onLevel, and_or_left, exists_or]
  have hwritten : (∃ b ∈ h.flow.written, x ∈ gather g (ownScript h b)) ↔
      (∃ b ∈ blocksIn h.flow.main, x ∈ gather g (ownScript h b)) ∨
        ∃ c ∈ h.flow.continuations, ∃ b ∈ blocksIn c.body, x ∈ gather g (ownScript h b) := by
    simp only [Flow.mem_written hf, or_and_right, exists_or]
    refine or_congr_right ⟨?_, ?_⟩
    · rintro ⟨b, ⟨c, hc, hb⟩, hx⟩
      exact ⟨c, hc, b, hb, hx⟩
    · rintro ⟨c, hc, b, hb, hx⟩
      exact ⟨b, ⟨c, hc, hb⟩, hx⟩
  simp only [fetchScript, mainScript, failureScript, frameParts, gather_append, gather_cons,
    gather_nil, gather_onLevel, List.flatMap_cons, List.flatMap_nil, List.mem_append, onLevel,
    hcs, hwritten, mem_gather_blocks hg, List.not_mem_nil, or_false]
  grind

/-- The head of `fetch`. -/
def fetchHead : Statement :=
  onLevel 1 (coroutineHead "fetch" [word "self", mark ',', word "request", mark ',', word "env",
    mark ',', word "ctx"])

theorem importsIn_append (a b : List Statement) :
    importsIn (a ++ b) = importsIn a ++ importsIn b := by
  rw [importsIn, List.filter_append, gather_append]
  rfl

theorem importsIn_onLevel (xss : List (List Lexeme)) :
    importsIn (xss.map (onLevel 0)) = xss.flatMap importsOf := by
  rw [importsIn, List.filter_eq_self.mpr (List.forall_mem_map.mpr fun _ _ => rfl), gather_onLevel]

theorem importsIn_indented {n : Nat} {ss : List Statement} (h : Suite (n + 1) ss) :
    importsIn ss = [] := by
  have hnone : ss.filter (fun s => s.indent = 0) = [] := by
    refine List.filter_eq_nil_iff.mpr fun s hs => ?_
    have := (h.levels s hs).2
    rw [decide_eq_true_iff]
    omega
  rw [importsIn, hnone]
  rfl

theorem importsOf_runtimeImport (helpers : List Helper) :
    importsOf (runtimeImport helpers) =
      helpers.map fun x => ⟨runtimeModule, x.name, x.name⟩ := by
  have hwords : wordsOf
      (mark '(' :: (helpers.flatMap (fun x => [word x.name, mark ',']) ++ [mark ')'])) =
        helpers.map (·.name) := by
    simp only [wordsOf]
    induction helpers with
    | nil => rfl
    | cons x rest ih => simpa using ih
  have hmembers : importsOf (runtimeImport helpers) =
      (wordsOf (mark '(' :: (helpers.flatMap (fun x => [word x.name, mark ',']) ++
        [mark ')']))).map fun name => ⟨runtimeModule, name, name⟩ := rfl
  rw [hmembers, hwords, List.map_map]
  rfl

/-- What a handler imports: functions of the runtime, the logger, and what executes each kind. -/
theorem importsIn_script (h : Handler) :
    importsIn (script h) = h.helpers.map (fun x => ⟨runtimeModule, x.name, x.name⟩) ++
      ⟨loggerModule, "Logger", "Logger"⟩ ::
        h.aliases.map fun e => ⟨nodeModule e.1, "execute", e.2⟩ := by
  have hkinds : (h.aliases.map fun e => kindImport e.1 e.2).flatMap importsOf =
      h.aliases.map fun e => ⟨nodeModule e.1, "execute", e.2⟩ := by
    rw [List.flatMap_map]
    exact List.map_eq_flatMap.symm
  have htop : importsIn (importsScript h 0) =
      h.helpers.map (fun x => ⟨runtimeModule, x.name, x.name⟩) ++
        ⟨loggerModule, "Logger", "Logger"⟩ ::
          h.aliases.map fun e => ⟨nodeModule e.1, "execute", e.2⟩ := by
    rw [importsScript, importsIn_onLevel, List.flatMap_cons, List.flatMap_cons, hkinds,
      importsOf_runtimeImport]
    rfl
  have hdoc : ∀ literal rest ss, importsIn (onLevel 0 (text literal :: rest) :: ss) = importsIn ss :=
    fun _ _ _ => rfl
  have hclass : ∀ a b ss, importsIn (onLevel 0 [word "class", word "WorkflowHandler", mark ':'] ::
      onLevel 1 a :: onLevel 1 b :: ss) = importsIn ss := fun _ _ _ => rfl
  rw [script, hdoc, importsIn_append, htop, hclass, importsIn_append,
    importsIn_indented (suite_fetch h)]
  exact List.append_nil _

/-- The coroutine `fetch` of a handler. -/
theorem coroutine_fetch (h : Handler) :
    coroutine "fetch" (script h) = fetchHead :: fetchScript h 2 := by
  have himports : ∀ s ∈ importsScript h 0, (!isHeadOf "fetch" s.parts) = true := by
    refine List.forall_mem_map.mpr (List.forall_mem_cons.mpr ⟨rfl, List.forall_mem_cons.mpr
      ⟨rfl, List.forall_mem_map.mpr fun _ _ => rfl⟩⟩)
  have hbody : ∀ s ∈ fetchScript h 2, decide (fetchHead.indent < s.indent) = true := by
    intro s hs
    have := ((suite_fetch h).levels s hs).2
    exact decide_eq_true (Nat.lt_of_lt_of_le (by decide) this)
  have hhead : (script h).dropWhile (fun s => !isHeadOf "fetch" s.parts) =
      fetchHead ::
        (fetchScript h 2 ++ [onLevel 0 (assign "default" (call "WorkflowHandler" []))]) := by
    rw [script, List.dropWhile_cons_of_pos rfl, List.dropWhile_append_of_pos himports]
    rfl
  rw [coroutine, hhead]
  dsimp only
  rw [List.takeWhile_append_of_pos hbody]
  exact congrArg (fetchHead :: ·) (List.append_nil _)

/-- What the dictionary of secrets calls. -/
theorem calls_secrets (secrets : List String) :
    gather callsOf (secretsScript secrets 2) = secrets.map fun _ => "env.get" := by
  have hentries : calls (secrets.flatMap secretEntry ++ [mark '\x7d']) =
      secrets.map fun _ => "env.get" := by
    induction secrets with
    | nil => rfl
    | cons secret rest ih =>
      have hhead : (rest.flatMap secretEntry ++ [mark '\x7d']).head? ≠ some (mark '(') := by
        cases rest <;> simp [secretEntry]
      have hentry : calls (secretEntry secret) = ["env.get"] := rfl
      rw [List.flatMap_cons, List.append_assoc, calls_append hhead, hentry, ih]
      rfl
  rw [← hentries]
  have hassign : gather callsOf (secretsScript secrets 2) =
      calls (mark '\x7b' :: (secrets.flatMap secretEntry ++ [mark '\x7d'])) := List.append_nil _
  rw [hassign, calls_mark]

/-- What is called in every handler. -/
def fixedCalls : List String :=
  ["env.get", "new_id", "Logger", "create_context", "create_json_response", "context.result",
   "logger.get_logs", "logger.error", "handle_error", "WorkflowHandler"]

/-- What a handler calls: what every handler calls, what its guard calls, and what its blocks
call. -/
theorem mem_calledIn_script {p : Plan} {h : Handler} (hp : ofPlan p = .ok h) {name : String} :
    name ∈ calledIn (script h) ↔ name ∈ fixedCalls ∨ name ∈ gather callsOf (guardScript h.guard 3) ∨
      ∃ b ∈ h.flow.written, name ∈ gather callsOf (ownScript h b) := by
  have hframe : frameParts.flatMap callsOf =
      ["env.get", "new_id", "new_id", "Logger", "create_context", "create_json_response",
       "context.result", "logger.get_logs", "logger.error", "create_json_response", "handle_error",
       "logger.get_logs"] := rfl
  have himports : gather callsOf (importsScript h 0) = [] := by
    rw [importsScript, gather_onLevel]
    refine List.flatMap_eq_nil_iff.mpr (List.forall_mem_cons.mpr ⟨rfl, List.forall_mem_cons.mpr
      ⟨rfl, List.forall_mem_map.mpr fun _ _ => rfl⟩⟩)
  have hall : calledIn (script h) = gather callsOf (importsScript h 0) ++
      (gather callsOf (fetchScript h 2) ++ ["WorkflowHandler"]) := by
    rw [calledIn, script, gather_cons, gather_append, gather_cons, gather_cons, gather_cons,
      gather_append]
    rfl
  have hheads : ∀ c : Continuation, callsOf (coroutineHead (h.continuationName c.join) []) = [] :=
    fun _ => rfl
  rw [hall, himports]
  simp only [List.nil_append, List.mem_append, mem_gather_fetch (g := callsOf) rfl hp, hframe,
    hheads, calls_secrets, List.mem_map, List.not_mem_nil, and_false, exists_false, false_or,
    fixedCalls, List.mem_cons, or_false]
  grind

/-- The names that `fetch` binds in every handler. -/
def fixedLocals : List String :=
  ["fetch", "self", "request", "env", "ctx", "workflow_id", "execution_id", "logger", "context",
   "error", "secrets"]

/-- What `fetch` binds: what it binds in every handler, its continuations, what its guard binds,
and what its blocks bind. -/
theorem mem_boundIn_fetch {p : Plan} {h : Handler} (hp : ofPlan p = .ok h) {name : String} :
    name ∈ gather boundBy (coroutine "fetch" (script h)) ↔
      name ∈ fixedLocals ∨ name ∈ h.flow.continuations.map (h.continuationName ·.join) ∨
        name ∈ gather boundBy (guardScript h.guard 3) ∨
        ∃ b ∈ h.flow.written, name ∈ gather boundBy (ownScript h b) := by
  have hframe : frameParts.flatMap boundBy =
      ["workflow_id", "execution_id", "logger", "context", "error"] := rfl
  have hhead : boundBy fetchHead.parts = ["fetch", "self", "request", "env", "ctx"] := rfl
  have hsecrets : gather boundBy (secretsScript h.secrets 2) = ["secrets"] := rfl
  have hheads : ∀ c : Continuation, boundBy (coroutineHead (h.continuationName c.join) []) =
      [h.continuationName c.join] := fun _ => rfl
  simp only [coroutine_fetch, gather_cons, List.mem_append, mem_gather_fetch (g := boundBy) rfl hp,
    hframe, hhead, hsecrets, hheads, List.mem_map, fixedLocals, List.mem_cons, List.not_mem_nil,
    or_false]
  grind

end Handler

end Workflow
