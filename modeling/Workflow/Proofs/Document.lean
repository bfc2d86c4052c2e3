/-
The statements of a handler (`script`), and that its text reads as these, whatever
the ids, the kinds, the secrets and the configurations of its plan hold
(`outline_code`).
-/
import Workflow.Proofs.Script

namespace Workflow.Handler

open Outline
open Text (quoted)
open Outline.Lexeme (word mark text)

/-! ## Handlers -/

/-- The import of the functions of the runtime. -/
def runtimeImport (helpers : List Helper) : List Lexeme :=
  [word "from", word runtimeModule, word "import", mark '('] ++
    helpers.flatMap (fun x => [word x.name, mark ',']) ++ [mark ')']

/-- The import of a kind's module under a name. -/
def kindImport (kind name : String) : List Lexeme :=
  [word "from", word (nodeModule kind), word "import", word "execute", word "as", word name]

/-- The imports. -/
def importsScript (h : Handler) (n : Nat) : List Statement :=
  (runtimeImport h.helpers :: [word "from", word loggerModule, word "import", word "Logger"] ::
    h.aliases.map fun e => kindImport e.1 e.2).map (onLevel n)

theorem shows_helper (x : Helper) : Shows (x.name ++ ",") [word x.name, mark ','] := by
  have hn : IsName x.name := by cases x <;> exact isName_fixed rfl rfl
  refine (((Begins.name hn).append (.mark (by decide) _)).first ?_ (List.cons_ne_nil _ _)).toShows
  simp [flush_name hn]

theorem produces_runtimeImport (helpers : List Helper) :
    Produces (fun w => ((w.write ("from " ++ runtimeModule ++ " import (")).indented
      (·.writeAll (helpers.map (·.name ++ ",")))).write ")")
      fun n => [onLevel n (runtimeImport helpers)] := by
  intro w
  have hr : IsName runtimeModule := isName_fixed rfl rfl
  have hfirst : Starts ("from " ++ runtimeModule ++ " import (")
      [word "from", word runtimeModule, word "import", mark '('] := by
    refine ((Begins.fixed ⟨rfl, rfl⟩ (by decide)).append (.name hr _)).append (.fixed ⟨rfl, rfl⟩)
      |>.first ?_ (List.cons_ne_nil _ _)
    simp [flush_name hr]
  have hclose : Begins ")" [mark ')'] (.code []) := .fixed ⟨rfl, rfl⟩ (by decide)
  have hitems : List.Forall₂ Shows (helpers.map (·.name ++ ","))
      (helpers.map fun x => [word x.name, mark ',']) := by
    rw [List.forall₂_map_left_iff, List.forall₂_map_right_iff]
    exact List.forall₂_same.mpr fun x _ => shows_helper x
  have hw := Writes.bracketed (w := w) hfirst rfl hitems (List.forall_mem_map.mpr fun _ _ => rfl)
    (hclose.first rfl (List.cons_ne_nil _ _)).toShows rfl (List.cons_ne_nil _ _)
  simpa [runtimeImport, List.flatMap] using hw

theorem produces_imports {h : Handler} (hn : Named h) :
    Produces (writeImports h) (importsScript h) := by
  have hlogger : OneLine ("from " ++ loggerModule ++ " import Logger")
      [word "from", word loggerModule, word "import", word "Logger"] := by
    have hl : IsName loggerModule := isName_fixed rfl rfl
    refine ((Begins.fixed ⟨rfl, rfl⟩ (by decide)).append (.name hl _)).append (.fixed ⟨rfl, rfl⟩)
      |>.line ?_ rfl (List.cons_ne_nil _ _)
    simp [flush_name hl]
  have hkind : ∀ e ∈ h.aliases, OneLine ("from " ++ nodeModule e.1 ++ " import execute as " ++ e.2)
      (kindImport e.1 e.2) := by
    intro e he
    have hm := isName_nodeModule e.1
    have ha := hn.kind e he
    refine (((Begins.fixed ⟨rfl, rfl⟩ (by decide)).append (.name hm _)).append
      (.fixed ⟨rfl, rfl⟩)).append (.name ha _) |>.line ?_ rfl (List.cons_ne_nil _ _)
    simp [kindImport, flush_name hm, flush_name ha]
  have hkinds : List.Forall₂ OneLine
      (h.aliases.map fun e => "from " ++ nodeModule e.1 ++ " import execute as " ++ e.2)
      (h.aliases.map fun e => kindImport e.1 e.2) := by
    rw [List.forall₂_map_left_iff, List.forall₂_map_right_iff]
    exact List.forall₂_same.mpr hkind
  have hall := (produces_runtimeImport h.helpers).comp (Produces.lines (.cons hlogger hkinds))
  exact hall

/-- An entry of the dictionary of secrets. -/
def secretEntry (name : String) : List Lexeme :=
  text (quoted name) :: mark ':' ::
    (call "env.get" [text (quoted ("SECRET_" ++ name))] ++ [mark ','])

/-- The dictionary of secrets. -/
def secretsScript (secrets : List String) (n : Nat) : List Statement :=
  [onLevel n (assign "secrets" (mark '\x7b' :: (secrets.flatMap secretEntry ++ [mark '\x7d'])))]

theorem shows_secret (name : String) :
    Shows (quoted name ++ ": env.get(" ++ quoted ("SECRET_" ++ name) ++ "),") (secretEntry name) := by
  refine ((((Begins.quoted name).append (.fixed ⟨rfl, rfl⟩)).append (.quoted _ _)).append
    (.fixed ⟨rfl, rfl⟩) |>.first ?_ (List.cons_ne_nil _ _)).toShows
  simp [call]

theorem produces_secrets (secrets : List String) :
    Produces (writeSecrets secrets) (secretsScript secrets) := by
  intro w
  unfold writeSecrets
  split
  · next he =>
    obtain rfl := List.isEmpty_iff.mp he
    have hline : OneLine "secrets = \x7b\x7d" (assign "secrets" [mark '\x7b', mark '\x7d']) :=
      oneLine_fixed ⟨rfl, rfl⟩ (by decide) rfl rfl (List.cons_ne_nil _ _)
    exact Writes.line hline
  · have hopen : Begins "secrets = \x7b" (assign "secrets" [mark '\x7b']) (.code []) :=
      .fixed ⟨rfl, rfl⟩ (by decide)
    have hclose : Begins "\x7d" [mark '\x7d'] (.code []) := .fixed ⟨rfl, rfl⟩ (by decide)
    have hitems : List.Forall₂ Shows
        (secrets.map fun name => quoted name ++ ": env.get(" ++ quoted ("SECRET_" ++ name) ++ "),")
        (secrets.map secretEntry) := by
      rw [List.forall₂_map_left_iff, List.forall₂_map_right_iff]
      exact List.forall₂_same.mpr fun name _ => shows_secret name
    have hw := Writes.bracketed (w := w) (hopen.first rfl (List.cons_ne_nil _ _)) rfl hitems
      (List.forall_mem_map.mpr fun _ _ => rfl) (hclose.first rfl (List.cons_ne_nil _ _)).toShows rfl
      (List.cons_ne_nil _ _)
    simpa [secretsScript, assign, List.flatMap] using hw

/-- The head of a coroutine. -/
def coroutineHead (name : String) (parameters : List Lexeme) : List Lexeme :=
  [word "async", word "def", word name, mark '('] ++ parameters ++ [mark ')', mark ':']

/-- The statements of a continuation, whose body is written apart. -/
def continuationScript (h : Handler) (c : Continuation) (n : Nat) : List Statement :=
  onLevel n (coroutineHead (h.continuationName c.join) []) :: armOf 4 (blocksScript h c.body 4)

theorem Produces.extend {other : Writer} {n : Nat} {ss : List Statement}
    (h : Writes { level := n } other ss) : Produces (·.extend other) fun _ => ss := fun _ => h.extend

theorem produces_continuation {h : Handler} (hn : Named h) {c : Continuation}
    (hw : Writable h c.body) :
    Produces (fun w => ((w.write ("async def " ++ continuationName h c.join ++ "():")).extend
      (continuationBody h c.body)).blank) (continuationScript h c) := by
  have hname := isName_continuation hn c.join
  have hline : OneLine ("async def " ++ continuationName h c.join ++ "():")
      (coroutineHead (h.continuationName c.join) []) := by
    refine ((Begins.fixed ⟨rfl, rfl⟩ (by decide)).append (.name hname _)).append (.fixed ⟨rfl, rfl⟩)
      |>.line ?_ rfl (List.cons_ne_nil _ _)
    simp [coroutineHead, flush_name hname]
  have hbody : Writes { level := 4 } (continuationBody h c.body) (armOf 4 (blocksScript h c.body 4)) :=
    (produces_blocks hn c.body hw { level := 4 }).padded
  have hall := ((Produces.line hline).comp (Produces.extend hbody)).comp Produces.blank
  exact hall.congr fun n => by simp [continuationScript]

theorem produces_continuations {h : Handler} (hn : Named h)
    (hw : ∀ c ∈ h.flow.continuations, Writable h c.body) :
    Produces (writeContinuations h) fun n =>
      h.flow.continuations.flatMap fun c => continuationScript h c n := by
  unfold writeContinuations
  generalize h.flow.continuations = cs at hw
  induction cs with
  | nil => exact fun w => .refl w
  | cons c rest ih =>
    have hrest := ih fun d hd => hw d (List.mem_cons_of_mem _ hd)
    have hall := (produces_continuation hn (hw c List.mem_cons_self)).comp hrest
    exact hall

/-- The statements of the guard and the flow. -/
def mainScript (h : Handler) : List Statement := guardScript h.guard 3 ++ blocksScript h h.flow.main 3

theorem writes_main {h : Handler} (hn : Named h) (hw : Writable h h.flow.main) :
    Writes { level := 3 } (mainBody h) (mainScript h) := by
  have hguard :=
    (Produces.comment ("Trigger: " ++ h.trigger.id ++ " (" ++ h.trigger.kind ++ ")")).comp
      (produces_guard h.guard)
  unfold mainBody mainScript
  cases hm : h.flow.main with
  | nil => simpa [blocksScript] using hguard { level := 3 }
  | cons b rest =>
    rw [hm] at hw
    have hflow := (Produces.blank.comp (Produces.comment "Workflow execution flow")).comp
      (produces_blocks hn (b :: rest) hw)
    have hall := hguard.comp hflow { level := 3 }
    exact hall

/-- The response after a run. -/
def successParts : List Lexeme :=
  word "return" :: call "create_json_response" (mark '\x7b' ::
    ([text "\"success\"", mark ':', word "True", mark ',', text "\"result\"", mark ':'] ++
      call "context.result" [] ++ [mark ',', text "\"logs\"", mark ':'] ++
      call "logger.get_logs" [] ++ [mark '\x7d', mark ',', word "200"]))

/-- The response after a failure. -/
def failureParts : List Lexeme :=
  word "return" :: call "create_json_response" (mark '\x7b' ::
    ([text "\"success\"", mark ':', word "False", mark ',', text "\"error\"", mark ':'] ++
      call "handle_error" [word "error", mark ',', word "context.current_step"] ++
      [mark ',', text "\"logs\"", mark ':'] ++ call "logger.get_logs" [] ++
      [mark ',', mark '\x7d', mark ',', word "500", mark ',']))

theorem shows_fixed {cs : List Char} {xs ys : List Lexeme} {word : List Char}
    (h : scan (.code []) cs = some (xs, .code word) ∧ cs.contains '\n' = false)
    (hys : xs ++ flush word = ys) : Shows (String.ofList cs) ys where
  lexemes := hys ▸ (Reads.fixed h).lexemes?
  single := ⟨(Reads.fixed h).noFeed, return_notMem (Reads.fixed h).scan_eq⟩

theorem produces_return {items : List String} {xss : List (List Lexeme)}
    (hitems : List.Forall₂ Shows items xss) (hs : Spans [')'] xss) :
    Produces (·.writeAll ("return create_json_response(" :: items)) fun n =>
      [onLevel n ([word "return", word "create_json_response", mark '('] ++ xss.flatten)] := by
  intro w
  have hfirst : Begins "return create_json_response("
      [word "return", word "create_json_response", mark '('] (.code []) :=
    .fixed ⟨rfl, rfl⟩ (by decide)
  exact (Adds.writeAll (w.write "return create_json_response(") items).writes_spans
    (hfirst.first rfl (List.cons_ne_nil _ _)) (forall₂_shows_lineOf hitems _) rfl hs

theorem produces_success :
    Produces (·.writeAll
      ["return create_json_response(",
       "    \x7b\"success\": True, \"result\": context.result(), \"logs\": logger.get_logs()\x7d, 200",
       ")"]) fun n => [onLevel n successParts] := by
  have hbody : Shows
      "    \x7b\"success\": True, \"result\": context.result(), \"logs\": logger.get_logs()\x7d, 200"
      (mark '\x7b' ::
        ([text "\"success\"", mark ':', word "True", mark ',', text "\"result\"", mark ':'] ++
          call "context.result" [] ++ [mark ',', text "\"logs\"", mark ':'] ++
          call "logger.get_logs" [] ++ [mark '\x7d', mark ',', word "200"])) :=
    shows_fixed ⟨rfl, rfl⟩ rfl
  have hlast : Shows ")" [mark ')'] := shows_fixed ⟨rfl, rfl⟩ rfl
  have hall := produces_return (.cons hbody (.cons hlast .nil))
    ⟨by decide, [')'], rfl, by decide, [], rfl, rfl⟩
  exact hall

/-- The answer to a failure. -/
def failureScript (n : Nat) : List Statement :=
  [call "logger.error" [text "\"Workflow execution failed\"", mark ',', word "error"],
   failureParts].map (onLevel n)

theorem produces_failure : Produces writeFailure failureScript := by
  have hlog : OneLine "logger.error(\"Workflow execution failed\", error)"
      (call "logger.error" [text "\"Workflow execution failed\"", mark ',', word "error"]) :=
    oneLine_fixed ⟨rfl, rfl⟩ (by decide) rfl rfl (List.cons_ne_nil _ _)
  have hitems : List.Forall₂ Shows
      ["    \x7b",
       "        \"success\": False,",
       "        \"error\": handle_error(error, context.current_step),",
       "        \"logs\": logger.get_logs(),",
       "    \x7d,",
       "    500,",
       ")"]
      [[mark '\x7b'], [text "\"success\"", mark ':', word "False", mark ','],
       [text "\"error\"", mark ':'] ++
        call "handle_error" [word "error", mark ',', word "context.current_step"] ++ [mark ','],
       [text "\"logs\"", mark ':'] ++ call "logger.get_logs" [] ++ [mark ','],
       [mark '\x7d', mark ','], [word "500", mark ','], [mark ')']] := by
    refine .cons ?_ (.cons ?_ (.cons ?_ (.cons ?_ (.cons ?_ (.cons ?_ (.cons ?_ .nil))))))
    all_goals exact shows_fixed ⟨rfl, rfl⟩ rfl
  have hinside : ['\x7d', ')'] ≠ [] := List.cons_ne_nil _ _
  have hreturn := produces_return hitems
    ⟨by decide, ['\x7d', ')'], rfl, hinside, ['\x7d', ')'], rfl, hinside, ['\x7d', ')'], rfl, hinside,
      ['\x7d', ')'], rfl, hinside, [')'], rfl, by decide, [')'], rfl, by decide, [], rfl, rfl⟩
  exact (hreturn.cons hlog).congr fun n => rfl

/-- The statements of `fetch`. -/
def fetchScript (h : Handler) (n : Nat) : List Statement :=
  [assign "workflow_id" (call "env.get" [text "\"WORKFLOW_ID\""] ++ word "or" :: call "new_id" []),
   assign "execution_id" (call "new_id" []),
   assign "logger" (call "Logger" [word "workflow_id", mark ',', word "execution_id"]),
   assign "context"
    (call "create_context" [word "workflow_id", mark ',', word "execution_id"])].map (onLevel n) ++
    secretsScript h.secrets n ++
    onLevel n [word "try", mark ':'] ::
      ((h.flow.continuations.flatMap fun c => continuationScript h c (n + 1)) ++ mainScript h ++
        [onLevel (n + 1) successParts]) ++
    onLevel n [word "except", word "Exception", word "as", word "error", mark ':'] ::
      failureScript (n + 1)

theorem produces_fetch {h : Handler} (hn : Named h) (hmain : Writable h h.flow.main)
    (hw : ∀ c ∈ h.flow.continuations, Writable h c.body) :
    Produces (writeFetch h) (fetchScript h) := by
  have hstart : List.Forall₂ OneLine
      ["workflow_id = env.get(\"WORKFLOW_ID\") or new_id()",
       "execution_id = new_id()",
       "logger = Logger(workflow_id, execution_id)",
       "context = create_context(workflow_id, execution_id)"]
      [assign "workflow_id" (call "env.get" [text "\"WORKFLOW_ID\""] ++ word "or" :: call "new_id" []),
       assign "execution_id" (call "new_id" []),
       assign "logger" (call "Logger" [word "workflow_id", mark ',', word "execution_id"]),
       assign "context"
        (call "create_context" [word "workflow_id", mark ',', word "execution_id"])] := by
    refine .cons ?_ (.cons ?_ (.cons ?_ (.cons ?_ .nil)))
    all_goals exact oneLine_fixed ⟨rfl, rfl⟩ (by decide) rfl rfl (List.cons_ne_nil _ _)
  have htry : OneLine "try:" [word "try", mark ':'] :=
    oneLine_fixed ⟨rfl, rfl⟩ (by decide) rfl rfl (List.cons_ne_nil _ _)
  have hexcept : OneLine "except Exception as error:"
      [word "except", word "Exception", word "as", word "error", mark ':'] :=
    oneLine_fixed ⟨rfl, rfl⟩ (by decide) rfl rfl (List.cons_ne_nil _ _)
  have hbody := (((produces_continuations hn hw).comp (Produces.extend (writes_main hn hmain))).comp
    Produces.blank).comp produces_success
  have htried := (((Produces.lines hstart).comp (produces_secrets h.secrets)).comp
    Produces.blank).comp ((Produces.line htry).comp hbody.indented)
  have hall := htried.comp ((Produces.line hexcept).comp produces_failure.indented)
  exact hall.congr fun n => by simp [fetchScript]

/-- The statements of a handler. -/
def script (h : Handler) : List Statement :=
  onLevel 0 [text "\"\"",
    text "\"Workflow request handler generated by flowsmith. Do not edit by hand.\"", text "\"\""] ::
    (importsScript h 0 ++
      onLevel 0 [word "class", word "WorkflowHandler", mark ':'] ::
      onLevel 1 [text "\"\"", text "\"Handles requests arriving through the workflow trigger.\"",
        text "\"\""] ::
      onLevel 1 (coroutineHead "fetch" [word "self", mark ',', word "request", mark ',', word "env",
        mark ',', word "ctx"]) ::
      (fetchScript h 2 ++ [onLevel 0 (assign "default" (call "WorkflowHandler" []))]))

/-- The lines of a handler read as its statements. -/
theorem document_writes {h : Handler} (hn : Named h) (hmain : Writable h h.flow.main)
    (hw : ∀ c ∈ h.flow.continuations, Writable h c.body) : Writes {} h.document h.script := by
  have hdoc : OneLine
      "\"\"\"Workflow request handler generated by flowsmith. Do not edit by hand.\"\"\""
      [text "\"\"", text "\"Workflow request handler generated by flowsmith. Do not edit by hand.\"",
        text "\"\""] :=
    oneLine_fixed ⟨rfl, rfl⟩ (by decide) rfl rfl (List.cons_ne_nil _ _)
  have hclass : OneLine "class WorkflowHandler:" [word "class", word "WorkflowHandler", mark ':'] :=
    oneLine_fixed ⟨rfl, rfl⟩ (by decide) rfl rfl (List.cons_ne_nil _ _)
  have hpurpose : OneLine "\"\"\"Handles requests arriving through the workflow trigger.\"\"\""
      [text "\"\"", text "\"Handles requests arriving through the workflow trigger.\"",
        text "\"\""] :=
    oneLine_fixed ⟨rfl, rfl⟩ (by decide) rfl rfl (List.cons_ne_nil _ _)
  have hfetch : OneLine "async def fetch(self, request, env, ctx):"
      (coroutineHead "fetch" [word "self", mark ',', word "request", mark ',', word "env",
        mark ',', word "ctx"]) :=
    oneLine_fixed ⟨rfl, rfl⟩ (by decide) rfl rfl (List.cons_ne_nil _ _)
  have hdefault : OneLine "default = WorkflowHandler()"
      (assign "default" (call "WorkflowHandler" [])) :=
    oneLine_fixed ⟨rfl, rfl⟩ (by decide) rfl rfl (List.cons_ne_nil _ _)
  have hinside := (((Produces.line hpurpose).comp Produces.blank).comp (Produces.line hfetch)).comp
    (produces_fetch hn hmain hw).indented
  have htop := ((((Produces.line hdoc).comp Produces.blank).comp (produces_imports hn)).comp
    Produces.blank).comp Produces.empty
  have hall := (((htop.comp ((Produces.line hclass).comp hinside.indented)).comp
    Produces.blank).comp Produces.empty).comp (Produces.line hdefault)
  exact (hall {}).congr (by simp [script])

/-! ## The text of a handler -/

theorem mem_usedKinds {written : List Block} {kind : String} :
    kind ∈ usedKinds written ↔ ∃ s, .action s ∈ written ∧ s.kind = kind := by
  simp only [usedKinds, List.mem_eraseDups, List.mem_filterMap]
  constructor
  · rintro ⟨b, hb, he⟩
    cases b <;> simp at he
    exact ⟨_, hb, he⟩
  · rintro ⟨s, hs, rfl⟩
    exact ⟨.action s, hs, rfl⟩

/-- The configurations of the actions that a handler executes are JSON. -/
def IsJson (h : Handler) : Prop := ∀ s, .action s ∈ h.flow.written → (Value.ofFields s.data).isJson

theorem isJson_ofPlan {p : Plan} {h : Handler} (hp : ofPlan p = .ok h) (hj : p.IsJson) :
    h.IsJson := by
  intro s hs
  obtain ⟨-, -, -, -, hf, -⟩ := ofPlan_eq_ok hp
  exact hj s (List.mem_of_find?_eq_some (Flow.step_of_written hf hs).1)

theorem writable_of_written {p : Plan} {h : Handler} (hp : ofPlan p = .ok h) (hj : h.IsJson)
    {bs : List Block} (hbs : ∀ b ∈ blocksIn bs, b ∈ h.flow.written) : Writable h bs := by
  intro s hs
  refine ⟨?_, hj s (hbs _ hs)⟩
  rw [kinds_eq hp]
  exact mem_usedKinds.mpr ⟨s, hbs _ hs, rfl⟩

theorem document_reads {p : Plan} {h : Handler} (hp : ofPlan p = .ok h) (hj : h.IsJson) :
    Writes {} h.document h.script := by
  obtain ⟨-, -, -, -, hf, -⟩ := ofPlan_eq_ok hp
  refine document_writes (named_ofPlan hp) ?_ fun c hc => ?_
  · exact writable_of_written hp hj fun b hb => (Flow.mem_written hf).mpr (.inl hb)
  · exact writable_of_written hp hj fun b hb => (Flow.mem_written hf).mpr (.inr ⟨c, hc, hb⟩)

/-- The lines of a handler's text are those of its document, and the text ends with a line end. -/
theorem linesOf_code {h : Handler} (hne : h.document.lines.toList ≠ [])
    (hs : ∀ line ∈ h.document.lines.toList, IsSingle line) :
    linesOf h.code.toList = h.document.lines.toList ++ [""] := by
  have htext : h.code.toList = ['\n'].intercalate
      ((h.document.lines.toList ++ [""]).map String.toList) := by
    rw [code, Writer.text, String.toList_append, String.toList_intercalate, List.map_append]
    generalize h.document.lines.toList = lines at hne
    induction lines with
    | nil => exact absurd rfl hne
    | cons line rest ih =>
      cases rest with
      | nil => simp
      | cons next rest =>
        have hrest := ih (List.cons_ne_nil _ _)
        simp only [List.map_cons, List.cons_append, List.intercalate_cons_cons] at hrest ⊢
        rw [List.append_assoc, hrest]
        simp
  have hfeed : ∀ l ∈ (h.document.lines.toList ++ [""]).map String.toList, '\n' ∉ l := by
    intro l hl
    obtain ⟨line, hline, rfl⟩ := List.mem_map.mp hl
    rcases List.mem_append.mp hline with hline | hline
    · exact (hs line hline).1
    · rw [List.mem_singleton.mp hline]
      simp
  rw [linesOf, htext, List.splitOn_intercalate '\n' hfeed (by simp), List.map_map]
  simp [Function.comp_def]

/-- The lines of a handler's text are the written ones, none of which holds a line end. -/
theorem lines_code {p : Plan} {h : Handler} (hp : ofPlan p = .ok h) (hj : h.IsJson) :
    linesOf h.code.toList = h.document.lines.toList ++ [""] ∧
      ∀ line ∈ h.document.lines.toList, IsSingle line := by
  obtain ⟨lines, hl, hss, hs⟩ := (document_reads hp hj).added
  have hl : h.document.lines.toList = lines := by simpa using hl
  subst hl
  have hne : h.document.lines.toList ≠ [] := by
    intro he
    rw [he] at hss
    simp [statements?, statementsFrom, script] at hss
  exact ⟨linesOf_code hne hs, hs⟩

/-- The text of a handler reads as its statements. -/
theorem outline_code {p : Plan} {h : Handler} (hp : ofPlan p = .ok h) (hj : h.IsJson) :
    outline? h.code = some h.script := by
  obtain ⟨lines, hl, hss, -⟩ := (document_reads hp hj).added
  have hl : h.document.lines.toList = lines := by simpa using hl
  subst hl
  rw [outline?, (lines_code hp hj).1, statements?_append hss (@statements?_free "" rfl),
    List.append_nil]

end Workflow.Handler
