/-
The statements of guards and of the nodes of a flow, and that what is written for
them reads as these.

An emission is a function on writers. `Produces` says which statements it adds on
every level, whatever has been written before, so that the emissions of a block
are put together as its statements are (`produces_blocks`).
-/
import Workflow.Proofs.Identifiers

namespace Workflow.Handler

open Outline
open Text (quoted)
open Outline.Lexeme (word mark text)

/-! ## Parts of statements -/

/-- A call. -/
def call (function : String) (arguments : List Lexeme) : List Lexeme :=
  word function :: mark '(' :: (arguments ++ [mark ')'])

/-- An assignment to a name. -/
def assign (target : String) (value : List Lexeme) : List Lexeme :=
  word target :: mark '=' :: value

/-- An assignment to a variable of the context, whose name is given as a literal. -/
def assignVariable (name : String) (value : List Lexeme) : List Lexeme :=
  word "context.variables" :: mark '[' :: text name :: mark ']' :: mark '=' :: value

/-- A test with a keyword. -/
def test (keyword : String) (condition : List Lexeme) : List Lexeme :=
  word keyword :: (condition ++ [mark ':'])

/-- The evaluation of a formula. -/
def evaluation (formula : String) : List Lexeme :=
  call "evaluate_expression" [text (quoted formula), mark ',', word "context"]

/-- The response that turns a request away. -/
def refusalParts (r : Refusal) : List Lexeme :=
  word "return" :: call "create_error_response"
    ([text (quoted r.code), mark ',', text (quoted r.message), mark ',',
      word (Number.natText r.status), mark ','] ++ call "logger.get_logs" [])

theorem oneLine_refusal (r : Refusal) :
    OneLine ("return create_error_response(" ++ quoted r.code ++ ", " ++ quoted r.message ++ ", " ++
      Number.natText r.status ++ ", logger.get_logs())") (refusalParts r) := by
  have hn := isName_natText r.status
  refine ((((((Begins.fixed ⟨rfl, rfl⟩ (by decide)).append (.quoted _ _)).append
    (.fixed ⟨rfl, rfl⟩)).append (.quoted _ _)).append (.fixed ⟨rfl, rfl⟩)).append
    (.name hn _)).append (.fixed ⟨rfl, rfl⟩) |>.line ?_ rfl (List.cons_ne_nil _ _)
  simp [refusalParts, call, flush_name hn]

/-! ## What an emission produces -/

/-- Whatever has been written, an emission adds lines that read as the given statements of the level
that it is made on. -/
def Produces (emit : Writer → Writer) (ss : Nat → List Statement) : Prop :=
  ∀ w, Writes w (emit w) (ss w.level)

namespace Produces

variable {emit emit' : Writer → Writer} {ss ts : Nat → List Statement}

theorem comp (h : Produces emit ss) (h' : Produces emit' ts) :
    Produces (fun w => emit' (emit w)) fun n => ss n ++ ts n := by
  intro w
  have hlast := h' (emit w)
  rw [(h w).level] at hlast
  exact (h w).trans hlast

theorem congr (h : Produces emit ss) (he : ∀ n, ss n = ts n) : Produces emit ts := fun w =>
  he _ ▸ h w

theorem line {t : String} {xs : List Lexeme} (h : OneLine t xs) :
    Produces (·.write t) fun n => [onLevel n xs] := fun _ => .line h

theorem lines {texts : List String} {xss : List (List Lexeme)}
    (h : List.Forall₂ OneLine texts xss) :
    Produces (·.writeAll texts) fun n => xss.map (onLevel n) := fun _ => .lines h

theorem cons {t : String} {xs : List Lexeme} {rest : List String}
    (h : Produces (·.writeAll rest) ss) (ht : OneLine t xs) :
    Produces (·.writeAll (t :: rest)) fun n => onLevel n xs :: ss n := by
  have hall := (Produces.line ht).comp h
  exact hall

theorem indented (h : Produces emit ss) : Produces (·.indented emit) fun n => ss (n + 1) :=
  fun w => .indented (h w.push)

theorem arm (h : Produces emit ss) : Produces (writeArm emit) fun n => armOf (n + 1) (ss (n + 1)) :=
  fun w => .arm (h w.push)

theorem blank : Produces Writer.blank fun _ => [] := fun w => .blank w

theorem comment (text : String) : Produces (·.comment text) fun _ => [] := fun w => .comment w text

theorem empty : Produces (·.write "") fun _ => [] := fun w => .empty w

end Produces

/-! ## Refusals and demands -/

theorem oneLine_fixed {c : Char} {cs : List Char} {xs : List Lexeme} {word : List Char}
    (h : scan (.code []) (c :: cs) = some (xs, .code word) ∧ (c :: cs).contains '\n' = false)
    (hc : c ≠ ' ') {ys : List Lexeme} (hys : xs ++ flush word = ys)
    (hclosed : brackets [] (marks ys) = some []) (hne : ys ≠ []) :
    OneLine (String.ofList (c :: cs)) ys :=
  (Begins.fixed h hc).line hys hclosed hne

theorem produces_refusal (r : Refusal) :
    Produces (writeRefusal r) fun n => [onLevel n (refusalParts r)] :=
  fun _ => .line (oneLine_refusal r)

/-- A demand, and the response to a request that does not meet it. -/
def demandScript (unmet : List Lexeme) (r : Refusal) (n : Nat) : List Statement :=
  [onLevel n (test "if" unmet), onLevel (n + 1) (refusalParts r)]

theorem produces_demand {t : String} {unmet : List Lexeme} (h : OneLine t (test "if" unmet))
    (r : Refusal) :
    Produces (fun w => (w.write t).indented (writeRefusal r)) (demandScript unmet r) := by
  have hd := (Produces.line h).comp (produces_refusal r).indented
  exact hd

/-- The demand for a bearer token. -/
def tokenScript : Nat → List Statement :=
  demandScript (call "bearer_token" [word "request"] ++ [word "is", word "None"]) .noToken

theorem produces_token : Produces writeTokenDemand tokenScript := by
  have h : OneLine "if bearer_token(request) is None:"
      (test "if" (call "bearer_token" [word "request"] ++ [word "is", word "None"])) :=
    oneLine_fixed ⟨rfl, rfl⟩ (by decide) rfl rfl (List.cons_ne_nil _ _)
  exact produces_demand h .noToken

/-- The demand for a signature. -/
def signatureScript (secret : String) (n : Nat) : List Statement :=
  onLevel n (assign "signing_secret" (call "env.get" [text (quoted ("SECRET_" ++ secret))])) ::
    (demandScript [word "not", word "signing_secret"] .noSecret n ++
      demandScript (word "not" :: call "verify_signature"
        ([word "signing_secret", mark ',', word "request.body", mark ','] ++
          call "request.header" [text "\"x-webhook-signature\""])) .badSignature n)

theorem produces_signature (secret : String) :
    Produces (writeSignatureDemand secret) (signatureScript secret) := by
  have hsecret : OneLine ("signing_secret = env.get(" ++ quoted ("SECRET_" ++ secret) ++ ")")
      (assign "signing_secret" (call "env.get" [text (quoted ("SECRET_" ++ secret))])) :=
    ((Begins.fixed ⟨rfl, rfl⟩ (by decide)).append (.quoted _ _)).append (.fixed ⟨rfl, rfl⟩) |>.line
      rfl rfl (List.cons_ne_nil _ _)
  have hknown : OneLine "if not signing_secret:"
      (test "if" [word "not", word "signing_secret"]) :=
    oneLine_fixed ⟨rfl, rfl⟩ (by decide) rfl rfl (List.cons_ne_nil _ _)
  have hverified : OneLine ("if not verify_signature(signing_secret, request.body, " ++
        "request.header(\"x-webhook-signature\")):")
      (test "if" (word "not" :: call "verify_signature"
        ([word "signing_secret", mark ',', word "request.body", mark ','] ++
          call "request.header" [text "\"x-webhook-signature\""]))) :=
    ((Begins.fixed ⟨rfl, rfl⟩ (by decide)).append (.fixed ⟨rfl, rfl⟩)).line rfl rfl
      (List.cons_ne_nil _ _)
  have h := ((Produces.line hsecret).comp (produces_demand hknown .noSecret)).comp
    (produces_demand hverified .badSignature)
  exact h

/-- What a webhook takes from a request. -/
def webhookInputScript (n : Nat) : List Statement :=
  [assignVariable "\"input\"" (call "read_body" [word "request"]),
   assignVariable "\"headers\"" (call "dict" [word "request.headers"]),
   assignVariable "\"query\"" (call "dict" [word "request.query"]),
   assignVariable "\"method\"" [word "request.method"]].map (onLevel n)

theorem produces_webhookInput : Produces writeWebhookInput webhookInputScript := by
  refine Produces.lines (.cons ?_ (.cons ?_ (.cons ?_ (.cons ?_ .nil))))
  all_goals exact oneLine_fixed ⟨rfl, rfl⟩ (by decide) rfl rfl (List.cons_ne_nil _ _)

/-- What a webhook demands besides the method, and what it takes from a request. -/
def accessScript : Access → Nat → List Statement
  | .open, n => webhookInputScript n
  | .token, n => tokenScript n ++ webhookInputScript n
  | .signature secret, n => signatureScript secret n ++ webhookInputScript n
  | .misconfigured, n => [onLevel n (refusalParts .noSecret)]

theorem produces_access (access : Access) : Produces (writeAccess access) (accessScript access) := by
  cases access with
  | «open» => exact produces_webhookInput
  | token =>
    have h := produces_token.comp produces_webhookInput
    exact h
  | signature secret =>
    have h := (produces_signature secret).comp produces_webhookInput
    exact h
  | misconfigured => exact produces_refusal .noSecret

/-! ## Guards -/

/-- The items of a list, with commas between them. -/
def itemParts : List String → List Lexeme
  | [] => []
  | [item] => [text (quoted item)]
  | item :: rest => text (quoted item) :: mark ',' :: itemParts rest

theorem reads_items (items : List String) :
    Reads (.code []) (", ".intercalate (items.map quoted)) (itemParts items) (.code []) := by
  induction items with
  | nil => exact ⟨rfl, by simp⟩
  | cons item rest ih =>
    cases rest with
    | nil => simpa [itemParts] using Reads.quoted item []
    | cons next rest =>
      have hcomma : Reads (.code []) ", " [mark ','] (.code []) := .fixed ⟨rfl, rfl⟩
      rw [List.map_cons, List.map_cons, String.intercalate_cons_cons, ← List.map_cons]
      exact ((Reads.quoted item []).append hcomma).append ih

theorem literal_texts (items : List String) :
    (Value.list (items.map .str)).literal = "[" ++ ", ".intercalate (items.map quoted) ++ "]" := by
  have hl : Value.literals (items.map .str) = items.map quoted := by
    induction items with
    | nil => rfl
    | cons item rest ih => rw [List.map_cons, Value.literals, ih, Value.literal, List.map_cons]
  rw [Value.literal, hl]

/-- What a scheduled run takes from a request. -/
def cronInputScript (schedule : String) (n : Nat) : List Statement :=
  [assignVariable "\"input\"" (call "parse_json_body" [word "request"]),
   assignVariable "\"scheduledAt\"" (call "now_iso" []),
   assignVariable "\"schedule\"" [text (quoted schedule)]].map (onLevel n)

/-- The condition of a scheduled run. -/
def cronConditionScript (condition : String) (n : Nat) : List Statement :=
  [onLevel n (test "if" (word "not" :: evaluation condition)),
   onLevel (n + 1) (call "logger.info" [text "\"Cron condition is false, skipping run\""]),
   onLevel (n + 1) (word "return" :: call "create_empty_response" [word "204"])]

/-- What a handler demands of a request, and what it takes from it. -/
def guardScript : Guard → Nat → List Statement
  | .manual, n => tokenScript n ++
      [assignVariable "\"input\"" (call "parse_json_body" [word "request"]),
       assignVariable "\"triggeredAt\"" (call "now_iso" [])].map (onLevel n)
  | .webhook methods access, n =>
    demandScript
      ([word "request.method", word "not", word "in", mark '['] ++ itemParts methods ++ [mark ']'])
      .method n ++ accessScript access n
  | .cron schedule condition, n =>
    demandScript [word "request.method", mark '!', mark '=', text (quoted cronMethod), word "or",
      word "request.path", mark '!', mark '=', text (quoted cronPath)] .notFound n ++
      cronInputScript schedule n ++ match condition with
        | some formula => cronConditionScript formula n
        | none => []

theorem produces_cronInput (schedule : String) :
    Produces (·.writeAll
      ["context.variables[\"input\"] = parse_json_body(request)",
       "context.variables[\"scheduledAt\"] = now_iso()",
       "context.variables[\"schedule\"] = " ++ quoted schedule]) (cronInputScript schedule) := by
  refine Produces.lines (.cons ?_ (.cons ?_ (.cons ?_ .nil)))
  · exact oneLine_fixed ⟨rfl, rfl⟩ (by decide) rfl rfl (List.cons_ne_nil _ _)
  · exact oneLine_fixed ⟨rfl, rfl⟩ (by decide) rfl rfl (List.cons_ne_nil _ _)
  · exact ((Begins.fixed ⟨rfl, rfl⟩ (by decide)).append (.quoted _ _)).line rfl rfl
      (List.cons_ne_nil _ _)

theorem produces_cronCondition (condition : String) :
    Produces (fun w =>
      (w.write ("if not evaluate_expression(" ++ quoted condition ++ ", context):")).indented fun w =>
        w.writeAll
          ["logger.info(\"Cron condition is false, skipping run\")",
           "return create_empty_response(204)"]) (cronConditionScript condition) := by
  have htest : OneLine ("if not evaluate_expression(" ++ quoted condition ++ ", context):")
      (test "if" (word "not" :: evaluation condition)) :=
    ((Begins.fixed ⟨rfl, rfl⟩ (by decide)).append (.quoted _ _)).append (.fixed ⟨rfl, rfl⟩) |>.line
      rfl rfl (List.cons_ne_nil _ _)
  have hbody : List.Forall₂ OneLine
      ["logger.info(\"Cron condition is false, skipping run\")", "return create_empty_response(204)"]
      [call "logger.info" [text "\"Cron condition is false, skipping run\""],
       word "return" :: call "create_empty_response" [word "204"]] := by
    refine .cons ?_ (.cons ?_ .nil)
    all_goals exact oneLine_fixed ⟨rfl, rfl⟩ (by decide) rfl rfl (List.cons_ne_nil _ _)
  have h := (Produces.line htest).comp (Produces.lines hbody).indented
  exact h

theorem brackets_items (items : List String) (awaited : List Char) :
    brackets awaited (marks (itemParts items)) = some awaited := by
  induction items with
  | nil => rfl
  | cons item rest ih =>
    cases rest with
    | nil => rfl
    | cons next rest => exact ih

theorem oneLine_methods (methods : List String) :
    OneLine ("if request.method not in " ++ (Value.list (methods.map .str)).literal ++ ":")
      (test "if" ([word "request.method", word "not", word "in", mark '['] ++ itemParts methods ++
        [mark ']'])) := by
  have hlist : Reads (.code []) (Value.list (methods.map .str)).literal
      (mark '[' :: (itemParts methods ++ [mark ']'])) (.code []) := by
    have hopen : Reads (.code []) "[" [mark '['] (.code []) := .fixed ⟨rfl, rfl⟩
    have hclose : Reads (.code []) "]" [mark ']'] (.code []) := .fixed ⟨rfl, rfl⟩
    rw [literal_texts]
    exact (hopen.append (reads_items methods)).append hclose
  refine ((Begins.fixed ⟨rfl, rfl⟩ (by decide)).append hlist).append (.fixed ⟨rfl, rfl⟩) |>.line
    ?_ ?_ (List.cons_ne_nil _ _)
  · simp [test]
  · have hopen : ∀ ms, brackets [] ('[' :: ms) = brackets [']'] ms := fun _ => rfl
    simp only [test, marks_word, marks_mark, marks_append, marks_nil, List.cons_append,
      List.nil_append, List.append_assoc, hopen, brackets_append, brackets_items, Option.bind_some]
    rfl

theorem produces_guard (guard : Guard) : Produces (writeGuard guard) (guardScript guard) := by
  cases guard with
  | manual =>
    have hinput : List.Forall₂ OneLine
        ["context.variables[\"input\"] = parse_json_body(request)",
         "context.variables[\"triggeredAt\"] = now_iso()"]
        [assignVariable "\"input\"" (call "parse_json_body" [word "request"]),
         assignVariable "\"triggeredAt\"" (call "now_iso" [])] := by
      refine .cons ?_ (.cons ?_ .nil)
      all_goals exact oneLine_fixed ⟨rfl, rfl⟩ (by decide) rfl rfl (List.cons_ne_nil _ _)
    have h := produces_token.comp (Produces.lines hinput)
    exact h
  | webhook methods access =>
    have h := (produces_demand (oneLine_methods methods) .method).comp (produces_access access)
    exact h
  | cron schedule condition =>
    have hplace : OneLine ("if request.method != " ++ quoted cronMethod ++ " or request.path != " ++
          quoted cronPath ++ ":")
        (test "if" [word "request.method", mark '!', mark '=', text (quoted cronMethod), word "or",
          word "request.path", mark '!', mark '=', text (quoted cronPath)]) :=
      ((((Begins.fixed ⟨rfl, rfl⟩ (by decide)).append (.quoted _ _)).append
        (.fixed ⟨rfl, rfl⟩)).append (.quoted _ _)).append (.fixed ⟨rfl, rfl⟩) |>.line rfl rfl
        (List.cons_ne_nil _ _)
    have h := (produces_demand hplace .notFound).comp (produces_cronInput schedule)
    cases condition with
    | none =>
      refine Produces.congr h fun n => ?_
      simp [guardScript]
    | some condition =>
      have h := h.comp (produces_cronCondition condition)
      exact h

/-! ## Nodes -/

/-- What precedes every node. -/
def headScript (s : Step) (n : Nat) : List Statement :=
  [onLevel n (call "logger.info" [text (quoted ("Executing node " ++ s.id))])]

theorem oneLine_info (message : String) :
    OneLine ("logger.info(" ++ quoted message ++ ")") (call "logger.info" [text (quoted message)]) :=
  ((Begins.fixed ⟨rfl, rfl⟩ (by decide)).append (.quoted _ _)).append (.fixed ⟨rfl, rfl⟩) |>.line
    rfl rfl (List.cons_ne_nil _ _)

theorem produces_head (s : Step) : Produces (writeNodeHead s) (headScript s) := by
  have h := (Produces.blank.comp (Produces.comment ("Node: " ++ s.id ++ " (" ++ s.kind ++ ")"))).comp
    (Produces.line (oneLine_info ("Executing node " ++ s.id)))
  exact h

/-- The evaluation of a formula for a variable. -/
def formulaScript (target formula : String) (n : Nat) : List Statement :=
  [onLevel n (assign target (evaluation formula))]

theorem produces_formula {target : String} (ht : IsName target) (formula : String) :
    Produces (writeFormula target formula) (formulaScript target formula) := by
  have hline : OneLine (target ++ " = evaluate_expression(" ++ quoted formula ++ ", context)")
      (assign target (evaluation formula)) := by
    refine (((Begins.name ht).append (.fixed ⟨rfl, rfl⟩)).append (.quoted _ _)).append
      (.fixed ⟨rfl, rfl⟩) |>.line ?_ rfl (List.cons_ne_nil _ _)
    simp [assign, evaluation, call, flush_name ht]
  have h := Produces.line hline
  exact h

/-- The variable that holds the configuration of an action. -/
def propsVariable (h : Handler) (s : Step) : String := "props_" ++ h.variableOf s.id

/-- The variable that holds the result of an action. -/
def resultVariable (h : Handler) (s : Step) : String := "result_" ++ h.variableOf s.id

/-- The variable that holds the items of a loop. -/
def itemsVariable (h : Handler) (s : Step) : String := "items_" ++ h.variableOf s.id

/-- The variable that counts the items of a loop. -/
def indexVariable (h : Handler) (s : Step) : String := "index_" ++ h.variableOf s.id

section

variable {h : Handler} (hn : Named h)

include hn

theorem isName_props (s : Step) : IsName (h.propsVariable s) :=
  (isName_fixed rfl rfl).append (hn.node s.id).2

theorem isName_result (s : Step) : IsName (h.resultVariable s) :=
  (isName_fixed rfl rfl).append (hn.node s.id).2

theorem isName_items (s : Step) : IsName (h.itemsVariable s) :=
  (isName_fixed rfl rfl).append (hn.node s.id).2

theorem isName_index (s : Step) : IsName (h.indexVariable s) :=
  (isName_fixed rfl rfl).append (hn.node s.id).2

theorem isName_condition (s : Step) : IsName (h.conditionVariable s) :=
  (isName_fixed rfl rfl).append (hn.node s.id).2

theorem isName_subject (s : Step) : IsName (h.subjectVariable s) :=
  (isName_fixed rfl rfl).append (hn.node s.id).2

theorem isName_continuation (join : String) : IsName (h.continuationName join) :=
  (isName_fixed rfl rfl).append (hn.node join).2

end

/-- The configuration of an action as it is written. -/
def configParts (s : Step) : List Lexeme :=
  if isDynamic s then
    call "interpolate_config" (literalParts s.data ++ [mark ',', word "context"])
  else literalParts s.data

/-- The call of an action. -/
def actionCall (h : Handler) (s : Step) : List Lexeme :=
  word "await" :: call (h.aliasOf s.kind) [word (h.propsVariable s), mark ',', word "secrets"]

/-- The execution of an action. -/
def actionScript (h : Handler) (s : Step) (n : Nat) : List Statement :=
  [assign "context.current_step" [text (quoted s.id)],
   assign (h.propsVariable s) (configParts s),
   assign (h.resultVariable s) (actionCall h s),
   call "context.set_result" [text (quoted s.id), mark ',', word (h.resultVariable s)],
   call "logger.info" [text (quoted ("Node " ++ s.id ++ " completed"))]].map (onLevel n)

theorem produces_config {h : Handler} (hn : Named h) {s : Step}
    (hj : (Value.ofFields s.data).isJson) :
    Produces (fun w =>
        if isDynamic s then
          writeLiteral (h.propsVariable s ++ " = interpolate_config(") (literalLines s.data)
            ", context)" w
        else writeLiteral (h.propsVariable s ++ " = ") (literalLines s.data) "" w)
      fun n => [onLevel n (assign (h.propsVariable s) (configParts s))] := by
  intro w
  have hp := isName_props hn s
  unfold configParts
  split
  · have hbefore : Begins (h.propsVariable s ++ " = interpolate_config(")
        [word (h.propsVariable s), mark '=', word "interpolate_config", mark '('] (.code []) := by
      have hfixed : Reads (.code (h.propsVariable s).toList) " = interpolate_config("
          (flush (h.propsVariable s).toList ++ [mark '=', word "interpolate_config", mark '('])
          (.code []) := .fixed ⟨rfl, rfl⟩
      simpa [flush_name hp] using (Begins.name hp).append hfixed
    have hafter : Reads (.code []) ", context)" [mark ',', word "context", mark ')'] (.code []) :=
      .fixed ⟨rfl, rfl⟩
    have hw := Writes.literal (w := w) hj hbefore (List.cons_ne_nil _ _) rfl hafter rfl
    simpa [assign, call] using hw
  · have hbefore : Begins (h.propsVariable s ++ " = ") [word (h.propsVariable s), mark '=']
        (.code []) := by
      have hfixed : Reads (.code (h.propsVariable s).toList) " = "
          (flush (h.propsVariable s).toList ++ [mark '=']) (.code []) := .fixed ⟨rfl, rfl⟩
      simpa [flush_name hp] using (Begins.name hp).append hfixed
    have hafter : Reads (.code []) "" [] (.code []) := ⟨rfl, by simp⟩
    have hw := Writes.literal (w := w) hj hbefore (List.cons_ne_nil _ _) rfl hafter rfl
    simpa [assign] using hw

theorem produces_action {h : Handler} (hn : Named h) {s : Step} (hk : s.kind ∈ h.kinds)
    (hj : (Value.ofFields s.data).isJson) : Produces (writeAction h s) (actionScript h s) := by
  have hp := isName_props hn s
  have hr := isName_result hn s
  have ha := hn.alias hk
  have hstep : OneLine ("context.current_step = " ++ quoted s.id)
      (assign "context.current_step" [text (quoted s.id)]) :=
    ((Begins.fixed ⟨rfl, rfl⟩ (by decide)).append (.quoted _ _)).line rfl rfl (List.cons_ne_nil _ _)
  have hrest : List.Forall₂ OneLine
      [h.resultVariable s ++ " = await " ++ h.aliasOf s.kind ++ "(" ++ h.propsVariable s ++
         ", secrets)",
       "context.set_result(" ++ quoted s.id ++ ", " ++ h.resultVariable s ++ ")",
       "logger.info(" ++ quoted ("Node " ++ s.id ++ " completed") ++ ")"]
      [assign (h.resultVariable s) (actionCall h s),
       call "context.set_result" [text (quoted s.id), mark ',', word (h.resultVariable s)],
       call "logger.info" [text (quoted ("Node " ++ s.id ++ " completed"))]] := by
    refine .cons ?_ (.cons ?_ (.cons (oneLine_info _) .nil))
    · refine (((((Begins.name hr).append (.fixed ⟨rfl, rfl⟩)).append (.name ha _)).append
        (.fixed ⟨rfl, rfl⟩)).append (.name hp _)).append (.fixed ⟨rfl, rfl⟩) |>.line ?_ rfl
        (List.cons_ne_nil _ _)
      simp [assign, actionCall, call, flush_name hr, flush_name ha, flush_name hp]
    · refine ((((Begins.fixed ⟨rfl, rfl⟩ (by decide)).append (.quoted _ _)).append
        (.fixed ⟨rfl, rfl⟩)).append (.name hr _)).append (.fixed ⟨rfl, rfl⟩) |>.line ?_ rfl
        (List.cons_ne_nil _ _)
      simp [call, flush_name hr]
  have hall := ((Produces.line hstep).comp (produces_config hn hj)).comp (Produces.lines hrest)
  exact hall

/-- What a loop takes at once: one item, or as many as it takes at once. -/
def takenParts (h : Handler) (s : Step) : List Lexeme :=
  if s.batchSize = 1 then
    [word (h.itemsVariable s), mark '[', word (h.indexVariable s), mark ']']
  else
    [word (h.itemsVariable s), mark '[', word (h.indexVariable s), mark ':',
     word (h.indexVariable s), mark '+', word (Number.natText s.batchSize), mark ']']

/-- The items of a loop, and its head. -/
def loopHeadScript (h : Handler) (s : Step) (n : Nat) : List Statement :=
  [assign (h.itemsVariable s)
    (call "list" (evaluation s.iterator ++ [word "or", mark '[', mark ']'])),
   word "for" :: word (h.indexVariable s) :: word "in" ::
    (call "range" ([word "0", mark ','] ++ call "len" [word (h.itemsVariable s)] ++
      [mark ',', word (Number.natText s.batchSize)]) ++ [mark ':'])].map (onLevel n)

/-- The variables that a loop binds. -/
def loopVariablesScript (h : Handler) (s : Step) (n : Nat) : List Statement :=
  [assignVariable (quoted s.itemVariable) (takenParts h s),
   assignVariable (quoted (s.itemVariable ++ "Index")) [word (h.indexVariable s)]].map (onLevel n)

theorem produces_loopHead {h : Handler} (hn : Named h) (s : Step) :
    Produces (·.writeAll
      [h.itemsVariable s ++ " = list(evaluate_expression(" ++ quoted s.iterator ++
         ", context) or [])",
       "for " ++ h.indexVariable s ++ " in range(0, len(" ++ h.itemsVariable s ++ "), " ++
         Number.natText s.batchSize ++ "):"]) (loopHeadScript h s) := by
  have hitems := isName_items hn s
  have hindex := isName_index hn s
  have hbatch := isName_natText s.batchSize
  refine Produces.lines (.cons ?_ (.cons ?_ .nil))
  · refine (((Begins.name hitems).append (.fixed ⟨rfl, rfl⟩)).append (.quoted _ _)).append
      (.fixed ⟨rfl, rfl⟩) |>.line ?_ rfl (List.cons_ne_nil _ _)
    simp [assign, call, evaluation, flush_name hitems]
  · refine ((((((Begins.fixed ⟨rfl, rfl⟩ (by decide)).append (.name hindex _)).append
      (.fixed ⟨rfl, rfl⟩)).append (.name hitems _)).append (.fixed ⟨rfl, rfl⟩)).append
      (.name hbatch _)).append (.fixed ⟨rfl, rfl⟩) |>.line ?_ rfl (List.cons_ne_nil _ _)
    simp [call, flush_name hindex, flush_name hitems, flush_name hbatch]

theorem produces_loopVariables {h : Handler} (hn : Named h) (s : Step) :
    Produces (·.writeAll
      ["context.variables[" ++ quoted s.itemVariable ++ "] = " ++
         (if s.batchSize = 1 then h.itemsVariable s ++ "[" ++ h.indexVariable s ++ "]"
          else h.itemsVariable s ++ "[" ++ h.indexVariable s ++ ":" ++ h.indexVariable s ++ " + " ++
            Number.natText s.batchSize ++ "]"),
       "context.variables[" ++ quoted (s.itemVariable ++ "Index") ++ "] = " ++ h.indexVariable s])
      (loopVariablesScript h s) := by
  have hitems := isName_items hn s
  have hindex := isName_index hn s
  have hbatch := isName_natText s.batchSize
  have htaken : Reads (.code [])
      (if s.batchSize = 1 then h.itemsVariable s ++ "[" ++ h.indexVariable s ++ "]"
        else h.itemsVariable s ++ "[" ++ h.indexVariable s ++ ":" ++ h.indexVariable s ++ " + " ++
          Number.natText s.batchSize ++ "]") (takenParts h s) (.code []) := by
    have hopen : ∀ before, Reads (.code before) "[" (flush before ++ [mark '[']) (.code []) :=
      fun before => .mark (by decide) before
    have hclose : ∀ before, Reads (.code before) "]" (flush before ++ [mark ']']) (.code []) :=
      fun before => .mark (by decide) before
    have hcolon : ∀ before, Reads (.code before) ":" (flush before ++ [mark ':']) (.code []) :=
      fun before => .mark (by decide) before
    have hplus : ∀ before, Reads (.code before) " + " (flush before ++ [mark '+']) (.code []) :=
      fun _ => .fixed ⟨rfl, rfl⟩
    unfold takenParts
    split
    · have hr := ((((Begins.name hitems).append (hopen _)).append (.name hindex _)).append
        (hclose _)).toReads
      simpa [flush_name hitems, flush_name hindex] using hr
    · have hr := ((((((((Begins.name hitems).append (hopen _)).append (.name hindex _)).append
        (hcolon _)).append (.name hindex _)).append (hplus _)).append (.name hbatch _)).append
        (hclose _)).toReads
      simpa [flush_name hitems, flush_name hindex, flush_name hbatch] using hr
  refine Produces.lines (.cons ?_ (.cons ?_ .nil))
  · refine (((Begins.fixed ⟨rfl, rfl⟩ (by decide)).append (.quoted _ _)).append
      (.fixed ⟨rfl, rfl⟩)).append htaken |>.line ?_ ?_ (List.cons_ne_nil _ _)
    · simp [assignVariable]
    · unfold takenParts
      split <;> rfl
  · refine (((Begins.fixed ⟨rfl, rfl⟩ (by decide)).append (.quoted _ _)).append
      (.fixed ⟨rfl, rfl⟩)).append (.name hindex _) |>.line ?_ rfl (List.cons_ne_nil _ _)
    simp [assignVariable, flush_name hindex]

/-! ## Blocks -/

mutual

/-- The statements of a block. -/
def blockScript (h : Handler) : Block → Nat → List Statement
  | .trigger s, n | .unsupported s, n | .unreadable s _, n => headScript s n
  | .action s, n => headScript s n ++ actionScript h s n
  | .branch s yes no, n =>
    headScript s n ++ formulaScript (h.conditionVariable s) s.condition n ++
      (onLevel n (test "if" [word (h.conditionVariable s)]) ::
        armOf (n + 1) (blocksScript h yes (n + 1))) ++
      (onLevel n [word "else", mark ':'] :: armOf (n + 1) (blocksScript h no (n + 1)))
  | .subject s, n => headScript s n ++ formulaScript (h.subjectVariable s) s.subject n
  | .select s arms other, n =>
    headScript s n ++ formulaScript (h.subjectVariable s) s.subject n ++
      armsScript h (h.subjectVariable s) "if" arms n ++
      (onLevel n [word "else", mark ':'] :: armOf (n + 1) (blocksScript h other (n + 1)))
  | .loop s body, n =>
    headScript s n ++ loopHeadScript h s n ++ loopVariablesScript h s (n + 1) ++
      blocksScript h body (n + 1)
  | .join s, n =>
    headScript s n ++ [onLevel n (word "await" :: call (h.continuationName s.id) [])]
termination_by structural b => b

/-- The statements of a sequence of blocks. -/
def blocksScript (h : Handler) : List Block → Nat → List Statement
  | [], _ => []
  | b :: rest, n => blockScript h b n ++ blocksScript h rest n
termination_by structural bs => bs

/-- The statements of the arms of a selection, the first with the given keyword. -/
def armsScript (h : Handler) (target keyword : String) :
    List (String × List Block) → Nat → List Statement
  | [], _ => []
  | (value, body) :: rest, n =>
    onLevel n (test keyword
      (call "str" [word target] ++ [mark '=', mark '=', text (quoted value)])) ::
      armOf (n + 1) (blocksScript h body (n + 1)) ++ armsScript h target "elif" rest n
termination_by structural arms => arms

end

/-- The actions among blocks can be written: their kinds have names, and their configurations
literals. -/
def Writable (h : Handler) (bs : List Block) : Prop :=
  ∀ s, .action s ∈ blocksIn bs → s.kind ∈ h.kinds ∧ (Value.ofFields s.data).isJson

theorem oneLine_else : OneLine "else:" [word "else", mark ':'] :=
  oneLine_fixed ⟨rfl, rfl⟩ (by decide) rfl rfl (List.cons_ne_nil _ _)

theorem oneLine_if {target : String} (ht : IsName target) :
    OneLine ("if " ++ target ++ ":") (test "if" [word target]) := by
  refine ((Begins.fixed ⟨rfl, rfl⟩ (by decide)).append (.name ht _)).append (.fixed ⟨rfl, rfl⟩)
    |>.line ?_ rfl (List.cons_ne_nil _ _)
  simp [test, flush_name ht]

theorem oneLine_arm {keyword target : String} (hk : IsName keyword) (ht : IsName target)
    (value : String) :
    OneLine (keyword ++ " str(" ++ target ++ ") == " ++ quoted value ++ ":")
      (test keyword (call "str" [word target] ++ [mark '=', mark '=', text (quoted value)])) := by
  refine (((((Begins.name hk).append (.fixed ⟨rfl, rfl⟩)).append (.name ht _)).append
    (.fixed ⟨rfl, rfl⟩)).append (.quoted _ _)).append (.fixed ⟨rfl, rfl⟩) |>.line ?_ rfl
    (List.cons_ne_nil _ _)
  simp [test, call, flush_name hk, flush_name ht]

theorem oneLine_await {name : String} (hn : IsName name) :
    OneLine ("await " ++ name ++ "()") (word "await" :: call name []) := by
  refine ((Begins.fixed ⟨rfl, rfl⟩ (by decide)).append (.name hn _)).append (.fixed ⟨rfl, rfl⟩)
    |>.line ?_ rfl (List.cons_ne_nil _ _)
  simp [call, flush_name hn]

mutual

theorem produces_block {h : Handler} (hn : Named h) : ∀ b : Block, Writable h [b] →
    Produces (writeBlock h b) (blockScript h b)
  | .trigger s, _ => by
    have hall := (produces_head s).comp (Produces.comment "Trigger nodes only start a workflow")
    exact hall
  | .unsupported s, _ => by
    have hall := (produces_head s).comp
      (Produces.comment ("Unsupported structural node type: " ++ s.kind))
    exact hall
  | .unreadable s _, _ => produces_head s
  | .action s, hb => by
    obtain ⟨hk, hj⟩ := hb s (List.mem_cons_self)
    have hall := (produces_head s).comp (produces_action hn hk hj)
    exact hall
  | .branch s yes no, hb => by
    have hyes := produces_blocks hn yes fun t ht => hb t (by simp [ht])
    have hno := produces_blocks hn no fun t ht => hb t (by simp [ht])
    have hc := isName_condition hn s
    have hall := (((produces_head s).comp (produces_formula hc s.condition)).comp
      ((Produces.line (oneLine_if hc)).comp hyes.arm)).comp
      ((Produces.line oneLine_else).comp hno.arm)
    exact hall
  | .subject s, _ => by
    have hall := (produces_head s).comp (produces_formula (isName_subject hn s) s.subject)
    exact hall
  | .select s arms other, hb => by
    have hif : IsName "if" := isName_fixed rfl rfl
    have harms := produces_arms hn (isName_subject hn s) hif arms fun t ht => hb t (by simp [ht])
    have hother := produces_blocks hn other fun t ht => hb t (by simp [ht])
    have hall := (((produces_head s).comp (produces_formula (isName_subject hn s) s.subject)).comp
      harms).comp ((Produces.line oneLine_else).comp hother.arm)
    exact hall
  | .loop s body, hb => by
    have hbody := produces_blocks hn body fun t ht => hb t (by simp [ht])
    have hall := ((produces_head s).comp (produces_loopHead hn s)).comp
      ((produces_loopVariables hn s).comp hbody).indented
    refine Produces.congr hall fun n => ?_
    simp [blockScript]
  | .join s, _ => by
    have hall := (produces_head s).comp (Produces.line (oneLine_await (isName_continuation hn s.id)))
    exact hall

theorem produces_blocks {h : Handler} (hn : Named h) : ∀ bs : List Block, Writable h bs →
    Produces (writeBlocks h bs) (blocksScript h bs)
  | [], _ => fun w => .refl w
  | b :: rest, hb => by
    have hfirst := produces_block hn b fun t ht => hb t (by rw [blocksIn_cons]; simp [ht])
    have hrest := produces_blocks hn rest fun t ht => hb t (by rw [blocksIn_cons]; simp [ht])
    have hall := hfirst.comp hrest
    exact hall

theorem produces_arms {h : Handler} (hn : Named h) {target keyword : String} (ht : IsName target)
    (hk : IsName keyword) : ∀ arms : List (String × List Block),
      (∀ s, .action s ∈ arms.flatMap (fun a => blocksIn a.2) →
        s.kind ∈ h.kinds ∧ (Value.ofFields s.data).isJson) →
      Produces (writeArms h target keyword arms) (armsScript h target keyword arms)
  | [], _ => fun w => .refl w
  | (value, body) :: rest, hb => by
    have hbody := produces_blocks hn body fun t hm => hb t (by simp [hm])
    have helif : IsName "elif" := isName_fixed rfl rfl
    have hrest := produces_arms hn ht helif rest fun t hm =>
      hb t (by simp only [List.flatMap_cons, List.mem_append]; exact .inr hm)
    have hall := ((Produces.line (oneLine_arm hk ht value)).comp hbody.arm).comp hrest
    exact hall

end

end Workflow.Handler
