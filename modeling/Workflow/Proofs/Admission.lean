/-
Which requests a handler runs for.

A trigger demands something of each request: a token, a method, a signature, an
address, or a condition that holds (`Handler.Admits`). The guard decides just
so (`decided`), and before it has accepted nothing is done: a request that is
not admitted is answered with the reason (`Declines`), and one that cannot be
read with a report on the error (`runs_only_if_admitted`).
-/
import Workflow.Proofs.Interpretation

namespace Workflow

/-! ## What a request carries -/

theorem dropTrailing_eq_nil {P : Char → Bool} {cs : List Char} :
    Text.dropTrailing P (cs.dropWhile P) = [] ↔ cs.all P = true := by
  induction cs with
  | nil => simp [Text.dropTrailing]
  | cons c cs ih =>
    by_cases hc : P c = true
    · rw [List.dropWhile_cons_of_pos hc, ih, List.all_cons, hc, Bool.true_and]
    · rw [List.dropWhile_cons_of_neg hc, List.all_cons, Bool.eq_false_iff.mpr hc, Bool.false_and]
      have hlast : ((c :: cs).reverse.dropWhile P) ≠ [] := by
        simp [List.dropWhile_eq_nil_iff, hc]
      simpa [Text.dropTrailing] using hlast

theorem trim_isEmpty (s : String) : (Text.trim s).isEmpty = Text.allBlank s := by
  rw [Bool.eq_iff_iff, Text.allBlank, ← dropTrailing_eq_nil]
  simp [Text.trim, Text.trimWhere]

namespace Request

/-- The request carries a bearer token: its authorization is, up to blanks at its ends, the word
`bearer` in any case, a space, and something that is not blank. -/
def CarriesToken (r : Request) : Prop :=
  ∃ header scheme token, r.header? "authorization" = some header ∧
    Text.trim header = scheme ++ " " ++ token ∧ ' ' ∉ scheme.toList ∧
    Text.toLower scheme = "bearer" ∧ Text.allBlank token = false

/-- The request is signed under a secret: its signature, without the name of its method, is that of
the body up to the case of letters. -/
def SignedUnder (r : Request) (secret : String) : Prop :=
  ∃ header, r.header? "x-webhook-signature" = some header ∧
    Text.toLower (bareSignature header) =
      Digest.hexText (Digest.hmacSha256 (Text.encodeUtf8 secret) r.body)

theorem cutAtSpace_append {scheme : String} (h : ' ' ∉ scheme.toList) (token : String) :
    cutAtSpace (scheme ++ " " ++ token) = (scheme, token) := by
  have hall : ∀ c ∈ scheme.toList, decide (c ≠ ' ') = true := fun c hc =>
    decide_eq_true fun he => h (he ▸ hc)
  simp only [cutAtSpace, String.toList_append]
  rw [List.append_assoc, List.takeWhile_append_of_pos hall, List.dropWhile_append_of_pos hall]
  simp

theorem eq_append_of_cutAtSpace {s : String} (h : (cutAtSpace s).2 ≠ "") :
    s = (cutAtSpace s).1 ++ " " ++ (cutAtSpace s).2 ∧ ' ' ∉ (cutAtSpace s).1.toList := by
  have hcs := List.takeWhile_append_dropWhile (p := fun c => decide (c ≠ ' ')) (l := s.toList)
  simp only [cutAtSpace, String.toList_ofList] at h ⊢
  cases hd : s.toList.dropWhile (fun c => decide (c ≠ ' ')) with
  | nil =>
    rw [hd] at h
    exact absurd rfl h
  | cons c rest =>
    have hc : c = ' ' := by
      have hnot := List.head_dropWhile_not (fun c => decide (c ≠ ' ')) (by rw [hd]; simp)
      simp only [hd, List.head_cons] at hnot
      simpa using hnot
    subst hc
    rw [hd] at hcs
    refine ⟨String.toList_inj.mp ?_, fun hm => ?_⟩
    · simpa [String.toList_append] using hcs.symm
    · simpa using List.mem_takeWhile_imp hm

/-- A token is found exactly where one is carried. -/
theorem bearerToken_isNone (r : Request) : r.bearerToken.isNone = false ↔ r.CarriesToken := by
  constructor
  · intro h
    simp only [bearerToken, trim_isEmpty] at h
    split at h
    · simp at h
    next hno =>
    simp only [not_or, ne_eq, Classical.not_not, Bool.not_eq_true] at hno
    obtain ⟨hscheme, htoken⟩ := hno
    cases hh : r.header? "authorization" with
    | none =>
      rw [hh] at hscheme
      exact absurd hscheme (by decide)
    | some header =>
      rw [hh, Option.getD_some] at hscheme htoken
      have hne : (cutAtSpace (Text.trim header)).2 ≠ "" := fun he => by
        simp [he, Text.allBlank] at htoken
      obtain ⟨heq, hspace⟩ := eq_append_of_cutAtSpace hne
      exact ⟨header, _, _, hh, heq, hspace, hscheme, htoken⟩
  · rintro ⟨header, scheme, token, hh, heq, hspace, hscheme, htoken⟩
    simp [bearerToken, hh, heq, cutAtSpace_append hspace, hscheme, trim_isEmpty, htoken]

theorem hexText_hmac_ne (key message : List UInt8) :
    Digest.hexText (Digest.hmacSha256 key message) ≠ "" := by
  have hne : Digest.hmacSha256 key message ≠ [] := by
    rw [Digest.hmacSha256, Digest.sha256, Digest.State.words]
    exact List.cons_ne_nil _ _
  obtain ⟨d, rest, hd⟩ := List.exists_cons_of_ne_nil hne
  intro h
  have hl := congrArg String.toList h
  simp [hd, Digest.hexText, Text.hexPadded] at hl

/-- A signature is verified exactly where the request is signed. -/
theorem verifySignature_eq (r : Request) (secret : String) :
    verifySignature secret r.body (r.header? "x-webhook-signature") = true ↔
      r.SignedUnder secret := by
  have hempty : Text.toLower (bareSignature "") = "" := by decide
  have hsig := hexText_hmac_ne (Text.encodeUtf8 secret) r.body
  unfold SignedUnder verifySignature signatureOf
  generalize Digest.hexText (Digest.hmacSha256 (Text.encodeUtf8 secret) r.body) = sig at hsig ⊢
  cases r.header? "x-webhook-signature" with
  | none => simp
  | some header =>
    have hne : Text.toLower (bareSignature header) = sig → header ≠ "" := by
      rintro h rfl
      exact hsig (h.symm.trans hempty)
    simpa using hne

end Request

/-! ## What a trigger demands -/

namespace Step

/-- A webhook allows a method: it is one of those given, in upper case, or `POST` if none is. -/
def Allows (t : Step) (method : String) : Prop :=
  ∃ given : List Value,
    (match t.field? "methods" with
      | some v => v.iterate = .ok given
      | none => given = [.str "POST"]) ∧
    ∃ m ∈ given, Text.toUpper m.display = method

/-- A webhook demands a bearer token. -/
def DemandsToken (t : Step) : Prop := t.field? "authMode" = some (.str "frontend")

/-- A webhook demands a signature. -/
def DemandsSignature (t : Step) : Prop := ¬ t.DemandsToken ∧ (t.field? "verifySignature").isSome

/-- The secret of a webhook's signatures: it is named, and the environment has one of the name. -/
def SecretIs (t : Step) (env : Variables) (secret : String) : Prop :=
  ∃ ref, t.field? "secretKeyRef" = some ref ∧
    env.lookup ("SECRET_" ++ ref.display) = some secret ∧ secret ≠ ""

/-- The condition of a scheduled run: a text that is not blank. -/
def Conditioned (t : Step) (text : String) : Prop :=
  t.data.lookup "condition" = some (.str text) ∧ Text.allBlank text = false

theorem mem_methods {t : Step} {methods : List String} (h : t.methods = .ok methods)
    (method : String) : method ∈ methods ↔ t.Allows method := by
  have hnames : ∀ given : List Value, method ∈ ((given.map fun v =>
      Text.toUpper v.display).eraseDups).mergeSort (fun a b => a ≤ b) ↔
        ∃ m ∈ given, Text.toUpper m.display = method := fun given => by
    rw [List.mem_mergeSort, List.mem_eraseDups, List.mem_map]
  unfold Allows
  cases hfield : t.field? "methods" with
  | none =>
    simp only [Step.methods, hfield] at h
    cases h
    simpa using hnames [.str "POST"]
  | some v =>
    simp only [Step.methods, hfield] at h
    cases hv : v.iterate with
    | error f => simp [hv, bind, Except.bind] at h
    | ok given =>
      simp only [hv] at h
      cases h
      rw [hnames given]
      simp only [hv, Except.ok.injEq, exists_eq_left']

theorem wantsToken_iff (t : Step) : t.wantsToken = true ↔ t.DemandsToken := by
  unfold wantsToken DemandsToken
  split <;> simp_all

theorem runCondition?_eq_some {t : Step} {text : String} :
    t.runCondition? = some text ↔ t.Conditioned text := by
  unfold runCondition? Conditioned
  split <;> simp_all
  grind

end Step

namespace Handler

/-- The context in which the condition of a scheduled run is evaluated. -/
def scheduledContext (t : Step) (o : Occasion) (env : Variables) (r : Request) : Context :=
  (((start o env).context.bind "input" r.jsonBody).bind "scheduledAt" (.str o.now)).bind
    "schedule" (.str t.schedule)

/-- A trigger admits a request. -/
def Admits (kind : TriggerKind) (t : Step) (o : Occasion) (env : Variables) (r : Request) : Prop :=
  match kind with
  | .manual => r.CarriesToken
  | .webhook => t.Allows r.method ∧ (t.DemandsToken → r.CarriesToken) ∧
      (t.DemandsSignature → ∃ secret, t.SecretIs env secret ∧ r.SignedUnder secret)
  | .cron => r.method = "POST" ∧ r.path = "/__cron" ∧ ∀ text, t.Conditioned text →
      ∃ v, (scheduledContext t o env r).evaluate (.str text) = .ok v ∧ v.truthy = true

/-- A trigger turns a request away for a reason. -/
inductive Declines (t : Step) (env : Variables) (r : Request) : TriggerKind → Refusal → Prop
  | token : ¬ r.CarriesToken → Declines t env r .manual .noToken
  | method : ¬ t.Allows r.method → Declines t env r .webhook .method
  | webhookToken : t.DemandsToken → ¬ r.CarriesToken → Declines t env r .webhook .noToken
  | secret : t.DemandsSignature → (¬ ∃ secret, t.SecretIs env secret) →
      Declines t env r .webhook .noSecret
  | signature {secret : String} : t.DemandsSignature → t.SecretIs env secret →
      ¬ r.SignedUnder secret → Declines t env r .webhook .badSignature
  | address : ¬ (r.method = "POST" ∧ r.path = "/__cron") → Declines t env r .cron .notFound

/-- What a trigger decides, and why. -/
inductive Judged (t : Step) (o : Occasion) (env : Variables) (r : Request) :
    TriggerKind → Except Raised Verdict → Prop
  | accepted {kind : TriggerKind} : Admits kind t o env r → Judged t o env r kind (.ok .accepted)
  | refused {kind : TriggerKind} {reason : Refusal} : Declines t env r kind reason →
      Judged t o env r kind (.ok (.refused reason))
  /-- A scheduled run is not due. -/
  | skipped {text : String} {v : Value} : t.Conditioned text →
      (scheduledContext t o env r).evaluate (.str text) = .ok v → v.truthy = false →
      Judged t o env r .cron (.ok .skipped)
  /-- The body cannot be read. -/
  | body {e : Raised} : r.readBody = .error e → Judged t o env r .webhook (.error e)
  /-- The condition of a scheduled run cannot be evaluated. -/
  | condition {text : String} {e : Raised} : t.Conditioned text →
      (scheduledContext t o env r).evaluate (.str text) = .error e →
      Judged t o env r .cron (.error e)

variable {t : Step} {o : Occasion} {env : Variables} {r : Request}

theorem bearerToken_isNone_eq_true (h : ¬ r.CarriesToken) : r.bearerToken.isNone = true := by
  rw [← Bool.not_eq_false, r.bearerToken_isNone]
  exact h

/-- What a webhook demands besides the method is what its access turns away without. -/
theorem refusal?_spec (t : Step) (env : Variables) (r : Request) :
    ((Access.ofStep t).refusal? env r = none ∧ (t.DemandsToken → r.CarriesToken) ∧
        (t.DemandsSignature → ∃ secret, t.SecretIs env secret ∧ r.SignedUnder secret)) ∨
      ∃ reason, (Access.ofStep t).refusal? env r = some reason ∧
        Declines t env r .webhook reason := by
  unfold Access.ofStep
  by_cases htoken : t.DemandsToken
  · rw [if_pos (t.wantsToken_iff.mpr htoken), Access.refusal?]
    by_cases hc : r.CarriesToken
    · rw [r.bearerToken_isNone.mpr hc]
      exact .inl ⟨rfl, fun _ => hc, fun h => absurd htoken h.1⟩
    · rw [bearerToken_isNone_eq_true hc]
      exact .inr ⟨_, rfl, .webhookToken htoken hc⟩
  rw [if_neg fun h => htoken (t.wantsToken_iff.mp h)]
  by_cases hsign : t.wantsSignature = true
  · have hdemands : t.DemandsSignature := ⟨htoken, hsign⟩
    rw [if_pos hsign, Step.signingSecret?]
    cases href : t.field? "secretKeyRef" with
    | none =>
      refine .inr ⟨_, rfl, .secret hdemands ?_⟩
      rintro ⟨_, _, href', -⟩
      cases href.symm.trans href'
    | some ref =>
      rw [Option.map_some, Access.refusal?]
      cases henv : (env.lookup ("SECRET_" ++ ref.display)).filter (· ≠ "") with
      | none =>
        refine .inr ⟨_, rfl, .secret hdemands ?_⟩
        rintro ⟨secret, ref', href', hlookup, hne⟩
        cases href.symm.trans href'
        simp [hlookup, hne] at henv
      | some secret =>
        obtain ⟨hlookup, hne⟩ := Option.filter_eq_some_iff.mp henv
        have hsecret : t.SecretIs env secret := ⟨ref, href, hlookup, by simpa using hne⟩
        dsimp only
        by_cases hsigned : r.SignedUnder secret
        · rw [if_pos ((r.verifySignature_eq secret).mpr hsigned)]
          exact .inl ⟨rfl, fun h => absurd h htoken, fun _ => ⟨secret, hsecret, hsigned⟩⟩
        · rw [if_neg fun h => hsigned ((r.verifySignature_eq secret).mp h)]
          exact .inr ⟨_, rfl, .signature hdemands hsecret hsigned⟩
  · rw [if_neg hsign]
    exact .inl ⟨rfl, fun h => absurd h htoken, fun h => absurd h.2 hsign⟩

theorem run_formula (text : String) (s : RunState) :
    (Run.formula text).run.run s = (s.context.evaluate (.str text), s) := by
  rw [Run.formula, run_bind, run_get]
  exact run_ofAttempt _ s

theorem run_bindAll (names : Names) (s : RunState) : (Run.bindAll names).run.run s =
    (.ok (), { s with context := names.foldl (fun c (name, v) => c.bind name v) s.context }) := rfl

/-- Nothing has been done in a run: no node was called, and no step was entered or has a result. -/
structure Idle (s : RunState) : Prop where
  calls : s.calls = []
  results : s.context.results = []
  currentStep : s.context.currentStep = none
  lastStep : s.context.lastStep = none

/-- A guard has decided as its trigger demands, in a run in which nothing has been done or, unless a
scheduled run is skipped, logged. -/
def Decided (t : Step) (o : Occasion) (env : Variables) (r : Request) (kind : TriggerKind)
    (outcome : Except Raised Verdict × RunState) : Prop :=
  Judged t o env r kind outcome.1 ∧ Idle outcome.2 ∧
    (outcome.1 ≠ .ok .skipped → outcome.2.log = (start o env).log)

/-- It has, where all it did was to bind variables. -/
theorem Judged.decided {kind : TriggerKind} {verdict : Except Raised Verdict} {bindings : Names}
    (h : Judged t o env r kind verdict) : Decided t o env r kind
      (verdict, { start o env with context := { (start o env).context with bindings } }) :=
  ⟨h, ⟨rfl, rfl, rfl, rfl⟩, fun _ => rfl⟩

theorem decided_manual : Decided t o env r .manual
    ((Guard.judge .manual o.now env r).run.run (start o env)) := by
  by_cases hc : r.CarriesToken
  · rw [judge_manual _ _ (r.bearerToken_isNone.mpr hc)]
    exact Judged.decided (.accepted hc)
  · rw [Guard.judge, if_pos (bearerToken_isNone_eq_true hc)]
    exact Judged.decided (.refused (.token hc))

theorem decided_webhook {methods : List String} (hm : t.methods = .ok methods) :
    Decided t o env r .webhook
      ((Guard.judge (.webhook methods (Access.ofStep t)) o.now env r).run.run (start o env)) := by
  rw [Guard.judge]
  by_cases hallowed : r.method ∈ methods
  · rw [if_neg (Classical.not_not.mpr hallowed)]
    rcases refusal?_spec t env r with ⟨hr, hdemands⟩ | ⟨reason, hr, hdeclines⟩
    · rw [hr]
      dsimp only
      rw [run_bind, run_ofAttempt]
      cases hb : r.readBody with
      | error e => exact Judged.decided (.body hb)
      | ok v => exact Judged.decided (.accepted ⟨(Step.mem_methods hm _).mp hallowed, hdemands⟩)
    · rw [hr]
      exact Judged.decided (.refused hdeclines)
  · rw [if_pos hallowed]
    exact Judged.decided (.refused (.method fun h => hallowed ((Step.mem_methods hm _).mpr h)))

theorem decided_cron : Decided t o env r .cron
    ((Guard.judge (.cron t.schedule t.runCondition?) o.now env r).run.run (start o env)) := by
  unfold Guard.judge
  dsimp only
  by_cases haddress : r.method = "POST" ∧ r.path = "/__cron"
  · rw [if_neg (by simpa [cronMethod, cronPath] using haddress), run_bind, run_bindAll]
    dsimp only
    cases hc : t.runCondition? with
    | none =>
      refine Judged.decided (.accepted ⟨haddress.1, haddress.2, fun text htext => ?_⟩)
      cases hc.symm.trans (Step.runCondition?_eq_some.mpr htext)
    | some text =>
      have htext := Step.runCondition?_eq_some.mp hc
      dsimp only
      rw [run_bind, run_formula]
      -- The bindings made so far are those of the context that the condition is evaluated in.
      have hcontext : [("input", r.jsonBody), ("scheduledAt", Value.str o.now),
          ("schedule", Value.str t.schedule)].foldl (fun c (name, v) => c.bind name v)
            (start o env).context = scheduledContext t o env r := rfl
      rw [hcontext]
      cases hv : (scheduledContext t o env r).evaluate (.str text) with
      | error e => exact Judged.decided (.condition htext hv)
      | ok v =>
        dsimp only
        by_cases htrue : v.truthy = true
        · rw [if_pos htrue]
          refine Judged.decided (.accepted ⟨haddress.1, haddress.2, fun text' htext' => ?_⟩)
          cases Option.some.inj (hc.symm.trans (Step.runCondition?_eq_some.mpr htext'))
          exact ⟨v, hv, htrue⟩
        · rw [if_neg htrue]
          have hskipped := Judged.skipped htext hv (by simpa using htrue)
          exact ⟨hskipped, ⟨rfl, rfl, rfl, rfl⟩, fun h => absurd rfl h⟩
  · rw [if_pos (show r.method ≠ cronMethod ∨ r.path ≠ cronPath from
      Classical.not_and_iff_not_or_not.mp haddress)]
    exact Judged.decided (.refused (.address haddress))

/-- The guard of a trigger decides as the trigger demands. -/
theorem decided {kind : TriggerKind} {g : Guard} (hg : Guard.ofStep kind t = .ok g) :
    Decided t o env r kind ((g.judge o.now env r).run.run (start o env)) := by
  cases kind with
  | manual =>
    cases hg
    exact decided_manual
  | webhook =>
    obtain ⟨methods, hm, hg⟩ := bind_eq_ok.mp hg
    cases hg
    exact decided_webhook hm
  | cron =>
    cases hg
    exact decided_cron

/-! ## What is answered -/

end Handler

namespace Json

/-- A value can be written. -/
def Writable (v : Value) : Prop := ∃ text, write v = .ok text

theorem writable_str (s : String) : Writable (.str s) := ⟨_, rfl⟩

theorem writable_bool (b : Bool) : Writable (.bool b) := ⟨_, rfl⟩

theorem writable_list {items : List Value} (h : ∀ v ∈ items, Writable v) :
    Writable (.list items) := by
  have hitems : ∃ texts, writeItems items = .ok texts := by
    induction items with
    | nil => exact ⟨[], rfl⟩
    | cons v rest ih =>
      obtain ⟨text, hv⟩ := h v List.mem_cons_self
      obtain ⟨texts, hrest⟩ := ih fun w hw => h w (List.mem_cons_of_mem _ hw)
      exact ⟨text :: texts, by rw [writeItems, hv, hrest]; rfl⟩
  obtain ⟨texts, htexts⟩ := hitems
  exact ⟨_, by rw [write, htexts]; rfl⟩

theorem writable_ofFields {fields : List (String × Value)} (h : ∀ f ∈ fields, Writable f.2) :
    Writable (Value.ofFields fields) := by
  have hentries : ∃ texts, writeEntries (fields.map fun (k, v) => (.str k, v)) = .ok texts := by
    induction fields with
    | nil => exact ⟨[], rfl⟩
    | cons f rest ih =>
      obtain ⟨text, hv⟩ := h f List.mem_cons_self
      obtain ⟨texts, hrest⟩ := ih fun w hw => h w (List.mem_cons_of_mem _ hw)
      exact ⟨_, by rw [List.map_cons, writeEntries, hv, hrest]; rfl⟩
  obtain ⟨texts, htexts⟩ := hentries
  exact ⟨_, by rw [Value.ofFields, write, htexts]; rfl⟩

theorem Writable.exists_json {v : Value} (h : Writable v) (status : Int) :
    ∃ response, Response.json v status = .ok response := by
  obtain ⟨text, ht⟩ := h
  exact ⟨_, by rw [Response.json, ht]; rfl⟩

end Json

namespace Handler

/-- A refusal can be sent. -/
theorem exists_failure (reason : Refusal) : ∃ response,
    Response.failure (.str reason.code) (.str reason.message) reason.status (.list []) =
      .ok response := by
  refine Json.Writable.exists_json (Json.writable_ofFields ?_) _
  simp only [List.forall_mem_cons]
  refine ⟨Json.writable_bool _, Json.writable_ofFields ?_, Json.writable_list (by simp), by simp⟩
  simp [Json.writable_str]

/-- The report on an error can be sent if what was logged before it can be. -/
theorem exists_failureReport (e : Raised) {s : RunState}
    (hs : ∀ entry ∈ s.log.entries, Json.Writable entry.toValue) :
    ∃ response, Response.json (failureReport e
      { s with log := s.log.recordError "Workflow execution failed" e }) 500 = .ok response := by
  refine Json.Writable.exists_json (Json.writable_ofFields ?_) _
  simp only [List.forall_mem_cons]
  refine ⟨Json.writable_bool _, Json.writable_ofFields ?_, Json.writable_list ?_, by simp⟩
  · unfold Raised.report
    split <;> simp [Json.writable_str, Json.writable_bool]
  · have hdata : Json.Writable (Log.errorData e) := Json.writable_ofFields (by
      simp [Json.writable_str])
    simp only [Log.recordError, Log.record, List.map_append, List.forall_mem_append,
      List.forall_mem_map, List.map_cons, List.map_nil, List.mem_singleton, forall_eq]
    refine ⟨hs, Json.writable_ofFields ?_⟩
    simp [Json.writable_str, hdata]

/-- The response to a request that starts nothing: that of the guard which turns it away, or the
report on the error that ended the run, whose log has no other entry. -/
inductive Answered (t : Step) (o : Occasion) (env : Variables) (r : Request) :
    TriggerKind → Response → Prop
  | refused {kind : TriggerKind} {reason : Refusal} {response : Response} :
      Declines t env r kind reason →
      Response.failure (.str reason.code) (.str reason.message) reason.status (.list []) =
        .ok response →
      Answered t o env r kind response
  | skipped : Judged t o env r .cron (.ok .skipped) → Answered t o env r .cron (Response.empty 204)
  | failed {kind : TriggerKind} {e : Raised} {response : Response} :
      Judged t o env r kind (.error e) →
      Response.json (failureReport e { start o env with
        log := (start o env).log.recordError "Workflow execution failed" e }) 500 = .ok response →
      Answered t o env r kind response

theorem fetch_refused {h : Handler} {reason : Refusal} {s : RunState} {response : Response}
    (hs : (h.guard.judge o.now env r).run.run (start o env) = (.ok (.refused reason), s))
    (hlog : s.log.entries = [])
    (hr : Response.failure (.str reason.code) (.str reason.message) reason.status (.list []) =
      .ok response) (b : Behaviour) :
    h.fetch b o env r = (response, s) := by
  rw [fetch, attempt, run_bind, hs]
  simp only [Run.logs, run_bind, run_get, run_pure, hlog, List.map_nil, hr, run_ofAttempt]

theorem fetch_skipped {h : Handler} {s : RunState}
    (hs : (h.guard.judge o.now env r).run.run (start o env) = (.ok .skipped, s)) (b : Behaviour) :
    h.fetch b o env r = (Response.empty 204, s) := by
  rw [fetch, attempt, run_bind, hs]
  rfl

theorem fetch_failed {h : Handler} {e : Raised} {s : RunState}
    (hs : (h.guard.judge o.now env r).run.run (start o env) = (.error e, s)) (b : Behaviour) :
    h.fetch b o env r = failed e s := by
  rw [fetch, attempt, run_bind, hs]
  rfl

theorem Idle.failed {e : Raised} {s : RunState} (h : Idle s) : Idle (failed e s).2 := by
  obtain ⟨hcalls, hcontext⟩ := failed_calls e s
  exact ⟨hcalls.trans h.calls, hcontext ▸ h.results, hcontext ▸ h.currentStep,
    hcontext ▸ h.lastStep⟩

/-- Before anything is done, the answer to an error is the report on it. -/
theorem failed_of_idle {e : Raised} {s : RunState} (h : Idle s)
    (hlog : s.log = (start o env).log) : Response.json (failureReport e { start o env with
      log := (start o env).log.recordError "Workflow execution failed" e }) 500 =
        .ok (failed e s).1 := by
  obtain ⟨response, hr⟩ := exists_failureReport e (s := s) (by rw [hlog]; exact nofun)
  have hreport : failureReport e { s with
      log := s.log.recordError "Workflow execution failed" e } = failureReport e { start o env with
        log := (start o env).log.recordError "Workflow execution failed" e } := by
    simp only [failureReport, h.currentStep, hlog]
    rfl
  unfold Handler.failed
  dsimp only
  rw [← hreport, hr]

/-- **No node runs before the trigger accepts the request.** Either the trigger admits it and the
flow is executed, in a run in which nothing was done before, or no node is called, no step has a
result, and the response is that of the trigger or a report on what it could not read. -/
theorem runs_only_if_admitted {p : Plan} {h : Handler} (hp : ofPlan p = .ok h) (b : Behaviour)
    (o : Occasion) (env : Variables) (r : Request) :
    ∃ kind, p.step? p.entry = some h.trigger ∧ TriggerKind.ofKind? h.trigger.kind = some kind ∧
      ((h.fetch b o env r).2.calls ≠ [] → Admits kind h.trigger o env r) ∧
      ((Admits kind h.trigger o env r ∧ ∃ s, Idle s ∧
          h.fetch b o env r = conclude ((h.flow.run b (h.secretsIn env)).run.run s)) ∨
        (Idle (h.fetch b o env r).2 ∧ Answered h.trigger o env r kind (h.fetch b o env r).1)) := by
  obtain ⟨kind, htrigger, hkind, hguard, -⟩ := ofPlan_eq_ok hp
  refine ⟨kind, htrigger, hkind, ?_⟩
  have hdecided : Decided h.trigger o env r kind
      ((h.guard.judge o.now env r).run.run (start o env)) := decided hguard
  cases hs : (h.guard.judge o.now env r).run.run (start o env) with
  | mk verdict s =>
    rw [hs] at hdecided
    obtain ⟨hjudged, hidle, hlog⟩ := hdecided
    suffices hcases : (Admits kind h.trigger o env r ∧
        h.fetch b o env r = conclude ((h.flow.run b (h.secretsIn env)).run.run s)) ∨
        (Idle (h.fetch b o env r).2 ∧
          Answered h.trigger o env r kind (h.fetch b o env r).1) by
      rcases hcases with ⟨hadmits, hfetch⟩ | hnot
      · exact ⟨fun _ => hadmits, .inl ⟨hadmits, s, hidle, hfetch⟩⟩
      · exact ⟨fun hcalls => absurd hnot.1.calls hcalls, .inr hnot⟩
    cases verdict with
    | error e =>
      rw [fetch_failed hs]
      exact .inr ⟨hidle.failed, .failed hjudged (failed_of_idle hidle (hlog nofun))⟩
    | ok verdict =>
      cases verdict with
      | accepted =>
        cases hjudged with
        | accepted hadmits => exact .inl ⟨hadmits, fetch_accepted hs b⟩
      | refused reason =>
        obtain ⟨response, hr⟩ := exists_failure reason
        rw [fetch_refused hs (by rw [hlog nofun]; rfl) hr]
        cases hjudged with
        | refused hdeclines => exact .inr ⟨hidle, .refused hdeclines hr⟩
      | skipped =>
        rw [fetch_skipped hs]
        cases hjudged with
        | skipped htext hv hfalse => exact .inr ⟨hidle, .skipped (.skipped htext hv hfalse)⟩

/-- A webhook whose requests are signed. -/
def hook : Plan where
  steps := [
    { id := "arrive", kind := "trigger-webhook", role := .trigger,
      data := [("methods", .list [.str "post"]), ("verifySignature", .bool true),
        ("secretKeyRef", .str "key")], structural := false, category := .core },
    { id := "say", kind := "value", role := .action, data := [("value", .int 1)],
      structural := false, category := .core }]
  edges := [{ source := "arrive", target := "say" }]
  entry := "arrive"
  hasCycle := false
  depth := 2

/-- A request with an empty body, signed under the secret `k`. -/
def sealed : Request where
  method := "POST"
  path := "/"
  headers := [("x-webhook-signature",
    " SHA256=8BB990C40A7D61CB97597A942125025BE50AC8BEB74436E3735B98893A7F6620")]
  query := []
  body := []

theorem sealed_verified : verifySignature "k" sealed.body
    (sealed.header? "x-webhook-signature") = true := by decide +kernel

theorem readBody_sealed : ∃ v, sealed.readBody = .ok v := by
  obtain ⟨text, htext⟩ := exists_eq_ok (x := Text.decodeUtf8 sealed.body) (by cbv)
  unfold Request.readBody
  rw [htext]
  dsimp only
  split
  · exact ⟨_, rfl⟩
  split
  · exact ⟨_, rfl⟩
  split <;> exact ⟨_, rfl⟩

theorem judge_hook : ∃ s, (Guard.judge (.webhook ["POST"] (.signature "key")) "now"
    [("SECRET_key", "k")] sealed).run.run (start ⟨"now", "w", "e"⟩ [("SECRET_key", "k")]) =
      (.ok .accepted, s) := by
  have hsecret : ([("SECRET_key", "k")].lookup ("SECRET_" ++ "key")).filter (· ≠ "") =
      some "k" := by decide
  have hr : (Access.signature "key").refusal? [("SECRET_key", "k")] sealed = none := by
    rw [Access.refusal?, hsecret]
    exact if_pos sealed_verified
  obtain ⟨v, hv⟩ := readBody_sealed
  rw [Guard.judge, if_neg (by decide), hr]
  dsimp only
  rw [hv]
  exact ⟨_, rfl⟩

theorem hook_calls {h : Handler} (hp : ofPlan hook = .ok h) : (h.fetch (fun _ _ => .ok .none)
    ⟨"now", "w", "e"⟩ [("SECRET_key", "k")] sealed).2.calls ≠ [] := by
  have hguard : (ofPlan hook).toOption.map (·.guard) =
      some (.webhook ["POST"] (.signature "key")) := by cbv
  have hrun : ∀ s : RunState, (ofPlan hook).toOption.map (fun h =>
      ((h.flow.run (fun _ _ => .ok .none) (h.secretsIn [("SECRET_key", "k")])).run.run s).2.calls) =
        some (s.calls ++ [⟨"say", "value", Value.ofFields [("value", .int 1)], .dict []⟩]) := by
    intro s
    cbv
  rw [hp] at hguard hrun
  obtain ⟨s, hs⟩ := Option.some.inj hguard ▸ judge_hook
  have hfetch := fetch_accepted (o := ⟨"now", "w", "e"⟩) hs fun _ _ => .ok .none
  rw [hfetch, (conclude_calls _).1]
  intro hnil
  simpa using (Option.some.inj (hrun s)).symm.trans hnil

/-- A signed request makes the webhook run, and nothing else does. -/
theorem hook_runs_if_signed : ∃ h, ofPlan hook = .ok h ∧
    (∃ b, (h.fetch b ⟨"now", "w", "e"⟩ [("SECRET_key", "k")] sealed).2.calls ≠ []) ∧
    ∀ b o env r, (h.fetch b o env r).2.calls ≠ [] → r.method = "POST" ∧
      ∃ secret, env.lookup "SECRET_key" = some secret ∧ r.SignedUnder secret := by
  obtain ⟨h, hp⟩ := exists_eq_ok (x := ofPlan hook) (by cbv)
  refine ⟨h, hp, ⟨_, hook_calls hp⟩, fun b o env r hcalls => ?_⟩
  obtain ⟨kind, htrigger, hkind, hadmits, -⟩ := runs_only_if_admitted hp b o env r
  rw [← Option.some.inj htrigger] at hkind hadmits
  cases hkind
  obtain ⟨⟨given, hgiven, m, hm, hmethod⟩, -, hsigned⟩ := hadmits hcalls
  cases hgiven
  cases List.mem_singleton.mp hm
  obtain ⟨secret, ⟨ref, href, hsecret, -⟩, hunder⟩ := hsigned ⟨by rintro ⟨⟩, rfl⟩
  cases href
  exact ⟨hmethod.symm, secret, hsecret, hunder⟩

end Handler

end Workflow
