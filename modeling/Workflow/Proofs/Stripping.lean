/-
What stripping leaves of a script.

Stripping takes the text that opens a script, a class or a function, and no other
statement (`placed_stripScript`); a body that held nothing else gets a `pass`. It takes
one text only: where two texts open a body, the second is then a text that opens it,
which a further pass would take as well. So nothing is left to strip just if no body
opens with two texts (`stripped_once_iff`).
-/
import Mathlib
import Workflow.Proofs.Shaking

namespace Workflow.Source

/-! ## Scripts and definitions -/

mutual

/-- The bodies of the definitions in a statement, at any depth. -/
def Stmt.scopes : Stmt → List (List Stmt)
  | .function _ _ _ _ _ body => body :: blockScopes body
  | .classDef _ _ _ _ body => body :: blockScopes body
  | .forEach _ _ _ body orElse => blockScopes body ++ blockScopes orElse
  | .loop _ body orElse => blockScopes body ++ blockScopes orElse
  | .branch _ body orElse => blockScopes body ++ blockScopes orElse
  | .using _ _ body => blockScopes body
  | .select _ cases => caseScopes cases
  | .attempt _ body handlers orElse ensure =>
    blockScopes body ++ handlerScopes handlers ++ blockScopes orElse ++ blockScopes ensure
  | _ => []
termination_by structural s => s

/-- The bodies of the definitions in a block. -/
def blockScopes : List Stmt → List (List Stmt)
  | [] => []
  | s :: rest => s.scopes ++ blockScopes rest
termination_by structural body => body

/-- The bodies of the definitions in `except` clauses. -/
def handlerScopes : List Handler → List (List Stmt)
  | [] => []
  | .mk _ _ body :: rest => blockScopes body ++ handlerScopes rest
termination_by structural handlers => handlers

/-- The bodies of the definitions in `case` clauses. -/
def caseScopes : List Case → List (List Stmt)
  | [] => []
  | .mk _ _ body :: rest => blockScopes body ++ caseScopes rest
termination_by structural cases => cases

end

/-- A script and the bodies of the definitions in it. -/
def scopesOf (body : List Stmt) : List (List Stmt) := body :: blockScopes body

/-- Whether a body opens with a text. -/
def opensWithText : List Stmt → Bool
  | s :: _ => s.docText?.isSome
  | [] => false

/-- Whether a body opens with two texts. -/
def opensWithTexts : List Stmt → Bool
  | s :: t :: _ => s.docText?.isSome && t.docText?.isSome
  | _ => false

theorem scopes_of_docText? {s : Stmt} (h : s.docText?.isSome = true) : s.scopes = [] := by
  unfold Stmt.docText? at h
  split at h
  · rfl
  · simp at h

theorem blockScopes_strippedBody (body : List Stmt) :
    blockScopes (strippedBody body) = blockScopes body := by
  cases body with
  | nil => rfl
  | cons s rest =>
    rw [strippedBody]
    split
    · next h =>
      rw [blockScopes, scopes_of_docText? h, List.nil_append]
      split
      · next hrest =>
        rw [List.isEmpty_iff.mp hrest]
        rfl
      · rfl
    · rfl

mutual

/-- The definitions of a stripped statement are those of the statement, each stripped. -/
theorem scopes_strip : ∀ s : Stmt,
    s.strip.scopes = s.scopes.map fun body => strippedBody (stripBlock body)
  | .function _ _ _ _ _ body | .classDef _ _ _ _ body => by
    simp only [Stmt.strip, Stmt.scopes, blockScopes_strippedBody, blockScopes_stripBlock body,
      List.map_cons]
  | .forEach _ _ _ body orElse | .loop _ body orElse | .branch _ body orElse => by
    simp only [Stmt.strip, Stmt.scopes, blockScopes_stripBlock, List.map_append]
  | .using _ _ body => by
    simp only [Stmt.strip, Stmt.scopes, blockScopes_stripBlock body]
  | .select _ cases => by
    simp only [Stmt.strip, Stmt.scopes, caseScopes_stripCases cases]
  | .attempt _ body handlers orElse ensure => by
    simp only [Stmt.strip, Stmt.scopes, blockScopes_stripBlock, handlerScopes_stripHandlers,
      List.map_append]
  | .ret _ | .delete _ | .assign _ _ | .augment _ _ _ | .annotate _ _ _ _ | .raise _ _
  | .assertion _ _ | .importNames _ | .importFrom _ _ _ | .globalNames _ | .nonlocalNames _
  | .expr _ | .pass | .stop | .next => rfl

theorem blockScopes_stripBlock : ∀ body : List Stmt,
    blockScopes (stripBlock body) =
      (blockScopes body).map fun body => strippedBody (stripBlock body)
  | [] => rfl
  | s :: rest => by
    simp only [stripBlock, blockScopes, scopes_strip s, blockScopes_stripBlock rest,
      List.map_append]

theorem handlerScopes_stripHandlers : ∀ handlers : List Handler,
    handlerScopes (stripHandlers handlers) =
      (handlerScopes handlers).map fun body => strippedBody (stripBlock body)
  | [] => rfl
  | .mk _ _ body :: rest => by
    simp only [stripHandlers, handlerScopes, blockScopes_stripBlock body,
      handlerScopes_stripHandlers rest, List.map_append]

theorem caseScopes_stripCases : ∀ cases : List Case,
    caseScopes (stripCases cases) =
      (caseScopes cases).map fun body => strippedBody (stripBlock body)
  | [] => rfl
  | .mk _ _ body :: rest => by
    simp only [stripCases, caseScopes, blockScopes_stripBlock body, caseScopes_stripCases rest,
      List.map_append]

end

theorem blockScopes_stripScript (body : List Stmt) :
    blockScopes (stripScript body) =
      (blockScopes body).map fun body => strippedBody (stripBlock body) := by
  rw [← blockScopes_stripBlock, stripScript]
  cases stripBlock body with
  | nil => rfl
  | cons s rest =>
    rw [dropDescription]
    split
    · next h => rw [blockScopes, scopes_of_docText? h, List.nil_append]
    · rfl

@[simp] theorem docText?_pass : Stmt.pass.docText? = none := rfl

theorem opensWithText_strippedBody (body : List Stmt) :
    opensWithText (strippedBody (stripBlock body)) = opensWithTexts body := by
  match body with
  | [] => rfl
  | [s] =>
    by_cases h : s.docText?.isSome <;>
      simp [stripBlock, strippedBody, docText?_strip, h, opensWithText, opensWithTexts]
  | s :: t :: rest =>
    by_cases h : s.docText?.isSome <;>
      simp [stripBlock, strippedBody, docText?_strip, h, opensWithText, opensWithTexts]

theorem opensWithText_stripScript (body : List Stmt) :
    opensWithText (stripScript body) = opensWithTexts body := by
  match body with
  | [] => rfl
  | [s] =>
    by_cases h : s.docText?.isSome <;> simp [stripScript, stripBlock, dropDescription,
      docText?_strip, h, opensWithText, opensWithTexts]
  | s :: t :: rest =>
    by_cases h : s.docText?.isSome <;> simp [stripScript, stripBlock, dropDescription,
      docText?_strip, h, opensWithText, opensWithTexts]

theorem isEmpty_strippedBody (body : List Stmt) :
    (strippedBody (stripBlock body)).isEmpty = body.isEmpty := by
  match body with
  | [] => rfl
  | s :: rest =>
    simp only [stripBlock, strippedBody]
    split
    · split
      · rfl
      · next h => simpa using h
    · rfl

/-! ## Scripts without descriptions -/

theorem strippedBody_eq_self_iff {body body' : List Stmt}
    (hopens : opensWithText body' = opensWithText body)
    (hlength : body'.length = body.length) :
    strippedBody body' = body ↔ opensWithText body = false ∧ body' = body := by
  cases body' with
  | nil =>
    obtain rfl : body = [] := List.length_eq_zero_iff.mp hlength.symm
    simp [strippedBody, opensWithText]
  | cons s rest =>
    by_cases h : s.docText?.isSome
    · have hbody : opensWithText body = true := by rw [← hopens]; exact h
      simp only [strippedBody, if_pos h, hbody, Bool.true_eq_false, false_and, iff_false]
      intro he
      split at he
      · rw [← he] at hbody
        cases hbody
      · have := congrArg List.length he
        simp only [List.length_cons] at hlength
        omega
    · have hbody : opensWithText body = false := by
        rw [← hopens]
        simpa [opensWithText] using h
      simp [strippedBody, h, hbody]

theorem length_stripBlock (body : List Stmt) : (stripBlock body).length = body.length := by
  rw [stripBlock_eq, List.length_map]

theorem opensWithText_stripBlock (body : List Stmt) :
    opensWithText (stripBlock body) = opensWithText body := by
  cases body with
  | nil => rfl
  | cons s rest => simp [stripBlock, opensWithText, docText?_strip]

theorem strip_definition_iff {body : List Stmt} {P : Prop} (h : stripBlock body = body ↔ P) :
    strippedBody (stripBlock body) = body ↔ opensWithText body = false ∧ P := by
  rw [strippedBody_eq_self_iff (opensWithText_stripBlock body) (length_stripBlock body), h]

mutual

/-- A statement is as it was after stripping just if no definition in it opens with a text. -/
theorem strip_eq_self_iff : ∀ s : Stmt,
    s.strip = s ↔ ∀ b ∈ s.scopes, opensWithText b = false
  | .function _ _ _ _ _ body | .classDef _ _ _ _ body => by
    simp [Stmt.strip, Stmt.scopes, strip_definition_iff (stripBlock_eq_self_iff body)]
  | .forEach _ _ _ body orElse | .loop _ body orElse | .branch _ body orElse => by
    simp only [Stmt.strip, Stmt.scopes, Stmt.forEach.injEq, Stmt.loop.injEq, Stmt.branch.injEq,
      stripBlock_eq_self_iff, List.forall_mem_append, true_and]
  | .using _ _ body => by
    simp [Stmt.strip, Stmt.scopes, stripBlock_eq_self_iff body]
  | .select _ cases => by
    simp [Stmt.strip, Stmt.scopes, stripCases_eq_self_iff cases]
  | .attempt _ body handlers orElse ensure => by
    simp only [Stmt.strip, Stmt.scopes, Stmt.attempt.injEq, stripBlock_eq_self_iff,
      stripHandlers_eq_self_iff, List.forall_mem_append, true_and]
    tauto
  | .ret _ | .delete _ | .assign _ _ | .augment _ _ _ | .annotate _ _ _ _ | .raise _ _
  | .assertion _ _ | .importNames _ | .importFrom _ _ _ | .globalNames _ | .nonlocalNames _
  | .expr _ | .pass | .stop | .next => by simp [Stmt.strip, Stmt.scopes]

theorem stripBlock_eq_self_iff : ∀ body : List Stmt,
    stripBlock body = body ↔ ∀ b ∈ blockScopes body, opensWithText b = false
  | [] => by simp [stripBlock, blockScopes]
  | s :: rest => by
    simp only [stripBlock, blockScopes, List.cons.injEq, strip_eq_self_iff s,
      stripBlock_eq_self_iff rest, List.forall_mem_append]

theorem stripHandlers_eq_self_iff : ∀ handlers : List Handler,
    stripHandlers handlers = handlers ↔ ∀ b ∈ handlerScopes handlers, opensWithText b = false
  | [] => by simp [stripHandlers, handlerScopes]
  | .mk _ _ body :: rest => by
    simp only [stripHandlers, handlerScopes, List.cons.injEq, Handler.mk.injEq,
      stripBlock_eq_self_iff body, stripHandlers_eq_self_iff rest, List.forall_mem_append, true_and]

theorem stripCases_eq_self_iff : ∀ cases : List Case,
    stripCases cases = cases ↔ ∀ b ∈ caseScopes cases, opensWithText b = false
  | [] => by simp [stripCases, caseScopes]
  | .mk _ _ body :: rest => by
    simp only [stripCases, caseScopes, List.cons.injEq, Case.mk.injEq, stripBlock_eq_self_iff body,
      stripCases_eq_self_iff rest, List.forall_mem_append, true_and]

end

/-- The scripts that stripping leaves as they are: no body in them opens with a text. -/
theorem stripScript_eq_self_iff (body : List Stmt) :
    stripScript body = body ↔ ∀ b ∈ scopesOf body, opensWithText b = false := by
  rw [scopesOf, List.forall_mem_cons, ← stripBlock_eq_self_iff, stripScript]
  cases body with
  | nil => simp [stripBlock, dropDescription, opensWithText]
  | cons s rest =>
    by_cases h : s.docText?.isSome
    · have hlength := length_stripBlock rest
      simp only [stripBlock, dropDescription, docText?_strip, opensWithText, h, if_true,
        Bool.true_eq_false, false_and, iff_false]
      intro he
      have := congrArg List.length he
      simp only [List.length_cons] at this
      omega
    · simp [stripBlock, dropDescription, docText?_strip, h, opensWithText]

/-! ## Statements one by one -/

/-- What a statement is to the body in which it stands. -/
inductive Role where
  | ordinary
  /-- The text that opens a script or definition. -/
  | description
  /-- A text that is all there is of a definition. -/
  | soleDescription

/-- A statement of a script: the blocks that it stands in, each by its place in the statement that
holds it, and the statement itself without the blocks that it holds. -/
structure Placed where
  place : List Nat
  head : Stmt
  role : Role

/-- A `case` clause without its block. -/
def Case.head : Case → Case
  | .mk pattern guard _ => .mk pattern guard []

/-- An `except` clause without its block. -/
def Handler.head : Handler → Handler
  | .mk type name _ => .mk type name []

mutual

/-- A statement and those in it, one by one. -/
def Stmt.placed (place : List Nat) : Stmt → List Placed
  | .function isAsync name params returns decorators body =>
    ⟨place, .function isAsync name params returns decorators [], .ordinary⟩ ::
      placedDefinition (0 :: place) body
  | .classDef name bases keywords decorators body =>
    ⟨place, .classDef name bases keywords decorators [], .ordinary⟩ ::
      placedDefinition (0 :: place) body
  | .forEach isAsync target iter body orElse =>
    ⟨place, .forEach isAsync target iter [] [], .ordinary⟩ ::
      (placedBlock (0 :: place) body ++ placedBlock (1 :: place) orElse)
  | .loop test body orElse =>
    ⟨place, .loop test [] [], .ordinary⟩ ::
      (placedBlock (0 :: place) body ++ placedBlock (1 :: place) orElse)
  | .branch test body orElse =>
    ⟨place, .branch test [] [], .ordinary⟩ ::
      (placedBlock (0 :: place) body ++ placedBlock (1 :: place) orElse)
  | .using isAsync items body =>
    ⟨place, .using isAsync items [], .ordinary⟩ :: placedBlock (0 :: place) body
  | .select subject cases =>
    ⟨place, .select subject (cases.map (·.head)), .ordinary⟩ :: placedCases place 0 cases
  | .attempt group body handlers orElse ensure =>
    ⟨place, .attempt group [] (handlers.map (·.head)) [] [], .ordinary⟩ ::
      (placedBlock (0 :: place) body ++ placedHandlers place 3 handlers ++
        placedBlock (1 :: place) orElse ++ placedBlock (2 :: place) ensure)
  | s => [⟨place, s, .ordinary⟩]
termination_by structural s => s

/-- The statements of a block, one by one. -/
def placedBlock (place : List Nat) : List Stmt → List Placed
  | [] => []
  | s :: rest => s.placed place ++ placedBlock place rest
termination_by structural body => body

/-- The statements of a definition, one by one. -/
def placedDefinition (place : List Nat) : List Stmt → List Placed
  | [] => []
  | s :: rest =>
    (if s.docText?.isSome then
        [⟨place, s, if rest.isEmpty then .soleDescription else .description⟩]
      else s.placed place) ++ placedBlock place rest
termination_by structural body => body

/-- The statements of `except` clauses, of which the first has the given place. -/
def placedHandlers (place : List Nat) (index : Nat) : List Handler → List Placed
  | [] => []
  | .mk _ _ body :: rest =>
    placedBlock (index :: place) body ++ placedHandlers place (index + 1) rest
termination_by structural handlers => handlers

/-- The statements of `case` clauses, of which the first has the given place. -/
def placedCases (place : List Nat) (index : Nat) : List Case → List Placed
  | [] => []
  | .mk _ _ body :: rest => placedBlock (index :: place) body ++ placedCases place (index + 1) rest
termination_by structural cases => cases

end

/-- The statements of a script, one by one. -/
def placedScript : List Stmt → List Placed
  | [] => []
  | s :: rest =>
    (if s.docText?.isSome then [⟨[], s, .description⟩] else s.placed []) ++ placedBlock [] rest

/-- A statement and where it stands. -/
def Placed.entry (l : Placed) : List Nat × Stmt := (l.place, l.head)

/-- What stands in place of a statement when descriptions are left out. -/
def Placed.kept (l : Placed) : Option (List Nat × Stmt) :=
  match l.role with
  | .ordinary => some l.entry
  | .description => none
  | .soleDescription => some (l.place, .pass)

@[simp] theorem Placed.kept_ordinary (place : List Nat) (s : Stmt) :
    Placed.kept ⟨place, s, .ordinary⟩ = some (place, s) := rfl

@[simp] theorem Placed.kept_description (place : List Nat) (s : Stmt) :
    Placed.kept ⟨place, s, .description⟩ = none := rfl

@[simp] theorem Placed.kept_soleDescription (place : List Nat) (s : Stmt) :
    Placed.kept ⟨place, s, .soleDescription⟩ = some (place, .pass) := rfl

@[simp] theorem Placed.entry_mk (place : List Nat) (s : Stmt) (role : Role) :
    Placed.entry ⟨place, s, role⟩ = (place, s) := rfl

theorem placed_of_docText? {s : Stmt} (h : s.docText?.isSome = true) (place : List Nat) :
    s.placed place = [⟨place, s, .ordinary⟩] := by
  unfold Stmt.docText? at h
  split at h
  · rfl
  · simp at h

theorem entries_placedDefinition (place : List Nat) (body : List Stmt) :
    (placedDefinition place body).map (·.entry) = (placedBlock place body).map (·.entry) := by
  cases body with
  | nil => rfl
  | cons s rest =>
    by_cases h : s.docText?.isSome
    · simp [placedDefinition, placedBlock, h, placed_of_docText? h]
    · simp [placedDefinition, placedBlock, h]

theorem entries_placedScript (body : List Stmt) :
    (placedScript body).map (·.entry) = (placedBlock [] body).map (·.entry) := by
  cases body with
  | nil => rfl
  | cons s rest =>
    by_cases h : s.docText?.isSome
    · simp [placedScript, placedBlock, h, placed_of_docText? h]
    · simp [placedScript, placedBlock, h]

theorem heads_stripCases (cases : List Case) :
    (stripCases cases).map (·.head) = cases.map (·.head) := by
  induction cases with
  | nil => rfl
  | cons c rest ih =>
    cases c
    rw [stripCases, List.map_cons, ih]
    rfl

theorem heads_stripHandlers (handlers : List Handler) :
    (stripHandlers handlers).map (·.head) = handlers.map (·.head) := by
  induction handlers with
  | nil => rfl
  | cons h rest ih =>
    cases h
    rw [stripHandlers, List.map_cons, ih]
    rfl

mutual

/-- The statements of a stripped statement: all but descriptions, unchanged and in order. -/
theorem placed_strip : ∀ (s : Stmt) (place : List Nat),
    (s.strip.placed place).map (·.entry) = (s.placed place).filterMap (·.kept)
  | .function _ _ _ _ _ body, place | .classDef _ _ _ _ body, place => by
    simp [Stmt.strip, Stmt.placed, placed_definition body]
  | .forEach _ _ _ body orElse, place | .loop _ body orElse, place
  | .branch _ body orElse, place => by
    simp [Stmt.strip, Stmt.placed, placed_stripBlock]
  | .using _ _ body, place => by
    simp [Stmt.strip, Stmt.placed, placed_stripBlock body]
  | .select _ cases, place => by
    simp [Stmt.strip, Stmt.placed, placed_stripCases cases, heads_stripCases]
  | .attempt _ body handlers orElse ensure, place => by
    simp [Stmt.strip, Stmt.placed, placed_stripBlock, placed_stripHandlers, heads_stripHandlers]
  | .ret _, _ | .delete _, _ | .assign _ _, _ | .augment _ _ _, _ | .annotate _ _ _ _, _
  | .raise _ _, _ | .assertion _ _, _ | .importNames _, _ | .importFrom _ _ _, _
  | .globalNames _, _ | .nonlocalNames _, _ | .expr _, _ | .pass, _ | .stop, _ | .next, _ => rfl

theorem placed_stripBlock : ∀ (body : List Stmt) (place : List Nat),
    (placedBlock place (stripBlock body)).map (·.entry) =
      (placedBlock place body).filterMap (·.kept)
  | [], _ => rfl
  | s :: rest, place => by
    simp [stripBlock, placedBlock, placed_strip s place, placed_stripBlock rest place]

theorem placed_definition : ∀ (body : List Stmt) (place : List Nat),
    (placedDefinition place (strippedBody (stripBlock body))).map (·.entry) =
      (placedDefinition place body).filterMap (·.kept)
  | [], _ => rfl
  | s :: rest, place => by
    rw [entries_placedDefinition]
    by_cases h : s.docText?.isSome
    · cases rest with
      | nil => simp [stripBlock, strippedBody, docText?_strip, placedDefinition, h, placedBlock,
          Stmt.placed]
      | cons t rest =>
        have hrest := placed_stripBlock (t :: rest) place
        simpa [stripBlock, strippedBody, docText?_strip, placedDefinition, h, List.filterMap_cons]
          using hrest
    · simp [stripBlock, strippedBody, docText?_strip, placedDefinition, h, placedBlock,
        placed_strip s place, placed_stripBlock rest place]

theorem placed_stripHandlers : ∀ (handlers : List Handler) (place : List Nat) (index : Nat),
    (placedHandlers place index (stripHandlers handlers)).map (·.entry) =
      (placedHandlers place index handlers).filterMap (·.kept)
  | [], _, _ => rfl
  | .mk _ _ body :: rest, place, index => by
    simp [stripHandlers, placedHandlers, placed_stripBlock body (index :: place),
      placed_stripHandlers rest place (index + 1)]

theorem placed_stripCases : ∀ (cases : List Case) (place : List Nat) (index : Nat),
    (placedCases place index (stripCases cases)).map (·.entry) =
      (placedCases place index cases).filterMap (·.kept)
  | [], _, _ => rfl
  | .mk _ _ body :: rest, place, index => by
    simp [stripCases, placedCases, placed_stripBlock body (index :: place),
      placed_stripCases rest place (index + 1)]

end

theorem placed_stripScript (body : List Stmt) :
    (placedScript (stripScript body)).map (·.entry) = (placedScript body).filterMap (·.kept) := by
  rw [entries_placedScript]
  cases body with
  | nil => rfl
  | cons s rest =>
    by_cases h : s.docText?.isSome
    · simp [stripScript, stripBlock, dropDescription, docText?_strip, placedScript, h,
        List.filterMap_cons, placed_stripBlock rest []]
    · simp [stripScript, stripBlock, dropDescription, docText?_strip, placedScript, h, placedBlock,
        placed_strip s [], placed_stripBlock rest []]

/-- **What stripping leaves.** After a script is stripped, a body, its own or that of a class or
function at any depth, opens with a text just if it opened with two of them before. No body of a
definition has become empty. All statements are left, unchanged and in order, but for the text that
opened each body, which is gone or, in a definition that held nothing else, is now a `pass`. And to
strip the script again changes nothing just if no body opened with two texts. -/
theorem stripped_once_iff (body : List Stmt) :
    (scopesOf (stripScript body)).map opensWithText = (scopesOf body).map opensWithTexts ∧
    (blockScopes (stripScript body)).map List.isEmpty = (blockScopes body).map List.isEmpty ∧
    (placedScript (stripScript body)).map (·.entry) = (placedScript body).filterMap (·.kept) ∧
    (stripScript (stripScript body) = stripScript body ↔
      ∀ b ∈ scopesOf body, opensWithTexts b = false) := by
  have hopens : (scopesOf (stripScript body)).map opensWithText =
      (scopesOf body).map opensWithTexts := by
    rw [scopesOf, scopesOf, blockScopes_stripScript]
    simp [opensWithText_stripScript, opensWithText_strippedBody, Function.comp_def]
  refine ⟨hopens, ?_, placed_stripScript body, ?_⟩
  · rw [blockScopes_stripScript]
    simp [isEmpty_strippedBody, Function.comp_def]
  · have hforall : ∀ (f : List Stmt → Bool) (scopes : List (List Stmt)),
        (∀ b ∈ scopes, f b = false) ↔ ∀ x ∈ scopes.map f, x = false := by simp
    rw [stripScript_eq_self_iff, hforall, hopens, ← hforall]

/-- Two texts in a row: the second opens what is left of the first body, and a `pass` takes its
place only in a second pass. -/
def doublyDescribed : List Stmt :=
  [.function false "f" (.mk [] [] none [] none) none []
    [.expr (.constant (.str "a" false)), .expr (.constant (.str "b" false))]]

theorem doublyDescribed_left :
    (scopesOf (stripScript doublyDescribed)).any opensWithText = true ∧
    stripScript (stripScript doublyDescribed) ≠ stripScript doublyDescribed := by
  refine ⟨rfl, ?_⟩
  simp [doublyDescribed, stripScript, stripBlock, Stmt.strip, dropDescription, strippedBody,
    Stmt.docText?]

end Workflow.Source
