/-
What shaking and stripping keep of a script.

A name that is counted as bound by a statement of the top level is bound by it,
or only mentioned in the targets of an assignment (`mem_boundNames`). Shaking
keeps all that binds or mentions a name that is asked for (`exists_shake`), and
every definition whose name a remaining statement mentions
(`mem_shake_of_definedName?`). Stripping changes neither what a statement binds
nor what it mentions (`names_strip`).
-/
import Workflow.Source.Shake

namespace Workflow.Source

/-! ## Targets -/

mutual

/-- The names that are bound when something is assigned to an expression. -/
def Expr.targets : Expr → List String
  | .name id => [id]
  | .list items => exprTargets items
  | .tuple items => exprTargets items
  | .starred value => value.targets
  | _ => []
termination_by structural e => e

/-- The names that are bound when something is assigned to several expressions. -/
def exprTargets : List Expr → List String
  | [] => []
  | e :: rest => e.targets ++ exprTargets rest
termination_by structural es => es

end

mutual

/-- The names within a target that are not bound by it: those of which an attribute or an item is
assigned to, and those in subscripts. -/
def Expr.innerNames : Expr → List String
  | .name _ => []
  | .list items => exprInnerNames items
  | .tuple items => exprInnerNames items
  | .starred value => value.innerNames
  | e => e.names
termination_by structural e => e

/-- The names within several targets that are not bound by them. -/
def exprInnerNames : List Expr → List String
  | [] => []
  | e :: rest => e.innerNames ++ exprInnerNames rest
termination_by structural es => es

end

mutual

theorem mem_names {a : String} : ∀ e : Expr, a ∈ e.names ↔ a ∈ e.targets ∨ a ∈ e.innerNames
  | .name _ => by simp [Expr.names, Expr.targets, Expr.innerNames]
  | .list items | .tuple items => mem_exprNames items
  | .starred value => mem_names value
  | .constant _ | .named .. | .boolean .. | .binary .. | .unary .. | .lambda .. | .choice ..
  | .dict _ | .set _ | .comprehension .. | .dictComprehension .. | .await _ | .yield _
  | .yieldFrom _ | .compare .. | .call .. | .format _ | .attr .. | .subscript .. | .slice .. => by
    simp [Expr.targets, Expr.innerNames]

theorem mem_exprNames {a : String} :
    ∀ es : List Expr, a ∈ exprNames es ↔ a ∈ exprTargets es ∨ a ∈ exprInnerNames es
  | [] => by simp [exprNames, exprTargets, exprInnerNames]
  | e :: rest => by
    simp only [exprNames, exprTargets, exprInnerNames, List.mem_append, mem_names e,
      mem_exprNames rest]
    exact or_or_or_comm

end

/-- The names that a statement of the top level binds when it is run. -/
def Stmt.binds : Stmt → List String
  | .assign targets _ => exprTargets targets
  | .augment target .. => target.targets
  | .annotate target _ (some _) _ => target.targets
  | .annotate _ _ none _ => []
  | s => s.boundNames

/-- The names that stand in the targets of an assignment without being bound by it: those that are
announced without a value, and those within attributes and subscripts. -/
def Stmt.targetMentions : Stmt → List String
  | .assign targets _ => exprInnerNames targets
  | .augment target .. => target.innerNames
  | .annotate target _ (some _) _ => target.innerNames
  | .annotate target _ none _ => target.names
  | _ => []

/-- What is counted as bound is bound, or mentioned in a target. -/
theorem mem_boundNames {s : Stmt} {a : String} :
    a ∈ s.boundNames ↔ a ∈ s.binds ∨ a ∈ s.targetMentions := by
  cases s with
  | assign targets => exact mem_exprNames targets
  | augment target => exact mem_names target
  | annotate target hint value =>
    cases value with
    | none => simp [Stmt.boundNames, Stmt.binds, Stmt.targetMentions]
    | some value => exact mem_names target
  | _ => simp [Stmt.binds, Stmt.targetMentions]

/-- A definition binds its own name. -/
theorem mem_boundNames_of_definedName? {s : Stmt} {name a : String}
    (hname : s.definedName? = some name) (h : a ∈ s.boundNames) : a = name := by
  cases s <;> cases hname <;> exact List.mem_singleton.mp h

/-! ## Shaking -/

section

variable {body : List Stmt} {roots : List String} {s : Stmt} {name : String}

theorem mem_shake_of_loose (hs : s ∈ body) (hloose : s.definedName? = none) :
    s ∈ shake body roots :=
  List.mem_filter.mpr ⟨hs, by rw [staysWith, hloose]⟩

theorem mem_shake_iff_live (hs : s ∈ body) (hname : s.definedName? = some name) :
    s ∈ shake body roots ↔ name ∈ liveNames body roots := by
  simp [shake, staysWith, hs, hname]

/-- A definition stays if its name is asked for or a remaining statement mentions it. -/
theorem mem_shake_of_definedName? (hs : s ∈ body) (hname : s.definedName? = some name)
    (h : name ∈ roots ∨ ∃ x ∈ shake body roots, name ∈ x.names) : s ∈ shake body roots := by
  have hdefined : name ∈ definedNames body := List.mem_filterMap.mpr ⟨s, hs, hname⟩
  rw [mem_shake_iff_live hs hname, liveNames, Graph.mem_reachable]
  rcases h with hroot | ⟨x, hx, hmention⟩
  · exact .start (List.mem_append_left _ hroot) hdefined
  · have hbody : x ∈ body := (List.mem_filter.mp hx).1
    cases hother : x.definedName? with
    | none =>
      refine .start (List.mem_append_right _ ?_) hdefined
      exact List.mem_flatMap.mpr ⟨x, List.mem_filter.mpr ⟨hbody, by rw [hother]; rfl⟩, hmention⟩
    | some other =>
      -- A definition that mentions the name is live itself.
      rw [mem_shake_iff_live hbody hother, liveNames, Graph.mem_reachable] at hx
      refine .step hx ?_ hdefined
      exact List.mem_flatMap.mpr
        ⟨x, List.mem_filter.mpr ⟨hbody, decide_eq_true hother⟩, hmention⟩

/-- Shaking drops nothing of which all definitions are asked for. -/
theorem exists_shake {P : Stmt → Prop}
    (h : ∀ s, P s → ∀ name, s.definedName? = some name → name ∈ roots) :
    (∃ s ∈ shake body roots, P s) ↔ ∃ s ∈ body, P s := by
  constructor
  · rintro ⟨s, hs, hP⟩
    exact ⟨s, (List.mem_filter.mp hs).1, hP⟩
  · rintro ⟨s, hs, hP⟩
    refine ⟨s, ?_, hP⟩
    cases hname : s.definedName? with
    | none => exact mem_shake_of_loose hs hname
    | some name => exact mem_shake_of_definedName? hs hname (.inl (h s hP name hname))

end

/-! ## Stripping -/

theorem names_of_docText? {s : Stmt} (h : s.docText?.isSome = true) : s.names = [] := by
  unfold Stmt.docText? at h
  split at h
  · rfl
  · cases h

theorem blockNames_strippedBody (body : List Stmt) :
    blockNames (strippedBody body) = blockNames body := by
  cases body with
  | nil => rfl
  | cons s rest =>
    rw [strippedBody]
    split
    · next hdoc =>
      rw [blockNames, names_of_docText? hdoc]
      split
      · next hrest =>
        rw [List.isEmpty_iff.mp hrest]
        rfl
      · rfl
    · rfl

mutual

/-- Descriptions mention nothing. -/
theorem names_strip : ∀ s : Stmt, s.strip.names = s.names
  | .function _ _ _ _ _ body | .classDef _ _ _ _ body => by
    simp only [Stmt.strip, Stmt.names, blockNames_strippedBody, blockNames_stripBlock body]
  | .forEach _ _ _ body orElse | .loop _ body orElse | .branch _ body orElse => by
    simp only [Stmt.strip, Stmt.names, blockNames_stripBlock]
  | .using _ _ body => by
    simp only [Stmt.strip, Stmt.names, blockNames_stripBlock body]
  | .select _ cases => by
    simp only [Stmt.strip, Stmt.names, caseNames_stripCases cases]
  | .attempt _ body handlers orElse ensure => by
    simp only [Stmt.strip, Stmt.names, blockNames_stripBlock, handlerNames_stripHandlers]
  | .ret _ | .delete _ | .assign _ _ | .augment _ _ _ | .annotate _ _ _ _ | .raise _ _
  | .assertion _ _ | .importNames _ | .importFrom _ _ _ | .globalNames _ | .nonlocalNames _
  | .expr _ | .pass | .stop | .next => rfl

theorem blockNames_stripBlock : ∀ body : List Stmt, blockNames (stripBlock body) = blockNames body
  | [] => rfl
  | s :: rest => by
    simp only [stripBlock, blockNames, names_strip s, blockNames_stripBlock rest]

theorem handlerNames_stripHandlers : ∀ handlers : List Handler,
    handlerNames (stripHandlers handlers) = handlerNames handlers
  | [] => rfl
  | .mk _ _ body :: rest => by
    simp only [stripHandlers, handlerNames, blockNames_stripBlock body,
      handlerNames_stripHandlers rest]

theorem caseNames_stripCases : ∀ cases : List Case, caseNames (stripCases cases) = caseNames cases
  | [] => rfl
  | .mk _ _ body :: rest => by
    simp only [stripCases, caseNames, blockNames_stripBlock body, caseNames_stripCases rest]

end

@[simp] theorem binds_strip (s : Stmt) : s.strip.binds = s.binds := by cases s <;> rfl

@[simp] theorem boundNames_strip (s : Stmt) : s.strip.boundNames = s.boundNames := by
  cases s <;> rfl

theorem docText?_strip (s : Stmt) : s.strip.docText? = s.docText? := by cases s <;> rfl

theorem stripBlock_eq (body : List Stmt) : stripBlock body = body.map (·.strip) := by
  induction body with
  | nil => rfl
  | cons s rest ih => rw [stripBlock, ih, List.map_cons]

theorem mem_dropDescription {body : List Stmt} {s : Stmt} (hs : s.docText? = none) :
    s ∈ dropDescription body ↔ s ∈ body := by
  cases body with
  | nil => exact .rfl
  | cons first rest =>
    rw [dropDescription]
    split
    · next hdoc =>
      have hne : s ≠ first := fun h => by simp [← h, hs] at hdoc
      simp [hne]
    · exact .rfl

/-- A statement of a script that is no description is found stripped in the stripped script. -/
theorem strip_mem_stripScript {body : List Stmt} {s : Stmt} (hs : s ∈ body)
    (hdoc : s.docText? = none) : s.strip ∈ stripScript body := by
  rw [stripScript, stripBlock_eq, mem_dropDescription (by rw [docText?_strip, hdoc])]
  exact List.mem_map_of_mem hs

/-- Stripping a script drops only descriptions. -/
theorem exists_stripScript {P : Stmt → Prop} {body : List Stmt} (hstrip : ∀ s, P s.strip ↔ P s)
    (hdoc : ∀ s, P s → s.docText? = none) :
    (∃ s ∈ stripScript body, P s) ↔ ∃ s ∈ body, P s := by
  constructor
  · rintro ⟨s, hs, hP⟩
    rw [stripScript, stripBlock_eq, mem_dropDescription (hdoc s hP)] at hs
    obtain ⟨t, ht, rfl⟩ := List.mem_map.mp hs
    exact ⟨t, ht, (hstrip t).mp hP⟩
  · rintro ⟨s, hs, hP⟩
    exact ⟨s.strip, strip_mem_stripScript hs (hdoc s hP), (hstrip s).mpr hP⟩

end Workflow.Source
