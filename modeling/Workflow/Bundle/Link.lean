/-
Collecting the modules of a bundle.

The imports of the entry ask for modules; each module that is asked for the
first time is read and joins the end of the list, and the imports of the
modules in the list ask for more, in order. Every step reads a provider that
was not read before or passes one module of the list, so the walk ends.
-/
import Workflow.Bundle.Import
import Workflow.Graph.Reach
import Workflow.Source.Statement

namespace Workflow.Bundle

open Source

/-- A module that joins a bundle. -/
structure Embedded where
  name : String
  body : List Stmt
  /-- The names that importers ask for, in order. -/
  requested : List String
  /-- Whether some importer asks for the whole module. -/
  whole : Bool
  deriving Inhabited

/-- What has been collected. -/
structure Linking where
  /-- The modules, in the order in which they were first asked for. -/
  modules : List Embedded
  /-- The first names of the installed modules, in the order in which they were first asked for. -/
  external : List String
  deriving Inhabited

def readAs (origin text : String) : Except BuildError (List Stmt) :=
  match readScript text with
  | .ok body => .ok body
  | .error .nullCharacter => .error .nullCharacter
  | .error _ => .error (.malformed origin)

/-- The source of a provider module as a script. -/
def Registry.readModule (r : Registry) (module : String) : Except BuildError (List Stmt) :=
  match r.readSource module with
  | .error (.noPackage name) => .error (.noModule (.noPackage name))
  | .error fault => .error (.unreadable module fault)
  | .ok source => readAs module source

namespace Linking

def names (s : Linking) : List String := s.modules.map (·.name)

/-- Takes a module in, unless it has been. -/
def embed (r : Registry) (s : Linking) (module : String) : Except BuildError Linking :=
  if module ∈ s.names then .ok s
  else
    match r.readModule module with
    | .error e => .error e
    | .ok body => .ok { s with modules := s.modules ++ [⟨module, body, [], false⟩] }

def update (s : Linking) (module : String) (f : Embedded → Embedded) : Linking :=
  { s with modules := s.modules.map fun e => if e.name = module then { f e with name := e.name } else e }

/-- Does what an import asks for. -/
def take (r : Registry) (s : Linking) : Ask → Except BuildError Linking
  | .outside top =>
    .ok { s with external := if top ∈ s.external then s.external else s.external ++ [top] }
  | .whole module =>
    (s.embed r module).map (·.update module fun e => { e with whole := true })
  | .member module name =>
    (s.embed r module).map (·.update module fun e => { e with requested := e.requested ++ [name] })

/-- Does what several imports ask for, up to the first error. -/
def takeAll (r : Registry) (s : Linking) : List (Except BuildError Ask) → Except BuildError Linking
  | [] => .ok s
  | .error e :: _ => .error e
  | .ok ask :: rest =>
    match s.take r ask with
    | .error e => .error e
    | .ok s => s.takeAll r rest

/-- The provider modules that have not been read. -/
def unread (r : Registry) (s : Linking) : Nat := (Graph.unseen (r.providers.map (·.1)) s.names).length

@[simp] theorem names_update (s : Linking) (module : String) (f : Embedded → Embedded) :
    (s.update module f).names = s.names := by
  simp only [names, update, List.map_map]
  congr 1
  funext e
  simp only [Function.comp_apply]
  split <;> rfl

theorem mem_of_readModule {r : Registry} {module : String} {body : List Stmt}
    (h : r.readModule module = .ok body) : module ∈ r.providers.map (·.1) := by
  unfold Registry.readModule Registry.readSource at h
  cases hl : r.providers.lookup module with
  | none => simp [hl] at h
  | some source =>
    obtain ⟨l₁, l₂, heq, _⟩ := List.lookup_eq_some_iff.mp hl
    simp [heq]

/-- A step reads a provider that was not read before, or keeps the list as it is. -/
def Advances (r : Registry) (s s' : Linking) : Prop :=
  s'.unread r < s.unread r ∨ s'.names = s.names

theorem Advances.trans {r : Registry} {s₁ s₂ s₃ : Linking} (h₁ : Advances r s₁ s₂)
    (h₂ : Advances r s₂ s₃) : Advances r s₁ s₃ := by
  unfold Advances unread at *
  rcases h₁ with h₁ | h₁ <;> rcases h₂ with h₂ | h₂
  · exact .inl (by omega)
  · exact .inl (by rw [h₂]; exact h₁)
  · exact .inl (by rw [h₁] at h₂; exact h₂)
  · exact .inr (by rw [h₂, h₁])

theorem embed_advances {r : Registry} {s s' : Linking} {module : String}
    (h : s.embed r module = .ok s') : Advances r s s' := by
  unfold embed at h
  split at h
  · cases h
    exact .inr rfl
  · next hnew =>
    split at h
    · cases h
    · next body hread =>
      cases h
      have hlt := Graph.length_unseen_cons_lt (mem_of_readModule hread) hnew
      have heq : ({ s with modules := s.modules ++ [⟨module, body, [], false⟩] } : Linking).unread r =
          (Graph.unseen (r.providers.map (·.1)) (module :: s.names)).length := by
        unfold unread Graph.unseen
        congr 1
        apply List.filter_congr
        intro name _
        simp only [names, List.map_append, List.map_cons, List.map_nil, List.mem_append,
          List.mem_cons, List.not_mem_nil, false_or, or_comm]
      exact .inl (by rw [heq]; exact hlt)

theorem take_advances {r : Registry} {s s' : Linking} {ask : Ask}
    (h : s.take r ask = .ok s') : Advances r s s' := by
  cases ask with
  | outside top =>
    cases h
    exact .inr rfl
  | whole module =>
    unfold take at h
    cases ha : s.embed r module with
    | error e => simp [ha, Except.map] at h
    | ok s₁ =>
      simp only [ha, Except.map, Except.ok.injEq] at h
      subst h
      exact (embed_advances ha).trans (.inr (names_update ..))
  | member module name =>
    unfold take at h
    cases ha : s.embed r module with
    | error e => simp [ha, Except.map] at h
    | ok s₁ =>
      simp only [ha, Except.map, Except.ok.injEq] at h
      subst h
      exact (embed_advances ha).trans (.inr (names_update ..))

theorem takeAll_advances {r : Registry} {s s' : Linking} {asks : List (Except BuildError Ask)}
    (h : s.takeAll r asks = .ok s') : Advances r s s' := by
  induction asks generalizing s with
  | nil =>
    cases h
    exact .inr rfl
  | cons a rest ih =>
    cases a with
    | error e => cases h
    | ok ask =>
      unfold takeAll at h
      split at h
      · cases h
      · next ht => exact (take_advances ht).trans (ih h)

/-- Does what the modules from the `k`-th on ask for. -/
def collectFrom (r : Registry) (installed : String → Bool) (k : Nat) (s : Linking) :
    Except BuildError Linking :=
  if hk : k < s.modules.length then
    let e := s.modules[k]
    match h : s.takeAll r (scriptAsks r installed (.module e.name) e.body) with
    | .error e => .error e
    | .ok s' => collectFrom r installed (k + 1) s'
  else .ok s
termination_by (s.unread r, s.modules.length - k)
decreasing_by
  rcases takeAll_advances h with hlt | heq
  · exact Prod.Lex.left _ _ hlt
  · have hu : s'.unread r = s.unread r := by simp only [unread, heq]
    have hl : s'.modules.length = s.modules.length := by
      simpa [names] using congrArg List.length heq
    rw [hu, hl]
    exact Prod.Lex.right _ (by omega)

/-- Collects the modules that an entry needs. -/
def collect (r : Registry) (installed : String → Bool) (entry : List Stmt) :
    Except BuildError Linking :=
  match takeAll r ⟨[], []⟩ (scriptAsks r installed .entry entry) with
  | .error e => .error e
  | .ok s => s.collectFrom r installed 0

end Linking

end Workflow.Bundle
