/-
The simple statements of scripts.

A statement that holds no others is a leaf of the script in which it stands, at
whatever depth. Imports are leaves, and linking replaces them and keeps all
other leaves (`leaves_blockLinked`). Leaving out definitions and descriptions
adds no leaf but `pass` (`mem_leaves_shake`, `leaves_stripScript`).
-/
import Workflow.Bundle.Build

namespace Workflow.Source

mutual

/-- The leaves of a statement, in order. -/
def Stmt.leaves : Stmt → List Stmt
  | .function _ _ _ _ _ body => blockLeaves body
  | .classDef _ _ _ _ body => blockLeaves body
  | .forEach _ _ _ body orElse => blockLeaves body ++ blockLeaves orElse
  | .loop _ body orElse => blockLeaves body ++ blockLeaves orElse
  | .branch _ body orElse => blockLeaves body ++ blockLeaves orElse
  | .using _ _ body => blockLeaves body
  | .select _ cases => caseLeaves cases
  | .attempt _ body handlers orElse ensure =>
    blockLeaves body ++ handlerLeaves handlers ++ blockLeaves orElse ++ blockLeaves ensure
  | s => [s]
termination_by structural s => s

/-- The leaves of a block. -/
def blockLeaves : List Stmt → List Stmt
  | [] => []
  | s :: rest => s.leaves ++ blockLeaves rest
termination_by structural body => body

/-- The leaves of `except` clauses. -/
def handlerLeaves : List Handler → List Stmt
  | [] => []
  | .mk _ _ body :: rest => blockLeaves body ++ handlerLeaves rest
termination_by structural handlers => handlers

/-- The leaves of `case` clauses. -/
def caseLeaves : List Case → List Stmt
  | [] => []
  | .mk _ _ body :: rest => blockLeaves body ++ caseLeaves rest
termination_by structural cases => cases

end

theorem blockLeaves_eq (body : List Stmt) : blockLeaves body = body.flatMap (·.leaves) := by
  induction body with
  | nil => rfl
  | cons s rest ih => rw [blockLeaves, ih, List.flatMap_cons]

theorem blockLeaves_append (a b : List Stmt) :
    blockLeaves (a ++ b) = blockLeaves a ++ blockLeaves b := by
  simp [blockLeaves_eq]

theorem blockLeaves_subset {a b : List Stmt} (h : ∀ s ∈ a, s ∈ b) :
    ∀ leaf ∈ blockLeaves a, leaf ∈ blockLeaves b := by
  simp only [blockLeaves_eq, List.mem_flatMap]
  rintro leaf ⟨s, hs, hleaf⟩
  exact ⟨s, h s hs, hleaf⟩

/-- Statements that hold no others are their own leaves. -/
theorem blockLeaves_simple {body : List Stmt} (h : ∀ s ∈ body, s.leaves = [s]) :
    blockLeaves body = body := by
  induction body with
  | nil => rfl
  | cons s rest ih =>
    obtain ⟨hs, hrest⟩ := List.forall_mem_cons.mp h
    rw [blockLeaves, hs, ih hrest]
    rfl

theorem mem_leaves_shake {body : List Stmt} {roots : List String} :
    ∀ leaf ∈ blockLeaves (shake body roots), leaf ∈ blockLeaves body :=
  blockLeaves_subset fun _ hs => (List.mem_filter.mp hs).1

/-! ## Descriptions -/

section

variable {P : Stmt → Prop}

theorem leaves_strippedBody (hpass : P .pass) {body : List Stmt} (h : ∀ x ∈ blockLeaves body, P x) :
    ∀ x ∈ blockLeaves (strippedBody body), P x := by
  cases body with
  | nil => exact h
  | cons s rest =>
    rw [strippedBody]
    split
    · split
      · simpa [blockLeaves, Stmt.leaves] using hpass
      · exact fun x hx => h x (List.mem_append_right _ hx)
    · exact h

mutual

/-- What holds of all leaves and of `pass` holds of all leaves without the descriptions. -/
theorem leaves_strip (hpass : P .pass) : ∀ s : Stmt,
    (∀ x ∈ s.leaves, P x) → ∀ x ∈ s.strip.leaves, P x
  | .function _ _ _ _ _ body, h | .classDef _ _ _ _ body, h =>
    leaves_strippedBody hpass (leaves_stripBlock hpass body h)
  | .forEach _ _ _ body orElse, h | .loop _ body orElse, h | .branch _ body orElse, h => by
    simp only [Stmt.strip, Stmt.leaves, List.forall_mem_append] at h ⊢
    exact ⟨leaves_stripBlock hpass body h.1, leaves_stripBlock hpass orElse h.2⟩
  | .using _ _ body, h => leaves_stripBlock hpass body h
  | .select _ cases, h => leaves_stripCases hpass cases h
  | .attempt _ body handlers orElse ensure, h => by
    simp only [Stmt.strip, Stmt.leaves, List.forall_mem_append] at h ⊢
    obtain ⟨⟨⟨hbody, hhandlers⟩, horElse⟩, hensure⟩ := h
    exact ⟨⟨⟨leaves_stripBlock hpass body hbody, leaves_stripHandlers hpass handlers hhandlers⟩,
      leaves_stripBlock hpass orElse horElse⟩, leaves_stripBlock hpass ensure hensure⟩
  | .ret _, h | .delete _, h | .assign _ _, h | .augment _ _ _, h | .annotate _ _ _ _, h
  | .raise _ _, h | .assertion _ _, h | .importNames _, h | .importFrom _ _ _, h
  | .globalNames _, h | .nonlocalNames _, h | .expr _, h | .pass, h | .stop, h | .next, h => h

theorem leaves_stripBlock (hpass : P .pass) : ∀ body : List Stmt,
    (∀ x ∈ blockLeaves body, P x) → ∀ x ∈ blockLeaves (stripBlock body), P x
  | [], h => h
  | s :: rest, h => by
    simp only [stripBlock, blockLeaves, List.forall_mem_append] at h ⊢
    exact ⟨leaves_strip hpass s h.1, leaves_stripBlock hpass rest h.2⟩

theorem leaves_stripHandlers (hpass : P .pass) : ∀ handlers : List Handler,
    (∀ x ∈ handlerLeaves handlers, P x) → ∀ x ∈ handlerLeaves (stripHandlers handlers), P x
  | [], h => h
  | .mk _ _ body :: rest, h => by
    simp only [stripHandlers, handlerLeaves, List.forall_mem_append] at h ⊢
    exact ⟨leaves_stripBlock hpass body h.1, leaves_stripHandlers hpass rest h.2⟩

theorem leaves_stripCases (hpass : P .pass) : ∀ cases : List Case,
    (∀ x ∈ caseLeaves cases, P x) → ∀ x ∈ caseLeaves (stripCases cases), P x
  | [], h => h
  | .mk _ _ body :: rest, h => by
    simp only [stripCases, caseLeaves, List.forall_mem_append] at h ⊢
    exact ⟨leaves_stripBlock hpass body h.1, leaves_stripCases hpass rest h.2⟩

end

theorem leaves_stripScript (hpass : P .pass) {body : List Stmt} (h : ∀ x ∈ blockLeaves body, P x) :
    ∀ x ∈ blockLeaves (stripScript body), P x := by
  have hstrip := leaves_stripBlock hpass body h
  rw [stripScript]
  cases hb : stripBlock body with
  | nil => exact nofun
  | cons first rest =>
    rw [hb] at hstrip
    rw [dropDescription]
    split
    · exact fun x hx => hstrip x (List.mem_append_right _ hx)
    · exact hstrip

end

end Workflow.Source

namespace Workflow.Bundle

open Source

/-! ## Imports -/

/-- A statement as an import. -/
def import? : Stmt → Option Import
  | .importNames names => some (.modules names)
  | .importFrom module names level => some (.members module names level)
  | _ => none

@[simp] theorem import?_toStmt (i : Import) : import? i.toStmt = some i := by
  cases i <;> rfl

mutual

theorem stmtImports_eq : ∀ s : Stmt, stmtImports s = s.leaves.filterMap import?
  | .function _ _ _ _ _ body | .classDef _ _ _ _ body => blockImports_eq body
  | .forEach _ _ _ body orElse | .loop _ body orElse | .branch _ body orElse => by
    simp only [stmtImports, Stmt.leaves, List.filterMap_append, blockImports_eq]
  | .using _ _ body => blockImports_eq body
  | .select _ cases => caseImports_eq cases
  | .attempt _ body handlers orElse ensure => by
    simp only [stmtImports, Stmt.leaves, List.filterMap_append, blockImports_eq, handlerImports_eq]
  | .ret _ | .delete _ | .assign _ _ | .augment _ _ _ | .annotate _ _ _ _ | .raise _ _
  | .assertion _ _ | .importNames _ | .importFrom _ _ _ | .globalNames _ | .nonlocalNames _
  | .expr _ | .pass | .stop | .next => rfl

/-- The imports of a script are those of its leaves that import. -/
theorem blockImports_eq : ∀ body : List Stmt,
    blockImports body = (blockLeaves body).filterMap import?
  | [] => rfl
  | s :: rest => by
    simp only [blockImports, blockLeaves, List.filterMap_append, stmtImports_eq, blockImports_eq]

theorem handlerImports_eq : ∀ handlers : List Source.Handler,
    handlerImports handlers = (handlerLeaves handlers).filterMap import?
  | [] => rfl
  | .mk _ _ body :: rest => by
    simp only [handlerImports, handlerLeaves, List.filterMap_append, blockImports_eq,
      handlerImports_eq]

theorem caseImports_eq : ∀ cases : List Case,
    caseImports cases = (caseLeaves cases).filterMap import?
  | [] => rfl
  | .mk _ _ body :: rest => by
    simp only [caseImports, caseLeaves, List.filterMap_append, blockImports_eq, caseImports_eq]

end

theorem mem_blockImports {body : List Stmt} {i : Import} :
    i ∈ blockImports body ↔ i.toStmt ∈ blockLeaves body := by
  rw [blockImports_eq, List.mem_filterMap]
  constructor
  · rintro ⟨s, hs, hi⟩
    cases s <;> cases hi <;> exact hs
  · exact fun h => ⟨_, h, import?_toStmt i⟩

section

variable {f : Import → List Stmt}

/-- What takes the place of a leaf: of an import what `f` says, and of any other itself. -/
def replacement (f : Import → List Stmt) (s : Stmt) : List Stmt :=
  ((import? s).map f).getD [s]

mutual

theorem leaves_stmtLinked (hf : ∀ i, ∀ s ∈ f i, s.leaves = [s]) : ∀ s : Stmt,
    blockLeaves (stmtLinked f s) = s.leaves.flatMap (replacement f)
  | .importNames _ | .importFrom _ _ _ => by
    simp only [stmtLinked, Stmt.leaves, List.flatMap_singleton]
    exact blockLeaves_simple (hf _)
  | .function _ _ _ _ _ body | .classDef _ _ _ _ body | .using _ _ body => by
    simp only [stmtLinked, blockLeaves, Stmt.leaves, List.append_nil, leaves_blockLinked hf body]
  | .forEach _ _ _ body orElse | .loop _ body orElse | .branch _ body orElse => by
    simp only [stmtLinked, blockLeaves, Stmt.leaves, List.append_nil, List.flatMap_append,
      leaves_blockLinked hf]
  | .select _ cases => by
    simp only [stmtLinked, blockLeaves, Stmt.leaves, List.append_nil, leaves_casesLinked hf cases]
  | .attempt _ body handlers orElse ensure => by
    simp only [stmtLinked, blockLeaves, Stmt.leaves, List.append_nil, List.flatMap_append,
      leaves_blockLinked hf, leaves_handlersLinked hf]
  | .ret _ | .delete _ | .assign _ _ | .augment _ _ _ | .annotate _ _ _ _ | .raise _ _
  | .assertion _ _ | .globalNames _ | .nonlocalNames _ | .expr _ | .pass | .stop | .next => rfl

/-- Linking a script replaces its imports, and keeps the other leaves. -/
theorem leaves_blockLinked (hf : ∀ i, ∀ s ∈ f i, s.leaves = [s]) : ∀ body : List Stmt,
    blockLeaves (blockLinked f body) = (blockLeaves body).flatMap (replacement f)
  | [] => rfl
  | s :: rest => by
    simp only [blockLinked, blockLeaves, blockLeaves_append, List.flatMap_append,
      leaves_stmtLinked hf, leaves_blockLinked hf]

theorem leaves_handlersLinked (hf : ∀ i, ∀ s ∈ f i, s.leaves = [s]) :
    ∀ handlers : List Source.Handler,
    handlerLeaves (handlersLinked f handlers) = (handlerLeaves handlers).flatMap (replacement f)
  | [] => rfl
  | .mk _ _ body :: rest => by
    simp only [handlersLinked, handlerLeaves, List.flatMap_append, leaves_blockLinked hf,
      leaves_handlersLinked hf]

theorem leaves_casesLinked (hf : ∀ i, ∀ s ∈ f i, s.leaves = [s]) : ∀ cases : List Case,
    caseLeaves (casesLinked f cases) = (caseLeaves cases).flatMap (replacement f)
  | [] => rfl
  | .mk _ _ body :: rest => by
    simp only [casesLinked, caseLeaves, List.flatMap_append, leaves_blockLinked hf,
      leaves_casesLinked hf]

end

end

variable {r : Registry} {importer : Importer}

/-- What may take the place of an import. -/
inductive Became (r : Registry) (importer : Importer) : Import → Stmt → Prop
  /-- A request for features of the language stays, unless it stands in the entry. -/
  | feature {i : Import} : i.isFuture = true → importer ≠ .entry → Became r importer i i.toStmt
  /-- Of `import a, b` the modules that the registry does not serve stay. -/
  | kept {names : List Alias} : Became r importer (.modules names)
      (.importNames (names.filter fun a => (r.resolve a.name).isNone))
  | whole {names : List Alias} {a : Alias} {module : String} : a ∈ names →
      r.resolve a.name = some module → Became r importer (.modules names)
        (.assign [.name (a.given.getD a.name)] (loadCall module))
  /-- `from a import b` stays unless the registry serves `a`. -/
  | outside {from? : Option String} {names : List Alias} {level : Nat} :
      (Import.members from? names level).isFuture = false →
      (∀ name, absoluteName importer from? level = .ok name → r.resolve name = none) →
      Became r importer (.members from? names level) (.importFrom from? names level)
  | member {from? : Option String} {names : List Alias} {level : Nat} {name module : String}
      {a : Alias} : (Import.members from? names level).isFuture = false →
      absoluteName importer from? level = .ok name → r.resolve name = some module → a ∈ names →
      Became r importer (.members from? names level)
        (.assign [.name (a.given.getD a.name)] (.attr (loadCall module) a.name))

theorem became {i : Import} {s : Stmt} (h : s ∈ i.linked r importer) : Became r importer i s := by
  unfold Import.linked at h
  split at h
  · next hfuture =>
    split at h
    · cases h
    · next hentry =>
      rw [List.mem_singleton.mp h]
      exact .feature hfuture hentry
  next hfuture =>
    have hfuture := eq_false_of_ne_true hfuture
    split at h
    · next names =>
      rcases List.mem_append.mp h with h | h
      · split at h
        · cases h
        · rw [List.mem_singleton.mp h]
          exact .kept
      · obtain ⟨a, ha, hs⟩ := List.mem_filterMap.mp h
        obtain ⟨module, hmodule, rfl⟩ := Option.map_eq_some_iff.mp hs
        exact .whole ha hmodule
    · split at h
      · next hname =>
        rw [List.mem_singleton.mp h]
        exact .outside hfuture fun name hok => by simp [hname] at hok
      · next name hname =>
        split at h
        · next hnone =>
          rw [List.mem_singleton.mp h]
          exact .outside hfuture fun name' hok => by cases hname.symm.trans hok; exact hnone
        · next module hmodule =>
          obtain ⟨a, ha, rfl⟩ := List.mem_map.mp h
          exact .member hfuture hname hmodule ha

theorem leaves_linked (i : Import) : ∀ s ∈ i.linked r importer, s.leaves = [s] := by
  intro s hs
  cases became hs with
  | feature => cases i <;> rfl
  | kept | whole | outside | member => rfl

/-- A leaf of a linked script was a leaf before, or takes the place of an import. -/
theorem mem_leaves_linkedScript {body : List Stmt} {x : Stmt} :
    x ∈ blockLeaves (linkedScript r importer body) ↔
      (x ∈ blockLeaves body ∧ import? x = none) ∨
        ∃ i ∈ blockImports body, x ∈ i.linked r importer := by
  rw [linkedScript, leaves_blockLinked leaves_linked, List.mem_flatMap]
  constructor
  · rintro ⟨s, hs, hx⟩
    unfold replacement at hx
    cases hi : import? s with
    | none =>
      simp only [hi, Option.map_none, Option.getD_none, List.mem_singleton] at hx
      subst hx
      exact .inl ⟨hs, hi⟩
    | some i =>
      simp only [hi, Option.map_some, Option.getD_some] at hx
      exact .inr ⟨i, by rw [blockImports_eq]; exact List.mem_filterMap.mpr ⟨s, hs, hi⟩, hx⟩
  · rintro (⟨hx, hnone⟩ | ⟨i, hi, hx⟩)
    · exact ⟨x, hx, by simp [replacement, hnone]⟩
    · exact ⟨i.toStmt, mem_blockImports.mp hi, by simpa [replacement] using hx⟩

end Workflow.Bundle
