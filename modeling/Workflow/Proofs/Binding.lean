/-
Imported names and the modules that bind them.

An import `from m import a` of a served module becomes a load of `a` from the
embedded module `m`. Of `m` everything stays that binds `a`, and every
definition that a remaining statement mentions, with descriptions and without
(`imports_provided`). A build does not make sure that anything binds `a`: it
counts the names that the targets of assignments mention, and so it may embed a
module that lacks what is loaded from it (`sketched_lacks_name`).
-/
import Workflow.Proofs.Containment
import Workflow.Proofs.Shaking

namespace Workflow

/-- A statement as a bundle has it: without descriptions when `minify` is set. -/
def Source.Stmt.finished (minify : Bool) (s : Source.Stmt) : Source.Stmt :=
  if minify then s.strip else s

namespace Bundle

open Source

variable {r : Registry} {installed : String → Bool} {minify : Bool} {entry : List Stmt} {l : Linked}

/-! ## Modules -/

section

variable {P : Stmt → Prop} {body : List Stmt}

theorem exists_finished (hstrip : ∀ s, P s.strip ↔ P s) (hdoc : ∀ s, P s → s.docText? = none) :
    (∃ s ∈ finished minify body, P s) ↔ ∃ s ∈ body, P s := by
  unfold finished
  split
  · exact exists_stripScript hstrip hdoc
  · exact .rfl

theorem finished_mem {s : Stmt} (hs : s ∈ body) (hdoc : s.docText? = none) :
    s.finished minify ∈ finished minify body := by
  unfold finished Stmt.finished
  split
  · exact strip_mem_stripScript hs hdoc
  · exact hs

theorem docText?_of_names {s : Stmt} {name : String} (h : name ∈ s.names) : s.docText? = none := by
  by_contra hdoc
  rw [names_of_docText? (Option.isSome_iff_ne_none.mpr hdoc)] at h
  cases h

theorem docText?_of_boundNames {s : Stmt} {name : String} (h : name ∈ s.boundNames) :
    s.docText? = none := by
  cases s with
  | expr => cases h
  | _ => rfl

theorem docText?_of_definedName? {s : Stmt} {name : String} (h : s.definedName? = some name) :
    s.docText? = none := by
  cases s with
  | expr => cases h
  | _ => rfl

end

/-- What the text of a module in a bundle has of the module with its imports linked. -/
structure Provides (minify : Bool) (imported : String → Prop) (linked final : List Stmt) :
    Prop where
  /-- An imported name is bound, or at least mentioned in the target of an assignment. -/
  counted : ∀ a, imported a → ∃ x ∈ final, a ∈ x.binds ∨ a ∈ x.targetMentions
  /-- It is bound whenever the module binds it at all. -/
  bound : ∀ a, imported a → ((∃ x ∈ final, a ∈ x.binds) ↔ ∃ x ∈ linked, a ∈ x.binds)
  /-- The definitions of the names that remaining statements mention are there. -/
  defined : ∀ d ∈ linked, ∀ name, d.definedName? = some name → (∃ x ∈ final, name ∈ x.names) →
    d.finished minify ∈ final

theorem Embedded.provides {e : Embedded} {m : String × List Stmt} (h : e.linked r minify = .ok m) :
    Provides minify (· ∈ e.requested) (linkedScript r (.module e.name) e.body) m.2 := by
  obtain ⟨rfl, hrequested⟩ := Embedded.linked_eq_ok h
  dsimp only at hrequested ⊢
  generalize linkedScript r (.module e.name) e.body = body at hrequested ⊢
  -- What is left of the module keeps all statements that bind or mention a name asked for.
  have hlive : ∀ {a : String} {P : Stmt → Prop}, a ∈ e.requested → (∀ s, P s.strip ↔ P s) →
      (∀ s, P s → a ∈ s.boundNames) →
      ((∃ s ∈ finished minify (if e.whole then body else shake body e.requested), P s) ↔
        ∃ s ∈ body, P s) := by
    intro a P ha hstrip hP
    rw [exists_finished hstrip fun s hs => docText?_of_boundNames (hP s hs)]
    split
    · exact .rfl
    · refine exists_shake fun s hs name hname => ?_
      rw [← mem_boundNames_of_definedName? hname (hP s hs)]
      exact ha
  constructor
  · intro a ha
    obtain ⟨s, hs, hbound⟩ := (hlive ha (fun s => by rw [boundNames_strip]) fun _ hs => hs).mpr
      (List.mem_flatMap.mp (hrequested a ha))
    exact ⟨s, hs, mem_boundNames.mp hbound⟩
  · intro a ha
    exact hlive ha (fun s => by rw [binds_strip]) fun _ hs => mem_boundNames.mpr (.inl hs)
  · intro d hd name hname hmention
    have hmention := (exists_finished (fun s => by rw [names_strip])
      fun _ hs => docText?_of_names hs).mp hmention
    refine finished_mem ?_ (docText?_of_definedName? hname)
    split at hmention
    · next hwhole => rwa [if_pos hwhole]
    · next hwhole =>
      rw [if_neg hwhole]
      exact mem_shake_of_definedName? hd hname (.inr hmention)

/-! ## Bundles -/

/-- A script of a bundle before it is linked: the entry, or an embedded module. -/
inductive Script (r : Registry) (entry : List Stmt) (l : Linked) : Importer → List Stmt → Prop
  | entry : Script r entry l .entry entry
  | module {m : String} {source : List Stmt} : m ∈ l.embedded → r.readModule m = .ok source →
      Script r entry l (.module m) source

/-- A name of a module is imported: somewhere in a bundle, a load of the name from the module takes
the place of an import. -/
def Imported (r : Registry) (entry : List Stmt) (l : Linked) (m a : String) : Prop :=
  ∃ importer source, Script r entry l importer source ∧ ∃ i ∈ blockImports source, ∃ target,
    Stmt.assign [.name target] (.attr (loadCall m) a) ∈ i.linked r importer

/-- A name that is loaded in the place of an import has been asked for. -/
theorem Became.mem_asks {importer : Importer} {i : Import} {own : List Ask} {target m a : String}
    (h : Became r importer i (.assign [.name target] (.attr (loadCall m) a)))
    (hgranted : Granted r importer i own) : Ask.member m a ∈ own := by
  generalize hx : Stmt.assign [.name target] (.attr (loadCall m) a) = x at h
  cases h with
  | feature => cases i <;> cases hx
  | kept | outside => cases hx
  | whole => simp [loadCall] at hx
  | @member from? names level name module b hfuture hname hmodule hb =>
    have hm : module = m := loads_assign_attr ⟨target, .inr ⟨a, hx.symm⟩⟩
    obtain ⟨-, ha⟩ := Expr.attr.inj (Stmt.assign.inj hx).2
    subst hm ha
    cases hgranted with
    | feature hfuture' => cases hfuture.symm.trans hfuture'
    | outside _ hname' hnone =>
      cases hname.symm.trans hname'
      cases hnone.symm.trans hmodule
    | members _ hname' hmodule' =>
      cases hname.symm.trans hname'
      cases hmodule.symm.trans hmodule'
      exact List.mem_map_of_mem hb

/-- **Linking survives shaking.**

A module from which a name is imported, by the entry or by an embedded module, is embedded. Its text
in the bundle binds the name just when the module does, and otherwise only mentions the name in the
targets of assignments; and it holds every definition of a name that it mentions. -/
theorem imports_provided (r : Registry) (installed : String → Bool) (minify : Bool)
    (origin code : String) (l : Linked) (h : build r minify origin code installed = .ok l) :
    ∃ entry, readAs origin code = .ok entry ∧
      (∀ m a, Imported r entry l m a → m ∈ l.embedded) ∧
      ∀ m final, (m, final) ∈ l.modules → ∃ source, r.readModule m = .ok source ∧
        Provides minify (Imported r entry l m) (linkedScript r (.module m) source) final := by
  obtain ⟨entry, hread, hlink, -⟩ := build_eq_ok.mp h
  obtain ⟨s, done, -, hserved, hnames, -, hentry, -, -, hmodules⟩ := collected_of_link hlink
  have hasked : ∀ m a, Imported r entry l m a → Ask.member m a ∈ done := by
    rintro m a ⟨importer, source, hscript, i, hi, target, hx⟩
    cases hscript with
    | entry =>
      obtain ⟨own, hown, hsubset⟩ := hentry i hi
      exact hsubset ((became hx).mem_asks hown)
    | @module n source hn hsource =>
      obtain ⟨⟨n, final⟩, hfinal, rfl⟩ := List.mem_map.mp hn
      obtain ⟨e, he, hlinked, hgranted⟩ := hmodules _ hfinal
      obtain ⟨hname, -⟩ := Embedded.linked_eq_ok hlinked
      cases hname
      cases hsource.symm.trans (hserved.serves e he).read
      obtain ⟨own, hown, hsubset⟩ := hgranted i hi
      exact hsubset ((became hx).mem_asks hown)
  refine ⟨entry, hread, fun m a himported => ?_, fun m final hfinal => ?_⟩
  · rw [hnames]
    exact hserved.mem_names.mpr ⟨_, hasked m a himported, rfl⟩
  · obtain ⟨e, he, hlinked, -⟩ := hmodules _ hfinal
    obtain ⟨hname, -⟩ := Embedded.linked_eq_ok hlinked
    obtain ⟨rfl, -⟩ := Prod.mk.inj hname
    have hserves := hserved.serves e he
    have hrequested : ∀ a, Imported r entry l e.name a → a ∈ e.requested := by
      intro a ha
      rw [hserves.requested]
      exact List.mem_filterMap.mpr ⟨_, hasked _ a ha, by simp [Ask.memberOf?]⟩
    have hprovides := Embedded.provides hlinked
    exact ⟨e.body, hserves.read, fun a ha => hprovides.counted a (hrequested a ha),
      fun a ha => hprovides.bound a (hrequested a ha), hprovides.defined⟩

/-- A variable that is only announced can be imported, and nothing binds it. -/
theorem sketched_lacks_name :
    build sketch true "entry.py" "from m import a\n" = .ok sketched ∧
      Stmt.assign [.name "a"] (.attr (loadCall "m") "a") ∈ sketched.entry ∧
      ∀ final, ("m", final) ∈ sketched.modules → ∀ x ∈ final, "a" ∉ x.binds := by
  refine ⟨build_sketch, List.mem_singleton.mpr rfl, fun final hfinal x hx => ?_⟩
  cases List.mem_singleton.mp hfinal
  simp only [sketchBody, List.mem_cons, List.not_mem_nil, or_false] at hx
  rcases hx with rfl | rfl <;> decide

theorem sketched_provided :
    Imported sketch [.importFrom (some "m") [⟨"a", none⟩] 0] sketched "m" "a" ∧
      Provides true (Imported sketch [.importFrom (some "m") [⟨"a", none⟩] 0] sketched "m")
        (linkedScript sketch (.module "m") sketchBody) sketchBody := by
  have himported : Imported sketch [.importFrom (some "m") [⟨"a", none⟩] 0] sketched "m" "a" :=
    ⟨.entry, _, .entry, .members (some "m") [⟨"a", none⟩] 0, List.mem_singleton.mpr rfl, "a",
      List.mem_singleton.mpr rfl⟩
  obtain ⟨entry, hread, -, hmodules⟩ :=
    imports_provided sketch isInstalled true "entry.py" "from m import a\n" sketched build_sketch
  cases hread.symm.trans readAs_sketch
  obtain ⟨source, hsource, hprovides⟩ := hmodules "m" sketchBody (List.mem_singleton.mpr rfl)
  cases hsource.symm.trans readModule_sketch
  exact ⟨himported, hprovides⟩

end Bundle

end Workflow
