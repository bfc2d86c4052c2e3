/-
Bundles are self-contained.

A bundle holds the entry and the collected modules with their imports linked,
less what nobody asks for. Whatever the statements that take the place of
imports load is embedded, and the imports that are left name nothing that the
registry serves and nothing that belongs to the bundler, but for requests for
features of the language (`bundle_self_contained`).
-/
import Workflow.Proofs.Embedding

namespace Workflow

/-- A statement that loads an embedded module, or a name of one. -/
def Source.Stmt.Loads (x : Source.Stmt) (m : String) : Prop :=
  ∃ target, x = .assign [.name target] (Bundle.loadCall m) ∨
    ∃ a, x = .assign [.name target] (.attr (Bundle.loadCall m) a)

namespace Bundle

open Source
open Workflow.Handler (bind_eq_ok exists_eq_ok)

variable {r : Registry} {installed : String → Bool} {minify : Bool} {entry : List Stmt} {l : Linked}

/-! ## Builds -/

theorem forall₂_of_mapM {α β ε : Type} {f : α → Except ε β} {as : List α} {bs : List β}
    (h : as.mapM f = .ok bs) : List.Forall₂ (fun a b => f a = .ok b) as bs := by
  induction as generalizing bs with
  | nil =>
    cases h
    exact .nil
  | cons a as ih =>
    rw [List.mapM_cons] at h
    obtain ⟨b, hb, h⟩ := bind_eq_ok.mp h
    obtain ⟨rest, hrest, h⟩ := bind_eq_ok.mp h
    cases h
    exact .cons hb (ih hrest)

theorem build_eq_ok {origin code : String} : build r minify origin code installed = .ok l ↔
    ∃ entry, readAs origin code = .ok entry ∧ link r installed minify entry = .ok l ∧
      l.isRunnable = true := by
  unfold build
  simp only [bind_eq_ok]
  constructor
  · rintro ⟨entry, hread, linked, hlink, h⟩
    split at h
    · next hrunnable =>
      cases h
      exact ⟨entry, hread, hlink, hrunnable⟩
    · cases h
  · rintro ⟨entry, hread, hlink, hrunnable⟩
    exact ⟨entry, hread, l, hlink, by rw [if_pos hrunnable]; rfl⟩

theorem mem_sortedNames {names : List String} {name : String} :
    name ∈ sortedNames names ↔ name ∈ names := by
  rw [sortedNames, List.mem_mergeSort, List.mem_eraseDups]

/-- What becomes of a script: without what nobody asks for if it is a module of which only some
names are asked for, and without descriptions when `minify` is set. -/
def finished (minify : Bool) (body : List Stmt) : List Stmt :=
  if minify then stripScript body else body

/-- How a module is linked. -/
theorem Embedded.linked_eq_ok {e : Embedded} {m : String × List Stmt}
    (h : e.linked r minify = .ok m) :
    let body := linkedScript r (.module e.name) e.body
    m = (e.name, finished minify (if e.whole then body else shake body e.requested)) ∧
      ∀ name ∈ e.requested, name ∈ boundNames body := by
  unfold Embedded.linked at h
  dsimp only at h ⊢
  split at h
  · next hmissing =>
    cases h
    refine ⟨rfl, fun name hname => by_contra fun hbound => ?_⟩
    have hmem : name ∈ sortedNames (e.requested.filter (· ∉ boundNames
        (linkedScript r (.module e.name) e.body))) := by
      rw [mem_sortedNames]
      exact List.mem_filter.mpr ⟨hname, decide_eq_true hbound⟩
    rw [hmissing] at hmem
    cases hmem
  · cases h

theorem names_of_linked {es : List Embedded} {ms : List (String × List Stmt)}
    (h : List.Forall₂ (fun e m => e.linked r minify = .ok m) es ms) :
    ms.map (·.1) = es.map (·.name) := by
  induction h with
  | nil => rfl
  | cons hm _ ih => rw [List.map_cons, List.map_cons, ih, (Embedded.linked_eq_ok hm).1]

theorem exists_linked {es : List Embedded} {ms : List (String × List Stmt)}
    (h : List.Forall₂ (fun e m => e.linked r minify = .ok m) es ms) {m : String × List Stmt}
    (hm : m ∈ ms) : ∃ e ∈ es, e.linked r minify = .ok m := by
  induction h with
  | nil => cases hm
  | cons he _ ih =>
    rcases List.mem_cons.mp hm with rfl | hm
    · exact ⟨_, List.mem_cons_self, he⟩
    · obtain ⟨e, hmem, he⟩ := ih hm
      exact ⟨e, List.mem_cons_of_mem _ hmem, he⟩

/-- How a bundle is linked. -/
theorem link_eq_ok (h : link r installed minify entry = .ok l) :
    ∃ s, Linking.collect r installed entry = .ok s ∧
      List.Forall₂ (fun e m => e.linked r minify = .ok m) s.modules l.modules ∧
      l.entry = finished minify (linkedScript r .entry entry) ∧
      l.features = (blockImports entry).filter (·.isFuture) := by
  obtain ⟨s, hs, h⟩ := bind_eq_ok.mp h
  obtain ⟨modules, hmodules, h⟩ := bind_eq_ok.mp h
  cases h
  exact ⟨s, hs, forall₂_of_mapM hmodules, rfl, rfl⟩

/-! ## Scripts -/

/-- An import names nothing that the registry serves and nothing that belongs to the bundler. -/
def Import.Foreign (r : Registry) (importer : Importer) : Import → Prop
  | .modules names => ∀ a ∈ names, r.resolve a.name = none ∧ isInternalName a.name = false
  | .members module _ level => ∃ name, absoluteName importer module level = .ok name ∧
      r.resolve name = none ∧ isInternalName name = false

/-- A script has been linked so that it needs nothing of the registry beside the embedded modules:
what takes the place of its imports loads embedded modules, there are no other new loads, and
every import that is left is foreign or, in a module, asks for features of the language. -/
structure SelfContained (r : Registry) (embedded : List String) (importer : Importer)
    (source final : List Stmt) : Prop where
  replaced : ∀ i ∈ blockImports source, ∀ x ∈ i.linked r importer, ∀ m, x.Loads m → m ∈ embedded
  loads : ∀ x ∈ blockLeaves final, ∀ m, x.Loads m → m ∈ embedded ∨ x ∈ blockLeaves source
  imports : ∀ i ∈ blockImports final,
    (i.isFuture = true ∧ importer ≠ .entry) ∨ i.Foreign r importer

variable {importer : Importer} {embedded : List String} {source : List Stmt}

theorem loads_assign {target m module : String}
    (h : Stmt.Loads (.assign [.name target] (loadCall module)) m) : module = m := by
  obtain ⟨_, h | ⟨_, h⟩⟩ := h
  · simp only [loadCall, Stmt.assign.injEq, Expr.call.injEq, List.cons.injEq, Expr.constant.injEq,
      Constant.str.injEq] at h
    exact h.2.2.1.1.1
  · simp [loadCall] at h

theorem loads_assign_attr {target a m module : String}
    (h : Stmt.Loads (.assign [.name target] (.attr (loadCall module) a)) m) : module = m := by
  obtain ⟨_, h | ⟨_, h⟩⟩ := h
  · simp [loadCall] at h
  · simp only [loadCall, Stmt.assign.injEq, Expr.attr.injEq, Expr.call.injEq, List.cons.injEq,
      Expr.constant.injEq, Constant.str.injEq] at h
    exact h.2.1.2.1.1.1

/-- What takes the place of an import loads what the import asks for. -/
theorem Became.loads {i : Import} {own : List Ask} {x : Stmt} {m : String}
    (h : Became r importer i x) (hgranted : Granted r importer i own) (hx : x.Loads m) :
    ∃ ask ∈ own, ask.module? = some m := by
  cases h with
  | feature =>
    obtain ⟨_, h | ⟨_, h⟩⟩ := hx <;> cases i <;> cases h
  | kept | outside =>
    obtain ⟨_, h | ⟨_, h⟩⟩ := hx <;> cases h
  | @whole names a module ha hmodule =>
    cases loads_assign hx
    cases hgranted with
    | feature hfuture => cases hfuture
    | modules =>
      exact ⟨_, List.mem_map_of_mem ha, by rw [wholeAsk, hmodule]; rfl⟩
  | @member from? names level name module a hfuture hname hmodule ha =>
    cases loads_assign_attr hx
    cases hgranted with
    | feature hfuture' => cases hfuture.symm.trans hfuture'
    | outside _ hname' hnone =>
      cases hname.symm.trans hname'
      cases hnone.symm.trans hmodule
    | members _ hname' hmodule' =>
      cases hname.symm.trans hname'
      cases hmodule.symm.trans hmodule'
      exact ⟨_, List.mem_map_of_mem ha, rfl⟩

/-- An import that is left after linking is foreign, unless it asks for features. -/
theorem Became.foreign {i j : Import} {own : List Ask} (h : Became r importer i j.toStmt)
    (hgranted : Granted r importer i own) :
    (j.isFuture = true ∧ importer ≠ .entry) ∨ j.Foreign r importer := by
  generalize hx : j.toStmt = x at h
  have hj : import? x = some j := hx ▸ import?_toStmt j
  cases h with
  | feature hfuture hentry =>
    rw [import?_toStmt] at hj
    cases hj
    exact .inl ⟨hfuture, hentry⟩
  | @kept names =>
    cases hj
    cases hgranted with
    | feature hfuture => cases hfuture
    | modules hinternal =>
      refine .inr fun a ha => ?_
      obtain ⟨ha, hnone⟩ := List.mem_filter.mp ha
      have hnone := Option.isNone_iff_eq_none.mp hnone
      exact ⟨hnone, hinternal a ha hnone⟩
  | whole | member => cases hj
  | outside hfuture hnone =>
    cases hj
    cases hgranted with
    | feature hfuture' => cases hfuture.symm.trans hfuture'
    | outside _ hname hnone' hinternal => exact .inr ⟨_, hname, hnone', hinternal⟩
    | members _ hname hmodule => cases (hnone _ hname).symm.trans hmodule

theorem leaves_finished {body : List Stmt} :
    ∀ x ∈ blockLeaves (finished minify body), x = .pass ∨ x ∈ blockLeaves body := by
  unfold finished
  split
  · exact leaves_stripScript (.inl rfl) fun x hx => .inr hx
  · exact fun x hx => .inr hx

theorem selfContained_of_leaves {final : List Stmt}
    (hgranted : ∀ i ∈ blockImports source, ∃ own, Granted r importer i own ∧
      ∀ ask ∈ own, ∀ m, ask.module? = some m → m ∈ embedded)
    (hleaves : ∀ x ∈ blockLeaves final, x = .pass ∨
      x ∈ blockLeaves (linkedScript r importer source)) :
    SelfContained r embedded importer source final := by
  have hreplaced : ∀ i ∈ blockImports source, ∀ x ∈ i.linked r importer, ∀ m,
      x.Loads m → m ∈ embedded := by
    intro i hi x hx m hm
    obtain ⟨own, hown, hembedded⟩ := hgranted i hi
    obtain ⟨ask, hask, hmodule⟩ := (became hx).loads hown hm
    exact hembedded ask hask m hmodule
  refine ⟨hreplaced, fun x hx m hm => ?_, fun j hj => ?_⟩
  · rcases hleaves x hx with rfl | hx
    · obtain ⟨_, h | ⟨_, h⟩⟩ := hm <;> cases h
    · rcases mem_leaves_linkedScript.mp hx with ⟨hx, -⟩ | ⟨i, hi, hx⟩
      · exact .inr hx
      · exact .inl (hreplaced i hi x hx m hm)
  · rcases hleaves j.toStmt (mem_blockImports.mp hj) with hpass | hj
    · cases j <;> cases hpass
    · rcases mem_leaves_linkedScript.mp hj with ⟨-, hnone⟩ | ⟨i, hi, hj⟩
      · simp at hnone
      · obtain ⟨own, hown, -⟩ := hgranted i hi
        exact (became hj).foreign hown

/-! ## Bundles -/

/-- How a bundle comes from what was collected: its modules are the collected ones, and all asks of
their imports and of those of the entry have been met. -/
theorem collected_of_link (h : link r installed minify entry = .ok l) :
    ∃ s done, Linking.collect r installed entry = .ok s ∧ Linking.Served r done s ∧
      l.embedded = s.names ∧
      done.filterMap (·.module?) =
        scriptProvided r .entry entry ++ l.embedded.flatMap r.providedBy ∧
      (∀ i ∈ blockImports entry, ∃ own, Granted r .entry i own ∧ own ⊆ done) ∧
      l.entry = finished minify (linkedScript r .entry entry) ∧
      l.features = (blockImports entry).filter (·.isFuture) ∧
      ∀ m ∈ l.modules, ∃ e ∈ s.modules, e.linked r minify = .ok m ∧
        ∀ i ∈ blockImports e.body, ∃ own, Granted r (.module e.name) i own ∧ own ⊆ done := by
  obtain ⟨s, hs, hmodules, hentry, hfeatures⟩ := link_eq_ok h
  obtain ⟨done, hserved, hprovided, hentryAll, hmoduleAll⟩ := Linking.served_of_collect hs
  have hnames : l.embedded = s.names := names_of_linked hmodules
  refine ⟨s, done, hs, hserved, hnames, hnames ▸ hprovided, hentryAll, hentry, hfeatures,
    fun m hm => ?_⟩
  obtain ⟨e, he, hlinked⟩ := exists_linked hmodules hm
  exact ⟨e, he, hlinked, hmoduleAll e he⟩

/-- **Bundles are self-contained.**

Collecting modules ends after at most as many rounds as there are providers, whatever imports
whatever. If a build succeeds, the embedded modules are those that are needed, each once, in the
order in which they are first asked for: first by the entry, then by the modules in turn. What is
loaded in the place of an import is embedded, and an import that is left names nothing that the
registry serves and nothing that belongs to the bundler. Requests for features of the language are
never looked up: those of the entry come first in the bundle, those of a module stay in it. -/
theorem bundle_self_contained (r : Registry) (installed : String → Bool) (minify : Bool)
    (origin code : String) :
    (∀ entry k s, readAs origin code = .ok entry → Linking.Rounds r installed entry k s →
      k ≤ r.providers.length ∧
        Linking.collect r installed entry = s.collectFrom r installed k) ∧
    ∀ l, build r minify origin code installed = .ok l → ∃ entry, readAs origin code = .ok entry ∧
      l.embedded.Nodup ∧ (∀ m, m ∈ l.embedded ↔ Needed r entry m) ∧
      l.embedded =
        (scriptProvided r .entry entry ++ l.embedded.flatMap r.providedBy).eraseDups ∧
      l.features = (blockImports entry).filter (·.isFuture) ∧
      SelfContained r l.embedded .entry entry l.entry ∧
      ∀ m ∈ l.modules, ∃ source, r.readModule m.1 = .ok source ∧
        SelfContained r l.embedded (.module m.1) source m.2 := by
  refine ⟨fun entry k s _ hrounds => ⟨hrounds.le, hrounds.collect_eq⟩, fun l hl => ?_⟩
  obtain ⟨entry, hread, hlink, -⟩ := build_eq_ok.mp hl
  obtain ⟨s, done, hs, hserved, hnames, hprovided, hentryAll, hentry, hfeatures, hmodules⟩ :=
    collected_of_link hlink
  have hembedded : ∀ ask ∈ done, ∀ m, ask.module? = some m → m ∈ l.embedded :=
    fun ask hask m hm => hnames ▸ hserved.mem_names.mpr ⟨ask, hask, hm⟩
  have hgranted : ∀ {importer i}, (∃ own, Granted r importer i own ∧ own ⊆ done) →
      ∃ own, Granted r importer i own ∧ ∀ ask ∈ own, ∀ m, ask.module? = some m → m ∈ l.embedded :=
    fun ⟨own, hown, hsubset⟩ => ⟨own, hown, fun ask hask => hembedded ask (hsubset hask)⟩
  refine ⟨entry, hread, ?_, ?_, ?_, hfeatures, ?_, fun m hm => ?_⟩
  · rw [hnames, hserved.names]
    exact nodup_eraseDups _
  · rw [hnames]
    exact Linking.mem_names_of_collect hs
  · rw [← hprovided, ← hserved.names, hnames]
  · rw [hentry]
    exact selfContained_of_leaves (fun i hi => hgranted (hentryAll i hi)) leaves_finished
  · obtain ⟨e, he, hlinked, hasks⟩ := hmodules m hm
    obtain ⟨rfl, -⟩ := Embedded.linked_eq_ok hlinked
    refine ⟨e.body, (hserved.serves e he).read,
      selfContained_of_leaves (fun i hi => hgranted (hasks i hi)) fun x hx => ?_⟩
    refine (leaves_finished x hx).imp_right fun hx => ?_
    split at hx
    · exact hx
    · exact mem_leaves_shake x hx

/-! ## A bundle -/

/-- The characters of the loader, piece by piece. -/
theorem toList_loaderText : l.loaderText.toList =
    ["import types as _bundle_types\n\n_BUNDLE_SOURCES = ", l.sourcesText,
      "\n_BUNDLE_CACHE = \x7b\x7d\n\n\n", "def ", loaderName, "(name):\n",
      "    module = _BUNDLE_CACHE.get(name)\n", "    if module is None:\n",
      "        module = _bundle_types.ModuleType(name)\n", "        module.__dict__[\"", loaderName,
      "\"] = ", loaderName, "\n", "        _BUNDLE_CACHE[name] = module\n",
      "        exec(compile(_BUNDLE_SOURCES[name], \"<bundle:\" + name + \">\", \"exec\"), ",
      "module.__dict__)\n", "    return module\n"].flatMap String.toList := by
  unfold Linked.loaderText
  simp only [String.toList_append, List.flatMap_cons, List.flatMap_nil, List.append_nil,
    List.append_assoc]

theorem text_of_no_features (h : l.features = []) :
    l.text = l.loaderText ++ "\n\n" ++ (scriptText l.entry ++ "\n") := by
  have hpair : ∀ sep a b : String, sep.intercalate [a, b] = a ++ sep ++ b := fun _ _ _ => rfl
  unfold Linked.text
  rw [h]
  exact hpair "\n\n" l.loaderText (scriptText l.entry ++ "\n")

/-- A module that asks for a feature of the language and announces a variable. The module of the
feature's name is registered too. -/
def sketch : Registry where
  specifiers := [("m", "m")]
  providers := [("m", some "from __future__ import annotations\na: int\n"),
    ("__future__", some "annotations = 1\n")]
  nodeKinds := []

/-- The statements of the module of `sketch`. -/
def sketchBody : List Stmt :=
  [.importFrom (some "__future__") [⟨"annotations", none⟩] 0,
    .annotate (.name "a") (.name "int") none true]

/-- The bundle of an entry that imports the variable of `sketch`. -/
def sketched : Linked where
  features := []
  modules := [("m", sketchBody)]
  entry := [.assign [.name "a"] (.attr (loadCall "m") "a")]
  external := []

/-- Whether a script was read as the module of `sketch`. -/
def isSketchBody : Except SourceError (List Stmt) → Bool
  | .ok [.importFrom (some "__future__") [⟨"annotations", none⟩] 0,
      .annotate (.name "a") (.name "int") none true] => true
  | _ => false

theorem readModule_sketch : sketch.readModule "m" = .ok sketchBody := by
  have h : isSketchBody (readScript "from __future__ import annotations\na: int\n") = true := by
    decide +kernel
  unfold isSketchBody at h
  split at h
  · next hread =>
    have hsource : sketch.readSource "m" =
        .ok "from __future__ import annotations\na: int\n" := rfl
    rw [Registry.readModule, hsource]
    dsimp only
    rw [readAs, hread]
    rfl
  · cases h

/-- Whether a script was read as an entry that imports the variable of `sketch`. -/
def isSketchEntry : Except SourceError (List Stmt) → Bool
  | .ok [.importFrom (some "m") [⟨"a", none⟩] 0] => true
  | _ => false

theorem readAs_sketch : readAs "entry.py" "from m import a\n" =
    .ok [.importFrom (some "m") [⟨"a", none⟩] 0] := by
  have h : isSketchEntry (readScript "from m import a\n") = true := by decide +kernel
  unfold isSketchEntry at h
  split at h
  · next hread => rw [readAs, hread]
  · cases h

theorem collect_sketch : Linking.collect sketch isInstalled
    [.importFrom (some "m") [⟨"a", none⟩] 0] = .ok ⟨[⟨"m", sketchBody, ["a"], false⟩], []⟩ := by
  have hentry : scriptAsks sketch isInstalled .entry [.importFrom (some "m") [⟨"a", none⟩] 0] =
      [.ok (.member "m" "a")] := rfl
  have hmodule : scriptAsks sketch isInstalled (.module "m") sketchBody = [] := rfl
  refine Linking.collect_eq_ok.mpr (.next (e := ⟨"m", sketchBody, ["a"], false⟩)
    (s := ⟨[⟨"m", sketchBody, ["a"], false⟩], []⟩) (.start ?_) rfl ?_)
  · have hembed : Linking.embed sketch ⟨[], []⟩ "m" =
        .ok ⟨[⟨"m", sketchBody, [], false⟩], []⟩ := by
      rw [Linking.embed, if_neg (by simp [Linking.names]), readModule_sketch]
      rfl
    rw [hentry, Linking.takeAll, Linking.take, hembed]
    rfl
  · rw [hmodule]
    rfl

theorem linked_sketch :
    Embedded.linked sketch true ⟨"m", sketchBody, ["a"], false⟩ = .ok ("m", sketchBody) := by
  have hlinked : linkedScript sketch (.module "m") sketchBody = sketchBody := by rfl
  have hbound : boundNames sketchBody = ["annotations", "a"] := by rfl
  unfold Embedded.linked
  dsimp only
  have hmissing : sortedNames (["a"].filter (· ∉ ["annotations", "a"])) = [] := by
    have hnone : ["a"].filter (· ∉ ["annotations", "a"]) = [] := rfl
    rw [hnone, sortedNames, List.eraseDups_nil, List.mergeSort_nil]
  rw [hlinked, hbound, hmissing]
  rfl

theorem link_sketch : link sketch isInstalled true [.importFrom (some "m") [⟨"a", none⟩] 0] =
    .ok sketched := by
  rw [link, collect_sketch]
  dsimp only [bind, Except.bind]
  rw [List.mapM_cons, linked_sketch]
  rfl

theorem isRunnable_sketched : sketched.isRunnable = true := by
  rw [Linked.isRunnable, readScript, text_of_no_features rfl, String.toList_append,
    String.toList_append, toList_loaderText]
  decide +kernel

theorem build_sketch : build sketch true "entry.py" "from m import a\n" = .ok sketched :=
  build_eq_ok.mpr ⟨_, readAs_sketch, link_sketch, isRunnable_sketched⟩

/-- A module keeps its requests for features, even where the registry serves their name. -/
theorem sketched_keeps_feature :
    build sketch true "entry.py" "from m import a\n" = .ok sketched ∧
      sketch.resolve "__future__" = some "__future__" ∧ "__future__" ∉ sketched.embedded ∧
      ∃ m ∈ sketched.modules, ∃ i ∈ blockImports m.2, ¬ i.Foreign sketch (.module m.1) := by
  refine ⟨build_sketch, rfl, by decide, ("m", sketchBody), List.mem_singleton.mpr rfl,
    .members (some "__future__") [⟨"annotations", none⟩] 0, List.mem_singleton.mpr rfl, ?_⟩
  rintro ⟨name, hname, hnone, -⟩
  cases hname
  cases hnone

theorem sketched_self_contained :
    build sketch true "entry.py" "from m import a\n" = .ok sketched ∧
      (∀ m, m ∈ sketched.embedded ↔
        Needed sketch [.importFrom (some "m") [⟨"a", none⟩] 0] m) ∧
      SelfContained sketch sketched.embedded (.module "m") sketchBody sketchBody := by
  obtain ⟨entry, hread, -, hneeded, -, -, -, hmodules⟩ :=
    (bundle_self_contained sketch isInstalled true "entry.py" "from m import a\n").2 sketched
      build_sketch
  cases hread.symm.trans readAs_sketch
  refine ⟨build_sketch, hneeded, ?_⟩
  obtain ⟨source, hsource, hself⟩ := hmodules ("m", sketchBody) (List.mem_singleton.mpr rfl)
  cases hsource.symm.trans readModule_sketch
  exact hself

end Bundle

end Workflow
