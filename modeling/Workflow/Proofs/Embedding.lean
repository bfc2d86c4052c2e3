/-
What a bundle embeds.

The modules of a bundle are collected round by round (`Rounds`): the entry asks
for modules, and in each round the next module of the list asks for more. There
are no more rounds than providers. What has been collected after some rounds is
fixed by what was asked for until then (`Served`); at the end that is all that
the entry and the collected modules ask for (`served_of_collect`), and so it is
just what can be reached from the entry (`mem_names_of_collect`).
-/
import Workflow.Proofs.Continuations
import Workflow.Proofs.Leaves

namespace Workflow.Bundle

open Source

/-! ## What is needed -/

/-- The provider modules that an import stands for, one for each name that it gives. A request for
features of the language stands for none. -/
def Import.provided (r : Registry) (importer : Importer) (i : Import) : List String :=
  if i.isFuture then []
  else
    match i with
    | modules names => names.filterMap fun a => r.resolve a.name
    | members module names level =>
      match absoluteName importer module level with
      | .error _ => []
      | .ok name => names.filterMap fun _ => r.resolve name

/-- The provider modules that the imports of a script stand for, at any depth and in order. -/
def scriptProvided (r : Registry) (importer : Importer) (body : List Stmt) : List String :=
  (blockImports body).flatMap (·.provided r importer)

/-- The provider modules that the imports of a provider module stand for. -/
def Registry.providedBy (r : Registry) (module : String) : List String :=
  match r.readModule module with
  | .error _ => []
  | .ok body => scriptProvided r (.module module) body

/-- A provider module can be reached from an entry through imports. -/
inductive Needed (r : Registry) (entry : List Stmt) : String → Prop
  | entry {m : String} : m ∈ scriptProvided r .entry entry → Needed r entry m
  | module {m n : String} : Needed r entry m → n ∈ r.providedBy m → Needed r entry n

/-! ## What is asked for -/

/-- The provider module that is asked for. -/
def Ask.module? : Ask → Option String
  | outside _ => none
  | whole module => some module
  | member module _ => some module

/-- The name that is asked for, if it is one of a given module. -/
def Ask.memberOf? (module : String) : Ask → Option String
  | member m name => if m = module then some name else none
  | _ => none

theorem eraseDups_concat (l : List String) (m : String) :
    (l ++ [m]).eraseDups = l.eraseDups ++ (if m ∈ l.eraseDups then [] else [m]) := by
  rw [List.eraseDups_append]
  congr 1
  by_cases hm : m ∈ l
  · rw [if_pos (List.mem_eraseDups.mpr hm)]
    simp [List.removeAll, hm]
  · rw [if_neg fun h => hm (List.mem_eraseDups.mp h)]
    simp [List.removeAll, hm, List.eraseDups_cons]

theorem nodup_eraseDups (l : List String) : l.eraseDups.Nodup := by
  induction l using List.reverseRecOn with
  | nil => exact List.nodup_nil
  | append_singleton l m ih =>
    rw [eraseDups_concat]
    split
    · rwa [List.append_nil]
    · next hm =>
      refine List.nodup_append.mpr ⟨ih, List.nodup_singleton m, fun a ha b hb hab => hm ?_⟩
      rwa [← List.mem_singleton.mp hb, ← hab]

theorem eq_map_of_map_ok {α β ε : Type} {f : α → Except ε β} {g : α → β}
    (hfg : ∀ a b, f a = .ok b → b = g a) {l : List α} {bs : List β}
    (h : l.map f = bs.map .ok) : bs = l.map g := by
  induction l generalizing bs with
  | nil => exact List.map_eq_nil_iff.mp h.symm
  | cons a l ih =>
    cases bs with
    | nil => cases h
    | cons b bs =>
      obtain ⟨hab, hrest⟩ := List.cons.inj h
      rw [List.map_cons, hfg a b hab, ih hrest]

theorem exists_ok_of_map {α β ε : Type} {f : α → Except ε β} {l : List α} {bs : List β}
    (h : l.map f = bs.map .ok) {a : α} (ha : a ∈ l) : ∃ b, f a = .ok b := by
  have hfa : f a ∈ bs.map .ok := h ▸ List.mem_map_of_mem ha
  obtain ⟨b, -, hb⟩ := List.mem_map.mp hfa
  exact ⟨b, hb.symm⟩

/-- Where the parts of a list are all there, so is what is read off them, part by part. -/
theorem flatMap_eq_map_ok {α β γ ε : Type} {f : α → List (Except ε β)} {g : β → Option γ}
    {h : α → List γ} {l : List α}
    (hfh : ∀ a ∈ l, ∀ own : List β, f a = own.map .ok → own.filterMap g = h a) {bs : List β}
    (hl : l.flatMap f = bs.map .ok) :
    bs.filterMap g = l.flatMap h ∧ ∀ a ∈ l, ∃ own, f a = own.map .ok ∧ own ⊆ bs := by
  induction l generalizing bs with
  | nil =>
    rw [List.map_eq_nil_iff.mp hl.symm]
    exact ⟨rfl, nofun⟩
  | cons a l ih =>
    rw [List.flatMap_cons] at hl
    obtain ⟨own, rest, rfl, hown, hrest⟩ := List.map_eq_append_iff.mp hl.symm
    obtain ⟨ha, hfh⟩ := List.forall_mem_cons.mp hfh
    obtain ⟨hothers, hparts⟩ := ih hfh hrest.symm
    refine ⟨by rw [List.filterMap_append, ha own hown.symm, hothers, List.flatMap_cons], ?_⟩
    refine List.forall_mem_cons.mpr
      ⟨⟨own, hown.symm, List.subset_append_left ..⟩, fun a' ha' => ?_⟩
    obtain ⟨theirs, hf, hsubset⟩ := hparts a' ha'
    exact ⟨theirs, hf, List.subset_append_of_subset_right _ hsubset⟩

section

variable {r : Registry} {installed : String → Bool} {importer : Importer}

/-- What it means to find an imported module. -/
theorem Registry.find_eq_ok {name : String} {target : Target}
    (h : r.find installed name importer = .ok target) :
    (∃ module, r.resolve name = some module ∧ target = .inside module) ∨
      (r.resolve name = none ∧ isInternalName name = false ∧
        target = .outside (firstPart name)) := by
  unfold Registry.find at h
  split at h
  · next module hmodule =>
    cases h
    exact .inl ⟨module, hmodule, rfl⟩
  · next hnone =>
    dsimp only at h
    split at h
    · next hc =>
      cases h
      simp only [Bool.and_eq_true, Bool.not_eq_true'] at hc
      exact .inr ⟨hnone, hc.1, rfl⟩
    · cases h

/-- What `import a` asks for. -/
def wholeAsk (r : Registry) (a : Alias) : Ask :=
  match r.resolve a.name with
  | some module => .whole module
  | none => .outside (firstPart a.name)

/-- What an import asks for, where all of it can be had. -/
inductive Granted (r : Registry) (importer : Importer) : Import → List Ask → Prop
  | feature {i : Import} : i.isFuture = true → Granted r importer i []
  | modules {names : List Alias} :
      (∀ a ∈ names, r.resolve a.name = none → isInternalName a.name = false) →
      Granted r importer (.modules names) (names.map (wholeAsk r))
  | outside {from? : Option String} {names : List Alias} {level : Nat} {name : String} :
      (Import.members from? names level).isFuture = false →
      absoluteName importer from? level = .ok name → r.resolve name = none →
      isInternalName name = false →
      Granted r importer (.members from? names level) [.outside (firstPart name)]
  | members {from? : Option String} {names : List Alias} {level : Nat} {name module : String} :
      (Import.members from? names level).isFuture = false →
      absoluteName importer from? level = .ok name → r.resolve name = some module →
      Granted r importer (.members from? names level) (names.map fun a => .member module a.name)

theorem granted_modules {names : List Alias} {asks : List Ask}
    (h : (Import.modules names).asks r installed importer = asks.map .ok) :
    Granted r importer (.modules names) asks := by
  have hask : ∀ a ask, (Import.modules [a]).asks r installed importer = [.ok ask] →
      ask = wholeAsk r a ∧ (r.resolve a.name = none → isInternalName a.name = false) := by
    intro a ask hask
    obtain ⟨hask, -⟩ := List.cons.inj hask
    dsimp only at hask
    unfold wholeAsk
    split at hask
    · cases hask
    · next top hfind =>
      rcases r.find_eq_ok hfind with ⟨_, _, ht⟩ | ⟨hnone, hinternal, ht⟩
      · cases ht
      · cases ht
        cases hask
        exact ⟨by rw [hnone], fun _ => hinternal⟩
    · next module hfind =>
      rcases r.find_eq_ok hfind with ⟨_, hmodule, ht⟩ | ⟨_, _, ht⟩
      · cases ht
        split at hask
        · cases hask
        · cases hask
          exact ⟨by rw [hmodule], fun hnone => by simp [hmodule] at hnone⟩
      · cases ht
  rw [eq_map_of_map_ok (fun a ask h => (hask a ask (congrArg (fun x => [x]) h)).1) h]
  refine .modules fun a ha => ?_
  obtain ⟨ask, hok⟩ := exists_ok_of_map h ha
  exact (hask a ask (congrArg (fun x => [x]) hok)).2

theorem granted {i : Import} {asks : List Ask} (h : i.asks r installed importer = asks.map .ok) :
    Granted r importer i asks := by
  by_cases hfuture : i.isFuture = true
  · unfold Import.asks at h
    rw [if_pos hfuture] at h
    rw [List.map_eq_nil_iff.mp h.symm]
    exact .feature hfuture
  match i with
  | .modules names => exact granted_modules h
  | .members from? names level =>
    rw [Import.asks, if_neg hfuture] at h
    split at h
    · cases asks <;> cases h
    · next name hname =>
      split at h
      · cases asks <;> cases h
      · next top hfind =>
        rcases r.find_eq_ok hfind with ⟨_, _, ht⟩ | ⟨hnone, hinternal, ht⟩
        · cases ht
        · cases ht
          obtain ⟨ask, rfl, hask⟩ := List.map_eq_singleton_iff.mp h.symm
          cases hask
          exact .outside (eq_false_of_ne_true hfuture) hname hnone hinternal
      · next module hfind =>
        rcases r.find_eq_ok hfind with ⟨_, hmodule, ht⟩ | ⟨_, _, ht⟩
        · cases ht
          have hask : ∀ (a : Alias) ask, (if a.name = "*" then .error (.starImport name importer)
              else .ok (.member module a.name) : Except BuildError Ask) = .ok ask →
              ask = .member module a.name := by
            intro a ask hok
            split at hok <;> cases hok
            rfl
          rw [eq_map_of_map_ok hask h]
          exact .members (eq_false_of_ne_true hfuture) hname hmodule
        · cases ht

/-- What an import asks for is what it stands for. -/
theorem Granted.provided {i : Import} {asks : List Ask} (h : Granted r importer i asks) :
    asks.filterMap (·.module?) = i.provided r importer := by
  unfold Import.provided
  cases h with
  | feature hfuture => rw [if_pos hfuture]; rfl
  | @modules names _ =>
    rw [if_neg (by simp [Import.isFuture]), List.filterMap_map]
    congr 1
    funext a
    simp only [Function.comp_apply, wholeAsk]
    split <;> simp_all [Ask.module?]
  | outside hfuture hname hnone _ =>
    simp [hfuture, hname, hnone, Ask.module?]
  | members hfuture hname hmodule =>
    simp [hfuture, hname, hmodule, Ask.module?]

/-- Where all that some imports ask for can be had, it is what they stand for, import by import. -/
theorem granted_all {imports : List Import} {asks : List Ask}
    (h : imports.flatMap (·.asks r installed importer) = asks.map .ok) :
    asks.filterMap (·.module?) = imports.flatMap (·.provided r importer) ∧
      ∀ i ∈ imports, ∃ own, Granted r importer i own ∧ own ⊆ asks := by
  obtain ⟨hprovided, hown⟩ := flatMap_eq_map_ok (fun i _ own hi => (granted hi).provided) h
  refine ⟨hprovided, fun i hi => ?_⟩
  obtain ⟨own, hasks, hsubset⟩ := hown i hi
  exact ⟨own, granted hasks, hsubset⟩

end

/-! ## What is collected -/

/-- What an ask changes in the module that it asks for. -/
def Ask.mark : Ask → Embedded → Embedded
  | outside _, e => e
  | whole _, e => { e with whole := true }
  | member _ name, e => { e with requested := e.requested ++ [name] }

@[simp] theorem Ask.name_mark (ask : Ask) (e : Embedded) : (ask.mark e).name = e.name := by
  cases ask <;> rfl

/-- A module holds what was asked of it. -/
structure Embedded.Serves (r : Registry) (done : List Ask) (e : Embedded) : Prop where
  read : r.readModule e.name = .ok e.body
  requested : e.requested = done.filterMap (·.memberOf? e.name)
  whole : e.whole = true ↔ Ask.whole e.name ∈ done

section

variable {r : Registry} {done : List Ask} {e : Embedded} {ask : Ask}

theorem Embedded.Serves.of_other (h : e.Serves r done) (hask : ask.module? ≠ some e.name) :
    e.Serves r (done ++ [ask]) where
  read := h.read
  requested := by
    rw [h.requested, List.filterMap_append]
    cases ask <;> simp_all [Ask.module?, Ask.memberOf?]
  whole := by
    rw [h.whole, List.mem_append]
    cases ask <;> simp_all [Ask.module?, eq_comm]

theorem Embedded.Serves.mark (h : e.Serves r done) (hask : ask.module? = some e.name) :
    (ask.mark e).Serves r (done ++ [ask]) where
  read := by
    rw [ask.name_mark, h.read]
    cases ask <;> rfl
  requested := by
    rw [ask.name_mark, List.filterMap_append, ← h.requested]
    cases ask <;> simp_all [Ask.module?, Ask.memberOf?, Ask.mark]
  whole := by
    rw [ask.name_mark, List.mem_append, ← h.whole]
    cases ask <;> simp_all [Ask.module?, Ask.mark]

theorem Embedded.Serves.new {m : String} {body : List Stmt} (hread : r.readModule m = .ok body)
    (hnew : ∀ ask ∈ done, ask.module? ≠ some m) : Embedded.Serves r done ⟨m, body, [], false⟩ where
  read := hread
  requested := by
    refine (List.filterMap_eq_nil_iff.mpr fun ask hask => ?_).symm
    have hne := hnew ask hask
    cases ask <;> simp_all [Ask.module?, Ask.memberOf?]
  whole := by
    simp only [Bool.false_eq_true, false_iff]
    exact fun hmem => hnew _ hmem rfl

end

/-- What a provider module asks for. -/
def Registry.moduleAsks (r : Registry) (installed : String → Bool) (m : String) :
    List (Except BuildError Ask) :=
  match r.readModule m with
  | .error _ => []
  | .ok body => scriptAsks r installed (.module m) body

namespace Linking

variable {r : Registry} {installed : String → Bool} {done : List Ask} {s s' : Linking}

/-- What has been collected when some asks have been met: the modules that were asked for, each once
and in the order of the first asks. -/
structure Served (r : Registry) (done : List Ask) (s : Linking) : Prop where
  names : s.names = (done.filterMap (·.module?)).eraseDups
  serves : ∀ e ∈ s.modules, e.Serves r done

theorem Served.nil : Served r [] ⟨[], []⟩ := ⟨rfl, by simp⟩

theorem Served.mem_names (h : Served r done s) {m : String} :
    m ∈ s.names ↔ ∃ ask ∈ done, ask.module? = some m := by
  rw [h.names, List.mem_eraseDups, List.mem_filterMap]

theorem take_eq {ask : Ask} {m : String} (hm : ask.module? = some m) (s : Linking) :
    s.take r ask = (s.embed r m).map (·.update m ask.mark) := by
  cases ask <;> cases hm <;> rfl

theorem embed_eq_ok {m : String} (h : s.embed r m = .ok s') :
    (m ∈ s.names ∧ s' = s) ∨ (m ∉ s.names ∧ ∃ body, r.readModule m = .ok body ∧
      s' = { s with modules := s.modules ++ [⟨m, body, [], false⟩] }) := by
  unfold embed at h
  split at h
  · next hm =>
    cases h
    exact .inl ⟨hm, rfl⟩
  · next hm =>
    split at h
    · cases h
    · next body hread =>
      cases h
      exact .inr ⟨hm, body, hread, rfl⟩

/-- A module that is asked for is read, unless it has been. -/
theorem Served.embed (h : Served r done s) {m : String} (hembed : s.embed r m = .ok s') :
    s'.names = s.names ++ (if m ∈ s.names then [] else [m]) ∧
      ∀ e ∈ s'.modules, e.Serves r done := by
  rcases embed_eq_ok hembed with ⟨hm, rfl⟩ | ⟨hm, body, hread, rfl⟩
  · exact ⟨by rw [if_pos hm, List.append_nil], h.serves⟩
  · refine ⟨by rw [if_neg hm]; simp [Linking.names], ?_⟩
    refine List.forall_mem_append.mpr ⟨h.serves, List.forall_mem_singleton.mpr ?_⟩
    exact .new hread fun ask hask hmodule => hm (h.mem_names.mpr ⟨ask, hask, hmodule⟩)

theorem Served.take (h : Served r done s) {ask : Ask} (ht : s.take r ask = .ok s') :
    Served r (done ++ [ask]) s' := by
  cases hm : ask.module? with
  | none =>
    cases ask <;> cases hm
    cases ht
    exact ⟨by simpa [Ask.module?, Linking.names] using h.names,
      fun e he => (h.serves e he).of_other nofun⟩
  | some m =>
    rw [take_eq hm] at ht
    cases hembed : s.embed r m with
    | error e => simp [hembed, Except.map] at ht
    | ok s₁ =>
      rw [hembed] at ht
      cases ht
      obtain ⟨hnames, hserves⟩ := h.embed hembed
      refine ⟨?_, fun e he => ?_⟩
      · have hlast : [ask].filterMap (·.module?) = [m] := by simp [hm]
        rw [names_update, hnames, List.filterMap_append, hlast, eraseDups_concat, ← h.names]
      · obtain ⟨e₁, he₁, rfl⟩ := List.mem_map.mp he
        split
        · next hname =>
          have hmark : { ask.mark e₁ with name := e₁.name } = ask.mark e₁ := by cases ask <;> rfl
          rw [hmark]
          exact (hserves e₁ he₁).mark (hm.trans (congrArg some hname.symm))
        · next hname =>
          have hother : ask.module? ≠ some e₁.name := by
            rw [hm]
            exact fun h => hname (Option.some.inj h).symm
          exact (hserves e₁ he₁).of_other hother

theorem Served.takeAll (h : Served r done s) {asks : List (Except BuildError Ask)}
    (ht : s.takeAll r asks = .ok s') :
    ∃ more, asks = more.map .ok ∧ Served r (done ++ more) s' := by
  induction asks generalizing s done with
  | nil =>
    cases ht
    exact ⟨[], rfl, by rwa [List.append_nil]⟩
  | cons a rest ih =>
    cases a with
    | error e => cases ht
    | ok ask =>
      rw [takeAll] at ht
      split at ht
      · cases ht
      · next s₁ htake =>
        obtain ⟨more, rfl, hserved⟩ := ih (h.take htake) ht
        exact ⟨ask :: more, rfl, by rwa [List.append_assoc] at hserved⟩

/-! ## Rounds -/

/-- What has been collected after some rounds. At the start the entry has asked for modules, and in
each round the next module of the list does. -/
inductive Rounds (r : Registry) (installed : String → Bool) (entry : List Stmt) :
    Nat → Linking → Prop
  | start {s : Linking} : Linking.takeAll r ⟨[], []⟩ (scriptAsks r installed .entry entry) = .ok s →
      Rounds r installed entry 0 s
  | next {k : Nat} {s s' : Linking} {e : Embedded} : Rounds r installed entry k s →
      s.modules[k]? = some e →
      s.takeAll r (scriptAsks r installed (.module e.name) e.body) = .ok s' →
      Rounds r installed entry (k + 1) s'

variable {entry : List Stmt} {k : Nat}

/-- The rounds are those of the collection. -/
theorem Rounds.collect_eq (h : Rounds r installed entry k s) :
    collect r installed entry = s.collectFrom r installed k := by
  induction h with
  | start ht => rw [collect, ht]
  | @next k s s' e _ he ht ih =>
    obtain ⟨hk, rfl⟩ := List.getElem?_eq_some_iff.mp he
    rw [ih, collectFrom, dif_pos hk]
    dsimp only
    split
    · next herror => cases herror.symm.trans ht
    · next hok =>
      cases hok.symm.trans ht
      rfl

theorem length_names (s : Linking) : s.names.length = s.modules.length := by simp [names]

/-- The modules that have been collected stay in their places. -/
theorem Served.names_append {more : List Ask} (h : Served r done s)
    (h' : Served r (done ++ more) s') : ∃ new, s'.names = s.names ++ new :=
  ⟨_, by rw [h'.names, List.filterMap_append, List.eraseDups_append, ← h.names]⟩

theorem take_names {e : Embedded} {new : List String} (he : s.modules[k]? = some e)
    (hnames : s'.names = s.names ++ new) :
    k + 1 ≤ s'.modules.length ∧ s'.names.take (k + 1) = s.names.take k ++ [e.name] := by
  obtain ⟨hk, -⟩ := List.getElem?_eq_some_iff.mp he
  have hname : s.names[k]? = some e.name := by rw [names, List.getElem?_map, he]; rfl
  have hle : k + 1 ≤ s.names.length := by rwa [length_names]
  refine ⟨?_, ?_⟩
  · rw [← length_names, hnames, List.length_append]
    omega
  · rw [hnames, List.take_append_of_le_length hle, List.take_add_one, hname]
    rfl

/-- What holds after some rounds: what was asked for by the entry and the modules up to there has
been collected, and all of it is needed. -/
theorem Rounds.served (h : Rounds r installed entry k s) : k ≤ s.modules.length ∧
    (∃ done, scriptAsks r installed .entry entry ++
        (s.names.take k).flatMap (r.moduleAsks installed) = done.map .ok ∧ Served r done s) ∧
      ∀ m ∈ s.names, Needed r entry m := by
  induction h with
  | start ht =>
    obtain ⟨more, hmore, hserved⟩ := Served.nil.takeAll ht
    refine ⟨Nat.zero_le _, ⟨more, by simpa using hmore, hserved⟩, fun m hm => .entry ?_⟩
    rw [scriptProvided, ← (granted_all hmore).1]
    simpa using hserved.mem_names.mp hm
  | @next k s s' e _ he ht ih =>
    obtain ⟨-, ⟨done, hdone, hserved⟩, hneeded⟩ := ih
    obtain ⟨more, hmore, hserved'⟩ := hserved.takeAll ht
    have hmem : e ∈ s.modules := List.mem_of_getElem? he
    have hread := (hserved.serves e hmem).read
    have hasks : r.moduleAsks installed e.name = more.map .ok := by
      rw [Registry.moduleAsks, hread, ← hmore]
    obtain ⟨new, hnew⟩ := hserved.names_append hserved'
    obtain ⟨hk, htake⟩ := take_names he hnew
    refine ⟨hk, ⟨done ++ more, ?_, hserved'⟩, fun m hm => ?_⟩
    · rw [htake, List.flatMap_append, List.flatMap_singleton, hasks, ← List.append_assoc, hdone,
        List.map_append]
    · obtain ⟨ask, hask, hm⟩ := hserved'.mem_names.mp hm
      rcases List.mem_append.mp hask with hask | hask
      · exact hneeded m (hserved.mem_names.mpr ⟨ask, hask, hm⟩)
      · refine .module (hneeded e.name (List.mem_map_of_mem hmem)) ?_
        rw [Registry.providedBy, hread]
        dsimp only
        rw [scriptProvided, ← (granted_all hmore).1]
        exact List.mem_filterMap.mpr ⟨ask, hask, hm⟩

/-- There are no more rounds than providers. -/
theorem Rounds.le (h : Rounds r installed entry k s) : k ≤ r.providers.length := by
  obtain ⟨hk, ⟨done, -, hserved⟩, -⟩ := h.served
  have hnodup : s.names.Nodup := hserved.names ▸ nodup_eraseDups _
  have hsubset : s.names ⊆ r.providers.map (·.1) := fun m hm => by
    obtain ⟨e, he, rfl⟩ := List.mem_map.mp hm
    exact mem_of_readModule (hserved.serves e he).read
  have hle := (hnodup.subperm hsubset).length_le
  rw [length_names, List.length_map] at hle
  omega

theorem Rounds.of_collectFrom (h : Rounds r installed entry k s)
    (hc : s.collectFrom r installed k = .ok s') :
    Rounds r installed entry s'.modules.length s' := by
  fun_induction collectFrom r installed k s with
  | case1 => cases hc
  | case2 k s hk e s₁ ht ih =>
    exact ih (h.next (List.getElem?_eq_some_iff.mpr ⟨hk, rfl⟩) ht) hc
  | case3 k s hk =>
    cases hc
    have hlen : s'.modules.length = k := by
      have := h.served.1
      omega
    rwa [hlen]

/-- A collection ends when every module has had its round. -/
theorem collect_eq_ok : collect r installed entry = .ok s ↔
    Rounds r installed entry s.modules.length s := by
  constructor
  · intro h
    unfold collect at h
    split at h
    · cases h
    · next s₁ ht => exact (Rounds.start ht).of_collectFrom h
  · intro h
    rw [h.collect_eq, collectFrom, dif_neg (by omega)]

theorem moduleAsks_provided {m : String} {asks : List Ask}
    (h : r.moduleAsks installed m = asks.map .ok) :
    asks.filterMap (·.module?) = r.providedBy m := by
  unfold Registry.moduleAsks at h
  unfold Registry.providedBy
  split at h
  · rw [List.map_eq_nil_iff.mp h.symm]
    rfl
  · exact (granted_all h).1

/-- **What is collected is what the entry and the collected modules ask for**, and all that they ask
for could be had. -/
theorem served_of_collect (h : collect r installed entry = .ok s) : ∃ done, Served r done s ∧
    done.filterMap (·.module?) = scriptProvided r .entry entry ++ s.names.flatMap r.providedBy ∧
    (∀ i ∈ blockImports entry, ∃ own, Granted r .entry i own ∧ own ⊆ done) ∧
    ∀ e ∈ s.modules, ∀ i ∈ blockImports e.body,
      ∃ own, Granted r (.module e.name) i own ∧ own ⊆ done := by
  obtain ⟨-, ⟨done, hdone, hserved⟩, -⟩ := (collect_eq_ok.mp h).served
  rw [← length_names, List.take_length] at hdone
  obtain ⟨first, rest, rfl, hfirst, hrest⟩ := List.map_eq_append_iff.mp hdone.symm
  obtain ⟨hentry, hentryAll⟩ := granted_all hfirst.symm
  obtain ⟨hmodules, hmoduleAll⟩ :=
    flatMap_eq_map_ok (fun m _ own hm => moduleAsks_provided hm) hrest.symm
  refine ⟨first ++ rest, hserved, ?_, fun i hi => ?_, fun e he i hi => ?_⟩
  · rw [List.filterMap_append, hentry, hmodules]
    rfl
  · obtain ⟨own, hown, hsubset⟩ := hentryAll i hi
    exact ⟨own, hown, List.subset_append_of_subset_left _ hsubset⟩
  · obtain ⟨asks, hasks, hsubset⟩ := hmoduleAll e.name (List.mem_map_of_mem he)
    rw [Registry.moduleAsks, (hserved.serves e he).read] at hasks
    obtain ⟨own, hown, hsubset'⟩ := (granted_all hasks).2 i hi
    exact ⟨own, hown, List.subset_append_of_subset_right _ (List.Subset.trans hsubset' hsubset)⟩

/-- What is collected is what can be reached. -/
theorem mem_names_of_collect (h : collect r installed entry = .ok s) (m : String) :
    m ∈ s.names ↔ Needed r entry m := by
  refine ⟨(collect_eq_ok.mp h).served.2.2 m, fun hneeded => ?_⟩
  obtain ⟨done, hserved, hprovided, -⟩ := served_of_collect h
  have hmem : ∀ m ∈ scriptProvided r .entry entry ++ s.names.flatMap r.providedBy, m ∈ s.names := by
    intro m hm
    rw [hserved.names, hprovided]
    exact List.mem_eraseDups.mpr hm
  induction hneeded with
  | entry hm => exact hmem _ (List.mem_append_left _ hm)
  | @module m n _ hn ih =>
    exact hmem n (List.mem_append_right _ (List.mem_flatMap.mpr ⟨m, ih, hn⟩))

end Linking

end Workflow.Bundle
