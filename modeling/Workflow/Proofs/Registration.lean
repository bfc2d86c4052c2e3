/-
What a registry keeps to, whatever is registered in it.

The bundler reads the source of whatever an import resolves to without asking
again whether the module is known, and looks for the runtime of a node kind
under the specifier that is made from the kind. Both rest on an invariant
(`Registry.Sound`) that no call ends, be it refused or not (`Sound.call`), so
that it holds after every list of calls (`Sound.after`), from the empty registry
on and from the one that ships.
-/
import Mathlib
import Workflow.Bundle.Registry

namespace Workflow.Bundle

/-- A call that registers a module. -/
inductive Registration where
  | specifier (specifier module : String) (source : Option String)
  | internal (module : String) (source : Option String)
  | node (kind module : String) (source : Option String)
  deriving Repr, DecidableEq, Inhabited

namespace Registry

/-- What a call comes to: the clash that it fails with, if it fails, and the registry after it. -/
def call (r : Registry) : Registration → Option KindClash × Registry
  | .specifier specifier module source => (none, r.register specifier module source)
  | .internal module source => (none, r.registerInternal module source)
  | .node kind module source =>
    match r.registerNode kind module source with
    | .ok r' => (none, r')
    | .error clash => (some clash, r)

/-- The registry after some calls, those that fail among them. -/
def after (r : Registry) (calls : List Registration) : Registry :=
  calls.foldl (fun r c => (r.call c).2) r

/-- A module is a provider. -/
def Provides (r : Registry) (module : String) : Prop := (r.providers.lookup module).isSome

/-- What every registry keeps to. -/
structure Sound (r : Registry) : Prop where
  /-- What a specifier stands for is a provider. -/
  provided : ∀ {specifier module}, r.specifiers.lookup specifier = some module → r.Provides module
  /-- A kind has the specifier that is made from it, and this stands for a module. -/
  named : ∀ e ∈ r.nodeKinds,
    e.2 = Handler.nodeModule e.1 ∧ ∃ module, r.specifiers.lookup e.2 = some module
  /-- Kinds with one specifier are one kind. -/
  distinct : ∀ e ∈ r.nodeKinds, ∀ e' ∈ r.nodeKinds, e.2 = e'.2 → e.1 = e'.1

variable {r : Registry}

theorem Provides.putEntry {module : String} (h : r.Provides module) (name : String)
    (source : Option String) : ((putEntry name source r.providers).lookup module).isSome := by
  rw [lookup_putEntry]
  split
  · rfl
  · exact h

theorem hasNode_iff {kind : String} : r.hasNode kind ↔ ∃ s, (kind, s) ∈ r.nodeKinds := by
  rw [hasNode, List.lookup_isSome_iff]
  constructor
  · rintro ⟨e, he, hk⟩
    exact ⟨e.2, by rwa [beq_iff_eq.mp hk]⟩
  · rintro ⟨s, hs⟩
    exact ⟨_, hs, beq_self_eq_true _⟩

theorem mem_of_lookup {kind specifier : String} (h : r.nodeKinds.lookup kind = some specifier) :
    (kind, specifier) ∈ r.nodeKinds := by
  obtain ⟨before, after, he, -⟩ := List.lookup_eq_some_iff.mp h
  exact he ▸ by simp

theorem Sound.empty : Sound .empty where
  provided h := by simp [Registry.empty] at h
  named e he := absurd he List.not_mem_nil
  distinct e he := absurd he List.not_mem_nil

theorem Sound.registerInternal (h : r.Sound) (module : String) (source : Option String) :
    (r.registerInternal module source).Sound where
  provided hs := (h.provided hs).putEntry module source
  named := h.named
  distinct := h.distinct

theorem Sound.register (h : r.Sound) (specifier module : String) (source : Option String) :
    (r.register specifier module source).Sound where
  provided {specifier' module'} hs := by
    rw [Registry.register, lookup_putEntry] at hs
    split at hs
    · cases hs
      show ((putEntry module source r.providers).lookup module).isSome
      rw [lookup_putEntry, if_pos rfl]
      rfl
    · exact (h.provided hs).putEntry module source
  named e he := by
    obtain ⟨hname, module', hm⟩ := h.named e he
    refine ⟨hname, ?_⟩
    show ∃ m, (putEntry specifier module r.specifiers).lookup e.2 = some m
    rw [lookup_putEntry]
    split
    · exact ⟨module, rfl⟩
    · exact ⟨module', hm⟩
  distinct := h.distinct

theorem registerNode_eq_error {kind module : String} {source : Option String} {clash : KindClash}
    (h : r.registerNode kind module source = .error clash) :
    clash.kind = kind ∧ clash.specifier = Handler.nodeModule kind ∧ clash.known ≠ kind ∧
      (clash.known, clash.specifier) ∈ r.nodeKinds := by
  simp only [registerNode] at h
  split at h
  · next known s hfind =>
    have hmem := List.mem_of_find?_eq_some hfind
    have hp := List.find?_some hfind
    simp only [decide_eq_true_eq, Bool.and_eq_true, ne_eq] at hp
    cases h
    exact ⟨rfl, rfl, by simpa using hp.1, hp.2 ▸ hmem⟩
  · cases h

theorem registerNode_eq_ok {kind module : String} {source : Option String} {r' : Registry}
    (h : r.registerNode kind module source = .ok r') :
    (∀ e ∈ r.nodeKinds, e.2 = Handler.nodeModule kind → e.1 = kind) ∧
      r' = { r with nodeKinds := putEntry kind (Handler.nodeModule kind) r.nodeKinds }.register
        (Handler.nodeModule kind) module source := by
  simp only [registerNode] at h
  split at h
  · cases h
  · next hfind =>
    cases h
    refine ⟨fun e he hs => ?_, rfl⟩
    have hp := List.find?_eq_none.mp hfind e he
    simpa [hs] using hp

/-- A node kind is refused exactly when another registered kind has the specifier made from it. -/
theorem registerNode_error_iff (h : r.Sound) (kind module : String) (source : Option String) :
    (∃ clash, r.registerNode kind module source = .error clash) ↔
      ∃ known, known ≠ kind ∧ r.hasNode known ∧
        Handler.nodeModule known = Handler.nodeModule kind := by
  constructor
  · rintro ⟨clash, hc⟩
    obtain ⟨-, hs, hne, hmem⟩ := registerNode_eq_error hc
    have hname := (h.named _ hmem).1
    exact ⟨clash.known, hne, hasNode_iff.mpr ⟨_, hmem⟩, hname.symm.trans hs⟩
  · rintro ⟨known, hne, hknown, hs⟩
    obtain ⟨specifier, hmem⟩ := hasNode_iff.mp hknown
    cases hr : r.registerNode kind module source with
    | error clash => exact ⟨clash, rfl⟩
    | ok r' => exact absurd ((registerNode_eq_ok hr).1 _ hmem ((h.named _ hmem).1.trans hs)) hne

/-- A kind that is registered gets no new rival, so that specifiers stay distinct. -/
theorem Sound.registerNode (h : r.Sound) {kind module : String} {source : Option String}
    {r' : Registry} (hr : r.registerNode kind module source = .ok r') : r'.Sound := by
  obtain ⟨hfree, rfl⟩ := registerNode_eq_ok hr
  have hreg := h.register (Handler.nodeModule kind) module source
  refine ⟨hreg.provided, fun e he => ?_, fun e he e' he' hs => ?_⟩
  · rcases mem_putEntry he with rfl | he
    · refine ⟨rfl, module, ?_⟩
      show (putEntry (Handler.nodeModule kind) module r.specifiers).lookup _ = _
      rw [lookup_putEntry, if_pos rfl]
    · exact hreg.named e he
  · rcases mem_putEntry he with rfl | he <;> rcases mem_putEntry he' with rfl | he'
    · rfl
    · exact (hfree e' he' hs.symm).symm
    · exact hfree e he hs
    · exact h.distinct e he e' he' hs

/-- No call, be it refused or not, ends what a registry keeps to. -/
theorem Sound.call (h : r.Sound) (c : Registration) : (r.call c).2.Sound := by
  cases c with
  | specifier specifier module source => exact h.register specifier module source
  | internal module source => exact h.registerInternal module source
  | node kind module source =>
    rw [Registry.call]
    split
    · next hr => exact h.registerNode hr
    · exact h

theorem Sound.after (h : r.Sound) (calls : List Registration) : (r.after calls).Sound := by
  induction calls generalizing r with
  | nil => exact h
  | cons c rest ih => exact ih (h.call c)

theorem Sound.shipped : Sound .shipped := by
  have hbase := (((Sound.empty.register Handler.runtimeModule contextModule none).register
    Handler.loggerModule logModule none).register
    Handler.nodeBaseModule baseModule none).registerInternal formulaModule none
  -- The kinds that ship are registered one after the other, and a clash would be passed over.
  exact ((((hbase.call (.node "http-request" requestNodeModule none)).call
    (.node "code" codeNodeModule none)).call (.node "send-email" emailNodeModule none)).call
    (.node "resend-send-email" emailNodeModule none))

theorem Provides.readSource {module : String} (h : r.Provides module) (name : String) :
    r.readSource module ≠ .error (.unregistered name) := by
  obtain ⟨source, hs⟩ := Option.isSome_iff_exists.mp h
  rw [Registry.readSource, hs]
  cases source with
  | some text => simp
  | none =>
    show installedSource module ≠ _
    rw [installedSource]
    split
    · simp
    · split <;> simp

theorem Sound.resolve (h : r.Sound) {name module : String} (hm : r.resolve name = some module) :
    r.Provides module := by
  rw [Registry.resolve] at hm
  split at hm
  · next hs =>
    cases hm
    exact h.provided hs
  · split at hm
    · next hp =>
      cases hm
      exact hp
    · cases hm

/-- What a node kind that is refused clashes with, and that nothing changes then. -/
theorem Sound.call_eq_some (h : r.Sound) {kind module : String} {source : Option String}
    {clash : KindClash} (hc : (r.call (.node kind module source)).1 = some clash) :
    (r.call (.node kind module source)).2 = r ∧ clash.kind = kind ∧ clash.known ≠ kind ∧
      r.hasNode clash.known ∧ clash.specifier = Handler.nodeModule clash.known ∧
      clash.specifier = Handler.nodeModule kind := by
  rw [Registry.call] at hc ⊢
  split at hc
  · cases hc
  · next hr =>
    cases hc
    obtain ⟨hkind, hs, hne, hmem⟩ := registerNode_eq_error hr
    exact ⟨rfl, hkind, hne, hasNode_iff.mpr ⟨_, hmem⟩, (h.named _ hmem).1, hs⟩

/-- **No call breaks a registry.** After any calls on the empty registry or on the one that ships,
refused ones among them, what a specifier stands for is a provider, a registered kind's runtime
resolves to one, and no two kinds share a specifier. What an import resolves to is a provider, so
that its source is looked for. A node kind is refused exactly when another kind has its specifier,
and then nothing changes. -/
theorem registry_sound_after (start : Registry) (hstart : start = .empty ∨ start = .shipped)
    (calls : List Registration) :
    let r := start.after calls
    (∀ specifier module, r.specifiers.lookup specifier = some module → r.Provides module) ∧
    (∀ kind, r.hasNode kind →
      ∃ module, r.resolve (Handler.nodeModule kind) = some module ∧ r.Provides module) ∧
    (∀ kind kind' specifier, r.nodeKinds.lookup kind = some specifier →
      r.nodeKinds.lookup kind' = some specifier → kind = kind') ∧
    (∀ name module, r.resolve name = some module →
      r.Provides module ∧ ∀ m, r.readSource module ≠ .error (.unregistered m)) ∧
    ∀ kind module source,
      ((r.call (.node kind module source)).1.isSome ↔
        ∃ known, known ≠ kind ∧ r.hasNode known ∧
          Handler.nodeModule known = Handler.nodeModule kind) ∧
      ∀ clash, (r.call (.node kind module source)).1 = some clash →
        (r.call (.node kind module source)).2 = r ∧ clash.kind = kind ∧ clash.known ≠ kind ∧
          r.hasNode clash.known ∧ clash.specifier = Handler.nodeModule clash.known ∧
          clash.specifier = Handler.nodeModule kind := by
  intro r
  have h : r.Sound := by
    rcases hstart with rfl | rfl
    · exact Sound.empty.after calls
    · exact Sound.shipped.after calls
  refine ⟨fun _ _ => h.provided, fun kind hk => ?_, fun kind kind' s hk hk' => ?_,
    fun name module hm => ⟨h.resolve hm, (h.resolve hm).readSource⟩,
    fun kind module source => ⟨?_, fun _ => h.call_eq_some⟩⟩
  · obtain ⟨specifier, hmem⟩ := hasNode_iff.mp hk
    obtain ⟨hname, module, hm⟩ := h.named _ hmem
    exact ⟨module, by rw [Registry.resolve, ← hname, hm], h.provided hm⟩
  · exact h.distinct _ (mem_of_lookup hk) _ (mem_of_lookup hk') rfl
  · rw [← registerNode_error_iff h kind module source, Registry.call]
    cases r.registerNode kind module source <;> simp

/-- A kind whose runtime would have the specifier of one that ships, which is refused, and a module
that takes the specifier over. -/
def rivals : List Registration :=
  [.node "http_request" "mine" none, .specifier "nodes_http_request.runtime" "mine" (some ""),
    .internal "helper" none]

theorem rivals_sound :
    (∃ module, (shipped.after rivals).resolve (Handler.nodeModule "http-request") = some module ∧
      (shipped.after rivals).Provides module) ∧
    ((shipped.after rivals).call (.node "http_request" "mine" none)).1.isSome ∧
    ¬ ((shipped.after rivals).call (.node "code" "mine" none)).1.isSome := by
  obtain ⟨-, hruntime, -, -, hcall⟩ := registry_sound_after shipped (.inr rfl) rivals
  refine ⟨hruntime "http-request" (by decide +kernel), (hcall _ _ _).1.mpr
    ⟨"http-request", by decide, by decide +kernel, by decide +kernel⟩, ?_⟩
  decide +kernel

end Registry

end Workflow.Bundle
