/-
Shaking keeps just the live definitions (`shake_exact`).

A name is live if it is wanted, or a definition of a live name mentions it
(`Live`). The names kept are found with a list of names that are still to be
looked at (`Work`), in whatever order names are put on it (`Keeping`): what has
been kept is live, and what is live has been kept or is still to come through
the list (`Keeping.Fair`). So every way to work the list off keeps the same
names.
-/
import Workflow.Proofs.Containment
import Workflow.Proofs.Shaking

namespace Workflow.Source

open Relation

/-! ## Live names -/

/-- A definition of the first name mentions the second. -/
def Mentions (body : List Stmt) (a b : String) : Prop :=
  ∃ d ∈ body, d.definedName? = some a ∧ b ∈ d.names

/-- A name is asked for, or mentioned by a statement that is no definition. -/
def Wanted (body : List Stmt) (roots : List String) (name : String) : Prop :=
  name ∈ roots ∨ ∃ s ∈ body, s.definedName? = none ∧ name ∈ s.names

/-- A wanted name leads to this one, from name to name by way of their definitions. -/
def Live (body : List Stmt) (roots : List String) (name : String) : Prop :=
  ∃ start, Wanted body roots start ∧ ReflTransGen (Mentions body) start name

variable {body : List Stmt} {roots : List String} {name a b : String}

theorem mem_definedNames : name ∈ definedNames body ↔ ∃ d ∈ body, d.definedName? = some name :=
  List.mem_filterMap

theorem mem_mentionedBy : b ∈ mentionedBy body a ↔ Mentions body a b := by
  simp [mentionedBy, Mentions, and_assoc]

theorem mem_wanted : name ∈ roots ++ looseNames body ↔ Wanted body roots name := by
  simp [looseNames, Wanted, and_assoc]

theorem Wanted.live (h : Wanted body roots name) : Live body roots name := ⟨name, h, .refl⟩

theorem Live.mentions (h : Live body roots a) (hab : Mentions body a b) : Live body roots b := by
  obtain ⟨start, hstart, hway⟩ := h
  exact ⟨start, hstart, hway.tail hab⟩

theorem Mentions.defined (h : Mentions body a b) : a ∈ definedNames body := by
  obtain ⟨d, hd, hname, -⟩ := h
  exact mem_definedNames.mpr ⟨d, hd, hname⟩

/-- A live name is wanted, or the definition of another live name mentions it. -/
theorem live_iff : Live body roots b ↔
    Wanted body roots b ∨ ∃ a ∈ definedNames body, Live body roots a ∧ Mentions body a b := by
  constructor
  · rintro ⟨start, hstart, hway⟩
    rcases hway.cases_tail with rfl | ⟨a, hway, hab⟩
    · exact .inl hstart
    · exact .inr ⟨a, hab.defined, ⟨start, hstart, hway⟩, hab⟩
  · rintro (hwanted | ⟨a, -, ha, hab⟩)
    · exact hwanted.live
    · exact ha.mentions hab

/-- The names that are found live are the defined ones among the live names. -/
theorem mem_liveNames :
    name ∈ liveNames body roots ↔ name ∈ definedNames body ∧ Live body roots name := by
  rw [liveNames, Graph.mem_reachable]
  constructor
  · intro h
    induction h with
    | start ha hdefined => exact ⟨hdefined, (mem_wanted.mp ha).live⟩
    | step _ hb hdefined ih => exact ⟨hdefined, ih.2.mentions (mem_mentionedBy.mp hb)⟩
  · rintro ⟨hdefined, start, hstart, hway⟩
    induction hway with
    | refl => exact .start (mem_wanted.mpr hstart) hdefined
    | tail _ hab ih => exact .step (ih hab.defined) (mem_mentionedBy.mpr hab) hdefined

instance (body : List Stmt) (a b : String) : Decidable (Mentions body a b) :=
  decidable_of_iff _ mem_mentionedBy

instance (body : List Stmt) (roots : List String) (name : String) :
    Decidable (Live body roots name) :=
  decidable_of_iff (name ∈ roots ++ looseNames body ∨
    ∃ a ∈ liveNames body roots, Mentions body a name) <| by
    simp only [live_iff (b := name), mem_wanted, mem_liveNames, and_assoc]

/-! ## What stays -/

/-- A statement is needed: it is no definition, or its name is live. -/
def Needed (body : List Stmt) (roots : List String) (s : Stmt) : Prop :=
  ∀ name ∈ s.definedName?, Live body roots name

instance (body : List Stmt) (roots : List String) : DecidablePred (Needed body roots) :=
  fun s => inferInstanceAs (Decidable (∀ name ∈ s.definedName?, Live body roots name))

/-- Which of the defined names are kept decides which statements stay. -/
theorem filter_staysWith {kept : List String}
    (h : ∀ name ∈ definedNames body, name ∈ kept ↔ Live body roots name) :
    body.filter (staysWith kept) = body.filter fun s => Needed body roots s := by
  refine List.filter_congr fun s hs => ?_
  rw [Bool.eq_iff_iff, decide_eq_true_iff, staysWith, Needed]
  cases hname : s.definedName? with
  | none => simp
  | some name => simp [h name (mem_definedNames.mpr ⟨s, hs, hname⟩)]

theorem shake_eq_filter (body : List Stmt) (roots : List String) :
    shake body roots = body.filter fun s => Needed body roots s :=
  filter_staysWith fun name hdefined => by simp [mem_liveNames, hdefined]

theorem mem_shake {s : Stmt} : s ∈ shake body roots ↔ s ∈ body ∧ Needed body roots s := by
  simp [shake_eq_filter]

/-- What is live stays so when nothing but dead definitions is removed. -/
theorem Live.shake (h : Live body roots name) : Live (shake body roots) roots name := by
  obtain ⟨start, hstart, hway⟩ := h
  have hlive : Wanted body roots start := hstart
  have hwanted : Wanted (Source.shake body roots) roots start := by
    refine hstart.imp_right ?_
    rintro ⟨s, hs, hloose, hmention⟩
    exact ⟨s, mem_shake_of_loose hs hloose, hloose, hmention⟩
  refine ⟨start, hwanted, ?_⟩
  induction hway with
  | refl => exact .refl
  | @tail a b hway hab ih =>
    obtain ⟨d, hd, hname, hmention⟩ := hab
    refine ih.tail ⟨d, mem_shake.mpr ⟨hd, fun c hc => ?_⟩, hname, hmention⟩
    obtain rfl : a = c := Option.some.inj (hname.symm.trans hc)
    exact ⟨start, hlive, hway⟩

/-- A script that has been shaken holds nothing that is not needed. -/
theorem needed_of_mem_shake {s : Stmt} (h : s ∈ shake body roots) :
    Needed (shake body roots) roots s :=
  fun name hname => ((mem_shake.mp h).2 name hname).shake

theorem shake_shake (body : List Stmt) (roots : List String) :
    shake (shake body roots) roots = shake body roots := by
  rw [shake_eq_filter (shake body roots), List.filter_eq_self]
  exact fun s hs => decide_eq_true (needed_of_mem_shake hs)

/-! ## What is removed -/

theorem sortedNames_pairwise (names : List String) : (sortedNames names).Pairwise (· < ·) := by
  have htrans : ∀ a b c : String, decide (a ≤ b) = true → decide (b ≤ c) = true →
      decide (a ≤ c) = true := by
    intro a b c hab hbc
    exact decide_eq_true (le_trans (of_decide_eq_true hab) (of_decide_eq_true hbc))
  have htotal : ∀ a b : String, (decide (a ≤ b) || decide (b ≤ a)) = true := by
    intro a b
    simpa using le_total a b
  have hsorted : (sortedNames names).Pairwise (· ≤ ·) :=
    (List.pairwise_mergeSort htrans htotal names.eraseDups).imp of_decide_eq_true
  have hnodup : (sortedNames names).Nodup :=
    (List.mergeSort_perm ..).nodup_iff.mpr (Bundle.nodup_eraseDups names)
  exact (hsorted.and hnodup).imp fun h => lt_of_le_of_ne h.1 h.2

theorem mem_shakenNames :
    name ∈ shakenNames body roots ↔ name ∈ definedNames body ∧ ¬ Live body roots name := by
  simp only [shakenNames, Bundle.mem_sortedNames, List.mem_filter, List.contains_eq_mem,
    mem_liveNames]
  simp only [Bool.not_eq_true', decide_eq_false_iff_not, not_and]
  exact ⟨fun h => ⟨h.1, h.2 h.1⟩, fun h => ⟨h.1, fun _ => h.2⟩⟩

/-! ## Working the list off -/

/-- The names that are still to be looked at, and those that are kept. -/
structure Work where
  pending : List String
  kept : List String
  deriving Repr, DecidableEq, Inhabited

/-- A name is taken from the list. If it is not yet kept it is kept now, and the defined names that
its definitions mention are put on the list, in any order and as often as one likes. -/
inductive Keeping (body : List Stmt) : Work → Work → Prop
  | skip {name : String} {pending kept : List String} (hkept : name ∈ kept) :
    Keeping body ⟨name :: pending, kept⟩ ⟨pending, kept⟩
  | keep {name : String} {pending kept new : List String} (hfresh : name ∉ kept)
      (hnew : ∀ b, b ∈ new ↔ Mentions body name b ∧ b ∈ definedNames body ∧ b ∉ name :: kept) :
    Keeping body ⟨name :: pending, kept⟩ ⟨new ++ pending, name :: kept⟩

/-- What is on the list or kept is defined and live; what is wanted, or mentioned by what is kept, is
on the list or kept. -/
structure Fair (body : List Stmt) (roots : List String) (w : Work) : Prop where
  sound : ∀ a, a ∈ w.kept ∨ a ∈ w.pending → a ∈ definedNames body ∧ Live body roots a
  wanted : ∀ a ∈ definedNames body, Wanted body roots a → a ∈ w.kept ∨ a ∈ w.pending
  closed : ∀ a ∈ w.kept, ∀ b ∈ definedNames body, Mentions body a b → b ∈ w.kept ∨ b ∈ w.pending

namespace Fair

variable {w w' : Work}

theorem start {pending : List String}
    (h : ∀ a, a ∈ pending ↔ a ∈ definedNames body ∧ Wanted body roots a) :
    Fair body roots ⟨pending, []⟩ where
  sound a ha := by
    rcases ha with ha | ha
    · exact absurd ha List.not_mem_nil
    · exact ⟨((h a).mp ha).1, ((h a).mp ha).2.live⟩
  wanted a hdefined hwanted := .inr ((h a).mpr ⟨hdefined, hwanted⟩)
  closed a ha := absurd ha List.not_mem_nil

theorem step (h : Fair body roots w) (hstep : Keeping body w w') : Fair body roots w' := by
  cases hstep with
  | @skip name pending kept hkept =>
    -- The name that is taken from the list is kept already.
    have hmoved : ∀ a, a ∈ kept ∨ a ∈ name :: pending → a ∈ kept ∨ a ∈ pending := by
      rintro a (ha | ha)
      · exact .inl ha
      · rcases List.mem_cons.mp ha with rfl | ha
        · exact .inl hkept
        · exact .inr ha
    refine ⟨fun a ha => h.sound a (ha.imp_right (List.mem_cons_of_mem _)),
      fun a hdefined hwanted => hmoved a (h.wanted a hdefined hwanted),
      fun a ha b hb hab => hmoved b (h.closed a ha b hb hab)⟩
  | @keep name pending kept new hfresh hnew =>
    have hname := h.sound name (.inr List.mem_cons_self)
    have hmoved : ∀ a, a ∈ kept ∨ a ∈ name :: pending → a ∈ name :: kept ∨ a ∈ new ++ pending := by
      rintro a (ha | ha)
      · exact .inl (List.mem_cons_of_mem _ ha)
      · rcases List.mem_cons.mp ha with rfl | ha
        · exact .inl List.mem_cons_self
        · exact .inr (List.mem_append_right _ ha)
    refine ⟨fun a ha => ?_, fun a hdefined hwanted => hmoved a (h.wanted a hdefined hwanted),
      fun a ha b hb hab => ?_⟩
    · simp only [List.mem_cons, List.mem_append] at ha
      rcases ha with (rfl | ha) | ha | ha
      · exact hname
      · exact h.sound a (.inl ha)
      · obtain ⟨hmention, hdefined, -⟩ := (hnew a).mp ha
        exact ⟨hdefined, hname.2.mentions hmention⟩
      · exact h.sound a (.inr (List.mem_cons_of_mem _ ha))
    · rcases List.mem_cons.mp ha with rfl | ha
      · by_cases hkept : b ∈ a :: kept
        · exact .inl hkept
        · exact .inr (List.mem_append_left _ ((hnew b).mpr ⟨hab, hb, hkept⟩))
      · exact hmoved b (h.closed a ha b hb hab)

theorem run (h : Fair body roots w) (hrun : ReflTransGen (Keeping body) w w') :
    Fair body roots w' := by
  induction hrun with
  | refl => exact h
  | tail _ hstep ih => exact ih.step hstep

/-- No work goes on for ever: a step keeps one more of the defined names, or shortens the list. -/
theorem acc {w : Work} (h : Fair body roots w) : Acc (fun w' w => Keeping body w w') w :=
  .intro w fun _ hstep => acc (h.step hstep)
termination_by ((Graph.unseen (definedNames body) w.kept).length, w.pending.length)
decreasing_by
  cases hstep with
  | skip hkept => exact Prod.Lex.right _ (by simp)
  | keep hfresh hnew =>
    have hdefined := (h.sound _ (.inr List.mem_cons_self)).1
    exact Prod.Lex.left _ _ (Graph.length_unseen_cons_lt hdefined hfresh)

/-- When there is nothing left to look at, what is kept is what is live. -/
theorem mem_kept (h : Fair body roots w) (hdone : w.pending = []) :
    ∀ name ∈ definedNames body, name ∈ w.kept ↔ Live body roots name := by
  have hleft : ∀ a, a ∈ w.kept ∨ a ∈ w.pending → a ∈ w.kept := by
    rintro a (ha | ha)
    · exact ha
    · exact absurd (hdone ▸ ha) List.not_mem_nil
  intro name hdefined
  refine ⟨fun hkept => (h.sound name (.inl hkept)).2, ?_⟩
  rintro ⟨start, hstart, hway⟩
  induction hway with
  | refl => exact hleft _ (h.wanted _ hdefined hstart)
  | tail _ hab ih => exact hleft _ (h.closed _ (ih hab.defined) _ hdefined hab)

end Fair

/-- Work that cannot go on has nothing left to look at. -/
theorem pending_eq_nil {w : Work} (h : ∀ w', ¬ Keeping body w w') : w.pending = [] := by
  obtain ⟨pending, kept⟩ := w
  cases pending with
  | nil => rfl
  | cons name pending =>
    by_cases hkept : name ∈ kept
    · exact absurd (.skip hkept) (h _)
    · refine absurd (.keep hkept fun b => ?_)
        (h ⟨(mentionedBy body name).filter (fun b => b ∈ definedNames body ∧ b ∉ name :: kept) ++
          pending, name :: kept⟩)
      simp [mem_mentionedBy]

theorem shakenNames_eq {kept : List String}
    (h : ∀ name ∈ definedNames body, name ∈ kept ↔ Live body roots name) :
    sortedNames ((definedNames body).filter (· ∉ kept)) = shakenNames body roots := by
  rw [shakenNames]
  congr 1
  refine List.filter_congr fun name hname => ?_
  simp [h name hname, mem_liveNames, hname]

/-- Roots are a set. -/
theorem live_congr {roots' : List String} (h : ∀ a, a ∈ roots' ↔ a ∈ roots) :
    Live body roots' name ↔ Live body roots name := by
  simp only [Live, Wanted, h]

/-- **Shaking keeps just what is needed.** Of every script there stays, in order, what is no
definition and every definition whose name is live: some wanted name leads to it by way of
definitions that mention the next. The names removed are the other defined ones, in increasing
order. However the list of names is worked off, the work comes to an end, and then it has kept the
same; nor does the order of the roots matter. A second shaking removes nothing. -/
theorem shake_exact (body : List Stmt) (roots : List String) :
    shake body roots = body.filter (fun s => Needed body roots s) ∧
    ((shakenNames body roots).Pairwise (· < ·) ∧
      ∀ name, name ∈ shakenNames body roots ↔
        (∃ s ∈ body, s.definedName? = some name) ∧ ¬ Live body roots name) ∧
    (∀ pending, (∀ a, a ∈ pending ↔ a ∈ definedNames body ∧ Wanted body roots a) →
      Acc (fun w' w => Keeping body w w') ⟨pending, []⟩ ∧
      ∀ w, ReflTransGen (Keeping body) ⟨pending, []⟩ w → (∀ w', ¬ Keeping body w w') →
        body.filter (staysWith w.kept) = shake body roots ∧
        sortedNames ((definedNames body).filter (· ∉ w.kept)) = shakenNames body roots) ∧
    (∀ roots', (∀ a, a ∈ roots' ↔ a ∈ roots) →
      shake body roots' = shake body roots ∧ shakenNames body roots' = shakenNames body roots) ∧
    shake (shake body roots) roots = shake body roots ∧
    shakenNames (shake body roots) roots = [] := by
  refine ⟨shake_eq_filter body roots, ⟨sortedNames_pairwise _, fun name => ?_⟩,
    fun pending hpending => ⟨(Fair.start hpending).acc, fun w hrun hend => ?_⟩,
    fun roots' hroots => ?_, shake_shake body roots, ?_⟩
  · rw [mem_shakenNames, mem_definedNames]
  · have hkept := ((Fair.start hpending).run hrun).mem_kept (pending_eq_nil hend)
    exact ⟨(filter_staysWith hkept).trans (shake_eq_filter body roots).symm, shakenNames_eq hkept⟩
  · have hlive : ∀ name ∈ definedNames body, name ∈ liveNames body roots' ↔ Live body roots name :=
      fun name hdefined => by simp [mem_liveNames, hdefined, live_congr hroots]
    exact ⟨(filter_staysWith hlive).trans (shake_eq_filter body roots).symm,
      by rw [← shakenNames_eq hlive, shakenNames]; simp⟩
  · refine List.eq_nil_iff_forall_not_mem.mpr fun name hname => ?_
    obtain ⟨hdefined, hdead⟩ := mem_shakenNames.mp hname
    obtain ⟨s, hs, hname⟩ := mem_definedNames.mp hdefined
    exact hdead (needed_of_mem_shake hs name hname)

/-- A function that mentions one name. -/
def mentioning (name mention : String) : Stmt :=
  .function false name (.mk [] [] none [] none) none [] [.expr (.name mention)]

/-- Two pairs of functions that call each other, one of them twice defined, between an assignment
and a class. -/
def tangled : List Stmt :=
  [mentioning "a" "b", mentioning "c" "d", .assign [.name "x"] (.name "a"), mentioning "b" "a",
    mentioning "d" "c", mentioning "b" "E", .classDef "E" [] [] [] [.pass]]

theorem tangled_shaken :
    shake tangled [] = [mentioning "a" "b", .assign [.name "x"] (.name "a"), mentioning "b" "a",
      mentioning "b" "E", .classDef "E" [] [] [] [.pass]] ∧
    ∀ w, ReflTransGen (Keeping tangled) ⟨["a", "a"], []⟩ w → (∀ w', ¬ Keeping tangled w w') →
      tangled.filter (staysWith w.kept) = shake tangled [] := by
  obtain ⟨-, -, hwork, -⟩ := shake_exact tangled []
  have hpending : ∀ a, a ∈ ["a", "a"] ↔ a ∈ definedNames tangled ∧ Wanted tangled [] a := by
    intro a
    have hdefined : definedNames tangled = ["a", "c", "b", "d", "b", "E"] := rfl
    have hloose : looseNames tangled = ["x", "a"] := rfl
    rw [← mem_wanted, hdefined, hloose]
    constructor
    · intro ha
      simp_all
    · rintro ⟨hdefined, hwanted⟩
      rcases List.mem_cons.mp hwanted with rfl | hwanted
      · exact absurd hdefined (by decide)
      · exact List.mem_cons_of_mem _ hwanted
  exact ⟨by cbv, fun w hrun hend => ((hwork _ hpending).2 w hrun hend).1⟩

end Workflow.Source
