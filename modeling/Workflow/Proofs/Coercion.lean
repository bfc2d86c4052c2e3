/-
How checks read the configurations of triggers and control-flow constructs, and
how the generator reads them.

A check gives a value in place of each field. What is read of the fields that it
gives is what is read of the fields as they are written, but for two of them: the
flag that demands signatures, which counts as true if it is a text that means no
(`wantsSignature_eq_iff`), and the number of items that a loop takes at once, which
is one unless it is written as an integer (`batchSize_eq_iff`).
-/
import Mathlib
import Workflow.Handler.Guard
import Workflow.Proofs.Literals

namespace Workflow

/-! ## Doubles -/

namespace Number

open Float.Model Float.Model.UnpackedFloat

theorem compare_zero (u : UnpackedFloat) (sign : Sign) :
    (u.compare (.zero sign) == some .eq) = true ↔ ∃ sign', u = .zero sign' := by
  cases u with
  | infinity t => cases t <;> simp [UnpackedFloat.compare]
  | notANumber => simp [UnpackedFloat.compare]
  | zero t => simp [UnpackedFloat.compare]
  | finite t m e hm => cases t <;> simp [UnpackedFloat.compare]

theorem unpack_zero_iff (b : BitVec Format.binary64.numBits) :
    (∃ sign, UnpackedFloat.unpack Format.binary64 b = .zero sign) ↔
      (unpackExponent b).toNat = 0 ∧ (unpackMantissa b).toNat = 0 := by
  unfold UnpackedFloat.unpack
  dsimp only
  split
  · next he =>
    have hne : (unpackExponent b).toNat ≠ 0 := by rw [he]; decide
    simp only [hne, false_and, iff_false]
    split <;> simp
  · split
    · next he =>
      split
      · next hm => simp [he, hm]
      · next hm =>
        have hm' : (unpackMantissa b).toNat ≠ 0 := fun h => hm (BitVec.eq_of_toNat_eq h)
        simp [hm']
    · next he =>
      have he' : (unpackExponent b).toNat ≠ 0 := fun h => he (BitVec.eq_of_toNat_eq h)
      simp [he']

/-- A finite double is equal to zero if its significand is. -/
theorem beq_zero_iff {x : Float} {negative : Bool} {m : Nat} {e : Int}
    (hx : parts x = .finite negative m e) : (x == 0.0) = true ↔ m = 0 := by
  have hzero : (0.0 : Float).toModel.unpack = .zero .positive := rfl
  have hbeq : (x == 0.0) =
      (x.toModel.unpack.compare (0.0 : Float).toModel.unpack == some .eq) := rfl
  have hm : (@unpackMantissa Format.binary64 x.toBits.toBitVec).toNat =
      x.toBits.toNat % twoTo 52 := by
    simp [unpackMantissa, twoTo]
  have he : (@unpackExponent Format.binary64 x.toBits.toBitVec).toNat =
      x.toBits.toNat / twoTo 52 % twoTo 11 := by
    simp [unpackExponent, twoTo, Nat.shiftRight_eq_div_pow]
  rw [hbeq, hzero, compare_zero]
  refine (unpack_zero_iff x.toBits.toBitVec).trans ?_
  rw [hm, he]
  unfold parts at hx
  dsimp only at hx
  split at hx
  · split at hx <;> cases hx
  · split at hx
    · next h => cases hx; simp [h]
    · next h =>
      cases hx
      have : 0 < twoTo 52 := Nat.two_pow_pos 52
      simp only [h, false_and, false_iff]
      omega

/-- A double that is an integer is equal to zero if the integer is. -/
theorem beq_zero_of_integer? {x : Float} {n : Int} (hn : integer? x = some n) :
    (x == 0.0) = true ↔ n = 0 := by
  unfold integer? at hn
  split at hn
  · next negative m e hx =>
    have hsigned : ∀ k, signed negative k = 0 ↔ k = 0 := by
      intro k
      cases negative <;> simp [signed]
    have hpos : ∀ k, 0 < twoTo k := Nat.two_pow_pos
    rw [beq_zero_iff hx]
    split at hn
    · cases hn
      rw [hsigned, Nat.mul_eq_zero]
      have := hpos e.toNat
      omega
    · split at hn
      · next hmod =>
        cases hn
        rw [hsigned]
        refine ⟨fun hm => by rw [hm, Nat.zero_div], fun hd => ?_⟩
        have hm := Nat.div_add_mod m (twoTo (-e).toNat)
        rw [hd, hmod] at hm
        exact hm.symm
      · cases hn
  · cases hn

end Number

/-! ## Checks -/

namespace Checked

variable {α β : Type}

/-- A check that fails gives a problem. -/
def Explained (c : Checked α) : Prop := c ≠ .bad []

theorem explained_map {f : α → β} {c : Checked α} (h : c.Explained) : (c.map f).Explained := by
  cases c with
  | ok a => exact nofun
  | bad ps => exact fun he => h (by simpa [map] using he)

theorem explained_both {a : Checked α} {b : Checked β} (ha : a.Explained) (hb : b.Explained) :
    (both a b).Explained := by
  cases a <;> cases b <;> simp_all [Explained, both]

theorem explained_all {cs : List (Checked α)} (h : ∀ c ∈ cs, c.Explained) : (all cs).Explained := by
  induction cs with
  | nil => exact nofun
  | cons c rest ih =>
    rw [List.forall_mem_cons] at h
    exact explained_map (explained_both h.1 (ih h.2))

theorem explained_under {step : PathStep} {c : Checked α} (h : c.Explained) :
    (c.under step).Explained := by
  cases c <;> simp_all [Explained, under]

theorem map_eq_ok {f : α → β} {c : Checked α} {b : β} :
    c.map f = .ok b ↔ ∃ a, c = .ok a ∧ f a = b := by
  cases c <;> simp [map]

theorem both_eq_ok {a : Checked α} {b : Checked β} {r : α × β} :
    both a b = .ok r ↔ a = .ok r.1 ∧ b = .ok r.2 := by
  cases a <;> cases b <;> simp [both, Prod.ext_iff]

theorem under_eq_ok {step : PathStep} {c : Checked α} {a : α} :
    c.under step = .ok a ↔ c = .ok a := by
  cases c <;> simp [under]

theorem all_eq_ok {cs : List (Checked α)} {as : List α} :
    all cs = .ok as ↔ List.Forall₂ (fun c a => c = .ok a) cs as := by
  induction cs generalizing as with
  | nil => simp [all, eq_comm]
  | cons c rest ih =>
    simp only [all, map_eq_ok, both_eq_ok, Prod.exists, List.forall₂_cons_left_iff, ih]
    constructor
    · rintro ⟨a, as, ⟨ha, has⟩, rfl⟩
      exact ⟨a, as, ha, has, rfl⟩
    · rintro ⟨a, as, ha, has, rfl⟩
      exact ⟨a, as, ⟨ha, has⟩, rfl⟩

end Checked

namespace Check

open Checked

/-- A check that gives a problem whenever it fails. -/
def Explains {α : Type} (check : Check α) : Prop := ∀ v, (check v).Explained

@[simp] theorem explains_textValue (least : Nat) : Explains (textValue least) := by
  refine fun v => explained_map ?_
  unfold text
  dsimp only
  split <;> (try split) <;> (try split) <;> simp [Explained, defect]

@[simp] theorem explains_integerValue (least : Int) : Explains (integerValue least) := by
  refine fun v => explained_map ?_
  unfold integer
  dsimp only
  split <;> (try split) <;> (try split) <;> (try split) <;> simp [Explained, defect]

@[simp] theorem explains_flagValue : Explains flagValue := by
  refine fun v => explained_map ?_
  unfold flag flagOfInt
  dsimp only
  split <;> (try split) <;> (try split) <;> (try split) <;> (try split) <;> simp [Explained, defect]

@[simp] theorem explains_oneOfValue (options : List String) : Explains (oneOfValue options) := by
  refine fun v => explained_map ?_
  unfold oneOf choice
  dsimp only
  split <;> simp [Explained, defect]

theorem explained_items {check : Check Value} (h : Explains check) (place : Nat)
    (vs : List Value) : ∀ c ∈ items check place vs, c.Explained := by
  induction vs generalizing place with
  | nil => exact nofun
  | cons v rest ih => exact List.forall_mem_cons.mpr ⟨explained_under (h v), ih _⟩

@[simp] theorem explains_optionalValue {check : Check Value} (h : Explains check) :
    Explains (optionalValue check) := by
  refine fun v => explained_map ?_
  unfold optional
  split
  · exact nofun
  · exact explained_map (h _)

@[simp] theorem explains_listValue {check : Check Value} (h : Explains check) :
    Explains (listValue check) := by
  refine fun v => explained_map ?_
  unfold listOf
  split
  · exact explained_all (explained_items h 0 _)
  · exact explained_all (explained_items h 0 _)
  · exact explained_all (explained_items h 0 _)
  · exact nofun

/-- A field that gives a problem whenever its check fails. -/
def ExplainsField (q : Property) : Prop := ∀ entries, (q.2 entries).Explained

@[simp] theorem explainsField_need {name : String} {check : Check Value} (h : Explains check) :
    ExplainsField (need name check) := by
  intro entries
  unfold need required
  dsimp only
  split
  · exact explained_under (h _)
  · exact nofun

@[simp] theorem explainsField_may {name : String} {default : Value} {check : Check Value}
    (h : Explains check) : ExplainsField (may name default check) := by
  intro entries
  unfold may defaulted
  dsimp only
  split
  · exact explained_under (h _)
  · exact nofun

theorem explains_openRecord {name : String} {properties : List Property}
    (h : ∀ q ∈ properties, ExplainsField q) : Explains (openRecord name properties) := by
  intro v
  unfold openRecord record
  split
  · next entries =>
    refine explained_map (explained_both (explained_all ?_) ?_)
    · exact List.forall_mem_map.mpr fun q hq => explained_map (h q hq entries)
    · split
      · exact nofun
      · next hne => exact fun he => hne (by simpa using he)
  · exact nofun

theorem explains_shipped {k : Kind} (hk : k ∈ Kind.shipped) : Explains k.config := by
  have hcase : Explains Kind.caseConfig := explains_openRecord (by simp)
  have hheader : Explains Kind.headerConfig := explains_openRecord (by simp)
  simp only [Kind.shipped, List.mem_cons, List.not_mem_nil, or_false] at hk
  rcases hk with rfl | rfl | rfl | rfl | rfl | rfl | rfl | rfl | rfl | rfl | rfl <;>
    exact explains_openRecord (by simp [hcase, hheader])

/-! ## Fields -/

/-- The entries of a dictionary with text keys. -/
def entriesOf (data : Names) : Entries := data.map fun (k, v) => (.str k, v)

theorem field?_entriesOf (data : Names) (name : String) :
    Value.field? name (entriesOf data) = data.lookup name := by
  induction data with
  | nil => rfl
  | cons e rest ih =>
    obtain ⟨k, v⟩ := e
    rw [entriesOf, List.map_cons, Value.field?, ← entriesOf, ih, List.lookup_cons]
    by_cases hk : k = name
    · simp [hk]
    · rw [if_neg hk, beq_eq_false_iff_ne.mpr (Ne.symm hk)]

theorem isJson_field? {entries : Entries} (hj : Value.areJsonEntries entries) {name : String}
    {v : Value} (hv : Value.field? name entries = some v) : v.isJson := by
  induction entries with
  | nil => exact nomatch hv
  | cons e rest ih =>
    obtain ⟨k, w⟩ := e
    obtain ⟨key, rfl, hw, hrest⟩ := Value.areJsonEntries_cons hj
    rw [Value.field?] at hv
    split at hv
    · cases hv
      exact hw
    · exact ih hrest hv

theorem known_eq {properties : List Property} {entries : Entries} {known : List (Value × Value)}
    (h : List.Forall₂ (fun (q : Property) e =>
      (q.2 entries).map (fun v => (Value.str q.1, v)) = .ok e) properties known) :
    ∃ fields : Names, known = entriesOf fields ∧
      List.Forall₂ (fun q e => e.1 = q.1 ∧ q.2 entries = .ok e.2) properties fields := by
  induction h with
  | nil => exact ⟨[], rfl, .nil⟩
  | cons hq _ ih =>
    obtain ⟨v, hv, rfl⟩ := map_eq_ok.mp hq
    obtain ⟨fields, rfl, hall⟩ := ih
    exact ⟨(_, v) :: fields, rfl, .cons ⟨rfl, hv⟩ hall⟩

/-- What a record gives: its fields as they are read, and the other entries after them. -/
theorem openRecord_eq_ok {name : String} {properties : List Property} {entries : Entries}
    {v : Value} (h : openRecord name properties (.dict entries) = .ok v) :
    ∃ known : Names, v = .dict (entriesOf known ++ others properties entries) ∧
      List.Forall₂ (fun q e => e.1 = q.1 ∧ q.2 entries = .ok e.2) properties known := by
  obtain ⟨⟨known, _⟩, hfields, rfl⟩ := map_eq_ok.mp h
  obtain ⟨hknown, -⟩ := both_eq_ok.mp hfields
  rw [all_eq_ok, List.forall₂_map_left_iff] at hknown
  obtain ⟨fields, hfields, hall⟩ := known_eq hknown
  exact ⟨fields, congrArg Value.dict (congrArg (· ++ _) hfields), hall⟩

/-- A record of fields is read as a record of fields. -/
theorem openRecord_ofFields {name : String} {properties : List Property} {data : Names} {v : Value}
    (h : openRecord name properties (Value.ofFields data) = .ok v) :
    ∃ parsed : Names, v = Value.ofFields parsed := by
  obtain ⟨known, rfl, -⟩ := openRecord_eq_ok h
  refine ⟨known ++ data.filter fun e => properties.all (·.1 ≠ e.1), ?_⟩
  rw [Value.ofFields, List.map_append, others, List.filter_map]
  rfl

theorem field?_known {properties : List Property} {entries rest : Entries} {known : Names}
    (h : List.Forall₂ (fun q e => e.1 = q.1 ∧ q.2 entries = .ok e.2) properties known)
    (hn : (properties.map (·.1)).Nodup) {q : Property} (hq : q ∈ properties) :
    ∃ v, q.2 entries = .ok v ∧ Value.field? q.1 (entriesOf known ++ rest) = some v := by
  induction h with
  | nil => exact nomatch hq
  | @cons q' e properties known hqe _ ih =>
    obtain ⟨k, v⟩ := e
    obtain ⟨rfl, hv⟩ := hqe
    rw [List.map_cons, List.nodup_cons] at hn
    rcases List.mem_cons.mp hq with rfl | hq
    · exact ⟨v, hv, if_pos rfl⟩
    · obtain ⟨w, hw, hl⟩ := ih hn.2 hq
      have hne : q'.1 ≠ q.1 := fun he => hn.1 (he ▸ List.mem_map_of_mem hq)
      exact ⟨w, hw, (if_neg hne).trans hl⟩

section

variable {record name : String} {properties : List Property} {entries parsed : Entries}
  {check : Check Value}

/-- A field that must be there is read by its check. -/
theorem needed_field (hr : openRecord record properties (.dict entries) = .ok (.dict parsed))
    (hn : (properties.map (·.1)).Nodup) (hq : need name check ∈ properties) :
    ∃ raw v, Value.field? name entries = some raw ∧ check raw = .ok v ∧
      Value.field? name parsed = some v := by
  obtain ⟨known, he, hall⟩ := openRecord_eq_ok hr
  obtain ⟨v, hv, hl⟩ := field?_known hall hn hq
  rw [← Value.dict.inj he] at hl
  simp only [need, required, entry?] at hv hl
  cases hraw : Value.field? name entries with
  | none => simp [hraw] at hv
  | some raw =>
    rw [hraw] at hv
    exact ⟨raw, v, rfl, under_eq_ok.mp hv, hl⟩

/-- A field with a default is the default where it is not there, and else is read by its check. -/
theorem defaulted_field {default : Value} {data fields : Names}
    (hr : openRecord record properties (Value.ofFields data) = .ok (Value.ofFields fields))
    (hj : (Value.ofFields data).isJson) (hn : (properties.map (·.1)).Nodup)
    (hq : may name default check ∈ properties) :
    (data.lookup name = none ∧ fields.lookup name = some default) ∨
      ∃ raw v, data.lookup name = some raw ∧ raw.isJson ∧ check raw = .ok v ∧
        fields.lookup name = some v := by
  obtain ⟨known, he, hall⟩ := openRecord_eq_ok hr
  obtain ⟨v, hv, hl⟩ := field?_known hall hn hq
  have hfields : entriesOf fields = _ := Value.dict.inj he
  rw [← hfields, field?_entriesOf] at hl
  have hraw := field?_entriesOf data name
  simp only [may, defaulted, entry?] at hv hl
  change Value.field? name (data.map _) = _ at hraw
  rw [hraw] at hv
  cases hd : data.lookup name with
  | none =>
    simp only [hd, Option.map_none, Checked.ok.injEq] at hv
    exact .inl ⟨rfl, hv ▸ hl⟩
  | some raw =>
    rw [hd] at hv
    exact .inr ⟨raw, v, rfl, isJson_field? hj (hraw.trans hd), under_eq_ok.mp hv, hl⟩

/-! ## Checks that keep what they accept -/

/-- A check that gives a value back as it is, if it accepts it. -/
def Keeps (check : Check Value) : Prop := ∀ v w, v.isJson → check v = .ok w → w = v

@[simp] theorem keeps_textValue (least : Nat) : Keeps (textValue least) := by
  intro v w hj h
  obtain ⟨t, ht, rfl⟩ := map_eq_ok.mp h
  unfold text at ht
  dsimp only at ht
  split at ht
  · split at ht
    · cases ht
    · cases ht
      rfl
  · cases hj
  · cases ht

@[simp] theorem keeps_oneOfValue (options : List String) : Keeps (oneOfValue options) := by
  intro v w _ h
  obtain ⟨t, ht, rfl⟩ := map_eq_ok.mp h
  have hlookup : ∀ (os : List String) (s : String),
      (os.map fun o => (o, o)).lookup s = some t → t = s := by
    intro os s hs
    induction os with
    | nil => cases hs
    | cons o rest ih =>
      rw [List.map_cons, List.lookup_cons] at hs
      split at hs
      · next he =>
        cases hs
        exact (beq_iff_eq.mp he).symm
      · exact ih hs
  unfold oneOf choice at ht
  dsimp only at ht
  split at ht
  · next a ha =>
    cases ht
    split at ha
    · exact congrArg Value.str (hlookup options _ ha)
    · cases ha
  · cases ht

@[simp] theorem keeps_optionalValue (h : Keeps check) : Keeps (optionalValue check) := by
  intro v w hj hv
  obtain ⟨o, ho, rfl⟩ := map_eq_ok.mp hv
  unfold optional at ho
  split at ho
  · cases ho
    rfl
  · obtain ⟨a, ha, rfl⟩ := map_eq_ok.mp ho
    exact h _ _ hj ha

/-- What a list is read as: its items, each read by the check. -/
theorem listValue_eq_ok {v w : Value} (hj : v.isJson) (h : listValue check v = .ok w) :
    ∃ vs ws, v = .list vs ∧ w = .list ws ∧ Value.areJson vs ∧
      List.Forall₂ (fun v w => check v = .ok w) vs ws := by
  have hitems : ∀ (vs : List Value) (place : Nat) (ws : List Value),
      List.Forall₂ (fun c a => c = .ok a) (items check place vs) ws →
        List.Forall₂ (fun v w => check v = .ok w) vs ws := by
    intro vs
    induction vs with
    | nil =>
      rintro place ws ⟨⟩
      exact .nil
    | cons v rest ih =>
      rintro place _ (_ | ⟨hv, hrest⟩)
      exact .cons (under_eq_ok.mp hv) (ih _ _ hrest)
  obtain ⟨ws, hws, rfl⟩ := map_eq_ok.mp h
  unfold listOf at hws
  split at hws
  · exact ⟨_, ws, rfl, rfl, hj, hitems _ _ _ (all_eq_ok.mp hws)⟩
  · cases hj
  · cases hj
  · cases hws

theorem forall₂_keeps (h : Keeps check) {vs ws : List Value} (hj : Value.areJson vs)
    (hall : List.Forall₂ (fun v w => check v = .ok w) vs ws) : ws = vs := by
  induction hall with
  | nil => rfl
  | cons hv _ ih =>
    rw [Value.areJson, Bool.and_eq_true] at hj
    rw [h _ _ hj.1 hv, ih hj.2]

@[simp] theorem keeps_listValue (h : Keeps check) : Keeps (listValue check) := by
  intro v w hj hv
  obtain ⟨vs, ws, rfl, rfl, hvs, hall⟩ := listValue_eq_ok hj hv
  rw [forall₂_keeps h hvs hall]

/-- A field that must be there is kept, if its check keeps what it accepts. -/
theorem needed_kept (hr : openRecord record properties (.dict entries) = .ok (.dict parsed))
    (hj : Value.areJsonEntries entries) (hn : (properties.map (·.1)).Nodup)
    (hq : need name check ∈ properties) (hc : Keeps check) :
    Value.field? name parsed = Value.field? name entries := by
  obtain ⟨raw, v, hraw, hv, hl⟩ := needed_field hr hn hq
  rw [hl, hraw, hc raw v (isJson_field? hj hraw) hv]

/-- A field with a default is kept or is the default, if its check keeps what it accepts. -/
theorem defaulted_kept {default : Value} {data fields : Names}
    (hr : openRecord record properties (Value.ofFields data) = .ok (Value.ofFields fields))
    (hj : (Value.ofFields data).isJson) (hn : (properties.map (·.1)).Nodup)
    (hq : may name default check ∈ properties) (hc : Keeps check) :
    fields.lookup name = some ((data.lookup name).getD default) := by
  rcases defaulted_field hr hj hn hq with ⟨hraw, hl⟩ | ⟨raw, v, hraw, hjson, hv, hl⟩
  · rw [hl, hraw, Option.getD_none]
  · rw [hl, hraw, Option.getD_some, hc raw v hjson hv]

end

end Check

/-! ## Readings -/

namespace Step

open Check

/-- A step with another configuration. -/
def withData (s : Step) (data : Names) : Step := { s with data }

variable {s : Step} {parsed : Names} {record name : String} {properties : List Property}
  {check : Check Value} {default : Value}

/-- A field that must be there reads the same, if its check keeps what it accepts. -/
theorem field?_needed
    (hr : openRecord record properties (Value.ofFields s.data) = .ok (Value.ofFields parsed))
    (hj : (Value.ofFields s.data).isJson) (hn : (properties.map (·.1)).Nodup)
    (hq : need name check ∈ properties) (hc : Keeps check) :
    (s.withData parsed).field? name = s.field? name := by
  have hl := needed_kept hr hj hn hq hc
  rw [← entriesOf, ← entriesOf, field?_entriesOf, field?_entriesOf] at hl
  exact congrArg _ hl

/-- A default that counts as false is as if the field were not there. -/
theorem field?_defaulted (hd : default.truthy = false)
    (hl : parsed.lookup name = some ((s.data.lookup name).getD default)) :
    (s.withData parsed).field? name = s.field? name := by
  have hfield : (s.withData parsed).field? name = (parsed.lookup name).filter (·.truthy) := rfl
  rw [hfield, hl, field?]
  cases s.data.lookup name with
  | none => simp [hd]
  | some v => rfl

/-- A default that the generator falls back to as well is as if the field were not there. -/
theorem fieldText_defaulted {text : String} (ht : text.isEmpty = false)
    (hl : parsed.lookup name = some ((s.data.lookup name).getD (.str text))) :
    (s.withData parsed).fieldText name text = s.fieldText name text := by
  have hfield : (s.withData parsed).field? name = (parsed.lookup name).filter (·.truthy) := rfl
  rw [fieldText, fieldText, hfield, hl, field?]
  cases s.data.lookup name with
  | none =>
    have htruthy : (Value.str text).truthy = true := by rw [Value.truthy, ht]; rfl
    rw [Option.getD_none, Option.filter_some, htruthy]
    rfl
  | some v => rfl

/-! ### Branches and selections -/

theorem condition_parsed (hj : (Value.ofFields s.data).isJson)
    (hr : Kind.branchConfig (Value.ofFields s.data) = .ok (Value.ofFields parsed)) :
    (s.withData parsed).condition = s.condition := by
  have hfield : (s.withData parsed).field? "condition" = s.field? "condition" :=
    field?_needed hr hj (by decide) (by simp) (keeps_textValue 1)
  rw [condition, condition, fieldText, fieldText, hfield]

theorem subject_parsed (hj : (Value.ofFields s.data).isJson)
    (hr : Kind.selectConfig (Value.ofFields s.data) = .ok (Value.ofFields parsed)) :
    (s.withData parsed).subject = s.subject := by
  have hfield : (s.withData parsed).field? "expression" = s.field? "expression" :=
    field?_needed hr hj (by decide) (List.mem_of_getElem? (i := 0) rfl) (keeps_textValue 1)
  rw [subject, subject, fieldText, fieldText, hfield]

/-- A case keeps its text. -/
theorem caseText_parsed {v w : Value} (hj : v.isJson) (h : Kind.caseConfig v = .ok w) :
    caseText w = caseText v := by
  unfold Kind.caseConfig at h
  cases v with
  | dict entries =>
    obtain ⟨known, rfl, -⟩ := openRecord_eq_ok h
    have hfield : Value.field? "value" (entriesOf known ++ others _ entries) =
        Value.field? "value" entries :=
      needed_kept h hj (by decide) (List.mem_of_getElem? (i := 0) rfl) (keeps_textValue 0)
    rw [caseText, caseText, hfield]
  | _ => simp [openRecord, Check.record, Checked.defect] at h

theorem cases_of_list {vs : List Value} (h : s.data.lookup "cases" = some (.list vs)) :
    s.cases = .ok (vs.map caseText) := by
  unfold cases field?
  rw [h]
  cases vs <;> rfl

theorem cases_parsed (hj : (Value.ofFields s.data).isJson)
    (hr : Kind.selectConfig (Value.ofFields s.data) = .ok (Value.ofFields parsed)) :
    (s.withData parsed).cases = s.cases := by
  rcases defaulted_field hr hj (by decide) (List.mem_of_getElem? (i := 1) rfl) with
    ⟨hraw, hl⟩ | ⟨raw, v, hraw, hjson, hv, hl⟩
  · have hnone : s.cases = .ok [] := by
      unfold cases field?
      rw [hraw]
      rfl
    have hparsed : (s.withData parsed).cases = .ok ([].map caseText) := cases_of_list hl
    rw [hnone, hparsed]
    rfl
  · obtain ⟨vs, ws, rfl, rfl, hvs, hall⟩ := listValue_eq_ok hjson hv
    have hparsed : (s.withData parsed).cases = .ok (ws.map caseText) := cases_of_list hl
    rw [cases_of_list hraw, hparsed]
    refine congrArg _ ?_
    clear hraw hv hl hjson hparsed
    induction hall with
    | nil => rfl
    | cons hc _ ih =>
      rw [Value.areJson, Bool.and_eq_true] at hvs
      rw [List.map_cons, List.map_cons, caseText_parsed hvs.1 hc, ih hvs.2]

/-! ### Loops -/

theorem iterator_parsed (hj : (Value.ofFields s.data).isJson)
    (hr : Kind.loopConfig (Value.ofFields s.data) = .ok (Value.ofFields parsed)) :
    (s.withData parsed).iterator = s.iterator := by
  have hfield : (s.withData parsed).field? "iterator" = s.field? "iterator" :=
    field?_needed hr hj (by decide) (List.mem_of_getElem? (i := 0) rfl) (keeps_textValue 1)
  rw [iterator, iterator, fieldText, fieldText, hfield]

theorem itemVariable_parsed (hj : (Value.ofFields s.data).isJson)
    (hr : Kind.loopConfig (Value.ofFields s.data) = .ok (Value.ofFields parsed)) :
    (s.withData parsed).itemVariable = s.itemVariable :=
  fieldText_defaulted rfl (defaulted_kept hr hj (by decide)
    (List.mem_of_getElem? (i := 1) rfl) (keeps_textValue 0))

/-- The number of items that a loop takes at once is not written as an integer, but read as one
above one. -/
def SizeMisread (s : Step) : Prop :=
  ∃ raw n, s.data.lookup "batchSize" = some raw ∧ (∀ k, raw ≠ .int k) ∧
    Check.integer 1 raw = .ok n ∧ 2 ≤ n

theorem le_of_integer_eq_ok {least n : Int} {v : Value} (h : Check.integer least v = .ok n) :
    least ≤ n := by
  unfold Check.integer at h
  dsimp only at h
  split at h <;> (try split at h) <;> (try split at h) <;> (try split at h) <;>
    simp_all [Checked.defect]

theorem batchSize_of_int {n : Int} (h : s.data.lookup "batchSize" = some (.int n)) :
    s.batchSize = if n < 1 then 1 else n.toNat := by
  rw [batchSize, h]

theorem batchSize_of_other {v : Value} (h : s.data.lookup "batchSize" = some v)
    (hv : ∀ k, v ≠ .int k) : s.batchSize = 1 := by
  unfold batchSize
  split
  · next k hk => exact (hv k (Option.some.inj (h.symm.trans hk))).elim
  · rfl

/-- A loop takes as many items at once as its check reads, unless it reads a number above one
that is not written as an integer. -/
theorem batchSize_eq_iff (hj : (Value.ofFields s.data).isJson)
    (hr : Kind.loopConfig (Value.ofFields s.data) = .ok (Value.ofFields parsed)) :
    (s.withData parsed).batchSize = s.batchSize ↔ ¬ s.SizeMisread := by
  rcases defaulted_field hr hj (by decide)
      (List.mem_of_getElem? (i := 2) rfl) with
    ⟨hraw, hl⟩ | ⟨raw, v, hraw, -, hv, hl⟩
  · have hsize : s.batchSize = 1 := by rw [batchSize, hraw]
    have hparsed : (s.withData parsed).batchSize = 1 := batchSize_of_other hl nofun
    simp [hsize, hparsed, SizeMisread, hraw]
  · obtain ⟨o, ho, rfl⟩ := Checked.map_eq_ok.mp hv
    unfold Check.optional at ho
    split at ho
    · cases ho
      have hsize : s.batchSize = 1 := batchSize_of_other hraw nofun
      have hparsed : (s.withData parsed).batchSize = 1 := batchSize_of_other hl nofun
      simp [hsize, hparsed, SizeMisread, hraw, Check.integer, Checked.defect]
    · obtain ⟨w, hw, rfl⟩ := Checked.map_eq_ok.mp ho
      obtain ⟨n, hn, rfl⟩ := Checked.map_eq_ok.mp hw
      have hle := le_of_integer_eq_ok hn
      have hparsed : (s.withData parsed).batchSize = if n < 1 then 1 else n.toNat :=
        batchSize_of_int hl
      rw [hparsed, if_neg (by omega)]
      by_cases hint : ∃ k, raw = .int k
      · obtain ⟨k, rfl⟩ := hint
        have hk : n = k := by
          unfold Check.integer at hn
          dsimp only at hn
          split at hn <;> simp_all [Checked.defect]
        rw [batchSize_of_int hraw, ← hk, if_neg (by omega)]
        refine iff_of_true rfl ?_
        rintro ⟨raw, m, hraw', hne, -⟩
        exact hne k (Option.some.inj (hraw'.symm.trans hraw))
      · have hne : ∀ k, raw ≠ .int k := fun k hk => hint ⟨k, hk⟩
        rw [batchSize_of_other hraw hne]
        constructor
        · rintro hone ⟨raw', m, hraw', -, hm, htwo⟩
          cases hraw.symm.trans hraw'
          cases hn.symm.trans hm
          omega
        · intro hnot
          by_contra hsize
          exact hnot ⟨raw, n, hraw, hne, hn, by omega⟩

/-! ### Triggers -/

theorem schedule_parsed (hj : (Value.ofFields s.data).isJson)
    (hr : Kind.cronConfig (Value.ofFields s.data) = .ok (Value.ofFields parsed)) :
    (s.withData parsed).schedule = s.schedule :=
  fieldText_defaulted rfl
    (defaulted_kept hr hj (by decide) (List.mem_of_getElem? (i := 0) rfl) (keeps_textValue 0))

theorem runCondition?_parsed (hj : (Value.ofFields s.data).isJson)
    (hr : Kind.cronConfig (Value.ofFields s.data) = .ok (Value.ofFields parsed)) :
    (s.withData parsed).runCondition? = s.runCondition? := by
  have hl : parsed.lookup "condition" = some ((s.data.lookup "condition").getD .none) :=
    defaulted_kept hr hj (by decide) (List.mem_of_getElem? (i := 1) rfl)
      (keeps_optionalValue (keeps_textValue 0))
  unfold runCondition?
  rw [withData, hl]
  cases s.data.lookup "condition" <;> rfl

section

variable (hj : (Value.ofFields s.data).isJson)
  (hr : Kind.webhookConfig (Value.ofFields s.data) = .ok (Value.ofFields parsed))
include hj hr

theorem methods_parsed : (s.withData parsed).methods = s.methods := by
  have hl : parsed.lookup "methods" =
      some ((s.data.lookup "methods").getD (.list [.str "POST"])) :=
    defaulted_kept hr hj (by decide) (List.mem_of_getElem? (i := 1) rfl)
      (keeps_listValue (keeps_oneOfValue _))
  have hfield : (s.withData parsed).field? "methods" =
      (parsed.lookup "methods").filter (·.truthy) := rfl
  unfold methods
  rw [hfield, hl, field?]
  cases s.data.lookup "methods" <;> rfl

theorem wantsToken_parsed : (s.withData parsed).wantsToken = s.wantsToken := by
  have hl : parsed.lookup "authMode" = some ((s.data.lookup "authMode").getD (.str "public")) :=
    defaulted_kept hr hj (by decide) (List.mem_of_getElem? (i := 2) rfl) (keeps_oneOfValue _)
  have hfield : (s.withData parsed).field? "authMode" =
      (parsed.lookup "authMode").filter (·.truthy) := rfl
  unfold wantsToken
  rw [hfield, hl, field?]
  cases s.data.lookup "authMode" <;> rfl

theorem signingSecret?_parsed : (s.withData parsed).signingSecret? = s.signingSecret? := by
  have hfield : (s.withData parsed).field? "secretKeyRef" = s.field? "secretKeyRef" :=
    field?_defaulted (by rfl) (defaulted_kept hr hj (by decide)
      (List.mem_of_getElem? (i := 4) rfl) (keeps_optionalValue (keeps_textValue 0)))
  rw [signingSecret?, signingSecret?, hfield]

end

/-- The flag that demands signatures is a text that means no. -/
def SaysNo (s : Step) : Prop :=
  ∃ t, s.data.lookup "verifySignature" = some (.str t) ∧ Check.flagOfText t = some false

/-- A text that means yes or no counts as true. -/
theorem truthy_of_flagOfText {t : String} {b : Bool} (h : Check.flagOfText t = some b) :
    (Value.str t).truthy = true := by
  have hne : t ≠ "" := by
    rintro rfl
    have hnone : Check.flagOfText "" = none := by cbv
    cases hnone.symm.trans h
  simpa [Value.truthy] using hne

theorem truthy_of_flagOfInt {v : Value} {n : Int} {b : Bool} (h : Check.flagOfInt v n = .ok b) :
    b = (n != 0) := by
  unfold Check.flagOfInt at h
  split at h
  · cases h
    simp_all
  · split at h
    · cases h
      simp_all
    · split at h <;> cases h

/-- A flag counts as what its check reads, unless it is a text that means no. -/
theorem truthy_eq_iff {v : Value} {b : Bool} (hj : v.isJson) (h : Check.flag v = .ok b) :
    v.truthy = b ↔ ¬ ∃ t, v = .str t ∧ Check.flagOfText t = some false := by
  unfold Check.flag at h
  dsimp only at h
  split at h
  · cases h
    simp [Value.truthy]
  · rw [truthy_of_flagOfInt h]
    simp [Value.truthy]
  · next x =>
    split at h
    · next n hn =>
      have hint : Number.integer? x = some n := by
        unfold Schema.integerOfFloat at hn
        split at hn
        · cases hn
        · split at hn
          · cases hn
          · next hm =>
            split at hn
            · cases hn
              exact hm
            · cases hn
      have hzero := Number.beq_zero_of_integer? hint
      have htruthy : (Value.float x).truthy = (n != 0) := by
        rw [Value.truthy, bne, bne, Bool.not_inj_iff, Bool.eq_iff_iff, hzero, beq_iff_eq]
      rw [truthy_of_flagOfInt h, htruthy]
      simp
    · cases h
  · next t =>
    split at h
    · next hflag =>
      cases h
      rw [truthy_of_flagOfText hflag]
      cases b <;> simp [hflag]
    · cases h
  · cases hj
  · cases h

theorem wantsSignature_of_lookup {v : Value} (h : s.data.lookup "verifySignature" = some v) :
    s.wantsSignature = v.truthy := by
  rw [wantsSignature, field?, h, Option.filter_some]
  cases v.truthy <;> rfl

/-- A webhook demands signatures if its check reads that it does, unless the flag is a text that
means no. -/
theorem wantsSignature_eq_iff (hj : (Value.ofFields s.data).isJson)
    (hr : Kind.webhookConfig (Value.ofFields s.data) = .ok (Value.ofFields parsed)) :
    (s.withData parsed).wantsSignature = s.wantsSignature ↔ ¬ s.SaysNo := by
  have hread : (s.data.lookup "verifySignature" = none ∧
        parsed.lookup "verifySignature" = some (.bool false)) ∨
      ∃ raw v, s.data.lookup "verifySignature" = some raw ∧ raw.isJson ∧
        Check.flagValue raw = .ok v ∧ parsed.lookup "verifySignature" = some v :=
    defaulted_field hr hj (by decide) (List.mem_of_getElem? (i := 3) rfl)
  rcases hread with ⟨hraw, hl⟩ | ⟨raw, v, hraw, hjson, hv, hl⟩
  · have hnone : s.wantsSignature = false := by
      rw [wantsSignature, field?, hraw]
      rfl
    have hparsed : (s.withData parsed).wantsSignature = (Value.bool false).truthy :=
      wantsSignature_of_lookup hl
    simp [hnone, hparsed, Value.truthy, SaysNo, hraw]
  · obtain ⟨b, hb, rfl⟩ := Checked.map_eq_ok.mp hv
    have hno : s.SaysNo ↔ ∃ t, raw = .str t ∧ Check.flagOfText t = some false := by
      simp [SaysNo, hraw]
    have hparsed : (s.withData parsed).wantsSignature = (Value.bool b).truthy :=
      wantsSignature_of_lookup hl
    rw [hparsed, wantsSignature_of_lookup hraw, hno, ← truthy_eq_iff hjson hb]
    exact eq_comm

end Step

end Workflow
