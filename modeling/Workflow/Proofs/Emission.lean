/-
Generation as a recursion over one table of continuations (`Emits`), and why it
ends on every graph, whatever its cycles (`emission_total`).

A node is emitted together with what follows it. Where several nodes follow,
they are emitted one after the other, on one path but on the table that the one
before has left. A join that is met first has its slot reserved, and then what
follows it is emitted on a path of its own, which holds the open joins alone: so
the path does not only grow, and the nodes that are not on it are no measure by
themselves. But each time it shrinks a slot has been taken, and there is one for
each join. The flow of a plan is what this recursion emits (`Emits.build`).
-/
import Workflow.Proofs.Continuations

namespace Workflow.Handler

/-! ## The recursion -/

/-- The state of a generation. -/
structure Emission where
  /-- The continuations by their joins, in the order in which they were begun; those that are being
  built have no body yet. -/
  slots : List (String × Option (List Block)) := []
  /-- The joins whose continuations are being built, the innermost last. -/
  opened : List String := []

namespace Emission

/-- The joins whose continuations have been begun. -/
def begun (e : Emission) : List String := e.slots.map (·.1)

/-- Begins a continuation. -/
def reserve (e : Emission) (join : String) : Emission where
  slots := e.slots ++ [(join, none)]
  opened := e.opened ++ [join]

/-- Ends a continuation, unless it has failed. -/
def fill (e : Emission) (join : String) : Outcome (List (List Block)) → Emission
  | .error _ => e
  | .ok seqs =>
    { slots := e.slots.map fun slot => if slot.1 = join then (join, some seqs.flatten) else slot
      opened := e.opened.dropLast }

end Emission

/-- What is to be emitted. -/
inductive Task where
  /-- A node, if one is named, and what follows it. -/
  | node (path : List String) (start : Option String)
  /-- Nodes one after the other, each with what follows it. -/
  | arms (path : List String) (starts : List (Option String))

namespace Task

def path : Task → List String
  | node path _ => path
  | arms path _ => path

def starts : Task → List (Option String)
  | node _ start => [start]
  | arms _ starts => starts

end Task

/-- The blocks of a step, given what has been emitted for each node that it leads to. -/
def assemble (s : Step) (seqs : List (List Block)) : List Block :=
  match s.form, seqs with
  | .trigger, [rest] => .trigger s :: rest
  | .unsupported, [rest] => .unsupported s :: rest
  | .action, [rest] => .action s :: rest
  | .branch, [yes, no] => [.branch s yes no]
  | .subject, [rest] => .subject s :: rest
  | .select cases, seqs => [.select s (cases.zip seqs) (seqs.getLastD [])]
  | .loop, [body, rest] => .loop s body :: rest
  | _, _ => []

/-- Nothing is emitted for a node that is not named, is on the path or does not exist. -/
def Stops (p : Plan) (path : List String) (start : Option String) : Prop :=
  ∀ id, start = some id → id ∈ path ∨ p.step? id = none

/-- `Emits p task e out e'`: in the state `e` the task is emitted as the sequences `out`, one for
each node, or fails; `e'` is the state after it. -/
inductive Emits (p : Plan) : Task → Emission → Outcome (List (List Block)) → Emission → Prop
  | stop {path : List String} {start : Option String} {e : Emission} :
      Stops p path start → Emits p (.node path start) e (.ok [[]]) e
  | unreadable {path : List String} {id : String} {s : Step} {f : Fault} {e : Emission} :
      id ∉ path → p.step? id = some s → s.form = .unreadable f →
      Emits p (.node path (some id)) e (.error f) e
  | enter {path : List String} {id : String} {s : Step} {out : Outcome (List (List Block))}
      {e e' : Emission} :
      id ∉ path → p.step? id = some s → s.form ≠ .join → (∀ f, s.form ≠ .unreadable f) →
      Emits p (.arms (id :: path) (stepTargets p s)) e out e' →
      Emits p (.node path (some id)) e (out.map fun seqs => [assemble s seqs]) e'
  | known {path : List String} {id : String} {s : Step} {e : Emission} :
      id ∉ path → p.step? id = some s → s.form = .join → id ∈ e.begun →
      Emits p (.node path (some id)) e (.ok [[.join s]]) e
  | fresh {path : List String} {id : String} {s : Step} {out : Outcome (List (List Block))}
      {e e' : Emission} :
      id ∉ path → p.step? id = some s → s.form = .join → id ∉ e.begun →
      Emits p (.node (e.opened ++ [id]) (p.nextTarget id)) (e.reserve id) out e' →
      Emits p (.node path (some id)) e (out.map fun _ => [[.join s]]) (e'.fill id out)
  | nil {path : List String} {e : Emission} : Emits p (.arms path []) e (.ok []) e
  | cons {path : List String} {start : Option String} {starts : List (Option String)}
      {seqs : List (List Block)} {out : Outcome (List (List Block))} {e e' e'' : Emission} :
      Emits p (.node path start) e (.ok seqs) e' → Emits p (.arms path starts) e' out e'' →
      Emits p (.arms path (start :: starts)) e (out.map (seqs ++ ·)) e''
  | fail {path : List String} {start : Option String} {starts : List (Option String)} {f : Fault}
      {e e' : Emission} :
      Emits p (.node path start) e (.error f) e' →
      Emits p (.arms path (start :: starts)) e (.error f) e'

variable {p : Plan} {task : Task} {e e' : Emission} {out : Outcome (List (List Block))}

/-! ## What is emitted -/

theorem zip_map_append {α β : Type} (g : α → β) (rest : List β) (items : List α) :
    items.zip (items.map g ++ rest) = items.map fun a => (a, g a) := by
  induction items with
  | nil => rfl
  | cons a items ih => rw [List.map_cons, List.cons_append, List.zip_cons_cons, ih, List.map_cons]

theorem assemble_map {s : Step} (next : Option String → List Block) (hj : s.form ≠ .join)
    (hu : ∀ f, s.form ≠ .unreadable f) :
    assemble s ((stepTargets p s).map next) = stepBlocks p s next := by
  unfold assemble stepTargets stepBlocks
  cases hf : s.form with
  | select cases =>
    simp only [List.map_append, List.map_map, List.map_cons, List.map_nil]
    rw [zip_map_append, List.getLastD_concat]
    rfl
  | join => exact absurd hf hj
  | unreadable f => exact absurd hf (hu f)
  | _ => rfl

theorem Stops.walk_eq {path : List String} {start : Option String} (h : Stops p path start) :
    walk p path start = [] := by
  match start with
  | none => exact walk_none
  | some id =>
    rcases h id rfl with h | h
    · exact walk_mem h
    · exact walk_missing h

/-- What is emitted for a node is the walk from it, whatever the table holds; and continuations that
are begun on the way are ended. -/
theorem Emits.sequences (h : Emits p task e out e') : ∀ seqs, out = .ok seqs →
    seqs = task.starts.map (walk p task.path) ∧ e'.opened = e.opened := by
  induction h with
  | stop hs =>
    rintro _ ⟨⟩
    simp [Task.starts, Task.path, hs.walk_eq]
  | unreadable => simp
  | @enter path id s out e e' hp hs hj hu _ ih =>
    intro seqs hseqs
    cases out with
    | error f => cases hseqs
    | ok inner =>
      cases hseqs
      obtain ⟨rfl, ho⟩ := ih inner rfl
      simp [Task.starts, Task.path, assemble_map _ hj hu, walk_enter hp hs, ho]
  | @known path id s e hp hs hj _ =>
    rintro _ ⟨⟩
    simp [Task.starts, Task.path, walk_enter hp hs, stepBlocks, hj]
  | @fresh path id s out e e' hp hs hj _ _ ih =>
    intro seqs hseqs
    cases out with
    | error f => cases hseqs
    | ok inner =>
      cases hseqs
      obtain ⟨-, ho⟩ := ih inner rfl
      simp [Task.starts, Task.path, walk_enter hp hs, stepBlocks, hj, Emission.fill,
        Emission.reserve, ho]
  | nil =>
    rintro _ ⟨⟩
    simp [Task.starts]
  | @cons path start starts seqs₁ out e e' e'' _ _ ih₁ ih₂ =>
    intro seqs hseqs
    cases out with
    | error f => cases hseqs
    | ok inner =>
      cases hseqs
      obtain ⟨rfl, ho₁⟩ := ih₁ _ rfl
      obtain ⟨rfl, ho₂⟩ := ih₂ _ rfl
      simp [Task.starts, Task.path, ho₁, ho₂]
  | fail => simp

@[simp] theorem Emission.begun_reserve (e : Emission) (join : String) :
    (e.reserve join).begun = e.begun ++ [join] := by
  simp [reserve, begun]

@[simp] theorem Emission.begun_fill (e : Emission) (join : String)
    (out : Outcome (List (List Block))) : (e.fill join out).begun = e.begun := by
  cases out with
  | error f => rfl
  | ok seqs =>
    simp only [fill, begun, List.map_map]
    refine List.map_congr_left fun slot _ => ?_
    dsimp only [Function.comp]
    split <;> simp [*]

/-- Continuations are begun for joins alone, and for each at most once. -/
theorem Emits.begun (h : Emits p task e out e') : ∃ new, e'.begun = e.begun ++ new ∧ new.Nodup ∧
    ∀ k ∈ new, k ∈ joinIds p ∧ k ∉ e.begun := by
  induction h with
  | stop | unreadable | known | nil => exact ⟨[], by simp⟩
  | enter _ _ _ _ _ ih => exact ih
  | @fresh path id s out e e' _ hs hj hb _ ih =>
    obtain ⟨new, hbegun, hnodup, hnew⟩ := ih
    rw [Emission.begun_reserve] at hbegun hnew
    refine ⟨id :: new, by rw [Emission.begun_fill, hbegun]; simp, ?_, ?_⟩
    · exact List.nodup_cons.mpr ⟨fun hm => (hnew id hm).2 (by simp), hnodup⟩
    · intro k hk
      rcases List.mem_cons.mp hk with rfl | hk
      · exact ⟨mem_joinIds hs hj, hb⟩
      · exact ⟨(hnew k hk).1, fun hm => (hnew k hk).2 (List.mem_append_left _ hm)⟩
  | @cons path start starts seqs out e e' e'' _ _ ih₁ ih₂ =>
    obtain ⟨new₁, hbegun₁, hnodup₁, hnew₁⟩ := ih₁
    obtain ⟨new₂, hbegun₂, hnodup₂, hnew₂⟩ := ih₂
    rw [hbegun₁] at hbegun₂ hnew₂
    refine ⟨new₁ ++ new₂, by rw [hbegun₂, List.append_assoc], ?_, ?_⟩
    · refine List.nodup_append.mpr ⟨hnodup₁, hnodup₂, ?_⟩
      rintro k hk _ hk' rfl
      exact (hnew₂ k hk').2 (List.mem_append_right _ hk)
    · intro k hk
      rcases List.mem_append.mp hk with hk | hk
      · exact hnew₁ k hk
      · exact ⟨(hnew₂ k hk).1, fun hm => (hnew₂ k hk).2 (List.mem_append_left _ hm)⟩
  | fail _ ih => exact ih

/-! ## One outcome -/

theorem Emits.det {out₁ out₂ : Outcome (List (List Block))} {e₁ e₂ : Emission}
    (h₁ : Emits p task e out₁ e₁) (h₂ : Emits p task e out₂ e₂) : out₁ = out₂ ∧ e₁ = e₂ := by
  induction h₁ generalizing out₂ e₂ with
  | stop hs =>
    cases h₂ with
    | stop => exact ⟨rfl, rfl⟩
    | unreadable hp hs' | enter hp hs' | known hp hs' | fresh hp hs' =>
      rcases hs _ rfl with h | h <;> simp_all
  | unreadable hp hs hf =>
    cases h₂ with
    | stop hs' => rcases hs' _ rfl with h | h <;> simp_all
    | unreadable => simp_all
    | enter | known | fresh => simp_all
  | enter hp hs hj hu _ ih =>
    cases h₂ with
    | stop hs' => rcases hs' _ rfl with h | h <;> simp_all
    | unreadable | known | fresh => simp_all
    | enter hp' hs' hj' hu' h' =>
      cases hs.symm.trans hs'
      obtain ⟨rfl, rfl⟩ := ih h'
      exact ⟨rfl, rfl⟩
  | known hp hs hj hb =>
    cases h₂ with
    | stop hs' => rcases hs' _ rfl with h | h <;> simp_all
    | unreadable | known | fresh | enter => simp_all
  | fresh hp hs hj hb _ ih =>
    cases h₂ with
    | stop hs' => rcases hs' _ rfl with h | h <;> simp_all
    | unreadable | known | enter => simp_all
    | fresh hp' hs' hj' hb' h' =>
      cases hs.symm.trans hs'
      obtain ⟨rfl, rfl⟩ := ih h'
      exact ⟨rfl, rfl⟩
  | nil =>
    cases h₂
    exact ⟨rfl, rfl⟩
  | cons _ _ ih₁ ih₂ =>
    cases h₂ with
    | cons h h' =>
      obtain ⟨hseqs, rfl⟩ := ih₁ h
      cases hseqs
      obtain ⟨rfl, rfl⟩ := ih₂ h'
      exact ⟨rfl, rfl⟩
    | fail h => cases (ih₁ h).1
  | fail _ ih =>
    cases h₂ with
    | cons h h' => cases (ih h).1
    | fail h =>
      obtain ⟨hf, rfl⟩ := ih h
      cases hf
      exact ⟨rfl, rfl⟩

/-- How much is left to emit besides what is left of the path and of the slots. -/
def Task.size : Task → Nat
  | node .. => 0
  | arms _ starts => starts.length + 1

theorem unseen_congr {members xs : List String} (ys : List String) (h : ∀ k, k ∈ xs ↔ k ∈ ys) :
    Graph.unseen members xs = Graph.unseen members ys := by
  simp only [Graph.unseen, h]

theorem length_unseen_reserve_lt {e : Emission} {k : String} (hk : k ∈ joinIds p)
    (hb : k ∉ e.begun) : (Graph.unseen (joinIds p) (e.reserve k).begun).length <
      (Graph.unseen (joinIds p) e.begun).length := by
  rw [unseen_congr (k :: e.begun) (by simp [or_comm])]
  exact Graph.length_unseen_cons_lt hk hb

theorem Emits.length_unseen_le (h : Emits p task e out e') :
    (Graph.unseen (joinIds p) e'.begun).length ≤ (Graph.unseen (joinIds p) e.begun).length := by
  obtain ⟨new, hbegun, -⟩ := h.begun
  rw [unseen_congr (new ++ e.begun) (by simp [hbegun, or_comm])]
  exact length_unseen_append_le ..

/-- Every task comes to an end in every state. A continuation takes a slot, a node lengthens the
path, and arms are finitely many. -/
theorem exists_emits (p : Plan) (task : Task) (e : Emission) : ∃ out e', Emits p task e out e' := by
  match task with
  | .arms path [] => exact ⟨_, _, .nil⟩
  | .arms path (start :: starts) =>
    obtain ⟨out, e', h⟩ := exists_emits p (.node path start) e
    cases out with
    | error f => exact ⟨_, _, .fail h⟩
    | ok seqs =>
      have hle := h.length_unseen_le
      obtain ⟨out, e'', h'⟩ := exists_emits p (.arms path starts) e'
      exact ⟨_, _, .cons h h'⟩
  | .node path none => exact ⟨_, _, .stop fun _ h => by cases h⟩
  | .node path (some id) =>
    by_cases hp : id ∈ path
    · exact ⟨_, _, .stop fun _ h => by cases h; exact .inl hp⟩
    cases hs : p.step? id with
    | none => exact ⟨_, _, .stop fun _ h => by cases h; exact .inr hs⟩
    | some s =>
      by_cases hj : s.form = .join
      · by_cases hb : id ∈ e.begun
        · exact ⟨_, _, .known hp hs hj hb⟩
        · have hlt := length_unseen_reserve_lt (mem_joinIds hs hj) hb
          obtain ⟨out, e', h⟩ :=
            exists_emits p (.node (e.opened ++ [id]) (p.nextTarget id)) (e.reserve id)
          exact ⟨_, _, .fresh hp hs hj hb h⟩
      · by_cases hu : ∃ f, s.form = .unreadable f
        · obtain ⟨f, hf⟩ := hu
          exact ⟨_, _, .unreadable hp hs hf⟩
        · have hlt := Graph.length_unseen_cons_lt (mem_stepIds hs) hp
          obtain ⟨out, e', h⟩ := exists_emits p (.arms (id :: path) (stepTargets p s)) e
          exact ⟨_, _, .enter hp hs hj (fun f hf => hu ⟨f, hf⟩) h⟩
termination_by ((Graph.unseen (joinIds p) e.begun).length,
  (Graph.unseen (stepIds p) task.path).length, task.size)
decreasing_by
  · exact Prod.Lex.right _ (Prod.Lex.right _ (Nat.succ_pos _))
  · rcases Nat.lt_or_eq_of_le hle with hlt | heq
    · exact Prod.Lex.left _ _ hlt
    · rw [heq]
      exact Prod.Lex.right _ (Prod.Lex.right _ (Nat.lt_succ_self _))
  · exact Prod.Lex.left _ _ hlt
  · exact Prod.Lex.right _ (Prod.Lex.left _ _ hlt)

/-! ## The flow of a plan -/

theorem visitsOfArms_map (n : Nat) (g : String → List Block) (cases : List String) :
    visitsOfArms n (cases.map fun c => (c, g c)) = cases.flatMap fun c => visitsOf n (g c) := by
  induction cases with
  | nil => rfl
  | cons c cases ih => rw [List.map_cons, visitsOfArms, ih, List.flatMap_cons]

/-- The visits of a step's blocks: the step's own, then those of what follows, node by node. -/
theorem visitsOf_stepBlocks {s : Step} (next : Option String → List Block) (hj : s.form ≠ .join)
    (hu : ∀ f, s.form ≠ .unreadable f) (n : Nat) :
    ∃ (block : Block) (starts : List (Option String × Nat)), block.form = s.form ∧
      starts.map (·.1) = stepTargets p s ∧
      visitsOf n (stepBlocks p s next) =
        ⟨block, n⟩ :: starts.flatMap fun t => visitsOf t.2 (next t.1) := by
  unfold stepBlocks stepTargets
  cases hf : s.form with
  | trigger =>
    exact ⟨.trigger s, [(p.nextTarget s.id, n)], rfl, rfl, by simp [visitsOf, Block.visits]⟩
  | unsupported =>
    exact ⟨.unsupported s, [(p.nextTarget s.id, n)], rfl, rfl, by simp [visitsOf, Block.visits]⟩
  | action =>
    exact ⟨.action s, [(p.nextTarget s.id, n)], rfl, rfl, by simp [visitsOf, Block.visits]⟩
  | subject =>
    exact ⟨.subject s, [(p.portTarget s.id "default", n)], rfl, rfl,
      by simp [visitsOf, Block.visits]⟩
  | branch =>
    exact ⟨.branch s (next (p.portTarget s.id "true")) (next (p.portTarget s.id "false")),
      [(p.portTarget s.id "true", n + 1), (p.portTarget s.id "false", n + 1)], rfl, rfl,
      by simp [visitsOf, Block.visits]⟩
  | loop =>
    exact ⟨.loop s (next (p.portTarget s.id "body")),
      [(p.portTarget s.id "body", n + 1), (p.portTarget s.id "done", n)], rfl, rfl,
      by simp [visitsOf, Block.visits]⟩
  | select cases =>
    refine ⟨.select s (cases.map fun c => (c, next (p.portTarget s.id c)))
      (next (p.portTarget s.id "default")),
      cases.map (fun c => (p.portTarget s.id c, n + 1)) ++ [(p.portTarget s.id "default", n + 1)],
      ?_, ?_, ?_⟩
    · simp [Block.form, Function.comp_def]
    · simp [Function.comp_def]
    · simp [visitsOf, Block.visits, visitsOfArms_map, List.flatMap_map]
  | join => exact absurd hf hj
  | unreadable f => exact absurd hf (hu f)

/-- The visits of walks that begin at the given nodes, each with its nesting. -/
def pendingOf (p : Plan) (within path : List String) (starts : List (Option String × Nat)) :
    List Pending :=
  starts.flatMap fun t => (visitsOf t.2 (walk p path t.1)).map (⟨within, ·⟩)

theorem pendingOf_cons (p : Plan) (within path : List String) (t : Option String × Nat)
    (rest : List (Option String × Nat)) : pendingOf p within path (t :: rest) =
      pendingOf p within path [t] ++ pendingOf p within path rest := by
  simp [pendingOf]

theorem pendingOf_join {path : List String} {s : Step} (hp : s.id ∉ path)
    (hs : p.step? s.id = some s) (hj : s.form = .join) (within : List String) (n : Nat) :
    pendingOf p within path [(some s.id, n)] = [⟨within, ⟨.join s, n⟩⟩] := by
  simp [pendingOf, walk_enter hp hs, stepBlocks, hj, visitsOf, Block.visits]

/-- What is built agrees with what is emitted, unless arms are nested too deep to be built. -/
def Corresponds (e e' : Emission) (out : Outcome (List (List Block))) :
    Except GenerateError (List Continuation × List Block) → Prop
  | .ok (cs, _) =>
    out.isOk = true ∧ e'.slots = e.slots ++ cs.map fun c => (c.join, some c.body)
  | .error (.fault f) => out = .error f
  | .error .tooDeep => True
  | .error _ => False

/-- Nothing has to be shown of what is nested too deep. -/
theorem Corresponds.of_shallow {reached within : List String} {block : Block} {n : Nat}
    {rest : List Pending} (h : ¬ n > maxNesting →
      Corresponds e e' out (build p reached (⟨within, ⟨block, n⟩⟩ :: rest))) :
    Corresponds e e' out (build p reached (⟨within, ⟨block, n⟩⟩ :: rest)) := by
  by_cases hn : n > maxNesting
  · rw [build_tooDeep hn]
    trivial
  · exact h hn

theorem Corresponds.pass {block : Block} {g : List (List Block) → List (List Block)}
    {r : Except GenerateError (List Continuation × List Block)} (h : Corresponds e e' out r) :
    Corresponds e e' (out.map g) (r >>= fun (cs, ws) => return (cs, block :: ws)) := by
  match r with
  | .ok (cs, ws) =>
    obtain ⟨hok, hslots⟩ := h
    obtain ⟨seqs, rfl⟩ := exists_eq_ok hok
    exact ⟨rfl, hslots⟩
  | .error (.fault f) =>
    cases h
    rfl
  | .error .tooDeep => trivial

theorem map_slot_eq {slots : List (String × Option (List Block))} {k : String}
    (h : k ∉ slots.map (·.1)) (body : List Block) :
    slots.map (fun slot => if slot.1 = k then (k, some body) else slot) = slots := by
  rw [List.map_congr_left (g := id) fun slot hslot => ?_, List.map_id]
  have hne : slot.1 ≠ k := fun he => h (he ▸ List.mem_map_of_mem hslot)
  simp [hne]

/-- The slot that was reserved for a continuation holds its body in the end. -/
theorem Corresponds.fresh {s : Step} {r : Except GenerateError (List Continuation × List Block)}
    (h : Corresponds (e.reserve s.id) e' out r) (hb : s.id ∉ e.begun)
    (hbody : ∀ seqs, out = .ok seqs → seqs.flatten = (continuationOf p e.opened s.id).body)
    (hjoins : ∀ cs ws, r = .ok (cs, ws) → s.id ∉ cs.map (·.join)) :
    Corresponds e (e'.fill s.id out) (out.map fun _ => [[.join s]]) (r >>= fun (cs, ws) =>
      return (continuationOf p e.opened s.id :: cs, .join s :: ws)) := by
  match r with
  | .ok (cs, ws) =>
    obtain ⟨hok, hslots⟩ := h
    obtain ⟨seqs, rfl⟩ := exists_eq_ok hok
    refine ⟨rfl, ?_⟩
    have hcs : s.id ∉ (cs.map fun c => (c.join, some c.body)).map (·.1) := by
      simpa [Function.comp_def] using hjoins cs ws rfl
    simp only [Emission.fill, hslots, Emission.reserve, List.map_append, map_slot_eq hb,
      map_slot_eq hcs, hbody seqs rfl, List.map_cons]
    simp [continuationOf]
  | .error (.fault f) =>
    cases h
    rfl
  | .error .tooDeep => trivial

theorem Corresponds.fail {f : Fault} {r : Except GenerateError (List Continuation × List Block)}
    {k : List Continuation × List Block → Except GenerateError (List Continuation × List Block)}
    (h : Corresponds e e' (.error f) r) : Corresponds e e' (.error f) (r >>= k) := by
  match r with
  | .ok _ => cases h.1
  | .error (.fault f) => exact h
  | .error .tooDeep => trivial

theorem Corresponds.append {e'' : Emission} {seqs : List (List Block)}
    {r : Except GenerateError (List Continuation × List Block)}
    {k : List Continuation → Except GenerateError (List Continuation × List Block)}
    (h₁ : Corresponds e e' (.ok seqs) r)
    (h₂ : ∀ cs ws, r = .ok (cs, ws) → Corresponds e' e'' out (k cs)) :
    Corresponds e e'' (out.map (seqs ++ ·)) (r >>= fun (cs, ws) => k cs >>= fun (cs', ws') =>
      return (cs ++ cs', ws ++ ws')) := by
  match r with
  | .ok (cs, ws) =>
    have h₂ := h₂ cs ws rfl
    simp only [bind, Except.bind]
    match k cs, h₂ with
    | .ok (cs', ws'), h₂ =>
      obtain ⟨hok, hslots⟩ := h₂
      obtain ⟨seqs', rfl⟩ := exists_eq_ok hok
      exact ⟨rfl, by rw [hslots, h₁.2, List.map_append, List.append_assoc]⟩
    | .error (.fault f), h₂ =>
      cases h₂
      rfl
    | .error .tooDeep, _ => trivial
  | .error (.fault f) => cases h₁
  | .error .tooDeep => trivial

theorem exists_starts {starts : List (Option String × Nat)} {start : Option String}
    (h : starts.map (·.1) = [start]) : ∃ n, starts = [(start, n)] := by
  obtain ⟨⟨t, n⟩, rfl, rfl⟩ := List.map_eq_singleton_iff.mp h
  exact ⟨n, rfl⟩

/-- To build what is visited is to emit it: joins are met in the same order, at the same depth. -/
theorem Emits.build (h : Emits p task e out e') :
    ∀ (starts : List (Option String × Nat)) (reached : List String),
      starts.map (·.1) = task.starts → (∀ k, k ∈ reached ↔ k ∈ e.begun) →
      Corresponds e e' out (build p reached (pendingOf p e.opened task.path starts)) := by
  induction h with
  | @stop path start e hs =>
    intro starts reached hstarts _
    obtain ⟨n, rfl⟩ := exists_starts hstarts
    have hnil : pendingOf p e.opened path [(start, n)] = [] := by
      simp [pendingOf, hs.walk_eq, visitsOf]
    rw [Task.path, hnil, build_nil]
    exact ⟨rfl, by simp⟩
  | @unreadable path id s f e hp hs hf =>
    intro starts reached hstarts _
    obtain ⟨n, rfl⟩ := exists_starts hstarts
    have hone : pendingOf p e.opened path [(some id, n)] = [⟨e.opened, ⟨.unreadable s f, n⟩⟩] := by
      simp [pendingOf, walk_enter hp hs, stepBlocks, hf, visitsOf, Block.visits]
    rw [Task.path, hone]
    refine .of_shallow fun hn => ?_
    rw [build_unreadable hn]
    rfl
  | @enter path id s out e e' hp hs hj hu _ ih =>
    intro starts reached hstarts hreached
    obtain ⟨n, rfl⟩ := exists_starts hstarts
    obtain ⟨block, inner, hform, hinner, hvisits⟩ :=
      visitsOf_stepBlocks (p := p) (walk p (id :: path)) hj hu n
    have hcons : pendingOf p e.opened path [(some id, n)] =
        ⟨e.opened, ⟨block, n⟩⟩ :: pendingOf p e.opened (id :: path) inner := by
      simp [pendingOf, walk_enter hp hs, hvisits, List.map_flatMap]
    rw [Task.path, hcons]
    refine .of_shallow fun hn => ?_
    rw [build_pass hn]
    · exact (ih inner reached hinner hreached).pass
    · rintro s' f rfl
      exact hu f hform.symm
    · rintro s' rfl
      exact absurd hform.symm hj
  | @known path id s e hp hs hj hb =>
    intro starts reached hstarts hreached
    obtain ⟨n, rfl⟩ := exists_starts hstarts
    obtain rfl := Plan.step?_id hs
    rw [Task.path, pendingOf_join hp hs hj]
    refine .of_shallow fun hn => ?_
    rw [build_pass hn (by simp), build_nil]
    · exact ⟨rfl, by simp⟩
    · rintro s' ⟨⟩ _
      exact (hreached s.id).mpr hb
  | @fresh path id s out e e' hp hs hj hb h ih =>
    intro starts reached hstarts hreached
    obtain ⟨n, rfl⟩ := exists_starts hstarts
    obtain rfl := Plan.step?_id hs
    rw [Task.path, pendingOf_join hp hs hj]
    refine .of_shallow fun hn => ?_
    have hr : s.id ∉ reached := fun hm => hb ((hreached s.id).mp hm)
    have hinner : innerVisits p e.opened s.id n = pendingOf p (e.reserve s.id).opened
        (e.opened ++ [s.id]) [(p.nextTarget s.id, n + 1)] := by
      simp [innerVisits, pendingOf, continuationOf, Emission.reserve]
    have hcor := ih [(p.nextTarget s.id, n + 1)] (s.id :: reached) rfl (by simp [hreached, or_comm])
    rw [build_fresh hn (mem_joinIds hs hj) hr, List.append_nil, hinner]
    refine hcor.fresh hb (fun seqs hseqs => ?_) fun cs ws hbuild hk => ?_
    · rw [(h.sequences seqs hseqs).1]
      simp [Task.starts, Task.path, continuationOf]
    · exact ((built_of_build _ _ hbuild).joins.2 _ hk).2 List.mem_cons_self
  | nil =>
    intro starts reached hstarts _
    obtain rfl : starts = [] := by simpa [Task.starts] using hstarts
    simp only [pendingOf, List.flatMap_nil, build_nil]
    exact ⟨rfl, by simp⟩
  | @cons path start starts seqs out e e' e'' h₁ h₂ ih₁ ih₂ =>
    intro starts' reached hstarts hreached
    obtain ⟨⟨t, n⟩, rest, rfl, rfl, hrest⟩ := List.map_eq_cons_iff.mp hstarts
    have hopened := (h₁.sequences _ rfl).2
    have hhead := ih₁ [(t, n)] reached rfl hreached
    rw [Task.path, pendingOf_cons, build_append]
    refine hhead.append (k := fun cs => Handler.build p ((cs.map (·.join)).reverse ++ reached)
      (pendingOf p e.opened path rest)) fun cs ws hbuild => ?_
    rw [← hopened]
    refine ih₂ rest _ hrest fun k => ?_
    rw [hbuild] at hhead
    simp [Emission.begun, hhead.2, hreached, or_comm]
  | @fail path start starts f e e' h ih =>
    intro starts' reached hstarts hreached
    obtain ⟨⟨t, n⟩, rest, rfl, rfl, hrest⟩ := List.map_eq_cons_iff.mp hstarts
    have hhead := ih [(t, n)] reached rfl hreached
    rw [Task.path, pendingOf_cons, build_append]
    exact hhead.fail

/-- **Generation ends on every graph.** Every task has exactly one outcome in every state, and
begins continuations only for joins that had none, each once. The whole generation, from the first
step on and an empty table, emits the flow of the plan; the flow knows no error but an unreadable
configuration, which the generation meets too, and arms that are nested too deep. -/
theorem emission_total (p : Plan) :
    (∀ task e, ∃! r : Outcome (List (List Block)) × Emission, Emits p task e r.1 r.2) ∧
      (∀ task e out e', Emits p task e out e' → ∃ new, e'.begun = e.begun ++ new ∧ new.Nodup ∧
        ∀ k ∈ new, k ∈ joinIds p ∧ k ∉ e.begun) ∧
      ∃ out e', Emits p (.node [p.entry] (firstStep? p)) {} out e' ∧
        match flowOf p with
        | .ok f => out = .ok [f.main] ∧ e'.opened = [] ∧
            e'.slots = f.continuations.map fun c => (c.join, some c.body)
        | .error (.fault f) => out = .error f
        | .error e => e = .tooDeep := by
  refine ⟨fun task e => ?_, fun _ _ _ _ h => h.begun, ?_⟩
  · obtain ⟨out, e', h⟩ := exists_emits p task e
    refine ⟨(out, e'), h, fun r hr => ?_⟩
    obtain ⟨hout, he⟩ := hr.det h
    exact Prod.ext hout he
  · obtain ⟨out, e', h⟩ := exists_emits p (.node [p.entry] (firstStep? p)) {}
    refine ⟨out, e', h, ?_⟩
    have hcor := h.build [(firstStep? p, 0)] [] rfl (by simp [Emission.begun])
    have hpending : pendingOf p [] [p.entry] [(firstStep? p, 0)] =
        (visitsOf 0 (walk p [p.entry] (firstStep? p))).map (⟨[], ·⟩) := by simp [pendingOf]
    rw [Task.path, hpending] at hcor
    dsimp only [flowOf]
    generalize Handler.build p [] _ = r at hcor ⊢
    match r, hcor with
    | .ok (cs, ws), hcor =>
      obtain ⟨seqs, rfl⟩ := exists_eq_ok hcor.1
      obtain ⟨rfl, hopened⟩ := h.sequences seqs rfl
      exact ⟨rfl, hopened, by simpa using hcor.2⟩
    | .error (.fault f), hcor => exact hcor
    | .error .tooDeep, _ => exact (rfl : GenerateError.tooDeep = .tooDeep)

end Workflow.Handler
