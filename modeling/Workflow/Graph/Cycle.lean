/-
Whether a graph has a cycle: a search in depth that keeps the path from its
root as a stack of frames. A cycle is found when a successor is on the path.
-/
import Workflow.Graph.Basic

namespace Workflow.Graph

/-- A node on the path of a search, and its successors still to be looked at. -/
structure Frame where
  node : String
  todo : List String
  deriving Repr, DecidableEq, Inhabited

/-- How much is left to do on a path. -/
def pathSize (path : List Frame) : Nat := path.foldr (fun f n => f.todo.length + 1 + n) 0

/-- Searches for a cycle along the path and then from the roots. What is in `seen` has been
entered before. -/
def searchCycle (next : String → List String) (members : List String) (seen : List String)
    (path : List Frame) (roots : List String) : Bool :=
  match path with
  | [] =>
    match roots with
    | [] => false
    | root :: rest =>
      if _h : root ∈ members ∧ root ∉ seen then
        searchCycle next members (root :: seen) [⟨root, next root⟩] rest
      else searchCycle next members seen [] rest
  | ⟨_, []⟩ :: below => searchCycle next members seen below roots
  | ⟨node, s :: todo⟩ :: below =>
    if s = node || below.any (·.node = s) then true
    else if _h : s ∈ members ∧ s ∉ seen then
      searchCycle next members (s :: seen) (⟨s, next s⟩ :: ⟨node, todo⟩ :: below) roots
    else searchCycle next members seen (⟨node, todo⟩ :: below) roots
termination_by ((unseen members seen).length, pathSize path + roots.length)
decreasing_by
  · exact Prod.Lex.left _ _ (length_unseen_cons_lt _h.1 _h.2)
  · exact Prod.Lex.right _ (by simp)
  · exact Prod.Lex.right _ (by simp [pathSize])
  · exact Prod.Lex.left _ _ (length_unseen_cons_lt _h.1 _h.2)
  · exact Prod.Lex.right _ (by simp [pathSize])

/-- Whether the edges between existing nodes form a cycle. -/
def hasCycle (g : Graph) : Bool := searchCycle g.successors g.ids [] [] g.ids

end Workflow.Graph
