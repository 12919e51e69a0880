import MiddleEnd.Reach

/-!
# Search for a cycle

`Links.visit` walks depth first from a node and looks for a way back to a node
whose visit is not over yet.  Such nodes form the path of the search; what has
been visited and is off the path is never entered again.

A visit that comes upon its own path ends the whole search.  One that does not
returns all that has been visited, and that this never shrinks is what makes
the search end: every node that is entered is a listed source not seen before.
-/

namespace MiddleEnd

namespace Links

variable {α : Type} [DecidableEq α]

/-- All that has been visited when a part of the search is over. -/
abbrev Visited (seen : List α) : Type :=
  { later : List α // seen ⊆ later }

mutual

/--
What has been visited after a node has been, or nothing if the search comes
upon its path.
-/
def visit (links : Links α) (path seen : List α) (node : α) :
    Option (Visited seen) :=
  if node ∈ path then
    none
  else if node ∈ seen ∨ node ∉ links.sources then
    some ⟨seen, List.Subset.refl seen⟩
  else
    match links.visitAll (node :: path) (node :: seen) (links.targets node) with
    | none => none
    | some ⟨later, grows⟩ =>
        some ⟨later, List.Subset.trans (List.subset_cons_self node seen) grows⟩
termination_by ((links.unseen seen).length, 0)
decreasing_by
  rename_i _ known
  simp only [not_or, Decidable.not_not] at known
  exact Prod.Lex.left _ _ (links.length_unseen_cons_lt known.2 known.1)

/-- The visits of several nodes, one after the other. -/
def visitAll (links : Links α) (path seen : List α) (nodes : List α) :
    Option (Visited seen) :=
  match nodes with
  | [] => some ⟨seen, List.Subset.refl seen⟩
  | node :: rest =>
      match links.visit path seen node with
      | none => none
      | some ⟨between, grows⟩ =>
          match links.visitAll path between rest with
          | none => none
          | some ⟨later, growsOn⟩ =>
              some ⟨later, List.Subset.trans grows growsOn⟩
termination_by ((links.unseen seen).length, nodes.length + 1)
decreasing_by
  · exact Prod.Lex.right _ (Nat.zero_lt_succ _)
  · rcases Nat.lt_or_eq_of_le (links.length_unseen_le_of_subset grows) with
      less | equal
    · exact Prod.Lex.left _ _ less
    · rw [equal]
      exact Prod.Lex.right _ (by simp)

end

/-- Whether links that start from the node can lead into a cycle. -/
def entersCycle (links : Links α) (node : α) : Bool :=
  (links.visit [] [] node).isNone

end Links

end MiddleEnd
