/-!
# Reachability in a finite graph

A graph is a function from nodes to the nodes they link to, with a list of
the nodes that have links at all.  `Links.reach` collects what a list of
seeds leads to.  A node is expanded when it is first met, so each expansion
uses up one of the listed sources and the collection ends.

`Links.Reaches` says what it means to be led to, and `Links.mem_reach_iff` that
the collection has exactly the nodes of which it holds.
-/

namespace MiddleEnd

/-- A directed graph with finitely many links. -/
structure Links (α : Type) where
  /-- The nodes that may have links. -/
  sources : List α
  /-- The nodes that a node links to. -/
  targets : α → List α
  /-- A node that is not listed links to nothing. -/
  targets_eq_nil : ∀ node, node ∉ sources → targets node = []

namespace Links

variable {α : Type} [DecidableEq α]

/-- The listed sources that have not been met. -/
def unseen (links : Links α) (seen : List α) : List α :=
  links.sources.filter (· ∉ seen)

theorem length_unseen_le_of_subset
    (links : Links α)
    {seen later : List α}
    (grows : seen ⊆ later) :
    (links.unseen later).length ≤ (links.unseen seen).length := by
  unfold unseen
  rw [← List.countP_eq_length_filter, ← List.countP_eq_length_filter]
  apply List.countP_mono_left
  intro source _ fresh
  simp only [decide_eq_true_eq] at fresh ⊢
  exact fun earlier => fresh (grows earlier)

theorem length_unseen_cons_lt
    (links : Links α)
    {node : α}
    {seen : List α}
    (listed : node ∈ links.sources)
    (fresh : node ∉ seen) :
    (links.unseen (node :: seen)).length < (links.unseen seen).length := by
  have sublist :
      links.unseen (node :: seen) =
        (links.unseen seen).filter (· ≠ node) := by
    unfold unseen
    rw [List.filter_filter]
    apply List.filter_congr
    intro source _
    simp
  rw [sublist, List.length_filter_lt_length_iff_exists]
  refine ⟨node, ?_, by simp⟩
  simp [unseen, listed, fresh]

/-- What has been seen together with all that is pending and its links. -/
def collect (links : Links α) (pending seen : List α) : List α :=
  match pending with
  | [] => seen
  | node :: rest =>
      if node ∈ seen then
        links.collect rest seen
      else
        links.collect (links.targets node ++ rest) (node :: seen)
termination_by ((links.unseen seen).length, pending.length)
decreasing_by
  · exact Prod.Lex.right _ (by simp)
  · rename_i fresh
    by_cases listed : node ∈ links.sources
    · exact Prod.Lex.left _ _ (links.length_unseen_cons_lt listed fresh)
    · rw [links.targets_eq_nil node listed]
      have bound :=
        links.length_unseen_le_of_subset (List.subset_cons_self node seen)
      rcases Nat.lt_or_eq_of_le bound with less | equal
      · exact Prod.Lex.left _ _ less
      · rw [equal]
        exact Prod.Lex.right _ (by simp)

/-- The nodes that the seeds lead to, the seeds included. -/
def reach (links : Links α) (seeds : List α) : List α :=
  links.collect seeds []

/-! ## What is reached -/

/-- A node is reached if it is a seed or the target of a node that is. -/
inductive Reaches (links : Links α) (seeds : List α) : α → Prop where
  | seed {node : α} : node ∈ seeds → Reaches links seeds node
  | step {node target : α} :
      Reaches links seeds node → target ∈ links.targets node →
        Reaches links seeds target

/-- What is collected has the property, if all that is met has it. -/
theorem of_mem_collect
    (links : Links α)
    {property : α → Prop}
    (closed :
      ∀ node, property node → ∀ target ∈ links.targets node, property target)
    (pending seen : List α)
    (pendingHolds : ∀ node ∈ pending, property node)
    (seenHolds : ∀ node ∈ seen, property node) :
    ∀ node ∈ links.collect pending seen, property node := by
  fun_induction collect links pending seen with
  | case1 seen => exact seenHolds
  | case2 seen node rest known hypothesis =>
      exact hypothesis
        (fun other member => pendingHolds other (List.mem_cons_of_mem _ member))
        seenHolds
  | case3 seen node rest fresh hypothesis =>
      have nodeHolds := pendingHolds node List.mem_cons_self
      apply hypothesis
      · intro other member
        rcases List.mem_append.1 member with target | later
        · exact closed node nodeHolds other target
        · exact pendingHolds other (List.mem_cons_of_mem _ later)
      · intro other member
        rcases List.mem_cons.1 member with rfl | earlier
        · exact nodeHolds
        · exact seenHolds other earlier

/-- What has been seen and what is pending is collected. -/
theorem mem_collect
    (links : Links α)
    (pending seen : List α)
    (node : α)
    (met : node ∈ pending ∨ node ∈ seen) :
    node ∈ links.collect pending seen := by
  fun_induction collect links pending seen with
  | case1 seen => simpa using met
  | case2 seen head rest known hypothesis =>
      apply hypothesis
      rcases met with member | earlier
      · rcases List.mem_cons.1 member with rfl | later
        · exact Or.inr known
        · exact Or.inl later
      · exact Or.inr earlier
  | case3 seen head rest fresh hypothesis =>
      apply hypothesis
      rcases met with member | earlier
      · rcases List.mem_cons.1 member with rfl | later
        · exact Or.inr List.mem_cons_self
        · exact Or.inl (List.mem_append_right _ later)
      · exact Or.inr (List.mem_cons_of_mem _ earlier)

/--
The collection is closed under links, provided that the links of what has
been seen are accounted for.
-/
theorem mem_collect_of_mem_targets
    (links : Links α)
    (pending seen : List α)
    (accounted :
      ∀ node ∈ seen, ∀ target ∈ links.targets node,
        target ∈ pending ∨ target ∈ seen) :
    ∀ node ∈ links.collect pending seen, ∀ target ∈ links.targets node,
      target ∈ links.collect pending seen := by
  fun_induction collect links pending seen with
  | case1 seen =>
      intro node member target link
      simpa using accounted node member target link
  | case2 seen head rest known hypothesis =>
      apply hypothesis
      intro node member target link
      rcases accounted node member target link with waiting | earlier
      · rcases List.mem_cons.1 waiting with rfl | later
        · exact Or.inr known
        · exact Or.inl later
      · exact Or.inr earlier
  | case3 seen head rest fresh hypothesis =>
      apply hypothesis
      intro node member target link
      rcases List.mem_cons.1 member with rfl | earlier
      · exact Or.inl (List.mem_append_left _ link)
      · rcases accounted node earlier target link with waiting | met
        · rcases List.mem_cons.1 waiting with rfl | later
          · exact Or.inr List.mem_cons_self
          · exact Or.inl (List.mem_append_right _ later)
        · exact Or.inr (List.mem_cons_of_mem _ met)

/-- The collection has exactly the nodes that the seeds lead to. -/
theorem mem_reach_iff (links : Links α) (seeds : List α) (node : α) :
    node ∈ links.reach seeds ↔ links.Reaches seeds node := by
  constructor
  · exact links.of_mem_collect (fun _ reached _ => Reaches.step reached)
      seeds [] (fun _ => Reaches.seed) (by simp) node
  · intro reached
    induction reached with
    | seed member => exact links.mem_collect seeds [] _ (Or.inl member)
    | step _ link hypothesis =>
        exact links.mem_collect_of_mem_targets seeds [] (by simp)
          _ hypothesis _ link

end Links

end MiddleEnd
