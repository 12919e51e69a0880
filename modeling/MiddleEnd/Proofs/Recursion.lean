import Mathlib.Logic.Relation
import MiddleEnd.CallGraph.Recursion

/-!
# Exactness of the search for recursion

The search for a cycle is judged against paths of links.  A search that comes
upon its path has found a node that leads back to itself, and a search that
does not leaves behind only nodes from which every path ends.  The second half
is carried by accessibility: a node is finished when all of its targets are, so
no cycle can pass through what is visited and off the path.

Applied to the calls of a graph this decides which nodes are marked as
recursive, whatever edges and order the graph has.
-/

namespace MiddleEnd

open Relation

namespace Links

variable {α : Type}

/-- One link. -/
def Linked (links : Links α) (node target : α) : Prop :=
  target ∈ links.targets node

/-- Zero or more links lead from the node to one that leads back to itself. -/
def LeadsIntoCycle (links : Links α) (node : α) : Prop :=
  ∃ turn, ReflTransGen links.Linked node turn ∧ TransGen links.Linked turn turn

/-- Every path of links that starts from the node ends. -/
def Exhausted (links : Links α) (node : α) : Prop :=
  Acc (fun target source => links.Linked source target) node

theorem LeadsIntoCycle.of_linked
    {links : Links α}
    {node target : α}
    (link : links.Linked node target)
    (leads : links.LeadsIntoCycle target) :
    links.LeadsIntoCycle node := by
  rcases leads with ⟨turn, path, cycle⟩
  exact ⟨turn, ReflTransGen.head link path, cycle⟩

theorem Exhausted.of_reaches
    {links : Links α}
    {node target : α}
    (exhausted : links.Exhausted node)
    (path : ReflTransGen links.Linked node target) :
    links.Exhausted target := by
  induction path with
  | refl => exact exhausted
  | tail _ link hypothesis => exact hypothesis.inv link

/-- A path that ends everywhere passes through no cycle. -/
theorem Exhausted.not_leadsIntoCycle
    {links : Links α}
    {node : α}
    (exhausted : links.Exhausted node) :
    ¬ links.LeadsIntoCycle node := by
  rintro ⟨turn, path, cycle⟩
  have turnExhausted := exhausted.of_reaches path
  induction turnExhausted with
  | intro turn _ hypothesis =>
      rcases TransGen.head'_iff.1 cycle with ⟨next, link, back⟩
      exact hypothesis next link (path.tail link) (TransGen.tail' back link)

/-! ## A search that comes upon its path -/

/-- The node leads into a cycle, or to a node on the path of the search. -/
def LeadsBack (links : Links α) (path : List α) (node : α) : Prop :=
  links.LeadsIntoCycle node ∨
    ∃ earlier ∈ path, ReflTransGen links.Linked node earlier

/-- A target that leads back closes a cycle if it leads back to the node. -/
theorem LeadsBack.of_linked
    {links : Links α}
    {path : List α}
    {node target : α}
    (link : links.Linked node target)
    (leads : links.LeadsBack (node :: path) target) :
    links.LeadsBack path node := by
  rcases leads with cycle | ⟨earlier, member, back⟩
  · exact Or.inl (cycle.of_linked link)
  · rcases List.mem_cons.1 member with rfl | above
    · exact Or.inl ⟨earlier, ReflTransGen.refl, TransGen.head' link back⟩
    · exact Or.inr ⟨earlier, above, ReflTransGen.head link back⟩

theorem leadsBack_of_visit [DecidableEq α] (links : Links α) :
    (∀ path seen node,
      links.visit path seen node = none → links.LeadsBack path node) ∧
    (∀ path seen nodes,
      links.visitAll path seen nodes = none →
        ∃ node ∈ nodes, links.LeadsBack path node) := by
  apply visit.mutual_induct links
  case case1 =>
    intro path seen node onPath _
    exact Or.inr ⟨node, onPath, ReflTransGen.refl⟩
  case case2 =>
    intro path seen node offPath known found
    simp [visit, offPath, known] at found
  case case3 =>
    intro path seen node offPath fresh stopped hypothesis _
    rcases hypothesis stopped with ⟨target, link, leads⟩
    exact leads.of_linked link
  case case4 =>
    intro path seen node offPath fresh later grows finished _ found
    simp [visit, offPath, fresh, finished] at found
  case case5 =>
    intro path seen found
    simp [visitAll] at found
  case case6 =>
    intro path seen node rest stopped hypothesis _
    exact ⟨node, List.mem_cons_self, hypothesis stopped⟩
  case case7 =>
    intro path seen node rest between grows finished stopped _ hypothesis _
    rcases hypothesis stopped with ⟨other, member, leads⟩
    exact ⟨other, List.mem_cons_of_mem node member, leads⟩
  case case8 =>
    intro path seen node rest between grows finished later growsOn done _ _ found
    simp [visitAll, finished, done] at found

/-! ## A search that does not -/

/-- What has been visited and is off the path is exhausted. -/
def OffPathExhausted (links : Links α) (path seen : List α) : Prop :=
  ∀ node ∈ seen, node ∉ path → links.Exhausted node

/-- Entering a node moves nothing off the path. -/
theorem OffPathExhausted.enter
    {links : Links α}
    {path seen : List α}
    (invariant : links.OffPathExhausted path seen)
    (node : α) :
    links.OffPathExhausted (node :: path) (node :: seen) := by
  intro other member offPath
  simp only [List.mem_cons, not_or] at member offPath
  exact invariant other (member.resolve_left offPath.1) offPath.2

/-- Leaving an exhausted node moves only that node off the path. -/
theorem OffPathExhausted.leave
    {links : Links α}
    {path later : List α}
    {node : α}
    (invariant : links.OffPathExhausted (node :: path) later)
    (exhausted : links.Exhausted node) :
    links.OffPathExhausted path later := by
  intro other member offPath
  by_cases same : other = node
  · rw [same]
    exact exhausted
  · exact invariant other member (by simp [same, offPath])

theorem exhausted_of_not_mem_sources
    (links : Links α)
    {node : α}
    (unlisted : node ∉ links.sources) :
    links.Exhausted node := by
  constructor
  intro target link
  rw [Linked, links.targets_eq_nil node unlisted] at link
  simp at link

theorem exhausted_of_visit [DecidableEq α] (links : Links α) :
    (∀ path seen node,
      links.OffPathExhausted path seen →
      ∀ later, links.visit path seen node = some later →
        links.Exhausted node ∧ links.OffPathExhausted path later.1) ∧
    (∀ path seen nodes,
      links.OffPathExhausted path seen →
      ∀ later, links.visitAll path seen nodes = some later →
        (∀ node ∈ nodes, links.Exhausted node) ∧
          links.OffPathExhausted path later.1) := by
  apply visit.mutual_induct links
  case case1 =>
    intro path seen node onPath _ later found
    simp [visit, onPath] at found
  case case2 =>
    intro path seen node offPath known invariant later found
    simp only [visit, offPath, known, if_false, if_true, Option.some.injEq] at found
    subst found
    refine ⟨?_, invariant⟩
    rcases known with earlier | unlisted
    · exact invariant node earlier offPath
    · exact links.exhausted_of_not_mem_sources unlisted
  case case3 =>
    intro path seen node offPath fresh stopped _ _ later found
    simp [visit, offPath, fresh, stopped] at found
  case case4 =>
    intro path seen node offPath fresh all grows finished hypothesis
      invariant later found
    simp only [visit, offPath, fresh, finished, if_false, Option.some.injEq] at found
    subst found
    rcases hypothesis (invariant.enter node) _ finished with
      ⟨targetsExhausted, below⟩
    have exhausted : links.Exhausted node := Acc.intro node targetsExhausted
    exact ⟨exhausted, below.leave exhausted⟩
  case case5 =>
    intro path seen invariant later found
    simp only [visitAll, Option.some.injEq] at found
    subst found
    exact ⟨by simp, invariant⟩
  case case6 =>
    intro path seen node rest stopped _ _ later found
    simp [visitAll, stopped] at found
  case case7 =>
    intro path seen node rest between grows finished stopped _ _ _ later found
    simp [visitAll, finished, stopped] at found
  case case8 =>
    intro path seen node rest between grows finished all growsOn done
      nodeHypothesis restHypothesis invariant later found
    simp only [visitAll, finished, done, Option.some.injEq] at found
    subst found
    rcases nodeHypothesis invariant _ finished with ⟨exhausted, midway⟩
    rcases restHypothesis midway _ done with ⟨restExhausted, after⟩
    exact ⟨List.forall_mem_cons.2 ⟨exhausted, restExhausted⟩, after⟩

/-- The search decides whether links from the node lead into a cycle. -/
theorem entersCycle_iff [DecidableEq α] (links : Links α) (node : α) :
    links.entersCycle node = true ↔ links.LeadsIntoCycle node := by
  cases outcome : links.visit [] [] node with
  | none =>
      have leads := links.leadsBack_of_visit.1 [] [] node outcome
      simp only [entersCycle, outcome, Option.isNone_none, true_iff]
      rcases leads with cycle | ⟨earlier, member, _⟩
      · exact cycle
      · simp at member
  | some later =>
      have start : links.OffPathExhausted [] [] := by
        intro other member
        simp at member
      have exhausted :=
        (links.exhausted_of_visit.1 [] [] node start later outcome).1
      simp [entersCycle, outcome, exhausted.not_leadsIntoCycle]

end Links

/-! ## Marks of a call graph -/

namespace CallGraph

/-- A recorded call between two nodes. -/
def Calls (graph : CallGraph) (caller callee : Symbol) : Prop :=
  caller ∈ graph.nodes ∧ callee ∈ graph.nodes ∧
    ∃ edge ∈ graph.edges, edge.caller = caller ∧ edge.callee = callee

/-- The links of a graph are its calls between nodes, and no dangling ones. -/
theorem linked_eq_calls (graph : CallGraph) :
    graph.links.Linked = graph.Calls := by
  funext caller callee
  apply propext
  constructor
  · intro link
    change callee ∈ graph.callees caller at link
    unfold callees at link
    split at link
    · rename_i callerNode
      rcases List.mem_filterMap.1 link with ⟨edge, member, chosen⟩
      rw [Option.ite_none_right_eq_some, Option.some.injEq] at chosen
      rcases chosen with ⟨⟨rfl, calleeNode⟩, rfl⟩
      exact ⟨callerNode, calleeNode, edge, member, rfl, rfl⟩
    · simp at link
  · rintro ⟨callerNode, calleeNode, edge, member, rfl, rfl⟩
    change edge.callee ∈ graph.callees edge.caller
    rw [callees, if_pos callerNode]
    exact List.mem_filterMap.2 ⟨edge, member, by simp [calleeNode]⟩

theorem mem_recursiveSymbols_iff (graph : CallGraph) (symbol : Symbol) :
    symbol ∈ graph.recursiveSymbols ↔
      symbol ∈ graph.order ∧
        ∃ turn,
          ReflTransGen graph.Calls symbol turn ∧
            TransGen graph.Calls turn turn := by
  rw [recursiveSymbols, List.mem_filter, Links.entersCycle_iff,
    Links.LeadsIntoCycle, linked_eq_calls]

/-- The marks leave everything but the flags of the nodes as it was. -/
theorem getElem?_markRecursion (graph : CallGraph) (symbol : Symbol) :
    graph.markRecursion.nodes[symbol]? =
      graph.nodes[symbol]?.map fun node =>
        { node with
          recursive :=
            node.recursive || decide (symbol ∈ graph.recursiveSymbols) } := by
  rw [markRecursion, Std.TreeMap.getElem?_map]

/--
A node is marked exactly if it was before, or if it is declared and calls that
start from it lead into a cycle.  Nodes are neither added nor removed, and
nothing but the marks changes.
-/
theorem markRecursion_exact (graph : CallGraph) :
    (∀ (symbol : Symbol) (node : CallNode),
      graph.nodes[symbol]? = some node →
        ∃ marked,
          graph.markRecursion.nodes[symbol]? = some marked ∧
          (marked.recursive = true ↔
            node.recursive = true ∨
              symbol ∈ graph.order ∧
                ∃ turn,
                  ReflTransGen graph.Calls symbol turn ∧
                    TransGen graph.Calls turn turn) ∧
          { marked with recursive := node.recursive } = node) ∧
    (∀ symbol : Symbol,
      graph.nodes[symbol]? = none →
        graph.markRecursion.nodes[symbol]? = none) ∧
    { graph.markRecursion with nodes := graph.nodes } = graph := by
  refine ⟨?_, ?_, rfl⟩
  · intro symbol node present
    have lookup := graph.getElem?_markRecursion symbol
    rw [present, Option.map_some] at lookup
    refine ⟨_, lookup, ?_, rfl⟩
    rw [Bool.or_eq_true, decide_eq_true_iff, mem_recursiveSymbols_iff]
  · intro symbol absent
    rw [getElem?_markRecursion, absent, Option.map_none]

end CallGraph

end MiddleEnd
