import Mathlib.Data.Nat.ModEq
import MiddleEnd.CallGraph.Aggregate
import MiddleEnd.Proofs.CallGraph.Representation

/-!
# Totals of calls

The totals of a call graph list every pair of caller and callee that an edge
joins, once and where it first occurs.  Counting an edge either raises the total
of its pair or puts a new total at the end, and all else follows from these two
cases.

Frequencies are words, so a sum of them is kept modulo `2 ^ 64` and is never
exceeded.  Where the sum over the edges fits into a word, it is kept exactly.
For the graph of a program this ties the totals to the counts at its nodes.
-/

namespace MiddleEnd

/-! ## Pairs and sums -/

namespace CallEdge

/-- The caller and the callee of an edge. -/
def pair (edge : CallEdge) : Symbol × Symbol :=
  (edge.caller, edge.callee)

/-- The frequencies of the edges between chosen pairs, summed up. -/
def calls (chosen : Symbol × Symbol → Bool) (edges : List CallEdge) : Nat :=
  ((edges.filter (chosen ·.pair)).map (·.frequency.toNat)).sum

theorem calls_concat
    (chosen : Symbol × Symbol → Bool)
    (edges : List CallEdge)
    (edge : CallEdge) :
    calls chosen (edges ++ [edge]) =
      calls chosen edges +
        if chosen edge.pair then edge.frequency.toNat else 0 := by
  by_cases inside : chosen edge.pair
  · simp [calls, inside]
  · simp [calls, inside]

end CallEdge

/-- The pairs of a list, each listed once and in the order of first occurrence. -/
structure ListsPairs (listed pairs : List (Symbol × Symbol)) : Prop where
  mem_iff : ∀ pair, pair ∈ listed ↔ pair ∈ pairs
  distinct : listed.Nodup
  ordered :
    listed.Pairwise fun first second => pairs.idxOf first < pairs.idxOf second

namespace CallTotal

/-- The caller and the callee of a total. -/
def pair (total : CallTotal) : Symbol × Symbol :=
  (total.caller, total.callee)

/-- The frequencies of the totals of chosen pairs, summed up. -/
def calls (chosen : Symbol × Symbol → Bool) (totals : List CallTotal) : Nat :=
  ((totals.filter (chosen ·.pair)).map (·.frequency.toNat)).sum

/-- What a list of totals says about a list of edges. -/
structure Summarizes (totals : List CallTotal) (edges : List CallEdge) : Prop where
  pairs : ListsPairs (totals.map CallTotal.pair) (edges.map CallEdge.pair)
  frequency :
    ∀ total ∈ totals,
      total.frequency.toNat = CallEdge.calls (· = total.pair) edges % 2 ^ 64
  /-- No call is lost and none is counted twice, whichever pairs are chosen. -/
  sums :
    ∀ chosen, calls chosen totals ≡ CallEdge.calls chosen edges [MOD 2 ^ 64]

section

variable (chosen : Symbol × Symbol → Bool)

@[simp]
theorem calls_nil : calls chosen [] = 0 :=
  rfl

@[simp]
theorem calls_cons (total : CallTotal) (rest : List CallTotal) :
    calls chosen (total :: rest) =
      (if chosen total.pair then total.frequency.toNat else 0) +
        calls chosen rest := by
  by_cases inside : chosen total.pair
  · simp [calls, inside]
  · simp [calls, inside]

@[simp]
theorem calls_append (totals others : List CallTotal) :
    calls chosen (totals ++ others) =
      calls chosen totals + calls chosen others := by
  simp [calls]

end

/-- A total is all that the totals say about its pair. -/
theorem calls_pair_of_mem
    {totals : List CallTotal}
    (distinct : (totals.map pair).Nodup)
    {total : CallTotal}
    (member : total ∈ totals) :
    calls (· = total.pair) totals = total.frequency.toNat := by
  have none_of_not_mem :
      ∀ others : List CallTotal,
        total.pair ∉ others.map pair → calls (· = total.pair) others = 0 := by
    intro others absent
    have empty : others.filter (fun other => other.pair = total.pair) = [] := by
      rw [List.filter_eq_nil_iff]
      intro other inside same
      exact absent (List.mem_map.2 ⟨other, inside, of_decide_eq_true same⟩)
    rw [calls, empty]
    rfl
  rcases List.append_of_mem member with ⟨before, after, rfl⟩
  rw [List.map_append, List.map_cons, List.nodup_middle, List.nodup_cons,
    List.mem_append, not_or] at distinct
  rw [calls_append, calls_cons, none_of_not_mem before distinct.1.1,
    none_of_not_mem after distinct.1.2]
  simp

/-! ## Counting one edge -/

/-- The total of a pair that has only one edge so far. -/
def ofEdge (edge : CallEdge) : CallTotal :=
  ⟨edge.caller, edge.callee, edge.frequency⟩

/-- The total with one more edge of its pair. -/
def raise (total : CallTotal) (edge : CallEdge) : CallTotal :=
  { total with frequency := total.frequency + edge.frequency }

@[simp]
theorem pair_ofEdge (edge : CallEdge) : (ofEdge edge).pair = edge.pair :=
  rfl

@[simp]
theorem pair_raise (total : CallTotal) (edge : CallEdge) :
    (total.raise edge).pair = total.pair :=
  rfl

theorem covers_iff (total : CallTotal) (edge : CallEdge) :
    total.covers edge = true ↔ total.pair = edge.pair := by
  simp [covers, pair, CallEdge.pair]

/-- An edge raises the total of its pair, or its pair gets a total of its own. -/
theorem add_cases (totals : List CallTotal) (edge : CallEdge) :
    (∃ before total after,
      totals = before ++ total :: after ∧
        total.pair = edge.pair ∧
        add totals edge = before ++ total.raise edge :: after) ∨
      (edge.pair ∉ totals.map pair ∧
        add totals edge = totals ++ [ofEdge edge]) := by
  induction totals with
  | nil => exact Or.inr ⟨by simp, rfl⟩
  | cons total rest hypothesis =>
      by_cases same : total.pair = edge.pair
      · left
        refine ⟨[], total, rest, rfl, same, ?_⟩
        rw [add, if_pos ((covers_iff total edge).2 same)]
        rfl
      · have step : add (total :: rest) edge = total :: add rest edge := by
          rw [add, if_neg (mt (covers_iff total edge).1 same)]
        rcases hypothesis with
          ⟨before, raised, after, rfl, found, result⟩ | ⟨fresh, result⟩
        · left
          refine ⟨total :: before, raised, after, rfl, found, ?_⟩
          rw [step, result, List.cons_append]
        · right
          refine ⟨?_, by rw [step, result, List.cons_append]⟩
          rw [List.map_cons, List.mem_cons, not_or]
          exact ⟨Ne.symm same, fresh⟩

/-- Counting an edge adds its pair, unless the pair is there. -/
theorem map_pair_add (totals : List CallTotal) (edge : CallEdge) :
    (add totals edge).map pair =
      if edge.pair ∈ totals.map pair then
        totals.map pair
      else
        totals.map pair ++ [edge.pair] := by
  rcases add_cases totals edge with
    ⟨before, total, after, rfl, found, result⟩ | ⟨fresh, result⟩
  · rw [result, if_pos (by simp [← found])]
    simp
  · rw [result, if_neg fresh]
    simp

/-- Counting an edge adds its frequency to the sums that it belongs to. -/
theorem calls_add
    (chosen : Symbol × Symbol → Bool)
    (totals : List CallTotal)
    (edge : CallEdge) :
    let added :=
      calls chosen totals + if chosen edge.pair then edge.frequency.toNat else 0
    calls chosen (add totals edge) ≡ added [MOD 2 ^ 64] ∧
      calls chosen (add totals edge) ≤ added := by
  rcases add_cases totals edge with
    ⟨before, total, after, rfl, found, result⟩ | ⟨_, result⟩
  · have raised :
        (total.raise edge).frequency.toNat =
          (total.frequency.toNat + edge.frequency.toNat) % 2 ^ 64 :=
      UInt64.toNat_add _ _
    simp only [result, calls_append, calls_cons, pair_raise, found, raised,
      Nat.ModEq]
    split <;> omega
  · simp only [result, calls_append, calls_cons, pair_ofEdge, calls_nil]
    exact ⟨rfl, le_rfl⟩

end CallTotal

/-- One more pair is listed at the end, unless it is listed already. -/
theorem ListsPairs.concat
    {listed pairs : List (Symbol × Symbol)}
    (lists : ListsPairs listed pairs)
    (pair : Symbol × Symbol) :
    ListsPairs
      (if pair ∈ listed then listed else listed ++ [pair])
      (pairs ++ [pair]) := by
  -- What is listed so far keeps its first position behind one more pair.
  have earlier :
      listed.Pairwise fun first second =>
        (pairs ++ [pair]).idxOf first < (pairs ++ [pair]).idxOf second := by
    refine lists.ordered.imp_of_mem ?_
    intro first second firstListed secondListed before
    rwa [List.idxOf_append_of_mem ((lists.mem_iff first).1 firstListed),
      List.idxOf_append_of_mem ((lists.mem_iff second).1 secondListed)]
  by_cases known : pair ∈ listed
  · rw [if_pos known]
    refine ⟨?_, lists.distinct, earlier⟩
    intro other
    rw [List.mem_append, List.mem_singleton, lists.mem_iff]
    constructor
    · exact Or.inl
    · rintro (member | rfl)
      · exact member
      · exact (lists.mem_iff other).1 known
  · rw [if_neg known]
    refine ⟨?_, ?_, ?_⟩
    · intro other
      rw [List.mem_append, List.mem_append, lists.mem_iff]
    · rw [← List.concat_eq_append, List.nodup_concat]
      exact ⟨known, lists.distinct⟩
    · rw [List.pairwise_append]
      refine ⟨earlier, List.pairwise_singleton _ _, ?_⟩
      rintro first firstListed second last
      rw [List.mem_singleton.1 last]
      have found := (lists.mem_iff first).1 firstListed
      have fresh := mt (lists.mem_iff pair).2 known
      rw [List.idxOf_append_of_mem found, List.idxOf_append_of_notMem fresh]
      exact Nat.lt_add_right _ (List.idxOf_lt_length_of_mem found)

/-! ## Counting all edges -/

namespace CallTotal

theorem listsPairs_foldl_add (edges : List CallEdge) :
    ListsPairs ((edges.foldl add []).map pair) (edges.map CallEdge.pair) := by
  induction edges using List.reverseRecOn with
  | nil => exact ⟨by simp, List.nodup_nil, List.Pairwise.nil⟩
  | append_singleton edges edge hypothesis =>
      rw [List.foldl_append, List.foldl_cons, List.foldl_nil, map_pair_add,
        List.map_append, List.map_singleton]
      exact hypothesis.concat edge.pair

theorem calls_foldl_add
    (chosen : Symbol × Symbol → Bool)
    (edges : List CallEdge) :
    calls chosen (edges.foldl add []) ≡
        CallEdge.calls chosen edges [MOD 2 ^ 64] ∧
      calls chosen (edges.foldl add []) ≤ CallEdge.calls chosen edges := by
  induction edges using List.reverseRecOn with
  | nil => exact ⟨rfl, le_rfl⟩
  | append_singleton edges edge hypothesis =>
      have counted := calls_add chosen (edges.foldl add []) edge
      rw [List.foldl_append, List.foldl_cons, List.foldl_nil,
        CallEdge.calls_concat]
      exact
        ⟨counted.1.trans (hypothesis.1.add_right _),
          counted.2.trans (Nat.add_le_add_right hypothesis.2 _)⟩

/-- A sum that fits into a word is kept as it is. -/
theorem calls_foldl_add_of_lt
    (chosen : Symbol × Symbol → Bool)
    {edges : List CallEdge}
    (fits : CallEdge.calls chosen edges < 2 ^ 64) :
    calls chosen (edges.foldl add []) = CallEdge.calls chosen edges := by
  rcases calls_foldl_add chosen edges with ⟨congruent, bounded⟩
  exact congruent.eq_of_lt_of_lt (bounded.trans_lt fits) fits

theorem summarizes_foldl_add (edges : List CallEdge) :
    Summarizes (edges.foldl add []) edges where
  pairs := listsPairs_foldl_add edges
  frequency := by
    intro total member
    have own := calls_pair_of_mem (listsPairs_foldl_add edges).distinct member
    have congruent := (calls_foldl_add (· = total.pair) edges).1
    rw [own, Nat.ModEq, Nat.mod_eq_of_lt total.frequency.toNat_lt] at congruent
    exact congruent
  sums := fun chosen => (calls_foldl_add chosen edges).1

end CallTotal

/-! ## The totals of a program -/

namespace CallGraph

/-- Every edge in the graph of a program stands for one call. -/
theorem calls_ofProgram (program : Program) (symbol : Symbol) :
    CallEdge.calls (·.2 = symbol) (ofProgram program).edges =
      (ofProgram program).edges.countP (·.callee = symbol) := by
  have single :
      ∀ edge ∈ (ofProgram program).edges, edge.frequency.toNat = 1 := by
    intro edge member
    rw [edges_ofProgram, List.mem_map] at member
    rcases member with ⟨call, _, rfl⟩
    rfl
  have ones :
      ((ofProgram program).edges.filter (·.pair.2 = symbol)).map
          (·.frequency.toNat) =
        ((ofProgram program).edges.filter (·.callee = symbol)).map fun _ => 1 :=
    List.map_congr_left fun edge member =>
      single edge (List.mem_of_mem_filter member)
  rw [CallEdge.calls, ones, List.map_const', List.sum_replicate_nat,
    List.countP_eq_length_filter, Nat.mul_one]

/--
The totals of a graph summarize its edges, and those of the graph of a program
agree with the counts at its nodes.
-/
theorem totals_summarize_edges :
    (∀ graph : CallGraph, CallTotal.Summarizes graph.totals graph.edges) ∧
      ∀ (program : Program) (symbol : Symbol) (node : CallNode),
        (ofProgram program).nodes[symbol]? = some node →
          let received :=
            ((ofProgram program).totals.filter (·.callee = symbol)).map
              (·.frequency.toNat)
          received.sum ≡ node.callCount [MOD 2 ^ 64] ∧
            ((ofProgram program).edges.length < 2 ^ 64 →
              received.sum = node.callCount) := by
  refine ⟨fun graph => CallTotal.summarizes_foldl_add graph.edges, ?_⟩
  intro program symbol node found received
  have counted := (represents_node program found).callCount
  rw [← calls_ofProgram] at counted
  rw [counted]
  refine ⟨(CallTotal.calls_foldl_add (·.2 = symbol) _).1, ?_⟩
  intro fits
  refine CallTotal.calls_foldl_add_of_lt (·.2 = symbol) ?_
  rw [calls_ofProgram]
  exact List.countP_le_length.trans_lt fits

/-- One function calls another twice and a third function calls it once more. -/
theorem totals_summarize_edges_repeated :
    let call := Stmt.expr (.call (.ident "g") [])
    let program : Program :=
      { statements :=
          [.function "f" [] (.block [call, call]),
            .function "g" [] (.literal (.int 1)),
            .function "h" [] (.block [call])] }
    let node : CallNode :=
      { symbol := ⟨"", "g"⟩, complexity := 1, callCount := 3, inlinable := true }
    (ofProgram program).nodes[node.symbol]? = some node ∧
      (((ofProgram program).totals.filter (·.callee = node.symbol)).map
        (·.frequency.toNat)).sum = 3 := by
  intro call program node
  have calls :
      program.recordedCalls = [("f", "g"), ("f", "g"), ("h", "g")] := rfl
  -- Only one function is called, and it is the one that calls none.
  have descends :
      ∀ caller callee,
        program.RecordsCall caller callee →
          ["g"].idxOf callee < ["g"].idxOf caller := by
    rintro caller callee ⟨recorded, _⟩
    rw [calls] at recorded
    simp only [List.mem_cons, List.not_mem_nil, or_false, Prod.mk.injEq]
      at recorded
    rcases recorded with ⟨rfl, rfl⟩ | ⟨rfl, rfl⟩ | ⟨rfl, rfl⟩
    · decide
    · decide
    · decide
  have ends := Program.not_leadsIntoRecursion_of_rank descends "g"
  have found : (ofProgram program).nodes[node.symbol]? = some node := by
    have last :
        program.lastDefinition? "g" = some ⟨"g", [], .literal (.int 1)⟩ := rfl
    have described := getElem?_ofProgram program "g"
    rw [last, Option.map_some, decide_eq_false ends, calls] at described
    exact described
  have few : (ofProgram program).edges.length < 2 ^ 64 := by decide
  exact ⟨found, (totals_summarize_edges.2 program node.symbol node found).2 few⟩

end CallGraph

end MiddleEnd
