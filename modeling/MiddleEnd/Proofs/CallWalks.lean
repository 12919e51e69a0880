import Mathlib.Data.List.Flatten
import Mathlib.Data.List.Forall2
import Mathlib.Data.List.Induction
import MiddleEnd.Proofs.CallGraph
import MiddleEnd.Proofs.Children

/-!
# The two walks over calls

A node is found at a position, which says for each node on the way which of its
children comes next.  In the order of the positions as lists a node stands
before what is below it, and that before what follows.  The names called in an
expression are those found at the positions of its calls by name, in this order.

The calls that a call graph records for a body are some of them, in the same
order.  So every edge of a call graph is a call that the removal of dead
functions comes across when it looks at the same body.  It looks at the last
definition of a name only: a call that is recorded for an earlier definition is
not followed.
-/

namespace MiddleEnd

/-! ## What is found at positions -/

/--
The positions are those where something is found, in order, and the entries are
what is found at them.
-/
structure Enumerates
    {α : Type}
    (look : List Nat → Option α)
    (positions : List (List Nat))
    (entries : List α) : Prop where
  found :
    List.Forall₂ (fun position entry => look position = some entry)
      positions entries
  ordered : positions.Pairwise (· < ·)
  mem_iff : ∀ position, position ∈ positions ↔ (look position).isSome = true

/-- A view that shows some of the entries is enumerated at some of the positions. -/
theorem Enumerates.filterMap
    {α β : Type}
    {look : List Nat → Option α}
    {positions : List (List Nat)}
    {entries : List α}
    (all : Enumerates look positions entries)
    (view : α → Option β) :
    Enumerates
      (fun position => (look position).bind view)
      (positions.filter fun position => ((look position).bind view).isSome)
      (entries.filterMap view) where
  found := by
    have found := all.found
    clear all
    induction found with
    | nil => exact .nil
    | @cons position entry positions entries here _ hypothesis =>
        cases shown : view entry with
        | none => simpa [here, shown] using hypothesis
        | some result =>
            simp only [List.filter_cons, here, shown, Option.bind_some,
              Option.isSome_some, if_true, List.filterMap_cons]
            refine .cons ?_ hypothesis
            rw [here, Option.bind_some, shown]
  ordered := all.ordered.filter _
  mem_iff := by
    intro position
    rw [List.mem_filter, all.mem_iff]
    cases look position <;> simp

namespace Expr

/-- What stands at a position: each number says which child comes next. -/
def at? : Expr → List Nat → Option Expr
  | expression, [] => some expression
  | expression, index :: rest =>
      expression.children[index]?.bind fun child => child.at? rest

/-- What stands at a position below one of several expressions. -/
def atAmong? (expressions : List Expr) : List Nat → Option Expr
  | [] => none
  | index :: rest => expressions[index]?.bind fun child => child.at? rest

theorem lt_length_of_atAmong?
    {expressions : List Expr}
    {position : List Nat}
    (found : (atAmong? expressions position).isSome = true) :
    ∃ index rest, position = index :: rest ∧ index < expressions.length := by
  cases position with
  | nil => cases found
  | cons index rest =>
      refine ⟨index, rest, rfl, ?_⟩
      by_contra outside
      rw [atAmong?, List.getElem?_eq_none (by omega)] at found
      cases found

theorem atAmong?_append_of_lt
    {expressions : List Expr}
    {index : Nat}
    (inside : index < expressions.length)
    (others : List Expr)
    (rest : List Nat) :
    atAmong? (expressions ++ others) (index :: rest) =
      atAmong? expressions (index :: rest) := by
  rw [atAmong?, atAmong?, List.getElem?_append_left inside]

theorem atAmong?_concat
    (expressions : List Expr)
    (last : Expr)
    (rest : List Nat) :
    atAmong? (expressions ++ [last]) (expressions.length :: rest) =
      last.at? rest := by
  rw [atAmong?, List.getElem?_concat_length, Option.bind_some]

/-- One more expression is enumerated behind the others. -/
theorem enumerates_concat
    {expressions : List Expr}
    {last : Expr}
    {positions lastPositions : List (List Nat)}
    (front :
      Enumerates (atAmong? expressions) positions
        (expressions.flatMap subexprs))
    (back : Enumerates last.at? lastPositions last.subexprs) :
    Enumerates (atAmong? (expressions ++ [last]))
      (positions ++ lastPositions.map (expressions.length :: ·))
      ((expressions ++ [last]).flatMap subexprs) where
  found := by
    rw [List.flatMap_append, List.flatMap_singleton]
    apply List.rel_append
    · apply front.found.imp
      intro position node here
      rcases lt_length_of_atAmong? (Option.isSome_of_eq_some here) with
        ⟨index, rest, rfl, inside⟩
      rw [atAmong?_append_of_lt inside, here]
    · rw [List.forall₂_map_left_iff]
      apply back.found.imp
      intro position node here
      rw [atAmong?_concat, here]
  ordered := by
    rw [List.pairwise_append]
    refine ⟨front.ordered, ?_, ?_⟩
    · apply back.ordered.map
      intro first second before
      rw [List.cons_lt_cons_iff]
      exact Or.inr ⟨rfl, before⟩
    · intro position member other otherMember
      rcases lt_length_of_atAmong? ((front.mem_iff position).1 member) with
        ⟨index, rest, rfl, inside⟩
      rcases List.mem_map.1 otherMember with ⟨below, _, rfl⟩
      rw [List.cons_lt_cons_iff]
      exact Or.inl inside
  mem_iff := by
    intro position
    rw [List.mem_append, front.mem_iff, List.mem_map]
    constructor
    · rintro (inFront | ⟨below, member, rfl⟩)
      · rcases lt_length_of_atAmong? inFront with ⟨index, rest, rfl, inside⟩
        rw [atAmong?_append_of_lt inside]
        exact inFront
      · rw [atAmong?_concat]
        exact (back.mem_iff below).1 member
    · intro found
      rcases lt_length_of_atAmong? found with ⟨index, rest, rfl, inside⟩
      rw [List.length_append, List.length_singleton, Nat.lt_succ_iff_lt_or_eq]
        at inside
      rcases inside with before | rfl
      · rw [atAmong?_append_of_lt before] at found
        exact Or.inl found
      · rw [atAmong?_concat] at found
        exact Or.inr ⟨rest, (back.mem_iff rest).2 found, rfl⟩

/-- An expression is enumerated before all that is below it. -/
theorem enumerates_node
    {expression : Expr}
    {positions : List (List Nat)}
    (below :
      Enumerates (atAmong? expression.children) positions
        (expression.children.flatMap subexprs)) :
    Enumerates expression.at? ([] :: positions) expression.subexprs where
  found := by
    rw [subexprs_eq_cons]
    refine .cons rfl (below.found.imp ?_)
    intro position node here
    cases position with
    | nil => cases here
    | cons index rest => exact here
  ordered := by
    refine .cons ?_ below.ordered
    intro position member
    rcases lt_length_of_atAmong? ((below.mem_iff position).1 member) with
      ⟨index, rest, rfl, _⟩
    exact List.nil_lt_cons index rest
  mem_iff := by
    intro position
    cases position with
    | nil => simp [at?]
    | cons index rest =>
        rw [List.mem_cons, below.mem_iff]
        simp [at?, atAmong?]

/-- The walk visits the nodes in the order of their positions, each one once. -/
theorem exists_enumerates_subexprs (expression : Expr) :
    ∃ positions, Enumerates expression.at? positions expression.subexprs := by
  induction expression using childrenInduction with
  | node expression hypothesis =>
      have among :
          ∀ expressions : List Expr, expressions ⊆ expression.children →
            ∃ positions,
              Enumerates (atAmong? expressions) positions
                (expressions.flatMap subexprs) := by
        intro expressions inside
        -- Positions in the front stay as they are when one more is added.
        induction expressions using List.reverseRecOn with
        | nil =>
            refine ⟨[], .nil, .nil, ?_⟩
            intro position
            cases position <;> simp [atAmong?]
        | append_singleton expressions last rest =>
            rcases List.append_subset.1 inside with ⟨frontInside, lastInside⟩
            rcases rest frontInside with ⟨positions, front⟩
            rcases hypothesis last (lastInside (List.mem_singleton_self last))
              with ⟨lastPositions, back⟩
            exact ⟨_, enumerates_concat front back⟩
      rcases among _ (List.Subset.refl _) with ⟨positions, below⟩
      exact ⟨_, enumerates_node below⟩

/-- The name that is called at a position, if a call by name stands there. -/
def calleeAt? (expression : Expr) (position : List Nat) : Option String :=
  (expression.at? position).bind callee?

theorem exists_enumerates_calledNames (expression : Expr) :
    ∃ positions,
      Enumerates expression.calleeAt? positions expression.calledNames := by
  rcases expression.exists_enumerates_subexprs with ⟨positions, all⟩
  exact ⟨_, all.filterMap callee?⟩

/-! ## Recorded calls -/

theorem toList_callee?_sublist (expression : Expr) :
    expression.callee?.toList.Sublist expression.calledNames := by
  rw [calledNames_eq]
  exact List.sublist_append_left _ _

end Expr

theorem Stmt.toList_callee?_sublist (statement : Stmt) :
    statement.callee?.toList.Sublist statement.calledNames := by
  cases statement with
  | expr expression =>
      rw [calledNames, held, List.flatMap_singleton]
      exact expression.toList_callee?_sublist
  | _ => exact List.nil_sublist _

namespace Expr

theorem calledNames_branch
    (condition thenBranch : Expr)
    (elseBranch : Option Expr) :
    (Expr.branch condition thenBranch elseBranch).calledNames =
      condition.calledNames ++
        (thenBranch.calledNames ++ elseBranch.toList.flatMap calledNames) := by
  rw [calledNames_eq]
  simp [children, callee?]

theorem calledNames_loop (condition body : Expr) :
    (Expr.loop condition body).calledNames =
      condition.calledNames ++ body.calledNames := by
  rw [calledNames_eq]
  simp [children, callee?]

theorem calledNames_block (statements : List Stmt) :
    (Expr.block statements).calledNames =
      statements.flatMap Stmt.calledNames := by
  rw [calledNames_eq, children, List.flatMap_assoc]
  rfl

/-- The shallow walk finds some of what the deep one finds, in the same order. -/
theorem directCalls_sublist_calledNames (expression : Expr) :
    expression.directCalls.Sublist expression.calledNames := by
  fun_induction directCalls expression with
  | case1 name arguments =>
      exact (Expr.call (.ident name) arguments).toList_callee?_sublist
  | case2 condition thenBranch hypothesis =>
      rw [calledNames_branch]
      exact List.sublist_append_of_sublist_right
        (List.sublist_append_of_sublist_left hypothesis)
  | case3 condition thenBranch elseBranch thenHypothesis elseHypothesis =>
      rw [calledNames_branch, Option.toList_some, List.flatMap_singleton]
      exact List.sublist_append_of_sublist_right
        (thenHypothesis.append elseHypothesis)
  | case4 condition body hypothesis =>
      rw [calledNames_loop]
      exact List.sublist_append_of_sublist_right hypothesis
  | case5 statements =>
      rw [calledNames_block, List.filterMap_eq_flatMap_toList]
      exact List.Sublist.flatMap_right statements fun statement _ =>
        statement.toList_callee?_sublist
  | case6 => exact List.nil_sublist _

end Expr

/-! ## Edges -/

namespace Program

/-- The calls in the bodies of all functions, each as caller and callee. -/
def walkedCalls (program : Program) : List (String × String) :=
  program.functions.flatMap fun definition =>
    definition.body.calledNames.map fun called => (definition.name, called)

theorem recordedCalls_sublist_walkedCalls (program : Program) :
    program.recordedCalls.Sublist program.walkedCalls :=
  List.Sublist.flatMap_right program.functions fun definition _ =>
    definition.body.directCalls_sublist_calledNames.map _

theorem mem_walkedCalls_iff (program : Program) (call : String × String) :
    call ∈ program.walkedCalls ↔
      ∃ definition ∈ program.functions, ∃ called ∈ definition.body.calledNames,
        (definition.name, called) = call := by
  simp [walkedCalls]

/-- Whatever the entry point, the callee is live if the caller is. -/
def Follows (program : Program) (caller callee : String) : Prop :=
  ∀ entryPoint,
    caller ∈ program.liveNames entryPoint →
      callee ∈ program.liveNames entryPoint

/-- The calls of the definition that a name leads to are followed. -/
theorem follows_of_isLastDefinition
    {program : Program}
    {definition : FunctionDef}
    {called : String}
    (last : program.IsLastDefinition definition.name definition)
    (call : called ∈ definition.body.calledNames) :
    program.Follows definition.name called := by
  intro entryPoint live
  have closed := program.closedUnderCalls_liveNames entryPoint
  exact closed.calls definition.name live definition last called call

end Program

namespace CallGraph

theorem exists_definition_of_mem_edges
    {program : Program}
    {edge : CallEdge}
    (member : edge ∈ (ofProgram program).edges) :
    ∃ definition ∈ program.functions, ∃ called ∈ definition.body.calledNames,
      edge = callEdge program.module (definition.name, called) := by
  rw [edges_ofProgram, List.mem_map] at member
  rcases member with ⟨call, recorded, rfl⟩
  have walked := program.recordedCalls_sublist_walkedCalls.subset recorded
  rcases (program.mem_walkedCalls_iff call).1 walked with
    ⟨definition, defined, called, inside, rfl⟩
  exact ⟨definition, defined, called, inside, rfl⟩

/--
The calls recorded for an expression are among the names called in it, in the
same order, and these are what is called at the positions of its calls by name.
So the edges of a call graph are among the calls in the bodies of the functions.
The removal of dead functions follows those that stand in the last definition of
a name, and all of them where no name is defined twice.
-/
theorem edges_are_walked_calls (program : Program) :
    (∀ expression : Expr,
      expression.directCalls.Sublist expression.calledNames ∧
      ∃ positions,
        Enumerates expression.calleeAt? positions expression.calledNames) ∧
    (ofProgram program).edges.Sublist
      (program.walkedCalls.map (callEdge program.module)) ∧
    (∀ edge ∈ (ofProgram program).edges,
      ∃ definition ∈ program.functions,
        ∃ called ∈ definition.body.calledNames,
          edge = callEdge program.module (definition.name, called) ∧
          (program.IsLastDefinition definition.name definition →
            program.Follows definition.name called)) ∧
    ((program.functions.map FunctionDef.name).Nodup →
      ∀ edge ∈ (ofProgram program).edges,
        program.Follows edge.caller.name edge.callee.name) := by
  refine ⟨?_, ?_, ?_, ?_⟩
  · intro expression
    exact ⟨expression.directCalls_sublist_calledNames,
      expression.exists_enumerates_calledNames⟩
  · rw [edges_ofProgram]
    exact program.recordedCalls_sublist_walkedCalls.map _
  · intro edge member
    rcases exists_definition_of_mem_edges member with
      ⟨definition, defined, called, inside, same⟩
    exact ⟨definition, defined, called, inside, same,
      fun last => Program.follows_of_isLastDefinition last inside⟩
  · intro distinct edge member
    rcases exists_definition_of_mem_edges member with
      ⟨definition, defined, called, inside, rfl⟩
    exact Program.follows_of_isLastDefinition
      (Program.isLastDefinition_of_nodup distinct defined) inside

/-- A function that calls another one and itself, in a block and in a loop. -/
def repeatedCalls : Program where
  statements :=
    [.function "run" ["n"]
      (.branch (.ident "n")
        (.block
          [.expr (.call (.ident "step") [.call (.ident "step") [.ident "n"]])])
        (some (.loop (.ident "n") (.call (.ident "run") [.ident "n"])))),
    .function "step" ["n"] (.ident "n")]

theorem edges_are_walked_calls_repeatedCalls :
    let calls : List (String × String) :=
      [("run", "step"), ("run", "step"), ("run", "run")]
    (repeatedCalls.functions.map FunctionDef.name).Nodup ∧
    callEdge "" ("run", "step") ∈ (ofProgram repeatedCalls).edges ∧
    repeatedCalls.Follows "run" "step" ∧
    (ofProgram repeatedCalls).edges.Sublist (calls.map (callEdge "")) := by
  intro calls
  rcases edges_are_walked_calls repeatedCalls with ⟨_, walked, _, followed⟩
  have distinct : (repeatedCalls.functions.map FunctionDef.name).Nodup := by
    decide
  have recorded :
      callEdge "" ("run", "step") ∈ (ofProgram repeatedCalls).edges := by
    rw [edges_ofProgram]
    decide
  have all : repeatedCalls.walkedCalls = calls := by
    decide
  rw [all] at walked
  exact ⟨distinct, recorded, followed distinct _ recorded, walked⟩

/-- A function defined twice, of which only the first definition calls another. -/
def redefinedCaller : Program where
  statements :=
    [.function "f" [] (.call (.ident "g") []),
    .function "f" [] (.literal (.int 2)),
    .function "g" [] (.literal (.int 1))]

/-- The call of a definition that is hidden is recorded and not followed. -/
theorem edge_not_followed :
    ∃ edge ∈ (ofProgram redefinedCaller).edges,
      ¬ redefinedCaller.Follows edge.caller.name edge.callee.name := by
  refine ⟨callEdge "" ("f", "g"), ?_, ?_⟩
  · rw [edges_ofProgram]
    decide
  · intro followed
    have live : redefinedCaller.liveNames "f" = ["f"] := by
      cbv
    have reached := followed "f" (by rw [live]; exact List.mem_cons_self)
    rw [live] at reached
    revert reached
    decide

end CallGraph

end MiddleEnd
