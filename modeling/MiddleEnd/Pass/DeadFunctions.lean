import MiddleEnd.Calls
import MiddleEnd.Reach

/-!
# Removal of dead functions

A function is live when its name can be reached by calls from the names that
the removal starts at.  With an entry point these are the entry point and what
is called at the top of the program outside of its functions; without one they
are the names of all functions.  Where a name is defined more than once, calls
lead to the last definition, and all of the definitions are kept or removed
together.
-/

namespace MiddleEnd

/-- A program without its dead functions, and the names that were removed. -/
structure Pruned where
  program : Program
  /-- One entry for each definition removed, in source order. -/
  removed : List String

namespace Program

/-- The definition that a call of the name leads to. -/
def lastDefinition? (program : Program) (name : String) : Option FunctionDef :=
  program.functions.reverse.find? (·.name == name)

/-- The names called by the definition that a name leads to. -/
def callsOf (program : Program) (name : String) : List String :=
  match program.lastDefinition? name with
  | some definition => definition.body.calledNames
  | none => []

/-- The calls between the names of a program. -/
def callLinks (program : Program) : Links String where
  sources := program.functions.map FunctionDef.name
  targets := program.callsOf
  targets_eq_nil := by
    intro name absent
    have missing : program.lastDefinition? name = none := by
      rw [lastDefinition?, List.find?_eq_none]
      intro definition member same
      apply absent
      rw [List.mem_map]
      exact ⟨definition, List.mem_reverse.1 member, by simpa using same⟩
    rw [callsOf, missing]

/-- The names called at the top of the program, outside of its functions. -/
def topLevelCalls (program : Program) : List String :=
  (program.statements.filter (!·.isFunction)).flatMap Stmt.calledNames

/-- The names that are live whatever calls them. -/
def seeds (program : Program) : Option String → List String
  | none => program.functions.map FunctionDef.name
  | some entryPoint => program.topLevelCalls ++ [entryPoint]

/-- The names that are live when the program is entered at the given one. -/
def liveNames (program : Program) (entryPoint : String) : List String :=
  program.callLinks.reach (program.seeds (some entryPoint))

/-- The program without the functions whose names are not among the live. -/
def keepFunctions (program : Program) (live : List String) : Pruned where
  program :=
    { program with
      statements := program.statements.filter fun statement =>
        match statement.function? with
        | some definition => definition.name ∈ live
        | none => true }
  removed :=
    (program.functions.filter (·.name ∉ live)).map FunctionDef.name

/-- Removes the functions that are dead given the entry point. -/
def removeDeadFunctions
    (program : Program)
    (entryPoint : Option String) : Pruned :=
  program.keepFunctions (program.callLinks.reach (program.seeds entryPoint))

end Program

end MiddleEnd
