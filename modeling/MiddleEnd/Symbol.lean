/-!
# Symbols

A function is known by its name together with the path of its module.
Symbols are ordered by module and then by name, which makes them keys of
sorted maps.
-/

namespace MiddleEnd

/-- The name of a function, qualified by the path of its module. -/
structure Symbol where
  /-- The module path, empty for the root module. -/
  module : String
  name : String
deriving DecidableEq, Repr

namespace Symbol

/-- The symbol as it is written in reports. -/
def render (symbol : Symbol) : String :=
  if symbol.module.isEmpty then
    symbol.name
  else
    symbol.module ++ "::" ++ symbol.name

instance : Ord Symbol where
  compare left right :=
    (compare left.module right.module).then (compare left.name right.name)

theorem compare_def (left right : Symbol) :
    compare left right =
      (compare left.module right.module).then (compare left.name right.name) :=
  rfl

instance : Std.OrientedOrd Symbol where
  eq_swap {left right} := by
    rw [compare_def, compare_def,
      Std.OrientedOrd.eq_swap (a := left.module) (b := right.module),
      Std.OrientedOrd.eq_swap (a := left.name) (b := right.name),
      Ordering.swap_then]

instance : Std.TransOrd Symbol where
  isLE_trans {first second third} firstLE secondLE := by
    rw [compare_def, Ordering.isLE_then_iff_or] at firstLE secondLE ⊢
    rcases firstLE with firstLess | ⟨firstEqual, firstName⟩
    · left
      rcases secondLE with secondLess | ⟨secondEqual, _⟩
      · exact Std.TransCmp.lt_trans firstLess secondLess
      · rwa [← Std.LawfulEqOrd.eq_of_compare secondEqual]
    · rw [Std.LawfulEqOrd.eq_of_compare firstEqual]
      rcases secondLE with secondLess | ⟨secondEqual, secondName⟩
      · exact Or.inl secondLess
      · exact Or.inr ⟨secondEqual, Std.TransOrd.isLE_trans firstName secondName⟩

instance : Std.LawfulEqOrd Symbol where
  eq_of_compare {left right} equal := by
    rw [compare_def, Ordering.then_eq_eq] at equal
    cases left
    cases right
    simp_all

end Symbol

end MiddleEnd
