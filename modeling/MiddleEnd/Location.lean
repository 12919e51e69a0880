/-!
# Source locations

Trees carry no positions, so every location that an analysis reports is the
placeholder `Location.unknown`.
-/

namespace MiddleEnd

/-- A place in a source file. -/
structure Location where
  file : String
  line : Nat := 0
  column : Nat := 0
deriving DecidableEq, Repr

namespace Location

/-- The placeholder for a place that is not known. -/
def unknown : Location where
  file := "unknown"

/-- The location as it is written in reports. -/
def render (location : Location) : String :=
  location.file ++ ":" ++ toString location.line ++ ":" ++
    toString location.column

end Location

end MiddleEnd
