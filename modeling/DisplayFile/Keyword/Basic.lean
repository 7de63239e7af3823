import DisplayFile.Condition

/-!
# Keywords

A keyword describes the member, a record format or a field: `INDARA`, `COLOR(BLU)`. Its name is in
capitals. Its value is the text between its brackets and is absent, not empty, when there is none.
It has the conditions of the line on which it ends.
-/

namespace DisplayFile

/-- A keyword of a record format or a field. -/
structure Keyword where
  name : String
  value : Option String
  conditions : List Condition
deriving DecidableEq, Repr

namespace Keyword

/-- The keyword with this name, no value and no condition. -/
def flag (name : String) : Keyword :=
  { name, value := none, conditions := [] }

/-- Whether the keyword is in effect. -/
def isActive (k : Keyword) (s : Indicators) : Bool :=
  Condition.allHold k.conditions s

end Keyword

end DisplayFile
