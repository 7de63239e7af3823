import DisplayFile.Keyword.Basic

/-!
# Parameters of a keyword

The value of a keyword is a list of parameters with spaces between them. A space inside quotes
belongs to its parameter, and a quote that is never closed keeps the rest of the value together.
Quotes stay part of the parameter they stand in.
-/

namespace DisplayFile.Keyword

/-- A value read up to some point. -/
structure Parameters where
  /-- The parameters that have ended. -/
  ended : Array String := #[]
  /-- The parameter under construction. -/
  current : String := ""
  /-- Whether the point is inside quotes. -/
  quoted : Bool := false

namespace Parameters

/-- End the parameter under construction, if there is one. -/
def endParameter (p : Parameters) : Parameters :=
  if p.current.isEmpty then p else { p with ended := p.ended.push p.current, current := "" }

/-- Read one character of a value. -/
def char (p : Parameters) (c : Char) : Parameters :=
  if c = ' ' ∧ p.quoted = false then p.endParameter
  else { p with current := p.current.push c, quoted := if c = '\'' then !p.quoted else p.quoted }

end Parameters

/-- The parameters in the value of a keyword. -/
def parameters (value : String) : List String :=
  (value.toList.foldl Parameters.char {}).endParameter.ended.toList

@[simp] theorem parameters_empty : parameters "" = [] := rfl

end DisplayFile.Keyword
