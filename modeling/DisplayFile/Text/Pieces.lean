/-!
# Pieces of a text

A text is cut at every occurrence of a separator. There is always one piece more than there are
separators, so a text without one is a single piece, and the empty text is the empty piece.
-/

namespace DisplayFile.Text

/-- Put a character in front of the first piece. -/
def consPiece (c : Char) : List (List Char) → List (List Char)
  | [] => [[c]]
  | piece :: rest => (c :: piece) :: rest

/-- The pieces of a text between its separators. -/
def pieces (separator : Char) (cs : List Char) : List (List Char) :=
  cs.foldr (fun c rest ↦ if c = separator then [] :: rest else consPiece c rest) [[]]

@[simp] theorem pieces_nil (separator : Char) : pieces separator [] = [[]] := rfl

theorem pieces_cons (separator c : Char) (cs : List Char) :
    pieces separator (c :: cs) =
      if c = separator then [] :: pieces separator cs else consPiece c (pieces separator cs) := rfl

theorem pieces_ne_nil (separator : Char) (cs : List Char) : pieces separator cs ≠ [] := by
  cases cs with
  | nil => simp
  | cons c cs =>
    rw [pieces_cons]
    split
    · simp
    · cases pieces separator cs <;> simp [consPiece]

/-- A text without the separator is a single piece. -/
theorem pieces_eq_singleton {separator : Char} {cs : List Char} (h : separator ∉ cs) :
    pieces separator cs = [cs] := by
  induction cs with
  | nil => rfl
  | cons c cs ih =>
    obtain ⟨hne, hcs⟩ := List.ne_and_not_mem_of_not_mem_cons h
    rw [pieces_cons, if_neg (Ne.symm hne), ih hcs]
    rfl

/-- A separator ends the piece before it. -/
theorem pieces_append_cons {separator : Char} {cs : List Char} (h : separator ∉ cs)
    (rest : List Char) :
    pieces separator (cs ++ separator :: rest) = cs :: pieces separator rest := by
  induction cs with
  | nil => simp [pieces_cons]
  | cons c cs ih =>
    obtain ⟨hne, hcs⟩ := List.ne_and_not_mem_of_not_mem_cons h
    rw [List.cons_append, pieces_cons, if_neg (Ne.symm hne), ih hcs]
    rfl

end DisplayFile.Text
