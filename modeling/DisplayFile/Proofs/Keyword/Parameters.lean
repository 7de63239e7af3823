import DisplayFile.Keyword.Parameters
import DisplayFile.Proofs.Text.Characters
import Mathlib.Algebra.Group.Nat.Even
import Mathlib.Data.List.Induction
import Mathlib.Data.Nat.Find
import Mathlib.Tactic.FinCases

/-!
# Parameters are the pieces of a value

A blank in the value of a keyword divides its parameters when an even number of quotes stands before
it (`Divides`). The parameters are the pieces between these blanks, as long as they can be and not
empty (`IsPiece`), in the order of the value (`parameters_pieces`).

**Everything follows from one equation.** A blank behind an even number of quotes cuts a value in
two: what stands behind it is read as if it stood alone, because no quote is open there
(`parameters_append_cons`). A value that nothing divides is one parameter, or none when it is empty
(`parameters_of_undivided`). The two are the cases of an induction over the dividing blanks of a
value (`dividedInduction`).
-/

namespace DisplayFile.Keyword

/-! ### Dividing blanks -/

/-- The character at a place divides parameters: it is a blank, and the quotes before it are
closed. -/
structure Divides (cs : List Char) (i : Nat) : Prop where
  blank : cs[i]? = some ' '
  closed : Even ((cs.take i).count '\'')

instance (cs : List Char) (i : Nat) : Decidable (Divides cs i) :=
  decidable_of_iff (cs[i]? = some ' ' ∧ Even ((cs.take i).count '\''))
    ⟨fun ⟨blank, closed⟩ ↦ ⟨blank, closed⟩, fun ⟨blank, closed⟩ ↦ ⟨blank, closed⟩⟩

/-- No blank divides the text. -/
def Undivided (cs : List Char) : Prop := ∀ i, ¬Divides cs i

variable {as bs cs : List Char} {i : Nat}

theorem Divides.lt_length (h : Divides cs i) : i < cs.length :=
  (List.getElem?_eq_some_iff.1 h.blank).1

instance (cs : List Char) : Decidable (Undivided cs) :=
  decidable_of_iff (∀ i < cs.length, ¬Divides cs i)
    ⟨fun h i hi ↦ h i hi.lt_length hi, fun h i _ ↦ h i⟩

/-- What follows does not count. -/
theorem divides_append_of_lt (h : i < as.length) : Divides (as ++ bs) i ↔ Divides as i := by
  have hchar : (as ++ bs)[i]? = as[i]? := List.getElem?_append_left h
  have hbefore : (as ++ bs).take i = as.take i := List.take_append_of_le_length (Nat.le_of_lt h)
  constructor
  · rintro ⟨hblank, hclosed⟩
    exact ⟨hchar ▸ hblank, hbefore ▸ hclosed⟩
  · rintro ⟨hblank, hclosed⟩
    exact ⟨hchar.trans hblank, hbefore ▸ hclosed⟩

/-- Behind closed quotes, what stands before does not count either. -/
theorem divides_append_add (h : Even (as.count '\'')) :
    Divides (as ++ bs) (as.length + i) ↔ Divides bs i := by
  have hchar : (as ++ bs)[as.length + i]? = bs[i]? := by
    rw [List.getElem?_append_right (Nat.le_add_right _ _), Nat.add_sub_cancel_left]
  have hcount : Even (((as ++ bs).take (as.length + i)).count '\'') ↔
      Even ((bs.take i).count '\'') := by
    rw [List.take_length_add_append, List.count_append, Nat.even_add, iff_true_left h]
  constructor
  · rintro ⟨hblank, hclosed⟩
    exact ⟨hchar ▸ hblank, hcount.1 hclosed⟩
  · rintro ⟨hblank, hclosed⟩
    exact ⟨hchar.trans hblank, hcount.2 hclosed⟩

/-- The blank behind closed quotes divides. -/
theorem divides_length (h : Even (as.count '\'')) : Divides (as ++ ' ' :: bs) as.length := by
  have hfirst : Divides (' ' :: bs) 0 := ⟨rfl, Even.zero⟩
  exact (divides_append_add h).2 hfirst

theorem divides_append_cons (h : Even (as.count '\'')) :
    Divides (as ++ ' ' :: bs) (as.length + 1 + i) ↔ Divides bs i := by
  have hcount : Even ((as ++ [' ']).count '\'') := by simpa using h
  have hlength : (as ++ [' ']).length = as.length + 1 := by simp
  rw [← hlength, List.append_cons, divides_append_add hcount]

/-- A text is undivided, or its first dividing blank cuts it into an undivided text and the rest. -/
theorem undivided_or_exists_eq_append (cs : List Char) :
    Undivided cs ∨
      ∃ as bs, cs = as ++ ' ' :: bs ∧ Undivided as ∧ Even (as.count '\'') := by
  by_cases h : ∃ i, Divides cs i
  · right
    have hdivides := Nat.find_spec h
    have hlt := hdivides.lt_length
    have hlength : (cs.take (Nat.find h)).length = Nat.find h :=
      List.length_take_of_le (Nat.le_of_lt hlt)
    have hblank : cs[Nat.find h] = ' ' := (List.getElem?_eq_some_iff.1 hdivides.blank).2
    have hcut : cs = cs.take (Nat.find h) ++ ' ' :: cs.drop (Nat.find h + 1) := by
      rw [← hblank, ← List.drop_eq_getElem_cons hlt, List.take_append_drop]
    refine ⟨_, _, hcut, fun i hi ↦ ?_, hdivides.closed⟩
    -- a blank that divides the front is one before the first
    have hi' : i < Nat.find h := hlength ▸ hi.lt_length
    have hfront : Divides (cs.take (Nat.find h) ++ ' ' :: cs.drop (Nat.find h + 1)) i :=
      (divides_append_of_lt hi.lt_length).2 hi
    rw [← hcut] at hfront
    exact Nat.find_min h hi' hfront
  · exact .inl (not_exists.1 h)

/-- Induction over the blanks that divide a text. -/
@[elab_as_elim]
theorem dividedInduction {motive : List Char → Prop} (cs : List Char)
    (undivided : ∀ cs, Undivided cs → motive cs)
    (divided : ∀ as bs, Even (as.count '\'') → motive as → motive bs →
      motive (as ++ ' ' :: bs)) : motive cs := by
  induction hn : cs.length using Nat.strongRecOn generalizing cs with
  | ind n ih =>
    obtain hundivided | ⟨as, bs, rfl, has, hclosed⟩ := undivided_or_exists_eq_append cs
    · exact undivided cs hundivided
    · refine divided as bs hclosed (undivided as has) (ih bs.length ?_ bs rfl)
      rw [← hn, List.length_append, List.length_cons]
      omega

/-! ### Reading a value -/

namespace Parameters

theorem quoted_char (p : Parameters) (c : Char) :
    (p.char c).quoted = (p.quoted ^^ decide (c = '\'')) := by
  rw [char]
  split
  · next h =>
    obtain ⟨rfl, hquoted⟩ := h
    rw [endParameter]
    split <;> simp
  · by_cases hc : c = '\'' <;> simp [hc]

/-- A quote opens what was closed and closes what was open. -/
theorem decide_not_even_count_concat (cs : List Char) (c : Char) :
    decide (¬Even ((cs ++ [c]).count '\'')) =
      (decide (¬Even (cs.count '\'')) ^^ decide (c = '\'')) := by
  rw [List.count_append]
  by_cases hc : c = '\''
  · have hcount : [c].count '\'' = 1 := by simp [hc]
    simp only [hcount, Nat.even_add_one, decide_not, decide_eq_true hc, Bool.xor_true]
  · have hcount : [c].count '\'' = 0 := by simp [hc]
    rw [hcount, Nat.add_zero, decide_eq_false hc, Bool.xor_false]

/-- Quotes are open after an odd number of them. -/
theorem quoted_chars (cs : List Char) :
    (cs.foldl char {}).quoted = decide (¬Even (cs.count '\'')) := by
  induction cs using List.reverseRecOn with
  | nil => rfl
  | append_singleton cs c ih =>
    rw [List.foldl_append, List.foldl_cons, List.foldl_nil, quoted_char, ih,
      decide_not_even_count_concat]

/-- The parameters that ended before make no difference to those that follow. -/
theorem char_append (front : Array String) (p : Parameters) (c : Char) :
    char { p with ended := front ++ p.ended } c =
      { p.char c with ended := front ++ (p.char c).ended } := by
  simp only [char, endParameter]
  split
  · split <;> simp
  · rfl

theorem chars_append (front : Array String) (p : Parameters) (cs : List Char) :
    cs.foldl char { p with ended := front ++ p.ended } =
      { cs.foldl char p with ended := front ++ (cs.foldl char p).ended } := by
  induction cs generalizing p with
  | nil => rfl
  | cons c cs ih => rw [List.foldl_cons, char_append, ih, List.foldl_cons]

theorem endParameter_append (front : Array String) (p : Parameters) :
    (endParameter { p with ended := front ++ p.ended }).ended =
      front ++ p.endParameter.ended := by
  simp only [endParameter]
  split <;> simp

/-- Behind a parameter that has ended nothing is under construction. -/
theorem endParameter_eq (p : Parameters) :
    p.endParameter = { p with ended := p.endParameter.ended, current := "" } := by
  rw [endParameter]
  split
  · next h => rw [← String.isEmpty_iff.1 h]
  · rfl

/-- An undivided text is put together to one parameter. -/
theorem chars_of_undivided (h : Undivided cs) :
    cs.foldl char {} =
      { current := String.ofList cs, quoted := decide (¬Even (cs.count '\'')) } := by
  induction cs using List.reverseRecOn with
  | nil => rfl
  | append_singleton cs c ih =>
    have hcs : Undivided cs := fun i hi ↦ h i ((divides_append_of_lt hi.lt_length).2 hi)
    rw [List.foldl_append, ih hcs, List.foldl_cons, List.foldl_nil]
    have hkept : ¬(c = ' ' ∧ decide (¬Even (cs.count '\'')) = false) := by
      rintro ⟨rfl, hclosed⟩
      exact h cs.length (divides_length (by simpa using hclosed))
    have hpush : (String.ofList cs).push c = String.ofList (cs ++ [c]) := String.ext (by simp)
    rw [char, if_neg hkept, hpush, decide_not_even_count_concat]
    by_cases hc : c = '\''
    · rw [if_pos hc, decide_eq_true hc, Bool.xor_true]
    · rw [if_neg hc, decide_eq_false hc, Bool.xor_false]

end Parameters

/-- **A value is cut by a blank behind closed quotes**, into values that are read one after the
other. -/
theorem parameters_append_cons (h : Even (as.count '\'')) (bs : List Char) :
    parameters (String.ofList (as ++ ' ' :: bs)) =
      parameters (String.ofList as) ++ parameters (String.ofList bs) := by
  have hquoted : (as.foldl Parameters.char {}).quoted = false := by
    simpa [Parameters.quoted_chars] using h
  have hblank : (as.foldl Parameters.char {}).char ' ' =
      { ended := (as.foldl Parameters.char {}).endParameter.ended } := by
    rw [Parameters.char, if_pos ⟨rfl, hquoted⟩, Parameters.endParameter_eq, hquoted]
  have hrest := Parameters.chars_append (as.foldl Parameters.char {}).endParameter.ended {} bs
  rw [Array.append_empty] at hrest
  rw [parameters, String.toList_ofList, List.foldl_append, List.foldl_cons, hblank, hrest,
    Parameters.endParameter_append, Array.toList_append]
  simp only [parameters, String.toList_ofList]

/-- An undivided value is one parameter, or none when it is empty. -/
theorem parameters_of_undivided (h : Undivided cs) :
    parameters (String.ofList cs) = if cs = [] then [] else [String.ofList cs] := by
  rw [parameters, String.toList_ofList, Parameters.chars_of_undivided h, Parameters.endParameter]
  by_cases hcs : cs = []
  · simp [hcs]
  · simp [hcs]

/-- A blank in front of a value does not count. -/
theorem parameters_cons_blank (cs : List Char) :
    parameters (String.ofList (' ' :: cs)) = parameters (String.ofList cs) := by
  have hclosed : Even (([] : List Char).count '\'') := Even.zero
  exact parameters_append_cons hclosed cs

theorem parameters_replicate_append (n : Nat) (cs : List Char) :
    parameters (String.ofList (List.replicate n ' ' ++ cs)) = parameters (String.ofList cs) := by
  induction n with
  | zero => rfl
  | succ n ih => rw [List.replicate_succ, List.cons_append, parameters_cons_blank, ih]

/-! ### Pieces of a value -/

/-- The characters from `start` up to but not including `stop` are a piece: no blank among them
divides, and on either side stands one that does, or the text ends. -/
structure IsPiece (cs : List Char) (start stop : Nat) : Prop where
  lt : start < stop
  undivided : ∀ i, start ≤ i → i < stop → ¬Divides cs i
  before : start = 0 ∨ Divides cs (start - 1)
  behind : stop = cs.length ∨ Divides cs stop

/-- The bounds are those of all the pieces, in the order of the text. -/
structure ArePieces (cs : List Char) (bounds : List (Nat × Nat)) : Prop where
  ascending : bounds.Pairwise fun piece next ↦ piece.2 < next.1
  mem_iff : ∀ start stop, (start, stop) ∈ bounds ↔ IsPiece cs start stop

/-- The text between two bounds. -/
def pieceText (cs : List Char) (bounds : Nat × Nat) : String :=
  String.ofList ((cs.take bounds.2).drop bounds.1)

/-- The text without the blanks that divide it. -/
def withoutDividing (cs : List Char) : List Char :=
  (cs.zipIdx.filter fun place ↦ ¬Divides cs place.2).map Prod.fst

variable {start stop : Nat}

theorem IsPiece.stop_le (h : IsPiece cs start stop) : stop ≤ cs.length := by
  obtain hend | hdivides := h.behind
  · exact Nat.le_of_eq hend
  · exact Nat.le_of_lt hdivides.lt_length

/-- An undivided text is its only piece. -/
theorem isPiece_iff_of_undivided (h : Undivided cs) :
    IsPiece cs start stop ↔ cs ≠ [] ∧ start = 0 ∧ stop = cs.length := by
  constructor
  · intro hpiece
    have hstart := hpiece.before.resolve_right (h _)
    have hstop := hpiece.behind.resolve_right (h _)
    have hlt := hpiece.lt
    refine ⟨?_, hstart, hstop⟩
    rintro rfl
    simp only [List.length_nil] at hstop
    omega
  · rintro ⟨hcs, rfl, rfl⟩
    exact ⟨List.length_pos_iff.2 hcs, fun i _ _ ↦ h i, .inl rfl, .inl rfl⟩

section

variable (h : Even (as.count '\''))
include h

/-- Up to a blank that cuts a text, its pieces are those of the text before the blank. -/
theorem isPiece_append_cons_of_le (hstop : stop ≤ as.length) :
    IsPiece (as ++ ' ' :: bs) start stop ↔ IsPiece as start stop := by
  constructor
  · rintro ⟨hlt, hundivided, hbefore, hbehind⟩
    refine ⟨hlt, fun i hi hi' hdivides ↦ ?_, ?_, ?_⟩
    · exact hundivided i hi hi' ((divides_append_of_lt (by omega)).2 hdivides)
    · exact hbefore.imp_right (divides_append_of_lt (by omega)).1
    · obtain hlt' | heq := Nat.lt_or_eq_of_le hstop
      · rw [divides_append_of_lt hlt'] at hbehind
        refine .inr (hbehind.resolve_left fun hend ↦ ?_)
        rw [List.length_append] at hend
        omega
      · exact .inl heq
  · rintro ⟨hlt, hundivided, hbefore, hbehind⟩
    refine ⟨hlt, fun i hi hi' hdivides ↦ ?_, ?_, .inr ?_⟩
    · exact hundivided i hi hi' ((divides_append_of_lt (by omega)).1 hdivides)
    · exact hbefore.imp_right (divides_append_of_lt (by omega)).2
    · obtain rfl | hdivides := hbehind
      · exact divides_length h
      · exact (divides_append_of_lt hdivides.lt_length).2 hdivides

/-- Behind the blank they are those of the rest, so much further on. -/
theorem isPiece_append_cons_add :
    IsPiece (as ++ ' ' :: bs) (as.length + 1 + start) (as.length + 1 + stop) ↔
      IsPiece bs start stop := by
  have hundivided : (∀ i, as.length + 1 + start ≤ i → i < as.length + 1 + stop →
      ¬Divides (as ++ ' ' :: bs) i) ↔ ∀ i, start ≤ i → i < stop → ¬Divides bs i := by
    constructor
    · intro hwhole i hi hi' hdivides
      exact hwhole (as.length + 1 + i) (by omega) (by omega) ((divides_append_cons h).2 hdivides)
    · intro hrest i hi hi' hdivides
      obtain ⟨j, rfl⟩ := Nat.exists_eq_add_of_le (show as.length + 1 ≤ i by omega)
      exact hrest j (by omega) (by omega) ((divides_append_cons h).1 hdivides)
  have hbefore : (as.length + 1 + start = 0 ∨
      Divides (as ++ ' ' :: bs) (as.length + 1 + start - 1)) ↔
        start = 0 ∨ Divides bs (start - 1) := by
    cases start with
    | zero => exact iff_of_true (.inr (divides_length h)) (.inl rfl)
    | succ start =>
      have hplace : as.length + 1 + (start + 1) - 1 = as.length + 1 + start := by omega
      rw [hplace, divides_append_cons h, Nat.add_sub_cancel]
      exact or_congr_left (iff_of_false (by omega) (by omega))
  have hbehind : (as.length + 1 + stop = (as ++ ' ' :: bs).length ∨
      Divides (as ++ ' ' :: bs) (as.length + 1 + stop)) ↔
        stop = bs.length ∨ Divides bs stop := by
    rw [divides_append_cons h, List.length_append, List.length_cons]
    exact or_congr_left ⟨fun _ ↦ by omega, fun _ ↦ by omega⟩
  constructor
  · rintro ⟨hlt, hundivided', hbefore', hbehind'⟩
    exact ⟨by omega, hundivided.1 hundivided', hbefore.1 hbefore', hbehind.1 hbehind'⟩
  · rintro ⟨hlt, hundivided', hbefore', hbehind'⟩
    exact ⟨by omega, hundivided.2 hundivided', hbefore.2 hbefore', hbehind.2 hbehind'⟩

/-- No piece goes over the blank. -/
theorem IsPiece.lt_start_of_lt_stop (hpiece : IsPiece (as ++ ' ' :: bs) start stop)
    (hstop : as.length < stop) : as.length < start := by
  by_contra hle
  exact hpiece.undivided as.length (by omega) hstop (divides_length h)

/-- **The pieces of a text that a blank cuts** are those before the blank and those behind it. -/
theorem ArePieces.append_cons {before behind : List (Nat × Nat)} (hbefore : ArePieces as before)
    (hbehind : ArePieces bs behind) :
    ArePieces (as ++ ' ' :: bs)
      (before ++ behind.map fun piece ↦
        (as.length + 1 + piece.1, as.length + 1 + piece.2)) := by
  constructor
  · refine List.pairwise_append.2 ⟨hbefore.ascending, ?_, ?_⟩
    · exact List.pairwise_map.2 (hbehind.ascending.imp fun hlt ↦ by dsimp only; omega)
    · rintro ⟨start, stop⟩ hmem piece hpiece
      obtain ⟨piece', -, rfl⟩ := List.mem_map.1 hpiece
      have hle := ((hbefore.mem_iff start stop).1 hmem).stop_le
      dsimp only
      omega
  · intro start stop
    rw [List.mem_append, hbefore.mem_iff, List.mem_map]
    constructor
    · rintro (hpiece | ⟨⟨start', stop'⟩, hmem, hsame⟩)
      · exact (isPiece_append_cons_of_le h hpiece.stop_le).2 hpiece
      · cases hsame
        exact (isPiece_append_cons_add h).2 ((hbehind.mem_iff start' stop').1 hmem)
    · intro hpiece
      rcases Nat.lt_or_ge as.length stop with hstop | hstop
      · obtain ⟨start', rfl⟩ :=
          Nat.exists_eq_add_of_le (hpiece.lt_start_of_lt_stop h hstop)
        obtain ⟨stop', rfl⟩ := Nat.exists_eq_add_of_le hstop
        exact .inr ⟨(start', stop'),
          (hbehind.mem_iff start' stop').2 ((isPiece_append_cons_add h).1 hpiece), rfl⟩
      · exact .inl ((isPiece_append_cons_of_le h hstop).1 hpiece)

end

/-- An undivided text is its only piece, unless it is empty. -/
theorem Undivided.arePieces (h : Undivided cs) :
    ArePieces cs (if cs = [] then [] else [(0, cs.length)]) := by
  constructor
  · split <;> simp
  · intro start stop
    rw [isPiece_iff_of_undivided h]
    split
    · next hcs => simp [hcs]
    · next hcs => simp [hcs]

theorem Undivided.parameters_eq (h : Undivided cs) :
    parameters (String.ofList cs) =
      (if cs = [] then [] else [(0, cs.length)]).map (pieceText cs) := by
  rw [parameters_of_undivided h]
  split
  · rfl
  · simp [pieceText]

theorem pieceText_append_cons_of_le {bounds : Nat × Nat} (h : bounds.2 ≤ as.length) :
    pieceText (as ++ ' ' :: bs) bounds = pieceText as bounds := by
  rw [pieceText, List.take_append_of_le_length h, pieceText]

theorem pieceText_append_cons_add (as bs : List Char) (bounds : Nat × Nat) :
    pieceText (as ++ ' ' :: bs) (as.length + 1 + bounds.1, as.length + 1 + bounds.2) =
      pieceText bs bounds := by
  have hlength : (as ++ [' ']).length = as.length + 1 := by simp
  rw [pieceText, List.append_cons, ← hlength, List.take_length_add_append,
    List.drop_length_add_append, pieceText]

/-- The parameters of a value are the texts of its pieces. -/
theorem exists_arePieces (cs : List Char) :
    ∃ bounds, ArePieces cs bounds ∧ parameters (String.ofList cs) = bounds.map (pieceText cs) := by
  induction cs using dividedInduction with
  | undivided cs h => exact ⟨_, h.arePieces, h.parameters_eq⟩
  | divided as bs hclosed ihas ihbs =>
    obtain ⟨before, hbefore, hfront⟩ := ihas
    obtain ⟨behind, hbehind, hrest⟩ := ihbs
    refine ⟨_, hbefore.append_cons hclosed hbehind, ?_⟩
    rw [parameters_append_cons hclosed, hfront, hrest, List.map_append, List.map_map]
    refine congrArg₂ _ (List.map_congr_left fun piece hpiece ↦ ?_)
      (List.map_congr_left fun piece _ ↦ (pieceText_append_cons_add as bs piece).symm)
    have hle := ((hbefore.mem_iff piece.1 piece.2).1 hpiece).stop_le
    exact (pieceText_append_cons_of_le hle).symm

/-! ### What is kept -/

theorem withoutDividing_of_undivided (h : Undivided cs) : withoutDividing cs = cs := by
  have hall : cs.zipIdx.filter (fun place ↦ ¬Divides cs place.2) = cs.zipIdx :=
    List.filter_eq_self.2 fun place _ ↦ decide_eq_true (h place.2)
  rw [withoutDividing, hall, List.zipIdx_map_fst]

/-- The blank that cuts a text is lost, and nothing else is on account of it. -/
theorem withoutDividing_append_cons (h : Even (as.count '\'')) (bs : List Char) :
    withoutDividing (as ++ ' ' :: bs) = withoutDividing as ++ withoutDividing bs := by
  have hbefore : as.zipIdx.filter (fun place ↦ ¬Divides (as ++ ' ' :: bs) place.2) =
      as.zipIdx.filter fun place ↦ ¬Divides as place.2 :=
    List.filter_congr fun place hplace ↦ decide_eq_decide.2
      (not_congr (divides_append_of_lt (List.snd_lt_of_mem_zipIdx hplace)))
  have hblank : ((' ', as.length) :: bs.zipIdx (as.length + 1)).filter
        (fun place ↦ ¬Divides (as ++ ' ' :: bs) place.2) =
      (bs.zipIdx (as.length + 1)).filter fun place ↦ ¬Divides (as ++ ' ' :: bs) place.2 :=
    List.filter_cons_of_neg (by simpa using divides_length h)
  have hbehind : (bs.zipIdx (as.length + 1)).filter
        (fun place ↦ ¬Divides (as ++ ' ' :: bs) place.2) =
      (bs.zipIdx.filter fun place ↦ ¬Divides bs place.2).map
        fun place ↦ (place.1, as.length + 1 + place.2) := by
    rw [List.zipIdx_eq_map_add, List.filter_map]
    refine congrArg _ (List.filter_congr fun place _ ↦ decide_eq_decide.2 (not_congr ?_))
    exact divides_append_cons h
  rw [withoutDividing, List.zipIdx_append, List.filter_append, hbefore, Nat.zero_add,
    List.zipIdx_cons, hblank, hbehind, List.map_append, List.map_map]
  rfl

/-- Only dividing blanks are lost. -/
theorem flatMap_parameters (cs : List Char) :
    (parameters (String.ofList cs)).flatMap String.toList = withoutDividing cs := by
  induction cs using dividedInduction with
  | undivided cs h =>
    rw [parameters_of_undivided h, withoutDividing_of_undivided h]
    split
    · next hcs => rw [hcs]; rfl
    · simp
  | divided as bs hclosed ihas ihbs =>
    rw [parameters_append_cons hclosed, List.flatMap_append, ihas, ihbs,
      withoutDividing_append_cons hclosed]

/-- Parameters are never empty. -/
theorem ne_empty_of_mem_parameters {value text : String} (h : text ∈ parameters value) :
    text ≠ "" := by
  rw [← String.ofList_toList (s := value)] at h
  generalize value.toList = cs at h
  induction cs using dividedInduction with
  | undivided cs hcs =>
    rw [parameters_of_undivided hcs] at h
    split at h
    · cases h
    · next hne =>
      rw [List.mem_singleton.1 h]
      exact fun hempty ↦ hne (String.ofList_eq_empty_iff.1 hempty)
  | divided as bs hclosed ihas ihbs =>
    rw [parameters_append_cons hclosed, List.mem_append] at h
    exact h.elim ihas ihbs

/-- Behind a quote that is not closed nothing divides. -/
theorem Undivided.append_open (h : Undivided as) (hclosed : Even (as.count '\''))
    {rest : List Char} (hrest : '\'' ∉ rest) : Undivided (as ++ '\'' :: rest) := by
  intro i hdivides
  rcases Nat.lt_or_ge i as.length with hlt | hge
  · exact h i ((divides_append_of_lt hlt).1 hdivides)
  · obtain ⟨j, rfl⟩ := Nat.exists_eq_add_of_le hge
    obtain ⟨hblank, hquotes⟩ := (divides_append_add hclosed).1 hdivides
    cases j with
    | zero => cases hblank
    | succ j =>
      have hnone : (rest.take j).count '\'' = 0 :=
        List.count_eq_zero.2 fun hmem ↦ hrest (List.mem_of_mem_take hmem)
      rw [List.take_succ_cons, List.count_cons_self, hnone] at hquotes
      exact absurd hquotes (by decide)

/-- A quote that is not closed keeps all that follows it in one parameter. -/
theorem exists_parameters_eq_of_open (before : List Char) {rest : List Char}
    (hclosed : Even (before.count '\'')) (hrest : '\'' ∉ rest) :
    ∃ ended front, parameters (String.ofList (before ++ '\'' :: rest)) =
      ended ++ [String.ofList (front ++ '\'' :: rest)] := by
  induction before using dividedInduction with
  | undivided cs h =>
    refine ⟨[], cs, ?_⟩
    rw [parameters_of_undivided (h.append_open hclosed hrest), if_neg (by simp)]
    rfl
  | divided as bs hclosed' ihas ihbs =>
    have hbs : Even (bs.count '\'') := by
      rw [List.count_append, Nat.even_add, iff_true_left hclosed'] at hclosed
      simpa using hclosed
    obtain ⟨ended, front, heq⟩ := ihbs hbs
    refine ⟨parameters (String.ofList as) ++ ended, front, ?_⟩
    rw [List.append_assoc, List.cons_append, parameters_append_cons hclosed', heq,
      List.append_assoc]

/-! ### Parameters put into a value -/

/-- The text can be a parameter: it is not empty, its quotes are closed, and its blanks are
quoted. -/
structure IsParameter (text : String) : Prop where
  ne_empty : text ≠ ""
  closed : Even (text.toList.count '\'')
  undivided : Undivided text.toList

/-- Each text is followed by so many blanks. -/
def spaced (texts : List (String × Nat)) : List Char :=
  texts.flatMap fun text ↦ text.1.toList ++ List.replicate text.2 ' '

theorem IsParameter.parameters_eq {text : String} (h : IsParameter text) :
    parameters text = [text] := by
  have hne : text.toList ≠ [] := fun hnil ↦ h.ne_empty (String.toList_eq_nil_iff.1 hnil)
  have hread := parameters_of_undivided h.undivided
  rwa [if_neg hne, String.ofList_toList] at hread

theorem parameters_spaced {texts : List (String × Nat)}
    (htexts : ∀ text ∈ texts, IsParameter text.1) (hblanks : ∀ text ∈ texts.dropLast, 0 < text.2) :
    parameters (String.ofList (spaced texts)) = texts.map Prod.fst := by
  induction texts with
  | nil => rfl
  | cons text texts ih =>
    obtain ⟨text, blanks⟩ := text
    obtain ⟨htext, hrest⟩ := List.forall_mem_cons.1 htexts
    have hspaced : spaced ((text, blanks) :: texts) =
        text.toList ++ (List.replicate blanks ' ' ++ spaced texts) := by
      rw [spaced, List.flatMap_cons, List.append_assoc, spaced]
    rw [hspaced]
    cases blanks with
    | zero =>
      -- only behind the last text there may be no blank
      obtain rfl : texts = [] := by
        by_contra hne
        rw [List.dropLast_cons_of_ne_nil hne] at hblanks
        exact absurd (hblanks _ List.mem_cons_self) (Nat.lt_irrefl 0)
      have hlast : text.toList ++ (List.replicate 0 ' ' ++ spaced []) = text.toList := by
        simp [spaced]
      rw [hlast, String.ofList_toList, htext.parameters_eq]
      rfl
    | succ blanks =>
      have hrestBlanks : ∀ text ∈ texts.dropLast, 0 < text.2 := by
        intro text' hmem
        have hne : texts ≠ [] := by
          rintro rfl
          cases hmem
        rw [List.dropLast_cons_of_ne_nil hne] at hblanks
        exact hblanks text' (List.mem_cons_of_mem _ hmem)
      rw [List.replicate_succ, List.cons_append, parameters_append_cons htext.closed,
        parameters_replicate_append, ih hrest hrestBlanks, String.ofList_toList,
        htext.parameters_eq]
      rfl

/-- **The parameters of a value are its pieces between dividing blanks**, in order. So none is
empty, nothing but dividing blanks is lost, a quote that is not closed keeps the rest of the value
together, and texts with closed quotes that are set apart by blanks are read back. -/
theorem parameters_pieces (value : String) :
    (∃ bounds, ArePieces value.toList bounds ∧
        parameters value = bounds.map (pieceText value.toList)) ∧
      (∀ text ∈ parameters value, text ≠ "") ∧
      (parameters value).flatMap String.toList = withoutDividing value.toList ∧
      (∀ before rest, value.toList = before ++ '\'' :: rest → Even (before.count '\'') →
        '\'' ∉ rest → ∃ ended front,
          parameters value = ended ++ [String.ofList (front ++ '\'' :: rest)]) ∧
      ∀ texts : List (String × Nat), (∀ text ∈ texts, IsParameter text.1) →
        (∀ text ∈ texts.dropLast, 0 < text.2) → value.toList = spaced texts →
        parameters value = texts.map Prod.fst := by
  obtain ⟨cs, rfl⟩ : ∃ cs, value = String.ofList cs := ⟨value.toList, String.ofList_toList.symm⟩
  rw [String.toList_ofList]
  refine ⟨exists_arePieces cs, fun text ↦ ne_empty_of_mem_parameters, flatMap_parameters cs,
    ?_, ?_⟩
  · rintro before rest rfl hclosed hrest
    exact exists_parameters_eq_of_open before hclosed hrest
  · rintro texts htexts hblanks rfl
    exact parameters_spaced htexts hblanks

/-- A key with a text that is not closed, and one with a text that has blanks and a quote in it. -/
theorem parameters_pieces_command_key :
    (Even ("03  ".toList.count '\'') ∧ '\'' ∉ "Exit  now".toList ∧
      ∃ ended front, parameters "03  'Exit  now" =
        ended ++ [String.ofList (front ++ '\'' :: "Exit  now".toList)]) ∧
      (∀ text ∈ [("03", 2), ("'It''s  on'", 1), ("F3", 0)], IsParameter text.1) ∧
      parameters "03  'It''s  on' F3" = ["03", "'It''s  on'", "F3"] := by
  have hopen : '\'' ∉ "Exit  now".toList := by decide
  have htexts : ∀ text ∈ [("03", 2), ("'It''s  on'", 1), ("F3", 0)], IsParameter text.1 := by
    intro text hmem
    fin_cases hmem <;> exact ⟨by decide, by decide, by decide⟩
  refine ⟨⟨by decide, hopen, ?_⟩, htexts, ?_⟩
  · exact (parameters_pieces _).2.2.2.1 "03  ".toList _ rfl (by decide) hopen
  · exact (parameters_pieces _).2.2.2.2 _ htexts (by decide) rfl

end DisplayFile.Keyword
