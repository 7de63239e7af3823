import Mathlib.Data.List.Basic

/-!
# Lists cut before their marked elements

A list in which some elements are marked falls into a lead, which stands before the first marked
element, and one part for each marked element, which runs up to the next one. A member falls in this
way into segments, cut before its record lines, and the layout of a segment into runs, cut before
the entries that open a field.

The cut is characterised by three facts: the sections join to the list (`join_cut`), the parts start
with the marked elements in order (`heads_cut`), and nothing else in them is marked
(`not_marked_of_mem_lead`, `not_marked_of_mem_part`). `cut_join` is the converse: sections with
these properties are the cut of the list they join to.
-/

namespace DisplayFile

/-- A list cut before its marked elements. -/
structure Sections (α : Type) where
  /-- What stands before the first marked element. -/
  lead : List α
  /-- The marked elements, each with what follows it up to the next one. -/
  parts : List (α × List α)

namespace Sections

variable {α β : Type} (marked : α → Bool)

/-- Cut a list before its marked elements. -/
def cut : List α → Sections α
  | [] => ⟨[], []⟩
  | x :: xs =>
    let rest := cut xs
    if marked x then ⟨[], (x, rest.lead) :: rest.parts⟩
    else ⟨x :: rest.lead, rest.parts⟩

/-- The list that a row of parts makes up. -/
def joinParts (parts : List (α × List α)) : List α :=
  parts.flatMap fun part ↦ part.1 :: part.2

/-- The list that was cut. -/
def join (s : Sections α) : List α := s.lead ++ joinParts s.parts

/-- Every element is replaced. -/
def map (f : α → β) (s : Sections α) : Sections β :=
  ⟨s.lead.map f, s.parts.map fun part ↦ (f part.1, part.2.map f)⟩

/-- Only some elements are kept, besides those that head the parts. -/
def filter (kept : α → Bool) (s : Sections α) : Sections α :=
  ⟨s.lead.filter kept, s.parts.map fun part ↦ (part.1, part.2.filter kept)⟩

/-- The sections are a cut: exactly the elements that head the parts are marked. -/
structure IsCut (s : Sections α) : Prop where
  lead : ∀ x ∈ s.lead, marked x = false
  heads : ∀ part ∈ s.parts, marked part.1 = true
  bodies : ∀ part ∈ s.parts, ∀ x ∈ part.2, marked x = false

variable {marked}

@[simp] theorem cut_nil : cut marked [] = ⟨[], []⟩ := rfl

theorem cut_cons_of_marked {x : α} (h : marked x = true) (xs : List α) :
    cut marked (x :: xs) = ⟨[], (x, (cut marked xs).lead) :: (cut marked xs).parts⟩ := by
  rw [cut, if_pos h]

theorem cut_cons_of_not_marked {x : α} (h : marked x = false) (xs : List α) :
    cut marked (x :: xs) = ⟨x :: (cut marked xs).lead, (cut marked xs).parts⟩ := by
  rw [cut, if_neg (by simp [h])]

@[simp] theorem joinParts_nil : joinParts ([] : List (α × List α)) = [] := rfl

@[simp] theorem joinParts_cons (x : α) (body : List α) (parts : List (α × List α)) :
    joinParts ((x, body) :: parts) = x :: (body ++ joinParts parts) := rfl

/-! ### What a cut is -/

/-- Nothing is lost, repeated or moved by cutting. -/
theorem join_cut (xs : List α) : (cut marked xs).join = xs := by
  induction xs with
  | nil => rfl
  | cons x xs ih =>
    cases h : marked x with
    | true =>
      rw [cut_cons_of_marked h]
      exact congrArg (x :: ·) ih
    | false =>
      rw [cut_cons_of_not_marked h]
      exact congrArg (x :: ·) ih

/-- The parts start with the marked elements, in order. -/
theorem heads_cut (xs : List α) : (cut marked xs).parts.map Prod.fst = xs.filter marked := by
  induction xs with
  | nil => rfl
  | cons x xs ih =>
    cases h : marked x with
    | true => rw [cut_cons_of_marked h, List.map_cons, ih, List.filter_cons_of_pos h]
    | false => rw [cut_cons_of_not_marked h, List.filter_cons_of_neg (by simp [h])]; exact ih

theorem isCut_cut (xs : List α) : IsCut marked (cut marked xs) := by
  induction xs with
  | nil => exact ⟨by simp, by simp, by simp⟩
  | cons x xs ih =>
    cases h : marked x with
    | true =>
      rw [cut_cons_of_marked h]
      refine ⟨by simp, ?_, ?_⟩
      · exact List.forall_mem_cons.2 ⟨h, ih.heads⟩
      · exact List.forall_mem_cons.2 ⟨ih.lead, ih.bodies⟩
    | false =>
      rw [cut_cons_of_not_marked h]
      exact ⟨List.forall_mem_cons.2 ⟨h, ih.lead⟩, ih.heads, ih.bodies⟩

/-- Sections stay a cut when their elements are marked in another way that agrees on them. -/
theorem IsCut.congr {marked' : α → Bool} {s : Sections α} (h : IsCut marked s)
    (heq : ∀ x ∈ s.join, marked x = marked' x) : IsCut marked' s := by
  have hpart : ∀ part ∈ s.parts, ∀ x ∈ part.1 :: part.2, x ∈ s.join := fun part hpart x hx ↦
    List.mem_append_right s.lead (List.mem_flatMap.2 ⟨part, hpart, hx⟩)
  refine ⟨fun x hx ↦ ?_, fun part hp ↦ ?_, fun part hp x hx ↦ ?_⟩
  · rw [← heq x (List.mem_append_left _ hx)]
    exact h.lead x hx
  · rw [← heq part.1 (hpart part hp _ List.mem_cons_self)]
    exact h.heads part hp
  · rw [← heq x (hpart part hp x (List.mem_cons_of_mem _ hx))]
    exact h.bodies part hp x hx

/-! ### Cutting what is joined -/

/-- Elements that are not marked lengthen the lead. -/
theorem cut_append_of_not_marked {xs : List α} (h : ∀ x ∈ xs, marked x = false) (ys : List α) :
    cut marked (xs ++ ys) = ⟨xs ++ (cut marked ys).lead, (cut marked ys).parts⟩ := by
  induction xs with
  | nil => rfl
  | cons x xs ih =>
    obtain ⟨hx, hxs⟩ := List.forall_mem_cons.1 h
    rw [List.cons_append, cut_cons_of_not_marked hx, ih hxs]
    rfl

/-- Before a marked element the cut of a list does not depend on what follows. -/
theorem cut_append_of_lead_eq_nil {ys : List α} (h : (cut marked ys).lead = []) (xs : List α) :
    cut marked (xs ++ ys) =
      ⟨(cut marked xs).lead, (cut marked xs).parts ++ (cut marked ys).parts⟩ := by
  induction xs with
  | nil => rw [List.nil_append, cut_nil, ← h]; rfl
  | cons x xs ih =>
    cases hx : marked x with
    | true => rw [List.cons_append, cut_cons_of_marked hx, cut_cons_of_marked hx, ih]; rfl
    | false => rw [List.cons_append, cut_cons_of_not_marked hx, cut_cons_of_not_marked hx, ih]

/-- Sections in which just the heads are marked are the cut of what they join to. -/
theorem cut_join {s : Sections α} (h : IsCut marked s) : cut marked s.join = s := by
  obtain ⟨lead, parts⟩ := s
  have hparts : cut marked (joinParts parts) = ⟨[], parts⟩ := by
    have hheads := h.heads
    have hbodies := h.bodies
    clear h
    induction parts with
    | nil => rfl
    | cons part parts ih =>
      obtain ⟨hhead, hheads⟩ := List.forall_mem_cons.1 hheads
      obtain ⟨hbody, hbodies⟩ := List.forall_mem_cons.1 hbodies
      rw [joinParts_cons, cut_cons_of_marked hhead, cut_append_of_not_marked hbody,
        ih hheads hbodies, List.append_nil]
  rw [join, cut_append_of_not_marked h.lead, hparts, List.append_nil]

/-- Elements that are not marked can be left out before or after cutting. -/
theorem cut_filter {kept : α → Bool} (h : ∀ x, marked x = true → kept x = true) (xs : List α) :
    cut marked (xs.filter kept) = (cut marked xs).filter kept := by
  induction xs with
  | nil => rfl
  | cons x xs ih =>
    cases hx : marked x with
    | true =>
      rw [List.filter_cons_of_pos (h x hx), cut_cons_of_marked hx, cut_cons_of_marked hx, ih]
      rfl
    | false =>
      rw [cut_cons_of_not_marked hx, filter]
      cases hkept : kept x with
      | true =>
        rw [List.filter_cons_of_pos hkept, cut_cons_of_not_marked hx, ih,
          List.filter_cons_of_pos hkept]
        rfl
      | false =>
        have hdrop : ¬kept x = true := by simp [hkept]
        rw [List.filter_cons_of_neg hdrop, ih, List.filter_cons_of_neg hdrop]
        rfl

/-- Marks that only depend on images are the same before and after mapping. -/
theorem cut_map (f : β → α) (xs : List β) :
    cut marked (xs.map f) = (cut (fun x ↦ marked (f x)) xs).map f := by
  induction xs with
  | nil => rfl
  | cons x xs ih =>
    cases h : marked (f x) with
    | true => rw [List.map_cons, cut_cons_of_marked h, cut_cons_of_marked (by exact h), ih]; rfl
    | false =>
      rw [List.map_cons, cut_cons_of_not_marked h, cut_cons_of_not_marked (by exact h), ih]; rfl

end Sections

end DisplayFile
