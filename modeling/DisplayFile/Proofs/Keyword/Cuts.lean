import DisplayFile.Proofs.Keyword.LineEnds

/-!
# Lines cut in two

A line of keyword text that grows too long is cut, and a sign at the end of its first half says that
it continues. Inside brackets and inside a quoted constant the place of the cut does not matter:
the text on both sides of it is read like the line that was not cut, whatever stands around it
(`resolve_cut`).

Three things could go wrong there and do not. The sign is not content, as it is the last character
of its line and nothing else is dropped for it (`withoutContinuation_append`). The end of the line
is not content either, and ends nothing that is open (`Scan.InLiteral.endLine_eq`). And the two
halves have the zone of the line, so that a keyword keeps its conditions.

A scan behind a quote that may close its constant is not inside it. There the constant has ended, or
else the cut would separate the two quotes that stand for an apostrophe, and then it does matter.
-/

namespace DisplayFile.Keyword

/-- A text is continued when the last part of it is. -/
theorem withoutContinuation_append (front : List Char) {back : List Char} (h : back ≠ []) :
    withoutContinuation (front ++ back) = front ++ withoutContinuation back := by
  have hlast : (front ++ back).getLast? = back.getLast? := List.getLast?_append_of_ne_nil front h
  rw [withoutContinuation, withoutContinuation, hlast]
  split
  · exact List.dropLast_append_of_ne_nil h
  · rfl

namespace Scan

variable {α : Type}

/-- The scan is inside brackets or inside a quoted constant. -/
inductive InLiteral (s : Scan α) : Prop where
  | bracketed (depth : Nat) (mode : s.mode = .bracketed depth)
  | quoted (mode : s.mode = .quoted)

/-- The end of a line adds nothing to what is open, and ends nothing. -/
theorem InLiteral.endLine_eq {s : Scan α} (h : s.InLiteral) (stamp : α) : s.endLine stamp = s := by
  cases h with
  | bracketed depth mode => rw [endLine, mode]
  | quoted mode => rw [endLine, mode]

/-- **A line that is cut in a literal is read as the whole line**, by a scan in any state. -/
theorem line_cut (s : Scan α) {front back : String} {sign : Char} (stamp : α)
    (hback : back ≠ "") (hsign : isSign sign = true)
    (hcut : (s.chars stamp front.toList).InLiteral) :
    (s.line (front.push sign) stamp).line back stamp = s.line (front ++ back) stamp := by
  have hfirst : s.line (front.push sign) stamp = s.chars stamp front.toList := by
    rw [line, String.toList_push, withoutContinuation_concat hsign, hcut.endLine_eq]
  have hne : back.toList ≠ [] := fun h ↦ hback (String.toList_eq_nil_iff.1 h)
  calc (s.line (front.push sign) stamp).line back stamp
      = ((s.chars stamp front.toList).chars stamp (withoutContinuation back.toList)).endLine
          stamp := by rw [hfirst, line]
    _ = (s.chars stamp (front.toList ++ withoutContinuation back.toList)).endLine stamp := by
          rw [chars_append]
    _ = s.line (front ++ back) stamp := by
          rw [line, String.toList_append, withoutContinuation_append _ hne]

end Scan

/-- The scan of the lines of a keyword area. -/
def scanArea (area : List Line) : Scan String :=
  Scan.lines {} (area.map fun l ↦ (l.text, l.zone))

theorem scanArea_append (front back : List Line) :
    scanArea (front ++ back) = (scanArea front).lines (back.map fun l ↦ (l.text, l.zone)) := by
  rw [scanArea, List.map_append, Scan.lines_append, scanArea]

/-- What a keyword area says depends on the scans of its parts only. -/
theorem resolve_append_of_scanArea_eq {front front' : List Line}
    (h : scanArea front = scanArea front') (back : List Line) :
    resolve (front ++ back) = resolve (front' ++ back) := by
  have hscan : scanArea (front ++ back) = scanArea (front' ++ back) := by
    rw [scanArea_append, scanArea_append, h]
  simp only [scanArea] at hscan
  rw [resolve, resolve, hscan]

/-- **A line can be cut anywhere inside a literal.** The line, and the lines in front of it and
behind it, need not be well formed. -/
theorem resolve_cut {before after : List Line} {front back zone : String} {sign : Char}
    (hback : back ≠ "") (hsign : isSign sign = true)
    (hcut : ((scanArea before).chars zone front.toList).InLiteral) :
    resolve (before ++ [⟨front.push sign, zone⟩, ⟨back, zone⟩] ++ after) =
      resolve (before ++ [⟨front ++ back, zone⟩] ++ after) := by
  refine resolve_append_of_scanArea_eq ?_ after
  rw [scanArea_append, scanArea_append]
  exact Scan.line_cut (scanArea before) zone hback hsign hcut

/-- A value that is cut behind a sign of its own, after a line that leaves its bracket open. -/
theorem resolve_cut_behind_sign :
    let before : List Line := [⟨"COLOR(RED) TITLE(1", "  01      "⟩]
    let front := "+"
    let zone := " N02      "
    ("2)" ≠ "" ∧ isSign '-' = true ∧ ((scanArea before).chars zone front.toList).InLiteral) ∧
      resolve (before ++ [⟨front.push '-', zone⟩, ⟨"2)", zone⟩] ++ [⟨"BLINK", ""⟩]) =
        resolve (before ++ [⟨front ++ "2)", zone⟩] ++ [⟨"BLINK", ""⟩]) := by
  intro before front zone
  have hback : "2)" ≠ "" := by decide
  have hcut : ((scanArea before).chars zone front.toList).InLiteral := .bracketed 0 (by decide)
  exact ⟨⟨hback, rfl, hcut⟩, resolve_cut hback rfl hcut⟩

/-- Between the two quotes of an apostrophe a cut is seen. -/
example : resolve [⟨"'I'-", ""⟩, ⟨"'M'", ""⟩] ≠ resolve [⟨"'I''M'", ""⟩] := by
  decide

end DisplayFile.Keyword
