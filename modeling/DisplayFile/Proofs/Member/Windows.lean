import DisplayFile.Member.Query
import DisplayFile.Proofs.Keyword.Parameters
import DisplayFile.Proofs.Member.Segments

/-!
# Windows are coherent

The three attributes of a window agree in every format of a member
(`RecordFormat.CoherentWindow`). A format is a window exactly when it has the keyword. It then has a
place of its own, or the name of a format, or neither, but never both: each form of the keyword sets
one of them, and a format starts with none. So the geometry that is found by following the names is
the screen or has an origin, in whatever way the formats borrow from each other
(`ofLines_windows_coherent`).

Two facts about parameters carry this. None is empty, so a borrowed name is one; and an origin is
never 0, since 0 leaves it to the default (`Window.one_le_origin`).
-/

namespace DisplayFile

/-! ### What is asked of a window -/

/-- The window has an origin, counted from 1. -/
def Window.Placed (w : Window) : Prop := 1 ≤ w.originRow ∧ 1 ≤ w.originColumn

/-- The attributes of the format's window agree. -/
structure RecordFormat.CoherentWindow (f : RecordFormat) : Prop where
  isWindow : f.isWindow = true ↔ ∃ k ∈ f.keywords, k.name = "WINDOW"
  absent : (∀ k ∈ f.keywords, k.name ≠ "WINDOW") →
    f.windowReference = none ∧ f.window = Window.screen
  borrowed : ∀ name, f.windowReference = some name →
    name ≠ "" ∧ f.isWindow = true ∧ f.window = Window.screen
  placed : f.window ≠ Window.screen →
    f.isWindow = true ∧ f.windowReference = none ∧ f.window.Placed

/-! ### Forms of the keyword -/

/-- A name that is borrowed from is a parameter. -/
theorem WindowForm.mem_of_ofParameters_eq_borrowed {parameters : List String} {name : String}
    (h : ofParameters parameters = .borrowed name) : name ∈ parameters := by
  match parameters with
  | [] => cases h
  | [format] =>
    cases h
    exact List.mem_singleton_self _
  | [first, second] => cases h
  | first :: second :: third :: rest =>
    -- with three parameters or more there is an origin, or nothing is recognised
    rw [ofParameters.eq_def] at h
    dsimp only at h
    split at h
    · cases h
    · cases rest <;> cases h

theorem Window.one_le_defaultOrigin : 1 ≤ Window.defaultOrigin := by decide

theorem Window.one_le_origin (parameter : String) : 1 ≤ Window.origin parameter := by
  rw [Window.origin]
  split
  · next n _ =>
    split
    · exact one_le_defaultOrigin
    · next hn =>
      rw [UInt32.le_iff_toNat_le]
      exact Nat.one_le_iff_ne_zero.2 fun hzero ↦ hn (UInt32.toNat_inj.1 hzero)
  · exact one_le_defaultOrigin

/-! ### Settled windows -/

namespace RecordFormat

/-- A form is that of a keyword, whose parameters it is read from. -/
theorem exists_keyword_of_windowForm? {f : RecordFormat} {form : WindowForm}
    (h : f.windowForm? = some form) :
    ∃ k ∈ f.keywords, k.name = "WINDOW" ∧
      form = WindowForm.ofParameters (Keyword.parameters (k.value.getD "")) := by
  obtain ⟨k, hk, rfl⟩ := Option.map_eq_some_iff.1 h
  rw [keyword?] at hk
  exact ⟨k, List.mem_of_find?_eq_some hk, by simpa using List.find?_some hk, rfl⟩

/-- A window that borrows from no other is coherent when it is the screen or has an origin. -/
theorem CoherentWindow.of_own {f : RecordFormat} (hkeyword : ∃ k ∈ f.keywords, k.name = "WINDOW")
    (hwindow : f.isWindow = true) (hreference : f.windowReference = none)
    (hplace : f.window = Window.screen ∨ f.window.Placed) : f.CoherentWindow where
  isWindow := iff_of_true hwindow hkeyword
  absent h := by
    obtain ⟨k, hk, hname⟩ := hkeyword
    exact absurd hname (h k hk)
  borrowed name h := by
    rw [hreference] at h
    cases h
  placed h := ⟨hwindow, hreference, hplace.resolve_left h⟩

/-- **Settling the window of a format that has none makes it coherent**, in one case for each form
of the keyword. -/
theorem coherentWindow_resolveWindow {f : RecordFormat} (hwindow : f.isWindow = false)
    (hreference : f.windowReference = none) (hscreen : f.window = Window.screen) :
    f.resolveWindow.CoherentWindow := by
  rw [resolveWindow]
  cases hform : f.windowForm? with
  | none =>
    have hnone := windowForm?_eq_none_iff.1 hform
    refine ⟨?_, fun _ ↦ ⟨hreference, hscreen⟩, fun name h ↦ ?_, fun h ↦ absurd hscreen h⟩
    · rw [hwindow]
      refine iff_of_false Bool.false_ne_true ?_
      rintro ⟨k, hk, hname⟩
      exact hnone k hk hname
    · rw [hreference] at h
      cases h
  | some form =>
    obtain ⟨k, hk, hname, hparameters⟩ := exists_keyword_of_windowForm? hform
    cases form with
    | sized rows columns =>
      exact .of_own ⟨k, hk, hname⟩ rfl hreference
        (.inr ⟨Window.one_le_defaultOrigin, Window.one_le_defaultOrigin⟩)
    | placed row column rows columns =>
      exact .of_own ⟨k, hk, hname⟩ rfl hreference
        (.inr ⟨Window.one_le_origin row, Window.one_le_origin column⟩)
    | borrowed name =>
      have hmem := WindowForm.mem_of_ofParameters_eq_borrowed hparameters.symm
      refine ⟨iff_of_true rfl ⟨k, hk, hname⟩, fun h ↦ absurd hname (h k hk), ?_,
        fun h ↦ absurd hscreen h⟩
      rintro name' ⟨⟩
      exact ⟨Keyword.ne_empty_of_mem_parameters hmem, rfl, hscreen⟩
    | unrecognised => exact .of_own ⟨k, hk, hname⟩ rfl hreference (.inl hscreen)

/-- The window of a coherent format is the screen or has an origin. -/
theorem CoherentWindow.eq_screen_or_placed {f : RecordFormat} (h : f.CoherentWindow) :
    f.window = Window.screen ∨ f.window.Placed := by
  by_cases hscreen : f.window = Window.screen
  · exact .inl hscreen
  · exact .inr (h.placed hscreen).2.2

end RecordFormat

/-! ### Borrowed windows -/

namespace Member

theorem mem_of_format? {m : Member} {name : String} {f : RecordFormat}
    (h : m.format? name = some f) : f ∈ m.formats :=
  List.mem_of_find?_eq_some h

/-- A format that borrows no window has its own. -/
theorem borrowedWindow_of_eq_none {f : RecordFormat} (h : f.windowReference = none) (m : Member)
    (first : String) (bound : Nat) : m.borrowedWindow first bound f = .ok f.window := by
  rw [borrowedWindow.eq_def]
  dsimp only
  rw [h]

/-- A format that borrows a window sends the search on to the format of that name. -/
theorem borrowedWindow_succ_of_format?_eq_some {m : Member} {f next : RecordFormat}
    {reference : String} (h : f.windowReference = some reference)
    (hnext : m.format? reference = some next) (first : String) (bound : Nat) :
    m.borrowedWindow first (bound + 1) f = m.borrowedWindow first bound next := by
  rw [borrowedWindow.eq_def]
  dsimp only
  rw [h]
  dsimp only
  rw [hnext]

/-- The search fails at a format that borrows the window of one that is not there. -/
theorem borrowedWindow_succ_of_format?_eq_none {m : Member} {f : RecordFormat}
    {reference : String} (h : f.windowReference = some reference)
    (hnext : m.format? reference = none) (first : String) (bound : Nat) :
    m.borrowedWindow first (bound + 1) f = .error (.windowNotFound f.name reference) := by
  rw [borrowedWindow.eq_def]
  dsimp only
  rw [h]
  dsimp only
  rw [hnext]

/-- The search does not go on for ever. -/
theorem borrowedWindow_zero_of_eq_some {f : RecordFormat} {reference : String}
    (h : f.windowReference = some reference) (m : Member) (first : String) :
    m.borrowedWindow first 0 f = .error (.windowCycle first) := by
  rw [borrowedWindow, h]

/-- A window that is found by going from format to format is that of one of them. -/
theorem exists_format_of_borrowedWindow {m : Member} {first : String} {bound : Nat}
    {f : RecordFormat} (hf : f ∈ m.formats) {w : Window}
    (h : m.borrowedWindow first bound f = .ok w) : ∃ g ∈ m.formats, g.window = w := by
  induction bound generalizing f with
  | zero =>
    rcases hreference : f.windowReference with - | reference
    · rw [borrowedWindow_of_eq_none hreference] at h
      exact ⟨f, hf, Except.ok.inj h⟩
    · rw [borrowedWindow_zero_of_eq_some hreference] at h
      cases h
  | succ bound ih =>
    rcases hreference : f.windowReference with - | reference
    · rw [borrowedWindow_of_eq_none hreference] at h
      exact ⟨f, hf, Except.ok.inj h⟩
    · rcases hnext : m.format? reference with - | next
      · rw [borrowedWindow_succ_of_format?_eq_none hreference hnext] at h
        cases h
      · rw [borrowedWindow_succ_of_format?_eq_some hreference hnext] at h
        exact ih (mem_of_format? hnext) h

theorem exists_format_of_window {m : Member} {name : String} {w : Window}
    (h : m.window name = .ok w) : ∃ g ∈ m.formats, g.window = w := by
  rw [window, format] at h
  cases hf : m.format? name with
  | none =>
    rw [hf] at h
    cases h
  | some f =>
    rw [hf] at h
    exact exists_format_of_borrowedWindow (mem_of_format? hf) h

end Member

/-- **The windows of a member are coherent**, and a geometry that is found for a format, its own or
borrowed, is the screen or has an origin. -/
theorem ofLines_windows_coherent (texts : List String) :
    (∀ f ∈ (Member.ofLines texts).formats, f.CoherentWindow) ∧
      ∀ name w, (Member.ofLines texts).window name = .ok w → w = Window.screen ∨ w.Placed := by
  have hformats : ∀ f ∈ (Member.ofLines texts).formats, f.CoherentWindow := by
    intro f hf
    obtain ⟨s, -, n, rfl⟩ := exists_segment_of_mem_formats hf
    exact RecordFormat.coherentWindow_resolveWindow rfl rfl rfl
  refine ⟨hformats, fun name w hw ↦ ?_⟩
  obtain ⟨g, hg, rfl⟩ := Member.exists_format_of_window hw
  exact (hformats g hg).eq_screen_or_placed

/-- A format that borrows the window of another one, whose origin has a row of 0. -/
theorem ofLines_windows_coherent_borrowed :
    let m := Member.ofLines
      ["     A          R POPUP                     WINDOW(0 5 10 40)",
       "     A          R SHARED                    WINDOW(POPUP)"]
    m.window "SHARED" =
        .ok { originRow := 2, originColumn := 5, width := 40, height := 10 } ∧
      Window.Placed { originRow := 2, originColumn := 5, width := 40, height := 10 } := by
  intro m
  have hwindow : m.window "SHARED" =
      .ok { originRow := 2, originColumn := 5, width := 40, height := 10 } := by decide +kernel
  refine ⟨hwindow, ?_⟩
  exact ((ofLines_windows_coherent _).2 "SHARED" _ hwindow).resolve_left (by decide)

end DisplayFile
