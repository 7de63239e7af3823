import DisplayFile.Member.Window
import DisplayFile.Proofs.Text.Decimal

/-!
# Settling a window

Settling the window of a format touches nothing but its window, and settling it again changes
nothing. This holds of any format, with any keywords and with any window that it had before.

**What can change** is read off the parameters of the first keyword `WINDOW`
(`RecordFormat.SettledBy`). One parameter is a name to borrow from. A size is asked for in two ways
(`WindowForm.AsksSize`), and each of its dimensions is the number that is written, or stays as it
was where the parameter is no number (`Window.Sets`). As the same parameters are read again, a
dimension that was set is set to the same number, and one that was kept is kept once more
(`withForm_withForm`).
-/

namespace DisplayFile

/-! ### What settling leaves alone -/

namespace RecordFormat

/-- Settling a window changes nothing but the window. -/
theorem resolveWindow_eq (f : RecordFormat) :
    f.resolveWindow =
      { f with
        isWindow := f.resolveWindow.isWindow
        windowReference := f.resolveWindow.windowReference
        window := f.resolveWindow.window } := by
  rw [resolveWindow]
  rcases f.windowForm? with - | (_ | _ | _ | _) <;> rfl

@[simp] theorem name_resolveWindow (f : RecordFormat) : f.resolveWindow.name = f.name := by
  rw [resolveWindow_eq]

@[simp] theorem lines_resolveWindow (f : RecordFormat) : f.resolveWindow.lines = f.lines := by
  rw [resolveWindow_eq]

@[simp] theorem keywords_resolveWindow (f : RecordFormat) :
    f.resolveWindow.keywords = f.keywords := by
  rw [resolveWindow_eq]

@[simp] theorem fields_resolveWindow (f : RecordFormat) : f.resolveWindow.fields = f.fields := by
  rw [resolveWindow_eq]

/-- A window does not depend on where its format stands or which fields it has. -/
theorem resolveWindow_with (f : RecordFormat) (lines : LineRange) (fields : List Field) :
    ({ f with lines, fields } : RecordFormat).resolveWindow =
      { f.resolveWindow with lines, fields } := by
  have hform : ({ f with lines, fields } : RecordFormat).windowForm? = f.windowForm? := rfl
  rw [resolveWindow, resolveWindow, hform]
  rcases f.windowForm? with - | (_ | _ | _ | _) <;> rfl

end RecordFormat

/-! ### What settling changes -/

/-- The parameters ask for a size: they are at least three and start with the default origin, or at
least four and start with an origin in rows and columns. -/
inductive WindowForm.AsksSize : List String → String → String → Prop where
  | sized {first rows columns : String} {rest : List String} (h : isDefaultOrigin first = true) :
      AsksSize (first :: rows :: columns :: rest) rows columns
  | placed {row column rows columns : String} {rest : List String}
      (h : isDefaultOrigin row = false) :
      AsksSize (row :: column :: rows :: columns :: rest) rows columns

/-- The parameter takes a dimension from one number to another: to the number that it is, or nowhere
when it is no number below 2³². -/
structure Window.Sets (parameter : String) (before after : UInt32) : Prop where
  number : ∀ n < UInt32.size, Text.Denotes parameter n → after.toNat = n
  kept : (∀ n < UInt32.size, ¬Text.Denotes parameter n) → after = before

/-- The second format is the first one with its window settled by the parameters of the keyword. -/
structure RecordFormat.SettledBy (parameters : List String) (f g : RecordFormat) : Prop where
  isWindow : g.isWindow = true
  borrowed : ∀ name, parameters = [name] → g.windowReference = some name
  size : ∀ rows columns, WindowForm.AsksSize parameters rows columns →
    Window.Sets rows f.window.height g.window.height ∧
      Window.Sets columns f.window.width g.window.width
  reference_kept : (∀ name, parameters ≠ [name]) → g.windowReference = f.windowReference
  window_kept : (∀ rows columns, ¬WindowForm.AsksSize parameters rows columns) →
    g.window = f.window
  one_kept : g.windowReference = f.windowReference ∨ g.window = f.window

theorem Window.sets_getD (parameter : String) (before : UInt32) :
    Sets parameter before ((Text.number? parameter).getD before) := by
  constructor
  · intro n hlt hdenotes
    have hnumber : Text.number? parameter = some (UInt32.ofNat n) :=
      Text.number?_eq_some_iff.2 (by rwa [UInt32.toNat_ofNat_of_lt' hlt])
    rw [hnumber, Option.getD_some, UInt32.toNat_ofNat_of_lt' hlt]
  · intro hnone
    rw [Text.number?_eq_none_iff.2 hnone, Option.getD_none]

/-- There is one way to read a size off parameters. -/
theorem WindowForm.AsksSize.unique {parameters : List String} {rows columns rows' columns' : String}
    (h : AsksSize parameters rows columns) (h' : AsksSize parameters rows' columns') :
    rows' = rows ∧ columns' = columns := by
  cases h with
  | sized hdefault =>
    cases h' with
    | sized => exact ⟨rfl, rfl⟩
    | placed horigin => exact absurd (hdefault.symm.trans horigin) (by decide)
  | placed horigin =>
    cases h' with
    | sized hdefault => exact absurd (hdefault.symm.trans horigin) (by decide)
    | placed => exact ⟨rfl, rfl⟩

namespace RecordFormat

variable {f : RecordFormat}

/-- Parameters that are no name and ask for no size make a window of the format, and no more. -/
theorem SettledBy.of_unrecognised {parameters : List String}
    (hname : ∀ name, parameters ≠ [name])
    (hsize : ∀ rows columns, ¬WindowForm.AsksSize parameters rows columns) :
    f.SettledBy parameters { f with isWindow := true } where
  isWindow := rfl
  borrowed name h := absurd h (hname name)
  size rows columns h := absurd h (hsize rows columns)
  reference_kept _ := rfl
  window_kept _ := rfl
  one_kept := .inl rfl

/-- A name is borrowed from, and the window is kept. -/
theorem SettledBy.of_name (name : String) :
    f.SettledBy [name] { f with isWindow := true, windowReference := some name } where
  isWindow := rfl
  borrowed
    | _, rfl => rfl
  size _ _ h := nomatch h
  reference_kept h := absurd rfl (h name)
  window_kept _ := rfl
  one_kept := .inr rfl

/-- A size is taken from its parameters, and nothing is borrowed. -/
theorem SettledBy.of_size {parameters : List String} {rows columns : String}
    (h : WindowForm.AsksSize parameters rows columns) (row column : UInt32) :
    f.SettledBy parameters
      { f with
        isWindow := true
        window :=
          { originRow := row
            originColumn := column
            height := (Text.number? rows).getD f.window.height
            width := (Text.number? columns).getD f.window.width } } where
  isWindow := rfl
  borrowed name hname := by
    rw [hname] at h
    cases h
  size rows' columns' h' := by
    obtain ⟨rfl, rfl⟩ := h.unique h'
    exact ⟨Window.sets_getD _ _, Window.sets_getD _ _⟩
  reference_kept _ := rfl
  window_kept hsize := absurd h (hsize rows columns)
  one_kept := .inl rfl

/-- **Each form does what its parameters say**, in one case for each number of them. -/
theorem settledBy_withForm (f : RecordFormat) (parameters : List String) :
    f.SettledBy parameters
      { f.withForm (WindowForm.ofParameters parameters) with isWindow := true } := by
  match parameters with
  | [] => exact .of_unrecognised (fun _ h ↦ nomatch h) fun _ _ h ↦ nomatch h
  | [name] => exact .of_name name
  | [first, second] => exact .of_unrecognised (fun _ h ↦ nomatch h) fun _ _ h ↦ nomatch h
  | first :: second :: third :: rest =>
    cases hdefault : WindowForm.isDefaultOrigin first with
    | true =>
      have hform : WindowForm.ofParameters (first :: second :: third :: rest) =
          .sized second third := if_pos hdefault
      rw [hform]
      exact .of_size (.sized hdefault) _ _
    | false =>
      have hnot : ¬WindowForm.isDefaultOrigin first = true := by simp [hdefault]
      cases rest with
      | nil =>
        have hform : WindowForm.ofParameters [first, second, third] = .unrecognised := if_neg hnot
        rw [hform]
        refine .of_unrecognised (fun _ h ↦ nomatch h) ?_
        rintro rows columns (h | -)
        exact hnot h
      | cons fourth rest =>
        have hform : WindowForm.ofParameters (first :: second :: third :: fourth :: rest) =
            .placed first second third fourth := if_neg hnot
        rw [hform]
        exact .of_size (.placed hdefault) _ _

/-- Doing twice what a form asks for is doing it once. -/
theorem withForm_withForm (f : RecordFormat) (form : WindowForm) :
    (f.withForm form).withForm form = f.withForm form := by
  cases form with
  | sized rows columns =>
    simp only [withForm]
    cases Text.number? rows <;> cases Text.number? columns <;> rfl
  | placed row column rows columns =>
    simp only [withForm]
    cases Text.number? rows <;> cases Text.number? columns <;> rfl
  | borrowed | unrecognised => rfl

/-- A form does not depend on whether the format was a window before. -/
theorem withForm_with_isWindow (f : RecordFormat) (form : WindowForm) (isWindow : Bool) :
    ({ f with isWindow } : RecordFormat).withForm form = { f.withForm form with isWindow } := by
  cases form <;> rfl

/-! ### The first keyword -/

theorem windowForm?_eq_none_iff {f : RecordFormat} :
    f.windowForm? = none ↔ ∀ k ∈ f.keywords, k.name ≠ "WINDOW" := by
  simp [windowForm?, keyword?]

/-- The first keyword says where the window is. -/
theorem windowForm?_of_first {before after : List Keyword} {k : Keyword}
    (hkeywords : f.keywords = before ++ k :: after) (hbefore : ∀ k' ∈ before, k'.name ≠ "WINDOW")
    (hk : k.name = "WINDOW") :
    f.windowForm? = some (WindowForm.ofParameters (Keyword.parameters (k.value.getD ""))) := by
  have hnone : before.find? (fun k' ↦ k'.name = "WINDOW") = none :=
    List.find?_eq_none.2 fun k' hk' ↦ by simpa using hbefore k' hk'
  have hfirst : f.keyword? "WINDOW" = some k := by
    rw [keyword?, hkeywords, List.find?_append, hnone, Option.none_or,
      List.find?_cons_of_pos (by simpa using hk)]
  rw [windowForm?, hfirst, Option.map_some]

theorem windowForm?_resolveWindow (f : RecordFormat) :
    f.resolveWindow.windowForm? = f.windowForm? := by
  rw [windowForm?, keyword?, keywords_resolveWindow, windowForm?, keyword?]

theorem resolveWindow_of_windowForm?_eq_none (h : f.windowForm? = none) :
    f.resolveWindow = f := by
  rw [resolveWindow, h]

theorem resolveWindow_of_windowForm?_eq_some {form : WindowForm} (h : f.windowForm? = some form) :
    f.resolveWindow = { f.withForm form with isWindow := true } := by
  rw [resolveWindow, h]

/-- A window depends on no keywords but the one that says where it is. -/
theorem resolveWindow_with_keywords {keywords : List Keyword}
    (h : ({ f with keywords } : RecordFormat).windowForm? = f.windowForm?) :
    ({ f with keywords } : RecordFormat).resolveWindow = { f.resolveWindow with keywords } := by
  rw [resolveWindow, resolveWindow, h]
  rcases f.windowForm? with - | (_ | _ | _ | _) <;> rfl

/-- Settling a settled window changes nothing. -/
theorem resolveWindow_resolveWindow (f : RecordFormat) :
    f.resolveWindow.resolveWindow = f.resolveWindow := by
  have hform := f.windowForm?_resolveWindow
  cases h : f.windowForm? with
  | none => rw [resolveWindow_of_windowForm?_eq_none (hform.trans h)]
  | some form =>
    rw [resolveWindow_of_windowForm?_eq_some (hform.trans h),
      resolveWindow_of_windowForm?_eq_some h, withForm_with_isWindow, withForm_withForm]

end RecordFormat

/-- **Settling a window is done once, and touches the window only.** Without the keyword nothing
changes. With it, its first occurrence decides alone, and changes what its parameters say: the name
of a format or the size, and of the size only what is a number. -/
theorem resolveWindow_settles (f : RecordFormat) :
    f.resolveWindow.resolveWindow = f.resolveWindow ∧
      (f.resolveWindow.name = f.name ∧ f.resolveWindow.lines = f.lines ∧
        f.resolveWindow.keywords = f.keywords ∧ f.resolveWindow.fields = f.fields) ∧
      ((∀ k ∈ f.keywords, k.name ≠ "WINDOW") → f.resolveWindow = f) ∧
      ∀ before k after, f.keywords = before ++ k :: after →
        (∀ k' ∈ before, k'.name ≠ "WINDOW") → k.name = "WINDOW" →
        ({ f with keywords := [k] } : RecordFormat).resolveWindow =
            { f.resolveWindow with keywords := [k] } ∧
          f.SettledBy (Keyword.parameters (k.value.getD "")) f.resolveWindow := by
  refine ⟨f.resolveWindow_resolveWindow, ⟨f.name_resolveWindow, f.lines_resolveWindow,
    f.keywords_resolveWindow, f.fields_resolveWindow⟩, fun hnone ↦ ?_, ?_⟩
  · exact RecordFormat.resolveWindow_of_windowForm?_eq_none
      (RecordFormat.windowForm?_eq_none_iff.2 hnone)
  · intro before k after hkeywords hbefore hk
    have hform := RecordFormat.windowForm?_of_first hkeywords hbefore hk
    have halone : ({ f with keywords := [k] } : RecordFormat).windowForm? = f.windowForm? := by
      have hkeywords' : ({ f with keywords := [k] } : RecordFormat).keywords = [] ++ k :: [] := rfl
      rw [hform, RecordFormat.windowForm?_of_first hkeywords' (by simp) hk]
    refine ⟨RecordFormat.resolveWindow_with_keywords halone, ?_⟩
    rw [RecordFormat.resolveWindow_of_windowForm?_eq_some hform]
    exact f.settledBy_withForm _

/-- A height that is too large is not taken, a width with a sign and a leading zero is, and a second
keyword that would borrow the window is not read. -/
theorem resolveWindow_settles_too_high :
    let first : Keyword :=
      { name := "WINDOW", value := some "6 0 4294967296 +054", conditions := [] }
    let second : Keyword := { name := "WINDOW", value := some "MENU", conditions := [] }
    let f : RecordFormat :=
      { name := "POPUP"
        lines := { start := 3, stop := 9 }
        isWindow := false
        windowReference := none
        window := Window.screen
        keywords := [.flag "OVERLAY", first, second]
        fields := [] }
    (f.keywords = [.flag "OVERLAY"] ++ first :: [second] ∧
        (∀ k ∈ [Keyword.flag "OVERLAY"], k.name ≠ "WINDOW") ∧ first.name = "WINDOW") ∧
      WindowForm.AsksSize (Keyword.parameters "6 0 4294967296 +054") "4294967296" "+054" ∧
      (∀ n < UInt32.size, ¬Text.Denotes "4294967296" n) ∧ Text.Denotes "+054" 54 ∧
      f.resolveWindow.window.height = 24 ∧ f.resolveWindow.window.width.toNat = 54 ∧
      f.resolveWindow.windowReference = none := by
  intro first second f
  have hbefore : ∀ k ∈ [Keyword.flag "OVERLAY"], k.name ≠ "WINDOW" := by decide
  have hasks : WindowForm.AsksSize (Keyword.parameters "6 0 4294967296 +054") "4294967296" "+054" :=
    .placed rfl
  have hheight : ∀ n < UInt32.size, ¬Text.Denotes "4294967296" n :=
    Text.number?_eq_none_iff.1 (by decide +kernel)
  have hwidth : Text.Denotes "+054" 54 :=
    Text.number?_eq_some_iff.1 (show Text.number? "+054" = some 54 by decide +kernel)
  obtain ⟨-, -, -, hfirst⟩ := resolveWindow_settles f
  obtain ⟨-, hsettled⟩ := hfirst [.flag "OVERLAY"] first [second] rfl hbefore rfl
  obtain ⟨hrows, hcolumns⟩ := hsettled.size _ _ hasks
  have hname : ∀ name, Keyword.parameters (first.value.getD "") ≠ [name] := by
    intro name h
    have halone : WindowForm.AsksSize [name] "4294967296" "+054" := h ▸ hasks
    cases halone
  exact ⟨⟨rfl, hbefore, rfl⟩, hasks, hheight, hwidth, hrows.kept hheight,
    hcolumns.number 54 (by decide) hwidth, hsettled.reference_kept hname⟩

end DisplayFile
