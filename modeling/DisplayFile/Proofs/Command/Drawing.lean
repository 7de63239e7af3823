import DisplayFile.Command.FileTree
import DisplayFile.Proofs.Command.Running
import DisplayFile.Proofs.Command.Writing
import DisplayFile.Proofs.Text.Utf8

/-!
# Drawing a format

What is drawn of a format depends on the indicators that are on. Some of them are listed in the
settings and others on the command line, in any order and more than once, but all that is left of
the two lists is the set of their members. And of this set a format sees only the indicators that
the conditions of its fields test: switching another one changes nothing but the list of indicators
in an answer in JSON (`drawings_depend_on_tested`).

**Two runs are compared.** A `Drawing` is a command line that asks for a format to be drawn, with
settings that can be loaded, and two drawings are `Alike` when they are about one format of one
member and have one form of output. Where they then answer, they have drawn the same fields
(`RecordFormat.visibleFields_congr`), and where one of them fails, the other fails likewise, since
no failure depends on an indicator (`Member.shownText_cases`). Every drawing has one that is alike
for whatever lists of indicators (`Drawing.exists_alike`).
-/

namespace DisplayFile

/-! ### Sets of indicators -/

namespace Indicators

theorem mem_toList {s : Indicators} {n : UInt8} : n ∈ s.toList ↔ s.isOn n = true := by
  rw [toList, List.mem_filter, and_iff_right_iff_imp]
  intro _
  exact List.mem_map.2 ⟨n.toNat, List.mem_range.2 n.toNat_lt, UInt8.ofNat_toNat⟩

/-- The indicators that are on are listed in ascending order. -/
theorem pairwise_toList (s : Indicators) : s.toList.Pairwise (· < ·) := by
  refine List.Pairwise.filter _ (List.pairwise_map.2 ?_)
  refine List.pairwise_lt_range.imp_of_mem fun {a b} ha hb hlt ↦ ?_
  rw [UInt8.lt_iff_toNat_lt, UInt8.toNat_ofNat_of_lt' (List.mem_range.1 ha),
    UInt8.toNat_ofNat_of_lt' (List.mem_range.1 hb)]
  exact hlt

theorem isOn_ofList_eq_true_iff {ns : List UInt8} {n : UInt8} :
    (ofList ns).isOn n = true ↔ n ∈ ns := by
  rw [isOn_ofList, List.contains_iff_mem]

end Indicators

/-! ### What a format sees of the indicators -/

/-- A condition of a field tests the indicator. -/
def RecordFormat.Tests (f : RecordFormat) (n : UInt8) : Prop :=
  ∃ field ∈ f.fields, ∃ c ∈ field.conditions, c.indicator = n

/-- Sets that have the same indicators among those of some conditions satisfy the same of them. -/
theorem Condition.allHold_congr {cs : List Condition} {s s' : Indicators}
    (h : ∀ c ∈ cs, s.isOn c.indicator = s'.isOn c.indicator) : allHold cs s = allHold cs s' := by
  rw [allHold, allHold, Bool.eq_iff_iff, List.all_eq_true, List.all_eq_true]
  refine forall₂_congr fun c hc ↦ ?_
  rw [holds, holds, h c hc]

/-- **Only the indicators that are tested decide what is drawn.** -/
theorem RecordFormat.visibleFields_congr {f : RecordFormat} {s s' : Indicators}
    (h : ∀ n, f.Tests n → s.isOn n = s'.isOn n) : f.visibleFields s = f.visibleFields s' := by
  refine List.filter_congr fun field hfield ↦ ?_
  have hactive : field.isActive s = field.isActive s' :=
    Condition.allHold_congr fun c hc ↦ h c.indicator ⟨field, hfield, c, hc, rfl⟩
  rw [Field.isVisible, Field.isVisible, hactive]

/-- The text that shows the fields of a format that are drawn. -/
def RecordFormat.shown (f : RecordFormat) (window : Option Window) (s : Indicators) :
    OutputForm → String
  | .json => (f.shownJson window (f.visibleFields s) s).pretty
  | .text => f.shownText window (f.visibleFields s)

/-- Whether a format can be drawn does not depend on the indicators. -/
theorem Member.shownText_cases (m : Member) (name : String) :
    (∃ e, ∀ s form, m.shownText name s form = .error e) ∨
      ∃ f window, m.format? name = some f ∧
        ∀ s form, m.shownText name s form = .ok (f.shown window s form) := by
  rcases hf : m.format? name with - | f
  · refine .inl ⟨.formatNotFound name, fun s form ↦ ?_⟩
    rw [shownText, format, hf]
    rfl
  · rcases hwindow : m.windowOf f name with e | window
    · refine .inl ⟨e, fun s form ↦ ?_⟩
      simp [shownText, format, hf, hwindow, bind, Except.bind]
    · refine .inr ⟨f, window, rfl, fun s form ↦ ?_⟩
      cases form <;> simp [shownText, format, hf, hwindow, bind, Except.bind, pure, Except.pure,
        RecordFormat.shown]

/-! ### Drawings -/

/-- A command line that asks for a format to be drawn, and files from which its settings can be
loaded. -/
structure Drawing where
  files : Files Id
  arguments : List String
  options : Options
  /-- The path of the member. -/
  file : String
  /-- The name of the format. -/
  name : String
  /-- The indicators that the command line switches on. -/
  given : List UInt8
  settings : Settings
  request : Request.ofArguments arguments = .ok (.run options (.display file name given))
  loaded : loadSettings files options.config = Except.ok settings

namespace Drawing

variable {d d' : Drawing}

/-- The indicators that are on: those of the settings, and those of the command line. -/
def on (d : Drawing) : List UInt8 := d.settings.on ++ d.given

/-- The form of the output. -/
def form (d : Drawing) : OutputForm := (d.options.output.or d.settings.output).getD .text

/-- The member, or why it cannot be read. -/
def member (d : Drawing) : Except Failure Member := readMember d.files d.file

/-- What the run leaves behind. -/
def outcome (d : Drawing) : Outcome := run d.files d.arguments

/-- The two are about one format of one member, and have one form of output. -/
structure Alike (d d' : Drawing) : Prop where
  member : d.member = d'.member
  name : d.name = d'.name
  form : d.form = d'.form
  quiet : d.options.quiet = d'.options.quiet

/-- A condition of a field of the format tests the indicator. -/
def Tests (d : Drawing) (n : UInt8) : Prop :=
  ∃ m f, d.member = .ok m ∧ m.format? d.name = some f ∧ f.Tests n

/-- The indicators that are on, each once and in ascending order. -/
structure Lists (d : Drawing) (ns : List UInt8) : Prop where
  ascending : ns.Pairwise (· < ·)
  mem_iff : ∀ n, n ∈ ns ↔ n ∈ d.on

theorem lists_toList (d : Drawing) : d.Lists (Indicators.ofList d.on).toList :=
  ⟨Indicators.pairwise_toList _, fun _ ↦
    Indicators.mem_toList.trans Indicators.isOn_ofList_eq_true_iff⟩

/-- The settings have been loaded, so that the drawing is a question about the member. -/
theorem outcome_eq (d : Drawing) :
    d.outcome = Member.outcome d.member d.form d.options.quiet fun m ↦
      match m.shownText d.name (Indicators.ofList d.on) d.form with
      | .ok text => .answer (text ++ "\n")
      | .error e => .unanswered d.form d.options.quiet e := by
  rw [outcome, run_of_loadSettings_eq_ok d.request d.loaded, Command.run]
  rfl

theorem Alike.refl (d : Drawing) : d.Alike d := ⟨rfl, rfl, rfl, rfl⟩

/-- What is shown of a format in JSON, with the indicators that are on. -/
def shown (fields name window : Json) (ns : List UInt8) : Json :=
  .object
    [("fields", fields),
     ("indicators", Json.ofList (fun n : UInt8 ↦ Json.ofNat n.toNat) ns),
     ("name", name),
     ("window", window)]

/-- **Drawings that are alike fail for one reason, or they show fields of one format.** -/
theorem outcome_cases (d : Drawing) :
    (∃ e, ∀ d', d.Alike d' → d'.outcome = .unanswered d.form d.options.quiet e) ∨
      ∃ m f window, d.member = .ok m ∧ m.format? d.name = some f ∧
        ∀ d', d.Alike d' →
          d'.outcome = .answer (f.shown window (Indicators.ofList d'.on) d.form ++ "\n") := by
  rcases hmember : d.member with e | m
  · refine .inl ⟨e, fun d' h ↦ ?_⟩
    rw [outcome_eq, ← h.member, ← h.form, ← h.quiet, hmember]
    rfl
  · rcases m.shownText_cases d.name with ⟨e, herror⟩ | ⟨f, window, hf, hshown⟩
    · refine .inl ⟨e, fun d' h ↦ ?_⟩
      rw [outcome_eq, ← h.member, ← h.form, ← h.quiet, ← h.name, hmember, Member.outcome, herror]
    · refine .inr ⟨m, f, window, rfl, hf, fun d' h ↦ ?_⟩
      rw [outcome_eq, ← h.member, ← h.form, ← h.quiet, ← h.name, hmember, Member.outcome, hshown]

/-! ### Lists that are written down -/

/-- The files with settings that list indicators. -/
def filesListing (files : Files Id) (ns : List UInt8) : Files Id where
  read path := if path = defaultConfig then .ok (Toml.listing ns).toUTF8 else files.read path
  kind? path := if path = defaultConfig then some .file else files.kind? path
  names := files.names

theorem loadSettings_filesListing (files : Files Id) {ns : List UInt8}
    (hns : ∀ n ∈ ns, isSwitch n = true) :
    loadSettings (filesListing files ns) none = Except.ok { on := ns } := by
  have htext : (filesListing files ns).readText defaultConfig = Except.ok (Toml.listing ns) := by
    show textOfBytes (.ok (Toml.listing ns).toUTF8) = _
    rw [textOfBytes, Text.Utf8.decode?_toUTF8]
  show settingsOf defaultConfig ((filesListing files ns).readText defaultConfig) = _
  rw [htext, settingsOf, Settings.ofText_listing hns]

/-- **The indicators may come from the settings and from the command line in any lists.** -/
theorem exists_alike (hfile : d.file ≠ "") (hconfig : d.file ≠ defaultConfig)
    {listed given : List UInt8} (hlisted : ∀ n ∈ listed, isSwitch n = true)
    (hgiven : ∀ n ∈ given, isSwitch n = true) :
    ∃ d', d.Alike d' ∧ d'.options.config = none ∧ d'.settings.on = listed ∧ d'.given = given := by
  let d' : Drawing :=
    { files := filesListing d.files listed
      arguments := drawingArguments d.form d.options.quiet d.file d.name given
      options := { output := some d.form, quiet := d.options.quiet }
      file := d.file
      name := d.name
      given := given
      settings := { on := listed }
      request := Request.ofArguments_drawing d.form d.options.quiet hfile d.name hgiven
      loaded := loadSettings_filesListing d.files hlisted }
  have hread : d'.files.read d.file = d.files.read d.file := if_neg hconfig
  have hmember : d.member = d'.member := by
    show readMember d.files d.file = readMember d'.files d.file
    rw [readMember, readMember, hread]
  exact ⟨d', ⟨hmember, rfl, rfl, rfl⟩, rfl, rfl, rfl⟩

/-! ### The indicators that are on -/

/-- **A drawing depends only on the set of the indicators that are on, and only on those that are
tested.** The indicators come from the settings and the command line in any lists. Whichever way
they come, drawings with the same ones have the same outcome. And where the two differ only in
indicators that no field of the format is conditioned on, the outcomes in text are the same, and
those in JSON as well but for the list of the indicators that are on, which is in ascending
order. -/
theorem drawings_depend_on_tested (d : Drawing) :
    (d.file ≠ "" → d.file ≠ defaultConfig → ∀ listed given : List UInt8,
        (∀ n ∈ listed, isSwitch n = true) → (∀ n ∈ given, isSwitch n = true) →
          ∃ d', d.Alike d' ∧ d'.options.config = none ∧ d'.settings.on = listed ∧
            d'.given = given) ∧
      ∀ d', d.Alike d' →
        ((∀ n, n ∈ d.on ↔ n ∈ d'.on) → d.outcome = d'.outcome) ∧
        ((∀ n, d.Tests n → (n ∈ d.on ↔ n ∈ d'.on)) →
          (d.form = .text → d.outcome = d'.outcome) ∧
          (d.form = .json →
            (d.outcome.code = 1 ∧ d.outcome = d'.outcome) ∨
              ∃ fields name window ns ns', d.Lists ns ∧ d'.Lists ns' ∧
                d.outcome = .answer ((shown fields name window ns).pretty ++ "\n") ∧
                d'.outcome = .answer ((shown fields name window ns').pretty ++ "\n"))) := by
  refine ⟨fun hfile hconfig _ _ ↦ exists_alike hfile hconfig, fun d' h ↦ ?_⟩
  rcases d.outcome_cases with ⟨e, hfails⟩ | ⟨m, f, window, hm, hf, hshown⟩
  · -- the failure is one and the same
    have heq : d.outcome = d'.outcome := (hfails d (.refl d)).trans (hfails d' h).symm
    refine ⟨fun _ ↦ heq, fun _ ↦ ⟨fun _ ↦ heq, fun _ ↦ .inl ⟨?_, heq⟩⟩⟩
    rw [hfails d (.refl d)]
    rfl
  · have ho := hshown d (.refl d)
    have ho' := hshown d' h
    refine ⟨fun hset ↦ ?_, fun htested ↦ ?_⟩
    · rw [ho, ho', Indicators.ofList_congr hset]
    · have hvisible : f.visibleFields (Indicators.ofList d.on) =
          f.visibleFields (Indicators.ofList d'.on) := by
        refine RecordFormat.visibleFields_congr fun n hn ↦ ?_
        rw [Bool.eq_iff_iff, Indicators.isOn_ofList_eq_true_iff,
          Indicators.isOn_ofList_eq_true_iff]
        exact htested n ⟨m, f, hm, hf, hn⟩
      rw [ho, ho']
      refine ⟨fun htext ↦ ?_, fun hjson ↦ .inr ?_⟩
      · rw [htext, RecordFormat.shown, RecordFormat.shown, hvisible]
      · rw [hjson, RecordFormat.shown, RecordFormat.shown, hvisible]
        exact ⟨_, _, _, _, _, lists_toList d, lists_toList d', rfl, rfl⟩

/-- A format whose only field is drawn while indicator 31 is on. -/
def menuSource : String :=
  "                R MENU\n" ++
  "        31                              1  2'Menu'\n"

/-- The format, drawn while 31 and 45 are on. -/
def menu : Drawing where
  files := FileTree.files ⟨[(["MENU.dspf"], some menuSource.toUTF8)]⟩
  arguments := ["show", "MENU.dspf", "MENU", "--on", "45", "--on", "31", "--output", "json"]
  options := { output := some .json }
  file := "MENU.dspf"
  name := "MENU"
  given := [45, 31]
  settings := {}
  request := by decide +kernel
  loaded := rfl

/-- The same indicators, one from the settings and both from the command line, and 31 alone. -/
theorem drawings_depend_on_tested_menu :
    (menu.file ≠ "" ∧ menu.file ≠ defaultConfig ∧ menu.form = .json ∧ ¬menu.Tests 45 ∧
        menu.outcome.code = 0) ∧
      ∃ d' d'', (menu.Alike d' ∧ d'.settings.on = [31] ∧ d'.given = [31, 45]) ∧
        (menu.Alike d'' ∧ d''.settings.on = [31] ∧ d''.given = []) ∧
        menu.outcome = d'.outcome ∧
        ∃ fields name window ns ns', menu.Lists ns ∧ d''.Lists ns' ∧
          menu.outcome = .answer ((shown fields name window ns).pretty ++ "\n") ∧
          d''.outcome = .answer ((shown fields name window ns').pretty ++ "\n") := by
  have hfile : menu.file ≠ "" := by decide
  have hconfig : menu.file ≠ defaultConfig := by decide
  have htests : ∀ n, menu.Tests n → n = 31 := by
    rintro n ⟨m, f, hm, hf, field, hfield, c, hc, rfl⟩
    have hconditions : ∀ f ∈ (Member.ofBytes menuSource.toUTF8).formats,
        ∀ field ∈ f.fields, ∀ c ∈ field.conditions, c.indicator = 31 := by
      decide +kernel
    have hmember : menu.member = .ok (Member.ofBytes menuSource.toUTF8) := readMember_of_eq_ok rfl
    have heq : m = Member.ofBytes menuSource.toUTF8 := Except.ok.inj (hm.symm.trans hmember)
    have hmem : f ∈ m.formats := List.mem_of_find?_eq_some hf
    rw [heq] at hmem
    exact hconditions f hmem field hfield c hc
  have hcode : menu.outcome.code = 0 := by decide +kernel
  obtain ⟨hlists, hruns⟩ := drawings_depend_on_tested menu
  obtain ⟨d', halike, -, hlisted, hgiven⟩ :=
    hlists hfile hconfig [31] [31, 45] (by simp [isSwitch]) (by simp [isSwitch])
  obtain ⟨d'', halike', -, hlisted', hgiven'⟩ :=
    hlists hfile hconfig [31] [] (by simp [isSwitch]) (by simp)
  have hsame : menu.outcome = d'.outcome := by
    refine (hruns d' halike).1 fun n ↦ ?_
    rw [on, on, hlisted, hgiven]
    simp [menu, or_comm]
  have hapart := (hruns d'' halike').2 fun n hn ↦ by
    rw [htests n hn, on, on, hlisted', hgiven']
    decide
  refine ⟨⟨hfile, hconfig, rfl, fun h ↦ ?_, hcode⟩, d', d'', ⟨halike, hlisted, hgiven⟩,
    ⟨halike', hlisted', hgiven'⟩, hsame, ?_⟩
  · cases htests 45 h
  · rcases hapart.2 rfl with ⟨hone, -⟩ | hanswers
    · rw [hcode] at hone
      cases hone
    · exact hanswers

end Drawing

end DisplayFile
