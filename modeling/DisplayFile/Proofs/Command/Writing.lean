import DisplayFile.Command.Settings
import DisplayFile.Proofs.Command.Switches

/-!
# Lists of indicators that are written down

Indicators are listed in the settings or given on the command line. Whatever the list, if all its
indicators can be switched, there are settings that list exactly these (`Settings.ofText_listing`),
and there is a command line that gives exactly these (`Request.ofArguments_drawing`), in the order
of the list and with its repetitions.

**Each numeral is read up to what follows it.** In the settings that is a comma, which belongs to no
token (`Toml.readToken_digits`), and on the command line the numeral is an argument of its own
(`CommandLine.read_switchText`). In both places the whole list is then read by induction, one
indicator after the other.
-/

namespace DisplayFile

open Text.Numeral (digits digits_append_ne digits_ne_cons isDigit_of_mem_digits head?_digits
  value_digits)

/-! ### Settings -/

namespace Toml

theorem isTokenChar_of_isDigit {c : Char} (h : c.isDigit = true) : isTokenChar c = true := by
  simp [isTokenChar, isKeyChar, Char.isAlphanum, h]

/-- Digits of a number are accepted as they are. -/
theorem digits?_digits (n : Nat) : digits? Char.isDigit (digits n) = some (digits n) := by
  have hdigits : (digits n).all Char.isDigit = true :=
    List.all_eq_true.2 fun _ ↦ isDigit_of_mem_digits
  have hsep : '_' ∉ digits n := fun h ↦ absurd (isDigit_of_mem_digits h) (by decide)
  have hne : digits n ≠ [] := Nat.toDigits_ne_nil
  simp [digits?, Text.pieces_eq_singleton hsep, hdigits, hne]

/-- A number other than 0 reads back from its digits. -/
theorem decimal?_digits {n : Nat} (hne : n ≠ 0) : decimal? (digits n) = some n := by
  have hvalue : valueOf (digits n) 0 = n := value_digits n
  simp [decimal?, digits?_digits, head?_digits hne, hvalue]

/-- A number above zero is read from its digits, if it fits in 64 bits. -/
theorem integer?_digits {n : Nat} (hne : n ≠ 0) (hlt : n < 2 ^ 63) :
    integer? (digits n) = some (n : Int) := by
  have hzero (cs : List Char) : digits n ≠ '0' :: cs := fun h ↦ head?_digits hne (by rw [h]; rfl)
  have hunsigned : unsigned (digits n) = digits n := by
    rw [unsigned.eq_def]
    split
    · next h => exact absurd h (digits_ne_cons n _ (by decide))
    · next h => exact absurd h (digits_ne_cons n _ (by decide))
    · rfl
  have hrange : Int64.minValue.toInt ≤ (n : Int) ∧ (n : Int) ≤ Int64.maxValue.toInt := by
    have hmin : Int64.minValue.toInt = -2 ^ 63 := by decide
    have hmax : Int64.maxValue.toInt = 2 ^ 63 - 1 := by decide
    omega
  rw [integer?.eq_def]
  split
  case h_1 h | h_2 h | h_3 h => exact absurd h (hzero _)
  case h_4 h => exact absurd h (digits_ne_cons n _ (by decide))
  case h_5 =>
    rw [hunsigned, decimal?_digits hne]
    simp [hrange]

/-- Digits are a token up to a comma. -/
theorem readToken_digits {n : Nat} (hne : n ≠ 0) (hlt : n < 2 ^ 63) (rest : List Char) :
    readToken (digits n ++ ',' :: rest) = .ok (.integer n, ',' :: rest) := by
  have htoken : (digits n ++ ',' :: rest).takeWhile isTokenChar = digits n := by
    rw [List.takeWhile_append_of_pos fun _ h ↦ isTokenChar_of_isDigit (isDigit_of_mem_digits h),
      List.takeWhile_cons_of_neg (by decide), List.append_nil]
  have hvalue : ofToken? (digits n) = some (.integer n) := by
    rw [ofToken?, if_neg (digits_ne_cons n _ (by decide)), if_neg (digits_ne_cons n _ (by decide)),
      integer?_digits hne hlt]
  have hempty : (digits n).isEmpty = false := List.isEmpty_eq_false_iff.2 Nat.toDigits_ne_nil
  simp [readToken, htoken, hvalue, hempty]

theorem readValue_digits {n : Nat} (hne : n ≠ 0) (hlt : n < 2 ^ 63) (fuel depth : Nat)
    (rest : List Char) :
    readValue (fuel + 1) depth (digits n ++ ',' :: rest) = .ok (.integer n, ',' :: rest) := by
  rw [readValue.eq_def]
  dsimp only
  split
  case h_7 => exact readToken_digits hne hlt rest
  all_goals
    next h => exact absurd h (digits_append_ne n _ _ (by decide))

/-- Where the text goes on at once, nothing is passed over. -/
theorem skipLines_cons (fuel : Nat) {c : Char} (cs : List Char)
    (h : c ∉ [' ', '\t', '#', '\n', '\r']) : skipLines (fuel + 1) (c :: cs) = .ok (c :: cs) := by
  simp only [List.mem_cons, List.not_mem_nil, not_or, or_false] at h
  obtain ⟨hspace, htab, hhash, hline, hreturn⟩ := h
  have hblank : skipBlanks (c :: cs) = c :: cs :=
    List.dropWhile_cons_of_neg (by simp [isBlank, hspace, htab])
  have hend : afterLineEnd? (c :: cs) = none := by
    simp [afterLineEnd?, hline, hreturn]
  rw [skipLines, hblank]
  simp [hhash, hend]

theorem skipLines_digits (fuel n : Nat) (rest : List Char) :
    skipLines (fuel + 1) (digits n ++ rest) = .ok (digits n ++ rest) := by
  obtain ⟨d, ds, hdigits⟩ := List.exists_cons_of_ne_nil (Nat.toDigits_ne_nil (b := 10) (n := n))
  have hd : d.isDigit = true := isDigit_of_mem_digits (n := n) (by simp [digits, hdigits])
  rw [digits, hdigits, List.cons_append]
  refine skipLines_cons fuel _ fun hmem ↦ ?_
  fin_cases hmem <;> cases hd

/-- Indicators in a list, with a comma after each. -/
def listed (ns : List UInt8) : List Char := ns.flatMap fun n ↦ digits n.toNat ++ [',']

/-- **A list of indicators is read back.** -/
theorem readItems_listed {ns : List UInt8} (hns : ∀ n ∈ ns, n ≠ 0) {fuel : Nat}
    (hfuel : ns.length < fuel) (depth : Nat) (acc : Array Toml) (rest : List Char) :
    readItems fuel depth acc (listed ns ++ ']' :: rest) =
      .ok (acc.toList ++ ns.map fun n ↦ .integer n.toNat, rest) := by
  induction ns generalizing fuel acc with
  | nil =>
    obtain ⟨fuel, rfl⟩ := Nat.exists_eq_succ_of_ne_zero (Nat.ne_of_gt hfuel)
    rw [readItems, listed, List.flatMap_nil, List.nil_append, skipLines_cons fuel rest (by decide)]
    simp
    rfl
  | cons n ns ih =>
    -- the reader of the list and the reader of the value each use one
    obtain ⟨fuel, rfl⟩ : ∃ k, fuel = k + 2 :=
      Nat.exists_eq_add_of_le' (Nat.le_trans (by simp) hfuel)
    have hn : n.toNat ≠ 0 := fun h ↦ hns n List.mem_cons_self (UInt8.toNat_inj.1 h)
    have hlt : n.toNat < 2 ^ 63 := Nat.lt_trans n.toNat_lt (by decide)
    have htext : listed (n :: ns) ++ ']' :: rest =
        digits n.toNat ++ ',' :: (listed ns ++ ']' :: rest) := by
      simp [listed]
    rw [readItems, htext, skipLines_digits]
    dsimp only [bind, Except.bind]
    split
    · next h => exact absurd h (digits_append_ne _ _ _ (by decide))
    · rw [readValue_digits hn hlt]
      dsimp only
      rw [skipLines_cons _ _ (by decide)]
      show readItems (fuel + 1) depth _ _ = _
      rw [ih (fun m hm ↦ hns m (List.mem_cons_of_mem n hm)) (by simpa using hfuel)]
      simp

/-- A list is not shorter on paper than it has numbers, so there is fuel for each. -/
theorem length_le_length_listed (ns : List UInt8) : ns.length ≤ (listed ns).length := by
  induction ns with
  | nil => exact Nat.zero_le _
  | cons n ns ih =>
    have hcons : listed (n :: ns) = digits n.toNat ++ [','] ++ listed ns := rfl
    simp only [hcons, List.length_append, List.length_cons, List.length_nil]
    omega

/-- A list of indicators in its brackets, and the end of the line. -/
def bracketed (ns : List UInt8) : List Char := '[' :: (listed ns ++ [']', '\n'])

/-- The document that lists indicators. -/
def listing (ns : List UInt8) : String :=
  String.ofList ('[' :: ("indicators]\n".toList ++ ("on = ".toList ++ bracketed ns)))

/-- The listing is the head of the table, the key and the list of the numbers. -/
theorem toList_listing (ns : List UInt8) :
    (listing ns).toList =
      '[' :: ("indicators]\n".toList ++ ("on = ".toList ++ bracketed ns)) :=
  String.toList_ofList

theorem readValue_listed {ns : List UInt8} (hns : ∀ n ∈ ns, n ≠ 0) {fuel : Nat}
    (hfuel : ns.length < fuel) (depth : Nat) (rest : List Char) :
    readValue (fuel + 1) (depth + 1) ('[' :: (listed ns ++ ']' :: rest)) =
      .ok (.array (ns.map fun n ↦ .integer n.toNat), rest) := by
  rw [readValue]
  dsimp only
  rw [readItems_listed hns hfuel]
  simp

/-- The whole list is read as the value behind the key. -/
theorem readValue_bracketed {ns : List UInt8} (hns : ∀ n ∈ ns, n ≠ 0) :
    readValue ((' ' :: bracketed ns).length + 1) nestingLimit (skipBlanks (' ' :: bracketed ns)) =
      .ok (.array (ns.map fun n ↦ .integer n.toNat), ['\n']) := by
  have hfuel : ns.length < (' ' :: bracketed ns).length := by
    have hle := length_le_length_listed ns
    simp only [bracketed, List.length_cons, List.length_append]
    omega
  exact readValue_listed hns hfuel 78 ['\n']

/-- The header opens the table of the indicators. -/
theorem readExpressions_header (fuel : Nat) (cs : List Char) :
    readExpressions (fuel + 1) {} ('[' :: ("indicators]\n".toList ++ cs)) =
      readExpressions fuel ⟨[("indicators", .table .header [])], ["indicators"]⟩ cs := rfl

/-- And the line after it has the list. -/
theorem readKeyValue_bracketed {ns : List UInt8} (hns : ∀ n ∈ ns, n ≠ 0) :
    readKeyValue ⟨[("indicators", .table .header [])], ["indicators"]⟩
        ("on = ".toList ++ bracketed ns) =
      .ok (⟨[("indicators", .table .header [("on", .array (ns.map fun n ↦ .integer n.toNat))])],
        ["indicators"]⟩, []) := by
  have hkey : readKey ("on = ".toList ++ bracketed ns) =
      .ok (([], "on"), '=' :: ' ' :: bracketed ns) := rfl
  have hequals : skipBlanks ('=' :: ' ' :: bracketed ns) = '=' :: ' ' :: bracketed ns := rfl
  rw [readKeyValue, hkey]
  simp only [bind, Except.bind, hequals, readValue_bracketed hns]
  rfl

/-- The line of the key is read as a key with a value, and reading goes on behind it. -/
theorem readExpressions_on (fuel : Nat) (doc : Document) (cs : List Char) :
    readExpressions (fuel + 1) doc ("on = ".toList ++ cs) = (do
      let (doc, rest) ← readKeyValue doc ("on = ".toList ++ cs)
      readExpressions fuel doc rest) := rfl

theorem readExpressions_nil (fuel : Nat) (doc : Document) :
    readExpressions fuel doc [] = .ok doc := by
  cases fuel <;> rfl

theorem read_of_toList_eq_cons {source : String} {c : Char} {cs : List Char}
    (h : source.toList = c :: cs) (hc : c ≠ '\uFEFF') :
    read source = (do return (← readExpressions (cs.length + 2) {} (c :: cs)).members) := by
  rw [read, h]
  split
  · next heq => exact absurd (List.cons.inj heq).1 hc
  · rfl

/-- **The document that lists indicators is read.** -/
theorem read_listing {ns : List UInt8} (hns : ∀ n ∈ ns, n ≠ 0) :
    read (listing ns) =
      .ok [("indicators",
        .table .header [("on", .array (ns.map fun n ↦ .integer n.toNat))])] := by
  rw [read_of_toList_eq_cons (toList_listing ns) (by decide), readExpressions_header,
    List.length_append, readExpressions_on, readKeyValue_bracketed hns]
  dsimp only [bind, Except.bind]
  rw [readExpressions_nil]
  rfl

end Toml

namespace Settings

/-- The number of an indicator is accepted as this indicator. -/
theorem indicator_integer (n : UInt8) : indicator (.integer n.toNat) = .ok n := by
  have hlt : n.toNat < UInt8.size := n.toNat_lt
  show (if n.toNat < UInt8.size then Except.ok (UInt8.ofNat n.toNat) else _) = _
  rw [if_pos hlt, UInt8.ofNat_toNat]

/-- The numbers of a list of indicators are accepted as this list. -/
theorem onList_map (ns : List UInt8) :
    onList (.array (ns.map fun n ↦ .integer n.toNat)) = .ok ns := by
  rw [onList, List.mapM_map]
  induction ns with
  | nil => rfl
  | cons n ns ih =>
    rw [List.mapM_cons, ih]
    simp [indicator_integer, bind, Except.bind, pure, Except.pure]

/-- **Every list of indicators that can be switched is one that settings list.** -/
theorem ofText_listing {ns : List UInt8} (hns : ∀ n ∈ ns, isSwitch n = true) :
    ofText (Toml.listing ns) = .ok { on := ns } := by
  have hne : ∀ n ∈ ns, n ≠ 0 := by
    rintro n hn rfl
    cases hns 0 hn
  have hdocument : ofDocument
      [("indicators", .table .header [("on", .array (ns.map fun n ↦ .integer n.toNat))])] =
        .ok { on := ns } := by
    simp [ofDocument, indicators, onList_map, bind, Except.bind, pure, Except.pure]
  have hfind : ns.find? (!isSwitch ·) = none := by
    simpa using hns
  rw [ofText, Toml.read_listing hne]
  dsimp only
  rw [hdocument]
  dsimp only
  rw [hfind]

end Settings

/-! ### Command lines -/

namespace CommandLine

/-- A command line that asks for a format to be drawn, after the flags that have been given. -/
def drawing (options : Options) (on : Array UInt8) : CommandLine :=
  { command := some .display, given := { options, on } }

/-- The flags that switch indicators on. -/
def switches (ns : List UInt8) : List String := ns.flatMap fun n ↦ ["--on", switchText n]

/-- **All indicators that can be switched are given**, one flag for each. -/
theorem foldlM_read_switches (options : Options) (on : Array UInt8) {ns : List UInt8}
    (hns : ∀ n ∈ ns, isSwitch n = true) :
    (switches ns).foldlM read (drawing options on) = .ok (drawing options (on ++ ns)) := by
  induction ns generalizing on with
  | nil => simp [switches, pure, Except.pure]
  | cons n ns ih =>
    let awaiting : CommandLine := { drawing options on with pending := some .on }
    have hflag : (drawing options on).read "--on" = .ok awaiting := rfl
    have hnumeral : awaiting.read (switchText n) = .ok (drawing options (on.push n)) :=
      read_switchText rfl rfl (hns n List.mem_cons_self)
    have hcons : switches (n :: ns) = "--on" :: switchText n :: switches ns := rfl
    rw [hcons, List.foldlM_cons, hflag]
    show awaiting.read (switchText n) >>= (List.foldlM read · (switches ns)) = _
    rw [hnumeral]
    show List.foldlM read _ (switches ns) = _
    rw [ih _ fun m hm ↦ hns m (List.mem_cons_of_mem n hm)]
    simp

/-- A path that is not empty and a name are arguments after two dashes, however they begin. -/
theorem foldlM_read_arguments (options : Options) (on : Array UInt8) {file : String}
    (hfile : file ≠ "") (name : String) :
    ["--", file, name].foldlM read (drawing options on) =
      .ok { command := some .display
            given := { options, on, arguments := #[file, name] }
            isLiteral := true } := by
  simp [drawing, read, argument, hfile, bind, Except.bind, CommandName.argumentLimit]
  rfl

end CommandLine

/-- The form of an output as the value of its flag. -/
def OutputForm.word : OutputForm → String
  | text => "text"
  | json => "json"

/-- The arguments that ask for a format to be drawn while indicators are on. -/
def drawingArguments (form : OutputForm) (quiet : Bool) (file name : String) (ns : List UInt8) :
    List String :=
  ("show" :: "--output" :: form.word :: if quiet then ["--quiet"] else []) ++
    (CommandLine.switches ns ++ ["--", file, name])

/-- **Every list of indicators that can be switched is one that a command line gives.** -/
theorem Request.ofArguments_drawing (form : OutputForm) (quiet : Bool) {file : String}
    (hfile : file ≠ "") (name : String) {ns : List UInt8} (hns : ∀ n ∈ ns, isSwitch n = true) :
    ofArguments (drawingArguments form quiet file name ns) =
      .ok (.run { output := some form, quiet } (.display file name ns)) := by
  have hflags : List.foldlM CommandLine.read {}
      ("show" :: "--output" :: form.word :: if quiet then ["--quiet"] else []) =
        .ok (.drawing { output := some form, quiet } #[]) := by
    rcases form <;> rcases quiet <;> rfl
  have hread : List.foldlM CommandLine.read {} (drawingArguments form quiet file name ns) =
      .ok { command := some .display
            given :=
              { options := { output := some form, quiet }
                on := (#[] : Array UInt8) ++ ns
                arguments := #[file, name] }
            isLiteral := true } := by
    rw [drawingArguments, List.foldlM_append, hflags]
    show List.foldlM CommandLine.read _ (CommandLine.switches ns ++ _) = _
    rw [List.foldlM_append, CommandLine.foldlM_read_switches _ _ hns]
    exact CommandLine.foldlM_read_arguments _ _ hfile name
  rw [ofArguments, hread]
  simp [CommandLine.finish, CommandLine.toCommand, CommandLine.required, Options.orElse, bind,
    Except.bind, pure, Except.pure]

end DisplayFile
