import DisplayFile.Proofs.Member.Chain

/-!
# The search for a borrowed window

The window of a format that borrows can be looked for round by round: each round goes from a format
to the one that it names, and the names of the formats that have been left are kept, so that the
search can tell when it comes back to one of them. Nothing bounds the number of rounds in advance.

**The search ends**, after at most one round more than there are formats, and what it finds is the
window of the member (`windowWithin?_eq_window`). Names stand for formats here: the formats on the
way are each the first of their name, so the search is at a name that it has left exactly when it
is at a format that it has left (`Search.Follows.cycles`).

**What it finds is decided by the chain of formats** that starts at the first one of the given name
(`chain?`). There are four ways in which the chain can go, and each answer of the search stands for
one of them (`ChainAnswer`, `window_follows_chain`).
-/

namespace DisplayFile.Member

variable {m : Member} {f g : RecordFormat} {k : Nat} {name : String}

/-- A search under way: the format at which it is and the names of those that it has left. -/
structure Search where
  current : RecordFormat
  visited : Finset String

namespace Search

/-- One round of the search for the window of the format named `first`: the search ends or goes on
at the next format. -/
def round (m : Member) (first : String) (s : Search) : Except Failure Window ⊕ Search :=
  match s.current.windowReference with
  | none => .inl (.ok s.current.window)
  | some reference =>
    if s.current.name ∈ s.visited then .inl (.error (.windowCycle first))
    else
      match m.format? reference with
      | none => .inl (.error (.windowNotFound s.current.name reference))
      | some next => .inr { current := next, visited := insert s.current.name s.visited }

/-- What the search finds if it ends within this number of rounds. -/
def answer? (m : Member) (first : String) : Nat → Search → Option (Except Failure Window)
  | 0, _ => none
  | rounds + 1, s =>
    match s.round m first with
    | .inl answer => some answer
    | .inr next => answer? m first rounds next

end Search

/-- The window of the named format, its own or borrowed, if the search for it ends within this
number of rounds. -/
def windowWithin? (m : Member) (name : String) (rounds : Nat) : Option (Except Failure Window) :=
  match m.format? name with
  | none => some (.error (.formatNotFound name))
  | some f => Search.answer? m name rounds { current := f, visited := ∅ }

/-! ### Names on a chain -/

/-- A format that is found has the name that was asked for. -/
theorem name_of_format? (h : m.format? name = some f) : f.name = name := by
  simpa using List.find?_some h

theorem format?_name_of_format? (h : m.format? name = some f) : m.format? f.name = some f := by
  rw [name_of_format? h, h]

/-- On the chain of a format that is the first of its name every format is. -/
theorem format?_name_of_lenderAfter? (hf : m.format? f.name = some f)
    (h : m.lenderAfter? f k = some g) : m.format? g.name = some g := by
  rcases k with - | k
  · rwa [← Option.some.inj h]
  · obtain ⟨g', -, hg⟩ := Option.bind_eq_some_iff.1 h
    obtain ⟨reference, -, hformat⟩ := Option.bind_eq_some_iff.1 hg
    exact format?_name_of_format? hformat

/-! ### Rounds -/

/-- The search has followed this many references from a format. -/
structure Search.Follows (m : Member) (f : RecordFormat) (k : Nat) (s : Search) : Prop where
  current : m.lenderAfter? f k = some s.current
  visited : ∀ name ∈ s.visited, ∃ i < k, ∃ g, m.lenderAfter? f i = some g ∧ g.name = name
  card_visited : s.visited.card = k

namespace Search

variable {s : Search} {reference : String} (first : String)

/-- A format that borrows nothing answers with its own window. -/
theorem round_of_eq_none (h : s.current.windowReference = none) :
    s.round m first = .inl (.ok s.current.window) := by
  rw [round, h]

/-- A name that was visited before is a cycle. -/
theorem round_of_mem (h : s.current.windowReference = some reference)
    (hmem : s.current.name ∈ s.visited) :
    s.round m first = .inl (.error (.windowCycle first)) := by
  rw [round, h]
  exact if_pos hmem

/-- A lender that is not there ends the search. -/
theorem round_of_format?_eq_none (h : s.current.windowReference = some reference)
    (hmem : s.current.name ∉ s.visited) (hnext : m.format? reference = none) :
    s.round m first = .inl (.error (.windowNotFound s.current.name reference)) := by
  simp only [round, h, hmem, hnext, if_false]

/-- A lender that is there is visited next. -/
theorem round_of_format?_eq_some (h : s.current.windowReference = some reference)
    (hmem : s.current.name ∉ s.visited) (hnext : m.format? reference = some g) :
    s.round m first =
      .inr { current := g, visited := insert s.current.name s.visited } := by
  simp only [round, h, hmem, hnext, if_false]

/-- The search starts with a format and nothing visited. -/
theorem follows_start (m : Member) (f : RecordFormat) :
    Follows m f 0 { current := f, visited := ∅ } :=
  ⟨rfl, by simp, Finset.card_empty⟩

/-- A search that is at a name which it has left has come back to a format. -/
theorem Follows.cycles (h : Follows m f k s) (hf : m.format? f.name = some f)
    (hmem : s.current.name ∈ s.visited) : m.Cycles f := by
  obtain ⟨i, hi, g, hg, hname⟩ := h.visited _ hmem
  have hsame : some g = some s.current := by
    rw [← format?_name_of_lenderAfter? hf hg, hname, format?_name_of_lenderAfter? hf h.current]
  exact ⟨i, k, g, hi, hg, hsame ▸ h.current⟩

/-- A round follows the chain by one more lender and has visited one more name. -/
theorem Follows.next (h : Follows m f k s) (hmem : s.current.name ∉ s.visited)
    (hnext : m.lender? s.current = some g) :
    Follows m f (k + 1) { current := g, visited := insert s.current.name s.visited } where
  current := by rw [lenderAfter?, h.current, Option.bind_some, hnext]
  visited name hname := by
    rcases Finset.mem_insert.1 hname with rfl | hname
    · exact ⟨k, Nat.lt_succ_self k, s.current, h.current, rfl⟩
    · obtain ⟨i, hi, hg⟩ := h.visited name hname
      exact ⟨i, Nat.lt_succ_of_lt hi, hg⟩
  card_visited := by rw [Finset.card_insert_of_notMem hmem, h.card_visited]

/-- **A round ends the search with the window of the format, or follows one reference more.** -/
theorem Follows.round (h : Follows m f k s) (hf : m.format? f.name = some f) :
    s.round m first = .inl (m.borrowedWindow first m.formats.length f) ∨
      ∃ next, s.round m first = .inr next ∧ Follows m f (k + 1) next := by
  have hfirst : f ∈ m.formats := mem_of_format? hf
  rcases hreference : s.current.windowReference with - | reference
  · left
    rw [round_of_eq_none first hreference, borrowedWindow_eq_ok first hfirst h.current hreference]
  · by_cases hmem : s.current.name ∈ s.visited
    · left
      rw [round_of_mem first hreference hmem,
        borrowedWindow_eq_windowCycle first (h.cycles hf hmem)]
    · rcases hnext : m.format? reference with - | next
      · left
        rw [round_of_format?_eq_none first hreference hmem hnext,
          borrowedWindow_eq_windowNotFound first hfirst h.current hreference hnext]
      · right
        have hlender : m.lender? s.current = some next := by
          rw [lender?, hreference, Option.bind_some, hnext]
        exact ⟨_, round_of_format?_eq_some first hreference hmem hnext, h.next hmem hlender⟩

/-- A search has followed at most as many references as there are formats: it has left one format
of another name for each of them. -/
theorem Follows.le_length (h : Follows m f k s) (hf : f ∈ m.formats) : k ≤ m.formats.length := by
  have hsubset : s.visited ⊆ (m.formats.map RecordFormat.name).toFinset := by
    intro name hname
    obtain ⟨i, -, g, hg, rfl⟩ := h.visited name hname
    exact List.mem_toFinset.2 (List.mem_map_of_mem (mem_of_lenderAfter? hf hg))
  calc k = s.visited.card := h.card_visited.symm
    _ ≤ (m.formats.map RecordFormat.name).toFinset.card := Finset.card_le_card hsubset
    _ ≤ (m.formats.map RecordFormat.name).length := List.toFinset_card_le _
    _ = m.formats.length := List.length_map _

/-- **The search ends.** The induction is over the rounds that are left; there are enough of them
as long as references and rounds together are more than the formats. -/
theorem Follows.answer? (h : Follows m f k s) (hf : m.format? f.name = some f) {rounds : Nat}
    (hrounds : m.formats.length < k + rounds) :
    Search.answer? m first rounds s = some (m.borrowedWindow first m.formats.length f) := by
  induction rounds generalizing k s with
  | zero =>
    have hle := h.le_length (mem_of_format? hf)
    omega
  | succ rounds ih =>
    rw [Search.answer?]
    rcases h.round first hf with hround | ⟨next, hround, hnext⟩
    · rw [hround]
    · rw [hround]
      exact ih hnext (by omega)

end Search

theorem window_of_format?_eq_none (h : m.format? name = none) :
    m.window name = .error (.formatNotFound name) := by
  rw [window, format, h]
  rfl

theorem window_of_format?_eq_some (h : m.format? name = some f) :
    m.window name = m.borrowedWindow name m.formats.length f := by
  rw [window, format, h]
  rfl

/-- **The search for a window ends within one round more than there are formats**, and finds the
window of the member. -/
theorem windowWithin?_eq_window (m : Member) (name : String) :
    m.windowWithin? name (m.formats.length + 1) = some (m.window name) := by
  rw [windowWithin?]
  rcases hf : m.format? name with - | f
  · rw [window_of_format?_eq_none hf]
  · rw [window_of_format?_eq_some hf]
    exact (Search.follows_start m f).answer? name (format?_name_of_format? hf) (by omega)

/-! ### The chain that starts at a name -/

/-- The formats to which the search for a window can come: the first format of a name, and behind
each format the first one that it names. -/
def chain? (m : Member) (name : String) : Nat → Option RecordFormat
  | 0 => m.format? name
  | k + 1 => (m.chain? name k).bind m.lender?

/-- The format names one that is not there. -/
def BorrowsMissing (m : Member) (f : RecordFormat) : Prop :=
  ∃ reference, f.windowReference = some reference ∧ m.format? reference = none

/-- At this place of the chain stands the first format that has a property. -/
structure FirstOfChain (m : Member) (name : String) (p : RecordFormat → Prop) (k : Nat)
    (f : RecordFormat) : Prop where
  chain : m.chain? name k = some f
  holds : p f
  not_before : ∀ i < k, ∀ g, m.chain? name i = some g → ¬p g

/-- What is to be said of the window of a name, by the way its chain goes. -/
inductive ChainAnswer (m : Member) (name : String) : Except Failure Window → Prop where
  /-- The chain does not start. -/
  | formatNotFound (h : m.chain? name 0 = none) : ChainAnswer m name (.error (.formatNotFound name))
  /-- The chain comes to a format with a window of its own. -/
  | found (k : Nat) (f : RecordFormat)
      (h : m.FirstOfChain name (fun g ↦ g.windowReference = none) k f) :
      ChainAnswer m name (.ok f.window)
  /-- The chain comes to a format that names one which is not there. -/
  | windowNotFound (k : Nat) (f : RecordFormat) (reference : String)
      (h : m.FirstOfChain name m.BorrowsMissing k f)
      (hreference : f.windowReference = some reference) :
      ChainAnswer m name (.error (.windowNotFound f.name reference))
  /-- The chain always comes to a further format, and that one borrows. -/
  | windowCycle (h : ∀ k, ∃ f, m.chain? name k = some f ∧ f.windowReference ≠ none) :
      ChainAnswer m name (.error (.windowCycle name))

theorem chain?_eq_bind (m : Member) (name : String) (k : Nat) :
    m.chain? name k = (m.format? name).bind fun f ↦ m.lenderAfter? f k := by
  induction k with
  | zero => simp [chain?, lenderAfter?]
  | succ k ih => rw [chain?, ih, Option.bind_assoc]; rfl

/-- The chain of a name is that of the format with the name. -/
theorem chain?_of_format? (h : m.format? name = some f) (k : Nat) :
    m.chain? name k = m.lenderAfter? f k := by
  rw [chain?_eq_bind, h, Option.bind_some]

theorem exists_format?_of_chain? (h : m.chain? name k = some g) :
    ∃ f, m.format? name = some f ∧ m.lenderAfter? f k = some g := by
  rw [chain?_eq_bind] at h
  exact Option.bind_eq_some_iff.1 h

/-- Of the formats on a chain all but the last borrow from one that is there. -/
theorem exists_lender?_of_chain? (h : m.chain? name k = some g) {i : Nat} (hi : i < k)
    (hf : m.chain? name i = some f) : ∃ next, m.lender? f = some next := by
  obtain ⟨first, hfirst, hk⟩ := exists_format?_of_chain? h
  obtain ⟨next, hnext⟩ := exists_lenderAfter?_of_le hk (Nat.succ_le_of_lt hi)
  rw [← chain?_of_format? hfirst, chain?, hf, Option.bind_some] at hnext
  exact ⟨next, hnext⟩

/-- A format at which a chain stops is the first of its kind there. -/
theorem firstOfChain_of_stops {p : RecordFormat → Prop} (hp : ∀ f, p f → m.lender? f = none)
    (h : m.chain? name k = some g) (hg : p g) : m.FirstOfChain name p k g where
  chain := h
  holds := hg
  not_before i hi f hf hpf := by
    obtain ⟨next, hnext⟩ := exists_lender?_of_chain? h hi hf
    rw [hp f hpf] at hnext
    cases hnext

theorem lender?_of_windowReference_eq_none (h : f.windowReference = none) :
    m.lender? f = none := by
  rw [lender?, h, Option.bind_none]

theorem BorrowsMissing.lender?_eq_none (h : m.BorrowsMissing f) : m.lender? f = none := by
  obtain ⟨reference, hreference, hmissing⟩ := h
  rw [lender?, hreference, Option.bind_some, hmissing]

/-- The window of a name is what its chain says. -/
theorem ChainAnswer.window_eq {answer : Except Failure Window} (h : m.ChainAnswer name answer) :
    m.window name = answer := by
  cases h with
  | formatNotFound h => exact window_of_format?_eq_none h
  | found k g h =>
    obtain ⟨f, hf, hg⟩ := exists_format?_of_chain? h.chain
    rw [window_of_format?_eq_some hf, borrowedWindow_eq_ok name (mem_of_format? hf) hg h.holds]
  | windowNotFound k g reference h hreference =>
    obtain ⟨f, hf, hg⟩ := exists_format?_of_chain? h.chain
    have hmissing : m.format? reference = none := by
      have hlender := h.holds.lender?_eq_none
      rwa [lender?, hreference, Option.bind_some] at hlender
    rw [window_of_format?_eq_some hf,
      borrowedWindow_eq_windowNotFound name (mem_of_format? hf) hg hreference hmissing]
  | windowCycle h =>
    obtain ⟨g, hg, -⟩ := h m.formats.length
    obtain ⟨f, hf, hfar⟩ := exists_format?_of_chain? hg
    rw [window_of_format?_eq_some hf, borrowedWindow_eq_windowCycle name
      (cycles_of_lenderAfter?_length (mem_of_format? hf) hfar)]

/-- A chain that starts and is not endless stops at some format. -/
theorem exists_stop_of_not_endless (hf : m.format? name = some f)
    (h : ¬∀ k, ∃ g, m.chain? name k = some g ∧ g.windowReference ≠ none) :
    ∃ k g, m.chain? name k = some g ∧ m.lender? g = none := by
  obtain ⟨k, hk⟩ := not_forall.1 h
  rcases hchain : m.chain? name k with - | g
  · rw [chain?_of_format? hf] at hchain
    obtain ⟨l, -, g, hg, hlast⟩ := exists_last_of_lenderAfter?_eq_none hchain
    exact ⟨l, g, by rw [chain?_of_format? hf, hg], hlast⟩
  · have hown : g.windowReference = none := by
      by_contra hborrows
      exact hk ⟨g, hchain, hborrows⟩
    exact ⟨k, g, hchain, lender?_of_windowReference_eq_none hown⟩

/-- Every chain goes in one of the four ways. -/
theorem exists_chainAnswer (m : Member) (name : String) : ∃ answer, m.ChainAnswer name answer := by
  by_cases hendless : ∀ k, ∃ g, m.chain? name k = some g ∧ g.windowReference ≠ none
  · exact ⟨_, .windowCycle hendless⟩
  · rcases hf : m.format? name with - | f
    · exact ⟨_, .formatNotFound hf⟩
    · obtain ⟨k, g, hg, hstops⟩ := exists_stop_of_not_endless hf hendless
      rcases hreference : g.windowReference with - | reference
      · exact ⟨_, .found k g
          (firstOfChain_of_stops (fun _ ↦ lender?_of_windowReference_eq_none) hg hreference)⟩
      · have hmissing : m.BorrowsMissing g := by
          rw [lender?, hreference, Option.bind_some] at hstops
          exact ⟨reference, hreference, hstops⟩
        exact ⟨_, .windowNotFound k g reference
          (firstOfChain_of_stops (fun _ ↦ BorrowsMissing.lender?_eq_none) hg hmissing) hreference⟩

/-- **Window references are followed exactly, and always to an end.** The search ends within one
round more than there are formats, and it gives an answer exactly when the chain of formats that
starts at the name goes in the way that the answer stands for. -/
theorem window_follows_chain (m : Member) (name : String) :
    m.windowWithin? name (m.formats.length + 1) = some (m.window name) ∧
      ∀ answer, m.window name = answer ↔ m.ChainAnswer name answer := by
  refine ⟨windowWithin?_eq_window m name, fun answer ↦ ⟨?_, ChainAnswer.window_eq⟩⟩
  rintro rfl
  obtain ⟨answer, hanswer⟩ := exists_chainAnswer m name
  rwa [hanswer.window_eq]

end DisplayFile.Member
