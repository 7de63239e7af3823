import DisplayFile.Proofs.Member.Windows
import Mathlib.Data.Finset.Card

/-!
# Chains of borrowed windows

A format that borrows its window leads to another one, which may borrow it in turn. The chain of a
format stops at a format with a window of its own or at one whose reference names no format
(`Dangles`), or else it comes back to a format that it has visited (`Cycles`).

**The search for a window follows the chain exactly.** A search of so many steps along the chain is
the search from the format that they lead to, with so much less of its bound
(`borrowedWindow_of_lenderAfter?`). The number of formats is enough of a bound: a chain that is
longer visits one of them twice (`cycles_of_lenderAfter?_length`), and then it has no end
(`Cycles.isSome_lenderAfter?`).
-/

namespace DisplayFile.Member

variable {m : Member} {f g : RecordFormat} {k : Nat}

/-- The format from which a format borrows its window. -/
def lender? (m : Member) (f : RecordFormat) : Option RecordFormat :=
  f.windowReference.bind m.format?

/-- The format to which the chain of a format leads in so many steps. -/
def lenderAfter? (m : Member) (f : RecordFormat) : Nat → Option RecordFormat
  | 0 => some f
  | k + 1 => (m.lenderAfter? f k).bind m.lender?

/-- The chain of the format comes to a reference that names no format. -/
def Dangles (m : Member) (f : RecordFormat) : Prop :=
  ∃ k g reference, m.lenderAfter? f k = some g ∧ g.windowReference = some reference ∧
    m.format? reference = none

/-- The chain of the format comes to a format twice. -/
def Cycles (m : Member) (f : RecordFormat) : Prop :=
  ∃ i j g, i < j ∧ m.lenderAfter? f i = some g ∧ m.lenderAfter? f j = some g

/-! ### Following a chain -/

theorem mem_of_lender? (h : m.lender? f = some g) : g ∈ m.formats := by
  obtain ⟨reference, -, hformat⟩ := Option.bind_eq_some_iff.1 h
  exact mem_of_format? hformat

theorem lenderAfter?_add (m : Member) (f : RecordFormat) (k l : Nat) :
    m.lenderAfter? f (k + l) = (m.lenderAfter? f k).bind fun g ↦ m.lenderAfter? g l := by
  induction l with
  | zero => simp [lenderAfter?]
  | succ l ih => rw [← Nat.add_assoc, lenderAfter?, ih, Option.bind_assoc]; rfl

theorem lenderAfter?_add_of_eq_some (h : m.lenderAfter? f k = some g) (l : Nat) :
    m.lenderAfter? f (k + l) = m.lenderAfter? g l := by
  rw [lenderAfter?_add, h, Option.bind_some]

/-- A chain that leads so far has led less far before. -/
theorem exists_lenderAfter?_of_le {l : Nat} (h : m.lenderAfter? f l = some g) (hle : k ≤ l) :
    ∃ g', m.lenderAfter? f k = some g' := by
  obtain ⟨d, rfl⟩ := Nat.exists_eq_add_of_le hle
  rw [lenderAfter?_add] at h
  obtain ⟨g', hg', -⟩ := Option.bind_eq_some_iff.1 h
  exact ⟨g', hg'⟩

theorem mem_of_lenderAfter? (hf : f ∈ m.formats) (h : m.lenderAfter? f k = some g) :
    g ∈ m.formats := by
  rcases k with - | k
  · rwa [← Option.some.inj h]
  · obtain ⟨g', -, hg'⟩ := Option.bind_eq_some_iff.1 h
    exact mem_of_lender? hg'

/-- A chain that does not lead so far has stopped before. -/
theorem exists_last_of_lenderAfter?_eq_none (h : m.lenderAfter? f k = none) :
    ∃ l < k, ∃ g, m.lenderAfter? f l = some g ∧ m.lender? g = none := by
  induction k with
  | zero => cases h
  | succ k ih =>
    rcases hk : m.lenderAfter? f k with - | g
    · obtain ⟨l, hl, hlast⟩ := ih hk
      exact ⟨l, Nat.lt_succ_of_lt hl, hlast⟩
    · rw [lenderAfter?, hk, Option.bind_some] at h
      exact ⟨k, Nat.lt_succ_self k, g, hk, h⟩

/-! ### Chains that come back -/

/-- A chain that comes back to a format has no end. -/
theorem Cycles.isSome_lenderAfter? (h : m.Cycles f) (k : Nat) :
    (m.lenderAfter? f k).isSome = true := by
  obtain ⟨i, j, g, hlt, hi, hj⟩ := h
  obtain ⟨d, rfl⟩ := Nat.exists_eq_add_of_lt hlt
  have hround : m.lenderAfter? g (d + 1) = some g := by
    rwa [Nat.add_assoc, lenderAfter?_add_of_eq_some hi] at hj
  have hrounds : ∀ n, m.lenderAfter? g (n * (d + 1)) = some g := by
    intro n
    induction n with
    | zero => rw [Nat.zero_mul, lenderAfter?]
    | succ n ih => rw [Nat.succ_mul, lenderAfter?_add_of_eq_some ih, hround]
  have hfar : m.lenderAfter? f (i + k * (d + 1)) = some g := by
    rw [lenderAfter?_add_of_eq_some hi, hrounds]
  have hle : k ≤ i + k * (d + 1) := by
    rw [Nat.mul_succ]
    omega
  obtain ⟨g', hg'⟩ := exists_lenderAfter?_of_le hfar hle
  rw [hg', Option.isSome_some]

/-- **A chain that is as long as the number of formats comes back**: it has visited one format more
than there are. -/
theorem cycles_of_lenderAfter?_length (hf : f ∈ m.formats)
    (h : m.lenderAfter? f m.formats.length = some g) : m.Cycles f := by
  let visited : Nat → RecordFormat := fun i ↦ (m.lenderAfter? f i).getD f
  have hvisited : ∀ i ∈ Finset.range (m.formats.length + 1),
      m.lenderAfter? f i = some (visited i) := by
    intro i hi
    obtain ⟨g', hg'⟩ := exists_lenderAfter?_of_le h (Nat.lt_succ_iff.1 (Finset.mem_range.1 hi))
    show _ = some ((m.lenderAfter? f i).getD f)
    rw [hg', Option.getD_some]
  have hcard : m.formats.toFinset.card < (Finset.range (m.formats.length + 1)).card := by
    rw [Finset.card_range]
    exact Nat.lt_succ_of_le m.formats.toFinset_card_le
  have hmaps : ∀ i ∈ Finset.range (m.formats.length + 1), visited i ∈ m.formats.toFinset :=
    fun i hi ↦ List.mem_toFinset.2 (mem_of_lenderAfter? hf (hvisited i hi))
  obtain ⟨i, hi, j, hj, hne, heq⟩ := Finset.exists_ne_map_eq_of_card_lt_of_maps_to hcard hmaps
  rcases Nat.lt_or_gt_of_ne hne with hlt | hlt
  · exact ⟨i, j, visited i, hlt, hvisited i hi, heq ▸ hvisited j hj⟩
  · exact ⟨j, i, visited i, hlt, heq ▸ hvisited j hj, hvisited i hi⟩

/-- A chain that stops does so before it has visited all formats. -/
theorem lt_length_of_lender?_eq_none (hf : f ∈ m.formats) (h : m.lenderAfter? f k = some g)
    (hlast : m.lender? g = none) : k < m.formats.length := by
  by_contra hle
  obtain ⟨g', hg'⟩ := exists_lenderAfter?_of_le h (Nat.not_lt.1 hle)
  have hsome := (cycles_of_lenderAfter?_length hf hg').isSome_lenderAfter? (k + 1)
  rw [lenderAfter?, h, Option.bind_some, hlast] at hsome
  cases hsome

/-! ### The search for a window -/

variable (first : String)

theorem borrowedWindow_succ_of_lender? (h : m.lender? f = some g) (bound : Nat) :
    m.borrowedWindow first (bound + 1) f = m.borrowedWindow first bound g := by
  obtain ⟨reference, hreference, hformat⟩ := Option.bind_eq_some_iff.1 h
  exact borrowedWindow_succ_of_format?_eq_some hreference hformat first bound

/-- **The search follows the chain.** -/
theorem borrowedWindow_of_lenderAfter? (h : m.lenderAfter? f k = some g) (bound : Nat) :
    m.borrowedWindow first (bound + k) f = m.borrowedWindow first bound g := by
  induction k generalizing g bound with
  | zero => rw [← Option.some.inj h, Nat.add_zero]
  | succ k ih =>
    obtain ⟨g', hg', hg⟩ := Option.bind_eq_some_iff.1 h
    rw [Nat.add_comm k 1, ← Nat.add_assoc, ih hg', borrowedWindow_succ_of_lender? first hg]

/-- The search from a format stops where the chain does. -/
theorem borrowedWindow_length_of_lender?_eq_none (hf : f ∈ m.formats)
    (h : m.lenderAfter? f k = some g) (hlast : m.lender? g = none) :
    ∃ bound, m.borrowedWindow first m.formats.length f = m.borrowedWindow first (bound + 1) g := by
  obtain ⟨d, hd⟩ := Nat.exists_eq_add_of_lt (lt_length_of_lender?_eq_none hf h hlast)
  refine ⟨d, ?_⟩
  rw [hd, show k + d + 1 = (d + 1) + k by omega, borrowedWindow_of_lenderAfter? first h]

/-- A window of its own is found where the chain comes to one. -/
theorem borrowedWindow_eq_ok (hf : f ∈ m.formats) (h : m.lenderAfter? f k = some g)
    (hown : g.windowReference = none) :
    m.borrowedWindow first m.formats.length f = .ok g.window := by
  have hlast : m.lender? g = none := by rw [lender?, hown, Option.bind_none]
  obtain ⟨bound, hbound⟩ := borrowedWindow_length_of_lender?_eq_none first hf h hlast
  rw [hbound, borrowedWindow_of_eq_none hown]

/-- The search fails where a reference names no format. -/
theorem borrowedWindow_eq_windowNotFound {reference : String} (hf : f ∈ m.formats)
    (h : m.lenderAfter? f k = some g) (hreference : g.windowReference = some reference)
    (hmissing : m.format? reference = none) :
    m.borrowedWindow first m.formats.length f = .error (.windowNotFound g.name reference) := by
  have hlast : m.lender? g = none := by rw [lender?, hreference, Option.bind_some, hmissing]
  obtain ⟨bound, hbound⟩ := borrowedWindow_length_of_lender?_eq_none first hf h hlast
  rw [hbound, borrowedWindow_succ_of_format?_eq_none hreference hmissing]

/-- The search fails when the chain comes back. -/
theorem borrowedWindow_eq_windowCycle (h : m.Cycles f) :
    m.borrowedWindow first m.formats.length f = .error (.windowCycle first) := by
  obtain ⟨g, hg⟩ := Option.isSome_iff_exists.1 (h.isSome_lenderAfter? m.formats.length)
  have hnext := h.isSome_lenderAfter? (m.formats.length + 1)
  rw [lenderAfter?, hg, Option.bind_some] at hnext
  obtain ⟨g', hg'⟩ := Option.isSome_iff_exists.1 hnext
  obtain ⟨reference, hreference, -⟩ := Option.bind_eq_some_iff.1 hg'
  have hfollow := borrowedWindow_of_lenderAfter? first hg 0
  rw [Nat.zero_add] at hfollow
  rw [hfollow, borrowedWindow_zero_of_eq_some hreference]

/-- **The search for a window fails exactly when the chain of the format dangles or cycles.** -/
theorem exists_borrowedWindow_eq_error_iff (hf : f ∈ m.formats) :
    (∃ e, m.borrowedWindow first m.formats.length f = .error e) ↔ m.Dangles f ∨ m.Cycles f := by
  constructor
  · rintro ⟨e, he⟩
    rcases hfar : m.lenderAfter? f m.formats.length with - | g
    · obtain ⟨k, -, g, hg, hlast⟩ := exists_last_of_lenderAfter?_eq_none hfar
      rcases hreference : g.windowReference with - | reference
      · rw [borrowedWindow_eq_ok first hf hg hreference] at he
        cases he
      · rw [lender?, hreference, Option.bind_some] at hlast
        exact .inl ⟨k, g, reference, hg, hreference, hlast⟩
    · exact .inr (cycles_of_lenderAfter?_length hf hfar)
  · rintro (⟨k, g, reference, hg, hreference, hmissing⟩ | hcycles)
    · exact ⟨_, borrowedWindow_eq_windowNotFound first hf hg hreference hmissing⟩
    · exact ⟨_, borrowedWindow_eq_windowCycle first hcycles⟩

end DisplayFile.Member
