import DisplayFile.Proofs.Command.Suite
import DisplayFile.Proofs.Json.Reading
import DisplayFile.Proofs.Json.Report
import DisplayFile.Proofs.Member.Plain
import Mathlib.Algebra.Order.BigOperators.Group.List
import Mathlib.Algebra.Order.Group.Nat

/-!
# What a failing fixture says

A fixture is judged by whether two values agree, and when they do not, its report lists differences.
The comparison and the search for differences are two recursions; that they never contradict each
other is what makes a report useful. A fixture that fails names a difference, each difference is a
place where the values are not the same, and a fixture that passes has none
(`differences_tell_apart`).

Both values have each key of an object once: the expected one because it was read from a text, the
other because it is the JSON form of a member (`Member.distinctKeys_toJson`).
-/

namespace DisplayFile

/-- In the JSON form of a member no object has a key twice. -/
theorem Member.distinctKeys_toJson (m : Member) : m.toJson.DistinctKeys := by
  -- some bound is beyond all line numbers, and it does not matter which
  have hlines : m.LinesBelow
      (UInt32.size + (m.formats.map fun f ↦ f.lines.start + f.lines.stop).sum) := by
    intro f hf
    have hle : f.lines.start + f.lines.stop ≤
        (m.formats.map fun f ↦ f.lines.start + f.lines.stop).sum :=
      List.le_sum_of_mem (List.mem_map_of_mem hf)
    have hpos : 0 < UInt32.size := by decide
    constructor <;> omega
  have hplain : Json.Plain _ 9 m.toJson := m.plain_toJson (Nat.le_add_right _ _) hlines
  exact hplain.distinctKeys

open Json

/-- **The comparison of values and the list of their differences agree.** Comparing is an
equivalence of values in which no object has a key twice. Of two such values no difference is listed
exactly when they agree, and every difference that is listed is a place where they differ as it
says. So a fixture fails exactly when it has a difference to name. -/
theorem differences_tell_apart :
    (Equivalence fun a b : { j : Json // j.DistinctKeys } ↦ agrees a.1 b.1 = true) ∧
      (∀ expected got : Json, expected.DistinctKeys → got.DistinctKeys →
        (differences expected got = [] ↔ agrees got expected = true) ∧
          ∀ d ∈ differences expected got, d.Holds expected got) ∧
      ∀ (source : String) (expected : Json) (m : Member), Json.read source = .ok expected →
        (Fixture.judge expected (.ok m) = none ↔ differences expected m.toJson = []) := by
  have hcompared : ∀ expected got : Json, expected.DistinctKeys → got.DistinctKeys →
      (differences expected got = [] ↔ agrees got expected = true) ∧
        ∀ d ∈ differences expected got, d.Holds expected got := by
    intro expected got hexpected hgot
    refine ⟨?_, fun d hd ↦ ?_⟩
    · rw [differences_eq_report hexpected, report_eq_nil_iff,
        allDifferences_eq_nil_iff hexpected hgot]
      exact ⟨hexpected.agrees_symm hgot, hgot.agrees_symm hexpected⟩
    · rw [differences_eq_report hexpected] at hd
      exact holds_of_mem_allDifferences hexpected (mem_of_mem_report hd)
  refine ⟨equivalence_agrees, hcompared, fun source expected m hread ↦ ?_⟩
  rw [(hcompared expected m.toJson (distinctKeys_of_read hread) m.distinctKeys_toJson).1,
    Fixture.judge_eq_none_iff]
  simp

/-- A format with another name and with a key that is not expected. -/
theorem differences_tell_apart_renamed :
    let expected : Json := .array [.object [("fields", .array []), ("name", .string "HEAD")]]
    let got : Json :=
      .array [.object [("extra", .bool true), ("fields", .array []), ("name", .string "FOOT")]]
    (expected.DistinctKeys ∧ got.DistinctKeys) ∧
      differences expected got =
        [⟨[.index 0, .key "name"], .different⟩, ⟨[.index 0, .key "extra"], .unexpected⟩] ∧
      agrees got expected = false ∧ ∀ d ∈ differences expected got, d.Holds expected got := by
  intro expected got
  have hexpected : expected.DistinctKeys := by
    refine .array (List.forall_mem_singleton.2 (.object (by decide) ?_))
    simp only [List.forall_mem_cons]
    exact ⟨.array (List.forall_mem_nil _), .string _, List.forall_mem_nil _⟩
  have hgot : got.DistinctKeys := by
    refine .array (List.forall_mem_singleton.2 (.object (by decide) ?_))
    simp only [List.forall_mem_cons]
    exact ⟨.bool true, .array (List.forall_mem_nil _), .string _, List.forall_mem_nil _⟩
  have hdifferences : differences expected got =
      [⟨[.index 0, .key "name"], .different⟩, ⟨[.index 0, .key "extra"], .unexpected⟩] := by
    decide +kernel
  obtain ⟨hnone, hholds⟩ := differences_tell_apart.2.1 expected got hexpected hgot
  refine ⟨⟨hexpected, hgot⟩, hdifferences, ?_, hholds⟩
  rw [← Bool.not_eq_true, ← hnone, hdifferences]
  exact List.cons_ne_nil _ _

end DisplayFile
