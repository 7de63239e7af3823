/-!
# Indicators

An indicator is a switch with a number in one byte. A program turns indicators on and off, and the
source says which of them a field or a keyword asks for.

A set of indicators is its membership test and nothing else. Sets with the same members are equal
(`Indicators.ext`), so the order and the repetitions of a list of indicators cannot be seen in the
set it makes.
-/

namespace DisplayFile

/-- The indicators that are on; all others are off. -/
@[ext] structure Indicators where
  /-- Whether an indicator is on. -/
  isOn : UInt8 → Bool

namespace Indicators

/-- No indicator is on. -/
def none : Indicators := ⟨fun _ ↦ false⟩

/-- Turn an indicator on or off. -/
def set (s : Indicators) (n : UInt8) (on : Bool) : Indicators :=
  ⟨fun m ↦ if m = n then on else s.isOn m⟩

/-- Exactly the listed indicators are on. -/
def ofList (ns : List UInt8) : Indicators :=
  ⟨fun n ↦ ns.contains n⟩

/-- The indicators that are on, in ascending order. -/
def toList (s : Indicators) : List UInt8 :=
  ((List.range 256).map UInt8.ofNat).filter s.isOn

theorem isOn_set (s : Indicators) (n m : UInt8) (on : Bool) :
    (s.set n on).isOn m = if m = n then on else s.isOn m := rfl

theorem isOn_ofList (ns : List UInt8) (n : UInt8) : (ofList ns).isOn n = ns.contains n := rfl

/-- Only the members of a list matter. -/
theorem ofList_congr {as bs : List UInt8} (h : ∀ n, n ∈ as ↔ n ∈ bs) : ofList as = ofList bs := by
  ext n
  rw [isOn_ofList, isOn_ofList, Bool.eq_iff_iff, List.contains_iff_mem, List.contains_iff_mem]
  exact h n

end Indicators

end DisplayFile
