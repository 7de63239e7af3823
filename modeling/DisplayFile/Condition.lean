import DisplayFile.Indicators
import DisplayFile.Text.Numeral

/-!
# Conditions

A line of a member can be conditioned on indicators. Its conditioning zone has ten columns: one for
AND or OR, which carries no condition of its own here, and three slots of three columns. A slot
holds a flag, `N` for "not", and the number of an indicator in the two columns after it.

A zone shorter than ten columns reads as if blanks followed it, and a slot whose number cannot be
read gives no condition.
-/

namespace DisplayFile

/-- The test that an indicator is on or, negated, that it is off. -/
structure Condition where
  indicator : UInt8
  negated : Bool
deriving DecidableEq, Repr

namespace Condition

/-- The condition in a slot. -/
def ofSlot? (flag tens units : Char) : Option Condition :=
  (Text.Numeral.byte? (Text.trim [tens, units])).map fun n ↦ ⟨n, flag = 'N'⟩

/-- The first column of each slot of a zone. -/
def slots : List Nat := [1, 4, 7]

/-- The conditions of a conditioning zone, in the order of its slots. -/
def ofZone (zone : String) : List Condition :=
  let cs := zone.toList
  slots.filterMap fun i ↦ ofSlot? (cs.getD i ' ') (cs.getD (i + 1) ' ') (cs.getD (i + 2) ' ')

/-- Whether a condition holds. -/
def holds (c : Condition) (s : Indicators) : Bool :=
  s.isOn c.indicator != c.negated

/-- Whether every condition of a list holds. The empty list asks for nothing. -/
def allHold (cs : List Condition) (s : Indicators) : Bool :=
  cs.all (·.holds s)

theorem length_ofZone_le (zone : String) : (ofZone zone).length ≤ 3 :=
  List.length_filterMap_le _ _

@[simp] theorem allHold_nil (s : Indicators) : allHold [] s = true := rfl

end Condition

end DisplayFile
