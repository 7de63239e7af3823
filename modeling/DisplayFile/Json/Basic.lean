import DisplayFile.Json.Binary64

/-!
# JSON values

Numbers come in two kinds that print differently, integers and binary numbers. They are compared by
value: each is taken to the nearest number of the binary format, and equal numbers there are equal
(`Number.same`), whatever kind they have and whatever sign a zero has.

The members of an object are kept in ascending order of their keys, each key once. Objects are built
with `insert`, which keeps the order; two objects with the same members are then the same value.
-/

namespace DisplayFile

/-- A JSON number. -/
inductive Number where
  | integer (n : Int)
  | binary (x : Binary64)
deriving DecidableEq, Repr

namespace Number

/-- The number of the binary format nearest to a number, zero without a sign. -/
def nearest? : Number → Option Binary64
  | integer n => (Binary64.ofRatio (n < 0) n.natAbs 1).map (·.value)
  | binary x => some x.value

/-- Whether two numbers have the same value. -/
def same (a b : Number) : Bool :=
  a.nearest? = b.nearest?

end Number

/-- A JSON value. -/
inductive Json where
  | null
  | bool (b : Bool)
  | number (n : Number)
  | string (s : String)
  | array (items : List Json)
  | object (members : List (String × Json))
deriving Repr

namespace Json

/-- The members of an object. -/
abbrev Members := List (String × Json)

/-- A natural number as a JSON value. -/
def ofNat (n : Nat) : Json := .number (.integer n)

/-- The value that a key has. -/
def find? (key : String) (members : Members) : Option Json :=
  members.lookup key

/-- Give a key a value, in place of the one it may have. -/
def insert (key : String) (value : Json) : Members → Members
  | [] => [(key, value)]
  | (k, v) :: rest =>
    if key < k then (key, value) :: (k, v) :: rest
    else if key = k then (key, value) :: rest
    else (k, v) :: insert key value rest

@[simp] theorem find?_cons (key k : String) (v : Json) (rest : Members) :
    find? key ((k, v) :: rest) = if key = k then some v else find? key rest := by
  rw [find?, List.lookup_cons]
  by_cases h : key = k
  · rw [if_pos h, beq_iff_eq.2 h]
  · rw [if_neg h, beq_eq_false_iff_ne.2 h]
    rfl

end Json

end DisplayFile
