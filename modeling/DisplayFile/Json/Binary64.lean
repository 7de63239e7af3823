/-!
# Binary numbers of 64 bits

JSON numbers that are not integers are held in the binary format of 64 bits, and two numbers are
compared by the nearest number of that format. The format is exact here: a number is a sign and a
mantissa times a power of two, and every operation is the exact one followed by one rounding
(`ofRatio`). Infinities do not occur, since a number too large to be held is refused.

The decimal text of such a number is the shortest that is nearer to it than to any other number of
the format (`shortest`). The numbers nearest to it fill an interval. A decimal text with its last
digit at the power `k` is a multiple of `10 ^ k`, so the shortest text lies on the coarsest decimal
grid that has a point in the interval, and there it is one of the two neighbours of the number.
-/

namespace DisplayFile

/-- The number `± mantissa * 2 ^ exponent`. -/
structure Binary64 where
  negative : Bool
  mantissa : Nat
  exponent : Int
deriving DecidableEq, Repr

namespace Binary64

/-- Mantissas have this many bits. -/
def precision : Nat := 53

/-- The least exponent. -/
def leastExponent : Int := -1074

/-- The greatest exponent. -/
def greatestExponent : Int := 971

/-- The quotient nearest to `n / d`. Halfway between two, it is the even one. -/
def nearestQuotient (n d : Nat) : Nat :=
  let q := n / d
  let r := n % d
  if d < 2 * r ∨ (2 * r = d ∧ q % 2 = 1) then q + 1 else q

/-- The ratio `n / d` divided by `2 ^ e`, as a ratio. -/
def scaleDown (n d : Nat) (e : Int) : Nat × Nat :=
  if 0 ≤ e then (n, d * Nat.pow 2 e.toNat) else (n * Nat.pow 2 (-e).toNat, d)

/-- The exponent at which the mantissa nearest to `n / d` has all its bits, or the least one. -/
def exponentFor (n d : Nat) : Int :=
  let guess : Int := (Nat.log2 n : Int) - (Nat.log2 d : Int) - (precision - 1 : Nat)
  let scaled := scaleDown n d guess
  let fitted := if scaled.1 / scaled.2 < Nat.pow 2 (precision - 1) then guess - 1 else guess
  max fitted leastExponent

/-- Zero. -/
def zero (negative : Bool) : Binary64 :=
  { negative, mantissa := 0, exponent := leastExponent }

/-- The number nearest to `± n / d`, unless it is too large. -/
def ofRatio (negative : Bool) (n d : Nat) : Option Binary64 :=
  if n = 0 then some (zero negative)
  else
    let e := exponentFor n d
    let scaled := scaleDown n d e
    let m := nearestQuotient scaled.1 scaled.2
    let carried := m = Nat.pow 2 precision
    let mantissa := if carried then Nat.pow 2 (precision - 1) else m
    let exponent := if carried then e + 1 else e
    if greatestExponent < exponent then none else some { negative, mantissa, exponent }

/-- A number above this power of ten is too large, and one below its inverse rounds to zero. -/
def decimalLimit : Nat := 400

/-- The number nearest to `± digits * 10 ^ power`, unless it is too large. -/
def ofDecimal (negative : Bool) (digits : Nat) (power : Int) : Option Binary64 :=
  if digits = 0 then some (zero negative)
  else if decimalLimit < power then none
  else if power + (toString digits).length < -decimalLimit then some (zero negative)
  else ofRatio negative (digits * Nat.pow 10 power.toNat) (Nat.pow 10 (-power).toNat)

/-- The size of a number, as a ratio. -/
def ratio (x : Binary64) : Nat × Nat :=
  if 0 ≤ x.exponent then (x.mantissa * Nat.pow 2 x.exponent.toNat, 1)
  else (x.mantissa, Nat.pow 2 (-x.exponent).toNat)

/-- The product, unless it is too large. -/
def mul (x y : Binary64) : Option Binary64 :=
  ofRatio (x.negative != y.negative) (x.ratio.1 * y.ratio.1) (x.ratio.2 * y.ratio.2)

/-- The quotient, unless it is too large. -/
def div (x y : Binary64) : Option Binary64 :=
  ofRatio (x.negative != y.negative) (x.ratio.1 * y.ratio.2) (x.ratio.2 * y.ratio.1)

/-- The number without the sign of zero, which says nothing about its value. -/
def value (x : Binary64) : Binary64 :=
  if x.mantissa = 0 then zero false else x

/-! ### Shortest decimal text -/

/-- The interval of the numbers that round to a number, in quarters of its last binary place: its
lower end, the number and its upper end. Below a power of two the numbers are twice as close. -/
def interval (x : Binary64) : Nat × Nat × Nat :=
  let low :=
    if x.mantissa = Nat.pow 2 (precision - 1) ∧ leastExponent < x.exponent then 4 * x.mantissa - 1
    else 4 * x.mantissa - 2
  (low, 4 * x.mantissa, 4 * x.mantissa + 2)

/-- The neighbour of a number on the grid of the multiples of `10 ^ k` that rounds to it, as a
multiple. Of two the nearer is taken, or the even one halfway between. -/
def neighbour? (x : Binary64) (k : Int) : Option Nat :=
  let (low, middle, high) := x.interval
  -- A quarter of the last place over `10 ^ k` is the ratio `unit / grid`.
  let place := x.exponent - 2
  let unit := Nat.pow 2 place.toNat * Nat.pow 10 (-k).toNat
  let grid := Nat.pow 2 (-place).toNat * Nat.pow 10 k.toNat
  let rounds := fun c : Nat ↦
    if x.mantissa % 2 = 0 then low * unit ≤ c * grid ∧ c * grid ≤ high * unit
    else low * unit < c * grid ∧ c * grid < high * unit
  let nearest := nearestQuotient (middle * unit) grid
  let below := middle * unit / grid
  if rounds nearest then some nearest
  else if rounds below then some below
  else if rounds (below + 1) then some (below + 1)
  else none

/-- The powers of ten at which the last digit of a number can stand, the coarsest first. -/
def places : List Int :=
  (List.range 660).map fun i : Nat ↦ 310 - (i : Int)

/-- The shortest decimal text of a number above zero: its digits as a number, and the power of ten
at which the last of them stands. -/
def shortest (x : Binary64) : Nat × Int :=
  (places.findSome? fun k ↦ (x.neighbour? k).map fun c ↦ (c, k)).getD (0, 0)

end Binary64

end DisplayFile
