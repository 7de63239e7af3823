import DisplayFile.Json.Basic
import Mathlib.Data.Nat.Log
import Mathlib.Tactic.Ring

/-!
# Integers in the binary format

Numbers are compared by the nearest number of the binary format. Below 2⁵³ every natural number is
one itself: its mantissa is the number, moved up until it has all its bits, and no bit is lost
(`ofRatio_one_of_lt`). From 2⁵³ on the last place of a number is worth more than one, so that no
number of the format that is nearest to one of these is nearest to a smaller one
(`exponent_of_ofRatio_one`). Comparing a number below 2⁵³ with any other natural number is therefore
exact (`Number.same_integer_iff`).
-/

namespace DisplayFile

namespace Binary64

theorem pow_precision : Nat.pow 2 precision = 2 ^ 53 := rfl

theorem pow_precision_sub_one : Nat.pow 2 (precision - 1) = 2 ^ 52 := rfl

/-! ### Where the bits of a number go -/

/-- A number of few bits is moved up. -/
theorem scaleDown_of_le {l : Nat} (n : Nat) (h : l ≤ 52) :
    scaleDown n 1 ((l : Int) - 52) = (n * 2 ^ (52 - l), 1) := by
  rw [scaleDown]
  split
  · next hpos =>
    obtain rfl : l = 52 := by omega
    simp
  · have hup : (-((l : Int) - 52)).toNat = 52 - l := by omega
    rw [hup, Nat.pow_eq]

/-- A number of many bits is divided. -/
theorem scaleDown_of_ge {l : Nat} (n : Nat) (h : 52 ≤ l) :
    scaleDown n 1 ((l : Int) - 52) = (n, 2 ^ (l - 52)) := by
  have hdown : ((l : Int) - 52).toNat = l - 52 := by omega
  rw [scaleDown, if_pos (by omega), hdown, Nat.one_mul, Nat.pow_eq]

/-- The highest bit of a number is then in the highest place of a mantissa. -/
theorem le_div_scaleDown {n : Nat} (hn : n ≠ 0) :
    2 ^ 52 ≤ (scaleDown n 1 ((n.log2 : Int) - 52)).1 / (scaleDown n 1 ((n.log2 : Int) - 52)).2 := by
  have hlow : 2 ^ n.log2 ≤ n := Nat.log2_self_le hn
  rcases Nat.le_total n.log2 52 with h | h
  · rw [scaleDown_of_le n h, Nat.div_one]
    calc 2 ^ 52 = 2 ^ n.log2 * 2 ^ (52 - n.log2) := by rw [← Nat.pow_add, Nat.add_sub_cancel' h]
      _ ≤ n * 2 ^ (52 - n.log2) := Nat.mul_le_mul_right _ hlow
  · rw [scaleDown_of_ge n h, Nat.le_div_iff_mul_le (Nat.two_pow_pos _)]
    calc 2 ^ 52 * 2 ^ (n.log2 - 52) = 2 ^ n.log2 := by rw [← Nat.pow_add, Nat.add_sub_cancel' h]
      _ ≤ n := hlow

theorem exponentFor_one {n : Nat} (hn : n ≠ 0) : exponentFor n 1 = (n.log2 : Int) - 52 := by
  have hguess : (n.log2 : Int) - (Nat.log2 1 : Int) - (precision - 1 : Nat) = n.log2 - 52 := by
    have hone : Nat.log2 1 = 0 := by decide
    rw [hone]
    show (n.log2 : Int) - 0 - 52 = n.log2 - 52
    omega
  have hfit := le_div_scaleDown hn
  rw [exponentFor]
  simp only [hguess, pow_precision_sub_one]
  rw [if_neg (Nat.not_lt.2 hfit), leastExponent]
  omega

/-! ### The number nearest to a natural number -/

theorem nearestQuotient_one (n : Nat) : nearestQuotient n 1 = n := by
  simp [nearestQuotient, Nat.mod_one]

theorem le_nearestQuotient (n d : Nat) : n / d ≤ nearestQuotient n d := by
  simp only [nearestQuotient]
  split
  · exact Nat.le_succ _
  · exact Nat.le_refl _

/-- **A natural number below 2⁵³ is a number of the format.** -/
theorem ofRatio_one_of_lt {n : Nat} (hn : n ≠ 0) (h : n < 2 ^ 53) :
    ofRatio false n 1 =
      some
        { negative := false
          mantissa := n * 2 ^ (52 - n.log2)
          exponent := (n.log2 : Int) - 52 } := by
  have hlog : n.log2 ≤ 52 := Nat.le_of_lt_succ ((Nat.log2_lt hn).2 h)
  have hmantissa : n * 2 ^ (52 - n.log2) < 2 ^ 53 :=
    calc n * 2 ^ (52 - n.log2)
        < 2 ^ (n.log2 + 1) * 2 ^ (52 - n.log2) :=
          Nat.mul_lt_mul_of_pos_right Nat.lt_log2_self (Nat.two_pow_pos _)
      _ = 2 ^ 53 := by
          rw [← Nat.pow_add]
          congr 1
          omega
  rw [ofRatio, if_neg hn]
  simp only [exponentFor_one hn, scaleDown_of_le n hlog, nearestQuotient_one, pow_precision]
  rw [if_neg (Nat.ne_of_lt hmantissa), if_neg (Nat.ne_of_lt hmantissa), if_neg]
  show ¬(971 : Int) < n.log2 - 52
  omega

/-- The last place of a number from 2⁵³ on is worth more than one. -/
theorem exponent_of_ofRatio_one {n : Nat} (h : 2 ^ 53 ≤ n) {x : Binary64}
    (hx : ofRatio false n 1 = some x) : 1 ≤ x.exponent ∧ x.mantissa ≠ 0 := by
  have hn : n ≠ 0 := Nat.ne_of_gt (Nat.lt_of_lt_of_le (Nat.two_pow_pos 53) h)
  have hlog : 53 ≤ n.log2 := (Nat.le_log2 hn).2 h
  have hmantissa := Nat.le_trans (le_div_scaleDown hn) (le_nearestQuotient _ _)
  simp only [ofRatio, if_neg hn, exponentFor_one hn] at hx
  obtain ⟨-, hx⟩ := Option.ite_none_left_eq_some.1 hx
  obtain rfl := Option.some.inj hx
  dsimp only
  split
  · exact ⟨by omega, Nat.ne_of_gt (Nat.two_pow_pos _)⟩
  · exact ⟨by omega, Nat.ne_of_gt (Nat.lt_of_lt_of_le (Nat.two_pow_pos _) hmantissa)⟩

end Binary64

/-! ### Comparing natural numbers -/

namespace Number

theorem nearest?_natCast (n : Nat) :
    (integer n).nearest? = (Binary64.ofRatio false n 1).map Binary64.value := rfl

/-- A number below 2⁵³ is its mantissa moved up by as many places as its exponent says. -/
theorem nearest?_of_lt {n : Nat} (h : n < 2 ^ 53) :
    ∃ k : Nat, (integer n).nearest? =
      some { negative := false, mantissa := n * 2 ^ k, exponent := -(k : Int) } := by
  by_cases hn : n = 0
  · subst hn
    exact ⟨1074, by rw [Nat.zero_mul]; rfl⟩
  · have hmantissa : n * 2 ^ (52 - n.log2) ≠ 0 :=
      Nat.mul_ne_zero hn (Nat.ne_of_gt (Nat.two_pow_pos _))
    have hlog : n.log2 ≤ 52 := Nat.le_of_lt_succ ((Nat.log2_lt hn).2 h)
    have hexponent : (n.log2 : Int) - 52 = -((52 - n.log2 : Nat) : Int) := by omega
    refine ⟨52 - n.log2, ?_⟩
    rw [nearest?_natCast, Binary64.ofRatio_one_of_lt hn h, Option.map_some, Binary64.value,
      if_neg hmantissa, hexponent]

theorem one_le_exponent_of_nearest? {n : Nat} (h : 2 ^ 53 ≤ n) {x : Binary64}
    (hx : (integer n).nearest? = some x) : 1 ≤ x.exponent := by
  obtain ⟨y, hy, rfl⟩ := Option.map_eq_some_iff.1 hx
  obtain ⟨hexponent, hmantissa⟩ := Binary64.exponent_of_ofRatio_one h hy
  rw [Binary64.value, if_neg hmantissa]
  exact hexponent

/-- **Numbers below 2⁵³ are compared exactly**, also with greater ones. -/
theorem same_integer_iff (a : Nat) {b : Nat} (hb : b < 2 ^ 53) :
    same (integer a) (integer b) = true ↔ a = b := by
  rw [same, decide_eq_true_iff]
  refine ⟨fun h ↦ ?_, fun h ↦ by rw [h]⟩
  obtain ⟨k, hk⟩ := nearest?_of_lt hb
  rw [hk] at h
  rcases Nat.lt_or_ge a (2 ^ 53) with ha | ha
  · obtain ⟨j, hj⟩ := nearest?_of_lt ha
    rw [hj, Option.some.injEq, Binary64.mk.injEq] at h
    obtain ⟨-, hmantissa, hexponent⟩ := h
    obtain rfl : j = k := by omega
    exact Nat.eq_of_mul_eq_mul_right (Nat.two_pow_pos j) hmantissa
  · have hpos := one_le_exponent_of_nearest? ha h
    dsimp only at hpos
    omega

end Number

/-- The first number that is not compared exactly. -/
example : Number.same (.integer (2 ^ 53)) (.integer (2 ^ 53 + 1)) = true := by
  decide +kernel

end DisplayFile
