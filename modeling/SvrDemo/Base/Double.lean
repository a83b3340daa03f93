import Mathlib.Algebra.Order.Group.Nat
import Mathlib.Data.Nat.Size
import Mathlib.Tactic.Common

/-!
# Natural numbers as doubles

A double has 53 significant bits. `toDouble` is the nearest natural number that has no more of them, with the even one
of two that are equally near: what a conversion, or a product, of natural numbers is rounded to.
-/

set_option autoImplicit false
set_option relaxedAutoImplicit false

namespace SvrDemo.Base

/-- What the last significant bit of a natural number is worth as a double. -/
def lastBit (n : ℕ) : ℕ := 2 ^ (n.size - 53)

/-- The nearest double, ties to even. -/
def toDouble (n : ℕ) : ℕ :=
  let significand := n / lastBit n
  let rest := n % lastBit n
  if 2 * rest < lastBit n then significand * lastBit n
  else if lastBit n < 2 * rest then (significand + 1) * lastBit n
  else (significand + significand % 2) * lastBit n

/-- A number of 53 bits is a double. -/
theorem toDouble_of_lt {n : ℕ} (hn : n < 2 ^ 53) : toDouble n = n := by
  have hbit : lastBit n = 1 := by
    rw [lastBit, Nat.sub_eq_zero_of_le (Nat.size_le.mpr hn), pow_zero]
  simp [toDouble, hbit, Nat.mod_one]

theorem lastBit_le {n : ℕ} (hn : 0 < n) : lastBit n ≤ n := by
  have hsize : 2 ^ (n.size - 1) ≤ n := by
    by_contra hlt
    have := Nat.size_le.mpr (not_le.mp hlt)
    have := Nat.size_pos.mpr hn
    omega
  exact (Nat.pow_le_pow_right Nat.two_pos (by omega)).trans hsize

/-- A conversion does not lose more than half of a number. -/
theorem le_two_mul_toDouble (n : ℕ) : n ≤ 2 * toDouble n := by
  rcases Nat.eq_zero_or_pos n with rfl | hn
  · exact Nat.zero_le _
  · have hpos : 0 < lastBit n := Nat.two_pow_pos _
    have hsignificand : 1 ≤ n / lastBit n := Nat.div_pos (lastBit_le hn) hpos
    have hfloor : n / lastBit n * lastBit n ≤ toDouble n := by
      unfold toDouble
      dsimp only
      split_ifs
      · exact le_rfl
      · exact Nat.mul_le_mul_right _ (Nat.le_add_right _ _)
      · exact Nat.mul_le_mul_right _ (Nat.le_add_right _ _)
    have hunit : lastBit n ≤ n / lastBit n * lastBit n := Nat.le_mul_of_pos_left _ hsignificand
    have hrest := Nat.mod_lt n hpos
    have hsplit := Nat.div_add_mod' n (lastBit n)
    omega

end SvrDemo.Base
