import Mathlib.Algebra.BigOperators.Group.Finset.Basic
import Mathlib.Data.Fintype.BigOperators
import Mathlib.Data.Nat.Prime.Factorial
import Mathlib.Data.List.Permutation
import Mathlib.Order.Interval.Finset.Nat

/-!
# Fair rules

A rule that makes outcomes of equally likely draws is `Fair` when every outcome is made by the same number of draws.
The number of outcomes then divides the number of draws. A rule that throws `n` times one of `n` numbers to put `n`
things in order therefore cannot be fair, when there are three things or more: a prime factor of `n - 1` divides the
number of orders and not the number of throws.
-/

set_option autoImplicit false
set_option relaxedAutoImplicit false

namespace SvrDemo.Base

open Finset
open scoped Nat

variable {D O : Type} [DecidableEq O] {draws : Finset D} {outcomes : Finset O} {rule : D → O}

/-- Every outcome is made by the same number of draws. -/
def Fair (draws : Finset D) (outcomes : Finset O) (rule : D → O) : Prop :=
  ∀ first ∈ outcomes, ∀ second ∈ outcomes,
    (draws.filter fun draw ↦ rule draw = first).card = (draws.filter fun draw ↦ rule draw = second).card

/-- The number of outcomes of a fair rule divides the number of draws. -/
theorem Fair.card_dvd (h : Fair draws outcomes rule) (hrule : ∀ draw ∈ draws, rule draw ∈ outcomes) :
    outcomes.card ∣ draws.card := by
  rw [card_eq_sum_card_fiberwise hrule]
  rcases outcomes.eq_empty_or_nonempty with rfl | ⟨first, hfirst⟩
  · simp
  · rw [sum_const_nat fun second hsecond ↦ h second hsecond first hfirst]
    exact Nat.dvd_mul_right _ _

theorem not_factorial_dvd_pow {n : ℕ} (hn : 3 ≤ n) : ¬ n ! ∣ n ^ n := by
  obtain ⟨p, hprime, hdvd⟩ := Nat.exists_prime_and_dvd (show n - 1 ≠ 1 by omega)
  intro hfactorial
  have hle : p ≤ n := (Nat.le_of_dvd (by omega) hdvd).trans (Nat.sub_le n 1)
  have hpow : p ∣ n ^ n := (hprime.dvd_factorial.mpr hle).trans hfactorial
  have hone : p ∣ n - (n - 1) := Nat.dvd_sub (hprime.dvd_of_dvd_pow hpow) hdvd
  rw [show n - (n - 1) = 1 by omega] at hone
  exact hprime.one_lt.ne' (Nat.dvd_one.mp hone)

/-- The throws of one of `n` numbers for each of `n` places. -/
def throws (n : ℕ) : Finset (Fin n → ℕ) := Fintype.piFinset fun _ ↦ Icc 1 n

theorem mem_throws {n : ℕ} {thrown : Fin n → ℕ} : thrown ∈ throws n ↔ ∀ place, 1 ≤ thrown place ∧ thrown place ≤ n := by
  simp [throws, Fintype.mem_piFinset]

theorem card_throws (n : ℕ) : (throws n).card = n ^ n := by simp [throws, Fintype.card_piFinset]

/-- No rule that puts three or more different things in order by as many throws is fair. -/
theorem not_fair_of_throws {α : Type} [DecidableEq α] {things : List α} {n : ℕ} (hthings : things.Nodup)
    (hlength : things.length = n) (hn : 3 ≤ n) {rule : (Fin n → ℕ) → List α}
    (hrule : ∀ thrown ∈ throws n, (rule thrown).Perm things) :
    ¬ Fair (throws n) things.permutations.toFinset rule := by
  intro hfair
  refine not_factorial_dvd_pow hn ?_
  have hdvd := hfair.card_dvd fun thrown hthrown ↦
    List.mem_toFinset.mpr (List.mem_permutations.mpr (hrule thrown hthrown))
  rwa [card_throws, List.toFinset_card_of_nodup (List.nodup_permutations things hthings),
    List.length_permutations, hlength] at hdvd

end SvrDemo.Base
