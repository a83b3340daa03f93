import SvrDemo.Coroutine.Oracle
import SvrDemo.Skynet.Runtime
import Mathlib.Data.Finset.Sort

/-!
# What a Lua service computes

The dice and the traversals of a section under an oracle. `Oracle.favouring` is an oracle that serves one key: it
visits this key before the others, and all its dice show their highest number.
-/

set_option autoImplicit false
set_option relaxedAutoImplicit false

namespace SvrDemo.Skynet

open Coroutine Lua

variable {P σ : Type} {oracle : Oracle skynet} {asked : ℕ} {state : σ}

/-- The number an oracle throws. -/
def dice (oracle : Oracle skynet) (asked limit : ℕ) : ℤ := (oracle.answer asked (.random limit)).toInt

/-- The order in which an oracle visits the keys of a table. -/
def traversal (oracle : Oracle skynet) (asked : ℕ) (keys : Finset ℕ) : List ℕ :=
  (oracle.answer asked (.pairs keys)).toOrder

/-- Only a number in its bounds answers a throw of the dice. -/
theorem bounds_of_admissible {limit : ℕ} {answer : Answer} (hanswer : admissible (.random limit) answer = true) :
    1 ≤ answer.toInt ∧ answer.toInt ≤ limit := by
  cases answer with
  | number value => exact of_decide_eq_true hanswer
  | order _ => exact nomatch hanswer
  | ok => exact nomatch hanswer
  | raised => exact nomatch hanswer

/-- Only an order of the keys answers the question for a traversal. -/
theorem isOrder_of_admissible {keys : Finset ℕ} {answer : Answer} (hanswer : admissible (.pairs keys) answer = true) :
    IsOrder answer.toOrder keys := by
  cases answer with
  | order _ => exact of_decide_eq_true hanswer
  | number _ => exact nomatch hanswer
  | ok => exact nomatch hanswer
  | raised => exact nomatch hanswer

theorem admissible_random {limit : ℕ} (hlimit : 0 < limit) :
    skynet.admissible (Query.random limit) (Answer.number limit) = true :=
  decide_eq_true ⟨by exact_mod_cast hlimit, le_refl _⟩

theorem admissible_length (keys : Finset ℕ) :
    skynet.admissible (Query.length keys) (Answer.number (keys.sup id : ℕ)) = true :=
  decide_eq_true ⟨Int.natCast_nonneg _, isBorder_sup keys⟩

theorem exists_admissible_pairs (keys : Finset ℕ) :
    ∃ order, skynet.admissible (Query.pairs keys) (Answer.order order) = true := by
  obtain ⟨order, horder⟩ := exists_isOrder keys
  exact ⟨order, decide_eq_true horder⟩

theorem dice_bounds (oracle : Oracle skynet) (asked : ℕ) {limit : ℕ} (hlimit : 0 < limit) :
    1 ≤ dice oracle asked limit ∧ dice oracle asked limit ≤ limit :=
  bounds_of_admissible (oracle.admissible asked _ _ (admissible_random hlimit))

theorem isOrder_traversal (oracle : Oracle skynet) (asked : ℕ) (keys : Finset ℕ) :
    IsOrder (traversal oracle asked keys) keys := by
  obtain ⟨order, horder⟩ := exists_admissible_pairs keys
  exact isOrder_of_admissible (oracle.admissible asked _ _ horder)

theorem computes_mathRandom {limit : ℕ} (hlimit : 0 < limit) {post : ℤ → ℕ → σ → Prop}
    (h : post (dice oracle asked limit) (asked + 1) state) :
    (mathRandom limit : Task P σ ℤ).Computes oracle post asked state :=
  Program.computes_bind (Program.computes_query (I := skynet) (admissible_random hlimit) (Program.computes_pure h))

theorem computes_pairs {keys : Finset ℕ} {post : List ℕ → ℕ → σ → Prop}
    (h : post (traversal oracle asked keys) (asked + 1) state) :
    (pairs keys : Task P σ (List ℕ)).Computes oracle post asked state := by
  obtain ⟨order, horder⟩ := exists_admissible_pairs keys
  exact Program.computes_bind (Program.computes_query (I := skynet) horder (Program.computes_pure h))

/-- The traversal that visits a key before the others. -/
def visitFirst (key : ℕ) (keys : Finset ℕ) : List ℕ :=
  if key ∈ keys then key :: (keys.erase key).sort else keys.sort

theorem isOrder_visitFirst (key : ℕ) (keys : Finset ℕ) : IsOrder (visitFirst key keys) keys := by
  unfold visitFirst
  split
  · rename_i hkey
    refine ⟨List.nodup_cons.mpr ⟨?_, Finset.sort_nodup _ _⟩, ?_⟩
    · rw [Finset.mem_sort]
      exact Finset.notMem_erase key keys
    · rw [List.toFinset_cons, Finset.sort_toFinset, Finset.insert_erase hkey]
  · exact ⟨Finset.sort_nodup _ _, Finset.sort_toFinset _ _⟩

/-- The answers in favour of a key. -/
def favourable (key : ℕ) : Query → Answer
  | .random limit => .number limit
  | .time => .number 0
  | .length keys => .number (keys.sup id : ℕ)
  | .pairs keys => .order (visitFirst key keys)
  | .rehashed => .ok
  | .remaining => .order []

/-- The oracle in favour of a key. -/
def favouring (key : ℕ) : Oracle skynet where
  answer _ := favourable key
  admissible _ query answered hanswered := by
    cases query with
    | random limit =>
      obtain ⟨hlow, hhigh⟩ := bounds_of_admissible hanswered
      exact decide_eq_true ⟨hlow.trans hhigh, le_refl _⟩
    | time => rfl
    | length keys => exact admissible_length keys
    | pairs keys => exact decide_eq_true (isOrder_visitFirst key keys)
    | rehashed => rfl
    | remaining => rfl

@[simp]
theorem dice_favouring (key asked limit : ℕ) : dice (favouring key) asked limit = limit := rfl

@[simp]
theorem traversal_favouring (key asked : ℕ) (keys : Finset ℕ) :
    traversal (favouring key) asked keys = visitFirst key keys := rfl

/-- The oracle that throws given numbers, as far as they lie in the bounds, and visits the keys in their order. -/
def throwing (numbers : ℕ → ℕ) : Oracle skynet where
  answer asked
    | .random limit => .number (if 1 ≤ numbers asked ∧ numbers asked ≤ limit then numbers asked else limit)
    | .time => .number 0
    | .length keys => .number (keys.sup id : ℕ)
    | .pairs keys => .order keys.sort
    | .rehashed => .ok
    | .remaining => .order []
  admissible asked query answered hanswered := by
    cases query with
    | random limit =>
      obtain ⟨hlow, hhigh⟩ := bounds_of_admissible hanswered
      refine decide_eq_true ?_
      split_ifs with hbounds
      · exact_mod_cast hbounds
      · exact ⟨hlow.trans hhigh, le_refl _⟩
    | time => rfl
    | length keys => exact admissible_length keys
    | pairs keys => exact decide_eq_true ⟨Finset.sort_nodup _ _, Finset.sort_toFinset _ _⟩
    | rehashed => rfl
    | remaining => rfl

theorem dice_throwing {numbers : ℕ → ℕ} {asked limit : ℕ} (hbounds : 1 ≤ numbers asked ∧ numbers asked ≤ limit) :
    dice (throwing numbers) asked limit = numbers asked :=
  if_pos hbounds

end SvrDemo.Skynet
