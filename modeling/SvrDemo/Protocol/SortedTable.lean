import Mathlib.Data.List.Basic
import Mathlib.Data.Nat.Basic
import Mathlib.Tactic.Common

/-!
# Sorted tables

A table with the entries in the order of their keys, which are compared by a function. `search` cuts a part of the table
in two halves until it has found the key or the place where an entry with that key belongs (`Sorted.search_spec`). There
an entry can be put in (`Sorted.insert`).
-/

set_option autoImplicit false
set_option relaxedAutoImplicit false

namespace SvrDemo.Protocol

open Std

variable {ε κ : Type} (key : ε → κ) (cmp : κ → κ → Ordering)

/-- The keys rise. -/
def Sorted (table : List ε) : Prop := table.Pairwise fun entry other ↦ cmp (key entry) (key other) = .lt

/-- Look for a key between two places: the entry that has it, or the place where it belongs. The turns that are left
bound the search. -/
def search (table : List ε) (wanted : κ) : ℕ → ℕ → ℕ → ε ⊕ ℕ
  | 0, first, _ => .inr first
  | turns + 1, first, stop =>
    if first < stop then
      let middle := (first + stop - 1) / 2
      match table[middle]? with
      | none => .inr first
      | some entry =>
        match cmp (key entry) wanted with
        | .eq => .inl entry
        | .lt => search table wanted turns (middle + 1) stop
        | .gt => search table wanted turns first middle
    else .inr first

variable {key cmp} {table : List ε} {wanted : κ} {place : ℕ}

/-- A place divides the entries with smaller keys from those with larger ones. -/
structure Divides (key : ε → κ) (cmp : κ → κ → Ordering) (table : List ε) (wanted : κ) (first stop : ℕ) : Prop where
  le : first ≤ stop
  length : stop ≤ table.length
  below : ∀ i entry, i < first → table[i]? = some entry → cmp (key entry) wanted = .lt
  above : ∀ i entry, stop ≤ i → table[i]? = some entry → cmp wanted (key entry) = .lt

/-- Either an entry has the key, or there is a place for it. -/
def Finds (key : ε → κ) (cmp : κ → κ → Ordering) (table : List ε) (wanted : κ) : ε ⊕ ℕ → Prop
  | .inl entry => entry ∈ table ∧ cmp (key entry) wanted = .eq
  | .inr place => Divides key cmp table wanted place place

theorem Sorted.lt_of_lt (h : Sorted key cmp table) {i j : ℕ} (hlt : i < j) {entry other : ε}
    (hentry : table[i]? = some entry) (hother : table[j]? = some other) : cmp (key entry) (key other) = .lt := by
  obtain ⟨hi, rfl⟩ := List.getElem?_eq_some_iff.mp hentry
  obtain ⟨hj, rfl⟩ := List.getElem?_eq_some_iff.mp hother
  exact List.pairwise_iff_getElem.mp h i j hi hj hlt

theorem Sorted.search_spec [TransCmp cmp] (h : Sorted key cmp table) {turns first stop : ℕ}
    (hdivides : Divides key cmp table wanted first stop) (hturns : stop - first ≤ turns) :
    Finds key cmp table wanted (search key cmp table wanted turns first stop) := by
  induction turns generalizing first stop with
  | zero =>
    obtain rfl : first = stop := Nat.le_antisymm hdivides.le (by omega)
    exact hdivides
  | succ turns ih =>
    rw [search]
    by_cases hmore : first < stop
    · rw [if_pos hmore]
      have hmiddle : (first + stop - 1) / 2 < stop := by omega
      have hfirst : first ≤ (first + stop - 1) / 2 := by omega
      generalize (first + stop - 1) / 2 = middle at *
      have hlength := hdivides.length
      have hget := List.getElem?_eq_getElem (Nat.lt_of_lt_of_le hmiddle hlength)
      generalize table[middle] = entry at hget
      dsimp only
      rw [hget]
      dsimp only
      cases hcmp : cmp (key entry) wanted with
      | eq => exact ⟨List.mem_of_getElem? hget, hcmp⟩
      | lt =>
        refine ih ⟨hmiddle, hlength, fun i other hi hother ↦ ?_, hdivides.above⟩ (by omega)
        rcases Nat.eq_or_lt_of_le (Nat.le_of_lt_succ hi) with rfl | hlt
        · rwa [← Option.some.inj (hget.symm.trans hother)]
        · exact TransCmp.lt_trans (h.lt_of_lt hlt hother hget) hcmp
      | gt =>
        have hafter : cmp wanted (key entry) = .lt := OrientedCmp.lt_of_gt hcmp
        refine ih ⟨hfirst, by omega, hdivides.below, fun i other hi hother ↦ ?_⟩ (by omega)
        rcases Nat.eq_or_lt_of_le hi with rfl | hlt
        · rwa [← Option.some.inj (hget.symm.trans hother)]
        · exact TransCmp.lt_trans hafter (h.lt_of_lt hlt hget hother)
    · rw [if_neg hmore]
      obtain rfl : first = stop := Nat.le_antisymm hdivides.le (by omega)
      exact hdivides

/-- The search in the whole table. -/
theorem Sorted.search_whole [TransCmp cmp] (h : Sorted key cmp table) (wanted : κ) :
    Finds key cmp table wanted (search key cmp table wanted table.length 0 table.length) := by
  refine h.search_spec ⟨Nat.zero_le _, Nat.le_refl _, fun i _ hi ↦ absurd hi (Nat.not_lt_zero i),
    fun i entry hi hget ↦ ?_⟩ (Nat.sub_le _ _)
  rw [List.getElem?_eq_none hi] at hget
  exact absurd hget.symm (Option.some_ne_none _)

/-- No entry has a key that has a place between the entries. -/
theorem Divides.ne [OrientedCmp cmp] (h : Divides key cmp table wanted place place) {entry : ε} (hmem : entry ∈ table) :
    cmp (key entry) wanted ≠ .eq := by
  obtain ⟨i, hi⟩ := List.mem_iff_getElem?.mp hmem
  rcases Nat.lt_or_ge i place with hlt | hge
  · rw [h.below i entry hlt hi]
    exact Ordering.noConfusion
  · rw [OrientedCmp.gt_of_lt (h.above i entry hge hi)]
    exact Ordering.noConfusion

/-- An entry in its place. -/
theorem Sorted.insert (h : Sorted key cmp table) {entry : ε}
    (hdivides : Divides key cmp table (key entry) place place) :
    Sorted key cmp (table.take place ++ entry :: table.drop place) := by
  have hwhole : (table.take place ++ table.drop place).Pairwise
      fun entry other ↦ cmp (key entry) (key other) = .lt := by
    rwa [List.take_append_drop]
  obtain ⟨hbefore, hafter, hacross⟩ := List.pairwise_append.mp hwhole
  refine List.pairwise_append.mpr ⟨hbefore, List.pairwise_cons.mpr ⟨fun other hmem ↦ ?_, hafter⟩,
    fun other hmem last hlast ↦ ?_⟩
  · obtain ⟨i, hi⟩ := List.mem_iff_getElem?.mp hmem
    rw [List.getElem?_drop] at hi
    exact hdivides.above _ _ (Nat.le_add_right _ _) hi
  · rcases List.mem_cons.mp hlast with rfl | hlast
    · obtain ⟨i, hi⟩ := List.mem_iff_getElem?.mp hmem
      rw [List.getElem?_take] at hi
      obtain ⟨hlt, hget⟩ := Option.ite_none_right_eq_some.mp hi
      exact hdivides.below i other hlt hget
    · exact hacross other hmem last hlast

end SvrDemo.Protocol
