import Mathlib.Data.List.Basic
import Mathlib.Logic.Function.Basic
import Mathlib.Tactic.Common

/-!
# Items in a memory

A memory has an item at each place. `Holds` says that it has the items of a list from a place on; it holds one list
behind another (`holds_append`), and what is written elsewhere does not matter (`Holds.congr`).
-/

set_option autoImplicit false
set_option relaxedAutoImplicit false

namespace SvrDemo.Protocol

variable {β : Type} {memory memory' : ℕ → β} {place : ℕ} {items others : List β}

/-- The memory has some items from a place on. -/
def Holds (memory : ℕ → β) (place : ℕ) (items : List β) : Prop :=
  ∀ i item, items[i]? = some item → memory (place + i) = item

theorem holds_nil (memory : ℕ → β) (place : ℕ) : Holds memory place [] :=
  fun _ _ h ↦ absurd (List.getElem?_nil.symm.trans h).symm (Option.some_ne_none _)

theorem holds_cons {item : β} :
    Holds memory place (item :: items) ↔ memory place = item ∧ Holds memory (place + 1) items := by
  constructor
  · intro h
    refine ⟨h 0 item rfl, fun i other hother ↦ ?_⟩
    rw [Nat.add_assoc, Nat.add_comm 1 i]
    exact h (i + 1) other hother
  · rintro ⟨hfirst, hrest⟩ i other hother
    cases i with
    | zero => exact hfirst.trans (Option.some.inj hother)
    | succ i =>
      rw [← hrest i other hother, Nat.add_assoc, Nat.add_comm 1 i]

theorem holds_singleton {item : β} : Holds memory place [item] ↔ memory place = item :=
  holds_cons.trans (and_iff_left (holds_nil _ _))

theorem holds_append :
    Holds memory place (items ++ others) ↔
      Holds memory place items ∧ Holds memory (place + items.length) others := by
  induction items generalizing place with
  | nil => exact (and_iff_right (holds_nil memory place)).symm
  | cons item items ih =>
    rw [List.cons_append, holds_cons, holds_cons, ih, and_assoc, List.length_cons, Nat.add_right_comm, Nat.add_assoc]

/-- What is written elsewhere does not matter. -/
theorem Holds.congr (h : Holds memory place items)
    (hsame : ∀ i, place ≤ i → i < place + items.length → memory' i = memory i) : Holds memory' place items := by
  intro i item hitem
  have hlt : i < items.length := by
    by_contra hge
    rw [List.getElem?_eq_none (Nat.le_of_not_lt hge)] at hitem
    exact Option.some_ne_none _ hitem.symm
  rw [hsame _ (Nat.le_add_right _ _) (Nat.add_lt_add_left hlt place)]
  exact h i item hitem

/-- Some items of a memory, from a place on. -/
def region (memory : ℕ → β) (place count : ℕ) : List β := (List.range count).map fun i ↦ memory (place + i)

theorem region_zero (memory : ℕ → β) (count : ℕ) : region memory 0 count = (List.range count).map memory := by
  simp only [region, Nat.zero_add]

theorem length_region (memory : ℕ → β) (place count : ℕ) : (region memory place count).length = count := by
  rw [region, List.length_map, List.length_range]

theorem getElem?_region {i count : ℕ} (h : i < count) :
    (region memory place count)[i]? = some (memory (place + i)) := by
  rw [region, List.getElem?_map, List.getElem?_range h]
  rfl

/-- A memory that has the items of another one. -/
theorem holds_region {place' count : ℕ} :
    Holds memory' place' (region memory place count) ↔
      ∀ i, i < count → memory' (place' + i) = memory (place + i) := by
  constructor
  · exact fun h i hi ↦ h i _ (getElem?_region hi)
  · intro h i item hitem
    by_cases hi : i < count
    · rw [getElem?_region hi] at hitem
      exact (h i hi).trans (Option.some.inj hitem)
    · rw [List.getElem?_eq_none ((length_region _ _ _).symm ▸ Nat.le_of_not_lt hi)] at hitem
      exact absurd hitem.symm (Option.some_ne_none _)

theorem region_eq_of_holds (h : Holds memory place items) : region memory place items.length = items := by
  refine List.ext_getElem? fun i ↦ ?_
  by_cases hi : i < items.length
  · rw [getElem?_region hi]
    exact (congrArg some (h i _ (List.getElem?_eq_getElem hi))).trans (List.getElem?_eq_getElem hi).symm
  · rw [List.getElem?_eq_none (Nat.le_of_not_lt hi),
      List.getElem?_eq_none ((length_region _ _ _).symm ▸ Nat.le_of_not_lt hi)]

theorem region_add (memory : ℕ → β) (place first second : ℕ) :
    region memory place (first + second) = region memory place first ++ region memory (place + first) second := by
  rw [region, List.range_add, List.map_append, List.map_map]
  simp only [region, Function.comp_def, Nat.add_assoc]

end SvrDemo.Protocol
