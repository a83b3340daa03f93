import Mathlib.Data.Nat.ModEq
import Mathlib.Data.List.Basic
import Mathlib.Logic.Function.Basic
import Mathlib.Tactic.Common

/-!
# Ring buffers

A ring buffer is an array that goes round, with the place of its first item and the place behind its last one. It
keeps one place free, so that the two places are the same only when it is empty
(`RingBuffer.Holds.head_eq_tail_iff`). When the last free place is taken, the items move to a larger array. In both
cases it is a queue (`RingBuffer.Holds.push`, `RingBuffer.Holds.pop`).
-/

set_option autoImplicit false
set_option relaxedAutoImplicit false

namespace SvrDemo.Protocol

variable {α : Type}

/-- A ring buffer. A place where no item has been put has none. -/
structure RingBuffer (α : Type) where
  cap : ℕ
  head : ℕ
  tail : ℕ
  slots : ℕ → Option α

namespace RingBuffer

/-- The place behind a place. -/
def next (cap place : ℕ) : ℕ := if cap ≤ place + 1 then 0 else place + 1

def empty (cap : ℕ) : RingBuffer α := ⟨cap, 0, 0, fun _ ↦ none⟩

/-- An item at the end. -/
def put (ring : RingBuffer α) (item : α) : RingBuffer α :=
  { ring with slots := Function.update ring.slots ring.tail (some item), tail := next ring.cap ring.tail }

/-- The items of a full ring at the beginning of another array. -/
def grow (ring : RingBuffer α) (cap : ℕ) : RingBuffer α where
  cap := cap
  head := 0
  tail := ring.cap
  slots i := if i < ring.cap then ring.slots ((ring.head + i) % ring.cap) else none

/-- An item at the end, and another array of a given size if the ring is full then. -/
def push (ring : RingBuffer α) (cap : ℕ) (item : α) : RingBuffer α :=
  if (ring.put item).head = (ring.put item).tail then (ring.put item).grow cap else ring.put item

/-- The first item, if there is one. -/
def pop (ring : RingBuffer α) : Option α × RingBuffer α :=
  if ring.head = ring.tail then (none, ring)
  else (ring.slots ring.head, { ring with head := next ring.cap ring.head })

/-- The ring has some items in their order. -/
structure Holds (ring : RingBuffer α) (items : List α) : Prop where
  head : ring.head < ring.cap
  room : items.length < ring.cap
  tail : ring.tail = (ring.head + items.length) % ring.cap
  slots : ∀ i, i < items.length → ring.slots ((ring.head + i) % ring.cap) = items[i]?

variable {ring : RingBuffer α} {items : List α} {item : α} {cap place : ℕ}

theorem next_eq (hplace : place < cap) : next cap place = (place + 1) % cap := by
  unfold next
  split
  · next hle =>
    have hlast : place + 1 = cap := Nat.le_antisymm hplace hle
    rw [hlast, Nat.mod_self]
  · next hlt => rw [Nat.mod_eq_of_lt (Nat.not_le.mp hlt)]

/-- Places that are less than a turn apart are different. -/
theorem place_injective {head i j : ℕ} (hi : i < cap) (hj : j < cap) (heq : (head + i) % cap = (head + j) % cap) :
    i = j := by
  have hmod : i % cap = j % cap := Nat.ModEq.add_left_cancel' head heq
  rwa [Nat.mod_eq_of_lt hi, Nat.mod_eq_of_lt hj] at hmod

theorem holds_empty (hcap : 0 < cap) : (empty cap : RingBuffer α).Holds [] where
  head := hcap
  room := hcap
  tail := (Nat.zero_mod cap).symm
  slots i hi := absurd hi (Nat.not_lt_zero i)

theorem Holds.tail_lt (h : ring.Holds items) : ring.tail < ring.cap :=
  h.tail ▸ Nat.mod_lt _ (Nat.zero_lt_of_lt h.head)

theorem Holds.head_eq_tail_iff (h : ring.Holds items) : ring.head = ring.tail ↔ items = [] := by
  constructor
  · intro heq
    have hplace : (ring.head + 0) % ring.cap = (ring.head + items.length) % ring.cap := by
      rw [← h.tail, ← heq, Nat.add_zero, Nat.mod_eq_of_lt h.head]
    exact List.eq_nil_of_length_eq_zero (place_injective (Nat.zero_lt_of_lt h.head) h.room hplace).symm
  · rintro rfl
    rw [h.tail, List.length_nil, Nat.add_zero, Nat.mod_eq_of_lt h.head]

/-- A ring has one list of items. -/
theorem Holds.unique {others : List α} (h : ring.Holds items) (hothers : ring.Holds others) : items = others := by
  have hlength : items.length = others.length :=
    place_injective h.room hothers.room (h.tail.symm.trans hothers.tail)
  refine List.ext_getElem? fun i ↦ ?_
  rcases Nat.lt_or_ge i items.length with hlt | hge
  · rw [← h.slots i hlt, hothers.slots i (hlength ▸ hlt)]
  · rw [List.getElem?_eq_none hge, List.getElem?_eq_none (hlength ▸ hge)]

theorem Holds.tail_put (h : ring.Holds items) :
    (ring.put item).tail = (ring.head + (items ++ [item]).length) % ring.cap := by
  change next ring.cap ring.tail = _
  rw [next_eq h.tail_lt, h.tail, Nat.mod_add_mod, List.length_append, List.length_singleton, Nat.add_assoc]

theorem Holds.slots_put (h : ring.Holds items) (i : ℕ) (hi : i < (items ++ [item]).length) :
    (ring.put item).slots ((ring.head + i) % ring.cap) = (items ++ [item])[i]? := by
  change Function.update ring.slots ring.tail (some item) _ = _
  rw [List.length_append, List.length_singleton] at hi
  rcases Nat.eq_or_lt_of_le (Nat.le_of_lt_succ hi) with rfl | hlt
  · rw [← h.tail, Function.update_self, List.getElem?_concat_length]
  · rw [Function.update_of_ne, h.slots i hlt, List.getElem?_append_left hlt]
    intro heq
    rw [h.tail] at heq
    exact Nat.ne_of_lt hlt (place_injective (Nat.lt_trans hlt h.room) h.room heq)

theorem Holds.push (h : ring.Holds items) (hcap : ring.cap < cap) : (ring.push cap item).Holds (items ++ [item]) := by
  have hlength : (items ++ [item]).length = items.length + 1 := List.length_append
  unfold RingBuffer.push
  rcases Nat.eq_or_lt_of_le (Nat.succ_le_of_lt h.room) with hfull | hroom
  · -- the last free place was taken
    have hall : (items ++ [item]).length = ring.cap := hlength.trans hfull
    rw [if_pos (by
      rw [h.tail_put, hall, Nat.add_mod_right, Nat.mod_eq_of_lt h.head]
      rfl)]
    refine ⟨Nat.zero_lt_of_lt hcap, hall.symm ▸ hcap, ?_, fun i hi ↦ ?_⟩
    · change ring.cap = (0 + _) % cap
      rw [hall, Nat.zero_add, Nat.mod_eq_of_lt hcap]
    · change (if (0 + i) % cap < ring.cap then (ring.put item).slots ((ring.head + (0 + i) % cap) % ring.cap)
        else none) = _
      have hlt : i < ring.cap := hall ▸ hi
      rw [Nat.zero_add, Nat.mod_eq_of_lt (Nat.lt_trans hlt hcap), if_pos hlt, h.slots_put i hi]
  · rw [if_neg fun heq ↦ by
      have hplace : (ring.head + 0) % ring.cap = (ring.head + (items ++ [item]).length) % ring.cap := by
        rw [← h.tail_put, ← heq, Nat.add_zero, Nat.mod_eq_of_lt h.head]
        rfl
      have hzero := place_injective (Nat.zero_lt_of_lt h.head) (hlength ▸ hroom) hplace
      omega]
    exact ⟨h.head, hlength ▸ hroom, h.tail_put, h.slots_put⟩

theorem Holds.pop_nil (h : ring.Holds []) : ring.pop = (none, ring) := if_pos (h.head_eq_tail_iff.mpr rfl)

theorem Holds.pop (h : ring.Holds (item :: items)) : ring.pop.1 = some item ∧ ring.pop.2.Holds items := by
  have hroom : items.length + 1 < ring.cap := h.room
  have hplace : ∀ i, (next ring.cap ring.head + i) % ring.cap = (ring.head + (i + 1)) % ring.cap := by
    intro i
    rw [next_eq h.head, Nat.mod_add_mod, Nat.add_assoc, Nat.add_comm 1]
  unfold RingBuffer.pop
  rw [if_neg fun heq ↦ List.cons_ne_nil _ _ (h.head_eq_tail_iff.mp heq)]
  refine ⟨?_, ?_, Nat.lt_of_succ_lt hroom, h.tail.trans (hplace items.length).symm, fun i hi ↦ ?_⟩
  · have hfirst := h.slots 0 (Nat.succ_pos _)
    rwa [Nat.add_zero, Nat.mod_eq_of_lt h.head] at hfirst
  · change next ring.cap ring.head < ring.cap
    rw [next_eq h.head]
    exact Nat.mod_lt _ (Nat.zero_lt_of_lt h.head)
  · change ring.slots ((next ring.cap ring.head + i) % ring.cap) = _
    rw [hplace, h.slots (i + 1) (Nat.succ_lt_succ hi), List.getElem?_cons_succ]

end RingBuffer

end SvrDemo.Protocol
