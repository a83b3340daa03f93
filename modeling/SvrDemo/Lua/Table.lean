import Mathlib.Data.Finmap
import Mathlib.Data.BitVec
import Mathlib.Algebra.BigOperators.Group.Finset.Basic
import Mathlib.Order.Lattice.Nat

/-!
# Tables and integers

`Table` is a finite table with number keys. A traversal of a table visits every key once, in an
order the language leaves open: `IsOrder` holds of the lists a traversal can follow. `IsBorder` holds of
the numbers that the length operator can give. `Table.update`
changes the record under a key in place, and leaves the table alone when the key is absent.

`LuaInt` is the 64-bit integer of the language, whose arithmetic wraps around.
-/

set_option autoImplicit false
set_option relaxedAutoImplicit false

namespace SvrDemo.Lua

/-- A table with number keys. -/
abbrev Table (α : Type) : Type := Finmap fun _ : ℕ ↦ α

/-- The 64-bit integers, with wrap-around arithmetic. -/
abbrev LuaInt : Type := BitVec 64

/-- The lists a traversal of the keys can follow: every key once. -/
def IsOrder (order : List ℕ) (keys : Finset ℕ) : Prop :=
  order.Nodup ∧ order.toFinset = keys

instance (order : List ℕ) (keys : Finset ℕ) : Decidable (IsOrder order keys) :=
  inferInstanceAs (Decidable (order.Nodup ∧ order.toFinset = keys))

theorem IsOrder.mem_iff {order : List ℕ} {keys : Finset ℕ} (horder : IsOrder order keys) {key : ℕ} :
    key ∈ order ↔ key ∈ keys := by
  rw [← horder.2, List.mem_toFinset]

/-- Every table can be traversed. -/
theorem exists_isOrder (keys : Finset ℕ) : ∃ order, IsOrder order keys :=
  ⟨keys.toList, keys.nodup_toList, keys.toList_toFinset⟩

/-- The numbers that the length operator can give for a table with these keys: 0 or a key, which no key
follows. -/
def IsBorder (length : ℕ) (keys : Finset ℕ) : Prop :=
  (length = 0 ∨ length ∈ keys) ∧ length + 1 ∉ keys

instance (length : ℕ) (keys : Finset ℕ) : Decidable (IsBorder length keys) :=
  inferInstanceAs (Decidable ((length = 0 ∨ length ∈ keys) ∧ length + 1 ∉ keys))

/-- Every table has a border. -/
theorem isBorder_sup (keys : Finset ℕ) : IsBorder (keys.sup id) keys := by
  refine ⟨?_, fun hmem ↦ Nat.not_succ_le_self _ (Finset.le_sup (f := id) hmem)⟩
  rcases keys.eq_empty_or_nonempty with rfl | hnonempty
  · exact .inl rfl
  · obtain ⟨key, hkey, hsup⟩ := Finset.exists_mem_eq_sup keys hnonempty id
    exact .inr (hsup ▸ hkey)

/-- The sum over the keys is the sum along a traversal. -/
theorem IsOrder.sum_map {M : Type} [AddCommMonoid M] {order : List ℕ} {keys : Finset ℕ}
    (horder : IsOrder order keys) (value : ℕ → M) :
    (order.map value).sum = ∑ key ∈ keys, value key := by
  rw [← horder.2, List.sum_toFinset value horder.1]

/-- Two traversals of the same keys are permutations of each other. -/
theorem IsOrder.perm {order order' : List ℕ} {keys : Finset ℕ} (horder : IsOrder order keys)
    (horder' : IsOrder order' keys) : order.Perm order' :=
  (List.perm_ext_iff_of_nodup horder.1 horder'.1).mpr fun _ ↦ horder.mem_iff.trans
    horder'.mem_iff.symm

/-- The rule for a loop that may fail: `inv` relates the part of the list that is done to the
state. When every turn succeeds and keeps it, the whole loop succeeds and establishes it. -/
theorem exists_foldlM_eq_ok {ε κ σ : Type} {turn : σ → κ → Except ε σ} (list : List κ)
    (inv : List κ → σ → Prop)
    (hturn : ∀ done head tail state, list = done ++ head :: tail → inv done state →
      ∃ next, turn state head = .ok next ∧ inv (done ++ [head]) next) :
    ∀ (done tail : List κ) (state : σ), list = done ++ tail → inv done state →
      ∃ last, tail.foldlM turn state = .ok last ∧ inv list last := by
  intro done tail
  induction tail generalizing done with
  | nil =>
    intro state hlist hinv
    rw [List.append_nil] at hlist
    exact ⟨state, rfl, hlist ▸ hinv⟩
  | cons head tail ih =>
    intro state hlist hinv
    obtain ⟨next, hnext, hinvNext⟩ := hturn done head tail state hlist hinv
    obtain ⟨last, hlast, hinvLast⟩ := ih (done ++ [head]) next (by simp [hlist]) hinvNext
    exact ⟨last, by rw [List.foldlM_cons, hnext]; exact hlast, hinvLast⟩

namespace Table

variable {α β : Type} {table : Table α} {key other : ℕ}

/-- Change the record under a key. -/
def update (table : Table α) (key : ℕ) (change : α → α) : Table α :=
  match table.lookup key with
  | some record => table.insert key (change record)
  | none => table

theorem lookup_update (table : Table α) (key other : ℕ) (change : α → α) :
    (table.update key change).lookup other =
      if other = key then (table.lookup key).map change else table.lookup other := by
  unfold update
  cases hlookup : table.lookup key with
  | none =>
    by_cases hother : other = key
    · subst hother
      simp [hlookup]
    · simp [hother]
  | some record =>
    by_cases hother : other = key
    · subst hother
      simp
    · simp [hother, Finmap.lookup_insert_of_ne]

@[simp]
theorem lookup_update_self (table : Table α) (key : ℕ) (change : α → α) :
    (table.update key change).lookup key = (table.lookup key).map change := by
  rw [lookup_update, if_pos rfl]

@[simp]
theorem lookup_update_of_ne (change : α → α) (hne : other ≠ key) :
    (table.update key change).lookup other = table.lookup other := by
  rw [lookup_update, if_neg hne]

/-- A change that changes nothing. -/
@[simp]
theorem update_id (table : Table α) (key : ℕ) : table.update key (fun record ↦ record) = table := by
  refine Finmap.ext_lookup fun other ↦ ?_
  rw [lookup_update]
  by_cases hother : other = key
  · subst hother
    simp
  · simp [hother]

/-- Two changes of one record are one change. -/
theorem update_update (table : Table α) (key : ℕ) (first second : α → α) :
    (table.update key first).update key second = table.update key fun record ↦
      second (first record) := by
  refine Finmap.ext_lookup fun other ↦ ?_
  rw [lookup_update, lookup_update, lookup_update, lookup_update, if_pos rfl]
  by_cases hother : other = key
  · subst hother
    simp [Function.comp_def]
  · simp [hother]

theorem mem_keys_iff : key ∈ table.keys ↔ ∃ record, table.lookup key = some record := by
  rw [Finmap.mem_keys, Finmap.mem_iff]

/-- A change in place keeps the keys. -/
@[simp]
theorem keys_update (table : Table α) (key : ℕ) (change : α → α) :
    (table.update key change).keys = table.keys := by
  ext other
  rw [mem_keys_iff, mem_keys_iff, lookup_update]
  by_cases hother : other = key
  · subst hother
    cases table.lookup other <;> simp
  · simp [hother]

@[simp]
theorem keys_insert (table : Table α) (key : ℕ) (record : α) :
    (table.insert key record).keys = insert key table.keys := by
  ext other
  rw [Finmap.mem_keys, Finmap.mem_insert, Finset.mem_insert, Finmap.mem_keys]

theorem lookup_insert_eq (table : Table α) (key other : ℕ) (record : α) :
    (table.insert key record).lookup other =
      if other = key then some record else table.lookup other := by
  by_cases hother : other = key
  · subst hother
    simp
  · simp [hother, Finmap.lookup_insert_of_ne]

theorem lookup_erase_eq (table : Table α) (key other : ℕ) :
    (table.erase key).lookup other = if other = key then none else table.lookup other := by
  by_cases hother : other = key
  · subst hother
    simp
  · simp [hother, Finmap.lookup_erase_ne]

/-- What is in a table after a removal was there before. -/
theorem lookup_of_erase {table : Table α} {key other : ℕ} {value : α}
    (h : (table.erase key).lookup other = some value) : table.lookup other = some value := by
  rw [lookup_erase_eq] at h
  split_ifs at h
  exact h

/-- A loop that changes one record at a time, each at most once. -/
theorem lookup_foldl_update (change : ℕ → α → α) {keys : List ℕ} (hnodup : keys.Nodup) :
    ∀ table : Table α, (keys.foldl (fun table key ↦ table.update key (change key)) table).lookup other =
      if other ∈ keys then (table.lookup other).map (change other) else table.lookup other := by
  induction keys with
  | nil => simp
  | cons key keys ih =>
    intro table
    obtain ⟨hkey, hkeys⟩ := List.nodup_cons.mp hnodup
    rw [List.foldl_cons, ih hkeys, lookup_update]
    by_cases hother : other = key
    · subst hother
      simp [hkey]
    · simp [hother]

@[simp]
theorem keys_foldl_update (change : ℕ → α → α) (order : List ℕ) : ∀ table : Table α,
    (order.foldl (fun table key ↦ table.update key (change key)) table).keys = table.keys := by
  induction order with
  | nil => intro table; rfl
  | cons key order ih =>
    intro table
    exact (ih _).trans (keys_update table key (change key))

/-- The number of records. -/
def size (table : Table α) : ℕ := table.keys.card

theorem size_insert_le (table : Table α) (key : ℕ) (record : α) :
    size (table.insert key record) ≤ table.size + 1 := by
  rw [size, keys_insert]
  exact Finset.card_insert_le key table.keys

theorem keys_erase_subset (table : Table α) (key : ℕ) : (table.erase key).keys ⊆ table.keys := by
  intro other hother
  rw [Finmap.mem_keys, Finmap.mem_erase] at hother
  exact Finmap.mem_keys.mpr hother.2

theorem size_erase_le (table : Table α) (key : ℕ) : size (table.erase key) ≤ table.size :=
  Finset.card_le_card (table.keys_erase_subset key)

/-- A table with one record. -/
@[simp]
theorem size_singleton (key : ℕ) (record : α) : size (Finmap.singleton key record) = 1 :=
  rfl

/-- A table with a record is not empty. -/
theorem size_ne_zero {record : α} (hrecord : table.lookup key = some record) : table.size ≠ 0 :=
  Finset.card_ne_zero_of_mem (mem_keys_iff.mpr ⟨record, hrecord⟩)

end Table

end SvrDemo.Lua
