import SvrDemo.Skynet.Handle
import Mathlib.Algebra.Ring.Int.Defs
import Mathlib.Data.List.Perm.Subperm
import Mathlib.Tactic.Linarith

/-!
# Handles are found

A table whose size is a power of two has a context where the lowest bits of its handle say (`Registry.Sound.slot`). When
it is full and doubles, two contexts cannot fall on one place, because they were in different places before, and one of
two places whose bits were the same is free (`Registry.Sound.register`). So every service is found under its handle,
until it is retired, and no other service has that handle. That rests on the handles in the contexts: the table must not
double while a thread has not stored the handle it was given (`handle_lost`).
-/

set_option autoImplicit false
set_option relaxedAutoImplicit false

namespace SvrDemo.Skynet

open Base Protocol Std

instance : TransCmp strcmp := inferInstanceAs (TransCmp (List.compareLex compare))

instance : LawfulEqCmp strcmp := inferInstanceAs (LawfulEqCmp (List.compareLex compare))

namespace Registry

variable {state next : Registry} {harbor ctx handle : ℕ}

/-- The registered services are in the places of their handles, and know them if they were stored. The names are those
that were given and whose handles were not retired. -/
structure Sound (state : Registry) : Prop where
  size : ∃ k, 2 ≤ k ∧ k ≤ 24 ∧ state.storage.slotSize = 2 ^ k
  harbor : state.storage.harbor % 2 ^ 24 = 0
  slot : ∀ hash ctx, state.storage.slot hash = some ctx ↔
    ∃ handle, (ctx, handle) ∈ state.live ∧ handle % state.storage.slotSize = hash
  services : (state.live.map Prod.fst).Nodup
  places : (state.live.map fun entry ↦ entry.2 % state.storage.slotSize).Nodup
  stored : ∀ ctx handle, (ctx, handle) ∈ state.live → (ctx, handle) ∈ state.unset ∧ state.handleOf ctx = 0 ∨
    (ctx, handle) ∉ state.unset ∧ state.handleOf ctx = handle
  unset : state.unset.Nodup ∧ ∀ entry ∈ state.unset, entry ∈ state.live
  sorted : Sorted HandleName.name strcmp state.storage.name
  named : ∀ name handle, state.named name = some handle ↔ ⟨name, handle⟩ ∈ state.storage.name

theorem sound_init (harbor : ℕ) : (init harbor).Sound where
  size := ⟨2, by decide, by decide, rfl⟩
  harbor := by
    change (harbor &&& 0xff) <<< 24 % 2 ^ 24 = 0
    rw [Nat.shiftLeft_eq, Nat.mul_mod_left]
  slot hash ctx := by
    refine ⟨fun hsome ↦ absurd hsome.symm (Option.some_ne_none _), ?_⟩
    rintro ⟨handle, hmem, -⟩
    exact absurd hmem List.not_mem_nil
  services := List.nodup_nil
  places := List.nodup_nil
  stored ctx handle hmem := absurd hmem List.not_mem_nil
  unset := ⟨List.nodup_nil, List.forall_mem_nil _⟩
  sorted := List.Pairwise.nil
  named name handle := ⟨fun hsome ↦ absurd hsome.symm (Option.some_ne_none _), fun hmem ↦ absurd hmem List.not_mem_nil⟩

theorem Sound.hash_eq (h : state.Sound) (handle : ℕ) :
    state.storage.hash handle = handle % state.storage.slotSize := by
  obtain ⟨k, -, -, hsize⟩ := h.size
  rw [HandleStorage.hash, hsize, Nat.and_two_pow_sub_one_eq_mod]

theorem Sound.slotSize_pos (h : state.Sound) : 0 < state.storage.slotSize := by
  obtain ⟨k, -, -, hsize⟩ := h.size
  exact hsize ▸ Nat.two_pow_pos k

/-- A service has one handle. -/
theorem Sound.unique (h : state.Sound) {other : ℕ} (hmem : (ctx, handle) ∈ state.live)
    (hother : (ctx, other) ∈ state.live) : handle = other :=
  (Prod.mk.inj (List.inj_on_of_nodup_map h.services hmem hother rfl)).2

/-- A place has one service. -/
theorem Sound.unique_of_mod (h : state.Sound) {ctx' handle' : ℕ} (hmem : (ctx, handle) ∈ state.live)
    (hother : (ctx', handle') ∈ state.live)
    (hmod : handle % state.storage.slotSize = handle' % state.storage.slotSize) : ctx = ctx' ∧ handle = handle' :=
  Prod.mk.inj (List.inj_on_of_nodup_map h.places hmem hother hmod)

/-! ### Lookup -/

theorem Sound.grab_of_mem (h : state.Sound) (hmem : (ctx, handle) ∈ state.live)
    (hstored : (ctx, handle) ∉ state.unset) :
    state.storage.grab state.handleOf handle = some ctx := by
  have hslot := (h.slot _ _).mpr ⟨handle, hmem, rfl⟩
  have hhandle : state.handleOf ctx = handle := by
    rcases h.stored ctx handle hmem with hunset | hset
    · exact absurd hunset.1 hstored
    · exact hset.2
  rw [HandleStorage.grab, h.hash_eq, hslot]
  exact if_pos hhandle

theorem Sound.mem_of_grab (h : state.Sound) (hhandle : handle ≠ 0 ∨ state.unset = [])
    (hgrab : state.storage.grab state.handleOf handle = some ctx) :
    (ctx, handle) ∈ state.live ∧ (ctx, handle) ∉ state.unset := by
  rw [HandleStorage.grab, h.hash_eq] at hgrab
  cases hslot : state.storage.slot (handle % state.storage.slotSize) with
  | none =>
    rw [hslot] at hgrab
    exact absurd hgrab.symm (Option.some_ne_none _)
  | some other =>
    rw [hslot] at hgrab
    obtain ⟨heq, hctx⟩ := Option.ite_none_right_eq_some.mp hgrab
    obtain rfl := Option.some.inj hctx
    obtain ⟨handle', hmem, -⟩ := (h.slot _ _).mp hslot
    rcases h.stored other handle' hmem with ⟨hunset, hzero⟩ | ⟨hset, hhandle'⟩
    · rcases hhandle with hne | hnil
      · exact absurd (heq.symm.trans hzero) hne
      · exact absurd (hnil ▸ hunset) List.not_mem_nil
    · obtain rfl := hhandle'.symm.trans heq
      exact ⟨hmem, hset⟩

/-- A name is found when it was given, with its handle. -/
theorem Sound.findName_eq (h : state.Sound) (name : Bytes) :
    state.storage.findName name = (state.named name).getD 0 := by
  have hfinds := h.sorted.search_whole name
  rw [HandleStorage.findName, HandleStorage.searchName]
  cases hsearch : search HandleName.name strcmp state.storage.name name state.storage.name.length 0
      state.storage.name.length with
  | inl entry =>
    rw [hsearch] at hfinds
    obtain ⟨hmem, heq⟩ := hfinds
    obtain rfl := LawfulEqCmp.eq_of_compare heq
    rw [(h.named entry.name entry.handle).mpr hmem, Option.getD_some]
  | inr place =>
    rw [hsearch] at hfinds
    cases hnamed : state.named name with
    | none => rfl
    | some handle =>
      have hne := hfinds.ne ((h.named name handle).mp hnamed)
      exact absurd ReflCmp.compare_self hne

/-! ### Registration -/

theorem and_handleMask (handle : ℕ) : handle &&& handleMask = handle % 2 ^ 24 :=
  Nat.and_two_pow_sub_one_eq_mod handle 24

theorem findSlot_eq_some {storage : HandleStorage} {turns i : ℕ} (hfind : storage.findSlot turns i = some handle) :
    handle < 2 ^ 24 ∧ storage.slot (storage.hash handle) = none := by
  induction turns generalizing i with
  | zero => exact absurd hfind.symm (Option.some_ne_none _)
  | succ turns ih =>
    rw [HandleStorage.findSlot, and_handleMask] at hfind
    by_cases hnone : (storage.slot (storage.hash ((i + storage.handleIndex) % 2 ^ 24))).isNone
    · rw [if_pos hnone] at hfind
      obtain rfl := Option.some.inj hfind
      exact ⟨Nat.mod_lt _ (Nat.two_pow_pos 24), Option.isNone_iff_eq_none.mp hnone⟩
    · rw [if_neg hnone] at hfind
      exact ih hfind

theorem findSlot_eq_none {storage : HandleStorage} {turns i : ℕ} (hfind : storage.findSlot turns i = none) {j : ℕ}
    (hge : i ≤ j) (hlt : j < i + turns) : storage.slot (storage.hash ((j + storage.handleIndex) % 2 ^ 24)) ≠ none := by
  induction turns generalizing i with
  | zero => exact absurd hlt (Nat.not_lt.mpr hge)
  | succ turns ih =>
    rw [HandleStorage.findSlot, and_handleMask] at hfind
    by_cases hnone : (storage.slot (storage.hash ((i + storage.handleIndex) % 2 ^ 24))).isNone
    · rw [if_pos hnone] at hfind
      exact absurd hfind (Option.some_ne_none _)
    · rw [if_neg hnone] at hfind
      rcases Nat.eq_or_lt_of_le hge with rfl | hgt
      · exact fun hsome ↦ hnone (Option.isNone_iff_eq_none.mpr hsome)
      · exact ih hfind hgt (by omega)

/-- A table without a free place. -/
def Full (state : Registry) : Prop := ∀ hash, hash < state.storage.slotSize → state.storage.slot hash ≠ none

theorem Sound.full_of_findSlot (h : state.Sound) (hfind : state.storage.findSlot state.storage.slotSize 0 = none) :
    state.Full := by
  intro hash hlt
  obtain ⟨k, -, hk, hsize⟩ := h.size
  -- the turn at which the loop looks at this place
  have hpos := h.slotSize_pos
  generalize hindex : state.storage.handleIndex % state.storage.slotSize = index
  have hindex_lt : index < state.storage.slotSize := hindex ▸ Nat.mod_lt _ hpos
  have hturn := findSlot_eq_none hfind
    (Nat.zero_le ((hash + (state.storage.slotSize - index)) % state.storage.slotSize))
    (by rw [Nat.zero_add]; exact Nat.mod_lt _ hpos)
  rw [h.hash_eq] at hturn
  have hplace :
      ((hash + (state.storage.slotSize - index)) % state.storage.slotSize + state.storage.handleIndex) % 2 ^ 24 %
      state.storage.slotSize = hash := by
    rw [Nat.mod_mod_of_dvd _ (hsize ▸ Nat.pow_dvd_pow 2 hk), Nat.mod_add_mod, Nat.add_mod, hindex, Nat.mod_add_mod,
      Nat.add_assoc, Nat.sub_add_cancel (Nat.le_of_lt hindex_lt), Nat.add_mod_right, Nat.mod_eq_of_lt hlt]
  rwa [hplace] at hturn

theorem Sound.mod_or_harbor (h : state.Sound) (handle : ℕ) :
    (handle ||| state.storage.harbor) % state.storage.slotSize = handle % state.storage.slotSize := by
  obtain ⟨k, -, hk, hsize⟩ := h.size
  have hzero : state.storage.harbor % 2 ^ k = 0 :=
    Nat.mod_eq_zero_of_dvd (Nat.dvd_trans (Nat.pow_dvd_pow 2 hk) (Nat.dvd_of_mod_eq_zero h.harbor))
  rw [hsize, Nat.or_mod_two_pow, hzero, Nat.or_zero]

/-- A service gets a free place. -/
theorem Sound.insert (h : state.Sound) (hnew : state.IsNew ctx)
    (hfree : state.storage.slot (state.storage.hash handle) = none) :
    ({ state with
      storage := { state.storage with
        slot := Function.update state.storage.slot (state.storage.hash handle) (some ctx)
        handleIndex := handle + 1 }
      live := state.live ++ [(ctx, handle ||| state.storage.harbor)]
      unset := state.unset ++ [(ctx, handle ||| state.storage.harbor)] } : Registry).Sound := by
  rw [h.hash_eq] at hfree ⊢
  have hmod := h.mod_or_harbor handle
  have hnone : ∀ entry ∈ state.live, entry.2 % state.storage.slotSize ≠ handle % state.storage.slotSize := by
    rintro ⟨other, handle'⟩ hmem heq
    have hslot := (h.slot _ other).mpr ⟨handle', hmem, heq⟩
    exact absurd (hfree.symm.trans hslot).symm (Option.some_ne_none _)
  refine ⟨h.size, h.harbor, fun hash other ↦ ?_, ?_, ?_, fun other handle' hmem ↦ ?_, ?_, h.sorted, h.named⟩
  · change Function.update state.storage.slot _ _ hash = some other ↔
      ∃ handle', (other, handle') ∈ state.live ++ [(ctx, handle ||| state.storage.harbor)] ∧
        handle' % state.storage.slotSize = hash
    by_cases hhash : hash = handle % state.storage.slotSize
    · subst hhash
      rw [Function.update_self]
      constructor
      · intro heq
        obtain rfl := Option.some.inj heq
        exact ⟨_, List.mem_append_right _ (List.mem_singleton.mpr rfl), hmod⟩
      · rintro ⟨handle', hmem, heq⟩
        rcases List.mem_append.mp hmem with hold | hnew'
        · exact absurd heq (hnone _ hold)
        · rw [(Prod.mk.inj (List.mem_singleton.mp hnew')).1]
    · rw [Function.update_of_ne hhash, h.slot]
      constructor
      · rintro ⟨handle', hmem, heq⟩
        exact ⟨handle', List.mem_append_left _ hmem, heq⟩
      · rintro ⟨handle', hmem, heq⟩
        rcases List.mem_append.mp hmem with hold | hnew'
        · exact ⟨handle', hold, heq⟩
        · rw [(Prod.mk.inj (List.mem_singleton.mp hnew')).2, hmod] at heq
          exact absurd heq.symm hhash
  · rw [List.map_append, List.map_singleton]
    refine List.nodup_append.mpr ⟨h.services, List.nodup_singleton _, fun other hmem last hlast ↦ ?_⟩
    obtain ⟨entry, hentry, rfl⟩ := List.mem_map.mp hmem
    obtain rfl := List.mem_singleton.mp hlast
    exact hnew.2 entry hentry
  · rw [List.map_append, List.map_singleton]
    refine List.nodup_append.mpr ⟨h.places, List.nodup_singleton _, fun other hmem last hlast ↦ ?_⟩
    obtain ⟨entry, hentry, rfl⟩ := List.mem_map.mp hmem
    obtain rfl := List.mem_singleton.mp hlast
    exact fun heq ↦ hnone entry hentry (heq.trans hmod)
  · rcases List.mem_append.mp hmem with hold | hnew'
    · have hne : other ≠ ctx := hnew.2 _ hold
      rcases h.stored other handle' hold with ⟨hunset, hzero⟩ | ⟨hset, hhandle⟩
      · exact .inl ⟨List.mem_append_left _ hunset, hzero⟩
      · refine .inr ⟨fun hunset ↦ ?_, hhandle⟩
        rcases List.mem_append.mp hunset with hunset | hunset
        · exact hset hunset
        · exact hne (Prod.mk.inj (List.mem_singleton.mp hunset)).1
    · obtain ⟨rfl, rfl⟩ := Prod.mk.inj (List.mem_singleton.mp hnew')
      exact .inl ⟨List.mem_append_right _ (List.mem_singleton.mpr rfl), hnew.1⟩
  · refine ⟨List.nodup_append.mpr ⟨h.unset.1, List.nodup_singleton _, fun entry hmem last hlast heq ↦ ?_⟩,
      List.forall_mem_append.mpr ⟨fun entry hmem ↦ List.mem_append_left _ (h.unset.2 entry hmem),
        List.forall_mem_singleton.mpr (List.mem_append_right _ (List.mem_singleton.mpr rfl))⟩⟩
    obtain rfl := List.mem_singleton.mp hlast
    exact hnew.2 entry (h.unset.2 entry hmem) (congrArg Prod.fst heq)

/-! ### Growth -/

/-- The new table after some places of the old one were moved. -/
theorem Sound.foldlM_moveSlot (h : state.Sound) (hfull : state.Full) (hunset : state.unset = []) {n : ℕ}
    (hn : n ≤ state.storage.slotSize) : ∃ newSlot,
    (List.range n).foldlM (state.storage.moveSlot state.handleOf) (fun _ ↦ none) = some newSlot ∧
      ∀ hash ctx, newSlot hash = some ctx ↔ ∃ handle, (ctx, handle) ∈ state.live ∧
        handle % state.storage.slotSize < n ∧ handle % (state.storage.slotSize * 2) = hash := by
  obtain ⟨k, -, -, hsize⟩ := h.size
  have hdouble : ∀ handle, handle % (state.storage.slotSize * 2) % state.storage.slotSize =
      handle % state.storage.slotSize := fun handle ↦ Nat.mod_mod_of_dvd handle (Nat.dvd_mul_right _ 2)
  induction n with
  | zero =>
    refine ⟨_, rfl, fun hash ctx ↦ ⟨fun hsome ↦ absurd hsome.symm (Option.some_ne_none _), ?_⟩⟩
    rintro ⟨handle, -, hlt, -⟩
    exact absurd hlt (Nat.not_lt_zero _)
  | succ n ih =>
    obtain ⟨newSlot, hfold, hnewSlot⟩ := ih (by omega)
    obtain ⟨ctx, hctx⟩ := Option.ne_none_iff_exists'.mp (hfull n hn)
    obtain ⟨handle, hmem, hhandle⟩ := (h.slot n ctx).mp hctx
    have hstored : state.handleOf ctx = handle := by
      rcases h.stored ctx handle hmem with ⟨hin, -⟩ | ⟨-, heq⟩
      · exact absurd (hunset ▸ hin) List.not_mem_nil
      · exact heq
    have hhash : handle &&& (state.storage.slotSize * 2 - 1) = handle % (state.storage.slotSize * 2) := by
      rw [hsize, ← Nat.pow_succ, Nat.and_two_pow_sub_one_eq_mod]
    -- the place was free, because another service there would have been at this place of the old table
    have hnone : newSlot (handle % (state.storage.slotSize * 2)) = none := by
      by_contra hsome
      obtain ⟨other, hother⟩ := Option.ne_none_iff_exists'.mp hsome
      obtain ⟨handle', hmem', hlt, hmod⟩ := (hnewSlot _ other).mp hother
      rw [← hdouble handle', hmod, hdouble handle, hhandle] at hlt
      exact absurd hlt (Nat.lt_irrefl n)
    refine ⟨Function.update newSlot (handle % (state.storage.slotSize * 2)) (some ctx), ?_, fun hash other ↦ ?_⟩
    · have hmove : state.storage.moveSlot state.handleOf newSlot n =
          some (Function.update newSlot (handle % (state.storage.slotSize * 2)) (some ctx)) := by
        rw [HandleStorage.moveSlot, hctx, Option.bind_eq_bind, Option.bind_some, hstored, hhash]
        exact if_pos (Option.isNone_iff_eq_none.mpr hnone)
      rw [List.range_succ, List.foldlM_append, hfold, Option.bind_eq_bind, Option.bind_some, List.foldlM_cons, hmove]
      rfl
    · by_cases heq : hash = handle % (state.storage.slotSize * 2)
      · subst heq
        rw [Function.update_self]
        constructor
        · intro hsome
          obtain rfl := Option.some.inj hsome
          exact ⟨handle, hmem, by omega, rfl⟩
        · rintro ⟨handle', hmem', -, hmod⟩
          have hold : handle' % state.storage.slotSize = handle % state.storage.slotSize := by
            rw [← hdouble handle', hmod, hdouble]
          rw [(h.unique_of_mod hmem' hmem hold).1]
      · rw [Function.update_of_ne heq, hnewSlot]
        constructor
        · rintro ⟨handle', hmem', hlt, hmod⟩
          exact ⟨handle', hmem', by omega, hmod⟩
        · rintro ⟨handle', hmem', hlt, hmod⟩
          refine ⟨handle', hmem', ?_, hmod⟩
          rcases Nat.eq_or_lt_of_le (Nat.le_of_lt_succ hlt) with hn | hlt
          · obtain ⟨-, rfl⟩ := h.unique_of_mod hmem' hmem (hn.trans hhandle.symm)
            exact absurd hmod.symm heq
          · exact hlt

/-- A full table has a service at each of its places. -/
theorem Sound.le_length_of_full (h : state.Sound) (hfull : state.Full) :
    state.storage.slotSize ≤ state.live.length := by
  have hsub : List.range state.storage.slotSize ⊆ state.live.map fun entry ↦ entry.2 % state.storage.slotSize := by
    intro hash hmem
    obtain ⟨ctx, hctx⟩ := Option.ne_none_iff_exists'.mp (hfull hash (List.mem_range.mp hmem))
    obtain ⟨handle, hlive, hhandle⟩ := (h.slot hash ctx).mp hctx
    exact List.mem_map.mpr ⟨(ctx, handle), hlive, hhandle⟩
  have hle := (List.subperm_of_subset List.nodup_range hsub).length_le
  rwa [List.length_range, List.length_map] at hle

theorem Sound.length_le (h : state.Sound) : state.live.length ≤ state.storage.slotSize := by
  have hsub : (state.live.map fun entry ↦ entry.2 % state.storage.slotSize) ⊆ List.range state.storage.slotSize := by
    intro hash hmem
    obtain ⟨entry, -, rfl⟩ := List.mem_map.mp hmem
    exact List.mem_range.mpr (Nat.mod_lt _ h.slotSize_pos)
  have hle := (List.subperm_of_subset h.places hsub).length_le
  rwa [List.length_range, List.length_map] at hle

/-- A full table doubles, and then it has a free place. -/
theorem Sound.growSlots (h : state.Sound) (hfull : state.Full) (hunset : state.unset = [])
    (hlength : state.live.length < 2 ^ 24) : ∃ storage, state.storage.growSlots state.handleOf = some storage ∧
      ({ state with storage := storage } : Registry).Sound ∧ ¬ ({ state with storage := storage } : Registry).Full := by
  obtain ⟨k, hk, hle, hsize⟩ := h.size
  have hlt : k < 24 := by
    have hslots := h.le_length_of_full hfull
    rw [hsize] at hslots
    exact (Nat.pow_lt_pow_iff_right (by decide)).mp (Nat.lt_of_le_of_lt hslots hlength)
  have hmask : state.storage.slotSize * 2 - 1 ≤ handleMask := by
    rw [hsize, ← Nat.pow_succ]
    exact Nat.sub_le_sub_right (Nat.pow_le_pow_right (by decide) hlt) 1
  obtain ⟨newSlot, hfold, hnewSlot⟩ := h.foldlM_moveSlot hfull hunset (Nat.le_refl _)
  have hpos := h.slotSize_pos
  have hslot : ∀ hash ctx, newSlot hash = some ctx ↔
      ∃ handle, (ctx, handle) ∈ state.live ∧ handle % (state.storage.slotSize * 2) = hash := by
    intro hash ctx
    rw [hnewSlot]
    constructor
    · rintro ⟨handle, hmem, -, hmod⟩
      exact ⟨handle, hmem, hmod⟩
    · rintro ⟨handle, hmem, hmod⟩
      exact ⟨handle, hmem, Nat.mod_lt _ hpos, hmod⟩
  have hdouble : ∀ handle, handle % (state.storage.slotSize * 2) % state.storage.slotSize =
      handle % state.storage.slotSize := fun handle ↦ Nat.mod_mod_of_dvd handle (Nat.dvd_mul_right _ 2)
  refine ⟨{ state.storage with slot := newSlot, slotSize := state.storage.slotSize * 2 }, ?_, ?_, fun hall ↦ ?_⟩
  · rw [HandleStorage.growSlots, if_pos hmask, hfold]
    rfl
  · refine ⟨⟨k + 1, by omega, hlt, by rw [Nat.pow_succ, ← hsize]⟩, h.harbor, hslot, h.services, ?_, h.stored, h.unset,
      h.sorted, h.named⟩
    refine List.Nodup.of_map (fun hash ↦ hash % state.storage.slotSize) ?_
    rw [List.map_map]
    refine (List.map_congr_left fun entry _ ↦ ?_) ▸ h.places
    exact (hdouble entry.2).symm
  · -- the two places whose old place was the first one
    obtain ⟨first, hfirst⟩ := Option.ne_none_iff_exists'.mp (hall 0 (by change 0 < state.storage.slotSize * 2; omega))
    obtain ⟨second, hsecond⟩ := Option.ne_none_iff_exists'.mp
      (hall state.storage.slotSize (by change _ < state.storage.slotSize * 2; omega))
    obtain ⟨handle, hmem, hmod⟩ := (hslot 0 first).mp hfirst
    obtain ⟨handle', hmem', hmod'⟩ := (hslot _ second).mp hsecond
    have hsame : handle % state.storage.slotSize = handle' % state.storage.slotSize := by
      rw [← hdouble, hmod, ← hdouble handle', hmod', Nat.mod_self, Nat.zero_mod]
    obtain ⟨-, rfl⟩ := h.unique_of_mod hmem hmem' hsame
    omega

/-- A thread may make the table grow when all handles are stored. -/
def Settled (state : Registry) : RegistryMove → Prop
  | .register _ => state.storage.findSlot state.storage.slotSize 0 = none → state.unset = []
  | .retire handle => handle = 0 → state.unset = []
  | _ => True

instance (state : Registry) (move : RegistryMove) : Decidable (state.Settled move) := by
  unfold Settled
  split <;> infer_instance

/-- Registration in a table with a free place. -/
theorem Sound.registerFrom (h : state.Sound) (hnew : state.IsNew ctx) (hfree : ¬ state.Full) (turns : ℕ) :
    ∃ handle storage, HandleStorage.registerFrom state.handleOf ctx (turns + 1) state.storage = some (handle, storage) ∧
      ({ state with
        storage := storage
        live := state.live ++ [(ctx, handle)]
        unset := state.unset ++ [(ctx, handle)] } : Registry).Sound := by
  rw [HandleStorage.registerFrom]
  cases hfind : state.storage.findSlot state.storage.slotSize 0 with
  | none => exact absurd (h.full_of_findSlot hfind) hfree
  | some handle => exact ⟨_, _, rfl, h.insert hnew (findSlot_eq_some hfind).2⟩

theorem Sound.findSlot_eq_none (h : state.Sound) (hfull : state.Full) :
    state.storage.findSlot state.storage.slotSize 0 = none := by
  by_contra hsome
  obtain ⟨handle, hhandle⟩ := Option.ne_none_iff_exists'.mp hsome
  refine hfull _ ?_ (findSlot_eq_some hhandle).2
  rw [h.hash_eq]
  exact Nat.mod_lt _ h.slotSize_pos

theorem Sound.register (h : state.Sound) (hnew : state.IsNew ctx) (hsettled : state.Settled (.register ctx))
    (hlength : state.Full → state.live.length < 2 ^ 24) :
    ∃ next, registry.step state (.register ctx) = some next ∧ next.Sound := by
  have hregister : ∃ handle storage, state.storage.register state.handleOf ctx = some (handle, storage) ∧
      ({ state with
        storage := storage
        live := state.live ++ [(ctx, handle)]
        unset := state.unset ++ [(ctx, handle)] } : Registry).Sound := by
    by_cases hfull : state.Full
    · have hfind := h.findSlot_eq_none hfull
      obtain ⟨storage, hgrow, hsound, hfree⟩ := h.growSlots hfull (hsettled hfind) (hlength hfull)
      obtain ⟨handle, storage', hregister, hnext⟩ := hsound.registerFrom hnew hfree 22
      refine ⟨handle, storage', ?_, hnext⟩
      change HandleStorage.registerFrom state.handleOf ctx (23 + 1) state.storage = _
      rw [HandleStorage.registerFrom, hfind]
      dsimp only
      rw [hgrow]
      exact hregister
    · exact h.registerFrom hnew hfull 23
  obtain ⟨handle, storage, hregister, hsound⟩ := hregister
  refine ⟨_, ?_, hsound⟩
  simp only [registry, if_pos hnew, hregister, Option.map_some]

/-- The handle is stored in the context. -/
theorem Sound.store (h : state.Sound) (hmem : (ctx, handle) ∈ state.unset) :
    ({ state with
      handleOf := Function.update state.handleOf ctx handle
      unset := state.unset.erase (ctx, handle) } : Registry).Sound := by
  refine ⟨h.size, h.harbor, h.slot, h.services, h.places, fun other handle' hlive ↦ ?_,
    ⟨h.unset.1.erase _, fun entry hentry ↦ h.unset.2 entry (List.mem_of_mem_erase hentry)⟩, h.sorted, h.named⟩
  change _ ∈ state.unset.erase (ctx, handle) ∧ Function.update state.handleOf ctx handle other = 0 ∨
    _ ∉ state.unset.erase (ctx, handle) ∧ Function.update state.handleOf ctx handle other = handle'
  by_cases hother : other = ctx
  · subst hother
    obtain rfl := h.unique hlive (h.unset.2 _ hmem)
    exact .inr ⟨h.unset.1.not_mem_erase, Function.update_self ..⟩
  · rw [Function.update_of_ne hother, List.mem_erase_of_ne fun heq ↦ hother (Prod.mk.inj heq).1]
    exact h.stored other handle' hlive

theorem Sound.retire (h : state.Sound) (hhandle : handle ≠ 0 ∨ state.unset = []) : (state.retire handle).Sound := by
  unfold Registry.retire HandleStorage.retire
  rw [h.hash_eq]
  cases hslot : state.storage.slot (handle % state.storage.slotSize) with
  | none => exact h
  | some ctx =>
    dsimp only
    by_cases heq : state.handleOf ctx = handle
    · rw [if_pos heq]
      have hgrab : state.storage.grab state.handleOf handle = some ctx := by
        rw [HandleStorage.grab, h.hash_eq, hslot]
        exact if_pos heq
      obtain ⟨hmem, hset⟩ := h.mem_of_grab hhandle hgrab
      have hkeeps : ∀ entry ∈ state.live, entry.1 ≠ ctx →
          entry.2 % state.storage.slotSize ≠ handle % state.storage.slotSize := by
        rintro ⟨other, handle'⟩ hother hne hmod
        exact hne (h.unique_of_mod hother hmem hmod).1
      refine ⟨h.size, h.harbor, fun hash other ↦ ?_, ?_, ?_, fun other handle' hlive ↦ ?_, ?_, ?_, fun name other ↦ ?_⟩
      · change Function.update state.storage.slot (handle % state.storage.slotSize) none hash = some other ↔
          ∃ handle', (other, handle') ∈ state.live.filter (fun entry ↦ entry.1 ≠ ctx) ∧
            handle' % state.storage.slotSize = hash
        by_cases hhash : hash = handle % state.storage.slotSize
        · subst hhash
          rw [Function.update_self]
          refine ⟨fun hsome ↦ absurd hsome.symm (Option.some_ne_none _), ?_⟩
          rintro ⟨handle', hlive, hmod⟩
          obtain ⟨hlive, hne⟩ := List.mem_filter.mp hlive
          exact absurd hmod (hkeeps _ hlive (of_decide_eq_true hne))
        · rw [Function.update_of_ne hhash, h.slot]
          constructor
          · rintro ⟨handle', hlive, hmod⟩
            refine ⟨handle', List.mem_filter.mpr ⟨hlive, decide_eq_true fun hctx ↦ hhash ?_⟩, hmod⟩
            obtain rfl : other = ctx := hctx
            rw [← hmod, h.unique hlive hmem]
          · rintro ⟨handle', hlive, hmod⟩
            exact ⟨handle', List.mem_of_mem_filter hlive, hmod⟩
      · exact h.services.sublist (List.filter_sublist.map _)
      · exact h.places.sublist (List.filter_sublist.map _)
      · exact h.stored other handle' (List.mem_of_mem_filter hlive)
      · refine ⟨h.unset.1, fun entry hentry ↦
          List.mem_filter.mpr ⟨h.unset.2 entry hentry, decide_eq_true fun hctx ↦ ?_⟩⟩
        obtain ⟨other, handle'⟩ := entry
        obtain rfl : other = ctx := hctx
        exact hset (h.unique (h.unset.2 _ hentry) hmem ▸ hentry)
      · exact h.sorted.sublist List.filter_sublist
      · change (if state.named name = some handle then none else state.named name) = some other ↔
          _ ∈ state.storage.name.filter _
        rw [Option.ite_none_left_eq_some, List.mem_filter, ← h.named]
        constructor
        · rintro ⟨hne, hnamed⟩
          refine ⟨hnamed, decide_eq_true fun hsame ↦ hne ?_⟩
          obtain rfl : other = handle := hsame
          exact hnamed
        · rintro ⟨hnamed, hne⟩
          exact ⟨fun hsame ↦ of_decide_eq_true hne (Option.some.inj (hnamed.symm.trans hsame)), hnamed⟩
    · rw [if_neg heq]
      exact h

theorem Sound.name (h : state.Sound) {name : Bytes} {free : Bool} {storage : HandleStorage}
    (hname : state.storage.nameHandle handle name = some (free, storage)) :
    ({ state with
      storage := storage
      named := if free then Function.update state.named name (some handle) else state.named } : Registry).Sound := by
  have hfinds := h.sorted.search_whole name
  rw [HandleStorage.nameHandle, HandleStorage.searchName] at hname
  cases hsearch : search HandleName.name strcmp state.storage.name name state.storage.name.length 0
      state.storage.name.length with
  | inl entry =>
    rw [hsearch] at hname
    obtain ⟨rfl, rfl⟩ := Prod.mk.inj (Option.some.inj hname)
    exact h
  | inr before =>
    rw [hsearch] at hname hfinds
    obtain ⟨storage', hinsert, heq⟩ := Option.map_eq_some_iff.mp hname
    obtain ⟨rfl, rfl⟩ := Prod.mk.inj heq
    have hstorage : ∃ cap, storage' = { state.storage with
        nameCap := cap
        name := state.storage.name.take before ++ ⟨name, handle⟩ :: state.storage.name.drop before } := by
      rw [HandleStorage.insertNameBefore] at hinsert
      split at hinsert
      · obtain ⟨-, hsome⟩ := Option.ite_none_right_eq_some.mp hinsert
        exact ⟨_, (Option.some.inj hsome).symm⟩
      · exact ⟨_, (Option.some.inj hinsert).symm⟩
    obtain ⟨cap, rfl⟩ := hstorage
    refine ⟨h.size, h.harbor, h.slot, h.services, h.places, h.stored, h.unset, h.sorted.insert hfinds,
      fun other handle' ↦ ?_⟩
    change Function.update state.named name (some handle) other = some handle' ↔
      _ ∈ state.storage.name.take before ++ ⟨name, handle⟩ :: state.storage.name.drop before
    have hmem : ∀ entry : HandleName, entry ∈ state.storage.name.take before ++ ⟨name, handle⟩ ::
        state.storage.name.drop before ↔ entry = ⟨name, handle⟩ ∨ entry ∈ state.storage.name := by
      intro entry
      conv_rhs => rw [← List.take_append_drop before state.storage.name]
      rw [List.mem_append, List.mem_cons, List.mem_append]
      tauto
    rw [hmem]
    by_cases hother : other = name
    · subst hother
      rw [Function.update_self, Option.some.injEq, HandleName.mk.injEq]
      constructor
      · rintro rfl
        exact .inl ⟨rfl, rfl⟩
      · rintro (⟨-, rfl⟩ | hentry)
        · rfl
        · exact absurd ReflCmp.compare_self (hfinds.ne hentry)
    · rw [Function.update_of_ne hother, h.named, HandleName.mk.injEq]
      exact ⟨.inr, fun hor ↦ hor.resolve_left fun hboth ↦ hother hboth.1⟩

theorem Sound.step (h : state.Sound) {move : RegistryMove} (hsettled : state.Settled move)
    (hstep : registry.step state move = some next) : next.Sound := by
  cases move with
  | register ctx =>
    obtain ⟨hnew, hregister⟩ := Option.ite_none_right_eq_some.mp hstep
    obtain ⟨⟨handle, storage⟩, hregister, hnext⟩ := Option.map_eq_some_iff.mp hregister
    -- the assertion on the size did not fail
    have hlength : state.Full → state.live.length < 2 ^ 24 := by
      intro hfull
      by_contra hmany
      have hle := h.length_le
      have hgrow : state.storage.growSlots state.handleOf = none :=
        if_neg (show ¬ state.storage.slotSize * 2 - 1 ≤ 16777215 by omega)
      change HandleStorage.registerFrom state.handleOf ctx (23 + 1) state.storage = _ at hregister
      rw [HandleStorage.registerFrom, h.findSlot_eq_none hfull] at hregister
      dsimp only at hregister
      rw [hgrow] at hregister
      exact absurd hregister.symm (Option.some_ne_none _)
    obtain ⟨other, hother, hsound⟩ := h.register hnew hsettled hlength
    exact Option.some.inj (hother.symm.trans hstep) ▸ hsound
  | store ctx handle =>
    obtain ⟨hmem, hnext⟩ := Option.ite_none_right_eq_some.mp hstep
    exact Option.some.inj hnext ▸ h.store hmem
  | retire handle =>
    obtain rfl := Option.some.inj hstep
    refine h.retire ?_
    by_cases hzero : handle = 0
    · exact .inr (hsettled hzero)
    · exact .inl hzero
  | name handle name =>
    obtain ⟨⟨free, storage⟩, hname, hnext⟩ := Option.map_eq_some_iff.mp hstep
    exact hnext ▸ h.name hname

end Registry

/-- A service is found under the handle it knows, and under no other, and no two services have one handle. A name is
found, with its handle, from when it was given until the handle is retired. And there is a handle for a new service as
long as there are less than `2 ^ 24` of them. -/
theorem handles_found {harbor : ℕ} {state : Registry}
    (hrun : registry.Run Registry.Settled (.init harbor) state) :
    (∀ ctx handle, (ctx, handle) ∈ state.live → (ctx, handle) ∉ state.unset →
      state.storage.grab state.handleOf handle = some ctx) ∧
    (∀ ctx handle, handle ≠ 0 ∨ state.unset = [] → state.storage.grab state.handleOf handle = some ctx →
      (ctx, handle) ∈ state.live) ∧
    (state.live.map Prod.snd).Nodup ∧
    (∀ name, state.storage.findName name = (state.named name).getD 0) ∧
    (state.live.length < 2 ^ 24 → ∀ ctx, state.IsNew ctx → state.Settled (.register ctx) →
      (registry.step state (.register ctx)).isSome) := by
  have hsound : state.Sound :=
    hrun.invariant (fun _ _ _ hsettled hbefore hstep ↦ hbefore.step hsettled hstep) (Registry.sound_init harbor)
  refine ⟨fun ctx handle hmem hset ↦ hsound.grab_of_mem hmem hset,
    fun ctx handle hhandle hgrab ↦ (hsound.mem_of_grab hhandle hgrab).1, ?_, hsound.findName_eq,
    fun hlength ctx hnew hsettled ↦ ?_⟩
  · refine List.Nodup.of_map (fun handle ↦ handle % state.storage.slotSize) ?_
    rw [List.map_map]
    exact hsound.places
  · obtain ⟨next, hnext, -⟩ := hsound.register hnew hsettled fun _ ↦ hlength
    exact hnext ▸ rfl

/-- The moves of a service that is registered and gets its handle. -/
def launchMoves (ctx handle : ℕ) : List RegistryMove := [.register ctx, .store ctx handle]

/-- Six services, for which the table doubles, and two names, of which one goes with its service. -/
theorem handles_found_six : ∃ state, registry.Run Registry.Settled (.init 1) state ∧
    state.storage.slotSize = 8 ∧ state.storage.grab state.handleOf 0x1000007 = some 15 ∧
      state.storage.findName [98] = (state.named [98]).getD 0 ∧ (state.live.map Prod.snd).Nodup ∧
        (registry.step state (.register 18)).isSome := by
  obtain ⟨state, hrun, hvalue⟩ := registry.exists_run_of_playMeeting Registry.Settled (.init 1)
    (launchMoves 11 0x1000001 ++ launchMoves 12 0x1000002 ++ launchMoves 13 0x1000003 ++ launchMoves 14 0x1000004 ++
      [.name 0x1000002 [98], .name 0x1000003 [97], .retire 0x1000003] ++ launchMoves 15 0x1000007 ++
        launchMoves 16 0x1000008 ++ launchMoves 17 0x100000b)
    (fun state ↦ (state.storage.slotSize, state.live, state.unset, decide (state.IsNew 18)))
    (show _ = some (8, [(11, 0x1000001), (12, 0x1000002), (14, 0x1000004), (15, 0x1000007), (16, 0x1000008),
      (17, 0x100000b)], [], true) by decide +kernel)
  obtain ⟨hsize, hrest⟩ := Prod.mk.inj hvalue
  obtain ⟨hlive, hrest⟩ := Prod.mk.inj hrest
  obtain ⟨hunset, hnew⟩ := Prod.mk.inj hrest
  obtain ⟨hgrab, -, hnodup, hnames, hregister⟩ := handles_found hrun
  refine ⟨state, hrun, hsize, hgrab 15 _ ?_ ?_, hnames [98], hnodup, hregister ?_ 18 (of_decide_eq_true hnew) ?_⟩
  · rw [hlive]
    decide
  · rw [hunset]
    exact List.not_mem_nil
  · rw [hlive]
    decide
  · exact fun _ ↦ hunset

/-- The table doubles before the thread of the first service has stored its handle: the service is moved to the place of
zero, and is not found under its handle when it knows it. -/
theorem handle_lost : ∃ state, registry.Run (fun _ _ ↦ True) (.init 0) state ∧ (11, 1) ∈ state.live ∧
    state.unset = [] ∧ state.storage.grab state.handleOf 1 = none := by
  obtain ⟨state, hrun, hvalue⟩ := registry.exists_run_of_playMeeting (fun _ _ ↦ True) (.init 0)
    ([.register 11] ++ launchMoves 12 2 ++ launchMoves 13 3 ++ launchMoves 14 4 ++ launchMoves 15 5 ++ [.store 11 1])
    (fun state ↦ (decide ((11, 1) ∈ state.live), state.unset, state.storage.grab state.handleOf 1))
    (show _ = some (true, [], none) by decide +kernel)
  obtain ⟨hlive, hrest⟩ := Prod.mk.inj hvalue
  obtain ⟨hunset, hgrab⟩ := Prod.mk.inj hrest
  exact ⟨state, hrun, of_decide_eq_true hlive, hunset, hgrab⟩

end SvrDemo.Skynet
