import SvrDemo.Map.Aoi

/-!
# The neighbours on a map

The list of a character should hold exactly the other characters in its range. `insert` and `remove` keep
the lists so. `update` keeps them so exactly when the move brings no character into the range and takes
none out of it: the lists of the others are the ones of the old position. The tree mirrors the table of
the characters after every successful call, so the query of `update` is right, and only the other side
is missed.

The main result, about sequences of successful calls, is that the lists are right after every call if and
only if no call of `update` changes the range of the character that moves.
-/

set_option autoImplicit false
set_option relaxedAutoImplicit false

namespace SvrDemo.Map

open Lua

namespace Aoi

/-- Two positions are in range of each other. -/
def InRange (radius : ℤ) (pos other : Position) : Prop :=
  |pos.x - other.x| < radius ∧ |pos.z - other.z| < radius

instance (radius : ℤ) (pos other : Position) : Decidable (InRange radius pos other) :=
  inferInstanceAs (Decidable (_ ∧ _))

theorem inRange_comm {radius : ℤ} {pos other : Position} :
    InRange radius pos other ↔ InRange radius other pos := by
  unfold InRange
  rw [abs_sub_comm pos.x, abs_sub_comm pos.z]

/-- The lists are symmetric and exact, and hold only characters on the map. -/
structure Exact (aoi : Aoi) : Prop where
  symmetric : ∀ a b ca cb, aoi.object.lookup a = some ca → aoi.object.lookup b = some cb → a ≠ b →
    (b ∈ ca.list ↔ a ∈ cb.list)
  inRange : ∀ a b ca cb, aoi.object.lookup a = some ca → aoi.object.lookup b = some cb → a ≠ b →
    (b ∈ ca.list ↔ InRange aoi.radius ca.pos cb.pos)
  live : ∀ a ca, aoi.object.lookup a = some ca → ∀ b ∈ ca.list,
    b ≠ a ∧ ∃ cb, aoi.object.lookup b = some cb

/-- Symmetry follows from exactness. -/
theorem exact_of_inRange {aoi : Aoi}
    (hinRange : ∀ a b ca cb, aoi.object.lookup a = some ca → aoi.object.lookup b = some cb → a ≠ b →
      (b ∈ ca.list ↔ InRange aoi.radius ca.pos cb.pos))
    (hlive : ∀ a ca, aoi.object.lookup a = some ca → ∀ b ∈ ca.list,
      b ≠ a ∧ ∃ cb, aoi.object.lookup b = some cb) : aoi.Exact where
  symmetric a b ca cb ha hb hne := by
    rw [hinRange a b ca cb ha hb hne, hinRange b a cb ca hb ha hne.symm, inRange_comm]
  inRange := hinRange
  live := hlive

/-- A tree holds the characters of a table at their positions, and they are in bounds. -/
structure Mirrors (tree : Quadtree) (object : Table Entry) : Prop where
  point : ∀ id, tree.object.lookup id =
    (object.lookup id).map fun entry ↦ ⟨entry.pos.x, entry.pos.z⟩
  bounds : ∀ id point, tree.object.lookup id = some point → tree.InBounds point.x point.y

variable {length : Finset ℕ → ℕ} {aoi last : Aoi} {id : ℕ} {pos : Position} {order : List ℕ}
  {list list' : Finset ℕ} {tree : Quadtree} {object object' : Table Entry}

/-! ### The tree -/

/-- Putting a character into the tree and into the table. -/
theorem Mirrors.store (h : Mirrors tree object) (hpos : tree.InBounds pos.x pos.z)
    (list : Finset ℕ) :
    Mirrors (tree.store id pos.x pos.z) (object.insert id ⟨pos, list⟩) := by
  constructor
  · intro other
    rw [Quadtree.store, Table.lookup_insert_eq, Table.lookup_insert_eq]
    by_cases hother : other = id
    · simp [hother]
    · simpa [hother] using h.point other
  · intro other point hpoint
    rw [Quadtree.store, Table.lookup_insert_eq] at hpoint
    by_cases hother : other = id
    · rw [if_pos hother] at hpoint
      obtain rfl := Option.some.inj hpoint
      exact hpos
    · rw [if_neg hother] at hpoint
      exact h.bounds other point hpoint

/-- Taking a character out of the tree and out of the table. -/
theorem Mirrors.remove (h : Mirrors tree object) : Mirrors (tree.remove id) (object.erase id) := by
  constructor
  · intro other
    rw [Quadtree.remove, Table.lookup_erase_eq, Table.lookup_erase_eq]
    by_cases hother : other = id
    · simp [hother]
    · simpa [hother] using h.point other
  · intro other point hpoint
    exact h.bounds other point (Table.lookup_of_erase hpoint)

/-- The tree does not look at the lists. -/
theorem Mirrors.congr (h : Mirrors tree object)
    (hpos : ∀ id, (object'.lookup id).map Entry.pos = (object.lookup id).map Entry.pos) :
    Mirrors tree object' := by
  refine ⟨fun id ↦ ?_, h.bounds⟩
  have hmap : ∀ table : Table Entry, ((table.lookup id).map fun entry ↦
      (⟨entry.pos.x, entry.pos.z⟩ : Point)) =
        ((table.lookup id).map Entry.pos).map fun pos ↦ ⟨pos.x, pos.z⟩ := by
    intro table
    rw [Option.map_map]
    rfl
  rw [h.point, hmap, hmap, hpos]

/-- A query finds the other characters in range. -/
theorem mem_around (h : Mirrors aoi.qtree object) (horder : IsOrder order aoi.qtree.object.keys)
    {cid : ℕ} : cid ∈ aoi.around id pos order ↔
      cid ≠ id ∧ ∃ c, object.lookup cid = some c ∧ InRange aoi.radius pos c.pos := by
  unfold around InRange
  rw [Quadtree.mem_query h.bounds horder, h.point]
  refine and_congr_right fun hne ↦ ?_
  constructor
  · rintro ⟨point, hpoint, ⟨hleft, hright⟩, htop, hbottom⟩
    obtain ⟨c, hc, rfl⟩ := Option.map_eq_some_iff.mp hpoint
    simp only at hleft hright htop hbottom
    exact ⟨c, hc, abs_lt.mpr (by omega), abs_lt.mpr (by omega)⟩
  · rintro ⟨c, hc, hx, hz⟩
    rw [abs_lt] at hx hz
    refine ⟨⟨c.pos.x, c.pos.z⟩, by simp [hc], ?_⟩
    simp only
    omega

/-- A query finds a character once. -/
theorem nodup_around (horder : IsOrder order aoi.qtree.object.keys) :
    (aoi.around id pos order).Nodup :=
  Quadtree.nodup_query horder

/-! ### The calls -/

/-- The loop of `aoi.insert` collects the characters on the map. -/
theorem mem_foldl_meet {result : List ℕ} {cid : ℕ} :
    ∀ state : Finset ℕ × Table Entry, cid ∈ (result.foldl (meet id) state).1 ↔
      cid ∈ state.1 ∨ cid ∈ result ∧ ∃ c, state.2.lookup cid = some c := by
  induction result with
  | nil => simp
  | cons head result ih =>
    intro state
    rw [List.foldl_cons, ih]
    cases hhead : state.2.lookup head with
    | none =>
      have hmeet : meet id state head = state := by simp [meet, hhead]
      rw [hmeet, List.mem_cons]
      refine or_congr_right (and_congr_left ?_)
      rintro ⟨c, hc⟩
      refine (or_iff_right ?_).symm
      rintro rfl
      rw [hhead] at hc
      cases hc
    | some c =>
      have hmeet : meet id state head = (Insert.insert head state.1, state.2.update head fun entry ↦
          { entry with list := Insert.insert id entry.list }) := by simp [meet, hhead]
      rw [hmeet, Finset.mem_insert, List.mem_cons, ← Table.mem_keys_iff, ← Table.mem_keys_iff,
        Table.keys_update]
      have hmem : head ∈ state.2.keys := Table.mem_keys_iff.mpr ⟨c, hhead⟩
      constructor
      · rintro ((rfl | hold) | ⟨hresult, hkeys⟩)
        · exact .inr ⟨.inl rfl, hmem⟩
        · exact .inl hold
        · exact .inr ⟨.inr hresult, hkeys⟩
      · rintro (hold | ⟨rfl | hresult, hkeys⟩)
        · exact .inl (.inr hold)
        · exact .inl (.inl rfl)
        · exact .inr ⟨hresult, hkeys⟩

/-- The loop of `aoi.insert` puts the new character into the list of each. -/
theorem foldl_meet_snd {result : List ℕ} : ∀ state : Finset ℕ × Table Entry,
    (result.foldl (meet id) state).2 = result.foldl (fun object cid ↦ object.update cid fun entry ↦
      { entry with list := Insert.insert id entry.list }) state.2 := by
  induction result with
  | nil => simp
  | cons head result ih =>
    intro state
    rw [List.foldl_cons, ih, List.foldl_cons]
    congr 1
    cases hhead : state.2.lookup head with
    | none => simp [meet, hhead, Table.update]
    | some c => simp [meet, hhead]

/-- A character that enters: its list is right, and it is in the lists of the characters in its range. -/
theorem enter_spec (hmirrors : Mirrors tree (aoi.object.insert id ⟨pos, list'⟩))
    (horder : IsOrder order tree.object.keys) (hlast : aoi.enter tree id pos order = (last, list)) :
    Mirrors last.qtree last.object ∧ last.radius = aoi.radius ∧
      last.object.lookup id = some ⟨pos, list⟩ ∧
        (∀ cid, cid ∈ list ↔
          cid ≠ id ∧ ∃ c, aoi.object.lookup cid = some c ∧ InRange aoi.radius pos c.pos) ∧
        ∀ cid, cid ≠ id → last.object.lookup cid = (aoi.object.lookup cid).map fun c ↦
          ⟨c.pos, if InRange aoi.radius pos c.pos then Insert.insert id c.list else c.list⟩ := by
  have hmem : ∀ cid, cid ∈ around { aoi with qtree := tree } id pos order ↔
      cid ≠ id ∧ ∃ c, aoi.object.lookup cid = some c ∧ InRange aoi.radius pos c.pos := by
    intro cid
    refine (mem_around hmirrors horder).trans (and_congr_right fun hne ↦ ?_)
    rw [Table.lookup_insert_eq, if_neg hne]
  have hnodup : (around { aoi with qtree := tree } id pos order).Nodup := nodup_around horder
  simp only [enter] at hlast
  generalize around { aoi with qtree := tree } id pos order = result at hlast hmem hnodup
  have hothers : ∀ cid, cid ≠ id → last.object.lookup cid = (aoi.object.lookup cid).map fun c ↦
      ⟨c.pos, if InRange aoi.radius pos c.pos then Insert.insert id c.list else c.list⟩ := by
    intro cid hcid
    obtain ⟨rfl, -⟩ := Prod.mk.inj hlast
    simp only
    rw [Table.lookup_insert_eq, if_neg hcid, foldl_meet_snd, Table.lookup_foldl_update _ hnodup]
    simp only [hmem]
    cases hlookup : aoi.object.lookup cid with
    | none => simp
    | some c => by_cases hrange : InRange aoi.radius pos c.pos <;> simp [hcid, hrange]
  have hself : last.object.lookup id = some ⟨pos, list⟩ := by
    obtain ⟨rfl, rfl⟩ := Prod.mk.inj hlast
    simp
  refine ⟨?_, ?_, hself, fun cid ↦ ?_, hothers⟩
  · have hqtree : last.qtree = tree := by
      obtain ⟨rfl, -⟩ := Prod.mk.inj hlast
      rfl
    rw [hqtree]
    refine hmirrors.congr fun cid ↦ ?_
    by_cases hcid : cid = id
    · rw [hcid, hself]
      simp
    · rw [hothers cid hcid, Table.lookup_insert_eq, if_neg hcid, Option.map_map]
      rfl
  · obtain ⟨rfl, -⟩ := Prod.mk.inj hlast
    rfl
  · obtain ⟨-, rfl⟩ := Prod.mk.inj hlast
    rw [mem_foldl_meet, hmem]
    constructor
    · rintro (hempty | ⟨hin, -⟩)
      · exact absurd hempty (Finset.notMem_empty cid)
      · exact hin
    · intro hin
      exact .inr ⟨hin, hin.2.imp fun _ hc ↦ hc.1⟩

/-- A successful `aoi.insert`. -/
theorem insert_eq_ok (hmirrors : Mirrors aoi.qtree aoi.object)
    (horder : IsOrder order (Insert.insert id aoi.qtree.object.keys))
    (h : aoi.insert length id pos order = .ok (last, list)) :
    aoi.object.lookup id = none ∧ Mirrors last.qtree last.object ∧ last.radius = aoi.radius ∧
      last.object.lookup id = some ⟨pos, list⟩ ∧
        (∀ cid, cid ∈ list ↔
          cid ≠ id ∧ ∃ c, aoi.object.lookup cid = some c ∧ InRange aoi.radius pos c.pos) ∧
        ∀ cid, cid ≠ id → last.object.lookup cid = (aoi.object.lookup cid).map fun c ↦
          ⟨c.pos, if InRange aoi.radius pos c.pos then Insert.insert id c.list else c.list⟩ := by
  unfold insert at h
  split at h
  · cases h
  · next hnone =>
    split at h
    · cases h
    · cases h
    · next tree htree =>
      obtain ⟨hpos, rfl⟩ := Quadtree.insert_eq_inserted htree
      rw [← Table.keys_insert] at horder
      exact ⟨hnone, enter_spec (hmirrors.store hpos ∅) horder (Except.ok.inj h)⟩

/-- A successful `aoi.remove`: the character is gone, also from the lists of the characters in its own
list. -/
theorem remove_eq_ok (hmirrors : Mirrors aoi.qtree aoi.object)
    (horder : IsOrder order (((aoi.object.lookup id).map Entry.list).getD ∅))
    (h : aoi.remove id order = .ok (last, list)) :
    ∃ c, aoi.object.lookup id = some c ∧ Mirrors last.qtree last.object ∧
      last.radius = aoi.radius ∧ last.object.lookup id = none ∧
        ∀ cid, cid ≠ id → last.object.lookup cid = (aoi.object.lookup cid).map fun entry ↦
          ⟨entry.pos, if cid ∈ c.list then entry.list.erase id else entry.list⟩ := by
  unfold remove at h
  split at h
  · cases h
  · next c hc =>
    cases h
    rw [hc] at horder
    have hothers : ∀ cid, (order.foldl (fun object v ↦ object.update v fun entry ↦
        { entry with list := entry.list.erase id }) aoi.object).lookup cid =
          (aoi.object.lookup cid).map fun entry ↦
            ⟨entry.pos, if cid ∈ c.list then entry.list.erase id else entry.list⟩ := by
      intro cid
      rw [Table.lookup_foldl_update _ horder.1]
      simp only [horder.mem_iff, Option.map_some, Option.getD_some]
      by_cases hcid : cid ∈ c.list
      · simp [hcid]
      · cases aoi.object.lookup cid <;> simp [hcid]
    refine ⟨c, hc, ?_, rfl, by simp, fun cid hcid ↦ ?_⟩
    · refine hmirrors.remove.congr fun cid ↦ ?_
      simp only
      rw [Table.lookup_erase_eq, Table.lookup_erase_eq]
      by_cases hcid : cid = id
      · simp [hcid]
      · rw [if_neg hcid, if_neg hcid, hothers, Option.map_map]
        rfl
    · simp only
      rw [Table.lookup_erase_eq, if_neg hcid, hothers]

/-- A character that moves: its list is right, and the lists of the others are as before. -/
theorem move_spec {c : Entry} {moved : Moved} (hc : aoi.object.lookup id = some c)
    (hmirrors : Mirrors tree ((aoi.object.erase id).insert id ⟨pos, list⟩))
    (horder : IsOrder order tree.object.keys)
    (hlast : aoi.move c tree id pos order = (last, moved)) :
    Mirrors last.qtree last.object ∧ last.radius = aoi.radius ∧
      last.object.lookup id = some ⟨pos, moved.nlist ∪ moved.ulist⟩ ∧
        (∀ cid, cid ∈ moved.nlist ∪ moved.ulist ↔
          cid ≠ id ∧ ∃ c, aoi.object.lookup cid = some c ∧ InRange aoi.radius pos c.pos) ∧
        ∀ cid, cid ≠ id → last.object.lookup cid = aoi.object.lookup cid := by
  have hmem : ∀ cid, cid ∈ around { aoi with qtree := tree } id pos order ↔
      cid ≠ id ∧ ∃ c, aoi.object.lookup cid = some c ∧ InRange aoi.radius pos c.pos := by
    intro cid
    refine (mem_around hmirrors horder).trans (and_congr_right fun hne ↦ ?_)
    rw [Table.lookup_insert_eq, if_neg hne, Table.lookup_erase_eq, if_neg hne]
  simp only [move] at hlast
  generalize around { aoi with qtree := tree } id pos order = found at hlast hmem
  obtain ⟨rfl, rfl⟩ := Prod.mk.inj hlast
  refine ⟨?_, rfl, ?_, fun cid ↦ ?_, fun cid hcid ↦ ?_⟩
  · refine hmirrors.congr fun cid ↦ ?_
    by_cases hcid : cid = id
    · subst hcid
      simp [hc]
    · simp [hcid]
  · simp only [Table.lookup_update_self, hc, Option.map_some]
  · rw [← hmem, Finset.mem_union, Finset.mem_sdiff, Finset.mem_inter, List.mem_toFinset]
    tauto
  · simp only [Table.lookup_update_of_ne _ hcid]

/-- A successful `aoi.update`. -/
theorem update_eq_ok {moved : Moved} (hmirrors : Mirrors aoi.qtree aoi.object)
    (horder : IsOrder order (Insert.insert id aoi.qtree.object.keys))
    (h : aoi.update length id pos order = .ok (last, moved)) :
    ∃ c, aoi.object.lookup id = some c ∧ Mirrors last.qtree last.object ∧
      last.radius = aoi.radius ∧
        last.object.lookup id = some ⟨pos, moved.nlist ∪ moved.ulist⟩ ∧
          (∀ cid, cid ∈ moved.nlist ∪ moved.ulist ↔
            cid ≠ id ∧ ∃ c, aoi.object.lookup cid = some c ∧ InRange aoi.radius pos c.pos) ∧
          ∀ cid, cid ≠ id → last.object.lookup cid = aoi.object.lookup cid := by
  unfold update at h
  split at h
  · cases h
  · next c hc =>
    split at h
    · cases h
    · cases h
    · next tree htree =>
      obtain ⟨hpos, rfl⟩ := Quadtree.insert_eq_inserted htree
      have hkeys : ((aoi.qtree.remove id).store id pos.x pos.z).object.keys =
          Insert.insert id aoi.qtree.object.keys := by
        rw [Quadtree.store, Table.keys_insert, Quadtree.remove]
        ext cid
        simp only [Finset.mem_insert, Table.mem_keys_iff, Table.lookup_erase_eq]
        by_cases hcid : cid = id <;> simp [hcid]
      rw [← hkeys] at horder
      exact ⟨c, hc, move_spec hc (hmirrors.remove.store hpos ∅) horder (Except.ok.inj h)⟩

/-! ### Exactness -/

/-- Entering the map keeps the lists right. -/
theorem Exact.insert (hexact : aoi.Exact) (hmirrors : Mirrors aoi.qtree aoi.object)
    (horder : IsOrder order (Insert.insert id aoi.qtree.object.keys))
    (h : aoi.insert length id pos order = .ok (last, list)) : last.Exact := by
  obtain ⟨hnone, -, hradius, hself, hlist, hothers⟩ := insert_eq_ok hmirrors horder h
  have hold : ∀ {cid c}, cid ≠ id → last.object.lookup cid = some c →
      ∃ old, aoi.object.lookup cid = some old ∧ c = ⟨old.pos,
        if InRange aoi.radius pos old.pos then Insert.insert id old.list else old.list⟩ := by
    intro cid c hcid hc
    rw [hothers cid hcid] at hc
    obtain ⟨old, hlookup, heq⟩ := Option.map_eq_some_iff.mp hc
    exact ⟨old, hlookup, heq.symm⟩
  apply exact_of_inRange
  · intro a b ca cb ha hb hne
    rw [hradius]
    by_cases hself' : a = id
    · subst hself'
      obtain ⟨old, hbOld, rfl⟩ := hold hne.symm hb
      obtain rfl := Option.some.inj (hself.symm.trans ha)
      simp only
      rw [hlist, hbOld]
      simp [hne.symm]
    · obtain ⟨old, haOld, rfl⟩ := hold hself' ha
      by_cases hb' : b = id
      · subst hb'
        obtain rfl := Option.some.inj (hself.symm.trans hb)
        have hfresh : b ∉ old.list := by
          intro hmem
          obtain ⟨-, cb, hcb⟩ := hexact.live a old haOld b hmem
          rw [hnone] at hcb
          cases hcb
        refine Iff.trans ?_ inRange_comm
        by_cases hrange : InRange aoi.radius pos old.pos <;> simp [hrange, hfresh]
      · obtain ⟨old', hbOld, rfl⟩ := hold hb' hb
        refine Iff.trans ?_ (hexact.inRange a b old old' haOld hbOld hne)
        by_cases hrange : InRange aoi.radius pos old.pos <;> simp [hrange, hb']
  · intro a ca ha b hb
    by_cases hself' : a = id
    · subst hself'
      obtain rfl := Option.some.inj (hself.symm.trans ha)
      obtain ⟨hne, c, hc, -⟩ := (hlist b).mp hb
      exact ⟨hne, _, by rw [hothers b hne, hc]; rfl⟩
    · obtain ⟨old, haOld, rfl⟩ := hold hself' ha
      by_cases hb' : b = id
      · subst hb'
        exact ⟨Ne.symm hself', _, hself⟩
      · have hmem : b ∈ old.list := by
          by_cases hrange : InRange aoi.radius pos old.pos
          · simpa [hrange, hb'] using hb
          · simpa [hrange] using hb
        obtain ⟨hne, cb, hcb⟩ := hexact.live a old haOld b hmem
        exact ⟨hne, _, by rw [hothers b hb', hcb]; rfl⟩

/-- Leaving the map keeps the lists right: by symmetry the lists that hold the character are those of
the characters in its own list. -/
theorem Exact.remove (hexact : aoi.Exact) (hmirrors : Mirrors aoi.qtree aoi.object)
    (horder : IsOrder order (((aoi.object.lookup id).map Entry.list).getD ∅))
    (h : aoi.remove id order = .ok (last, list)) : last.Exact := by
  obtain ⟨c, hc, -, hradius, hgone, hothers⟩ := remove_eq_ok hmirrors horder h
  have hold : ∀ {cid entry}, last.object.lookup cid = some entry → cid ≠ id ∧
      ∃ old, aoi.object.lookup cid = some old ∧ entry.pos = old.pos ∧
        ∀ b, b ∈ entry.list ↔ b ∈ old.list ∧ b ≠ id := by
    intro cid entry hentry
    have hcid : cid ≠ id := by
      rintro rfl
      rw [hgone] at hentry
      cases hentry
    rw [hothers cid hcid] at hentry
    obtain ⟨old, hlookup, rfl⟩ := Option.map_eq_some_iff.mp hentry
    refine ⟨hcid, old, hlookup, rfl, fun b ↦ ?_⟩
    by_cases hmem : cid ∈ c.list
    · simp [hmem, and_comm]
    · have hnot : id ∉ old.list := by
        rwa [hexact.symmetric cid id old c hlookup hc hcid]
      simp only [if_neg hmem]
      exact ⟨fun hb ↦ ⟨hb, fun heq ↦ hnot (heq ▸ hb)⟩, And.left⟩
  apply exact_of_inRange
  · intro a b ca cb ha hb hne
    obtain ⟨-, olda, ha, hposa, hlista⟩ := hold ha
    obtain ⟨hb', oldb, hb, hposb, -⟩ := hold hb
    rw [hradius, hlista, hposa, hposb, ← hexact.inRange a b olda oldb ha hb hne]
    exact and_iff_left hb'
  · intro a ca ha b hb
    obtain ⟨-, old, ha, -, hlist⟩ := hold ha
    obtain ⟨hmem, hne⟩ := (hlist b).mp hb
    obtain ⟨hself, cb, hcb⟩ := hexact.live a old ha b hmem
    exact ⟨hself, _, by rw [hothers b hne, hcb]; rfl⟩

/-- A move that brings no character into the range of the one that moves, and takes none out of it. -/
def KeepsRange (aoi : Aoi) : Call → Prop
  | .update id pos _ => ∀ c other entry, aoi.object.lookup id = some c → other ≠ id →
      aoi.object.lookup other = some entry →
        (InRange aoi.radius c.pos entry.pos ↔ InRange aoi.radius pos entry.pos)
  | _ => True

/-- A move keeps the lists right if and only if it keeps the range of the character that moves. -/
theorem exact_update_iff {moved : Moved} (hexact : aoi.Exact)
    (hmirrors : Mirrors aoi.qtree aoi.object)
    (horder : IsOrder order (Insert.insert id aoi.qtree.object.keys))
    (h : aoi.update length id pos order = .ok (last, moved)) :
    last.Exact ↔ aoi.KeepsRange (.update id pos order) := by
  obtain ⟨c, hc, -, hradius, hself, hlist, hothers⟩ := update_eq_ok hmirrors horder h
  constructor
  · intro hlast c' other entry hc' hother hentry
    obtain rfl := Option.some.inj (hc.symm.trans hc')
    have hentry' := (hothers other hother).trans hentry
    -- The other list still tells the old range, and it must tell the new one.
    rw [inRange_comm, ← hexact.inRange other id entry c hentry hc hother,
      hlast.inRange other id entry _ hentry' hself hother, hradius, inRange_comm]
  · intro hkeeps
    apply exact_of_inRange
    · intro a b ca cb ha hb hne
      rw [hradius]
      by_cases hself' : a = id
      · subst hself'
        obtain rfl := Option.some.inj (hself.symm.trans ha)
        rw [hothers b hne.symm] at hb
        simp only
        rw [hlist, hb]
        simp [hne.symm]
      · rw [hothers a hself'] at ha
        by_cases hb' : b = id
        · subst hb'
          obtain rfl := Option.some.inj (hself.symm.trans hb)
          rw [hexact.inRange a b ca c ha hc hne, inRange_comm, hkeeps c a ca hc hself' ha,
            inRange_comm]
        · rw [hothers b hb'] at hb
          exact hexact.inRange a b ca cb ha hb hne
    · intro a ca ha b hb
      have hlive : ∀ {cid entry}, aoi.object.lookup cid = some entry →
          ∃ entry', last.object.lookup cid = some entry' := by
        intro cid entry hentry
        by_cases hcid : cid = id
        · exact ⟨_, hcid ▸ hself⟩
        · exact ⟨entry, (hothers cid hcid).trans hentry⟩
      by_cases hself' : a = id
      · subst hself'
        obtain rfl := Option.some.inj (hself.symm.trans ha)
        obtain ⟨hne, c, hc, -⟩ := (hlist b).mp hb
        exact ⟨hne, hlive hc⟩
      · rw [hothers a hself'] at ha
        obtain ⟨hne, cb, hcb⟩ := hexact.live a ca ha b hb
        exact ⟨hne, hlive hcb⟩

/-- A call that succeeds follows an order of the keys that it visits, and its function succeeds. -/
theorem call_eq_some {c : Call} (h : aoi.call length c = some last) :
    IsOrder (orderOf c) (aoi.visited c) ∧ match c with
      | .insert id pos order => ∃ list, aoi.insert length id pos order = .ok (last, list)
      | .remove id order => ∃ list, aoi.remove id order = .ok (last, list)
      | .update id pos order => ∃ moved, aoi.update length id pos order = .ok (last, moved) := by
  have hok : ∀ {β : Type} {result : Except Aoi (Aoi × β)}, result.toOption.map Prod.fst = some last →
      ∃ value, result = .ok (last, value) := by
    intro β result hresult
    cases result with
    | error left => exact nomatch hresult
    | ok pair => exact ⟨pair.2, congrArg Except.ok (Prod.ext (Option.some.inj hresult) rfl)⟩
  unfold call at h
  split at h
  · next horder =>
    refine ⟨horder, ?_⟩
    cases c with
    | insert id pos order => exact hok h
    | remove id order => exact hok h
    | update id pos order => exact hok h
  · exact nomatch h

/-- A successful call keeps the tree, and keeps the lists right if and only if it keeps the range. -/
theorem call_spec {c : Call} (hmirrors : Mirrors aoi.qtree aoi.object)
    (h : aoi.call length c = some last) :
    Mirrors last.qtree last.object ∧ (aoi.Exact → (last.Exact ↔ aoi.KeepsRange c)) := by
  obtain ⟨horder, hcall⟩ := call_eq_some h
  cases c with
  | insert id pos order =>
    obtain ⟨list, hcall⟩ := hcall
    exact ⟨(insert_eq_ok hmirrors horder hcall).2.1, fun hexact ↦
      iff_of_true (hexact.insert hmirrors horder hcall) trivial⟩
  | remove id order =>
    obtain ⟨list, hcall⟩ := hcall
    obtain ⟨entry, -, hnext, -⟩ := remove_eq_ok hmirrors horder hcall
    exact ⟨hnext, fun hexact ↦ iff_of_true (hexact.remove hmirrors horder hcall) trivial⟩
  | update id pos order =>
    obtain ⟨moved, hcall⟩ := hcall
    obtain ⟨entry, -, hnext, -⟩ := update_eq_ok hmirrors horder hcall
    exact ⟨hnext, fun hexact ↦ exact_update_iff hexact hmirrors horder hcall⟩

/-! ### Sequences of calls -/

theorem calls_concat {list : List Call} {c : Call} :
    aoi.calls length (list ++ [c]) = (aoi.calls length list).bind fun next ↦ next.call length c := by
  simp [calls, List.foldlM_append]

/-- The tree mirrors the characters after every successful call. -/
theorem mirrors_of_calls {left top right bottom radius : ℤ} {list : List Call}
    (h : (init left top right bottom radius).calls length list = some last) :
    Mirrors last.qtree last.object := by
  induction list using List.reverseRecOn generalizing last with
  | nil =>
    cases h
    exact ⟨fun id ↦ by simp [init, Quadtree.new], fun id point hpoint ↦ by
      simp [init, Quadtree.new] at hpoint⟩
  | append_singleton list c ih =>
    rw [calls_concat, Option.bind_eq_some_iff] at h
    obtain ⟨before, hbefore, hcall⟩ := h
    exact (call_spec (ih hbefore) hcall).1

/-- On every sequence of successful calls, the lists are symmetric and exact after each call if and
only if every move keeps the range of the character that moves. -/
theorem neighbours_exact_iff (length : Finset ℕ → ℕ) (left top right bottom radius : ℤ)
    (list : List Call) (hlist : ((init left top right bottom radius).calls length list).isSome) :
    (∀ done rest aoi, list = done ++ rest →
      (init left top right bottom radius).calls length done = some aoi → aoi.Exact) ↔
    ∀ done c rest aoi, list = done ++ c :: rest →
      (init left top right bottom radius).calls length done = some aoi → aoi.KeepsRange c := by
  constructor
  · rintro hexact done c rest aoi rfl hdone
    obtain ⟨last, hlast⟩ := Option.isSome_iff_exists.mp hlist
    -- The whole sequence succeeds, so the call after `done` does.
    obtain ⟨next, hnext⟩ : ∃ next, aoi.call length c = some next := by
      rw [calls, List.foldlM_append, Option.bind_eq_bind, Option.bind_eq_some_iff] at hlast
      obtain ⟨middle, hmiddle, hlast⟩ := hlast
      obtain rfl := Option.some.inj (hdone.symm.trans hmiddle)
      rw [List.foldlM_cons, Option.bind_eq_bind, Option.bind_eq_some_iff] at hlast
      exact ⟨_, hlast.choose_spec.1⟩
    have hafter : (init left top right bottom radius).calls length (done ++ [c]) = some next := by
      rw [calls_concat, hdone, Option.bind_some, hnext]
    exact ((call_spec (mirrors_of_calls hdone) hnext).2 (hexact done _ aoi rfl hdone)).mp
      (hexact _ rest next (by simp) hafter)
  · intro hkeeps done
    induction done using List.reverseRecOn with
    | nil =>
      rintro rest aoi - hnil
      cases hnil
      exact ⟨fun a b ca cb ha ↦ by simp [init] at ha, fun a b ca cb ha ↦ by simp [init] at ha,
        fun a ca ha ↦ by simp [init] at ha⟩
    | append_singleton done c ih =>
      rintro rest aoi rfl hdone
      rw [calls_concat, Option.bind_eq_some_iff] at hdone
      obtain ⟨before, hbefore, hcall⟩ := hdone
      have hexact := ih (c :: rest) before (by simp) hbefore
      exact ((call_spec (mirrors_of_calls hbefore) hcall).2 hexact).mpr
        (hkeeps done c rest before (by simp) hbefore)

/-- Two characters that meet, a move within the range, and a departure. The ids are handles, so the
length of the table of objects is 0. -/
theorem neighbours_exact_iff_pair :
    ((init 0 0 100 100 10).calls (fun _ ↦ 0) [.insert 16 ⟨0, 0⟩ [16], .insert 17 ⟨5, 5⟩ [16, 17],
      .update 17 ⟨3, 3⟩ [17, 16], .remove 16 [17]]).isSome ∧
    ((∀ done rest aoi, [.insert 16 ⟨0, 0⟩ [16], .insert 17 ⟨5, 5⟩ [16, 17],
      .update 17 ⟨3, 3⟩ [17, 16], .remove 16 [17]] = done ++ rest →
        (init 0 0 100 100 10).calls (fun _ ↦ 0) done = some aoi → aoi.Exact) ↔
    ∀ done c rest aoi, [.insert 16 ⟨0, 0⟩ [16], .insert 17 ⟨5, 5⟩ [16, 17],
      .update 17 ⟨3, 3⟩ [17, 16], .remove 16 [17]] = done ++ c :: rest →
        (init 0 0 100 100 10).calls (fun _ ↦ 0) done = some aoi → aoi.KeepsRange c) :=
  ⟨by decide, neighbours_exact_iff _ 0 0 100 100 10 _ (by decide)⟩

/-- A character that moves into the range of another finds it, and is not found by it. -/
theorem move_into_range_missed :
    ∃ aoi, (init 0 0 100 100 10).calls (fun _ ↦ 0) [.insert 16 ⟨0, 0⟩ [16],
      .insert 17 ⟨50, 0⟩ [16, 17], .update 17 ⟨5, 0⟩ [16, 17]] = some aoi ∧
        (∃ entry, aoi.object.lookup 17 = some entry ∧ 16 ∈ entry.list) ∧
          (∃ entry, aoi.object.lookup 16 = some entry ∧ 17 ∉ entry.list) ∧ ¬ aoi.Exact := by
  have hmover : ((init 0 0 100 100 10).calls (fun _ ↦ 0) [.insert 16 ⟨0, 0⟩ [16],
      .insert 17 ⟨50, 0⟩ [16, 17], .update 17 ⟨5, 0⟩ [16, 17]]).bind
        (fun aoi ↦ (aoi.object.lookup 17).map Entry.list) = some {16} := by decide
  have hother : ((init 0 0 100 100 10).calls (fun _ ↦ 0) [.insert 16 ⟨0, 0⟩ [16],
      .insert 17 ⟨50, 0⟩ [16, 17], .update 17 ⟨5, 0⟩ [16, 17]]).bind
        (fun aoi ↦ (aoi.object.lookup 16).map Entry.list) = some ∅ := by decide
  obtain ⟨aoi, haoi, hmover⟩ := Option.bind_eq_some_iff.mp hmover
  obtain ⟨mover, hmover, hlist⟩ := Option.map_eq_some_iff.mp hmover
  rw [haoi, Option.bind_some] at hother
  obtain ⟨other, hother, hempty⟩ := Option.map_eq_some_iff.mp hother
  have hin : 16 ∈ mover.list := by rw [hlist]; exact Finset.mem_singleton_self 16
  have hout : 17 ∉ other.list := by rw [hempty]; exact Finset.notMem_empty 17
  refine ⟨aoi, haoi, ⟨mover, hmover, hin⟩, ⟨other, hother, hout⟩, fun hexact ↦ ?_⟩
  exact hout ((hexact.symmetric 17 16 mover other hmover hother (by decide)).mp hin)

end Aoi

end SvrDemo.Map
