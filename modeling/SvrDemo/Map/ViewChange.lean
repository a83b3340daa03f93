import SvrDemo.Map.Neighbours

/-!
# What a move reports

`aoi.update` returns the characters that come into the view of the one that moves, those that stay in it and
those that leave it. It takes the new view from the tree and the old one from the list of the character, which
it empties in place until the characters that have left remain.

The ids of the characters are handles of services. They are no sequence, so the length of a table of objects
is 0 and the tree does not split: a move to a position within the bounds succeeds. `handles` are the ids for
which this is so.
-/

set_option autoImplicit false
set_option relaxedAutoImplicit false

namespace SvrDemo.Map

open Lua

namespace Aoi

variable {length : Finset ℕ → ℕ} {aoi last : Aoi} {id other : ℕ} {pos : Position} {order : List ℕ}
  {entry : Entry} {c : Call} {left top right bottom radius : ℤ} {list : List Call} {handles : Set ℕ}

/-- The other characters in range of a position. -/
def IsView (aoi : Aoi) (id : ℕ) (pos : Position) (view : Finset ℕ) : Prop :=
  ∀ other, other ∈ view ↔
    other ≠ id ∧ ∃ entry, aoi.object.lookup other = some entry ∧ InRange aoi.radius pos entry.pos

/-! ### The characters on the map -/

/-- Only the character of a call comes onto the map with it. -/
theorem lookup_of_call (hmirrors : Mirrors aoi.qtree aoi.object) (h : aoi.call length c = some last)
    (hentry : last.object.lookup other = some entry) :
    other = c.id ∨ ∃ entry, aoi.object.lookup other = some entry := by
  by_cases hother : other = c.id
  · exact .inl hother
  · have hmap : ∀ {change : Entry → Entry},
        last.object.lookup other = (aoi.object.lookup other).map change →
        ∃ entry, aoi.object.lookup other = some entry := by
      intro change hlookup
      rw [hentry] at hlookup
      obtain ⟨entry, hentry, -⟩ := Option.map_eq_some_iff.mp hlookup.symm
      exact ⟨entry, hentry⟩
    obtain ⟨horder, hcall⟩ := call_eq_some h
    cases c with
    | insert id pos order =>
      obtain ⟨_, hcall⟩ := hcall
      exact .inr (hmap ((insert_eq_ok hmirrors horder hcall).2.2.2.2.2 other hother))
    | remove id order =>
      obtain ⟨_, hcall⟩ := hcall
      obtain ⟨_, _, _, _, _, hothers⟩ := remove_eq_ok hmirrors horder hcall
      exact .inr (hmap (hothers other hother))
    | update id pos order =>
      obtain ⟨_, hcall⟩ := hcall
      obtain ⟨_, _, _, _, _, _, hothers⟩ := update_eq_ok hmirrors horder hcall
      exact .inr ⟨entry, (hothers other hother).symm.trans hentry⟩

/-- The characters on the map are characters of the calls. -/
theorem handles_of_calls (h : (init left top right bottom radius).calls length list = some last)
    (hids : ∀ call ∈ list, call.id ∈ handles) (hentry : last.object.lookup other = some entry) :
    other ∈ handles := by
  induction list using List.reverseRecOn generalizing last entry with
  | nil =>
    cases h
    exact nomatch hentry
  | append_singleton list c ih =>
    rw [calls_concat, Option.bind_eq_some_iff] at h
    obtain ⟨before, hbefore, hcall⟩ := h
    rcases lookup_of_call (mirrors_of_calls hbefore) hcall hentry with rfl | ⟨entry, hentry⟩
    · exact hids c (List.mem_append_right list (List.mem_singleton_self c))
    · exact ih hbefore (fun call hcall ↦ hids call (List.mem_append_left _ hcall)) hentry

/-! ### A move -/

/-- A tree whose ids are handles does not split, and takes every point within its bounds. -/
theorem insert_of_length {tree : Quadtree} {x y : ℤ} (hbounds : tree.InBounds x y)
    (hlength : length (tree.store id x y).object.keys = 0) :
    tree.insert length id x y = .inserted (tree.store id x y) := by
  obtain ⟨hleft, hright, htop, hbottom⟩ := hbounds
  rw [Quadtree.insert, if_neg (by omega), if_neg (by omega)]

/-- The three sets that `aoi.update` makes of the old list and of the new view, which the first two make up. -/
theorem move_moved {tree : Quadtree} {moved : Moved} (hmove : aoi.move entry tree id pos order = (last, moved)) :
    moved = ⟨(moved.nlist ∪ moved.ulist) \ entry.list, (moved.nlist ∪ moved.ulist) ∩ entry.list,
      entry.list \ (moved.nlist ∪ moved.ulist)⟩ := by
  obtain ⟨-, rfl⟩ := Prod.mk.inj hmove
  dsimp only
  generalize ({ aoi with qtree := tree }.around id pos order).toFinset = found
  have hview : found \ (found ∩ entry.list) ∪ found ∩ entry.list = found :=
    Finset.sdiff_union_of_subset Finset.inter_subset_left
  rw [hview]
  congr 1
  · rw [Finset.sdiff_inter_self_left]
  · rw [Finset.sdiff_inter_self_right]

/-- A move of a character to a position within the bounds succeeds and reports the exact change of its view:
the new characters in it, the old ones that are still in it, and the old ones that are not. Afterwards the
list of the character is its new view, and the tree has it at the new position. -/
theorem update_reports_change (hlength : ∀ keys : Finset ℕ, (∀ key ∈ keys, key ∈ handles) → length keys = 0)
    (hcalls : (init left top right bottom radius).calls length list = some aoi)
    (hids : ∀ call ∈ list, call.id ∈ handles) (hlive : aoi.object.lookup id = some entry)
    (hbounds : aoi.qtree.InBounds pos.x pos.z)
    (horder : IsOrder order (aoi.visited (.update id pos order))) :
    ∃ last moved view, aoi.update length id pos order = .ok (last, moved) ∧ aoi.IsView id pos view ∧
      moved = ⟨view \ entry.list, view ∩ entry.list, entry.list \ view⟩ ∧
      (Disjoint moved.nlist moved.ulist ∧ Disjoint moved.nlist moved.olist ∧ Disjoint moved.ulist moved.olist) ∧
      last.object.lookup id = some ⟨pos, view⟩ ∧ last.qtree.object.lookup id = some ⟨pos.x, pos.z⟩ := by
  have hmirrors := mirrors_of_calls hcalls
  -- the tree has the characters on the map, and does not split
  have hkeys : length ((aoi.qtree.remove id).store id pos.x pos.z).object.keys = 0 := by
    apply hlength
    intro key hkey
    rw [Quadtree.store, Table.keys_insert, Finset.mem_insert, Quadtree.remove, Table.mem_keys_iff] at hkey
    rcases hkey with rfl | ⟨point, hpoint⟩
    · exact handles_of_calls hcalls hids hlive
    · have hold := Table.lookup_of_erase hpoint
      rw [hmirrors.point] at hold
      obtain ⟨entry, hentry, -⟩ := Option.map_eq_some_iff.mp hold
      exact handles_of_calls hcalls hids hentry
  have htree := insert_of_length (show (aoi.qtree.remove id).InBounds pos.x pos.z from hbounds) hkeys
  cases hmove : aoi.move entry ((aoi.qtree.remove id).store id pos.x pos.z) id pos order with
  | mk last moved =>
    have hupdate : aoi.update length id pos order = .ok (last, moved) := by
      simp only [update, hlive, htree, hmove]
    obtain ⟨-, -, hlast, -, hself, hview, -⟩ := update_eq_ok hmirrors horder hupdate
    have hmoved := move_moved hmove
    refine ⟨last, moved, moved.nlist ∪ moved.ulist, hupdate, hview, hmoved, ⟨?_, ?_, ?_⟩, hself, ?_⟩
    · rw [hmoved]
      exact Finset.disjoint_sdiff_inter _ _
    · rw [hmoved]
      exact disjoint_sdiff_sdiff
    · rw [hmoved]
      exact Finset.disjoint_sdiff.mono_left Finset.inter_subset_left
    · rw [hlast.point, hself]
      rfl

/-- Two characters in range, one of which moves out of the range of the first into that of a third. -/
theorem update_reports_change_three : ∃ aoi : Aoi,
    (init 0 0 100 100 10).calls (fun _ ↦ 0) [.insert 16 ⟨0, 0⟩ [16], .insert 17 ⟨5, 5⟩ [16, 17],
      .insert 18 ⟨50, 50⟩ [18, 17, 16]] = some aoi ∧
    ∃ last moved view, aoi.update (fun _ ↦ 0) 17 ⟨45, 45⟩ [16, 17, 18] = .ok (last, moved) ∧
      aoi.IsView 17 ⟨45, 45⟩ view ∧ last.object.lookup 17 = some ⟨⟨45, 45⟩, view⟩ := by
  have hentry : (((init 0 0 100 100 10).calls (fun _ ↦ 0) [.insert 16 ⟨0, 0⟩ [16], .insert 17 ⟨5, 5⟩ [16, 17],
      .insert 18 ⟨50, 50⟩ [18, 17, 16]]).bind fun aoi ↦
        if IsOrder [16, 17, 18] (aoi.visited (.update 17 ⟨45, 45⟩ [16, 17, 18])) ∧
          (aoi.qtree.left ≤ 45 ∧ 45 ≤ aoi.qtree.right ∧ aoi.qtree.top ≤ 45 ∧ 45 ≤ aoi.qtree.bottom)
        then (aoi.object.lookup 17).map Entry.list else none) = some {16} := by decide
  obtain ⟨aoi, haoi, hlist⟩ := Option.bind_eq_some_iff.mp hentry
  split at hlist
  · next hvisited =>
    obtain ⟨horder, hbounds⟩ := hvisited
    obtain ⟨entry, hlive, -⟩ := Option.map_eq_some_iff.mp hlist
    have hids : ∀ call ∈ [Call.insert 16 ⟨0, 0⟩ [16], .insert 17 ⟨5, 5⟩ [16, 17],
        .insert 18 ⟨50, 50⟩ [18, 17, 16]], call.id ∈ ({16, 17, 18} : Set ℕ) := by decide
    obtain ⟨last, moved, view, hupdate, hview, -, -, hlast, -⟩ :=
      update_reports_change (fun _ _ ↦ rfl) haoi hids hlive
        (show aoi.qtree.InBounds (⟨45, 45⟩ : Position).x (⟨45, 45⟩ : Position).z from hbounds) horder
    exact ⟨aoi, haoi, last, moved, view, hupdate, hview, hlast⟩
  · exact nomatch hlist

end Aoi

end SvrDemo.Map
