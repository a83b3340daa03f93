import SvrDemo.Map.Neighbours

/-!
# Calls that return nil

`aoi.insert`, `aoi.update` and `aoi.remove` return nil for an unknown or a known character and for a position
out of bounds. `aoi.update` has taken the character out of the tree by then, and the table of the characters
still has it: from there on no query finds it.

A run here has all calls, also those that fail, and goes on from the state that each of them leaves. Every
character on the map is in the tree (`Stored`) until such a call of `aoi.update`, so the calls of a run that
return nil change nothing exactly when there is none of them in it.
-/

set_option autoImplicit false
set_option relaxedAutoImplicit false

namespace SvrDemo.Map

open Lua

namespace Aoi

variable {length : Finset ℕ → ℕ} {aoi : Aoi} {id : ℕ} {pos : Position} {order : List ℕ} {c : Call}
  {left top right bottom radius : ℤ}

/-! ### Runs -/

/-- Whether a call fails. -/
def fails (length : Finset ℕ → ℕ) (aoi : Aoi) : Call → Bool
  | .insert id pos order => !(aoi.insert length id pos order).isOk
  | .remove id order => !(aoi.remove id order).isOk
  | .update id pos order => !(aoi.update length id pos order).isOk

/-- The insertion into the tree that a call makes, if it makes one. -/
def insertion (length : Finset ℕ → ℕ) (aoi : Aoi) : Call → Option Quadtree.Inserted
  | .insert id pos _ =>
    if (aoi.object.lookup id).isSome then none else some (aoi.qtree.insert length id pos.x pos.z)
  | .remove _ _ => none
  | .update id pos _ =>
    if (aoi.object.lookup id).isSome then some ((aoi.qtree.remove id).insert length id pos.x pos.z) else none

/-- A call fails by an error: the insertion raises. -/
def Raises (length : Finset ℕ → ℕ) (aoi : Aoi) (call : Call) : Prop :=
  ∃ tree, aoi.insertion length call = some (.raised tree)

/-- A call returns nil. -/
def ReturnsNil (length : Finset ℕ → ℕ) (aoi : Aoi) (call : Call) : Prop :=
  aoi.fails length call = true ∧ ¬ aoi.Raises length call

/-- The state after some calls, whether they fail or not. -/
def afterCalls (length : Finset ℕ → ℕ) (aoi : Aoi) (calls : List Call) : Aoi :=
  calls.foldl (fun aoi call ↦ aoi.after length call) aoi

/-- A call moves a character that is on the map to a position out of bounds. -/
def MovesOut (aoi : Aoi) : Call → Prop
  | .update id pos _ => (∃ entry, aoi.object.lookup id = some entry) ∧ ¬ aoi.qtree.InBounds pos.x pos.z
  | _ => False

/-! ### A call -/

/-- Every character on the map is in the tree. -/
def Stored (aoi : Aoi) : Prop := aoi.object.keys ⊆ aoi.qtree.object.keys

theorem insert_eq_outside {tree : Quadtree} {x y : ℤ} :
    tree.insert length id x y = .outside ↔ ¬ tree.InBounds x y := by
  unfold Quadtree.insert Quadtree.InBounds
  split_ifs with hout hsplit
  · refine iff_of_true rfl ?_
    rintro ⟨hleft, hright, htop, hbottom⟩
    omega
  · refine iff_of_false (fun h ↦ nomatch h) (not_not.mpr ?_)
    push Not at hout
    exact hout
  · refine iff_of_false (fun h ↦ nomatch h) (not_not.mpr ?_)
    push Not at hout
    exact hout

/-- An insertion that raises has stored the object. -/
theorem store_of_raised {tree tree' : Quadtree} {x y : ℤ} (htree : tree.insert length id x y = .raised tree') :
    tree' = tree.store id x y := by
  unfold Quadtree.insert at htree
  split_ifs at htree
  exact (Quadtree.Inserted.raised.inj htree).symm

/-- A character that is in the tree is missing in it after it is removed. -/
theorem remove_ne_self {tree : Quadtree} (hmem : id ∈ tree.object.keys) : tree.remove id ≠ tree := by
  intro hsame
  obtain ⟨point, hpoint⟩ := Table.mem_keys_iff.mp hmem
  rw [← hsame, Quadtree.remove, Table.lookup_erase_eq, if_pos rfl] at hpoint
  cases hpoint

/-- What a call leaves. It returns nil and changes nothing; or it moves a character out of bounds, which
leaves the tree; or it succeeds or raises, and the tree still has all characters on the map. -/
inductive Leaves (length : Finset ℕ → ℕ) (aoi : Aoi) (call : Call) : Prop
  | nothing (nil : aoi.ReturnsNil length call) (stays : ¬ aoi.MovesOut call)
      (same : aoi.after length call = aoi)
  | outOfTree (nil : aoi.ReturnsNil length call) (moves : aoi.MovesOut call)
      (changed : aoi.Stored → aoi.after length call ≠ aoi)
  | stored (goesOn : ¬ aoi.ReturnsNil length call) (stays : ¬ aoi.MovesOut call)
      (stored : aoi.Stored → (aoi.after length call).Stored)

/-- The characters on the map after the loops of `aoi.insert` and `aoi.remove`. -/
theorem keys_foldl_update {object : Table Entry} (list : List ℕ) (change : Entry → Entry) :
    (list.foldl (fun object key ↦ object.update key change) object).keys = object.keys := by
  induction list generalizing object with
  | nil => rfl
  | cons key list ih => rw [List.foldl_cons, ih, Table.keys_update]

theorem not_raises (hinsertion : ∀ tree, aoi.insertion length c ≠ some (.raised tree)) : ¬ aoi.Raises length c :=
  fun ⟨tree, htree⟩ ↦ hinsertion tree htree

theorem leaves_insert (length : Finset ℕ → ℕ) (aoi : Aoi) (id : ℕ) (pos : Position) (order : List ℕ) :
    aoi.Leaves length (.insert id pos order) := by
  cases hlookup : aoi.object.lookup id with
  | some entry =>
    have hfails : aoi.fails length (.insert id pos order) = true := by
      simp only [fails, insert, hlookup]
      rfl
    have hafter : aoi.after length (.insert id pos order) = aoi := by
      simp only [after, insert, hlookup]
    refine .nothing ⟨hfails, not_raises fun tree htree ↦ ?_⟩ not_false hafter
    simp only [insertion, hlookup, Option.isSome_some, if_true, reduceCtorEq] at htree
  | none =>
    cases htree : aoi.qtree.insert length id pos.x pos.z with
    | outside =>
      have hfails : aoi.fails length (.insert id pos order) = true := by
        simp only [fails, insert, hlookup, htree]
        rfl
      have hafter : aoi.after length (.insert id pos order) = aoi := by
        simp only [after, insert, hlookup, htree]
      refine .nothing ⟨hfails, not_raises fun tree hraised ↦ ?_⟩ not_false hafter
      simp only [insertion, hlookup, htree, Option.isSome_none, Bool.false_eq_true, if_false, Option.some.injEq,
        reduceCtorEq] at hraised
    | raised tree =>
      have hafter : aoi.after length (.insert id pos order) = { aoi with qtree := tree } := by
        simp only [after, insert, hlookup, htree]
      have hraises : aoi.Raises length (.insert id pos order) := by
        refine ⟨tree, ?_⟩
        simp only [insertion, hlookup, htree, Option.isSome_none, Bool.false_eq_true, if_false]
      refine .stored (fun hnil ↦ hnil.2 hraises) not_false fun hstored ↦ ?_
      rw [hafter, store_of_raised htree]
      simp only [Stored, Quadtree.store, Table.keys_insert]
      exact hstored.trans (Finset.subset_insert id _)
    | inserted tree =>
      obtain ⟨-, rfl⟩ := Quadtree.insert_eq_inserted htree
      have hfails : aoi.fails length (.insert id pos order) = false := by
        simp only [fails, insert, hlookup, htree]
        rfl
      have hafter : aoi.after length (.insert id pos order) =
          (aoi.enter (aoi.qtree.store id pos.x pos.z) id pos order).1 := by
        simp only [after, insert, hlookup, htree]
      refine .stored (fun hnil ↦ ?_) not_false fun hstored ↦ ?_
      · have hfailed := hnil.1
        rw [hfails] at hfailed
        exact nomatch hfailed
      · rw [hafter]
        simp only [Stored, enter, Table.keys_insert, foldl_meet_snd, keys_foldl_update, Quadtree.store]
        exact Finset.insert_subset_insert id hstored

theorem leaves_remove (length : Finset ℕ → ℕ) (aoi : Aoi) (id : ℕ) (order : List ℕ) :
    aoi.Leaves length (.remove id order) := by
  cases hlookup : aoi.object.lookup id with
  | none =>
    have hfails : aoi.fails length (.remove id order) = true := by
      simp only [fails, remove, hlookup]
      rfl
    have hafter : aoi.after length (.remove id order) = aoi := by
      simp only [after, remove, hlookup]
    exact .nothing ⟨hfails, not_raises fun tree htree ↦ absurd htree (Option.some_ne_none _).symm⟩ not_false hafter
  | some entry =>
    have hfails : aoi.fails length (.remove id order) = false := by
      simp only [fails, remove, hlookup]
      rfl
    refine .stored (fun hnil ↦ ?_) not_false fun hstored ↦ ?_
    · have hfailed := hnil.1
      rw [hfails] at hfailed
      cases hfailed
    · simp only [after, remove, hlookup, Stored, Quadtree.remove, Finmap.keys_erase, keys_foldl_update]
      exact Finset.erase_subset_erase id hstored

/-- The tree after a character has been stored at a new position has all characters that it had. -/
theorem keys_subset_store_remove (tree : Quadtree) (id : ℕ) (x y : ℤ) :
    tree.object.keys ⊆ ((tree.remove id).store id x y).object.keys := by
  rw [Quadtree.store, Quadtree.remove, Table.keys_insert, Finmap.keys_erase]
  exact Finset.insert_erase_subset id _

theorem leaves_update (length : Finset ℕ → ℕ) (aoi : Aoi) (id : ℕ) (pos : Position) (order : List ℕ) :
    aoi.Leaves length (.update id pos order) := by
  cases hlookup : aoi.object.lookup id with
  | none =>
    have hfails : aoi.fails length (.update id pos order) = true := by
      simp only [fails, update, hlookup]
      rfl
    have hafter : aoi.after length (.update id pos order) = aoi := by
      simp only [after, update, hlookup]
    refine .nothing ⟨hfails, not_raises fun tree htree ↦ ?_⟩ ?_ hafter
    · simp only [insertion, hlookup, Option.isSome_none, Bool.false_eq_true, if_false, reduceCtorEq] at htree
    · rintro ⟨⟨entry, hentry⟩, -⟩
      rw [hlookup] at hentry
      cases hentry
  | some entry =>
    cases htree : (aoi.qtree.remove id).insert length id pos.x pos.z with
    | outside =>
      have hfails : aoi.fails length (.update id pos order) = true := by
        simp only [fails, update, hlookup, htree]
        rfl
      have hafter : aoi.after length (.update id pos order) = { aoi with qtree := aoi.qtree.remove id } := by
        simp only [after, update, hlookup, htree]
      have hout : ¬ (aoi.qtree.remove id).InBounds pos.x pos.z := insert_eq_outside.mp htree
      refine .outOfTree ⟨hfails, not_raises fun tree hraised ↦ ?_⟩ ⟨⟨entry, hlookup⟩, hout⟩
        fun hstored hsame ↦ ?_
      · simp only [insertion, hlookup, htree, Option.isSome_some, if_true, Option.some.injEq, reduceCtorEq]
          at hraised
      · rw [hafter] at hsame
        have hmem : id ∈ aoi.object.keys := Table.mem_keys_iff.mpr ⟨entry, hlookup⟩
        exact remove_ne_self (hstored hmem) (congrArg Aoi.qtree hsame)
    | raised tree =>
      have hraises : aoi.Raises length (.update id pos order) := by
        refine ⟨tree, ?_⟩
        simp only [insertion, hlookup, htree, Option.isSome_some, if_true]
      refine .stored (fun hnil ↦ hnil.2 hraises) (fun hmoves ↦ ?_) fun hstored ↦ ?_
      · have hout : (aoi.qtree.remove id).insert length id pos.x pos.z = .outside :=
          insert_eq_outside.mpr hmoves.2
        rw [htree] at hout
        cases hout
      · simp only [after, update, hlookup, htree, store_of_raised htree, Stored]
        exact hstored.trans (keys_subset_store_remove aoi.qtree id _ _)
    | inserted tree =>
      obtain ⟨hbounds, rfl⟩ := Quadtree.insert_eq_inserted htree
      refine .stored (fun hnil ↦ ?_) (fun hmoves ↦ hmoves.2 hbounds) fun hstored ↦ ?_
      · have hfailed := hnil.1
        simp only [fails, update, hlookup, htree, Except.isOk, Except.toBool, Bool.not_true, Bool.false_eq_true]
          at hfailed
      · simp only [after, update, hlookup, htree, Stored, move, Table.keys_update]
        exact hstored.trans (keys_subset_store_remove aoi.qtree id _ _)

theorem leaves_call (length : Finset ℕ → ℕ) (aoi : Aoi) (call : Call) : aoi.Leaves length call := by
  cases call with
  | insert id pos order => exact leaves_insert length aoi id pos order
  | remove id order => exact leaves_remove length aoi id order
  | update id pos order => exact leaves_update length aoi id pos order

theorem returnsNil_of_movesOut (hmoves : aoi.MovesOut c) : aoi.ReturnsNil length c := by
  cases leaves_call length aoi c with
  | nothing _ stays => exact absurd hmoves stays
  | outOfTree nil => exact nil
  | stored _ stays => exact absurd hmoves stays

/-- A call that moves no character out of bounds keeps all characters on the map in the tree. -/
theorem Stored.after (hstored : aoi.Stored) (hstays : ¬ aoi.MovesOut c) : (aoi.after length c).Stored := by
  cases leaves_call length aoi c with
  | nothing _ _ same => rwa [same]
  | outOfTree _ moves => exact absurd moves hstays
  | stored _ _ stored => exact stored hstored

theorem afterCalls_concat (length : Finset ℕ → ℕ) (aoi : Aoi) (calls : List Call) (call : Call) :
    aoi.afterCalls length (calls ++ [call]) = (aoi.afterCalls length calls).after length call := by
  rw [afterCalls, List.foldl_append]
  rfl

/-- In a run of calls, every call that returns nil leaves the table, the lists and the tree as they were,
exactly when no call of the run moves a character that is on the map to a position out of bounds. -/
theorem failed_calls_change_nothing_iff (length : Finset ℕ → ℕ) (left top right bottom radius : ℤ)
    (calls : List Call) :
    (∀ done call rest, calls = done ++ call :: rest →
      ((init left top right bottom radius).afterCalls length done).ReturnsNil length call →
      ((init left top right bottom radius).afterCalls length done).after length call =
        (init left top right bottom radius).afterCalls length done) ↔
    ∀ done call rest, calls = done ++ call :: rest →
      ¬ ((init left top right bottom radius).afterCalls length done).MovesOut call := by
  constructor
  · intro hsame
    -- a move out of bounds would take a character out of the tree, so all of them stay in it
    have hstored : ∀ done rest, calls = done ++ rest →
        ((init left top right bottom radius).afterCalls length done).Stored := by
      intro done
      induction done using List.reverseRecOn with
      | nil => exact fun _ _ ↦ Finset.empty_subset _
      | append_singleton done call ih =>
        intro rest hcalls
        rw [List.append_assoc, List.singleton_append] at hcalls
        rw [afterCalls_concat]
        cases leaves_call length ((init left top right bottom radius).afterCalls length done) call with
        | nothing _ _ same =>
          rw [same]
          exact ih (call :: rest) hcalls
        | outOfTree nil _ changed =>
          exact absurd (hsame done call rest hcalls nil) (changed (ih (call :: rest) hcalls))
        | stored _ _ stored => exact stored (ih (call :: rest) hcalls)
    intro done call rest hcalls hmoves
    cases leaves_call length ((init left top right bottom radius).afterCalls length done) call with
    | nothing _ stays => exact stays hmoves
    | outOfTree nil _ changed =>
      exact changed (hstored done (call :: rest) hcalls) (hsame done call rest hcalls nil)
    | stored _ stays => exact stays hmoves
  · intro hstays done call rest hcalls hnil
    cases leaves_call length ((init left top right bottom radius).afterCalls length done) call with
    | nothing _ _ same => exact same
    | outOfTree _ moves => exact absurd moves (hstays done call rest hcalls)
    | stored goesOn => exact absurd hnil goesOn

/-- Two characters in range, of which one tries to move out of bounds: it gets nil, and the next query around
the other one finds nobody. -/
theorem move_out_of_bounds : ∃ aoi : Aoi,
    (init 0 0 100 100 10).calls (fun _ ↦ 0) [.insert 16 ⟨0, 0⟩ [16], .insert 17 ⟨5, 5⟩ [16, 17]] = some aoi ∧
    aoi.ReturnsNil (fun _ ↦ 0) (.update 17 ⟨5, 101⟩ [16, 17]) ∧
    aoi.after (fun _ ↦ 0) (.update 17 ⟨5, 101⟩ [16, 17]) ≠ aoi ∧
    aoi.around 16 ⟨0, 0⟩ [16, 17] = [17] ∧
    (aoi.after (fun _ ↦ 0) (.update 17 ⟨5, 101⟩ [16, 17])).around 16 ⟨0, 0⟩ [16] = [] := by
  have hfound : ((init 0 0 100 100 10).calls (fun _ ↦ 0) [.insert 16 ⟨0, 0⟩ [16],
      .insert 17 ⟨5, 5⟩ [16, 17]]).map (fun aoi ↦ (aoi.around 16 ⟨0, 0⟩ [16, 17],
        (aoi.after (fun _ ↦ 0) (.update 17 ⟨5, 101⟩ [16, 17])).around 16 ⟨0, 0⟩ [16, 17],
        (aoi.after (fun _ ↦ 0) (.update 17 ⟨5, 101⟩ [16, 17])).around 16 ⟨0, 0⟩ [16],
        (aoi.object.lookup 17).isSome, aoi.qtree.bottom)) = some ([17], [], [], true, 100) := by
    decide
  obtain ⟨aoi, haoi, hvalue⟩ := Option.map_eq_some_iff.mp hfound
  simp only [Prod.mk.injEq] at hvalue
  obtain ⟨hbefore, hboth, hafter, hlive, hbottom⟩ := hvalue
  have hmoves : aoi.MovesOut (.update 17 ⟨5, 101⟩ [16, 17]) := by
    refine ⟨Option.isSome_iff_exists.mp hlive, ?_⟩
    rintro ⟨-, -, -, hbounds⟩
    rw [hbottom] at hbounds
    exact absurd hbounds (by decide)
  refine ⟨aoi, haoi, returnsNil_of_movesOut hmoves, fun hsame ↦ ?_, hbefore, hafter⟩
  rw [hsame, hbefore] at hboth
  exact nomatch hboth

end Aoi

end SvrDemo.Map
