import Mathlib.Data.Nat.Basic
import Mathlib.Tactic.Common
import Mathlib.Tactic.SplitIfs

/-!
# Timing wheels

A timing wheel keeps alarms in lists. Time is cut into blocks, with the blocks of a level in those of the next one. An
alarm whose deadline is in the present block of the lowest level has a list of its own time; any other alarm is in a
list of the lowest level whose present block has its deadline, by the block of the level below (`Widths.place`). When
the clock enters new blocks, one list is taken apart (`Widths.moved`), and the lists are again as they should be
(`Widths.filter_place_succ`).
-/

set_option autoImplicit false
set_option relaxedAutoImplicit false

namespace SvrDemo.Protocol

/-- The widths of the blocks of the levels. -/
structure Widths where
  width : ℕ → ℕ
  dvd : ∀ k, width k ∣ width (k + 1)

namespace Widths

variable (W : Widths) {levels now deadline j k : ℕ}

/-- How many blocks of a level are in a block of the next one. -/
def ratio (k : ℕ) : ℕ := W.width (k + 1) / W.width k

/-- The first of some levels, from a level on, in whose present block the deadline is. -/
def levelFrom (now deadline : ℕ) : ℕ → ℕ → ℕ
  | 0, k => k
  | levels + 1, k => if deadline / W.width k = now / W.width k then k else levelFrom now deadline levels (k + 1)

/-- The first level in whose present block the deadline is. -/
def level (levels now deadline : ℕ) : ℕ := W.levelFrom now deadline levels 0

/-- The list of an alarm: its level, and its index among the lists of the level. -/
def place (levels now deadline : ℕ) : ℕ × ℕ :=
  match W.level levels now deadline with
  | 0 => (0, deadline % W.width 0)
  | k + 1 => (k + 1, deadline / W.width k % W.ratio k)

/-- The number of levels, from a level on, that enter a new block at a time. -/
def carryFrom (now : ℕ) : ℕ → ℕ → ℕ
  | 0, k => k
  | levels + 1, k => if now % W.width k = 0 then carryFrom now levels (k + 1) else k

/-- The number of levels that enter a new block at a time. -/
def carry (levels now : ℕ) : ℕ := W.carryFrom now levels 0

/-- The list that is taken apart at a time. -/
def moved (levels now : ℕ) : Option (ℕ × ℕ) :=
  match W.carry levels now with
  | 0 => none
  | k + 1 => some (k + 1, now / W.width k % W.ratio k)

variable {W}

theorem width_succ (k : ℕ) : W.width (k + 1) = W.width k * W.ratio k := (Nat.mul_div_cancel' (W.dvd k)).symm

theorem width_dvd (hle : j ≤ k) : W.width j ∣ W.width k := by
  induction hle with
  | refl => exact Nat.dvd_refl _
  | step _ ih => exact Nat.dvd_trans ih (W.dvd _)

/-- Times in one block of a level are in one block of the levels above. -/
theorem same_of_le (hle : j ≤ k) (hsame : deadline / W.width j = now / W.width j) :
    deadline / W.width k = now / W.width k := by
  obtain ⟨ratio, hratio⟩ := width_dvd (W := W) hle
  rw [hratio, ← Nat.div_div_eq_div_mul, ← Nat.div_div_eq_div_mul, hsame]

/-! ### Levels -/

theorem levelFrom_spec (now deadline levels k : ℕ) :
    W.levelFrom now deadline levels k ≤ k + levels ∧
      (∀ i, k ≤ i → i < W.levelFrom now deadline levels k → deadline / W.width i ≠ now / W.width i) ∧
        (W.levelFrom now deadline levels k < k + levels →
          deadline / W.width (W.levelFrom now deadline levels k) =
            now / W.width (W.levelFrom now deadline levels k)) := by
  induction levels generalizing k with
  | zero =>
    exact ⟨Nat.le_refl _, fun i hge hlt ↦ absurd hlt (Nat.not_lt.mpr hge), fun hlt ↦ absurd hlt (Nat.lt_irrefl _)⟩
  | succ levels ih =>
    rw [levelFrom]
    split
    · next hsame => exact ⟨Nat.le_add_right _ _, fun i hge hlt ↦ absurd hlt (Nat.not_lt.mpr hge), fun _ ↦ hsame⟩
    · next hother =>
      obtain ⟨hle, hbelow, hsame⟩ := ih (k + 1)
      refine ⟨by omega, fun i hge hlt ↦ ?_, fun hlt ↦ hsame (by omega)⟩
      rcases Nat.eq_or_lt_of_le hge with rfl | hgt
      · exact hother
      · exact hbelow i hgt hlt

theorem level_le (levels now deadline : ℕ) : W.level levels now deadline ≤ levels := by
  have hle := (W.levelFrom_spec now deadline levels 0).1
  rwa [Nat.zero_add] at hle

theorem ne_of_lt_level (hlt : k < W.level levels now deadline) : deadline / W.width k ≠ now / W.width k :=
  (W.levelFrom_spec now deadline levels 0).2.1 k (Nat.zero_le k) hlt

theorem same_level (hlt : W.level levels now deadline < levels) :
    deadline / W.width (W.level levels now deadline) = now / W.width (W.level levels now deadline) :=
  (W.levelFrom_spec now deadline levels 0).2.2 (by rwa [Nat.zero_add])

theorem level_le_of_same (hsame : deadline / W.width k = now / W.width k) :
    W.level levels now deadline ≤ k :=
  Nat.not_lt.mp fun hlt ↦ ne_of_lt_level hlt hsame

/-- The level is the one up to which the blocks differ. -/
theorem level_eq (hlevels : k + 1 ≤ levels) (hother : deadline / W.width k ≠ now / W.width k)
    (hsame : k + 1 < levels → deadline / W.width (k + 1) = now / W.width (k + 1)) :
    W.level levels now deadline = k + 1 := by
  refine Nat.le_antisymm ?_ ?_
  · rcases Nat.eq_or_lt_of_le hlevels with heq | hlt
    · exact heq ▸ level_le _ _ _
    · exact level_le_of_same (hsame hlt)
  · refine Nat.not_lt.mp fun hlt ↦ ?_
    exact hother (same_of_le (Nat.le_of_lt_succ hlt) (same_level (by omega)))

/-! ### New blocks -/

theorem carryFrom_spec (now levels k : ℕ) : W.carryFrom now levels k ≤ k + levels ∧
    (∀ i, k ≤ i → i < W.carryFrom now levels k → W.width i ∣ now) ∧
      (W.carryFrom now levels k < k + levels → ¬ W.width (W.carryFrom now levels k) ∣ now) := by
  induction levels generalizing k with
  | zero =>
    exact ⟨Nat.le_refl _, fun i hge hlt ↦ absurd hlt (Nat.not_lt.mpr hge), fun hlt ↦ absurd hlt (Nat.lt_irrefl _)⟩
  | succ levels ih =>
    rw [carryFrom]
    split
    · next hnew =>
      obtain ⟨hle, hbelow, hold⟩ := ih (k + 1)
      refine ⟨by omega, fun i hge hlt ↦ ?_, fun hlt ↦ hold (by omega)⟩
      rcases Nat.eq_or_lt_of_le hge with rfl | hgt
      · exact Nat.dvd_of_mod_eq_zero hnew
      · exact hbelow i hgt hlt
    · next hold =>
      exact ⟨Nat.le_add_right _ _, fun i hge hlt ↦ absurd hlt (Nat.not_lt.mpr hge),
        fun _ hdvd ↦ hold (Nat.mod_eq_zero_of_dvd hdvd)⟩

theorem carry_le (levels now : ℕ) : W.carry levels now ≤ levels := by
  have hle := (W.carryFrom_spec now levels 0).1
  rwa [Nat.zero_add] at hle

theorem dvd_of_lt_carry (hlt : k < W.carry levels now) : W.width k ∣ now :=
  (W.carryFrom_spec now levels 0).2.1 k (Nat.zero_le k) hlt

/-- From the carry on the blocks are those of the time before. -/
theorem same_of_carry_le (hcarry : W.carry levels (now + 1) ≤ k) (hlevels : k < levels) :
    (now + 1) / W.width k = now / W.width k := by
  have hold : ¬ W.width k ∣ now + 1 := fun hdvd ↦
    (W.carryFrom_spec (now + 1) levels 0).2.2 (by rw [Nat.zero_add]; exact Nat.lt_of_le_of_lt hcarry hlevels)
      (Nat.dvd_trans (width_dvd hcarry) hdvd)
  rw [Nat.succ_div, if_neg hold, Nat.add_zero]

/-- Below the carry no deadline that has not passed is in the block of the time before. -/
theorem carry_le_level (hdeadline : now + 1 ≤ deadline) : W.carry levels (now + 1) ≤ W.level levels now deadline := by
  refine Nat.not_lt.mp fun hlt ↦ ?_
  have hle := W.carry_le levels (now + 1)
  have hsame := same_level (show W.level levels now deadline < levels by omega)
  have hdvd := dvd_of_lt_carry hlt
  have hnew : (now + 1) / W.width (W.level levels now deadline) ≤ deadline / W.width (W.level levels now deadline) :=
    Nat.div_le_div_right hdeadline
  rw [Nat.succ_div, if_pos hdvd] at hnew
  omega

/-! ### Places -/

theorem place_of_level (hlevel : W.level levels now deadline = k + 1) :
    W.place levels now deadline = (k + 1, deadline / W.width k % W.ratio k) := by
  rw [place, hlevel]

theorem fst_place (levels now deadline : ℕ) : (W.place levels now deadline).1 = W.level levels now deadline := by
  unfold place
  split
  · next hlevel => exact hlevel.symm
  · next hlevel => exact hlevel.symm

theorem moved_of_carry (hcarry : W.carry levels now = k + 1) :
    W.moved levels now = some (k + 1, now / W.width k % W.ratio k) := by
  rw [moved, hcarry]

/-- The level of an alarm that is not in the list that is taken apart. -/
theorem level_succ (hdeadline : now + 1 ≤ deadline)
    (hstays : W.moved levels (now + 1) ≠ some (W.place levels now deadline)) :
    W.level levels (now + 1) deadline = W.level levels now deadline := by
  have hcarry : W.carry levels (now + 1) ≤ W.level levels now deadline := carry_le_level hdeadline
  cases hlevel : W.level levels now deadline with
  | zero =>
    -- no level enters a new block
    rw [hlevel, Nat.le_zero] at hcarry
    have hle := W.level_le levels now deadline
    rcases Nat.eq_or_lt_of_le (Nat.zero_le levels) with rfl | hpos
    · exact Nat.le_zero.mp (level_le _ _ _)
    · have hsame := same_level (show W.level levels now deadline < levels from hlevel ▸ hpos)
      rw [hlevel] at hsame
      exact Nat.le_zero.mp (level_le_of_same
        (hsame.trans (same_of_carry_le (Nat.le_of_eq hcarry) hpos).symm))
  | succ r =>
    rw [hlevel] at hcarry
    have hlevels : r + 1 ≤ levels := hlevel ▸ level_le _ _ _
    refine level_eq hlevels ?_ fun hlt ↦ ?_
    · have hother : deadline / W.width r ≠ now / W.width r := ne_of_lt_level (by rw [hlevel]; exact Nat.lt_succ_self r)
      rcases Nat.lt_or_ge r (W.carry levels (now + 1)) with hlt | hge
      · -- the level is the one whose list is taken apart, and the alarm is in another one
        have heq : W.carry levels (now + 1) = r + 1 := Nat.le_antisymm hcarry hlt
        rw [moved_of_carry heq, place_of_level hlevel] at hstays
        intro hsame
        exact hstays (by rw [hsame])
      · rwa [same_of_carry_le hge hlevels]
    · have hsame := same_level (show W.level levels now deadline < levels from hlevel ▸ hlt)
      rw [hlevel] at hsame
      rw [hsame, same_of_carry_le hcarry hlt]

/-- An alarm that is not in the list that is taken apart stays in its list. -/
theorem place_succ (hdeadline : now + 1 ≤ deadline)
    (hstays : W.moved levels (now + 1) ≠ some (W.place levels now deadline)) :
    W.place levels (now + 1) deadline = W.place levels now deadline := by
  rw [place, place, level_succ hdeadline hstays]

/-- An alarm in the list that is taken apart gets into a list of a lower level. The last level has only alarms whose
blocks are less than a turn of its lists away. -/
theorem level_lt_of_moved (hdeadline : now + 1 ≤ deadline)
    (hnear : deadline / W.width (levels - 1) < (now + 1) / W.width (levels - 1) + W.ratio (levels - 1))
    (hmoved : W.moved levels (now + 1) = some (W.place levels now deadline)) :
    W.level levels (now + 1) deadline < W.carry levels (now + 1) := by
  cases hcarry : W.carry levels (now + 1) with
  | zero =>
    rw [moved, hcarry] at hmoved
    cases hmoved
  | succ j =>
    rw [moved_of_carry hcarry] at hmoved
    have hplace := Option.some.inj hmoved
    have hlevel : W.level levels now deadline = j + 1 := by
      rw [← fst_place, ← hplace]
    rw [place_of_level hlevel] at hplace
    have hindex : (now + 1) / W.width j % W.ratio j = deadline / W.width j % W.ratio j := (Prod.mk.inj hplace).2
    have hlevels : j + 1 ≤ levels := hcarry ▸ carry_le _ _
    have hle : (now + 1) / W.width j ≤ deadline / W.width j := Nat.div_le_div_right hdeadline
    refine Nat.lt_succ_of_le (level_le_of_same ?_)
    rcases Nat.eq_or_lt_of_le hlevels with rfl | hlt
    · -- less than a turn away, and at the same index
      rw [Nat.add_sub_cancel] at hnear
      have hdiff : (deadline / W.width j - (now + 1) / W.width j) % W.ratio j = 0 :=
        Nat.sub_mod_eq_zero_of_mod_eq hindex.symm
      rw [Nat.mod_eq_of_lt (by omega)] at hdiff
      omega
    · -- in the same block of the next level, and at the same index
      have hsame := same_level (show W.level levels now deadline < levels from hlevel ▸ hlt)
      rw [hlevel, ← same_of_carry_le (Nat.le_of_eq hcarry) hlt, width_succ, ← Nat.div_div_eq_div_mul,
        ← Nat.div_div_eq_div_mul] at hsame
      rw [← Nat.div_add_mod (deadline / W.width j) (W.ratio j), hsame, ← hindex, Nat.div_add_mod]

/-! ### Lists -/

/-- When every alarm is in its list before a time, and the list that is taken apart is distributed, every alarm is in
its list at that time, in the order of all alarms. -/
theorem filter_place_succ {α : Type} {pending : List (ℕ × α)} (hdue : ∀ alarm ∈ pending, now + 1 ≤ alarm.1)
    (hnear : ∀ alarm ∈ pending,
      alarm.1 / W.width (levels - 1) < (now + 1) / W.width (levels - 1) + W.ratio (levels - 1))
    {list : ℕ × ℕ} (hmoved : W.moved levels (now + 1) = some list) (place : ℕ × ℕ) :
    (if place = list then [] else pending.filter fun alarm ↦ W.place levels now alarm.1 = place) ++
        ((pending.filter fun alarm ↦ W.place levels now alarm.1 = list).filter fun alarm ↦
          W.place levels (now + 1) alarm.1 = place) =
      pending.filter fun alarm ↦ W.place levels (now + 1) alarm.1 = place := by
  have hstays : ∀ alarm ∈ pending, W.place levels now alarm.1 ≠ list →
      W.place levels (now + 1) alarm.1 = W.place levels now alarm.1 := fun alarm hmem hne ↦
    place_succ (hdue alarm hmem) fun hsame ↦ hne (Option.some.inj (hmoved.symm.trans hsame)).symm
  have hlower : ∀ alarm ∈ pending, W.place levels now alarm.1 = list →
      (W.place levels (now + 1) alarm.1).1 < W.carry levels (now + 1) := fun alarm hmem heq ↦
    fst_place (W := W) levels (now + 1) alarm.1 ▸
      level_lt_of_moved (hdue alarm hmem) (hnear alarm hmem) (hmoved.trans (congrArg some heq.symm))
  have hhigher : ∀ alarm ∈ pending, W.carry levels (now + 1) ≤ (W.place levels now alarm.1).1 := fun alarm hmem ↦
    fst_place (W := W) levels now alarm.1 ▸ carry_le_level (hdue alarm hmem)
  rcases Nat.lt_or_ge place.1 (W.carry levels (now + 1)) with hlt | hge
  · -- a list of a lower level: it was empty
    have hnone : (if place = list then [] else pending.filter fun alarm ↦ W.place levels now alarm.1 = place) = [] := by
      split
      · rfl
      · refine List.filter_eq_nil_iff.mpr fun alarm hmem hplace ↦ ?_
        have hhigh := hhigher alarm hmem
        rw [of_decide_eq_true hplace] at hhigh
        omega
    rw [hnone, List.nil_append, List.filter_filter]
    refine List.filter_congr fun alarm hmem ↦ ?_
    by_cases hlist : W.place levels now alarm.1 = list
    · simp [hlist]
    · have hne : W.place levels (now + 1) alarm.1 ≠ place := by
        intro hplace
        have hhigh := hhigher alarm hmem
        rw [← hstays alarm hmem hlist, hplace] at hhigh
        omega
      simp [hlist, hne]
  · -- another list: it keeps its alarms, and gets none
    have hnone : ((pending.filter fun alarm ↦ W.place levels now alarm.1 = list).filter fun alarm ↦
        W.place levels (now + 1) alarm.1 = place) = [] := by
      rw [List.filter_filter]
      refine List.filter_eq_nil_iff.mpr fun alarm hmem hboth ↦ ?_
      rw [Bool.and_eq_true, decide_eq_true_eq, decide_eq_true_eq] at hboth
      have hlow := hlower alarm hmem hboth.2
      rw [hboth.1] at hlow
      omega
    rw [hnone, List.append_nil]
    split
    · next heq =>
      refine (List.filter_eq_nil_iff.mpr fun alarm hmem hplace ↦ ?_).symm
      have hplace := of_decide_eq_true hplace
      by_cases hlist : W.place levels now alarm.1 = list
      · have hlow := hlower alarm hmem hlist
        rw [hplace] at hlow
        omega
      · exact hlist ((hstays alarm hmem hlist).symm.trans (hplace.trans heq))
    · next hne =>
      refine List.filter_congr fun alarm hmem ↦ decide_eq_decide.mpr ?_
      by_cases hlist : W.place levels now alarm.1 = list
      · have hlow := hlower alarm hmem hlist
        exact ⟨fun hplace ↦ absurd (hplace.symm.trans hlist) hne, fun hplace ↦ by rw [hplace] at hlow; omega⟩
      · rw [hstays alarm hmem hlist]

/-- When no level enters a new block, every alarm stays in its list. -/
theorem place_succ_of_not_moved (hdeadline : now + 1 ≤ deadline) (hnone : W.moved levels (now + 1) = none) :
    W.place levels (now + 1) deadline = W.place levels now deadline :=
  place_succ hdeadline (by rw [hnone]; exact (Option.some_ne_none _).symm)

end Widths

end SvrDemo.Protocol
