import SvrDemo.Protocol.Machine

/-!
# Alarms

A clock that ticks, and alarms with deadlines. The abstract machine keeps all alarms in one list, in the order in which
they were set. The clock goes on only when every alarm that is due has gone off. Then an alarm goes off exactly once,
at its deadline, and the alarms of one deadline go off in the order in which they were set (`Alarms.OnTime`).
-/

set_option autoImplicit false
set_option relaxedAutoImplicit false

namespace SvrDemo.Protocol

variable {α : Type}

/-- The clock, the alarms that have not gone off, and for histories the alarms that were set with their deadlines and
those that went off with the time. -/
structure Alarms (α : Type) where
  now : ℕ
  pending : List (ℕ × α)
  set : List (ℕ × α)
  fired : List (ℕ × α)

inductive AlarmEvent (α : Type)
  | set (deadline : ℕ) (alarm : α)
  | tick
  | fire

namespace Alarms

/-- A clock without alarms. -/
def initial (now : ℕ) : Alarms α := ⟨now, [], [], []⟩

/-- The alarms that are due go off. -/
def fire (state : Alarms α) : Alarms α :=
  { state with
    pending := state.pending.filter fun alarm ↦ state.now < alarm.1
    fired := state.fired ++
      (state.pending.filter fun alarm ↦ alarm.1 ≤ state.now).map fun alarm ↦ (state.now, alarm.2) }

end Alarms

/-- The machine of a clock with alarms. -/
def alarms (α : Type) : Machine (Alarms α) (AlarmEvent α) where
  step state event :=
    match event with
    | .set deadline alarm =>
      if state.now < deadline then
        some { state with
          pending := state.pending ++ [(deadline, alarm)]
          set := state.set ++ [(deadline, alarm)] }
      else none
    | .tick => if ∀ alarm ∈ state.pending, state.now < alarm.1 then some { state with now := state.now + 1 } else none
    | .fire => some state.fire

namespace Alarms

/-- Of the alarms set for a time, those that have gone off then are the first ones, and the others are pending. No
deadline has passed, and no alarm has gone off in the future. -/
structure OnTime (state : Alarms α) : Prop where
  split : ∀ time, (state.fired.filter fun alarm ↦ alarm.1 = time) ++ (state.pending.filter fun alarm ↦ alarm.1 = time) =
    state.set.filter fun alarm ↦ alarm.1 = time
  due : ∀ alarm ∈ state.pending, state.now ≤ alarm.1
  past : ∀ alarm ∈ state.fired, alarm.1 ≤ state.now

variable {state next : Alarms α}

theorem onTime_initial (now : ℕ) : (initial now : Alarms α).OnTime where
  split _ := rfl
  due := List.forall_mem_nil _
  past := List.forall_mem_nil _

theorem OnTime.fire (h : state.OnTime) : state.fire.OnTime where
  split time := by
    -- the alarms that are due have this very deadline
    have hdue : ((state.pending.filter fun alarm ↦ alarm.1 ≤ state.now).map fun alarm ↦ (state.now, alarm.2)) =
        state.pending.filter fun alarm ↦ alarm.1 = state.now := by
      rw [List.filter_congr fun alarm hmem ↦ decide_eq_decide.mpr
        ⟨fun hle ↦ Nat.le_antisymm hle (h.due alarm hmem), Nat.le_of_eq⟩]
      refine List.map_congr_left (g := id) (fun alarm hmem ↦ ?_) |>.trans (List.map_id _)
      exact Prod.ext (of_decide_eq_true (List.mem_filter.mp hmem).2).symm rfl
    have hlater : ((state.pending.filter fun alarm ↦ state.now < alarm.1).filter fun alarm ↦ alarm.1 = time) =
        if time = state.now then [] else state.pending.filter fun alarm ↦ alarm.1 = time := by
      rw [List.filter_filter]
      split
      · next hnow => exact List.filter_eq_nil_iff.mpr fun alarm _ ↦ by simp; omega
      · next hnow =>
        refine List.filter_congr fun alarm hmem ↦ ?_
        have hdeadline := h.due alarm hmem
        simp
        omega
    change (state.fired ++ _).filter _ ++ ((state.pending.filter _).filter _) = state.set.filter _
    rw [hdue, hlater, List.filter_append, List.filter_filter, ← h.split time, List.append_assoc]
    congr 1
    split
    · next hnow => simp [hnow]
    · next hnow =>
      rw [List.filter_eq_nil_iff.mpr fun alarm _ ↦ by simp; omega, List.nil_append]
  due alarm hmem := h.due alarm (List.mem_of_mem_filter hmem)
  past alarm hmem := by
    rcases List.mem_append.mp hmem with hold | hnew
    · exact h.past alarm hold
    · obtain ⟨other, _, rfl⟩ := List.mem_map.mp hnew
      exact Nat.le_refl _

theorem OnTime.step (h : state.OnTime) {event : AlarmEvent α} (hstep : (alarms α).step state event = some next) :
    next.OnTime := by
  cases event with
  | set deadline alarm =>
    obtain ⟨hlater, hnext⟩ := Option.ite_none_right_eq_some.mp hstep
    obtain rfl := Option.some.inj hnext
    refine ⟨fun time ↦ ?_, fun other hmem ↦ ?_, h.past⟩
    · rw [List.filter_append, List.filter_append, ← List.append_assoc, h.split]
    · rcases List.mem_append.mp hmem with hold | hnew
      · exact h.due other hold
      · obtain rfl := List.mem_singleton.mp hnew
        exact Nat.le_of_lt hlater
  | tick =>
    obtain ⟨hnone, hnext⟩ := Option.ite_none_right_eq_some.mp hstep
    obtain rfl := Option.some.inj hnext
    exact ⟨h.split, fun alarm hmem ↦ hnone alarm hmem, fun alarm hmem ↦ Nat.le_succ_of_le (h.past alarm hmem)⟩
  | fire => exact Option.some.inj hstep ▸ h.fire

/-- When no alarm is due, those that went off at a time are exactly those that were set for it. -/
theorem OnTime.fired_eq (h : state.OnTime) (hnone : ∀ alarm ∈ state.pending, state.now < alarm.1) (time : ℕ) :
    (state.fired.filter fun alarm ↦ alarm.1 = time) =
      if time ≤ state.now then state.set.filter fun alarm ↦ alarm.1 = time else [] := by
  split
  · next hpast =>
    have hnil : (state.pending.filter fun alarm ↦ alarm.1 = time) = [] := by
      refine List.filter_eq_nil_iff.mpr fun alarm hmem ↦ ?_
      have hlater := hnone alarm hmem
      simp
      omega
    rw [← h.split time, hnil, List.append_nil]
  · next hfuture =>
    refine List.filter_eq_nil_iff.mpr fun alarm hmem ↦ ?_
    have hpast := h.past alarm hmem
    simp
    omega

end Alarms

end SvrDemo.Protocol
