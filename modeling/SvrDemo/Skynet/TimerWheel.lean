import SvrDemo.Skynet.Timer
import SvrDemo.Protocol.Alarms
import SvrDemo.Protocol.Wheel
import Mathlib.Tactic.Linarith

/-!
# Timeouts are punctual

The timer is a timing wheel: `near` is its lowest level, with a list for each tick of a block of 256, and the four
arrays of `t` are the levels above, with blocks of `2 ^ 14`, `2 ^ 20`, `2 ^ 26` and all ticks. The masks of `add_node`
and `timer_shift` say in which blocks the time and the deadline are (`listOf_eq`, `timerShift_eq`), and that the time is
a `uint32_t` does no harm, because an `int` reaches less than half of its round.

So a timer keeps its pending timeouts as `Widths.place` says (`Wheeled`), and what its thread dispatches is what an
alarm clock rings: a timeout of `n` ticks is dispatched exactly once, `n` ticks after it was set.
-/

set_option autoImplicit false
set_option relaxedAutoImplicit false

namespace SvrDemo.Skynet

open Protocol

/-! ### Masks -/

theorem or_mask_eq_iff (k x y : ℕ) : x ||| (2 ^ k - 1) = y ||| (2 ^ k - 1) ↔ x / 2 ^ k = y / 2 ^ k := by
  have hbit : ∀ z i, (z ||| (2 ^ k - 1)).testBit i = (decide (i < k) || z.testBit i) := by
    intro z i
    rw [Nat.testBit_or, Nat.testBit_two_pow_sub_one, Bool.or_comm]
  constructor
  · intro heq
    refine Nat.eq_of_testBit_eq fun i ↦ ?_
    have hi := congrArg (fun z ↦ z.testBit (k + i)) heq
    simp only [hbit] at hi
    rw [decide_eq_false (by omega), Bool.false_or, Bool.false_or] at hi
    rwa [Nat.testBit_div_two_pow, Nat.testBit_div_two_pow, Nat.add_comm i k]
  · intro heq
    refine Nat.eq_of_testBit_eq fun i ↦ ?_
    rw [hbit, hbit]
    rcases Nat.lt_or_ge i k with hlt | hge
    · rw [decide_eq_true hlt, Bool.true_or, Bool.true_or]
    · have hi := congrArg (fun z ↦ z.testBit (i - k)) heq
      simp only [Nat.testBit_div_two_pow, Nat.sub_add_cancel hge] at hi
      rw [hi]

theorem and_mask_eq (k x : ℕ) : x &&& (2 ^ k - 1) = x % 2 ^ k := Nat.and_two_pow_sub_one_eq_mod x k

/-! ### The wheel -/

/-- The blocks of the levels. -/
def blocks : Widths where
  width k := 2 ^ (8 + 6 * k)
  dvd k := Nat.pow_dvd_pow 2 (by omega)

@[simp]
theorem width_blocks (k : ℕ) : blocks.width k = 2 ^ (8 + 6 * k) := rfl

@[simp]
theorem ratio_blocks (k : ℕ) : blocks.ratio k = 64 := by
  rw [Widths.ratio, width_blocks, width_blocks, Nat.pow_div (by omega) (by decide)]
  rw [show 8 + 6 * (k + 1) - (8 + 6 * k) = 6 by omega]

/-- The list of a place of the wheel. -/
def listAt : ℕ × ℕ → LinkList
  | (0, idx) => .near idx
  | (k + 1, idx) => .t k idx

theorem listAt_injective : Function.Injective listAt := by
  rintro ⟨_ | k, i⟩ ⟨_ | l, j⟩ heq <;> cases heq <;> rfl

theorem levelFrom_eq (x y : ℕ) : Timer.levelFrom x y 3 0 (timeNear <<< timeLevelShift) =
    if x / 2 ^ 14 = y / 2 ^ 14 then 0 else if x / 2 ^ 20 = y / 2 ^ 20 then 1
      else if x / 2 ^ 26 = y / 2 ^ 26 then 2 else 3 := by
  simp only [← or_mask_eq_iff]
  rfl

theorem level_blocks (now deadline : ℕ) : blocks.level 4 now deadline =
    if deadline / 2 ^ 8 = now / 2 ^ 8 then 0 else if deadline / 2 ^ 14 = now / 2 ^ 14 then 1
      else if deadline / 2 ^ 20 = now / 2 ^ 20 then 2 else if deadline / 2 ^ 26 = now / 2 ^ 26 then 3 else 4 :=
  rfl

/-- `add_node` chooses the list of the wheel. -/
theorem listOf_eq {now deadline : ℕ} (hge : now ≤ deadline) (hlt : deadline < now + 2 ^ 31) :
    Timer.listOf (deadline % 2 ^ 32) (now % 2 ^ 32) = listAt (blocks.place 4 now deadline) := by
  have hlevel := level_blocks now deadline
  have hblock8 : deadline % 2 ^ 32 / 2 ^ 8 = now % 2 ^ 32 / 2 ^ 8 ↔ deadline / 2 ^ 8 = now / 2 ^ 8 := by omega
  have hblock14 : deadline % 2 ^ 32 / 2 ^ 14 = now % 2 ^ 32 / 2 ^ 14 ↔ deadline / 2 ^ 14 = now / 2 ^ 14 := by omega
  have hblock20 : deadline % 2 ^ 32 / 2 ^ 20 = now % 2 ^ 32 / 2 ^ 20 ↔ deadline / 2 ^ 20 = now / 2 ^ 20 := by omega
  have hblock26 : deadline % 2 ^ 32 / 2 ^ 26 = now % 2 ^ 32 / 2 ^ 26 ↔ deadline / 2 ^ 26 = now / 2 ^ 26 := by omega
  have hindex : ∀ i, (deadline % 2 ^ 32) >>> (timeNearShift + i * timeLevelShift) &&& timeLevelMask =
      deadline % 2 ^ 32 / 2 ^ (8 + 6 * i) % 64 := by
    intro i
    rw [Nat.shiftRight_eq_div_pow, Nat.mul_comm]
    exact and_mask_eq 6 _
  have hnear : (deadline % 2 ^ 32 ||| timeNearMask = now % 2 ^ 32 ||| timeNearMask) ↔ deadline / 2 ^ 8 = now / 2 ^ 8 :=
    (or_mask_eq_iff 8 _ _).trans hblock8
  have hidx : deadline % 2 ^ 32 &&& timeNearMask = deadline % 2 ^ 32 % 2 ^ 8 := and_mask_eq 8 _
  unfold Timer.listOf
  simp only [levelFrom_eq, hblock14, hblock20, hblock26, hnear, hidx, hindex]
  by_cases h8 : deadline / 2 ^ 8 = now / 2 ^ 8
  · rw [if_pos h8] at hlevel ⊢
    rw [Widths.place, hlevel]
    exact congrArg LinkList.near (by change _ = deadline % 2 ^ 8; omega)
  rw [if_neg h8] at hlevel ⊢
  by_cases h14 : deadline / 2 ^ 14 = now / 2 ^ 14
  · rw [if_pos h14] at hlevel ⊢
    rw [Widths.place_of_level hlevel, ratio_blocks]
    exact congrArg (LinkList.t 0) (by change _ = deadline / 2 ^ 8 % 64; omega)
  rw [if_neg h14] at hlevel ⊢
  by_cases h20 : deadline / 2 ^ 20 = now / 2 ^ 20
  · rw [if_pos h20] at hlevel ⊢
    rw [Widths.place_of_level hlevel, ratio_blocks]
    exact congrArg (LinkList.t 1) (by change _ = deadline / 2 ^ 14 % 64; omega)
  rw [if_neg h20] at hlevel ⊢
  by_cases h26 : deadline / 2 ^ 26 = now / 2 ^ 26
  · rw [if_pos h26] at hlevel ⊢
    rw [Widths.place_of_level hlevel, ratio_blocks]
    exact congrArg (LinkList.t 2) (by change _ = deadline / 2 ^ 20 % 64; omega)
  · rw [if_neg h26] at hlevel ⊢
    rw [Widths.place_of_level hlevel, ratio_blocks]
    exact congrArg (LinkList.t 3) (by change _ = deadline / 2 ^ 26 % 64; omega)

theorem shiftFrom_eq (T : Timer) (ct : ℕ) : T.shiftFrom ct 4 0 timeNear (ct >>> timeNearShift) =
    if ct % 2 ^ 8 = 0 then if ct / 2 ^ 8 % 64 ≠ 0 then T.moveList (.t 0 (ct / 2 ^ 8 % 64))
      else if ct % 2 ^ 14 = 0 then if ct / 2 ^ 14 % 64 ≠ 0 then T.moveList (.t 1 (ct / 2 ^ 14 % 64))
      else if ct % 2 ^ 20 = 0 then if ct / 2 ^ 20 % 64 ≠ 0 then T.moveList (.t 2 (ct / 2 ^ 20 % 64))
      else if ct % 2 ^ 26 = 0 then if ct / 2 ^ 26 % 64 ≠ 0 then T.moveList (.t 3 (ct / 2 ^ 26 % 64))
      else T else T else T else T else T := by
  have hmask : ∀ k, ct &&& (2 ^ k - 1) = ct % 2 ^ k := fun k ↦ and_mask_eq k ct
  have hidx : ∀ k, (ct >>> k) &&& timeLevelMask = ct / 2 ^ k % 64 := by
    intro k
    rw [Nat.shiftRight_eq_div_pow]
    exact and_mask_eq 6 _
  simp only [← hmask, ← hidx, Timer.shiftFrom, ← Nat.shiftRight_add]
  rfl

/-- `timer_shift` takes the list of the wheel apart. -/
theorem timerShift_eq {T : Timer} {now : ℕ} (htime : T.time = now % 2 ^ 32) :
    T.timerShift =
      match blocks.moved 4 (now + 1) with
      | none => { T with time := (now + 1) % 2 ^ 32 }
      | some place => ({ T with time := (now + 1) % 2 ^ 32 } : Timer).moveList (listAt place) := by
  have htime' : (T.time + 1) % 2 ^ 32 = (now + 1) % 2 ^ 32 := by omega
  have hcarry : blocks.carry 4 (now + 1) =
      if (now + 1) % 2 ^ 8 = 0 then if (now + 1) % 2 ^ 14 = 0 then if (now + 1) % 2 ^ 20 = 0 then
        if (now + 1) % 2 ^ 26 = 0 then 4 else 3 else 2 else 1 else 0 := rfl
  unfold Timer.timerShift
  simp only [htime', shiftFrom_eq]
  generalize now + 1 = time at *
  by_cases h8 : time % 2 ^ 8 = 0
  · rw [if_pos h8] at hcarry
    by_cases h14 : time % 2 ^ 14 = 0
    · rw [if_pos h14] at hcarry
      by_cases h20 : time % 2 ^ 20 = 0
      · rw [if_pos h20] at hcarry
        by_cases h26 : time % 2 ^ 26 = 0
        · rw [if_pos h26] at hcarry
          rw [Widths.moved_of_carry hcarry, ratio_blocks]
          change _ = Timer.moveList _ (.t 3 (time / 2 ^ 26 % 64))
          by_cases hround : time % 2 ^ 32 = 0
          · rw [if_pos hround, show time / 2 ^ 26 % 64 = 0 by omega]
          · rw [if_neg hround, if_pos (by omega), if_neg (by omega), if_pos (by omega), if_neg (by omega),
              if_pos (by omega), if_neg (by omega), if_pos (by omega), if_pos (by omega)]
            rw [show time % 2 ^ 32 / 2 ^ 26 % 64 = time / 2 ^ 26 % 64 by omega]
        · rw [if_neg h26] at hcarry
          rw [Widths.moved_of_carry hcarry, ratio_blocks]
          change _ = Timer.moveList _ (.t 2 (time / 2 ^ 20 % 64))
          rw [if_neg (by omega), if_pos (by omega), if_neg (by omega), if_pos (by omega), if_neg (by omega),
            if_pos (by omega), if_pos (by omega)]
          rw [show time % 2 ^ 32 / 2 ^ 20 % 64 = time / 2 ^ 20 % 64 by omega]
      · rw [if_neg h20] at hcarry
        rw [Widths.moved_of_carry hcarry, ratio_blocks]
        change _ = Timer.moveList _ (.t 1 (time / 2 ^ 14 % 64))
        rw [if_neg (by omega), if_pos (by omega), if_neg (by omega), if_pos (by omega), if_pos (by omega)]
        rw [show time % 2 ^ 32 / 2 ^ 14 % 64 = time / 2 ^ 14 % 64 by omega]
    · rw [if_neg h14] at hcarry
      rw [Widths.moved_of_carry hcarry, ratio_blocks]
      change _ = Timer.moveList _ (.t 0 (time / 2 ^ 8 % 64))
      rw [if_neg (by omega), if_pos (by omega), if_pos (by omega)]
      rw [show time % 2 ^ 32 / 2 ^ 8 % 64 = time / 2 ^ 8 % 64 by omega]
  · rw [if_neg h8] at hcarry
    rw [Widths.moved, hcarry]
    dsimp only
    rw [if_neg (by omega), if_neg (by omega)]

/-! ### Lists -/

namespace Timer

@[simp]
theorem time_foldl_addNode (nodes : List TimerNode) (T : Timer) : (nodes.foldl addNode T).time = T.time := by
  induction nodes generalizing T with
  | nil => rfl
  | cons node nodes ih => exact ih (T.addNode node)

/-- Nodes are added behind the nodes of their lists, in their order. -/
theorem lists_foldl_addNode (nodes : List TimerNode) (T : Timer) (list : LinkList) :
    (nodes.foldl addNode T).lists list =
      T.lists list ++ nodes.filter fun node ↦ listOf node.expire T.time = list := by
  induction nodes generalizing T with
  | nil => exact (List.append_nil _).symm
  | cons node nodes ih =>
    rw [List.foldl_cons, ih, List.filter_cons]
    change Function.update T.lists _ _ list ++ nodes.filter (fun node ↦ listOf node.expire T.time = list) = _
    by_cases hlist : listOf node.expire T.time = list
    · rw [hlist, Function.update_self, if_pos (decide_eq_true rfl), List.append_assoc]
      rfl
    · rw [Function.update_of_ne (Ne.symm hlist), if_neg (by simpa using hlist)]

@[simp]
theorem time_moveList (T : Timer) (list : LinkList) : (T.moveList list).time = T.time :=
  time_foldl_addNode _ _

theorem lists_moveList (T : Timer) (moved list : LinkList) : (T.moveList moved).lists list =
    (if list = moved then [] else T.lists list) ++
      (T.lists moved).filter fun node ↦ listOf node.expire T.time = list := by
  rw [moveList, lists_foldl_addNode]
  congr 1
  change Function.update T.lists moved [] list = _
  by_cases hlist : list = moved
  · rw [hlist, Function.update_self, if_pos rfl]
  · rw [Function.update_of_ne hlist, if_neg hlist]

end Timer

/-! ### The timer and the alarm clock -/

/-- The node of an alarm. -/
def nodeOf (alarm : ℕ × TimerEvent) : TimerNode := ⟨alarm.1 % 2 ^ 32, alarm.2⟩

namespace Ticking

variable {state next : Ticking} {pending : List (ℕ × TimerEvent)}

/-- The alarm clock that a timer is, with the alarms that have not gone off. -/
def alarms (state : Ticking) (pending : List (ℕ × TimerEvent)) : Alarms TimerEvent :=
  ⟨state.ticks, pending, state.set, state.fired⟩

/-- The alarms of a list of the wheel, in the order in which they were set. -/
def listed (now : ℕ) (pending : List (ℕ × TimerEvent)) (list : LinkList) : List (ℕ × TimerEvent) :=
  pending.filter fun alarm ↦ listAt (blocks.place 4 now alarm.1) = list

/-- The timer keeps the alarms that have not gone off as the wheel says. -/
structure Wheeled (state : Ticking) (pending : List (ℕ × TimerEvent)) : Prop where
  time : state.timer.time = state.ticks % 2 ^ 32
  lists : ∀ list, state.timer.lists list = (listed state.ticks pending list).map nodeOf
  onTime : (state.alarms pending).OnTime
  soon : ∀ alarm ∈ pending, alarm.1 < state.ticks + 2 ^ 31
  later : state.phase ≠ .after → ∀ alarm ∈ pending, state.ticks < alarm.1

theorem wheeled_create : create.Wheeled [] where
  time := rfl
  lists _ := rfl
  onTime := Alarms.onTime_initial 0
  soon := List.forall_mem_nil _
  later _ := List.forall_mem_nil _

theorem exists_listAt (list : LinkList) : ∃ place, listAt place = list := by
  cases list with
  | near idx => exact ⟨(0, idx), rfl⟩
  | t i idx => exact ⟨(i + 1, idx), rfl⟩

theorem listed_listAt (now : ℕ) (pending : List (ℕ × TimerEvent)) (place : ℕ × ℕ) :
    listed now pending (listAt place) = pending.filter fun alarm ↦ blocks.place 4 now alarm.1 = place :=
  List.filter_congr fun _ _ ↦ decide_eq_decide.mpr listAt_injective.eq_iff

/-- The alarms of the present tick have their list in `near`. -/
theorem place_eq_iff (now deadline : ℕ) : blocks.place 4 now deadline = (0, now % 2 ^ 8) ↔ deadline = now := by
  have hlevel := level_blocks now deadline
  constructor
  · intro hplace
    have hzero : blocks.level 4 now deadline = 0 := (Widths.fst_place ..).symm.trans (congrArg Prod.fst hplace)
    have hblock : deadline / 2 ^ 8 = now / 2 ^ 8 := by
      by_contra hother
      rw [if_neg hother, hzero] at hlevel
      split_ifs at hlevel
    rw [Widths.place, hzero] at hplace
    have hindex : deadline % 2 ^ 8 = now % 2 ^ 8 := (Prod.mk.inj hplace).2
    omega
  · rintro rfl
    rw [if_pos rfl] at hlevel
    rw [Widths.place, hlevel]
    rfl

theorem Wheeled.due_eq (h : state.Wheeled pending) : state.timer.due = listAt (0, state.ticks % 2 ^ 8) := by
  rw [Timer.due, h.time]
  exact congrArg LinkList.near ((and_mask_eq 8 _).trans (by omega))

theorem Wheeled.lists_due (h : state.Wheeled pending) : state.timer.lists state.timer.due =
    (pending.filter fun alarm ↦ alarm.1 = state.ticks).map nodeOf := by
  rw [h.lists, h.due_eq, listed_listAt]
  simp only [place_eq_iff]

/-! ### Steps -/

theorem Wheeled.timeout (h : state.Wheeled pending) (handle : ℕ) {time : ℤ} (htime : time < 2 ^ 31) (session : ℤ) :
    ∃ pending, (state.timeout handle time session).Wheeled pending := by
  unfold Ticking.timeout
  split
  · exact ⟨pending, ⟨h.time, h.lists, h.onTime, h.soon, h.later⟩⟩
  · next hpos =>
    obtain ⟨ticks, rfl⟩ := Int.eq_ofNat_of_zero_le (Int.le_of_lt (Int.not_le.mp hpos))
    have hexpire : (((ticks : ℤ) + state.timer.time) % 2 ^ 32).toNat = (state.ticks + ticks) % 2 ^ 32 := by
      rw [h.time]
      omega
    refine ⟨pending ++ [(state.ticks + ticks, ⟨handle, session⟩)], ⟨h.time, fun list ↦ ?_, ?_, ?_, ?_⟩⟩
    · change Function.update state.timer.lists _ _ list = List.map _ (List.filter _ (pending ++ _))
      rw [hexpire, h.time, listOf_eq (Nat.le_add_right _ _) (by omega), List.filter_append, List.map_append]
      by_cases hlist : list = listAt (blocks.place 4 state.ticks (state.ticks + ticks))
      · rw [hlist, Function.update_self, h.lists, List.filter_cons, if_pos (decide_eq_true rfl)]
        rfl
      · rw [Function.update_of_ne hlist, h.lists, List.filter_cons, if_neg (by simpa using Ne.symm hlist)]
        exact (List.append_nil _).symm
    · have hset : (Protocol.alarms TimerEvent).step (state.alarms pending)
          (.set (state.ticks + ticks) ⟨handle, session⟩) = some _ :=
        if_pos (show state.ticks < state.ticks + ticks by omega)
      exact h.onTime.step hset
    · intro alarm hmem
      rcases List.mem_append.mp hmem with hold | hnew
      · exact h.soon alarm hold
      · obtain rfl := List.mem_singleton.mp hnew
        change state.ticks + ticks < state.ticks + 2 ^ 31
        omega
    · intro hphase alarm hmem
      rcases List.mem_append.mp hmem with hold | hnew
      · exact h.later hphase alarm hold
      · obtain rfl := List.mem_singleton.mp hnew
        change state.ticks < state.ticks + ticks
        omega

/-- The lists of the next tick. -/
theorem Wheeled.lists_shift (h : state.Wheeled pending) (hlater : ∀ alarm ∈ pending, state.ticks < alarm.1)
    (list : LinkList) : state.timer.timerShift.lists list = (listed (state.ticks + 1) pending list).map nodeOf := by
  rw [timerShift_eq h.time]
  cases hmoved : blocks.moved 4 (state.ticks + 1) with
  | none =>
    change state.timer.lists list = _
    rw [h.lists]
    refine congrArg (List.map nodeOf) (List.filter_congr fun alarm hmem ↦ ?_)
    rw [Widths.place_succ_of_not_moved (hlater alarm hmem) hmoved]
  | some moved =>
    obtain ⟨place, rfl⟩ := exists_listAt list
    have hnear : ∀ alarm ∈ pending, alarm.1 / blocks.width (4 - 1) <
        (state.ticks + 1) / blocks.width (4 - 1) + blocks.ratio (4 - 1) := by
      intro alarm hmem
      have hsoon := h.soon alarm hmem
      rw [ratio_blocks]
      change alarm.1 / 2 ^ 26 < (state.ticks + 1) / 2 ^ 26 + 64
      omega
    dsimp only
    rw [Timer.lists_moveList, listed_listAt,
      ← Widths.filter_place_succ (fun alarm hmem ↦ hlater alarm hmem) hnear hmoved, List.map_append]
    dsimp only
    rw [h.lists, h.lists, listed_listAt, listed_listAt, List.filter_map]
    congr 1
    · by_cases hplace : place = moved
      · rw [if_pos hplace, if_pos (congrArg listAt hplace)]
        rfl
      · rw [if_neg hplace, if_neg (listAt_injective.ne hplace)]
    · refine congrArg (List.map nodeOf) (List.filter_congr fun alarm hmem ↦ decide_eq_decide.mpr ?_)
      have hmem := List.mem_of_mem_filter hmem
      change Timer.listOf (alarm.1 % 2 ^ 32) _ = _ ↔ _
      have hsoon := h.soon alarm hmem
      rw [listOf_eq (hlater alarm hmem) (by omega)]
      exact listAt_injective.eq_iff

theorem Wheeled.shift (h : state.Wheeled pending) (hphase : state.phase = .before) :
    ({ state with timer := state.timer.timerShift, phase := .after, ticks := state.ticks + 1 } : Ticking).Wheeled
      pending := by
  have hlater := h.later (by rw [hphase]; exact TimerPhase.noConfusion)
  have htick : (Protocol.alarms TimerEvent).step (state.alarms pending) .tick = some _ := if_pos hlater
  refine ⟨?_, h.lists_shift hlater, h.onTime.step htick, fun alarm hmem ↦ ?_, fun hafter ↦ absurd rfl hafter⟩
  · rw [timerShift_eq h.time]
    cases blocks.moved 4 (state.ticks + 1) with
    | none => rfl
    | some moved => exact Timer.time_moveList _ _
  · have hsoon := h.soon alarm hmem
    change alarm.1 < state.ticks + 1 + 2 ^ 31
    omega

/-- The alarms that are due go off, and their list is empty. -/
theorem Wheeled.fire (h : state.Wheeled pending) :
    ({ state with
      timer := state.timer.linkClear state.timer.due
      fired := state.fired ++ (state.timer.lists state.timer.due).map fun node ↦ (state.ticks, node.event) } :
        Ticking).Wheeled (pending.filter fun alarm ↦ state.ticks < alarm.1) := by
  have hdue : (pending.filter fun alarm ↦ alarm.1 ≤ state.ticks) = pending.filter fun alarm ↦ alarm.1 = state.ticks :=
    List.filter_congr fun alarm hmem ↦ decide_eq_decide.mpr
      ⟨fun hle ↦ Nat.le_antisymm hle (h.onTime.due alarm hmem), Nat.le_of_eq⟩
  have hfire : ((state.alarms pending).fire).OnTime := h.onTime.fire
  refine ⟨h.time, fun list ↦ ?_, ?_, fun alarm hmem ↦ h.soon alarm (List.mem_of_mem_filter hmem),
    fun _ alarm hmem ↦ of_decide_eq_true (List.mem_filter.mp hmem).2⟩
  · change Function.update state.timer.lists _ [] list = _
    rw [h.due_eq, listed, List.filter_filter]
    by_cases hlist : list = listAt (0, state.ticks % 2 ^ 8)
    · rw [hlist, Function.update_self]
      refine (congrArg (List.map nodeOf) (List.filter_eq_nil_iff.mpr fun alarm _ hboth ↦ ?_)).symm
      rw [Bool.and_eq_true, decide_eq_true_eq, decide_eq_true_eq] at hboth
      have heq : alarm.1 = state.ticks := (place_eq_iff _ _).mp (listAt_injective hboth.1)
      have hlt : state.ticks < alarm.1 := hboth.2
      omega
    · rw [Function.update_of_ne hlist, h.lists]
      refine congrArg (List.map nodeOf) (List.filter_congr fun alarm hmem ↦ ?_)
      by_cases hplace : listAt (blocks.place 4 state.ticks alarm.1) = list
      · have hother : alarm.1 ≠ state.ticks := fun heq ↦
          hlist (hplace.symm.trans (congrArg listAt ((place_eq_iff _ _).mpr heq)))
        have hge := h.onTime.due alarm hmem
        change state.ticks ≤ alarm.1 at hge
        simp [hplace]
        omega
      · simp [hplace]
  · have hfired : ((state.timer.lists state.timer.due).map fun node ↦ (state.ticks, node.event)) =
        (pending.filter fun alarm ↦ alarm.1 ≤ state.ticks).map fun alarm ↦ (state.ticks, alarm.2) := by
      rw [h.lists_due, List.map_map, hdue]
      rfl
    rw [hfired]
    exact hfire

/-- No alarm is due when the list of the present tick is empty. -/
theorem Wheeled.none_due (h : state.Wheeled pending) (hnil : state.timer.lists state.timer.due = []) :
    ∀ alarm ∈ pending, state.ticks < alarm.1 := by
  intro alarm hmem
  rw [h.lists_due, List.map_eq_nil_iff, List.filter_eq_nil_iff] at hnil
  have hother := hnil alarm hmem
  have hge := h.onTime.due alarm hmem
  change state.ticks ≤ alarm.1 at hge
  simp at hother
  omega

theorem Wheeled.execute (h : state.Wheeled pending) : ∃ pending, state.execute.Wheeled pending := by
  unfold Ticking.execute
  cases hlist : state.timer.lists state.timer.due with
  | nil =>
    dsimp only
    split
    · next hphase => exact ⟨pending, h.shift hphase⟩
    · exact ⟨pending, ⟨h.time, h.lists, h.onTime, h.soon, fun _ ↦ h.none_due hlist⟩⟩
  | cons node nodes => exact ⟨_, hlist ▸ h.fire⟩

theorem Wheeled.step (h : state.Wheeled pending) {move : TimerMove} (hstep : ticking.step state move = some next) :
    ∃ pending, next.Wheeled pending := by
  cases move with
  | timeout handle time session =>
    obtain ⟨htime, hnext⟩ := Option.ite_none_right_eq_some.mp hstep
    exact Option.some.inj hnext ▸ h.timeout handle htime session
  | update =>
    obtain ⟨hidle, hnext⟩ := Option.ite_none_right_eq_some.mp hstep
    obtain rfl := Option.some.inj hnext
    exact ⟨pending, ⟨h.time, h.lists, h.onTime, h.soon, fun _ ↦ h.later (by rw [hidle]; exact TimerPhase.noConfusion)⟩⟩
  | execute =>
    obtain ⟨_, hnext⟩ := Option.ite_none_left_eq_some.mp hstep
    exact Option.some.inj hnext ▸ h.execute

/-- A list that was taken is not taken again. -/
theorem lists_due_execute (hphase : state.phase ≠ .before) :
    state.execute.timer.lists state.execute.timer.due = [] := by
  unfold execute
  cases hlist : state.timer.lists state.timer.due with
  | nil =>
    dsimp only
    rw [if_neg hphase]
    exact hlist
  | cons node nodes => exact Function.update_self ..

theorem phase_execute_of_nil (hlist : state.timer.lists state.timer.due = []) (hphase : state.phase ≠ .before) :
    state.execute.phase = .idle := by
  unfold execute
  rw [hlist]
  dsimp only
  rw [if_neg hphase]

theorem phase_execute_ne (hphase : state.phase ≠ .before) : state.execute.phase ≠ .before := by
  unfold execute
  cases state.timer.lists state.timer.due with
  | nil =>
    dsimp only
    rw [if_neg hphase]
    exact TimerPhase.noConfusion
  | cons node nodes => exact hphase

/-- The thread of the timer leaves `timer_update` after three turns at most. -/
theorem Wheeled.leaves (h : state.Wheeled pending) : state.execute.execute.execute.phase = .idle := by
  have htwo : ∀ {state : Ticking}, state.phase ≠ .before → state.execute.execute.phase = .idle := fun hphase ↦
    phase_execute_of_nil (lists_due_execute hphase) (phase_execute_ne hphase)
  by_cases hphase : state.phase = .before
  · -- nothing is due before the shift
    have hlater := h.later (by rw [hphase]; exact TimerPhase.noConfusion)
    have hlist : state.timer.lists state.timer.due = [] := by
      rw [h.lists_due, List.map_eq_nil_iff, List.filter_eq_nil_iff]
      intro alarm hmem hnow
      exact absurd (of_decide_eq_true hnow) (Nat.ne_of_gt (hlater alarm hmem))
    have hafter : state.execute.phase = .after := by
      unfold Ticking.execute
      rw [hlist]
      dsimp only
      rw [if_pos hphase]
    exact htwo (by rw [hafter]; exact TimerPhase.noConfusion)
  · exact phase_execute_of_nil (lists_due_execute (phase_execute_ne hphase))
      (phase_execute_ne (phase_execute_ne hphase))

end Ticking

/-- A timeout is dispatched exactly once, at its tick, and the timeouts of one tick in the order in which they were
set. -/
theorem timeouts_punctual {state : Ticking} (hrun : ticking.Run (fun _ _ ↦ True) Ticking.create state) :
    (state.phase ≠ .after → ∀ tick, (state.fired.filter fun alarm ↦ alarm.1 = tick) =
      if tick ≤ state.ticks then state.set.filter fun alarm ↦ alarm.1 = tick else []) ∧
    state.execute.execute.execute.phase = .idle := by
  have hwheeled : ∃ pending, state.Wheeled pending := by
    refine hrun.invariant (I := fun state ↦ ∃ pending, state.Wheeled pending) (fun _ _ _ _ hbefore hstep ↦ ?_)
      ⟨[], Ticking.wheeled_create⟩
    obtain ⟨pending, h⟩ := hbefore
    exact h.step hstep
  obtain ⟨pending, h⟩ := hwheeled
  exact ⟨fun hphase tick ↦ h.onTime.fired_eq (h.later hphase) tick, h.leaves⟩

/-- A tick at which the timer has a list to dispatch. -/
def tickMoves : List TimerMove := [.update, .execute, .execute, .execute]

/-- Some ticks at which it has none. -/
def idleMoves (ticks : ℕ) : List TimerMove := (List.replicate ticks [.update, .execute, .execute]).flatten

/-- Two timeouts of one tick. The first is set so early that it waits in a list of `t` before it gets into `near`. -/
theorem timeouts_punctual_two : ∃ state, ticking.Run (fun _ _ ↦ True) Ticking.create state ∧
    state.ticks = 300 ∧ state.phase = .idle ∧ state.fired = [(1, ⟨7, 2⟩), (300, ⟨7, 1⟩), (300, ⟨8, 1⟩)] ∧
      (state.fired.filter fun alarm ↦ alarm.1 = 300) = state.set.filter fun alarm ↦ alarm.1 = 300 := by
  obtain ⟨state, hrun, hvalue⟩ := ticking.exists_run_of_playMeeting (fun _ _ ↦ True) Ticking.create
    ([.timeout 7 300 1, .timeout 7 1 2, .timeout 7 0 3] ++ tickMoves ++ idleMoves 279 ++ [.timeout 8 20 1] ++
      idleMoves 19 ++ tickMoves) (fun state ↦ (state.ticks, state.phase, state.fired))
    (show _ = some (300, TimerPhase.idle, [(1, ⟨7, 2⟩), (300, ⟨7, 1⟩), (300, ⟨8, 1⟩)]) by decide +kernel)
  obtain ⟨hticks, hrest⟩ := Prod.mk.inj hvalue
  obtain ⟨hphase, hall⟩ := Prod.mk.inj hrest
  have hfired := (timeouts_punctual hrun).1 (by rw [hphase]; exact TimerPhase.noConfusion) 300
  rw [if_pos (Nat.le_of_eq hticks.symm)] at hfired
  exact ⟨state, hrun, hticks, hphase, hall, hfired⟩

end SvrDemo.Skynet
