import SvrDemo.Protocol.Machine
import Mathlib.Algebra.Group.Nat.Defs
import Mathlib.Algebra.Ring.Int.Defs
import Mathlib.Logic.Function.Basic

/-!
# The timer

`skynet_timer.c`. A timer has a list for each of the next ticks, `near`, and four arrays of lists for what is further
away, `t`. The time is a `uint32_t` that goes round. Every `skynet.timeout` and every `skynet.sleep` of a service is a
node of one of these lists.

The thread of the timer lets go of the lock while it dispatches a list, and other threads may add nodes then:
`Ticking` has the place at which the thread is in `timer_update`.
-/

set_option autoImplicit false
set_option relaxedAutoImplicit false

namespace SvrDemo.Skynet

open Protocol

/-! ### Lists -/

def timeNearShift : ℕ := 8
def timeNear : ℕ := 1 <<< timeNearShift
def timeLevelShift : ℕ := 6
def timeLevel : ℕ := 1 <<< timeLevelShift
def timeNearMask : ℕ := timeNear - 1
def timeLevelMask : ℕ := timeLevel - 1

/-- `struct timer_event`: the service, and the session of the message it will get. -/
structure TimerEvent where
  handle : ℕ
  session : ℤ
  deriving DecidableEq

/-- `struct timer_node`, with its event behind it. -/
structure TimerNode where
  expire : ℕ
  event : TimerEvent
  deriving DecidableEq

/-- The lists of a timer. -/
inductive LinkList
  | near (idx : ℕ)
  | t (i idx : ℕ)
  deriving DecidableEq

/-- `struct timer`. -/
structure Timer where
  lists : LinkList → List TimerNode
  time : ℕ

namespace Timer

/-- `link`: a node at the end of a list. -/
def link (T : Timer) (list : LinkList) (node : TimerNode) : Timer :=
  { T with lists := Function.update T.lists list (T.lists list ++ [node]) }

/-- `link_clear`. -/
def linkClear (T : Timer) (list : LinkList) : Timer :=
  { T with lists := Function.update T.lists list [] }

/-- The loop of `add_node`, with the turns that are left. -/
def levelFrom (time currentTime : ℕ) : ℕ → ℕ → ℕ → ℕ
  | 0, i, _ => i
  | turns + 1, i, mask =>
    if time ||| (mask - 1) = currentTime ||| (mask - 1) then i
    else levelFrom time currentTime turns (i + 1) (mask <<< timeLevelShift)

/-- The list that `add_node` chooses. -/
def listOf (time currentTime : ℕ) : LinkList :=
  if time ||| timeNearMask = currentTime ||| timeNearMask then .near (time &&& timeNearMask)
  else
    let i := levelFrom time currentTime 3 0 (timeNear <<< timeLevelShift)
    .t i ((time >>> (timeNearShift + i * timeLevelShift)) &&& timeLevelMask)

/-- `add_node`. -/
def addNode (T : Timer) (node : TimerNode) : Timer := T.link (listOf node.expire T.time) node

/-- `timer_add`: the sum of the time and the `int` is a `uint32_t`. -/
def timerAdd (T : Timer) (event : TimerEvent) (time : ℤ) : Timer :=
  T.addNode ⟨((time + T.time) % 2 ^ 32).toNat, event⟩

/-- `move_list`. -/
def moveList (T : Timer) (list : LinkList) : Timer := (T.lists list).foldl addNode (T.linkClear list)

/-- The loop of `timer_shift`, with the turns that are left. It ends in its fourth turn, because `ct` is not zero. -/
def shiftFrom (T : Timer) (ct : ℕ) : ℕ → ℕ → ℕ → ℕ → Timer
  | 0, _, _, _ => T
  | turns + 1, i, mask, time =>
    if ct &&& (mask - 1) = 0 then
      let idx := time &&& timeLevelMask
      if idx ≠ 0 then T.moveList (.t i idx)
      else shiftFrom T ct turns (i + 1) (mask <<< timeLevelShift) (time >>> timeLevelShift)
    else T

/-- `timer_shift`. -/
def timerShift (T : Timer) : Timer :=
  let ct := (T.time + 1) % 2 ^ 32
  let T := { T with time := ct }
  if ct = 0 then T.moveList (.t 3 0) else T.shiftFrom ct 4 0 timeNear (ct >>> timeNearShift)

/-- The list that `timer_execute` looks at. -/
def due (T : Timer) : LinkList := .near (T.time &&& timeNearMask)

end Timer

/-! ### The threads -/

/-- Where the thread of the timer is: outside `timer_update`, or in its first or second `timer_execute`. -/
inductive TimerPhase
  | idle
  | before
  | after
  deriving DecidableEq

/-- The timer, with the number of its ticks, the messages that `skynet_timeout` has pushed at once, the timeouts that
were set with their ticks, and the messages that were dispatched with the tick. -/
structure Ticking where
  timer : Timer
  phase : TimerPhase
  ticks : ℕ
  direct : List (ℕ × TimerEvent)
  set : List (ℕ × TimerEvent)
  fired : List (ℕ × TimerEvent)

namespace Ticking

/-- `timer_create_timer`. -/
def create : Ticking := ⟨⟨fun _ ↦ [], 0⟩, .idle, 0, [], [], []⟩

/-- `skynet_timeout`. -/
def timeout (state : Ticking) (handle : ℕ) (time session : ℤ) : Ticking :=
  if time ≤ 0 then { state with direct := state.direct ++ [(state.ticks, ⟨handle, session⟩)] }
  else { state with
    timer := state.timer.timerAdd ⟨handle, session⟩ time
    set := state.set ++ [(state.ticks + time.toNat, ⟨handle, session⟩)] }

/-- One turn of `timer_execute`: a list that is not empty is taken, and dispatched without the lock. After the first
`timer_execute` the time is shifted under the same lock. -/
def execute (state : Ticking) : Ticking :=
  match state.timer.lists state.timer.due with
  | [] =>
    if state.phase = .before then
      { state with timer := state.timer.timerShift, phase := .after, ticks := state.ticks + 1 }
    else { state with phase := .idle }
  | list => { state with
      timer := state.timer.linkClear state.timer.due
      fired := state.fired ++ list.map fun node ↦ (state.ticks, node.event) }

end Ticking

inductive TimerMove
  | timeout (handle : ℕ) (time session : ℤ)
  | update
  | execute

/-- The machine of the timer. The times of timeouts are of type `int`. -/
def ticking : Machine Ticking TimerMove where
  step state move :=
    match move with
    | .timeout handle time session => if time < 2 ^ 31 then some (state.timeout handle time session) else none
    | .update => if state.phase = .idle then some { state with phase := .before } else none
    | .execute => if state.phase = .idle then none else some state.execute

end SvrDemo.Skynet
