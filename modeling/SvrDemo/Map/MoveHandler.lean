import SvrDemo.Database.Character
import SvrDemo.Map.FailedCalls
import SvrDemo.Skynet.Runtime

/-!
# Moves of an agent

`REQUEST.map_ready` hands the position of the character over to the map, which inserts the agent there.
`REQUEST.move` writes the new position into the character, asks the map to move the agent, and takes the
old position back when the map refuses. The requests of a client are started in the order in which they
come, and the map handles the calls of an agent in the order in which they were made; between the two a
request may wait while others begin. Both handlers are registered when the character enters the map, so a
move may come before the agent is ready.

`Moving` is the agent with its map. The map has other agents, whose calls come in between. `began` counts
the moves that have begun, and `accepted` is the last position that the map has accepted for the agent, at
first the one with which the character enters; `saved` are the positions that `CMD.close` has saved.
-/

set_option autoImplicit false
set_option relaxedAutoImplicit false

namespace SvrDemo.Map

open Coroutine Skynet

/-! ### The map -/

/-- A call of the module raises when the tree tries to split. -/
def Aoi.raises (length : Finset ℕ → ℕ) (aoi : Aoi) (call : Call) : Bool :=
  match aoi.insertion length call with
  | some (.raised _) => true
  | _ => false

/-! ### The agent -/

/-- The coordinates that the map reads. -/
def onMap (pos : Database.Position) : Position := ⟨pos.x, pos.z⟩

/-- The position in a request: the client may leave coordinates out. -/
structure PosArgs where
  x : Option ℤ
  y : Option ℤ
  z : Option ℤ
  o : Option ℤ
  deriving DecidableEq

/-- The loop of `move` that takes the coordinates left out from the old position. -/
def PosArgs.fill (args : PosArgs) (opos : Database.Position) : Database.Position where
  x := args.x.getD opos.x
  y := args.y.getD opos.y
  z := args.z.getD opos.z
  o := args.o.getD opos.o

/-- The agent and its map. `user` is whether the agent is open, `registered` whether the handlers of the map
are registered and the agent has a map. The tables of the map are those for the agent. -/
structure Moving where
  pos : Database.Position
  user : Bool
  registered : Bool
  pendingCharacter : Option ℕ
  onlineCharacter : Option ℕ
  aoi : Aoi
  began : ℕ
  accepted : Database.Position
  saved : List Database.Position

/-- Where the coroutines wait: for their first turn, for a call to arrive at the map, for the agent to take
`aoi_manage` up, and for the reply. A move carries its number and the old position, and while the map has not
decided the new one. -/
inductive MovePoint
  | mapReady
  | move (args : Option PosArgs)
  | close
  | other (call : Call)
  | characterReady (pos : Database.Position)
  | entering
  | ready
  | moveBlink (number : ℕ) (npos opos : Database.Position)
  | aoiManage (number : ℕ)
  | moved (number : ℕ)
  | refused (number : ℕ) (opos : Database.Position)
  | raised (number : ℕ)
  | characterLeave
  | leaving
  | left
  | worldLeave
  deriving DecidableEq

/-- A coroutine of the agent or of the map. -/
abbrev MoveTask (α : Type) : Type := Task MovePoint Moving α

/-- A call of the module by the map for another agent, with the order of its traversal. -/
def otherCall : Call → MoveTask Unit
  | .insert id pos _ => do
    let state ← Program.getState
    let length ← tableLength (state.aoi.visited (.insert id pos []))
    let order ← pairs (state.aoi.visited (.insert id pos []))
    Program.modifyState fun state ↦ { state with aoi := state.aoi.after (fun _ ↦ length) (.insert id pos order) }
  | .update id pos _ => do
    let state ← Program.getState
    let length ← tableLength (state.aoi.visited (.update id pos []))
    let order ← pairs (state.aoi.visited (.update id pos []))
    Program.modifyState fun state ↦ { state with aoi := state.aoi.after (fun _ ↦ length) (.update id pos order) }
  | .remove id _ => do
    let state ← Program.getState
    let order ← pairs (state.aoi.visited (.remove id []))
    Program.modifyState fun state ↦ { state with aoi := state.aoi.after (fun _ ↦ 0) (.remove id order) }

/-- `CMD.character_ready` of the map: whether the agent was inserted. -/
def Moving.characterReady (agent : ℕ) (pos : Database.Position) : MoveTask Bool := do
  let state ← Program.getState
  match state.pendingCharacter with
  | none => return false
  | some character => do
    Program.modifyState fun state ↦
      { state with pendingCharacter := none, onlineCharacter := some character }
    let length ← tableLength (state.aoi.visited (.insert agent (onMap pos) []))
    let order ← pairs (state.aoi.visited (.insert agent (onMap pos) []))
    match state.aoi.insert (fun _ ↦ length) agent (onMap pos) order with
    | .ok (aoi, _) => do
      Program.modifyState fun state ↦ { state with aoi := aoi, accepted := pos }
      call .entering
      return true
    | .error aoi => do
      Program.modifyState fun state ↦ { state with aoi := aoi }
      if state.aoi.raises (fun _ ↦ length) (.insert agent (onMap pos) order) then
        .fail .indexNil
      return false

/-- `REQUEST.map_ready`. A request without a handler is not handled. -/
def mapReady (agent : ℕ) : MoveTask Unit := do
  let state ← Program.getState
  if state.registered then
    let ok ← rpc (.characterReady state.pos) .ready (Moving.characterReady agent state.pos)
    if !ok then
      .fail .errorCalled

/-- `CMD.move_blink` of the map, and its reply: whether the position was accepted. -/
def moveBlink (agent number : ℕ) (npos opos : Database.Position) : MoveTask Bool := do
  let state ← Program.getState
  let length ← tableLength (state.aoi.visited (.update agent (onMap npos) []))
  let order ← pairs (state.aoi.visited (.update agent (onMap npos) []))
  match state.aoi.update (fun _ ↦ length) agent (onMap npos) order with
  | .ok (aoi, _) => do
    Program.modifyState fun state ↦ { state with aoi := aoi, accepted := npos }
    let _ ← Program.await (I := skynet) (.aoiManage number)
    let _ ← Program.await (I := skynet) (.moved number)
    return true
  | .error aoi => do
    Program.modifyState fun state ↦ { state with aoi := aoi }
    if state.aoi.raises (fun _ ↦ length) (.update agent (onMap npos) order) then
      let _ ← Program.await (I := skynet) (.raised number)
      .fail .callFailed
    let _ ← Program.await (I := skynet) (.refused number opos)
    return false

/-- `REQUEST.move`. A request without a handler is not handled. -/
def move (agent : ℕ) : Option PosArgs → MoveTask Unit
  | none => .fail .assertionFailed
  | some args => do
    let state ← Program.getState
    if !state.registered then
      return ()
    let opos := state.pos
    let npos := args.fill opos
    let number := state.began + 1
    Program.modifyState fun state ↦ { state with pos := npos, began := number }
    let _ ← Program.await (I := skynet) (.moveBlink number npos opos)
    let ok ← moveBlink agent number npos opos
    if !ok then
      Program.modifyState fun state ↦ { state with pos := opos }
      .fail .errorCalled

/-- The part of `CMD.character_leave` of the map before the tables are cleared. -/
def Moving.leaveAoi (agent : ℕ) : MoveTask Unit := do
  let state ← Program.getState
  match state.onlineCharacter.or state.pendingCharacter with
  | none => return ()
  | some _ => do
    let order ← pairs (state.aoi.visited (.remove agent []))
    match state.aoi.remove agent order with
    | .error _ => return ()
    | .ok (aoi, _) => do
      Program.modifyState fun state ↦ { state with aoi := aoi }
      call .leaving

/-- `CMD.character_leave` of the map. -/
def Moving.characterLeave (agent : ℕ) : MoveTask Unit := do
  leaveAoi agent
  Program.modifyState fun state ↦ { state with onlineCharacter := none, pendingCharacter := none }

/-- `CMD.close`: the agent leaves the map and the world, and the character is saved. -/
def close (agent : ℕ) : MoveTask Unit := do
  let state ← Program.getState
  if state.user then
    if state.registered then
      rpc .characterLeave .left (Moving.characterLeave agent)
      Program.modifyState fun state ↦ { state with registered := false }
    call .worldLeave
    Program.modifyState fun state ↦ { state with saved := state.saved ++ [state.pos], user := false }

/-- The coroutines by the point at which they start. -/
def moveEntry (agent : ℕ) : MovePoint → MoveTask Unit
  | .mapReady => mapReady agent
  | .move args => move agent args
  | .close => close agent
  | .other call => otherCall call
  | _ => pure ()

/-- An agent and its map. The calls of the other agents do not concern it. -/
def moveService (agent : ℕ) : System skynet MovePoint Moving where
  entry := moveEntry agent
  arrives := fun
    | .mapReady => true
    | .move _ => true
    | .close => true
    | .other call => call.id ≠ agent
    | _ => false

end SvrDemo.Map
