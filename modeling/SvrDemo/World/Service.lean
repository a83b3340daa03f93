import SvrDemo.Coroutine.Logic
import SvrDemo.Skynet.Runtime

/-!
# The world and its agents

The world service has the table `online_character` of the agents by their characters. An agent that picks a
character sets `user.character` first and then calls the world, which kicks the agent that has the character,
writes its table and calls the agent back with `world_enter`. An agent that closes leaves its map and the
world and forgets its user. A call between the services is a request that travels, the handler of the callee
and a reply that travels; in between anything else can happen, and none of the handlers looks again.

A kick only asks for the socket of the client to be closed, so it changes nothing here. The close that follows
from it is a request of its own. What an agent does when a handler of it fails is a kick of its own client,
and its reply is empty then.
-/

set_option autoImplicit false
set_option relaxedAutoImplicit false

namespace SvrDemo.World

open Coroutine Lua Skynet

/-! ### State and points -/

/-- A character, with what the world needs of it. -/
structure Character where
  id : ℕ
  map : ℕ
  deriving DecidableEq

/-- The variable `user` of an agent. `registered` is whether the handlers of `character_handler` are
registered, and `world` and `map` are whether these fields are set. -/
structure AgentUser where
  character : Option Character
  world : Bool
  map : Bool
  registered : Bool
  deriving DecidableEq

/-- The table of the world, and the users of the agents that are open. -/
structure WorldState where
  onlineCharacter : Table ℕ
  user : Table AgentUser

/-- What a coroutine hears when it goes on: a call has returned or raised, or the database has loaded a
character, if there is one. -/
inductive Reply
  | ok
  | raised
  | loaded (character : Option Character)
  deriving DecidableEq

/-- The interface of the world and the agents. They ask no questions. -/
abbrev worldNet : Interface where
  Query := Empty
  Answer := Reply
  Error := LuaError
  admissible := fun query _ ↦ nomatch query

/-- Where the coroutines wait: for their first turn, for a call to arrive, or for a reply. The reply to
`world_enter` carries the map of the character, and the kick after it the agent that is kicked. -/
inductive WorldPoint
  | characterPick (agent id : ℕ)
  | close (agent : ℕ)
  | openAgent (agent : ℕ)
  | list (agent id : ℕ)
  | load (agent id : ℕ)
  | uniqueservice (agent id : ℕ)
  | characterEnter (agent character : ℕ)
  | multipleLogin (agent character : ℕ)
  | worldEnter (agent character : ℕ)
  | worldEntered (agent character : ℕ) (map : Option ℕ)
  | kickBack (old character : ℕ)
  | mapEnter (agent : ℕ)
  | mapLeave (agent : ℕ)
  | characterLeave (agent character : ℕ)
  | characterLeft (agent character : ℕ)
  | save (agent : ℕ)
  deriving DecidableEq

/-- A coroutine of the world or of an agent. -/
abbrev WorldTask (α : Type) : Type := Program worldNet WorldPoint WorldState α

/-- A call that returns nothing, and raises when the callee has failed. -/
def call (point : WorldPoint) : WorldTask Unit := do
  match ← Program.await (I := worldNet) point with
  | .raised => .fail .callFailed
  | _ => return ()

namespace WorldState

/-- A character is registered for an agent. -/
def register (state : WorldState) (agent character : ℕ) : WorldState :=
  { state with onlineCharacter := state.onlineCharacter.insert character agent }

/-- `online_character[character] = nil`. -/
def unregister (state : WorldState) (character : ℕ) : WorldState :=
  { state with onlineCharacter := state.onlineCharacter.erase character }

/-- A change of the user of an agent. -/
def updateUser (state : WorldState) (agent : ℕ) (change : AgentUser → AgentUser) : WorldState :=
  { state with user := state.user.update agent change }

/-- `user = nil`. -/
def dropUser (state : WorldState) (agent : ℕ) : WorldState :=
  { state with user := state.user.erase agent }

end WorldState

/-! ### The world -/

/-- `CMD.kick` of the world: the agent that has the character is kicked. -/
def kick (via : ℕ → WorldPoint) (character : ℕ) : WorldTask Unit := do
  let state ← Program.getState
  match state.onlineCharacter.lookup character with
  | none => return ()
  | some agent => do
    call (via agent)
    Program.modifyState fun state ↦ state.unregister character

/-- `CMD.world_enter` of an agent. It fails without a user or a character, or when the character cannot be
initialised, and then returns nothing. -/
def worldEnter (agent : ℕ) (init : Reply) : WorldTask (Option ℕ) := do
  let state ← Program.getState
  match (state.user.lookup agent).bind AgentUser.character, init with
  | some character, .ok => do
    Program.modifyState fun state ↦
      state.updateUser agent fun user ↦ { user with world := true, registered := false }
    return some character.map
  | _, _ => return none

/-- `CMD.map_enter` of an agent. -/
def mapEnter (agent : ℕ) : WorldTask Unit := do
  let state ← Program.getState
  match state.user.lookup agent with
  | none => .fail .indexNil
  | some _ => Program.modifyState fun state ↦ state.updateUser agent fun user ↦ { user with map := true }

/-- The end of `CMD.character_enter`: the map of the character is one of the `instances`, or the agent is
kicked. -/
def enterMap (instances : ℕ → Bool) (agent character : ℕ) (map : Option ℕ) : WorldTask Unit :=
  if map.any instances then do
    let _ ← Program.await (I := worldNet) (.mapEnter agent)
    mapEnter agent
  else kick (fun old ↦ .kickBack old character) character

/-- `CMD.character_enter`. -/
def characterEnter (instances : ℕ → Bool) (agent character : ℕ) : WorldTask Unit := do
  kick (fun _ ↦ .multipleLogin agent character) character
  Program.modifyState fun state ↦ state.register agent character
  let init ← Program.await (I := worldNet) (.worldEnter agent character)
  let map ← worldEnter agent init
  call (.worldEntered agent character map)
  enterMap instances agent character map

/-! ### The agents -/

/-- `REQUEST.character_pick`. The first call also fails when the character is not one of the account. -/
def pickCharacter (instances : ℕ → Bool) (agent id : ℕ) : WorldTask Unit := do
  call (.list agent id)
  let reply ← Program.await (I := worldNet) (.load agent id)
  match reply with
  | .loaded (some character) => do
    Program.modifyState fun state ↦
      state.updateUser agent fun user ↦ { user with character := some character }
    call (.uniqueservice agent id)
    let _ ← Program.await (I := worldNet) (.characterEnter agent id)
    characterEnter instances agent id
  | _ => .fail .errorCalled

/-- A `character_pick` of a client: without a handler it is not handled. -/
def characterPick (instances : ℕ → Bool) (agent id : ℕ) : WorldTask Unit := do
  let state ← Program.getState
  match state.user.lookup agent with
  | none => .fail .indexNil
  | some user => if user.registered then pickCharacter instances agent id else return ()

/-- The part of `CMD.close` for the map. -/
def leaveMap (agent : ℕ) (user : AgentUser) : WorldTask Unit :=
  if user.map then do
    call (.mapLeave agent)
    let state ← Program.getState
    match state.user.lookup agent with
    | none => .fail .indexNil
    | some _ => Program.modifyState fun state ↦ state.updateUser agent fun user ↦ { user with map := false }
  else return ()

/-- The call of `character_leave` of the world by an agent, with the handler of the world. -/
def characterLeave (agent character : ℕ) : WorldTask Unit := do
  let _ ← Program.await (I := worldNet) (.characterLeave agent character)
  Program.modifyState fun state ↦ state.unregister character
  call (.characterLeft agent character)
  let state ← Program.getState
  match state.user.lookup agent with
  | none => .fail .indexNil
  | some _ => Program.modifyState fun state ↦ state.updateUser agent fun user ↦ { user with world := false }

/-- The part of `CMD.close` for the world. -/
def leaveWorld (agent : ℕ) : WorldTask Unit := do
  let state ← Program.getState
  match state.user.lookup agent with
  | none => .fail .indexNil
  | some ⟨some character, true, _, _⟩ => characterLeave agent character.id
  | some ⟨none, true, _, _⟩ => .fail .indexNil
  | some _ => return ()

/-- The end of `CMD.close`: the character is saved, if there is one, and the user forgotten. -/
def saveUser (agent : ℕ) : WorldTask Unit := do
  let state ← Program.getState
  match state.user.lookup agent with
  | none => .fail .indexNil
  | some ⟨some _, _, _, _⟩ => do
    call (.save agent)
    Program.modifyState fun state ↦ state.dropUser agent
  | some _ => Program.modifyState fun state ↦ state.dropUser agent

/-- `CMD.close`. -/
def close (agent : ℕ) : WorldTask Unit := do
  let state ← Program.getState
  match state.user.lookup agent with
  | none => return ()
  | some user => do
    leaveMap agent user
    leaveWorld agent
    saveUser agent

/-- `CMD.open`. -/
def openAgent (agent : ℕ) : WorldTask Unit :=
  Program.modifyState fun state ↦ { state with user := state.user.insert agent ⟨none, false, false, true⟩ }

/-! ### The services -/

/-- A coroutine before its first turn. -/
def WorldPoint.isRequest : WorldPoint → Bool
  | .characterPick _ _ | .close _ | .openAgent _ => true
  | _ => false

/-- The coroutines by the point at which they start. -/
def worldEntry (instances : ℕ → Bool) : WorldPoint → WorldTask Unit
  | .characterPick agent id => characterPick instances agent id
  | .close agent => close agent
  | .openAgent agent => openAgent agent
  | _ => pure ()

/-- The world and its agents. -/
def worldService (instances : ℕ → Bool) : System worldNet WorldPoint WorldState where
  entry := worldEntry instances
  arrives := WorldPoint.isRequest

end SvrDemo.World
