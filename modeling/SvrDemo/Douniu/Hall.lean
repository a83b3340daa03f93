import SvrDemo.Douniu.Lobby

/-!
# The lobby, its fights and the agents

The lobby calls the fight services (`onStart`, `onKickOut`) and the agents of the players, the fight
services call the lobby back (`unlock_room`), and the agents call the lobby for their clients. This module
puts `douniu_room.lua`, `douniu_fight.lua` and `script/agent.lua` together: `Hall` has the variables of the
lobby, of every fight service and of every agent, and a call of one service of the hall in another runs the
handler of the callee. The programs of the lobby and of the fights are those of `Lobby` and `Fight`, embedded
with what they do where they wait.

A coroutine is what one request starts, through all services that it reaches; its `Place` says in which
service it waits. A request, its handler and its reply are sections of their own, so that everything else may
happen in between. The fight services are numbered in the order in which the lobby starts them.

A client that has not logged in has no uid, and its `create_room` is left out.
-/

set_option autoImplicit false
set_option relaxedAutoImplicit false

namespace SvrDemo.Douniu

open Coroutine Lua Skynet

/-! ### Data -/

/-- An agent: the fields of its variable `player`, its variable `room`, and whether it has reached
`skynet.exit`. For the statements about it, `offered` has the fight services that `set_fight` has named to
it so far, and `given` those that it has taken, from `set_fight` or with a room. -/
structure Agent where
  uid : ℕ
  nickName : String
  icon : String
  money : ℤ
  login : Bool
  room : Option RoomInfo
  offered : List ℕ
  given : List ℕ
  exited : Bool

/-- The table `player` of an agent. -/
def Agent.player (agent : ℕ) (self : Agent) : RoomPlayer where
  uid := self.uid
  agent := some agent
  nickName := self.nickName
  icon := self.icon
  money := self.money

/-- The services of the game: the lobby, the fight services that have been started, and the agents. -/
structure Hall where
  lobby : Lobby
  fights : ℕ → Fight
  fightCnt : ℕ
  agents : ℕ → Agent

/-- What a coroutine of the hall serves. -/
inductive Request
  | login (agent : ℕ)
  | createRoom (agent : ℕ) (odds : Option LuaInt)
  | enterRoom (agent : ℕ)
  | leaveRoom (agent : ℕ)
  | disconnect (agent : ℕ)
  | playerMessage (fight : ℕ) (handler : Handler)
  | matchLoop
  | checkStatus (fight : ℕ)

/-- Where a command of the lobby waits: for an agent or for a new service, or for the reply of an agent that
has handled its message. -/
inductive LobbyStage
  | waits (call : LobbyCall)
  | handled (call : LobbyCall)

/-- Where a handler of a fight service waits: for an agent, a timer or the database, or for the lobby to
unlock a room. -/
inductive FightStage
  | waits (call : Call)
  | unlockRequest (roomId : ℕ)
  | unlock (stage : LobbyStage)
  | unlockReply (ok : Bool)

/-- Where a call of the lobby in a fight service has got to. -/
inductive CallStage
  | request
  | handler (stage : FightStage)
  | reply (ok : Bool)

/-- Where a coroutine waits: for its first turn, for the database at the login, for the request of its agent
to reach the lobby, with the arguments of a `leave_room`, in the lobby, in a call of the lobby, for the reply
of the lobby, or in a fight. -/
inductive Place
  | start
  | database
  | request
  | leaveRequest (roomId uid : ℕ)
  | lobby (stage : LobbyStage)
  | inFight (call : LobbyCall) (stage : CallStage)
  | reply (ok : Bool)
  | fight (stage : FightStage)

/-- A coroutine: what it serves and where it waits. -/
structure Served where
  request : Request
  place : Place

/-- A coroutine of the hall. -/
abbrev HallTask (α : Type) : Type := Task Served Hall α

/-- Change an agent. -/
def Hall.updateAgent (hall : Hall) (agent : ℕ) (change : Agent → Agent) : Hall :=
  { hall with agents := Function.update hall.agents agent (change (hall.agents agent)) }

/-! ### Calls between the services -/

/-- A call of a service of the hall. The reply shows at its place whether the callee has raised. -/
def exchange {α : Type} (request : Served) (reply : Bool → Served) (body : HallTask α) :
    HallTask (Except LuaError α) := do
  let _ ← Program.await (I := skynet) request
  let result ← body.attempt
  let _ ← Program.await (I := skynet) (reply result.isOk)
  return result

/-- The reply that a caller gets. -/
def replyOf {α : Type} : Except LuaError α → Answer
  | .ok _ => .ok
  | .error _ => .raised

/-- `CMD.set_fight`, which does nothing before the agent has a room. -/
def Agent.setFight (fight : Option ℕ) (self : Agent) : Agent :=
  match self.room with
  | none => { self with offered := self.offered ++ fight.toList }
  | some room =>
    { self with
      room := some { room with fightIns := fight }
      offered := self.offered ++ fight.toList
      given := self.given ++ fight.toList }

/-- What becomes of a call of the lobby in an agent. An agent that is gone raises; `set_fight` is handled,
and its reply travels. -/
def agentHandles (request : Request) (stage : LobbyStage → Place) : LobbyCall → HallTask Answer
  | .setFight room agent fight => do
    match ← Program.await (I := skynet) ⟨request, stage (.waits (.setFight room agent fight))⟩ with
    | .raised => return .raised
    | _ => do
      Program.modifyState fun hall ↦ hall.updateAgent agent (Agent.setFight fight)
      let _ ← Program.await (I := skynet) ⟨request, stage (.handled (.setFight room agent fight))⟩
      return .ok
  | call => Program.await (I := skynet) ⟨request, stage (.waits call)⟩

/-- The lobby in the hall, for a command that calls the agents only. -/
def agentsOnly (request : Request) (stage : LobbyStage → Place) :
    Embedding skynet LobbyCall Lobby Served Hall where
  get := Hall.lobby
  put := fun lobby hall ↦ { hall with lobby := lobby }
  handle := agentHandles request stage
  fork := fun call ↦ ⟨request, stage (.waits call)⟩
  get_put := fun _ _ ↦ rfl

/-- `skynet.call ("DOUNIUSERVER", "lua", "unlock_room", …)` of a fight service. -/
def callUnlock (request : Request) (stage : FightStage → Place) (roomId : ℕ) : HallTask Answer := do
  let result ← exchange ⟨request, stage (.unlockRequest roomId)⟩
    (fun ok ↦ ⟨request, stage (.unlockReply ok)⟩)
    ((unlockRoom roomId).embed (agentsOnly request fun place ↦ stage (.unlock place)))
  return replyOf result

/-- What becomes of a call of a fight service. -/
def fightHandles (request : Request) (stage : FightStage → Place) : Call → HallTask Answer
  | .unlockRoom roomId => callUnlock request stage roomId
  | call => Program.await (I := skynet) ⟨request, stage (.waits call)⟩

/-- A fight service in the hall. The timer of `checkStatus` starts a coroutine of its own. -/
def inFightService (request : Request) (stage : FightStage → Place) (fight : ℕ) :
    Embedding skynet Call Fight Served Hall where
  get := fun hall ↦ hall.fights fight
  put := fun part hall ↦ { hall with fights := Function.update hall.fights fight part }
  handle := fightHandles request stage
  fork := fun call ↦
    match call with
    | .timer => ⟨.checkStatus fight, .start⟩
    | call => ⟨request, stage (.waits call)⟩
  get_put := fun _ _ ↦ Function.update_self ..

/-- A call of the lobby in a fight service. -/
def callFight (request : Request) (call : LobbyCall) (fight : ℕ) (body : FightTask Unit) :
    HallTask Answer := do
  let result ← exchange ⟨request, .inFight call .request⟩
    (fun ok ↦ ⟨request, .inFight call (.reply ok)⟩)
    (body.embed (inFightService request (fun stage ↦ .inFight call (.handler stage)) fight))
  return replyOf result

/-- `skynet.newservice "douniu_fight"`: the next fight service is started. -/
def newFight (request : Request) (room : ℕ) : HallTask Answer := do
  match ← Program.await (I := skynet) ⟨request, .lobby (.waits (.newService room))⟩ with
  | .raised => return .raised
  | _ => do
    let fight := (← Program.getState).fightCnt
    Program.modifyState fun hall ↦ { hall with fightCnt := fight + 1 }
    return .number fight

/-- What becomes of a call of the lobby. -/
def lobbyHandles (request : Request) : LobbyCall → HallTask Answer
  | .newService room => newFight request room
  | .onStart fight room roomInfo =>
    callFight request (.onStart fight room roomInfo) fight (onStart roomInfo)
  | .onKickOut fight uid => callFight request (.onKickOut fight uid) fight (onKickOut uid)
  | call => agentHandles request .lobby call

/-- The lobby in the hall. The timer of `matchLoop` starts a coroutine of its own. -/
def inLobby (request : Request) : Embedding skynet LobbyCall Lobby Served Hall where
  get := Hall.lobby
  put := fun lobby hall ↦ { hall with lobby := lobby }
  handle := lobbyHandles request
  fork := fun call ↦
    match call with
    | .timer => ⟨.matchLoop, .start⟩
    | call => ⟨request, .lobby (.waits call)⟩
  get_put := fun _ _ ↦ rfl

/-! ### The agents -/

/-- `check_login`. -/
def checkLogin (agent : ℕ) : HallTask Agent := do
  let self := (← Program.getState).agents agent
  if self.login then return self
  else .fail .assertionFailed

/-- `skynet.call ("DOUNIUSERVER", "lua", …)` of an agent. -/
def callLobby {α : Type} (request : Request) (sent : Place) (body : LobbyTask α) : HallTask α := do
  match ← exchange ⟨request, sent⟩ (fun ok ↦ ⟨request, .reply ok⟩) (body.embed (inLobby request)) with
  | .ok value => return value
  | .error _ => .fail .callFailed

/-- `GAME:login`. The answer of the database is not looked at. -/
def gameLogin (agent : ℕ) : HallTask Unit := do
  let _ ← Program.await (I := skynet) ⟨.login agent, .database⟩
  let uid ← mathRandom 50000000
  Program.modifyState fun hall ↦ hall.updateAgent agent fun self ↦
    { self with uid := uid.toNat, nickName := "test", money := 200000, icon := "", login := true }

/-- `GAME:create_room`. -/
def gameCreateRoom (agent : ℕ) (odds : Option LuaInt) : HallTask Unit := do
  let self := (← Program.getState).agents agent
  if self.login then callLobby (.createRoom agent odds) .request (createRoom odds (self.player agent))
  else return ()

/-- `GAME:enter_room`. -/
def gameEnterRoom (agent : ℕ) : HallTask Unit := do
  let self ← checkLogin agent
  let room ← callLobby (.enterRoom agent) .request (enterRoom (self.player agent))
  Program.modifyState fun hall ↦ hall.updateAgent agent fun self ↦
    { self with room := some room, given := self.given ++ room.fightIns.toList }

/-- `GAME:leave_room`, with the code of the answer. -/
def gameLeaveRoom (request : Request) (agent : ℕ) : HallTask ℤ := do
  let self ← checkLogin agent
  match self.room with
  | none => return 0
  | some room => do
    let ret ← callLobby request (.leaveRequest room.roomId self.uid) (leaveRoom room.roomId self.uid)
    return if ret = 0 then 0 else -1

/-- `CMD.disconnect`. -/
def cmdDisconnect (agent : ℕ) : HallTask Unit := do
  let _ ← gameLeaveRoom (.disconnect agent) agent
  Program.modifyState fun hall ↦ hall.updateAgent agent fun self ↦ { self with exited := true }

/-! ### The services together -/

/-- The messages that an agent sends to a fight for its client. -/
def Handler.isFromClient : Handler → Bool
  | .onGetLeader _ _ | .onSetOdds _ _ | .onPackCard _ _ => true
  | _ => false

/-- What a request does. -/
def Request.body : Request → HallTask Unit
  | .login agent => gameLogin agent
  | .createRoom agent odds => gameCreateRoom agent odds
  | .enterRoom agent => gameEnterRoom agent
  | .leaveRoom agent => do
    let _ ← gameLeaveRoom (.leaveRoom agent) agent
    return ()
  | .disconnect agent => cmdDisconnect agent
  | .playerMessage fight handler =>
    handler.body.embed (inFightService (.playerMessage fight handler) .fight fight)
  | .matchLoop => Douniu.matchLoop.embed (inLobby .matchLoop)
  | .checkStatus fight => Douniu.checkStatus.embed (inFightService (.checkStatus fight) .fight fight)

/-- A coroutine that the message of a client or of the watchdog starts. -/
def Served.isMessage : Served → Bool
  | ⟨.matchLoop, _⟩ | ⟨.checkStatus _, _⟩ => false
  | ⟨.playerMessage _ handler, .start⟩ => handler.isFromClient
  | ⟨_, .start⟩ => true
  | _ => false

/-- The services of the game. Any message may come at any time. -/
def hallService : System skynet Served Hall where
  entry := fun served ↦ served.request.body
  arrives := Served.isMessage

/-- A fight service before its first game. -/
def Fight.initial (dbServiceCnt : ℕ) : Fight where
  playerLst := ∅
  cardLst := []
  roomStatus := .idle
  statusBegin := 0
  roomLeader := none
  room := none
  curDbsId := 1
  dbServiceCnt := dbServiceCnt
  moneyUpdates := []

/-- An agent before its first request. -/
def Agent.initial : Agent where
  uid := 0
  nickName := ""
  icon := ""
  money := 0
  login := false
  room := none
  offered := []
  given := []
  exited := false

/-- The services after their start. -/
def Hall.initial (dbServiceCnt : ℕ) : Hall where
  lobby := .empty
  fights := fun _ ↦ .initial dbServiceCnt
  fightCnt := 0
  agents := fun _ ↦ .initial

/-- The services after their start: the timer of `matchLoop` is set. -/
def openHall (dbServiceCnt : ℕ) : Configuration skynet Served Hall where
  state := .initial dbServiceCnt
  threads := [hallService.start ⟨.matchLoop, .start⟩]
  errors := []

end SvrDemo.Douniu
