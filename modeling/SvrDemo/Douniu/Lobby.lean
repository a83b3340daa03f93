import SvrDemo.Douniu.Fight

/-!
# The lobby

`douniu_room.lua`, the service `DOUNIUSERVER`. It keeps the rooms that have not been deleted in
`room_queue` and seats the players in them; every five seconds `matchLoop` starts the games of the
rooms that are due. A game runs in a fight service of its own, which reports its end with
`unlock_room`.

A room is a table of the language that several coroutines share: `rooms` has every room that was ever
made under the number of its making, and `room_queue` refers to rooms by these numbers. The variable
`v_room` of a coroutine is such a number. The loops that wait in their bodies traverse live tables, the
`player_lst` of a room and `room_queue`; `skynet.call` packs its arguments when it is called.
-/

set_option autoImplicit false
set_option relaxedAutoImplicit false

namespace SvrDemo.Douniu

open Coroutine Lua Skynet

/-! ### Data -/

/-- `MAX_PLAYER`. -/
def maxPlayer : ℕ := 5

/-- The odds of a room that `enter_room` makes. -/
def defaultOdds : LuaInt := 25

/-- A player in the package `update_room_info`. -/
structure PlayerView where
  icon : String
  money : ℤ
  name : String
  odds : ℤ
  isLeader : Bool
  uid : ℕ
  deriving DecidableEq, Repr

/-- The package `update_room_info`. -/
structure RoomView where
  roomId : ℕ
  roomOdds : Option LuaInt
  status : ℕ
  players : List PlayerView
  deriving DecidableEq

/-- The variables of the lobby, with every room that was ever made. `queueLayout` counts the assignments
of keys that `room_queue` did not have. -/
structure Lobby where
  maxRoomIdx : ℕ
  roomQueue : Table ℕ
  queueLayout : ℕ
  rooms : ℕ → RoomInfo
  roomCnt : ℕ

/-- Where a coroutine of the lobby waits. A call that belongs to a room names the room. -/
inductive LobbyCall
  | start
  | timer
  | sendPackCli (agent : ℕ) (info : RoomView)
  | setFight (room agent : ℕ) (fight : Option ℕ)
  | newService (room : ℕ)
  | onStart (fight room : ℕ) (roomInfo : RoomInfo)
  | onKickOut (fight uid : ℕ)

/-- A coroutine of the lobby. -/
abbrev LobbyTask (α : Type) : Type := Task LobbyCall Lobby α

namespace Lobby

/-- Change a room. -/
def updateRoom (lobby : Lobby) (room : ℕ) (change : RoomInfo → RoomInfo) : Lobby :=
  { lobby with rooms := Function.update lobby.rooms room (change (lobby.rooms room)) }

/-- The players of a room. -/
def players (lobby : Lobby) (room : ℕ) : Table RoomPlayer := (lobby.rooms room).playerLst

/-- A new room under the next id. -/
def addRoom (lobby : Lobby) (roomOdds : Option LuaInt) (playerLst : Table RoomPlayer) (now : ℤ) :
    Lobby where
  maxRoomIdx := lobby.maxRoomIdx + 1
  roomQueue := lobby.roomQueue.insert lobby.maxRoomIdx lobby.roomCnt
  queueLayout :=
    if lobby.maxRoomIdx ∈ lobby.roomQueue.keys then lobby.queueLayout else lobby.queueLayout + 1
  rooms := Function.update lobby.rooms lobby.roomCnt
    { roomId := lobby.maxRoomIdx, roomOdds, playerLst, status := 0, roomBeginTs := now,
      fightIns := none, layout := 0 }
  roomCnt := lobby.roomCnt + 1

/-- A room that `enter_room` may choose: it waits for players and is not full. -/
def admits (lobby : Lobby) (room : ℕ) : Bool :=
  (lobby.rooms room).status = 0 ∧ (lobby.players room).size < maxPlayer

/-- The room that `enter_room` finds along a traversal of `room_queue`. -/
def findRoom (lobby : Lobby) (order : List ℕ) : Option ℕ :=
  order.findSome? fun key ↦ (lobby.roomQueue.lookup key).filter lobby.admits

/-- The room that `leave_room` finds along a traversal of `room_queue`. -/
def findId (lobby : Lobby) (order : List ℕ) (roomId : ℕ) : Option ℕ :=
  order.findSome? fun key ↦
    (lobby.roomQueue.lookup key).filter fun room ↦ (lobby.rooms room).roomId = roomId

end Lobby

/-! ### Sending -/

/-- `make_room_info`. -/
def makeRoomInfo (room : ℕ) : LobbyTask RoomView := do
  let roomInfo := (← Program.getState).rooms room
  let order ← pairs roomInfo.playerLst.keys
  return {
    roomId := roomInfo.roomId
    roomOdds := roomInfo.roomOdds
    status := roomInfo.status
    players := order.filterMap fun key ↦ (roomInfo.playerLst.lookup key).map fun player ↦
      { icon := player.icon, money := player.money, name := player.nickName, odds := 0,
        isLeader := false, uid := player.uid } }

/-- The address of a service, raising for nil. -/
def address : Option ℕ → LobbyTask ℕ
  | some service => return service
  | none => .fail .indexNil

/-- The `player_lst` of a room. -/
def Lobby.livePlayers (room : ℕ) : LiveTable Lobby RoomPlayer where
  rows := fun lobby ↦ lobby.players room
  layout := fun lobby ↦ (lobby.rooms room).layout

/-- A loop of the lobby over the players of a room. -/
def forPlayers (room : ℕ) (body : RoomPlayer → LobbyTask Unit) : LobbyTask Unit :=
  traverse (Lobby.livePlayers room) fun _ player ↦ body player

/-- Send `update_room_info` to every player of a room. -/
def updateRoomInfo (room : ℕ) : LobbyTask Unit :=
  forPlayers room fun player ↦ do
    let info ← makeRoomInfo room
    let agent ← address player.agent
    call (.sendPackCli agent info)

/-- Tell every player of a room the fight service of the room, or that there is none any more. -/
def setFight (room : ℕ) (fightOf : RoomInfo → Option ℕ) : LobbyTask Unit :=
  forPlayers room fun player ↦ do
    let fight := fightOf ((← Program.getState).rooms room)
    let agent ← address player.agent
    call (.setFight room agent fight)

/-! ### Commands -/

/-- The table `room_info` of `create_room` and `enter_room`: a new room in `room_queue`. -/
def makeRoom (roomOdds : Option LuaInt) (playerLst : Table RoomPlayer) : LobbyTask ℕ := do
  let room := (← Program.getState).roomCnt
  let now ← osTime
  Program.modifyState fun lobby ↦ lobby.addRoom roomOdds playerLst now
  return room

/-- `create_room`. The table `{player}` has the player under the key 1. -/
def createRoom (odds : Option LuaInt) (player : RoomPlayer) : LobbyTask Unit := do
  let _ ← makeRoom odds (Finmap.singleton 1 player)
  return ()

/-- The first part of `enter_room`: a room that admits the player, or a new one. -/
def roomFor (order : List ℕ) : LobbyTask ℕ := do
  match (← Program.getState).findRoom order with
  | some room => return room
  | none => makeRoom (some defaultOdds) ∅

/-- Seat a player in a room. -/
def Lobby.seat (lobby : Lobby) (room : ℕ) (player : RoomPlayer) : Lobby :=
  lobby.updateRoom room fun roomInfo ↦ roomInfo.addPlayer player

/-- `enter_room`. -/
def enterRoom (player : RoomPlayer) : LobbyTask RoomInfo := do
  let order ← pairs (← Program.getState).roomQueue.keys
  let room ← roomFor order
  Program.modifyState fun lobby ↦ lobby.seat room player
  updateRoomInfo room
  return (← Program.getState).rooms room

/-- Remove the player under a key from a room. -/
def Lobby.unseat (lobby : Lobby) (room uid : ℕ) : Lobby :=
  lobby.updateRoom room fun roomInfo ↦ roomInfo.removePlayer uid

/-- `leave_room`. -/
def leaveRoom (roomId uid : ℕ) : LobbyTask ℤ := do
  let order ← pairs (← Program.getState).roomQueue.keys
  match (← Program.getState).findId order roomId with
  | none => return -1
  | some room => do
    Program.modifyState fun lobby ↦ lobby.unseat room uid
    let fight ← address ((← Program.getState).rooms room).fightIns
    call (.onKickOut fight uid)
    updateRoomInfo room
    return 0

/-- The part of `startGame` that starts a fight service for a room without one. -/
def ensureFight (room : ℕ) : LobbyTask Unit := do
  match ((← Program.getState).rooms room).fightIns with
  | some _ => return ()
  | none => do
    match ← Program.await (I := skynet) (.newService room) with
    | .number fight => Program.modifyState fun lobby ↦
        lobby.updateRoom room fun roomInfo ↦ { roomInfo with fightIns := some fight.toNat }
    | _ => .fail .callFailed

/-- `startGame`. -/
def startGame (room : ℕ) : LobbyTask Unit := do
  let lobby ← Program.getState
  if (lobby.rooms room).status = 1 then return ()
  else
    ensureFight room
    setFight room RoomInfo.fightIns
    let roomInfo := (← Program.getState).rooms room
    let fight ← address roomInfo.fightIns
    call (.onStart fight room roomInfo)
    Program.modifyState fun lobby ↦
      lobby.updateRoom room fun roomInfo ↦ { roomInfo with status := 1 }

/-- A room is due when it has two players and waits for more than ten seconds; the clock is read only
for the first. -/
def isDue (roomNum : ℕ) (room : ℕ) : LobbyTask Bool := do
  if roomNum ≥ 2 then
    let now ← osTime
    return decide (now - ((← Program.getState).rooms room).roomBeginTs > 10)
  else return false

/-- Delete the room under a key when it has no players. -/
def dropEmpty (key roomNum : ℕ) : LobbyTask Unit :=
  if roomNum = 0 then
    Program.modifyState fun lobby ↦ { lobby with roomQueue := lobby.roomQueue.erase key }
  else return ()

/-- `room_queue`. -/
def Lobby.liveQueue : LiveTable Lobby ℕ where
  rows := Lobby.roomQueue
  layout := Lobby.queueLayout

/-- One turn of the loop of `matchLoop`. -/
def matchRoom (key room : ℕ) : LobbyTask Unit := do
  let lobby ← Program.getState
  if (lobby.rooms room).status = 0 then
    let roomNum := (lobby.players room).size
    if ← isDue roomNum room then startGame room
    else
      Program.modifyState fun lobby ↦
        lobby.updateRoom room fun roomInfo ↦ { roomInfo with fightIns := none }
    dropEmpty key roomNum
  else return ()

/-- `matchLoop`, which a timer repeats. -/
def matchLoop : LobbyTask Unit := do
  traverse Lobby.liveQueue matchRoom
  Program.spawn (I := skynet) .timer

/-- `unlock_room`. -/
def unlockRoom (roomId : ℕ) : LobbyTask Unit := do
  match (← Program.getState).roomQueue.lookup roomId with
  | none => return ()
  | some room => do
    let now ← osTime
    Program.modifyState fun lobby ↦
      lobby.updateRoom room fun roomInfo ↦ { roomInfo with status := 0, roomBeginTs := now }
    setFight room fun _ ↦ none

/-! ### The service -/

/-- What a coroutine of the lobby serves. -/
inductive LobbyRequest
  | createRoom (odds : Option LuaInt) (player : RoomPlayer)
  | enterRoom (player : RoomPlayer)
  | leaveRoom (roomId uid : ℕ)
  | matchLoop
  | unlockRoom (roomId : ℕ)

/-- A coroutine of the lobby: what it serves and where it waits. -/
structure LobbyPoint where
  request : LobbyRequest
  call : LobbyCall

/-- The coroutine that waits at a call, or that is started by the timer of `matchLoop`. -/
def LobbyRequest.at (request : LobbyRequest) : LobbyCall → LobbyPoint
  | .timer => ⟨.matchLoop, .start⟩
  | call => ⟨request, call⟩

/-- What a request does. Its reply is left out. -/
def LobbyRequest.body : LobbyRequest → LobbyTask Unit
  | .createRoom odds player => Douniu.createRoom odds player
  | .enterRoom player => do
    let _ ← Douniu.enterRoom player
    return ()
  | .leaveRoom roomId uid => do
    let _ ← Douniu.leaveRoom roomId uid
    return ()
  | .matchLoop => Douniu.matchLoop
  | .unlockRoom roomId => Douniu.unlockRoom roomId

/-- A coroutine that a message starts. -/
def LobbyPoint.isMessage : LobbyPoint → Bool
  | ⟨.matchLoop, _⟩ => false
  | ⟨_, .start⟩ => true
  | _ => false

/-- The lobby: messages of the agents and of the fights arrive at any time. -/
def lobbyService : System skynet LobbyPoint Lobby where
  entry := fun point ↦ point.request.body.embed (.relabel point.request.at)
  arrives := LobbyPoint.isMessage

/-- A lobby without rooms. -/
def Lobby.empty : Lobby where
  maxRoomIdx := 1000
  roomQueue := ∅
  queueLayout := 0
  rooms := fun _ ↦
    { roomId := 0, roomOdds := none, playerLst := ∅, status := 0, roomBeginTs := 0, fightIns := none, layout := 0 }
  roomCnt := 0

/-- The lobby after its start: the timer of `matchLoop` is set. -/
def openLobby : Configuration skynet LobbyPoint Lobby where
  state := .empty
  threads := [lobbyService.start ⟨.matchLoop, .start⟩]
  errors := []

end SvrDemo.Douniu
