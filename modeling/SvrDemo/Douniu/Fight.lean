import SvrDemo.Douniu.FightHelper
import SvrDemo.Skynet.Traversal

/-!
# A douniu fight service

`douniu_fight.lua`. A fight service runs one game at a time for a room of the lobby. `onStart`
takes a copy of the room, deals four cards to every player and starts `checkStatus`, which a timer
repeats every second. `checkStatus` moves the game through its phases: it elects the banker, lets
the others choose their odds, deals the last card, settles and stores the result, and reports the
end of the game to the lobby. The players' messages `onGetLeader`, `onSetOdds`, `onPackCard` and the
lobby's `onKickOut` are handled by other coroutines of the same service.

The tables of the source are `Table`s. `player_lst` is keyed by the uid of its records, so a record
does not repeat it, and `room_leader` is the uid of the banker's record. The copy of the room keeps
the keys the lobby gave its players, and their uids. A coroutine waits at a `Call`: the message it
has sent, the timer it sleeps for, or `start` before its first turn. `player_lst` has no new keys during a
game, so that a traversal reads the records of the keys it began with; the copy of the room loses players
to `onKickOut`, and `broadcast_room_player` traverses it as a live table.

`new_dao.lua` and `update_user_money` of `db_service.lua` are modelled with the save loop that uses
them: `moneyUpdates` is the list of the calls that have been answered, each with what became of its
statement.
-/

set_option autoImplicit false
set_option relaxedAutoImplicit false

namespace SvrDemo.Douniu

open Coroutine Lua Skynet

/-! ### Data -/

/-- A player as the lobby and the copies of a room know him: the `player` table of his agent. -/
structure RoomPlayer where
  uid : ℕ
  agent : Option ℕ
  nickName : String
  icon : String
  money : ℤ
  deriving DecidableEq, Repr

/-- A room: `room_odds` is absent when the player who created it sent none. `layout` counts the assignments
of keys that the table `player_lst` did not have. -/
structure RoomInfo where
  roomId : ℕ
  roomOdds : Option LuaInt
  playerLst : Table RoomPlayer
  status : ℕ
  roomBeginTs : ℤ
  fightIns : Option ℕ
  layout : ℕ

/-- `player_lst[uid] = nil`. -/
def RoomInfo.removePlayer (room : RoomInfo) (uid : ℕ) : RoomInfo :=
  { room with
    playerLst := room.playerLst.erase uid
    layout := if uid ∈ room.playerLst.keys then room.layout else room.layout + 1 }

/-- `player_lst[player.uid] = player`. -/
def RoomInfo.addPlayer (room : RoomInfo) (player : RoomPlayer) : RoomInfo :=
  { room with
    playerLst := room.playerLst.insert player.uid player
    layout := if player.uid ∈ room.playerLst.keys then room.layout else room.layout + 1 }

/-- A player of the running game: the record `initRoomPlayer` makes, with the fields
`max_card` and `send_user_odds` that later code adds to it. -/
structure Player where
  odds : ℤ
  icon : String
  money : ℤ
  winMoney : LuaInt
  isLeader : Bool
  handCardLst : List ℤ
  niuNum : ℤ
  maxCardNum : ℤ
  maxCard : Option ℤ
  handCardReady : Bool
  sendOdds : Bool
  sendUserOdds : Bool
  deriving DecidableEq

/-- One line of the result of a game. -/
structure PlayerResult where
  uid : ℕ
  result : LuaInt
  handCardLst : List ℤ
  niuNum : ℤ
  deriving DecidableEq

/-- What `send_pack_cli` sends to a client. -/
inductive Package
  | perflop (cardInfo : List ℤ)
  | updateGameProcess (roomId : ℕ) (roomOdds : Option LuaInt) (status : ℕ) (leaderUid : ℕ)
      (beginTs : ℤ) (procInterval : Option ℤ)
  | onOddsChange (roomStatus : ℕ) (uid : ℕ) (odds : ℤ) (handCardReady : Bool)
  | onGameResult (roomId : ℕ) (roomOdds : Option LuaInt) (playerRetLst : List PlayerResult)
  deriving DecidableEq

/-- The package that shows the result of a game. -/
def Package.isResult : Package → Bool
  | .onGameResult _ _ _ => true
  | _ => false

/-- Where a coroutine of a fight service waits. -/
inductive Call
  | start
  | timer
  | sleep
  | sendPackCli (agent : ℕ) (package : Package)
  | updateUserMoney (service : ℕ) (uid : ℕ) (addVal : LuaInt)
  | unlockRoom (roomId : ℕ)
  deriving DecidableEq

/-- A call of `update_user_money` that has been answered, and whether the database has executed its
statement. -/
structure MoneyUpdate where
  uid : ℕ
  addVal : LuaInt
  executed : Bool
  deriving DecidableEq

/-- The variables of a fight service, with the cursor of its `new_dao`, the number of database
services, and the calls of `update_user_money` that have been answered. -/
structure Fight where
  playerLst : Table Player
  cardLst : List ℤ
  roomStatus : RoomStatus
  statusBegin : ℤ
  roomLeader : Option ℕ
  room : Option RoomInfo
  curDbsId : ℕ
  dbServiceCnt : ℕ
  moneyUpdates : List MoneyUpdate

/-- A coroutine of a fight service. -/
abbrev FightTask (α : Type) : Type := Task Call Fight α

namespace Fight

/-- Change the record of a player. -/
def updatePlayer (fight : Fight) (uid : ℕ) (change : Player → Player) : Fight :=
  { fight with playerLst := fight.playerLst.update uid change }

/-- The record of a player, `getPlayer`. -/
def getPlayer (fight : Fight) (uid : ℕ) : Option Player := fight.playerLst.lookup uid

/-- The cards in the hand of a player, none for a uid that does not play. -/
def hand (fight : Fight) (uid : ℕ) : List ℤ := ((fight.getPlayer uid).map Player.handCardLst).getD []

/-- The odds of a player, zero for a uid that does not play. -/
def odds (fight : Fight) (uid : ℕ) : ℤ := ((fight.getPlayer uid).map Player.odds).getD 0

/-- The money a player has won, zero for a uid that does not play. -/
def winMoney (fight : Fight) (uid : ℕ) : LuaInt :=
  ((fight.getPlayer uid).map Player.winMoney).getD 0

end Fight

/-! ### Sending -/

/-- `room`, raising when it is still nil. -/
def getRoom : FightTask RoomInfo := do
  match (← Program.getState).room with
  | some room => return room
  | none => .fail .indexNil

/-- `skynet.call (agent, "lua", "send_pack_cli", …)`, raising for an agent that is nil. -/
def sendPackCli (agent : Option ℕ) (package : Package) : FightTask Unit :=
  match agent with
  | some agent => call (.sendPackCli agent package)
  | none => .fail .indexNil

/-- `room.player_lst`, the table that `onKickOut` changes. -/
def Fight.roomPlayers : LiveTable Fight RoomPlayer where
  rows := fun fight ↦ (fight.room.map RoomInfo.playerLst).getD ∅
  layout := fun fight ↦ (fight.room.map RoomInfo.layout).getD 0

/-- `broadcast_room_player (room.player_lst, …)`: send to every player of the room that has an
agent. -/
def broadcastRoomPlayer (package : Package) : FightTask Unit := do
  let _ ← getRoom
  traverse Fight.roomPlayers fun _ player ↦
    match player.agent with
    | some agent => call (.sendPackCli agent package)
    | none => return ()

/-- `send_user_odds`: tell the room the odds of every player of a list. -/
def sendUserOdds (uidLst : List ℕ) : FightTask Unit :=
  Program.forEach uidLst fun uid ↦ do
    let fight ← Program.getState
    match fight.getPlayer uid with
    | some player =>
      broadcastRoomPlayer
        (.onOddsChange fight.roomStatus.code uid player.odds player.handCardReady)
    | none => return ()

/-- `initRoomPlayer`: the record of a player at the start of a game. -/
def initRoomPlayer (player : RoomPlayer) : Player where
  odds := 0
  icon := player.icon
  money := player.money
  winMoney := 0
  isLeader := false
  handCardLst := []
  niuNum := 0
  maxCardNum := 0
  maxCard := none
  handCardReady := false
  sendOdds := false
  sendUserOdds := false

/-- The loop of `get_card_from_card_lst`: move `num` cards from the top of the deck to the hand of
a player, as long as there are any, and collect them. -/
def Fight.drawCards (uid : ℕ) : ℕ → Fight → List ℤ × Fight
  | 0, fight => ([], fight)
  | num + 1, fight =>
    match fight.cardLst with
    | [] => ([], fight)
    | card :: rest =>
      let drawn := Fight.drawCards uid num
        { fight.updatePlayer uid fun player ↦
            { player with handCardLst := player.handCardLst ++ [card] } with cardLst := rest }
      (card :: drawn.1, drawn.2)

/-- The second part of `get_card_from_card_lst`: show the cards to a player who is still in the
room. -/
def sendPerflop (uid : ℕ) (retCardLst : List ℤ) : FightTask Unit := do
  let room ← getRoom
  match (room.playerLst.lookup uid).bind RoomPlayer.agent with
  | some agent => call (.sendPackCli agent (.perflop retCardLst))
  | none => return ()

/-- `get_card_from_card_lst`: deal cards to a player and show them to him. -/
def getCardFromCardLst (uid num : ℕ) : FightTask Unit := do
  let fight ← Program.getState
  Program.modifyState fun fight ↦ (fight.drawCards uid num).2
  sendPerflop uid (fight.drawCards uid num).1

/-- `update_game_process`: copy the phase into the room and send it to every player of the game
that is still in the room. The field `room.odds` it sends does not exist. -/
def updateGameProcess : FightTask Unit := do
  let fight ← Program.getState
  let leaderUid := fight.roomLeader.getD 0
  let room ← getRoom
  Program.modifyState fun fight ↦
    { fight with room := some { room with status := fight.roomStatus.code } }
  let order ← pairs fight.playerLst.keys
  Program.forEach order fun uid ↦ do
    let fight ← Program.getState
    let room ← getRoom
    match room.playerLst.lookup uid with
    | some roomPlayer =>
      sendPackCli roomPlayer.agent
        (.updateGameProcess room.roomId none room.status leaderUid fight.statusBegin
          (if room.status = 0 then none else enumGameStatusInteval[room.status - 1]?))
    | none => return ()

/-! ### The end of a game -/

/-- `compare_hand_card`: note the bull and the largest card of both players, and whether the first
beats the second. -/
def compareHandCard (first second : Player) : Except LuaError (Bool × Player × Player) := do
  let (firstNiu, firstMax) ← parseCardInfo first.handCardLst
  let (secondNiu, secondMax) ← parseCardInfo second.handCardLst
  let wins := if firstNiu ≠ secondNiu then decide (firstNiu > secondNiu) else firstMax > secondMax
  return (wins, { first with niuNum := firstNiu, maxCard := some firstMax },
    { second with niuNum := secondNiu, maxCard := some secondMax })

/-- Write the records of a player and of the banker. -/
def Fight.compared (fight : Fight) (uid : ℕ) (player : Player) (leaderUid : ℕ) (leader : Player) :
    Fight :=
  { fight with playerLst := (fight.playerLst.insert uid player).insert leaderUid leader }

/-- One turn of the settlement loop: a player other than the banker wins from the banker or loses
to him the product of both odds, the odds of the room and the multiplier of the winner's bull. An
error carries the state it leaves. -/
def Fight.settlePlayer (leaderUid : ℕ) (fight : Fight) (uid : ℕ) :
    Except (LuaError × Fight) Fight :=
  if uid = leaderUid then .ok fight
  else
    match fight.getPlayer uid, fight.getPlayer leaderUid with
    | some player, some leader =>
      match compareHandCard player leader with
      | .error error => .error (error, fight)
      | .ok (cpRet, player, leader) =>
        match fight.room with
        | none => .error (.indexNil, fight.compared uid player leaderUid leader)
        | some room =>
          match room.roomOdds with
          | none => .error (.arithmeticOnNil, fight.compared uid player leaderUid leader)
          | some roomOdds =>
            let stake : LuaInt := (player.odds : LuaInt) * (leader.odds : LuaInt) * roomOdds *
              (getCardOdds (if cpRet then player.niuNum else leader.niuNum) : LuaInt)
            let gain := if cpRet then stake else -stake
            .ok (fight.compared uid { player with winMoney := player.winMoney + gain }
              leaderUid { leader with winMoney := leader.winMoney - gain })
    | _, _ => .error (.indexNil, fight)

/-- The settlement loop of `checkStatus`, along an order of the players. -/
def Fight.settle (order : List ℕ) (fight : Fight) : Except (LuaError × Fight) Fight :=
  match fight.roomLeader with
  | some leaderUid => order.foldlM (Fight.settlePlayer leaderUid) fight
  | none => if order = [] then .ok fight else .error (.indexNil, fight)

/-- The result line of a player. -/
def Fight.resultOf (fight : Fight) (uid : ℕ) : List PlayerResult :=
  match fight.getPlayer uid with
  | some player =>
    [{ uid := uid, result := player.winMoney, handCardLst := player.handCardLst,
       niuNum := player.niuNum }]
  | none => []

/-- Note the answer to a call of `update_user_money`. -/
def Fight.answered (fight : Fight) (uid : ℕ) (addVal : LuaInt) (executed : Bool) : Fight :=
  { fight with moneyUpdates := fight.moneyUpdates ++ [⟨uid, addVal, executed⟩] }

/-- `new_dao.call ("update_user_money", …)`: choose the next database service and wait for it. The
reply `ok` is an executed statement. A service that has raised, or a server that has refused the
statement, has executed none; the cursor stays on a service that has raised. -/
def updateUserMoney (uid : ℕ) (addVal : LuaInt) : FightTask Bool := do
  Program.modifyState fun fight ↦
    if fight.curDbsId > fight.dbServiceCnt then { fight with curDbsId := 1 } else fight
  let fight ← Program.getState
  let reply ← Program.await (I := skynet) (.updateUserMoney fight.curDbsId uid addVal)
  if reply = .raised then
    Program.modifyState fun fight ↦ fight.answered uid addVal false
    return false
  else
    Program.modifyState fun fight ↦
      { fight.answered uid addVal (reply = .ok) with curDbsId := fight.curDbsId + 1 }
    return true

/-- `onGameOver`: the lobby may use the room again. -/
def onGameOver : FightTask Unit := do
  let room ← getRoom
  call (.unlockRoom room.roomId)

/-- The save loop of `checkStatus`: collect the result of every player and store his money. A
failure of the database is only printed. -/
def saveResults : FightTask (List PlayerResult) := do
  let order ← pairs (← Program.getState).playerLst.keys
  order.foldlM (fun result uid ↦ do
    let fight ← Program.getState
    let line := fight.resultOf uid
    let _ ← updateUserMoney uid (fight.winMoney uid)
    return result ++ line) []

/-- The end of `checkStatus`: show the result to the room, and tell the lobby. The field `room.odds`
does not exist here either. -/
def showResult (result : List PlayerResult) : FightTask Unit := do
  let room ← getRoom
  broadcastRoomPlayer (.onGameResult room.roomId none result)
  onGameOver

/-! ### The phases -/

/-- The time of a phase is over. -/
def RoomStatus.isOver (status : RoomStatus) (now statusBegin : ℤ) : Bool :=
  match status.inteval with
  | some inteval => decide (now - statusBegin > inteval)
  | none => false

/-- A phase ends early, or when its time is over; the clock is read only in the second case. -/
def phaseEnds (early : Bool) (status : RoomStatus) : FightTask Bool := do
  if early then return true
  else
    let now ← osTime
    return status.isOver now (← Program.getState).statusBegin

/-- Go to a phase now. -/
def enterStatus (status : RoomStatus) : FightTask Unit := do
  let now ← osTime
  Program.modifyState fun fight ↦ { fight with statusBegin := now, roomStatus := status }

/-- `checkStatus`, before the election: with two players the game goes on, else it is over. The
result is false when the game is over. -/
def checkReady : FightTask Bool := do
  let fight ← Program.getState
  if fight.roomStatus = .ready then
    if ← phaseEnds false .ready then
      if fight.playerLst.size ≥ 2 then
        enterStatus .askLeader
        updateGameProcess
        return true
      else
        onGameOver
        return false
    else return true
  else return true

/-- The state of the election loop: the highest bid so far, its rank and its player. -/
structure Ballot where
  maxOdds : ℤ
  maxRankNum : ℤ
  leader : Option ℕ

/-- One turn of the election loop: a higher bid takes the lead, an equal one when the dice say so. -/
def voteFor (ballot : Ballot) (uid : ℕ) (odds : ℤ) : FightTask Ballot := do
  if odds ≥ ballot.maxOdds then
    let rankNum ← mathRandom 100
    if odds > ballot.maxOdds then
      return { maxOdds := odds, maxRankNum := rankNum, leader := some uid }
    else if rankNum > ballot.maxRankNum then
      return { ballot with maxRankNum := rankNum, leader := some uid }
    else return ballot
  else return ballot

/-- The election loop of `checkStatus`. -/
def electLeader : FightTask Ballot := do
  let order ← pairs (← Program.getState).playerLst.keys
  order.foldlM (fun ballot uid ↦ do
    let fight ← Program.getState
    voteFor ballot uid (fight.odds uid)) { maxOdds := -1, maxRankNum := 0, leader := none }

/-- What the election leaves of a player's odds: the banker keeps at least one, the others none. -/
def Player.resetOdds (isElected : Bool) (player : Player) : Player :=
  { player with
    odds := if isElected then (if player.odds = 0 then 1 else player.odds) else 0
    sendOdds := false }

/-- One turn of the loop that looks for new bids: a player who has bid and has not been shown is
noted, and a player without a bid keeps the phase open. -/
def markBidder (marked : List ℕ × Bool) (uid : ℕ) : FightTask (List ℕ × Bool) := do
  let fight ← Program.getState
  match fight.getPlayer uid with
  | some player =>
    if player.odds ≠ 0 ∧ player.sendOdds = false then
      Program.modifyState fun fight ↦
        fight.updatePlayer uid fun player ↦ { player with sendUserOdds := true }
      return (marked.1 ++ [uid], marked.2 && player.odds != 0)
    else return (marked.1, marked.2 && player.odds != 0)
  | none => return marked

/-- Show the new bids, if there are any. -/
def showBids (notifyUserLst : List ℕ) : FightTask Unit :=
  if notifyUserLst.length > 0 then sendUserOdds notifyUserLst else return ()

/-- The new banker: the odds of the other players are cleared for their choice. -/
def installLeader (leader : ℕ) : FightTask Unit := do
  Program.modifyState fun fight ↦
    { fight.updatePlayer leader fun player ↦ { player with isLeader := true } with
      roomLeader := some leader }
  let order ← pairs (← Program.getState).playerLst.keys
  Program.forEach order fun uid ↦
    Program.modifyState fun fight ↦ fight.updatePlayer uid (Player.resetOdds (uid = leader))
  Program.modifyState fun fight ↦ { fight with roomStatus := .selectOdds }
  updateGameProcess

/-- `checkStatus`, in the election phase: show the bids, and elect the banker when everyone has bid
or the time is over. -/
def checkAskLeader : FightTask Unit := do
  let fight ← Program.getState
  if fight.roomStatus = .askLeader then
    let order ← pairs fight.playerLst.keys
    let marked ← order.foldlM markBidder ([], true)
    showBids marked.1
    if ← phaseEnds marked.2 .askLeader then
      let now ← osTime
      Program.modifyState fun fight ↦ { fight with statusBegin := now }
      let ballot ← electLeader
      match ballot.leader with
      | none => .fail .indexNil
      | some leader => installLeader leader
    else return ()
  else return ()

/-- A player who has not chosen his odds: zero, and he is not the banker. -/
def Player.oddsUnset (player : Player) : Bool := player.odds = 0 ∧ player.isLeader = false

/-- A player who has not chosen gets odds five. -/
def chooseDefault (uid : ℕ) (unset : Bool) : FightTask Unit :=
  if unset then
    Program.modifyState fun fight ↦ fight.updatePlayer uid fun player ↦ { player with odds := 5 }
  else return ()

/-- One turn of the loop that ends the choice of odds: a player who has not chosen gets odds
five, and every player gets his last card. -/
def dealLastCard (notifyUserLst : List ℕ) (uid : ℕ) : FightTask (List ℕ) := do
  let fight ← Program.getState
  match fight.getPlayer uid with
  | some player =>
    chooseDefault uid player.oddsUnset
    getCardFromCardLst uid 1
    return if player.oddsUnset then notifyUserLst ++ [uid] else notifyUserLst
  | none => return notifyUserLst

/-- `checkStatus`, in the phase that selects the odds: deal the last card when everyone has chosen
or the time is over. -/
def checkSelectOdds : FightTask Unit := do
  let fight ← Program.getState
  if fight.roomStatus = .selectOdds then
    let goNextStatus : Bool := ∀ uid ∈ fight.playerLst.keys, fight.odds uid ≠ 0
    if ← phaseEnds goNextStatus .selectOdds then
      let order ← pairs (← Program.getState).playerLst.keys
      let notifyUserLst ← order.foldlM dealLastCard []
      sendUserOdds notifyUserLst
      enterStatus .gameEnd
      updateGameProcess
    else return ()
  else return ()

/-- `checkStatus`, in the last phase: settle, store and show the result when everyone has shown
his hand or the time is over. The result is false when the game is over. -/
def checkGameEnd : FightTask Bool := do
  let fight ← Program.getState
  if fight.roomStatus = .gameEnd then
    let goNextStatus : Bool :=
      ∀ uid ∈ fight.playerLst.keys, (fight.getPlayer uid).map Player.handCardReady = some true
    if ← phaseEnds goNextStatus .gameEnd then
      let order ← pairs (← Program.getState).playerLst.keys
      Program.tryModify (I := skynet) (Fight.settle order)
      let result ← saveResults
      showResult result
      return false
    else return true
  else return true

/-- `checkStatus`: the phases in their order, and the timer for the next turn unless the game is
over. -/
def checkStatus : FightTask Unit := do
  if ← checkReady then
    checkAskLeader
    checkSelectOdds
    if ← checkGameEnd then
      Program.spawn (I := skynet) .timer
    else return ()
  else return ()

/-! ### Messages -/

/-- The deck of a new game. -/
def deck : List ℤ := (List.range' 1 52).map Int.ofNat

/-- One exchange of the shuffle: the card at a place changes places with the card at a random
place, both counted from one. -/
def swapCards (cardLst : List ℤ) (place rankNum : ℕ) : List ℤ :=
  match cardLst[place - 1]?, cardLst[rankNum - 1]? with
  | some card, some other => (cardLst.set (place - 1) other).set (rankNum - 1) card
  | _, _ => cardLst

/-- `onShuffle`: exchange every card with a random one, then deal four cards to every player. -/
def onShuffle : FightTask Unit := do
  let places := List.range' 1 (← Program.getState).cardLst.length
  Program.forEach places fun place ↦ do
    let rankNum ← mathRandom 52
    Program.modifyState fun fight ↦
      { fight with cardLst := swapCards fight.cardLst place rankNum.toNat }
  let order ← pairs (← Program.getState).playerLst.keys
  Program.forEach order fun uid ↦ getCardFromCardLst uid 4

/-- One turn of the loop that makes the records of a new game. -/
def addPlayer (room : RoomInfo) (players : Table Player) (key : ℕ) : Table Player :=
  match room.playerLst.lookup key with
  | some player => players.insert player.uid (initRoomPlayer player)
  | none => players

/-- The players of a new game, along a traversal of the room. -/
def initPlayers (room : RoomInfo) (order : List ℕ) : Table Player :=
  order.foldl (addPlayer room) ∅

/-- `onStart`: a new game for a room. -/
def onStart (roomInfo : RoomInfo) : FightTask Unit := do
  let order ← pairs roomInfo.playerLst.keys
  let now ← osTime
  Program.modifyState fun fight ↦
    { fight with
      cardLst := deck
      room := some roomInfo
      roomLeader := none
      roomStatus := .ready
      playerLst := initPlayers roomInfo order
      statusBegin := now }
  updateGameProcess
  call .sleep
  onShuffle
  checkStatus

/-- `get_leader_limit`. -/
def getLeaderLimit : List ℤ := [0, 1, 2, 3, 4]

/-- `set_odds_limit`. -/
def setOddsLimit : List ℤ := [5, 10, 15, 20, 25]

/-- `onGetLeader`: a bid for the bank. A message without odds raises. -/
def onGetLeader (uid : ℕ) (odds : Option ℤ) : FightTask Unit := do
  let fight ← Program.getState
  if fight.roomStatus ≠ .askLeader then return ()
  else
    match odds with
    | none => .fail .compareNil
    | some odds =>
      match fight.getPlayer uid with
      | some _ =>
        if odds ∈ getLeaderLimit then
          Program.modifyState fun fight ↦
            fight.updatePlayer uid fun player ↦ { player with odds := odds }
          sendUserOdds [uid]
        else return ()
      | none => return ()

/-- The choice of odds that `onSetOdds` considers: in the phase that selects the odds, of a player
of the game, and one of the limits. -/
def Fight.considersOdds (fight : Fight) (uid : ℕ) (odds : ℤ) : Bool :=
  fight.roomStatus = .selectOdds ∧ uid ∈ fight.playerLst.keys ∧ odds ∈ setOddsLimit

/-- `onSetOdds`: a player other than the banker chooses his odds. A message without odds raises. -/
def onSetOdds (uid : ℕ) (odds : Option ℤ) : FightTask Unit := do
  match odds with
  | none => .fail .concatNil
  | some odds =>
    let fight ← Program.getState
    if fight.considersOdds uid odds then
      match fight.roomLeader with
      | none => .fail .indexNil
      | some leader =>
        if leader = uid then return ()
        else
          Program.modifyState fun fight ↦
            fight.updatePlayer uid fun player ↦ { player with odds := odds }
          sendUserOdds [uid]
    else return ()

/-- `onPackCard`: a player shows his hand. -/
def onPackCard (uid : ℕ) (retCardLst : Option (List ℤ)) : FightTask Unit := do
  match retCardLst with
  | none => return ()
  | some _ =>
    let fight ← Program.getState
    match fight.getPlayer uid with
    | some _ =>
      Program.modifyState fun fight ↦
        fight.updatePlayer uid fun player ↦ { player with handCardReady := true }
      sendUserOdds [uid]
    | none => return ()

/-- `onKickOut`: a player has left the room. -/
def onKickOut (uid : ℕ) : FightTask Unit := do
  let room ← getRoom
  Program.modifyState fun fight ↦ { fight with room := some (room.removePlayer uid) }
  call (.unlockRoom room.roomId)

/-! ### The service -/

/-- The message or the timer a coroutine serves. -/
inductive Handler
  | onStart (roomInfo : RoomInfo)
  | checkStatus
  | onGetLeader (uid : ℕ) (odds : Option ℤ)
  | onSetOdds (uid : ℕ) (odds : Option ℤ)
  | onPackCard (uid : ℕ) (retCardLst : Option (List ℤ))
  | onKickOut (uid : ℕ)

/-- A coroutine of the service: what it serves and where it waits. -/
structure Point where
  handler : Handler
  call : Call

/-- The coroutine that waits at a call, or that is started by the timer of `checkStatus`. -/
def Handler.at (handler : Handler) : Call → Point
  | .timer => ⟨.checkStatus, .start⟩
  | call => ⟨handler, call⟩

/-- What a handler does. -/
def Handler.body : Handler → FightTask Unit
  | .onStart roomInfo => Douniu.onStart roomInfo
  | .checkStatus => Douniu.checkStatus
  | .onGetLeader uid odds => Douniu.onGetLeader uid odds
  | .onSetOdds uid odds => Douniu.onSetOdds uid odds
  | .onPackCard uid retCardLst => Douniu.onPackCard uid retCardLst
  | .onKickOut uid => Douniu.onKickOut uid

/-- The messages of the clients and of the lobby during a game. -/
def Handler.isMessage : Handler → Bool
  | .onStart _ => false
  | .checkStatus => false
  | _ => true

/-- A fight service while a game runs: messages of the players and the lobby arrive at any time. -/
def fightService : System skynet Point Fight where
  entry := fun point ↦ point.handler.body.embed (.relabel point.handler.at)
  arrives := fun point ↦ point.handler.isMessage && point.call = .start

/-- The service when the lobby has sent `onStart`, whatever an earlier game has left. -/
def beforeGame (fight : Fight) (roomInfo : RoomInfo) : Configuration skynet Point Fight where
  state := fight
  threads := [fightService.start ⟨.onStart roomInfo, .start⟩]
  errors := []

end SvrDemo.Douniu
