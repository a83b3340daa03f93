import SvrDemo.Douniu.FightSeats
import SvrDemo.Douniu.Hall
import SvrDemo.Douniu.LobbySections

/-!
# What one section of the hall does

A section of a coroutine does at most one of the things that `Did` lists: it makes a room, seats or unseats a
player, unlocks a room, starts a fight service or a game, locks a room, or tells an agent its fight. Whatever
else it does is `Calm`. What it leaves waiting is one of the ways of `Left`; the places of `startGame` and
those of the turns of a game are told apart by the functions of the first part.

`hallContract` is the contract of these. With `linked`, `startGame` goes on to the call of `onStart` only when
it has told the agent of every player of the room the fight service of the room; for this it relies on nobody
entering the room meanwhile, and on the table of the players getting no new keys.
-/

set_option autoImplicit false
set_option relaxedAutoImplicit false

namespace SvrDemo.Douniu

open Coroutine Lua Skynet

/-! ### Places -/

namespace Served

/-- A coroutine of `matchLoop`. -/
def isMatch : Served → Bool
  | ⟨.matchLoop, _⟩ => true
  | _ => false

/-- The fight service whose game has its next turn here. -/
def live : Served → Option ℕ
  | ⟨.checkStatus fight, .start⟩ => some fight
  | ⟨.checkStatus fight, .fight (.waits _)⟩ => some fight
  | ⟨.matchLoop, .inFight (.onStart fight _ _) (.handler (.waits _))⟩ => some fight
  | _ => none

/-- The room whose game `startGame` starts, and the fight service that it hands out. -/
def starts : Served → Option (ℕ × Option ℕ)
  | ⟨.matchLoop, .lobby (.waits (.newService room))⟩ => some (room, none)
  | ⟨.matchLoop, .lobby (.waits (.setFight room _ fight))⟩ => some (room, fight)
  | ⟨.matchLoop, .lobby (.handled (.setFight room _ fight))⟩ => some (room, fight)
  | ⟨.matchLoop, .inFight (.onStart fight room _) _⟩ => some (room, some fight)
  | _ => none

/-- The room in which `startGame` tells the agents their fight. -/
def telling : Served → Option ℕ
  | ⟨.matchLoop, .lobby (.waits (.setFight room _ _))⟩ => some room
  | ⟨.matchLoop, .lobby (.handled (.setFight room _ _))⟩ => some room
  | _ => none

/-- The call of `onStart` that is on its way: the fight service, the room and its copy. -/
def calls : Served → Option (ℕ × ℕ × RoomInfo)
  | ⟨.matchLoop, .inFight (.onStart fight room roomInfo) .request⟩ => some (fight, room, roomInfo)
  | _ => none

/-- The room whose `onStart` has been taken up and has not been answered, and its fight service. -/
def running : Served → Option (ℕ × ℕ)
  | ⟨.matchLoop, .inFight (.onStart fight room _) (.handler _)⟩ => some (room, fight)
  | ⟨.matchLoop, .inFight (.onStart fight room _) (.reply _)⟩ => some (room, fight)
  | _ => none

/-- A section may do nothing here: it takes up no call of `onStart`, and no answer of it. -/
def idle : Served → Bool
  | ⟨.matchLoop, .inFight (.onStart _ _ _) .request⟩ => false
  | ⟨.matchLoop, .inFight (.onStart _ _ _) (.reply true)⟩ => false
  | _ => true

/-- A pass of `matchLoop` goes on here to its next room. -/
inductive Passes : Served → Prop
  | start : Passes ⟨.matchLoop, .start⟩
  | started (fight room : ℕ) (roomInfo : RoomInfo) :
      Passes ⟨.matchLoop, .inFight (.onStart fight room roomInfo) (.reply true)⟩

/-- The room that the lobby is asked to unlock. -/
def unlocks : Served → Option ℕ
  | ⟨_, .fight (.unlockRequest roomId)⟩ => some roomId
  | ⟨_, .inFight _ (.handler (.unlockRequest roomId))⟩ => some roomId
  | _ => none

/-- The `set_fight` that an agent is sent: the room it is sent for, the agent and the fight service. -/
def tells : Served → Option (ℕ × ℕ × Option ℕ)
  | ⟨_, .lobby (.waits (.setFight room agent fight))⟩ => some (room, agent, fight)
  | ⟨_, .fight (.unlock (.waits (.setFight room agent fight)))⟩ => some (room, agent, fight)
  | ⟨_, .inFight _ (.handler (.unlock (.waits (.setFight room agent fight))))⟩ => some (room, agent, fight)
  | _ => none

/-- Where a coroutine may start. -/
def isEntry : Served → Bool
  | ⟨.playerMessage _ handler, .start⟩ => handler.isFromClient
  | ⟨_, .start⟩ => true
  | _ => false

end Served

/-- The requests that neither start games nor run them. -/
def Request.isPlain : Request → Bool
  | .matchLoop | .checkStatus _ => false
  | _ => true

/-- A coroutine at a point may wait next at a place: it serves the same request there, and it does not go
back to an earlier part of a start or of a game. -/
structure Under (point place : Served) : Prop where
  request : place.request = point.request
  starts : place.starts = none ∨ place.starts = point.starts
  live : place.live = none ∨ place.live = point.live
  running : place.running = none ∨ place.running = point.running
  telling : place.telling = none ∨ place.telling = point.telling
  calls : place.calls = none
  idle : point.idle = true

/-- The places of a plain request are not told apart. -/
theorem under_of_plain {request : Request} (hplain : request.isPlain = true) (place place' : Place) :
    Under ⟨request, place⟩ ⟨request, place'⟩ := by
  cases request with
  | matchLoop => exact nomatch hplain
  | checkStatus fight => exact nomatch hplain
  | _ => exact ⟨rfl, .inl rfl, .inl rfl, .inl rfl, .inl rfl, rfl, rfl⟩

/-! ### States -/

/-- The lobby has a room in `room_queue` that waits for its game. -/
def Lobby.Waiting (lobby : Lobby) (room : ℕ) : Prop :=
  ∃ key, lobby.roomQueue.lookup key = some room ∧ (lobby.rooms room).status = 0

/-- The agent of every player of a room has been told a fight service. -/
def Hall.Told (hall : Hall) (room fight : ℕ) : Prop :=
  ∀ key player, (hall.lobby.players room).lookup key = some player →
    ∃ agent, player.agent = some agent ∧ fight ∈ (hall.agents agent).offered

/-- What a section does on top: it leaves the lobby as it is, keeps the players and the room of every fight,
and at most adds to what the agents have been given. -/
structure Calm (target last : Hall) : Prop where
  lobby : last.lobby = target.lobby
  fightCnt : last.fightCnt = target.fightCnt
  fights : ∀ fight, KeepsSeats (target.fights fight) (last.fights fight)
  offered : ∀ agent, (last.agents agent).offered = (target.agents agent).offered
  given : ∀ agent, (target.agents agent).given ⊆ (last.agents agent).given

theorem Calm.refl (hall : Hall) : Calm hall hall :=
  ⟨rfl, rfl, fun _ ↦ .refl _, fun _ ↦ rfl, fun _ ↦ List.Subset.refl _⟩

theorem Calm.trans {first middle last : Hall} (h : Calm first middle) (h' : Calm middle last) :
    Calm first last where
  lobby := h'.lobby.trans h.lobby
  fightCnt := h'.fightCnt.trans h.fightCnt
  fights fight := (h.fights fight).trans (h'.fights fight)
  offered agent := (h'.offered agent).trans (h.offered agent)
  given agent := List.Subset.trans (h.given agent) (h'.given agent)

/-- A change of one fight service that keeps its players and its room. -/
theorem Calm.of_fight (hall : Hall) {fight : ℕ} {part : Fight} (hkeeps : KeepsSeats (hall.fights fight) part) :
    Calm hall { hall with fights := Function.update hall.fights fight part } where
  lobby := rfl
  fightCnt := rfl
  fights other := by
    by_cases hother : other = fight
    · subst hother
      simpa using hkeeps
    · simpa [Function.update_of_ne hother] using KeepsSeats.refl _
  offered _ := rfl
  given _ := List.Subset.refl _

/-- A change of one agent that offers it nothing and takes nothing from it. -/
theorem Calm.of_agent (hall : Hall) {agent : ℕ} {change : Agent → Agent}
    (hoffered : (change (hall.agents agent)).offered = (hall.agents agent).offered)
    (hgiven : (hall.agents agent).given ⊆ (change (hall.agents agent)).given) :
    Calm hall (hall.updateAgent agent change) where
  lobby := rfl
  fightCnt := rfl
  fights _ := .refl _
  offered other := by
    by_cases hother : other = agent
    · subst hother
      simpa [Hall.updateAgent] using hoffered
    · simp [Hall.updateAgent, hother]
  given other := by
    by_cases hother : other = agent
    · subst hother
      simpa [Hall.updateAgent] using hgiven
    · simp [Hall.updateAgent, hother]

/-- A pass over the rooms that are not due: rooms that wait for their game may lose their fight service, and
rooms without players are deleted. -/
structure Swept (origin last : Lobby) : Prop extends Kept origin last where
  status : ∀ room, (last.rooms room).status = (origin.rooms room).status
  fightIns : ∀ room, (last.rooms room).fightIns = (origin.rooms room).fightIns ∨
    (origin.rooms room).status = 0 ∧ (last.rooms room).fightIns = none

theorem Swept.refl (lobby : Lobby) : Swept lobby lobby :=
  ⟨.refl lobby, fun _ ↦ rfl, fun _ ↦ .inl rfl⟩

theorem Swept.trans {first middle last : Lobby} (h : Swept first middle) (h' : Swept middle last) :
    Swept first last where
  toKept := h.toKept.trans h'.toKept
  status room := (h'.status room).trans (h.status room)
  fightIns room := by
    rcases h'.fightIns room with hsame | ⟨hstatus, hnone⟩
    · rw [hsame]
      exact h.fightIns room
    · exact .inr ⟨(h.status room).symm.trans hstatus, hnone⟩

/-! ### Effects -/

/-- What a section changes, from what it has heard. -/
inductive Did (point : Served) (origin : Hall) (heard : List Answer) : Hall → Prop
  | nothing (idle : point.idle = true) : Did point origin heard origin
  | created {agent : ℕ} {odds : Option LuaInt} {player : RoomPlayer} (now : ℤ)
      (takes : point = ⟨.createRoom agent odds, .request⟩) (known : player.agent = some agent) :
      Did point origin heard
        { origin with lobby := origin.lobby.addRoom odds (Finmap.singleton 1 player) now }
  | entered {agent room : ℕ} {player : RoomPlayer} {reply : Answer} {order : List ℕ}
      {answers : List Answer} {middle : Lobby} (takes : point = ⟨.enterRoom agent, .request⟩)
      (known : player.agent = some agent) (hears : heard = reply :: .order order :: answers)
      (isOrder : IsOrder order origin.lobby.roomQueue.keys)
      (takesRoom : RoomFor origin.lobby order room middle) :
      Did point origin heard { origin with lobby := middle.seat room player }
  | departed {roomId uid room : ℕ} {reply : Answer} {order : List ℕ} {answers : List Answer}
      (takes : point.place = .leaveRequest roomId uid) (hears : heard = reply :: .order order :: answers)
      (finds : origin.lobby.findId order roomId = some room) :
      Did point origin heard { origin with lobby := origin.lobby.unseat room uid }
  | unlocked {roomId room : ℕ} (now : ℤ) (takes : point.unlocks = some roomId)
      (finds : origin.lobby.roomQueue.lookup roomId = some room) :
      Did point origin heard { origin with
        lobby := origin.lobby.updateRoom room fun roomInfo ↦
          { roomInfo with status := 0, roomBeginTs := now } }
  | told {room agent : ℕ} {fight : Option ℕ} (takes : point.tells = some (room, agent, fight)) :
      Did point origin heard (origin.updateAgent agent (Agent.setFight fight))
  | ensured {room : ℕ} (takes : point = ⟨.matchLoop, .lobby (.waits (.newService room))⟩) :
      Did point origin heard { origin with
        lobby := origin.lobby.updateRoom room fun roomInfo ↦
          { roomInfo with fightIns := some origin.fightCnt }
        fightCnt := origin.fightCnt + 1 }
  | opened {fight room : ℕ} {roomInfo : RoomInfo} {order : List ℕ} (now : ℤ)
      (takes : point.calls = some (fight, room, roomInfo)) (isOrder : IsOrder order roomInfo.playerLst.keys) :
      Did point origin heard { origin with
        fights := Function.update origin.fights fight
          (newGame (origin.fights fight) roomInfo order now) }
  | passed {lobby : Lobby} (takes : point = ⟨.matchLoop, .start⟩) (swept : Swept origin.lobby lobby) :
      Did point origin heard { origin with lobby := lobby }
  | locked {fight room : ℕ} {roomInfo : RoomInfo} {lobby : Lobby}
      (takes : point = ⟨.matchLoop, .inFight (.onStart fight room roomInfo) (.reply true)⟩)
      (swept : Swept (origin.lobby.updateRoom room fun roomInfo ↦ { roomInfo with status := 1 }) lobby) :
      Did point origin heard { origin with lobby := lobby }

/-- What a section does: at most one thing, and what is calm. -/
def Does (point : Served) (origin : Hall) (heard : List Answer) (last : Hall) : Prop :=
  ∃ target, Did point origin heard target ∧ Calm target last

/-- A section in which `startGame` may go on with a room: a pass has come to the room, the fight service of
the room has been started, or an agent has answered `set_fight`. -/
inductive Leads (last : Hall) (room : ℕ) : Served → Prop
  | passes {point : Served} (passes : point.Passes) (waiting : last.lobby.Waiting room) :
      Leads last room point
  | ensured : Leads last room ⟨.matchLoop, .lobby (.waits (.newService room))⟩
  | told (agent : ℕ) (fight : Option ℕ) :
      Leads last room ⟨.matchLoop, .lobby (.handled (.setFight room agent fight))⟩

/-- What a section leaves waiting. -/
inductive Left (linked : Prop) (point : Served) (last : Hall) : List Served → Prop
  | ends : Left linked point last []
  | goes (place : Served) (under : Under point place) : Left linked point last [place]
  | timer {fight : ℕ} (request : point.request = .checkStatus fight) (live : point.live = some fight) :
      Left linked point last [⟨.checkStatus fight, .start⟩]
  | opens {fight room : ℕ} {roomInfo : RoomInfo} (stage : FightStage)
      (takes : point.calls = some (fight, room, roomInfo)) :
      Left linked point last [⟨.matchLoop, .inFight (.onStart fight room roomInfo) (.handler stage)⟩]
  | fails {fight room : ℕ} {roomInfo : RoomInfo} (ok : Bool)
      (takes : point.calls = some (fight, room, roomInfo)) :
      Left linked point last [⟨.matchLoop, .inFight (.onStart fight room roomInfo) (.reply ok)⟩]
  | started {fight room : ℕ} {roomInfo : RoomInfo}
      (takes : point.calls = some (fight, room, roomInfo) ∨
        point.running = some (room, fight) ∧ point.live = some fight) :
      Left linked point last [⟨.checkStatus fight, .start⟩,
        ⟨.matchLoop, .inFight (.onStart fight room roomInfo) (.reply true)⟩]
  | nextPass (passes : point.Passes) : Left linked point last [⟨.matchLoop, .start⟩]
  | newService {room : ℕ} (passes : point.Passes) (waiting : last.lobby.Waiting room) :
      Left linked point last [⟨.matchLoop, .lobby (.waits (.newService room))⟩]
  | tells {room : ℕ} (agent : ℕ) (leads : Leads last room point) :
      Left linked point last
        [⟨.matchLoop, .lobby (.waits (.setFight room agent (last.lobby.rooms room).fightIns))⟩]
  | calls {room fight : ℕ} (leads : Leads last room point)
      (fightIns : (last.lobby.rooms room).fightIns = some fight)
      (told : linked → last.Told room fight) :
      Left linked point last
        [⟨.matchLoop, .inFight (.onStart fight room (last.lobby.rooms room)) .request⟩]

/-- What `startGame` relies on while it tells the agents of a room their fight: the fight service of the room
stays, nobody enters the room, its `player_lst` is not assigned a new key, and an agent keeps what it has been
offered. -/
structure Relies (room : ℕ) (first last : Hall) : Prop where
  fightIns : (last.lobby.rooms room).fightIns = (first.lobby.rooms room).fightIns
  players : ∀ key player, (last.lobby.players room).lookup key = some player →
    (first.lobby.players room).lookup key = some player
  layout : (last.lobby.rooms room).layout = (first.lobby.rooms room).layout
  offered : ∀ agent, (first.agents agent).offered ⊆ (last.agents agent).offered

theorem Relies.refl (room : ℕ) (hall : Hall) : Relies room hall hall :=
  ⟨rfl, fun _ _ h ↦ h, rfl, fun _ ↦ List.Subset.refl _⟩

theorem Relies.trans {room : ℕ} {first middle last : Hall} (h : Relies room first middle)
    (h' : Relies room middle last) : Relies room first last where
  fightIns := h'.fightIns.trans h.fightIns
  players key player hplayer := h.players key player (h'.players key player hplayer)
  layout := h'.layout.trans h.layout
  offered agent := List.Subset.trans (h.offered agent) (h'.offered agent)

/-! ### The contract -/

/-- The contract of the hall. -/
def hallContract (linked : Prop) : Contract skynet Served Hall where
  rely := fun point first last ↦ linked → ∀ room, point.telling = some room → Relies room first last
  guar := fun point origin heard left last ↦
    Does point origin heard last ∧ Left linked point last left
  pre := fun point _ ↦ point.isEntry = true
  err := fun _ ↦ True

section SoFar

variable {linked : Prop} {current : Section skynet Served Hall} {hall : Hall}

/-- A section that has done one thing so far. -/
structure SoFar (current : Section skynet Served Hall) (hall : Hall) : Prop where
  forks : current.forks = []
  did : Does current.point current.origin current.heard hall

theorem Did.hear {point : Served} {origin target : Hall} {heard : List Answer}
    (h : Did point origin heard target) (answer : Answer) : Did point origin (heard ++ [answer]) target := by
  cases h with
  | nothing idle => exact .nothing idle
  | created now takes known => exact .created now takes known
  | entered takes known hears isOrder takesRoom =>
    exact .entered takes known (by rw [hears, List.cons_append, List.cons_append]) isOrder takesRoom
  | departed takes hears finds =>
    exact .departed takes (by rw [hears, List.cons_append, List.cons_append]) finds
  | unlocked now takes finds => exact .unlocked now takes finds
  | told takes => exact .told takes
  | ensured takes => exact .ensured takes
  | opened now takes isOrder => exact .opened now takes isOrder
  | passed takes swept => exact .passed takes swept
  | locked takes swept => exact .locked takes swept

/-- A section that has just begun. -/
theorem soFar_fresh {point : Served} (hidle : point.idle = true) (hall : Hall) (heard : List Answer) :
    SoFar ⟨point, hall, heard, []⟩ hall :=
  ⟨rfl, hall, .nothing hidle, .refl hall⟩

/-- A section that has done something. -/
theorem SoFar.of_did {point : Served} {origin : Hall} {heard : List Answer}
    (hdid : Did point origin heard hall) : SoFar ⟨point, origin, heard, []⟩ hall :=
  ⟨rfl, hall, hdid, .refl hall⟩

theorem SoFar.hear (h : SoFar current hall) (answer : Answer) :
    SoFar { current with heard := current.heard ++ [answer] } hall := by
  obtain ⟨hforks, target, hdid, hcalm⟩ := h
  exact ⟨hforks, target, hdid.hear answer, hcalm⟩

theorem SoFar.andThen (h : SoFar current hall) {last : Hall} (hcalm : Calm hall last) :
    SoFar current last := by
  obtain ⟨hforks, target, hdid, hfirst⟩ := h
  exact ⟨hforks, target, hdid, hfirst.trans hcalm⟩

/-- The end of a section that starts no coroutine. -/
theorem SoFar.leaves (h : SoFar current hall) {left : List Served}
    (hleft : Left linked current.point hall left) : (hallContract linked).Ends current left hall := by
  refine ⟨⟨h.did, hleft⟩, fun point hpoint ↦ ?_⟩
  rw [h.forks] at hpoint
  exact absurd hpoint List.not_mem_nil

/-- A section may wait at a place under its point. -/
theorem SoFar.goes (h : SoFar current hall) {place : Served} (hunder : Under current.point place) :
    (hallContract linked).Ends current (current.forks ++ [place]) hall := by
  rw [h.forks]
  exact h.leaves (.goes place hunder)

theorem SoFar.done (h : SoFar current hall) : (hallContract linked).Ends current current.forks hall := by
  rw [h.forks]
  exact h.leaves .ends

end SoFar

end SvrDemo.Douniu
