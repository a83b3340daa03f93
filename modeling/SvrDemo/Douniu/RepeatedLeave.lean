import SvrDemo.Douniu.LeaveCall
import SvrDemo.Douniu.OneGame

/-!
# A player who has already left

`leave_room` does not look whether the player is in the room. It calls `onKickOut` of the fight service of the
room, which assigns `nil` to the key of the player in its copy of the room and has the lobby unlock the room of the
copy, and the lobby tells all players of that room that they have no fight any more. So a repeated `leave_room`,
and the one of `CMD.disconnect` after an explicit one, unlocks the room of a game that others play.

The turns of such a call are watched one by one, with whatever may happen between them. They leave the rooms, the
fights and the other agents as they are exactly when no fight service that has got its room takes `onKickOut` up.
-/

set_option autoImplicit false
set_option relaxedAutoImplicit false

namespace SvrDemo.Douniu

open Coroutine Lua Skynet

/-! ### What a turn leaves as it is -/

/-- The status and the time of every room, the fight services that the other agents have, and the fights are as
they were, down to the keys of the tables that a fight traverses. -/
structure Harmless (agent : ℕ) (origin last : Hall) : Prop where
  status : ∀ room, (last.lobby.rooms room).status = (origin.lobby.rooms room).status
  roomBeginTs : ∀ room, (last.lobby.rooms room).roomBeginTs = (origin.lobby.rooms room).roomBeginTs
  fightIns : ∀ other, other ≠ agent →
    (last.agents other).room.bind RoomInfo.fightIns = (origin.agents other).room.bind RoomInfo.fightIns
  fights : last.fights = origin.fights

/-- The fight service that is asked to kick a player out. -/
def Served.kicks : Served → Option ℕ
  | ⟨_, .inFight (.onKickOut fight _) .request⟩ => some fight
  | _ => none

/-- A fight service that takes `onKickOut` up has not got its room yet. -/
def Spares (point : Served) (origin : Hall) : Prop :=
  ∀ fight ∈ point.kicks, (origin.fights fight).room = none

/-- A place within the handler of a fight service. -/
def Served.inHandler : Served → Bool
  | ⟨_, .inFight _ (.handler _)⟩ => true
  | _ => false

theorem Served.kicks_of_inHandler {point : Served} (h : point.inHandler = true) : point.kicks = none := by
  obtain ⟨request, place⟩ := point
  cases place with
  | inFight call stage =>
    cases stage with
    | handler stage => cases call <;> rfl
    | request => exact nomatch h
    | reply ok => exact nomatch h
  | _ => rfl

/-! ### Sections -/

/-- What a section of a call does. One that changes nothing has not kicked a player out, and one outside the handler
of the fight service that kicks nobody out changes nothing and does not get into the handler. -/
structure Treads (agent : ℕ) (point : Served) (origin : Hall) (left : List Served) (last : Hall) : Prop where
  kicks : Harmless agent origin last → Spares point origin
  keeps : point.inHandler = false → Spares point origin →
    Harmless agent origin last ∧ ∀ other ∈ left, other.inHandler = false

/-- The contract of a call. -/
def sparing (agent : ℕ) : Contract skynet Served Hall :=
  .stateless (fun _ ↦ True) fun point origin _ left last ↦ Treads agent point origin left last

/-- A section so far. -/
structure Even (agent : ℕ) (current : Section skynet Served Hall) (hall : Hall) : Prop where
  forks : current.forks = []
  kicks : Harmless agent current.origin hall → Spares current.point current.origin
  keeps : current.point.inHandler = false → Spares current.point current.origin →
    Harmless agent current.origin hall

/-- A section after a player has been kicked out. -/
structure Kicked (agent : ℕ) (current : Section skynet Served Hall) (hall : Hall) : Prop where
  forks : current.forks = []
  kicks : Harmless agent current.origin hall → Spares current.point current.origin
  kicked : current.point.inHandler = false → ¬ Spares current.point current.origin

section Sections

variable {agent : ℕ} {current : Section skynet Served Hall} {hall last : Hall} {point : Served}
  {heard : List Answer} {request : Request} {raised : LuaError → Section skynet Served Hall → Hall → Prop}

theorem Harmless.refl (agent : ℕ) (hall : Hall) : Harmless agent hall hall :=
  ⟨fun _ ↦ rfl, fun _ ↦ rfl, fun _ _ ↦ rfl, rfl⟩

theorem spares_of_kicks_eq_none (h : point.kicks = none) (hall : Hall) : Spares point hall :=
  fun _ hfight ↦ nomatch h.symm.trans hfight

namespace Even

/-- A section begins at a place where nobody is kicked out. -/
theorem fresh (hkicks : point.kicks = none) (hall : Hall) (heard : List Answer) :
    Even agent ⟨point, hall, heard, []⟩ hall :=
  ⟨rfl, fun _ ↦ spares_of_kicks_eq_none hkicks hall, fun _ _ ↦ .refl agent hall⟩

theorem hear (h : Even agent current hall) (answer : Answer) :
    Even agent { current with heard := current.heard ++ [answer] } hall :=
  ⟨h.forks, h.kicks, h.keeps⟩

/-- A section goes on with a change of what it may change. -/
theorem change (h : Even agent current hall)
    (hback : Harmless agent current.origin last → Harmless agent current.origin hall)
    (hforth : Harmless agent current.origin hall → Harmless agent current.origin last) : Even agent current last :=
  ⟨h.forks, fun hlast ↦ h.kicks (hback hlast), fun hout hspares ↦ hforth (h.keeps hout hspares)⟩

theorem ends (h : Even agent current hall) {left : List Served} (hleft : ∀ other ∈ left, other.inHandler = false) :
    (sparing agent).Ends current left hall :=
  ⟨⟨h.kicks, fun hout hspares ↦ ⟨h.keeps hout hspares, hleft⟩⟩, fun _ _ ↦ trivial⟩

theorem done (h : Even agent current hall) : (sparing agent).Ends current current.forks hall :=
  h.ends fun _ hother ↦ nomatch h.forks ▸ hother

/-- A section waits outside the handler. -/
theorem wp_await (h : Even agent current hall) {place : Served} (hplace : place.inHandler = false)
    {post : Answer → Section skynet Served Hall → Hall → Prop}
    (hpost : ∀ reply later, post reply ⟨place, later, [reply], []⟩ later) :
    (Program.await (I := skynet) place : HallTask Answer).wp (sparing agent) post raised current hall := by
  refine ⟨h.ends fun other hother ↦ ?_, fun reply later _ ↦ hpost reply later⟩
  rw [h.forks] at hother
  exact List.mem_singleton.mp hother ▸ hplace

end Even

namespace Kicked

/-- In the handler of the fight service. -/
theorem inside (hpoint : point.inHandler = true) (origin hall : Hall) (heard : List Answer) :
    Kicked agent ⟨point, origin, heard, []⟩ hall :=
  ⟨rfl, fun _ ↦ spares_of_kicks_eq_none (Served.kicks_of_inHandler hpoint) _,
    fun hout ↦ nomatch hpoint.symm.trans hout⟩

theorem even (h : Kicked agent current hall) : Even agent current hall :=
  ⟨h.forks, h.kicks, fun hout hspares ↦ absurd hspares (h.kicked hout)⟩

/-- A section waits wherever it may. -/
theorem wp_await (h : Kicked agent current hall) {place : Served}
    {post : Answer → Section skynet Served Hall → Hall → Prop}
    (hpost : ∀ reply later, post reply ⟨place, later, [reply], []⟩ later) :
    (Program.await (I := skynet) place : HallTask Answer).wp (sparing agent) post raised current hall :=
  ⟨⟨⟨h.kicks, fun hout hspares ↦ absurd hspares (h.kicked hout)⟩, fun _ _ ↦ trivial⟩,
    fun reply later _ ↦ hpost reply later⟩

end Kicked

/-- A section within the handler of the fight service. -/
def Inside (current : Section skynet Served Hall) (_ : Hall) : Prop :=
  current.forks = [] ∧ current.point.inHandler = true

theorem Inside.kicked (h : Inside current hall) (last : Hall) : Kicked agent current last := by
  obtain ⟨point, origin, heard, forks⟩ := current
  obtain ⟨rfl, hpoint⟩ := h
  exact .inside hpoint origin last heard

/-- What becomes of a call of the lobby in an agent, while a fight service has the lobby unlock a room. -/
theorem inside_agentHandles {call : LobbyCall} (sent : LobbyCall) (h : Inside current hall) :
    (agentHandles request (fun place ↦ .inFight call (.handler (.unlock place))) sent).wp (sparing agent)
      (fun _ ↦ Inside) raised current hall := by
  have hsent : (Program.await (I := skynet) ⟨request, .inFight call (.handler (.unlock (.waits sent)))⟩ :
      HallTask Answer).wp (sparing agent) (fun _ ↦ Inside) raised current hall :=
    (h.kicked hall).wp_await fun _ _ ↦ ⟨rfl, rfl⟩
  cases sent with
  | setFight room other fight =>
    refine (Program.wp_bind _ _ _ _ _ _).mpr ((h.kicked hall).wp_await fun reply later ↦ ?_)
    have htold : ((do
        Program.modifyState fun hall ↦ hall.updateAgent other (Agent.setFight fight)
        let _ ← Program.await (I := skynet)
          ⟨request, .inFight call (.handler (.unlock (.handled (.setFight room other fight))))⟩
        return .ok) : HallTask Answer).wp (sparing agent) (fun _ ↦ Inside) raised
          ⟨⟨request, .inFight call (.handler (.unlock (.waits (.setFight room other fight))))⟩, later, [reply], []⟩
          later := by
      rw [Program.wp_bind, Program.wp_modifyState, Program.wp_bind]
      exact (Kicked.inside rfl later _ [reply]).wp_await fun _ _ ↦ ⟨rfl, rfl⟩
    cases reply with
    | raised => exact ⟨rfl, rfl⟩
    | number _ => exact htold
    | order _ => exact htold
    | ok => exact htold
  | _ => exact hsent

/-- `unlock_room`, as the handler of a fight service calls it. -/
theorem inside_callUnlock {call : LobbyCall} (roomId : ℕ) (h : Kicked agent current hall) :
    (callUnlock request (fun stage ↦ .inFight call (.handler stage)) roomId).wp (sparing agent)
      (fun _ ↦ Inside) raised current hall := by
  have hsteady : Steady (agentsOnly request fun place ↦ .inFight call (.handler (.unlock place))) (sparing agent)
      keeping (fun _ ↦ Inside) Inside :=
    { heard := fun _ _ _ h ↦ h
      change := fun _ _ _ _ h ↦ h
      wait := fun sent _ _ _ h ↦ inside_agentHandles sent h
      raise := fun _ _ _ _ h ↦ h }
  unfold callUnlock exchange
  rw [Program.wp_bind, Program.wp_bind]
  refine h.wp_await fun reply later ↦ ?_
  rw [Program.wp_bind, Program.wp_attempt]
  have hreply : ∀ (result : Except LuaError Unit) (current : Section skynet Served Hall) (hall : Hall),
      Inside current hall → ((do
        let _ ← Program.await (I := skynet) ⟨request, .inFight call (.handler (.unlockReply result.isOk))⟩
        return result : HallTask (Except LuaError Unit))).wp (sparing agent)
          (fun result ↦ (pure (replyOf result) : HallTask Answer).wp (sparing agent) (fun _ ↦ Inside) raised) raised
            current hall := fun _ _ hall h ↦
    (Program.wp_bind _ _ _ _ _ _).mpr ((h.kicked hall).wp_await fun _ _ ↦ ⟨rfl, rfl⟩)
  exact Program.wp_mono (fun value current hall h ↦ hreply (.ok value) current hall h)
    (fun error current hall h ↦ hreply (.error error) current hall h)
    (hsteady.wpIn (keeping_unlockRoom roomId) ⟨rfl, rfl⟩)

/-- A fight service that has got its room is changed when it takes a player out of it: the player is gone from the
table of the players, or the table has been assigned a key that it did not have. -/
theorem removePlayer_ne (room : RoomInfo) (uid : ℕ) : room.removePlayer uid ≠ room := by
  intro hsame
  have hlayout := congrArg RoomInfo.layout hsame
  have hkeys := congrArg (fun room ↦ room.playerLst.keys) hsame
  by_cases huid : uid ∈ room.playerLst.keys
  · have herased : (room.playerLst.erase uid).keys = room.playerLst.keys := hkeys
    rw [← herased] at huid
    simp at huid
  · simp [RoomInfo.removePlayer, huid] at hlayout

theorem kicked_onKickOut {fight uid : ℕ} {room : RoomInfo} (hroom : (hall.fights fight).room = some room)
    (reply : Answer) : Kicked agent ⟨⟨request, .inFight (.onKickOut fight uid) .request⟩, hall, [reply], []⟩
      { hall with fights := Function.update hall.fights fight
                    { hall.fights fight with room := some (room.removePlayer uid) } } where
  forks := rfl
  kicks h := by
    have hfights : Function.update hall.fights fight _ = hall.fights := h.fights
    have hkept := congrArg Fight.room (congrFun hfights fight)
    rw [Function.update_self, hroom] at hkept
    exact absurd (Option.some.inj hkept) (removePlayer_ne room uid)
  kicked _ hspares := nomatch hroom.symm.trans (hspares fight rfl)

/-- The lobby calls `onKickOut`. -/
theorem even_callOnKickOut (fight uid : ℕ) (h : Even agent current hall) :
    (lobbyHandles request (.onKickOut fight uid)).wp (sparing agent) (fun _ ↦ Even agent) raised
      current hall := by
  change (callFight request (.onKickOut fight uid) fight (onKickOut uid)).wp _ _ _ _ _
  unfold callFight exchange
  rw [Program.wp_bind, Program.wp_bind]
  refine h.wp_await rfl fun reply later ↦ ?_
  rw [Program.wp_bind, Program.wp_attempt]
  have hreply : ∀ (result : Except LuaError Unit) (current : Section skynet Served Hall) (hall : Hall),
      Even agent current hall → ((do
        let _ ← Program.await (I := skynet) ⟨request, .inFight (.onKickOut fight uid) (.reply result.isOk)⟩
        return result : HallTask (Except LuaError Unit))).wp (sparing agent)
          (fun result ↦ (pure (replyOf result) : HallTask Answer).wp (sparing agent) (fun _ ↦ Even agent) raised)
          raised current hall := fun _ _ _ h ↦
    (Program.wp_bind _ _ _ _ _ _).mpr (h.wp_await rfl fun answer last ↦ .fresh rfl last [answer])
  refine Program.wp_mono (fun value current hall h ↦ hreply (.ok value) current hall h)
    (fun error current hall h ↦ hreply (.error error) current hall h) ?_
  change (onKickOut uid).wpIn (inFightService request _ fight) _ _ _ _ _
  unfold onKickOut getRoom
  rw [Program.wpIn_bind, Program.wpIn_bind, Program.wpIn_getState]
  have hget : (inFightService request (fun stage ↦ .inFight (.onKickOut fight uid) (.handler stage))
      fight).get later = later.fights fight := rfl
  rw [hget]
  cases hroom : (later.fights fight).room with
  | none =>
    -- the fight service has not got `onStart`: the handler raises before it does anything
    refine ⟨rfl, fun _ other hother ↦ ?_, fun _ _ ↦ .refl agent later⟩
    obtain rfl := Option.some.inj hother
    exact hroom
  | some room =>
    dsimp only
    rw [Program.wpIn_pure, Program.wpIn_bind, Program.wpIn_modifyState]
    refine wpIn_call (Program.wp_mono (fun _ _ hall h ↦ ⟨(h.kicked hall).even, (h.kicked hall).even⟩)
      (fun _ _ _ h ↦ h) (inside_callUnlock room.roomId (kicked_onKickOut hroom reply)))

/-! ### `leave_room` -/

/-- The footprint of what follows the removal of the player: `onKickOut`, and `update_room_info`. -/
def leavesRoom : Footprint skynet LobbyCall Lobby where
  waits := fun call ↦ match call with
    | .sendPackCli _ _ | .onKickOut _ _ => True
    | _ => False
  changes := fun _ _ ↦ False
  raises := fun _ ↦ True

theorem within_address_leavesRoom (service : Option ℕ) {lobby : Lobby} :
    (address service).Within leavesRoom lobby := by
  cases service with
  | none => exact trivial
  | some _ => exact trivial

theorem steady_leavesRoom (request : Request) : Steady (inLobby request) (sparing agent) leavesRoom
    (fun _ ↦ Even agent) (Even agent) where
  heard _ _ answer h := h.hear answer
  change _ _ _ hchange _ := hchange.elim
  wait call current hall hcall h := by
    cases call with
    | onKickOut fight uid => exact even_callOnKickOut fight uid h
    | sendPackCli other info => exact h.wp_await rfl fun reply later ↦ .fresh rfl later [reply]
    | setFight => exact hcall.elim
    | start => exact hcall.elim
    | timer => exact hcall.elim
    | newService => exact hcall.elim
    | onStart => exact hcall.elim
  raise _ _ _ _ h := h

/-- Taking a player out of a room of the lobby harms nobody. -/
theorem Even.unseat (h : Even agent current hall) (room uid : ℕ) :
    Even agent current { hall with lobby := hall.lobby.unseat room uid } := by
  have hstatus : ∀ other, ((hall.lobby.unseat room uid).rooms other).status = (hall.lobby.rooms other).status := by
    intro other
    rw [Lobby.unseat, Lobby.rooms_updateRoom]
    split
    · next hsame => rw [hsame, RoomInfo.removePlayer]
    · rfl
  have htime : ∀ other,
      ((hall.lobby.unseat room uid).rooms other).roomBeginTs = (hall.lobby.rooms other).roomBeginTs := by
    intro other
    rw [Lobby.unseat, Lobby.rooms_updateRoom]
    split
    · next hsame => rw [hsame, RoomInfo.removePlayer]
    · rfl
  refine h.change (fun hlast ↦ ?_) fun hhall ↦ ?_
  · exact ⟨fun other ↦ (hstatus other).symm.trans (hlast.status other),
      fun other ↦ (htime other).symm.trans (hlast.roomBeginTs other), hlast.fightIns, hlast.fights⟩
  · exact ⟨fun other ↦ (hstatus other).trans (hhall.status other),
      fun other ↦ (htime other).trans (hhall.roomBeginTs other), hhall.fightIns, hhall.fights⟩

/-- A change of the agent that leaves. -/
theorem Even.updateAgent (h : Even agent current hall) (change : Agent → Agent) :
    Even agent current (hall.updateAgent agent change) := by
  have hother : ∀ other, other ≠ agent → (hall.updateAgent agent change).agents other = hall.agents other :=
    fun other hne ↦ Function.update_of_ne hne _ _
  refine h.change (fun hlast ↦ ?_) fun hhall ↦ ?_
  · exact ⟨hlast.status, hlast.roomBeginTs, fun other hne ↦ hother other hne ▸ hlast.fightIns other hne,
      hlast.fights⟩
  · exact ⟨hhall.status, hhall.roomBeginTs, fun other hne ↦ (hother other hne).symm ▸ hhall.fightIns other hne,
      hhall.fights⟩

/-- `leave_room`, from the place where the agent has sent it. -/
theorem even_leaveRoom (roomId uid : ℕ) (h : Even agent current hall) :
    (leaveRoom roomId uid).wpIn (inLobby request) (sparing agent) (fun _ ↦ Even agent) (fun _ ↦ Even agent)
      current hall := by
  unfold leaveRoom
  rw [Program.wpIn_bind, Program.wpIn_getState, Program.wpIn_bind]
  refine wpIn_pairs fun order _ ↦ ?_
  rw [Program.wpIn_bind, Program.wpIn_getState]
  split
  · exact h.hear _
  · next room hfinds =>
    rw [Program.wpIn_bind, Program.wpIn_modifyState]
    refine (steady_leavesRoom request).wpIn ?_ ((h.hear _).unseat room uid)
    refine (Program.within_getState_bind _).mpr ?_
    refine Program.within_bind (within_address_leavesRoom _) fun fight _ ↦ ?_
    refine Program.within_bind (within_call trivial trivial) fun _ _ ↦ ?_
    refine Program.within_bind (within_traverse (fun _ player later _ ↦ ?_) trivial) fun _ _ ↦ Program.within_pure _
    refine Program.within_bind (within_makeRoomInfo room) fun info _ ↦ ?_
    exact Program.within_bind (within_address_leavesRoom _) fun other _ ↦ within_call trivial trivial

/-- The handler of `leave_room` and its reply. -/
theorem even_takeLeave (roomId uid : ℕ) (h : Even agent current hall) :
    (takeLeave request roomId uid).wp (sparing agent) (fun _ ↦ Even agent) (fun _ ↦ Even agent) current hall := by
  unfold takeLeave
  rw [Program.wp_bind, Program.wp_attempt]
  refine Program.wp_mono (fun value current hall h ↦ ?_) (fun error current hall h ↦ ?_)
    (even_leaveRoom roomId uid h)
  · rw [Program.wp_bind]
    exact h.wp_await rfl fun reply later ↦ .fresh rfl later [reply]
  · rw [Program.wp_bind]
    exact h.wp_await rfl fun reply later ↦ .fresh rfl later [reply]

/-- A coroutine that has sent `leave_room` keeps to the contract. -/
theorem waits_leaving (hrequest : request.Leaves agent) (roomId uid : ℕ) (hall : Hall) :
    (sparing agent).Waits (leaving request roomId uid) hall := by
  intro reply later _
  change (takeLeave request roomId uid >>= fun _ ↦ request.afterLeave).wp _ _ _ _ _
  rw [Program.wp_bind]
  refine Program.wp_mono (fun _ current hall h ↦ ?_) (fun error current hall h ↦ ⟨trivial, h.done⟩)
    (even_takeLeave roomId uid (.fresh rfl later [reply]))
  cases hrequest with
  | leaveRoom => exact h.done
  | disconnect => exact (h.updateAgent _).done

end Sections

/-! ### Runs -/

/-- Whatever happens between its turns, a call of `leave_room` leaves the status and the time of every room, the
fight services of the other agents and the fights as they are exactly when no fight service that has got its room
takes `onKickOut` up. -/
theorem leave_harmless {request : Request} {agent : ℕ} (hrequest : request.Leaves agent) {roomId uid : ℕ}
    {first : Configuration skynet Served Hall} {index : ℕ}
    (hthread : first.threads[index]? = some (leaving request roomId uid)) {moves : List (Move skynet Served)}
    {last : Followed skynet Served Hall}
    (hfollow : hallService.followAll (first.following index) moves = some last) :
    (∀ turn ∈ last.turns, Harmless agent turn.origin turn.last) ↔
      ∀ turn ∈ last.turns, Spares turn.point turn.origin := by
  constructor
  · intro hharmless turn hturn
    obtain ⟨_, htreads⟩ := System.guar_of_followAll hthread (waits_leaving hrequest roomId uid) hfollow turn hturn
    exact htreads.kicks (hharmless turn hturn)
  · exact System.good_of_followAll (fun point ↦ point.inHandler = false) hthread rfl
      (waits_leaving hrequest roomId uid)
      (fun turn left hplace hspares htreads ↦ htreads.keeps hplace hspares) hfollow

/-- A client enters a room and leaves it again before its game starts. -/
def entersAndLeaves : List (Move skynet Served) :=
  sendsEnter 0 ++
    [.resume 1 .ok [.order [], .number 0, .order [1], .order [1]], .resume 1 .ok [], .resume 1 .ok []] ++
    [.arrive ⟨.leaveRoom 0, .start⟩, .resume 1 .ok [], .resume 1 .ok [.order [1000]], .resume 1 .ok []]

/-- The client sends `leave_room` again. Nobody plays in the room, and nothing happens. -/
theorem leave_harmless_waiting : ∃ first last, hallService.AnyRun (openHall 1) first ∧
    first.threads[1]? = some (leaving (.leaveRoom 0) 1000 1) ∧
    hallService.followAll (first.following 1) [.resume 1 .ok [.order [1000]], .resume 1 .ok []] = some last ∧
    last.turns.length = 2 ∧ ∀ turn ∈ last.turns, Harmless 0 turn.origin turn.last := by
  obtain ⟨first, last, hrun, hthread, hfollow, hvalue⟩ := exists_leaving (.leaveRoom : Request.Leaves 0 (.leaveRoom 0))
    entersAndLeaves [.resume 1 .ok [.order [1000]], .resume 1 .ok []]
    (fun _ last ↦ (last.turns.length, last.turns.all fun turn ↦ turn.point.kicks.isNone))
    (show _ = some (1, true, some 1000, 1) by decide +kernel) (show _ = some (2, true) by decide +kernel)
  refine ⟨first, last, hrun, hthread, hfollow, congrArg Prod.fst hvalue, ?_⟩
  refine (leave_harmless .leaveRoom hthread hfollow).mpr fun turn hturn ↦ ?_
  have hkicks := List.all_eq_true.mp (congrArg Prod.snd hvalue) turn hturn
  exact spares_of_kicks_eq_none (Option.isNone_iff_eq_none.mp hkicks) _

/-- Two other clients enter the room, and their game starts. -/
def othersPlay : List (Move skynet Served) :=
  sendsEnter 1 ++
    [.resume 1 .ok [.order [1000], .order [2], .order [2]], .resume 1 .ok [], .resume 1 .ok []] ++
  sendsEnter 2 ++
    [.resume 1 .ok [.order [1000], .order [2, 3], .order [2, 3]], .resume 1 .ok [.order [2, 3]],
      .resume 1 .ok [], .resume 1 .ok [],
      .resume 0 .ok [.order [1000], .number 20], .resume 0 .ok [.order [2, 3]],
      .resume 0 .ok [], .resume 0 .ok [], .resume 0 .ok [], .resume 0 .ok [],
      .resume 0 .ok [.order [2, 3], .number 20, .order [2, 3]], .resume 0 .ok [], .resume 0 .ok [],
      .resume 0 .ok (List.replicate 52 (.number 1) ++ [.order [2, 3]]), .resume 0 .ok [],
      .resume 0 .ok [.number 20], .resume 1 .ok []]

/-- The client has left, and his connection closes during the game of the others. The `leave_room` of
`CMD.disconnect` has their room unlocked. -/
theorem second_leave_unlocks : ∃ first last, hallService.AnyRun (openHall 1) first ∧
    first.threads[2]? = some (leaving (.disconnect 0) 1000 1) ∧
    (first.state.lobby.roomQueue.lookup 1000 = some 0 ∧
      1 ∉ (first.state.lobby.players 0).keys) ∧
    hallService.followAll (first.following 2) [.resume 2 .ok [.order [1000]], .resume 2 .ok [],
      .resume 2 .ok [.number 21, .order [2, 3]]] = some last ∧
    ∃ turn ∈ last.turns, (turn.origin.lobby.rooms 0).status = 1 ∧ (turn.last.lobby.rooms 0).status = 0 := by
  obtain ⟨first, last, hrun, hthread, hfollow, hvalue⟩ := exists_leaving
    (.disconnect : Request.Leaves 0 (.disconnect 0)) (entersAndLeaves ++ othersPlay)
    [.resume 2 .ok [.order [1000]], .resume 2 .ok [], .resume 2 .ok [.number 21, .order [2, 3]]]
    (fun first last ↦ (first.state.lobby.roomQueue.lookup 1000, decide (1 ∈ (first.state.lobby.players 0).keys),
      decide (∃ turn ∈ last.turns, (turn.origin.lobby.rooms 0).status = 1 ∧ (turn.last.lobby.rooms 0).status = 0)))
    (show _ = some (2, true, some 1000, 1) by decide +kernel)
    (show _ = some (some 0, false, true) by decide +kernel)
  exact ⟨first, last, hrun, hthread, ⟨congrArg Prod.fst hvalue,
    of_decide_eq_false (congrArg (fun value ↦ value.2.1) hvalue)⟩, hfollow,
    of_decide_eq_true (congrArg (fun value ↦ value.2.2) hvalue)⟩

end SvrDemo.Douniu
