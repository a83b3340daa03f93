import SvrDemo.Skynet.Trails
import SvrDemo.Douniu.LeaveCall
import SvrDemo.Douniu.OneGame

/-!
# When `leave_room` returns

`leave_room` removes the player and calls `onKickOut` of the fight service of the room before it tells the other
players. A room that waits for its first game has no fight service, and one whose game is just being started has
one that has not got `onStart` yet: then the call raises half-way, the other players are not told, and
`CMD.disconnect` does not reach `skynet.exit`. The call also goes through the players of a room while it waits for
their agents, in `update_room_info` and in the `set_fight` of `unlock_room`. When the table of the players is
assigned a new key meanwhile, `next` may raise or pass over players. In every other case the call returns 0.

The turns of a call are followed from the place where its agent has sent it to its end, with whatever may happen
between them: the agents answer, what the call finds is decided by `ready`, and what becomes of the tables it goes
through by `StillTables`.
-/

set_option autoImplicit false
set_option relaxedAutoImplicit false

namespace SvrDemo.Douniu

open Coroutine Lua Skynet

/-! ### What a call finds and what it does -/

/-- The agent that a call waits for. -/
def Served.asked : Served → Option ℕ
  | ⟨_, .lobby (.waits (.sendPackCli agent _))⟩ => some agent
  | ⟨_, .inFight _ (.handler (.unlock (.waits (.setFight _ agent _))))⟩ => some agent
  | _ => none

/-- The request for `leave_room` travels. -/
def Place.isLeave : Place → Bool
  | .leaveRequest _ _ => true
  | _ => false

/-- What a call finds is in order: the room has a fight service when the lobby takes the call up, and the fight
service has got `onStart` when it takes `onKickOut` up. -/
def ready (room : ℕ) (point : Served) (origin : Hall) : Bool :=
  match point.place with
  | .leaveRequest _ _ => (origin.lobby.rooms room).fightIns.isSome
  | .inFight (.onKickOut fight _) .request => (origin.fights fight).room.isSome
  | _ => true

/-- The room through whose players a call goes while it waits for one of their agents: the room that is left, in
`update_room_info`, and the room that is unlocked, in `set_fight`. -/
def Served.traverses (room : ℕ) : Served → Option ℕ
  | ⟨_, .lobby (.waits (.sendPackCli _ _))⟩ => some room
  | ⟨_, .inFight _ (.handler (.unlock (.waits (.setFight target _ _))))⟩ => some target
  | ⟨_, .inFight _ (.handler (.unlock (.handled (.setFight target _ _))))⟩ => some target
  | _ => none

/-- From the end of a turn to the beginning of the next one, the table of players that the call goes through has been
assigned no new keys. -/
def KeepsKeys (room : ℕ) (before after : Visit skynet Served Hall) : Prop :=
  ∀ target ∈ after.point.traverses room,
    (after.origin.lobby.rooms target).layout = (before.last.lobby.rooms target).layout

instance (room : ℕ) : DecidableRel (KeepsKeys room) :=
  fun before after ↦ inferInstanceAs (Decidable (∀ target ∈ after.point.traverses room,
    (after.origin.lobby.rooms target).layout = (before.last.lobby.rooms target).layout))

/-- The tables of players that a call goes through are assigned no new keys while it waits for their agents. -/
def StillTables (room : ℕ) (visits : List (Visit skynet Served Hall)) : Prop :=
  visits.IsChain (KeepsKeys room)

instance (room : ℕ) (visits : List (Visit skynet Served Hall)) : Decidable (StillTables room visits) :=
  inferInstanceAs (Decidable (visits.IsChain _))

/-- A turn does not leave the player in the room: the first one removes him, and no other seats him. -/
def LeavesOut (room uid : ℕ) (visit : Visit skynet Served Hall) : Prop :=
  uid ∈ (visit.last.lobby.players room).keys →
    uid ∈ (visit.origin.lobby.players room).keys ∧ visit.point.place.isLeave = false

/-- Every player who has been in the room since it was left, but for those under the keys of `others`, has been
sent `update_room_info`. -/
def Informs (request : Request) (room : ℕ) (others : List ℕ) (visits : List (Visit skynet Served Hall)) : Prop :=
  ∀ key player, key ∉ others →
    (∀ visit ∈ visits, visit.point.place.isLeave = false →
      (visit.origin.lobby.players room).lookup key = some player) →
    ∃ visit ∈ visits, ∃ agent info, player.agent = some agent ∧
      visit.point = ⟨request, .lobby (.waits (.sendPackCli agent info))⟩

/-- What the environment of a call keeps to: the rooms of the lobby are in order, the agents answer, and the
player is in a room when the lobby takes the call up. -/
structure Keeps (roomId room : ℕ) (point : Served) (later : Hall) (reply : Answer) : Prop where
  rooms : Rooms later.lobby
  answers : point.asked ≠ none → reply ≠ .raised
  queued : point.place.isLeave = true → later.lobby.roomQueue.lookup roomId = some room

/-- A call that has found everything in order. -/
structure OnWay (room uid : ℕ) (trail : Trail skynet Served Hall) (hall : Hall) : Prop where
  ready : ∀ visit ∈ trail.ended hall, ready room visit.point visit.origin = true
  leavesOut : ∀ visit ∈ trail.ended hall, LeavesOut room uid visit
  agents : ∀ other key player, (hall.lobby.players other).lookup key = some player →
    ∃ agent, player.agent = some agent
  players : trail.point.place.isLeave = false → ∀ other, hall.lobby.players other = trail.origin.lobby.players other

/-- A call that has not, or one whose tables have been assigned new keys. -/
def Astray (room : ℕ) (trail : Trail skynet Served Hall) (hall : Hall) : Prop :=
  (∃ visit ∈ trail.ended hall, ready room visit.point visit.origin = false) ∨ ¬ StillTables room (trail.ended hall)

section Calls

variable {request : Request} {roomId room uid : ℕ} {trail : Trail skynet Served Hall} {hall : Hall}
  {raised : LuaError → Trail skynet Served Hall → Hall → Prop}

/-- Whether the tables have been still does not depend on the state in which the present turn ends. -/
theorem StillTables.ended (h : StillTables room (trail.ended hall)) (last : Hall) :
    StillTables room (trail.ended last) := by
  unfold StillTables Trail.ended at h ⊢
  rw [List.isChain_append] at h ⊢
  refine ⟨h.1, .singleton _, fun before hbefore after hafter ↦ ?_⟩
  obtain rfl := Option.some.inj hafter
  exact h.2.2 before hbefore ⟨trail.point, trail.origin, trail.reply, hall⟩ rfl

/-- The tables have been still up to the present turn, and in the last wait. -/
theorem StillTables.of_next {point : Served} {later last : Hall} {reply : Answer}
    (h : StillTables room ((trail.next hall point later reply).ended last)) :
    StillTables room (trail.ended hall) ∧ ∀ target ∈ point.traverses room,
      (later.lobby.rooms target).layout = (hall.lobby.rooms target).layout := by
  rw [StillTables, Trail.ended_next, List.isChain_append] at h
  refine ⟨h.1, h.2.2 ⟨trail.point, trail.origin, trail.reply, hall⟩ ?_ ⟨point, later, reply, last⟩ rfl⟩
  rw [Trail.ended, List.getLast?_append]
  rfl

/-- The call goes on at another place. -/
theorem OnWay.next (h : OnWay room uid trail hall) {point : Served} {later : Hall} {reply : Answer}
    (hkeeps : Keeps roomId room point later reply) (hpoint : point.place.isLeave = false)
    (hready : Douniu.ready room point later = true) :
    OnWay room uid (trail.next hall point later reply) later where
  ready visit hvisit := by
    rw [Trail.ended_next] at hvisit
    rcases List.mem_append.mp hvisit with hold | hnew
    · exact h.ready visit hold
    · obtain rfl := List.mem_singleton.mp hnew
      exact hready
  leavesOut visit hvisit := by
    rw [Trail.ended_next] at hvisit
    rcases List.mem_append.mp hvisit with hold | hnew
    · exact h.leavesOut visit hold
    · obtain rfl := List.mem_singleton.mp hnew
      exact fun hseated ↦ ⟨hseated, hpoint⟩
  agents := hkeeps.rooms.agent
  players _ _ := rfl

/-- A change that leaves the players as they are. -/
theorem OnWay.change (h : OnWay room uid trail hall) (changed : Hall)
    (hplayers : ∀ other, changed.lobby.players other = hall.lobby.players other) :
    OnWay room uid trail changed where
  ready visit hvisit := by
    rcases List.mem_append.mp hvisit with hold | hnew
    · exact h.ready visit (List.mem_append_left _ hold)
    · obtain rfl := List.mem_singleton.mp hnew
      exact h.ready ⟨trail.point, trail.origin, trail.reply, hall⟩
        (List.mem_append_right _ (List.mem_singleton_self _))
  leavesOut visit hvisit := by
    rcases List.mem_append.mp hvisit with hold | hnew
    · exact h.leavesOut visit (List.mem_append_left _ hold)
    · obtain rfl := List.mem_singleton.mp hnew
      intro hseated
      rw [hplayers] at hseated
      exact h.leavesOut ⟨trail.point, trail.origin, trail.reply, hall⟩
        (List.mem_append_right _ (List.mem_singleton_self _)) hseated
  agents other key player hplayer := h.agents other key player (hplayers other ▸ hplayer)
  players hpoint other := (hplayers other).trans (h.players hpoint other)

/-- A call that has gone astray stays so. -/
theorem Astray.next (h : Astray room trail hall) (point : Served) (later last : Hall) (reply : Answer) :
    Astray room (trail.next hall point later reply) last := by
  rcases h with ⟨visit, hvisit, hready⟩ | hmoved
  · exact .inl ⟨visit, List.mem_append_left _ hvisit, hready⟩
  · exact .inr fun hstill ↦ hmoved hstill.of_next.1

/-- What follows a call that has gone astray. -/
theorem Astray.wp_await (h : Astray room trail hall) {point : Served}
    {post : Answer → Trail skynet Served Hall → Hall → Prop}
    (hpost : ∀ reply trail later, Astray room trail later → post reply trail later) :
    (Program.await (I := skynet) point : HallTask Answer).wpTrail (Keeps roomId room) post raised trail
      hall :=
  fun later reply _ ↦ hpost reply _ later (h.next point later later reply)

/-! ### Loops over the players -/

/-- The address of an agent. -/
theorem wpTrailIn_address {E : Embedding skynet LobbyCall Lobby Served Hall} {may : Served → Hall → Answer → Prop}
    {service : Option ℕ} {agent : ℕ} (hservice : service = some agent)
    {post : ℕ → Trail skynet Served Hall → Hall → Prop} (hpost : post agent trail hall) :
    (address service).wpTrailIn E may post raised trail hall := by
  subst hservice
  exact hpost

/-- A place in a call of a fight service, where nothing has to be in order. -/
theorem ready_handler (call : LobbyCall) (place : FightStage) (later : Hall) :
    ready room ⟨request, .inFight call (.handler place)⟩ later = true := by
  cases call <;> rfl

/-- An agent takes the fight that it is told. -/
theorem onWay_agentHandles {call : LobbyCall} (other agent : ℕ) (fight : Option ℕ)
    (h : OnWay room uid trail hall) :
    (agentHandles request (fun place ↦ .inFight call (.handler (.unlock place)))
      (.setFight other agent fight)).wpTrail (Keeps roomId room)
      (fun reply trail' whole ↦ reply = .ok ∧ OnWay room uid trail' whole ∧
        (StillTables room (trail'.ended whole) → StillTables room (trail.ended hall) ∧
          (whole.lobby.rooms other).layout = (hall.lobby.rooms other).layout)) raised trail hall := by
  unfold agentHandles
  refine Program.wpTrail_await_bind.mpr fun later reply hkeeps ↦ ?_
  have hanswers : reply ≠ .raised := hkeeps.answers nofun
  have hwaits := h.next hkeeps rfl (ready_handler call _ later)
  have htold : (do
      Program.modifyState fun hall ↦ hall.updateAgent agent (Agent.setFight fight)
      let _ ← Program.await (I := skynet) ⟨request, .inFight call (.handler (.unlock
        (.handled (.setFight other agent fight))))⟩
      return .ok : HallTask Answer).wpTrail (Keeps roomId room) (fun reply trail' whole ↦
        reply = .ok ∧ OnWay room uid trail' whole ∧
          (StillTables room (trail'.ended whole) → StillTables room (trail.ended hall) ∧
            (whole.lobby.rooms other).layout = (hall.lobby.rooms other).layout)) raised
          (trail.next hall ⟨request, .inFight call (.handler (.unlock (.waits (.setFight other agent fight))))⟩ later
            reply) later := by
    rw [Program.wpTrail_bind, Program.wpTrail_modifyState]
    refine Program.wpTrail_await_bind.mpr fun last reply hkeeps ↦ ?_
    have hchanged := hwaits.change (later.updateAgent agent (Agent.setFight fight)) fun _ ↦ rfl
    refine ⟨rfl, hchanged.next hkeeps rfl (ready_handler call _ last), fun hstill ↦ ?_⟩
    obtain ⟨hbefore, hlast⟩ := hstill.of_next
    obtain ⟨hfirst, hlater⟩ := hbefore.of_next
    exact ⟨hfirst, (hlast other rfl).trans (hlater other rfl)⟩
  cases reply with
  | raised => exact absurd rfl hanswers
  | number _ => exact htold
  | order _ => exact htold
  | ok => exact htold

/-- Tell the agents that they have no fight any more. -/
theorem onWay_setFight {call : LobbyCall} (other : ℕ) (fightOf : RoomInfo → Option ℕ)
    (h : OnWay room uid trail hall) :
    (setFight other fightOf).wpTrailIn (agentsOnly request fun place ↦ .inFight call (.handler (.unlock place)))
      (Keeps roomId room) (fun _ ↦ OnWay room uid) (fun _ ↦ Astray room) trail hall := by
  have hbody : ∀ (key : ℕ) (player : RoomPlayer) (trail : Trail skynet Served Hall) (hall : Hall),
      (hall.lobby.players other).lookup key = some player → OnWay room uid trail hall →
      (do
        let fight := fightOf ((← Program.getState).rooms other)
        let agent ← address player.agent
        Skynet.call (.setFight other agent fight) : LobbyTask Unit).wpTrailIn
          (agentsOnly request fun place ↦ .inFight call (.handler (.unlock place))) (Keeps roomId room)
          (fun _ trail' whole ↦ OnWay room uid trail' whole ∧
            (StillTables room (trail'.ended whole) → StillTables room (trail.ended hall) ∧
              (whole.lobby.rooms other).layout = (hall.lobby.rooms other).layout)) (fun _ ↦ Astray room)
            trail hall := by
    intro key player trail hall hplayer h
    rw [Program.wpTrailIn_bind, Program.wpTrailIn_getState, Program.wpTrailIn_bind]
    obtain ⟨agent, hagent⟩ := h.agents other key player hplayer
    refine wpTrailIn_address hagent (wpTrailIn_call ?_)
    refine Program.wpTrail_mono (fun reply _ _ h ↦ ⟨fun _ ↦ h.2, fun hraised ↦ ?_⟩) (fun _ _ _ h ↦ h)
      (onWay_agentHandles other agent _ h)
    exact nomatch h.1.symm.trans hraised
  unfold setFight forPlayers
  refine Program.wpTrailIn_mono (fun _ _ _ h ↦ h.elim id And.left) (wpTrailIn_traverse
    (fun _ ↦ OnWay room uid) (fun trail whole ↦ OnWay room uid trail whole ∧ ¬ StillTables room (trail.ended whole))
    (fun _ _ ↦ h) (fun key _ player trail hall hplayer h ↦ ?_) (fun _ _ _ _ _ h ↦ h)
    (fun _ _ h ↦ .inr h.2) fun key player trail hall hplayer h ↦ ?_)
  · refine Program.wpTrailIn_mono (fun _ trail' whole h ↦ ?_) (hbody key player trail hall hplayer h)
    by_cases hstill : StillTables room (trail'.ended whole)
    · exact .inl ⟨(h.2 hstill).2, h.1⟩
    · exact .inr ⟨h.1, hstill⟩
  · exact Program.wpTrailIn_mono (fun _ _ _ hnext ↦ ⟨hnext.1, fun hstill ↦ h.2 (hnext.2 hstill).1⟩)
      (hbody key player trail hall hplayer h.1)

/-- `unlock_room` returns when the agents answer. -/
theorem onWay_unlockRoom {call : LobbyCall} (other : ℕ) (h : OnWay room uid trail hall) :
    ((unlockRoom other).embed (agentsOnly request fun place ↦ .inFight call (.handler (.unlock place)))).wpTrail
      (Keeps roomId room) (fun _ ↦ OnWay room uid) (fun _ ↦ Astray room) trail hall := by
  change (unlockRoom other).wpTrailIn _ _ _ _ _ _
  unfold unlockRoom
  rw [Program.wpTrailIn_bind, Program.wpTrailIn_getState]
  split
  · exact h
  · next found _ =>
    rw [Program.wpTrailIn_bind]
    refine wpTrailIn_osTime fun now ↦ ?_
    rw [Program.wpTrailIn_bind, Program.wpTrailIn_modifyState]
    refine onWay_setFight found _ (h.change _ fun another ↦ ?_)
    change ((hall.lobby.updateRoom found fun roomInfo ↦
      { roomInfo with status := 0, roomBeginTs := now }).rooms another).playerLst = _
    rw [Lobby.rooms_updateRoom]
    split
    · next hsame => rw [hsame]; rfl
    · rfl

/-- A call of a service that returns when it finds everything in order, and raises otherwise. -/
theorem fares_exchange {α : Type} {asked : Served} {answer : Bool → Served} {body : HallTask α}
    (hanswer : (answer true).place.isLeave = false) (hreplies : ∀ later, ready room (answer true) later = true)
    (hbody : ∀ later reply, Keeps roomId room asked later reply →
      body.wpTrail (Keeps roomId room) (fun _ ↦ OnWay room uid) (fun _ ↦ Astray room)
        (trail.next hall asked later reply) later) :
    (do return replyOf (← exchange asked answer body) : HallTask Answer).wpTrail (Keeps roomId room)
      (fun reply trail whole ↦
        (reply ≠ .raised → OnWay room uid trail whole ∧ trail.point.place.isLeave = false) ∧
          (reply = .raised → Astray room trail whole)) raised trail hall := by
  unfold exchange
  rw [Program.wpTrail_bind]
  refine Program.wpTrail_await_bind.mpr fun later reply hkeeps ↦ ?_
  rw [Program.wpTrail_bind, Program.wpTrail_attempt]
  refine Program.wpTrail_mono (fun value trail whole h ↦ ?_) (fun error trail whole h ↦ ?_) (hbody later reply hkeeps)
  · exact Program.wpTrail_await_bind.mpr fun last reply hkeeps ↦
      ⟨fun _ ↦ ⟨h.next hkeeps hanswer (hreplies last), hanswer⟩, (nomatch ·)⟩
  · exact Program.wpTrail_await_bind.mpr fun last reply _ ↦
      ⟨fun hne ↦ absurd rfl hne, fun _ ↦ h.next _ last last reply⟩

/-- `onKickOut` has the lobby unlock its room, when the fight service has got `onStart`. -/
theorem fares_onKickOut {fight : ℕ} {later : Hall} {reply : Answer} (h : OnWay room uid trail hall)
    (hkeeps : Keeps roomId room ⟨request, .inFight (.onKickOut fight uid) .request⟩ later reply) :
    ((onKickOut uid).embed (inFightService request (fun stage ↦ .inFight (.onKickOut fight uid) (.handler stage))
      fight)).wpTrail (Keeps roomId room) (fun _ ↦ OnWay room uid) (fun _ ↦ Astray room)
        (trail.next hall ⟨request, .inFight (.onKickOut fight uid) .request⟩ later reply) later := by
  change (onKickOut uid).wpTrailIn _ _ _ _ _ _
  unfold onKickOut getRoom
  rw [Program.wpTrailIn_bind, Program.wpTrailIn_bind, Program.wpTrailIn_getState]
  have hget : (inFightService request (fun stage ↦ .inFight (.onKickOut fight uid) (.handler stage))
      fight).get later = later.fights fight := rfl
  rw [hget]
  cases hroom : (later.fights fight).room with
  | none =>
    refine .inl ⟨_, List.mem_append_right _ (List.mem_singleton_self _), ?_⟩
    change (later.fights fight).room.isSome = false
    rw [hroom]
    rfl
  | some copy =>
    have hready : ready room ⟨request, .inFight (.onKickOut fight uid) .request⟩ later = true := by
      change (later.fights fight).room.isSome = true
      rw [hroom]
      rfl
    dsimp only
    rw [Program.wpTrailIn_pure, Program.wpTrailIn_bind, Program.wpTrailIn_modifyState]
    have hnext := h.next hkeeps rfl hready
    refine wpTrailIn_call (Program.wpTrail_mono (fun _ _ _ h ↦ ⟨fun hne ↦ (h.1 hne).1, h.2⟩) (fun _ _ _ h ↦ h)
      (fares_exchange rfl (fun _ ↦ rfl) fun last reply hkeeps ↦ ?_))
    refine onWay_unlockRoom copy.roomId ((hnext.change _ ?_).next hkeeps rfl (ready_handler _ _ _))
    exact fun _ ↦ rfl

/-! ### `leave_room` -/

/-- What has been sent stays sent. -/
theorem Informs.append {others : List ℕ} {visits : List (Visit skynet Served Hall)}
    (h : Informs request room others visits) (more : List (Visit skynet Served Hall)) :
    Informs request room others (visits ++ more) := by
  intro key player hkey hstays
  obtain ⟨visit, hvisit, hsent⟩ := h key player hkey fun visit hvisit ↦
    hstays visit (List.mem_append_left more hvisit)
  exact ⟨visit, List.mem_append_left more hvisit, hsent⟩

/-- A player who has been in the room all the time is there now. -/
theorem OnWay.lookup (h : OnWay room uid trail hall) (hpoint : trail.point.place.isLeave = false) {key : ℕ}
    {player : RoomPlayer} (hstays : ∀ visit ∈ trail.ended hall, visit.point.place.isLeave = false →
      (visit.origin.lobby.players room).lookup key = some player) :
    (hall.lobby.players room).lookup key = some player := by
  rw [h.players hpoint]
  exact hstays ⟨trail.point, trail.origin, trail.reply, hall⟩
    (List.mem_append_right _ (List.mem_singleton_self _)) hpoint

/-- A key is done with when its player, if he has been there all the time, has been told. -/
theorem Informs.of_cons {key : ℕ} {others : List ℕ} {visits : List (Visit skynet Served Hall)}
    (h : Informs request room (key :: others) visits)
    (htold : ∀ player, (∀ visit ∈ visits, visit.point.place.isLeave = false →
      (visit.origin.lobby.players room).lookup key = some player) →
      ∃ visit ∈ visits, ∃ agent info, player.agent = some agent ∧
        visit.point = ⟨request, .lobby (.waits (.sendPackCli agent info))⟩) :
    Informs request room others visits := by
  intro other player hother hstays
  by_cases hkey : other = key
  · subst hkey
    exact htold player hstays
  · exact h other player (List.not_mem_cons_of_ne_of_not_mem hkey hother) hstays

/-- One player is told, and the table of players may have been given new keys meanwhile. -/
theorem fares_sendRoomInfo {player : RoomPlayer} (hagent : ∃ agent, player.agent = some agent)
    (h : OnWay room uid trail hall) :
    (do
      let info ← makeRoomInfo room
      let agent ← address player.agent
      Skynet.call (.sendPackCli agent info) : LobbyTask Unit).wpTrailIn (inLobby request) (Keeps roomId room)
      (fun _ trail' whole ↦ OnWay room uid trail' whole ∧
        (StillTables room (trail'.ended whole) → StillTables room (trail.ended hall) ∧
          (whole.lobby.rooms room).layout = (hall.lobby.rooms room).layout) ∧
        (∃ agent info, player.agent = some agent ∧
          trail'.point = ⟨request, .lobby (.waits (.sendPackCli agent info))⟩) ∧ trail'.visits = trail.ended hall)
      (fun _ ↦ Astray room) trail hall := by
  obtain ⟨agent, hagent⟩ := hagent
  unfold makeRoomInfo
  rw [Program.wpTrailIn_bind, Program.wpTrailIn_bind, Program.wpTrailIn_getState, Program.wpTrailIn_bind]
  refine wpTrailIn_pairs fun order _ ↦ ?_
  rw [Program.wpTrailIn_pure, Program.wpTrailIn_bind]
  refine wpTrailIn_address hagent (wpTrailIn_call fun later reply hkeeps ↦
    ⟨fun _ ↦ ⟨h.next hkeeps rfl rfl, fun hstill ↦ ?_, ⟨agent, _, hagent, rfl⟩, rfl⟩,
      fun hraised ↦ absurd hraised (hkeeps.answers nofun)⟩)
  exact ⟨hstill.of_next.1, hstill.of_next.2 room rfl⟩

/-- The players who are left are told. -/
theorem informs_updateRoomInfo (h : OnWay room uid trail hall) (hpoint : trail.point.place.isLeave = false) :
    (updateRoomInfo room).wpTrailIn (inLobby request) (Keeps roomId room) (fun _ trail whole ↦
      OnWay room uid trail whole ∧
        (StillTables room (trail.ended whole) → Informs request room [] (trail.ended whole)))
      (fun _ ↦ Astray room) trail hall := by
  unfold updateRoomInfo forPlayers
  refine Program.wpTrailIn_mono (fun _ _ _ h ↦ ?_) (wpTrailIn_traverse
    (fun others trail whole ↦ OnWay room uid trail whole ∧ trail.point.place.isLeave = false ∧
      Informs request room others (trail.ended whole))
    (fun trail whole ↦ OnWay room uid trail whole ∧ ¬ StillTables room (trail.ended whole)) ?_ ?_ ?_
    (fun _ _ h ↦ .inr h.2) fun key player trail hall hplayer h ↦ ?_)
  · rcases h with ⟨honWay, -, hinforms⟩ | ⟨honWay, hmoved⟩
    · exact ⟨honWay, fun _ ↦ hinforms⟩
    · exact ⟨honWay, fun hstill ↦ absurd hstill hmoved⟩
  · intro order horder
    refine ⟨h, hpoint, fun key player hkey hstays ↦ absurd (horder.mem_iff.mpr ?_) hkey⟩
    exact Table.mem_keys_iff.mpr ⟨player, h.lookup hpoint hstays⟩
  · rintro key others player trail hall hplayer ⟨h, hpoint, hinforms⟩
    refine Program.wpTrailIn_mono (fun _ trail' whole hnext ↦ ?_)
      (fares_sendRoomInfo (h.agents room key player hplayer) h)
    obtain ⟨honWay, hstays, ⟨agent, info, hagent, hsent⟩, hvisits⟩ := hnext
    by_cases hstill : StillTables room (trail'.ended whole)
    · refine .inl ⟨(hstays hstill).2, honWay, by rw [hsent]; rfl, ?_⟩
      have hended : trail'.ended whole = trail.ended hall ++
          [⟨trail'.point, trail'.origin, trail'.reply, whole⟩] := by rw [Trail.ended, hvisits]
      rw [hended]
      refine (hinforms.append _).of_cons fun other hstays ↦ ?_
      -- the player under the key is the one that is told now
      have hlookup := h.lookup hpoint fun visit hvisit ↦ hstays visit (List.mem_append_left _ hvisit)
      obtain rfl := Option.some.inj (hlookup.symm.trans hplayer)
      exact ⟨_, List.mem_append_right _ (List.mem_singleton_self _), agent, info, hagent, hsent⟩
    · exact .inr ⟨honWay, hstill⟩
  · rintro key others trail hall hnone ⟨h, hpoint, hinforms⟩
    refine ⟨h, hpoint, hinforms.of_cons fun player hstays ↦ ?_⟩
    exact nomatch hnone.symm.trans (h.lookup hpoint hstays)
  · exact Program.wpTrailIn_mono (fun _ _ _ hnext ↦ ⟨hnext.1, fun hstill ↦ h.2 (hnext.2.1 hstill).1⟩)
      (fares_sendRoomInfo (h.1.agents room key player hplayer) h.1)

/-- `leave_room` finds the room that is in the queue under an id. -/
theorem findId_of_lookup {lobby : Lobby} (hstore : RoomStore lobby) {order : List ℕ}
    (horder : IsOrder order lobby.roomQueue.keys) (hqueued : lobby.roomQueue.lookup roomId = some room) :
    lobby.findId order roomId = some room := by
  cases hfinds : lobby.findId order roomId with
  | none =>
    have hmem : roomId ∈ order := horder.mem_iff.mpr (Table.mem_keys_iff.mpr ⟨room, hqueued⟩)
    have hnone := List.findSome?_eq_none_iff.mp hfinds roomId hmem
    rw [hqueued, Option.filter_some, if_pos (decide_eq_true (hstore.roomId roomId room hqueued))] at hnone
    exact nomatch hnone
  | some other =>
    obtain ⟨⟨key, hkey⟩, hid⟩ := Lobby.findId_spec hfinds
    obtain rfl : key = roomId := (hstore.roomId key other hkey).symm.trans hid
    exact hkey.symm.trans hqueued

/-- The lobby takes `leave_room` up, and the room has a fight service. -/
theorem onWay_unseat {reply : Answer} (hkeeps : Keeps roomId room ⟨request, .leaveRequest roomId uid⟩ hall reply)
    (hready : ready room ⟨request, .leaveRequest roomId uid⟩ hall = true) :
    OnWay room uid ⟨[], ⟨request, .leaveRequest roomId uid⟩, hall, reply⟩
      { hall with lobby := hall.lobby.unseat room uid } where
  ready visit hvisit := by
    obtain rfl := List.mem_singleton.mp hvisit
    exact hready
  leavesOut visit hvisit := by
    obtain rfl := List.mem_singleton.mp hvisit
    intro hseated
    change uid ∈ ((hall.lobby.unseat room uid).players room).keys at hseated
    rw [Lobby.players_unseat, if_pos rfl] at hseated
    exact absurd hseated (by simp)
  agents other key player hplayer := hkeeps.rooms.agent other key player (Lobby.lookup_of_unseat _ hplayer)
  players hpoint := nomatch hpoint

/-- `leave_room` returns 0 when it finds everything in order, and raises otherwise. -/
theorem fares_leaveRoom {reply : Answer} (hkeeps : Keeps roomId room ⟨request, .leaveRequest roomId uid⟩ hall reply) :
    (leaveRoom roomId uid).wpTrailIn (inLobby request) (Keeps roomId room)
      (fun value trail whole ↦ value = 0 ∧ OnWay room uid trail whole ∧
        (StillTables room (trail.ended whole) → Informs request room [] (trail.ended whole)))
      (fun _ ↦ Astray room) ⟨[], ⟨request, .leaveRequest roomId uid⟩, hall, reply⟩ hall := by
  unfold leaveRoom
  rw [Program.wpTrailIn_bind, Program.wpTrailIn_getState, Program.wpTrailIn_bind]
  refine wpTrailIn_pairs fun order horder ↦ ?_
  rw [Program.wpTrailIn_bind, Program.wpTrailIn_getState]
  have hfinds : ((inLobby request).get hall).findId order roomId = some room :=
    findId_of_lookup hkeeps.rooms.toRoomStore horder (hkeeps.queued rfl)
  rw [hfinds]
  dsimp only
  rw [Program.wpTrailIn_bind, Program.wpTrailIn_modifyState, Program.wpTrailIn_bind, Program.wpTrailIn_getState,
    Program.wpTrailIn_bind]
  have hfight : ((hall.lobby.unseat room uid).rooms room).fightIns = (hall.lobby.rooms room).fightIns := by
    rw [Lobby.unseat, Lobby.rooms_updateRoom, if_pos rfl, RoomInfo.removePlayer]
  cases hhas : (hall.lobby.rooms room).fightIns with
  | none =>
    change (address ((hall.lobby.unseat room uid).rooms room).fightIns).wpTrailIn _ _ _ _ _ _
    rw [hfight, hhas]
    refine .inl ⟨_, List.mem_append_right _ (List.mem_singleton_self _), ?_⟩
    change (hall.lobby.rooms room).fightIns.isSome = false
    rw [hhas]
    rfl
  | some fight =>
    have hready : ready room ⟨request, .leaveRequest roomId uid⟩ hall = true := by
      change (hall.lobby.rooms room).fightIns.isSome = true
      rw [hhas]
      rfl
    refine wpTrailIn_address (hfight.trans hhas) ?_
    rw [Program.wpTrailIn_bind]
    refine wpTrailIn_call (Program.wpTrail_mono (fun _ trail whole h ↦ ⟨fun hne ↦ ?_, h.2⟩) (fun _ _ _ h ↦ h)
      (fares_exchange rfl (fun _ ↦ rfl) fun later reply hkicks ↦
        fares_onKickOut (onWay_unseat hkeeps hready) hkicks))
    obtain ⟨honWay, hpoint⟩ := h.1 hne
    rw [Program.wpTrailIn_bind]
    exact Program.wpTrailIn_mono (fun _ trail whole h ↦ ⟨rfl, h⟩) (informs_updateRoomInfo honWay hpoint)

/-- The handler of `leave_room` and its reply. -/
theorem fares_takeLeave {reply : Answer} (hkeeps : Keeps roomId room ⟨request, .leaveRequest roomId uid⟩ hall reply) :
    (takeLeave request roomId uid).wpTrail (Keeps roomId room)
      (fun value trail whole ↦ value = 0 ∧ trail.point = ⟨request, .reply true⟩ ∧
        OnWay room uid trail whole ∧
        (StillTables room (trail.ended whole) → Informs request room [] (trail.ended whole)))
      (fun _ ↦ Astray room) ⟨[], ⟨request, .leaveRequest roomId uid⟩, hall, reply⟩ hall := by
  unfold takeLeave
  rw [Program.wpTrail_bind, Program.wpTrail_attempt]
  refine Program.wpTrail_mono (fun value trail whole h ↦ ?_) (fun error trail whole h ↦ ?_) (fares_leaveRoom hkeeps)
  · obtain ⟨rfl, honWay, hinforms⟩ := h
    exact Program.wpTrail_await_bind.mpr fun later reply hkeeps ↦
      ⟨rfl, rfl, honWay.next hkeeps rfl rfl, fun hstill ↦ (hinforms hstill.of_next.1).append _⟩
  · exact Program.wpTrail_await_bind.mpr fun later reply _ ↦ h.next _ later later reply

/-- What a call has sent does not depend on the state in which its turn ends. -/
theorem Informs.ended {others : List ℕ} (h : Informs request room others (trail.ended hall)) (last : Hall) :
    Informs request room others (trail.ended last) := by
  intro key player hkey hstays
  have hends : ∀ hall, ⟨trail.point, trail.origin, trail.reply, hall⟩ ∈ trail.ended hall := fun _ ↦
    List.mem_append_right _ (List.mem_singleton_self _)
  obtain ⟨visit, hvisit, agent, info, hagent, hsent⟩ := h key player hkey fun visit hvisit hpoint ↦ by
    rcases List.mem_append.mp hvisit with hold | hnew
    · exact hstays visit (List.mem_append_left _ hold) hpoint
    · obtain rfl := List.mem_singleton.mp hnew
      exact hstays ⟨trail.point, trail.origin, trail.reply, last⟩ (hends last) hpoint
  rcases List.mem_append.mp hvisit with hold | hnew
  · exact ⟨visit, List.mem_append_left _ hold, agent, info, hagent, hsent⟩
  · obtain rfl := List.mem_singleton.mp hnew
    exact ⟨_, hends last, agent, info, hagent, hsent⟩

/-- What follows the call leaves the lobby as it is. -/
theorem fares_afterLeave {agent : ℕ} (hrequest : request.Leaves agent) (h : OnWay room uid trail hall) :
    request.afterLeave.wpTrail (Keeps roomId room) (fun _ trail' whole ↦ trail' = trail ∧
      OnWay room uid trail whole ∧ (request = .disconnect agent → (whole.agents agent).exited = true))
      raised trail hall := by
  cases hrequest with
  | leaveRoom => exact ⟨rfl, h, (nomatch ·)⟩
  | disconnect =>
    refine ⟨rfl, h.change _ fun _ ↦ rfl, fun _ ↦ ?_⟩
    simp [Hall.updateAgent]

/-- The whole call, with what the agent does behind `leave_room`. -/
theorem fares_leaving {agent : ℕ} (hrequest : request.Leaves agent) {later : Hall} {reply : Answer}
    (hkeeps : Keeps roomId room ⟨request, .leaveRequest roomId uid⟩ later reply) :
    ((leaving request roomId uid).next reply).wpTrail (Keeps roomId room)
      (fun _ trail whole ↦ trail.point = ⟨request, .reply true⟩ ∧ OnWay room uid trail whole ∧
        (StillTables room (trail.ended whole) → Informs request room [] (trail.ended whole)) ∧
        (request = .disconnect agent → (whole.agents agent).exited = true))
      (fun _ ↦ Astray room) ⟨[], ⟨request, .leaveRequest roomId uid⟩, later, reply⟩ later := by
  change (takeLeave request roomId uid >>= fun _ ↦ request.afterLeave).wpTrail _ _ _ _ _
  rw [Program.wpTrail_bind]
  refine Program.wpTrail_mono (fun value trail whole h ↦ ?_) (fun _ _ _ h ↦ h) (fares_takeLeave hkeeps)
  obtain ⟨-, hpoint, honWay, hinforms⟩ := h
  refine Program.wpTrail_mono (fun _ trail' last h ↦ ?_) (fun _ _ _ h ↦ h) (fares_afterLeave hrequest honWay)
  obtain ⟨rfl, honWay, hexited⟩ := h
  exact ⟨hpoint, honWay, fun hstill ↦ (hinforms (hstill.ended whole)).ended last, hexited⟩

end Calls

/-! ### Runs -/

/-- A call of `leave_room` has returned, and the player has left: he is out of the room, the others who have been
in the room since then have been told, and `CMD.disconnect` has reached `skynet.exit`. -/
structure Departs (request : Request) (agent room uid : ℕ) (turns : List (Coroutine.Turn skynet Served Hall)) :
    Prop where
  returns : ∀ turn ∈ turns, turn.fails = false
  replied : ∃ turn ∈ turns, turn.point = ⟨request, .reply true⟩ ∧
    (request = .disconnect agent → (turn.last.agents agent).exited = true)
  leavesOut : ∀ turn ∈ turns, LeavesOut room uid turn.visit
  informs : Informs request room [] (turns.map Coroutine.Turn.visit)

/-- A call of `leave_room` for a player who has a seat when the lobby takes it up. When the agents answer, and
the call gets its turns, it comes to its end. The player has left when the room had a fight service, this service
had got `onStart`, and the tables of players that the call went through got no new keys meanwhile. He has not left
unless the first two were so. A call that returns then returns 0. -/
theorem leave_returns {request : Request} {agent : ℕ} (hrequest : request.Leaves agent) {roomId uid room : ℕ}
    {dbServiceCnt : ℕ} {first : Configuration skynet Served Hall}
    (hreached : hallService.AnyRun (openHall dbServiceCnt) first) {index : ℕ}
    (hthread : first.threads[index]? = some (leaving request roomId uid))
    {runs : ℕ → Followed skynet Served Hall} {moves : ℕ → Move skynet Served} (hfirst : runs 0 = first.following index)
    (hattends : hallService.Attends runs moves)
    (hseated : ∀ time, ∀ turn ∈ (runs time).turns, turn.point.place.isLeave = true →
      turn.origin.lobby.roomQueue.lookup roomId = some room ∧ uid ∈ (turn.origin.lobby.players room).keys)
    (hanswers : ∀ time, ∀ turn ∈ (runs time).turns, turn.point.asked ≠ none → turn.reply ≠ .raised) :
    (∃ time, (runs time).thread = none ∧
      ((∀ turn ∈ (runs time).turns, ready room turn.point turn.origin = true) →
        StillTables room ((runs time).turns.map Coroutine.Turn.visit) →
        Departs request agent room uid (runs time).turns) ∧
      (Departs request agent room uid (runs time).turns →
        ∀ turn ∈ (runs time).turns, ready room turn.point turn.origin = true)) ∧
    ∀ hall reply, Keeps roomId room ⟨request, .leaveRequest roomId uid⟩ hall reply →
      (takeLeave request roomId uid).wpTrail (Keeps roomId room) (fun value _ _ ↦ value = 0)
        (fun _ _ _ ↦ True) ⟨[], ⟨request, .leaveRequest roomId uid⟩, hall, reply⟩ hall := by
  refine ⟨?_, fun hall reply hkeeps ↦
    Program.wpTrail_mono (fun _ _ _ h ↦ h.1) (fun _ _ _ _ ↦ trivial) (fares_takeLeave hkeeps)⟩
  have hwaits : (runs 0).thread = some (leaving request roomId uid) := hfirst ▸ hthread
  obtain ⟨time, hended⟩ := hattends.exists_ended (Option.isSome_of_eq_some hwaits)
  have hfollow := hfirst ▸ hattends.followAll_of time
  have hkeeps : ∀ turn ∈ (runs time).turns, Keeps roomId room turn.point turn.origin turn.reply := by
    intro turn hturn
    obtain ⟨reached, hrun, hstate⟩ := System.reached_of_followAll hthread hfollow turn hturn
    have hgood := (sound_hallService False).good_of_run (good_openHall False dbServiceCnt)
      ((hreached.trans hrun).mono fun _ _ _ hfalse ↦ hfalse.elim)
    exact ⟨hstate ▸ hgood.holds.rooms, hanswers time turn hturn, fun hpoint ↦ (hseated time turn hturn hpoint).1⟩
  obtain ⟨trail, last, hvisits, hend⟩ := System.trail_of_followAll hthread
    (fun _ _ hkeeps ↦ fares_leaving hrequest hkeeps) hfollow hkeeps hended
  have hmem : ∀ turn ∈ (runs time).turns, turn.visit ∈ trail.ended last := fun turn hturn ↦
    hvisits ▸ List.mem_map_of_mem hturn
  refine ⟨time, hended, fun hready hstill ↦ ?_, fun hdeparts turn hturn ↦ ?_⟩
  · rcases hend with ⟨hreturns, hpoint, honWay, hinforms, hexited⟩ | ⟨-, error, ⟨visit, hvisit, hastray⟩ | hmoved⟩
    · refine ⟨hreturns, ?_, fun turn hturn ↦ honWay.leavesOut turn.visit (hmem turn hturn),
        hvisits ▸ hinforms (hvisits ▸ hstill)⟩
      have hlast : (⟨trail.point, trail.origin, trail.reply, last⟩ : Visit skynet Served Hall) ∈
          (runs time).turns.map Coroutine.Turn.visit :=
        hvisits ▸ List.mem_append_right _ (List.mem_singleton_self _)
      obtain ⟨turn, hturn, hvisit⟩ := List.mem_map.mp hlast
      exact ⟨turn, hturn, (congrArg Visit.point hvisit).trans hpoint, fun hdisconnect ↦
        (congrArg (fun visit ↦ (visit.last.agents agent).exited) hvisit).trans (hexited hdisconnect)⟩
    · obtain ⟨turn, hturn, rfl⟩ := List.mem_map.mp (hvisits ▸ hvisit)
      exact nomatch (hready turn hturn).symm.trans hastray
    · exact absurd (hvisits ▸ hstill) hmoved
  · rcases hend with ⟨-, -, honWay, -⟩ | ⟨⟨other, hother, hfails⟩, -⟩
    · exact honWay.ready turn.visit (hmem turn hturn)
    · exact nomatch (hdeparts.returns other hother).symm.trans hfails

/-- A client leaves in the middle of the game of two players, because his connection closes. -/
def leavesGame : List (Move skynet Served) :=
  [.resume 2 .ok [.order [1000]], .resume 2 .ok [], .resume 2 .ok [.number 21, .order [2]],
    .resume 2 .ok [], .resume 2 .ok [], .resume 2 .ok [], .resume 2 .ok [.order [2], .order [2]],
    .resume 2 .ok [], .resume 2 .ok []]

/-- He has a seat, the agents answer, the fight service has got `onStart`, and nobody comes meanwhile: his agent
reaches `skynet.exit`. -/
theorem leave_returns_game : ∃ first runs moves, hallService.AnyRun (openHall 1) first ∧
    first.threads[2]? = some (leaving (.disconnect 0) 1000 1) ∧ runs 0 = first.following 2 ∧
    hallService.Attends runs moves ∧ ∃ time, (runs time).thread = none ∧
      Departs (.disconnect 0) 0 0 1 (runs time).turns := by
  obtain ⟨first, last, hrun, hthread, hfollow, hvalue⟩ := exists_leaving
    (.disconnect : Request.Leaves 0 (.disconnect 0)) (twoSeated ++ startsGame) leavesGame
    (fun _ last ↦ (last.index, decide (∀ turn ∈ last.turns,
      (turn.point.place.isLeave = true → turn.origin.lobby.roomQueue.lookup 1000 = some 0 ∧
        1 ∈ (turn.origin.lobby.players 0).keys) ∧ turn.reply ≠ .raised ∧
          ready 0 turn.point turn.origin = true),
      decide (StillTables 0 (last.turns.map Coroutine.Turn.visit))))
    (show _ = some (2, true, some 1000, 1) by decide +kernel)
    (show _ = some (none, true, true) by decide +kernel)
  simp only [Prod.mk.injEq, decide_eq_true_eq] at hvalue
  obtain ⟨hended, hturns, hstill⟩ := hvalue
  have hfollowing : (first.following 2).thread = some (leaving (.disconnect 0) 1000 1) := hthread
  obtain ⟨runs, moves, hattends, hfirst, hpart⟩ := System.exists_attends
    (show hallService.arrives ⟨.login 0, .start⟩ = true from rfl) (Followed.thread_of_index hended)
    (.of_thread hfollowing) hfollow
  obtain ⟨⟨time, hnone, hdeparts, -⟩, -⟩ := leave_returns .disconnect hrun hthread hfirst hattends
    (fun time turn hturn ↦ (hturns turn ((hpart time).subset hturn)).1)
    (fun time turn hturn _ ↦ (hturns turn ((hpart time).subset hturn)).2.1)
  have htables : StillTables 0 ((runs time).turns.map Coroutine.Turn.visit) :=
    List.IsChain.prefix hstill ((hpart time).map _)
  exact ⟨first, runs, moves, hrun, hthread, hfirst, hattends, time, hnone,
    hdeparts (fun turn hturn ↦ (hturns turn ((hpart time).subset hturn)).2.2) htables⟩

/-- Two players wait for their game, and the connection of one closes. `leave_room` raises, and his agent does
not reach `skynet.exit`. -/
theorem leave_raises_waiting : ∃ first last, hallService.AnyRun (openHall 1) first ∧
    first.threads[1]? = some (leaving (.disconnect 0) 1000 1) ∧
    (first.state.lobby.roomQueue.lookup 1000 = some 0 ∧ 1 ∈ (first.state.lobby.players 0).keys) ∧
    hallService.followAll (first.following 1) [.resume 1 .ok [.order [1000]], .resume 1 .ok []] = some last ∧
    last.index = none ∧ (∃ turn ∈ last.turns, turn.fails = true) ∧
      (last.configuration.state.agents 0).exited = false := by
  obtain ⟨first, last, hrun, hthread, hfollow, hvalue⟩ := exists_leaving
    (.disconnect : Request.Leaves 0 (.disconnect 0)) twoSeated
    [.resume 1 .ok [.order [1000]], .resume 1 .ok []]
    (fun first last ↦ (first.state.lobby.roomQueue.lookup 1000, decide (1 ∈ (first.state.lobby.players 0).keys),
      last.index, decide (∃ turn ∈ last.turns, turn.fails = true), (last.configuration.state.agents 0).exited))
    (show _ = some (1, true, some 1000, 1) by decide +kernel)
    (show _ = some (some 0, true, none, true, false) by decide +kernel)
  simp only [Prod.mk.injEq, decide_eq_true_eq] at hvalue
  obtain ⟨hqueued, hseated, hended, hfails, hexited⟩ := hvalue
  exact ⟨first, last, hrun, hthread, ⟨hqueued, hseated⟩, hfollow, hended, hfails, hexited⟩

end SvrDemo.Douniu
