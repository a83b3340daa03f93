import SvrDemo.Douniu.HallMatch
import SvrDemo.Douniu.RoomStore

/-!
# What holds in every state of the hall

`HallInvariant` is the invariant of the services together: the rooms have the ids in which they were made and
name the agents of their players (`Rooms`), every fight service belongs to one room (`Services`), one
coroutine at most runs `matchLoop`, and the room whose game it starts is not locked and has the fight service
that the agents are told (`Starting`). It holds in every run; the runs in which nobody enters a room while
its game is being started also keep what `startGame` relies on.
-/

set_option autoImplicit false
set_option relaxedAutoImplicit false

namespace SvrDemo.Douniu

open Coroutine Lua Skynet

/-! ### The rooms -/

/-- The rooms have consecutive ids, every record of a room names an agent, and a room with players is in the
queue. -/
structure Rooms (lobby : Lobby) : Prop extends RoomStore lobby where
  next : lobby.maxRoomIdx = Lobby.empty.maxRoomIdx + lobby.roomCnt
  number : ∀ room < lobby.roomCnt, (lobby.rooms room).roomId = Lobby.empty.maxRoomIdx + room
  agent : ∀ room key player, (lobby.players room).lookup key = some player →
    ∃ agent, player.agent = some agent
  queued : ∀ room key player, (lobby.players room).lookup key = some player →
    lobby.roomQueue.lookup (lobby.rooms room).roomId = some room

namespace Rooms

variable {origin last : Lobby}

theorem kept (h : Rooms origin) (hkept : Kept origin last) : Rooms last where
  toRoomStore := h.toRoomStore.kept hkept
  next := by
    rw [hkept.maxRoomIdx, hkept.roomCnt]
    exact h.next
  number room hroom := by
    rw [hkept.roomId]
    exact h.number room (hkept.roomCnt ▸ hroom)
  agent room key player hplayer := h.agent room key player (hkept.players room ▸ hplayer)
  queued room key player hplayer := by
    rw [hkept.players] at hplayer
    have hqueued := h.queued room key player hplayer
    rw [hkept.roomId]
    rcases hkept.queue (origin.rooms room).roomId with hsame | ⟨-, hempty⟩
    · exact hsame.trans hqueued
    · exact absurd (hempty room hqueued) (Table.size_ne_zero hplayer)

theorem addRoom (h : Rooms origin) {roomOdds : Option LuaInt} {playerLst : Table RoomPlayer} (now : ℤ)
    (hsize : playerLst.size ≤ maxPlayer)
    (hagent : ∀ key player, playerLst.lookup key = some player → ∃ agent, player.agent = some agent) :
    Rooms (origin.addRoom roomOdds playerLst now) where
  toRoomStore := h.toRoomStore.addRoom now hsize
  next := by
    change origin.maxRoomIdx + 1 = Lobby.empty.maxRoomIdx + (origin.roomCnt + 1)
    rw [h.next, Nat.add_assoc]
  number room hroom := by
    rw [Lobby.roomId_addRoom]
    split
    · next hnew => rw [hnew, h.next]
    · next hold =>
      exact h.number room (lt_of_le_of_ne (Nat.lt_succ_iff.mp hroom) hold)
  agent room key player hplayer := by
    rw [Lobby.players_addRoom] at hplayer
    split at hplayer
    · exact hagent key player hplayer
    · exact h.agent room key player hplayer
  queued room key player hplayer := by
    rw [Lobby.players_addRoom] at hplayer
    rw [Lobby.roomId_addRoom, Lobby.lookup_addRoom]
    split at hplayer
    · next hnew => rw [if_pos hnew, if_pos rfl, hnew]
    · next hold =>
      have hqueued := h.queued room key player hplayer
      rw [if_neg hold, if_neg (h.ids _ room hqueued).ne]
      exact hqueued

theorem seat (h : Rooms origin) {room : ℕ} {player : RoomPlayer}
    (hqueued : origin.roomQueue.lookup (origin.rooms room).roomId = some room)
    (hsize : (origin.players room).size < maxPlayer) (hagent : ∃ agent, player.agent = some agent) :
    Rooms (origin.seat room player) where
  toRoomStore := h.toRoomStore.seat player hsize
  next := h.next
  number other hother := (origin.roomId_seat room other player).trans (h.number other hother)
  agent other key player' hplayer := by
    rw [Lobby.players_seat] at hplayer
    split at hplayer
    · rw [Table.lookup_insert_eq] at hplayer
      split at hplayer
      · obtain rfl := Option.some.inj hplayer
        exact hagent
      · exact h.agent room key player' hplayer
    · exact h.agent other key player' hplayer
  queued other key player' hplayer := by
    rw [Lobby.players_seat] at hplayer
    rw [Lobby.roomId_seat]
    split at hplayer
    · next hsame =>
      subst hsame
      exact hqueued
    · exact h.queued other key player' hplayer

theorem unseat (h : Rooms origin) (room uid : ℕ) : Rooms (origin.unseat room uid) where
  toRoomStore := h.toRoomStore.unseat room uid
  next := h.next
  number other hother := (origin.roomId_unseat room other uid).trans (h.number other hother)
  agent other key player hplayer := h.agent other key player (Lobby.lookup_of_unseat _ hplayer)
  queued other key player hplayer := by
    rw [Lobby.roomId_unseat]
    exact h.queued other key player (Lobby.lookup_of_unseat _ hplayer)

/-- A room in the queue is there under its id. -/
theorem lookup_roomId (h : Rooms origin) {key room : ℕ} (hroom : origin.roomQueue.lookup key = some room) :
    origin.roomQueue.lookup (origin.rooms room).roomId = some room := by
  rw [h.roomId key room hroom]
  exact hroom

end Rooms

theorem rooms_empty : Rooms .empty where
  toRoomStore := roomStore_empty
  next := rfl
  number _ hroom := absurd hroom (Nat.not_lt_zero _)
  agent _ _ _ hplayer := nomatch hplayer
  queued _ _ _ hplayer := nomatch hplayer

/-! ### Places -/

namespace Served

/-- The room whose agents `startGame` has begun to tell their fight. -/
def engaged : Served → Option ℕ
  | ⟨.matchLoop, .lobby (.waits (.setFight room _ _))⟩ => some room
  | ⟨.matchLoop, .lobby (.handled (.setFight room _ _))⟩ => some room
  | ⟨.matchLoop, .inFight (.onStart _ room _) _⟩ => some room
  | _ => none

theorem eq_of_calls {point : Served} {fight room : ℕ} {roomInfo : RoomInfo}
    (hcalls : point.calls = some (fight, room, roomInfo)) :
    point = ⟨.matchLoop, .inFight (.onStart fight room roomInfo) .request⟩ := by
  unfold calls at hcalls
  split at hcalls
  · cases hcalls
    rfl
  · exact nomatch hcalls

theorem starts_of_telling {point : Served} {room : ℕ} (htelling : point.telling = some room) :
    ∃ fight, point.starts = some (room, fight) := by
  unfold telling at htelling
  split at htelling
  · cases htelling
    exact ⟨_, rfl⟩
  · cases htelling
    exact ⟨_, rfl⟩
  · exact nomatch htelling

theorem engaged_of_telling {point : Served} {room : ℕ} (htelling : point.telling = some room) :
    point.engaged = some room := by
  unfold telling at htelling
  split at htelling
  · exact htelling
  · exact htelling
  · exact nomatch htelling

theorem isMatch_of_calls {point : Served} {call : ℕ × ℕ × RoomInfo} (hcalls : point.calls = some call) :
    point.isMatch = true := by
  rw [eq_of_calls hcalls]
  rfl

theorem isMatch_of_starts {point : Served} {start : ℕ × Option ℕ} (hstarts : point.starts = some start) :
    point.isMatch = true := by
  unfold starts at hstarts
  split at hstarts
  · rfl
  · rfl
  · rfl
  · rfl
  · exact nomatch hstarts

theorem isMatch_of_running {point : Served} {start : ℕ × ℕ} (hrunning : point.running = some start) :
    point.isMatch = true := by
  unfold running at hrunning
  split at hrunning
  · rfl
  · rfl
  · exact nomatch hrunning

theorem starts_of_running {point : Served} {room fight : ℕ} (hrunning : point.running = some (room, fight)) :
    point.starts = some (room, some fight) := by
  unfold running at hrunning
  split at hrunning
  · cases hrunning
    rfl
  · cases hrunning
    rfl
  · exact nomatch hrunning

theorem idle_of_live {point : Served} {fight : ℕ} (hlive : point.live = some fight) : point.idle = true := by
  unfold live at hlive
  split at hlive
  · rfl
  · rfl
  · rfl
  · exact nomatch hlive

theorem calls_of_live {point : Served} {fight : ℕ} (hlive : point.live = some fight) :
    point.calls = none := by
  unfold live at hlive
  split at hlive
  · rfl
  · rfl
  · rfl
  · exact nomatch hlive

theorem isMatch_eq {point place : Served} (hrequest : place.request = point.request) :
    place.isMatch = point.isMatch := by
  obtain ⟨request, at'⟩ := point
  obtain ⟨request', at''⟩ := place
  obtain rfl : request' = request := hrequest
  cases request' with
  | _ => rfl

theorem Passes.isMatch {point : Served} (h : point.Passes) : point.isMatch = true := by
  cases h with
  | start => rfl
  | started => rfl

end Served

/-! ### What a section does to the rooms -/

namespace Lobby

variable (lobby : Lobby) (room other uid : ℕ) (player : RoomPlayer)

theorem status_seat : ((lobby.seat room player).rooms other).status = (lobby.rooms other).status := by
  rw [seat, rooms_updateRoom]
  split
  · next hother => rw [hother, RoomInfo.addPlayer]
  · rfl

theorem status_unseat : ((lobby.unseat room uid).rooms other).status = (lobby.rooms other).status := by
  rw [unseat, rooms_updateRoom]
  split
  · next hother => rw [hother, RoomInfo.removePlayer]
  · rfl

theorem fightIns_seat : ((lobby.seat room player).rooms other).fightIns = (lobby.rooms other).fightIns := by
  rw [seat, rooms_updateRoom]
  split
  · next hother => rw [hother, RoomInfo.addPlayer]
  · rfl

theorem fightIns_unseat : ((lobby.unseat room uid).rooms other).fightIns = (lobby.rooms other).fightIns := by
  rw [unseat, rooms_updateRoom]
  split
  · next hother => rw [hother, RoomInfo.removePlayer]
  · rfl

end Lobby

namespace Does

variable {point : Served} {origin last : Hall} {heard : List Answer}

theorem roomCnt (h : Does point origin heard last) : origin.lobby.roomCnt ≤ last.lobby.roomCnt := by
  obtain ⟨target, hdid, hcalm⟩ := h
  rw [hcalm.lobby]
  cases hdid with
  | created => exact Nat.le_succ _
  | entered _ _ _ _ takesRoom =>
    cases takesRoom with
    | found => exact le_rfl
    | made => exact Nat.le_succ _
  | passed _ swept => exact swept.roomCnt.ge
  | locked _ swept => exact swept.roomCnt.ge
  | _ => exact le_rfl

theorem rooms (h : Does point origin heard last) (hrooms : Rooms origin.lobby) : Rooms last.lobby := by
  obtain ⟨target, hdid, hcalm⟩ := h
  rw [hcalm.lobby]
  cases hdid with
  | nothing => exact hrooms
  | created now takes known =>
    refine hrooms.addRoom now (by rw [Table.size_singleton]; decide) fun key player hplayer ↦ ?_
    by_cases hkey : key = 1
    · subst hkey
      rw [Finmap.lookup_singleton_eq] at hplayer
      obtain rfl := Option.some.inj hplayer
      exact ⟨_, known⟩
    · have hmem := Finmap.mem_of_lookup_eq_some hplayer
      exact absurd ((Finmap.mem_singleton key 1 _).mp hmem) hkey
  | entered takes known hears isOrder takesRoom =>
    obtain ⟨-, hsize⟩ := hrooms.toRoomStore.roomFor takesRoom
    cases takesRoom with
    | found finds =>
      obtain ⟨⟨key, hkey⟩, -⟩ := Lobby.findRoom_spec finds
      exact hrooms.seat (hrooms.lookup_roomId hkey) hsize ⟨_, known⟩
    | made now finds =>
      refine (hrooms.addRoom now (by decide) fun _ _ hplayer ↦ ?_).seat ?_ hsize ⟨_, known⟩
      · exact nomatch hplayer
      · rw [Lobby.roomId_addRoom, if_pos rfl, Lobby.lookup_addRoom, if_pos rfl]
  | departed => exact hrooms.unseat _ _
  | unlocked =>
    apply hrooms.kept
    dsimp only
    apply Lobby.kept_updateRoom
    · exact fun _ ↦ rfl
    · exact fun _ ↦ rfl
    · exact fun _ ↦ rfl
  | told => exact hrooms
  | ensured =>
    apply hrooms.kept
    dsimp only
    apply Lobby.kept_updateRoom
    · exact fun _ ↦ rfl
    · exact fun _ ↦ rfl
    · exact fun _ ↦ rfl
  | opened => exact hrooms
  | passed _ swept => exact hrooms.kept swept.toKept
  | locked _ swept =>
    apply (hrooms.kept ?_).kept swept.toKept
    apply Lobby.kept_updateRoom
    · exact fun _ ↦ rfl
    · exact fun _ ↦ rfl
    · exact fun _ ↦ rfl

/-- What becomes of the status of a room: it stays, or a fight service has the room unlocked, or the room is
locked for the answer of `onStart`. -/
theorem status (h : Does point origin heard last) {room : ℕ} (hroom : room < origin.lobby.roomCnt) :
    (last.lobby.rooms room).status = (origin.lobby.rooms room).status ∨
      (∃ roomId, point.unlocks = some roomId ∧ origin.lobby.roomQueue.lookup roomId = some room ∧
        (last.lobby.rooms room).status = 0) ∨
      ∃ fight roomInfo, point = ⟨.matchLoop, .inFight (.onStart fight room roomInfo) (.reply true)⟩ := by
  obtain ⟨target, hdid, hcalm⟩ := h
  rw [hcalm.lobby]
  cases hdid with
  | created => exact .inl (by simp [Lobby.addRoom, Function.update_of_ne hroom.ne])
  | entered _ _ _ _ takesRoom =>
    refine .inl ?_
    rw [Lobby.status_seat]
    cases takesRoom with
    | found => rfl
    | made => simp [Lobby.addRoom, Function.update_of_ne hroom.ne]
  | departed => exact .inl (Lobby.status_unseat ..)
  | @unlocked roomId other now takes finds =>
    by_cases hsame : room = other
    · subst hsame
      exact .inr (.inl ⟨roomId, takes, finds, by simp [Lobby.rooms_updateRoom]⟩)
    · exact .inl (by simp [Lobby.rooms_updateRoom, hsame])
  | ensured =>
    refine .inl ?_
    rw [Lobby.rooms_updateRoom]
    split
    · next hsame => rw [hsame]
    · rfl
  | passed _ swept => exact .inl (swept.status room)
  | @locked fight other roomInfo _ takes swept =>
    by_cases hsame : room = other
    · subst hsame
      exact .inr (.inr ⟨fight, roomInfo, takes⟩)
    · exact .inl (by rw [swept.status, Lobby.rooms_updateRoom, if_neg hsame])
  | _ => exact .inl rfl

/-- The room whose `onStart` is answered is locked. -/
theorem status_locked (h : Does point origin heard last) {fight room : ℕ} {roomInfo : RoomInfo}
    (hpoint : point = ⟨.matchLoop, .inFight (.onStart fight room roomInfo) (.reply true)⟩) :
    (last.lobby.rooms room).status = 1 := by
  subst hpoint
  obtain ⟨target, hdid, hcalm⟩ := h
  rw [hcalm.lobby]
  cases hdid with
  | nothing idle => exact nomatch idle
  | created _ takes => exact nomatch takes
  | entered takes => exact nomatch takes
  | departed takes => exact nomatch takes
  | unlocked _ takes => exact nomatch takes
  | told takes => exact nomatch takes
  | ensured takes => exact nomatch takes
  | opened _ takes => exact nomatch takes
  | passed takes => exact nomatch takes
  | locked takes swept =>
    cases takes
    rw [swept.status, Lobby.rooms_updateRoom, if_pos rfl]

/-- What becomes of the fight service of a room: it stays, or a pass clears it while the room waits, or it is
the one that has just been started. -/
theorem fightIns (h : Does point origin heard last) {room : ℕ} (hroom : room < origin.lobby.roomCnt) :
    (last.lobby.rooms room).fightIns = (origin.lobby.rooms room).fightIns ∨
      (point.Passes ∧ (origin.lobby.rooms room).status = 0 ∧ (last.lobby.rooms room).fightIns = none) ∨
      (point = ⟨.matchLoop, .lobby (.waits (.newService room))⟩ ∧
        (last.lobby.rooms room).fightIns = some origin.fightCnt ∧ last.fightCnt = origin.fightCnt + 1) := by
  obtain ⟨target, hdid, hcalm⟩ := h
  rw [hcalm.lobby, hcalm.fightCnt]
  cases hdid with
  | created => exact .inl (by simp [Lobby.addRoom, Function.update_of_ne hroom.ne])
  | entered _ _ _ _ takesRoom =>
    refine .inl ?_
    rw [Lobby.fightIns_seat]
    cases takesRoom with
    | found => rfl
    | made => simp [Lobby.addRoom, Function.update_of_ne hroom.ne]
  | departed => exact .inl (Lobby.fightIns_unseat ..)
  | unlocked =>
    refine .inl ?_
    rw [Lobby.rooms_updateRoom]
    split
    · next hsame => rw [hsame]
    · rfl
  | @ensured other takes =>
    by_cases hsame : room = other
    · subst hsame
      exact .inr (.inr ⟨takes, by simp [Lobby.rooms_updateRoom], rfl⟩)
    · exact .inl (by simp [Lobby.rooms_updateRoom, hsame])
  | passed takes swept =>
    rcases swept.fightIns room with hsame | ⟨hstatus, hnone⟩
    · exact .inl hsame
    · exact .inr (.inl ⟨takes ▸ .start, hstatus, hnone⟩)
  | @locked fight other roomInfo _ takes swept =>
    have hpasses : point.Passes := takes ▸ .started _ _ _
    rcases swept.fightIns room with hsame | ⟨hstatus, hnone⟩
    · refine .inl (hsame.trans ?_)
      rw [Lobby.rooms_updateRoom]
      split
      · next hroom => rw [hroom]
      · rfl
    · refine .inr (.inl ⟨hpasses, ?_, hnone⟩)
      rw [Lobby.rooms_updateRoom] at hstatus
      split at hstatus
      · cases hstatus
      · exact hstatus
  | _ => exact .inl rfl

/-- A new room has no fight service. -/
theorem fightIns_new (h : Does point origin heard last) {room : ℕ} (hnew : ¬ room < origin.lobby.roomCnt)
    (hroom : room < last.lobby.roomCnt) : (last.lobby.rooms room).fightIns = none := by
  obtain ⟨target, hdid, hcalm⟩ := h
  rw [hcalm.lobby] at hroom ⊢
  have hlast : ∀ (odds : Option LuaInt) (playerLst : Table RoomPlayer) (now : ℤ),
      room < (origin.lobby.addRoom odds playerLst now).roomCnt →
        ((origin.lobby.addRoom odds playerLst now).rooms room).fightIns = none := by
    intro odds playerLst now hroom
    obtain rfl : room = origin.lobby.roomCnt :=
      le_antisymm (Nat.lt_succ_iff.mp hroom) (not_lt.mp hnew)
    simp [Lobby.addRoom]
  cases hdid with
  | created => exact hlast _ _ _ hroom
  | entered _ _ _ _ takesRoom =>
    rw [Lobby.fightIns_seat]
    cases takesRoom with
    | found => exact absurd hroom hnew
    | made => exact hlast _ _ _ hroom
  | passed _ swept => exact absurd (swept.roomCnt ▸ hroom) hnew
  | locked _ swept => exact absurd (swept.roomCnt ▸ hroom) hnew
  | _ => exact absurd hroom hnew

/-- The fight service of a room afterwards: the one it had before, or the one that has just been started. -/
theorem fightIns_some (h : Does point origin heard last) {room fight : ℕ}
    (hroom : room < last.lobby.roomCnt) (hfight : (last.lobby.rooms room).fightIns = some fight) :
    room < origin.lobby.roomCnt ∧ ((origin.lobby.rooms room).fightIns = some fight ∨
      point = ⟨.matchLoop, .lobby (.waits (.newService room))⟩ ∧ fight = origin.fightCnt ∧
        last.fightCnt = origin.fightCnt + 1) := by
  by_cases hold : room < origin.lobby.roomCnt
  · refine ⟨hold, ?_⟩
    rcases h.fightIns hold with hsame | ⟨-, -, hnone⟩ | ⟨hpoint, hnew, hcnt⟩
    · exact .inl (hsame.symm.trans hfight)
    · exact nomatch hnone.symm.trans hfight
    · exact .inr ⟨hpoint, Option.some.inj (hfight.symm.trans hnew), hcnt⟩
  · exact nomatch (h.fightIns_new hold hroom).symm.trans hfight

/-- Only `enter_room` seats a player in a room that was there before. -/
theorem players (h : Does point origin heard last) {room key : ℕ} {player : RoomPlayer}
    (hroom : room < origin.lobby.roomCnt)
    (hplayer : (last.lobby.players room).lookup key = some player) :
    (origin.lobby.players room).lookup key = some player ∨
      ∃ agent reply order answers, point = ⟨.enterRoom agent, .request⟩ ∧
        heard = reply :: .order order :: answers ∧ origin.lobby.findRoom order = some room := by
  obtain ⟨target, hdid, hcalm⟩ := h
  rw [hcalm.lobby] at hplayer
  cases hdid with
  | created =>
    rw [Lobby.players_addRoom, if_neg hroom.ne] at hplayer
    exact .inl hplayer
  | @entered agent other _ reply order answers middle takes _ hears _ takesRoom =>
    rw [Lobby.players_seat] at hplayer
    cases takesRoom with
    | found finds =>
      by_cases hsame : room = other
      · subst hsame
        exact .inr ⟨agent, reply, order, answers, takes, hears, finds⟩
      · rw [if_neg hsame] at hplayer
        exact .inl hplayer
    | made now =>
      rw [if_neg hroom.ne, Lobby.players_addRoom, if_neg hroom.ne] at hplayer
      exact .inl hplayer
  | departed => exact .inl (Lobby.lookup_of_unseat _ hplayer)
  | unlocked | ensured =>
    rw [Lobby.players, Lobby.rooms_updateRoom] at hplayer
    split at hplayer
    · next hsame => exact .inl (hsame ▸ hplayer)
    · exact .inl hplayer
  | passed _ swept => exact .inl (swept.players room ▸ hplayer)
  | locked _ swept =>
    rw [swept.players, Lobby.players, Lobby.rooms_updateRoom] at hplayer
    split at hplayer
    · next hsame => exact .inl (hsame ▸ hplayer)
    · exact .inl hplayer
  | _ => exact .inl hplayer

/-- Only `enter_room`, and a `leave_room` of a player who is not there, assign a new key to the table of the
players of a room that was there before. -/
theorem layout (h : Does point origin heard last) {room : ℕ} (hroom : room < origin.lobby.roomCnt) :
    (last.lobby.rooms room).layout = (origin.lobby.rooms room).layout ∨
      (∃ agent reply order answers, point = ⟨.enterRoom agent, .request⟩ ∧
        heard = reply :: .order order :: answers ∧ origin.lobby.findRoom order = some room) ∨
      ∃ roomId uid reply order answers, point.place = .leaveRequest roomId uid ∧
        heard = reply :: .order order :: answers ∧ origin.lobby.findId order roomId = some room ∧
          uid ∉ (origin.lobby.players room).keys := by
  obtain ⟨target, hdid, hcalm⟩ := h
  rw [hcalm.lobby]
  have hmade : ∀ (odds : Option LuaInt) (playerLst : Table RoomPlayer) (now : ℤ),
      ((origin.lobby.addRoom odds playerLst now).rooms room).layout = (origin.lobby.rooms room).layout := by
    intro odds playerLst now
    rw [Lobby.addRoom]
    dsimp only
    rw [Function.update_of_ne hroom.ne]
  cases hdid with
  | created => exact .inl (hmade _ _ _)
  | @entered agent other player reply order answers middle takes _ hears _ takesRoom =>
    cases takesRoom with
    | found finds =>
      by_cases hsame : room = other
      · subst hsame
        exact .inr (.inl ⟨agent, reply, order, answers, takes, hears, finds⟩)
      · refine .inl ?_
        rw [Lobby.seat, Lobby.rooms_updateRoom, if_neg hsame]
    | made now =>
      refine .inl ?_
      rw [Lobby.seat, Lobby.rooms_updateRoom, if_neg hroom.ne]
      exact hmade _ _ _
  | @departed roomId uid other reply order answers takes hears finds =>
    by_cases hsame : room = other
    · subst hsame
      by_cases hseated : uid ∈ (origin.lobby.players room).keys
      · refine .inl ?_
        rw [Lobby.unseat, Lobby.rooms_updateRoom, if_pos rfl, RoomInfo.removePlayer]
        exact if_pos hseated
      · exact .inr (.inr ⟨roomId, uid, reply, order, answers, takes, hears, finds, hseated⟩)
    · refine .inl ?_
      rw [Lobby.unseat, Lobby.rooms_updateRoom, if_neg hsame]
  | unlocked | ensured =>
    refine .inl ?_
    rw [Lobby.rooms_updateRoom]
    split
    · next hsame => rw [hsame]
    · rfl
  | passed _ swept => exact .inl (swept.layout room)
  | locked _ swept =>
    refine .inl ((swept.layout room).trans ?_)
    rw [Lobby.rooms_updateRoom]
    split
    · next hsame => rw [hsame]
    · rfl
  | _ => exact .inl rfl

/-! ### What a section does to the fights and the agents -/

theorem fightCnt (h : Does point origin heard last) : origin.fightCnt ≤ last.fightCnt := by
  obtain ⟨target, hdid, hcalm⟩ := h
  rw [hcalm.fightCnt]
  cases hdid with
  | ensured => exact Nat.le_succ _
  | _ => exact le_rfl

/-- Only the call of `onStart` changes who plays in a fight service, and for which room. -/
theorem fights (h : Does point origin heard last) (fight : ℕ) :
    KeepsSeats (origin.fights fight) (last.fights fight) ∨
      ∃ room roomInfo, point.calls = some (fight, room, roomInfo) := by
  obtain ⟨target, hdid, hcalm⟩ := h
  have hkeeps := hcalm.fights fight
  cases hdid with
  | @opened other room roomInfo _ _ takes =>
    by_cases hsame : fight = other
    · subst hsame
      exact .inr ⟨room, roomInfo, takes⟩
    · refine .inl ?_
      dsimp only at hkeeps
      rw [Function.update_of_ne hsame] at hkeeps
      exact hkeeps
  | _ => exact .inl hkeeps

/-- The call of `onStart` begins a new game. -/
theorem fights_opened (h : Does point origin heard last) {fight room : ℕ} {roomInfo : RoomInfo}
    (hcalls : point.calls = some (fight, room, roomInfo)) :
    ∃ order now, IsOrder order roomInfo.playerLst.keys ∧
      KeepsSeats (newGame (origin.fights fight) roomInfo order now) (last.fights fight) := by
  obtain rfl : point = ⟨.matchLoop, .inFight (.onStart fight room roomInfo) .request⟩ :=
    Served.eq_of_calls hcalls
  obtain ⟨target, hdid, hcalm⟩ := h
  have hkeeps := hcalm.fights fight
  cases hdid with
  | nothing idle => exact nomatch idle
  | created _ takes => exact nomatch takes
  | entered takes => exact nomatch takes
  | departed takes => exact nomatch takes
  | unlocked _ takes => exact nomatch takes
  | told takes => exact nomatch takes
  | ensured takes => exact nomatch takes
  | opened now takes isOrder =>
    cases takes
    simp only [Function.update_self] at hkeeps
    exact ⟨_, now, isOrder, hkeeps⟩
  | passed takes => exact nomatch takes
  | locked takes => exact nomatch takes

/-- The agents keep what they have been offered. -/
theorem offered (h : Does point origin heard last) (agent : ℕ) :
    (origin.agents agent).offered ⊆ (last.agents agent).offered := by
  obtain ⟨target, hdid, hcalm⟩ := h
  rw [hcalm.offered]
  cases hdid with
  | @told _ other fight =>
    by_cases hsame : agent = other
    · subst hsame
      simp [Hall.updateAgent, offered_setFight]
    · simp [Hall.updateAgent, hsame]
  | _ => exact List.Subset.refl _

/-- The agents keep what they have been given. -/
theorem given (h : Does point origin heard last) (agent : ℕ) :
    (origin.agents agent).given ⊆ (last.agents agent).given := by
  obtain ⟨target, hdid, hcalm⟩ := h
  refine List.Subset.trans ?_ (hcalm.given agent)
  cases hdid with
  | @told _ other fight =>
    by_cases hsame : agent = other
    · subst hsame
      simpa [Hall.updateAgent] using given_setFight_subset _ _
    · simp [Hall.updateAgent, hsame]
  | _ => exact List.Subset.refl _

end Does

/-! ### The invariant -/

/-- Every fight service belongs to one room: it is the fight service of that room only, and its copy of the
room has the id of the room. -/
structure Services (hall : Hall) : Prop where
  started : ∀ room < hall.lobby.roomCnt, ∀ fight, (hall.lobby.rooms room).fightIns = some fight →
    fight < hall.fightCnt
  own : ∀ room < hall.lobby.roomCnt, ∀ other < hall.lobby.roomCnt, ∀ fight,
    (hall.lobby.rooms room).fightIns = some fight → (hall.lobby.rooms other).fightIns = some fight →
      room = other
  fresh : ∀ fight, hall.fightCnt ≤ fight → (hall.fights fight).room.map RoomInfo.roomId = none
  serves : ∀ room < hall.lobby.roomCnt, ∀ fight, (hall.lobby.rooms room).fightIns = some fight →
    ∀ roomId ∈ (hall.fights fight).room.map RoomInfo.roomId, roomId = (hall.lobby.rooms room).roomId
  known : ∀ fight, ∀ roomId ∈ (hall.fights fight).room.map RoomInfo.roomId,
    ∃ room < hall.lobby.roomCnt, roomId = (hall.lobby.rooms room).roomId

/-- The room whose game is being started waits for it, and has the fight service that is handed out. -/
structure Starting (lobby : Lobby) (room : ℕ) (fight : Option ℕ) : Prop where
  made : room < lobby.roomCnt
  waits : (lobby.rooms room).status = 0
  fightIns : ∀ service, fight = some service → (lobby.rooms room).fightIns = some service

/-- The invariant of the hall. -/
structure HallInvariant (hall : Hall) (points : List Served) : Prop where
  rooms : Rooms hall.lobby
  services : Services hall
  single : (points.filter Served.isMatch).length ≤ 1
  starting : ∀ point ∈ points, ∀ room fight, point.starts = some (room, fight) →
    Starting hall.lobby room fight
  copies : ∀ point ∈ points, ∀ fight room roomInfo, point.calls = some (fight, room, roomInfo) →
    roomInfo.roomId = (hall.lobby.rooms room).roomId
  playing : ∀ point ∈ points, ∀ fight, point.live = some fight →
    ((hall.fights fight).room.map RoomInfo.roomId).isSome = true

namespace HallInvariant

variable {point : Served} {origin last : Hall} {heard : List Answer} {points : List Served}

/-- The ids of the rooms stay. -/
theorem roomId (h : HallInvariant origin points) (hdoes : Does point origin heard last) {room : ℕ}
    (hroom : room < origin.lobby.roomCnt) :
    (last.lobby.rooms room).roomId = (origin.lobby.rooms room).roomId := by
  rw [(hdoes.rooms h.rooms).number room (hroom.trans_le hdoes.roomCnt), h.rooms.number room hroom]

/-- One coroutine at most runs `matchLoop`. -/
theorem only_match (h : HallInvariant origin points) {other : Served} (hpoint : point ∈ points)
    (hother : other ∈ points) (hmatch : point.isMatch = true) (hmatch' : other.isMatch = true) :
    other = point := by
  obtain ⟨only, honly⟩ := List.length_eq_one_iff.mp (le_antisymm h.single
    (List.length_pos_of_mem (List.mem_filter.mpr ⟨hpoint, hmatch⟩)))
  have hmem := List.mem_filter.mpr ⟨hpoint, hmatch⟩
  have hmem' := List.mem_filter.mpr ⟨hother, hmatch'⟩
  rw [honly] at hmem hmem'
  rw [List.mem_singleton.mp hmem, List.mem_singleton.mp hmem']

/-- The call of `onStart` is for the fight service of the room. -/
theorem starting_of_calls (h : HallInvariant origin points) (hpoint : point ∈ points) {fight room : ℕ}
    {roomInfo : RoomInfo} (hcalls : point.calls = some (fight, room, roomInfo)) :
    Starting origin.lobby room (some fight) := by
  refine h.starting point hpoint room (some fight) ?_
  rw [Served.eq_of_calls hcalls]
  rfl

/-- The call of `onStart` begins a game for the room of its copy. -/
theorem roomId_opened (h : HallInvariant origin points) (hpoint : point ∈ points)
    (hdoes : Does point origin heard last) {fight room : ℕ} {roomInfo : RoomInfo}
    (hcalls : point.calls = some (fight, room, roomInfo)) :
    (last.fights fight).room.map RoomInfo.roomId = some (origin.lobby.rooms room).roomId := by
  obtain ⟨order, now, -, hkeeps⟩ := hdoes.fights_opened hcalls
  rw [hkeeps.roomId, ← h.copies point hpoint fight room roomInfo hcalls]
  rfl

/-- The room of a fight service was there before. -/
theorem known_before (h : HallInvariant origin points) (hpoint : point ∈ points)
    (hdoes : Does point origin heard last) {fight roomId : ℕ}
    (hroomId : roomId ∈ (last.fights fight).room.map RoomInfo.roomId) :
    ∃ room < origin.lobby.roomCnt, roomId = (origin.lobby.rooms room).roomId := by
  rcases hdoes.fights fight with hkeeps | ⟨room, roomInfo, hcalls⟩
  · rw [hkeeps.roomId] at hroomId
    exact h.services.known fight roomId hroomId
  · rw [h.roomId_opened hpoint hdoes hcalls] at hroomId
    obtain rfl := Option.some.inj hroomId
    exact ⟨room, (h.starting_of_calls hpoint hcalls).made, rfl⟩

theorem services_step (h : HallInvariant origin points) (hpoint : point ∈ points)
    (hdoes : Does point origin heard last) : Services last where
  started room hroom fight hfight := by
    obtain ⟨hold, hsame | ⟨-, rfl, hcnt⟩⟩ := hdoes.fightIns_some hroom hfight
    · exact (h.services.started room hold fight hsame).trans_le hdoes.fightCnt
    · rw [hcnt]
      exact Nat.lt_succ_self _
  own room hroom other hother fight hfight hfight' := by
    obtain ⟨hold, hsame | ⟨hnew, rfl, -⟩⟩ := hdoes.fightIns_some hroom hfight
    · obtain ⟨hold', hsame' | ⟨-, rfl, -⟩⟩ := hdoes.fightIns_some hother hfight'
      · exact h.services.own room hold other hold' fight hsame hsame'
      · exact absurd (h.services.started room hold _ hsame) (lt_irrefl _)
    · obtain ⟨hold', hsame' | ⟨hnew', -, -⟩⟩ := hdoes.fightIns_some hother hfight'
      · exact absurd (h.services.started other hold' _ hsame') (lt_irrefl _)
      · cases hnew.symm.trans hnew'
        rfl
  fresh fight hfight := by
    have hbefore : origin.fightCnt ≤ fight := hdoes.fightCnt.trans hfight
    rcases hdoes.fights fight with hkeeps | ⟨room, roomInfo, hcalls⟩
    · rw [hkeeps.roomId]
      exact h.services.fresh fight hbefore
    · have hstarting := h.starting_of_calls hpoint hcalls
      exact absurd (h.services.started room hstarting.made fight (hstarting.fightIns fight rfl))
        (not_lt.mpr hbefore)
  serves room hroom fight hfight roomId hroomId := by
    obtain ⟨hold, hfight⟩ := hdoes.fightIns_some hroom hfight
    rw [h.roomId hdoes hold]
    rcases hdoes.fights fight with hkeeps | ⟨other, roomInfo, hcalls⟩
    · rw [hkeeps.roomId] at hroomId
      rcases hfight with hsame | ⟨-, rfl, -⟩
      · exact h.services.serves room hold fight hsame roomId hroomId
      · rw [h.services.fresh _ le_rfl] at hroomId
        exact nomatch hroomId
    · rw [h.roomId_opened hpoint hdoes hcalls] at hroomId
      obtain rfl := Option.some.inj hroomId
      have hstarting := h.starting_of_calls hpoint hcalls
      rcases hfight with hsame | ⟨hnew, -, -⟩
      · rw [h.services.own room hold other hstarting.made fight hsame (hstarting.fightIns fight rfl)]
      · rw [hnew] at hcalls
        exact nomatch hcalls
  known fight roomId hroomId := by
    obtain ⟨room, hroom, rfl⟩ := h.known_before hpoint hdoes hroomId
    exact ⟨room, hroom.trans_le hdoes.roomCnt, (h.roomId hdoes hroom).symm⟩

end HallInvariant

/-- What is being started goes on being started, as long as no pass of `matchLoop` goes on. -/
theorem Starting.step {point : Served} {origin last : Hall} {heard : List Answer} {room : ℕ}
    {fight : Option ℕ} (h : Starting origin.lobby room fight) (hdoes : Does point origin heard last)
    (hpasses : ¬ point.Passes)
    (hnew : point = ⟨.matchLoop, .lobby (.waits (.newService room))⟩ → fight = none) :
    Starting last.lobby room fight where
  made := h.made.trans_le hdoes.roomCnt
  waits := by
    rcases hdoes.status h.made with hsame | ⟨-, -, -, hzero⟩ | ⟨service, roomInfo, rfl⟩
    · exact hsame.trans h.waits
    · exact hzero
    · exact absurd (.started service room roomInfo) hpasses
  fightIns service hservice := by
    rcases hdoes.fightIns h.made with hsame | ⟨hclears, -, -⟩ | ⟨hpoint, -, -⟩
    · exact hsame.trans (h.fightIns service hservice)
    · exact absurd hclears hpasses
    · exact nomatch hservice.symm.trans (hnew hpoint)

/-- A room that waits for its game may be started with its fight service. -/
theorem Rooms.starting_of_waiting {lobby : Lobby} (h : Rooms lobby) {room : ℕ}
    (hwaiting : lobby.Waiting room) : Starting lobby room (lobby.rooms room).fightIns := by
  obtain ⟨key, hkey, hstatus⟩ := hwaiting
  exact ⟨h.made key room hkey, hstatus, fun _ hservice ↦ hservice⟩

theorem Leads.isMatch {point : Served} {last : Hall} {room : ℕ} (h : Leads last room point) :
    point.isMatch = true := by
  cases h with
  | passes passes => exact passes.isMatch
  | ensured => rfl
  | told => rfl

namespace HallInvariant

variable {point : Served} {origin last : Hall} {heard : List Answer} {before after left : List Served}
  {linked : Prop}

/-- A section leaves at most one coroutine of `matchLoop`, and only when it is one itself. -/
theorem single_left (hleft : Left linked point last left) :
    (left.filter Served.isMatch).length ≤ ([point].filter Served.isMatch).length := by
  have hmatch : ∀ {places : List Served}, (places.filter Served.isMatch).length ≤ 1 →
      point.isMatch = true →
        (places.filter Served.isMatch).length ≤ ([point].filter Served.isMatch).length := by
    intro places hplaces hpoint
    rw [List.filter_cons_of_pos hpoint]
    exact hplaces
  cases hleft with
  | ends => exact Nat.zero_le _
  | goes place under =>
    rw [List.filter_cons, List.filter_cons, Served.isMatch_eq under.request]
    split
    · exact le_rfl
    · exact le_rfl
  | timer => exact Nat.zero_le _
  | opens stage takes => exact hmatch le_rfl (Served.isMatch_of_calls takes)
  | fails ok takes => exact hmatch le_rfl (Served.isMatch_of_calls takes)
  | started takes =>
    rcases takes with hcalls | ⟨hrunning, -⟩
    · exact hmatch le_rfl (Served.isMatch_of_calls hcalls)
    · exact hmatch le_rfl (Served.isMatch_of_running hrunning)
  | nextPass passes => exact hmatch le_rfl passes.isMatch
  | newService passes => exact hmatch le_rfl passes.isMatch
  | tells agent leads => exact hmatch le_rfl leads.isMatch
  | calls leads => exact hmatch le_rfl leads.isMatch

/-- What a section leaves of a start belongs to a room that waits for its game. -/
theorem starting_left {points : List Served} (h : HallInvariant origin points) (hpoint : point ∈ points)
    (hdoes : Does point origin heard last) (hleft : Left linked point last left) :
    ∀ place ∈ left, ∀ room fight, place.starts = some (room, fight) → Starting last.lobby room fight := by
  have hrooms := hdoes.rooms h.rooms
  -- a section of a start that has begun before
  have hgoes : ∀ {room fight}, point.starts = some (room, fight) → point.idle = true →
      Starting last.lobby room fight := by
    intro room fight hstarts hidle
    refine (h.starting point hpoint room fight hstarts).step hdoes (fun hpasses ↦ ?_) fun hnew ↦ ?_
    · cases hpasses with
      | start => exact nomatch hstarts
      | started => exact nomatch hidle
    · rw [hnew] at hstarts
      exact (Prod.mk.inj (Option.some.inj hstarts)).2.symm
  have hcalls : ∀ {fight room roomInfo}, point.calls = some (fight, room, roomInfo) →
      Starting last.lobby room (some fight) := by
    intro fight room roomInfo hcalls
    refine (h.starting_of_calls hpoint hcalls).step hdoes (fun hpasses ↦ ?_) fun hnew ↦ ?_
    · cases hpasses with
      | _ => exact nomatch hcalls
    · rw [hnew] at hcalls
      exact nomatch hcalls
  have hleads : ∀ {room}, Leads last room point →
      Starting last.lobby room (last.lobby.rooms room).fightIns := by
    intro room hleads
    cases hleads with
    | passes passes waiting => exact hrooms.starting_of_waiting waiting
    | ensured =>
      obtain ⟨hmade, hstatus, -⟩ := hgoes rfl rfl
      exact ⟨hmade, hstatus, fun _ hservice ↦ hservice⟩
    | told agent fight =>
      obtain ⟨hmade, hstatus, -⟩ := hgoes rfl rfl
      exact ⟨hmade, hstatus, fun _ hservice ↦ hservice⟩
  cases hleft with
  | ends => exact fun _ hplace ↦ absurd hplace List.not_mem_nil
  | goes place under =>
    intro _ hplace room fight hstarts
    obtain rfl := List.mem_singleton.mp hplace
    rcases under.starts with hnone | hsame
    · exact nomatch hnone.symm.trans hstarts
    · exact hgoes (hsame.symm.trans hstarts) under.idle
  | timer =>
    intro _ hplace room fight hstarts
    obtain rfl := List.mem_singleton.mp hplace
    exact nomatch hstarts
  | opens stage takes =>
    intro _ hplace room fight hstarts
    obtain rfl := List.mem_singleton.mp hplace
    cases hstarts
    exact hcalls takes
  | fails ok takes =>
    intro _ hplace room fight hstarts
    obtain rfl := List.mem_singleton.mp hplace
    cases hstarts
    exact hcalls takes
  | started takes =>
    intro _ hplace room fight hstarts
    rcases List.mem_cons.mp hplace with rfl | hplace
    · exact nomatch hstarts
    · obtain rfl := List.mem_singleton.mp hplace
      cases hstarts
      rcases takes with takes | ⟨hrunning, hlive⟩
      · exact hcalls takes
      · exact hgoes (Served.starts_of_running hrunning) (Served.idle_of_live hlive)
  | nextPass =>
    intro _ hplace room fight hstarts
    obtain rfl := List.mem_singleton.mp hplace
    exact nomatch hstarts
  | newService passes waiting =>
    intro _ hplace room fight hstarts
    obtain rfl := List.mem_singleton.mp hplace
    cases hstarts
    obtain ⟨hmade, hstatus, -⟩ := hrooms.starting_of_waiting waiting
    exact ⟨hmade, hstatus, fun _ hservice ↦ nomatch hservice⟩
  | tells agent leads =>
    intro _ hplace room fight hstarts
    obtain rfl := List.mem_singleton.mp hplace
    cases hstarts
    exact hleads leads
  | calls leads fightIns =>
    intro _ hplace room fight hstarts
    obtain rfl := List.mem_singleton.mp hplace
    cases hstarts
    exact fightIns ▸ hleads leads

/-- The copy that a section hands to `onStart` is of the room. -/
theorem copies_left (hleft : Left linked point last left) : ∀ place ∈ left, ∀ fight room roomInfo,
    place.calls = some (fight, room, roomInfo) → roomInfo.roomId = (last.lobby.rooms room).roomId := by
  cases hleft with
  | ends => exact fun _ hplace ↦ absurd hplace List.not_mem_nil
  | goes place under =>
    intro _ hplace fight room roomInfo hcalls
    obtain rfl := List.mem_singleton.mp hplace
    exact nomatch under.calls.symm.trans hcalls
  | started =>
    intro _ hplace fight room roomInfo hcalls
    rcases List.mem_cons.mp hplace with rfl | hplace
    · exact nomatch hcalls
    · obtain rfl := List.mem_singleton.mp hplace
      exact nomatch hcalls
  | calls =>
    intro _ hplace fight room roomInfo hcalls
    obtain rfl := List.mem_singleton.mp hplace
    cases hcalls
    rfl
  | _ =>
    intro _ hplace fight room roomInfo hcalls
    obtain rfl := List.mem_singleton.mp hplace
    exact nomatch hcalls

/-- A fight service that has a room keeps one. -/
theorem playing_step {points : List Served} (h : HallInvariant origin points) (hpoint : point ∈ points)
    (hdoes : Does point origin heard last) {fight : ℕ}
    (hplaying : ((origin.fights fight).room.map RoomInfo.roomId).isSome = true) :
    ((last.fights fight).room.map RoomInfo.roomId).isSome = true := by
  rcases hdoes.fights fight with hkeeps | ⟨room, roomInfo, hcalls⟩
  · rw [hkeeps.roomId]
    exact hplaying
  · rw [h.roomId_opened hpoint hdoes hcalls]
    rfl

/-- A game that a section leaves going on has a room. -/
theorem playing_left {points : List Served} (h : HallInvariant origin points) (hpoint : point ∈ points)
    (hdoes : Does point origin heard last) (hleft : Left linked point last left) :
    ∀ place ∈ left, ∀ fight, place.live = some fight →
      ((last.fights fight).room.map RoomInfo.roomId).isSome = true := by
  have hopened : ∀ {fight room roomInfo}, point.calls = some (fight, room, roomInfo) →
      ((last.fights fight).room.map RoomInfo.roomId).isSome = true := by
    intro fight room roomInfo hcalls
    rw [h.roomId_opened hpoint hdoes hcalls]
    rfl
  have hgoes : ∀ {fight}, point.live = some fight →
      ((last.fights fight).room.map RoomInfo.roomId).isSome = true :=
    fun hlive ↦ h.playing_step hpoint hdoes (h.playing point hpoint _ hlive)
  cases hleft with
  | ends => exact fun _ hplace ↦ absurd hplace List.not_mem_nil
  | goes place under =>
    intro _ hplace fight hlive
    obtain rfl := List.mem_singleton.mp hplace
    rcases under.live with hnone | hsame
    · exact nomatch hnone.symm.trans hlive
    · exact hgoes (hsame.symm.trans hlive)
  | timer request live =>
    intro _ hplace fight hlive
    obtain rfl := List.mem_singleton.mp hplace
    cases hlive
    exact hgoes live
  | opens stage takes =>
    intro _ hplace fight hlive
    obtain rfl := List.mem_singleton.mp hplace
    cases stage with
    | waits call =>
      cases hlive
      exact hopened takes
    | _ => exact nomatch hlive
  | started takes =>
    intro _ hplace fight hlive
    rcases List.mem_cons.mp hplace with rfl | hplace
    · cases hlive
      rcases takes with takes | ⟨-, hpointLive⟩
      · exact hopened takes
      · exact hgoes hpointLive
    · obtain rfl := List.mem_singleton.mp hplace
      exact nomatch hlive
  | _ =>
    intro _ hplace fight hlive
    obtain rfl := List.mem_singleton.mp hplace
    exact nomatch hlive

/-- Every section keeps the invariant. -/
theorem step (h : HallInvariant origin (before ++ point :: after)) (hdoes : Does point origin heard last)
    (hleft : Left linked point last left) : HallInvariant last (before ++ left ++ after) := by
  have hpoint : point ∈ before ++ point :: after := List.mem_append_right _ List.mem_cons_self
  have hothers : ∀ other ∈ before ++ after, other ∈ before ++ point :: after := by
    intro other hother
    simp only [List.mem_append, List.mem_cons] at hother ⊢
    tauto
  -- the coroutines of `matchLoop` among the others are not resumed
  have halone : ∀ other ∈ before ++ after, other.isMatch = true → point.isMatch = false := by
    intro other hother hmatch
    by_contra hpointMatch
    have hother := alone_of_single h.single (Bool.not_eq_false _ ▸ hpointMatch) other hother
    exact absurd (hmatch.symm.trans hother) (by decide)
  have hsplit : ∀ {place : Served}, place ∈ before ++ left ++ after →
      place ∈ before ++ after ∨ place ∈ left := by
    intro place hplace
    simp only [List.mem_append] at hplace ⊢
    tauto
  refine ⟨hdoes.rooms h.rooms, h.services_step hpoint hdoes, ?_, ?_, ?_, ?_⟩
  · have hcount := single_left hleft
    have hbefore : ((before ++ [point] ++ after).filter Served.isMatch).length ≤ 1 := by
      simpa using h.single
    simp only [List.filter_append, List.length_append] at hbefore ⊢
    omega
  · intro place hplace room fight hstarts
    rcases hsplit hplace with hother | hnew
    · have hpointMatch := halone place hother (Served.isMatch_of_starts hstarts)
      refine (h.starting place (hothers place hother) room fight hstarts).step hdoes (fun hpasses ↦ ?_)
        fun hnew ↦ ?_
      · exact absurd (hpasses.isMatch.symm.trans hpointMatch) (by decide)
      · rw [hnew] at hpointMatch
        exact nomatch hpointMatch
    · exact h.starting_left hpoint hdoes hleft place hnew room fight hstarts
  · intro place hplace fight room roomInfo hcalls
    rcases hsplit hplace with hother | hnew
    · have hmem := hothers place hother
      rw [h.copies place hmem fight room roomInfo hcalls]
      exact (h.roomId hdoes (h.starting_of_calls hmem hcalls).made).symm
    · exact copies_left hleft place hnew fight room roomInfo hcalls
  · intro place hplace fight hlive
    rcases hsplit hplace with hother | hnew
    · exact h.playing_step hpoint hdoes (h.playing place (hothers place hother) fight hlive)
    · exact h.playing_left hpoint hdoes hleft place hnew fight hlive

end HallInvariant

/-! ### Runs -/

/-- An `enter_room` takes no room whose agents `startGame` has begun to tell their fight. -/
def EntersAside (configuration : Configuration skynet Served Hall) : Served → List Answer → Prop
  | ⟨.enterRoom _, .request⟩, _ :: .order order :: _ =>
    ∀ other ∈ configuration.points, ∀ room ∈ other.engaged,
      configuration.state.lobby.findRoom order ≠ some room
  | _, _ => True

/-- A `leave_room` that the lobby takes up: the arguments, and the order in which it looks at the rooms. -/
def Served.takesLeave : Served → List Answer → Option (ℕ × ℕ × List ℕ)
  | ⟨_, .leaveRequest roomId uid⟩, _ :: .order order :: _ => some (roomId, uid, order)
  | _, _ => none

/-- A `leave_room` of a player who is not there finds no room whose agents `startGame` tells their fight. -/
def LeavesAside (configuration : Configuration skynet Served Hall) (point : Served) (heard : List Answer) : Prop :=
  ∀ taken ∈ point.takesLeave heard, ∀ other ∈ configuration.points, ∀ room ∈ other.telling,
    configuration.state.lobby.findId taken.2.2 taken.1 = some room →
      taken.2.1 ∈ (configuration.state.lobby.players room).keys

/-- A coroutine that a message starts is at none of the places that are told apart. -/
theorem Served.isMessage_spec {point : Served} (harrives : point.isMessage = true) :
    point.isMatch = false ∧ point.starts = none ∧ point.calls = none ∧ point.live = none ∧
      point.isEntry = true := by
  unfold Served.isMessage at harrives
  split at harrives
  · exact nomatch harrives
  · exact nomatch harrives
  · exact ⟨rfl, rfl, rfl, rfl, harrives⟩
  · rename_i request hmatch hcheck hplayer
    cases request with
    | matchLoop => exact (hmatch rfl).elim
    | checkStatus fight => exact (hcheck fight rfl).elim
    | playerMessage fight handler => exact (hplayer fight handler rfl).elim
    | _ => exact ⟨rfl, rfl, rfl, rfl, rfl⟩
  · exact nomatch harrives

theorem HallInvariant.arrive {hall : Hall} {points : List Served} (h : HallInvariant hall points)
    {point : Served} (harrives : point.isMessage = true) :
    HallInvariant hall (points ++ [point]) ∧ point.isEntry = true := by
  obtain ⟨hmatch, hstarts, hcalls, hlive, hentry⟩ := Served.isMessage_spec harrives
  refine ⟨⟨h.rooms, h.services, ?_, ?_, ?_, ?_⟩, hentry⟩
  · simpa [List.filter_append, hmatch] using h.single
  · intro place hplace room fight hplaceStarts
    rcases List.mem_append.mp hplace with hold | hnew
    · exact h.starting place hold room fight hplaceStarts
    · obtain rfl := List.mem_singleton.mp hnew
      exact nomatch hstarts.symm.trans hplaceStarts
  · intro place hplace fight room roomInfo hplaceCalls
    rcases List.mem_append.mp hplace with hold | hnew
    · exact h.copies place hold fight room roomInfo hplaceCalls
    · obtain rfl := List.mem_singleton.mp hnew
      exact nomatch hcalls.symm.trans hplaceCalls
  · intro place hplace fight hplaceLive
    rcases List.mem_append.mp hplace with hold | hnew
    · exact h.playing place hold fight hplaceLive
    · obtain rfl := List.mem_singleton.mp hnew
      exact nomatch hlive.symm.trans hplaceLive

/-- The hall keeps its invariant. In the runs in which nobody enters a room while `startGame` tells its
agents their fight, nor leaves it a second time, `startGame` may rely on the room. -/
theorem sound_hallService (linked : Prop) :
    hallService.Sound (hallContract linked) HallInvariant fun configuration move ↦
      linked → Hears EntersAside configuration move ∧ Hears LeavesAside configuration move where
  rely_refl _ _ _ room _ := .refl room _
  rely_trans _ _ _ _ h h' hlinked room htelling := (h hlinked room htelling).trans (h' hlinked room htelling)
  pre_rely _ _ _ h _ := h
  entry _ reply hall h := serves_entry h reply hall
  arrive _ _ _ harrives h := h.arrive harrives
  step configuration before point after reply answers left last hmeets hpoints h hguar := by
    rw [hpoints] at h
    obtain ⟨hdoes, hleft⟩ := hguar
    refine ⟨h.step hdoes hleft, fun other hother hlinked room htelling ↦ ?_⟩
    have hmem : other ∈ before ++ point :: after := by
      simp only [List.mem_append, List.mem_cons] at hother ⊢
      tauto
    obtain ⟨fight, hstarts⟩ := Served.starts_of_telling htelling
    have hmade := (h.starting other hmem room fight hstarts).made
    have hpoint : point.isMatch = false := by
      by_contra hpointMatch
      have halone := alone_of_single h.single (Bool.not_eq_false _ ▸ hpointMatch) other hother
      exact absurd ((Served.isMatch_of_starts hstarts).symm.trans halone) (by decide)
    have hengaged := Served.engaged_of_telling htelling
    have hmove := hmeets hlinked
    -- nobody enters the room
    have haside : ∀ {agent reply' order answers'}, point = ⟨.enterRoom agent, .request⟩ →
        reply :: answers = reply' :: .order order :: answers' →
        configuration.state.lobby.findRoom order ≠ some room := by
      intro agent reply' order answers' hpoint hheard
      have haside := Hears.meets hmove.1 hpoints
      rw [hpoint, hheard] at haside
      exact haside other (hpoints ▸ hmem) room hengaged
    refine ⟨?_, fun key player hplayer ↦ ?_, ?_, hdoes.offered⟩
    · rcases hdoes.fightIns hmade with hsame | ⟨hpasses, -, -⟩ | ⟨hnew, -, -⟩
      · exact hsame
      · exact absurd (hpasses.isMatch.symm.trans hpoint) (by decide)
      · rw [hnew] at hpoint
        exact nomatch hpoint
    · rcases hdoes.players hmade hplayer with hold | ⟨agent, reply', order, answers', hpoint, hheard, hfinds⟩
      · exact hold
      · exact absurd hfinds (haside hpoint hheard)
    · rcases hdoes.layout hmade with hsame | ⟨agent, reply', order, answers', hpoint, hheard, hfinds⟩ |
        ⟨roomId, uid, reply', order, answers', hpoint, hheard, hfinds, habsent⟩
      · exact hsame
      · exact absurd hfinds (haside hpoint hheard)
      · have hleaves := Hears.meets hmove.2 hpoints
        obtain ⟨request, place⟩ := point
        obtain rfl : place = .leaveRequest roomId uid := hpoint
        rw [hheard] at hleaves
        exact absurd (hleaves _ rfl other (hpoints ▸ hmem) room htelling hfinds) habsent

/-- The hall after its start. -/
theorem hallInvariant_initial (dbServiceCnt : ℕ) :
    HallInvariant (.initial dbServiceCnt) [⟨.matchLoop, .start⟩] where
  rooms := rooms_empty
  services :=
    { started := fun _ hroom ↦ absurd hroom (Nat.not_lt_zero _)
      own := fun _ hroom ↦ absurd hroom (Nat.not_lt_zero _)
      fresh := fun _ _ ↦ rfl
      serves := fun _ hroom ↦ absurd hroom (Nat.not_lt_zero _)
      known := fun _ _ hroomId ↦ nomatch hroomId }
  single := le_rfl
  starting point hpoint _ _ hstarts := by
    obtain rfl := List.mem_singleton.mp hpoint
    exact nomatch hstarts
  copies point hpoint _ _ _ hcalls := by
    obtain rfl := List.mem_singleton.mp hpoint
    exact nomatch hcalls
  playing point hpoint _ hlive := by
    obtain rfl := List.mem_singleton.mp hpoint
    exact nomatch hlive

/-- The hall starts well. -/
theorem good_openHall (linked : Prop) (dbServiceCnt : ℕ) :
    System.Good (hallContract linked) HallInvariant (openHall dbServiceCnt) :=
  (sound_hallService linked).good_of_starts (hallInvariant_initial dbServiceCnt) fun point hpoint ↦ by
    obtain rfl := List.mem_singleton.mp hpoint
    rfl

end SvrDemo.Douniu
