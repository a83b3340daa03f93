import SvrDemo.Douniu.LobbySections

/-!
# The rooms of the lobby

In every reachable state of the lobby a room is in `room_queue` under its own id, the ids are below the
next one, and no room has more than `MAX_PLAYER` players. From one state to the next an id is never
given a second time, a room is deleted only without players, and a record stays where it is until a
`leave_room` names its key or an `enter_room` of the same uid overwrites it.
-/

set_option autoImplicit false
set_option relaxedAutoImplicit false

namespace SvrDemo.Douniu

open Coroutine Lua Skynet

/-! ### The invariant of the store -/

/-- Every room in the queue is there under its id, which is below the next one, and has at most
`MAX_PLAYER` players. -/
structure RoomStore (lobby : Lobby) : Prop where
  roomId : ∀ key room, lobby.roomQueue.lookup key = some room → (lobby.rooms room).roomId = key
  ids : ∀ key room, lobby.roomQueue.lookup key = some room → key < lobby.maxRoomIdx
  made : ∀ key room, lobby.roomQueue.lookup key = some room → room < lobby.roomCnt
  size : ∀ key room, lobby.roomQueue.lookup key = some room → (lobby.players room).size ≤ maxPlayer

namespace Lobby

variable (lobby : Lobby)

theorem players_addRoom (roomOdds : Option LuaInt) (playerLst : Table RoomPlayer) (now : ℤ)
    (room : ℕ) : (lobby.addRoom roomOdds playerLst now).players room =
      if room = lobby.roomCnt then playerLst else lobby.players room := by
  simp only [addRoom, players, Function.update_apply]
  split <;> rfl

theorem roomId_addRoom (roomOdds : Option LuaInt) (playerLst : Table RoomPlayer) (now : ℤ)
    (room : ℕ) : ((lobby.addRoom roomOdds playerLst now).rooms room).roomId =
      if room = lobby.roomCnt then lobby.maxRoomIdx else (lobby.rooms room).roomId := by
  simp only [addRoom, Function.update_apply]
  split <;> rfl

theorem lookup_addRoom (roomOdds : Option LuaInt) (playerLst : Table RoomPlayer) (now : ℤ)
    (key : ℕ) : (lobby.addRoom roomOdds playerLst now).roomQueue.lookup key =
      if key = lobby.maxRoomIdx then some lobby.roomCnt else lobby.roomQueue.lookup key :=
  Table.lookup_insert_eq _ _ _ _

theorem players_seat (room other : ℕ) (player : RoomPlayer) : (lobby.seat room player).players other =
    if other = room then (lobby.players room).insert player.uid player else lobby.players other := by
  rw [players, seat, rooms_updateRoom]
  split <;> rfl

theorem roomId_seat (room other : ℕ) (player : RoomPlayer) :
    ((lobby.seat room player).rooms other).roomId = (lobby.rooms other).roomId := by
  rw [seat, rooms_updateRoom]
  split
  · next hother => rw [hother, RoomInfo.addPlayer]
  · rfl

theorem players_unseat (room other uid : ℕ) : (lobby.unseat room uid).players other =
    if other = room then (lobby.players room).erase uid else lobby.players other := by
  rw [players, unseat, rooms_updateRoom]
  split <;> rfl

/-- Who has a seat when a player has lost his had it before. -/
theorem lookup_of_unseat {room other uid key : ℕ} {player : RoomPlayer}
    (h : ((lobby.unseat room uid).players other).lookup key = some player) :
    (lobby.players other).lookup key = some player := by
  rw [players_unseat] at h
  split at h
  · next hsame =>
    subst hsame
    exact Table.lookup_of_erase h
  · exact h

theorem roomId_unseat (room other uid : ℕ) :
    ((lobby.unseat room uid).rooms other).roomId = (lobby.rooms other).roomId := by
  rw [unseat, rooms_updateRoom]
  split
  · next hother => rw [hother, RoomInfo.removePlayer]
  · rfl

variable {lobby}

/-- The room that `enter_room` finds is in the queue and admits the player. -/
theorem findRoom_spec {order : List ℕ} {room : ℕ} (hfinds : lobby.findRoom order = some room) :
    (∃ key, lobby.roomQueue.lookup key = some room) ∧ lobby.admits room = true := by
  obtain ⟨key, -, hroom⟩ := List.exists_of_findSome?_eq_some hfinds
  obtain ⟨hlookup, hadmits⟩ := Option.filter_eq_some_iff.mp hroom
  exact ⟨⟨key, hlookup⟩, hadmits⟩

/-- The room that `leave_room` finds is in the queue and has the id. -/
theorem findId_spec {order : List ℕ} {roomId room : ℕ}
    (hfinds : lobby.findId order roomId = some room) :
    (∃ key, lobby.roomQueue.lookup key = some room) ∧ (lobby.rooms room).roomId = roomId := by
  obtain ⟨key, -, hroom⟩ := List.exists_of_findSome?_eq_some hfinds
  obtain ⟨hlookup, hid⟩ := Option.filter_eq_some_iff.mp hroom
  exact ⟨⟨key, hlookup⟩, of_decide_eq_true hid⟩

end Lobby

namespace RoomStore

variable {origin last : Lobby}

theorem kept (h : RoomStore origin) (hkept : Kept origin last) : RoomStore last where
  roomId key room hroom := (hkept.roomId room).trans (h.roomId key room (hkept.lookup hroom))
  ids key room hroom := hkept.maxRoomIdx ▸ h.ids key room (hkept.lookup hroom)
  made key room hroom := hkept.roomCnt ▸ h.made key room (hkept.lookup hroom)
  size key room hroom := by
    rw [hkept.players]
    exact h.size key room (hkept.lookup hroom)

/-- What is in the queue after a room is made was there before, or is the room. -/
theorem lookup_addRoom (h : RoomStore origin) {roomOdds : Option LuaInt}
    {playerLst : Table RoomPlayer} {now : ℤ} {key room : ℕ}
    (hroom : (origin.addRoom roomOdds playerLst now).roomQueue.lookup key = some room) :
    origin.roomQueue.lookup key = some room ∧ room ≠ origin.roomCnt ∨
      key = origin.maxRoomIdx ∧ room = origin.roomCnt := by
  rw [Lobby.lookup_addRoom] at hroom
  split at hroom
  · next hkey => exact .inr ⟨hkey, (Option.some.inj hroom).symm⟩
  · exact .inl ⟨hroom, (h.made key room hroom).ne⟩

theorem addRoom (h : RoomStore origin) {roomOdds : Option LuaInt} {playerLst : Table RoomPlayer}
    (now : ℤ) (hsize : playerLst.size ≤ maxPlayer) :
    RoomStore (origin.addRoom roomOdds playerLst now) where
  roomId key room hroom := by
    rw [Lobby.roomId_addRoom]
    rcases h.lookup_addRoom hroom with ⟨hold, hne⟩ | ⟨rfl, rfl⟩
    · rw [if_neg hne]
      exact h.roomId key room hold
    · rw [if_pos rfl]
  ids key room hroom := by
    rcases h.lookup_addRoom hroom with ⟨hold, -⟩ | ⟨rfl, -⟩
    · exact Nat.lt_succ_of_lt (h.ids key room hold)
    · exact Nat.lt_succ_self _
  made key room hroom := by
    rcases h.lookup_addRoom hroom with ⟨hold, -⟩ | ⟨-, rfl⟩
    · exact Nat.lt_succ_of_lt (h.made key room hold)
    · exact Nat.lt_succ_self _
  size key room hroom := by
    rw [Lobby.players_addRoom]
    rcases h.lookup_addRoom hroom with ⟨hold, hne⟩ | ⟨-, rfl⟩
    · rw [if_neg hne]
      exact h.size key room hold
    · rw [if_pos rfl]
      exact hsize

theorem seat (h : RoomStore origin) {room : ℕ} (player : RoomPlayer)
    (hsize : (origin.players room).size < maxPlayer) : RoomStore (origin.seat room player) where
  roomId key other hother := (origin.roomId_seat room other player).trans (h.roomId key other hother)
  ids := h.ids
  made := h.made
  size key other hother := by
    rw [Lobby.players_seat]
    split
    · exact (Table.size_insert_le _ _ _).trans hsize
    · exact h.size key other hother

theorem unseat (h : RoomStore origin) (room uid : ℕ) : RoomStore (origin.unseat room uid) where
  roomId key other hother := (origin.roomId_unseat room other uid).trans (h.roomId key other hother)
  ids := h.ids
  made := h.made
  size key other hother := by
    rw [Lobby.players_unseat]
    split
    · next hsame => exact (Table.size_erase_le _ _).trans (h.size key room (hsame ▸ hother))
    · exact h.size key other hother

/-- The room that `enter_room` takes is not full, and the other rooms are as they were. -/
theorem roomFor (h : RoomStore origin) {order : List ℕ} {room : ℕ} {middle : Lobby}
    (hroom : RoomFor origin order room middle) :
    RoomStore middle ∧ (middle.players room).size < maxPlayer := by
  cases hroom with
  | found finds =>
    obtain ⟨-, hadmits⟩ := Lobby.findRoom_spec finds
    exact ⟨h, (of_decide_eq_true hadmits).2⟩
  | made now finds =>
    refine ⟨h.addRoom now (by decide), ?_⟩
    rw [Lobby.players_addRoom, if_pos rfl]
    decide

/-- A section keeps the invariant of the store. -/
theorem of_section (h : RoomStore origin) {point : LobbyPoint} {heard : List Answer}
    (hsection : LobbySection point origin heard last) : RoomStore last := by
  cases hsection with
  | kept kept => exact h.kept kept
  | created now _ kept => exact (h.addRoom now (by rw [Table.size_singleton]; decide)).kept kept
  | @entered player _ _ _ _ _ _ _ _ takesRoom kept =>
    obtain ⟨hmiddle, hsize⟩ := h.roomFor takesRoom
    exact (hmiddle.seat player hsize).kept kept
  | departed _ _ _ _ kept => exact (h.unseat _ _).kept kept

end RoomStore

/-! ### Records -/

/-- The room with an id holds a record under a key. -/
def Lobby.Seats (lobby : Lobby) (roomId key : ℕ) (player : RoomPlayer) : Prop :=
  ∃ room, lobby.roomQueue.lookup roomId = some room ∧
    (lobby.players room).lookup key = some player

/-- A move takes up a request of the lobby. -/
def TakesUp (configuration : Configuration skynet LobbyPoint Lobby) (move : Move skynet LobbyPoint)
    (request : LobbyRequest) : Prop :=
  ∃ index reply answers, move = .resume index reply answers ∧
    configuration.points[index]? = some ⟨request, .start⟩

/-- What becomes of the record under a key in a section: it stays, or a `leave_room` names its room and
its key, or an `enter_room` of its uid overwrites it. -/
inductive RecordStep (point : LobbyPoint) (last : Lobby) (roomId key : ℕ) (player : RoomPlayer) : Prop
  | stays (seats : last.Seats roomId key player)
  | departs (takes : point = ⟨.leaveRoom roomId key, .start⟩)
  | overwritten {other : RoomPlayer} (takes : point = ⟨.enterRoom other, .start⟩)
      (uid : other.uid = key) (seats : last.Seats roomId key other)

namespace Lobby.Seats

variable {origin last : Lobby} {roomId key : ℕ} {player : RoomPlayer}

theorem kept (h : origin.Seats roomId key player) (hkept : Kept origin last) :
    last.Seats roomId key player := by
  obtain ⟨room, hroom, hrecord⟩ := h
  refine ⟨room, ?_, (hkept.players room).symm ▸ hrecord⟩
  rcases hkept.queue roomId with hsame | ⟨-, hempty⟩
  · exact hsame.trans hroom
  · exact absurd (hempty room hroom) (Table.size_ne_zero hrecord)

theorem addRoom (h : origin.Seats roomId key player) (hstore : RoomStore origin)
    (roomOdds : Option LuaInt) (playerLst : Table RoomPlayer) (now : ℤ) :
    (origin.addRoom roomOdds playerLst now).Seats roomId key player := by
  obtain ⟨room, hroom, hrecord⟩ := h
  refine ⟨room, ?_, ?_⟩
  · rw [Lobby.lookup_addRoom, if_neg (hstore.ids roomId room hroom).ne]
    exact hroom
  · rw [Lobby.players_addRoom, if_neg (hstore.made roomId room hroom).ne]
    exact hrecord

/-- A new player of a room takes the place of at most the record under his uid. -/
theorem seat (h : origin.Seats roomId key player) (room : ℕ) (other : RoomPlayer) :
    (origin.seat room other).Seats roomId key player ∨
      other.uid = key ∧ (origin.seat room other).Seats roomId key other := by
  obtain ⟨room', hroom, hrecord⟩ := h
  by_cases hsame : room' = room
  · subst hsame
    by_cases huid : other.uid = key
    · refine .inr ⟨huid, room', hroom, ?_⟩
      rw [Lobby.players_seat, if_pos rfl, huid, Finmap.lookup_insert]
    · refine .inl ⟨room', hroom, ?_⟩
      rw [Lobby.players_seat, if_pos rfl, Finmap.lookup_insert_of_ne _ (Ne.symm huid)]
      exact hrecord
  · refine .inl ⟨room', hroom, ?_⟩
    rw [Lobby.players_seat, if_neg hsame]
    exact hrecord

/-- A player who leaves a room takes no record with him but the one under his key. -/
theorem unseat (h : origin.Seats roomId key player) (hstore : RoomStore origin) (room uid : ℕ) :
    (origin.unseat room uid).Seats roomId key player ∨
      (origin.rooms room).roomId = roomId ∧ uid = key := by
  obtain ⟨room', hroom, hrecord⟩ := h
  by_cases hgone : room' = room ∧ uid = key
  · exact .inr ⟨hgone.1 ▸ hstore.roomId roomId room' hroom, hgone.2⟩
  · refine .inl ⟨room', hroom, ?_⟩
    rw [Lobby.players_unseat]
    split
    · next hsame =>
      rw [Finmap.lookup_erase_ne fun hkey ↦ hgone ⟨hsame, hkey.symm⟩, ← hsame]
      exact hrecord
    · exact hrecord

/-- What a section does to a record. -/
theorem of_section (h : origin.Seats roomId key player) (hstore : RoomStore origin)
    {point : LobbyPoint} {heard : List Answer} (hsection : LobbySection point origin heard last) :
    RecordStep point last roomId key player := by
  cases hsection with
  | kept kept => exact .stays (h.kept kept)
  | created now _ kept => exact .stays ((h.addRoom hstore _ _ now).kept kept)
  | @entered other _ _ _ room middle takes _ _ takesRoom kept =>
    have hmiddle : middle.Seats roomId key player := by
      cases takesRoom with
      | found => exact h
      | made now => exact h.addRoom hstore _ _ now
    rcases hmiddle.seat room other with hstays | ⟨huid, hseats⟩
    · exact .stays (hstays.kept kept)
    · exact .overwritten takes huid (hseats.kept kept)
  | @departed roomId' uid _ _ _ room takes _ _ finds kept =>
    rcases h.unseat hstore room uid with hstays | ⟨hroomId, rfl⟩
    · exact .stays (hstays.kept kept)
    · obtain rfl : roomId' = roomId := (Lobby.findId_spec finds).2.symm.trans hroomId
      exact .departs takes

end Lobby.Seats

/-! ### The queue -/

/-- What happens to the queue from one state to a later one: the next id never gets smaller, what is in
the queue was there before or is under an id that was not given before, and a room that is gone has no
players. -/
structure QueueStep (origin last : Lobby) : Prop where
  maxRoomIdx : origin.maxRoomIdx ≤ last.maxRoomIdx
  fresh : ∀ key room, last.roomQueue.lookup key = some room →
    origin.roomQueue.lookup key = some room ∨ origin.maxRoomIdx ≤ key
  deleted : ∀ key room, origin.roomQueue.lookup key = some room →
    last.roomQueue.lookup key = some room ∨
      last.roomQueue.lookup key = none ∧ (last.players room).size = 0

namespace QueueStep

variable {origin middle last : Lobby}

/-- A request that keeps the queue, and what follows in its section. -/
theorem of_same (hkept : Kept middle last) (hmax : middle.maxRoomIdx = origin.maxRoomIdx)
    (hqueue : middle.roomQueue = origin.roomQueue) : QueueStep origin last where
  maxRoomIdx := (hkept.maxRoomIdx.trans hmax).ge
  fresh key room hroom := .inl (hqueue ▸ hkept.lookup hroom)
  deleted key room hroom := by
    rw [← hqueue] at hroom
    rcases hkept.queue key with hsame | ⟨hgone, hempty⟩
    · exact .inl (hsame.trans hroom)
    · exact .inr ⟨hgone, hkept.players room ▸ hempty room hroom⟩

/-- A request that makes a room, and what follows in its section. -/
theorem of_addRoom (hkept : Kept middle last) (hstore : RoomStore origin)
    (hmax : middle.maxRoomIdx = origin.maxRoomIdx + 1)
    (hqueue : middle.roomQueue = origin.roomQueue.insert origin.maxRoomIdx origin.roomCnt) :
    QueueStep origin last where
  maxRoomIdx := by
    rw [hkept.maxRoomIdx, hmax]
    exact Nat.le_succ origin.maxRoomIdx
  fresh key room hroom := by
    have hmiddle := hkept.lookup hroom
    rw [hqueue, Table.lookup_insert_eq] at hmiddle
    split at hmiddle
    · next hkey => exact .inr hkey.ge
    · exact .inl hmiddle
  deleted key room hroom := by
    have hmiddle : middle.roomQueue.lookup key = some room := by
      rw [hqueue, Table.lookup_insert_eq, if_neg (hstore.ids key room hroom).ne]
      exact hroom
    rcases hkept.queue key with hsame | ⟨hgone, hempty⟩
    · exact .inl (hsame.trans hmiddle)
    · exact .inr ⟨hgone, hkept.players room ▸ hempty room hmiddle⟩

/-- What a section does to the queue. -/
theorem of_section (hstore : RoomStore origin) {point : LobbyPoint} {heard : List Answer}
    (hsection : LobbySection point origin heard last) : QueueStep origin last := by
  cases hsection with
  | kept kept => exact of_same kept rfl rfl
  | created now _ kept => exact of_addRoom kept hstore rfl rfl
  | entered _ _ _ takesRoom kept =>
    cases takesRoom with
    | found => exact of_same kept rfl rfl
    | made now => exact of_addRoom kept hstore rfl rfl
  | departed _ _ _ _ kept => exact of_same kept rfl rfl

end QueueStep

/-! ### Runs -/

theorem roomStore_empty : RoomStore .empty := by
  constructor <;> exact fun key room hroom ↦ nomatch hroom

theorem sound_roomStore :
    lobbyService.Sound lobbyContract (fun lobby _ ↦ RoomStore lobby) fun _ _ ↦ True :=
  sound_lobbyService fun _ _ _ _ _ _ _ _ hstore hsection ↦ hstore.of_section hsection

/-- The invariant of the store holds in every run of the lobby, with the contract of every coroutine. -/
theorem goodLobby_of_run {last : Configuration skynet LobbyPoint Lobby}
    (hrun : lobbyService.AnyRun openLobby last) :
    System.Good lobbyContract (fun lobby _ ↦ RoomStore lobby) last :=
  sound_roomStore.good_of_run (sound_roomStore.good_of_starts roomStore_empty
    fun _ hpoint ↦ ⟨.matchLoop, List.mem_singleton.mp hpoint⟩) hrun

/-- In every reachable state of the lobby, and over every interleaving of its coroutines: a room is in
`room_queue` under its own id, below the next id, with at most `MAX_PLAYER` players. A move gives no id a
second time and deletes a room only without players, so that a record stays in its room unless the move
takes up a `leave_room` of its key, or an `enter_room` of its uid that overwrites it. -/
theorem rooms_kept (last : Configuration skynet LobbyPoint Lobby)
    (hrun : lobbyService.AnyRun openLobby last) :
    (∀ key room, last.state.roomQueue.lookup key = some room →
      (last.state.rooms room).roomId = key ∧ key < last.state.maxRoomIdx ∧
        (last.state.players room).size ≤ maxPlayer) ∧
    ∀ move next, lobbyService.play last move = some next →
      QueueStep last.state next.state ∧
      ∀ roomId key player, last.state.Seats roomId key player →
        next.state.Seats roomId key player ∨
        TakesUp last move (.leaveRoom roomId key) ∨
        ∃ other : RoomPlayer, other.uid = key ∧ TakesUp last move (.enterRoom other) ∧
          next.state.Seats roomId key other := by
  have hgood := goodLobby_of_run hrun
  have hstore := hgood.holds
  refine ⟨fun key room hroom ↦ ⟨hstore.roomId key room hroom, hstore.ids key room hroom,
    hstore.size key room hroom⟩, fun move next hplay ↦ ?_⟩
  cases move with
  | arrive point =>
    simp only [System.play] at hplay
    split_ifs at hplay
    obtain rfl := Option.some.inj hplay
    exact ⟨.of_same (.refl _) rfl rfl, fun roomId key player hseats ↦ .inl hseats⟩
  | resume index reply answers =>
    obtain ⟨before, point, after, left, hpoints, hindex, -, hsection⟩ :=
      sound_roomStore.section_of_play hgood hplay
    have hpoint : last.points[index]? = some point := by
      rw [hpoints, ← hindex]
      simp
    refine ⟨.of_section hstore hsection, fun roomId key player hseats ↦ ?_⟩
    cases hseats.of_section hstore hsection with
    | stays seats => exact .inl seats
    | departs takes => exact .inr (.inl ⟨index, reply, answers, rfl, takes ▸ hpoint⟩)
    | overwritten takes uid seats =>
      exact .inr (.inr ⟨_, uid, ⟨index, reply, answers, rfl, takes ▸ hpoint⟩, seats⟩)

/-- A player without a room enters one: the lobby makes it and tells him. -/
def firstEnter (player : RoomPlayer) : List (Move skynet LobbyPoint) :=
  [ .arrive ⟨.enterRoom player, .start⟩,
    .resume 1 .ok [.order [], .number 0, .order [player.uid], .order [player.uid]] ]

theorem rooms_kept_enter : ∃ last : Configuration skynet LobbyPoint Lobby,
    last.state.roomQueue.lookup 1000 = some 0 ∧ (last.state.rooms 0).roomId = 1000 ∧
      1000 < last.state.maxRoomIdx ∧ (last.state.players 0).size ≤ maxPlayer := by
  obtain ⟨last, hrun, hroom⟩ := lobbyService.exists_run_of_playAll openLobby
    (firstEnter ⟨7, some 1, "", "", 0⟩) (fun configuration ↦ configuration.state.roomQueue.lookup 1000)
    (show _ = some (some 0) by decide +kernel)
  exact ⟨last, hroom, (rooms_kept last hrun).1 1000 0 hroom⟩

end SvrDemo.Douniu
