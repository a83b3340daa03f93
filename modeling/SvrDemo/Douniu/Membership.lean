import SvrDemo.Douniu.RoomStore

/-!
# Who sits where

`leave_room` and the fights look for a player under his uid, in one room. `enter_room` seats him under
his uid, but it does not look for him in the other rooms, and `create_room` seats him under the key 1.
`SeatsOnce` is the condition that a `create_room` is taken up only for the uid 1 when he has no seat,
and an `enter_room` only for a player without a seat in another room than the one it finds. In the runs
with this property every record is under its uid, and no uid is in two rooms.
-/

set_option autoImplicit false
set_option relaxedAutoImplicit false

namespace SvrDemo.Douniu

open Coroutine Lua Skynet

/-! ### Seats -/

/-- A room has a record of a uid, under whatever key. -/
def Lobby.Holds (lobby : Lobby) (room uid : ℕ) : Prop :=
  ∃ key ∈ (lobby.players room).keys,
    ((lobby.players room).lookup key).map RoomPlayer.uid = some uid

instance (lobby : Lobby) (room uid : ℕ) : Decidable (lobby.Holds room uid) :=
  inferInstanceAs (Decidable (∃ key ∈ _, _))

/-- The ids of the rooms in the queue that have a record of a uid. -/
def Lobby.seatedAt (lobby : Lobby) (uid : ℕ) : Finset ℕ :=
  lobby.roomQueue.keys.filter fun roomId ↦
    (lobby.roomQueue.lookup roomId).any fun room ↦ lobby.Holds room uid

theorem Lobby.mem_seatedAt {lobby : Lobby} {uid roomId : ℕ} :
    roomId ∈ lobby.seatedAt uid ↔ ∃ key player, lobby.Seats roomId key player ∧ player.uid = uid := by
  rw [seatedAt, Finset.mem_filter, Table.mem_keys_iff]
  constructor
  · rintro ⟨⟨room, hroom⟩, hholds⟩
    rw [hroom, Option.any_some, decide_eq_true_eq] at hholds
    obtain ⟨key, -, hkey⟩ := hholds
    obtain ⟨player, hplayer, huid⟩ := Option.map_eq_some_iff.mp hkey
    exact ⟨key, player, ⟨room, hroom, hplayer⟩, huid⟩
  · rintro ⟨key, player, ⟨room, hroom, hplayer⟩, huid⟩
    refine ⟨⟨room, hroom⟩, ?_⟩
    rw [hroom, Option.any_some, decide_eq_true_eq]
    exact ⟨key, Table.mem_keys_iff.mpr ⟨player, hplayer⟩, Option.map_eq_some_iff.mpr
      ⟨player, hplayer, huid⟩⟩

namespace Lobby.Seats

variable {origin last : Lobby} {roomId key : ℕ} {player : RoomPlayer}

theorem of_kept (hkept : Kept origin last) (h : last.Seats roomId key player) :
    origin.Seats roomId key player := by
  obtain ⟨room, hroom, hrecord⟩ := h
  exact ⟨room, hkept.lookup hroom, hkept.players room ▸ hrecord⟩

theorem of_addRoom (hstore : RoomStore origin) {roomOdds : Option LuaInt}
    {playerLst : Table RoomPlayer} {now : ℤ}
    (h : (origin.addRoom roomOdds playerLst now).Seats roomId key player) :
    origin.Seats roomId key player ∨
      roomId = origin.maxRoomIdx ∧ playerLst.lookup key = some player := by
  obtain ⟨room, hroom, hrecord⟩ := h
  rw [Lobby.players_addRoom] at hrecord
  rcases hstore.lookup_addRoom hroom with ⟨hold, hne⟩ | ⟨hid, rfl⟩
  · rw [if_neg hne] at hrecord
    exact .inl ⟨room, hold, hrecord⟩
  · rw [if_pos rfl] at hrecord
    exact .inr ⟨hid, hrecord⟩

theorem of_seat {room : ℕ} {other : RoomPlayer}
    (h : (origin.seat room other).Seats roomId key player) :
    origin.Seats roomId key player ∨
      origin.roomQueue.lookup roomId = some room ∧ key = other.uid ∧ player = other := by
  obtain ⟨room', hroom, hrecord⟩ := h
  rw [Lobby.players_seat] at hrecord
  split at hrecord
  · next hsame =>
    subst hsame
    rw [Table.lookup_insert_eq] at hrecord
    split at hrecord
    · next hkey => exact .inr ⟨hroom, hkey, (Option.some.inj hrecord).symm⟩
    · exact .inl ⟨room', hroom, hrecord⟩
  · exact .inl ⟨room', hroom, hrecord⟩

theorem of_unseat {room uid : ℕ} (h : (origin.unseat room uid).Seats roomId key player) :
    origin.Seats roomId key player := by
  obtain ⟨room', hroom, hrecord⟩ := h
  exact ⟨room', hroom, Lobby.lookup_of_unseat _ hrecord⟩

end Lobby.Seats

/-! ### The condition -/

/-- A request does not seat a player under another key or a second time: a `create_room` is for the uid
1, who has no seat, and an `enter_room` is for a player without a seat in another room than the one it
finds along its traversal. -/
def Lobby.SeatsOnce (lobby : Lobby) (answers : List Answer) : LobbyRequest → Prop
  | .createRoom _ player => player.uid = 1 ∧ lobby.seatedAt player.uid = ∅
  | .enterRoom player => ∀ roomId ∈ lobby.seatedAt player.uid,
      lobby.roomQueue.lookup roomId = lobby.findRoom (answers.head?.map Answer.toOrder |>.getD [])
  | _ => True

/-- The moves that take up only requests that seat no player under another key or a second time. -/
def TakesSeatsOnce (configuration : Configuration skynet LobbyPoint Lobby) :
    Move skynet LobbyPoint → Prop
  | .arrive _ => True
  | .resume index _ answers => ∀ request, configuration.points[index]? = some ⟨request, .start⟩ →
      configuration.state.SeatsOnce answers request

instance (lobby : Lobby) (answers : List Answer) (request : LobbyRequest) :
    Decidable (lobby.SeatsOnce answers request) :=
  match request with
  | .createRoom _ _ => inferInstanceAs (Decidable (_ ∧ _))
  | .enterRoom _ => inferInstanceAs (Decidable (∀ roomId ∈ _, _))
  | .leaveRoom _ _ => isTrue trivial
  | .matchLoop => isTrue trivial
  | .unlockRoom _ => isTrue trivial

/-- The request that a coroutine at a point is about to take up. -/
def LobbyPoint.takesUp : LobbyPoint → Option LobbyRequest
  | ⟨request, .start⟩ => some request
  | _ => none

instance (configuration : Configuration skynet LobbyPoint Lobby) (move : Move skynet LobbyPoint) :
    Decidable (TakesSeatsOnce configuration move) :=
  match move with
  | .arrive _ => isTrue trivial
  | .resume index _ answers =>
    decidable_of_iff (∀ request ∈ configuration.points[index]?.bind LobbyPoint.takesUp,
      configuration.state.SeatsOnce answers request) <| by
    refine forall_congr' fun request ↦ imp_congr_left ?_
    rw [Option.mem_def, Option.bind_eq_some_iff]
    constructor
    · rintro ⟨⟨request', call⟩, hpoint, htakes⟩
      cases call <;> cases htakes
      exact hpoint
    · exact fun hpoint ↦ ⟨_, hpoint, rfl⟩

/-! ### The invariant -/

/-- Every record is under its uid, and no uid is in two rooms of the queue. -/
structure Membership (lobby : Lobby) : Prop where
  store : RoomStore lobby
  uid : ∀ room key player, (lobby.players room).lookup key = some player → player.uid = key
  once : ∀ {roomId roomId' key key' player player'}, lobby.Seats roomId key player →
    lobby.Seats roomId' key' player' → player.uid = player'.uid → roomId = roomId'

namespace Membership

variable {origin last : Lobby}

theorem kept (h : Membership origin) (hkept : Kept origin last) : Membership last where
  store := h.store.kept hkept
  uid room key player hrecord := h.uid room key player (hkept.players room ▸ hrecord)
  once hseats hseats' huid := h.once (hseats.of_kept hkept) (hseats'.of_kept hkept) huid

/-- A new room with players who have no seat and are under their uids. -/
theorem addRoom (h : Membership origin) {roomOdds : Option LuaInt} {playerLst : Table RoomPlayer}
    (now : ℤ) (hsize : playerLst.size ≤ maxPlayer)
    (hplayers : ∀ key player, playerLst.lookup key = some player →
      player.uid = key ∧ origin.seatedAt player.uid = ∅) :
    Membership (origin.addRoom roomOdds playerLst now) where
  store := h.store.addRoom now hsize
  uid room key player hrecord := by
    rw [Lobby.players_addRoom] at hrecord
    split at hrecord
    · exact (hplayers key player hrecord).1
    · exact h.uid room key player hrecord
  once {roomId roomId' key key' player player'} hseats hseats' huid := by
    have hnew : ∀ {roomId key key'} {player player' : RoomPlayer},
        origin.Seats roomId key player → playerLst.lookup key' = some player' →
          player.uid ≠ player'.uid := by
      intro roomId key key' player player' hold hrecord huid
      have hmem := Lobby.mem_seatedAt.mpr ⟨key, player, hold, huid⟩
      rw [(hplayers key' player' hrecord).2] at hmem
      exact Finset.notMem_empty _ hmem
    rcases hseats.of_addRoom h.store with hold | ⟨hid, hrecord⟩ <;>
      rcases hseats'.of_addRoom h.store with hold' | ⟨hid', hrecord'⟩
    · exact h.once hold hold' huid
    · exact absurd huid (hnew hold hrecord')
    · exact absurd huid.symm (hnew hold' hrecord)
    · exact hid.trans hid'.symm

/-- A player who is seated in a room and has no seat in another. -/
theorem seat (h : Membership origin) {room : ℕ} {player : RoomPlayer}
    (hsize : (origin.players room).size < maxPlayer)
    (honly : ∀ roomId ∈ origin.seatedAt player.uid, origin.roomQueue.lookup roomId = some room) :
    Membership (origin.seat room player) where
  store := h.store.seat player hsize
  uid room' key other hrecord := by
    rw [Lobby.players_seat] at hrecord
    split at hrecord
    · next hsame =>
      rw [Table.lookup_insert_eq] at hrecord
      split at hrecord
      · next hkey => rw [← Option.some.inj hrecord, hkey]
      · exact h.uid room key other hrecord
    · exact h.uid room' key other hrecord
  once {roomId roomId' key key' first second} hseats hseats' huid := by
    have hids : ∀ {roomId roomId'}, origin.roomQueue.lookup roomId = some room →
        origin.roomQueue.lookup roomId' = some room → roomId = roomId' := fun hroom hroom' ↦
      (h.store.roomId _ _ hroom).symm.trans (h.store.roomId _ _ hroom')
    rcases hseats.of_seat with hold | ⟨hroom, -, rfl⟩ <;>
      rcases hseats'.of_seat with hold' | ⟨hroom', -, rfl⟩
    · exact h.once hold hold' huid
    · exact hids (honly _ (Lobby.mem_seatedAt.mpr ⟨_, _, hold, huid⟩)) hroom'
    · exact hids hroom (honly _ (Lobby.mem_seatedAt.mpr ⟨_, _, hold', huid.symm⟩))
    · exact hids hroom hroom'

theorem unseat (h : Membership origin) (room uid : ℕ) : Membership (origin.unseat room uid) where
  store := h.store.unseat room uid
  uid room' key player hrecord := h.uid room' key player (Lobby.lookup_of_unseat _ hrecord)
  once hseats hseats' huid := h.once hseats.of_unseat hseats'.of_unseat huid

/-- A section keeps the invariant when the request it takes up seats no player under another key or a
second time. -/
theorem of_section (h : Membership origin) {point : LobbyPoint} {reply : Answer}
    {answers : List Answer} (hsection : LobbySection point origin (reply :: answers) last)
    (honce : ∀ request, point = ⟨request, .start⟩ → origin.SeatsOnce answers request) :
    Membership last := by
  cases hsection with
  | kept kept => exact h.kept kept
  | @created odds player now takes kept =>
    obtain ⟨huid, hempty⟩ := honce _ takes
    refine (h.addRoom now (by rw [Table.size_singleton]; decide) fun key other hrecord ↦ ?_).kept kept
    by_cases hkey : key = 1
    · subst hkey
      rw [Finmap.lookup_singleton_eq] at hrecord
      obtain rfl := Option.some.inj hrecord
      exact ⟨huid, hempty⟩
    · have hmem : key ∈ (Finmap.singleton 1 player : Table RoomPlayer) :=
        Finmap.mem_of_lookup_eq_some hrecord
      exact absurd ((Finmap.mem_singleton key 1 player).mp hmem) hkey
  | @entered player _ order _ room middle takes hears _ takesRoom kept =>
    obtain ⟨rfl, rfl⟩ := List.cons.inj hears
    have honly : ∀ roomId ∈ origin.seatedAt player.uid,
        origin.roomQueue.lookup roomId = origin.findRoom order := honce _ takes
    obtain ⟨-, hsize⟩ := h.store.roomFor takesRoom
    cases takesRoom with
    | found finds => exact (h.seat hsize (finds ▸ honly)).kept kept
    | made now finds =>
      have hempty : origin.seatedAt player.uid = ∅ := by
        refine Finset.eq_empty_iff_forall_notMem.mpr fun roomId hmem ↦ ?_
        obtain ⟨key, other, ⟨room, hroom, -⟩, -⟩ := Lobby.mem_seatedAt.mp hmem
        exact nomatch hroom.symm.trans ((honly roomId hmem).trans finds)
      have hmiddle : Membership (origin.addRoom (some defaultOdds) ∅ now) :=
        h.addRoom now (by decide) fun _ _ hrecord ↦ nomatch hrecord
      refine (hmiddle.seat hsize fun roomId hmem ↦ ?_).kept kept
      obtain ⟨key, other, hseats, huid⟩ := Lobby.mem_seatedAt.mp hmem
      rcases hseats.of_addRoom h.store with hold | ⟨-, hrecord⟩
      · have hmem := Lobby.mem_seatedAt.mpr ⟨key, other, hold, huid⟩
        rw [hempty] at hmem
        exact absurd hmem (Finset.notMem_empty _)
      · exact nomatch hrecord
  | departed _ _ _ _ kept => exact (h.unseat _ _).kept kept

end Membership

/-! ### Runs -/

theorem membership_empty : Membership .empty where
  store := roomStore_empty
  uid _ _ _ hrecord := nomatch hrecord
  once hseats _ _ := by
    obtain ⟨_, hroom, -⟩ := hseats
    exact nomatch hroom

theorem sound_membership :
    lobbyService.Sound lobbyContract (fun lobby _ ↦ Membership lobby) TakesSeatsOnce :=
  sound_lobbyService fun _ _ _ _ _ _ hmeets hpoint hmembership hsection ↦
    hmembership.of_section hsection fun request hrequest ↦ hmeets request (hrequest ▸ hpoint)

/-- In every run of the lobby whose moves seat no player under another key or a second time, every
record of a room is under its uid, and every uid is in at most one room of the queue. -/
theorem seated_once (last : Configuration skynet LobbyPoint Lobby)
    (hrun : lobbyService.Run TakesSeatsOnce openLobby last) :
    (∀ room key player, (last.state.players room).lookup key = some player → player.uid = key) ∧
    ∀ uid, (last.state.seatedAt uid).card ≤ 1 := by
  have hmembership : Membership last.state := (sound_membership.good_of_run
    (sound_membership.good_of_starts membership_empty
      fun _ hpoint ↦ ⟨.matchLoop, List.mem_singleton.mp hpoint⟩) hrun).holds
  refine ⟨hmembership.uid, fun uid ↦ Finset.card_le_one.mpr fun roomId hmem roomId' hmem' ↦ ?_⟩
  obtain ⟨key, player, hseats, huid⟩ := Lobby.mem_seatedAt.mp hmem
  obtain ⟨key', player', hseats', huid'⟩ := Lobby.mem_seatedAt.mp hmem'
  exact hmembership.once hseats hseats' (huid.trans huid'.symm)

/-- A player who enters, and a second one who enters the same room. -/
def twoEnter : List (Move skynet LobbyPoint) :=
  firstEnter ⟨7, some 1, "", "", 0⟩ ++
    [ .arrive ⟨.enterRoom ⟨8, some 2, "", "", 0⟩, .start⟩,
      .resume 2 .ok [.order [1000], .order [7, 8], .order [7, 8]] ]

theorem seated_once_two : ∃ last : Configuration skynet LobbyPoint Lobby,
    (last.state.players 0).keys = {7, 8} ∧ (last.state.seatedAt 8).card ≤ 1 := by
  obtain ⟨last, hrun, hkeys⟩ := lobbyService.exists_run_of_playMeeting TakesSeatsOnce openLobby
    twoEnter (fun configuration ↦ (configuration.state.players 0).keys)
    (show _ = some {7, 8} by decide +kernel)
  exact ⟨last, hkeys, (seated_once last hrun).2 8⟩

/-- A player creates a room. -/
def createsRoom (player : RoomPlayer) : List (Move skynet LobbyPoint) :=
  [.arrive ⟨.createRoom (some 10) player, .start⟩, .resume 1 .ok [.number 0]]

/-- `create_room` seats a player under another key than his uid, and a second time. -/
theorem creator_seated_twice :
    (∃ last, lobbyService.AnyRun openLobby last ∧ ∃ room key player,
      (last.state.players room).lookup key = some player ∧ player.uid ≠ key) ∧
    ∃ last, lobbyService.AnyRun openLobby last ∧ ∃ uid, 1 < (last.state.seatedAt uid).card := by
  constructor
  · obtain ⟨last, hrun, hplayer⟩ := lobbyService.exists_run_of_playAll openLobby
      (createsRoom ⟨7, some 1, "", "", 0⟩)
      (fun configuration ↦ (configuration.state.players 0).lookup 1)
      (show _ = some (some ⟨7, some 1, "", "", 0⟩) by decide +kernel)
    exact ⟨last, hrun, 0, 1, _, hplayer, by decide⟩
  · obtain ⟨last, hrun, hseated⟩ := lobbyService.exists_run_of_playAll openLobby
      (createsRoom ⟨7, some 1, "", "", 0⟩ ++ createsRoom ⟨7, some 1, "", "", 0⟩)
      (fun configuration ↦ (configuration.state.seatedAt 7).card)
      (show _ = some 2 by decide +kernel)
    exact ⟨last, hrun, 7, hseated ▸ Nat.one_lt_two⟩

end SvrDemo.Douniu
