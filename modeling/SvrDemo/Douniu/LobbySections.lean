import SvrDemo.Douniu.Lobby

/-!
# What one section of the lobby does

Only three requests change who is seated, each in one section: `create_room` makes a room with one
player, `enter_room` seats a player in a room that admits him or in a new one, and `leave_room` removes a
player. Everything else a coroutine of the lobby does is `Kept`: it changes neither the ids nor the
tables of the players, and deletes rooms without players only.

The programs that talk to players and fights are placed within a footprint, so that one lemma for each
serves the whole of the file.
-/

set_option autoImplicit false
set_option relaxedAutoImplicit false

namespace SvrDemo.Douniu

open Coroutine Lua Skynet

/-! ### Changes that keep the seats -/

/-- A change after which every room has its id and its table of players, and after which only rooms without
players are gone from `room_queue`. -/
structure Kept (origin last : Lobby) : Prop where
  maxRoomIdx : last.maxRoomIdx = origin.maxRoomIdx
  roomCnt : last.roomCnt = origin.roomCnt
  players : ∀ room, last.players room = origin.players room
  roomId : ∀ room, (last.rooms room).roomId = (origin.rooms room).roomId
  layout : ∀ room, (last.rooms room).layout = (origin.rooms room).layout
  queue : ∀ key, last.roomQueue.lookup key = origin.roomQueue.lookup key ∨
    last.roomQueue.lookup key = none ∧
      ∀ room, origin.roomQueue.lookup key = some room → (origin.players room).size = 0

theorem Kept.refl (lobby : Lobby) : Kept lobby lobby :=
  ⟨rfl, rfl, fun _ ↦ rfl, fun _ ↦ rfl, fun _ ↦ rfl, fun _ ↦ .inl rfl⟩

theorem Kept.trans {first middle last : Lobby} (h : Kept first middle) (h' : Kept middle last) :
    Kept first last where
  maxRoomIdx := h'.maxRoomIdx.trans h.maxRoomIdx
  roomCnt := h'.roomCnt.trans h.roomCnt
  players room := (h'.players room).trans (h.players room)
  roomId room := (h'.roomId room).trans (h.roomId room)
  layout room := (h'.layout room).trans (h.layout room)
  queue key := by
    rcases h'.queue key with hsame | ⟨hgone, hempty⟩
    · rw [hsame]
      exact h.queue key
    · rcases h.queue key with hsame | hold
      · refine .inr ⟨hgone, fun room hroom ↦ ?_⟩
        rw [← h.players room]
        exact hempty room (hsame.trans hroom)
      · exact .inr ⟨hgone, hold.2⟩

/-- What is in the queue afterwards was there before. -/
theorem Kept.lookup {origin last : Lobby} (h : Kept origin last) {key room : ℕ}
    (hroom : last.roomQueue.lookup key = some room) : origin.roomQueue.lookup key = some room := by
  rcases h.queue key with hsame | ⟨hgone, -⟩
  · exact hsame.symm.trans hroom
  · exact nomatch hgone.symm.trans hroom

namespace Lobby

variable (lobby : Lobby) (room : ℕ)

theorem rooms_updateRoom (other : ℕ) (change : RoomInfo → RoomInfo) :
    (lobby.updateRoom room change).rooms other =
      if other = room then change (lobby.rooms room) else lobby.rooms other := by
  exact Function.update_apply _ _ _ _

/-- A change of a room that keeps its id and its players. -/
theorem kept_updateRoom {change : RoomInfo → RoomInfo}
    (hid : ∀ roomInfo, (change roomInfo).roomId = roomInfo.roomId)
    (hplayers : ∀ roomInfo, (change roomInfo).playerLst = roomInfo.playerLst)
    (hlayout : ∀ roomInfo, (change roomInfo).layout = roomInfo.layout) :
    Kept lobby (lobby.updateRoom room change) where
  maxRoomIdx := rfl
  roomCnt := rfl
  players other := by
    rw [players, players, rooms_updateRoom]
    split
    · next hother => rw [hplayers, hother]
    · rfl
  roomId other := by
    rw [rooms_updateRoom]
    split
    · next hother => rw [hid, hother]
    · rfl
  layout other := by
    rw [rooms_updateRoom]
    split
    · next hother => rw [hlayout, hother]
    · rfl
  queue _ := .inl rfl

/-- A room without players is deleted. -/
theorem kept_erase {key : ℕ}
    (hempty : ∀ room, lobby.roomQueue.lookup key = some room → (lobby.players room).size = 0) :
    Kept lobby { lobby with roomQueue := lobby.roomQueue.erase key } where
  maxRoomIdx := rfl
  roomCnt := rfl
  players _ := rfl
  roomId _ := rfl
  layout _ := rfl
  queue other := by
    rw [Table.lookup_erase_eq]
    split
    · next hother => exact .inr ⟨rfl, hother ▸ hempty⟩
    · exact .inl rfl

end Lobby

/-! ### Footprints -/

/-- The footprints that allow what every request of the lobby may do: to send to the agents, and to
fail. -/
structure Speaking (F : Footprint skynet LobbyCall Lobby) : Prop where
  raises : ∀ error, F.raises error
  sends : ∀ agent info, F.waits (.sendPackCli agent info)
  sets : ∀ room agent fight, F.waits (.setFight room agent fight)

section Within

variable {F : Footprint skynet LobbyCall Lobby} {lobby : Lobby}

theorem within_makeRoomInfo (room : ℕ) : (makeRoomInfo room).Within F lobby :=
  (Program.within_getState_bind _).mpr
    (Program.within_bind (within_pairs _) fun _ _ ↦ Program.within_pure _)

theorem within_address (hF : Speaking F) (service : Option ℕ) :
    (address service).Within F lobby := by
  cases service with
  | none => exact hF.raises .indexNil
  | some service => exact Program.within_pure service

theorem within_forPlayers (hF : Speaking F) {room : ℕ} {body : RoomPlayer → LobbyTask Unit}
    (hbody : ∀ player later, (body player).Within F later) :
    (forPlayers room body).Within F lobby :=
  within_traverse (fun _ player later _ ↦ hbody player later) (hF.raises _)

theorem within_updateRoomInfo (hF : Speaking F) (room : ℕ) :
    (updateRoomInfo room).Within F lobby := by
  refine within_forPlayers hF fun player later ↦
    Program.within_bind (within_makeRoomInfo room) fun info _ ↦ ?_
  exact Program.within_bind (within_address hF _) fun agent _ ↦
    within_call (hF.sends agent info) (hF.raises _)

theorem within_setFight (hF : Speaking F) (room : ℕ) (fightOf : RoomInfo → Option ℕ) :
    (setFight room fightOf).Within F lobby := by
  refine within_forPlayers hF fun player later ↦ (Program.within_getState_bind _).mpr ?_
  exact Program.within_bind (within_address hF _) fun agent _ ↦
    within_call (hF.sets room agent _) (hF.raises _)

end Within

/-- The footprint of what keeps the seats. -/
def keeping : Footprint skynet LobbyCall Lobby where
  waits _ := True
  changes := Kept
  raises _ := True

theorem speaking_keeping : Speaking keeping :=
  ⟨fun _ ↦ trivial, fun _ _ ↦ trivial, fun _ _ _ ↦ trivial⟩

section Keeping

variable {lobby : Lobby}

theorem keeping_ensureFight (room : ℕ) : (ensureFight room).Within keeping lobby := by
  refine (Program.within_getState_bind _).mpr ?_
  split
  · exact Program.within_pure ()
  · refine (Program.within_await_bind _ _).mpr ⟨trivial, fun reply later ↦ ?_⟩
    cases reply with
    | number fight =>
      exact (Program.within_modifyState _).mpr
        (later.kept_updateRoom room (fun _ ↦ rfl) (fun _ ↦ rfl) fun _ ↦ rfl)
    | order _ => exact trivial
    | ok => exact trivial
    | raised => exact trivial

theorem keeping_startGame (room : ℕ) : (startGame room).Within keeping lobby := by
  refine (Program.within_getState_bind _).mpr ?_
  split
  · exact Program.within_pure ()
  refine Program.within_bind (keeping_ensureFight room) fun _ _ ↦ ?_
  refine Program.within_bind (within_setFight speaking_keeping room _) fun _ later ↦ ?_
  refine (Program.within_getState_bind _).mpr ?_
  refine Program.within_bind (within_address speaking_keeping _) fun fight _ ↦ ?_
  refine Program.within_bind (within_call trivial trivial) fun _ last ↦ ?_
  exact (Program.within_modifyState _).mpr (last.kept_updateRoom room (fun _ ↦ rfl) (fun _ ↦ rfl) fun _ ↦ rfl)

theorem keeping_isDue (roomNum room : ℕ) : (isDue roomNum room).Within keeping lobby := by
  unfold isDue
  split
  · exact Program.within_bind within_osTime fun now later ↦
      (Program.within_getState_bind _).mpr (Program.within_pure _)
  · exact Program.within_pure false

/-- A turn of `matchLoop` counts the players of a room and deletes the room in one section when there
are none. -/
theorem keeping_matchRoom {key room : ℕ} (hroom : lobby.roomQueue.lookup key = some room) :
    (matchRoom key room).Within keeping lobby := by
  refine (Program.within_getState_bind _).mpr ?_
  split
  · by_cases hempty : (lobby.players room).size = 0
    · rw [hempty]
      have hkept : Kept lobby
          (lobby.updateRoom room fun roomInfo ↦ { roomInfo with fightIns := none }) :=
        lobby.kept_updateRoom room (fun _ ↦ rfl) (fun _ ↦ rfl) fun _ ↦ rfl
      refine (Program.within_modifyState_bind _ _).mpr ⟨hkept, ?_⟩
      refine (Program.within_modifyState _).mpr (Lobby.kept_erase _ fun other hother ↦ ?_)
      obtain rfl := Option.some.inj (hroom.symm.trans hother)
      rw [hkept.players]
      exact hempty
    · have hdrop : ∀ later, (dropEmpty key (lobby.players room).size).Within keeping later := by
        rw [dropEmpty, if_neg hempty]
        exact fun later ↦ Program.within_pure ()
      refine Program.within_bind (keeping_isDue _ room) fun due later ↦ ?_
      split
      · exact Program.within_bind (keeping_startGame room) fun _ last ↦ hdrop last
      · exact (Program.within_modifyState_bind _ _).mpr
          ⟨later.kept_updateRoom room (fun _ ↦ rfl) (fun _ ↦ rfl) fun _ ↦ rfl, hdrop _⟩
  · exact Program.within_pure ()

theorem keeping_unlockRoom (roomId : ℕ) : (unlockRoom roomId).Within keeping lobby := by
  refine (Program.within_getState_bind _).mpr ?_
  split
  · exact Program.within_pure ()
  · refine Program.within_bind within_osTime fun now later ↦ ?_
    refine (Program.within_modifyState_bind _ _).mpr
      ⟨later.kept_updateRoom _ (fun _ ↦ rfl) (fun _ ↦ rfl) fun _ ↦ rfl, ?_⟩
    exact within_setFight speaking_keeping _ _

end Keeping

/-! ### Sections -/

/-- The room that `enter_room` takes along a traversal: the one it finds, or a new one. -/
inductive RoomFor (origin : Lobby) (order : List ℕ) : ℕ → Lobby → Prop
  | found {room : ℕ} (finds : origin.findRoom order = some room) : RoomFor origin order room origin
  | made (now : ℤ) (finds : origin.findRoom order = none) :
      RoomFor origin order origin.roomCnt (origin.addRoom (some defaultOdds) ∅ now)

/-- What a section does, from what it has heard. -/
inductive LobbySection (point : LobbyPoint) (origin : Lobby) (heard : List Answer) (last : Lobby) :
    Prop
  | kept (kept : Kept origin last)
  | created {odds : Option LuaInt} {player : RoomPlayer} (now : ℤ)
      (takes : point = ⟨.createRoom odds player, .start⟩)
      (kept : Kept (origin.addRoom odds (Finmap.singleton 1 player) now) last)
  | entered {player : RoomPlayer} {reply : Answer} {order : List ℕ} {answers : List Answer}
      {room : ℕ} {middle : Lobby} (takes : point = ⟨.enterRoom player, .start⟩)
      (hears : heard = reply :: .order order :: answers)
      (isOrder : IsOrder order origin.roomQueue.keys) (takesRoom : RoomFor origin order room middle)
      (kept : Kept (middle.seat room player) last)
  | departed {roomId uid : ℕ} {reply : Answer} {order : List ℕ} {answers : List Answer} {room : ℕ}
      (takes : point = ⟨.leaveRoom roomId uid, .start⟩) (hears : heard = reply :: .order order :: answers)
      (isOrder : IsOrder order origin.roomQueue.keys) (finds : origin.findId order roomId = some room)
      (kept : Kept (origin.unseat room uid) last)

/-- The contract of the lobby: its sections are as described, whatever happens in between. -/
def lobbyContract : Contract skynet LobbyPoint Lobby where
  rely := fun _ _ _ ↦ True
  guar := fun point origin heard _ last ↦ LobbySection point origin heard last
  pre := fun point _ ↦ ∃ request, point = ⟨request, .start⟩
  err := fun _ ↦ True

/-- A section that could end here. -/
structure LobbySoFar (current : Section skynet LobbyPoint Lobby) (lobby : Lobby) : Prop where
  forks : current.forks = []
  does : LobbySection current.point current.origin current.heard lobby

/-- A section goes on with a change that keeps the seats. -/
theorem LobbySection.andThen {point : LobbyPoint} {origin last next : Lobby} {heard : List Answer}
    (h : LobbySection point origin heard last) (hkept : Kept last next) :
    LobbySection point origin heard next := by
  cases h with
  | kept kept => exact .kept (kept.trans hkept)
  | created now takes kept => exact .created now takes (kept.trans hkept)
  | entered takes hears isOrder takesRoom kept =>
    exact .entered takes hears isOrder takesRoom (kept.trans hkept)
  | departed takes hears isOrder finds kept => exact .departed takes hears isOrder finds (kept.trans hkept)

/-- A section goes on with another answer. -/
theorem LobbySection.hear {point : LobbyPoint} {origin last : Lobby} {heard : List Answer}
    (h : LobbySection point origin heard last) (answer : Answer) :
    LobbySection point origin (heard ++ [answer]) last := by
  cases h with
  | kept kept => exact .kept kept
  | created now takes kept => exact .created now takes kept
  | entered takes hears isOrder takesRoom kept =>
    exact .entered takes (by rw [hears, List.cons_append, List.cons_append]) isOrder takesRoom kept
  | departed takes hears isOrder finds kept =>
    exact .departed takes (by rw [hears, List.cons_append, List.cons_append]) isOrder finds kept

theorem LobbySoFar.ends {current : Section skynet LobbyPoint Lobby} {lobby : Lobby}
    (h : LobbySoFar current lobby) (left : List LobbyPoint) :
    lobbyContract.Ends current left lobby :=
  ⟨h.does, fun point hpoint ↦ by simp [h.forks] at hpoint⟩

/-- A section that has not changed anything. -/
theorem lobbySoFar_fresh (point : LobbyPoint) (lobby : Lobby) (heard : List Answer) :
    LobbySoFar ⟨point, lobby, heard, []⟩ lobby :=
  ⟨rfl, .kept (.refl lobby)⟩

/-- What keeps the seats may follow in any section, with waits in between. -/
theorem steady_lobbySoFar (request : LobbyRequest) :
    Steady (.relabel request.at) lobbyContract keeping (fun _ ↦ LobbySoFar) LobbySoFar where
  heard _ _ answer h := ⟨h.forks, h.does.hear answer⟩
  change _ _ _ hchange h := ⟨h.forks, h.does.andThen hchange⟩
  wait _ _ _ _ h := ⟨h.ends _, fun reply later _ ↦ lobbySoFar_fresh _ later [reply]⟩
  raise _ _ _ _ h := h

section Keeps

variable {request : LobbyRequest} {α : Type} {program : LobbyTask α}
  {current : Section skynet LobbyPoint Lobby} {lobby : Lobby}

/-- A program that keeps the seats may follow in any section. -/
theorem wpIn_keeping (hwithin : program.Within keeping lobby) (h : LobbySoFar current lobby) :
    program.wpIn (.relabel request.at) lobbyContract (fun _ ↦ LobbySoFar) (fun _ ↦ LobbySoFar)
      current lobby :=
  (steady_lobbySoFar request).wpIn hwithin h

variable {origin : Lobby} {reply : Answer}

theorem keeps_createRoom (odds : Option LuaInt) (player : RoomPlayer) :
    (createRoom odds player).wpIn (.relabel request.at) lobbyContract (fun _ ↦ LobbySoFar)
      (fun _ ↦ LobbySoFar) ⟨⟨.createRoom odds player, .start⟩, origin, [reply], []⟩ origin := by
  unfold createRoom makeRoom
  rw [Program.wpIn_bind, Program.wpIn_bind, Program.wpIn_getState, Program.wpIn_bind]
  refine wpIn_osTime fun now ↦ ?_
  rw [Program.wpIn_bind, Program.wpIn_relabel_modifyState]
  exact ⟨rfl, .created now rfl (.refl _)⟩

/-- The room of an `enter_room`, found or made. -/
theorem wpIn_roomFor {order : List ℕ} {player : RoomPlayer} {rest : ℕ → LobbyTask α}
    (hrest : ∀ room middle answers, RoomFor origin order room middle →
      (rest room).wpIn (.relabel request.at) lobbyContract (fun _ ↦ LobbySoFar)
        (fun _ ↦ LobbySoFar)
        ⟨⟨.enterRoom player, .start⟩, origin, reply :: .order order :: answers, []⟩ middle) :
    (roomFor order >>= rest).wpIn (.relabel request.at) lobbyContract (fun _ ↦ LobbySoFar)
      (fun _ ↦ LobbySoFar)
      ⟨⟨.enterRoom player, .start⟩, origin, [reply, .order order], []⟩ origin := by
  unfold roomFor
  rw [Program.wpIn_bind, Program.wpIn_relabel_getState_bind]
  cases hfinds : origin.findRoom order with
  | some room => exact hrest room origin [] (.found hfinds)
  | none =>
    dsimp only
    unfold makeRoom
    rw [Program.wpIn_relabel_getState_bind, Program.wpIn_bind]
    refine wpIn_osTime fun now ↦ ?_
    rw [Program.wpIn_relabel_modifyState_bind]
    exact hrest _ _ [.number now] (.made now hfinds)

/-- `enter_room` seats the player in the section in which it finds the room. -/
theorem keeps_enterRoom (player : RoomPlayer) :
    (enterRoom player).wpIn (.relabel request.at) lobbyContract (fun _ ↦ LobbySoFar)
      (fun _ ↦ LobbySoFar) ⟨⟨.enterRoom player, .start⟩, origin, [reply], []⟩ origin := by
  unfold enterRoom
  rw [Program.wpIn_relabel_getState_bind, Program.wpIn_bind]
  refine wpIn_pairs fun order horder ↦ wpIn_roomFor fun room middle answers hroom ↦ ?_
  rw [Program.wpIn_relabel_modifyState_bind]
  refine wpIn_keeping ?_ ⟨rfl, .entered rfl rfl horder hroom (.refl _)⟩
  refine Program.within_bind (within_updateRoomInfo speaking_keeping room) fun _ _ ↦ ?_
  exact (Program.within_getState_bind _).mpr (Program.within_pure _)

/-- `leave_room` removes the player in the section in which it finds the room. -/
theorem keeps_leaveRoom (roomId uid : ℕ) :
    (leaveRoom roomId uid).wpIn (.relabel request.at) lobbyContract (fun _ ↦ LobbySoFar)
      (fun _ ↦ LobbySoFar) ⟨⟨.leaveRoom roomId uid, .start⟩, origin, [reply], []⟩ origin := by
  unfold leaveRoom
  rw [Program.wpIn_relabel_getState_bind, Program.wpIn_bind]
  refine wpIn_pairs fun order horder ↦ ?_
  rw [Program.wpIn_relabel_getState_bind]
  cases hfinds : origin.findId order roomId with
  | none => exact lobbySoFar_fresh _ _ _
  | some room =>
    dsimp only
    rw [Program.wpIn_relabel_modifyState_bind]
    refine wpIn_keeping ?_ ⟨rfl, .departed rfl rfl horder hfinds (.refl _)⟩
    refine (Program.within_getState_bind _).mpr ?_
    refine Program.within_bind (within_address speaking_keeping _) fun fight _ ↦ ?_
    refine Program.within_bind (within_call trivial trivial) fun _ _ ↦ ?_
    exact Program.within_bind (within_updateRoomInfo speaking_keeping room) fun _ _ ↦
      Program.within_pure _

/-- `matchLoop` starts its next pass. -/
theorem keeps_matchLoop :
    matchLoop.wpIn (.relabel LobbyRequest.matchLoop.at) lobbyContract lobbyContract.done
      lobbyContract.raised ⟨⟨.matchLoop, .start⟩, origin, [reply], []⟩ origin := by
  unfold matchLoop
  refine Program.wpIn_seq_at (fun _ ↦ LobbySoFar) ?_ ?_
  · refine Program.wpIn_mono (fun _ _ _ h ↦ h) (fun _ _ _ h ↦ ⟨trivial, h.ends _⟩) (wpIn_keeping
      (within_traverse (fun _ _ _ hroom ↦ keeping_matchRoom hroom) trivial) (lobbySoFar_fresh _ _ _))
  · intro _ current lobby h
    refine ⟨h.does, fun point hpoint ↦ ⟨.matchLoop, ?_⟩⟩
    rcases List.mem_append.mp hpoint with hold | hnew
    · simp [h.forks] at hold
    · exact List.mem_singleton.mp hnew

/-- Every request keeps the contract. -/
theorem keeps_lobbyRequest (request : LobbyRequest) :
    lobbyContract.Keeps (lobbyService.entry ⟨request, .start⟩)
      ⟨⟨request, .start⟩, origin, [reply], []⟩ origin := by
  have hends : ∀ {α : Type} {program : LobbyTask α} {current : Section skynet LobbyPoint Lobby},
      program.wpIn (.relabel request.at) lobbyContract (fun _ ↦ LobbySoFar) (fun _ ↦ LobbySoFar)
        current origin →
      program.wpIn (.relabel request.at) lobbyContract (fun _ ↦ lobbyContract.done ())
        lobbyContract.raised current origin := fun h ↦
    Program.wpIn_mono (fun _ _ _ h ↦ h.ends _) (fun _ _ _ h ↦ ⟨trivial, h.ends _⟩) h
  cases request with
  | createRoom odds player => exact hends (keeps_createRoom odds player)
  | enterRoom player =>
    exact (Program.wpIn_bind _ _ _ _ _ _).mpr (hends (keeps_enterRoom player))
  | leaveRoom roomId uid =>
    exact (Program.wpIn_bind _ _ _ _ _ _).mpr (hends (keeps_leaveRoom roomId uid))
  | matchLoop => exact keeps_matchLoop
  | unlockRoom roomId => exact hends (wpIn_keeping (keeping_unlockRoom roomId) (lobbySoFar_fresh _ _ _))

end Keeps

/-- The contract is sound for the lobby, with any invariant that its sections keep. -/
theorem sound_lobbyService {inv : Lobby → Prop}
    {condition : Configuration skynet LobbyPoint Lobby → Move skynet LobbyPoint → Prop}
    (hstep : ∀ configuration index point reply answers last,
      condition configuration (.resume index reply answers) →
      configuration.points[index]? = some point → inv configuration.state →
      LobbySection point configuration.state (reply :: answers) last → inv last) :
    lobbyService.Sound lobbyContract (fun lobby _ ↦ inv lobby) condition where
  rely_refl _ _ := trivial
  rely_trans _ _ _ _ _ _ := trivial
  pre_rely _ _ _ hpre _ := hpre
  entry point reply state hpre := by
    obtain ⟨request, rfl⟩ := hpre
    exact keeps_lobbyRequest request
  arrive configuration point _ harrives hinv := by
    refine ⟨hinv, ?_⟩
    obtain ⟨request, call⟩ := point
    cases request <;> cases call <;> first | exact ⟨_, rfl⟩ | exact nomatch harrives
  step configuration before point after reply answers left last hmeets hpoints hinv hguar := by
    refine ⟨hstep configuration before.length point reply answers last hmeets ?_ hinv hguar,
      fun _ _ ↦ trivial⟩
    rw [hpoints]
    simp

end SvrDemo.Douniu
