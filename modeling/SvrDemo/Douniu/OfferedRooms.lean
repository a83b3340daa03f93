import SvrDemo.Douniu.MatchLoop
import SvrDemo.Douniu.Winnings

/-!
# The odds that the lobby admits

`create_room` takes the odds of its room from the client, unchecked, and `startGame` sends the room with these odds to
a fight service. So the games that the lobby starts are played for sound odds when the clients send sound odds:
`winning_pays` follows the odds from the request through the lobby and the copy of the room into the settlement.
A client that sends negative odds makes a room in which the better hand pays, and one that sends none makes a room
whose game ends in an error.
-/

set_option autoImplicit false
set_option relaxedAutoImplicit false

namespace SvrDemo.Douniu

open Coroutine Lua Skynet

/-! ### Rooms and requests -/

/-- A room of sound odds with at most `MAX_PLAYER` players. -/
structure RoomInfo.Sound (roomInfo : RoomInfo) : Prop where
  odds : ∃ roomOdds, roomInfo.roomOdds = some roomOdds ∧ SoundOdds roomOdds
  size : roomInfo.playerLst.size ≤ maxPlayer

/-- A `create_room` carries sound odds. -/
def LobbyRequest.SoundOdds : LobbyRequest → Prop
  | .createRoom odds _ => ∃ roomOdds ∈ odds, Douniu.SoundOdds roomOdds
  | _ => True

/-- The clients send sound odds. -/
def SendsSoundOdds (_ : Configuration skynet LobbyPoint Lobby) : Move skynet LobbyPoint → Prop
  | .arrive point => point.request.SoundOdds
  | .resume _ _ _ => True

instance : DecidablePred LobbyRequest.SoundOdds
  | .createRoom (some roomOdds) _ => decidable_of_iff (Douniu.SoundOdds roomOdds)
      ⟨fun h ↦ ⟨roomOdds, rfl, h⟩, fun ⟨_, hsame, h⟩ ↦ Option.some.inj hsame ▸ h⟩
  | .createRoom none _ => isFalse fun ⟨_, hnone, _⟩ ↦ nomatch hnone
  | .enterRoom _ => isTrue trivial
  | .leaveRoom _ _ => isTrue trivial
  | .matchLoop => isTrue trivial
  | .unlockRoom _ => isTrue trivial

instance (configuration : Configuration skynet LobbyPoint Lobby) :
    (move : Move skynet LobbyPoint) → Decidable (SendsSoundOdds configuration move)
  | .arrive point => inferInstanceAs (Decidable point.request.SoundOdds)
  | .resume _ _ _ => isTrue trivial

/-- The room that a call offers to a fight service. -/
def LobbyCall.offers : LobbyCall → Option RoomInfo
  | .onStart _ _ roomInfo => some roomInfo
  | _ => none

/-- A waiting coroutine offers only sound rooms. -/
def LobbyPoint.OffersSound (point : LobbyPoint) : Prop :=
  ∀ roomInfo, point.call.offers = some roomInfo → roomInfo.Sound

theorem LobbyPoint.offersSound_of_none {point : LobbyPoint} (hnone : point.call.offers = none) : point.OffersSound :=
  fun _ hoffers ↦ nomatch hnone.symm.trans hoffers

/-- Every room that was made is sound, and the rooms in the queue have been made. -/
structure SoundRooms (lobby : Lobby) : Prop where
  made : ∀ key room, lobby.roomQueue.lookup key = some room → room < lobby.roomCnt
  sound : ∀ room < lobby.roomCnt, (lobby.rooms room).Sound

namespace SoundRooms

variable {lobby : Lobby}

theorem updateRoom (h : SoundRooms lobby) (room : ℕ) {change : RoomInfo → RoomInfo}
    (hsound : (lobby.rooms room).Sound → (change (lobby.rooms room)).Sound) :
    SoundRooms (lobby.updateRoom room change) where
  made := h.made
  sound other hother := by
    rw [Lobby.rooms_updateRoom]
    split
    · next hsame => exact hsound (hsame ▸ h.sound other hother)
    · exact h.sound other hother

theorem addRoom (h : SoundRooms lobby) {roomOdds : LuaInt} (hodds : Douniu.SoundOdds roomOdds)
    {playerLst : Table RoomPlayer} (hsize : playerLst.size ≤ maxPlayer) (now : ℤ) :
    SoundRooms (lobby.addRoom (some roomOdds) playerLst now) where
  made key room hroom := by
    rw [Lobby.lookup_addRoom] at hroom
    split at hroom
    · exact (Option.some.inj hroom).symm ▸ Nat.lt_succ_self lobby.roomCnt
    · exact Nat.lt_succ_of_lt (h.made key room hroom)
  sound room hroom := by
    by_cases hnew : room = lobby.roomCnt
    · have hroom : (lobby.addRoom (some roomOdds) playerLst now).rooms lobby.roomCnt = _ :=
        Function.update_self lobby.roomCnt _ lobby.rooms
      rw [hnew, hroom]
      exact ⟨⟨roomOdds, rfl, hodds⟩, hsize⟩
    · have hold : (lobby.addRoom (some roomOdds) playerLst now).rooms room = lobby.rooms room :=
        Function.update_of_ne hnew _ lobby.rooms
      rw [hold]
      exact h.sound room (lt_of_le_of_ne (Nat.lt_succ_iff.mp hroom) hnew)

/-- A player takes a seat in a room that is not full. -/
theorem seat (h : SoundRooms lobby) (room : ℕ) (player : RoomPlayer)
    (hsize : (lobby.players room).size < maxPlayer) : SoundRooms (lobby.seat room player) :=
  h.updateRoom room fun hsound ↦ ⟨hsound.odds, (Table.size_insert_le _ _ _).trans hsize⟩

theorem unseat (h : SoundRooms lobby) (room uid : ℕ) : SoundRooms (lobby.unseat room uid) :=
  h.updateRoom room fun hsound ↦ ⟨hsound.odds, (Table.size_erase_le _ _).trans hsound.size⟩

theorem erase (h : SoundRooms lobby) (key : ℕ) :
    SoundRooms { lobby with roomQueue := lobby.roomQueue.erase key } where
  made other room hroom := h.made other room (Table.lookup_of_erase hroom)
  sound := h.sound

end SoundRooms

theorem soundRooms_empty : SoundRooms .empty where
  made _ _ hroom := nomatch hroom
  sound _ hroom := absurd hroom (Nat.not_lt_zero _)

/-! ### The contract -/

/-- From one state to a later one the rooms stay sound, and no room is unmade. -/
def StaySound (first last : Lobby) : Prop :=
  SoundRooms first → SoundRooms last ∧ first.roomCnt ≤ last.roomCnt

theorem StaySound.refl (lobby : Lobby) : StaySound lobby lobby :=
  fun h ↦ ⟨h, le_rfl⟩

theorem StaySound.trans {first middle last : Lobby} (h : StaySound first middle) (h' : StaySound middle last) :
    StaySound first last := fun hfirst ↦ by
  obtain ⟨hmiddle, hle⟩ := h hfirst
  exact ⟨(h' hmiddle).1, hle.trans (h' hmiddle).2⟩

/-- The contract of the lobby: its rooms stay sound, and it offers only sound ones. -/
def offersContract : Contract skynet LobbyPoint Lobby where
  rely := fun _ ↦ StaySound
  guar := fun _ origin _ left last ↦
    SoundRooms last ∧ origin.roomCnt ≤ last.roomCnt ∧ ∀ point ∈ left, point.OffersSound
  pre := fun point lobby ↦ SoundRooms lobby ∧ point.call = .start ∧ point.request.SoundOdds
  err := fun _ ↦ True

/-- A section so far, in which the first rooms have been made. -/
structure Offering (made : ℕ) (current : Section skynet LobbyPoint Lobby) (lobby : Lobby) : Prop where
  forks : current.forks = []
  sound : SoundRooms lobby
  grows : current.origin.roomCnt ≤ lobby.roomCnt
  made : made ≤ lobby.roomCnt

namespace Offering

variable {made : ℕ} {current : Section skynet LobbyPoint Lobby} {lobby : Lobby}

theorem hear (h : Offering made current lobby) (answer : Answer) :
    Offering made { current with heard := current.heard ++ [answer] } lobby :=
  ⟨h.forks, h.sound, h.grows, h.made⟩

theorem change (h : Offering made current lobby) {changed : Lobby} (hchange : StaySound lobby changed) :
    Offering made current changed :=
  ⟨h.forks, (hchange h.sound).1, h.grows.trans (hchange h.sound).2, h.made.trans (hchange h.sound).2⟩

/-- The section may end with its coroutine waiting at a call. -/
theorem ends (h : Offering made current lobby) {point : LobbyPoint} (hpoint : point.OffersSound) :
    offersContract.Ends current (current.forks ++ [point]) lobby := by
  rw [Contract.Ends, h.forks]
  exact ⟨⟨h.sound, h.grows, fun other hother ↦ List.mem_singleton.mp hother ▸ hpoint⟩, fun _ hmem ↦ nomatch hmem⟩

theorem finished (h : Offering made current lobby) : offersContract.Ends current current.forks lobby := by
  rw [Contract.Ends, h.forks]
  exact ⟨⟨h.sound, h.grows, fun _ hmem ↦ nomatch hmem⟩, fun _ hmem ↦ nomatch hmem⟩

/-- The coroutine goes on in a later state. -/
theorem later (h : Offering made current lobby) {last : Lobby} (hrely : StaySound lobby last) (point : LobbyPoint)
    (reply : Answer) : Offering made ⟨point, last, [reply], []⟩ last :=
  ⟨rfl, (hrely h.sound).1, le_rfl, h.made.trans (hrely h.sound).2⟩

end Offering

/-- The footprint of what the requests do, the offers apart. -/
def keepingSound : Footprint skynet LobbyCall Lobby where
  waits call := call ≠ .timer ∧ call.offers = none
  changes := StaySound
  raises _ := True

theorem speaking_keepingSound : Speaking keepingSound :=
  ⟨fun _ ↦ trivial, fun _ _ ↦ ⟨nofun, rfl⟩, fun _ _ _ ↦ ⟨nofun, rfl⟩⟩

/-- A coroutine waits for what it has called. -/
theorem LobbyRequest.call_at {request : LobbyRequest} {call : LobbyCall} (hcall : call ≠ .timer) :
    request.at call = ⟨request, call⟩ := by
  cases call with
  | timer => exact absurd rfl hcall
  | _ => rfl

theorem steady_offering (request : LobbyRequest) (made : ℕ) :
    Steady (.relabel request.at) offersContract keepingSound (fun _ ↦ Offering made) (Offering made) where
  heard _ _ answer h := h.hear answer
  change _ _ _ hchange h := h.change hchange
  wait call current lobby hcall h := by
    refine ⟨h.ends (LobbyPoint.offersSound_of_none ?_), fun reply later hrely ↦ h.later hrely _ reply⟩
    rw [LobbyRequest.call_at hcall.1]
    exact hcall.2
  raise _ _ _ _ h := h

/-! ### The requests -/

section Requests

variable {lobby : Lobby}

/-- A change of a room that keeps its odds and its players. -/
theorem staySound_updateRoom (room : ℕ) {change : RoomInfo → RoomInfo}
    (hodds : ∀ roomInfo, (change roomInfo).roomOdds = roomInfo.roomOdds)
    (hplayers : ∀ roomInfo, (change roomInfo).playerLst = roomInfo.playerLst) :
    StaySound lobby (lobby.updateRoom room change) := by
  refine fun h ↦ ⟨h.updateRoom room fun hsound ↦ ⟨?_, ?_⟩, le_rfl⟩
  · rw [hodds]
    exact hsound.odds
  · rw [hplayers]
    exact hsound.size

/-- A new room of sound odds, and what follows with it. -/
theorem within_makeRoom {roomOdds : LuaInt} (hodds : Douniu.SoundOdds roomOdds) {playerLst : Table RoomPlayer}
    (hsize : playerLst.size ≤ maxPlayer) {α : Type} {rest : ℕ → LobbyTask α}
    (hrest : ∀ now, (rest lobby.roomCnt).Within keepingSound (lobby.addRoom (some roomOdds) playerLst now)) :
    (makeRoom (some roomOdds) playerLst >>= rest).Within keepingSound lobby :=
  fun answer ↦ ⟨fun h ↦ ⟨h.addRoom hodds hsize answer.toInt, Nat.le_succ _⟩, hrest answer.toInt⟩

theorem within_createRoom {roomOdds : LuaInt} (hodds : Douniu.SoundOdds roomOdds) (player : RoomPlayer) :
    (createRoom (some roomOdds) player).Within keepingSound lobby :=
  within_makeRoom hodds (by rw [Table.size_singleton]; decide) fun _ ↦ Program.within_pure ()

/-- The room of an `enter_room` is not full when the player takes his seat. -/
theorem within_enterRoom (player : RoomPlayer) : (enterRoom player).Within keepingSound lobby := by
  have hseat : ∀ (room : ℕ) (middle : Lobby), (middle.players room).size < maxPlayer →
      (Program.modifyState (I := skynet) (fun lobby : Lobby ↦ lobby.seat room player) >>= fun _ ↦ do
        updateRoomInfo room
        return (← Program.getState).rooms room : LobbyTask RoomInfo).Within keepingSound middle := by
    intro room middle hsize
    refine (Program.within_modifyState_bind _ _).mpr ⟨fun h ↦ ⟨h.seat room player hsize, le_rfl⟩, ?_⟩
    exact Program.within_bind (within_updateRoomInfo speaking_keepingSound room) fun _ _ ↦
      (Program.within_getState_bind _).mpr (Program.within_pure _)
  refine (Program.within_getState_bind _).mpr (Program.within_bind (within_pairs _) fun order later ↦ ?_)
  unfold roomFor
  change (Program.bind (Program.bind _ _) _).Within keepingSound later
  rw [Program.bind_assoc]
  refine (Program.within_getState_bind _).mpr ?_
  cases hfinds : later.findRoom order with
  | some room =>
    obtain ⟨-, hadmits⟩ := Lobby.findRoom_spec hfinds
    exact hseat room later (of_decide_eq_true hadmits).2
  | none =>
    refine within_makeRoom soundOdds_default (by decide) fun now ↦ hseat _ _ ?_
    rw [Lobby.players_addRoom, if_pos rfl]
    decide

theorem within_leaveRoom (roomId uid : ℕ) : (leaveRoom roomId uid).Within keepingSound lobby := by
  refine (Program.within_getState_bind _).mpr (Program.within_bind (within_pairs _) fun order later ↦ ?_)
  refine (Program.within_getState_bind _).mpr ?_
  split
  · exact Program.within_pure _
  next room _ =>
    refine (Program.within_modifyState_bind _ _).mpr ⟨fun h ↦ ⟨h.unseat room uid, le_rfl⟩, ?_⟩
    refine (Program.within_getState_bind _).mpr ?_
    refine Program.within_bind (within_address speaking_keepingSound _) fun fight _ ↦ ?_
    refine Program.within_bind (within_call ⟨nofun, rfl⟩ trivial) fun _ _ ↦ ?_
    exact Program.within_bind (within_updateRoomInfo speaking_keepingSound room) fun _ _ ↦ Program.within_pure _

theorem within_unlockRoom (roomId : ℕ) : (unlockRoom roomId).Within keepingSound lobby := by
  refine (Program.within_getState_bind _).mpr ?_
  split
  · exact Program.within_pure ()
  · refine Program.within_bind within_osTime fun now later ↦ ?_
    exact (Program.within_modifyState_bind _ _).mpr ⟨staySound_updateRoom _ (fun _ ↦ rfl) fun _ ↦ rfl,
      within_setFight speaking_keepingSound _ _⟩

theorem within_ensureFight (room : ℕ) : (ensureFight room).Within keepingSound lobby := by
  refine (Program.within_getState_bind _).mpr ?_
  split
  · exact Program.within_pure ()
  · refine (Program.within_await_bind _ _).mpr ⟨⟨nofun, rfl⟩, fun reply later ↦ ?_⟩
    cases reply with
    | number fight =>
      exact (Program.within_modifyState _).mpr (staySound_updateRoom room (fun _ ↦ rfl) fun _ ↦ rfl)
    | order _ => exact trivial
    | ok => exact trivial
    | raised => exact trivial

end Requests

/-! ### A pass -/

section Pass

variable {request : LobbyRequest} {made : ℕ} {current : Section skynet LobbyPoint Lobby} {lobby : Lobby}

/-- `startGame` offers a room that has been made. -/
theorem wpIn_startGame_offering {room : ℕ} (h : Offering (room + 1) current lobby) :
    (startGame room).wpIn (.relabel request.at) offersContract (fun _ ↦ Offering (room + 1))
      (fun _ ↦ Offering (room + 1)) current lobby := by
  have steady := steady_offering request (room + 1)
  unfold startGame
  rw [Program.wpIn_relabel_getState_bind]
  split
  · exact h
  refine Program.wpIn_seq (steady.wpIn (within_ensureFight room) h) fun _ current lobby h ↦ ?_
  refine Program.wpIn_seq (steady.wpIn (within_setFight speaking_keepingSound room _) h) fun _ current lobby h ↦ ?_
  rw [Program.wpIn_relabel_getState_bind]
  dsimp only
  cases (lobby.rooms room).fightIns with
  | none => exact h
  | some fight =>
    rw [Program.wpIn_bind, address, Program.wpIn_pure, Program.wpIn_bind]
    refine wpIn_call ⟨h.ends fun roomInfo hoffers ↦ ?_, fun reply later hrely ↦ ?_⟩
    · obtain rfl := Option.some.inj hoffers
      exact h.sound.sound room h.made
    · have hlater := h.later hrely (request.at (.onStart fight room (lobby.rooms room))) reply
      refine ⟨?_, hlater⟩
      rw [Program.wpIn_relabel_modifyState]
      exact hlater.change (staySound_updateRoom room (fun _ ↦ rfl) fun _ ↦ rfl)

/-- One turn of the loop of `matchLoop`. -/
theorem wpIn_matchRoom_offering {key room : ℕ} (hlookup : lobby.roomQueue.lookup key = some room)
    (h : Offering 0 current lobby) :
    (matchRoom key room).wpIn (.relabel request.at) offersContract (fun _ ↦ Offering 0) (fun _ ↦ Offering 0)
      current lobby := by
  have hforget : ∀ {made : ℕ} {current lobby}, Offering made current lobby → Offering 0 current lobby :=
    fun h ↦ ⟨h.forks, h.sound, h.grows, Nat.zero_le _⟩
  have hdrop : ∀ (roomNum : ℕ) {current lobby}, Offering 0 current lobby →
      (dropEmpty key roomNum).wpIn (.relabel request.at) offersContract (fun _ ↦ Offering 0) (fun _ ↦ Offering 0)
        current lobby := by
    intro roomNum current lobby h
    unfold dropEmpty
    split
    · rw [Program.wpIn_relabel_modifyState]
      exact h.change fun hsound ↦ ⟨hsound.erase key, le_rfl⟩
    · exact h
  unfold matchRoom
  rw [Program.wpIn_relabel_getState_bind]
  have hmade : Offering (room + 1) current lobby := ⟨h.forks, h.sound, h.grows, h.sound.made key room hlookup⟩
  split
  · have hdue : (isDue (lobby.players room).size room).Within keepingSound lobby := by
      unfold isDue
      split
      · exact Program.within_bind within_osTime fun now later ↦
          (Program.within_getState_bind _).mpr (Program.within_pure _)
      · exact Program.within_pure false
    refine Program.wpIn_seq (Program.wpIn_mono (fun _ _ _ h ↦ h) (fun _ _ _ h ↦ hforget h)
      ((steady_offering request (room + 1)).wpIn hdue hmade)) fun due current lobby h ↦ ?_
    split
    · exact Program.wpIn_seq_at (fun _ ↦ Offering 0) (Program.wpIn_mono (fun _ _ _ h ↦ hforget h)
        (fun _ _ _ h ↦ hforget h) (wpIn_startGame_offering h)) fun _ _ _ h ↦ hdrop _ h
    · rw [Program.wpIn_relabel_modifyState_bind]
      exact hdrop _ ((hforget h).change (staySound_updateRoom room (fun _ ↦ rfl) fun _ ↦ rfl))
  · exact h

theorem wpIn_matchLoop_offering (h : Offering 0 current lobby) :
    matchLoop.wpIn (.relabel LobbyRequest.matchLoop.at) offersContract offersContract.done offersContract.raised
      current lobby := by
  unfold matchLoop
  refine Program.wpIn_seq_at (fun _ ↦ Offering 0) ?_ fun _ current lobby h ↦ ?_
  · refine Program.wpIn_mono (fun _ _ _ h ↦ h) (fun _ _ _ h ↦ ⟨trivial, h.finished⟩)
      (wpIn_traverse (Offering 0) (fun _ _ answer h ↦ h.hear answer) (fun _ _ h ↦ h)
        (fun _ _ _ _ hlookup h ↦ wpIn_matchRoom_offering hlookup h) h)
  · -- the timer of the next pass offers nothing
    refine ⟨⟨h.sound, h.grows, fun point hpoint ↦ ?_⟩, fun point hpoint ↦ ?_⟩
    · rw [h.forks] at hpoint
      obtain rfl := List.mem_singleton.mp hpoint
      exact LobbyPoint.offersSound_of_none rfl
    · rw [h.forks] at hpoint
      obtain rfl := List.mem_singleton.mp hpoint
      exact ⟨h.sound, rfl, trivial⟩

end Pass

/-! ### The service -/

/-- Every request keeps the contract. -/
theorem keeps_offersContract {request : LobbyRequest} {reply : Answer} {lobby : Lobby} (hsound : SoundRooms lobby)
    (hrequest : request.SoundOdds) :
    offersContract.Keeps (lobbyService.entry ⟨request, .start⟩) ⟨⟨request, .start⟩, lobby, [reply], []⟩ lobby := by
  have hstart : Offering 0 ⟨⟨request, .start⟩, lobby, [reply], []⟩ lobby := ⟨rfl, hsound, le_rfl, Nat.zero_le _⟩
  have hrequests : ∀ {α : Type} {program : LobbyTask α}, program.Within keepingSound lobby →
      program.wpIn (.relabel request.at) offersContract (fun _ ↦ offersContract.done ()) offersContract.raised
        ⟨⟨request, .start⟩, lobby, [reply], []⟩ lobby := fun hwithin ↦
    Program.wpIn_mono (fun _ _ _ h ↦ h.finished) (fun _ _ _ h ↦ ⟨trivial, h.finished⟩)
      ((steady_offering request 0).wpIn hwithin hstart)
  cases request with
  | createRoom odds player =>
    obtain ⟨roomOdds, rfl, hodds⟩ := hrequest
    exact hrequests (within_createRoom hodds player)
  | enterRoom player =>
    exact hrequests (Program.within_bind (within_enterRoom player) fun _ _ ↦ Program.within_pure ())
  | leaveRoom roomId uid =>
    exact hrequests (Program.within_bind (within_leaveRoom roomId uid) fun _ _ ↦ Program.within_pure ())
  | matchLoop => exact wpIn_matchLoop_offering hstart
  | unlockRoom roomId => exact hrequests (within_unlockRoom roomId)

/-- The contract is sound for the lobby as long as the clients send sound odds. -/
theorem sound_offersContract : lobbyService.Sound offersContract
    (fun lobby points ↦ SoundRooms lobby ∧ ∀ point ∈ points, point.OffersSound) SendsSoundOdds where
  rely_refl _ lobby := .refl lobby
  rely_trans _ _ _ _ h h' := h.trans h'
  pre_rely _ _ _ hpre hrely := ⟨(hrely hpre.1).1, hpre.2⟩
  entry point reply lobby hpre := by
    obtain ⟨request, call⟩ := point
    obtain ⟨hsound, rfl, hrequest⟩ := hpre
    exact keeps_offersContract hsound hrequest
  arrive configuration point hsends harrives hinv := by
    have hstart : point.call = .start := by
      obtain ⟨request, call⟩ := point
      cases request <;> cases call <;> first | rfl | exact nomatch harrives
    refine ⟨⟨hinv.1, fun other hother ↦ ?_⟩, hinv.1, hstart, hsends⟩
    rcases List.mem_append.mp hother with hold | hnew
    · exact hinv.2 other hold
    · obtain rfl := List.mem_singleton.mp hnew
      exact LobbyPoint.offersSound_of_none (by rw [hstart]; rfl)
  step configuration before point after reply answers left last _ hpoints hinv hguar := by
    refine ⟨⟨hguar.1, fun other hother ↦ ?_⟩, fun _ _ _ ↦ ⟨hguar.1, hguar.2.1⟩⟩
    rw [hpoints] at hinv
    rcases List.mem_append.mp hother with hmem | hmem
    · rcases List.mem_append.mp hmem with hmem | hmem
      · exact hinv.2 other (List.mem_append_left _ hmem)
      · exact hguar.2.2 other hmem
    · exact hinv.2 other (List.mem_append_right _ (List.mem_cons_of_mem _ hmem))

theorem good_openLobby_offers : System.Good offersContract
    (fun lobby points ↦ SoundRooms lobby ∧ ∀ point ∈ points, point.OffersSound) openLobby :=
  sound_offersContract.good_of_starts
    ⟨soundRooms_empty, fun _ hpoint ↦ List.mem_singleton.mp hpoint ▸ LobbyPoint.offersSound_of_none rfl⟩
    fun _ hpoint ↦ List.mem_singleton.mp hpoint ▸ ⟨soundRooms_empty, rfl, trivial⟩

/-- The lobby offers a room to a fight service. -/
def Offers (lobby : Configuration skynet LobbyPoint Lobby) (roomInfo : RoomInfo) : Prop :=
  ∃ point ∈ lobby.points, point.call.offers = some roomInfo

/-- Winning never costs money in the rooms of clients that send sound odds. In every run of the lobby in which every
`create_room` carries odds with which all stakes are positive, and in every run of a game in a room that the lobby
offers to a fight service: the settlement is computed without an error, an opponent of the banker whose hand beats the
banker's gains money and every other opponent loses money. -/
theorem winning_pays (lobby : Configuration skynet LobbyPoint Lobby) (roomInfo : RoomInfo) (fight : Fight)
    (configuration : Configuration skynet Point Fight) (hlobby : lobbyService.Run SendsSoundOdds openLobby lobby)
    (hoffers : Offers lobby roomInfo) (hrun : fightService.AnyRun (beforeGame fight roomInfo) configuration) :
    PaysWinners fight.moneyUpdates configuration := by
  obtain ⟨point, hpoint, hoffer⟩ := hoffers
  have hgood := sound_offersContract.good_of_run good_openLobby_offers hlobby
  obtain ⟨⟨roomOdds, hodds, hsound⟩, hsize⟩ := hgood.holds.2 point hpoint roomInfo hoffer
  exact paysWinners_of_run (hsize.trans (by decide)) hodds hsound hrun

/-- The lobby starts the game of a room that player 1 has created and player 2 has entered. -/
def opensRoom (odds : Option LuaInt) : List (Move skynet LobbyPoint) :=
  [ .arrive ⟨.createRoom odds ⟨1, some 11, "", "", 0⟩, .start⟩, .resume 1 .ok [.number 0],
    .arrive ⟨.enterRoom ⟨2, some 12, "", "", 0⟩, .start⟩,
    .resume 1 .ok [.order [1000], .order [1, 2], .order [1, 2]],
    .resume 0 .ok [.order [1000], .number 11], .resume 0 (.number 5) [.order [1, 2]],
    .resume 0 .ok [], .resume 0 .ok [] ]

/-- The room that the lobby offers. -/
def offered (lobby : Configuration skynet LobbyPoint Lobby) : Option RoomInfo :=
  lobby.points.findSome? fun point ↦ point.call.offers

theorem offers_of_offered {lobby : Configuration skynet LobbyPoint Lobby} {roomInfo : RoomInfo}
    (h : offered lobby = some roomInfo) : Offers lobby roomInfo := by
  obtain ⟨point, hpoint, hoffers⟩ := List.exists_of_findSome?_eq_some h
  exact ⟨point, hpoint, hoffers⟩

/-- The room of two players whose game the lobby starts. -/
def startedRoom (odds : Option LuaInt) : RoomInfo :=
  { pairRoom with roomOdds := odds, fightIns := some 5, layout := 1 }

instance : DecidableEq RoomInfo := fun first last ↦
  decidable_of_iff (first.roomId = last.roomId ∧ first.roomOdds = last.roomOdds ∧
    first.playerLst = last.playerLst ∧ first.status = last.status ∧ first.roomBeginTs = last.roomBeginTs ∧
    first.fightIns = last.fightIns ∧ first.layout = last.layout) <| by
  cases first
  cases last
  simp only [RoomInfo.mk.injEq]

/-- The result of a game is being stored in which player 2 has a better hand than player 1, who is the banker. -/
structure SecondWins (configuration : Configuration skynet Point Fight) : Prop where
  started : Started configuration
  settling : ∃ point ∈ gamePoints configuration.points, point.call.isSettling = true
  banker : configuration.state.roomLeader = some 1
  plays : 2 ∈ configuration.state.playerLst.keys
  beats : handBeats (configuration.state.hand 2) (configuration.state.hand 1) = true

/-- The money of player 2 when he wins. -/
def secondMoney (configuration : Configuration skynet Point Fight) : Option LuaInt :=
  if (∀ point ∈ configuration.points, point.opensGame = false) ∧
      (∃ point ∈ gamePoints configuration.points, point.call.isSettling = true) ∧
      configuration.state.roomLeader = some 1 ∧ 2 ∈ configuration.state.playerLst.keys ∧
      handBeats (configuration.state.hand 2) (configuration.state.hand 1) = true then
    some (configuration.state.winMoney 2)
  else none

theorem secondWins_of_money {configuration : Configuration skynet Point Fight} {money : LuaInt}
    (h : secondMoney configuration = some money) :
    SecondWins configuration ∧ configuration.state.winMoney 2 = money := by
  unfold secondMoney at h
  split_ifs at h with hwins
  obtain ⟨hstarted, hsettling, hbanker, hplays, hbeats⟩ := hwins
  exact ⟨⟨hstarted, hsettling, hbanker, hplays, hbeats⟩, Option.some.inj h⟩

theorem winning_pays_pair : ∃ configuration : Configuration skynet Point Fight,
    PaysWinners [] configuration ∧ configuration.state.winMoney 2 = 125 := by
  obtain ⟨lobby, hlobby, hoffered⟩ := lobbyService.exists_run_of_playMeeting SendsSoundOdds openLobby
    (opensRoom (some 25)) offered (show _ = some (some (startedRoom (some 25))) by decide +kernel)
  obtain ⟨configuration, hrun, hmoney⟩ := System.exists_run_of_playAll fightService
    (beforeGame idleFight (startedRoom (some 25))) untilSettled secondMoney
    (show _ = some (some 125) by decide +kernel)
  exact ⟨configuration, winning_pays lobby _ idleFight configuration hlobby (offers_of_offered hoffered) hrun,
    (secondWins_of_money hmoney).2⟩

/-- A client creates a room of odds minus 25: player 2 has the better hand and pays 125 for it. Another sends no odds:
the settlement of the game raises an error. -/
theorem winner_pays : (∃ (lobby : Configuration skynet LobbyPoint Lobby) (roomInfo : RoomInfo)
      (configuration : Configuration skynet Point Fight), lobbyService.AnyRun openLobby lobby ∧
      Offers lobby roomInfo ∧ fightService.AnyRun (beforeGame idleFight roomInfo) configuration ∧
      SecondWins configuration ∧ configuration.state.winMoney 2 = -125 ∧ ¬ PaysWinners [] configuration) ∧
    ∃ (lobby : Configuration skynet LobbyPoint Lobby) (roomInfo : RoomInfo)
      (configuration : Configuration skynet Point Fight), lobbyService.AnyRun openLobby lobby ∧
      Offers lobby roomInfo ∧ fightService.AnyRun (beforeGame idleFight roomInfo) configuration ∧
      .arithmeticOnNil ∈ configuration.errors := by
  constructor
  · obtain ⟨lobby, hlobby, hoffered⟩ := lobbyService.exists_run_of_playAll openLobby (opensRoom (some (-25)))
      offered (show _ = some (some (startedRoom (some (-25)))) by decide +kernel)
    obtain ⟨configuration, hrun, hvalue⟩ := System.exists_run_of_playAll fightService
      (beforeGame idleFight (startedRoom (some (-25)))) untilSettled secondMoney
      (show _ = some (some (-125)) by decide +kernel)
    obtain ⟨hwins, hmoney⟩ := secondWins_of_money hvalue
    refine ⟨lobby, _, configuration, hlobby, offers_of_offered hoffered, hrun, hwins, hmoney, fun hpays ↦ ?_⟩
    have hgains := hpays.pays hwins.started (.inl hwins.settling) 1 hwins.banker 2 hwins.plays (by decide)
    rw [if_pos hwins.beats, hmoney] at hgains
    exact absurd hgains (by decide)
  · obtain ⟨lobby, hlobby, hoffered⟩ := lobbyService.exists_run_of_playAll openLobby (opensRoom none)
      offered (show _ = some (some (startedRoom none)) by decide +kernel)
    obtain ⟨configuration, hrun, hvalue⟩ := System.exists_run_of_playAll fightService
      (beforeGame idleFight (startedRoom none))
      (untilLastDeal ++ (fromLastDeal .ok .ok).take 5 ++ [takeTurn [.number 50, .order [1, 2]]])
      (fun configuration ↦ decide (.arithmeticOnNil ∈ configuration.errors)) (show _ = some true by decide +kernel)
    exact ⟨lobby, _, configuration, hlobby, offers_of_offered hoffered, hrun, of_decide_eq_true hvalue⟩

end SvrDemo.Douniu
