import SvrDemo.Douniu.Membership

/-!
# The next pass of the match loop

The last statement of `matchLoop` sets the timer of the next pass. Before it, the pass calls a new fight
service, the agents of the players and the fights of every room that is due, and none of these calls is
protected: a call that raises ends the pass before the timer is set, and no other request of the lobby sets
it again. So does `next` in the loop over the players of a room, when the player whose agent has been called is
gone and the table has been assigned a new key meanwhile.

A pass is a coroutine that serves `matchLoop`, whether it waits for its timer or for a reply. As long as every
call of a pass returns and the tables it traverses get no new keys there is exactly one. From the first error in a
pass on there is none, and no game starts any more.
-/

set_option autoImplicit false
set_option relaxedAutoImplicit false

namespace SvrDemo.Douniu

open Coroutine Lua Skynet

/-! ### Passes -/

/-- The request of the timer. -/
def LobbyRequest.isPass : LobbyRequest → Bool
  | .matchLoop => true
  | _ => false

/-- A coroutine that runs `matchLoop`, or its timer. -/
def LobbyPoint.isPass (point : LobbyPoint) : Bool :=
  point.request.isPass

/-- The passes that run and the timers that are set. -/
def passes (points : List LobbyPoint) : ℕ :=
  (points.filter LobbyPoint.isPass).length

/-- The call returns: `newservice` with the address of the service, the others with anything. The first
turn of a coroutine is no call. -/
def LobbyCall.returns : LobbyCall → Answer → Bool
  | .start, _ => true
  | .newService _, .number _ => true
  | .newService _, _ => false
  | _, .raised => false
  | _, _ => true

/-- A request seats only players with an agent. The agents put themselves into the records they send. -/
def LobbyRequest.namesAgent : LobbyRequest → Bool
  | .createRoom _ player => player.agent.isSome
  | .enterRoom player => player.agent.isSome
  | _ => true

/-- The requests that arrive seat only players with an agent. -/
def NamesAgents (_ : Configuration skynet LobbyPoint Lobby) : Move skynet LobbyPoint → Prop
  | .arrive point => point.request.namesAgent = true
  | .resume _ _ _ => True

/-- The call of a pass returns. -/
def CallReturns (_ : Configuration skynet LobbyPoint Lobby) (point : LobbyPoint) (reply : Answer) : Prop :=
  point.isPass = true → point.call.returns reply = true

/-- The room whose players a pass goes through, while it waits for one of their agents. -/
def LobbyPoint.tells : LobbyPoint → Option ℕ
  | ⟨.matchLoop, .setFight room _ _⟩ => some room
  | _ => none

theorem isPass_of_tells {point : LobbyPoint} {room : ℕ} (htells : point.tells = some room) :
    point.isPass = true := by
  obtain ⟨request, call⟩ := point
  cases request <;> first | rfl | exact nomatch htells

/-- The room in whose table of players a request assigns a key, and the key. -/
def LobbyPoint.assigns (lobby : Lobby) : LobbyPoint → List Answer → Option (ℕ × ℕ)
  | ⟨.enterRoom player, .start⟩, _ :: .order order :: _ => (lobby.findRoom order).map fun room ↦ (room, player.uid)
  | ⟨.leaveRoom roomId uid, .start⟩, _ :: .order order :: _ =>
    (lobby.findId order roomId).map fun room ↦ (room, uid)
  | _, _ => none

/-- No request assigns a new key to the table of players that a pass goes through. -/
def KeepsTable (configuration : Configuration skynet LobbyPoint Lobby) (point : LobbyPoint) (heard : List Answer) :
    Prop :=
  ∀ assigned ∈ point.assigns configuration.state heard, ∀ other ∈ configuration.points,
    other.tells = some assigned.1 → assigned.2 ∈ (configuration.state.players assigned.1).keys

/-- The moves in which no call of a pass raises, and which leave the tables it traverses without new keys. -/
def PassReturns (configuration : Configuration skynet LobbyPoint Lobby) (move : Move skynet LobbyPoint) :
    Prop :=
  NamesAgents configuration move ∧ Resumes CallReturns configuration move ∧ Hears KeepsTable configuration move

/-- A pass that waited at a point comes to an error: its call raises, or `next` does. -/
def LobbyPoint.stopped (point : LobbyPoint) : List Answer → Bool
  | [] => false
  | reply :: answers => !point.call.returns reply || answers.contains .raised

/-- A pass comes to an error. -/
def StopsPass (configuration : Configuration skynet LobbyPoint Lobby) : Move skynet LobbyPoint → Prop
  | .arrive _ => False
  | .resume index reply answers => ∃ point ∈ configuration.points[index]?,
    point.isPass = true ∧ point.stopped (reply :: answers) = true

instance (configuration : Configuration skynet LobbyPoint Lobby) :
    (move : Move skynet LobbyPoint) → Decidable (NamesAgents configuration move)
  | .arrive point => inferInstanceAs (Decidable (point.request.namesAgent = true))
  | .resume _ _ _ => inferInstanceAs (Decidable True)

instance (configuration : Configuration skynet LobbyPoint Lobby) (point : LobbyPoint) (reply : Answer) :
    Decidable (CallReturns configuration point reply) :=
  inferInstanceAs (Decidable (_ → _))

instance (configuration : Configuration skynet LobbyPoint Lobby) (point : LobbyPoint) (heard : List Answer) :
    Decidable (KeepsTable configuration point heard) :=
  inferInstanceAs (Decidable (∀ assigned ∈ point.assigns configuration.state heard, _))

instance (configuration : Configuration skynet LobbyPoint Lobby) :
    (move : Move skynet LobbyPoint) → Decidable (StopsPass configuration move)
  | .arrive _ => inferInstanceAs (Decidable False)
  | .resume index reply answers => inferInstanceAs (Decidable (∃ point ∈ configuration.points[index]?,
    point.isPass = true ∧ point.stopped (reply :: answers) = true))

instance (configuration : Configuration skynet LobbyPoint Lobby) (move : Move skynet LobbyPoint) :
    Decidable (PassReturns configuration move) :=
  inferInstanceAs (Decidable (_ ∧ _))

/-! ### What a pass relies on -/

/-- A room in the queue has been made, and every seated player has an agent. -/
structure AgentsKnown (lobby : Lobby) : Prop where
  made : ∀ key room, lobby.roomQueue.lookup key = some room → room < lobby.roomCnt
  agents : ∀ room key player, (lobby.players room).lookup key = some player → player.agent.isSome = true

/-- From one state to a later one no room is deleted or loses its fight service. -/
structure FightsStay (first last : Lobby) : Prop where
  roomCnt : first.roomCnt ≤ last.roomCnt
  queue : first.roomQueue.keys ⊆ last.roomQueue.keys
  fightIns : ∀ room < first.roomCnt, (first.rooms room).fightIns.isSome = true →
    (last.rooms room).fightIns.isSome = true

theorem FightsStay.refl (lobby : Lobby) : FightsStay lobby lobby :=
  ⟨le_rfl, Finset.Subset.refl _, fun _ _ h ↦ h⟩

theorem FightsStay.trans {first middle last : Lobby} (h : FightsStay first middle)
    (h' : FightsStay middle last) : FightsStay first last :=
  ⟨h.roomCnt.trans h'.roomCnt, h.queue.trans h'.queue, fun room hroom hfight ↦
    h'.fightIns room (hroom.trans_le h.roomCnt) (h.fightIns room hroom hfight)⟩

namespace AgentsKnown

variable {lobby : Lobby}

theorem updateRoom (h : AgentsKnown lobby) (room : ℕ) {change : RoomInfo → RoomInfo}
    (hplayers : ∀ key player, (change (lobby.rooms room)).playerLst.lookup key = some player →
      player.agent.isSome = true) : AgentsKnown (lobby.updateRoom room change) where
  made := h.made
  agents other key player hplayer := by
    rw [Lobby.players, Lobby.rooms_updateRoom] at hplayer
    split at hplayer
    · exact hplayers key player hplayer
    · exact h.agents other key player hplayer

theorem addRoom (h : AgentsKnown lobby) (roomOdds : Option LuaInt) {playerLst : Table RoomPlayer} (now : ℤ)
    (hplayers : ∀ key player, playerLst.lookup key = some player → player.agent.isSome = true) :
    AgentsKnown (lobby.addRoom roomOdds playerLst now) where
  made key room hroom := by
    rw [Lobby.lookup_addRoom] at hroom
    split at hroom
    · exact (Option.some.inj hroom).symm ▸ Nat.lt_succ_self lobby.roomCnt
    · exact Nat.lt_succ_of_lt (h.made key room hroom)
  agents room key player hplayer := by
    rw [Lobby.players_addRoom] at hplayer
    split at hplayer
    · exact hplayers key player hplayer
    · exact h.agents room key player hplayer

theorem seat (h : AgentsKnown lobby) (room : ℕ) {player : RoomPlayer}
    (hagent : player.agent.isSome = true) : AgentsKnown (lobby.seat room player) := by
  refine h.updateRoom room fun key other hother ↦ ?_
  rw [RoomInfo.addPlayer, Table.lookup_insert_eq] at hother
  split at hother
  · exact Option.some.inj hother ▸ hagent
  · exact h.agents room key other hother

theorem unseat (h : AgentsKnown lobby) (room uid : ℕ) : AgentsKnown (lobby.unseat room uid) := by
  refine h.updateRoom room fun key other hother ↦ ?_
  exact h.agents room key other (Table.lookup_of_erase hother)

theorem erase (h : AgentsKnown lobby) (key : ℕ) :
    AgentsKnown { lobby with roomQueue := lobby.roomQueue.erase key } where
  made other room hroom := h.made other room (Table.lookup_of_erase hroom)
  agents := h.agents

end AgentsKnown

theorem agentsKnown_empty : AgentsKnown .empty where
  made _ _ hroom := nomatch hroom
  agents _ _ _ hplayer := nomatch hplayer

namespace FightsStay

variable (lobby : Lobby)

theorem updateRoom (room : ℕ) {change : RoomInfo → RoomInfo}
    (hfight : ∀ roomInfo, roomInfo.fightIns.isSome = true → (change roomInfo).fightIns.isSome = true) :
    FightsStay lobby (lobby.updateRoom room change) where
  roomCnt := le_rfl
  queue := Finset.Subset.refl _
  fightIns other _ hother := by
    rw [Lobby.rooms_updateRoom]
    split
    · next hsame => exact hfight _ (hsame ▸ hother)
    · exact hother

theorem addRoom (roomOdds : Option LuaInt) (playerLst : Table RoomPlayer) (now : ℤ) :
    FightsStay lobby (lobby.addRoom roomOdds playerLst now) where
  roomCnt := Nat.le_succ lobby.roomCnt
  queue := by
    rw [Lobby.addRoom, Table.keys_insert]
    exact Finset.subset_insert _ _
  fightIns room hroom hfight := by
    have hold : (lobby.addRoom roomOdds playerLst now).rooms room = lobby.rooms room :=
      Function.update_of_ne hroom.ne _ _
    rw [hold]
    exact hfight

end FightsStay

/-! ### The contract -/

/-- A section that is no pass leaves no pass and every fight service. A section of a pass leaves one pass,
and none when it has come to an error. When the tables it traverses are `still`, `next` raises none. -/
structure PassSection (still : Prop) (point : LobbyPoint) (origin : Lobby) (heard : List Answer)
    (left : List LobbyPoint) (last : Lobby) : Prop where
  known : AgentsKnown last
  request : point.isPass = false → passes left = 0 ∧ FightsStay origin last
  pass : point.isPass = true → passes left = if point.stopped heard then 0 else 1
  firm : still → point.isPass = true → .raised ∉ heard.tail

/-- The contract of the lobby: a pass relies on the fight services of the rooms, and on the table of players
that it goes through. -/
def passContract (still : Prop) : Contract skynet LobbyPoint Lobby where
  rely := fun point first last ↦
    (AgentsKnown first → AgentsKnown last) ∧ (point.isPass = true → FightsStay first last) ∧
      (still → ∀ room < first.roomCnt, point.tells = some room →
        (last.rooms room).layout = (first.rooms room).layout)
  guar := PassSection still
  pre := fun point lobby ↦ AgentsKnown lobby ∧ point.call = .start ∧ point.request.namesAgent = true
  err := fun _ ↦ True

variable {still : Prop}

/-! ### The requests -/

/-- The footprint of the requests: they leave the fight services of the rooms. -/
def leavingFights : Footprint skynet LobbyCall Lobby where
  waits call := call ≠ .timer
  changes first last := AgentsKnown first → AgentsKnown last ∧ FightsStay first last
  raises _ := True

theorem speaking_leavingFights : Speaking leavingFights :=
  ⟨fun _ ↦ trivial, fun _ _ ↦ nofun, fun _ _ _ ↦ nofun⟩

/-- A section of a request so far. -/
structure RequestSoFar (current : Section skynet LobbyPoint Lobby) (lobby : Lobby) : Prop where
  request : current.point.isPass = false
  forks : current.forks = []
  known : AgentsKnown lobby
  stays : FightsStay current.origin lobby

theorem RequestSoFar.ends {current : Section skynet LobbyPoint Lobby} {lobby : Lobby}
    (h : RequestSoFar current lobby) {left : List LobbyPoint} (hleft : passes left = 0) :
    (passContract still).Ends current left lobby := by
  refine ⟨⟨h.known, fun _ ↦ ⟨hleft, h.stays⟩, fun hpass ↦ ?_, fun _ hpass ↦ ?_⟩, fun point hpoint ↦ ?_⟩
  · exact nomatch h.request.symm.trans hpass
  · exact nomatch h.request.symm.trans hpass
  · rw [h.forks] at hpoint
    exact nomatch hpoint

theorem RequestSoFar.finished {current : Section skynet LobbyPoint Lobby} {lobby : Lobby}
    (h : RequestSoFar current lobby) : (passContract still).Ends current current.forks lobby :=
  h.ends (by rw [h.forks]; rfl)

/-- A coroutine of a request that is no pass waits as one that is no pass. -/
theorem LobbyRequest.isPass_at {request : LobbyRequest} {call : LobbyCall} (hcall : call ≠ .timer) :
    (request.at call).isPass = (LobbyPoint.mk request .start).isPass := by
  cases call with
  | timer => exact absurd rfl hcall
  | _ => rfl

theorem passes_singleton (point : LobbyPoint) : passes [point] = if point.isPass then 1 else 0 := by
  unfold passes
  cases hpoint : point.isPass <;> simp [hpoint]

/-- A request keeps its assertion through every program within the footprint. -/
theorem steady_requestSoFar {request : LobbyRequest}
    (hrequest : (LobbyPoint.mk request .start).isPass = false) :
    Steady (.relabel request.at) (passContract still) leavingFights (fun _ ↦ RequestSoFar) RequestSoFar where
  heard _ _ _ h := ⟨h.request, h.forks, h.known, h.stays⟩
  change _ _ _ hchange h :=
    ⟨h.request, h.forks, (hchange h.known).1, h.stays.trans (hchange h.known).2⟩
  wait call current lobby hcall h := by
    have hpoint : (request.at call).isPass = false := (LobbyRequest.isPass_at hcall).trans hrequest
    refine ⟨h.ends ?_, fun reply later hrely ↦ ⟨hpoint, rfl, hrely.1 h.known, .refl later⟩⟩
    rw [h.forks, List.nil_append]
    refine (passes_singleton _).trans ?_
    rw [hpoint]
    rfl
  raise _ _ _ _ h := h

section Requests

variable {lobby : Lobby}

theorem leaving_updateRoom (room : ℕ) {change : RoomInfo → RoomInfo}
    (hplayers : ∀ roomInfo, (change roomInfo).playerLst = roomInfo.playerLst)
    (hfight : ∀ roomInfo, roomInfo.fightIns.isSome = true → (change roomInfo).fightIns.isSome = true) :
    leavingFights.changes lobby (lobby.updateRoom room change) := by
  intro h
  refine ⟨h.updateRoom room fun key player hplayer ↦ ?_, .updateRoom lobby room hfight⟩
  rw [hplayers] at hplayer
  exact h.agents room key player hplayer

theorem leaving_makeRoom (odds : Option LuaInt) {playerLst : Table RoomPlayer}
    (hplayers : ∀ key player, playerLst.lookup key = some player → player.agent.isSome = true) :
    (makeRoom odds playerLst).Within leavingFights lobby := by
  refine (Program.within_getState_bind _).mpr (Program.within_bind within_osTime fun now later ↦ ?_)
  refine (Program.within_modifyState_bind _ _).mpr ⟨fun h ↦ ?_, Program.within_pure _⟩
  exact ⟨h.addRoom odds now hplayers, .addRoom later odds playerLst now⟩

theorem leaving_createRoom (odds : Option LuaInt) {player : RoomPlayer}
    (hagent : player.agent.isSome = true) : (createRoom odds player).Within leavingFights lobby := by
  refine Program.within_bind (leaving_makeRoom odds fun key other hother ↦ ?_)
    fun _ _ ↦ Program.within_pure ()
  have hmem : key ∈ (Finmap.singleton 1 player : Table RoomPlayer) := Finmap.mem_of_lookup_eq_some hother
  have hkey : key = 1 := (Finmap.mem_singleton key 1 player).mp hmem
  rw [hkey, Finmap.lookup_singleton_eq] at hother
  exact Option.some.inj hother ▸ hagent

theorem leaving_enterRoom {player : RoomPlayer} (hagent : player.agent.isSome = true) :
    (enterRoom player).Within leavingFights lobby := by
  refine (Program.within_getState_bind _).mpr (Program.within_bind (within_pairs _) fun order later ↦ ?_)
  have hroom : (roomFor order).Within leavingFights later := by
    refine (Program.within_getState_bind _).mpr ?_
    split
    · exact Program.within_pure _
    · exact leaving_makeRoom _ fun _ _ hother ↦ nomatch hother
  refine Program.within_bind hroom fun room middle ↦ ?_
  refine (Program.within_modifyState_bind _ _).mpr ⟨fun h ↦ ?_, ?_⟩
  · exact ⟨h.seat room hagent, .updateRoom middle room fun _ h ↦ h⟩
  · refine Program.within_bind (within_updateRoomInfo speaking_leavingFights room) fun _ _ ↦ ?_
    exact (Program.within_getState_bind _).mpr (Program.within_pure _)

theorem leaving_leaveRoom (roomId uid : ℕ) : (leaveRoom roomId uid).Within leavingFights lobby := by
  refine (Program.within_getState_bind _).mpr (Program.within_bind (within_pairs _) fun order later ↦ ?_)
  refine (Program.within_getState_bind _).mpr ?_
  split
  · exact Program.within_pure _
  next room _ =>
    refine (Program.within_modifyState_bind _ _).mpr ⟨fun h ↦ ?_, ?_⟩
    · exact ⟨h.unseat room uid, .updateRoom later room fun _ h ↦ h⟩
    refine (Program.within_getState_bind _).mpr ?_
    refine Program.within_bind (within_address speaking_leavingFights _) fun fight _ ↦ ?_
    refine Program.within_bind (within_call nofun trivial) fun _ _ ↦ ?_
    exact Program.within_bind (within_updateRoomInfo speaking_leavingFights room) fun _ _ ↦
      Program.within_pure _

theorem leaving_unlockRoom (roomId : ℕ) : (unlockRoom roomId).Within leavingFights lobby := by
  refine (Program.within_getState_bind _).mpr ?_
  split
  · exact Program.within_pure ()
  · refine Program.within_bind within_osTime fun now later ↦ ?_
    refine (Program.within_modifyState_bind _ _).mpr ⟨leaving_updateRoom _ (fun _ ↦ rfl) fun _ h ↦ h, ?_⟩
    exact within_setFight speaking_leavingFights _ _

end Requests

/-! ### A pass -/

/-- A section of a pass so far: its call has returned, `next` has not raised, and no timer is set yet. -/
structure PassSoFar (current : Section skynet LobbyPoint Lobby) (lobby : Lobby) : Prop where
  pass : current.point.request = .matchLoop
  forks : current.forks = []
  known : AgentsKnown lobby
  returned : ∃ reply answers, current.heard = reply :: answers ∧ current.point.call.returns reply = true ∧
    .raised ∉ answers

theorem isPass_matchLoop {point : LobbyPoint} (h : point.request = .matchLoop) : point.isPass = true := by
  obtain ⟨request, call⟩ := point
  obtain rfl : request = .matchLoop := h
  rfl

namespace PassSoFar

variable {current : Section skynet LobbyPoint Lobby} {lobby : Lobby}

theorem hear (h : PassSoFar current lobby) {answer : Answer} (hanswer : answer ≠ .raised) :
    PassSoFar { current with heard := current.heard ++ [answer] } lobby := by
  obtain ⟨reply, answers, hheard, hreturns, hfirm⟩ := h.returned
  refine ⟨h.pass, h.forks, h.known, reply, answers ++ [answer], by rw [hheard, List.cons_append], hreturns, ?_⟩
  simp [hfirm, hanswer.symm]

theorem change (h : PassSoFar current lobby) {changed : Lobby} (hknown : AgentsKnown changed) :
    PassSoFar current changed :=
  ⟨h.pass, h.forks, hknown, h.returned⟩

/-- The section may leave one pass. -/
theorem ends (h : PassSoFar current lobby) {left : List LobbyPoint} (hleft : passes left = 1) :
    PassSection still current.point current.origin current.heard left lobby := by
  obtain ⟨reply, answers, hheard, hreturns, hfirm⟩ := h.returned
  refine ⟨h.known, fun hrequest ↦ ?_, fun _ ↦ ?_, fun _ _ ↦ ?_⟩
  · exact nomatch hrequest.symm.trans (isPass_matchLoop h.pass)
  · have hgoes : current.point.stopped current.heard = false := by
      simp [LobbyPoint.stopped, hheard, hreturns, hfirm]
    rw [hleft, hgoes]
    rfl
  · rw [hheard]
    exact hfirm

/-- `next` raises, in a table that has got new keys. -/
theorem loses (h : PassSoFar current lobby) (hstill : ¬ still) :
    (passContract still).raised .invalidKey { current with heard := current.heard ++ [.raised] } lobby := by
  obtain ⟨reply, answers, hheard, -, -⟩ := h.returned
  refine ⟨trivial, ⟨h.known, fun hrequest ↦ ?_, fun _ ↦ ?_, fun hfirm ↦ absurd hfirm hstill⟩, fun point hpoint ↦ ?_⟩
  · exact nomatch hrequest.symm.trans (isPass_matchLoop h.pass)
  · have hstops : current.point.stopped (current.heard ++ [.raised]) = true := by
      rw [hheard]
      simp [LobbyPoint.stopped]
    rw [if_pos hstops, h.forks]
    rfl
  · simp only [h.forks] at hpoint
    exact nomatch hpoint

end PassSoFar

section Pass

variable {α : Type} {current : Section skynet LobbyPoint Lobby} {lobby : Lobby}
  {raised : LuaError → Section skynet LobbyPoint Lobby → Lobby → Prop}

/-- A call of a pass: when it returns the pass goes on, with what it relies on, and when it raises the pass leaves
nothing. -/
theorem wp_awaitPass {call : LobbyCall} (hcall : call ≠ .timer)
    {post : Answer → Section skynet LobbyPoint Lobby → Lobby → Prop} (h : PassSoFar current lobby)
    (hpost : ∀ reply current later, (passContract still).rely ⟨.matchLoop, call⟩ lobby later →
      (call.returns reply = true → PassSoFar current later) →
      (call.returns reply = false → (passContract still).raised .callFailed current later) →
      post reply current later) :
    (Program.await (I := skynet) (LobbyRequest.matchLoop.at call)).wp (passContract still) post raised current
      lobby := by
  have hat : LobbyRequest.matchLoop.at call = ⟨.matchLoop, call⟩ := by
    cases call with
    | timer => exact absurd rfl hcall
    | _ => rfl
  rw [hat, Program.wp_await]
  refine ⟨⟨h.ends ?_, fun point hpoint ↦ ?_⟩, fun reply later hrely ↦ ?_⟩
  · rw [h.forks]
    rfl
  · rw [h.forks] at hpoint
    exact nomatch hpoint
  · refine hpost reply _ later hrely (fun hreturns ↦ ?_) fun hraises ↦ ?_
    · exact ⟨rfl, rfl, hrely.1 h.known, reply, [], rfl, hreturns, List.not_mem_nil⟩
    · refine ⟨trivial, ⟨hrely.1 h.known, fun hrequest ↦ ?_, fun _ ↦ ?_, fun _ _ ↦ List.not_mem_nil⟩,
        fun _ hpoint ↦ nomatch hpoint⟩
      · exact nomatch hrequest
      · simp [LobbyPoint.stopped, hraises, passes]

/-- The calls of a pass other than that of a new service. -/
theorem wpIn_callPass {call : LobbyCall} (hcall : call ≠ .timer)
    (hreturns : ∀ reply, call.returns reply = decide (reply ≠ .raised))
    {post : Unit → Section skynet LobbyPoint Lobby → Lobby → Prop} (h : PassSoFar current lobby)
    (hpost : ∀ current later, (passContract still).rely ⟨.matchLoop, call⟩ lobby later →
      PassSoFar current later → post () current later) :
    (Skynet.call call : LobbyTask Unit).wpIn (.relabel LobbyRequest.matchLoop.at) (passContract still) post
      (passContract still).raised current lobby := by
  refine wpIn_call_of (wp_awaitPass hcall h fun reply current later hrely hreturn hraise ↦ ?_)
  rw [hreturns] at hreturn hraise
  exact ⟨fun hreply ↦ hpost current later hrely (hreturn (decide_eq_true hreply)),
    fun hreply ↦ hraise (decide_eq_false fun h ↦ h hreply)⟩

/-- `set_fight` for the players of a room: the fight services stay. -/
theorem wpIn_setFightPass (room : ℕ) (fightOf : RoomInfo → Option ℕ) (hroom : room < lobby.roomCnt)
    (h : PassSoFar current lobby) :
    (setFight room fightOf).wpIn (.relabel LobbyRequest.matchLoop.at) (passContract still)
      (fun _ current later ↦ FightsStay lobby later ∧ PassSoFar current later)
      (passContract still).raised current lobby := by
  unfold setFight forPlayers
  -- the body, with the table of players as the call of the agent leaves it
  have hbody : ∀ (player : RoomPlayer) current middle, FightsStay lobby middle ∧ PassSoFar current middle →
      player.agent.isSome = true →
      (do
        let fight := fightOf ((← Program.getState).rooms room)
        let agent ← address player.agent
        call (.setFight room agent fight) : LobbyTask Unit).wpIn (.relabel LobbyRequest.matchLoop.at)
          (passContract still) (fun _ current later ↦ (FightsStay lobby later ∧ PassSoFar current later) ∧
            (still → (later.rooms room).layout = (middle.rooms room).layout))
          (passContract still).raised current middle := by
    intro player current middle ⟨hstays, hpass⟩ hknown
    obtain ⟨agent, hagent⟩ := Option.isSome_iff_exists.mp hknown
    rw [Program.wpIn_relabel_getState_bind, hagent, Program.wpIn_bind, address, Program.wpIn_pure]
    refine wpIn_callPass ?_ (fun reply ↦ ?_) hpass fun _ last hrely hpass ↦
      ⟨⟨hstays.trans (hrely.2.1 rfl), hpass⟩, fun hstill ↦ ?_⟩
    · exact nofun
    · cases reply <;> rfl
    · exact hrely.2.2 hstill room (hroom.trans_le hstays.roomCnt) rfl
  refine Program.wpIn_mono (fun _ _ _ h ↦ h.elim And.left And.right) (fun _ _ _ h ↦ h) (wpIn_traverse_of
    (fun _ current later ↦ (FightsStay lobby later ∧ PassSoFar current later) ∧
      (still → (later.rooms room).layout = (lobby.rooms room).layout))
    (fun current later ↦ ¬ still ∧ FightsStay lobby later ∧ PassSoFar current later)
    (fun order _ ↦ ⟨⟨.refl lobby, h.hear nofun⟩, fun _ ↦ rfl⟩) (fun key rest player current later hplayer h ↦ ?_)
    (fun _ _ _ _ _ h ↦ h) (fun _ current later h hnew ↦ ⟨fun hstill ↦ hnew (h.2 hstill), h.1⟩)
    (fun _ _ answer hanswer h ↦ ⟨h.1, h.2.1, h.2.2.hear hanswer⟩) (fun _ _ h ↦ h.2.2.loses h.1)
    fun key player current later hplayer h ↦ ?_)
  · exact Program.wpIn_mono (fun _ _ _ hnext ↦ ⟨hnext.1, fun hstill ↦ (hnext.2 hstill).trans (h.2 hstill)⟩)
      (fun _ _ _ h ↦ h) (hbody player current later h.1 (h.1.2.known.agents room key player hplayer))
  · exact Program.wpIn_mono (fun _ _ _ hnext ↦ ⟨h.1, hnext.1⟩) (fun _ _ _ h ↦ h)
      (hbody player current later h.2 (h.2.2.known.agents room key player hplayer))

/-- The fight service of a room is there after `ensureFight`. -/
theorem wpIn_ensureFightPass {room : ℕ} (h : PassSoFar current lobby) :
    (ensureFight room).wpIn (.relabel LobbyRequest.matchLoop.at) (passContract still)
      (fun _ current later ↦ (later.rooms room).fightIns.isSome = true ∧ FightsStay lobby later ∧
        PassSoFar current later) (passContract still).raised current lobby := by
  unfold ensureFight
  rw [Program.wpIn_relabel_getState_bind]
  cases hfight : (lobby.rooms room).fightIns with
  | some fight => exact ⟨Option.isSome_iff_exists.mpr ⟨fight, hfight⟩, .refl lobby, h⟩
  | none =>
    dsimp only
    rw [Program.wpIn_bind, Program.wpIn_await]
    refine wp_awaitPass ?_ h fun reply current later hrely hreturn hraise ↦ ?_
    · exact nofun
    cases reply with
    | number fight =>
      have hpass := hreturn rfl
      rw [Program.wpIn_relabel_modifyState]
      refine ⟨?_, (hrely.2.1 rfl).trans (.updateRoom later room fun _ _ ↦ rfl), hpass.change ?_⟩
      · rw [Lobby.rooms_updateRoom, if_pos rfl]
        rfl
      · exact hpass.known.updateRoom room fun key player ↦ hpass.known.agents room key player
    | order _ => exact hraise rfl
    | ok => exact hraise rfl
    | raised => exact hraise rfl

/-- `startGame` of a pass: no room is deleted meanwhile. -/
theorem wpIn_startGamePass {room : ℕ} (hroom : room < lobby.roomCnt) (h : PassSoFar current lobby) :
    (startGame room).wpIn (.relabel LobbyRequest.matchLoop.at) (passContract still)
      (fun _ current later ↦ FightsStay lobby later ∧ PassSoFar current later)
      (passContract still).raised current lobby := by
  unfold startGame
  rw [Program.wpIn_relabel_getState_bind]
  split
  · exact ⟨.refl lobby, h⟩
  refine Program.wpIn_seq (wpIn_ensureFightPass h) fun _ current middle ⟨hfight, hfirst, h⟩ ↦ ?_
  have hroom := hroom.trans_le hfirst.roomCnt
  refine Program.wpIn_seq (wpIn_setFightPass room _ hroom h) fun _ current later ⟨hstays, h⟩ ↦ ?_
  obtain ⟨fight, hfight⟩ := Option.isSome_iff_exists.mp (hstays.fightIns room hroom hfight)
  rw [Program.wpIn_relabel_getState_bind]
  dsimp only
  rw [hfight, Program.wpIn_bind, address, Program.wpIn_pure, Program.wpIn_bind]
  refine wpIn_callPass ?_ (fun reply ↦ ?_) h fun current last hrely h ↦ ?_
  · exact nofun
  · cases reply <;> rfl
  rw [Program.wpIn_relabel_modifyState]
  refine ⟨((hfirst.trans hstays).trans (hrely.2.1 rfl)).trans (.updateRoom last room fun _ h ↦ h), h.change ?_⟩
  exact h.known.updateRoom room fun key player ↦ h.known.agents room key player

/-- One turn of the loop of `matchLoop`. It leaves the room in the queue, or takes one section. -/
theorem wpIn_matchRoomPass {key room : ℕ} (hlookup : lobby.roomQueue.lookup key = some room)
    (h : PassSoFar current lobby) :
    (matchRoom key room).wpIn (.relabel LobbyRequest.matchLoop.at) (passContract still)
      (fun _ current later ↦ PassSoFar current later ∧
        (key ∈ later.roomQueue.keys ∨ later.queueLayout = lobby.queueLayout))
      (passContract still).raised current lobby := by
  have hkey : key ∈ lobby.roomQueue.keys := Table.mem_keys_iff.mpr ⟨room, hlookup⟩
  unfold matchRoom
  rw [Program.wpIn_relabel_getState_bind]
  split
  · have hdue : (isDue (lobby.players room).size room).wpIn (.relabel LobbyRequest.matchLoop.at)
        (passContract still) (fun due current later ↦ (due = true → 2 ≤ (lobby.players room).size) ∧
          later = lobby ∧ PassSoFar current later) (passContract still).raised current lobby := by
      unfold isDue
      split
      · next hplayers =>
        rw [Program.wpIn_bind]
        refine wpIn_osTime fun now ↦ ?_
        exact ⟨fun _ ↦ hplayers, rfl, h.hear nofun⟩
      · exact ⟨nofun, rfl, h⟩
    refine Program.wpIn_seq hdue fun due current later ⟨hplayers, hsame, hpass⟩ ↦ ?_
    rw [hsame] at hpass ⊢
    split
    · next hstarts =>
      refine Program.wpIn_seq (wpIn_startGamePass (hpass.known.made key room hlookup) hpass)
        fun _ current last ⟨hstays, hpass⟩ ↦ ?_
      have hmany := hplayers hstarts
      rw [dropEmpty, if_neg (by omega)]
      exact ⟨hpass, .inl (hstays.queue hkey)⟩
    · rw [Program.wpIn_relabel_modifyState_bind]
      have h : PassSoFar current (lobby.updateRoom room fun roomInfo ↦ { roomInfo with fightIns := none }) :=
        hpass.change (hpass.known.updateRoom room fun key player ↦ hpass.known.agents room key player)
      unfold dropEmpty
      split
      · rw [Program.wpIn_relabel_modifyState]
        exact ⟨h.change (h.known.erase key), .inr rfl⟩
      · exact ⟨h, .inr rfl⟩
  · exact ⟨h, .inl hkey⟩

/-- `matchLoop` sets the timer of the next pass, or it has come to an error. -/
theorem wpIn_matchLoopPass (h : PassSoFar current lobby) :
    matchLoop.wpIn (.relabel LobbyRequest.matchLoop.at) (passContract still) (passContract still).done
      (passContract still).raised current lobby := by
  unfold matchLoop
  refine Program.wpIn_seq (wpIn_traverse_staying PassSoFar (fun _ _ order h ↦ h.hear nofun)
    (fun key room current lobby hlookup h ↦ wpIn_matchRoomPass hlookup h) h) fun _ current later h ↦ ?_
  refine ⟨h.ends ?_, fun point hpoint ↦ ?_⟩
  · rw [h.forks]
    rfl
  · rw [h.forks] at hpoint
    obtain rfl := List.mem_singleton.mp hpoint
    exact ⟨h.known, rfl, rfl⟩

end Pass

/-! ### The service -/

/-- Every request keeps the contract. -/
theorem keeps_passContract {request : LobbyRequest} {reply : Answer} {lobby : Lobby}
    (hknown : AgentsKnown lobby) (hagent : request.namesAgent = true) :
    (passContract still).Keeps (lobbyService.entry ⟨request, .start⟩)
      ⟨⟨request, .start⟩, lobby, [reply], []⟩ lobby := by
  have hrequests : ∀ {α : Type} {program : LobbyTask α},
      (LobbyPoint.mk request .start).isPass = false → program.Within leavingFights lobby →
      program.wpIn (.relabel request.at) (passContract still) (fun _ ↦ (passContract still).done ())
        (passContract still).raised ⟨⟨request, .start⟩, lobby, [reply], []⟩ lobby := fun hrequest hwithin ↦
    Program.wpIn_mono (fun _ _ _ h ↦ h.finished) (fun _ _ _ h ↦ ⟨trivial, h.finished⟩)
      ((steady_requestSoFar hrequest).wpIn hwithin ⟨hrequest, rfl, hknown, .refl lobby⟩)
  cases request with
  | createRoom odds player => exact hrequests rfl (leaving_createRoom odds hagent)
  | enterRoom player =>
    exact hrequests rfl (Program.within_bind (leaving_enterRoom hagent) fun _ _ ↦ Program.within_pure ())
  | leaveRoom roomId uid =>
    exact hrequests rfl
      (Program.within_bind (leaving_leaveRoom roomId uid) fun _ _ ↦ Program.within_pure ())
  | matchLoop => exact wpIn_matchLoopPass ⟨rfl, rfl, hknown, reply, [], rfl, rfl, List.not_mem_nil⟩
  | unlockRoom roomId => exact hrequests rfl (leaving_unlockRoom roomId)

/-- A section leaves the keys of a table of players in their places unless it assigns a new one. -/
theorem LobbySection.layout {point : LobbyPoint} {origin last : Lobby} {heard : List Answer}
    (h : LobbySection point origin heard last) {room : ℕ} (hroom : room < origin.roomCnt)
    (hold : ∀ assigned ∈ point.assigns origin heard, assigned.1 = room →
      assigned.2 ∈ (origin.players room).keys) :
    (last.rooms room).layout = (origin.rooms room).layout := by
  have hadded : ∀ odds playerLst now,
      ((origin.addRoom odds playerLst now).rooms room).layout = (origin.rooms room).layout := by
    intro odds playerLst now
    have hsame : (origin.addRoom odds playerLst now).rooms room = origin.rooms room :=
      Function.update_of_ne hroom.ne _ _
    rw [hsame]
  cases h with
  | kept kept => exact kept.layout room
  | created now takes kept => exact (kept.layout room).trans (hadded _ _ now)
  | @entered player reply order answers target middle takes hears isOrder takesRoom kept =>
    subst takes hears
    rw [kept.layout, Lobby.seat, Lobby.rooms_updateRoom]
    cases takesRoom with
    | made now finds => rw [if_neg hroom.ne, hadded]
    | found finds =>
      split
      · next hsame =>
        have hkey := hold (target, player.uid) (by simp [LobbyPoint.assigns, finds]) hsame.symm
        rw [hsame] at hkey ⊢
        exact if_pos hkey
      · rfl
  | @departed roomId uid reply order answers target takes hears isOrder finds kept =>
    subst takes hears
    rw [kept.layout, Lobby.unseat, Lobby.rooms_updateRoom]
    split
    · next hsame =>
      have hkey := hold (target, uid) (by simp [LobbyPoint.assigns, finds]) hsame.symm
      rw [hsame] at hkey ⊢
      exact if_pos hkey
    · rfl

/-- The passes after a section. -/
theorem passes_left (before left after : List LobbyPoint) (point : LobbyPoint) :
    passes (before ++ left ++ after) + passes [point] =
      passes (before ++ point :: after) + passes left := by
  simp only [passes, List.filter_append, List.length_append, List.filter_cons, List.filter_nil]
  split <;> simp only [List.length_cons, List.length_nil] <;> omega

/-- A section that is no pass leaves the passes as they are. -/
theorem passes_left_request {before left after : List LobbyPoint} {point : LobbyPoint}
    (hpoint : point.isPass = false) (hleft : passes left = 0) :
    passes (before ++ left ++ after) = passes (before ++ point :: after) := by
  have h := passes_left before left after point
  rw [passes_singleton, hpoint, hleft] at h
  exact h

/-- A request that arrives is no pass. -/
theorem isPass_of_arrives {point : LobbyPoint} (harrives : lobbyService.arrives point = true) :
    point.isPass = false := by
  obtain ⟨request, call⟩ := point
  cases request with
  | matchLoop => exact nomatch harrives
  | _ => rfl

theorem passes_arrive {points : List LobbyPoint} {point : LobbyPoint}
    (harrives : lobbyService.arrives point = true) : passes (points ++ [point]) = passes points := by
  simp [passes, List.filter_append, isPass_of_arrives harrives]

/-- There are so many passes. -/
def Passes (count : ℕ) (_ : Lobby) (points : List LobbyPoint) : Prop :=
  passes points = count

/-- What the sections of the lobby do, and what they mean for a pass. -/
def matchContract (still : Prop) : Contract skynet LobbyPoint Lobby :=
  lobbyContract.and (passContract still)

/-- What a run of the lobby keeps: there is never more than one pass. -/
def PassInv (lobby : Lobby) (points : List LobbyPoint) : Prop :=
  AgentsKnown lobby ∧ passes points ≤ 1

/-- The requests seat players with an agent, and where the tables of players are to be `still`, they leave the
keys of the one that a pass goes through. -/
def KeepsStill (still : Prop) (configuration : Configuration skynet LobbyPoint Lobby) (move : Move skynet LobbyPoint) :
    Prop :=
  NamesAgents configuration move ∧ (still → Hears KeepsTable configuration move)

theorem sound_matchContract (still : Prop) : lobbyService.Sound (matchContract still) PassInv (KeepsStill still) where
  rely_refl _ lobby := ⟨trivial, id, fun _ ↦ .refl lobby, fun _ _ _ _ ↦ rfl⟩
  rely_trans point first middle last h h' :=
    ⟨trivial, h'.2.1 ∘ h.2.1, fun hpass ↦ (h.2.2.1 hpass).trans (h'.2.2.1 hpass),
      fun hstill room hroom htells ↦ by
        by_cases hpass : point.isPass = true
        · have hmiddle := hroom.trans_le (h.2.2.1 hpass).roomCnt
          exact (h'.2.2.2 hstill room hmiddle htells).trans (h.2.2.2 hstill room hroom htells)
        · exact absurd (isPass_of_tells htells) hpass⟩
  pre_rely _ _ _ hpre hrely := ⟨hpre.1, hrely.2.1 hpre.2.1, hpre.2.2⟩
  entry point reply lobby hpre := by
    obtain ⟨request, call⟩ := point
    obtain ⟨-, hknown, rfl, hagent⟩ := hpre
    exact (keeps_lobbyRequest request).and (keeps_passContract hknown hagent)
  arrive configuration point hkeepsStill harrives hinv := by
    have hstart : point.call = .start := by
      obtain ⟨request, call⟩ := point
      cases request <;> cases call <;> first | rfl | exact nomatch harrives
    refine ⟨⟨hinv.1, (passes_arrive harrives).trans_le hinv.2⟩, ⟨point.request, ?_⟩, hinv.1, hstart, hkeepsStill.1⟩
    rw [← hstart]
  step configuration before point after reply answers left last hkeepsStill hpoints hinv hguar := by
    obtain ⟨hdoes, hguar⟩ := hguar
    have hlayout : ∀ other ∈ before ++ after, still → ∀ room < configuration.state.roomCnt,
        other.tells = some room → (last.rooms room).layout = (configuration.state.rooms room).layout := by
      intro other hother hstill room hroom htells
      refine hdoes.layout hroom fun assigned hassigned hsame ↦ ?_
      have hmem : other ∈ configuration.points := by
        rw [hpoints]
        rcases List.mem_append.mp hother with h | h <;> simp [h]
      have hkeeps := (hkeepsStill.2 hstill).meets hpoints assigned hassigned other hmem
      rw [hsame] at hkeeps
      exact hkeeps htells
    obtain ⟨-, hsingle⟩ := hinv
    rw [hpoints] at hsingle
    cases hpoint : point.isPass with
    | false =>
      obtain ⟨hleft, hstays⟩ := hguar.request hpoint
      refine ⟨⟨hguar.known, (passes_left_request hpoint hleft).trans_le hsingle⟩, fun other hother ↦ ?_⟩
      exact ⟨trivial, fun _ ↦ hguar.known, fun _ ↦ hstays, hlayout other hother⟩
    | true =>
      have halone := alone_of_single hsingle hpoint
      have hleft := hguar.pass hpoint
      have hcount := passes_left before left after point
      rw [passes_singleton, if_pos hpoint] at hcount
      refine ⟨⟨hguar.known, ?_⟩, fun other hother ↦ ⟨trivial, fun _ ↦ hguar.known, fun hpass ↦ ?_,
        hlayout other hother⟩⟩
      · have hone : passes left ≤ 1 := by
          rw [hleft]
          split <;> decide
        omega
      · exact nomatch (halone other hother).symm.trans hpass

/-! ### Runs -/

theorem good_openLobby (still : Prop) : System.Good (matchContract still) PassInv openLobby :=
  (sound_matchContract still).good_of_starts ⟨agentsKnown_empty, by decide⟩
    fun _ hpoint ↦ List.mem_singleton.mp hpoint ▸ ⟨⟨.matchLoop, rfl⟩, agentsKnown_empty, rfl, rfl⟩

theorem PassReturns.keepsStill {configuration : Configuration skynet LobbyPoint Lobby} {move : Move skynet LobbyPoint}
    (h : PassReturns configuration move) : KeepsStill True configuration move :=
  ⟨h.1, fun _ ↦ h.2.2⟩

theorem NamesAgents.keepsStill {configuration : Configuration skynet LobbyPoint Lobby} {move : Move skynet LobbyPoint}
    (h : NamesAgents configuration move) : KeepsStill False configuration move :=
  ⟨h, False.elim⟩

/-- One pass goes on as long as no call of a pass raises and the tables it traverses get no new keys. -/
theorem passes_of_returns {last : Configuration skynet LobbyPoint Lobby}
    (hrun : lobbyService.Run PassReturns openLobby last) : Passes 1 last.state last.points := by
  have hone : Passes 1 openLobby.state openLobby.points := rfl
  refine ((sound_matchContract True).holds_of_run
    (fun _ _ hmeets ↦ hmeets.keepsStill) (fun _ _ _ harrives h ↦ (passes_arrive harrives).trans h)
    (fun configuration before point after reply answers left last hmeets hpoints _ h hguar ↦ ?_)
    (good_openLobby True) hone hrun).2
  obtain ⟨-, hguar⟩ := hguar
  unfold Passes at h ⊢
  rw [hpoints] at h
  cases hpoint : point.isPass with
  | false => exact (passes_left_request hpoint (hguar.request hpoint).1).trans h
  | true =>
    have hreturns : point.call.returns reply = true := hmeets.2.1.meets hpoints hpoint
    have hfirm : .raised ∉ answers := hguar.firm trivial hpoint
    have hgoes : point.stopped (reply :: answers) = false := by simp [LobbyPoint.stopped, hreturns, hfirm]
    have hleft := hguar.pass hpoint
    rw [hgoes] at hleft
    have hcount := passes_left before left after point
    rw [passes_singleton, if_pos hpoint, hleft, h] at hcount
    exact Nat.add_right_cancel hcount

/-- Without a pass there is never one again. -/
theorem passes_of_none {first last : Configuration skynet LobbyPoint Lobby}
    (hgood : System.Good (matchContract False) PassInv first)
    (hnone : Passes 0 first.state first.points) (hrun : lobbyService.Run NamesAgents first last) :
    passes last.points = 0 := by
  refine ((sound_matchContract False).holds_of_run
    (fun _ _ hmeets ↦ hmeets.keepsStill) (fun _ _ _ harrives h ↦ (passes_arrive harrives).trans h)
    (fun configuration before point after reply answers left last _ hpoints _ h hguar ↦ ?_)
    hgood hnone hrun).2
  unfold Passes at h ⊢
  rw [hpoints] at h
  have hpoint : point.isPass = false := by
    have hempty := List.length_eq_zero_iff.mp h
    simpa using List.filter_eq_nil_iff.mp hempty point (by simp)
  exact (passes_left_request hpoint (hguar.2.request hpoint).1).trans h

/-- A pass comes to an error: no pass is left. -/
theorem passes_of_stops {first last : Configuration skynet LobbyPoint Lobby} {move : Move skynet LobbyPoint}
    (hgood : System.Good (matchContract False) PassInv first)
    (hstops : StopsPass first move) (hplay : lobbyService.play first move = some last) :
    Passes 0 last.state last.points := by
  cases move with
  | arrive point => exact hstops.elim
  | resume index reply answers =>
    obtain ⟨before, point, after, left, hpoints, rfl, hlast, -, hguar⟩ :=
      (sound_matchContract False).section_of_play hgood hplay
    obtain ⟨other, hother, hpass, hstopped⟩ := hstops
    obtain rfl : point = other := by
      rw [hpoints] at hother
      simpa using hother
    have hleft : passes left = 0 := by rw [hguar.pass hpass, if_pos hstopped]
    have hsingle := hgood.holds.2
    have hcount := passes_left before left after point
    rw [hpoints] at hsingle
    rw [passes_singleton, if_pos hpass, hleft] at hcount
    rw [Passes, hlast]
    omega

/-- In every run of the lobby in which no call of a pass raises, the players that are seated have an agent, and no
request assigns a new key to the table of players that a pass goes through, either one pass runs or one timer is
set. The first error of a pass ends the match loop: in every configuration after it no pass runs and no timer is
set. -/
theorem matchmaking_goes_on (last : Configuration skynet LobbyPoint Lobby) :
    (lobbyService.Run PassReturns openLobby last → passes last.points = 1) ∧
    ∀ before move after, lobbyService.Run NamesAgents openLobby before → StopsPass before move →
      lobbyService.play before move = some after → lobbyService.Run NamesAgents after last →
      passes last.points = 0 := by
  refine ⟨passes_of_returns, fun before move after hrun hstops hplay hafter ↦ ?_⟩
  have hgood := (sound_matchContract False).good_of_run (good_openLobby False)
    (hrun.mono fun _ _ hmeets ↦ hmeets.keepsStill)
  refine passes_of_none ((sound_matchContract False).good_of_play hgood ?_ hplay)
    (passes_of_stops hgood hstops hplay) hafter
  cases move with
  | arrive point => exact hstops.elim
  | resume index reply answers => exact ⟨trivial, False.elim⟩

/-- Two players are seated, and a pass starts their game: it has a new fight service and calls the first
agent. -/
def firstSetFight : List (Move skynet LobbyPoint) :=
  twoEnter ++
    [ .resume 0 .ok [.order [1000], .number 11],
      .resume 0 (.number 5) [.order [7, 8]] ]

/-- The agent of the first player has failed. -/
def agentRaises : Move skynet LobbyPoint := .resume 0 .raised []

/-- Both agents and the fight service reply. -/
def allReply : List (Move skynet LobbyPoint) :=
  [.resume 0 .ok [], .resume 0 .ok [], .resume 0 .ok []]

/-- The game of the two players has started, and the timer of the next pass is set. -/
theorem matchmaking_goes_on_started :
    (∃ last, lobbyService.Run PassReturns openLobby last ∧ (last.state.rooms 0).status = 1 ∧
      passes last.points = 1) ∧
    ∃ last, lobbyService.AnyRun openLobby last ∧ passes last.points = 0 := by
  constructor
  · obtain ⟨last, hrun, hstatus⟩ := lobbyService.exists_run_of_playMeeting PassReturns openLobby
      (firstSetFight ++ allReply) (fun configuration ↦ (configuration.state.rooms 0).status)
      (show _ = some 1 by decide +kernel)
    exact ⟨last, hrun, hstatus, (matchmaking_goes_on last).1 hrun⟩
  · obtain ⟨before, hrun, hraises⟩ := lobbyService.exists_run_of_playMeeting PassReturns openLobby
      firstSetFight (fun configuration ↦ (decide (StopsPass configuration agentRaises),
        (lobbyService.play configuration agentRaises).isSome)) (show _ = some (true, true) by decide +kernel)
    obtain ⟨hstops, hplays⟩ := Prod.mk.inj hraises
    obtain ⟨after, hplay⟩ := Option.isSome_iff_exists.mp hplays
    have hany : lobbyService.AnyRun openLobby after :=
      .snoc (hrun.mono fun _ _ _ ↦ trivial) trivial hplay
    exact ⟨after, hany, (matchmaking_goes_on after).2 before agentRaises after
      (hrun.mono fun _ _ hmeets ↦ hmeets.1) (of_decide_eq_true hstops) hplay (.refl after)⟩

/-- The agent of a seated player raises: the room waits for its game, and no pass will come. -/
theorem raising_agent_stops :
    ∃ last, lobbyService.AnyRun openLobby last ∧ passes last.points ≠ 1 := by
  obtain ⟨last, hrun, hpasses⟩ := lobbyService.exists_run_of_playAll openLobby
    (firstSetFight ++ [agentRaises]) (fun configuration ↦ passes configuration.points)
    (show _ = some 0 by decide +kernel)
  exact ⟨last, hrun, hpasses ▸ Nat.zero_ne_one⟩

end SvrDemo.Douniu
