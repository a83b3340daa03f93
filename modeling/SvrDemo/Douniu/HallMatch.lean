import SvrDemo.Douniu.HallTurns

/-!
# The passes of `matchLoop` in the hall

A pass of `matchLoop` goes over the rooms. `Passing` holds where it comes to a room: so far it has only swept,
or locked the room whose `onStart` has been answered and swept on. `Telling` holds while `startGame` tells
the agents of a room their fight: the players whose turn is over have been told. With `serves_entry` every
coroutine of the hall keeps its contract.
-/

set_option autoImplicit false
set_option relaxedAutoImplicit false

namespace SvrDemo.Douniu

open Coroutine Lua Skynet

variable {linked : Prop} {current : Section skynet Served Hall} {hall : Hall}

/-! ### Sweeping -/

namespace Lobby

variable (lobby : Lobby)

/-- A room that waits for its game loses its fight service. -/
theorem swept_clear {room : ℕ} (hstatus : (lobby.rooms room).status = 0) :
    Swept lobby (lobby.updateRoom room fun roomInfo ↦ { roomInfo with fightIns := none }) where
  toKept := lobby.kept_updateRoom room (fun _ ↦ rfl) (fun _ ↦ rfl) fun _ ↦ rfl
  status other := by
    rw [rooms_updateRoom]
    split
    · next hother => rw [hother]
    · rfl
  fightIns other := by
    rw [rooms_updateRoom]
    split
    · next hother =>
      subst hother
      exact .inr ⟨hstatus, rfl⟩
    · exact .inl rfl

/-- A room without players is deleted. -/
theorem swept_erase {key : ℕ}
    (hempty : ∀ room, lobby.roomQueue.lookup key = some room → (lobby.players room).size = 0) :
    Swept lobby { lobby with roomQueue := lobby.roomQueue.erase key } :=
  ⟨lobby.kept_erase hempty, fun _ ↦ rfl, fun _ ↦ .inl rfl⟩

end Lobby

/-- What a section of a pass has done when it comes to a room. -/
inductive PassDid (origin : Hall) : Served → Hall → Prop
  | passed {lobby : Lobby} (swept : Swept origin.lobby lobby) :
      PassDid origin ⟨.matchLoop, .start⟩ { origin with lobby := lobby }
  | locked {fight room : ℕ} {roomInfo : RoomInfo} {lobby : Lobby}
      (swept : Swept (origin.lobby.updateRoom room fun roomInfo ↦ { roomInfo with status := 1 }) lobby) :
      PassDid origin ⟨.matchLoop, .inFight (.onStart fight room roomInfo) (.reply true)⟩
        { origin with lobby := lobby }

namespace PassDid

variable {origin : Hall} {point : Served}

theorem passes (h : PassDid origin point hall) : point.Passes := by
  cases h with
  | passed => exact .start
  | locked => exact .started _ _ _

theorem did (h : PassDid origin point hall) (heard : List Answer) : Did point origin heard hall := by
  cases h with
  | passed swept => exact .passed rfl swept
  | locked swept => exact .locked rfl swept

theorem sweep (h : PassDid origin point hall) {lobby : Lobby} (hswept : Swept hall.lobby lobby) :
    PassDid origin point { hall with lobby := lobby } := by
  cases h with
  | passed swept => exact .passed (swept.trans hswept)
  | locked swept => exact .locked (swept.trans hswept)

end PassDid

/-- A pass has come to a room. -/
structure Passing (current : Section skynet Served Hall) (hall : Hall) : Prop where
  forks : current.forks = []
  did : PassDid current.origin current.point hall

namespace Passing

theorem soFar (h : Passing current hall) : SoFar current hall :=
  ⟨h.forks, hall, h.did.did _, .refl hall⟩

theorem hear (h : Passing current hall) (answer : Answer) :
    Passing { current with heard := current.heard ++ [answer] } hall :=
  ⟨h.forks, h.did⟩

theorem sweep (h : Passing current hall) {lobby : Lobby} (hswept : Swept hall.lobby lobby) :
    Passing current { hall with lobby := lobby } :=
  ⟨h.forks, h.did.sweep hswept⟩

end Passing

theorem SoFar.raises (h : SoFar current hall) (error : LuaError) :
    (hallContract linked).raised error current hall :=
  ⟨trivial, h.done⟩

/-! ### Telling the agents -/

/-- `startGame` tells the agents of a room their fight: those of the keys of `rest` are still to come. -/
structure Telling (linked : Prop) (room layout : ℕ) (rest : List ℕ) (current : Section skynet Served Hall)
    (hall : Hall) : Prop where
  soFar : SoFar current hall
  leads : Leads hall room current.point
  still : linked → (hall.lobby.rooms room).layout = layout
  told : linked → ∃ fight, (hall.lobby.rooms room).fightIns = some fight ∧
    ∀ key player, (hall.lobby.players room).lookup key = some player → key ∈ rest ∨
      ∃ agent, player.agent = some agent ∧ fight ∈ (hall.agents agent).offered

theorem offered_setFight (self : Agent) (fight : Option ℕ) :
    (Agent.setFight fight self).offered = self.offered ++ fight.toList := by
  unfold Agent.setFight
  split
  · rfl
  · rfl

theorem given_setFight_subset (self : Agent) (fight : Option ℕ) :
    self.given ⊆ (Agent.setFight fight self).given := by
  unfold Agent.setFight
  split
  · exact List.Subset.refl _
  · exact List.subset_append_left _ _

/-- One agent is told, and what the others have been told stays. -/
theorem relies_setFight (hall : Hall) (room agent : ℕ) (fight : Option ℕ) :
    Relies room hall (hall.updateAgent agent (Agent.setFight fight)) where
  fightIns := rfl
  players _ _ hplayer := hplayer
  layout := rfl
  offered other := by
    by_cases hother : other = agent
    · subst hother
      simp [Hall.updateAgent, offered_setFight]
    · simp [Hall.updateAgent, hother]

/-- One turn of the loop: the agent answers `set_fight`, or the loop raises. -/
theorem wpIn_tellAgent {room layout key agent : ℕ} {rest : List ℕ} {player : RoomPlayer}
    (h : Telling linked room layout (key :: rest) current hall)
    (hplayer : (hall.lobby.players room).lookup key = some player) (hagent : player.agent = some agent) :
    (call (.setFight room agent (hall.lobby.rooms room).fightIns) : LobbyTask Unit).wpIn
      (inLobby .matchLoop) (hallContract linked) (fun _ ↦ Telling linked room layout rest)
      (hallContract linked).raised current hall := by
  generalize hfight : (hall.lobby.rooms room).fightIns = fight
  refine wpIn_call_of ?_
  change (agentHandles .matchLoop .lobby (.setFight room agent fight)).wp _ _ _ _ _
  unfold agentHandles
  rw [Program.wp_bind, Program.wp_await]
  refine ⟨?_, fun reply later hrely ↦ ?_⟩
  · rw [h.soFar.forks]
    exact h.soFar.leaves (hfight ▸ .tells agent h.leads)
  -- the agent handles the message
  have hhandled : ((do
      Program.modifyState fun hall ↦ hall.updateAgent agent (Agent.setFight fight)
      let _ ← Program.await (I := skynet) ⟨.matchLoop, .lobby (.handled (.setFight room agent fight))⟩
      return .ok) : HallTask Answer).wp (hallContract linked) (fun reply current whole ↦
        (reply ≠ .raised → Telling linked room layout rest current whole) ∧
          (reply = .raised → (hallContract linked).raised .callFailed current whole))
        (hallContract linked).raised
        ⟨⟨.matchLoop, .lobby (.waits (.setFight room agent fight))⟩, later, [reply], []⟩ later := by
    rw [Program.wp_bind, Program.wp_modifyState, Program.wp_bind, Program.wp_await]
    refine ⟨?_, fun answer last hrely' ↦ ?_⟩
    · refine (SoFar.of_did (.told rfl)).goes ?_
      exact ⟨rfl, .inr rfl, .inl rfl, .inl rfl, .inr rfl, rfl, rfl⟩
    have hrelies : linked → Relies room hall last := fun hlinked ↦
      (hrely hlinked room rfl).trans
        ((relies_setFight later room agent fight).trans (hrely' hlinked room rfl))
    refine ⟨fun _ ↦ ⟨?_, .told agent fight, fun hlinked ↦ ?_, fun hlinked ↦ ?_⟩, fun hraised ↦ nomatch hraised⟩
    · exact soFar_fresh rfl last [answer]
    · exact (hrelies hlinked).layout.trans (h.still hlinked)
    · obtain ⟨service, hservice, htold⟩ := h.told hlinked
      have hrelies := hrelies hlinked
      refine ⟨service, hrelies.fightIns.trans hservice, fun key' player' hplayer' ↦ ?_⟩
      have hbefore := hrelies.players key' player' hplayer'
      rcases htold key' player' hbefore with hrest | ⟨agent', hagent', hoffered⟩
      · rcases List.mem_cons.mp hrest with rfl | hrest
        · -- the player whose turn it was
          obtain rfl : player = player' := Option.some.inj (hplayer.symm.trans hbefore)
          refine .inr ⟨agent, hagent, (hrely' hlinked room rfl).offered agent ?_⟩
          have hsome : fight = some service := hfight.symm.trans hservice
          simp [Hall.updateAgent, offered_setFight, hsome]
        · exact .inl hrest
      · exact .inr ⟨agent', hagent', hrelies.offered agent' hoffered⟩
  cases reply with
  | raised =>
    exact ⟨fun hne ↦ absurd rfl hne, fun _ ↦ (soFar_fresh rfl later _).raises _⟩
  | number _ => exact hhandled
  | order _ => exact hhandled
  | ok => exact hhandled

/-- The loop of `startGame` over the players of a room. -/
theorem wpIn_tellAgents {room : ℕ} (hsoFar : SoFar current hall) (hleads : Leads hall room current.point)
    (hfight : ∃ fight, (hall.lobby.rooms room).fightIns = some fight) :
    (setFight room RoomInfo.fightIns).wpIn (inLobby .matchLoop) (hallContract linked)
      (fun _ ↦ Telling linked room (hall.lobby.rooms room).layout []) (hallContract linked).raised current
      hall := by
  unfold setFight forPlayers
  obtain ⟨layout, hlayout⟩ : ∃ layout, (hall.lobby.rooms room).layout = layout := ⟨_, rfl⟩
  rw [hlayout]
  have hbody : ∀ key rest player current hall, (hall.lobby.players room).lookup key = some player →
      Telling linked room layout (key :: rest) current hall →
      (do
        let fight := ((← Program.getState).rooms room).fightIns
        let agent ← address player.agent
        call (.setFight room agent fight) : LobbyTask Unit).wpIn (inLobby .matchLoop) (hallContract linked)
          (fun _ ↦ Telling linked room layout rest) (hallContract linked).raised current hall := by
    intro key rest player current hall hplayer h
    rw [Program.wpIn_bind, Program.wpIn_getState]
    dsimp only
    rw [Program.wpIn_bind]
    cases hagent : player.agent with
    | none => exact h.soFar.raises _
    | some agent => exact wpIn_tellAgent h hplayer hagent
  -- without the link the table may get new keys, and nothing is said about whom the loop tells
  have hlost : ∀ current hall, ¬ linked ∧ SoFar current hall ∧ Leads hall room current.point → ∀ rest,
      Telling linked room layout rest current hall := fun current hall h rest ↦
    ⟨h.2.1, h.2.2, fun hlinked ↦ absurd hlinked h.1, fun hlinked ↦ absurd hlinked h.1⟩
  refine Program.wpIn_mono (fun _ current hall h ↦ h.elim id fun h ↦ hlost current hall h []) (fun _ _ _ h ↦ h)
    (wpIn_traverse_of (Telling linked room layout)
      (fun current hall ↦ ¬ linked ∧ SoFar current hall ∧ Leads hall room current.point) (fun order horder ↦ ?_)
      hbody (fun key rest current hall hnone h ↦ ⟨h.soFar, h.leads, h.still, fun hlinked ↦ ?_⟩)
      (fun rest current hall' h hnew ↦ ⟨fun hlinked ↦ ?_, h.soFar, h.leads⟩)
      (fun _ _ answer _ h ↦ ⟨h.1, h.2.1.hear answer, h.2.2⟩) (fun _ _ h ↦ (h.2.1.hear _).raises _)
      fun key player current hall hplayer h ↦ ?_)
  · obtain ⟨fight, hfight⟩ := hfight
    refine ⟨hsoFar.hear _, hleads, fun _ ↦ hlayout, fun _ ↦ ⟨fight, hfight, fun key player hplayer ↦ .inl ?_⟩⟩
    rw [horder.mem_iff]
    exact Table.mem_keys_iff.mpr ⟨player, hplayer⟩
  · obtain ⟨fight, hfight, htold⟩ := h.told hlinked
    refine ⟨fight, hfight, fun key' player' hplayer' ↦ ?_⟩
    rcases htold key' player' hplayer' with hrest | htold
    · rcases List.mem_cons.mp hrest with rfl | hrest
      · exact nomatch hnone.symm.trans hplayer'
      · exact .inl hrest
    · exact .inr htold
  · exact hnew ((h.still hlinked).trans hlayout.symm)
  · exact Program.wpIn_mono (fun _ _ _ hnext ↦ ⟨h.1, hnext.soFar, hnext.leads⟩) (fun _ _ _ h ↦ h)
      (hbody key [] player current hall hplayer (hlost current hall h [key]))

/-! ### Starting a game -/

/-- A new fight service is entered in its room. -/
theorem wp_startedFight (room : ℕ) (reply : Answer) (later : Hall) :
    ((do
      let fight := (← Program.getState).fightCnt
      Program.modifyState fun hall ↦ { hall with fightCnt := fight + 1 }
      return .number fight) : HallTask Answer).wp (hallContract linked) (fun reply current hall ↦
        Program.wpIn (inLobby .matchLoop) (hallContract linked) (match reply with
          | .number fight => Program.modifyState fun lobby ↦ lobby.updateRoom room fun roomInfo ↦
              { roomInfo with fightIns := some fight.toNat }
          | _ => .fail .callFailed : LobbyTask Unit)
          (fun _ current hall ↦ SoFar current hall ∧ Leads hall room current.point ∧
            ∃ fight, (hall.lobby.rooms room).fightIns = some fight)
          (hallContract linked).raised current hall)
        (hallContract linked).raised
        ⟨⟨.matchLoop, .lobby (.waits (.newService room))⟩, later, [reply], []⟩ later := by
  rw [Program.wp_bind, Program.wp_getState]
  dsimp only
  rw [Program.wp_bind, Program.wp_modifyState, Program.wp_pure, Program.wpIn_modifyState]
  refine ⟨.of_did (.ensured rfl), .ensured, later.fightCnt, ?_⟩
  simp [inLobby, Lobby.rooms_updateRoom]

/-- A room that has to start its game has a fight service. -/
theorem wpIn_ensureFight {room : ℕ} (h : Passing current hall) (hwaiting : hall.lobby.Waiting room) :
    (ensureFight room).wpIn (inLobby .matchLoop) (hallContract linked)
      (fun _ current hall ↦ SoFar current hall ∧ Leads hall room current.point ∧
        ∃ fight, (hall.lobby.rooms room).fightIns = some fight)
      (hallContract linked).raised current hall := by
  unfold ensureFight
  rw [Program.wpIn_bind, Program.wpIn_getState]
  split
  · rename_i fight hfight
    exact ⟨h.soFar, .passes h.did.passes hwaiting, fight, hfight⟩
  · rw [Program.wpIn_bind, Program.wpIn_await]
    change (newFight .matchLoop room).wp _ _ _ _ _
    unfold newFight
    rw [Program.wp_bind, Program.wp_await]
    refine ⟨?_, fun reply later _ ↦ ?_⟩
    · rw [h.forks]
      exact h.soFar.leaves (.newService h.did.passes hwaiting)
    · cases reply with
      | raised => exact (soFar_fresh rfl later _).raises _
      | number _ => exact wp_startedFight room _ later
      | order _ => exact wp_startedFight room _ later
      | ok => exact wp_startedFight room _ later

/-- `startGame` ends with the room locked, or raises. -/
theorem wpIn_startGame {room : ℕ} (h : Passing current hall) (hwaiting : hall.lobby.Waiting room) :
    (startGame room).wpIn (inLobby .matchLoop) (hallContract linked) (fun _ ↦ Passing)
      (hallContract linked).raised current hall := by
  unfold startGame
  rw [Program.wpIn_bind, Program.wpIn_getState]
  split
  · exact h
  refine Program.wpIn_seq (wpIn_ensureFight h hwaiting) fun _ current hall ⟨hsoFar, hleads, hfight⟩ ↦ ?_
  refine Program.wpIn_seq (wpIn_tellAgents hsoFar hleads hfight) fun _ current hall h ↦ ?_
  rw [Program.wpIn_bind, Program.wpIn_getState]
  dsimp only
  rw [Program.wpIn_bind]
  cases hfight : (hall.lobby.rooms room).fightIns with
  | none =>
    have hnone : (inLobby .matchLoop).get hall = hall.lobby := rfl
    rw [hnone, hfight]
    exact h.soFar.raises _
  | some fight =>
    have hsome : (((inLobby .matchLoop).get hall).rooms room).fightIns = some fight := hfight
    rw [hsome]
    rw [address, Program.wpIn_pure]
    refine Program.wpIn_seq_at (fun _ current hall ↦ ∃ fight roomInfo,
        current.point = ⟨.matchLoop, .inFight (.onStart fight room roomInfo) (.reply true)⟩ ∧
          current.forks = [] ∧ current.origin = hall)
      (wpIn_call_of (wp_callOnStart ?_ (fun reply later ↦ ⟨fun _ ↦ ?_, fun hraised ↦ nomatch hraised⟩)
        fun reply later ↦ ⟨fun hne ↦ absurd rfl hne, fun _ ↦ ?_⟩)) ?_
    · rw [h.soFar.forks]
      refine h.soFar.leaves (.calls h.leads hfight fun hlinked key player hplayer ↦ ?_)
      obtain ⟨fight', hfight', htold⟩ := h.told hlinked
      obtain rfl : fight = fight' := Option.some.inj (hfight.symm.trans hfight')
      exact (htold key player hplayer).resolve_left List.not_mem_nil
    · exact ⟨_, _, rfl, rfl, rfl⟩
    · exact (soFar_fresh rfl later _).raises _
    · rintro _ ⟨point, origin, heard, forks⟩ hall ⟨fight, roomInfo, rfl, rfl, rfl⟩
      rw [Program.wpIn_modifyState]
      exact ⟨rfl, .locked (.refl _)⟩

/-! ### A pass -/

/-- One turn of the loop of `matchLoop`. -/
theorem wpIn_matchRoom {key room : ℕ} (hroom : hall.lobby.roomQueue.lookup key = some room)
    (h : Passing current hall) :
    (matchRoom key room).wpIn (inLobby .matchLoop) (hallContract linked) (fun _ ↦ Passing)
      (hallContract linked).raised current hall := by
  unfold matchRoom
  rw [Program.wpIn_bind, Program.wpIn_getState]
  split
  · rename_i hstatus
    dsimp only
    -- the clock is read only for a room with two players
    refine Program.wpIn_seq_at (fun due current later ↦ Passing current hall ∧ later = hall ∧
      (due = true → 2 ≤ (hall.lobby.players room).size)) ?_ ?_
    · unfold isDue
      split
      · rename_i hplayers
        rw [Program.wpIn_bind]
        refine wpIn_osTime fun now ↦ ?_
        exact ⟨h.hear _, rfl, fun _ ↦ hplayers⟩
      · exact ⟨h, rfl, fun hdue ↦ nomatch hdue⟩
    · rintro due current later ⟨h, rfl, hplayers⟩
      split
      · rename_i hdue
        refine Program.wpIn_seq (wpIn_startGame h ⟨key, hroom, hstatus⟩) fun _ current last h ↦ ?_
        unfold dropEmpty
        have hmany := hplayers hdue
        rw [if_neg (by
          change (later.lobby.players room).size ≠ 0
          omega)]
        exact h
      · rw [Program.wpIn_bind, Program.wpIn_modifyState]
        have hswept := later.lobby.swept_clear hstatus
        unfold dropEmpty
        split
        · rename_i hempty
          rw [Program.wpIn_modifyState]
          refine (h.sweep hswept).sweep (Lobby.swept_erase _ fun other hother ↦ ?_)
          obtain rfl : room = other := Option.some.inj (hroom.symm.trans hother)
          rw [hswept.players]
          exact hempty
        · exact h.sweep hswept
  · exact h

/-- A pass of `matchLoop` keeps the contract. -/
theorem serves_matchLoop (reply : Answer) :
    (hallContract linked).Keeps (hallService.entry ⟨.matchLoop, .start⟩)
      ⟨⟨.matchLoop, .start⟩, hall, [reply], []⟩ hall := by
  change matchLoop.wpIn (inLobby .matchLoop) _ _ _ _ _
  unfold matchLoop
  refine Program.wpIn_seq_at (fun _ ↦ Passing) (wpIn_traverse Passing (fun _ _ answer h ↦ h.hear answer)
    (fun _ _ h ↦ h.soFar.raises _) (fun _ _ _ _ hroom h ↦ wpIn_matchRoom hroom h)
    ⟨rfl, .passed (.refl _)⟩) fun _ current hall h ↦ ?_
  rw [Program.wpIn_spawn]
  have hleft : Left linked current.point hall [⟨.matchLoop, .start⟩] := .nextPass h.did.passes
  refine ⟨⟨h.soFar.did, ?_⟩, fun point hpoint ↦ ?_⟩
  · simp only [h.forks]
    exact hleft
  · simp only [h.forks] at hpoint
    obtain rfl := List.mem_singleton.mp hpoint
    rfl

/-! ### Every coroutine -/

/-- Every coroutine of the hall keeps the contract. -/
theorem serves_entry {point : Served} (hentry : point.isEntry = true) (reply : Answer) (hall : Hall) :
    (hallContract linked).Keeps (hallService.entry point) ⟨point, hall, [reply], []⟩ hall := by
  obtain ⟨request, place⟩ := point
  cases place with
  | start =>
    cases request with
    | login agent => exact serves_login agent reply
    | createRoom agent odds => exact serves_createRoom agent odds reply
    | enterRoom agent => exact serves_enterRoom agent reply
    | leaveRoom agent => exact serves_leaveRoom agent reply
    | disconnect agent => exact serves_disconnect agent reply
    | playerMessage fight handler => exact serves_playerMessage hentry reply
    | matchLoop => exact serves_matchLoop reply
    | checkStatus fight => exact serves_checkStatus fight reply
  | _ => cases request <;> exact nomatch hentry

end SvrDemo.Douniu
