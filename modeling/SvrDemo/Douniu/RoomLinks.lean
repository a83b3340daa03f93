import SvrDemo.Douniu.OneGame

/-!
# The players of a room and of its game

`startGame` sends the fight service a copy of the room and locks the room when the call returns, while
`enter_room` looks at the lock only. A locked room and the game of its fight service have the same players
(`Hall.Linked`) in the runs in which nobody enters a room while its agents are told their fight or its
`onStart` is answered (`EntersAside`), nobody leaves it who is not there while its agents are told
(`LeavesAside`), and `set_fight` names a fight service only to agents that have a room (`TakesFight`).

The induction follows a start from `set_fight` over the copy that `onStart` gets to the answer that locks the
room (`RoomLinks`). What the copy has, the game has; and nobody is added to the room in between.
-/

set_option autoImplicit false
set_option relaxedAutoImplicit false

namespace SvrDemo.Douniu

open Coroutine Lua Skynet

/-! ### Rooms and games with the same players -/

/-- The players of a room play in a fight service, and the agent of each has been given it. -/
def Hall.SharesPlayers (hall : Hall) (room fight : ℕ) : Prop :=
  ∀ key player, (hall.lobby.players room).lookup key = some player →
    player.uid ∈ (hall.fights fight).playerLst.keys ∧
      ∃ agent, player.agent = some agent ∧ fight ∈ (hall.agents agent).given

/-- Every locked room has a fight service, in which its players play. -/
def Hall.Linked (hall : Hall) : Prop :=
  ∀ room < hall.lobby.roomCnt, (hall.lobby.rooms room).status = 1 →
    ∃ fight, (hall.lobby.rooms room).fightIns = some fight ∧ hall.SharesPlayers room fight

/-- The agent to which `set_fight` names a fight service has a room. -/
def TakesFight (configuration : Configuration skynet Served Hall) (point : Served) (_ : Answer) : Prop :=
  ∀ told ∈ point.tells, told.2.2.isSome = true → (configuration.state.agents told.2.1).room.isSome = true

/-- The condition on the moves. -/
def StartsAlone (configuration : Configuration skynet Served Hall) (move : Move skynet Served) : Prop :=
  (Hears EntersAside configuration move ∧ Hears LeavesAside configuration move) ∧
    Resumes TakesFight configuration move

/-- The order in which an `enter_room` looks at the rooms. -/
def Served.looksAlong : Served → List Answer → Option (List ℕ)
  | ⟨.enterRoom _, .request⟩, _ :: .order order :: _ => some order
  | _, _ => none

theorem entersAside_iff {configuration : Configuration skynet Served Hall} {point : Served}
    {heard : List Answer} : EntersAside configuration point heard ↔
      ∀ order ∈ point.looksAlong heard, ∀ other ∈ configuration.points, ∀ room ∈ other.engaged,
        configuration.state.lobby.findRoom order ≠ some room := by
  unfold EntersAside
  split
  · constructor
    · intro h order horder
      exact Option.some.inj horder ▸ h
    · exact fun h ↦ h _ rfl
  · rename_i hother
    have hnone : point.looksAlong heard = none := by
      unfold Served.looksAlong
      split
      · exact (hother _ _ _ _ rfl rfl).elim
      · rfl
    exact ⟨fun _ order horder ↦ absurd (hnone.symm.trans horder) (Option.some_ne_none _).symm, fun _ ↦ trivial⟩

instance (configuration : Configuration skynet Served Hall) (point : Served) (heard : List Answer) :
    Decidable (EntersAside configuration point heard) :=
  decidable_of_iff _ entersAside_iff.symm

instance (configuration : Configuration skynet Served Hall) (point : Served) (heard : List Answer) :
    Decidable (LeavesAside configuration point heard) :=
  inferInstanceAs (Decidable (∀ taken ∈ point.takesLeave heard, _))

instance (configuration : Configuration skynet Served Hall) (point : Served) (reply : Answer) :
    Decidable (TakesFight configuration point reply) :=
  inferInstanceAs (Decidable (∀ told ∈ point.tells, _))

instance (configuration : Configuration skynet Served Hall) (move : Move skynet Served) :
    Decidable (StartsAlone configuration move) :=
  inferInstanceAs (Decidable ((Hears EntersAside configuration move ∧ Hears LeavesAside configuration move) ∧
    Resumes TakesFight configuration move))

/-! ### The players of a new game -/

/-- The players along an order are in the new game. -/
theorem mem_keys_initPlayers (room : RoomInfo) {key : ℕ} {player : RoomPlayer}
    (hplayer : room.playerLst.lookup key = some player) {order : List ℕ} (hkey : key ∈ order) :
    player.uid ∈ (initPlayers room order).keys := by
  have hkeeps : ∀ (order : List ℕ) (players : Table Player), player.uid ∈ players.keys →
      player.uid ∈ (order.foldl (addPlayer room) players).keys := by
    intro order
    induction order with
    | nil => exact fun players hmem ↦ hmem
    | cons other order ih =>
      intro players hmem
      refine ih _ ?_
      unfold addPlayer
      split
      · rw [Table.keys_insert]
        exact Finset.mem_insert_of_mem hmem
      · exact hmem
  have hfold : ∀ players : Table Player,
      player.uid ∈ (order.foldl (addPlayer room) players).keys := by
    induction order with
    | nil => exact absurd hkey List.not_mem_nil
    | cons other order ih =>
      intro players
      rcases List.mem_cons.mp hkey with rfl | hrest
      · refine hkeeps order _ ?_
        simp [addPlayer, hplayer]
      · exact ih hrest _
  exact hfold ∅

/-- The players of the copy that `onStart` gets are in the new game. -/
theorem mem_keys_newGame (fight : Fight) {roomInfo : RoomInfo} {order : List ℕ} (now : ℤ)
    (horder : IsOrder order roomInfo.playerLst.keys) {key : ℕ} {player : RoomPlayer}
    (hplayer : roomInfo.playerLst.lookup key = some player) :
    player.uid ∈ (newGame fight roomInfo order now).playerLst.keys :=
  mem_keys_initPlayers roomInfo hplayer (horder.mem_iff.mpr (Table.mem_keys_iff.mpr ⟨player, hplayer⟩))

/-! ### What stays linked -/

/-- The players of a room play in a fight service, and the agent of each has been told it. -/
structure InGame (hall : Hall) (room fight : ℕ) : Prop where
  told : hall.Told room fight
  plays : ∀ key player, (hall.lobby.players room).lookup key = some player →
    player.uid ∈ (hall.fights fight).playerLst.keys

/-- The players of a room have been told a fight service and are in the copy that it is sent. -/
structure InCopy (hall : Hall) (room fight : ℕ) (roomInfo : RoomInfo) : Prop where
  told : hall.Told room fight
  copied : ∀ key player, (hall.lobby.players room).lookup key = some player →
    roomInfo.playerLst.lookup key = some player

/-- The invariant of the rooms and their games. -/
structure RoomLinks (hall : Hall) (points : List Served) : Prop where
  taken : ∀ agent, (hall.agents agent).offered ⊆ (hall.agents agent).given
  called : ∀ point ∈ points, ∀ fight room roomInfo, point.calls = some (fight, room, roomInfo) →
    InCopy hall room fight roomInfo
  running : ∀ point ∈ points, ∀ room fight, point.running = some (room, fight) → InGame hall room fight
  locked : ∀ room < hall.lobby.roomCnt, (hall.lobby.rooms room).status = 1 →
    ∃ fight, (hall.lobby.rooms room).fightIns = some fight ∧ InGame hall room fight

/-- In the invariant, what an agent has been told it has been given. -/
theorem RoomLinks.linked {hall : Hall} {points : List Served} (h : RoomLinks hall points) : hall.Linked := by
  intro room hroom hstatus
  obtain ⟨fight, hfight, hgame⟩ := h.locked room hroom hstatus
  refine ⟨fight, hfight, fun key player hplayer ↦ ⟨hgame.plays key player hplayer, ?_⟩⟩
  obtain ⟨agent, hagent, hoffered⟩ := hgame.told key player hplayer
  exact ⟨agent, hagent, h.taken agent hoffered⟩

section Steps

variable {point : Served} {origin last : Hall} {heard : List Answer} {points before after left : List Served}
  {room fight : ℕ} {roomInfo : RoomInfo}

/-- Nobody enters a room in a section. -/
def Closed (origin last : Hall) (room : ℕ) : Prop :=
  ∀ key player, (last.lobby.players room).lookup key = some player →
    (origin.lobby.players room).lookup key = some player

theorem told_step (h : origin.Told room fight) (hdoes : Does point origin heard last)
    (hclosed : Closed origin last room) : last.Told room fight := by
  intro key player hplayer
  obtain ⟨agent, hagent, hoffered⟩ := h key player (hclosed key player hplayer)
  exact ⟨agent, hagent, hdoes.offered agent hoffered⟩

theorem InCopy.step (h : InCopy origin room fight roomInfo) (hdoes : Does point origin heard last)
    (hclosed : Closed origin last room) : InCopy last room fight roomInfo :=
  ⟨told_step h.told hdoes hclosed, fun key player hplayer ↦
    h.copied key player (hclosed key player hplayer)⟩

theorem InGame.step (h : InGame origin room fight) (hdoes : Does point origin heard last)
    (hclosed : Closed origin last room) (hkeeps : KeepsSeats (origin.fights fight) (last.fights fight)) :
    InGame last room fight :=
  ⟨told_step h.told hdoes hclosed, fun key player hplayer ↦
    hkeeps.keys ▸ h.plays key player (hclosed key player hplayer)⟩

/-- The call of `onStart` begins a game of the players of its copy. -/
theorem InCopy.opens (h : InCopy origin room fight roomInfo) (hdoes : Does point origin heard last)
    (hclosed : Closed origin last room) (hcalls : point.calls = some (fight, room, roomInfo)) :
    InGame last room fight := by
  refine ⟨told_step h.told hdoes hclosed, fun key player hplayer ↦ ?_⟩
  obtain ⟨order, now, horder, hkeeps⟩ := hdoes.fights_opened hcalls
  rw [hkeeps.keys]
  exact mem_keys_newGame _ now horder (h.copied key player (hclosed key player hplayer))

/-- Nobody enters a room whose start is engaged, and nobody a locked one. -/
theorem closed_of_aside (hdoes : Does point origin heard last)
    (haside : ∀ order ∈ point.looksAlong heard, ∀ other ∈ points, ∀ room ∈ other.engaged,
      origin.lobby.findRoom order ≠ some room)
    (hmade : room < origin.lobby.roomCnt)
    (hroom : (∃ other ∈ points, other.engaged = some room) ∨ (origin.lobby.rooms room).status = 1) :
    Closed origin last room := by
  intro key player hplayer
  rcases hdoes.players hmade hplayer with hold | ⟨agent, reply, order, answers, rfl, rfl, hfinds⟩
  · exact hold
  · rcases hroom with ⟨other, hother, hengaged⟩ | hlocked
    · exact absurd hfinds (haside order rfl other hother room hengaged)
    · have hwaits := (of_decide_eq_true (Lobby.findRoom_spec hfinds).2).1
      exact absurd (hwaits.symm.trans hlocked) (by decide)

namespace Served

theorem engaged_of_calls (hcalls : point.calls = some (fight, room, roomInfo)) :
    point.engaged = some room := by
  rw [eq_of_calls hcalls]
  rfl

theorem engaged_of_running (hrunning : point.running = some (room, fight)) : point.engaged = some room := by
  unfold running at hrunning
  split at hrunning
  · cases hrunning
    rfl
  · cases hrunning
    rfl
  · exact nomatch hrunning

theorem starts_of_calls (hcalls : point.calls = some (fight, room, roomInfo)) :
    point.starts = some (room, some fight) := by
  rw [eq_of_calls hcalls]
  rfl

theorem starts_of_engaged (hengaged : point.engaged = some room) :
    ∃ service, point.starts = some (room, service) := by
  unfold engaged at hengaged
  split at hengaged
  · cases hengaged
    exact ⟨_, rfl⟩
  · cases hengaged
    exact ⟨_, rfl⟩
  · cases hengaged
    exact ⟨_, rfl⟩
  · exact nomatch hengaged

end Served

/-- What an agent is told in a section it takes, when it has a room. -/
theorem taken_step (h : ∀ agent, (origin.agents agent).offered ⊆ (origin.agents agent).given)
    (hdoes : Does point origin heard last)
    (htakes : ∀ told ∈ point.tells, told.2.2.isSome = true → (origin.agents told.2.1).room.isSome = true)
    (agent : ℕ) : (last.agents agent).offered ⊆ (last.agents agent).given := by
  obtain ⟨target, hdid, hcalm⟩ := hdoes
  rw [hcalm.offered]
  refine List.Subset.trans ?_ (hcalm.given agent)
  cases hdid with
  | @told room other fight takes =>
    by_cases hsame : agent = other
    · subst hsame
      have hroom := htakes _ takes
      simp only [Hall.updateAgent, Function.update_self]
      unfold Agent.setFight
      split
      · next hnone =>
        cases fight with
        | none => simpa using h agent
        | some fight =>
          have hsome := hroom rfl
          rw [hnone] at hsome
          cases hsome
      · exact List.append_subset.mpr ⟨List.Subset.trans (h agent) (List.subset_append_left _ _),
          List.subset_append_right _ _⟩
    · simpa [Hall.updateAgent, hsame] using h agent
  | _ => exact h agent

namespace Does

/-- A new room is not locked. -/
theorem status_new (h : Does point origin heard last) (hnew : ¬ room < origin.lobby.roomCnt)
    (hroom : room < last.lobby.roomCnt) : (last.lobby.rooms room).status = 0 := by
  obtain ⟨target, hdid, hcalm⟩ := h
  rw [hcalm.lobby] at hroom ⊢
  have hlast : ∀ (odds : Option LuaInt) (playerLst : Table RoomPlayer) (now : ℤ),
      room < (origin.lobby.addRoom odds playerLst now).roomCnt →
        ((origin.lobby.addRoom odds playerLst now).rooms room).status = 0 := by
    intro odds playerLst now hroom
    obtain rfl : room = origin.lobby.roomCnt :=
      le_antisymm (Nat.lt_succ_iff.mp hroom) (not_lt.mp hnew)
    simp [Lobby.addRoom]
  cases hdid with
  | created => exact hlast _ _ _ hroom
  | entered _ _ _ _ takesRoom =>
    rw [Lobby.status_seat]
    cases takesRoom with
    | found => exact absurd hroom hnew
    | made => exact hlast _ _ _ hroom
  | passed _ swept => exact absurd (swept.roomCnt ▸ hroom) hnew
  | locked _ swept => exact absurd (swept.roomCnt ▸ hroom) hnew
  | _ => exact absurd hroom hnew

/-- The room whose `onStart` is answered keeps its fight service. -/
theorem fightIns_locked (h : Does point origin heard last)
    (hpoint : point = ⟨.matchLoop, .inFight (.onStart fight room roomInfo) (.reply true)⟩) :
    (last.lobby.rooms room).fightIns = (origin.lobby.rooms room).fightIns := by
  subst hpoint
  obtain ⟨target, hdid, hcalm⟩ := h
  rw [hcalm.lobby]
  cases hdid with
  | nothing idle => exact nomatch idle
  | created _ takes => exact nomatch takes
  | entered takes => exact nomatch takes
  | departed takes => exact nomatch takes
  | unlocked _ takes => exact nomatch takes
  | told takes => exact nomatch takes
  | ensured takes => exact nomatch takes
  | opened _ takes => exact nomatch takes
  | passed takes => exact nomatch takes
  | locked takes swept =>
    cases takes
    rcases swept.fightIns room with hsame | ⟨hwaits, -⟩
    · rw [hsame, Lobby.rooms_updateRoom, if_pos rfl]
    · rw [Lobby.rooms_updateRoom, if_pos rfl] at hwaits
      exact nomatch hwaits

end Does

namespace RoomLinks

/-- What a section of a start leaves of the game of its room. -/
theorem running_left (h : RoomLinks origin points) (hpoint : point ∈ points)
    (hdoes : Does point origin heard last) (hleft : Left True point last left)
    (hclosed : ∀ room, point.engaged = some room → Closed origin last room) :
    ∀ place ∈ left, ∀ room fight, place.running = some (room, fight) → InGame last room fight := by
  have hcalls : ∀ {fight room roomInfo}, point.calls = some (fight, room, roomInfo) →
      InGame last room fight := fun hcalls ↦
    (h.called point hpoint _ _ _ hcalls).opens hdoes (hclosed _ (Served.engaged_of_calls hcalls)) hcalls
  -- a game that has begun before
  have hgoes : ∀ {room fight}, point.running = some (room, fight) → point.calls = none →
      InGame last room fight := by
    intro room fight hrunning hnone
    refine (h.running point hpoint room fight hrunning).step hdoes
      (hclosed room (Served.engaged_of_running hrunning)) ?_
    rcases hdoes.fights fight with hkeeps | ⟨_, _, hsome⟩
    · exact hkeeps
    · exact nomatch hnone.symm.trans hsome
  have hidle : point.idle = true → point.calls = none := by
    intro hidle
    cases hsome : point.calls with
    | none => rfl
    | some call =>
      rw [Served.eq_of_calls hsome] at hidle
      exact nomatch hidle
  intro place hplace room fight hrunning
  cases hleft with
  | ends => exact absurd hplace List.not_mem_nil
  | goes _ under =>
    obtain rfl := List.mem_singleton.mp hplace
    rcases under.running with hnone | hsame
    · exact nomatch hnone.symm.trans hrunning
    · exact hgoes (hsame.symm.trans hrunning) (hidle under.idle)
  | opens stage takes =>
    obtain rfl := List.mem_singleton.mp hplace
    cases hrunning
    exact hcalls takes
  | fails ok takes =>
    obtain rfl := List.mem_singleton.mp hplace
    cases hrunning
    exact hcalls takes
  | started takes =>
    rcases List.mem_cons.mp hplace with rfl | hplace
    · exact nomatch hrunning
    · obtain rfl := List.mem_singleton.mp hplace
      cases hrunning
      rcases takes with takes | ⟨hsame, hlive⟩
      · exact hcalls takes
      · exact hgoes hsame (Served.calls_of_live hlive)
  | timer | nextPass | newService | tells | calls =>
    obtain rfl := List.mem_singleton.mp hplace
    exact nomatch hrunning

/-- The copy that a section hands to `onStart` has the players of the room, who have been told. -/
theorem called_left (hleft : Left True point last left) : ∀ place ∈ left, ∀ fight room roomInfo,
    place.calls = some (fight, room, roomInfo) → InCopy last room fight roomInfo := by
  intro place hplace fight room roomInfo hcalls
  cases hleft with
  | ends => exact absurd hplace List.not_mem_nil
  | goes _ under =>
    obtain rfl := List.mem_singleton.mp hplace
    exact nomatch under.calls.symm.trans hcalls
  | started =>
    rcases List.mem_cons.mp hplace with rfl | hplace
    · exact nomatch hcalls
    · obtain rfl := List.mem_singleton.mp hplace
      exact nomatch hcalls
  | calls leads fightIns told =>
    obtain rfl := List.mem_singleton.mp hplace
    cases hcalls
    exact ⟨told trivial, fun _ _ hplayer ↦ hplayer⟩
  | opens | fails | timer | nextPass | newService | tells =>
    obtain rfl := List.mem_singleton.mp hplace
    exact nomatch hcalls

/-- A room that is locked stays linked. -/
theorem locked_step (h : RoomLinks origin points) (hinv : HallInvariant origin points)
    (hpoint : point ∈ points) (hdoes : Does point origin heard last) (hclosed : Closed origin last room)
    (hmade : room < origin.lobby.roomCnt) (hstatus : (origin.lobby.rooms room).status = 1) :
    ∃ fight, (last.lobby.rooms room).fightIns = some fight ∧ InGame last room fight := by
  obtain ⟨fight, hfight, hgame⟩ := h.locked room hmade hstatus
  refine ⟨fight, ?_, hgame.step hdoes hclosed ?_⟩
  · rcases hdoes.fightIns hmade with hsame | ⟨-, hwaits, -⟩ | ⟨rfl, -, -⟩
    · exact hsame.trans hfight
    · exact absurd (hwaits.symm.trans hstatus) (by decide)
    · exact absurd ((hinv.starting _ hpoint room none rfl).waits.symm.trans hstatus) (by decide)
  · rcases hdoes.fights fight with hkeeps | ⟨other, roomInfo, hcalls⟩
    · exact hkeeps
    · -- the fight service of the locked room begins no other game
      have hstarting := hinv.starting_of_calls hpoint hcalls
      obtain rfl := hinv.services.own room hmade other hstarting.made fight hfight
        (hstarting.fightIns fight rfl)
      exact absurd (hstarting.waits.symm.trans hstatus) (by decide)

/-- Every section keeps the rooms linked, as long as nobody enters a room that is being started and the
agents can take the fight services that they are told. -/
theorem step (h : RoomLinks origin (before ++ point :: after))
    (hinv : HallInvariant origin (before ++ point :: after)) (hdoes : Does point origin heard last)
    (hleft : Left True point last left)
    (haside : ∀ order ∈ point.looksAlong heard, ∀ other ∈ before ++ point :: after, ∀ room ∈ other.engaged,
      origin.lobby.findRoom order ≠ some room)
    (htakes : ∀ told ∈ point.tells, told.2.2.isSome = true → (origin.agents told.2.1).room.isSome = true) :
    RoomLinks last (before ++ left ++ after) := by
  have hpoint : point ∈ before ++ point :: after := List.mem_append_right _ List.mem_cons_self
  have hengaged : ∀ {other room fight}, other ∈ before ++ point :: after → other.engaged = some room →
      other.starts = some (room, fight) → Closed origin last room := fun hother hengaged hstarts ↦
    closed_of_aside hdoes haside (hinv.starting _ hother _ _ hstarts).made (.inl ⟨_, hother, hengaged⟩)
  have hsplit : ∀ {place : Served}, place ∈ before ++ left ++ after →
      place ∈ left ∨ place ∈ before ++ after ∧ place ∈ before ++ point :: after := by
    intro place hplace
    simp only [List.mem_append, List.mem_cons] at hplace ⊢
    tauto
  refine ⟨taken_step h.taken hdoes htakes, ?_, ?_, ?_⟩
  · intro place hplace fight room roomInfo hcalls
    rcases hsplit hplace with hnew | ⟨-, hold⟩
    · exact called_left hleft place hnew fight room roomInfo hcalls
    · exact (h.called place hold fight room roomInfo hcalls).step hdoes
        (hengaged hold (Served.engaged_of_calls hcalls) (Served.starts_of_calls hcalls))
  · intro place hplace room fight hrunning
    rcases hsplit hplace with hnew | ⟨hother, hold⟩
    · refine h.running_left hpoint hdoes hleft (fun room hroom ↦ ?_) place hnew room fight hrunning
      obtain ⟨service, hstarts⟩ := Served.starts_of_engaged hroom
      exact hengaged hpoint hroom hstarts
    · refine (h.running place hold room fight hrunning).step hdoes
        (hengaged hold (Served.engaged_of_running hrunning) (Served.starts_of_running hrunning)) ?_
      rcases hdoes.fights fight with hkeeps | ⟨_, _, hcalls⟩
      · exact hkeeps
      · have halone := alone_of_single hinv.single (Served.isMatch_of_calls hcalls) place hother
        exact absurd ((Served.isMatch_of_running hrunning).symm.trans halone) (by decide)
  · intro room hroom hstatus
    by_cases hmade : room < origin.lobby.roomCnt
    · rcases hdoes.status hmade with hsame | ⟨_, -, -, hzero⟩ | ⟨fight, roomInfo, hanswered⟩
      · have hlocked := hsame.symm.trans hstatus
        exact h.locked_step hinv hpoint hdoes (closed_of_aside hdoes haside hmade (.inr hlocked)) hmade
          hlocked
      · exact absurd (hzero.symm.trans hstatus) (by decide)
      · -- the answer of `onStart` locks the room
        subst hanswered
        have hstarting := hinv.starting _ hpoint room (some fight) rfl
        refine ⟨fight, (Does.fightIns_locked hdoes rfl).trans (hstarting.fightIns fight rfl), ?_⟩
        refine (h.running _ hpoint room fight rfl).step hdoes (hengaged hpoint rfl rfl) ?_
        rcases hdoes.fights fight with hkeeps | ⟨_, _, hcalls⟩
        · exact hkeeps
        · exact nomatch hcalls
    · exact absurd ((Does.status_new hdoes hmade hroom).symm.trans hstatus) (by decide)

end RoomLinks

end Steps

/-! ### Runs -/

/-- In every run in which nobody enters a room while its agents are told their fight or its `onStart` is
answered, no `leave_room` of a player who is not there finds a room whose agents are told their fight, and
`set_fight` names a fight service only to agents that have a room, a locked room and the game of its fight service
have the same players, and the agent of each has been given the fight service. -/
theorem players_linked {dbServiceCnt : ℕ} {last : Configuration skynet Served Hall}
    (hrun : hallService.Run StartsAlone (openHall dbServiceCnt) last) : last.state.Linked := by
  have hfirst : RoomLinks (openHall dbServiceCnt).state (openHall dbServiceCnt).points := by
    refine ⟨fun _ ↦ List.Subset.refl _, fun point hpoint _ _ _ hcalls ↦ ?_, fun point hpoint _ _ hrunning ↦ ?_,
      fun _ hroom ↦ absurd hroom (Nat.not_lt_zero _)⟩
    · obtain rfl := List.mem_singleton.mp hpoint
      exact nomatch hcalls
    · obtain rfl := List.mem_singleton.mp hpoint
      exact nomatch hrunning
  apply RoomLinks.linked
  refine ((sound_hallService True).holds_of_run (fun _ _ hmeets _ ↦ hmeets.1) ?_ ?_
    (good_openHall True dbServiceCnt) hfirst hrun).2
  · intro configuration point _ harrives h
    obtain ⟨hmatch, -, hcalls, -⟩ := Served.isMessage_spec harrives
    refine ⟨h.taken, fun place hplace fight room roomInfo hplaceCalls ↦ ?_,
      fun place hplace room fight hrunning ↦ ?_, h.locked⟩
    · rcases List.mem_append.mp hplace with hold | hnew
      · exact h.called place hold fight room roomInfo hplaceCalls
      · obtain rfl := List.mem_singleton.mp hnew
        exact nomatch hcalls.symm.trans hplaceCalls
    · rcases List.mem_append.mp hplace with hold | hnew
      · exact h.running place hold room fight hrunning
      · obtain rfl := List.mem_singleton.mp hnew
        exact absurd ((Served.isMatch_of_running hrunning).symm.trans hmatch) (by decide)
  · intro configuration before point after reply answers left last hmeets hpoints hinv h hguar
    have haside := entersAside_iff.mp (Hears.meets hmeets.1.1 hpoints)
    have htakes := Resumes.meets hmeets.2 hpoints
    rw [hpoints] at hinv h haside
    exact h.step hinv hguar.1 hguar.2 haside htakes

/-- The game of two players who have entered before their start. -/
theorem players_linked_pair : ∃ last, hallService.Run StartsAlone (openHall 1) last ∧
    (last.state.lobby.rooms 0).status = 1 ∧ (last.state.lobby.players 0).keys = {1, 2} ∧
      last.state.Linked := by
  obtain ⟨last, hrun, hlast⟩ := hallService.exists_run_of_playMeeting StartsAlone (openHall 1)
    (twoSeated ++ startsGame)
    (fun last ↦ ((last.state.lobby.rooms 0).status, (last.state.lobby.players 0).keys))
    (show _ = some (1, {1, 2}) by decide +kernel)
  exact ⟨last, hrun, congrArg Prod.fst hlast, congrArg Prod.snd hlast, players_linked hrun⟩

/-- A third client enters the room while `onStart` is handled. -/
def entersLate : List (Move skynet Served) :=
  sendsEnter 2 ++
    [.resume 1 .ok [.order [1000], .order [1, 2, 3], .order [1, 2, 3]], .resume 1 .ok [.order [1, 2, 3]],
      .resume 1 .ok [.order [1, 2, 3]], .resume 1 .ok [], .resume 1 .ok []]

/-- A player who enters after the copy has been sent is seated in a locked room whose game he does not play. -/
theorem seated_behind_game : ∃ last, hallService.AnyRun (openHall 1) last ∧ ¬ last.state.Linked := by
  obtain ⟨last, hrun, hlast⟩ := hallService.exists_run_of_playAll (openHall 1)
    (twoSeated ++ startsGame.take 7 ++ entersLate ++ startsGame.drop 7)
    (fun last ↦ (last.state.lobby.roomCnt, (last.state.lobby.rooms 0).status,
      (last.state.lobby.rooms 0).fightIns, ((last.state.lobby.players 0).lookup 3).map RoomPlayer.uid,
      (last.state.fights 0).playerLst.keys))
    (show _ = some (1, 1, some 0, some 3, {1, 2}) by decide +kernel)
  simp only [Prod.mk.injEq] at hlast
  obtain ⟨hroom, hstatus, hfight, hplayer, hkeys⟩ := hlast
  refine ⟨last, hrun, fun hlinked ↦ ?_⟩
  obtain ⟨fight, hservice, hshares⟩ := hlinked 0 (hroom ▸ Nat.one_pos) hstatus
  obtain rfl := Option.some.inj (hfight.symm.trans hservice)
  obtain ⟨player, hlookup, huid⟩ := Option.map_eq_some_iff.mp hplayer
  have hmem := (hshares 3 player hlookup).1
  rw [hkeys, huid] at hmem
  exact absurd hmem (by decide)

end SvrDemo.Douniu
