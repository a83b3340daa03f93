import SvrDemo.Douniu.HallInvariant

/-!
# One game at a time

The games of a room are the coroutines that wait for the next step of a game in a fight service that plays for
the room. As long as no room is unlocked while a game of it goes on, every room has at most one game, and a
room with a game is locked or its start is in progress (`OneGame`).

The induction follows `LockedGames`: the start of a room with a game has come to `onStart`. A new game begins in a
room that waits, which has no game; the game is on until the answer of `onStart` locks the room.
-/

set_option autoImplicit false
set_option relaxedAutoImplicit false

namespace SvrDemo.Douniu

open Coroutine Lua Skynet

/-! ### Games -/

/-- A coroutine has the next step of a game for the room with an id. -/
def Hall.plays (hall : Hall) (roomId : ℕ) (point : Served) : Bool :=
  point.live.any fun fight ↦ (hall.fights fight).room.map RoomInfo.roomId == some roomId

/-- The number of games that go on for the room with an id. -/
def Hall.games (hall : Hall) (points : List Served) (roomId : ℕ) : ℕ :=
  points.countP (hall.plays roomId)

/-- `startGame` is in progress for a room. -/
def InStart (points : List Served) (room : ℕ) : Prop :=
  ∃ point ∈ points, point.starts.map Prod.fst = some room

/-- Every room has at most one game, and a room with a game is locked or its start is in progress. -/
def OneGame (hall : Hall) (points : List Served) : Prop :=
  ∀ room < hall.lobby.roomCnt, hall.games points (hall.lobby.rooms room).roomId ≤ 1 ∧
    (0 < hall.games points (hall.lobby.rooms room).roomId →
      (hall.lobby.rooms room).status = 1 ∨ InStart points room)

/-- `unlock_room` reaches the lobby for a room that has no game, or whose start is in progress. -/
def UnlocksOver (configuration : Configuration skynet Served Hall) (point : Served) (_ : Answer) : Prop :=
  ∀ roomId ∈ point.unlocks, ∀ room ∈ configuration.state.lobby.roomQueue.lookup roomId,
    configuration.state.games configuration.points roomId = 0 ∨ InStart configuration.points room

instance (points : List Served) (room : ℕ) : Decidable (InStart points room) :=
  inferInstanceAs (Decidable (∃ point ∈ points, _))

instance (configuration : Configuration skynet Served Hall) (point : Served) (reply : Answer) :
    Decidable (UnlocksOver configuration point reply) :=
  inferInstanceAs (Decidable (∀ roomId ∈ point.unlocks, ∀ room ∈ _, _))

namespace Served

/-- Where a start may be underway: its game waits in the fight service, or `onStart` has been answered. -/
inductive Underway (room : ℕ) : Served → Prop
  | plays (fight : ℕ) (roomInfo : RoomInfo) (call : Call) :
      Underway room ⟨.matchLoop, .inFight (.onStart fight room roomInfo) (.handler (.waits call))⟩
  | answered (fight : ℕ) (roomInfo : RoomInfo) :
      Underway room ⟨.matchLoop, .inFight (.onStart fight room roomInfo) (.reply true)⟩

theorem Underway.starts {point : Served} {room : ℕ} (h : Underway room point) :
    point.starts.map Prod.fst = some room := by
  cases h with
  | plays => rfl
  | answered => rfl

theorem Underway.isMatch {point : Served} {room : ℕ} (h : Underway room point) : point.isMatch = true := by
  cases h with
  | plays => rfl
  | answered => rfl

/-- The game of a coroutine of `matchLoop` is that of the start underway. -/
theorem underway_of_live {point : Served} {fight : ℕ} (hlive : point.live = some fight)
    (hmatch : point.isMatch = true) : ∃ room, point.running = some (room, fight) ∧ Underway room point := by
  unfold live at hlive
  split at hlive
  · exact nomatch hmatch
  · exact nomatch hmatch
  · cases hlive
    exact ⟨_, rfl, .plays _ _ _⟩
  · exact nomatch hlive

end Served

/-! ### Counting games -/

section Counting

variable {linked : Prop} {point : Served} {origin last hall : Hall} {heard : List Answer}
  {before after left points : List Served}

theorem plays_congr {place other : Served} (hlive : place.live = other.live) (roomId : ℕ) :
    hall.plays roomId place = hall.plays roomId other := by
  rw [Hall.plays, Hall.plays, hlive]

theorem plays_iff {roomId : ℕ} : hall.plays roomId point = true ↔
    ∃ fight, point.live = some fight ∧ (hall.fights fight).room.map RoomInfo.roomId = some roomId := by
  rw [Hall.plays, Option.any_eq_true]
  constructor
  · rintro ⟨fight, hlive, hroom⟩
    exact ⟨fight, hlive, eq_of_beq hroom⟩
  · rintro ⟨fight, hlive, hroom⟩
    exact ⟨fight, hlive, beq_iff_eq.mpr hroom⟩

theorem plays_of_none {roomId : ℕ} (hlive : point.live = none) : hall.plays roomId point = false := by
  rw [Hall.plays, hlive]
  rfl

theorem games_split (roomId : ℕ) : hall.games (before ++ left ++ after) roomId =
    hall.games (before ++ after) roomId + hall.games left roomId := by
  simp only [Hall.games, List.countP_append]
  omega

theorem games_cons (roomId : ℕ) : hall.games (before ++ point :: after) roomId =
    hall.games (before ++ after) roomId + hall.games [point] roomId := by
  rw [← games_split, List.append_assoc]
  rfl

theorem games_none {roomId : ℕ} (hlive : ∀ place ∈ points, place.live = none) :
    hall.games points roomId = 0 :=
  List.countP_eq_zero.mpr fun place hplace ↦ by
    rw [plays_of_none (hlive place hplace)]
    exact Bool.false_ne_true

/-- A section that calls no `onStart` leaves the games of the others as they are. -/
theorem games_step (hdoes : Does point origin heard last) (hcalls : point.calls = none) (roomId : ℕ) :
    last.games points roomId = origin.games points roomId := by
  have hplays : last.plays roomId = origin.plays roomId := by
    funext place
    unfold Hall.plays
    cases hlive : place.live with
    | none => rfl
    | some fight =>
      rcases hdoes.fights fight with hkeeps | ⟨room, roomInfo, hsome⟩
      · rw [Option.any_some, Option.any_some, hkeeps.roomId]
      · exact nomatch hcalls.symm.trans hsome
  rw [Hall.games, hplays, Hall.games]

/-- What a section leaves waiting plays no more games than the section did, when it calls no `onStart`. -/
theorem games_left (hleft : Left linked point last left) (hcalls : point.calls = none) (roomId : ℕ) :
    hall.games left roomId ≤ hall.games [point] roomId := by
  cases hleft with
  | goes place under =>
    rcases under.live with hnone | hsame
    · have hzero : hall.games [place] roomId = 0 := games_none (by simpa using hnone)
      rw [hzero]
      exact Nat.zero_le _
    · rw [Hall.games, Hall.games, List.countP_singleton, List.countP_singleton, plays_congr hsame]
  | @timer fight request live =>
    have hlive : (⟨.checkStatus fight, .start⟩ : Served).live = point.live := live.symm
    rw [Hall.games, Hall.games, List.countP_singleton, List.countP_singleton, plays_congr hlive]
  | opens stage takes => exact nomatch hcalls.symm.trans takes
  | fails ok takes => exact nomatch hcalls.symm.trans takes
  | @started fight room roomInfo takes =>
    rcases takes with takes | ⟨-, live⟩
    · exact nomatch hcalls.symm.trans takes
    · have hlive : (⟨.checkStatus fight, .start⟩ : Served).live = point.live := live.symm
      rw [Hall.games, Hall.games, List.countP_cons, List.countP_singleton, List.countP_singleton,
        plays_congr hlive, plays_of_none rfl]
      simp
  | _ =>
    rw [games_none (by simp [Served.live])]
    exact Nat.zero_le _

end Counting

/-! ### The invariant -/

/-- Every room has at most one game, and a room with a game is locked or its start is underway. -/
def LockedGames (hall : Hall) (points : List Served) : Prop :=
  ∀ room < hall.lobby.roomCnt, hall.games points (hall.lobby.rooms room).roomId ≤ 1 ∧
    (0 < hall.games points (hall.lobby.rooms room).roomId →
      (hall.lobby.rooms room).status = 1 ∨ ∃ point ∈ points, point.Underway room)

theorem LockedGames.oneGame {hall : Hall} {points : List Served} (h : LockedGames hall points) :
    OneGame hall points := by
  intro room hroom
  obtain ⟨hone, hlocked⟩ := h room hroom
  refine ⟨hone, fun hgame ↦ (hlocked hgame).imp_right ?_⟩
  rintro ⟨point, hpoint, hunderway⟩
  exact ⟨point, hpoint, hunderway.starts⟩

namespace LockedGames

variable {linked : Prop} {point : Served} {origin last : Hall} {heard : List Answer}
  {before after left points : List Served} {room : ℕ}

/-- The game of a start underway in a fight service is a game of the room. -/
theorem plays_of_running (hinv : HallInvariant origin points) (hpoint : point ∈ points) {fight : ℕ}
    (hrunning : point.running = some (room, fight)) (hlive : point.live = some fight) :
    origin.plays (origin.lobby.rooms room).roomId point = true := by
  have hstarting := hinv.starting point hpoint room _ (Served.starts_of_running hrunning)
  obtain ⟨roomId, hroomId⟩ := Option.isSome_iff_exists.mp (hinv.playing point hpoint fight hlive)
  rw [plays_iff]
  refine ⟨fight, hlive, ?_⟩
  rw [hroomId, hinv.services.serves room hstarting.made fight (hstarting.fightIns fight rfl) roomId hroomId]

/-- A room whose start calls `onStart` has no game. -/
theorem games_of_calls (h : LockedGames origin (before ++ point :: after))
    (hinv : HallInvariant origin (before ++ point :: after)) {fight : ℕ} {roomInfo : RoomInfo}
    (hcalls : point.calls = some (fight, room, roomInfo)) :
    origin.games (before ++ point :: after) (origin.lobby.rooms room).roomId = 0 := by
  have hpoint : point ∈ before ++ point :: after := List.mem_append_right _ List.mem_cons_self
  have hstarting := hinv.starting_of_calls hpoint hcalls
  by_contra hgame
  rcases (h room hstarting.made).2 (Nat.pos_of_ne_zero hgame) with hlocked | ⟨other, hother, hunderway⟩
  · exact absurd (hstarting.waits.symm.trans hlocked) (by decide)
  · -- the start underway would be this one
    rw [hinv.only_match hpoint hother (Served.isMatch_of_calls hcalls) hunderway.isMatch,
      Served.eq_of_calls hcalls] at hunderway
    exact nomatch hunderway

/-- What the call of `onStart` leaves waiting: at most one game, with its start underway. -/
theorem left_of_calls (hleft : Left linked point last left) {fight : ℕ} {roomInfo : RoomInfo}
    (hcalls : point.calls = some (fight, room, roomInfo)) (roomId : ℕ) :
    last.games left roomId ≤ 1 ∧ (0 < last.games left roomId →
      (last.fights fight).room.map RoomInfo.roomId = some roomId ∧ ∃ place ∈ left, place.Underway room) := by
  obtain rfl := Served.eq_of_calls hcalls
  -- one coroutine plays, in the fight service that has been called
  have hgame : ∀ {place : Served} {rest : List Served}, left = place :: rest →
      (∀ other ∈ rest, other.live = none) → place.live = none ∨ place.live = some fight ∧
        (∃ place ∈ left, place.Underway room) → last.games left roomId ≤ 1 ∧ (0 < last.games left roomId →
          (last.fights fight).room.map RoomInfo.roomId = some roomId ∧
            ∃ place ∈ left, place.Underway room) := by
    intro place rest hplaces hrest hlive
    have hcount : last.games left roomId = if last.plays roomId place = true then 1 else 0 := by
      have hnone : rest.countP (last.plays roomId) = 0 := games_none hrest
      rw [hplaces, Hall.games, List.countP_cons, hnone, Nat.zero_add]
    rw [hcount]
    split
    · rename_i hplays
      obtain ⟨service, hservice, hroomId⟩ := plays_iff.mp hplays
      rcases hlive with hnone | ⟨hsome, hunderway⟩
      · exact nomatch hnone.symm.trans hservice
      · obtain rfl := Option.some.inj (hsome.symm.trans hservice)
        exact ⟨le_rfl, fun _ ↦ ⟨hroomId, hunderway⟩⟩
    · exact ⟨Nat.zero_le _, fun hpos ↦ absurd hpos (lt_irrefl _)⟩
  cases hleft with
  | ends => exact ⟨Nat.zero_le _, fun hpos ↦ absurd hpos (lt_irrefl _)⟩
  | goes place under => exact nomatch under.idle
  | timer request => exact nomatch request
  | opens stage takes =>
    cases takes
    refine hgame rfl (fun _ hother ↦ absurd hother List.not_mem_nil) ?_
    cases stage with
    | waits call => exact .inr ⟨rfl, _, List.mem_singleton_self _, .plays _ _ _⟩
    | _ => exact .inl rfl
  | fails ok takes => exact hgame rfl (fun _ hother ↦ absurd hother List.not_mem_nil) (.inl rfl)
  | started takes =>
    rcases takes with takes | ⟨hrunning, -⟩
    · cases takes
      refine hgame rfl (fun other hother ↦ ?_) (.inr ⟨rfl, _, List.mem_cons_of_mem _ (List.mem_singleton_self _),
        .answered _ _⟩)
      obtain rfl := List.mem_singleton.mp hother
      rfl
    · exact nomatch hrunning
  | nextPass passes => exact nomatch passes
  | newService passes => exact nomatch passes
  | tells agent leads =>
    cases leads with
    | passes passes => exact nomatch passes
  | calls leads =>
    cases leads with
    | passes passes => exact nomatch passes

/-- A new game is the only one of its room. -/
theorem step_calls (h : LockedGames origin (before ++ point :: after))
    (hinv : HallInvariant origin (before ++ point :: after)) (hdoes : Does point origin heard last)
    (hleft : Left linked point last left) {fight opened : ℕ} {roomInfo : RoomInfo}
    (hcalls : point.calls = some (fight, opened, roomInfo)) (hroom : room < origin.lobby.roomCnt) :
    last.games (before ++ left ++ after) (last.lobby.rooms room).roomId ≤ 1 ∧
      (0 < last.games (before ++ left ++ after) (last.lobby.rooms room).roomId →
        (last.lobby.rooms room).status = 1 ∨ ∃ point ∈ before ++ left ++ after, point.Underway room) := by
  have hpoint : point ∈ before ++ point :: after := List.mem_append_right _ List.mem_cons_self
  have hstarting := hinv.starting_of_calls hpoint hcalls
  have hopened := hinv.roomId_opened hpoint hdoes hcalls
  have hzero := h.games_of_calls hinv hcalls
  rw [hinv.roomId hdoes hroom, games_split]
  -- who plays for the room afterwards has played for it before
  have hothers : last.games (before ++ after) (origin.lobby.rooms room).roomId ≤
      origin.games (before ++ point :: after) (origin.lobby.rooms room).roomId := by
    rw [games_cons]
    refine (List.countP_mono_left fun other hother hplays ↦ ?_).trans (Nat.le_add_right _ _)
    obtain ⟨service, hlive, hroomId⟩ := plays_iff.mp hplays
    refine plays_iff.mpr ⟨service, hlive, ?_⟩
    rcases hdoes.fights service with hkeeps | ⟨other', roomInfo', hcalls'⟩
    · exact hkeeps.roomId.symm.trans hroomId
    · cases hcalls.symm.trans hcalls'
      have hmem : other ∈ before ++ point :: after := by
        simp only [List.mem_append, List.mem_cons] at hother ⊢
        tauto
      obtain ⟨roomId, hbefore⟩ := Option.isSome_iff_exists.mp (hinv.playing other hmem _ hlive)
      rw [hbefore, hinv.services.serves opened hstarting.made _ (hstarting.fightIns _ rfl) roomId hbefore]
      exact hopened.symm.trans hroomId
  by_cases hsame : room = opened
  · subst hsame
    rw [hzero] at hothers
    obtain ⟨hone, hunderway⟩ := left_of_calls hleft hcalls (origin.lobby.rooms room).roomId
    refine ⟨by omega, fun hpos ↦ .inr ?_⟩
    obtain ⟨-, place, hplace, hunderway⟩ := hunderway (by omega)
    exact ⟨place, List.mem_append_left _ (List.mem_append_right _ hplace), hunderway⟩
  · obtain ⟨-, hroomId⟩ := left_of_calls hleft hcalls (origin.lobby.rooms room).roomId
    have hnone : last.games left (origin.lobby.rooms room).roomId = 0 := by
      by_contra hgame
      have hids := hopened.symm.trans (hroomId (Nat.pos_of_ne_zero hgame)).1
      rw [hinv.rooms.number room hroom, hinv.rooms.number opened hstarting.made] at hids
      have := Option.some.inj hids
      omega
    obtain ⟨hone, hlocked⟩ := h room hroom
    refine ⟨by omega, fun hpos ↦ .inl ?_⟩
    rcases hlocked (by omega) with hstatus | ⟨other, hother, hunderway⟩
    · rcases hdoes.status hroom with hkept | ⟨_, hunlocks, -, -⟩ | ⟨_, _, hanswered⟩
      · exact hkept.trans hstatus
      · rw [Served.eq_of_calls hcalls] at hunlocks
        exact nomatch hunlocks
      · rw [hanswered] at hcalls
        exact nomatch hcalls
    · rw [hinv.only_match hpoint hother (Served.isMatch_of_calls hcalls) hunderway.isMatch,
        Served.eq_of_calls hcalls] at hunderway
      exact nomatch hunderway

/-- A start underway that plays on, and whose game has ended. -/
theorem underway_left (hinv : HallInvariant origin (before ++ point :: after))
    (hleft : Left linked point last left) {fight : ℕ} (hlive : point.live = some fight)
    (hrunning : point.running = some (room, fight)) :
    (∃ place ∈ left, place.Underway room) ∨ ∀ place ∈ left, place.live = none := by
  have hmatch := Served.isMatch_of_running hrunning
  have hidle := Served.idle_of_live hlive
  cases hleft with
  | ends => exact .inr fun _ hplace ↦ absurd hplace List.not_mem_nil
  | goes place under =>
    cases hplace : place.live with
    | none => exact .inr (by simpa using hplace)
    | some service =>
      obtain ⟨other, hother, hunderway⟩ := Served.underway_of_live hplace
        ((Served.isMatch_eq under.request).trans hmatch)
      rcases under.running with hnone | hsame
      · exact nomatch hnone.symm.trans hother
      · cases (hother.symm.trans hsame).trans hrunning
        exact .inl ⟨place, List.mem_singleton_self _, hunderway⟩
  | timer request =>
    obtain ⟨_, _⟩ := point
    obtain rfl := request
    exact nomatch hmatch
  | opens stage takes => exact nomatch (Served.calls_of_live hlive).symm.trans takes
  | fails ok takes => exact nomatch (Served.calls_of_live hlive).symm.trans takes
  | started takes =>
    rcases takes with takes | ⟨hother, -⟩
    · exact nomatch (Served.calls_of_live hlive).symm.trans takes
    · cases hother.symm.trans hrunning
      exact .inl ⟨_, List.mem_cons_of_mem _ (List.mem_singleton_self _), .answered _ _⟩
  | _ => exact .inr (by simp [Served.live])

/-- A section that begins no game keeps the games and the locks. -/
theorem step_other (h : LockedGames origin (before ++ point :: after))
    (hinv : HallInvariant origin (before ++ point :: after)) (hdoes : Does point origin heard last)
    (hleft : Left linked point last left) (hcalls : point.calls = none)
    (hmeets : ∀ roomId ∈ point.unlocks, ∀ room ∈ origin.lobby.roomQueue.lookup roomId,
      origin.games (before ++ point :: after) roomId = 0 ∨ InStart (before ++ point :: after) room)
    (hroom : room < origin.lobby.roomCnt) :
    last.games (before ++ left ++ after) (last.lobby.rooms room).roomId ≤ 1 ∧
      (0 < last.games (before ++ left ++ after) (last.lobby.rooms room).roomId →
        (last.lobby.rooms room).status = 1 ∨ ∃ point ∈ before ++ left ++ after, point.Underway room) := by
  have hpoint : point ∈ before ++ point :: after := List.mem_append_right _ List.mem_cons_self
  rw [hinv.roomId hdoes hroom, games_step hdoes hcalls, games_split]
  obtain ⟨hone, hlocked⟩ := h room hroom
  rw [games_cons] at hone hlocked
  have hgamesLeft : origin.games left (origin.lobby.rooms room).roomId ≤
      origin.games [point] (origin.lobby.rooms room).roomId := games_left hleft hcalls _
  refine ⟨by omega, fun hpos ↦ ?_⟩
  rcases hlocked (by omega) with hstatus | ⟨other, hother, hunderway⟩
  · rcases hdoes.status hroom with hkept | ⟨roomId, hunlocks, hlookup, -⟩ | ⟨_, _, hanswered⟩
    · exact .inl (hkept.trans hstatus)
    · -- the room has no game, or it would not be locked
      rcases hmeets roomId hunlocks room hlookup with hnone | ⟨other, hother, hstarts⟩
      · rw [← hinv.rooms.roomId roomId room hlookup, games_cons] at hnone
        omega
      · obtain ⟨⟨room', fight⟩, hstart, rfl⟩ := Option.map_eq_some_iff.mp hstarts
        exact absurd ((hinv.starting other hother _ _ hstart).waits.symm.trans hstatus) (by decide)
    · exact .inl (hdoes.status_locked hanswered)
  · by_cases hsame : other = point
    · subst hsame
      cases hunderway with
      | answered => exact .inl (hdoes.status_locked rfl)
      | plays fight roomInfo call =>
        rcases underway_left hinv hleft rfl rfl with ⟨place, hplace, hunderway⟩ | hnone
        · exact .inr ⟨place, List.mem_append_left _ (List.mem_append_right _ hplace), hunderway⟩
        · -- its game was the only one
          have hplays : origin.plays (origin.lobby.rooms room).roomId _ = true :=
            plays_of_running hinv hpoint rfl rfl
          have hgame : ∀ place : Served, origin.plays (origin.lobby.rooms room).roomId place = true →
              origin.games [place] (origin.lobby.rooms room).roomId = 1 := fun place hplace ↦ by
            rw [Hall.games, List.countP_singleton, if_pos hplace]
          rw [games_none hnone] at hpos
          rw [hgame _ hplays] at hone
          omega
    · refine .inr ⟨other, ?_, hunderway⟩
      simp only [List.mem_append, List.mem_cons] at hother ⊢
      tauto

/-- Every section keeps the games and the locks, as long as it unlocks no room with a game. -/
theorem step (h : LockedGames origin (before ++ point :: after))
    (hinv : HallInvariant origin (before ++ point :: after)) (hdoes : Does point origin heard last)
    (hleft : Left linked point last left)
    (hmeets : ∀ roomId ∈ point.unlocks, ∀ room ∈ origin.lobby.roomQueue.lookup roomId,
      origin.games (before ++ point :: after) roomId = 0 ∨ InStart (before ++ point :: after) room) :
    LockedGames last (before ++ left ++ after) := by
  intro room hroom
  have hpoint : point ∈ before ++ point :: after := List.mem_append_right _ List.mem_cons_self
  by_cases hold : room < origin.lobby.roomCnt
  · cases hcalls : point.calls with
    | none => exact h.step_other hinv hdoes hleft hcalls hmeets hold
    | some call =>
      obtain ⟨fight, opened, roomInfo⟩ := call
      exact h.step_calls hinv hdoes hleft hcalls hold
  · -- nobody plays for a new room
    have hnone : last.games (before ++ left ++ after) (last.lobby.rooms room).roomId = 0 := by
      refine List.countP_eq_zero.mpr fun place _ hplays ↦ ?_
      obtain ⟨fight, -, hroomId⟩ := plays_iff.mp hplays
      obtain ⟨other, hother, hids⟩ := hinv.known_before hpoint hdoes hroomId
      rw [(hdoes.rooms hinv.rooms).number room hroom, hinv.rooms.number other hother] at hids
      omega
    rw [hnone]
    exact ⟨Nat.zero_le _, fun hpos ↦ absurd hpos (lt_irrefl _)⟩

end LockedGames

/-! ### Runs -/

/-- In every run in which `unlock_room` reaches the lobby only for rooms without a game, or whose start is in
progress, every room has at most one game, and a room with a game is locked or its start is in progress. -/
theorem one_game {dbServiceCnt : ℕ} {last : Configuration skynet Served Hall}
    (hrun : hallService.Run (Resumes UnlocksOver) (openHall dbServiceCnt) last) :
    OneGame last.state last.points := by
  have hfirst : LockedGames (openHall dbServiceCnt).state (openHall dbServiceCnt).points :=
    fun _ hroom ↦ absurd hroom (Nat.not_lt_zero _)
  apply LockedGames.oneGame
  refine ((sound_hallService False).holds_of_run (fun _ _ _ hlinked ↦ hlinked.elim) ?_ ?_
    (good_openHall False dbServiceCnt) hfirst hrun).2
  · intro configuration point _ harrives h room hroom
    obtain ⟨-, -, -, hlive, -⟩ := Served.isMessage_spec harrives
    obtain ⟨hone, hlocked⟩ := h room hroom
    have hnone : configuration.state.games [point] (configuration.state.lobby.rooms room).roomId = 0 :=
      games_none (by simpa using hlive)
    have hsame : configuration.state.games (configuration.points ++ [point])
        (configuration.state.lobby.rooms room).roomId =
          configuration.state.games configuration.points (configuration.state.lobby.rooms room).roomId := by
      rw [Hall.games, List.countP_append]
      exact congrArg _ hnone
    rw [hsame]
    refine ⟨hone, fun hpos ↦ (hlocked hpos).imp_right ?_⟩
    rintro ⟨other, hother, hunderway⟩
    exact ⟨other, List.mem_append_left _ hother, hunderway⟩
  · intro configuration before point after reply answers left last hmeets hpoints hinv h hguar
    have hmeets := Resumes.meets hmeets hpoints
    unfold UnlocksOver at hmeets
    rw [hpoints] at hinv h hmeets
    exact h.step hinv hguar.1 hguar.2 hmeets

/-- A client logs in and sends `enter_room`, up to where the lobby takes the request up. -/
def sendsEnter (agent : ℕ) : List (Move skynet Served) :=
  [.arrive ⟨.login agent, .start⟩, .resume 1 .ok [], .resume 1 .ok [.number (agent + 1)],
    .arrive ⟨.enterRoom agent, .start⟩, .resume 1 .ok []]

/-- Two clients enter a room: the first has it made. -/
def twoSeated : List (Move skynet Served) :=
  sendsEnter 0 ++
    [.resume 1 .ok [.order [], .number 0, .order [1], .order [1]], .resume 1 .ok [], .resume 1 .ok []] ++
  sendsEnter 1 ++
    [.resume 1 .ok [.order [1000], .order [1, 2], .order [1, 2]], .resume 1 .ok [.order [1, 2]],
      .resume 1 .ok [], .resume 1 .ok []]

/-- `matchLoop` starts the game of the room, and gets the answer of `onStart`. -/
def startsGame : List (Move skynet Served) :=
  [.resume 0 .ok [.order [1000], .number 20], .resume 0 .ok [.order [1, 2]],
    .resume 0 .ok [], .resume 0 .ok [], .resume 0 .ok [], .resume 0 .ok [],
    .resume 0 .ok [.order [1, 2], .number 20, .order [1, 2]], .resume 0 .ok [], .resume 0 .ok [],
    .resume 0 .ok (List.replicate 52 (.number 1) ++ [.order [1, 2]]), .resume 0 .ok [],
    .resume 0 .ok [.number 20], .resume 1 .ok []]

/-- The game of two players goes on, and its room is locked. -/
theorem one_game_pair : ∃ last, hallService.Run (Resumes UnlocksOver) (openHall 1) last ∧
    OneGame last.state last.points ∧ last.state.games last.points 1000 = 1 ∧
      (last.state.lobby.rooms 0).status = 1 := by
  obtain ⟨last, hrun, hlast⟩ := hallService.exists_run_of_playMeeting (Resumes UnlocksOver) (openHall 1)
    (twoSeated ++ startsGame)
    (fun last ↦ (last.state.games last.points 1000, (last.state.lobby.rooms 0).status))
    (show _ = some (1, 1) by decide +kernel)
  exact ⟨last, hrun, one_game hrun, congrArg Prod.fst hlast, congrArg Prod.snd hlast⟩

/-- A player leaves in the middle of the game: `onKickOut` has the room unlocked, and the game goes on. -/
theorem room_unlocked_in_game : ∃ last, hallService.AnyRun (openHall 1) last ∧
    ¬ OneGame last.state last.points := by
  obtain ⟨last, hrun, hlast⟩ := hallService.exists_run_of_playAll (openHall 1)
    (twoSeated ++ startsGame ++ [.arrive ⟨.leaveRoom 0, .start⟩, .resume 2 .ok [],
      .resume 2 .ok [.order [1000]], .resume 2 .ok [], .resume 2 .ok [.number 21, .order [2]]])
    (fun last ↦ (last.state.lobby.roomCnt, (last.state.lobby.rooms 0).status,
      last.state.games last.points (last.state.lobby.rooms 0).roomId, decide (InStart last.points 0)))
    (show _ = some (1, 0, 1, false) by decide +kernel)
  refine ⟨last, hrun, fun honce ↦ ?_⟩
  have hstatus : (last.state.lobby.rooms 0).status = 0 := congrArg (fun value ↦ value.2.1) hlast
  have hroom : 0 < last.state.lobby.roomCnt := by
    rw [show last.state.lobby.roomCnt = 1 from congrArg Prod.fst hlast]
    exact Nat.one_pos
  have hgame : 0 < last.state.games last.points (last.state.lobby.rooms 0).roomId := by
    rw [show last.state.games last.points (last.state.lobby.rooms 0).roomId = 1 from
      congrArg (fun value ↦ value.2.2.1) hlast]
    exact Nat.one_pos
  rcases (honce 0 hroom).2 hgame with hlocked | hstart
  · exact absurd (hstatus.symm.trans hlocked) (by decide)
  · exact of_decide_eq_false (congrArg (fun value ↦ value.2.2.2) hlast) hstart

end SvrDemo.Douniu
