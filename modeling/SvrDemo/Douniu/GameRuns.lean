import SvrDemo.Douniu.GameTurn

/-!
# Runs of a fight service

The contract is sound for the fight service: with at most one coroutine of the game waiting, a
section of the game meets messages only, which let it do what it does, and a message leaves the game
what the game relies on. So in every configuration that a run reaches the game is either about to
be opened or accounted for, and every section that a run takes keeps its guarantee.
-/

set_option autoImplicit false
set_option relaxedAutoImplicit false

namespace SvrDemo.Douniu

open Coroutine Lua Skynet

/-- The coroutines of the game among the waiting ones. -/
def gamePoints (points : List Point) : List Point :=
  points.filter fun point ↦ !point.handler.isMessage

theorem mem_gamePoints {points : List Point} {point : Point} :
    point ∈ gamePoints points ↔ point ∈ points ∧ point.handler.isMessage = false := by
  simp [gamePoints]

theorem gamePoints_of_message {points : List Point}
    (hmessage : ∀ point ∈ points, point.handler.isMessage = true) : gamePoints points = [] := by
  rw [gamePoints, List.filter_eq_nil_iff]
  intro point hpoint
  simp [hmessage point hpoint]

theorem gamePoints_of_game {points : List Point}
    (hgame : ∀ point ∈ points, point.handler.isMessage = false) : gamePoints points = points := by
  rw [gamePoints, List.filter_eq_self]
  intro point hpoint
  simp [hgame point hpoint]

theorem gamePoints_append (first second : List Point) :
    gamePoints (first ++ second) = gamePoints first ++ gamePoints second :=
  List.filter_append first second

/-- A section of a message leaves the coroutines of the game as they are. -/
theorem gamePoints_of_message_section {before left after : List Point} {point : Point}
    (hpoint : point.handler.isMessage = true)
    (hleft : ∀ other ∈ left, other.handler.isMessage = true) :
    gamePoints (before ++ left ++ after) = gamePoints (before ++ point :: after) := by
  have hskip : gamePoints (point :: after) = gamePoints after := by
    rw [gamePoints, List.filter_cons_of_neg (by simp [hpoint])]
    rfl
  rw [gamePoints_append, gamePoints_append, gamePoints_append, hskip, gamePoints_of_message hleft,
    List.append_nil]

/-- A coroutine of the game waits alone among messages, and what its section leaves takes its place. -/
theorem gamePoints_of_game_section {before left after : List Point} {point : Point}
    (hsingle : (gamePoints (before ++ point :: after)).length ≤ 1)
    (hpoint : point.handler.isMessage = false)
    (hleft : ∀ other ∈ left, other.handler.isMessage = false) :
    (∀ other ∈ before ++ after, other.handler.isMessage = true) ∧
      gamePoints (before ++ left ++ after) = left := by
  have hothers : ∀ other ∈ before ++ after, other.handler.isMessage = true := fun other hother ↦ by
    simpa using alone_of_single hsingle (by simp [hpoint]) other hother
  refine ⟨hothers, ?_⟩
  rw [gamePoints_append, gamePoints_append, gamePoints_of_game hleft,
    gamePoints_of_message fun other hother ↦ hothers other (List.mem_append_left _ hother),
    gamePoints_of_message fun other hother ↦ hothers other (List.mem_append_right _ hother),
    List.nil_append, List.append_nil]

/-- The game is about to be opened, or at most one coroutine of it waits and it is accounted for. -/
inductive GameInvariant (updates : List MoneyUpdate) (fight : Fight) (points : List Point) : Prop
  | before (roomInfo : RoomInfo) (waits : gamePoints points = [⟨.onStart roomInfo, .start⟩])
      (unsaved : fight.moneyUpdates = updates)
  | during (single : (gamePoints points).length ≤ 1)
      (opened : ∀ point ∈ gamePoints points, point.opensGame = false)
      (accounted : Accounted updates fight (gamePoints points))

variable {updates : List MoneyUpdate}

/-- The accounts of a game stand while messages interfere. -/
theorem Accounted.of_interferes {first last : Fight} {left : List Point}
    (h : Interferes first last) (hfirst : Accounted updates first left) :
    Accounted updates last left := by
  cases hfirst with
  | going hgoing hquiet => exact .going (hgoing.of_interferes h) hquiet
  | settled calls hsettled hcomplete =>
    exact .settled calls (hsettled.of_interferes h) fun hquiet uid huid ↦
      hcomplete hquiet uid (h.keys ▸ huid)

theorem GameInvariant.of_interferes {first last : Fight} {points points' : List Point}
    (hpoints : gamePoints points' = gamePoints points) (h : Interferes first last)
    (hfirst : GameInvariant updates first points) : GameInvariant updates last points' := by
  cases hfirst with
  | before roomInfo hwaits hunsaved =>
    exact .before roomInfo (hpoints.trans hwaits) (h.moneyUpdates.trans hunsaved)
  | during hsingle hopened haccounted =>
    rw [← hpoints] at hsingle hopened haccounted
    exact .during hsingle hopened (haccounted.of_interferes h)

/-- At most one coroutine of the game waits. -/
theorem GameInvariant.single' {fight : Fight} {points : List Point}
    (h : GameInvariant updates fight points) : (gamePoints points).length ≤ 1 := by
  cases h with
  | before roomInfo hwaits _ => rw [hwaits]; exact le_rfl
  | during hsingle _ _ => exact hsingle

/-- A message interferes. -/
theorem MessageSection.interferes {point : Point} {origin last : Fight} {left : List Point}
    (h : MessageSection point origin left last) : Interferes origin last := by
  rw [h.effect]
  split_ifs
  · exact Handler.interferes_effect _ _
  · exact .refl origin

/-- The contract is sound for the fight service. -/
theorem sound_fightService (updates : List MoneyUpdate) :
    fightService.Sound (gameContract updates) (GameInvariant updates) fun _ _ ↦ True where
  rely_refl _ state _ := .refl state
  rely_trans _ _ _ _ h h' hgame := (h hgame).trans (h' hgame)
  pre_rely point first last hpre hrely := by
    obtain ⟨handler, call⟩ := point
    cases call with
    | start =>
      cases handler with
      | onStart roomInfo => exact ⟨hpre.1, (hrely rfl).moneyUpdates.trans hpre.2⟩
      | checkStatus => exact Ready.of_interferes (hrely rfl) hpre
      | onGetLeader uid odds => exact hpre
      | onSetOdds uid odds => exact hpre
      | onPackCard uid retCardLst => exact hpre
      | onKickOut uid => exact hpre
    | _ => cases handler <;> exact hpre.elim
  entry _ _ _ hpre := keeps_game hpre
  arrive configuration point _ harrives hinv := by
    obtain ⟨handler, call⟩ := point
    simp only [fightService, Bool.and_eq_true, decide_eq_true_eq] at harrives
    obtain ⟨hmessage, rfl⟩ := harrives
    refine ⟨hinv.of_interferes ?_ (.refl _), ?_⟩
    · have hnew : gamePoints [⟨handler, .start⟩] = [] := gamePoints_of_message fun point hpoint ↦
        List.mem_singleton.mp hpoint ▸ hmessage
      rw [gamePoints_append, hnew, List.append_nil]
    · cases handler with
      | onStart roomInfo => exact nomatch hmessage
      | checkStatus => exact nomatch hmessage
      | _ => exact hmessage
  step configuration before point after reply answers left last _ hpoints hinv hguar := by
    cases hkind : point.handler.isMessage with
    | true =>
      have hsection := hguar.1 hkind
      have hsame : gamePoints (before ++ left ++ after) = gamePoints configuration.points := by
        rw [hpoints]
        exact gamePoints_of_message_section hkind hsection.waiting
      exact ⟨hinv.of_interferes hsame hsection.interferes, fun other _ _ ↦ hsection.interferes⟩
    | false =>
      have hsection := hguar.2 hkind
      rw [hpoints] at hinv
      obtain ⟨hothers, hleft⟩ := gamePoints_of_game_section hinv.single' hkind fun other hother ↦
        (hsection.waiting other hother).1
      refine ⟨.during ?_ ?_ ?_, fun other hother hgame ↦ ?_⟩
      · rw [hleft]
        exact hsection.single
      · rw [hleft]
        exact fun other hother ↦ (hsection.waiting other hother).2
      · rw [hleft]
        exact hsection.accounted
      · exact nomatch (hothers other hother).symm.trans hgame

/-! ### Reachable configurations -/

/-- The game has been opened: `onStart` has had its first turn. -/
def Started (configuration : Configuration skynet Point Fight) : Prop :=
  ∀ point ∈ configuration.points, point.opensGame = false

/-- The configurations of a game: the invariant holds and every coroutine keeps the contract. -/
abbrev GoodGame (updates : List MoneyUpdate) (configuration : Configuration skynet Point Fight) :
    Prop :=
  System.Good (gameContract updates) (GameInvariant updates) configuration

/-- The lobby has sent `onStart` for a room of at most ten players. -/
theorem goodGame_beforeGame (fight : Fight) {roomInfo : RoomInfo}
    (hplayers : roomInfo.playerLst.size ≤ 10) :
    GoodGame fight.moneyUpdates (beforeGame fight roomInfo) := by
  have hinv : GameInvariant fight.moneyUpdates fight [⟨.onStart roomInfo, .start⟩] :=
    .before roomInfo rfl rfl
  refine (sound_fightService fight.moneyUpdates).good_of_starts hinv fun point hpoint ↦ ?_
  obtain rfl := List.mem_singleton.mp hpoint
  exact ⟨hplayers, rfl⟩

/-- Every configuration that a run of the game reaches is good. -/
theorem goodGame_of_run {fight : Fight} {roomInfo : RoomInfo}
    {configuration : Configuration skynet Point Fight} (hplayers : roomInfo.playerLst.size ≤ 10)
    (hrun : fightService.AnyRun (beforeGame fight roomInfo) configuration) :
    GoodGame fight.moneyUpdates configuration :=
  (sound_fightService fight.moneyUpdates).good_of_run (goodGame_beforeGame fight hplayers) hrun

/-- A game that has been opened is accounted for. -/
theorem GoodGame.accounted {configuration : Configuration skynet Point Fight}
    (h : GoodGame updates configuration) (hstarted : Started configuration) :
    Accounted updates configuration.state (gamePoints configuration.points) := by
  cases h.holds with
  | before roomInfo hwaits _ =>
    have hmem : (⟨.onStart roomInfo, .start⟩ : Point) ∈ gamePoints configuration.points := by
      rw [hwaits]
      exact List.mem_singleton_self _
    exact nomatch hstarted _ (mem_gamePoints.mp hmem).1
  | during _ _ haccounted => exact haccounted

/-- A section of a message or of the game opens no game. -/
theorem opensGame_of_message {point : Point} (hmessage : point.handler.isMessage = true) :
    point.opensGame = false := by
  obtain ⟨handler, call⟩ := point
  cases handler with
  | onStart roomInfo => exact nomatch hmessage
  | _ => cases call <;> rfl

/-- A game that has been opened stays so. -/
theorem GoodGame.started_of_play {first last : Configuration skynet Point Fight}
    {move : Move skynet Point} (h : GoodGame updates first) (hstarted : Started first)
    (hplay : fightService.play first move = some last) : Started last := by
  cases move with
  | arrive point =>
    simp only [System.play] at hplay
    split_ifs at hplay with harrives
    obtain rfl := Option.some.inj hplay
    simp only [fightService, Bool.and_eq_true, decide_eq_true_eq] at harrives
    intro other hother
    simp only [Configuration.points, List.map_append, List.map_cons, List.map_nil,
      List.mem_append, List.mem_singleton] at hother
    rcases hother with hold | rfl
    · exact hstarted other hold
    · exact opensGame_of_message harrives.1
  | resume index reply answers =>
    obtain ⟨before, point, after, left, hpoints, -, hlast, hguar⟩ :=
      (sound_fightService updates).section_of_play h hplay
    intro other hother
    rw [hlast] at hother
    have hleft : ∀ other ∈ left, other.opensGame = false := by
      cases hkind : point.handler.isMessage with
      | true => exact fun other hother ↦ opensGame_of_message ((hguar.1 hkind).waiting other hother)
      | false => exact fun other hother ↦ ((hguar.2 hkind).waiting other hother).2
    rcases List.mem_append.mp hother with hmem | hmem
    · rcases List.mem_append.mp hmem with hmem | hmem
      · exact hstarted other (hpoints ▸ List.mem_append_left _ hmem)
      · exact hleft other hmem
    · exact hstarted other (hpoints ▸ List.mem_append_right _ (List.mem_cons_of_mem _ hmem))

/-! ### A game of two players -/

/-- A fight service that has not run a game. -/
def idleFight : Fight where
  playerLst := ∅
  cardLst := []
  roomStatus := .idle
  statusBegin := 0
  roomLeader := none
  room := none
  curDbsId := 1
  dbServiceCnt := 1
  moneyUpdates := []

/-- A room of two players. -/
def pairRoom : RoomInfo where
  roomId := 1000
  roomOdds := some 25
  playerLst := ((∅ : Table RoomPlayer).insert 1 ⟨1, some 11, "", "", 0⟩).insert 2
    ⟨2, some 12, "", "", 0⟩
  status := 0
  roomBeginTs := 0
  fightIns := none
  layout := 0

/-- The game takes its next section, after a reply. -/
def takeTurn (answers : List Answer) : Move skynet Point := .resume 0 .ok answers

/-- The game of `pairRoom` up to the last deal, without a single exchange in the shuffle: nobody bids,
player 1 becomes the banker, and player 2 is the first to get his last card. -/
def untilLastDeal : List (Move skynet Point) :=
  [ takeTurn [.order [1, 2], .number 0, .order [1, 2]], takeTurn [], takeTurn [],
    takeTurn ((List.range' 1 52).map (fun card ↦ .number (Int.ofNat card)) ++ [.order [1, 2]]),
    takeTurn [], takeTurn [.number 4, .number 4, .order [1, 2]], takeTurn [],
    takeTurn [.order [1, 2], .number 10, .number 10, .order [1, 2], .number 50, .number 40,
      .order [1, 2], .order [1, 2]],
    takeTurn [], takeTurn [.number 20, .order [2, 1]] ]

/-- The rest of the game of `pairRoom`: the settlement, and the two calls of `update_user_money` with
the given replies. -/
def fromLastDeal (first second : Answer) : List (Move skynet Point) :=
  [ takeTurn [], takeTurn [.order [1, 2]], takeTurn [], takeTurn [.number 30, .order [1, 2]],
    takeTurn [], takeTurn [.number 50, .order [1, 2], .order [1, 2]], .resume 0 first [],
    .resume 0 second [.order [1, 2]], takeTurn [], takeTurn [], takeTurn [] ]

end SvrDemo.Douniu
