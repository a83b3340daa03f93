import SvrDemo.Douniu.GameRuns
import SvrDemo.Douniu.PhaseTurn

/-!
# Phases and odds in every run

In every configuration that a run of a game reaches the service has entered the phases in their order,
the odds are those of the phase, the banker of the last two phases stays with his odds, and while the
result is stored or shown every opponent of the banker has won or lost the odds of the room times a
factor from 5 to 300. The product is computed with 64-bit integers: it lies between those bounds in a
room whose largest stake fits, and it can leave them in a room of larger odds.
-/

set_option autoImplicit false
set_option relaxedAutoImplicit false

namespace SvrDemo.Douniu

open Coroutine Lua Skynet

/-- The game is about to be opened with nothing recorded, or at most one coroutine of it waits and the
game is in a phase. -/
inductive PhaseInvariant (whole : RecordedFight) (points : List Point) : Prop
  | before (roomInfo : RoomInfo) (waits : gamePoints points = [⟨.onStart roomInfo, .start⟩])
      (unrecorded : whole.2 = [])
  | during (single : (gamePoints points).length ≤ 1)
      (opened : ∀ point ∈ gamePoints points, point.opensGame = false)
      (inPhase : InPhase (gamePoints points) whole)

variable {first last : RecordedFight} {points points' : List Point}

theorem Fight.AllStaked.of_meddles {first last : Fight} (h : Meddles first last)
    (hfirst : first.AllStaked) : last.AllStaked := fun leader hleader uid huid hne ↦
  (hfirst leader (h.roomLeader ▸ hleader) uid (h.keys ▸ huid) hne).of_meddles h

theorem Phased.of_meddles (h : Meddles first.1 last.1) (hrecord : last.2 = first.2)
    (hfirst : Phased first) : Phased last := by
  unfold Phased at hfirst ⊢
  rw [hrecord, h.roomStatus]
  exact hfirst

/-- Meddling keeps the invariant. -/
theorem PhaseInvariant.of_meddles (hpoints : gamePoints points' = gamePoints points)
    (h : Meddles first.1 last.1) (hrecord : last.2 = first.2) (hfirst : PhaseInvariant first points) :
    PhaseInvariant last points' := by
  cases hfirst with
  | before roomInfo hwaits hunrecorded =>
    exact .before roomInfo (hpoints.trans hwaits) (hrecord.trans hunrecorded)
  | during hsingle hopened hphase =>
    rw [← hpoints] at hsingle hopened hphase
    exact .during hsingle hopened ⟨hphase.phased.of_meddles h hrecord, h.phaseOdds hphase.phaseOdds,
      fun hsettling ↦ (hphase.staked hsettling).of_meddles h⟩

theorem PhaseInvariant.single' (h : PhaseInvariant first points) : (gamePoints points).length ≤ 1 := by
  cases h with
  | before roomInfo hwaits _ => rw [hwaits]; exact le_rfl
  | during hsingle _ _ => exact hsingle

/-- The contract is sound for the fight service with the record. -/
theorem sound_recordedFight :
    recordedFight.Sound phaseContract PhaseInvariant fun _ _ ↦ True where
  rely_refl _ whole _ := ⟨.refl whole.1, rfl⟩
  rely_trans _ _ _ _ h h' hgame :=
    ⟨(h hgame).1.trans (h' hgame).1, (h' hgame).2.trans (h hgame).2⟩
  pre_rely point first last hpre hrely := by
    obtain ⟨handler, call⟩ := point
    cases call with
    | start =>
      cases handler with
      | onStart roomInfo => exact (hrely rfl).2.trans hpre
      | checkStatus =>
        obtain ⟨hmeddles, hrecord⟩ := hrely rfl
        exact ⟨unmeddled_playing _ _ hmeddles hpre.1, hpre.2.of_meddles hmeddles hrecord⟩
      | onGetLeader uid odds => exact hpre
      | onSetOdds uid odds => exact hpre
      | onPackCard uid retCardLst => exact hpre
      | onKickOut uid => exact hpre
    | _ => cases handler <;> exact hpre.elim
  entry _ _ _ hpre := keepsPhase_entry hpre
  arrive configuration point _ harrives hinv := by
    obtain ⟨handler, call⟩ := point
    simp only [recordedFight, fightService, Bool.and_eq_true, decide_eq_true_eq] at harrives
    obtain ⟨hmessage, rfl⟩ := harrives
    refine ⟨hinv.of_meddles ?_ (.refl _) rfl, ?_⟩
    · have hnew : gamePoints [⟨handler, .start⟩] = [] := gamePoints_of_message fun point hpoint ↦
        List.mem_singleton.mp hpoint ▸ hmessage
      rw [gamePoints_append, hnew, List.append_nil]
    · cases handler with
      | onStart roomInfo => cases hmessage
      | checkStatus => cases hmessage
      | _ => exact hmessage
  step configuration before point after reply answers left last _ hpoints hinv hguar := by
    cases hkind : point.handler.isMessage with
    | true =>
      have hsection := hguar.1 hkind
      have hsame : gamePoints (before ++ left ++ after) = gamePoints configuration.points := by
        rw [hpoints]
        exact gamePoints_of_message_section hkind hsection.waiting
      exact ⟨hinv.of_meddles hsame hsection.meddles hsection.record, fun other _ _ ↦
        ⟨hsection.meddles, hsection.record⟩⟩
    | false =>
      have hsection := hguar.2 hkind
      rw [hpoints] at hinv
      obtain ⟨hothers, hleft⟩ := gamePoints_of_game_section hinv.single' hkind fun other hother ↦
        (hsection.waiting other hother).1
      refine ⟨.during ?_ ?_ ?_, fun other hother hgame ↦ ?_⟩
      · rw [hleft]
        exact hsection.single
      · rw [hleft]
        exact fun other hother ↦ (hsection.waiting other hother).2
      · rw [hleft]
        exact hsection.toInPhase
      · cases (hothers other hother).symm.trans hgame

/-! ### Reachable configurations -/

/-- The configurations with a record in which the invariant holds and every coroutine keeps the
contract. -/
abbrev GoodPhase (configuration : Configuration skynet Point RecordedFight) : Prop :=
  System.Good phaseContract PhaseInvariant configuration

theorem goodPhase_recordedBeforeGame (fight : Fight) (roomInfo : RoomInfo) :
    GoodPhase (recordedBeforeGame fight roomInfo) := by
  have hinv : PhaseInvariant (fight, []) [⟨.onStart roomInfo, .start⟩] := .before roomInfo rfl rfl
  refine sound_recordedFight.good_of_starts hinv fun point hpoint ↦ ?_
  obtain rfl := List.mem_singleton.mp hpoint
  exact (rfl : ([] : List RoomStatus) = [])

theorem follows_beforeGame (fight : Fight) (roomInfo : RoomInfo) :
    Configuration.Follows Call Prod.fst id (recordedBeforeGame fight roomInfo)
      (beforeGame fight roomInfo) :=
  ⟨rfl, .cons (recordedFight_watches.start _) .nil, rfl⟩

/-- A configuration with a record and a plain one wait at the same points. -/
theorem points_of_follows {recorded : Configuration skynet Point RecordedFight}
    {plain : Configuration skynet Point Fight}
    (h : Configuration.Follows Call Prod.fst id recorded plain) : recorded.points = plain.points := by
  rw [← h.points, List.map_id]

/-- The game of a configuration that has been opened is in a phase. -/
theorem GoodPhase.inPhase {configuration : Configuration skynet Point RecordedFight}
    (h : GoodPhase configuration) (hstarted : ∀ point ∈ configuration.points, point.opensGame = false) :
    InPhase (gamePoints configuration.points) configuration.state := by
  cases h.holds with
  | before roomInfo hwaits _ =>
    have hmem : (⟨.onStart roomInfo, .start⟩ : Point) ∈ gamePoints configuration.points := by
      rw [hwaits]
      exact List.mem_singleton_self _
    exact nomatch hstarted _ (mem_gamePoints.mp hmem).1
  | during _ _ hphase => exact hphase

/-- A move of a game that has been opened keeps the banker. -/
theorem GoodPhase.step {first last : Configuration skynet Point RecordedFight}
    {move : Move skynet Point} (h : GoodPhase first)
    (hstarted : ∀ point ∈ first.points, point.opensGame = false)
    (hplay : recordedFight.play first move = some last) :
    (∀ point ∈ last.points, point.opensGame = false) ∧ KeepsBanker first.state.1 last.state.1 := by
  cases move with
  | arrive point =>
    simp only [System.play] at hplay
    split_ifs at hplay with harrives
    obtain rfl := Option.some.inj hplay
    simp only [recordedFight, fightService, Bool.and_eq_true, decide_eq_true_eq] at harrives
    refine ⟨fun other hother ↦ ?_, .refl _⟩
    simp only [Configuration.points, List.map_append, List.map_cons, List.map_nil,
      List.mem_append, List.mem_singleton] at hother
    rcases hother with hold | rfl
    · exact hstarted other hold
    · exact opensGame_of_message harrives.1
  | resume index reply answers =>
    obtain ⟨before, point, after, left, hpoints, -, hlast, hguar⟩ :=
      sound_recordedFight.section_of_play h hplay
    have hopens : point.opensGame = false :=
      hstarted point (hpoints ▸ List.mem_append_right _ List.mem_cons_self)
    have hsection : (∀ other ∈ left, other.opensGame = false) ∧
        KeepsBanker first.state.1 last.state.1 := by
      cases hkind : point.handler.isMessage with
      | true => exact ⟨fun other hother ↦ opensGame_of_message ((hguar.1 hkind).waiting other hother),
          (hguar.1 hkind).meddles.keepsBanker⟩
      | false => exact ⟨fun other hother ↦ ((hguar.2 hkind).waiting other hother).2,
          (hguar.2 hkind).keepsBanker hopens⟩
    refine ⟨fun other hother ↦ ?_, hsection.2⟩
    rw [hlast] at hother
    rcases List.mem_append.mp hother with hmem | hmem
    · rcases List.mem_append.mp hmem with hmem | hmem
      · exact hstarted other (hpoints ▸ List.mem_append_left _ hmem)
      · exact hsection.1 other hmem
    · exact hstarted other (hpoints ▸ List.mem_append_right _ (List.mem_cons_of_mem _ hmem))

/-- A run of a game that has been opened keeps the banker. -/
theorem GoodPhase.run {first last : Configuration skynet Point RecordedFight} (h : GoodPhase first)
    (hstarted : ∀ point ∈ first.points, point.opensGame = false)
    (hrun : recordedFight.AnyRun first last) :
    GoodPhase last ∧ (∀ point ∈ last.points, point.opensGame = false) ∧
      KeepsBanker first.state.1 last.state.1 := by
  induction hrun with
  | refl => exact ⟨h, hstarted, .refl _⟩
  | snoc _ _ hplay ih =>
    obtain ⟨hmiddle, hopened, hkeeps⟩ := ih
    obtain ⟨hlast, hkeeps'⟩ := GoodPhase.step hmiddle hopened hplay
    exact ⟨sound_recordedFight.good_of_play hmiddle trivial hplay, hlast, hkeeps.trans hkeeps'⟩

/-- In every run of a game that has been opened, the phases that the service has entered are those up to the present
one in their order. -/
theorem phased_of_run {fight : Fight} {roomInfo : RoomInfo} {recorded : Configuration skynet Point RecordedFight}
    (hrun : recordedFight.AnyRun (recordedBeforeGame fight roomInfo) recorded)
    (hstarted : ∀ point ∈ recorded.points, point.opensGame = false) : Phased recorded.state :=
  (GoodPhase.inPhase (sound_recordedFight.good_of_run (goodPhase_recordedBeforeGame fight roomInfo) hrun)
    hstarted).phased

/-- Phases and odds. In every run of a game the phases that the service has entered, once the game has been opened,
are those up to the present one in their order; the service runs as it does with the record. In every configuration
`first` that a run of a game reaches once the game has been opened, and in every configuration `last` that the run
reaches from there: the odds and the banker are those of the phase; the banker of `first`, if there is one, is the
banker of `last` with the same odds; and while the game stores or shows its result, every opponent has won or lost the
odds of the room times a factor from 5 to 300, which lies between those bounds in magnitude when the largest stake of
the room fits into 64 bits. -/
theorem phases_in_order (fight : Fight) (roomInfo : RoomInfo)
    (first last : Configuration skynet Point Fight)
    (hrun : fightService.AnyRun (beforeGame fight roomInfo) first) (hstarted : Started first)
    (hlater : fightService.AnyRun first last) :
    (∀ recorded, recordedFight.AnyRun (recordedBeforeGame fight roomInfo) recorded →
      (∀ point ∈ recorded.points, point.opensGame = false) → Phased recorded.state) ∧
    (∃ recorded, recordedFight.AnyRun (recordedBeforeGame fight roomInfo) recorded ∧
      Configuration.Follows Call Prod.fst id recorded last ∧ Phased recorded.state) ∧
    PhaseOdds last.state ∧ KeepsBanker first.state last.state ∧
    ((∃ point ∈ gamePoints last.points, point.call.isSettling = true) →
      ∀ leader, last.state.roomLeader = some leader →
        ∀ uid ∈ last.state.playerLst.keys, uid ≠ leader → last.state.Staked uid ∧
          ∀ roomOdds, last.state.roomOdds = some roomOdds → 25 * 4 * 3 * |roomOdds.toInt| < 2 ^ 63 →
            5 * 1 * 1 * |roomOdds.toInt| ≤ |(last.state.winMoney uid).toInt| ∧
              |(last.state.winMoney uid).toInt| ≤ 25 * 4 * 3 * |roomOdds.toInt|) := by
  obtain ⟨recorded, hrecorded, hfollows⟩ :=
    recordedFight_watches.exists_anyRun (follows_beforeGame fight roomInfo) hrun
  obtain ⟨recorded', hrecorded', hfollows'⟩ := recordedFight_watches.exists_anyRun hfollows hlater
  have hgood := sound_recordedFight.good_of_run (goodPhase_recordedBeforeGame fight roomInfo) hrecorded
  rw [Started, ← points_of_follows hfollows] at hstarted
  obtain ⟨hlast, hopened, hkeeps⟩ := GoodPhase.run hgood hstarted hrecorded'
  have hphase := GoodPhase.inPhase hlast hopened
  rw [hfollows.state, hfollows'.state] at hkeeps
  have hodds := hphase.phaseOdds
  rw [hfollows'.state] at hodds
  refine ⟨fun _ ↦ phased_of_run, ⟨recorded', hrecorded.trans hrecorded', hfollows', hphase.phased⟩, hodds, hkeeps, ?_⟩
  intro hsettling leader hleader uid huid hne
  rw [← points_of_follows hfollows'] at hsettling
  have hstaked := hphase.staked hsettling
  rw [hfollows'.state] at hstaked
  have hstake := hstaked leader hleader uid huid hne
  exact ⟨hstake, fun roomOdds hroom hfits ↦ hstake.bounds hroom hfits⟩

/-- The game of two players is settled, and its result is being stored. -/
def untilSettled : List (Move skynet Point) :=
  untilLastDeal ++ (fromLastDeal .ok .ok).take 6

/-- The game of two players: its service has gone through the four phases, player 1 is the banker, and
player 2 has won the smallest stake. -/
theorem phases_in_order_pair : ∃ configuration : Configuration skynet Point Fight,
    fightService.AnyRun (beforeGame idleFight pairRoom) configuration ∧
      configuration.state.roomStatus = .gameEnd ∧ configuration.state.winMoney 2 = 125 ∧
      PhaseOdds configuration.state ∧ configuration.state.Staked 2 := by
  obtain ⟨configuration, hrun, hvalue⟩ := System.exists_run_of_playAll fightService
    (beforeGame idleFight pairRoom) untilSettled
    (fun configuration ↦ (configuration.state.roomStatus, configuration.state.winMoney 2,
      configuration.state.roomLeader, decide (2 ∈ configuration.state.playerLst.keys),
      configuration.points.all (fun point ↦ !point.opensGame),
      (gamePoints configuration.points).any fun point ↦ point.call.isSettling))
    (show _ = some (.gameEnd, 125, some 1, true, true, true) by decide +kernel)
  have hstarted : Started configuration := by
    simpa [Started] using congrArg (fun value ↦ value.2.2.2.2.1) hvalue
  have hsettling : ∃ point ∈ gamePoints configuration.points, point.call.isSettling = true := by
    simpa using congrArg (fun value ↦ value.2.2.2.2.2) hvalue
  have hplays : 2 ∈ configuration.state.playerLst.keys :=
    of_decide_eq_true (congrArg (fun value ↦ value.2.2.2.1) hvalue)
  obtain ⟨-, -, hodds, -, hstaked⟩ := phases_in_order idleFight pairRoom configuration configuration hrun
    hstarted (.refl configuration)
  refine ⟨configuration, hrun, congrArg Prod.fst hvalue, congrArg (fun value ↦ value.2.1) hvalue, hodds,
    (hstaked hsettling 1 (congrArg (fun value ↦ value.2.2.1) hvalue) 2 hplays (by decide)).1⟩

/-- A room of two players with the odds that the client of its creator has sent. -/
def richRoom : RoomInfo := { pairRoom with roomOdds := some (2 ^ 62) }

/-- In a room of large odds the smallest stake does not fit into 64 bits: player 2 wins less than the
odds of the room times five. -/
theorem payment_wraps_around : ∃ configuration : Configuration skynet Point Fight,
    fightService.AnyRun (beforeGame idleFight richRoom) configuration ∧
      (∃ point ∈ gamePoints configuration.points, point.call.isSettling = true) ∧
      configuration.state.roomLeader = some 1 ∧ 2 ∈ configuration.state.playerLst.keys ∧
      configuration.state.roomOdds = some (2 ^ 62) ∧
      ¬ 5 * 1 * 1 * |(2 ^ 62 : LuaInt).toInt| ≤ |(configuration.state.winMoney 2).toInt| := by
  obtain ⟨configuration, hrun, hvalue⟩ := System.exists_run_of_playAll fightService
    (beforeGame idleFight richRoom) untilSettled
    (fun configuration ↦ ((gamePoints configuration.points).any fun point ↦ point.call.isSettling,
      configuration.state.roomLeader, decide (2 ∈ configuration.state.playerLst.keys),
      configuration.state.roomOdds, configuration.state.winMoney 2))
    (show _ = some (true, some 1, true, some (2 ^ 62), 2 ^ 62) by decide +kernel)
  have hmoney : configuration.state.winMoney 2 = 2 ^ 62 := congrArg (fun value ↦ value.2.2.2.2) hvalue
  refine ⟨configuration, hrun, by simpa using congrArg Prod.fst hvalue,
    congrArg (fun value ↦ value.2.1) hvalue,
    of_decide_eq_true (congrArg (fun value ↦ value.2.2.1) hvalue),
    congrArg (fun value ↦ value.2.2.2.1) hvalue, ?_⟩
  have hodds : (2 ^ 62 : LuaInt).toInt = 2 ^ 62 := by decide +kernel
  rw [hmoney, hodds]
  decide

end SvrDemo.Douniu
