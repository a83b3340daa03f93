import SvrDemo.Douniu.PhaseRuns
import SvrDemo.Douniu.Payment
import SvrDemo.Douniu.RoomOdds

/-!
# Winning pays

In a room of sound odds an opponent of the banker has gained money after the settlement when his hand beats the
banker's, and has lost money when it does not. `winnings_of_run` says so of every configuration that a run of a game
reaches: the settlement is computed without an error as soon as the last phase has begun, and the money that is stored
and shown is that of the winners and losers.
-/

set_option autoImplicit false
set_option relaxedAutoImplicit false

namespace SvrDemo.Douniu

open Coroutine Lua Skynet

/-- Every opponent of the banker has gained money when his hand beats the banker's, and has lost money else. -/
def Fight.Winnings (fight : Fight) : Prop :=
  ∀ leader, fight.roomLeader = some leader → ∀ uid ∈ fight.playerLst.keys, uid ≠ leader →
    if handBeats (fight.hand uid) (fight.hand leader) then 0 < (fight.winMoney uid).toInt
    else (fight.winMoney uid).toInt < 0

variable {fight : Fight} {roomInfo : RoomInfo} {roomOdds : LuaInt} {configuration : Configuration skynet Point Fight}

/-- The negative of a positive number is negative. -/
theorem toInt_neg_of_pos {value : LuaInt} (hpos : 0 < value.toInt) : (-value).toInt < 0 := by
  have hlt := BitVec.toInt_lt (x := value)
  rw [BitVec.toInt_neg, bmod_of_fits]
  · omega
  · rw [abs_neg, abs_of_pos hpos]
    exact_mod_cast hlt

/-- A stake with sound odds is won by the better hand. -/
theorem stakeOf_of_sound (hsound : SoundOdds roomOdds) {odds leaderOdds : ℤ} (hodds : odds ∈ setOddsLimit)
    (hleader : 1 ≤ leaderOdds ∧ leaderOdds ≤ 4) (hand leaderHand : List ℤ) :
    if handBeats hand leaderHand then 0 < (stakeOf roomOdds odds leaderOdds hand leaderHand).toInt
    else (stakeOf roomOdds odds leaderOdds hand leaderHand).toInt < 0 := by
  have hpos := (soundOdds_iff roomOdds).mp hsound odds hodds leaderOdds hleader.1 hleader.2
  unfold stakeOf
  split
  · exact hpos (niuOf hand)
  · exact toInt_neg_of_pos (hpos (niuOf leaderHand))

/-- A game in its last phase that has been settled has paid the winners. -/
theorem Fight.Paid.winnings {leader : ℕ} (h : fight.Paid leader) (hphase : PhaseOdds fight)
    (hend : fight.roomStatus = .gameEnd) (hodds : fight.roomOdds = some roomOdds) (hsound : SoundOdds roomOdds) :
    fight.Winnings := by
  intro leader' hleader uid huid hne
  obtain rfl : leader = leader' := Option.some.inj (h.leader.symm.trans hleader)
  obtain ⟨roomOdds', hodds', hmoney⟩ := h.opponent uid huid hne
  obtain rfl : roomOdds = roomOdds' := Option.some.inj (hodds.symm.trans hodds')
  cases hphase with
  | bidding hearly => rcases hearly with hearly | hearly <;> exact nomatch hend.symm.trans hearly
  | choosing _ hselect => exact nomatch hend.symm.trans hselect
  | ending banker _ hbanker hlimit =>
    obtain rfl : leader = banker := Option.some.inj (hleader.symm.trans hbanker.leads)
    rw [hmoney]
    exact stakeOf_of_sound hsound (hlimit uid huid hne) hbanker.odds _ _

/-- A game in its last phase is settled without an error, along every order of its players, and pays the winners. -/
theorem settle_winnings (hphase : PhaseOdds fight) (hend : fight.roomStatus = .gameEnd)
    (hhands : ∀ uid ∈ fight.playerLst.keys, (fight.hand uid).length = 5)
    (hzero : ∀ uid ∈ fight.playerLst.keys, fight.winMoney uid = 0) (hodds : fight.roomOdds = some roomOdds)
    (hsound : SoundOdds roomOdds) {order : List ℕ} (horder : IsOrder order fight.playerLst.keys) :
    ∃ last, fight.settle order = .ok last ∧ last.Winnings := by
  have hbanker : ∃ leader, fight.Banker leader := by
    cases hphase with
    | bidding hearly => rcases hearly with hearly | hearly <;> exact nomatch hend.symm.trans hearly
    | choosing _ hselect => exact nomatch hend.symm.trans hselect
    | ending leader _ hbanker => exact ⟨leader, hbanker⟩
  obtain ⟨leader, hbanker⟩ := hbanker
  obtain ⟨room, hroom, hroomOdds⟩ := Option.bind_eq_some_iff.mp hodds
  obtain ⟨record, hrecord⟩ := Fight.mem_keys_iff.mp hbanker.plays
  obtain ⟨last, hsettle, hsettled⟩ := settle_eq_ok hroom hroomOdds hbanker.leads hrecord hhands horder
  refine ⟨last, hsettle, ?_⟩
  have hkeeps := keepsPhase_settle order fight
  have hroom := (sameTable_settle order fight).roomOdds
  rw [hsettle] at hkeeps hroom
  exact (hsettled.paid hodds hbanker.leads hrecord horder hzero).winnings (hkeeps.phaseOdds hphase)
    (hkeeps.roomStatus.trans hend) (hroom.trans hodds) hsound

/-! ### Runs -/

/-- The odds of a game that has been opened are those of its phase. -/
theorem phaseOdds_of_run (hrun : fightService.AnyRun (beforeGame fight roomInfo) configuration)
    (hstarted : Started configuration) : PhaseOdds configuration.state := by
  obtain ⟨recorded, hrecorded, hfollows⟩ :=
    recordedFight_watches.exists_anyRun (follows_beforeGame fight roomInfo) hrun
  have hgood := sound_recordedFight.good_of_run (goodPhase_recordedBeforeGame fight roomInfo) hrecorded
  rw [Started, ← points_of_follows hfollows] at hstarted
  rw [← hfollows.state]
  exact (GoodPhase.inPhase hgood hstarted).phaseOdds

/-- What holds of a game in a room of sound odds: the settlement has raised none of its errors of arithmetic, it is
computed without an error from the last phase on, and the money that is stored and shown pays the winners. -/
structure PaysWinners (updates : List MoneyUpdate) (configuration : Configuration skynet Point Fight) : Prop where
  odds : .arithmeticOnNil ∉ configuration.errors
  hands : .assertionFailed ∉ configuration.errors
  settles : Started configuration → configuration.state.roomStatus = .gameEnd →
    (∀ uid ∈ configuration.state.playerLst.keys, configuration.state.winMoney uid = 0) →
    ∀ order, IsOrder order configuration.state.playerLst.keys →
      ∃ last, configuration.state.settle order = .ok last ∧ last.Winnings
  pays : Started configuration →
    (∃ point ∈ gamePoints configuration.points, point.call.isSettling = true) ∨
      configuration.state.moneyUpdates ≠ updates → configuration.state.Winnings

theorem paysWinners_of_run (hplayers : roomInfo.playerLst.size ≤ 10) (hodds : roomInfo.roomOdds = some roomOdds)
    (hsound : SoundOdds roomOdds) (hrun : fightService.AnyRun (beforeGame fight roomInfo) configuration) :
    PaysWinners fight.moneyUpdates configuration := by
  have hgood := goodGame_of_run hplayers hrun
  obtain ⟨hnil, hroom⟩ := roomOdds_of_run hodds hrun
  refine ⟨hnil, fun hmem ↦ hgood.errors _ hmem rfl, fun hstarted hend hzero order horder ↦ ?_,
    fun hstarted hshown ↦ ?_⟩
  · have hphase := phaseOdds_of_run hrun hstarted
    cases hgood.accounted hstarted with
    | going hgoing _ => exact settle_winnings hphase hend (hgoing.dealt hend) hzero (hroom hstarted) hsound horder
    | settled _ hsettled _ => exact settle_winnings hphase hend hsettled.dealt hzero (hroom hstarted) hsound horder
  · cases hgood.accounted hstarted with
    | going hgoing hquiet =>
      rcases hshown with ⟨point, hpoint, hsettling⟩ | hstored
      · exact nomatch (hquiet point hpoint).symm.trans hsettling
      · exact absurd hgoing.unsaved hstored
    | settled _ hsettled _ =>
      obtain ⟨leader, hpaid⟩ := hsettled.paid
      exact hpaid.winnings (phaseOdds_of_run hrun hstarted) hsettled.atEnd (hroom hstarted) hsound

end SvrDemo.Douniu
