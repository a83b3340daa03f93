import SvrDemo.Douniu.GameRuns

/-!
# Stakes and the last card

`checkStatus` deals the last card to one player after the other and waits for each of them, while the
phase still reads `select_odds`. In this time `onSetOdds` goes on accepting odds, also from a player
who has seen his fifth card. `FreezesStakes` is the condition that no such choice is handled, and it
is what separates the runs: under it a player with five cards keeps his odds to the settlement, and
without it the run of `late_choice_changes_odds` changes them.
-/

set_option autoImplicit false
set_option relaxedAutoImplicit false

namespace SvrDemo.Douniu

open Coroutine Lua Skynet

variable {updates : List MoneyUpdate} {fight : Fight}

/-- A move does not let a player with five cards change his odds: it does not take up an `onSetOdds`
that is accepted, comes from such a player, and differs from his odds. -/
def FreezesStakes (configuration : Configuration skynet Point Fight) : Move skynet Point → Prop
  | .arrive _ => True
  | .resume index _ _ => ∀ uid odds,
    configuration.points[index]? = some ⟨.onSetOdds uid (some odds), .start⟩ →
      configuration.state.acceptsOdds uid odds → (configuration.state.hand uid).length = 5 →
        configuration.state.odds uid = odds

/-- A message freezes the players with five cards, unless it is such a choice. -/
theorem Handler.frozen_effect (handler : Handler)
    (hearly : fight.roomStatus = .askLeader → ∀ uid, (fight.hand uid).length ≠ 5)
    (hchoice : ∀ uid odds, handler = .onSetOdds uid (some odds) → fight.acceptsOdds uid odds →
      (fight.hand uid).length = 5 → fight.odds uid = odds) :
    Frozen fight (handler.effect fight) := by
  unfold Handler.effect
  split
  · split_ifs with haccepts
    · exact .of_ne (hearly haccepts.1)
    · exact .refl fight
  · rename_i uid odds
    split_ifs with haccepts
    · have hinterferes : Interferes fight
          (fight.updatePlayer uid fun player ↦ { player with odds := odds }) :=
        .of_updatePlayer (fun _ ↦ rfl) (fun _ ↦ rfl) fun _ hselect ↦ absurd (by
          have hconsiders := haccepts.1
          simp only [Fight.considersOdds, decide_eq_true_eq] at hconsiders
          exact hconsiders.1) hselect
      intro other hfive
      refine ⟨hinterferes.hand other, ?_⟩
      by_cases hother : other = uid
      · -- the player chooses the odds he already has
        subst hother
        have hsame := hchoice other odds rfl haccepts hfive
        have hplays : other ∈ fight.playerLst.keys := by
          have hconsiders := haccepts.1
          simp only [Fight.considersOdds, decide_eq_true_eq] at hconsiders
          exact hconsiders.2.1
        obtain ⟨player, hplayer⟩ := Fight.mem_keys_iff.mp hplays
        rw [hsame, Fight.odds, Fight.getPlayer_updatePlayer, if_pos rfl, hplayer]
        rfl
      · exact Fight.odds_updatePlayer_of_ne _ hother
    · exact .refl fight
  · exact .of_updatePlayer (fun _ ↦ rfl) fun _ ↦ rfl
  · exact .of_same (fun _ ↦ rfl) fun _ ↦ rfl
  · exact .refl fight

/-- In the election phase nobody holds five cards. -/
theorem Accounted.length_hand_ne_five {left : List Point} (h : Accounted updates fight left)
    (hphase : fight.roomStatus = .askLeader) (uid : ℕ) : (fight.hand uid).length ≠ 5 := by
  cases h with
  | going hgoing _ =>
    have hfew := hgoing.early (by simp [hphase]) (by simp [hphase]) uid
    omega
  | settled _ hsettled _ => exact nomatch hphase.symm.trans hsettled.atEnd

/-- One move of a game that has been opened freezes the players with five cards. -/
theorem GoodGame.frozen_of_play {first last : Configuration skynet Point Fight}
    {move : Move skynet Point} (h : GoodGame updates first) (hstarted : Started first)
    (hmeets : FreezesStakes first move) (hplay : fightService.play first move = some last) :
    Frozen first.state last.state := by
  cases move with
  | arrive point =>
    simp only [System.play] at hplay
    split_ifs at hplay
    obtain rfl := Option.some.inj hplay
    exact .refl first.state
  | resume index reply answers =>
    obtain ⟨before, point, after, left, hpoints, hindex, -, hguar⟩ :=
      (sound_fightService updates).section_of_play h hplay
    have hpoint : first.points[index]? = some point := by
      rw [hpoints, ← hindex, List.getElem?_append_right (le_refl _), Nat.sub_self]
      rfl
    cases hkind : point.handler.isMessage with
    | true =>
      rw [(hguar.1 hkind).effect]
      split_ifs with hstart
      · refine point.handler.frozen_effect (h.accounted hstarted).length_hand_ne_five ?_
        intro uid odds hhandler
        refine hmeets uid odds ?_
        rw [hpoint, ← hhandler, ← hstart]
      · exact .refl first.state
    | false =>
      have hopened := hstarted point (by rw [hpoints]; exact List.mem_append_right _ List.mem_cons_self)
      exact (hguar.2 hkind).frozen hopened

/-- A run of such moves freezes the players with five cards. -/
theorem GoodGame.frozen_of_run {first last : Configuration skynet Point Fight}
    (h : GoodGame updates first) (hstarted : Started first)
    (hrun : fightService.Run FreezesStakes first last) :
    Frozen first.state last.state ∧ GoodGame updates last ∧ Started last := by
  induction hrun with
  | refl => exact ⟨.refl _, h, hstarted⟩
  | snoc _ hmeets hplay ih =>
    obtain ⟨hfrozen, hgood, hopened⟩ := ih
    exact ⟨hfrozen.trans (hgood.frozen_of_play hopened hmeets hplay),
      (sound_fightService updates).good_of_play hgood trivial hplay,
      hgood.started_of_play hopened hplay⟩

/-- Stakes are frozen by the last card in every run that takes up no late choice of odds. From a
configuration on in which a player holds five cards, his odds do not change, and once the result is
being stored or shown, the money he has won against the banker is the stake at these odds. -/
theorem stakes_frozen (fight : Fight) (roomInfo : RoomInfo) (hplayers : roomInfo.playerLst.size ≤ 10)
    (dealt last : Configuration skynet Point Fight)
    (hrun : fightService.AnyRun (beforeGame fight roomInfo) dealt) (hstarted : Started dealt)
    (hlater : fightService.Run FreezesStakes dealt last) (uid : ℕ)
    (hfive : (dealt.state.hand uid).length = 5) :
    last.state.odds uid = dealt.state.odds uid ∧
      ∀ point ∈ last.points, point.handler.isMessage = false → point.call.isSettling = true →
        ∃ leaderUid roomOdds, last.state.roomLeader = some leaderUid ∧
          (uid ≠ leaderUid → last.state.roomOdds = some roomOdds ∧ last.state.winMoney uid =
            stakeOf roomOdds (dealt.state.odds uid) (last.state.odds leaderUid)
              (dealt.state.hand uid) (last.state.hand leaderUid)) := by
  obtain ⟨hfrozen, hgood, hopened⟩ := (goodGame_of_run hplayers hrun).frozen_of_run hstarted hlater
  obtain ⟨hhand, hodds⟩ := hfrozen uid hfive
  refine ⟨hodds, fun point hpoint hgame hsettling ↦ ?_⟩
  have hplays : uid ∈ last.state.playerLst.keys := by
    by_contra hout
    have hnone : last.state.getPlayer uid = none := by
      cases hplayer : last.state.getPlayer uid with
      | none => rfl
      | some player => exact absurd (Fight.mem_keys_iff.mpr ⟨player, hplayer⟩) hout
    have hempty : last.state.hand uid = [] := by simp [Fight.hand, hnone]
    rw [← hhand, hempty] at hfive
    cases hfive
  cases hgood.accounted hopened with
  | going _ hquiet =>
    have hnot := hquiet point (mem_gamePoints.mpr ⟨hpoint, hgame⟩)
    cases hnot.symm.trans hsettling
  | settled calls hsettled _ =>
    obtain ⟨leaderUid, hpaid⟩ := hsettled.paid
    by_cases hne : uid = leaderUid
    · exact ⟨leaderUid, 0, hpaid.leader, fun hother ↦ absurd hne hother⟩
    · obtain ⟨roomOdds, hroomOdds, hstake⟩ := hpaid.opponent uid hplays hne
      refine ⟨leaderUid, roomOdds, hpaid.leader, fun _ ↦ ⟨hroomOdds, ?_⟩⟩
      rw [hstake, hodds, hhand]

/-- In the game of two players, player 2 keeps odds five from his last card to the settlement. -/
theorem stakes_frozen_pair : ∃ dealt last : Configuration skynet Point Fight,
    fightService.Run FreezesStakes dealt last ∧ (dealt.state.hand 2).length = 5 ∧
      dealt.state.odds 2 = 5 ∧ last.state.odds 2 = 5 := by
  obtain ⟨dealt, hrun, hvalue⟩ := System.exists_run_of_playAll fightService
    (beforeGame idleFight pairRoom) untilLastDeal
    (fun configuration ↦ ((configuration.state.hand 2).length, configuration.state.odds 2,
      configuration.points.all fun point ↦ !point.opensGame))
    (show _ = some (5, 5, true) by decide +kernel)
  have hfive : (dealt.state.hand 2).length = 5 := congrArg Prod.fst hvalue
  have hodds : dealt.state.odds 2 = 5 := congrArg (fun value ↦ value.2.1) hvalue
  have hstarted : Started dealt := by
    simpa [Started] using congrArg (fun value ↦ value.2.2) hvalue
  refine ⟨dealt, dealt, .refl dealt, hfive, hodds, ?_⟩
  exact (stakes_frozen idleFight pairRoom (by decide) dealt dealt hrun hstarted (.refl dealt) 2
    hfive).1.trans hodds

/-- A late choice: player 2 has been dealt his fifth card with odds five, the service waits for his
agent, and his `onSetOdds` for twenty-five is handled. -/
theorem late_choice_changes_odds : ∃ dealt last : Configuration skynet Point Fight,
    fightService.AnyRun (beforeGame idleFight pairRoom) dealt ∧ Started dealt ∧
      fightService.AnyRun dealt last ∧ (dealt.state.hand 2).length = 5 ∧
      dealt.state.odds 2 = 5 ∧ last.state.odds 2 = 25 := by
  have hplays : ((fightService.playAll (beforeGame idleFight pairRoom) untilLastDeal).bind
      fun dealt ↦ (fightService.playAll dealt
        [.arrive ⟨.onSetOdds 2 (some 25), .start⟩, .resume 1 .ok [.order [1, 2]]]).map fun last ↦
          ((dealt.state.hand 2).length, dealt.state.odds 2, last.state.odds 2,
            dealt.points.all fun point ↦ !point.opensGame)) = some (5, 5, 25, true) := by
    decide +kernel
  obtain ⟨dealt, hdealt, hrest⟩ := Option.bind_eq_some_iff.mp hplays
  obtain ⟨last, hlast, hvalue⟩ := Option.map_eq_some_iff.mp hrest
  refine ⟨dealt, last, System.run_of_playAll _ _ hdealt, ?_, System.run_of_playAll _ _ hlast,
    congrArg Prod.fst hvalue, congrArg (fun value ↦ value.2.1) hvalue,
    congrArg (fun value ↦ value.2.2.1) hvalue⟩
  simpa [Started] using congrArg (fun value ↦ value.2.2.2) hvalue

end SvrDemo.Douniu
