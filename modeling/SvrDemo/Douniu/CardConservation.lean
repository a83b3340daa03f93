import SvrDemo.Douniu.GameRuns

/-!
# Cards are conserved

Over a whole game, with every shuffle, every traversal of the players and every interleaving of
messages, the deck and the hands together are the cards from one to fifty-two. In the last phase
every hand has five cards, and the assertion of `parse_card_info` never fails.
-/

set_option autoImplicit false
set_option relaxedAutoImplicit false

namespace SvrDemo.Douniu

open Coroutine Lua Skynet

variable {updates : List MoneyUpdate} {fight : Fight} {left : List Point}

/-- A game that is accounted for has all its cards. -/
theorem Accounted.conserved (h : Accounted updates fight left) : fight.Conserved := by
  cases h with
  | going hgoing _ => exact hgoing.conserved
  | settled _ hsettled _ => exact hsettled.conserved

/-- In the last phase everybody holds five cards. -/
theorem Accounted.dealt (h : Accounted updates fight left) (hend : fight.roomStatus = .gameEnd) :
    ∀ uid ∈ fight.playerLst.keys, (fight.hand uid).length = 5 := by
  cases h with
  | going hgoing _ => exact hgoing.dealt hend
  | settled _ hsettled _ => exact hsettled.dealt

/-- Cards are conserved. In every configuration that a game of at most ten players reaches, the deck
together with all hands is a permutation of the cards one to fifty-two, no card is in two hands or
twice in one, in the last phase every hand has five cards, and no coroutine has failed at the
assertion of `parse_card_info`. -/
theorem cards_conserved (fight : Fight) (roomInfo : RoomInfo)
    (hplayers : roomInfo.playerLst.size ≤ 10) (configuration : Configuration skynet Point Fight)
    (hrun : fightService.AnyRun (beforeGame fight roomInfo) configuration)
    (hstarted : Started configuration) :
    (configuration.state.cardLst : Multiset ℤ) +
        ∑ uid ∈ configuration.state.playerLst.keys, (configuration.state.hand uid : Multiset ℤ) =
      (List.range' 1 52).map Int.ofNat ∧
    (∀ uid ∈ configuration.state.playerLst.keys, (configuration.state.hand uid).Nodup ∧
      ∀ other ∈ configuration.state.playerLst.keys, uid ≠ other →
        (configuration.state.hand uid).Disjoint (configuration.state.hand other)) ∧
    (configuration.state.roomStatus = .gameEnd →
      ∀ uid ∈ configuration.state.playerLst.keys, (configuration.state.hand uid).length = 5) ∧
    LuaError.assertionFailed ∉ configuration.errors := by
  have hgood := goodGame_of_run hplayers hrun
  have haccounted := hgood.accounted hstarted
  have hconserved := haccounted.conserved
  refine ⟨hconserved, fun uid huid ↦ ⟨hconserved.nodup_hand huid, fun other hother hne ↦ ?_⟩,
    haccounted.dealt, fun hfailed ↦ hgood.errors _ hfailed rfl⟩
  exact hconserved.disjoint_hand huid hother hne

/-- In the game of two players the cards are conserved up to the last deal. -/
theorem cards_conserved_pair : ∃ configuration,
    fightService.AnyRun (beforeGame idleFight pairRoom) configuration ∧
      (configuration.state.hand 2).length = 5 ∧
      (configuration.state.cardLst : Multiset ℤ) + ∑ uid ∈ configuration.state.playerLst.keys,
        (configuration.state.hand uid : Multiset ℤ) = (List.range' 1 52).map Int.ofNat := by
  obtain ⟨configuration, hrun, hvalue⟩ := System.exists_run_of_playAll fightService
    (beforeGame idleFight pairRoom) untilLastDeal
    (fun configuration ↦ ((configuration.state.hand 2).length,
      configuration.points.all fun point ↦ !point.opensGame))
    (show _ = some (5, true) by decide +kernel)
  have hstarted : Started configuration := by
    simpa [Started] using congrArg Prod.snd hvalue
  exact ⟨configuration, hrun, congrArg Prod.fst hvalue,
    (cards_conserved idleFight pairRoom (by decide) configuration hrun hstarted).1⟩

end SvrDemo.Douniu
