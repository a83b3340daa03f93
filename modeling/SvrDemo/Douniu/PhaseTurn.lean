import SvrDemo.Douniu.PhaseSteps

/-!
# The game keeps its phases

`onStart`, `checkStatus` and the messages keep the contract of the phases. The parts of the game that
stay within a phase are taken by their footprint, and the steps from one phase to the next by the facts
about their states.
-/

set_option autoImplicit false
set_option relaxedAutoImplicit false

namespace SvrDemo.Douniu

open Coroutine Lua Skynet

variable {handler : Handler} {current : Section skynet Point RecordedFight} {whole : RecordedFight}
  {holds : Fight → Prop}

/-! ### Messages -/

/-- The coroutine of a message in the middle of a section. -/
structure Meddling (handler : Handler) (current : Section skynet Point RecordedFight)
    (whole : RecordedFight) : Prop where
  forks : current.forks = []
  serves : current.point.handler = handler
  meddles : Meddles current.origin.1 whole.1
  record : whole.2 = current.origin.2

/-- A message may end its section and leave coroutines of its own waiting. -/
theorem Meddling.ends (h : Meddling handler current whole) (hmessage : handler.isMessage = true)
    {left : List Point} (hleft : ∀ other ∈ left, other.handler = handler) :
    phaseContract.Ends current left whole := by
  refine ⟨⟨fun _ ↦ ⟨fun other hother ↦ ?_, h.meddles, h.record⟩, fun hgame ↦ ?_⟩, ?_⟩
  · rw [hleft other hother]
    exact hmessage
  · rw [h.serves, hmessage] at hgame
    exact nomatch hgame
  · rw [h.forks]
    exact fun _ hmem ↦ nomatch hmem

theorem Meddling.done (h : Meddling handler current whole) (hmessage : handler.isMessage = true) :
    phaseContract.done () current whole :=
  h.ends hmessage (by rw [h.forks]; exact fun _ hmem ↦ nomatch hmem)

theorem steady_meddling (hmessage : handler.isMessage = true) :
    Steady (.recording handler.at phaseEntered) phaseContract (meddling concluding)
      phaseContract.raised (Meddling handler) where
  heard _ _ _ h := ⟨h.forks, h.serves, h.meddles, h.record⟩
  change current whole part hchange h := by
    refine ⟨h.forks, h.serves, h.meddles.trans hchange, ?_⟩
    have hsame : phaseEntered whole.1 part = [] := KeepsPhase.phaseEntered hchange.toKeepsPhase
    change whole.2 ++ phaseEntered whole.1 part = current.origin.2
    rw [hsame, List.append_nil]
    exact h.record
  wait call current whole hcall h := by
    have hat : handler.at call = ⟨handler, call⟩ := handler.at_of_ne hcall.2
    refine ⟨?_, fun reply later _ ↦ ⟨rfl, ?_, .refl later.1, rfl⟩⟩
    · rw [h.forks, hat]
      exact h.ends hmessage fun other hother ↦ List.mem_singleton.mp hother ▸ rfl
    · rw [hat]
  raise _ _ _ _ h := ⟨trivial, h.done hmessage⟩

/-- Every message keeps the contract. -/
theorem keepsPhase_message (hmessage : handler.isMessage = true) (reply : Answer) :
    phaseContract.Keeps (recordedFight.entry ⟨handler, .start⟩)
      ⟨⟨handler, .start⟩, whole, [reply], []⟩ whole :=
  (steady_meddling hmessage).wpIn_of
    (meddling_message ordinary_meddling_concluding
      (fun _ ↦ ⟨Call.noConfusion, Call.noConfusion⟩) hmessage)
    ⟨rfl, rfl, .refl whole.1, rfl⟩ fun _ _ _ h ↦ h.done hmessage

/-! ### Parts of the game -/

section Parts

variable (hgame : handler.isMessage = false)

include hgame in
/-- A part of a game that has not been settled stays within the phase. -/
theorem wpIn_playing {α : Type} {program : FightTask α} (hunmeddled : Unmeddled holds)
    (hplaying : ∀ fight, holds fight → Playing fight)
    (hwithin : program.Within (meddling quiet) whole.1) (h : Turn handler holds current whole) :
    program.wpIn (.recording handler.at phaseEntered) phaseContract (fun _ ↦ Turn handler holds)
      phaseContract.raised current whole :=
  (steady_playing hgame hunmeddled hplaying).wpIn hwithin h

include hgame in
/-- The same for a game in a given phase. -/
theorem wpIn_playingIn {α : Type} {program : FightTask α} {status : RoomStatus}
    (hwithin : program.Within (meddling quiet) whole.1)
    (h : Turn handler (PlayingIn status) current whole) :
    program.wpIn (.recording handler.at phaseEntered) phaseContract
      (fun _ ↦ Turn handler (PlayingIn status)) phaseContract.raised current whole :=
  wpIn_playing hgame (unmeddled_playingIn status) (fun _ h ↦ h.1) hwithin h

/-- The election begins. -/
theorem PlayingIn.asking {fight : Fight} (h : PlayingIn .ready fight) (now : ℤ) :
    PlayingIn .askLeader { fight with statusBegin := now, roomStatus := .askLeader } := by
  refine ⟨⟨?_, h.1.unpaid⟩, rfl⟩
  cases h.1.phaseOdds with
  | bidding _ leaderless odds => exact .bidding (.inr rfl) leaderless odds
  | choosing _ phase _ _ => exact nomatch h.2.symm.trans phase
  | ending _ phase _ _ => exact nomatch h.2.symm.trans phase

include hgame in
/-- `checkStatus`, before the election. -/
theorem wpIn_checkReady_phase (h : Turn handler Playing current whole) :
    checkReady.wpIn (.recording handler.at phaseEntered) phaseContract
      (fun _ ↦ Turn handler Playing) phaseContract.raised current whole := by
  unfold checkReady
  rw [Program.wpIn_bind, Program.wpIn_getState]
  split
  · rename_i hphase
    refine Program.wpIn_seq (wpIn_playingIn hgame (within_phaseEnds _ _)
      (h.imp fun hplaying ↦ ⟨hplaying, hphase⟩)) fun ends current whole h ↦ ?_
    split
    · split
      · unfold enterStatus
        rw [Program.wpIn_bind, Program.wpIn_bind]
        refine wpIn_osTime fun now ↦ ?_
        rw [Program.wpIn_modifyState]
        have hnext := h.hear (current.heard ++ [.number now])
        refine Program.wpIn_seq (wpIn_playingIn hgame
          (meddling_updateGameProcess ordinary_meddling_quiet) (hnext.step (.of_early ?_)
            (h.phased.next h.state.2 rfl RoomStatus.noConfusion rfl RoomStatus.noConfusion)
            (h.state.asking now))) fun _ current whole h ↦ h.imp And.left
        exact .inl h.state.2
      · refine Program.wpIn_seq (wpIn_playingIn hgame (within_onGameOver ordinary_meddling_quiet
          fun _ ↦ ⟨Call.noConfusion, Call.noConfusion, rfl⟩) h) fun _ current whole h ↦ ?_
        exact h.imp And.left
    · exact h.imp And.left
  · exact h

include hgame in
/-- The new banker is installed and the choice of odds begins. -/
theorem wpIn_installLeader_phase {leader : ℕ}
    (h : Turn handler (PlayingIn .askLeader) current whole)
    (hplays : leader ∈ whole.1.playerLst.keys) :
    (installLeader leader).wpIn (.recording handler.at phaseEntered) phaseContract
      (fun _ ↦ Turn handler Playing) phaseContract.raised current whole := by
  unfold installLeader
  rw [Program.wpIn_bind, Program.wpIn_modifyState, Program.wpIn_bind, Program.wpIn_getState,
    Program.wpIn_bind]
  refine wpIn_pairs fun order horder ↦ ?_
  have horder' : IsOrder order whole.1.playerLst.keys := by
    have hkeys := whole.1.keys_updatePlayer leader fun player ↦ { player with isLeader := true }
    rw [← hkeys]
    exact horder
  refine Program.wpIn_seq_at (fun _ ↦ Turn handler (Installing leader []))
    (Program.wpIn_forEach (fun rest current whole ↦ Turn handler (Installing leader rest) current whole ∧
      ∀ uid ∈ rest, uid ∈ whole.1.playerLst.keys) ?_ (fun _ _ hlast ↦ hlast.1) ⟨?_, ?_⟩)
    fun _ current whole h ↦ ?_
  · intro uid rest current whole ⟨h, hrest⟩
    rw [Program.wpIn_modifyState]
    refine ⟨h.within rfl (.of_early (.inr h.state.phase))
      (h.state.reset (hrest uid List.mem_cons_self)), fun other hother ↦ ?_⟩
    change other ∈ (whole.1.updatePlayer uid _).playerLst.keys
    rw [Fight.keys_updatePlayer]
    exact hrest other (List.mem_cons_of_mem uid hother)
  · exact (h.hear _).within rfl (.of_early (.inr h.state.2)) (h.state.installing hplays horder')
  · exact fun uid huid ↦ horder.mem_iff.mp huid
  · rw [Program.wpIn_bind, Program.wpIn_modifyState]
    refine Program.wpIn_mono (fun _ _ _ h ↦ h.imp And.left) (fun _ _ _ hraised ↦ hraised)
      (wpIn_playingIn hgame (meddling_updateGameProcess ordinary_meddling_quiet)
        (h.step (.of_early (.inr h.state.phase)) ?_ h.state.choosing))
    exact h.phased.next h.state.phase rfl RoomStatus.noConfusion rfl RoomStatus.noConfusion

include hgame in
/-- `checkStatus`, in the election phase. -/
theorem wpIn_checkAskLeader_phase (h : Turn handler Playing current whole) :
    checkAskLeader.wpIn (.recording handler.at phaseEntered) phaseContract
      (fun _ ↦ Turn handler Playing) phaseContract.raised current whole := by
  unfold checkAskLeader
  rw [Program.wpIn_bind, Program.wpIn_getState]
  split
  · rename_i hphase
    rw [Program.wpIn_bind]
    refine wpIn_pairs fun order _ ↦ ?_
    refine Program.wpIn_seq (wpIn_playingIn hgame
      (Program.within_foldlM fun marked uid _ _ ↦ meddling_markBidder marked uid)
      ((h.imp fun hplaying ↦ ⟨hplaying, hphase⟩).hear _)) fun marked current whole h ↦ ?_
    refine Program.wpIn_seq (wpIn_playingIn hgame (within_showBids ordinary_meddling_quiet _) h)
      fun _ current whole h ↦ ?_
    refine Program.wpIn_seq (wpIn_playingIn hgame (within_phaseEnds _ _) h)
      fun ends current whole h ↦ ?_
    split
    · rw [Program.wpIn_bind]
      refine wpIn_osTime fun now ↦ ?_
      rw [Program.wpIn_bind, Program.wpIn_modifyState]
      have hlater : Meddles whole.1 { whole.1 with statusBegin := now } :=
        .of_same rfl rfl rfl rfl
      have hheard : ∀ (current : Section skynet Point RecordedFight) whole heard,
          Turn handler (PlayingIn .askLeader) current whole →
            Turn handler (PlayingIn .askLeader) { current with heard := heard } whole :=
        fun _ _ heard h ↦ h.hear heard
      refine Program.wpIn_seq (wpIn_electLeader_of hheard
        ((h.hear _).meddle hlater (unmeddled_playingIn .askLeader _ _ hlater h.state)))
        fun ballot current whole h ↦ ?_
      split
      · rw [Program.wpIn_fail]
        exact h.1.raised hgame h.1.state.1.phaseOdds _
      · rename_i leader hleader
        exact wpIn_installLeader_phase hgame h.1 (h.2 leader hleader)
    · exact h.imp And.left
  · exact h

include hgame in
/-- One turn of the last deal. -/
theorem wpIn_dealLastCard_phase {uid : ℕ} {rest : List ℕ} (notifyUserLst : List ℕ)
    (h : Turn handler (Choosing (uid :: rest)) current whole) :
    (dealLastCard notifyUserLst uid).wpIn (.recording handler.at phaseEntered) phaseContract
      (fun _ ↦ Turn handler (Choosing rest)) phaseContract.raised current whole := by
  unfold dealLastCard
  rw [Program.wpIn_bind, Program.wpIn_getState]
  split
  · rename_i player hplayer
    refine Program.wpIn_seq_at (fun _ ↦ Turn handler (Choosing rest)) ?_ fun _ current whole h ↦ ?_
    · unfold chooseDefault
      split
      · rename_i hunset
        rw [Program.wpIn_modifyState]
        have hmeddles := Meddles.of_chooses (h.state.chooses hplayer hunset)
        refine h.meddle hmeddles ((unmeddled_choosing _ _ _ hmeddles h.state).tail ?_)
        have hplayer' : whole.1.getPlayer uid = some player := hplayer
        simp [Fight.odds, hplayer']
      · rename_i hset
        exact h.imp fun hchoosing ↦ hchoosing.tail
          (hchoosing.odds_ne_zero hplayer (by simpa using hset))
    · exact Program.wpIn_seq (wpIn_playing hgame (unmeddled_choosing rest) (fun _ h ↦ h.playing.1)
        (meddling_getCardFromCardLst ordinary_meddling_quiet uid 1) h) fun _ _ _ h ↦ h
  · rename_i hnone
    refine h.imp fun hchoosing ↦ ⟨hchoosing.playing, fun other hother hrest ↦ ?_⟩
    obtain ⟨player, hplayer⟩ := Fight.mem_keys_iff.mp hother
    refine hchoosing.chosen other hother fun hmem ↦ ?_
    rcases List.mem_cons.mp hmem with rfl | hmem
    · cases hnone.symm.trans hplayer
    · exact hrest hmem

include hgame in
/-- `checkStatus`, in the phase that selects the odds. -/
theorem wpIn_checkSelectOdds_phase (h : Turn handler Playing current whole) :
    checkSelectOdds.wpIn (.recording handler.at phaseEntered) phaseContract
      (fun _ ↦ Turn handler Playing) phaseContract.raised current whole := by
  unfold checkSelectOdds
  rw [Program.wpIn_bind, Program.wpIn_getState]
  split
  · rename_i hphase
    refine Program.wpIn_seq (wpIn_playingIn hgame (within_phaseEnds _ _)
      (h.imp fun hplaying ↦ ⟨hplaying, hphase⟩)) fun ends current whole h ↦ ?_
    split
    · rw [Program.wpIn_bind, Program.wpIn_getState, Program.wpIn_bind]
      refine wpIn_pairs fun order horder ↦ ?_
      refine Program.wpIn_seq_at (fun _ ↦ Turn handler (Choosing [])) (Program.wpIn_foldlM
        (fun rest _ ↦ Turn handler (Choosing rest))
        (fun uid rest notifyUserLst current whole h ↦ wpIn_dealLastCard_phase hgame notifyUserLst h)
        (fun _ _ _ hlast ↦ hlast) ((h.hear _).imp fun hplaying ↦ ⟨hplaying, fun uid huid hrest ↦ ?_⟩))
        fun notifyUserLst current whole h ↦ ?_
      · exact absurd (horder.mem_iff.mpr huid) hrest
      refine Program.wpIn_seq (wpIn_playing hgame (unmeddled_choosing []) (fun _ h ↦ h.playing.1)
        (within_sendUserOdds ordinary_meddling_quiet _) h) fun _ current whole h ↦ ?_
      unfold enterStatus
      rw [Program.wpIn_bind, Program.wpIn_bind]
      refine wpIn_osTime fun now ↦ ?_
      rw [Program.wpIn_modifyState]
      have hnext := h.hear (current.heard ++ [.number now])
      refine Program.wpIn_mono (fun _ _ _ h ↦ h.imp And.left) (fun _ _ _ hraised ↦ hraised)
        (wpIn_playingIn hgame (meddling_updateGameProcess ordinary_meddling_quiet)
          (hnext.step (fun _ ↦ ⟨.inr rfl, rfl, fun _ _ ↦ rfl⟩) ?_ (h.state.ending now)))
      exact h.phased.next h.state.playing.2 rfl RoomStatus.noConfusion rfl RoomStatus.noConfusion
    · exact h.imp And.left
  · exact h

include hgame in
/-- `checkStatus`, in the last phase: the game is ready for another turn, or it is over. -/
theorem wpIn_checkGameEnd_phase (h : Turn handler Playing current whole) :
    checkGameEnd.wpIn (.recording handler.at phaseEntered) phaseContract
      (fun goesOn current whole ↦ Turn handler (fun fight ↦
        if goesOn then Playing fight else PhaseOdds fight) current whole)
      phaseContract.raised current whole := by
  unfold checkGameEnd
  rw [Program.wpIn_bind, Program.wpIn_getState]
  split
  · rename_i hphase
    refine Program.wpIn_seq (wpIn_playingIn hgame (within_phaseEnds _ _)
      (h.imp fun hplaying ↦ ⟨hplaying, hphase⟩)) fun ends current whole h ↦ ?_
    split
    · rw [Program.wpIn_bind, Program.wpIn_getState, Program.wpIn_bind]
      refine wpIn_pairs fun order horder ↦ ?_
      have h := h.hear (current.heard ++ [.order order])
      rw [Program.wpIn_bind, Program.wpIn_tryModify]
      have hkeeps := keepsPhase_settle order whole.1
      refine ⟨fun last hok ↦ ?_, fun error last herror ↦ ?_⟩
      · rw [show whole.1.settle order = .ok last from hok] at hkeeps
        have hconcluded := h.state.concluded horder hok
        refine Program.wpIn_seq ((steady_concluded hgame).wpIn (meddling_saveResults
          fun _ _ _ ↦ ⟨Call.noConfusion, Call.noConfusion⟩)
          (h.within hkeeps.roomStatus hkeeps.keepsBanker hconcluded))
          fun result current whole h ↦ ?_
        refine Program.wpIn_seq ((steady_concluded hgame).wpIn (within_showResult
          ordinary_meddling_concluding (fun _ _ ↦ ⟨Call.noConfusion, Call.noConfusion⟩)
          (fun _ ↦ ⟨Call.noConfusion, Call.noConfusion⟩) result) h) fun _ current whole h ↦ ?_
        exact h.imp Concluded.phaseOdds
      · rw [show whole.1.settle order = .error (error, last) from herror] at hkeeps
        have hlast : PhaseOdds last := hkeeps.phaseOdds h.state.1.phaseOdds
        have hturn : Turn handler PhaseOdds _ (last, whole.2 ++ phaseEntered whole.1 last) :=
          h.within hkeeps.roomStatus hkeeps.keepsBanker hlast
        exact hturn.raised hgame hlast error
    · exact h.imp And.left
  · exact h

/-! ### Turns -/

include hgame in
/-- A turn of `checkStatus` keeps the contract: it ends with the timer for the next turn, or the game
is over. -/
theorem wpIn_checkStatus_phase (h : Turn handler Playing current whole) :
    checkStatus.wpIn (.recording handler.at phaseEntered) phaseContract phaseContract.done
      phaseContract.raised current whole := by
  unfold checkStatus
  refine Program.wpIn_seq (wpIn_checkReady_phase hgame h) fun goesOn current whole h ↦ ?_
  split
  · refine Program.wpIn_seq (wpIn_checkAskLeader_phase hgame h) fun _ current whole h ↦ ?_
    refine Program.wpIn_seq (wpIn_checkSelectOdds_phase hgame h) fun _ current whole h ↦ ?_
    refine Program.wpIn_seq (wpIn_checkGameEnd_phase hgame h) fun goesOn current whole h ↦ ?_
    split
    · rename_i hgoesOn
      have h : Turn handler Playing current whole := h.imp fun hplaying ↦ by
        rwa [if_pos hgoesOn] at hplaying
      rw [Program.wpIn_spawn]
      -- the section ends with the next turn of `checkStatus` waiting for its timer
      refine ⟨⟨fun hmessage ↦ ?_, fun _ ↦ ⟨⟨h.phased, h.state.phaseOdds, ?_⟩, ?_, ?_, h.keepsBanker⟩⟩, ?_⟩
      · rw [h.serves, hgame] at hmessage
        exact nomatch hmessage
      · rw [h.forks]
        rintro ⟨point, hpoint, hsettling⟩
        obtain rfl := List.mem_singleton.mp hpoint
        exact nomatch hsettling
      · simp [h.forks]
      · rw [h.forks]
        exact fun other hother ↦ List.mem_singleton.mp hother ▸ ⟨rfl, rfl⟩
      · rw [h.forks]
        exact fun point hpoint ↦ List.mem_singleton.mp hpoint ▸ ⟨h.state, h.phased⟩
    · rename_i hover
      have hodds : PhaseOdds whole.1 := by
        have hstate := h.state
        rwa [if_neg hover] at hstate
      exact h.done hgame hodds
  · exact h.done hgame h.state.phaseOdds

/-- `onStart` keeps the contract. -/
theorem wpIn_onStart_phase {roomInfo : RoomInfo} {heard : List Answer} (hrecord : whole.2 = []) :
    (onStart roomInfo).wpIn (.recording (Handler.onStart roomInfo).at phaseEntered) phaseContract
      phaseContract.done phaseContract.raised
      ⟨⟨.onStart roomInfo, .start⟩, whole, heard, []⟩ whole := by
  have hgame : (Handler.onStart roomInfo).isMessage = false := rfl
  obtain ⟨fight, record⟩ := whole
  obtain rfl : record = [] := hrecord
  unfold onStart
  rw [Program.wpIn_bind]
  refine wpIn_pairs fun order _ ↦ ?_
  rw [Program.wpIn_bind]
  refine wpIn_osTime fun now ↦ ?_
  rw [Program.wpIn_bind, Program.wpIn_modifyState]
  refine Program.wpIn_seq (wpIn_playing hgame unmeddled_playing (fun _ h ↦ h)
    (meddling_updateGameProcess ordinary_meddling_quiet)
    ⟨rfl, rfl, (fun hopens ↦ nomatch hopens), phased_newGame fight roomInfo order now,
      playing_newGame fight roomInfo order now⟩) fun _ current whole h ↦ ?_
  refine Program.wpIn_seq (wpIn_playing hgame unmeddled_playing (fun _ h ↦ h)
    (within_call ⟨Call.noConfusion, Call.noConfusion, rfl⟩ trivial) h) fun _ current whole h ↦ ?_
  refine Program.wpIn_seq (wpIn_playing hgame unmeddled_playing (fun _ h ↦ h)
    (meddling_onShuffle ordinary_meddling_quiet) h) fun _ current whole h ↦ ?_
  exact wpIn_checkStatus_phase hgame h

end Parts

/-- Every coroutine keeps the contract. -/
theorem keepsPhase_entry {reply : Answer} {point : Point} (hstart : startsPhase point whole) :
    phaseContract.Keeps (recordedFight.entry point) ⟨point, whole, [reply], []⟩ whole := by
  obtain ⟨handler, call⟩ := point
  cases call with
  | start =>
    cases handler with
    | onStart roomInfo => exact wpIn_onStart_phase hstart
    | checkStatus =>
      exact wpIn_checkStatus_phase rfl ⟨rfl, rfl, fun _ ↦ .refl whole.1, hstart.2, hstart.1⟩
    | onGetLeader uid odds => exact keepsPhase_message rfl reply
    | onSetOdds uid odds => exact keepsPhase_message rfl reply
    | onPackCard uid retCardLst => exact keepsPhase_message rfl reply
    | onKickOut uid => exact keepsPhase_message rfl reply
  | _ => cases handler <;> exact hstart.elim

end SvrDemo.Douniu
