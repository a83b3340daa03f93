import SvrDemo.Douniu.Fight

/-!
# What the programs of a fight touch

The programs that send packages wait for the agents they send to and leave the game alone:
`update_game_process` writes the phase into the copy of the room, and the others write nothing. The
lemmas of this file place them, the messages and the steps of `checkStatus` within any footprint
that allows what they do.
-/

set_option autoImplicit false
set_option relaxedAutoImplicit false

namespace SvrDemo.Douniu

open Coroutine Lua Skynet

/-- The footprints that allow what every program of a fight may do: its calls and its traversals may raise, it may
find a variable nil, and it may send packages other than the result of the game. -/
structure Ordinary (F : Footprint skynet Call Fight) : Prop where
  callFailed : F.raises .callFailed
  indexNil : F.raises .indexNil
  invalidKey : F.raises .invalidKey
  sends : ∀ agent package, package.isResult = false → F.waits (.sendPackCli agent package)

variable {F : Footprint skynet Call Fight} {fight : Fight}

/-! ### Sending -/

theorem within_getRoom_bind (hF : Ordinary F) {β : Type} {rest : RoomInfo → FightTask β}
    (hrest : ∀ room, fight.room = some room → (rest room).Within F fight) :
    (getRoom >>= rest).Within F fight := by
  unfold getRoom
  change (Program.bind (Program.bind _ _) _).Within F fight
  rw [Program.bind_assoc]
  refine (Program.within_getState_bind _).mpr ?_
  cases hroom : fight.room with
  | none => exact hF.indexNil
  | some room => exact hrest room hroom

theorem within_sendPackCli (hF : Ordinary F) {agent : Option ℕ} {package : Package}
    (hpackage : package.isResult = false) : (sendPackCli agent package).Within F fight := by
  cases agent with
  | none => exact hF.indexNil
  | some agent => exact within_call (hF.sends agent package hpackage) hF.callFailed

theorem within_broadcastRoomPlayer (hF : Ordinary F) {package : Package}
    (hsend : ∀ agent, F.waits (.sendPackCli agent package)) :
    (broadcastRoomPlayer package).Within F fight := by
  unfold broadcastRoomPlayer
  refine within_getRoom_bind hF fun room _ ↦ within_traverse (fun key player later _ ↦ ?_) hF.invalidKey
  cases player.agent with
  | none => exact Program.within_pure ()
  | some agent => exact within_call (hsend agent) hF.callFailed

theorem within_sendUserOdds (hF : Ordinary F) (uidLst : List ℕ) :
    (sendUserOdds uidLst).Within F fight := by
  unfold sendUserOdds
  refine Program.within_forEach fun uid _ later ↦ (Program.within_getState_bind _).mpr ?_
  split
  · exact within_broadcastRoomPlayer hF fun agent ↦ hF.sends agent _ rfl
  · exact Program.within_pure ()

/-- `update_game_process` writes the phase into the copy of the room. -/
theorem within_updateGameProcess (hF : Ordinary F)
    (hroom : ∀ room, fight.room = some room →
      F.changes fight { fight with room := some { room with status := fight.roomStatus.code } }) :
    updateGameProcess.Within F fight := by
  unfold updateGameProcess
  refine (Program.within_getState_bind _).mpr (within_getRoom_bind hF fun room hlookup ↦ ?_)
  refine (Program.within_modifyState_bind _ _).mpr ⟨hroom room hlookup, ?_⟩
  refine Program.within_bind (within_pairs _) fun order _ ↦ ?_
  refine Program.within_forEach fun uid _ later ↦ (Program.within_getState_bind _).mpr ?_
  refine within_getRoom_bind hF fun room _ ↦ ?_
  split
  · exact within_sendPackCli hF rfl
  · exact Program.within_pure ()

theorem within_sendPerflop (hF : Ordinary F) (uid : ℕ) (retCardLst : List ℤ) :
    (sendPerflop uid retCardLst).Within F fight := by
  unfold sendPerflop
  refine within_getRoom_bind hF fun room _ ↦ ?_
  split
  · exact within_call (hF.sends _ _ rfl) hF.callFailed
  · exact Program.within_pure ()

/-- `onGameOver` only reports to the lobby. -/
theorem within_onGameOver (hF : Ordinary F) (hunlock : ∀ roomId, F.waits (.unlockRoom roomId)) :
    onGameOver.Within F fight :=
  within_getRoom_bind hF fun _ _ ↦ within_call (hunlock _) hF.callFailed

theorem within_showResult (hF : Ordinary F) (hsend : ∀ agent package, F.waits (.sendPackCli agent package))
    (hunlock : ∀ roomId, F.waits (.unlockRoom roomId)) (result : List PlayerResult) :
    (showResult result).Within F fight := by
  unfold showResult
  refine within_getRoom_bind hF fun room _ ↦ Program.within_bind
    (within_broadcastRoomPlayer hF fun agent ↦ hsend agent _) fun _ _ ↦ ?_
  exact within_onGameOver hF hunlock

theorem within_phaseEnds (early : Bool) (status : RoomStatus) :
    (phaseEnds early status).Within F fight := by
  unfold phaseEnds
  split
  · exact Program.within_pure true
  · exact Program.within_bind within_osTime fun now later ↦
      (Program.within_getState_bind _).mpr (Program.within_pure _)

/-- The loop that looks for new bids only marks players. -/
theorem within_markBidder (marked : List ℕ × Bool) (uid : ℕ)
    (hmark : F.changes fight
      (fight.updatePlayer uid fun player ↦ { player with sendUserOdds := true })) :
    (markBidder marked uid).Within F fight := by
  unfold markBidder
  refine (Program.within_getState_bind _).mpr ?_
  split
  · split
    · exact (Program.within_modifyState_bind _ _).mpr ⟨hmark, Program.within_pure _⟩
    · exact Program.within_pure _
  · exact Program.within_pure _

theorem within_showBids (hF : Ordinary F) (notifyUserLst : List ℕ) :
    (showBids notifyUserLst).Within F fight := by
  unfold showBids
  split
  · exact within_sendUserOdds hF notifyUserLst
  · exact Program.within_pure ()

theorem within_voteFor (ballot : Ballot) (uid : ℕ) (odds : ℤ) :
    (voteFor ballot uid odds).Within F fight := by
  unfold voteFor
  split
  · refine Program.within_bind (within_mathRandom 100) fun rankNum later ↦ ?_
    split
    · exact Program.within_pure _
    · split
      · exact Program.within_pure _
      · exact Program.within_pure _
  · exact Program.within_pure ballot

/-! ### The election -/

/-- The votes name a player of the game. The election asks for dice and touches nothing, so it keeps
every assertion that does not depend on what the coroutine has heard. -/
theorem wpIn_electLeader_of {P' τ : Type} {E : Embedding skynet Call Fight P' τ}
    {K : Contract skynet P' τ} {raised : LuaError → Section skynet P' τ → τ → Prop}
    {inv : Section skynet P' τ → τ → Prop}
    (hheard : ∀ current whole heard, inv current whole → inv { current with heard := heard } whole)
    {current : Section skynet P' τ} {whole : τ} (h : inv current whole) :
    electLeader.wpIn E K (fun ballot current whole ↦ inv current whole ∧
      ∀ leader, ballot.leader = some leader → leader ∈ (E.get whole).playerLst.keys)
      raised current whole := by
  unfold electLeader
  rw [Program.wpIn_bind, Program.wpIn_getState, Program.wpIn_bind]
  refine wpIn_pairs fun order horder ↦ ?_
  refine Program.wpIn_foldlM (fun rest (ballot : Ballot) current whole ↦
      (inv current whole ∧
        ∀ leader, ballot.leader = some leader → leader ∈ (E.get whole).playerLst.keys) ∧
      ∀ uid ∈ rest, uid ∈ (E.get whole).playerLst.keys) ?_ (fun _ _ _ hlast ↦ hlast.1)
    ⟨⟨hheard _ _ _ h, (fun _ hleader ↦ nomatch hleader)⟩, fun _ huid ↦ horder.mem_iff.mp huid⟩
  intro uid rest ballot current whole ⟨⟨h, hballot⟩, hrest⟩
  have htail : ∀ other ∈ rest, other ∈ (E.get whole).playerLst.keys := fun other hother ↦
    hrest other (List.mem_cons_of_mem uid hother)
  have hnew : ∀ leader, some uid = some leader → leader ∈ (E.get whole).playerLst.keys :=
    fun leader heq ↦ Option.some.inj heq ▸ hrest uid List.mem_cons_self
  rw [Program.wpIn_bind, Program.wpIn_getState]
  unfold voteFor
  split
  · refine (Program.wpIn_bind _ _ _ _ _ _).mpr (wpIn_mathRandom fun rankNum _ _ ↦ ?_)
    have h := hheard current whole (current.heard ++ [.number rankNum]) h
    split
    · exact ⟨⟨h, hnew⟩, htail⟩
    · split
      · exact ⟨⟨h, hnew⟩, htail⟩
      · exact ⟨⟨h, hballot⟩, htail⟩
  · exact ⟨⟨h, hballot⟩, htail⟩

end SvrDemo.Douniu
