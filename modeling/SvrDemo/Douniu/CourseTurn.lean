import SvrDemo.Douniu.CourseContract

/-!
# The game keeps its course

`onStart` and `checkStatus` keep the contract of the traced service. `Turning` is the assertion of a turn
of `checkStatus` that has gone through the phases up to a number: the game is ready and under way, it is
within the limit of its phase, and if the turn has already been in this phase, the phase has room for
another turn. `wpTr_phaseEnds` is where the clock decides.
-/

set_option autoImplicit false
set_option relaxedAutoImplicit false

namespace SvrDemo.Douniu

open Coroutine Lua Skynet

variable {smooth : Prop} {updates : List MoneyUpdate} {handler : Handler} {whole : TimedFight}
  {current : Section skynet Point TimedFight}

/-! ### The assertions of a turn -/

theorem Underway.of_same {last : TimedFight} (h : Underway smooth whole)
    (hroom : last.1.room = whole.1.room) (hodds : ∀ uid, last.1.odds uid = whole.1.odds uid)
    (hphase : last.1.roomStatus ≠ .idle)
    (henough : last.1.roomStatus ≠ .ready → 2 ≤ last.1.playerLst.keys.card)
    (hmax : ∀ uid, last.1.maxCard uid = whole.1.maxCard uid) (hsaved : last.2.saved = whole.2.saved)
    (hovers : last.2.overs = whole.2.overs) : Underway smooth last where
  sturdy hsmooth := by
    rw [Fight.Staffed, Fight.roomOdds, hroom]
    exact h.sturdy hsmooth
  phase := hphase
  odds uid := (hodds uid).symm ▸ h.odds uid
  enough := henough
  uncompared uid := (hmax uid).trans (h.uncompared uid)
  unsaved := hsaved.trans h.unsaved
  unlocks := hovers.trans h.unlocks

theorem Underway.of_undisturbed {last : Fight} (h : Underway smooth whole) (hsame : Undisturbed whole.1 last) :
    Underway smooth (last, whole.2) where
  sturdy hsmooth := ⟨hsame.staffed (h.sturdy hsmooth).1, by
    rw [hsame.interferes.roomOdds]
    exact (h.sturdy hsmooth).2⟩
  phase := hsame.interferes.roomStatus ▸ h.phase
  odds := hsame.odds h.odds
  enough := by
    change last.roomStatus ≠ .ready → 2 ≤ last.playerLst.keys.card
    rw [hsame.interferes.roomStatus, hsame.interferes.keys]
    exact h.enough
  uncompared uid := (hsame.maxCard uid).trans (h.uncompared uid)
  unsaved := h.unsaved
  unlocks := h.unlocks

/-- The clock is read during a game. -/
theorem Underway.reads (h : Underway smooth whole) (now : ℤ) :
    Underway smooth (whole.1, whole.2.reads now) :=
  h.of_same rfl (fun _ ↦ rfl) h.phase h.enough (fun _ ↦ rfl) rfl rfl

/-- A game that is under way and within its limit is on its course. -/
theorem Underway.onCourse (h : Underway smooth whole) (hdealt : Dealt whole.1) (hpaced : Paced whole) :
    OnCourse whole :=
  ⟨hdealt, hpaced.turns_le, by rw [h.unsaved]; exact List.nodup_nil, by rw [h.unlocks]; exact zero_le_one⟩

theorem OnCourse.of_undisturbed {last : Fight} (h : OnCourse whole) (hsame : Undisturbed whole.1 last) :
    OnCourse (last, whole.2) where
  dealt hend uid huid := by
    have hstatus := hsame.interferes.roomStatus
    rw [hsame.interferes.hand uid]
    exact h.dealt (hstatus.symm.trans hend) uid (hsame.interferes.keys ▸ huid)
  turns := h.turns
  once := h.once
  overs := h.overs

/-- A turn of `checkStatus` that has gone through the phases up to a number. -/
structure Turning (smooth : Prop) (updates : List MoneyUpdate) (done : ℕ) (whole : TimedFight) :
    Prop where
  ready : Ready updates whole.1
  underway : Underway smooth whole
  paced : Paced whole
  stays : whole.1.roomStatus.code ≤ done → Stays whole

theorem enduring_turning {done : ℕ} : Enduring smooth (Turning smooth updates done) where
  stable _ _ hsame h := ⟨h.ready.of_interferes hsame.interferes, h.underway.of_undisturbed hsame,
    h.paced.of_undisturbed hsame, fun hdone ↦
      (h.stays (hsame.interferes.roomStatus ▸ hdone)).of_undisturbed hsame⟩
  onCourse _ h := h.underway.onCourse h.ready.dealt h.paced
  room _ h := h.ready.room
  staffed _ h hsmooth := (h.underway.sturdy hsmooth).1

/-- A turn in a given phase. -/
def TurningIn (smooth : Prop) (updates : List MoneyUpdate) (status : RoomStatus) (whole : TimedFight) :
    Prop :=
  Turning smooth updates (status.code - 1) whole ∧ whole.1.roomStatus = status

theorem enduring_turningIn {status : RoomStatus} : Enduring smooth (TurningIn smooth updates status) where
  stable whole last hsame h := ⟨enduring_turning.stable whole last hsame h.1,
    hsame.interferes.roomStatus.trans h.2⟩
  onCourse whole h := enduring_turning.onCourse whole h.1
  room whole h := enduring_turning.room whole h.1
  staffed whole h := enduring_turning.staffed whole h.1

/-- A turn passes over a phase in which the game is not. -/
theorem Turning.skip {status : RoomStatus} {done : ℕ} (h : Turning smooth updates done whole)
    (hcode : status.code = done + 1) (hne : whole.1.roomStatus ≠ status) :
    Turning smooth updates (done + 1) whole where
  ready := h.ready
  underway := h.underway
  paced := h.paced
  stays hdone := h.stays (by
    have hcodes : whole.1.roomStatus.code ≠ status.code := fun heq ↦ hne (by
      generalize whole.1.roomStatus = other at heq
      cases other <;> cases status <;> first | rfl | exact nomatch heq)
    omega)

/-- A turn in a phase whose time is not over. -/
theorem TurningIn.stays {status : RoomStatus} (h : TurningIn smooth updates status whole)
    (hphase : status.isPhase = true) {now : ℤ} (hover : status.isOver now whole.1.statusBegin = false)
    (done : ℕ) : Turning smooth updates done (whole.1, whole.2.reads now) where
  ready := h.1.ready
  underway := h.1.underway.reads now
  paced := h.1.paced.reads now
  stays _ := h.1.paced.stays (by rw [h.2]; exact hphase) (by rw [h.2]; exact hover)

/-- The clock is read in a turn. -/
theorem TurningIn.reads {status : RoomStatus} (h : TurningIn smooth updates status whole) (now : ℤ) :
    TurningIn smooth updates status (whole.1, whole.2.reads now) :=
  ⟨⟨h.1.ready, h.1.underway.reads now, h.1.paced.reads now, fun hdone htimely ↦
    h.1.stays hdone (Course.reads_timely htimely).1⟩, h.2⟩

theorem InCourse.reads (h : InCourse handler current whole) (huncompared : Uncompared whole.1)
    (now : ℤ) : InCourse handler current (whole.1, whole.2.reads now) :=
  h.step (fun _ ↦ rfl) (fun hend ↦ ⟨hend, rfl⟩) huncompared rfl

section Parts

variable (hgame : handler.isMessage = false)

/-! ### Parts of a turn -/

/-- A phase ends early, or the clock is read and decides. -/
theorem wpTr_phaseEnds {early : Bool} {status : RoomStatus}
    {post : Bool → Section skynet Point TimedFight → TimedFight → Prop}
    (hearly : early = true → post true current whole)
    (hlate : early = false → ∀ now heard, post (status.isOver now whole.1.statusBegin)
      { current with heard := heard } (whole.1, whole.2.reads now)) :
    (phaseEnds early status).wpTr (gameTracing handler) (courseContract smooth updates) post
      (courseContract smooth updates).raised current whole := by
  unfold phaseEnds
  cases early with
  | true => exact hearly rfl
  | false => exact Program.wpTr_bind.mpr (wpTr_osTime fun now ↦ hlate rfl now _)

/-- A phase begins now. -/
theorem wpTr_enterStatus {status : RoomStatus}
    {post : Unit → Section skynet Point TimedFight → TimedFight → Prop}
    (h : ∀ now heard, post () { current with heard := heard }
      ({ whole.1 with statusBegin := now, roomStatus := status }, whole.2.reads now)) :
    (enterStatus status).wpTr (gameTracing handler) (courseContract smooth updates) post
      (courseContract smooth updates).raised current whole :=
  Program.wpTr_bind.mpr (wpTr_osTime fun now ↦ h now _)

include hgame in
/-- `onGameOver` calls `unlock_room`, whatever the reply. -/
theorem wpTr_onGameOver {holds : TimedFight → Prop} (henduring : Enduring smooth holds)
    (hunlocks : ∀ whole, holds whole → whole.2.overs = 0) (h : Along handler holds current whole) :
    onGameOver.wpTr (gameTracing handler) (courseContract smooth updates)
      (fun _ ↦ Along handler fun whole ↦ OnCourse whole ∧ whole.2.overs = 1)
      (courseContract smooth updates).raised current whole := by
  unfold onGameOver
  refine wpTr_getRoom_bind henduring h fun room _ ↦ ?_
  have honCourse := henduring.onCourse whole h.2
  have hunlocked : whole.2.overs + 1 = 1 := by rw [hunlocks whole h.2]
  have hover : OnCourse (whole.1, Course.waits (.unlockRoom room.roomId) whole.2) :=
    ⟨honCourse.dealt, honCourse.turns, honCourse.once, hunlocked.le⟩
  have hturn : InCourse handler current (whole.1, Course.waits (.unlockRoom room.roomId) whole.2) :=
    h.1.modify (fun _ ↦ rfl) (fun _ ↦ rfl) rfl rfl rfl rfl rfl
  refine wpTr_call ?_ fun reply later hrely ↦ ?_
  · rw [h.1.forks]
    refine hturn.ends hgame (by simp) ?_ hover fun hnil ↦ nomatch hnil
    exact fun other hother ↦ ⟨_, Call.noConfusion, List.mem_singleton.mp hother⟩
  · obtain ⟨hsame, hcourse, -⟩ := hrely hgame
    have hlater : later = (later.1, Course.waits (.unlockRoom room.roomId) whole.2) :=
      Prod.ext rfl hcourse
    have hlast : OnCourse later ∧ later.2.overs = 1 := by
      rw [hlater]
      exact ⟨hover.of_undisturbed hsame, hunlocked⟩
    have hresumed : InCourse handler ⟨⟨handler, .unlockRoom room.roomId⟩, later, [reply], []⟩ later :=
      .resumed Call.noConfusion
    exact ⟨fun _ ↦ ⟨hresumed, hlast⟩, fun _ ↦ hresumed.raised hgame hlast.1 (.inl hlast.2)⟩

/-! ### The phases -/

/-- What `checkReady` and `checkGameEnd` leave: the turn has gone through the phases up to a number, or the
game is over. -/
def Checked (smooth : Prop) (updates : List MoneyUpdate) (done : ℕ) (goesOn : Bool)
    (whole : TimedFight) : Prop :=
  if goesOn then Turning smooth updates done whole else OnCourse whole ∧ whole.2.overs = 1

include hgame in
/-- `checkStatus`, before the election. -/
theorem wpTr_checkReady (h : Along handler (Turning smooth updates 0) current whole) :
    checkReady.wpTr (gameTracing handler) (courseContract smooth updates)
      (fun goesOn ↦ Along handler (Checked smooth updates 1 goesOn))
      (courseContract smooth updates).raised current whole := by
  unfold checkReady
  rw [Program.wpTr_getState_bind]
  split
  · rename_i hphase
    have hready : TurningIn smooth updates .ready whole := ⟨h.2, hphase⟩
    refine Program.wpTr_bind.mpr (wpTr_phaseEnds (fun hearly ↦ nomatch hearly) fun _ now heard ↦ ?_)
    have hturn := (h.1.hear heard).reads h.2.underway.uncompared now
    cases hover : RoomStatus.ready.isOver now whole.1.statusBegin with
    | false => exact ⟨hturn, hready.stays rfl hover 1⟩
    | true =>
      rw [if_pos rfl]
      split
      · rename_i hsize
        refine Program.wpTr_bind.mpr (wpTr_enterStatus fun begun heard' ↦ ?_)
        have hnext : Turning smooth updates 1
            ({ whole.1 with statusBegin := begun, roomStatus := .askLeader },
              (whole.2.reads now).reads begun) := by
          refine ⟨h.2.ready.askLeader hphase begun, ?_, .enter ?_ fun _ ↦ rfl, fun hdone ↦ ?_⟩
          · exact ((h.2.underway.reads now).reads begun).of_same rfl (fun _ ↦ rfl) RoomStatus.noConfusion
              (fun _ ↦ hsize) (fun _ ↦ rfl) rfl rfl
          · intro htimely
            obtain ⟨hbefore, -⟩ := Course.reads_timely htimely
            obtain ⟨_, _, _, _, hlimit⟩ := hready.1.paced.reads now hbefore
            rw [hphase] at hlimit
            exact hlimit
          · exact absurd (show 2 ≤ 1 from hdone) (by decide)
        refine Program.wpTr_seq (wpTr_updateGameProcess hgame enduring_turning
          ⟨(hturn.hear heard').step (fun _ ↦ rfl) ?_ h.2.underway.uncompared rfl, hnext⟩) fun _ _ _ h ↦ h
        exact fun hend ↦ nomatch hphase.symm.trans hend
      · exact Program.wpTr_seq (wpTr_onGameOver hgame enduring_turningIn
          (fun _ h ↦ h.1.underway.unlocks) ⟨hturn, hready.reads now⟩) fun _ _ _ h ↦ h
  · rename_i hphase
    exact ⟨h.1, h.2.skip rfl hphase⟩

/-- The votes name a player of the game: no bid is below zero. -/
theorem wpTr_electLeader {post : Ballot → Section skynet Point TimedFight → TimedFight → Prop}
    (hodds : ∀ uid, 0 ≤ whole.1.odds uid) (hplayers : whole.1.playerLst.keys.Nonempty)
    (hpost : ∀ ballot heard, (∃ leader ∈ whole.1.playerLst.keys, ballot.leader = some leader) →
      post ballot { current with heard := heard } whole) :
    electLeader.wpTr (gameTracing handler) (courseContract smooth updates) post
      (courseContract smooth updates).raised current whole := by
  unfold electLeader
  rw [Program.wpTr_getState_bind]
  refine Program.wpTr_bind.mpr (wpTr_pairs fun order horder ↦ ?_)
  refine Program.wpTr_foldlM (fun rest (ballot : Ballot) later whole' ↦
      (∃ heard, later = { current with heard := heard }) ∧ whole = whole' ∧
      (∀ uid ∈ rest, uid ∈ whole.1.playerLst.keys) ∧
      ((∃ leader ∈ whole.1.playerLst.keys, ballot.leader = some leader) ∨
        ballot.maxOdds = -1 ∧ rest = order)) ?_ ?_
    ⟨⟨_, rfl⟩, rfl, fun _ huid ↦ horder.mem_iff.mp huid, .inr ⟨rfl, rfl⟩⟩
  · rintro uid rest ballot later _ ⟨⟨heard, rfl⟩, rfl, hrest, hballot⟩
    have hplays := hrest uid List.mem_cons_self
    have htail : ∀ other ∈ rest, other ∈ whole.1.playerLst.keys := fun other hother ↦
      hrest other (List.mem_cons_of_mem uid hother)
    have hbid := hodds uid
    rw [Program.wpTr_getState_bind]
    unfold voteFor
    split
    · refine Program.wpTr_bind.mpr (wpTr_mathRandom fun rankNum ↦ ?_)
      split
      · exact ⟨⟨_, rfl⟩, rfl, htail, .inl ⟨uid, hplays, rfl⟩⟩
      · rename_i hsame
        split
        · exact ⟨⟨_, rfl⟩, rfl, htail, .inl ⟨uid, hplays, rfl⟩⟩
        · exact ⟨⟨_, rfl⟩, rfl, htail, .inl (hballot.resolve_right fun hfirst ↦ hsame (by omega))⟩
    · rename_i hlower
      exact ⟨⟨heard, rfl⟩, rfl, htail, .inl (hballot.resolve_right fun hfirst ↦ hlower (by omega))⟩
  · rintro ballot later _ ⟨⟨heard, rfl⟩, rfl, -, hballot⟩
    refine hpost ballot heard (hballot.resolve_right fun hnone ↦ ?_)
    obtain ⟨uid, huid⟩ := hplayers
    have hmem := horder.mem_iff.mpr huid
    rw [← hnone.2] at hmem
    exact nomatch hmem

/-- The banker is being elected, and the next phase has begun by the clock. -/
structure Electing (smooth : Prop) (updates : List MoneyUpdate) (whole : TimedFight) : Prop where
  ready : ReadyIn updates .askLeader whole.1
  underway : Underway smooth whole
  turns : whole.2.timely = true → (whole.2.turns : ℤ) ≤ turnLimit 2
  due : whole.2.timely = true → whole.2.due = some whole.1.statusBegin

theorem Electing.of_undisturbed {last : Fight} (h : Electing smooth updates whole) (hsame : Undisturbed whole.1 last) :
    Electing smooth updates (last, whole.2) where
  ready := (lasting_readyIn .askLeader).stable _ _ hsame.interferes h.ready
  underway := h.underway.of_undisturbed hsame
  turns := h.turns
  due htimely := (h.due htimely).trans (congrArg some hsame.statusBegin.symm)

include hgame in
/-- The new banker is installed and the choice of odds begins. -/
theorem wpTr_installLeader {leader : ℕ} (h : Along handler (Electing smooth updates) current whole)
    (hplays : leader ∈ whole.1.playerLst.keys) :
    (installLeader leader).wpTr (gameTracing handler) (courseContract smooth updates)
      (fun _ ↦ Along handler (Turning smooth updates 2)) (courseContract smooth updates).raised
      current whole := by
  have hsame : ∀ {fight : Fight} {uid : ℕ} {change : Player → Player}, fight.roomStatus = .askLeader →
      (∀ player, (change player).handCardLst = player.handCardLst) →
      (∀ player, (change player).winMoney = player.winMoney) →
      (∀ player, (change player).maxCard = player.maxCard) →
      (∀ player, 0 ≤ player.odds → 0 ≤ (change player).odds) → Undisturbed fight (fight.updatePlayer uid change) :=
    fun hphase hhand hmoney hmax hodds ↦
      .of_updatePlayer hhand hmoney hmax (fun hask _ ↦ absurd hphase hask) hodds
  unfold installLeader
  rw [Program.wpTr_modifyState_bind, Program.wpTr_getState_bind]
  refine Program.wpTr_bind.mpr (wpTr_pairs fun order _ ↦ ?_)
  refine Program.wpTr_seq_at (fun _ ↦ Along handler fun whole ↦ Electing smooth updates whole ∧
      whole.1.roomLeader = some leader ∧ leader ∈ whole.1.playerLst.keys)
    (Program.wpTr_forEach (fun _ ↦ Along handler fun whole ↦ Electing smooth updates whole ∧
      whole.1.roomLeader = some leader ∧ leader ∈ whole.1.playerLst.keys) ?_ (fun _ _ hlast ↦ hlast) ?_)
    fun _ current whole h ↦ ?_
  · intro uid rest current whole ⟨hturn, helecting, hleader, hmem⟩
    rw [Program.wpTr_modifyState]
    have hreset : Undisturbed whole.1 (whole.1.updatePlayer uid (Player.resetOdds (uid = leader))) := by
      refine hsame helecting.ready.2 (fun _ ↦ rfl) (fun _ ↦ rfl) (fun _ ↦ rfl) fun player hodds ↦ ?_
      simp only [Player.resetOdds]
      split_ifs <;> omega
    refine ⟨hturn.undisturbed hreset ?_, helecting.of_undisturbed hreset, hleader, ?_⟩
    · exact Fight.packed_updatePlayer (by exact fun _ ↦ rfl) _ _
    · change leader ∈ (whole.1.updatePlayer uid _).playerLst.keys
      rw [Fight.keys_updatePlayer]
      exact hmem
  · have hlead : Undisturbed whole.1
        (whole.1.updatePlayer leader fun player ↦ { player with isLeader := true }) :=
      hsame h.2.ready.2 (fun _ ↦ rfl) (fun _ ↦ rfl) (fun _ ↦ rfl) fun _ hodds ↦ hodds
    have helected := h.2.of_undisturbed hlead
    have hturn : InCourse handler current ({ whole.1.updatePlayer leader fun player ↦
        { player with isLeader := true } with roomLeader := some leader }, whole.2) :=
      (h.1.undisturbed hlead (Fight.packed_updatePlayer (by exact fun _ ↦ rfl) _ _)).modify (fun _ ↦ rfl)
        (fun _ ↦ rfl) rfl rfl rfl rfl rfl
    refine ⟨hturn.hear _,
      ⟨⟨helected.ready.1.elect helected.ready.2 leader, helected.ready.2⟩, ?_, helected.turns,
        helected.due⟩, rfl, ?_⟩
    · exact helected.underway.of_same rfl (fun _ ↦ rfl) helected.underway.phase helected.underway.enough
        (fun _ ↦ rfl) rfl rfl
    · change leader ∈ (whole.1.updatePlayer leader _).playerLst.keys
      rw [Fight.keys_updatePlayer]
      exact hplays
  · obtain ⟨hturn, helecting, hleader, hmem⟩ := h
    rw [Program.wpTr_modifyState_bind]
    refine wpTr_updateGameProcess hgame enduring_turning ⟨hturn.step (fun _ ↦ rfl) ?_
      helecting.underway.uncompared rfl, helecting.ready.1.selectOdds helecting.ready.2 hleader hmem, ?_,
      .enter helecting.turns helecting.due, fun hdone ↦ absurd (show 3 ≤ 2 from hdone) (by decide)⟩
    · exact fun hend ↦ nomatch helecting.ready.2.symm.trans hend
    · exact helecting.underway.of_same rfl (fun _ ↦ rfl) RoomStatus.noConfusion
        (fun _ ↦ helecting.underway.enough (by rw [helecting.ready.2]; exact RoomStatus.noConfusion))
        (fun _ ↦ rfl) rfl rfl

include hgame in
/-- The election, when the bids are in. -/
theorem wpTr_election (h : Along handler (TurningIn smooth updates .askLeader) current whole) :
    (do
      let now ← osTime
      Program.modifyState fun fight ↦ { fight with statusBegin := now }
      let ballot ← electLeader
      match ballot.leader with
      | none => .fail .indexNil
      | some leader => installLeader leader : FightTask Unit).wpTr (gameTracing handler)
        (courseContract smooth updates) (fun _ ↦ Along handler (Turning smooth updates 2))
        (courseContract smooth updates).raised current whole := by
  refine Program.wpTr_bind.mpr (wpTr_osTime fun now ↦ ?_)
  rw [Program.wpTr_modifyState_bind]
  have hready := h.2.1.ready
  have hkeys : whole.1.playerLst.keys.Nonempty := by
    have henough := h.2.1.underway.enough (by rw [h.2.2]; exact RoomStatus.noConfusion)
    exact Finset.card_pos.mp (by omega)
  have hlater : Interferes whole.1 { whole.1 with statusBegin := now } :=
    .of_same rfl rfl rfl rfl rfl rfl
  refine Program.wpTr_bind.mpr (wpTr_electLeader h.2.1.underway.odds hkeys
    fun ballot heard hballot ↦ ?_)
  obtain ⟨leader, hplays, hleader⟩ := hballot
  rw [hleader]
  refine wpTr_installLeader hgame ⟨((h.1.hear _).hear heard).step (fun _ ↦ rfl)
    (fun hend ↦ RoomStatus.noConfusion (h.2.2.symm.trans hend)) h.2.1.underway.uncompared rfl,
    ⟨hready.of_interferes hlater, h.2.2⟩, ?_, ?_, fun _ ↦ rfl⟩ hplays
  · exact (h.2.1.underway.reads now).of_same rfl (fun _ ↦ rfl) h.2.1.underway.phase
      h.2.1.underway.enough (fun _ ↦ rfl) rfl rfl
  · intro htimely
    obtain ⟨_, _, _, _, hlimit⟩ := h.2.1.paced (Course.reads_timely htimely).1
    rw [h.2.2] at hlimit
    exact hlimit

include hgame in
/-- `checkStatus`, in the election phase. -/
theorem wpTr_checkAskLeader (h : Along handler (Turning smooth updates 1) current whole) :
    checkAskLeader.wpTr (gameTracing handler) (courseContract smooth updates)
      (fun _ ↦ Along handler (Turning smooth updates 2)) (courseContract smooth updates).raised
      current whole := by
  unfold checkAskLeader
  rw [Program.wpTr_getState_bind]
  split
  · rename_i hphase
    refine Program.wpTr_bind.mpr (wpTr_pairs fun order _ ↦ ?_)
    refine Program.wpTr_seq_at (fun _ ↦ Along handler (TurningIn smooth updates .askLeader))
      (Program.wpTr_foldlM (fun _ _ ↦ Along handler (TurningIn smooth updates .askLeader)) ?_
        (fun _ _ _ hlast ↦ hlast) ⟨h.1.hear _, h.2, hphase⟩) fun marked current whole h ↦ ?_
    · intro uid rest marked current whole h
      unfold markBidder
      rw [Program.wpTr_getState_bind]
      split
      · split
        · have hmark : Undisturbed whole.1
              (whole.1.updatePlayer uid fun player ↦ { player with sendUserOdds := true }) :=
            .of_updatePlayer (fun _ ↦ rfl) (fun _ ↦ rfl) (fun _ ↦ rfl) (fun _ _ _ ↦ rfl) fun _ h ↦ h
          exact ⟨h.1.undisturbed hmark (Fight.packed_updatePlayer (by exact fun _ ↦ rfl) _ _),
            enduring_turningIn.stable _ _ hmark h.2⟩
        · exact h
      · exact h
    · refine Program.wpTr_seq_at (fun _ ↦ Along handler (TurningIn smooth updates .askLeader)) ?_
        fun _ current whole h ↦ ?_
      · unfold showBids
        split
        · exact wpTr_sendUserOdds hgame enduring_turningIn _ h
        · exact h
      · refine Program.wpTr_bind.mpr (wpTr_phaseEnds (fun _ ↦ wpTr_election hgame h) fun _ now heard ↦ ?_)
        have hturn := (h.1.hear heard).reads h.2.1.underway.uncompared now
        cases hover : RoomStatus.askLeader.isOver now whole.1.statusBegin with
        | false => exact ⟨hturn, h.2.stays rfl hover 2⟩
        | true => exact wpTr_election hgame ⟨hturn, h.2.reads now⟩
  · rename_i hphase
    exact ⟨h.1, h.2.skip rfl hphase⟩

/-! ### The deals -/

/-- A deal in the course of a game. -/
structure DealingOn (smooth : Prop) (updates : List MoneyUpdate) (status : RoomStatus) (few many : ℕ)
    (rest : List ℕ) (whole : TimedFight) : Prop where
  dealing : Dealing updates status few many rest whole.1
  underway : Underway smooth whole
  paced : Paced whole

theorem enduring_dealingOn {status : RoomStatus} {few many : ℕ} {rest : List ℕ} :
    Enduring smooth (DealingOn smooth updates status few many rest) where
  stable _ _ hsame h := ⟨h.dealing.of_interferes hsame.interferes, h.underway.of_undisturbed hsame,
    h.paced.of_undisturbed hsame⟩
  onCourse _ h := h.underway.onCourse h.dealing.dealt h.paced
  room _ h := h.dealing.room
  staffed _ h hsmooth := (h.underway.sturdy hsmooth).1

include hgame in
/-- `get_card_from_card_lst` takes a turn of a deal. -/
theorem wpTr_getCardFromCardLst {status : RoomStatus} {few num many uid : ℕ} {rest : List ℕ}
    (hdeal : Deal status few num many)
    (h : Along handler (DealingOn smooth updates status few many (uid :: rest)) current whole) :
    (getCardFromCardLst uid num).wpTr (gameTracing handler) (courseContract smooth updates)
      (fun _ ↦ Along handler (DealingOn smooth updates status few many rest))
      (courseContract smooth updates).raised current whole := by
  obtain ⟨hdraw, -⟩ := h.2.dealing.draw hdeal
  have hframe : (whole.1.drawCards uid num).2 = { whole.1 with
      playerLst := (whole.1.drawCards uid num).2.playerLst
      cardLst := (whole.1.drawCards uid num).2.cardLst } := by
    rw [Fight.drawCards_eq]
    rfl
  have hstatus : (whole.1.drawCards uid num).2.roomStatus = whole.1.roomStatus := by rw [hframe]
  have hkeys : (whole.1.drawCards uid num).2.playerLst.keys = whole.1.playerLst.keys := by
    rw [Fight.drawCards_eq]
    exact whole.1.keys_updatePlayer uid _
  have hodds : ∀ other, (whole.1.drawCards uid num).2.odds other = whole.1.odds other := fun other ↦
    congrArg (Option.getD · 0) (whole.1.field_drawCards Player.odds (fun _ _ ↦ rfl) uid num other)
  have hmax : ∀ other, (whole.1.drawCards uid num).2.maxCard other = whole.1.maxCard other :=
    fun other ↦ congrArg (Option.getD · none)
      (whole.1.field_drawCards Player.maxCard (fun _ _ ↦ rfl) uid num other)
  have hpacked : ∀ other, (whole.1.drawCards uid num).2.packed other = whole.1.packed other :=
    fun other ↦ congrArg (Option.getD · false)
      (whole.1.field_drawCards Player.handCardReady (fun _ _ ↦ rfl) uid num other)
  have hunderway : Underway smooth ((whole.1.drawCards uid num).2, whole.2) := by
    refine h.2.underway.of_same (by rw [hframe]) hodds ?_ ?_ hmax rfl rfl
    · rw [hstatus]
      exact h.2.underway.phase
    · change (whole.1.drawCards uid num).2.roomStatus ≠ .ready → _
      rw [hstatus, hkeys]
      exact h.2.underway.enough
  have hpaced : Paced ((whole.1.drawCards uid num).2, whole.2) := by
    have hpaced := h.2.paced
    unfold Paced at hpaced ⊢
    rw [hframe]
    exact hpaced
  unfold getCardFromCardLst
  rw [Program.wpTr_getState_bind, Program.wpTr_modifyState_bind]
  refine wpTr_sendPerflop hgame enduring_dealingOn uid _ ⟨h.1.step hpacked ?_ ?_ rfl, hdraw,
    hunderway, hpaced⟩
  · exact fun hend ↦ ⟨hstatus.trans hend, by rw [hframe]⟩
  · exact fun other ↦ (hmax other).trans (h.2.underway.uncompared other)

include hgame in
/-- `onShuffle` shuffles the deck and takes the first deal. -/
theorem wpTr_onShuffle (h : Along handler (DealingOn smooth updates .ready 0 0 []) current whole) :
    onShuffle.wpTr (gameTracing handler) (courseContract smooth updates)
      (fun _ ↦ Along handler (Turning smooth updates 0)) (courseContract smooth updates).raised
      current whole := by
  unfold onShuffle
  rw [Program.wpTr_getState_bind]
  refine Program.wpTr_seq_at (fun _ ↦ Along handler (DealingOn smooth updates .ready 0 0 []))
    (Program.wpTr_forEach (fun _ ↦ Along handler (DealingOn smooth updates .ready 0 0 [])) ?_
      (fun _ _ hlast ↦ hlast) h) fun _ current whole h ↦ ?_
  · intro place rest current whole h
    refine Program.wpTr_bind.mpr (wpTr_mathRandom fun rankNum ↦ ?_)
    rw [Program.wpTr_modifyState]
    refine ⟨(h.1.hear _).step (fun _ ↦ rfl) (fun hend ↦ ⟨hend, rfl⟩) h.2.underway.uncompared rfl,
      h.2.dealing.of_perm (swapCards_perm _ _ _), ?_, h.2.paced⟩
    exact h.2.underway.of_same rfl (fun _ ↦ rfl) h.2.underway.phase h.2.underway.enough (fun _ ↦ rfl)
      rfl rfl
  · rw [Program.wpTr_getState_bind]
    refine Program.wpTr_bind.mpr (wpTr_pairs fun order horder ↦ ?_)
    refine Program.wpTr_forEach
      (fun rest ↦ Along handler (DealingOn smooth updates .ready 0 4 rest)) ?_ ?_
      ⟨h.1.hear _, h.2.dealing.first horder, h.2.underway, h.2.paced⟩
    · exact fun uid rest current whole h ↦ wpTr_getCardFromCardLst hgame deal_ready h
    · intro current whole h
      refine ⟨h.1, h.2.dealing.ready, h.2.underway, h.2.paced, fun hdone ↦ ?_⟩
      rw [h.2.dealing.phase] at hdone
      exact absurd hdone (by decide)

include hgame in
/-- One turn of the last deal. -/
theorem wpTr_dealLastCard {uid : ℕ} {rest : List ℕ} (notifyUserLst : List ℕ)
    (h : Along handler (DealingOn smooth updates .selectOdds 4 5 (uid :: rest)) current whole) :
    (dealLastCard notifyUserLst uid).wpTr (gameTracing handler) (courseContract smooth updates)
      (fun _ ↦ Along handler (DealingOn smooth updates .selectOdds 4 5 rest))
      (courseContract smooth updates).raised current whole := by
  obtain ⟨player, hplayer⟩ := Fight.mem_keys_iff.mp (h.2.dealing.plays uid List.mem_cons_self)
  unfold dealLastCard
  rw [Program.wpTr_getState_bind]
  simp only [hplayer]
  refine Program.wpTr_seq_at (fun _ ↦
    Along handler (DealingOn smooth updates .selectOdds 4 5 (uid :: rest))) ?_ fun _ current whole h ↦ ?_
  · unfold chooseDefault
    split
    · rw [Program.wpTr_modifyState]
      have hsame : Undisturbed whole.1 (whole.1.updatePlayer uid fun player ↦ { player with odds := 5 }) :=
        .of_updatePlayer (fun _ ↦ rfl) (fun _ ↦ rfl) (fun _ ↦ rfl)
          (fun _ hselect ↦ absurd h.2.dealing.phase hselect) fun _ _ ↦ show (0 : ℤ) ≤ 5 by decide
      exact ⟨h.1.undisturbed hsame (Fight.packed_updatePlayer (by exact fun _ ↦ rfl) _ _),
        enduring_dealingOn.stable _ _ hsame h.2⟩
    · exact h
  · exact Program.wpTr_seq (wpTr_getCardFromCardLst hgame deal_selectOdds h) fun _ _ _ h ↦ h

include hgame in
/-- `checkStatus`, in the phase that selects the odds. -/
theorem wpTr_checkSelectOdds (h : Along handler (Turning smooth updates 2) current whole) :
    checkSelectOdds.wpTr (gameTracing handler) (courseContract smooth updates)
      (fun _ ↦ Along handler (Turning smooth updates 3)) (courseContract smooth updates).raised
      current whole := by
  unfold checkSelectOdds
  rw [Program.wpTr_getState_bind]
  split
  · rename_i hphase
    have hready : TurningIn smooth updates .selectOdds whole := ⟨h.2, hphase⟩
    have hdeal : ∀ {current : Section skynet Point TimedFight} {whole : TimedFight},
        Along handler (TurningIn smooth updates .selectOdds) current whole →
        (do
          let order ← pairs (← Program.getState).playerLst.keys
          let notifyUserLst ← order.foldlM dealLastCard []
          sendUserOdds notifyUserLst
          enterStatus .gameEnd
          updateGameProcess : FightTask Unit).wpTr (gameTracing handler)
            (courseContract smooth updates) (fun _ ↦ Along handler (Turning smooth updates 3))
            (courseContract smooth updates).raised current whole := by
      intro current whole h
      rw [Program.wpTr_getState_bind]
      refine Program.wpTr_bind.mpr (wpTr_pairs fun order horder ↦ ?_)
      refine Program.wpTr_seq_at (fun _ ↦ Along handler (DealingOn smooth updates .selectOdds 4 5 []))
        (Program.wpTr_foldlM
          (fun rest _ ↦ Along handler (DealingOn smooth updates .selectOdds 4 5 rest))
          (fun uid rest notifyUserLst current whole h ↦ wpTr_dealLastCard hgame notifyUserLst h)
          (fun _ _ _ hlast ↦ hlast)
          ⟨h.1.hear _, h.2.1.ready.dealing h.2.2 horder, h.2.1.underway, h.2.1.paced⟩)
        fun notifyUserLst current whole h ↦ ?_
      refine Program.wpTr_seq (wpTr_sendUserOdds hgame enduring_dealingOn notifyUserLst h)
        fun _ current whole h ↦ ?_
      refine Program.wpTr_bind.mpr (wpTr_enterStatus fun now heard ↦ ?_)
      refine wpTr_updateGameProcess hgame enduring_turning ⟨(h.1.hear heard).step (fun _ ↦ rfl)
        (fun hend ↦ nomatch h.2.dealing.phase.symm.trans hend) h.2.underway.uncompared rfl,
        h.2.dealing.gameEnd now, ?_, .enter ?_ fun _ ↦ rfl,
        fun hdone ↦ absurd (show 4 ≤ 3 from hdone) (by decide)⟩
      · refine (h.2.underway.reads now).of_same rfl (fun _ ↦ rfl) RoomStatus.noConfusion (fun _ ↦ ?_)
          (fun _ ↦ rfl) rfl rfl
        exact h.2.underway.enough (by rw [h.2.dealing.phase]; exact RoomStatus.noConfusion)
      · intro htimely
        obtain ⟨_, _, _, _, hlimit⟩ := h.2.paced (Course.reads_timely htimely).1
        rw [h.2.dealing.phase] at hlimit
        exact hlimit
    refine Program.wpTr_bind.mpr (wpTr_phaseEnds (fun _ ↦ hdeal ⟨h.1, hready⟩) fun _ now heard ↦ ?_)
    have hturn := (h.1.hear heard).reads h.2.underway.uncompared now
    cases hover : RoomStatus.selectOdds.isOver now whole.1.statusBegin with
    | false => exact ⟨hturn, hready.stays rfl hover 3⟩
    | true => exact hdeal ⟨hturn, hready.reads now⟩
  · rename_i hphase
    exact ⟨h.1, h.2.skip rfl hphase⟩

/-! ### The end of the game -/

/-- A settled game that has sent the money of some players to the database. -/
structure Saving (smooth : Prop) (saved : List ℕ) (whole : TimedFight) : Prop where
  room : whole.1.room.isSome
  staffed : smooth → whole.1.Staffed
  dealt : Dealt whole.1
  turns : whole.2.timely = true → (whole.2.turns : ℤ) ≤ turnLimit 4
  sent : whole.2.saved = saved
  once : saved.Nodup
  unlocks : whole.2.overs = 0

theorem Saving.onCourse {saved : List ℕ} (h : Saving smooth saved whole) : OnCourse whole :=
  ⟨h.dealt, h.turns, by rw [h.sent]; exact h.once, by rw [h.unlocks]; exact zero_le_one⟩

theorem enduring_saving {saved : List ℕ} : Enduring smooth (Saving smooth saved) where
  stable _ _ hsame h := ⟨hsame.interferes.room.trans h.room, hsame.staffed ∘ h.staffed,
    (h.onCourse.of_undisturbed hsame).dealt, h.turns, h.sent, h.once, h.unlocks⟩
  onCourse _ h := h.onCourse
  room _ h := h.room
  staffed _ h := h.staffed

include hgame in
/-- `new_dao.call ("update_user_money", …)` sends the money of one more player, whatever the reply. -/
theorem wpTr_updateUserMoney {uid : ℕ} {addVal : LuaInt} {saved : List ℕ}
    (h : Along handler (Saving smooth saved) current whole) (hnew : uid ∉ saved) :
    (updateUserMoney uid addVal).wpTr (gameTracing handler) (courseContract smooth updates)
      (fun _ ↦ Along handler (Saving smooth (saved ++ [uid])))
      (courseContract smooth updates).raised current whole := by
  unfold updateUserMoney
  rw [Program.wpTr_modifyState_bind, Program.wpTr_getState_bind]
  generalize hcursor : (if whole.1.curDbsId > whole.1.dbServiceCnt then
    { whole.1 with curDbsId := 1 } else whole.1) = chosen
  have hsame : Undisturbed whole.1 chosen ∧ ∀ uid, chosen.packed uid = whole.1.packed uid := by
    rw [← hcursor]
    split_ifs
    · exact ⟨.of_same rfl rfl rfl rfl rfl rfl rfl, fun _ ↦ rfl⟩
    · exact ⟨.refl _, fun _ ↦ rfl⟩
  have hchosen := enduring_saving.stable _ _ hsame.1 h.2
  have honce : (saved ++ [uid]).Nodup := by
    rw [List.nodup_append]
    refine ⟨h.2.once, List.nodup_singleton uid, fun first hfirst second hsecond heq ↦ ?_⟩
    obtain rfl := List.mem_singleton.mp hsecond
    exact hnew (heq ▸ hfirst)
  have hsent : Saving smooth (saved ++ [uid])
      (chosen, { whole.2 with saved := whole.2.saved ++ [uid] }) :=
    ⟨hchosen.room, hchosen.staffed, hchosen.dealt, hchosen.turns, by rw [h.2.sent], honce,
      hchosen.unlocks⟩
  have hturn : InCourse handler current (chosen, { whole.2 with saved := whole.2.saved ++ [uid] }) :=
    (h.1.undisturbed hsame.1 hsame.2).modify (fun _ ↦ rfl) (fun _ ↦ rfl) rfl rfl rfl rfl rfl
  rw [Program.wpTr_bind, Program.wpTr_await]
  refine ⟨?_, fun reply later hrely ↦ ?_⟩
  · rw [h.1.forks]
    refine hturn.ends hgame (by simp) ?_ hsent.onCourse fun hnil ↦ nomatch hnil
    exact fun other hother ↦ ⟨_, Call.noConfusion, List.mem_singleton.mp hother⟩
  · obtain ⟨hsame', hcourse, -⟩ := hrely hgame
    have hlater : later = (later.1, { whole.2 with saved := whole.2.saved ++ [uid] }) :=
      Prod.ext rfl hcourse
    have hholds : Saving smooth (saved ++ [uid]) later := by
      rw [hlater]
      exact enduring_saving.stable _ _ hsame' hsent
    have hresumed : InCourse handler
        ⟨⟨handler, .updateUserMoney chosen.curDbsId uid addVal⟩, later, [reply], []⟩ later :=
      .resumed Call.noConfusion
    split
    · rw [Program.wpTr_modifyState_bind]
      exact ⟨hresumed.modify (fun _ ↦ rfl) (fun _ ↦ rfl) rfl rfl rfl rfl rfl, hholds.room, hholds.staffed,
        hholds.dealt, hholds.turns, hholds.sent, hholds.once, hholds.unlocks⟩
    · rw [Program.wpTr_modifyState_bind]
      exact ⟨hresumed.modify (fun _ ↦ rfl) (fun _ ↦ rfl) rfl rfl rfl rfl rfl, hholds.room, hholds.staffed,
        hholds.dealt, hholds.turns, hholds.sent, hholds.once, hholds.unlocks⟩

include hgame in
/-- The save loop sends the money of every player once. -/
theorem wpTr_saveResults (h : Along handler (Saving smooth []) current whole) :
    saveResults.wpTr (gameTracing handler) (courseContract smooth updates)
      (fun _ ↦ Along handler fun whole ↦ ∃ saved, Saving smooth saved whole)
      (courseContract smooth updates).raised current whole := by
  unfold saveResults
  rw [Program.wpTr_getState_bind]
  refine Program.wpTr_bind.mpr (wpTr_pairs fun order horder ↦ ?_)
  refine Program.wpTr_foldlM (fun rest _ current later ↦ ∃ saved,
      Along handler (Saving smooth saved) current later ∧ order = saved ++ rest) ?_
    (fun _ _ _ ⟨saved, hlast, _⟩ ↦ ⟨hlast.1, saved, hlast.2⟩) ⟨[], ⟨h.1.hear _, h.2⟩, rfl⟩
  intro uid rest result current later ⟨saved, h, hsplit⟩
  have hnew : uid ∉ saved := by
    have hnodup := horder.1
    rw [hsplit, List.nodup_append] at hnodup
    exact fun hin ↦ hnodup.2.2 uid hin uid List.mem_cons_self rfl
  rw [Program.wpTr_getState_bind]
  refine Program.wpTr_seq (wpTr_updateUserMoney hgame h hnew) fun _ current last hlast ↦ ?_
  exact ⟨saved ++ [uid], hlast, by simp [hsplit]⟩

include hgame in
/-- The result is shown and the game is over. -/
theorem wpTr_showResult {saved : List ℕ} (result : List PlayerResult)
    (h : Along handler (Saving smooth saved) current whole) :
    (showResult result).wpTr (gameTracing handler) (courseContract smooth updates)
      (fun _ ↦ Along handler fun whole ↦ OnCourse whole ∧ whole.2.overs = 1)
      (courseContract smooth updates).raised current whole := by
  unfold showResult
  refine wpTr_getRoom_bind enduring_saving h fun room _ ↦ ?_
  refine Program.wpTr_seq (wpTr_broadcastRoomPlayer hgame enduring_saving (fun _ ↦ rfl) h) fun _ current whole h ↦ ?_
  exact wpTr_onGameOver hgame enduring_saving (fun _ h ↦ h.unlocks) h

/-- In a room with odds the settlement does not fail. -/
theorem TurningIn.settle_eq_ok (h : TurningIn smooth updates .gameEnd whole) (hsmooth : smooth)
    {order : List ℕ} (horder : IsOrder order whole.1.playerLst.keys) :
    ∃ last, whole.1.settle order = .ok last := by
  obtain ⟨leaderUid, hplays, hleader⟩ := h.1.ready.leader (.inr h.2)
  obtain ⟨leader, hrecord⟩ := Fight.mem_keys_iff.mp hplays
  obtain ⟨room, hroom⟩ := Option.isSome_iff_exists.mp h.1.ready.room
  obtain ⟨roomOdds, hodds⟩ := Option.isSome_iff_exists.mp (h.1.underway.sturdy hsmooth).2
  have hroomOdds : room.roomOdds = some roomOdds := by
    simpa [Fight.roomOdds, hroom] using hodds
  obtain ⟨last, hok, -⟩ := Douniu.settle_eq_ok hroom hroomOdds hleader hrecord (h.1.ready.dealt h.2) horder
  exact ⟨last, hok⟩

/-- The state that the settlement leaves. -/
theorem TurningIn.saving {last : Fight} (h : TurningIn smooth updates .gameEnd whole)
    (hwrites : Writes whole.1 last) : Saving smooth [] (last, whole.2) where
  room := by
    rw [hwrites.frame]
    exact h.1.ready.room
  staffed hsmooth := by
    rw [hwrites.frame]
    exact (h.1.underway.sturdy hsmooth).1
  dealt _ uid huid := by
    rw [hwrites.hand uid]
    exact h.1.ready.dealt h.2 uid (hwrites.keys ▸ huid)
  turns := h.1.paced.turns_le
  sent := h.1.underway.unsaved
  once := List.nodup_nil
  unlocks := h.1.underway.unlocks

theorem InCourse.settled {last : Fight} (h : InCourse handler current whole)
    (hwrites : Writes whole.1 last) (hshown : Shown whole) : InCourse handler current (last, whole.2) where
  forks := h.forks
  serves := h.serves
  packs uid hlast := h.packs uid ((hwrites.packed uid).symm.trans hlast)
  late hopens horigin := by
    rw [hwrites.frame]
    exact h.late hopens horigin
  shown _ _ := by
    refine ⟨?_, hshown.2.imp (fun hall uid huid ↦ ?_) ?_⟩
    · rw [hwrites.frame]
      exact hshown.1
    · rw [hwrites.packed uid]
      exact hall uid (hwrites.keys ▸ huid)
    · rw [hwrites.frame]
      exact id
  begins := h.begins

include hgame in
/-- The settlement, when the last phase has ended. -/
theorem wpTr_settled (h : Along handler (TurningIn smooth updates .gameEnd) current whole)
    (hshown : Shown whole) :
    (do
      let order ← pairs (← Program.getState).playerLst.keys
      Program.tryModify (I := skynet) (Fight.settle order)
      let result ← saveResults
      showResult result
      return false : FightTask Bool).wpTr (gameTracing handler) (courseContract smooth updates)
        (fun goesOn ↦ Along handler (Checked smooth updates 4 goesOn))
        (courseContract smooth updates).raised current whole := by
  rw [Program.wpTr_getState_bind]
  refine Program.wpTr_bind.mpr (wpTr_pairs fun order horder ↦ Program.wpTr_bind.mpr ?_)
  have hturn := h.1.hear (current.heard ++ [.order order])
  have hwrites := writes_settle order whole.1
  cases hresult : whole.1.settle order with
  | ok last =>
    rw [hresult] at hwrites
    refine Program.wpTr_tryModify hresult ?_
    refine Program.wpTr_seq (wpTr_saveResults hgame ⟨hturn.settled hwrites hshown, h.2.saving hwrites⟩)
      fun result current whole h ↦ ?_
    obtain ⟨hturn, saved, hsaving⟩ := h
    exact Program.wpTr_seq (wpTr_showResult hgame result ⟨hturn, hsaving⟩) fun _ _ _ h ↦ h
  | error failure =>
    obtain ⟨error, left⟩ := failure
    rw [hresult] at hwrites
    refine Program.wpTr_tryModify_of_error hresult ?_
    refine (hturn.settled hwrites hshown).raised hgame (h.2.saving hwrites).onCourse
      (.inr (.inl fun hsmooth ↦ ?_))
    obtain ⟨last, hok⟩ := h.2.settle_eq_ok hsmooth horder
    exact nomatch hresult.symm.trans hok

include hgame in
/-- `checkStatus`, in the last phase: the game has room for another turn, or it is over. -/
theorem wpTr_checkGameEnd (h : Along handler (Turning smooth updates 3) current whole) :
    checkGameEnd.wpTr (gameTracing handler) (courseContract smooth updates)
      (fun goesOn ↦ Along handler (Checked smooth updates 4 goesOn))
      (courseContract smooth updates).raised current whole := by
  unfold checkGameEnd
  rw [Program.wpTr_getState_bind]
  split
  · rename_i hphase
    have hready : TurningIn smooth updates .gameEnd whole := ⟨h.2, hphase⟩
    refine Program.wpTr_bind.mpr (wpTr_phaseEnds (fun hearly ↦ ?_) fun _ now heard ↦ ?_)
    · refine wpTr_settled hgame ⟨h.1, hready⟩ ⟨hphase, .inl fun uid huid ↦ ?_⟩
      have hpacked := of_decide_eq_true hearly uid huid
      obtain ⟨player, hplayer⟩ := Fight.mem_keys_iff.mp huid
      rw [hplayer] at hpacked
      rw [Fight.packed, hplayer]
      exact congrArg (Option.getD · false) hpacked
    · have hturn := (h.1.hear heard).reads h.2.underway.uncompared now
      cases hover : RoomStatus.gameEnd.isOver now whole.1.statusBegin with
      | false => exact ⟨hturn, hready.stays rfl hover 4⟩
      | true => exact wpTr_settled hgame ⟨hturn, hready.reads now⟩ ⟨hphase, .inr ⟨now, rfl, hover⟩⟩
  · rename_i hphase
    exact ⟨h.1, h.2.skip rfl hphase⟩

/-! ### Turns -/

include hgame in
/-- A turn of `checkStatus` keeps the contract: it ends with the timer for the next turn, for which there
is room, or the game is over. -/
theorem wpTr_checkStatus (h : Along handler (Turning smooth updates 0) current whole) :
    checkStatus.wpTr (gameTracing handler) (courseContract smooth updates)
      (courseContract smooth updates).done (courseContract smooth updates).raised current whole := by
  unfold checkStatus
  refine Program.wpTr_seq (wpTr_checkReady hgame h) fun goesOn current whole h ↦ ?_
  cases goesOn with
  | false => exact h.1.done hgame h.2.1 (.inl h.2.2)
  | true =>
    refine Program.wpTr_seq (wpTr_checkAskLeader hgame h) fun _ current whole h ↦ ?_
    refine Program.wpTr_seq (wpTr_checkSelectOdds hgame h) fun _ current whole h ↦ ?_
    refine Program.wpTr_seq (wpTr_checkGameEnd hgame h) fun goesOn current whole h ↦ ?_
    cases goesOn with
    | false => exact h.1.done hgame h.2.1 (.inl h.2.2)
    | true =>
      obtain ⟨hturn, hready⟩ := h
      have hready : Turning smooth updates 4 whole := hready
      have hstays : Stays whole := hready.stays (by
        generalize whole.1.roomStatus = status
        cases status <;> decide)
      have honCourse := enduring_turning.onCourse whole hready
      rw [if_pos rfl, Program.wpTr_spawn]
      -- the section ends with the next turn of `checkStatus` waiting for its timer
      refine ⟨⟨fun hmessage ↦ ?_, fun _ ↦ ⟨?_, ?_, honCourse, fun htimely _ _ _ ↦ ?_, ?_, hturn.packs,
        hturn.late, hturn.shown, hturn.begins⟩⟩, ?_⟩
      · rw [hturn.serves, hgame] at hmessage
        exact nomatch hmessage
      · simp [hturn.forks]
      · rw [hturn.forks]
        exact fun other hother ↦ List.mem_singleton.mp hother ▸ ⟨rfl, rfl⟩
      · exact (hstays htimely).trans whole.1.roomStatus.turnLimit_le.2
      · simp
      · rw [hturn.forks]
        exact fun point hpoint ↦ List.mem_singleton.mp hpoint ▸
          ⟨hready.ready, hready.underway, hready.paced, hstays⟩

end Parts

/-- `onStart` keeps the contract. -/
theorem wpTr_onStart {roomInfo : RoomInfo} {fight : Fight} {heard : List Answer}
    (hplayers : roomInfo.playerLst.size ≤ 10) (hupdates : fight.moneyUpdates = updates)
    (hsturdy : smooth → roomInfo.Sturdy) :
    (onStart roomInfo).wpTr (gameTracing (.onStart roomInfo)) (courseContract smooth updates)
      (courseContract smooth updates).done (courseContract smooth updates).raised
      ⟨⟨.onStart roomInfo, .start⟩, (fight, .fresh), heard, []⟩ (fight, Course.fresh.begins) := by
  have hgame : (Handler.onStart roomInfo).isMessage = false := rfl
  unfold onStart
  refine Program.wpTr_bind.mpr (wpTr_pairs fun order horder ↦ ?_)
  refine Program.wpTr_bind.mpr (wpTr_osTime fun now ↦ ?_)
  rw [Program.wpTr_modifyState_bind]
  have hrecord : ∀ uid player, (newGame fight roomInfo order now).getPlayer uid = some player →
      ∃ roomPlayer, player = initRoomPlayer roomPlayer := fun uid player hplayer ↦
    exists_of_initPlayers_lookup roomInfo order hplayer
  have hfield : ∀ {β : Type} (field : Player → β) (value : β),
      (∀ roomPlayer, field (initRoomPlayer roomPlayer) = value) → ∀ uid,
        (((newGame fight roomInfo order now).getPlayer uid).map field).getD value = value := by
    intro β field value hvalue uid
    cases hplayer : (newGame fight roomInfo order now).getPlayer uid with
    | none => rfl
    | some player =>
      obtain ⟨roomPlayer, rfl⟩ := hrecord uid player hplayer
      exact hvalue roomPlayer
  have hpacked := hfield Player.handCardReady false fun _ ↦ rfl
  have hnew : DealingOn smooth updates .ready 0 0 []
      (newGame fight roomInfo order now, Course.fresh.begins.reads now) := by
    refine ⟨dealing_newGame hplayers horder hupdates, ⟨fun hsmooth ↦ ⟨?_, (hsturdy hsmooth).2⟩,
      RoomStatus.noConfusion, fun uid ↦ ?_, fun hready ↦ absurd rfl hready,
      hfield Player.maxCard none fun _ ↦ rfl, rfl, rfl⟩,
      .enter (fun _ ↦ show (1 : ℤ) ≤ turnLimit 0 by decide) fun _ ↦ rfl⟩
    · intro room hroom
      obtain rfl := Option.some.inj hroom
      exact (hsturdy hsmooth).1
    · exact (hfield Player.odds 0 (fun _ ↦ rfl) uid).ge
  have hturn : InCourse (.onStart roomInfo)
      ⟨⟨.onStart roomInfo, .start⟩, (fight, .fresh), heard ++ [.order order] ++ [.number now], []⟩
      (newGame fight roomInfo order now, Course.fresh.begins.reads now) :=
    ⟨rfl, rfl, (fun uid hlast ↦ nomatch (hpacked uid).symm.trans hlast), (fun hopens ↦ nomatch hopens),
      (fun _ hcompared ↦ absurd hnew.underway.uncompared hcompared), rfl⟩
  refine Program.wpTr_seq (wpTr_updateGameProcess hgame enduring_dealingOn ⟨hturn, hnew⟩)
    fun _ current whole h ↦ ?_
  refine Program.wpTr_seq (wpTr_quietCall hgame enduring_dealingOn
    ⟨Call.noConfusion, Call.noConfusion⟩ rfl (fun _ ↦ rfl) h) fun _ current whole h ↦ ?_
  refine Program.wpTr_seq (wpTr_onShuffle hgame h) fun _ current whole h ↦ ?_
  exact wpTr_checkStatus hgame h

/-- Every coroutine of the service keeps the contract. -/
theorem keepsCourse {reply : Answer} {point : Point} (hstart : startsCourse smooth updates point whole) :
    (courseContract smooth updates).Keeps (timedFight.entry point) ⟨point, whole, [reply], []⟩ whole := by
  obtain ⟨handler, call⟩ := point
  cases call with
  | start =>
    cases handler with
    | onStart roomInfo =>
      obtain ⟨hplayers, hupdates, hfresh, hsturdy⟩ := hstart
      obtain ⟨fight, course⟩ := whole
      obtain rfl : course = .fresh := hfresh
      exact wpTr_onStart hplayers hupdates hsturdy
    | checkStatus =>
      obtain ⟨hready, hunderway, hpaced, hstays⟩ := hstart
      have hturning : Turning smooth updates 0 (whole.1, whole.2.begins) := by
        refine ⟨hready, ?_, hpaced.begins hstays, fun hdone ↦ ?_⟩
        · exact hunderway.of_same rfl (fun _ ↦ rfl) hunderway.phase hunderway.enough (fun _ ↦ rfl) rfl rfl
        · have hphase := hunderway.phase
          change whole.1.roomStatus.code ≤ 0 at hdone
          generalize whole.1.roomStatus = status at hphase hdone
          cases status with
          | idle => exact absurd rfl hphase
          | _ => exact absurd hdone (by decide)
      exact wpTr_checkStatus rfl ⟨.begun, hturning⟩
    | onGetLeader uid odds => exact keepsCourse_message rfl reply
    | onSetOdds uid odds => exact keepsCourse_message rfl reply
    | onPackCard uid retCardLst => exact keepsCourse_message rfl reply
    | onKickOut uid => exact keepsCourse_message rfl reply
  | _ => cases handler <;> exact hstart.elim

end SvrDemo.Douniu
