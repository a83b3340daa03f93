import SvrDemo.Douniu.GameSteps

/-!
# The game keeps its contract

`onStart` and `checkStatus` keep the contract of the fight service. `During` is the assertion of
their coroutine in the middle of a section: nobody who held five cards at its start has been touched,
and an assertion on the state holds. A part of the game that only sends packages keeps every such
assertion that is stable under interference (`steady_during`); the parts that write to the game are
taken one by one, with the facts about their steps.
-/

set_option autoImplicit false
set_option relaxedAutoImplicit false

namespace SvrDemo.Douniu

open Coroutine Lua Skynet

variable {updates : List MoneyUpdate} {handler : Handler} {fight : Fight}
  {current : Section skynet Point Fight}

/-! ### The assertions of a section -/

/-- The coroutine of a game in the middle of a section. -/
structure InTurn (handler : Handler) (current : Section skynet Point Fight) (fight : Fight) :
    Prop where
  forks : current.forks = []
  serves : current.point.handler = handler
  frozen : current.point.opensGame = false → Frozen current.origin fight

/-- The coroutine of a game in the middle of a section, in a state of which an assertion holds. -/
def During (handler : Handler) (holds : Fight → Prop) (current : Section skynet Point Fight)
    (fight : Fight) : Prop :=
  InTurn handler current fight ∧ holds fight

theorem InTurn.hear (h : InTurn handler current fight) (heard : List Answer) :
    InTurn handler { current with heard := heard } fight :=
  ⟨h.forks, h.serves, h.frozen⟩

theorem InTurn.modify {last : Fight} (h : InTurn handler current fight) (hfrozen : Frozen fight last) :
    InTurn handler current last :=
  ⟨h.forks, h.serves, fun hopens ↦ (h.frozen hopens).trans hfrozen⟩

/-- The game may end its section with one coroutine waiting at a call, or with none. -/
theorem InTurn.ends (h : InTurn handler current fight) (hgame : handler.isMessage = false)
    {left : List Point} (hsingle : left.length ≤ 1)
    (hleft : ∀ other ∈ left, ∃ call, call ≠ .start ∧ other = ⟨handler, call⟩)
    (haccounted : Accounted updates fight left) : (gameContract updates).Ends current left fight := by
  refine ⟨⟨fun hmessage ↦ ?_, fun _ ↦ ⟨hsingle, ?_, haccounted, h.frozen⟩⟩, ?_⟩
  · rw [h.serves, hgame] at hmessage
    exact nomatch hmessage
  · intro other hother
    obtain ⟨call, hcall, rfl⟩ := hleft other hother
    exact ⟨hgame, Point.opensGame_of_ne handler hcall⟩
  · rw [h.forks]
    exact fun _ hmem ↦ nomatch hmem

theorem InTurn.done (h : InTurn handler current fight) (hgame : handler.isMessage = false)
    (haccounted : Accounted updates fight []) : (gameContract updates).done () current fight := by
  have hends : (gameContract updates).Ends current [] fight :=
    h.ends hgame (by simp) (fun _ hmem ↦ nomatch hmem) haccounted
  rw [← h.forks] at hends
  exact hends

theorem InTurn.raised {error : LuaError} (h : InTurn handler current fight)
    (hgame : handler.isMessage = false) (haccounted : Accounted updates fight [])
    (herror : error ≠ .assertionFailed) : (gameContract updates).raised error current fight :=
  ⟨herror, h.done hgame haccounted⟩

/-- What a part of the game does that only sends packages: it waits at some calls, and its changes
are those of the messages, without a player who holds five cards. -/
def turnFootprint (waits : Call → Prop) : Footprint skynet Call Fight where
  waits := waits
  changes first last := Interferes first last ∧ Frozen first last
  raises error := error ≠ .assertionFailed

/-- An assertion that is stable under interference, and under which the game is accounted for at the
calls in question, lasts through such a part. -/
theorem steady_during (hgame : handler.isMessage = false) {waits : Call → Prop}
    (hwaits : ∀ call, waits call → call ≠ .start ∧ call ≠ .timer) {holds : Fight → Prop}
    (hstable : ∀ first last, Interferes first last → holds first → holds last)
    (haccounted : ∀ fight, ∀ left : List Point, holds fight →
      (∀ point ∈ left, waits point.call) → Accounted updates fight left) :
    Steady (.relabel handler.at) (gameContract updates) (turnFootprint waits)
      (gameContract updates).raised (During handler holds) where
  heard _ _ _ h := ⟨h.1.hear _, h.2⟩
  change _ _ _ hchange h := ⟨h.1.modify hchange.2, hstable _ _ hchange.1 h.2⟩
  wait call current fight hcall h := by
    obtain ⟨hstart, htimer⟩ := hwaits call hcall
    have hat : handler.at call = ⟨handler, call⟩ := handler.at_of_ne htimer
    refine ⟨?_, fun reply later hrely ↦ ⟨⟨rfl, ?_, fun _ ↦ .refl later⟩, ?_⟩⟩
    · rw [h.1.forks, hat]
      refine h.1.ends hgame (by simp) ?_ (haccounted fight _ h.2 ?_)
      · exact fun other hother ↦ ⟨call, hstart, List.mem_singleton.mp hother⟩
      · exact fun other hother ↦ List.mem_singleton.mp hother ▸ hcall
    · change (handler.at call).handler = handler
      rw [hat]
    · refine hstable _ _ (hrely ?_) h.2
      rw [hat]
      exact hgame
  raise _ _ _ herror h := h.1.raised hgame (haccounted _ _ h.2 fun _ hmem ↦ nomatch hmem) herror

/-- The calls of a game whose result is not being stored. -/
def quiet (call : Call) : Prop := call ≠ .start ∧ call ≠ .timer ∧ call.isSettling = false

/-- An assertion of a game that is going, stable under interference. -/
structure Lasting (updates : List MoneyUpdate) (holds : Fight → Prop) : Prop where
  stable : ∀ first last, Interferes first last → holds first → holds last
  going : ∀ fight, holds fight → Going updates fight

theorem lasting_ready : Lasting updates (Ready updates) :=
  ⟨fun _ _ h hfirst ↦ hfirst.of_interferes h, fun _ h ↦ h.toGoing⟩

/-- A game that is ready in a given phase. -/
def ReadyIn (updates : List MoneyUpdate) (status : RoomStatus) (fight : Fight) : Prop :=
  Ready updates fight ∧ fight.roomStatus = status

theorem lasting_readyIn (status : RoomStatus) : Lasting updates (ReadyIn updates status) :=
  ⟨fun _ _ h hfirst ↦ ⟨hfirst.1.of_interferes h, h.roomStatus.trans hfirst.2⟩,
    fun _ h ↦ h.1.toGoing⟩

theorem lasting_dealing (status : RoomStatus) (few many : ℕ) (rest : List ℕ) :
    Lasting updates (Dealing updates status few many rest) :=
  ⟨fun _ _ h hfirst ↦ hfirst.of_interferes h, fun _ h ↦ h.toGoing⟩

/-- Under an assertion that implies that the game is going, it may send and report. -/
theorem steady_going (hgame : handler.isMessage = false) {holds : Fight → Prop}
    (hlasting : Lasting updates holds) :
    Steady (.relabel handler.at) (gameContract updates) (turnFootprint quiet)
      (gameContract updates).raised (During handler holds) :=
  steady_during hgame (fun _ hquiet ↦ ⟨hquiet.1, hquiet.2.1⟩) hlasting.stable
    fun fight _ hholds hleft ↦ .going (hlasting.going fight hholds) fun point hpoint ↦
      (hleft point hpoint).2.2

theorem ordinary_quiet : Ordinary (turnFootprint quiet) where
  callFailed := LuaError.noConfusion
  invalidKey := LuaError.noConfusion
  indexNil := LuaError.noConfusion
  sends _ _ hpackage := ⟨Call.noConfusion, Call.noConfusion, hpackage⟩

/-- The copy of the room may be written. -/
theorem turnFootprint_room {waits : Call → Prop} {room : RoomInfo} (hroom : fight.room = some room)
    (status : ℕ) : (turnFootprint waits).changes fight
      { fight with room := some { room with status := status } } := by
  have hmap : some { room with status := status } =
      fight.room.map fun room ↦ { room with status := status } := by rw [hroom]; rfl
  rw [hmap]
  exact ⟨.of_room fun _ ↦ rfl, .of_same (fun _ ↦ rfl) fun _ ↦ rfl⟩

/-! ### Parts of the game -/

section Parts

variable (hgame : handler.isMessage = false) {holds : Fight → Prop}
  (hlasting : Lasting updates holds)

include hgame hlasting in
/-- A part of the game within the quiet footprint keeps a lasting assertion. -/
theorem wpIn_quiet {α : Type} {program : FightTask α}
    (hwithin : program.Within (turnFootprint quiet) fight) (h : During handler holds current fight) :
    program.wpIn (.relabel handler.at) (gameContract updates) (fun _ ↦ During handler holds)
      (gameContract updates).raised current fight :=
  (steady_going hgame hlasting).wpIn hwithin h

include hgame hlasting in
theorem wpIn_updateGameProcess (h : During handler holds current fight) :
    updateGameProcess.wpIn (.relabel handler.at) (gameContract updates)
      (fun _ ↦ During handler holds) (gameContract updates).raised current fight :=
  wpIn_quiet hgame hlasting
    (within_updateGameProcess ordinary_quiet fun _ hroom ↦ turnFootprint_room hroom _) h

include hgame in
/-- `get_card_from_card_lst` takes a turn of a deal. -/
theorem wpIn_getCardFromCardLst {status : RoomStatus} {few num many uid : ℕ} {rest : List ℕ}
    (hdeal : Deal status few num many)
    (h : During handler (Dealing updates status few many (uid :: rest)) current fight) :
    (getCardFromCardLst uid num).wpIn (.relabel handler.at) (gameContract updates)
      (fun _ ↦ During handler (Dealing updates status few many rest))
      (gameContract updates).raised current fight := by
  obtain ⟨hdraw, hfrozen⟩ := h.2.draw hdeal
  unfold getCardFromCardLst
  rw [Program.wpIn_relabel_getState_bind, Program.wpIn_relabel_modifyState_bind]
  exact wpIn_quiet hgame (lasting_dealing status few many rest)
    (within_sendPerflop ordinary_quiet uid _) ⟨h.1.modify hfrozen, hdraw⟩

include hgame in
/-- `onShuffle` shuffles the deck and takes the first deal. -/
theorem wpIn_onShuffle (h : During handler (Dealing updates .ready 0 0 []) current fight) :
    onShuffle.wpIn (.relabel handler.at) (gameContract updates)
      (fun _ ↦ During handler (Ready updates)) (gameContract updates).raised current fight := by
  unfold onShuffle
  rw [Program.wpIn_relabel_getState_bind]
  refine Program.wpIn_seq_at (fun _ ↦ During handler (Dealing updates .ready 0 0 []))
    (Program.wpIn_forEach (fun _ ↦ During handler (Dealing updates .ready 0 0 [])) ?_
      (fun _ _ hlast ↦ hlast) h) fun _ current fight h ↦ ?_
  · intro place rest current fight h
    refine (Program.wpIn_bind _ _ _ _ _ _).mpr (wpIn_mathRandom fun rankNum _ _ ↦ ?_)
    rw [Program.wpIn_relabel_modifyState]
    exact ⟨(h.1.hear _).modify (.of_same (fun _ ↦ rfl) fun _ ↦ rfl),
      h.2.of_perm (swapCards_perm _ _ _)⟩
  · rw [Program.wpIn_relabel_getState_bind]
    refine (Program.wpIn_bind _ _ _ _ _ _).mpr (wpIn_pairs fun order horder ↦ ?_)
    refine Program.wpIn_forEach
      (fun rest ↦ During handler (Dealing updates .ready 0 4 rest)) ?_
      (fun _ _ hlast ↦ ⟨hlast.1, hlast.2.ready⟩) ⟨h.1.hear _, h.2.first horder⟩
    exact fun uid rest current fight h ↦ wpIn_getCardFromCardLst hgame deal_ready h

/-! ### The phases -/

/-- A phase begins now. -/
theorem wpIn_enterStatus {status : RoomStatus} {post : Unit → Section skynet Point Fight → Fight → Prop}
    (h : ∀ now heard, post () { current with heard := heard }
      { fight with statusBegin := now, roomStatus := status }) :
    (enterStatus status).wpIn (.relabel handler.at) (gameContract updates) post
      (gameContract updates).raised current fight :=
  (Program.wpIn_bind _ _ _ _ _ _).mpr (wpIn_osTime fun now ↦ h now _)

include hgame in
/-- `checkStatus`, before the election. -/
theorem wpIn_checkReady (h : During handler (Ready updates) current fight) :
    checkReady.wpIn (.relabel handler.at) (gameContract updates)
      (fun _ ↦ During handler (Ready updates)) (gameContract updates).raised current fight := by
  unfold checkReady
  rw [Program.wpIn_relabel_getState_bind]
  split
  · rename_i hphase
    refine Program.wpIn_seq (wpIn_quiet hgame (lasting_readyIn .ready) (within_phaseEnds _ _)
      ⟨h.1, h.2, hphase⟩) fun ends current later h ↦ ?_
    split
    · split
      · refine (Program.wpIn_bind _ _ _ _ _ _).mpr (wpIn_enterStatus fun now heard ↦ ?_)
        refine Program.wpIn_seq (wpIn_updateGameProcess hgame lasting_ready
          ⟨(h.1.hear heard).modify ?_, h.2.1.askLeader h.2.2 now⟩) fun _ _ _ h ↦ h
        exact .of_same (fun _ ↦ rfl) fun _ ↦ rfl
      · refine Program.wpIn_seq (wpIn_quiet hgame lasting_ready ?_ ⟨h.1, h.2.1⟩) fun _ _ _ h ↦ h
        exact within_getRoom_bind ordinary_quiet fun room _ ↦
          within_call ⟨Call.noConfusion, Call.noConfusion, rfl⟩ LuaError.noConfusion
    · exact ⟨h.1, h.2.1⟩
  · exact h

/-- The votes name a player of the game. -/
theorem wpIn_electLeader (h : During handler (ReadyIn updates .askLeader) current fight) :
    electLeader.wpIn (.relabel handler.at) (gameContract updates)
      (fun ballot current fight ↦ During handler (ReadyIn updates .askLeader) current fight ∧
        ∀ leader, ballot.leader = some leader → leader ∈ fight.playerLst.keys)
      (gameContract updates).raised current fight :=
  wpIn_electLeader_of (fun _ _ _ h ↦ ⟨h.1.hear _, h.2⟩) h

include hgame in
/-- The new banker is installed and the choice of odds begins. -/
theorem wpIn_installLeader {leader : ℕ}
    (h : During handler (ReadyIn updates .askLeader) current fight)
    (hplays : leader ∈ fight.playerLst.keys) :
    (installLeader leader).wpIn (.relabel handler.at) (gameContract updates)
      (fun _ ↦ During handler (Ready updates)) (gameContract updates).raised current fight := by
  have hthaw : ∀ {fight last : Fight}, ReadyIn updates .askLeader fight → Frozen fight last :=
    fun hready ↦ .of_ne (hready.1.length_hand_ne_five (by rw [hready.2]; exact RoomStatus.noConfusion))
  have hreset : ∀ {fight : Fight} {uid : ℕ} {change : Player → Player},
      (∀ player, (change player).handCardLst = player.handCardLst) →
      (∀ player, (change player).winMoney = player.winMoney) →
      ReadyIn updates .askLeader fight → ReadyIn updates .askLeader (fight.updatePlayer uid change) :=
    fun hhand hmoney hready ↦ (lasting_readyIn .askLeader).stable _ _
      (.of_updatePlayer hhand hmoney fun hask _ ↦ absurd hready.2 hask) hready
  unfold installLeader
  rw [Program.wpIn_relabel_modifyState_bind, Program.wpIn_relabel_getState_bind]
  refine (Program.wpIn_bind _ _ _ _ _ _).mpr (wpIn_pairs fun order _ ↦ ?_)
  refine Program.wpIn_seq_at (fun _ ↦ During handler fun fight ↦
      ReadyIn updates .askLeader fight ∧ fight.roomLeader = some leader ∧
        leader ∈ fight.playerLst.keys)
    (Program.wpIn_forEach (fun _ ↦ During handler fun fight ↦
      ReadyIn updates .askLeader fight ∧ fight.roomLeader = some leader ∧
        leader ∈ fight.playerLst.keys) ?_ (fun _ _ hlast ↦ hlast) ?_) fun _ current fight h ↦ ?_
  · intro uid rest current fight ⟨hturn, hready, hleader, hmem⟩
    rw [Program.wpIn_relabel_modifyState]
    refine ⟨hturn.modify (hthaw hready), hreset (fun _ ↦ rfl) (fun _ ↦ rfl) hready, hleader, ?_⟩
    rw [Fight.keys_updatePlayer]
    exact hmem
  · have helected : ReadyIn updates .askLeader
        (fight.updatePlayer leader fun player ↦ { player with isLeader := true }) :=
      hreset (fun _ ↦ rfl) (fun _ ↦ rfl) h.2
    refine ⟨(h.1.hear _).modify (hthaw h.2), ⟨helected.1.elect helected.2 leader, helected.2⟩, rfl, ?_⟩
    change leader ∈ (fight.updatePlayer leader _).playerLst.keys
    rw [Fight.keys_updatePlayer]
    exact hplays
  · obtain ⟨hturn, hready, hleader, hmem⟩ := h
    rw [Program.wpIn_relabel_modifyState_bind]
    exact wpIn_updateGameProcess hgame lasting_ready
      ⟨hturn.modify (hthaw hready), hready.1.selectOdds hready.2 hleader hmem⟩

include hgame in
/-- `checkStatus`, in the election phase. -/
theorem wpIn_checkAskLeader (h : During handler (Ready updates) current fight) :
    checkAskLeader.wpIn (.relabel handler.at) (gameContract updates)
      (fun _ ↦ During handler (Ready updates)) (gameContract updates).raised current fight := by
  unfold checkAskLeader
  rw [Program.wpIn_relabel_getState_bind]
  split
  · rename_i hphase
    refine (Program.wpIn_bind _ _ _ _ _ _).mpr (wpIn_pairs fun order _ ↦ ?_)
    refine Program.wpIn_seq (wpIn_quiet hgame (lasting_readyIn .askLeader)
      (Program.within_foldlM fun marked uid _ later ↦ within_markBidder marked uid ?_)
      ⟨h.1.hear _, h.2, hphase⟩) fun marked current fight h ↦ ?_
    · exact ⟨.of_updatePlayer (fun _ ↦ rfl) (fun _ ↦ rfl) fun _ _ _ ↦ rfl,
        .of_updatePlayer (fun _ ↦ rfl) fun _ ↦ rfl⟩
    · refine Program.wpIn_seq (wpIn_quiet hgame (lasting_readyIn .askLeader)
        (within_showBids ordinary_quiet _) h) fun _ current fight h ↦ ?_
      · refine Program.wpIn_seq (wpIn_quiet hgame (lasting_readyIn .askLeader)
          (within_phaseEnds _ _) h) fun ends current fight h ↦ ?_
        split
        · refine (Program.wpIn_bind _ _ _ _ _ _).mpr (wpIn_osTime fun now ↦ ?_)
          rw [Program.wpIn_relabel_modifyState_bind]
          have hlater : Interferes fight { fight with statusBegin := now } :=
            .of_same rfl rfl rfl rfl rfl rfl
          refine Program.wpIn_seq (wpIn_electLeader ⟨(h.1.hear _).modify
            (.of_same (fun _ ↦ rfl) fun _ ↦ rfl),
            (lasting_readyIn .askLeader).stable _ _ hlater h.2⟩) fun ballot current fight h ↦ ?_
          split
          · rw [Program.wpIn_fail]
            exact h.1.1.raised hgame (.going h.1.2.1.toGoing fun _ hmem ↦ nomatch hmem)
              LuaError.noConfusion
          · rename_i leader hleader
            exact wpIn_installLeader hgame h.1 (h.2 leader hleader)
        · exact ⟨h.1, h.2.1⟩
  · exact h

include hgame in
/-- One turn of the last deal. -/
theorem wpIn_dealLastCard {uid : ℕ} {rest : List ℕ} (notifyUserLst : List ℕ)
    (h : During handler (Dealing updates .selectOdds 4 5 (uid :: rest)) current fight) :
    (dealLastCard notifyUserLst uid).wpIn (.relabel handler.at) (gameContract updates)
      (fun _ ↦ During handler (Dealing updates .selectOdds 4 5 rest))
      (gameContract updates).raised current fight := by
  obtain ⟨player, hplayer⟩ := Fight.mem_keys_iff.mp (h.2.plays uid List.mem_cons_self)
  unfold dealLastCard
  rw [Program.wpIn_relabel_getState_bind]
  simp only [hplayer]
  refine Program.wpIn_seq_at (fun _ ↦
    During handler (Dealing updates .selectOdds 4 5 (uid :: rest))) ?_ fun _ current fight h ↦ ?_
  · unfold chooseDefault
    split
    · rw [Program.wpIn_relabel_modifyState]
      have hinterferes : Interferes fight
          (fight.updatePlayer uid fun player ↦ { player with odds := 5 }) :=
        .of_updatePlayer (fun _ ↦ rfl) (fun _ ↦ rfl) fun _ hselect ↦ absurd h.2.phase hselect
      refine ⟨h.1.modify fun other hfive ↦ ?_, h.2.of_interferes hinterferes⟩
      -- the player of this turn holds four cards, so the odds of the others are at stake
      have hne : other ≠ uid := by
        rintro rfl
        have hfour := h.2.counts other (h.2.plays other List.mem_cons_self)
        rw [if_pos List.mem_cons_self] at hfour
        omega
      exact ⟨hinterferes.hand other, Fight.odds_updatePlayer_of_ne _ hne⟩
    · exact h
  · exact Program.wpIn_seq (wpIn_getCardFromCardLst hgame deal_selectOdds h) fun _ _ _ h ↦ h

include hgame in
/-- `checkStatus`, in the phase that selects the odds. -/
theorem wpIn_checkSelectOdds (h : During handler (Ready updates) current fight) :
    checkSelectOdds.wpIn (.relabel handler.at) (gameContract updates)
      (fun _ ↦ During handler (Ready updates)) (gameContract updates).raised current fight := by
  unfold checkSelectOdds
  rw [Program.wpIn_relabel_getState_bind]
  split
  · rename_i hphase
    refine Program.wpIn_seq (wpIn_quiet hgame (lasting_readyIn .selectOdds) (within_phaseEnds _ _)
      ⟨h.1, h.2, hphase⟩) fun ends current fight h ↦ ?_
    split
    · rw [Program.wpIn_relabel_getState_bind]
      refine (Program.wpIn_bind _ _ _ _ _ _).mpr (wpIn_pairs fun order horder ↦ ?_)
      refine Program.wpIn_seq_at (fun _ ↦ During handler (Dealing updates .selectOdds 4 5 []))
        (Program.wpIn_foldlM
          (fun rest _ ↦ During handler (Dealing updates .selectOdds 4 5 rest))
          (fun uid rest notifyUserLst current fight h ↦ wpIn_dealLastCard hgame notifyUserLst h)
          (fun _ _ _ hlast ↦ hlast) ⟨h.1.hear _, h.2.1.dealing h.2.2 horder⟩)
        fun notifyUserLst current fight h ↦ ?_
      refine Program.wpIn_seq (wpIn_quiet hgame (lasting_dealing .selectOdds 4 5 [])
        (within_sendUserOdds ordinary_quiet _) h) fun _ current fight h ↦ ?_
      refine (Program.wpIn_bind _ _ _ _ _ _).mpr (wpIn_enterStatus fun now heard ↦ ?_)
      exact wpIn_updateGameProcess hgame lasting_ready
        ⟨(h.1.hear heard).modify (.of_same (fun _ ↦ rfl) fun _ ↦ rfl), h.2.gameEnd now⟩
    · exact ⟨h.1, h.2.1⟩
  · exact h

/-! ### The end of the game -/

/-- A game that is storing its result, with the calls for the players of a list answered. -/
def Storing (updates : List MoneyUpdate) (answered : List ℕ) (fight : Fight) : Prop :=
  ∃ calls, Settled updates calls fight ∧ calls.map MoneyUpdate.uid = answered

theorem Storing.of_interferes {answered : List ℕ} {first last : Fight} (h : Interferes first last)
    (hfirst : Storing updates answered first) : Storing updates answered last :=
  hfirst.imp fun _ hcalls ↦ ⟨hcalls.1.of_interferes h, hcalls.2⟩

include hgame in
/-- `new_dao.call ("update_user_money", …)` for one more player: whatever the reply, the call has been
answered. -/
theorem wpIn_updateUserMoney {uid : ℕ} {answered : List ℕ}
    (h : During handler (Storing updates answered) current fight)
    (hplays : uid ∈ fight.playerLst.keys) (hnew : uid ∉ answered) :
    (updateUserMoney uid (fight.winMoney uid)).wpIn (.relabel handler.at) (gameContract updates)
      (fun _ current later ↦ During handler (Storing updates (answered ++ [uid])) current later ∧
        later.playerLst.keys = fight.playerLst.keys)
      (gameContract updates).raised current fight := by
  unfold updateUserMoney
  rw [Program.wpIn_relabel_modifyState_bind, Program.wpIn_relabel_getState_bind]
  generalize hcursor : (if fight.curDbsId > fight.dbServiceCnt then { fight with curDbsId := 1 }
    else fight) = chosen
  have hchosen : Interferes fight chosen ∧ Frozen fight chosen := by
    rw [← hcursor]
    split_ifs
    · exact ⟨.of_same rfl rfl rfl rfl rfl rfl, .of_same (fun _ ↦ rfl) fun _ ↦ rfl⟩
    · exact ⟨.refl fight, .refl fight⟩
  obtain ⟨calls, hsettled, hcalls⟩ := h.2
  rw [Program.wpIn_bind, Program.wpIn_relabel_await]
  refine ⟨?_, fun reply later hrely ↦ ?_⟩
  · rw [h.1.forks]
    refine (h.1.modify hchosen.2).ends hgame (by simp) ?_
      (.settled calls (hsettled.of_interferes hchosen.1) fun hquiet ↦ ?_)
    · exact fun other hother ↦ ⟨_, Call.noConfusion, List.mem_singleton.mp hother⟩
    · exact nomatch hquiet _ List.mem_cons_self
  · have hinterferes : Interferes fight later := hchosen.1.trans (hrely hgame)
    have hwin : later.winMoney uid = fight.winMoney uid := hinterferes.winMoney uid
    have hstoring : ∀ executed, Storing updates (answered ++ [uid])
        (later.answered uid (fight.winMoney uid) executed) := by
      intro executed
      have hplaysLater : uid ∈ later.playerLst.keys := hinterferes.keys ▸ hplays
      have hnext := (hsettled.of_interferes hinterferes).answered hplaysLater (hcalls ▸ hnew)
        executed
      rw [hwin] at hnext
      exact ⟨_, hnext, by simp [hcalls]⟩
    have hturn : InTurn handler ⟨⟨handler, .updateUserMoney chosen.curDbsId uid (fight.winMoney uid)⟩,
        later, [reply], []⟩ later := ⟨rfl, rfl, fun _ ↦ .refl later⟩
    split
    · rw [Program.wpIn_relabel_modifyState_bind]
      exact ⟨⟨hturn.modify (.of_same (fun _ ↦ rfl) fun _ ↦ rfl), hstoring false⟩,
        hinterferes.keys⟩
    · rw [Program.wpIn_relabel_modifyState_bind]
      have hcursor : Interferes (later.answered uid (fight.winMoney uid) (reply = .ok))
          { later.answered uid (fight.winMoney uid) (reply = .ok) with
            curDbsId := later.curDbsId + 1 } := .of_same rfl rfl rfl rfl rfl rfl
      exact ⟨⟨hturn.modify (.of_same (fun _ ↦ rfl) fun _ ↦ rfl),
        (hstoring (reply = .ok)).of_interferes hcursor⟩, hinterferes.keys⟩

include hgame in
/-- The save loop calls `update_user_money` once for every player. -/
theorem wpIn_saveResults (h : During handler (Settled updates []) current fight) :
    saveResults.wpIn (.relabel handler.at) (gameContract updates)
      (fun _ ↦ During handler fun fight ↦ ∃ calls, Settled updates calls fight ∧
        ∀ uid ∈ fight.playerLst.keys, uid ∈ calls.map MoneyUpdate.uid)
      (gameContract updates).raised current fight := by
  unfold saveResults
  rw [Program.wpIn_relabel_getState_bind]
  refine (Program.wpIn_bind _ _ _ _ _ _).mpr (wpIn_pairs fun order horder ↦ ?_)
  refine Program.wpIn_foldlM (fun rest _ current later ↦ ∃ answered,
      During handler (Storing updates answered) current later ∧ order = answered ++ rest ∧
        later.playerLst.keys = fight.playerLst.keys) ?_ ?_
    ⟨[], ⟨h.1.hear _, [], h.2, rfl⟩, rfl, rfl⟩
  · intro uid rest result current later ⟨answered, h, hsplit, hkeys⟩
    have huid : uid ∈ later.playerLst.keys := by
      rw [hkeys]
      exact horder.mem_iff.mp (by simp [hsplit])
    have hnew : uid ∉ answered := by
      have hnodup := horder.1
      rw [hsplit, List.nodup_append] at hnodup
      exact fun hin ↦ hnodup.2.2 uid hin uid List.mem_cons_self rfl
    rw [Program.wpIn_relabel_getState_bind]
    refine Program.wpIn_seq (wpIn_updateUserMoney hgame h huid hnew) fun _ current last hlast ↦ ?_
    exact ⟨answered ++ [uid], hlast.1, by simp [hsplit], hlast.2.trans hkeys⟩
  · intro _ current later ⟨answered, h, hsplit, hkeys⟩
    obtain ⟨hturn, calls, hsettled, hcalls⟩ := h
    refine ⟨hturn, calls, hsettled, fun uid huid ↦ ?_⟩
    rw [hcalls, ← List.append_nil answered, ← hsplit, horder.mem_iff, ← hkeys]
    exact huid

/-- The calls of a game whose result is stored. -/
def showing (call : Call) : Prop := call ≠ .start ∧ call ≠ .timer ∧ call.isSaving = false

theorem ordinary_showing : Ordinary (turnFootprint showing) where
  callFailed := LuaError.noConfusion
  invalidKey := LuaError.noConfusion
  indexNil := LuaError.noConfusion
  sends _ _ _ := ⟨Call.noConfusion, Call.noConfusion, rfl⟩

include hgame in
/-- A game whose result is stored may show it and report. -/
theorem steady_stored :
    Steady (.relabel handler.at) (gameContract updates) (turnFootprint showing)
      (gameContract updates).raised (During handler fun fight ↦ ∃ calls, Settled updates calls fight ∧
        ∀ uid ∈ fight.playerLst.keys, uid ∈ calls.map MoneyUpdate.uid) :=
  steady_during hgame (fun _ hshowing ↦ ⟨hshowing.1, hshowing.2.1⟩)
    (fun _ _ h hstored ↦ hstored.imp fun _ hcalls ↦
      ⟨hcalls.1.of_interferes h, fun uid huid ↦ hcalls.2 uid (h.keys ▸ huid)⟩)
    fun _ _ ⟨calls, hsettled, hall⟩ _ ↦ .settled calls hsettled fun _ ↦ hall

include hgame in
/-- `checkStatus`, in the last phase: the game is ready for another turn, or it is over. -/
theorem wpIn_checkGameEnd (h : During handler (Ready updates) current fight) :
    checkGameEnd.wpIn (.relabel handler.at) (gameContract updates)
      (fun goesOn current fight ↦ InTurn handler current fight ∧
        if goesOn then Ready updates fight else Accounted updates fight [])
      (gameContract updates).raised current fight := by
  unfold checkGameEnd
  rw [Program.wpIn_relabel_getState_bind]
  split
  · rename_i hphase
    refine Program.wpIn_seq (wpIn_quiet hgame (lasting_readyIn .gameEnd) (within_phaseEnds _ _)
      ⟨h.1, h.2, hphase⟩) fun ends current fight h ↦ ?_
    split
    · rw [Program.wpIn_relabel_getState_bind]
      refine (Program.wpIn_bind _ _ _ _ _ _).mpr (wpIn_pairs fun order horder ↦ ?_)
      have hturn := h.1.hear (current.heard ++ [.order order])
      refine (Program.wpIn_bind _ _ _ _ _ _).mpr ((Program.wpIn_tryModify _ _ _ _ _).mpr ?_)
      rcases h.2.1.settle h.2.2 horder with ⟨last, hok, hsettled, hfrozen⟩ |
        ⟨left, herror, hgoing, hfrozen⟩
      · refine ⟨fun changed hchanged ↦ ?_, fun _ _ hfail ↦ nomatch hok.symm.trans hfail⟩
        obtain rfl : last = changed := Except.ok.inj (hok.symm.trans hchanged)
        refine Program.wpIn_seq (wpIn_saveResults hgame ⟨hturn.modify hfrozen, hsettled⟩)
          fun result current fight h ↦ ?_
        refine Program.wpIn_seq ((steady_stored hgame).wpIn (within_showResult ordinary_showing
          (fun _ _ ↦ ⟨Call.noConfusion, Call.noConfusion, rfl⟩)
          (fun _ ↦ ⟨Call.noConfusion, Call.noConfusion, rfl⟩) result) h) fun _ current fight h ↦ ?_
        obtain ⟨hover, calls, hlast, hall⟩ := h
        exact ⟨hover, .settled calls hlast fun _ ↦ hall⟩
      · refine ⟨(fun _ hfail ↦ nomatch herror.symm.trans hfail), fun error changed hchanged ↦ ?_⟩
        obtain ⟨rfl, rfl⟩ : error = .arithmeticOnNil ∧ changed = left := by
          have heq := Except.error.inj (hchanged.symm.trans herror)
          exact ⟨congrArg Prod.fst heq, congrArg Prod.snd heq⟩
        exact (hturn.modify hfrozen).raised hgame (.going hgoing fun _ hmem ↦ nomatch hmem)
          LuaError.noConfusion
    · exact ⟨h.1, h.2.1⟩
  · exact h

/-! ### Turns -/

include hgame in
/-- A turn of `checkStatus` keeps the contract: it ends with the timer for the next turn, or the game
is over. -/
theorem wpIn_checkStatus (h : During handler (Ready updates) current fight) :
    checkStatus.wpIn (.relabel handler.at) (gameContract updates) (gameContract updates).done
      (gameContract updates).raised current fight := by
  have hready : ∀ {fight : Fight}, Ready updates fight → Accounted updates fight [] :=
    fun hready ↦ .going hready.toGoing fun _ hmem ↦ nomatch hmem
  unfold checkStatus
  refine Program.wpIn_seq (wpIn_checkReady hgame h) fun goesOn current fight h ↦ ?_
  split
  · refine Program.wpIn_seq (wpIn_checkAskLeader hgame h) fun _ current fight h ↦ ?_
    refine Program.wpIn_seq (wpIn_checkSelectOdds hgame h) fun _ current fight h ↦ ?_
    refine Program.wpIn_seq (wpIn_checkGameEnd hgame h) fun goesOn current fight h ↦ ?_
    split
    · rename_i hgoesOn
      rw [if_pos hgoesOn] at h
      rw [Program.wpIn_spawn]
      -- the section ends with the next turn of `checkStatus` waiting for its timer
      refine ⟨⟨fun hmessage ↦ ?_, fun _ ↦ ⟨?_, ?_, ?_, h.1.frozen⟩⟩, ?_⟩
      · rw [h.1.serves, hgame] at hmessage
        exact nomatch hmessage
      · simp [h.1.forks]
      · rw [h.1.forks]
        exact fun other hother ↦ List.mem_singleton.mp hother ▸ ⟨rfl, rfl⟩
      · rw [h.1.forks]
        exact .going h.2.toGoing fun point hpoint ↦ List.mem_singleton.mp hpoint ▸ rfl
      · rw [h.1.forks]
        exact fun point hpoint ↦ List.mem_singleton.mp hpoint ▸ h.2
    · rename_i hover
      rw [if_neg hover] at h
      exact h.1.done hgame h.2
  · exact h.1.done hgame (hready h.2)

/-- `onStart` keeps the contract. -/
theorem wpIn_onStart {roomInfo : RoomInfo} {origin : Fight} {heard : List Answer}
    (hplayers : roomInfo.playerLst.size ≤ 10) (hupdates : origin.moneyUpdates = updates) :
    (onStart roomInfo).wpIn (.relabel (Handler.onStart roomInfo).at) (gameContract updates)
      (gameContract updates).done (gameContract updates).raised
      ⟨⟨.onStart roomInfo, .start⟩, origin, heard, []⟩ origin := by
  have hgame : (Handler.onStart roomInfo).isMessage = false := rfl
  unfold onStart
  refine (Program.wpIn_bind _ _ _ _ _ _).mpr (wpIn_pairs fun order horder ↦ ?_)
  refine (Program.wpIn_bind _ _ _ _ _ _).mpr (wpIn_osTime fun now ↦ ?_)
  rw [Program.wpIn_relabel_modifyState_bind]
  have hnew : Dealing updates .ready 0 0 [] (newGame origin roomInfo order now) :=
    dealing_newGame hplayers horder hupdates
  refine Program.wpIn_seq (wpIn_updateGameProcess hgame (lasting_dealing .ready 0 0 [])
    ⟨⟨rfl, rfl, fun hopens ↦ nomatch hopens⟩, hnew⟩) fun _ current fight h ↦ ?_
  refine Program.wpIn_seq (wpIn_quiet hgame (lasting_dealing .ready 0 0 []) (within_call
    ⟨Call.noConfusion, Call.noConfusion, rfl⟩ LuaError.noConfusion) h) fun _ current fight h ↦ ?_
  refine Program.wpIn_seq (wpIn_onShuffle hgame h) fun _ current fight h ↦ ?_
  exact wpIn_checkStatus hgame h

/-- Every coroutine of the game keeps the contract. -/
theorem keeps_game {reply : Answer} {point : Point} (hstart : startsWell updates point fight) :
    (gameContract updates).Keeps (fightService.entry point) ⟨point, fight, [reply], []⟩ fight := by
  obtain ⟨handler, call⟩ := point
  cases call with
  | start =>
    cases handler with
    | onStart roomInfo => exact wpIn_onStart hstart.1 hstart.2
    | checkStatus => exact wpIn_checkStatus rfl ⟨⟨rfl, rfl, fun _ ↦ .refl fight⟩, hstart⟩
    | onGetLeader uid odds => exact keeps_message rfl reply
    | onSetOdds uid odds => exact keeps_message rfl reply
    | onPackCard uid retCardLst => exact keeps_message rfl reply
    | onKickOut uid => exact keeps_message rfl reply
  | _ => cases handler <;> exact hstart.elim

end Parts

end SvrDemo.Douniu
