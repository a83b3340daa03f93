import SvrDemo.Douniu.Stakes

/-!
# The players and the room of a fight

Once a game has begun, nothing that its fight service does changes who plays it or the room it is played
for: `KeepsSeats`. Only `onStart` does, at the start of the next game.

`wpIn_checkStatus_over` is the rule for `checkStatus` that the embedding of a fight service uses. It follows
one assertion for the game that goes on (`live`) and one for the game that has reached `onGameOver` (`reached`):
a turn of `checkStatus` ends with the timer for the next turn while the game goes on, and without one when it
is over.
-/

set_option autoImplicit false
set_option relaxedAutoImplicit false

namespace SvrDemo.Douniu

open Coroutine Lua Skynet

/-! ### Changes that keep the players and the room -/

/-- The player who has a key in the copy of the room. -/
def Fight.seated (fight : Fight) (key : ℕ) : Option RoomPlayer :=
  fight.room.bind fun room ↦ room.playerLst.lookup key

/-- A change after which the same players play for the same room, and nobody has entered its copy. -/
structure KeepsSeats (first last : Fight) : Prop where
  keys : last.playerLst.keys = first.playerLst.keys
  roomId : last.room.map RoomInfo.roomId = first.room.map RoomInfo.roomId
  seated : ∀ key player, last.seated key = some player → first.seated key = some player

namespace KeepsSeats

variable {first middle last fight : Fight}

theorem refl (fight : Fight) : KeepsSeats fight fight :=
  ⟨rfl, rfl, fun _ _ hplayer ↦ hplayer⟩

theorem trans (h : KeepsSeats first middle) (h' : KeepsSeats middle last) : KeepsSeats first last :=
  ⟨h'.keys.trans h.keys, h'.roomId.trans h.roomId, fun key player hplayer ↦
    h.seated key player (h'.seated key player hplayer)⟩

/-- A change of other variables. -/
theorem of_same (hkeys : last.playerLst.keys = first.playerLst.keys) (hroom : last.room = first.room) :
    KeepsSeats first last := by
  refine ⟨hkeys, by rw [hroom], fun key player hplayer ↦ ?_⟩
  rw [Fight.seated, hroom] at hplayer
  exact hplayer

/-- A change of the copy of the room that keeps its id and adds no player. -/
theorem of_room {room changed : RoomInfo} (hroom : fight.room = some room)
    (hid : changed.roomId = room.roomId)
    (hplayers : ∀ key player, changed.playerLst.lookup key = some player →
      room.playerLst.lookup key = some player) :
    KeepsSeats fight { fight with room := some changed } := by
  refine ⟨rfl, by rw [hroom, Option.map_some, Option.map_some, hid], fun key player hplayer ↦ ?_⟩
  rw [Fight.seated, hroom]
  exact hplayers key player hplayer

end KeepsSeats

/-- A change after which the same players play at the same table: the copy of the room is as it was, up to the
phase noted in it. -/
structure SameTable (first last : Fight) : Prop where
  keys : last.playerLst.keys = first.playerLst.keys
  room : last.room = first.room ∨
    ∃ room status, first.room = some room ∧ last.room = some { room with status := status }

namespace SameTable

variable {first last fight : Fight}

/-- A change of other variables. -/
theorem of_same (hkeys : last.playerLst.keys = first.playerLst.keys) (hroom : last.room = first.room) :
    SameTable first last :=
  ⟨hkeys, .inl hroom⟩

/-- A change of one record. -/
theorem of_updatePlayer (fight : Fight) (uid : ℕ) (change : Player → Player) :
    SameTable fight (fight.updatePlayer uid change) :=
  .of_same (fight.keys_updatePlayer uid change) rfl

/-- The phase is noted in the copy of the room. -/
theorem of_status {room : RoomInfo} (hroom : fight.room = some room) (status : ℕ) :
    SameTable fight { fight with room := some { room with status := status } } :=
  ⟨rfl, .inr ⟨room, status, hroom, rfl⟩⟩

theorem of_drawCards (fight : Fight) (uid num : ℕ) : SameTable fight (fight.drawCards uid num).2 := by
  rw [Fight.drawCards_eq]
  exact .of_same (fight.keys_updatePlayer uid _) rfl

theorem keepsSeats (h : SameTable first last) : KeepsSeats first last := by
  rcases h.room with hsame | ⟨room, status, hfirst, hlast⟩
  · exact .of_same h.keys hsame
  · refine ⟨h.keys, by rw [hfirst, hlast]; rfl, fun key player hplayer ↦ ?_⟩
    rw [Fight.seated, hlast] at hplayer
    rw [Fight.seated, hfirst]
    exact hplayer

theorem roomOdds (h : SameTable first last) : last.roomOdds = first.roomOdds := by
  rcases h.room with hsame | ⟨room, status, hfirst, hlast⟩
  · rw [Fight.roomOdds, hsame, Fight.roomOdds]
  · rw [Fight.roomOdds, Fight.roomOdds, hfirst, hlast]
    rfl

end SameTable

/-- One turn of the settlement loop does not touch the copy of the room, also when it fails. -/
theorem room_settlePlayer (leaderUid : ℕ) (fight : Fight) (uid : ℕ) :
    (settleResult (fight.settlePlayer leaderUid uid)).2.room = fight.room := by
  unfold Fight.settlePlayer
  split
  · rfl
  split
  · split
    · rfl
    · split
      · rfl
      · split
        · rfl
        · rfl
  · rfl

theorem room_settleLoop (leaderUid : ℕ) (order : List ℕ) : ∀ fight : Fight,
    (settleResult (order.foldlM (Fight.settlePlayer leaderUid) fight)).2.room = fight.room := by
  induction order with
  | nil => exact fun fight ↦ rfl
  | cons uid order ih =>
    intro fight
    have hturn := room_settlePlayer leaderUid fight uid
    rw [List.foldlM_cons]
    cases hresult : fight.settlePlayer leaderUid uid with
    | error failure =>
      rw [hresult] at hturn
      exact hturn
    | ok next =>
      rw [hresult] at hturn
      exact (ih next).trans hturn

/-- The settlement keeps the players and the room, also when it fails. -/
theorem sameTable_settle (order : List ℕ) (fight : Fight) :
    SameTable fight (settleResult (fight.settle order)).2 := by
  refine .of_same (keepsPhase_settle order fight).keys ?_
  unfold Fight.settle
  split
  · exact room_settleLoop _ order fight
  · split
    · rfl
    · rfl

/-! ### The footprint -/

/-- The footprint of what keeps the players and the room of a fight and waits at some calls. -/
def seating (waits : Call → Prop) : Footprint skynet Call Fight where
  waits := waits
  changes := KeepsSeats
  raises _ := True

/-- The calls of a game that goes on: all but the report to the lobby. -/
def Call.inGame : Call → Prop
  | .unlockRoom _ => False
  | _ => True

/-- The footprints that allow what the programs of a game do at their table: they may find a message without its
number, and they leave the table as it is. -/
structure Gaming (F : Footprint skynet Call Fight) : Prop extends Ordinary F where
  compareNil : F.raises .compareNil
  concatNil : F.raises .concatNil
  changes : ∀ first last, SameTable first last → F.changes first last

section Within

variable {F : Footprint skynet Call Fight} {waits : Call → Prop} {fight : Fight}

theorem gaming_seating (hsends : ∀ agent package, waits (.sendPackCli agent package)) :
    Gaming (seating waits) where
  callFailed := trivial
  invalidKey := trivial
  indexNil := trivial
  sends agent package _ := hsends agent package
  compareNil := trivial
  concatNil := trivial
  changes _ _ h := h.keepsSeats

theorem Gaming.updatePlayer (hF : Gaming F) (fight : Fight) (uid : ℕ) (change : Player → Player) :
    F.changes fight (fight.updatePlayer uid change) :=
  hF.changes _ _ (.of_updatePlayer fight uid change)

theorem gaming_updateGameProcess (hF : Gaming F) :
    updateGameProcess.Within F fight :=
  within_updateGameProcess hF.toOrdinary fun _ hroom ↦ hF.changes _ _ (.of_status hroom _)

theorem gaming_getCardFromCardLst (hF : Gaming F) (uid num : ℕ) :
    (getCardFromCardLst uid num).Within F fight :=
  (Program.within_getState_bind _).mpr ((Program.within_modifyState_bind _ _).mpr
    ⟨hF.changes _ _ (.of_drawCards fight uid num), within_sendPerflop hF.toOrdinary uid _⟩)

theorem gaming_onShuffle (hF : Gaming F) : onShuffle.Within F fight := by
  refine (Program.within_getState_bind _).mpr (Program.within_bind
    (Program.within_forEach fun place _ later ↦ ?_) fun _ later ↦ ?_)
  · exact Program.within_bind (within_mathRandom 52) fun rankNum later ↦
      (Program.within_modifyState _).mpr (hF.changes _ _ (.of_same rfl rfl))
  · refine (Program.within_getState_bind _).mpr (Program.within_bind (within_pairs _) fun order _ ↦ ?_)
    exact Program.within_forEach fun uid _ later ↦ gaming_getCardFromCardLst hF uid 4

theorem gaming_enterStatus (hF : Gaming F) (status : RoomStatus) : (enterStatus status).Within F fight :=
  Program.within_bind within_osTime fun _ _ ↦ (Program.within_modifyState _).mpr (hF.changes _ _ (.of_same rfl rfl))

theorem gaming_electLeader : electLeader.Within F fight := by
  refine (Program.within_getState_bind _).mpr (Program.within_bind (within_pairs _) fun order _ ↦ ?_)
  exact Program.within_foldlM fun ballot uid _ later ↦
    (Program.within_getState_bind _).mpr (within_voteFor ballot uid _)

theorem gaming_installLeader (hF : Gaming F) (leader : ℕ) :
    (installLeader leader).Within F fight := by
  refine (Program.within_modifyState_bind _ _).mpr
    ⟨hF.changes _ _ (.of_same (fight.keys_updatePlayer leader _) rfl), ?_⟩
  refine (Program.within_getState_bind _).mpr (Program.within_bind (within_pairs _) fun order _ ↦ ?_)
  refine Program.within_bind (Program.within_forEach fun uid _ later ↦
    (Program.within_modifyState _).mpr (hF.updatePlayer later uid _)) fun _ later ↦ ?_
  exact (Program.within_modifyState_bind _ _).mpr ⟨hF.changes _ _ (.of_same rfl rfl), gaming_updateGameProcess hF⟩

theorem gaming_checkAskLeader (hF : Gaming F) :
    checkAskLeader.Within F fight := by
  refine (Program.within_getState_bind _).mpr ?_
  split
  · refine Program.within_bind (within_pairs _) fun order _ ↦ ?_
    refine Program.within_bind (Program.within_foldlM fun marked uid _ later ↦
      within_markBidder marked uid (hF.updatePlayer later uid _)) fun marked _ ↦ ?_
    refine Program.within_bind (within_showBids hF.toOrdinary _) fun _ _ ↦ ?_
    refine Program.within_bind (within_phaseEnds _ _) fun ends _ ↦ ?_
    split
    · refine Program.within_bind within_osTime fun now later ↦ ?_
      refine (Program.within_modifyState_bind _ _).mpr ⟨hF.changes _ _ (.of_same rfl rfl), ?_⟩
      refine Program.within_bind gaming_electLeader fun ballot later ↦ ?_
      split
      · exact hF.indexNil
      · exact gaming_installLeader hF _
    · exact Program.within_pure ()
  · exact Program.within_pure ()

theorem gaming_dealLastCard (hF : Gaming F) (notifyUserLst : List ℕ) (uid : ℕ) :
    (dealLastCard notifyUserLst uid).Within F fight := by
  refine (Program.within_getState_bind _).mpr ?_
  split
  · refine Program.within_bind ?_ fun _ later ↦
      Program.within_bind (gaming_getCardFromCardLst hF uid 1) fun _ _ ↦ Program.within_pure _
    unfold chooseDefault
    split
    · exact (Program.within_modifyState _).mpr (hF.updatePlayer _ uid _)
    · exact Program.within_pure ()
  · exact Program.within_pure _

theorem gaming_checkSelectOdds (hF : Gaming F) :
    checkSelectOdds.Within F fight := by
  refine (Program.within_getState_bind _).mpr ?_
  split
  · refine Program.within_bind (within_phaseEnds _ _) fun ends _ ↦ ?_
    split
    · refine (Program.within_getState_bind _).mpr (Program.within_bind (within_pairs _) fun order _ ↦ ?_)
      refine Program.within_bind (Program.within_foldlM fun notifyUserLst uid _ later ↦
        gaming_dealLastCard hF notifyUserLst uid) fun notifyUserLst _ ↦ ?_
      refine Program.within_bind (within_sendUserOdds hF.toOrdinary _) fun _ _ ↦ ?_
      exact Program.within_bind (gaming_enterStatus hF _) fun _ _ ↦ gaming_updateGameProcess hF
    · exact Program.within_pure ()
  · exact Program.within_pure ()

theorem gaming_updateUserMoney (hF : Gaming F)
    (hsaves : ∀ service uid addVal, F.waits (.updateUserMoney service uid addVal)) (uid : ℕ) (addVal : LuaInt) :
    (updateUserMoney uid addVal).Within F fight := by
  refine (Program.within_modifyState_bind _ _).mpr ⟨?_, (Program.within_getState_bind _).mpr
    ((Program.within_await_bind _ _).mpr ⟨hsaves _ _ _, fun reply later ↦ ?_⟩)⟩
  · split
    · exact hF.changes _ _ (.of_same rfl rfl)
    · exact hF.changes _ _ (.of_same rfl rfl)
  · split
    · exact (Program.within_modifyState_bind _ _).mpr ⟨hF.changes _ _ (.of_same rfl rfl), trivial⟩
    · exact (Program.within_modifyState_bind _ _).mpr ⟨hF.changes _ _ (.of_same rfl rfl), trivial⟩

theorem gaming_saveResults (hF : Gaming F)
    (hsaves : ∀ service uid addVal, F.waits (.updateUserMoney service uid addVal)) :
    saveResults.Within F fight := by
  refine (Program.within_getState_bind _).mpr (Program.within_bind (within_pairs _) fun order _ ↦ ?_)
  refine Program.within_foldlM fun result uid _ later ↦ (Program.within_getState_bind _).mpr ?_
  exact Program.within_bind (gaming_updateUserMoney hF hsaves uid _) fun _ _ ↦ Program.within_pure _

/-- The settlement as a step of `checkStatus`. -/
theorem seating_settle (order : List ℕ) :
    (Program.tryModify (I := skynet) (Fight.settle order) : FightTask Unit).Within (seating waits) fight := by
  have hkeeps := (sameTable_settle order fight).keepsSeats
  refine Program.within_tryModify (fun changed hok ↦ ?_) fun error changed herror ↦ ⟨?_, trivial⟩
  · rw [hok] at hkeeps
    exact hkeeps
  · rw [herror] at hkeeps
    exact hkeeps

/-- The messages of the clients leave the table as it is. -/
theorem gaming_fromClient (hF : Gaming F) (uid : ℕ) :
    (∀ odds, (onGetLeader uid odds).Within F fight) ∧
      (∀ odds, (onSetOdds uid odds).Within F fight) ∧
        ∀ cards, (onPackCard uid cards).Within F fight := by
  have hchange : ∀ change : Player → Player, (Program.modifyState (I := skynet) (fun fight : Fight ↦
      fight.updatePlayer uid change) >>= fun _ ↦ sendUserOdds [uid] : FightTask Unit).Within
        F fight := fun change ↦
    (Program.within_modifyState_bind _ _).mpr ⟨hF.updatePlayer fight uid change, within_sendUserOdds hF.toOrdinary _⟩
  refine ⟨fun odds ↦ ?_, fun odds ↦ ?_, fun cards ↦ ?_⟩
  · refine (Program.within_getState_bind _).mpr ?_
    split
    · exact Program.within_pure ()
    cases odds with
    | none => exact hF.compareNil
    | some odds =>
      dsimp only
      split
      · split
        · exact hchange _
        · exact Program.within_pure ()
      · exact Program.within_pure ()
  · cases odds with
    | none => exact hF.concatNil
    | some odds =>
      refine (Program.within_getState_bind _).mpr ?_
      split
      · split
        · exact hF.indexNil
        · split
          · exact Program.within_pure ()
          · exact hchange _
      · exact Program.within_pure ()
  · cases cards with
    | none => exact Program.within_pure ()
    | some cards =>
      refine (Program.within_getState_bind _).mpr ?_
      split
      · exact hchange _
      · exact Program.within_pure ()

end Within

/-! ### The game that goes on and the game that is over -/

/-- The assertions that a fight service follows in the hall while it runs a game: `live` as long as the game
goes on, `reached` once it has reached `onGameOver`, and `ended` for the end of the turn. -/
structure GameRule {P' τ : Type} (E : Embedding skynet Call Fight P' τ) (K : Contract skynet P' τ)
    (raised : LuaError → Section skynet P' τ → τ → Prop)
    (live reached ended : Section skynet P' τ → τ → Prop) : Prop where
  steady : Steady E K (seating Call.inGame) raised live
  unlock : ∀ roomId current whole, live current whole →
    (E.handle (.unlockRoom roomId)).wp K (fun _ ↦ reached) raised current whole
  reached_of_live : ∀ current whole, live current whole → reached current whole
  raise : ∀ error current whole, reached current whole → raised error current whole
  finish : ∀ current whole, reached current whole → ended current whole
  timer : ∀ current whole, live current whole →
    ended { current with forks := current.forks ++ [E.fork .timer] } whole

section Rule

variable {P' τ : Type} {E : Embedding skynet Call Fight P' τ} {K : Contract skynet P' τ}
  {raised : LuaError → Section skynet P' τ → τ → Prop} {live reached ended : Section skynet P' τ → τ → Prop}
  {current : Section skynet P' τ} {whole : τ}

theorem gaming_inGame : Gaming (seating Call.inGame) :=
  gaming_seating fun _ _ ↦ trivial

/-- `onGameOver` ends the game. -/
theorem wpIn_onGameOver (rule : GameRule E K raised live reached ended) (h : live current whole) :
    onGameOver.wpIn E K (fun _ ↦ reached) raised current whole := by
  unfold onGameOver getRoom
  rw [Program.wpIn_bind, Program.wpIn_bind, Program.wpIn_getState]
  split
  · rw [Program.wpIn_pure]
    refine wpIn_call (Program.wp_mono (fun _ current whole hover ↦ ?_) (fun _ _ _ h ↦ h)
      (rule.unlock _ current whole h))
    exact ⟨hover, rule.raise _ current whole hover⟩
  · exact rule.raise _ _ _ (rule.reached_of_live _ _ h)

/-- What `checkReady` and `checkGameEnd` leave: the game goes on or is over. -/
def GoesOn (live reached : Section skynet P' τ → τ → Prop) (goesOn : Bool) (current : Section skynet P' τ)
    (whole : τ) : Prop :=
  if goesOn then live current whole else reached current whole

theorem wpIn_checkReady_over (rule : GameRule E K raised live reached ended) (h : live current whole) :
    checkReady.wpIn E K (GoesOn live reached) raised current whole := by
  unfold checkReady
  rw [Program.wpIn_bind, Program.wpIn_getState]
  split
  · refine Program.wpIn_seq (rule.steady.wpIn (within_phaseEnds _ _) h) fun ends current whole h ↦ ?_
    split
    · split
      · refine Program.wpIn_seq (rule.steady.wpIn (gaming_enterStatus gaming_inGame _) h) fun _ current whole h ↦ ?_
        exact Program.wpIn_seq (rule.steady.wpIn (gaming_updateGameProcess gaming_inGame) h)
          fun _ _ _ h ↦ h
      · exact Program.wpIn_seq (wpIn_onGameOver rule h) fun _ _ _ hover ↦ hover
    · exact h
  · exact h

theorem wpIn_checkGameEnd_over (rule : GameRule E K raised live reached ended) (h : live current whole) :
    checkGameEnd.wpIn E K (GoesOn live reached) raised current whole := by
  unfold checkGameEnd
  rw [Program.wpIn_bind, Program.wpIn_getState]
  split
  · refine Program.wpIn_seq (rule.steady.wpIn (within_phaseEnds _ _) h) fun ends current whole h ↦ ?_
    split
    · rw [Program.wpIn_bind, Program.wpIn_getState, Program.wpIn_bind]
      refine wpIn_pairs fun order _ ↦ ?_
      refine Program.wpIn_seq (rule.steady.wpIn (seating_settle order) (rule.steady.heard _ _ _ h))
        fun _ current whole h ↦ ?_
      refine Program.wpIn_seq (rule.steady.wpIn (gaming_saveResults gaming_inGame fun _ _ _ ↦ trivial) h)
        fun result current whole h ↦ ?_
      refine Program.wpIn_seq_at (fun _ ↦ reached) ?_ fun _ _ _ hover ↦ hover
      -- the result is shown by a game that goes on, and the report to the lobby ends it
      unfold showResult getRoom
      rw [Program.wpIn_bind, Program.wpIn_bind, Program.wpIn_getState]
      split
      · rw [Program.wpIn_pure]
        refine Program.wpIn_seq (rule.steady.wpIn (within_broadcastRoomPlayer gaming_inGame.toOrdinary
          fun _ ↦ trivial) h) fun _ _ _ h ↦ wpIn_onGameOver rule h
      · exact rule.raise _ _ _ (rule.reached_of_live _ _ h)
    · exact h
  · exact h

/-- A turn of `checkStatus` goes on with a timer or ends the game. -/
theorem wpIn_checkStatus_over (rule : GameRule E K raised live reached ended) (h : live current whole) :
    checkStatus.wpIn E K (fun _ ↦ ended) raised current whole := by
  unfold checkStatus
  refine Program.wpIn_seq (wpIn_checkReady_over rule h) fun goesOn current whole h ↦ ?_
  cases goesOn with
  | false => exact rule.finish _ _ h
  | true =>
    refine Program.wpIn_seq (rule.steady.wpIn (gaming_checkAskLeader gaming_inGame) h)
      fun _ current whole h ↦ ?_
    refine Program.wpIn_seq (rule.steady.wpIn (gaming_checkSelectOdds gaming_inGame) h)
      fun _ current whole h ↦ ?_
    refine Program.wpIn_seq (wpIn_checkGameEnd_over rule h) fun goesOn current whole h ↦ ?_
    cases goesOn with
    | false => exact rule.finish _ _ h
    | true =>
      rw [if_pos rfl, Program.wpIn_spawn]
      exact rule.timer _ _ h

/-- `onStart` begins a game with the players and the room it is given. -/
theorem wpIn_onStart_over (rule : GameRule E K raised live reached ended) {roomInfo : RoomInfo}
    (hbegins : ∀ order now, IsOrder order roomInfo.playerLst.keys →
      live { current with heard := current.heard ++ [.order order] ++ [.number now] }
        (E.put (newGame (E.get whole) roomInfo order now) whole)) :
    (onStart roomInfo).wpIn E K (fun _ ↦ ended) raised current whole := by
  unfold onStart
  rw [Program.wpIn_bind]
  refine wpIn_pairs fun order horder ↦ ?_
  rw [Program.wpIn_bind]
  refine wpIn_osTime fun now ↦ ?_
  rw [Program.wpIn_bind, Program.wpIn_modifyState]
  refine Program.wpIn_seq (rule.steady.wpIn (gaming_updateGameProcess gaming_inGame)
    (hbegins order now horder)) fun _ current whole h ↦ ?_
  refine Program.wpIn_seq (rule.steady.wpIn (within_call trivial trivial) h) fun _ current whole h ↦ ?_
  refine Program.wpIn_seq (rule.steady.wpIn (gaming_onShuffle gaming_inGame) h)
    fun _ current whole h ↦ ?_
  exact wpIn_checkStatus_over rule h

end Rule

end SvrDemo.Douniu
