import SvrDemo.Douniu.FightSeats
import SvrDemo.Douniu.Lobby
import SvrDemo.Douniu.Payment

/-!
# The odds of a room

The lobby takes the odds of a room from the client that creates it, and the settlement multiplies with them several
phases later. `SoundOdds` are the odds with which every stake of the settlement is positive: all stakes are multiples
of five times the odds of the room, by a factor of at most sixty, and the multiplication wraps around
(`soundOdds_iff`).

The rest of this file is about a game in a room of given odds. `roomContract` says that no handler of the fight service
changes the odds of the room once the game has begun, and that a game in a room with odds never multiplies with nil.
-/

set_option autoImplicit false
set_option relaxedAutoImplicit false

namespace SvrDemo.Douniu

open Coroutine Lua Skynet

/-! ### Sound odds -/

/-- The stakes of a settlement in a room with these odds are positive, computed with 64-bit integers. -/
structure SoundOdds (roomOdds : LuaInt) : Prop where
  positive : 0 < (5 * roomOdds).toInt
  fits : 60 * (5 * roomOdds).toInt < 2 ^ 63

instance : DecidablePred SoundOdds := fun roomOdds ↦
  decidable_of_iff (0 < (5 * roomOdds).toInt ∧ 60 * (5 * roomOdds).toInt < 2 ^ 63)
    ⟨fun h ↦ ⟨h.1, h.2⟩, fun h ↦ ⟨h.positive, h.fits⟩⟩

/-- The stake that `checkStatus` computes. -/
def stakeWith (roomOdds : LuaInt) (odds leaderOdds niuNum : ℤ) : LuaInt :=
  (odds : LuaInt) * (leaderOdds : LuaInt) * roomOdds * (getCardOdds niuNum : LuaInt)

/-- The odds of a player are a multiple of five, and so is his stake. -/
theorem stakeWith_eq (roomOdds : LuaInt) (fives leaderOdds niuNum : ℤ) :
    stakeWith roomOdds (5 * fives) leaderOdds niuNum =
      ((fives * leaderOdds * getCardOdds niuNum : ℤ) : LuaInt) * (5 * roomOdds) := by
  rw [stakeWith]
  push_cast
  ring

theorem exists_fives {odds : ℤ} (hodds : odds ∈ setOddsLimit) : ∃ fives, odds = 5 * fives ∧ 1 ≤ fives ∧ fives ≤ 5 := by
  simp only [setOddsLimit, List.mem_cons, List.not_mem_nil, or_false] at hodds
  exact ⟨odds / 5, by omega, by omega, by omega⟩

/-- A positive number below the modulus stays positive only when it fits. -/
theorem fits_of_bmod_pos {value : ℤ} (hnonneg : 0 ≤ value) (hlt : value < 2 ^ 64) (hpos : 0 < value.bmod (2 ^ 64)) :
    value < 2 ^ 63 := by
  rw [Int.bmod_def, Int.emod_eq_of_lt hnonneg (by exact_mod_cast hlt)] at hpos
  split_ifs at hpos with hhalf
  · norm_num at hhalf
    omega
  · norm_num at hpos
    omega

/-- A stake that is positive, and was less than the modulus before it wrapped around, fits. -/
theorem fits_of_stake_pos {roomOdds : LuaInt} {odds leaderOdds niuNum factor : ℤ} (fives : ℤ)
    (hfives : odds = 5 * fives) (hfactor : fives * leaderOdds * getCardOdds niuNum = factor)
    (hpos : 0 < (stakeWith roomOdds odds leaderOdds niuNum).toInt) (hsmall : 0 ≤ factor ∧ factor ≤ 60)
    (hnonneg : 0 ≤ factor * (5 * roomOdds).toInt) (hlt : factor * (5 * roomOdds).toInt < 2 ^ 64) :
    factor * (5 * roomOdds).toInt < 2 ^ 63 := by
  rw [hfives, stakeWith_eq, hfactor, BitVec.toInt_mul] at hpos
  have hcast : (factor : LuaInt).toInt = factor := by
    change (BitVec.ofInt 64 factor).toInt = factor
    rw [BitVec.toInt_ofInt, bmod_of_fits]
    rw [abs_of_nonneg hsmall.1]
    omega
  rw [hcast] at hpos
  exact fits_of_bmod_pos hnonneg hlt hpos

/-- The odds with which every stake is positive, for all odds that the players may choose and all hands. -/
theorem soundOdds_iff (roomOdds : LuaInt) :
    SoundOdds roomOdds ↔ ∀ odds ∈ setOddsLimit, ∀ leaderOdds, 1 ≤ leaderOdds → leaderOdds ≤ 4 → ∀ niuNum,
      0 < (stakeWith roomOdds odds leaderOdds niuNum).toInt := by
  constructor
  · intro h odds hodds leaderOdds hlow hhigh niuNum
    obtain ⟨fives, rfl, hfives, hfives'⟩ := exists_fives hodds
    obtain ⟨hmult, hmult'⟩ := getCardOdds_bounds niuNum
    have hfactor : 1 * 1 * 1 ≤ fives * leaderOdds * getCardOdds niuNum :=
      mul_le_mul (mul_le_mul hfives hlow (by omega) (by omega)) hmult (by omega) (mul_nonneg (by omega) (by omega))
    have hfactor' : fives * leaderOdds * getCardOdds niuNum ≤ 5 * 4 * 3 :=
      mul_le_mul (mul_le_mul hfives' hhigh (by omega) (by omega)) hmult' (by omega) (by omega)
    have hle : fives * leaderOdds * getCardOdds niuNum * (5 * roomOdds).toInt ≤ 60 * (5 * roomOdds).toInt :=
      mul_le_mul_of_nonneg_right hfactor' h.positive.le
    have hpos : 0 < fives * leaderOdds * getCardOdds niuNum * (5 * roomOdds).toInt :=
      mul_pos (by omega) h.positive
    rw [stakeWith_eq, toInt_mul_of_fits]
    · exact hpos
    · rw [abs_of_nonneg (by omega)]
      omega
    · rw [abs_of_nonneg hpos.le]
      exact hle.trans_lt h.fits
  · intro h
    have hupper : (5 * roomOdds).toInt < 2 ^ 63 := by
      have hlt := BitVec.toInt_lt (x := 5 * roomOdds)
      exact_mod_cast hlt
    have hone : 0 < (5 * roomOdds).toInt := by
      have hpos := h 5 (by decide) 1 (by decide) (by decide) 0
      rw [show (5 : ℤ) = 5 * 1 from rfl, stakeWith_eq] at hpos
      simpa [getCardOdds] using hpos
    -- each factor is at most twice the one before, so no stake can wrap around to a positive number again
    have htwo := fits_of_stake_pos 2 rfl rfl (h 10 (by decide) 1 (by decide) (by decide) 0) (by decide)
    have hfour := fits_of_stake_pos 4 rfl rfl (h 20 (by decide) 1 (by decide) (by decide) 0) (by decide)
    have height := fits_of_stake_pos 4 rfl rfl (h 20 (by decide) 2 (by decide) (by decide) 0) (by decide)
    have hsixteen := fits_of_stake_pos 4 rfl rfl (h 20 (by decide) 4 (by decide) (by decide) 0) (by decide)
    have hthirty := fits_of_stake_pos 5 rfl rfl (h 25 (by decide) 2 (by decide) (by decide) 10) (by decide)
    have hsixty := fits_of_stake_pos 5 rfl rfl (h 25 (by decide) 4 (by decide) (by decide) 10) (by decide)
    have hfit : 60 * (5 * roomOdds).toInt < 2 ^ 63 := by
      generalize (5 * roomOdds).toInt = stake at *
      norm_num [getCardOdds] at htwo hfour height hsixteen hthirty hsixty
      omega
    exact ⟨hone, hfit⟩

/-- The odds of a room that `enter_room` makes are sound. -/
theorem soundOdds_default : SoundOdds defaultOdds := ⟨by decide, by decide⟩

/-! ### The game in its room -/

/-- The comparison of two hands fails only at the assertion of `parse_card_info`. -/
theorem compareHandCard_error {first second : Player} {error : LuaError}
    (herror : compareHandCard first second = .error error) : error = .assertionFailed := by
  unfold compareHandCard at herror
  cases hfirst : parseCardInfo first.handCardLst with
  | error failure =>
    rw [hfirst] at herror
    obtain rfl := Except.error.inj herror
    exact ((parseCardInfo_eq_error_iff _ _).mp hfirst).2
  | ok value =>
    cases hsecond : parseCardInfo second.handCardLst with
    | error failure =>
      rw [hfirst, hsecond] at herror
      obtain rfl := Except.error.inj herror
      exact ((parseCardInfo_eq_error_iff _ _).mp hsecond).2
    | ok value' =>
      rw [hfirst, hsecond] at herror
      exact nomatch herror

/-- Only the settlement of a game in a room without odds multiplies with nil. -/
theorem settlePlayer_error {fight last : Fight} {leaderUid uid : ℕ} {error : LuaError} {roomOdds : LuaInt}
    (hodds : fight.roomOdds = some roomOdds) (herror : fight.settlePlayer leaderUid uid = .error (error, last)) :
    error ≠ .arithmeticOnNil := by
  obtain ⟨room, hroom, hroomOdds⟩ := Option.bind_eq_some_iff.mp hodds
  unfold Fight.settlePlayer at herror
  simp only [hroom, hroomOdds] at herror
  split at herror
  · exact nomatch herror
  split at herror
  · split at herror
    · rename_i failure hcompare
      obtain ⟨rfl, -⟩ := Prod.mk.inj (Except.error.inj herror)
      rw [compareHandCard_error hcompare]
      exact LuaError.noConfusion
    · exact nomatch herror
  · obtain ⟨rfl, -⟩ := Prod.mk.inj (Except.error.inj herror)
    exact LuaError.noConfusion

theorem settleLoop_error {leaderUid : ℕ} {order : List ℕ} {error : LuaError} {roomOdds : LuaInt} {last : Fight} :
    ∀ {fight : Fight}, fight.roomOdds = some roomOdds →
      order.foldlM (Fight.settlePlayer leaderUid) fight = .error (error, last) → error ≠ .arithmeticOnNil := by
  induction order with
  | nil => exact fun _ herror ↦ nomatch herror
  | cons uid order ih =>
    intro fight hodds herror
    rw [List.foldlM_cons] at herror
    cases hturn : fight.settlePlayer leaderUid uid with
    | error failure =>
      rw [hturn] at herror
      exact settlePlayer_error hodds (hturn.trans herror)
    | ok next =>
      rw [hturn] at herror
      have hroom := room_settlePlayer leaderUid fight uid
      rw [hturn] at hroom
      exact ih ((congrArg (Option.bind · RoomInfo.roomOdds) hroom).trans hodds) herror

theorem settle_error {fight last : Fight} {order : List ℕ} {error : LuaError} {roomOdds : LuaInt}
    (hodds : fight.roomOdds = some roomOdds) (herror : fight.settle order = .error (error, last)) :
    error ≠ .arithmeticOnNil := by
  unfold Fight.settle at herror
  split at herror
  · exact settleLoop_error hodds herror
  · split_ifs at herror
    obtain ⟨rfl, -⟩ := Prod.mk.inj (Except.error.inj herror)
    exact LuaError.noConfusion

/-- Where a coroutine may be started in a game for a room of given odds. -/
def startsAtOdds (roomOdds : LuaInt) : Point → Fight → Prop
  | ⟨.onStart roomInfo, .start⟩, _ => roomInfo.roomOdds = some roomOdds
  | ⟨.checkStatus, .start⟩, fight => fight.roomOdds = some roomOdds
  | ⟨handler, .start⟩, _ => handler.isMessage = true
  | _, _ => False

/-- The contract of a fight service in a room of given odds: no section changes the odds of the room once the game
has been opened, and none multiplies with nil. -/
def roomContract (roomOdds : LuaInt) : Contract skynet Point Fight where
  rely _ first last := first.roomOdds = some roomOdds → last.roomOdds = some roomOdds
  guar point origin _ left last := (∀ other ∈ left, other.opensGame = false) ∧
    (origin.roomOdds = some roomOdds ∨ point.opensGame = true → last.roomOdds = some roomOdds)
  pre := startsAtOdds roomOdds
  err error := error ≠ .arithmeticOnNil

/-- What the coroutines of a fight service do, the settlement and the timer apart. -/
def inRoom : Footprint skynet Call Fight where
  waits call := call ≠ .start ∧ call ≠ .timer
  changes first last := last.roomOdds = first.roomOdds
  raises error := error ≠ .arithmeticOnNil

theorem gaming_inRoom : Gaming inRoom where
  callFailed := LuaError.noConfusion
  invalidKey := LuaError.noConfusion
  indexNil := LuaError.noConfusion
  sends _ _ _ := ⟨Call.noConfusion, Call.noConfusion⟩
  compareNil := LuaError.noConfusion
  concatNil := LuaError.noConfusion
  changes _ _ h := h.roomOdds

variable {roomOdds : LuaInt} {handler : Handler} {current : Section skynet Point Fight} {fight : Fight}

/-- A coroutine in the middle of a section that keeps the odds of the room. -/
structure KeepsOdds (roomOdds : LuaInt) (current : Section skynet Point Fight) (fight : Fight) : Prop where
  forks : current.forks = []
  odds : current.origin.roomOdds = some roomOdds ∨ current.point.opensGame = true → fight.roomOdds = some roomOdds

/-- The coroutine of a game in the middle of a section, in a room of these odds. -/
structure AtOdds (roomOdds : LuaInt) (current : Section skynet Point Fight) (fight : Fight) : Prop where
  forks : current.forks = []
  odds : fight.roomOdds = some roomOdds

theorem AtOdds.keepsOdds (h : AtOdds roomOdds current fight) : KeepsOdds roomOdds current fight :=
  ⟨h.forks, fun _ ↦ h.odds⟩

theorem KeepsOdds.ends (h : KeepsOdds roomOdds current fight) {left : List Point}
    (hleft : ∀ other ∈ left, other.opensGame = false) : (roomContract roomOdds).Ends current left fight := by
  refine ⟨⟨hleft, h.odds⟩, ?_⟩
  rw [h.forks]
  exact fun _ hmem ↦ nomatch hmem

theorem KeepsOdds.done (h : KeepsOdds roomOdds current fight) : (roomContract roomOdds).done () current fight :=
  h.ends (by rw [h.forks]; exact fun _ hmem ↦ nomatch hmem)

/-- The section may end with its coroutine waiting at a call. -/
theorem KeepsOdds.waits (h : KeepsOdds roomOdds current fight) {call : Call} (hcall : inRoom.waits call) :
    (roomContract roomOdds).Ends current (current.forks ++ [handler.at call]) fight := by
  rw [h.forks, handler.at_of_ne hcall.2]
  refine h.ends fun other hother ↦ ?_
  rw [List.mem_singleton.mp hother]
  exact Point.opensGame_of_ne handler hcall.1

/-- A message keeps the odds of the room. -/
theorem steady_keepsOdds (handler : Handler) :
    Steady (.relabel handler.at) (roomContract roomOdds) inRoom (roomContract roomOdds).raised
      (KeepsOdds roomOdds) where
  heard _ _ _ h := ⟨h.forks, h.odds⟩
  change _ _ _ hchange h := ⟨h.forks, fun hodds ↦ hchange.trans (h.odds hodds)⟩
  wait call current fight hcall h := by
    refine ⟨h.waits hcall, fun reply later _ ↦ ⟨rfl, fun hodds ↦ ?_⟩⟩
    rcases hodds with hodds | hopens
    · exact hodds
    · change (handler.at call).opensGame = true at hopens
      rw [handler.at_of_ne hcall.2, Point.opensGame_of_ne handler hcall.1] at hopens
      exact nomatch hopens
  raise _ _ _ herror h := ⟨herror, h.done⟩

/-- The game stays in its room. -/
theorem steady_atOdds (handler : Handler) :
    Steady (.relabel handler.at) (roomContract roomOdds) inRoom (roomContract roomOdds).raised
      (AtOdds roomOdds) where
  heard _ _ _ h := ⟨h.forks, h.odds⟩
  change _ _ _ hchange h := ⟨h.forks, hchange.trans h.odds⟩
  wait _ _ _ hcall h := ⟨h.keepsOdds.waits hcall, fun _ _ hrely ↦ ⟨rfl, hrely h.odds⟩⟩
  raise _ _ _ herror h := ⟨herror, h.keepsOdds.done⟩

/-- The settlement does not multiply with nil. -/
theorem wpIn_settle_atOdds (order : List ℕ) (h : AtOdds roomOdds current fight) :
    (Program.tryModify (I := skynet) (Fight.settle order) : FightTask Unit).wpIn (.relabel handler.at)
      (roomContract roomOdds) (fun _ ↦ AtOdds roomOdds) (roomContract roomOdds).raised current fight := by
  have hroom := (sameTable_settle order fight).roomOdds
  refine (Program.wpIn_tryModify _ _ _ _ _).mpr ⟨fun last hok ↦ ?_, fun error last herror ↦ ?_⟩
  · rw [show fight.settle order = .ok last from hok] at hroom
    exact ⟨h.forks, hroom.trans h.odds⟩
  · have herror : fight.settle order = .error (error, last) := herror
    rw [herror] at hroom
    exact ⟨settle_error h.odds herror, KeepsOdds.done ⟨h.forks, fun _ ↦ hroom.trans h.odds⟩⟩

/-! ### The coroutines keep the contract -/

theorem within_checkReady_inRoom : checkReady.Within inRoom fight := by
  refine (Program.within_getState_bind _).mpr ?_
  split
  · refine Program.within_bind (within_phaseEnds _ _) fun ends _ ↦ ?_
    split
    · split
      · exact Program.within_bind (gaming_enterStatus gaming_inRoom _) fun _ _ ↦
          Program.within_bind (gaming_updateGameProcess gaming_inRoom) fun _ _ ↦ Program.within_pure _
      · exact Program.within_bind (within_onGameOver gaming_inRoom.toOrdinary fun _ ↦
          ⟨Call.noConfusion, Call.noConfusion⟩) fun _ _ ↦ Program.within_pure _
    · exact Program.within_pure _
  · exact Program.within_pure _

/-- The last phase, with the settlement in the middle of what keeps the odds of the room. -/
theorem wpIn_checkGameEnd_atOdds (h : AtOdds roomOdds current fight) :
    checkGameEnd.wpIn (.relabel handler.at) (roomContract roomOdds) (fun _ ↦ AtOdds roomOdds)
      (roomContract roomOdds).raised current fight := by
  unfold checkGameEnd
  rw [Program.wpIn_relabel_getState_bind]
  split
  · refine Program.wpIn_seq ((steady_atOdds handler).wpIn (within_phaseEnds _ _) h) fun ends current fight h ↦ ?_
    split
    · rw [Program.wpIn_relabel_getState_bind, Program.wpIn_bind]
      refine wpIn_pairs fun order _ ↦ ?_
      refine Program.wpIn_seq (wpIn_settle_atOdds order ⟨h.forks, h.odds⟩) fun _ current fight h ↦ ?_
      refine Program.wpIn_seq ((steady_atOdds handler).wpIn (gaming_saveResults gaming_inRoom fun _ _ _ ↦
        ⟨Call.noConfusion, Call.noConfusion⟩) h) fun result current fight h ↦ ?_
      exact Program.wpIn_seq ((steady_atOdds handler).wpIn (within_showResult gaming_inRoom.toOrdinary
        (fun _ _ ↦ ⟨Call.noConfusion, Call.noConfusion⟩) (fun _ ↦ ⟨Call.noConfusion, Call.noConfusion⟩) result) h)
        fun _ _ _ h ↦ h
    · exact h
  · exact h

theorem wpIn_checkStatus_atOdds (h : AtOdds roomOdds current fight) :
    checkStatus.wpIn (.relabel handler.at) (roomContract roomOdds) (roomContract roomOdds).done
      (roomContract roomOdds).raised current fight := by
  unfold checkStatus
  refine Program.wpIn_seq ((steady_atOdds handler).wpIn within_checkReady_inRoom h) fun goesOn current fight h ↦ ?_
  split
  · refine Program.wpIn_seq ((steady_atOdds handler).wpIn (gaming_checkAskLeader gaming_inRoom) h)
      fun _ current fight h ↦ ?_
    refine Program.wpIn_seq ((steady_atOdds handler).wpIn (gaming_checkSelectOdds gaming_inRoom) h)
      fun _ current fight h ↦ ?_
    refine Program.wpIn_seq (wpIn_checkGameEnd_atOdds h) fun goesOn current fight h ↦ ?_
    split
    · rw [Program.wpIn_spawn]
      -- the next turn of `checkStatus` waits for its timer in the same room
      refine ⟨⟨?_, h.keepsOdds.odds⟩, ?_⟩
      · rw [h.forks]
        exact fun other hother ↦ List.mem_singleton.mp hother ▸ rfl
      · rw [h.forks]
        exact fun point hpoint ↦ List.mem_singleton.mp hpoint ▸ h.odds
    · exact h.keepsOdds.done
  · exact h.keepsOdds.done

theorem wpIn_onStart_atOdds {roomInfo : RoomInfo} (hodds : roomInfo.roomOdds = some roomOdds)
    (hforks : current.forks = []) :
    (onStart roomInfo).wpIn (.relabel handler.at) (roomContract roomOdds) (roomContract roomOdds).done
      (roomContract roomOdds).raised current fight := by
  unfold onStart
  rw [Program.wpIn_bind]
  refine wpIn_pairs fun order _ ↦ ?_
  rw [Program.wpIn_bind]
  refine wpIn_osTime fun now ↦ ?_
  rw [Program.wpIn_relabel_modifyState_bind]
  refine Program.wpIn_seq ((steady_atOdds handler).wpIn (gaming_updateGameProcess gaming_inRoom)
    ⟨hforks, hodds⟩) fun _ current fight h ↦ ?_
  refine Program.wpIn_seq ((steady_atOdds handler).wpIn (within_call ⟨Call.noConfusion, Call.noConfusion⟩
    LuaError.noConfusion) h) fun _ current fight h ↦ ?_
  refine Program.wpIn_seq ((steady_atOdds handler).wpIn (gaming_onShuffle gaming_inRoom) h)
    fun _ current fight h ↦ ?_
  exact wpIn_checkStatus_atOdds h

/-- A player who has left is missing in the copy of the room, whose odds stay. -/
theorem within_onKickOut_inRoom (uid : ℕ) : (onKickOut uid).Within inRoom fight := by
  refine within_getRoom_bind gaming_inRoom.toOrdinary fun room hroom ↦ ?_
  refine (Program.within_modifyState_bind _ _).mpr ⟨?_, within_call ⟨Call.noConfusion, Call.noConfusion⟩
    LuaError.noConfusion⟩
  change Option.bind _ _ = Option.bind _ _
  rw [hroom]
  rfl

theorem keeps_message_inRoom (hmessage : handler.isMessage = true) (h : KeepsOdds roomOdds current fight) :
    handler.body.wpIn (.relabel handler.at) (roomContract roomOdds) (roomContract roomOdds).done
      (roomContract roomOdds).raised current fight := by
  refine (steady_keepsOdds handler).wpIn_of ?_ h fun _ _ _ h ↦ h.done
  cases handler with
  | onStart roomInfo => exact nomatch hmessage
  | checkStatus => exact nomatch hmessage
  | onGetLeader uid odds => exact (gaming_fromClient gaming_inRoom uid).1 odds
  | onSetOdds uid odds => exact (gaming_fromClient gaming_inRoom uid).2.1 odds
  | onPackCard uid cards => exact (gaming_fromClient gaming_inRoom uid).2.2 cards
  | onKickOut uid => exact within_onKickOut_inRoom uid

/-- Every coroutine keeps the contract. -/
theorem keeps_room {reply : Answer} {point : Point} (hstart : startsAtOdds roomOdds point fight) :
    (roomContract roomOdds).Keeps (fightService.entry point) ⟨point, fight, [reply], []⟩ fight := by
  obtain ⟨handler, call⟩ := point
  cases call with
  | start =>
    have hmessage : handler.isMessage = true → (roomContract roomOdds).Keeps (fightService.entry ⟨handler, .start⟩)
        ⟨⟨handler, .start⟩, fight, [reply], []⟩ fight := fun hmessage ↦ by
      refine keeps_message_inRoom hmessage ⟨rfl, fun hodds ↦ hodds.elim id fun hopens ↦ ?_⟩
      cases handler with
      | onStart roomInfo => exact nomatch hmessage
      | _ => exact nomatch hopens
    cases handler with
    | onStart roomInfo => exact wpIn_onStart_atOdds hstart rfl
    | checkStatus => exact wpIn_checkStatus_atOdds ⟨rfl, hstart⟩
    | onGetLeader uid odds => exact hmessage rfl
    | onSetOdds uid odds => exact hmessage rfl
    | onPackCard uid retCardLst => exact hmessage rfl
    | onKickOut uid => exact hmessage rfl
  | _ => cases handler <;> exact hstart.elim

/-- Once the game has been opened, its room has these odds. -/
def OpenedAtOdds (roomOdds : LuaInt) (fight : Fight) (points : List Point) : Prop :=
  (∀ point ∈ points, point.opensGame = false) → fight.roomOdds = some roomOdds

/-- The contract is sound for the fight service. -/
theorem sound_roomContract (roomOdds : LuaInt) :
    fightService.Sound (roomContract roomOdds) (OpenedAtOdds roomOdds) fun _ _ ↦ True where
  rely_refl _ _ h := h
  rely_trans _ _ _ _ h h' := fun hodds ↦ h' (h hodds)
  pre_rely point first last hpre hrely := by
    obtain ⟨handler, call⟩ := point
    cases call with
    | start =>
      cases handler with
      | checkStatus => exact hrely hpre
      | _ => exact hpre
    | _ => cases handler <;> exact hpre.elim
  entry _ _ _ hpre := keeps_room hpre
  arrive configuration point _ harrives hinv := by
    obtain ⟨handler, call⟩ := point
    simp only [fightService, Bool.and_eq_true, decide_eq_true_eq] at harrives
    obtain ⟨hmessage, rfl⟩ := harrives
    refine ⟨fun hopened ↦ hinv fun point hpoint ↦ hopened point (List.mem_append_left _ hpoint), ?_⟩
    cases handler with
    | onStart roomInfo => cases hmessage
    | checkStatus => cases hmessage
    | _ => exact hmessage
  step configuration before point after reply answers left last _ hpoints hinv hguar := by
    refine ⟨fun hopened ↦ hguar.2 ?_, fun _ _ hodds ↦ hguar.2 (.inl hodds)⟩
    cases hopens : point.opensGame with
    | true => exact .inr rfl
    | false =>
      refine .inl (hinv fun other hother ↦ ?_)
      rw [hpoints] at hother
      rcases List.mem_append.mp hother with hmem | hmem
      · exact hopened other (List.mem_append_left _ (List.mem_append_left _ hmem))
      · rcases List.mem_cons.mp hmem with rfl | hmem
        · exact hopens
        · exact hopened other (List.mem_append_right _ hmem)

/-- In every configuration that a run of a game reaches in a room with odds, nothing has been multiplied with nil, and
once the game has been opened it is played for the odds of the room. -/
theorem roomOdds_of_run {fight : Fight} {roomInfo : RoomInfo} {roomOdds : LuaInt}
    {configuration : Configuration skynet Point Fight} (hodds : roomInfo.roomOdds = some roomOdds)
    (hrun : fightService.AnyRun (beforeGame fight roomInfo) configuration) :
    (.arithmeticOnNil ∉ configuration.errors) ∧
      (Started configuration → configuration.state.roomOdds = some roomOdds) := by
  have hinv : OpenedAtOdds roomOdds fight [⟨.onStart roomInfo, .start⟩] := fun hopened ↦
    nomatch hopened _ (List.mem_singleton_self _)
  have hstarts := (sound_roomContract roomOdds).good_of_starts hinv fun point hpoint ↦ by
    obtain rfl := List.mem_singleton.mp hpoint
    exact hodds
  have hgood := (sound_roomContract roomOdds).good_of_run hstarts hrun
  exact ⟨fun hmem ↦ hgood.errors _ hmem rfl, hgood.holds⟩

end SvrDemo.Douniu
