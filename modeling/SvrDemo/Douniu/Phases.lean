import SvrDemo.Coroutine.Recording
import SvrDemo.Douniu.GameSteps

/-!
# The phases of a game and its odds

`room_status` goes through the phases one to four. Before the choice of odds nobody is the banker and
every player's odds are a bid from zero to four. From then on one player is the banker, whose odds are
from one to four and do not change, and the odds of the others are those that `onSetOdds` admits, or
zero as long as the choice is open. `PhaseOdds` says so of a state.

What happens to a fight besides the steps from one phase to the next is `Meddles`: the messages of the
players, the cards, the copy of the room and what is sent. It keeps `PhaseOdds`, and the odds of the
banker with it. The service with a record of the phases it enters is `recordedFight`.
-/

set_option autoImplicit false
set_option relaxedAutoImplicit false

namespace SvrDemo.Douniu

open Coroutine Lua Skynet

/-! ### Phases -/

/-- The phases of a game up to one of them. -/
def RoomStatus.upTo : RoomStatus → List RoomStatus
  | .idle => []
  | .ready => [.ready]
  | .askLeader => [.ready, .askLeader]
  | .selectOdds => [.ready, .askLeader, .selectOdds]
  | .gameEnd => [.ready, .askLeader, .selectOdds, .gameEnd]

/-- The phase that a change of the state enters, if any. -/
def phaseEntered (first last : Fight) : List RoomStatus :=
  if last.roomStatus = first.roomStatus then [] else [last.roomStatus]

/-- A fight together with the phases it has entered. -/
abbrev RecordedFight : Type := Fight × List RoomStatus

/-- The fight service with a record of the phases it enters. -/
def recordedFight : System skynet Point RecordedFight where
  entry := fun point ↦ point.handler.body.embed (.recording point.handler.at phaseEntered)
  arrives := fightService.arrives

/-- The service with the record runs the programs of the fight service. -/
theorem recordedFight_watches : System.Watches Call Prod.fst id recordedFight fightService :=
  ⟨fun point harrives ↦ ⟨point, rfl, harrives⟩, fun point ↦ ⟨_, point.handler.at, point.handler.body,
    rfl, Embedding.recording_watches _ _, Program.named_relabel _ _, rfl⟩⟩

/-- The service when the lobby has sent `onStart`, with nothing recorded. -/
def recordedBeforeGame (fight : Fight) (roomInfo : RoomInfo) :
    Configuration skynet Point RecordedFight where
  state := (fight, [])
  threads := [recordedFight.start ⟨.onStart roomInfo, .start⟩]
  errors := []

/-- A game has entered the phases up to its present one, the first of them unless the service was left
in it. -/
def Phased (whole : RecordedFight) : Prop :=
  whole.2 = whole.1.roomStatus.upTo ∨ whole.2 = whole.1.roomStatus.upTo.tail

/-! ### Odds -/

/-- Whether a player is the banker, false for a uid that does not play. -/
def Fight.isLeader (fight : Fight) (uid : ℕ) : Bool :=
  ((fight.getPlayer uid).map Player.isLeader).getD false

theorem Fight.isLeader_updatePlayer {change : Player → Player}
    (hfield : ∀ player, (change player).isLeader = player.isLeader) (fight : Fight)
    (uid other : ℕ) : (fight.updatePlayer uid change).isLeader other = fight.isLeader other :=
  congrArg (Option.getD · false) (fight.field_updatePlayer Player.isLeader hfield uid other)

/-- A player is the banker of a game, the only one, with odds from one to four. -/
structure Fight.Banker (fight : Fight) (leader : ℕ) : Prop where
  leads : fight.roomLeader = some leader
  plays : leader ∈ fight.playerLst.keys
  only : ∀ uid ∈ fight.playerLst.keys, fight.isLeader uid = true ↔ uid = leader
  odds : 1 ≤ fight.odds leader ∧ fight.odds leader ≤ 4

/-- The odds of a game that is in one of its four phases. -/
inductive PhaseOdds (fight : Fight) : Prop
  | bidding (phase : fight.roomStatus = .ready ∨ fight.roomStatus = .askLeader)
      (leaderless : ∀ uid ∈ fight.playerLst.keys, fight.isLeader uid = false)
      (odds : ∀ uid ∈ fight.playerLst.keys, 0 ≤ fight.odds uid ∧ fight.odds uid ≤ 4)
  | choosing (leader : ℕ) (phase : fight.roomStatus = .selectOdds) (banker : fight.Banker leader)
      (odds : ∀ uid ∈ fight.playerLst.keys, uid ≠ leader →
        fight.odds uid = 0 ∨ fight.odds uid ∈ setOddsLimit)
  | ending (leader : ℕ) (phase : fight.roomStatus = .gameEnd) (banker : fight.Banker leader)
      (odds : ∀ uid ∈ fight.playerLst.keys, uid ≠ leader → fight.odds uid ∈ setOddsLimit)

/-- From the choice of odds on, the banker stays and his odds do not change. -/
def KeepsBanker (first last : Fight) : Prop :=
  first.roomStatus = .selectOdds ∨ first.roomStatus = .gameEnd →
    (last.roomStatus = .selectOdds ∨ last.roomStatus = .gameEnd) ∧
      last.roomLeader = first.roomLeader ∧
      ∀ leader, first.roomLeader = some leader → last.odds leader = first.odds leader

theorem KeepsBanker.refl (fight : Fight) : KeepsBanker fight fight :=
  fun hlate ↦ ⟨hlate, rfl, fun _ _ ↦ rfl⟩

theorem KeepsBanker.trans {first middle last : Fight} (h : KeepsBanker first middle)
    (h' : KeepsBanker middle last) : KeepsBanker first last := by
  intro hlate
  obtain ⟨hmiddle, hleader, hodds⟩ := h hlate
  obtain ⟨hlast, hleader', hodds'⟩ := h' hmiddle
  exact ⟨hlast, hleader'.trans hleader, fun leader hfirst ↦
    (hodds' leader (hleader.trans hfirst)).trans (hodds leader hfirst)⟩

/-- Nothing is said of the banker before the choice of odds. -/
theorem KeepsBanker.of_early {first last : Fight}
    (hphase : first.roomStatus = .ready ∨ first.roomStatus = .askLeader) : KeepsBanker first last := by
  intro hlate
  rcases hphase with hphase | hphase <;> rw [hphase] at hlate <;>
    exact hlate.elim (fun h ↦ nomatch h) fun h ↦ nomatch h

/-! ### Changes that keep the phase -/

/-- The odds that a message may give a player: a bid, or a choice of a player other than the banker. -/
def Fight.Chooses (fight : Fight) (uid : ℕ) (odds : ℤ) : Prop :=
  fight.roomStatus = .askLeader ∧ odds ∈ getLeaderLimit ∨
    fight.roomStatus = .selectOdds ∧ fight.roomLeader ≠ some uid ∧ odds ∈ setOddsLimit

/-- A change within a phase: the players and the banker stay, and odds change to those that a message
may give. -/
structure KeepsPhase (first last : Fight) : Prop where
  keys : last.playerLst.keys = first.playerLst.keys
  roomStatus : last.roomStatus = first.roomStatus
  roomLeader : last.roomLeader = first.roomLeader
  isLeader : ∀ uid, last.isLeader uid = first.isLeader uid
  odds : ∀ uid, last.odds uid = first.odds uid ∨ first.Chooses uid (last.odds uid)

/-- A change within a phase that touches neither the money won nor the odds of the room. -/
structure Meddles (first last : Fight) : Prop extends KeepsPhase first last where
  winMoney : ∀ uid, last.winMoney uid = first.winMoney uid
  roomOdds : last.roomOdds = first.roomOdds

variable {first middle last fight : Fight} {uid : ℕ}

namespace KeepsPhase

theorem refl (fight : Fight) : KeepsPhase fight fight :=
  ⟨rfl, rfl, rfl, fun _ ↦ rfl, fun _ ↦ .inl rfl⟩

theorem trans (h : KeepsPhase first middle) (h' : KeepsPhase middle last) :
    KeepsPhase first last where
  keys := h'.keys.trans h.keys
  roomStatus := h'.roomStatus.trans h.roomStatus
  roomLeader := h'.roomLeader.trans h.roomLeader
  isLeader uid := (h'.isLeader uid).trans (h.isLeader uid)
  odds uid := by
    have hchooses : middle.Chooses uid (last.odds uid) → first.Chooses uid (last.odds uid) := by
      unfold Fight.Chooses
      rw [h.roomStatus, h.roomLeader]
      exact id
    rcases h'.odds uid with hsame | hchosen
    · rw [hsame]
      exact h.odds uid
    · exact .inr (hchooses hchosen)

/-- The banker of a phase stays the banker. -/
theorem banker (h : KeepsPhase first last) {leader : ℕ} (hphase : first.roomStatus ≠ .askLeader)
    (hbanker : first.Banker leader) : last.Banker leader where
  leads := h.roomLeader.trans hbanker.leads
  plays := h.keys ▸ hbanker.plays
  only uid huid := by
    rw [h.isLeader]
    exact hbanker.only uid (h.keys ▸ huid)
  odds := by
    rcases h.odds leader with hsame | ⟨hask, -⟩ | ⟨-, hother, -⟩
    · rw [hsame]
      exact hbanker.odds
    · exact absurd hask hphase
    · exact absurd hbanker.leads hother

theorem phaseOdds (h : KeepsPhase first last) (hfirst : PhaseOdds first) : PhaseOdds last := by
  cases hfirst with
  | bidding phase leaderless odds =>
    refine .bidding (h.roomStatus ▸ phase) (fun uid huid ↦ ?_) fun uid huid ↦ ?_
    · rw [h.isLeader]
      exact leaderless uid (h.keys ▸ huid)
    · rcases h.odds uid with hsame | ⟨-, hbid⟩ | ⟨hselect, -⟩
      · rw [hsame]
        exact odds uid (h.keys ▸ huid)
      · simp only [getLeaderLimit, List.mem_cons, List.not_mem_nil, or_false] at hbid
        omega
      · rcases phase with phase | phase <;> exact nomatch phase.symm.trans hselect
  | choosing leader phase banker odds =>
    refine .choosing leader (h.roomStatus.trans phase) (h.banker (by rw [phase]; decide) banker)
      fun uid huid hne ↦ ?_
    rcases h.odds uid with hsame | ⟨hask, -⟩ | ⟨-, -, hlimit⟩
    · rw [hsame]
      exact odds uid (h.keys ▸ huid) hne
    · exact nomatch phase.symm.trans hask
    · exact .inr hlimit
  | ending leader phase banker odds =>
    refine .ending leader (h.roomStatus.trans phase) (h.banker (by rw [phase]; decide) banker)
      fun uid huid hne ↦ ?_
    rcases h.odds uid with hsame | ⟨hask, -⟩ | ⟨hselect, -⟩
    · rw [hsame]
      exact odds uid (h.keys ▸ huid) hne
    · exact nomatch phase.symm.trans hask
    · exact nomatch phase.symm.trans hselect

theorem keepsBanker (h : KeepsPhase first last) : KeepsBanker first last := by
  intro hlate
  refine ⟨by rwa [h.roomStatus], h.roomLeader, fun leader hleader ↦ ?_⟩
  rcases h.odds leader with hsame | ⟨hask, -⟩ | ⟨-, hother, -⟩
  · exact hsame
  · rw [hask] at hlate
    exact hlate.elim (fun h ↦ nomatch h) fun h ↦ nomatch h
  · exact absurd hleader hother

/-- Within a phase nothing is recorded. -/
theorem phaseEntered (h : KeepsPhase first last) : Douniu.phaseEntered first last = [] :=
  if_pos h.roomStatus

end KeepsPhase

namespace Meddles

theorem refl (fight : Fight) : Meddles fight fight :=
  ⟨.refl fight, fun _ ↦ rfl, rfl⟩

theorem trans (h : Meddles first middle) (h' : Meddles middle last) : Meddles first last :=
  ⟨h.toKeepsPhase.trans h'.toKeepsPhase, fun uid ↦ (h'.winMoney uid).trans (h.winMoney uid),
    h'.roomOdds.trans h.roomOdds⟩

/-- A change of other variables than the players, the phase, the banker and the odds of the room. -/
theorem of_same (hplayers : last.playerLst = first.playerLst)
    (hstatus : last.roomStatus = first.roomStatus) (hleader : last.roomLeader = first.roomLeader)
    (hroom : last.roomOdds = first.roomOdds) : Meddles first last where
  keys := by rw [hplayers]
  roomStatus := hstatus
  roomLeader := hleader
  isLeader uid := by rw [Fight.isLeader, Fight.getPlayer, hplayers]; rfl
  odds uid := .inl (by rw [Fight.odds, Fight.getPlayer, hplayers]; rfl)
  winMoney uid := by rw [Fight.winMoney, Fight.getPlayer, hplayers]; rfl
  roomOdds := hroom

/-- A change of one record that keeps its odds, its money and its flag. -/
theorem of_updatePlayer {change : Player → Player}
    (hodds : ∀ player, (change player).odds = player.odds)
    (hmoney : ∀ player, (change player).winMoney = player.winMoney)
    (hleader : ∀ player, (change player).isLeader = player.isLeader) :
    Meddles fight (fight.updatePlayer uid change) where
  keys := fight.keys_updatePlayer uid change
  roomStatus := rfl
  roomLeader := rfl
  isLeader := fight.isLeader_updatePlayer hleader uid
  odds other := .inl (fight.odds_updatePlayer hodds uid other)
  winMoney := fight.winMoney_updatePlayer hmoney uid
  roomOdds := rfl

/-- Odds that a message may give. -/
theorem of_chooses {odds : ℤ} (hchooses : fight.Chooses uid odds) :
    Meddles fight (fight.updatePlayer uid fun player ↦ { player with odds := odds }) where
  keys := fight.keys_updatePlayer uid _
  roomStatus := rfl
  roomLeader := rfl
  isLeader other := fight.isLeader_updatePlayer (by exact fun _ ↦ rfl) uid other
  odds other := by
    by_cases hother : other = uid
    · subst hother
      cases hplayer : fight.getPlayer other with
      | none => exact .inl (by simp [Fight.odds, hplayer])
      | some player => exact .inr (by simpa [Fight.odds, hplayer] using hchooses)
    · exact .inl (fight.odds_updatePlayer_of_ne _ hother)
  winMoney other := fight.winMoney_updatePlayer (by exact fun _ ↦ rfl) uid other
  roomOdds := rfl

/-- A change of the copy of the room that keeps its odds. -/
theorem of_room {change : RoomInfo → RoomInfo}
    (hodds : ∀ room, (change room).roomOdds = room.roomOdds) :
    Meddles fight { fight with room := fight.room.map change } :=
  .of_same rfl rfl rfl (by cases hroom : fight.room <;> simp [Fight.roomOdds, hroom, hodds])

/-- Cards that are dealt. -/
theorem of_drawCards (uid num : ℕ) (fight : Fight) : Meddles fight (fight.drawCards uid num).2 where
  keys := by
    rw [Fight.drawCards_eq]
    exact fight.keys_updatePlayer uid _
  roomStatus := by rw [Fight.drawCards_eq]; rfl
  roomLeader := by rw [Fight.drawCards_eq]; rfl
  isLeader other := congrArg (Option.getD · false)
    (fight.field_drawCards Player.isLeader (fun _ _ ↦ rfl) uid num other)
  odds other := .inl (congrArg (Option.getD · 0)
    (fight.field_drawCards Player.odds (fun _ _ ↦ rfl) uid num other))
  winMoney other := congrArg (Option.getD · 0)
    (fight.field_drawCards Player.winMoney (fun _ _ ↦ rfl) uid num other)
  roomOdds := by rw [Fight.drawCards_eq]; rfl

end Meddles

/-! ### What stays within a phase -/

/-- The footprint of what meddles with a fight and waits at some calls. -/
def meddling (waits : Call → Prop) : Footprint skynet Call Fight where
  waits := waits
  changes := Meddles
  raises _ := True

section Within

variable {waits : Call → Prop}

theorem ordinary_meddling (hsends : ∀ agent package, package.isResult = false →
    waits (.sendPackCli agent package)) : Ordinary (meddling waits) :=
  ⟨trivial, trivial, trivial, hsends⟩

/-- The copy of the room may be written. -/
theorem meddling_room {room : RoomInfo} (hroom : fight.room = some room) (status : ℕ) :
    (meddling waits).changes fight
      { fight with room := some { room with status := status } } := by
  have hmap : some { room with status := status } =
      fight.room.map fun room ↦ { room with status := status } := by rw [hroom]; rfl
  rw [hmap]
  exact .of_room fun _ ↦ rfl

theorem meddling_updateGameProcess (hF : Ordinary (meddling waits)) :
    updateGameProcess.Within (meddling waits) fight :=
  within_updateGameProcess hF fun _ hroom ↦ meddling_room hroom _

theorem meddling_getCardFromCardLst (hF : Ordinary (meddling waits)) (uid num : ℕ) :
    (getCardFromCardLst uid num).Within (meddling waits) fight :=
  (Program.within_getState_bind _).mpr ((Program.within_modifyState_bind _ _).mpr
    ⟨.of_drawCards uid num fight, within_sendPerflop hF uid _⟩)

theorem meddling_onShuffle (hF : Ordinary (meddling waits)) :
    onShuffle.Within (meddling waits) fight := by
  refine (Program.within_getState_bind _).mpr (Program.within_bind
    (Program.within_forEach fun place _ later ↦ ?_) fun _ later ↦ ?_)
  · exact Program.within_bind (within_mathRandom 52) fun rankNum later ↦
      (Program.within_modifyState _).mpr (.of_same rfl rfl rfl rfl)
  · refine (Program.within_getState_bind _).mpr (Program.within_bind (within_pairs _) fun order _ ↦ ?_)
    exact Program.within_forEach fun uid _ later ↦ meddling_getCardFromCardLst hF uid 4

/-- The loop that looks for new bids only marks players. -/
theorem meddling_markBidder (marked : List ℕ × Bool) (uid : ℕ) :
    (markBidder marked uid).Within (meddling waits) fight :=
  within_markBidder marked uid (.of_updatePlayer (fun _ ↦ rfl) (fun _ ↦ rfl) fun _ ↦ rfl)

/-- Every message meddles. -/
theorem meddling_message (hF : Ordinary (meddling waits)) (hunlock : ∀ roomId, waits (.unlockRoom roomId))
    {handler : Handler} (hmessage : handler.isMessage = true) :
    handler.body.Within (meddling waits) fight := by
  cases handler with
  | onStart roomInfo => exact nomatch hmessage
  | checkStatus => exact nomatch hmessage
  | onGetLeader uid odds =>
    refine (Program.within_getState_bind _).mpr ?_
    split
    · exact Program.within_pure ()
    rename_i hphase
    cases odds with
    | none => exact trivial
    | some odds =>
      dsimp only
      split
      · split
        · rename_i hlimit
          refine (Program.within_modifyState_bind _ _).mpr ⟨.of_chooses (.inl ⟨?_, hlimit⟩), ?_⟩
          · simpa using hphase
          · exact within_sendUserOdds hF [uid]
        · exact Program.within_pure ()
      · exact Program.within_pure ()
  | onSetOdds uid odds =>
    cases odds with
    | none => exact trivial
    | some odds =>
      refine (Program.within_getState_bind _).mpr ?_
      split
      · rename_i hconsiders
        simp only [Fight.considersOdds, decide_eq_true_eq] at hconsiders
        obtain ⟨hphase, -, hlimit⟩ := hconsiders
        split
        · exact trivial
        · rename_i leader hleader
          split
          · exact Program.within_pure ()
          · rename_i hne
            have hother : fight.roomLeader ≠ some uid := fun hsame ↦
              hne (Option.some.inj (hleader.symm.trans hsame))
            exact (Program.within_modifyState_bind _ _).mpr
              ⟨.of_chooses (.inr ⟨hphase, hother, hlimit⟩), within_sendUserOdds hF [uid]⟩
      · exact Program.within_pure ()
  | onPackCard uid retCardLst =>
    cases retCardLst with
    | none => exact Program.within_pure ()
    | some cards =>
      refine (Program.within_getState_bind _).mpr ?_
      split
      · exact (Program.within_modifyState_bind _ _).mpr
          ⟨.of_updatePlayer (fun _ ↦ rfl) (fun _ ↦ rfl) fun _ ↦ rfl, within_sendUserOdds hF [uid]⟩
      · exact Program.within_pure ()
  | onKickOut uid =>
    refine within_getRoom_bind hF fun room hroom ↦ (Program.within_modifyState_bind _ _).mpr ⟨?_, ?_⟩
    · have hmap : some (room.removePlayer uid) = fight.room.map fun room ↦ room.removePlayer uid := by
        rw [hroom]
        rfl
      rw [hmap]
      exact .of_room fun _ ↦ rfl
    · exact within_call (hunlock _) trivial

/-- Storing the money of a player notes the answer and moves the cursor. -/
theorem meddling_updateUserMoney (hsaves : ∀ service uid addVal, waits (.updateUserMoney service uid addVal))
    (uid : ℕ) (addVal : LuaInt) : (updateUserMoney uid addVal).Within (meddling waits) fight := by
  refine (Program.within_modifyState_bind _ _).mpr ⟨?_, (Program.within_getState_bind _).mpr
    ((Program.within_await_bind _ _).mpr ⟨hsaves _ _ _, fun reply later ↦ ?_⟩)⟩
  · split
    · exact .of_same rfl rfl rfl rfl
    · exact .refl fight
  · split
    · exact (Program.within_modifyState_bind _ _).mpr ⟨.of_same rfl rfl rfl rfl, trivial⟩
    · exact (Program.within_modifyState_bind _ _).mpr ⟨.of_same rfl rfl rfl rfl, trivial⟩

theorem meddling_saveResults (hsaves : ∀ service uid addVal, waits (.updateUserMoney service uid addVal)) :
    saveResults.Within (meddling waits) fight := by
  refine (Program.within_getState_bind _).mpr (Program.within_bind (within_pairs _) fun order _ ↦ ?_)
  refine Program.within_foldlM fun result uid _ later ↦ (Program.within_getState_bind _).mpr ?_
  exact Program.within_bind (meddling_updateUserMoney hsaves uid _) fun _ _ ↦ Program.within_pure _

end Within

end SvrDemo.Douniu
