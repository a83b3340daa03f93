import SvrDemo.Coroutine.Tracing
import SvrDemo.Douniu.GameRuns

/-!
# The course of a game

How long a game takes, and when it is settled, is a matter of the clock. `Course` is a trace of the
coroutine of a game: the readings of the clock, the turns of `checkStatus` it has begun, the players
whose money it has sent to the database, and its calls of `unlock_room`. `timedFight` is the fight service
with this trace.

The clock is timely when it never goes back, and when it has moved on by a second from one turn to the
next, which the timer of `checkStatus` waits for. `turnLimit` bounds the turns until the end of a phase:
one turn, and for every phase one turn more than the seconds it may take. `Paced` says that a game in one
of its phases is within the bound, and how far it is from it by the clock.

The rest of this file is about what the messages of a game leave alone (`Undisturbed`) and what the settlement
writes (`Writes`).
-/

set_option autoImplicit false
set_option relaxedAutoImplicit false

namespace SvrDemo.Douniu

open Coroutine Lua Skynet

/-! ### The trace -/

/-- What has happened in the course of a game: whether the clock has been timely so far, its latest
reading and the least reading that is due, the turns of `checkStatus`, the calls of `unlock_room` and the
players whose money has been sent to `update_user_money`. -/
structure Course where
  timely : Bool
  latest : Option ℤ
  due : Option ℤ
  turns : ℕ
  overs : ℕ
  saved : List ℕ

namespace Course

/-- The course of a game that has not begun. -/
def fresh : Course := ⟨true, none, none, 0, 0, []⟩

/-- The clock is read. -/
def reads (course : Course) (now : ℤ) : Course :=
  { course with
    timely := course.timely && course.due.all fun least ↦ decide (least ≤ now)
    latest := some now
    due := some now }

/-- A turn begins: the clock has moved on since the last reading. -/
def begins (course : Course) : Course :=
  { course with turns := course.turns + 1, due := course.due.map (· + 1) }

/-- The answers that are noted: the readings of the clock. -/
def asked : Query → Answer → Course → Course
  | .time, .number now, course => course.reads now
  | _, _, course => course

/-- The calls that are noted: those that store the money of a player, and those that end the game. -/
def waits : Call → Course → Course
  | .updateUserMoney _ uid _, course => { course with saved := course.saved ++ [uid] }
  | .unlockRoom _, course => { course with overs := course.overs + 1 }
  | _, course => course

end Course

/-- The coroutines of the game are traced, and those of the messages are not. -/
def Handler.tracing (handler : Handler) : Tracing skynet Call Point Course where
  via := handler.at
  asked := if handler.isMessage then fun _ _ course ↦ course else Course.asked
  waits := if handler.isMessage then fun _ course ↦ course else Course.waits

/-- A fight together with the course of its game. -/
abbrev TimedFight : Type := Fight × Course

/-- The fight service with a trace of its game: a coroutine of the game begins with a turn, which is the
one that `onStart` takes at its end, or the one of the timer. -/
def timedFight : System skynet Point TimedFight where
  entry := fun point ↦ Program.noted
    (if point.handler.isMessage then id else Course.begins) (point.handler.body.traced point.handler.tracing)
  arrives := fightService.arrives

/-- The traced service runs the programs of the fight service. -/
theorem timedFight_shadows : timedFight.Shadows fightService :=
  ⟨fun _ ↦ rfl, fun point ↦ .note _ (Program.shadows_traced point.handler.tracing point.handler.body)⟩

/-- The service when the lobby has sent `onStart`, with a course that has not begun. -/
def timedBeforeGame (fight : Fight) (roomInfo : RoomInfo) : Configuration skynet Point TimedFight where
  state := (fight, .fresh)
  threads := [timedFight.start ⟨.onStart roomInfo, .start⟩]
  errors := []

theorem shadows_beforeGame (fight : Fight) (roomInfo : RoomInfo) :
    (timedBeforeGame fight roomInfo).Shadows (beforeGame fight roomInfo) :=
  ⟨rfl, .cons ⟨rfl, fun _ ↦ timedFight_shadows.entry _⟩ .nil, rfl⟩

theorem silent_tracing {handler : Handler} (hmessage : handler.isMessage = true) :
    handler.tracing.Silent :=
  ⟨fun _ _ _ ↦ by simp [Handler.tracing, hmessage], fun _ _ ↦ by simp [Handler.tracing, hmessage]⟩

/-! ### Time -/

/-- The turns that a game may have taken by the end of the phases up to a number: the turn of `onStart`,
and for every phase one turn more than the seconds it may take. -/
def turnLimit (phases : ℕ) : ℤ := 1 + ((enumGameStatusInteval.take phases).map (· + 1)).sum

/-- The four phases of a game. -/
def RoomStatus.isPhase (status : RoomStatus) : Bool := status != .idle

/-- A phase ends when the clock has moved on by more than its seconds. -/
theorem RoomStatus.isOver_iff {status : RoomStatus} (hphase : status.isPhase = true) (now statusBegin : ℤ) :
    status.isOver now statusBegin = true ↔
      turnLimit status.code - turnLimit (status.code - 1) ≤ now - statusBegin := by
  cases status with
  | idle => exact nomatch hphase
  | ready => simp [isOver, inteval, code, enumGameStatusInteval, turnLimit]; omega
  | askLeader => simp [isOver, inteval, code, enumGameStatusInteval, turnLimit]; omega
  | selectOdds => simp [isOver, inteval, code, enumGameStatusInteval, turnLimit]; omega
  | gameEnd => simp [isOver, inteval, code, enumGameStatusInteval, turnLimit]; omega

/-- The limits grow from phase to phase. -/
theorem RoomStatus.turnLimit_le (status : RoomStatus) :
    turnLimit (status.code - 1) ≤ turnLimit status.code ∧ turnLimit status.code ≤ turnLimit 4 := by
  cases status <;> decide

/-- A game is within the limit of its phase, and for every turn that it has taken in the phase the clock
has moved on by a second. -/
def Paced (whole : TimedFight) : Prop :=
  whole.2.timely = true → ∃ due, whole.2.due = some due ∧ whole.1.statusBegin ≤ due ∧
    (whole.2.turns : ℤ) ≤ turnLimit (whole.1.roomStatus.code - 1) + (due - whole.1.statusBegin) ∧
    (whole.2.turns : ℤ) ≤ turnLimit whole.1.roomStatus.code

/-- A game has room for another turn in its phase. -/
def Stays (whole : TimedFight) : Prop :=
  whole.2.timely = true → (whole.2.turns : ℤ) + 1 ≤ turnLimit whole.1.roomStatus.code

variable {whole : TimedFight} {fight : Fight} {course : Course}

theorem Course.reads_timely {now : ℤ} (h : (course.reads now).timely = true) :
    course.timely = true ∧ ∀ due, course.due = some due → due ≤ now := by
  simp only [Course.reads, Bool.and_eq_true] at h
  refine ⟨h.1, fun due hdue ↦ ?_⟩
  simpa [hdue] using h.2

/-- The clock is read in a phase. -/
theorem Paced.reads (h : Paced whole) (now : ℤ) : Paced (whole.1, whole.2.reads now) := by
  intro htimely
  obtain ⟨hbefore, hdue⟩ := Course.reads_timely htimely
  obtain ⟨due, hsome, hbegin, hturns, hlimit⟩ := h hbefore
  have hnow := hdue due hsome
  refine ⟨now, rfl, hbegin.trans hnow, ?_, hlimit⟩
  change (whole.2.turns : ℤ) ≤
    turnLimit (whole.1.roomStatus.code - 1) + (now - whole.1.statusBegin)
  omega

/-- A phase whose time is not over has room for another turn. -/
theorem Paced.stays (h : Paced whole) (hphase : whole.1.roomStatus.isPhase = true) {now : ℤ}
    (hover : whole.1.roomStatus.isOver now whole.1.statusBegin = false) :
    Stays (whole.1, whole.2.reads now) := by
  intro htimely
  obtain ⟨due, hsome, -, hturns, -⟩ := h.reads now htimely
  obtain rfl : now = due := Option.some.inj hsome
  have hearly : ¬ turnLimit whole.1.roomStatus.code - turnLimit (whole.1.roomStatus.code - 1) ≤
      now - whole.1.statusBegin := fun hlate ↦ by
    rw [← RoomStatus.isOver_iff hphase, hover] at hlate
    exact nomatch hlate
  change (whole.2.turns : ℤ) + 1 ≤ turnLimit whole.1.roomStatus.code
  change (whole.2.turns : ℤ) ≤ turnLimit (whole.1.roomStatus.code - 1) + (now - whole.1.statusBegin) at hturns
  omega

/-- The next phase begins with a reading of the clock. -/
theorem Paced.enter (hbefore : course.timely = true →
      (course.turns : ℤ) ≤ turnLimit (fight.roomStatus.code - 1))
    (hdue : course.timely = true → course.due = some fight.statusBegin) : Paced (fight, course) := by
  intro htimely
  have hturns := hbefore htimely
  refine ⟨fight.statusBegin, hdue htimely, le_rfl, ?_, hturns.trans fight.roomStatus.turnLimit_le.1⟩
  change (course.turns : ℤ) ≤
    turnLimit (fight.roomStatus.code - 1) + (fight.statusBegin - fight.statusBegin)
  omega

/-- A turn begins in a phase that has room for it. -/
theorem Paced.begins (h : Paced whole) (hstays : Stays whole) :
    Paced (whole.1, whole.2.begins) := by
  intro htimely
  obtain ⟨due, hsome, hbegin, hturns, -⟩ := h htimely
  have hlimit := hstays htimely
  refine ⟨due + 1, ?_, hbegin.trans (by omega), ?_, ?_⟩
  · simp [Course.begins, hsome]
  · change ((whole.2.turns + 1 : ℕ) : ℤ) ≤ _
    push_cast
    omega
  · change ((whole.2.turns + 1 : ℕ) : ℤ) ≤ _
    push_cast
    exact hlimit

/-- A game has taken no more turns than its four phases have room for. -/
theorem Paced.turns_le (h : Paced whole) (htimely : whole.2.timely = true) :
    (whole.2.turns : ℤ) ≤ turnLimit 4 := by
  obtain ⟨_, _, _, _, hlimit⟩ := h htimely
  exact hlimit.trans whole.1.roomStatus.turnLimit_le.2

/-! ### What a game is about besides its cards -/

/-- A player has shown his hand, false for a uid that does not play. -/
def Fight.packed (fight : Fight) (uid : ℕ) : Bool :=
  ((fight.getPlayer uid).map Player.handCardReady).getD false

/-- The largest card of a player, noted when his hand is compared with that of the banker. -/
def Fight.maxCard (fight : Fight) (uid : ℕ) : Option ℤ :=
  ((fight.getPlayer uid).map Player.maxCard).getD none

/-- No hand has been compared: the game has not been settled. -/
def Uncompared (fight : Fight) : Prop := ∀ uid, fight.maxCard uid = none

/-- In the last phase every player holds five cards. -/
def Dealt (fight : Fight) : Prop :=
  fight.roomStatus = .gameEnd → ∀ uid ∈ fight.playerLst.keys, (fight.hand uid).length = 5

/-- Every player of the copy of the room has an agent. -/
def Fight.Staffed (fight : Fight) : Prop :=
  ∀ room, fight.room = some room → ∀ key player, room.playerLst.lookup key = some player →
    player.agent.isSome

/-- The last phase has ended as it should: everyone has shown his hand, or its time was over at the latest
reading of the clock. -/
def Shown (whole : TimedFight) : Prop :=
  whole.1.roomStatus = .gameEnd ∧ ((∀ uid ∈ whole.1.playerLst.keys, whole.1.packed uid = true) ∨
    ∃ now, whole.2.latest = some now ∧ RoomStatus.gameEnd.isOver now whole.1.statusBegin = true)

theorem Fight.packed_updatePlayer {change : Player → Player}
    (hfield : ∀ player, (change player).handCardReady = player.handCardReady) (fight : Fight)
    (uid other : ℕ) : (fight.updatePlayer uid change).packed other = fight.packed other :=
  congrArg (Option.getD · false) (fight.field_updatePlayer Player.handCardReady hfield uid other)

theorem Fight.maxCard_updatePlayer {change : Player → Player}
    (hfield : ∀ player, (change player).maxCard = player.maxCard) (fight : Fight)
    (uid other : ℕ) : (fight.updatePlayer uid change).maxCard other = fight.maxCard other :=
  congrArg (Option.getD · none) (fight.field_updatePlayer Player.maxCard hfield uid other)

/-- Odds that are not negative stay so when one record gets odds that are not. -/
theorem Fight.odds_updatePlayer_nonneg {change : Player → Player}
    (hchange : ∀ player, 0 ≤ player.odds → 0 ≤ (change player).odds) {fight : Fight}
    (h : ∀ uid, 0 ≤ fight.odds uid) (uid other : ℕ) : 0 ≤ (fight.updatePlayer uid change).odds other := by
  have hother := h other
  unfold Fight.odds at hother ⊢
  rw [Fight.getPlayer_updatePlayer]
  split_ifs with hsame
  · subst hsame
    cases hplayer : fight.getPlayer other with
    | none => exact le_rfl
    | some player =>
      rw [hplayer] at hother
      exact hchange player hother
  · exact hother

/-! ### Messages -/

/-- What the messages leave alone that the course of a game depends on. -/
structure Undisturbed (first last : Fight) : Prop where
  interferes : Interferes first last
  statusBegin : last.statusBegin = first.statusBegin
  staffed : first.Staffed → last.Staffed
  odds : (∀ uid, 0 ≤ first.odds uid) → ∀ uid, 0 ≤ last.odds uid
  maxCard : ∀ uid, last.maxCard uid = first.maxCard uid

theorem Undisturbed.refl (fight : Fight) : Undisturbed fight fight :=
  ⟨.refl fight, rfl, id, id, fun _ ↦ rfl⟩

theorem Undisturbed.trans {first middle last : Fight} (h : Undisturbed first middle) (h' : Undisturbed middle last) :
    Undisturbed first last :=
  ⟨h.interferes.trans h'.interferes, h'.statusBegin.trans h.statusBegin, h'.staffed ∘ h.staffed,
    h'.odds ∘ h.odds, fun uid ↦ (h'.maxCard uid).trans (h.maxCard uid)⟩

/-- A change of variables that the course of a game does not depend on. -/
theorem Undisturbed.of_same {first last : Fight} (hplayers : last.playerLst = first.playerLst)
    (hcards : last.cardLst = first.cardLst) (hstatus : last.roomStatus = first.roomStatus)
    (hbegin : last.statusBegin = first.statusBegin) (hleader : last.roomLeader = first.roomLeader)
    (hupdates : last.moneyUpdates = first.moneyUpdates) (hroom : last.room = first.room) :
    Undisturbed first last := by
  refine ⟨.of_same hplayers hcards hstatus hleader hupdates hroom, hbegin, ?_, ?_, ?_⟩
  · intro hstaffed
    rw [Fight.Staffed, hroom]
    exact hstaffed
  · intro hodds uid
    rw [Fight.odds, Fight.getPlayer, hplayers]
    exact hodds uid
  · intro uid
    rw [Fight.maxCard, Fight.getPlayer, hplayers]
    rfl

/-- A change of one record that keeps its hand, its money and its largest card, and its odds unless the
game is in a phase that chooses them. -/
theorem Undisturbed.of_updatePlayer {change : Player → Player} {uid : ℕ}
    (hhand : ∀ player, (change player).handCardLst = player.handCardLst)
    (hmoney : ∀ player, (change player).winMoney = player.winMoney)
    (hmax : ∀ player, (change player).maxCard = player.maxCard)
    (hodds : fight.roomStatus ≠ .askLeader → fight.roomStatus ≠ .selectOdds →
      ∀ player, (change player).odds = player.odds)
    (hnonneg : ∀ player, 0 ≤ player.odds → 0 ≤ (change player).odds) :
    Undisturbed fight (fight.updatePlayer uid change) where
  interferes := .of_updatePlayer hhand hmoney hodds
  statusBegin := rfl
  staffed := id
  odds h := Fight.odds_updatePlayer_nonneg hnonneg h uid
  maxCard := fight.maxCard_updatePlayer hmax uid

/-- A change of the copy of the room that keeps its odds and adds no player. -/
theorem Undisturbed.of_room {change : RoomInfo → RoomInfo}
    (hodds : ∀ room, (change room).roomOdds = room.roomOdds)
    (hplayers : ∀ room key player, (change room).playerLst.lookup key = some player →
      room.playerLst.lookup key = some player) :
    Undisturbed fight { fight with room := fight.room.map change } := by
  refine ⟨.of_room hodds, rfl, fun hstaffed room hroom key player hplayer ↦ ?_, id, fun _ ↦ rfl⟩
  obtain ⟨old, hold, rfl⟩ := Option.map_eq_some_iff.mp hroom
  exact hstaffed old hold key player (hplayers old key player hplayer)

/-- No message disturbs the course of a game. -/
theorem Handler.undisturbed_effect (handler : Handler) (fight : Fight) : Undisturbed fight (handler.effect fight) := by
  have hmax : ∀ uid odds, ∀ other, (fight.updatePlayer uid fun player ↦
      { player with odds := odds }).maxCard other = fight.maxCard other := fun uid odds other ↦
    fight.maxCard_updatePlayer (by exact fun _ ↦ rfl) uid other
  refine ⟨handler.interferes_effect fight, ?_, ?_, ?_, ?_⟩
  · unfold Handler.effect
    split <;> first | rfl | (split_ifs <;> rfl)
  · unfold Handler.effect
    split
    · split_ifs <;> exact id
    · split_ifs <;> exact id
    · exact id
    · rename_i uid
      exact (Undisturbed.of_room (by exact fun _ ↦ rfl)
        (by exact fun _ _ _ ↦ Table.lookup_of_erase)).staffed
    · exact id
  · intro hodds uid
    unfold Handler.effect
    split
    · split_ifs with haccepts
      · have hlimit := haccepts.2.2
        simp only [getLeaderLimit, List.mem_cons, List.not_mem_nil, or_false] at hlimit
        exact Fight.odds_updatePlayer_nonneg (fun _ _ ↦ by dsimp only; omega) hodds _ uid
      · exact hodds uid
    · split_ifs with haccepts
      · have hconsiders := haccepts.1
        simp only [Fight.considersOdds, decide_eq_true_eq, setOddsLimit, List.mem_cons,
          List.not_mem_nil, or_false] at hconsiders
        exact Fight.odds_updatePlayer_nonneg (fun _ _ ↦ by dsimp only; omega) hodds _ uid
      · exact hodds uid
    · exact Fight.odds_updatePlayer_nonneg (by exact fun _ h ↦ h) hodds _ uid
    · exact hodds uid
    · exact hodds uid
  · intro uid
    unfold Handler.effect
    split
    · split_ifs
      · exact hmax _ _ uid
      · rfl
    · split_ifs
      · exact hmax _ _ uid
      · rfl
    · exact fight.maxCard_updatePlayer (by exact fun _ ↦ rfl) _ uid
    · rfl
    · rfl

/-- The game goes on as before when messages have not disturbed it. -/
theorem Paced.of_undisturbed {last : Fight} (hsame : Undisturbed whole.1 last) (h : Paced whole) :
    Paced (last, whole.2) := by
  unfold Paced at h ⊢
  rw [hsame.statusBegin, hsame.interferes.roomStatus]
  exact h

theorem Stays.of_undisturbed {last : Fight} (hsame : Undisturbed whole.1 last) (h : Stays whole) :
    Stays (last, whole.2) := by
  unfold Stays at h ⊢
  rw [hsame.interferes.roomStatus]
  exact h

/-! ### The settlement -/

/-- A record without what the settlement writes. -/
def Player.blank (player : Player) : Player :=
  { player with winMoney := 0, niuNum := 0, maxCard := none }

/-- A change of what the settlement writes, and of nothing else. -/
structure Writes (first last : Fight) : Prop where
  frame : last = { first with playerLst := last.playerLst }
  records : ∀ uid, (last.getPlayer uid).map Player.blank = (first.getPlayer uid).map Player.blank

namespace Writes

variable {first middle last : Fight}

theorem refl (fight : Fight) : Writes fight fight :=
  ⟨rfl, fun _ ↦ rfl⟩

theorem trans (h : Writes first middle) (h' : Writes middle last) : Writes first last :=
  ⟨by rw [h'.frame, h.frame], fun uid ↦ (h'.records uid).trans (h.records uid)⟩

/-- The settlement keeps the fields of the records that it does not write. -/
theorem field (h : Writes first last) {β : Type} (field : Player → β)
    (hfield : ∀ player, field player.blank = field player) (uid : ℕ) :
    (last.getPlayer uid).map field = (first.getPlayer uid).map field := by
  have hblank : ∀ fight : Fight, (fight.getPlayer uid).map field =
      ((fight.getPlayer uid).map Player.blank).map field := fun fight ↦ by
    rw [Option.map_map]
    exact congrArg (Option.map · _) (funext fun player ↦ (hfield player).symm)
  rw [hblank last, hblank first, h.records uid]

theorem keys (h : Writes first last) : last.playerLst.keys = first.playerLst.keys := by
  ext uid
  rw [Fight.mem_keys_iff, Fight.mem_keys_iff]
  have hrecord := h.field (fun _ ↦ ()) (fun _ ↦ rfl) uid
  cases hlast : last.getPlayer uid <;> cases hfirst : first.getPlayer uid <;>
    simp_all

theorem hand (h : Writes first last) (uid : ℕ) : last.hand uid = first.hand uid :=
  congrArg (Option.getD · []) (h.field Player.handCardLst (fun _ ↦ rfl) uid)

theorem packed (h : Writes first last) (uid : ℕ) : last.packed uid = first.packed uid :=
  congrArg (Option.getD · false) (h.field Player.handCardReady (fun _ ↦ rfl) uid)

end Writes

/-- Two records of the same player are written. -/
theorem writes_compared {uid leaderUid : ℕ} {player leader player' leader' : Player}
    (hplayer : fight.getPlayer uid = some player) (hleader : fight.getPlayer leaderUid = some leader)
    (hblank : player'.blank = player.blank) (hblank' : leader'.blank = leader.blank) :
    Writes fight (fight.compared uid player' leaderUid leader') := by
  refine ⟨rfl, fun other ↦ ?_⟩
  change (((fight.playerLst.insert uid player').insert leaderUid leader').lookup other).map _ = _
  rw [Table.lookup_insert_eq, Table.lookup_insert_eq]
  by_cases hbanker : other = leaderUid
  · rw [if_pos hbanker, hbanker, hleader, Option.map_some, Option.map_some, hblank']
  · rw [if_neg hbanker]
    by_cases hsame : other = uid
    · rw [if_pos hsame, hsame, hplayer, Option.map_some, Option.map_some, hblank]
    · rw [if_neg hsame]
      rfl

/-- Comparing two hands notes what the settlement writes. -/
theorem blank_of_compareHandCard {first second : Player} {result : Bool × Player × Player}
    (h : compareHandCard first second = .ok result) :
    result.2.1.blank = first.blank ∧ result.2.2.blank = second.blank := by
  unfold compareHandCard at h
  cases hfirst : parseCardInfo first.handCardLst with
  | error error => rw [hfirst] at h; exact nomatch h
  | ok firstInfo =>
    cases hsecond : parseCardInfo second.handCardLst with
    | error error => rw [hfirst, hsecond] at h; exact nomatch h
    | ok secondInfo =>
      rw [hfirst, hsecond] at h
      obtain rfl := Except.ok.inj h
      exact ⟨rfl, rfl⟩

/-- The state that a step of the settlement leaves, whether it succeeds or fails. -/
def leaves : Except (LuaError × Fight) Fight → Fight
  | .ok last => last
  | .error (_, left) => left

/-- One turn of the settlement loop. -/
theorem writes_settlePlayer (leaderUid : ℕ) (fight : Fight) (uid : ℕ) :
    Writes fight (leaves (fight.settlePlayer leaderUid uid)) := by
  unfold Fight.settlePlayer
  split
  · exact .refl fight
  split
  · rename_i player leader hplayer hleader
    split
    · exact .refl fight
    · rename_i cpRet player' leader' hcompare
      obtain ⟨hblank, hblank'⟩ := blank_of_compareHandCard hcompare
      split
      · exact writes_compared hplayer hleader hblank hblank'
      · split
        · exact writes_compared hplayer hleader hblank hblank'
        · exact writes_compared hplayer hleader hblank hblank'
  · exact .refl fight

/-- The settlement loop. -/
theorem writes_settle (order : List ℕ) (fight : Fight) : Writes fight (leaves (fight.settle order)) := by
  unfold Fight.settle
  split
  · rename_i leaderUid hleader
    clear hleader
    induction order generalizing fight with
    | nil => exact .refl fight
    | cons uid order ih =>
      rw [List.foldlM_cons]
      have hturn := writes_settlePlayer leaderUid fight uid
      cases hresult : fight.settlePlayer leaderUid uid with
      | error failure =>
        rw [hresult] at hturn
        exact hturn
      | ok next =>
        rw [hresult] at hturn
        exact hturn.trans (ih next)
  · split
    · exact .refl fight
    · exact .refl fight

end SvrDemo.Douniu
