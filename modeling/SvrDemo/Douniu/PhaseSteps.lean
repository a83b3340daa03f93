import SvrDemo.Douniu.GameTurn
import SvrDemo.Douniu.Stakes

/-!
# The contract of the phases

What the coroutines of a fight service promise each other about phases and odds. A message meddles and
enters no phase. The game has entered the phases in order, its odds are those of its phase, and from
the choice of odds on the banker stays; while it stores or shows its result, every opponent of the
banker has his stake.

Within a phase the game only meddles, like the messages. What it does from one phase to the next is
shown here of the state: a new game, the new banker, the last deal and the settlement.
-/

set_option autoImplicit false
set_option relaxedAutoImplicit false

namespace SvrDemo.Douniu

open Coroutine Lua Skynet

variable {fight first last : Fight} {whole : RecordedFight} {handler : Handler}
  {current : Section skynet Point RecordedFight}

/-! ### The contract -/

/-- Every opponent of the banker has his stake. -/
def Fight.AllStaked (fight : Fight) : Prop :=
  ∀ leader, fight.roomLeader = some leader → ∀ uid ∈ fight.playerLst.keys, uid ≠ leader →
    fight.Staked uid

/-- A game in one of its phases that has not been settled. -/
structure Playing (fight : Fight) : Prop where
  phaseOdds : PhaseOdds fight
  unpaid : ∀ uid ∈ fight.playerLst.keys, fight.winMoney uid = 0

/-- What a section of a message guarantees. -/
structure MessagePhase (origin : RecordedFight) (left : List Point) (last : RecordedFight) : Prop where
  waiting : ∀ other ∈ left, other.handler.isMessage = true
  meddles : Meddles origin.1 last.1
  record : last.2 = origin.2

/-- What the coroutine of a game leaves: its phases, its odds and its stakes. -/
structure InPhase (left : List Point) (last : RecordedFight) : Prop where
  phased : Phased last
  phaseOdds : PhaseOdds last.1
  staked : (∃ point ∈ left, point.call.isSettling = true) → last.1.AllStaked

/-- What a section of the game guarantees. -/
structure GamePhase (point : Point) (origin : RecordedFight) (left : List Point)
    (last : RecordedFight) : Prop extends InPhase left last where
  single : left.length ≤ 1
  waiting : ∀ other ∈ left, other.handler.isMessage = false ∧ other.opensGame = false
  keepsBanker : point.opensGame = false → KeepsBanker origin.1 last.1

/-- Where a coroutine may be started: a game with nothing recorded, a turn of `checkStatus` when the
game is in a phase, and messages at any time. -/
def startsPhase : Point → RecordedFight → Prop
  | ⟨.onStart _, .start⟩, whole => whole.2 = []
  | ⟨.checkStatus, .start⟩, whole => Playing whole.1 ∧ Phased whole
  | ⟨handler, .start⟩, _ => handler.isMessage = true
  | _, _ => False

/-- The contract of a fight service for its phases. Its coroutines may fail. -/
def phaseContract : Contract skynet Point RecordedFight where
  rely point first last := point.handler.isMessage = false →
    Meddles first.1 last.1 ∧ last.2 = first.2
  guar point origin _ left last :=
    (point.handler.isMessage = true → MessagePhase origin left last) ∧
      (point.handler.isMessage = false → GamePhase point origin left last)
  pre := startsPhase
  err _ := True

/-! ### Assertions under which a game waits -/

/-- An assertion that holds on while players and messages meddle. -/
def Unmeddled (holds : Fight → Prop) : Prop :=
  ∀ first last, Meddles first last → holds first → holds last

theorem unmeddled_playing : Unmeddled Playing := fun _ _ h hfirst ↦
  ⟨h.phaseOdds hfirst.phaseOdds, fun uid huid ↦
    (h.winMoney uid).trans (hfirst.unpaid uid (h.keys ▸ huid))⟩

/-- A game that has not been settled, in a given phase. -/
def PlayingIn (status : RoomStatus) (fight : Fight) : Prop :=
  Playing fight ∧ fight.roomStatus = status

theorem unmeddled_playingIn (status : RoomStatus) : Unmeddled (PlayingIn status) :=
  fun _ _ h hfirst ↦ ⟨unmeddled_playing _ _ h hfirst.1, h.roomStatus.trans hfirst.2⟩

theorem Fight.Staked.of_meddles {uid : ℕ} (h : Meddles first last) (hstaked : first.Staked uid) :
    last.Staked uid := by
  unfold Fight.Staked
  rw [h.winMoney, h.roomOdds]
  exact hstaked

/-- A game whose settlement has succeeded. -/
structure Concluded (fight : Fight) : Prop where
  phaseOdds : PhaseOdds fight
  staked : fight.AllStaked

theorem unmeddled_concluded : Unmeddled Concluded := fun _ _ h hfirst ↦
  ⟨h.phaseOdds hfirst.phaseOdds, fun leader hleader uid huid hne ↦
    (hfirst.staked leader (h.roomLeader ▸ hleader) uid (h.keys ▸ huid) hne).of_meddles h⟩

/-- The last deal: the players who have had their turn have chosen their odds. -/
structure Choosing (rest : List ℕ) (fight : Fight) : Prop where
  playing : PlayingIn .selectOdds fight
  chosen : ∀ uid ∈ fight.playerLst.keys, uid ∉ rest → fight.odds uid ≠ 0

/-- Odds that have been chosen stay chosen. -/
theorem Meddles.odds_ne_zero {uid : ℕ} (h : Meddles first last)
    (hphase : first.roomStatus = .selectOdds) (hodds : first.odds uid ≠ 0) : last.odds uid ≠ 0 := by
  rcases h.odds uid with hsame | ⟨hask, -⟩ | ⟨-, -, hlimit⟩
  · rw [hsame]
    exact hodds
  · exact nomatch hphase.symm.trans hask
  · intro hzero
    rw [hzero] at hlimit
    exact absurd hlimit (by decide)

theorem unmeddled_choosing (rest : List ℕ) : Unmeddled (Choosing rest) := fun _ _ h hfirst ↦
  ⟨unmeddled_playingIn .selectOdds _ _ h hfirst.playing, fun uid huid hrest ↦
    h.odds_ne_zero hfirst.playing.2 (hfirst.chosen uid (h.keys ▸ huid) hrest)⟩

/-! ### The coroutine of a game -/

/-- The coroutine of a game in the middle of a section, in a state of which an assertion holds. -/
structure Turn (handler : Handler) (holds : Fight → Prop) (current : Section skynet Point RecordedFight)
    (whole : RecordedFight) : Prop where
  forks : current.forks = []
  serves : current.point.handler = handler
  keepsBanker : current.point.opensGame = false → KeepsBanker current.origin.1 whole.1
  phased : Phased whole
  state : holds whole.1

variable {holds holds' : Fight → Prop}

theorem Turn.hear (h : Turn handler holds current whole) (heard : List Answer) :
    Turn handler holds { current with heard := heard } whole :=
  ⟨h.forks, h.serves, h.keepsBanker, h.phased, h.state⟩

theorem Turn.imp (h : Turn handler holds current whole) (himp : holds whole.1 → holds' whole.1) :
    Turn handler holds' current whole :=
  ⟨h.forks, h.serves, h.keepsBanker, h.phased, himp h.state⟩

/-- A step of the game. -/
theorem Turn.step (h : Turn handler holds current whole) (hkeeps : KeepsBanker whole.1 last)
    (hphased : Phased (last, whole.2 ++ phaseEntered whole.1 last)) (hlast : holds' last) :
    Turn handler holds' current (last, whole.2 ++ phaseEntered whole.1 last) :=
  ⟨h.forks, h.serves, fun hopens ↦ (h.keepsBanker hopens).trans hkeeps, hphased, hlast⟩

/-- Within a phase nothing is recorded. -/
theorem Phased.of_same {record : List RoomStatus} (h : Phased (first, record))
    (hstatus : last.roomStatus = first.roomStatus) :
    Phased (last, record ++ phaseEntered first last) := by
  unfold Phased at h ⊢
  rw [phaseEntered, if_pos hstatus, List.append_nil]
  simpa only [hstatus] using h

/-- The next phase is recorded after the present one. -/
theorem Phased.next {record : List RoomStatus} {before after : RoomStatus}
    (h : Phased (first, record)) (hfirst : first.roomStatus = before)
    (hlast : last.roomStatus = after) (hbefore : before ≠ .idle)
    (hnext : after.upTo = before.upTo ++ [after]) (hne : after ≠ before) :
    Phased (last, record ++ phaseEntered first last) := by
  have hentered : phaseEntered first last = [after] := by
    rw [phaseEntered, if_neg (by rw [hfirst, hlast]; exact hne), hlast]
  have hsome : before.upTo ≠ [] := by
    cases before with
    | idle => exact absurd rfl hbefore
    | _ => exact List.cons_ne_nil _ _
  unfold Phased at h ⊢
  rw [hentered]
  simp only [hfirst, hlast] at h ⊢
  rw [hnext]
  rcases h with hall | htail
  · exact .inl (by rw [hall])
  · exact .inr (by rw [htail, List.tail_append_of_ne_nil hsome])

/-- A step within a phase. -/
theorem Turn.within (h : Turn handler holds current whole)
    (hstatus : last.roomStatus = whole.1.roomStatus) (hkeeps : KeepsBanker whole.1 last)
    (hlast : holds' last) :
    Turn handler holds' current (last, whole.2 ++ phaseEntered whole.1 last) :=
  h.step hkeeps (h.phased.of_same hstatus) hlast

theorem Turn.meddle (h : Turn handler holds current whole) (hmeddles : Meddles whole.1 last)
    (hlast : holds' last) :
    Turn handler holds' current (last, whole.2 ++ phaseEntered whole.1 last) :=
  h.within hmeddles.roomStatus hmeddles.keepsBanker hlast

/-- The game may end its section with one coroutine waiting at a call, or with none. -/
theorem Turn.ends (h : Turn handler holds current whole) (hgame : handler.isMessage = false)
    {left : List Point} (hsingle : left.length ≤ 1)
    (hleft : ∀ other ∈ left, ∃ call, call ≠ .start ∧ other = ⟨handler, call⟩)
    (hodds : PhaseOdds whole.1)
    (hstaked : (∃ point ∈ left, point.call.isSettling = true) → whole.1.AllStaked) :
    phaseContract.Ends current left whole := by
  refine ⟨⟨fun hmessage ↦ ?_, fun _ ↦ ⟨⟨h.phased, hodds, hstaked⟩, hsingle, ?_, h.keepsBanker⟩⟩, ?_⟩
  · rw [h.serves, hgame] at hmessage
    exact nomatch hmessage
  · intro other hother
    obtain ⟨call, hcall, rfl⟩ := hleft other hother
    exact ⟨hgame, Point.opensGame_of_ne handler hcall⟩
  · rw [h.forks]
    exact fun _ hmem ↦ nomatch hmem

theorem Turn.done (h : Turn handler holds current whole) (hgame : handler.isMessage = false)
    (hodds : PhaseOdds whole.1) : phaseContract.done () current whole := by
  have hends : phaseContract.Ends current [] whole :=
    h.ends hgame (by simp) (fun _ hmem ↦ nomatch hmem) hodds fun ⟨_, hmem, _⟩ ↦ nomatch hmem
  rw [← h.forks] at hends
  exact hends

theorem Turn.raised (h : Turn handler holds current whole) (hgame : handler.isMessage = false)
    (hodds : PhaseOdds whole.1) (error : LuaError) : phaseContract.raised error current whole :=
  ⟨trivial, h.done hgame hodds⟩

/-- An assertion that holds on while players meddle, and under which the calls of a footprint may be
made, lasts through a part of the game that only meddles. -/
theorem steady_turn (hgame : handler.isMessage = false) {waits : Call → Prop}
    (hwaits : ∀ call, waits call → call ≠ .start ∧ call ≠ .timer) (hunmeddled : Unmeddled holds)
    (hodds : ∀ fight, holds fight → PhaseOdds fight)
    (hstaked : ∀ call fight, waits call → call.isSettling = true → holds fight → fight.AllStaked) :
    Steady (.recording handler.at phaseEntered) phaseContract (meddling waits)
      phaseContract.raised (Turn handler holds) where
  heard _ _ _ h := h.hear _
  change _ _ _ hchange h := h.meddle hchange (hunmeddled _ _ hchange h.state)
  wait call current whole hcall h := by
    obtain ⟨hstart, htimer⟩ := hwaits call hcall
    have hat : handler.at call = ⟨handler, call⟩ := handler.at_of_ne htimer
    refine ⟨?_, fun reply later hrely ↦ ?_⟩
    · rw [h.forks, hat]
      refine h.ends hgame (by simp) ?_ (hodds _ h.state) fun ⟨point, hmem, hsettling⟩ ↦ ?_
      · exact fun other hother ↦ ⟨call, hstart, List.mem_singleton.mp hother⟩
      · obtain rfl := List.mem_singleton.mp hmem
        exact hstaked call _ hcall hsettling h.state
    · rw [hat] at hrely ⊢
      obtain ⟨hmeddles, hrecord⟩ := hrely hgame
      refine ⟨rfl, rfl, fun _ ↦ .refl later.1, ?_, hunmeddled _ _ hmeddles h.state⟩
      have hphased := h.phased
      unfold Phased at hphased ⊢
      rw [hrecord, hmeddles.roomStatus]
      exact hphased
  raise error _ _ _ h := h.raised hgame (hodds _ h.state) error

/-- The quiet calls of a game that has not been settled. -/
theorem steady_playing (hgame : handler.isMessage = false) (hunmeddled : Unmeddled holds)
    (hplaying : ∀ fight, holds fight → Playing fight) :
    Steady (.recording handler.at phaseEntered) phaseContract (meddling quiet)
      phaseContract.raised (Turn handler holds) :=
  steady_turn hgame (fun _ hquiet ↦ ⟨hquiet.1, hquiet.2.1⟩) hunmeddled
    (fun fight h ↦ (hplaying fight h).phaseOdds) fun _ _ hquiet hsettling _ ↦
      nomatch hquiet.2.2.symm.trans hsettling

/-- The calls of a game that has been settled. -/
def concluding (call : Call) : Prop := call ≠ .start ∧ call ≠ .timer

theorem steady_concluded (hgame : handler.isMessage = false) :
    Steady (.recording handler.at phaseEntered) phaseContract (meddling concluding)
      phaseContract.raised (Turn handler Concluded) :=
  steady_turn hgame (fun _ h ↦ h) unmeddled_concluded (fun _ h ↦ h.phaseOdds) fun _ _ _ _ h ↦ h.staked

theorem ordinary_meddling_quiet : Ordinary (meddling quiet) :=
  ordinary_meddling fun _ _ hpackage ↦ ⟨Call.noConfusion, Call.noConfusion, hpackage⟩

theorem ordinary_meddling_concluding : Ordinary (meddling concluding) :=
  ordinary_meddling fun _ _ _ ↦ ⟨Call.noConfusion, Call.noConfusion⟩

/-! ### A new game -/

/-- The record of a new game is nobody's banker, has no odds and has won nothing. -/
theorem playing_newGame (fight : Fight) (roomInfo : RoomInfo) (order : List ℕ) (now : ℤ) :
    Playing (newGame fight roomInfo order now) := by
  have hplayer : ∀ uid ∈ (newGame fight roomInfo order now).playerLst.keys, ∃ roomPlayer,
      (newGame fight roomInfo order now).getPlayer uid = some (initRoomPlayer roomPlayer) := by
    intro uid huid
    obtain ⟨player, hlookup⟩ := Fight.mem_keys_iff.mp huid
    obtain ⟨roomPlayer, rfl⟩ := exists_of_initPlayers_lookup roomInfo order hlookup
    exact ⟨roomPlayer, hlookup⟩
  refine ⟨.bidding (.inl rfl) (fun uid huid ↦ ?_) fun uid huid ↦ ?_, fun uid huid ↦ ?_⟩
  · obtain ⟨roomPlayer, hlookup⟩ := hplayer uid huid
    simp [Fight.isLeader, hlookup, initRoomPlayer]
  · obtain ⟨roomPlayer, hlookup⟩ := hplayer uid huid
    simp [Fight.odds, hlookup, initRoomPlayer]
  · obtain ⟨roomPlayer, hlookup⟩ := hplayer uid huid
    simp [Fight.winMoney, hlookup, initRoomPlayer]

/-- The first phase is recorded, unless the service was left in it. -/
theorem phased_newGame (fight : Fight) (roomInfo : RoomInfo) (order : List ℕ) (now : ℤ) :
    Phased (newGame fight roomInfo order now,
      [] ++ phaseEntered fight (newGame fight roomInfo order now)) := by
  unfold Phased phaseEntered
  split
  · exact .inr rfl
  · exact .inl rfl

/-! ### The new banker -/

/-- The election is over and the odds are being reset: the players who have had their turn have the
odds with which the choice begins. -/
structure Installing (leader : ℕ) (rest : List ℕ) (fight : Fight) : Prop where
  phase : fight.roomStatus = .askLeader
  leads : fight.roomLeader = some leader
  plays : leader ∈ fight.playerLst.keys
  only : ∀ uid ∈ fight.playerLst.keys, fight.isLeader uid = true ↔ uid = leader
  bids : ∀ uid ∈ fight.playerLst.keys, uid ∈ rest → 0 ≤ fight.odds uid ∧ fight.odds uid ≤ 4
  banker : leader ∉ rest → 1 ≤ fight.odds leader ∧ fight.odds leader ≤ 4
  others : ∀ uid ∈ fight.playerLst.keys, uid ∉ rest → uid ≠ leader → fight.odds uid = 0
  unpaid : ∀ uid ∈ fight.playerLst.keys, fight.winMoney uid = 0

/-- In the election nobody is the banker and the odds are bids. -/
theorem PhaseOdds.bids (h : PhaseOdds fight) (hphase : fight.roomStatus = .askLeader) :
    (∀ uid ∈ fight.playerLst.keys, fight.isLeader uid = false) ∧
      ∀ uid ∈ fight.playerLst.keys, 0 ≤ fight.odds uid ∧ fight.odds uid ≤ 4 := by
  cases h with
  | bidding _ leaderless odds => exact ⟨leaderless, odds⟩
  | choosing _ phase _ _ => exact nomatch hphase.symm.trans phase
  | ending _ phase _ _ => exact nomatch hphase.symm.trans phase

/-- The banker is marked. -/
theorem PlayingIn.installing {leader : ℕ} {order : List ℕ} (h : PlayingIn .askLeader fight)
    (hplays : leader ∈ fight.playerLst.keys) (horder : IsOrder order fight.playerLst.keys) :
    Installing leader order { fight.updatePlayer leader fun player ↦ { player with isLeader := true }
      with roomLeader := some leader } := by
  obtain ⟨hleaderless, hbids⟩ := h.1.phaseOdds.bids h.2
  have hkeys := fight.keys_updatePlayer leader fun player ↦ { player with isLeader := true }
  generalize hmarked : (fight.updatePlayer leader fun player ↦ { player with isLeader := true }) =
    marked at hkeys ⊢
  have hodds : ∀ uid, marked.odds uid = fight.odds uid := fun uid ↦
    hmarked ▸ fight.odds_updatePlayer (by exact fun _ ↦ rfl) leader uid
  have hmoney : ∀ uid, marked.winMoney uid = fight.winMoney uid := fun uid ↦
    hmarked ▸ fight.winMoney_updatePlayer (by exact fun _ ↦ rfl) leader uid
  have hflag : ∀ uid ∈ fight.playerLst.keys, marked.isLeader uid = true ↔ uid = leader := by
    intro uid huid
    rw [← hmarked, Fight.isLeader, Fight.getPlayer_updatePlayer]
    split_ifs with hleader
    · obtain ⟨player, hplayer⟩ := Fight.mem_keys_iff.mp hplays
      simp [hleader, hplayer]
    · simpa [hleader, Fight.isLeader] using hleaderless uid huid
  refine ⟨hmarked ▸ h.2, rfl, ?_, ?_, ?_, ?_, ?_, ?_⟩
  · change leader ∈ marked.playerLst.keys
    rwa [hkeys]
  · intro uid huid
    exact hflag uid (hkeys ▸ huid)
  · intro uid huid _
    change 0 ≤ marked.odds uid ∧ marked.odds uid ≤ 4
    rw [hodds]
    exact hbids uid (hkeys ▸ huid)
  · exact fun hrest ↦ absurd (horder.mem_iff.mpr hplays) hrest
  · exact fun uid huid hrest ↦ absurd (horder.mem_iff.mpr (hkeys ▸ huid)) hrest
  · intro uid huid
    exact (hmoney uid).trans (h.1.unpaid uid (hkeys ▸ huid))

/-- The odds after one turn of the loop that clears them. -/
theorem Fight.odds_resetOdds {uid : ℕ} (hplays : uid ∈ fight.playerLst.keys) (isElected : Bool)
    (other : ℕ) : (fight.updatePlayer uid (Player.resetOdds isElected)).odds other =
      if other = uid then (if isElected then (if fight.odds uid = 0 then 1 else fight.odds uid) else 0)
      else fight.odds other := by
  obtain ⟨player, hplayer⟩ := Fight.mem_keys_iff.mp hplays
  rw [Fight.odds, Fight.getPlayer_updatePlayer]
  split_ifs <;> simp_all [Fight.odds, Player.resetOdds]

/-- One turn of the loop that clears the odds. -/
theorem Installing.reset {leader uid : ℕ} {rest : List ℕ}
    (h : Installing leader (uid :: rest) fight) (hplays : uid ∈ fight.playerLst.keys) :
    Installing leader rest (fight.updatePlayer uid (Player.resetOdds (uid = leader))) := by
  have hkeys := fight.keys_updatePlayer uid (Player.resetOdds (uid = leader))
  have hodds := Fight.odds_resetOdds hplays (decide (uid = leader))
  have hrest : ∀ {other}, other ≠ uid → other ∉ rest → other ∉ uid :: rest :=
    fun hne hrest hmem ↦ (List.mem_cons.mp hmem).elim hne hrest
  refine ⟨h.phase, h.leads, by rw [hkeys]; exact h.plays, ?_, ?_, ?_, ?_, ?_⟩
  · intro other hother
    rw [fight.isLeader_updatePlayer (by exact fun _ ↦ rfl)]
    exact h.only other (hkeys ▸ hother)
  · intro other hother hmem
    rw [hodds]
    have hbid := h.bids other (hkeys ▸ hother) (List.mem_cons_of_mem uid hmem)
    by_cases hsame : other = uid
    · subst hsame
      split_ifs <;> omega
    · rwa [if_neg hsame]
  · intro hleader
    rw [hodds]
    by_cases hsame : leader = uid
    · subst hsame
      have hbid := h.bids leader hplays List.mem_cons_self
      rw [if_pos rfl, if_pos (by simp)]
      split_ifs <;> omega
    · rw [if_neg hsame]
      exact h.banker (hrest hsame hleader)
  · intro other hother hmem hne
    rw [hodds]
    by_cases hsame : other = uid
    · subst hsame
      rw [if_pos rfl, if_neg (by simpa using hne)]
    · rw [if_neg hsame]
      exact h.others other (hkeys ▸ hother) (hrest hsame hmem) hne
  · intro other hother
    rw [fight.winMoney_updatePlayer (by exact fun _ ↦ rfl)]
    exact h.unpaid other (hkeys ▸ hother)

/-- The choice of odds begins. -/
theorem Installing.choosing {leader : ℕ} (h : Installing leader [] fight) :
    PlayingIn .selectOdds { fight with roomStatus := .selectOdds } := by
  have hbanker : Fight.Banker { fight with roomStatus := .selectOdds } leader :=
    ⟨h.leads, h.plays, h.only, h.banker List.not_mem_nil⟩
  refine ⟨⟨.choosing leader rfl hbanker fun uid huid hne ↦ .inl ?_, h.unpaid⟩, rfl⟩
  exact h.others uid huid List.not_mem_nil hne

/-! ### The last deal -/

/-- Whoever has not chosen gets odds five, which a player other than the banker may choose. -/
theorem Choosing.chooses {uid : ℕ} {rest : List ℕ} {player : Player}
    (h : Choosing (uid :: rest) fight) (hplayer : fight.getPlayer uid = some player)
    (hunset : player.oddsUnset = true) : fight.Chooses uid 5 := by
  refine .inr ⟨h.playing.2, fun hleads ↦ ?_, by decide⟩
  simp only [Player.oddsUnset, decide_eq_true_eq] at hunset
  have huid : uid ∈ fight.playerLst.keys := Fight.mem_keys_iff.mpr ⟨player, hplayer⟩
  cases h.playing.1.phaseOdds with
  | bidding phase _ _ =>
    rcases phase with phase | phase <;> cases h.playing.2.symm.trans phase
  | choosing leader _ banker _ =>
    obtain rfl : leader = uid := Option.some.inj (banker.leads.symm.trans hleads)
    have hflag := (banker.only leader huid).mpr rfl
    simp only [Fight.isLeader, hplayer, Option.map_some, Option.getD_some, hunset.2] at hflag
    cases hflag
  | ending _ phase _ _ => cases h.playing.2.symm.trans phase

/-- Whoever has not to choose has odds. -/
theorem Choosing.odds_ne_zero {uid : ℕ} {rest : List ℕ} {player : Player}
    (h : Choosing rest fight) (hplayer : fight.getPlayer uid = some player)
    (hset : player.oddsUnset = false) : fight.odds uid ≠ 0 := by
  intro hzero
  have huid : uid ∈ fight.playerLst.keys := Fight.mem_keys_iff.mpr ⟨player, hplayer⟩
  have hodds : player.odds = 0 := by simpa [Fight.odds, hplayer] using hzero
  have hflag : fight.isLeader uid = true := by
    simpa [Player.oddsUnset, hodds, Fight.isLeader, hplayer] using hset
  cases h.playing.1.phaseOdds with
  | bidding _ leaderless _ => cases hflag.symm.trans (leaderless uid huid)
  | choosing leader _ banker _ =>
    obtain rfl := (banker.only uid huid).mp hflag
    have hpos := banker.odds.1
    omega
  | ending _ phase _ _ => cases h.playing.2.symm.trans phase

/-- A player who has had his turn of the last deal has odds. -/
theorem Choosing.tail {uid : ℕ} {rest : List ℕ} (h : Choosing (uid :: rest) fight)
    (hodds : fight.odds uid ≠ 0) : Choosing rest fight := by
  refine ⟨h.playing, fun other hother hrest ↦ ?_⟩
  by_cases hsame : other = uid
  · rw [hsame]
    exact hodds
  · exact h.chosen other hother fun hmem ↦ (List.mem_cons.mp hmem).elim hsame hrest

/-- The last phase begins once everyone has odds. -/
theorem Choosing.ending (h : Choosing [] fight) (now : ℤ) :
    PlayingIn .gameEnd { fight with statusBegin := now, roomStatus := .gameEnd } := by
  refine ⟨⟨?_, h.playing.1.unpaid⟩, rfl⟩
  cases h.playing.1.phaseOdds with
  | bidding phase _ _ =>
    rcases phase with phase | phase <;> exact nomatch h.playing.2.symm.trans phase
  | choosing leader _ banker odds =>
    refine .ending leader rfl ⟨banker.leads, banker.plays, banker.only, banker.odds⟩
      fun uid huid hne ↦ ?_
    exact (odds uid huid hne).resolve_left (h.chosen uid huid List.not_mem_nil)
  | ending _ phase _ _ => exact nomatch h.playing.2.symm.trans phase

/-! ### The settlement -/

/-- A settlement that succeeds stakes the odds of every opponent of the banker. -/
theorem PlayingIn.concluded {order : List ℕ} (h : PlayingIn .gameEnd fight)
    (horder : IsOrder order fight.playerLst.keys) (hok : fight.settle order = .ok last) :
    Concluded last := by
  have hkeeps : KeepsPhase fight last := by
    have hkeeps := keepsPhase_settle order fight
    rw [hok] at hkeeps
    exact hkeeps
  refine ⟨hkeeps.phaseOdds h.1.phaseOdds, fun leader hleader uid huid hne ↦ ?_⟩
  cases h.1.phaseOdds with
  | bidding phase _ _ => rcases phase with phase | phase <;> exact nomatch h.2.symm.trans phase
  | choosing _ phase _ _ => exact nomatch h.2.symm.trans phase
  | ending banker _ hbanker odds =>
    obtain rfl : banker = leader := Option.some.inj
      (hbanker.leads.symm.trans (hkeeps.roomLeader.symm.trans hleader))
    exact staked_settle horder h.2 hbanker odds h.1.unpaid hok uid (hkeeps.keys ▸ huid) hne

end SvrDemo.Douniu
