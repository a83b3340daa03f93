import SvrDemo.Douniu.PhaseSteps
import SvrDemo.Skynet.Oracle

/-!
# The election of the banker

The election loop of `checkStatus` visits the players in the order of `pairs` and keeps the highest bid so far, its
player and the number he has thrown. A higher bid starts a new throw, an equal one has to beat the last. `Leading`
says what the ballot holds after a part of the traversal, and `Elected` what the election leaves: a banker with the
highest bid, whatever the order and the dice. The dice decide between equal bids only, and they can decide for each
of them: the player who is visited first and throws a hundred cannot be beaten.
-/

set_option autoImplicit false
set_option relaxedAutoImplicit false

namespace SvrDemo.Douniu

open Coroutine Lua Skynet

/-- The end of the election: the banker, the odds of the players, and the next phase. -/
def seatLeader (leader : ℕ) : FightTask Unit := do
  Program.modifyState fun fight ↦
    { fight.updatePlayer leader fun player ↦ { player with isLeader := true } with
      roomLeader := some leader }
  let order ← pairs (← Program.getState).playerLst.keys
  Program.forEach order fun uid ↦
    Program.modifyState fun fight ↦ fight.updatePlayer uid (Player.resetOdds (uid = leader))
  Program.modifyState fun fight ↦ { fight with roomStatus := .selectOdds }

/-- The election of `checkStatus`, from the election loop to the next phase. -/
def election : FightTask Unit := do
  let ballot ← electLeader
  match ballot.leader with
  | none => .fail .indexNil
  | some leader => seatLeader leader

theorem installLeader_eq (leader : ℕ) :
    installLeader leader = seatLeader leader >>= fun _ ↦ updateGameProcess := by
  simp only [installLeader, seatLeader, bind_assoc]

/-- The phase of the election holds it when its time has come, and then shows the banker. -/
theorem checkAskLeader_eq : checkAskLeader = do
    let fight ← Program.getState
    if fight.roomStatus = .askLeader then
      let order ← pairs fight.playerLst.keys
      let marked ← order.foldlM markBidder ([], true)
      showBids marked.1
      if ← phaseEnds marked.2 .askLeader then
        let now ← osTime
        Program.modifyState fun fight ↦ { fight with statusBegin := now }
        election
        updateGameProcess
      else return ()
    else return () := by
  have helection : election >>= (fun _ ↦ updateGameProcess) = electLeader >>= fun ballot ↦
      match ballot.leader with
      | none => .fail .indexNil
      | some leader => installLeader leader := by
    rw [election, bind_assoc]
    refine congrArg (electLeader >>= ·) (funext fun ballot ↦ ?_)
    cases ballot.leader with
    | none => rfl
    | some leader => exact (installLeader_eq leader).symm
  rw [helection]
  rfl

/-! ### The loop -/

section Loop

variable {fight : Fight} {oracle : Oracle skynet} {asked : ℕ}

/-- What the ballot holds after a part of the traversal. -/
structure Leading (fight : Fight) (done : List ℕ) (ballot : Ballot) : Prop where
  highest : ∀ uid ∈ done, fight.odds uid ≤ ballot.maxOdds
  leader : (done = [] ∧ ballot.maxOdds = -1) ∨
    ∃ leader ∈ done, ballot.leader = some leader ∧ fight.odds leader = ballot.maxOdds

theorem leading_start (fight : Fight) : Leading fight [] ⟨-1, 0, none⟩ where
  highest := nofun
  leader := .inl ⟨rfl, rfl⟩

/-- The visited player takes the lead. -/
theorem Leading.overtake {done : List ℕ} {ballot : Ballot} {uid : ℕ} (h : Leading fight done ballot)
    (hbid : ballot.maxOdds ≤ fight.odds uid) (rankNum : ℤ) :
    Leading fight (done ++ [uid]) ⟨fight.odds uid, rankNum, some uid⟩ where
  highest other hother := by
    rcases List.mem_append.mp hother with hdone | hlast
    · exact (h.highest other hdone).trans hbid
    · rw [List.mem_singleton.mp hlast]
  leader := .inr ⟨uid, List.mem_append_right done (List.mem_singleton_self uid), rfl, rfl⟩

/-- The visited player does not take the lead. -/
theorem Leading.stay {done : List ℕ} {ballot : Ballot} {uid : ℕ} (h : Leading fight done ballot)
    (hbid : fight.odds uid ≤ ballot.maxOdds) (hodds : 0 ≤ fight.odds uid) :
    Leading fight (done ++ [uid]) ballot where
  highest other hother := by
    rcases List.mem_append.mp hother with hdone | hlast
    · exact h.highest other hdone
    · rwa [List.mem_singleton.mp hlast]
  leader := by
    rcases h.leader with ⟨-, hnone⟩ | ⟨leader, hdone, hleads⟩
    · omega
    · exact .inr ⟨leader, List.mem_append_left [uid] hdone, hleads⟩

/-- One turn of the loop. The visited player takes the lead when he bids more, or as much with a higher throw. -/
theorem computes_voteFor {ballot : Ballot} {uid : ℕ} {odds : ℤ} {post : Ballot → ℕ → Fight → Prop}
    (hover : ballot.maxOdds ≤ odds → ∀ asked rankNum, rankNum = dice oracle asked 100 →
      (odds = ballot.maxOdds → ballot.maxRankNum < rankNum) → post ⟨odds, rankNum, some uid⟩ (asked + 1) fight)
    (hstay : odds ≤ ballot.maxOdds → ∀ asked, post ballot asked fight) :
    (voteFor ballot uid odds).Computes oracle post asked fight := by
  unfold voteFor
  split
  · rename_i hbid
    refine Program.computes_bind (computes_mathRandom (by decide) ?_)
    split
    · rename_i hhigher
      exact Program.computes_pure (hover hbid asked _ rfl fun hsame ↦ absurd hsame hhigher.ne')
    · rename_i hnot
      obtain rfl : odds = ballot.maxOdds := le_antisymm (not_lt.mp hnot) hbid
      split
      · rename_i hthrow
        exact Program.computes_pure (hover hbid asked _ rfl fun _ ↦ hthrow)
      · exact Program.computes_pure (hstay (le_refl _) _)
  · rename_i hlower
    exact Program.computes_pure (hstay (not_le.mp hlower).le _)

/-- The loop ends with a highest bidder. -/
theorem computes_electLeader (hplayers : fight.playerLst.keys.Nonempty)
    (hodds : ∀ uid ∈ fight.playerLst.keys, 0 ≤ fight.odds uid) {post : Ballot → ℕ → Fight → Prop}
    (hpost : ∀ ballot leader asked, ballot.leader = some leader → leader ∈ fight.playerLst.keys →
      (∀ uid ∈ fight.playerLst.keys, fight.odds uid ≤ fight.odds leader) → post ballot asked fight) :
    electLeader.Computes oracle post asked fight := by
  unfold electLeader
  refine Program.computes_bind (Program.computes_getState (Program.computes_bind (computes_pairs ?_)))
  have horder := isOrder_traversal oracle asked fight.playerLst.keys
  refine Program.computes_foldlM (fun done ballot _ state ↦ Leading fight done ballot ∧ fight = state)
    ⟨leading_start fight, rfl⟩ ?_ ?_
  · rintro done uid tail ballot asked _ hlist ⟨hleading, rfl⟩
    have hplays : uid ∈ fight.playerLst.keys := horder.mem_iff.mp (by simp [hlist])
    refine Program.computes_bind (Program.computes_getState (computes_voteFor ?_ ?_))
    · intro hbid asked rankNum _ _
      exact ⟨hleading.overtake hbid rankNum, rfl⟩
    · intro hbid asked
      exact ⟨hleading.stay hbid (hodds uid hplays), rfl⟩
  · rintro ballot asked _ ⟨hleading, rfl⟩
    rcases hleading.leader with ⟨hnone, -⟩ | ⟨leader, hleader, hsome, hmax⟩
    · obtain ⟨uid, huid⟩ := hplayers
      rw [← horder.mem_iff, hnone] at huid
      exact nomatch huid
    · refine hpost ballot leader asked hsome (horder.mem_iff.mp hleader) fun uid huid ↦ ?_
      rw [hmax]
      exact hleading.highest uid (horder.mem_iff.mpr huid)

/-- The player who is visited first and throws a hundred stays ahead of all who do not bid more. -/
theorem computes_electLeader_favouring {uid : ℕ} (hplays : uid ∈ fight.playerLst.keys) (hbid : 0 ≤ fight.odds uid)
    (hhighest : ∀ other ∈ fight.playerLst.keys, fight.odds other ≤ fight.odds uid)
    {post : Ballot → ℕ → Fight → Prop} (hpost : ∀ ballot asked, ballot.leader = some uid → post ballot asked fight) :
    electLeader.Computes (favouring uid) post asked fight := by
  unfold electLeader
  refine Program.computes_bind (Program.computes_getState (Program.computes_bind (computes_pairs ?_)))
  have horder := isOrder_visitFirst uid fight.playerLst.keys
  have hfirst : visitFirst uid fight.playerLst.keys = uid :: (fight.playerLst.keys.erase uid).sort := if_pos hplays
  rw [traversal_favouring]
  refine Program.computes_foldlM (fun done ballot _ state ↦
    ballot = (if done = [] then ⟨-1, 0, none⟩ else ⟨fight.odds uid, 100, some uid⟩) ∧ fight = state) ⟨rfl, rfl⟩ ?_ ?_
  · rintro done other tail ballot asked _ hlist ⟨hballot, rfl⟩
    have hlast : done ++ [other] ≠ [] := List.append_ne_nil_of_right_ne_nil done (List.cons_ne_nil other [])
    refine Program.computes_bind (Program.computes_getState (computes_voteFor ?_ ?_))
    · intro hother asked rankNum hrankNum hthrow
      by_cases hdone : done = []
      · -- the first one visited is the player
        subst hdone
        obtain ⟨rfl, -⟩ := List.cons.inj (hfirst.symm.trans hlist)
        rw [if_neg hlast, hrankNum]
        exact ⟨rfl, rfl⟩
      · rw [if_neg hdone] at hballot
        rw [hballot] at hother hthrow
        have hsame := le_antisymm (hhighest other (horder.mem_iff.mp (by simp [hlist]))) hother
        have hhigher := hthrow hsame
        rw [hrankNum, dice_favouring] at hhigher
        exact absurd hhigher (lt_irrefl (100 : ℤ))
    · intro hother asked
      by_cases hdone : done = []
      · subst hdone
        obtain ⟨rfl, -⟩ := List.cons.inj (hfirst.symm.trans hlist)
        rw [hballot] at hother
        have hminus : fight.odds uid ≤ -1 := hother
        omega
      · rw [if_neg hdone] at hballot
        rw [if_neg hlast]
        exact ⟨hballot, rfl⟩
  · rintro ballot asked _ ⟨hballot, rfl⟩
    rw [hfirst, if_neg (List.cons_ne_nil _ _)] at hballot
    exact hpost ballot asked (by rw [hballot])

end Loop

/-! ### What the election leaves -/

/-- The outcome of an election. -/
structure Elected (before after : Fight) (leader : ℕ) : Prop where
  plays : leader ∈ before.playerLst.keys
  highest : ∀ uid ∈ before.playerLst.keys, before.odds uid ≤ before.odds leader
  roomLeader : after.roomLeader = some leader
  isLeader : (after.getPlayer leader).map Player.isLeader = some true
  keys : after.playerLst.keys = before.playerLst.keys
  odds : after.odds leader = max (before.odds leader) 1
  others : ∀ uid ∈ before.playerLst.keys, uid ≠ leader → after.odds uid = 0
  roomStatus : after.roomStatus = .selectOdds

/-- The loop that clears the odds touches the records only. -/
theorem foldl_updatePlayer (change : ℕ → Player → Player) (order : List ℕ) : ∀ fight : Fight,
    order.foldl (fun fight uid ↦ fight.updatePlayer uid (change uid)) fight =
      { fight with playerLst := order.foldl (fun table uid ↦ table.update uid (change uid)) fight.playerLst } := by
  induction order with
  | nil => intro fight; rfl
  | cons uid order ih => intro fight; exact ih _

/-- The game after the election, when the loop that clears the odds has followed an order. -/
def Fight.withBanker (fight : Fight) (leader : ℕ) (order : List ℕ) : Fight :=
  { fight with
    playerLst := order.foldl (fun table uid ↦ table.update uid (Player.resetOdds (uid = leader)))
      (fight.playerLst.update leader fun player ↦ { player with isLeader := true })
    roomLeader := some leader
    roomStatus := .selectOdds }

section Banker

variable {fight : Fight} {leader : ℕ} {order : List ℕ}

/-- Every player is visited once. -/
theorem Fight.getPlayer_withBanker (horder : IsOrder order fight.playerLst.keys) {uid : ℕ}
    (huid : uid ∈ fight.playerLst.keys) : (fight.withBanker leader order).getPlayer uid =
      (fight.getPlayer uid).map fun player ↦
        Player.resetOdds (uid = leader) (if uid = leader then { player with isLeader := true } else player) := by
  rw [Fight.getPlayer, Fight.withBanker, Table.lookup_foldl_update (fun uid ↦ Player.resetOdds (uid = leader)) horder.1,
    if_pos (horder.mem_iff.mpr huid), Table.lookup_update]
  by_cases hleader : uid = leader
  · subst hleader
    simp [Fight.getPlayer, Function.comp_def]
  · simp [hleader, Fight.getPlayer]

/-- The banker keeps at least one, the others none. -/
theorem elected_withBanker (horder : IsOrder order fight.playerLst.keys) (hplays : leader ∈ fight.playerLst.keys)
    (hodds : 0 ≤ fight.odds leader) (hhighest : ∀ uid ∈ fight.playerLst.keys, fight.odds uid ≤ fight.odds leader) :
    Elected fight (fight.withBanker leader order) leader where
  plays := hplays
  highest := hhighest
  roomLeader := rfl
  isLeader := by
    obtain ⟨player, hplayer⟩ := Fight.mem_keys_iff.mp hplays
    rw [Fight.getPlayer_withBanker horder hplays, hplayer, Option.map_some, Option.map_some, if_pos rfl]
    rfl
  keys := (Table.keys_foldl_update _ _ _).trans (Table.keys_update _ _ _)
  odds := by
    obtain ⟨player, hplayer⟩ := Fight.mem_keys_iff.mp hplays
    have hbid : fight.odds leader = player.odds := by rw [Fight.odds, hplayer, Option.map_some, Option.getD_some]
    rw [hbid] at hodds ⊢
    rw [Fight.odds, Fight.getPlayer_withBanker horder hplays, hplayer]
    simp only [Option.map_some, Option.getD_some, Player.resetOdds, if_true, decide_true]
    split_ifs with hzero
    · rw [hzero]
      rfl
    · omega
  others uid huid hne := by
    obtain ⟨player, hplayer⟩ := Fight.mem_keys_iff.mp huid
    rw [Fight.odds, Fight.getPlayer_withBanker horder huid, hplayer]
    simp [Player.resetOdds, hne]
  roomStatus := rfl

/-- The end of the election seats the banker. -/
theorem computes_seatLeader {oracle : Oracle skynet} {asked : ℕ} {post : Unit → ℕ → Fight → Prop}
    (hpost : ∀ order asked, IsOrder order fight.playerLst.keys → post () asked (fight.withBanker leader order)) :
    (seatLeader leader).Computes oracle post asked fight := by
  unfold seatLeader
  refine Program.computes_bind (Program.computes_modifyState ?_)
  refine Program.computes_bind (Program.computes_getState (Program.computes_bind (computes_pairs ?_)))
  refine Program.computes_bind (Program.computes_forEach_modifyState (Program.computes_modifyState ?_))
  rw [foldl_updatePlayer fun uid ↦ Player.resetOdds (uid = leader)]
  have hkeys := fight.keys_updatePlayer leader fun player ↦ { player with isLeader := true }
  exact hpost _ _ (hkeys ▸ isOrder_traversal oracle asked _)

end Banker

section Election

variable {fight : Fight} {asked : ℕ} (hodds : ∀ uid ∈ fight.playerLst.keys, 0 ≤ fight.odds uid)

include hodds

theorem computes_election {oracle : Oracle skynet} (hplayers : fight.playerLst.keys.Nonempty) :
    election.Computes oracle (fun _ _ after ↦ ∃ leader, Elected fight after leader) asked fight := by
  refine Program.computes_bind (computes_electLeader hplayers hodds ?_)
  intro ballot leader asked hleader hplays hhighest
  rw [hleader]
  refine computes_seatLeader fun order asked horder ↦ ⟨leader, ?_⟩
  exact elected_withBanker horder hplays (hodds leader hplays) hhighest

theorem computes_election_favouring {leader : ℕ} (hplays : leader ∈ fight.playerLst.keys)
    (hhighest : ∀ uid ∈ fight.playerLst.keys, fight.odds uid ≤ fight.odds leader) :
    election.Computes (favouring leader) (fun _ _ after ↦ Elected fight after leader) asked fight := by
  refine Program.computes_bind (computes_electLeader_favouring hplays (hodds leader hplays) hhighest ?_)
  intro ballot asked hleader
  rw [hleader]
  refine computes_seatLeader fun order asked horder ↦ ?_
  exact elected_withBanker horder hplays (hodds leader hplays) hhighest

/-- A section of the service that comes to the election can go on with any of the highest bidders as the banker. -/
theorem exists_exec_election {leader : ℕ} (hplays : leader ∈ fight.playerLst.keys)
    (hhighest : ∀ uid ∈ fight.playerLst.keys, fight.odds uid ≤ fight.odds leader) :
    ∃ answers after, Elected fight after leader ∧
      ∀ (rest : Unit → FightTask Unit) (later : List Answer) (forks : List Call),
        (election >>= rest).exec fight (answers ++ later) forks = (rest ()).exec after later forks := by
  have hcomputes : election.Computes (favouring leader) (fun _ _ after ↦ Elected fight after leader) 0 fight :=
    computes_election_favouring hodds hplays hhighest
  obtain ⟨computed, hcomputed, helected⟩ := hcomputes
  obtain ⟨answers, -, hexec⟩ := Program.exec_of_evaluate election hcomputed
  exact ⟨answers, computed.state, helected, hexec⟩

end Election

/-- The election elects a highest bidder of the game, whatever the order and the dice. Every highest bidder is
elected for some order and some dice, also in a section of the service (`checkAskLeader_eq` says where it comes to the
election). The banker keeps his bid, at least one, and the others have no odds. -/
theorem election_elects {fight : Fight} (hplayers : fight.playerLst.keys.Nonempty)
    (hodds : ∀ uid ∈ fight.playerLst.keys, 0 ≤ fight.odds uid ∧ fight.odds uid ≤ 4) :
    (∀ oracle asked, election.Computes oracle (fun _ _ after ↦ ∃ leader, Elected fight after leader) asked fight) ∧
    ∀ leader ∈ fight.playerLst.keys, (∀ uid ∈ fight.playerLst.keys, fight.odds uid ≤ fight.odds leader) →
      (∃ oracle, ∀ asked, election.Computes oracle (fun _ _ after ↦ Elected fight after leader) asked fight) ∧
      ∃ answers after, Elected fight after leader ∧
        ∀ (rest : Unit → FightTask Unit) (later : List Answer) (forks : List Call),
          (election >>= rest).exec fight (answers ++ later) forks = (rest ()).exec after later forks := by
  have hbids : ∀ uid ∈ fight.playerLst.keys, 0 ≤ fight.odds uid := fun uid huid ↦ (hodds uid huid).1
  constructor
  · intro oracle asked
    exact computes_election hbids hplayers
  · intro leader hplays hhighest
    exact ⟨⟨favouring leader, fun asked ↦ computes_election_favouring hbids hplays hhighest⟩,
      exists_exec_election hbids hplays hhighest⟩

/-- Three players in the phase of the election. Two have bid three, one has not bid. -/
def tiedBids : Fight where
  playerLst := (((∅ : Table Player).insert 1 { initRoomPlayer ⟨1, none, "", "", 0⟩ with odds := 3 }).insert 2
    { initRoomPlayer ⟨2, none, "", "", 0⟩ with odds := 3 }).insert 3 (initRoomPlayer ⟨3, none, "", "", 0⟩)
  cardLst := []
  roomStatus := .askLeader
  statusBegin := 0
  roomLeader := none
  room := none
  curDbsId := 1
  dbServiceCnt := 1
  moneyUpdates := []

/-- Either of the two bidders can become the banker. -/
theorem election_elects_tied :
    (∃ oracle, election.Computes oracle (fun _ _ after ↦ after.roomLeader = some 1) 0 tiedBids) ∧
    ∃ oracle, election.Computes oracle (fun _ _ after ↦ after.roomLeader = some 2) 0 tiedBids := by
  have hfavours := (election_elects (show tiedBids.playerLst.keys.Nonempty from ⟨1, by decide⟩) (by decide)).2
  constructor
  · obtain ⟨⟨oracle, helects⟩, -⟩ := hfavours 1 (by decide) (by decide)
    exact ⟨oracle, Program.computes_mono (fun _ _ _ helected ↦ helected.roomLeader) (helects 0)⟩
  · obtain ⟨⟨oracle, helects⟩, -⟩ := hfavours 2 (by decide) (by decide)
    exact ⟨oracle, Program.computes_mono (fun _ _ _ helected ↦ helected.roomLeader) (helects 0)⟩

end SvrDemo.Douniu
