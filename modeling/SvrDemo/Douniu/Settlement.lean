import SvrDemo.Douniu.Fight

/-!
# The settlement of a game

The settlement loop of `checkStatus` writes the banker's record once for every opponent, and reads
it in every turn. `SettledAlong` is its invariant: after the players of a list, each of them has won
or lost his own stake, the banker has paid the sum of these gains, and nothing else has changed.
The stake of a player depends on the odds and the hands only, which the loop does not write.

`settle_eq_ok` is the run of the whole loop, and `settlement_zero_sum` what it means for the money
of the players: the gains sum to zero, each is the gain of the hand that wins, and the order of the
players does not matter.
-/

set_option autoImplicit false
set_option relaxedAutoImplicit false

namespace SvrDemo.Douniu

open Lua Skynet

/-- A hand beats another: it has the larger bull, or the same bull and the larger card. -/
def handBeats (first second : List ℤ) : Bool :=
  if niuOf first ≠ niuOf second then niuOf first > niuOf second
  else maxCardOf first > maxCardOf second

/-- A record with the bull and the largest card of its hand. -/
def Player.valued (player : Player) : Player :=
  { player with
    niuNum := niuOf player.handCardLst
    maxCard := some (maxCardOf player.handCardLst) }

/-- What an opponent of the banker gains: the product of both odds, the odds of the room and the
multiplier of the winning hand, negative when the banker's hand wins. -/
def stakeOf (roomOdds : LuaInt) (odds leaderOdds : ℤ) (hand leaderHand : List ℤ) : LuaInt :=
  if handBeats hand leaderHand then
    (odds : LuaInt) * (leaderOdds : LuaInt) * roomOdds * (getCardOdds (niuOf hand) : LuaInt)
  else -((odds : LuaInt) * (leaderOdds : LuaInt) * roomOdds *
    (getCardOdds (niuOf leaderHand) : LuaInt))

/-- What a player gains from the banker. -/
def gainFrom (roomOdds : LuaInt) (leader player : Player) : LuaInt :=
  stakeOf roomOdds player.odds leader.odds player.handCardLst leader.handCardLst

/-- Two hands of five cards are always compared. -/
theorem compareHandCard_of_length {first second : Player} (hfirst : first.handCardLst.length = 5)
    (hsecond : second.handCardLst.length = 5) :
    compareHandCard first second =
      .ok (handBeats first.handCardLst second.handCardLst, first.valued, second.valued) := by
  unfold compareHandCard handBeats
  rw [parseCardInfo_of_length hfirst, parseCardInfo_of_length hsecond]
  rfl

section Loop

variable {fight : Fight} {room : RoomInfo} {roomOdds : LuaInt} {leaderUid : ℕ} {leader : Player}

/-- One turn of the loop for an opponent of the banker. -/
theorem settlePlayer_eq_ok {uid : ℕ} {player : Player} {current : Player}
    (hroom : fight.room = some room) (hodds : room.roomOdds = some roomOdds)
    (hne : uid ≠ leaderUid) (hplayer : fight.getPlayer uid = some player)
    (hcurrent : fight.getPlayer leaderUid = some current)
    (hhand : player.handCardLst.length = 5) (hleaderHand : current.handCardLst.length = 5) :
    fight.settlePlayer leaderUid uid = .ok (fight.compared
      uid { player.valued with winMoney := player.winMoney + gainFrom roomOdds current player }
      leaderUid
        { current.valued with winMoney := current.winMoney - gainFrom roomOdds current player }) := by
  unfold Fight.settlePlayer
  rw [if_neg hne, hplayer, hcurrent]
  simp only [compareHandCard_of_length hhand hleaderHand, hroom, hodds]
  simp only [Player.valued, gainFrom, stakeOf]
  split_ifs <;> rfl

/-- The opponents of the banker in a list. -/
def opponents (leaderUid : ℕ) (order : List ℕ) : List ℕ := order.filter (· ≠ leaderUid)

/-- What the players of a list have gained together. -/
def totalGain (fight : Fight) (roomOdds : LuaInt) (leader : Player) (uids : List ℕ) : LuaInt :=
  (uids.map fun uid ↦ ((fight.getPlayer uid).map (gainFrom roomOdds leader)).getD 0).sum

/-- The state of the loop after the players of the list `settled`: each opponent of the banker
among them has his gain, the banker has paid the gains, and the rest is as before. -/
structure SettledAlong (fight : Fight) (roomOdds : LuaInt) (leaderUid : ℕ) (leader : Player)
    (settled : List ℕ) (current : Fight) : Prop where
  frame : current = { fight with playerLst := current.playerLst }
  opponent : ∀ uid, uid ≠ leaderUid → current.getPlayer uid =
    if uid ∈ settled then
      (fight.getPlayer uid).map fun player ↦ { player.valued with
        winMoney := player.winMoney + gainFrom roomOdds leader player }
    else fight.getPlayer uid
  banker : current.getPlayer leaderUid =
    if opponents leaderUid settled = [] then some leader
    else some { leader.valued with
      winMoney := leader.winMoney -
        totalGain fight roomOdds leader (opponents leaderUid settled) }

/-- The banker's record keeps his odds and his hand through the loop. -/
theorem SettledAlong.exists_banker {settled : List ℕ} {current : Fight}
    (h : SettledAlong fight roomOdds leaderUid leader settled current) :
    ∃ record, current.getPlayer leaderUid = some record ∧ record.odds = leader.odds ∧
      record.handCardLst = leader.handCardLst ∧ record.valued = { leader.valued with
        winMoney := leader.winMoney -
          totalGain fight roomOdds leader (opponents leaderUid settled) } := by
  rw [h.banker]
  split_ifs with hnone
  · refine ⟨leader, rfl, rfl, rfl, ?_⟩
    simp [hnone, totalGain, Player.valued]
  · exact ⟨_, rfl, rfl, rfl, rfl⟩

/-- One turn of the loop keeps its invariant. -/
theorem SettledAlong.turn {settled : List ℕ} {uid : ℕ} {current : Fight}
    (h : SettledAlong fight roomOdds leaderUid leader settled current)
    (hroom : fight.room = some room) (hodds : room.roomOdds = some roomOdds)
    (hleaderHand : leader.handCardLst.length = 5) (hnew : uid ∉ settled)
    (hplays : uid ∈ fight.playerLst.keys) (hhand : (fight.hand uid).length = 5) :
    ∃ next, current.settlePlayer leaderUid uid = .ok next ∧
      SettledAlong fight roomOdds leaderUid leader (settled ++ [uid]) next := by
  by_cases hne : uid = leaderUid
  · refine ⟨current, by rw [Fight.settlePlayer, if_pos hne], h.frame, ?_, ?_⟩
    · intro other hother
      rw [h.opponent other hother]
      simp [show other ≠ uid from hne ▸ hother]
    · rw [h.banker]
      simp [opponents, hne]
  · obtain ⟨player, hplayer⟩ := Table.mem_keys_iff.mp hplays
    have hplayerHand : player.handCardLst.length = 5 := by
      simpa [Fight.hand, Fight.getPlayer, hplayer] using hhand
    have hcurrentPlayer : current.getPlayer uid = some player := by
      rw [h.opponent uid hne, if_neg hnew]
      exact hplayer
    obtain ⟨record, hrecord, hrecordOdds, hrecordHand, hvalued⟩ := h.exists_banker
    have hcurrentRoom : current.room = some room := by rw [h.frame]; exact hroom
    have hgain : gainFrom roomOdds record player = gainFrom roomOdds leader player := by
      simp only [gainFrom, hrecordOdds, hrecordHand]
    have hstep := settlePlayer_eq_ok hcurrentRoom hodds hne hcurrentPlayer hrecord hplayerHand
      (hrecordHand ▸ hleaderHand)
    rw [hgain] at hstep
    refine ⟨_, hstep, ?_, ?_, ?_⟩
    · rw [h.frame]
      rfl
    · intro other hother
      simp only [Fight.compared, Fight.getPlayer, Finmap.lookup_insert_of_ne _ hother]
      by_cases hsame : other = uid
      · subst hsame
        simp [hplayer]
      · rw [Finmap.lookup_insert_of_ne _ hsame]
        have hold := h.opponent other hother
        simp only [Fight.getPlayer] at hold
        simp [hold, hsame]
    · have hopponents : opponents leaderUid (settled ++ [uid]) =
          opponents leaderUid settled ++ [uid] := by simp [opponents, hne]
      have hmoney : record.winMoney = leader.winMoney -
          totalGain fight roomOdds leader (opponents leaderUid settled) :=
        congrArg Player.winMoney hvalued
      have htotal : totalGain fight roomOdds leader (opponents leaderUid settled ++ [uid]) =
          totalGain fight roomOdds leader (opponents leaderUid settled) +
            gainFrom roomOdds leader player := by
        simp [totalGain, Fight.getPlayer, hplayer]
      rw [hopponents, htotal, if_neg (by simp)]
      simp only [Fight.compared, Fight.getPlayer, Finmap.lookup_insert, hvalued, hmoney, sub_sub]

/-- The settlement loop, run along any order of the players. -/
theorem settle_eq_ok {order : List ℕ} (hroom : fight.room = some room)
    (hodds : room.roomOdds = some roomOdds) (hleader : fight.roomLeader = some leaderUid)
    (hrecord : fight.getPlayer leaderUid = some leader)
    (hhands : ∀ uid ∈ fight.playerLst.keys, (fight.hand uid).length = 5)
    (horder : IsOrder order fight.playerLst.keys) :
    ∃ last, fight.settle order = .ok last ∧
      SettledAlong fight roomOdds leaderUid leader order last := by
  have hleaderHand : leader.handCardLst.length = 5 := by
    have hmem : leaderUid ∈ fight.playerLst.keys := Table.mem_keys_iff.mpr ⟨leader, hrecord⟩
    simpa [Fight.hand, hrecord] using hhands leaderUid hmem
  unfold Fight.settle
  rw [hleader]
  refine exists_foldlM_eq_ok order (SettledAlong fight roomOdds leaderUid leader) ?_ [] order fight
    rfl ⟨rfl, fun uid _ ↦ by simp, by simp [opponents, hrecord]⟩
  intro settled uid rest current hsplit hinv
  have hmem : uid ∈ order := by simp [hsplit]
  have hnew : uid ∉ settled := by
    have hnodup := horder.1
    rw [hsplit, List.nodup_append] at hnodup
    exact fun hin ↦ hnodup.2.2 uid hin uid List.mem_cons_self rfl
  have hplays := horder.mem_iff.mp hmem
  exact hinv.turn hroom hodds hleaderHand hnew hplays (hhands uid hplays)

/-- The invariant determines the state up to the order of the players that are done. -/
theorem SettledAlong.unique {settled settled' : List ℕ} {current current' : Fight}
    (h : SettledAlong fight roomOdds leaderUid leader settled current)
    (h' : SettledAlong fight roomOdds leaderUid leader settled' current')
    (hperm : settled.Perm settled') : current = current' := by
  have hopponents : (opponents leaderUid settled).Perm (opponents leaderUid settled') :=
    hperm.filter _
  have htotal : totalGain fight roomOdds leader (opponents leaderUid settled) =
      totalGain fight roomOdds leader (opponents leaderUid settled') :=
    (hopponents.map _).sum_eq
  have hnone : opponents leaderUid settled = [] ↔ opponents leaderUid settled' = [] :=
    ⟨fun hnil ↦ by rw [hnil] at hopponents; exact hopponents.nil_eq.symm,
      fun hnil ↦ by rw [hnil] at hopponents; exact hopponents.eq_nil⟩
  have hplayers : current.playerLst = current'.playerLst := by
    refine Finmap.ext_lookup fun uid ↦ ?_
    change current.getPlayer uid = current'.getPlayer uid
    by_cases hne : uid = leaderUid
    · rw [hne, h.banker, h'.banker, htotal]
      simp only [hnone]
    · rw [h.opponent uid hne, h'.opponent uid hne]
      simp only [hperm.mem_iff]
  rw [h.frame, h'.frame, hplayers]

/-- The loop keeps the odds and the hands. -/
theorem SettledAlong.same {settled : List ℕ} {current : Fight}
    (h : SettledAlong fight roomOdds leaderUid leader settled current)
    (hrecord : fight.getPlayer leaderUid = some leader) (uid : ℕ) :
    current.odds uid = fight.odds uid ∧ current.hand uid = fight.hand uid ∧
      (uid ∈ current.playerLst.keys ↔ uid ∈ fight.playerLst.keys) := by
  rw [Table.mem_keys_iff, Table.mem_keys_iff]
  change current.odds uid = fight.odds uid ∧ current.hand uid = fight.hand uid ∧
    ((∃ record, current.getPlayer uid = some record) ↔ ∃ record, fight.getPlayer uid = some record)
  by_cases hne : uid = leaderUid
  · obtain ⟨record, hcurrent, hrecordOdds, hrecordHand, -⟩ := h.exists_banker
    rw [hne]
    simp [Fight.odds, Fight.hand, hcurrent, hrecord, hrecordOdds, hrecordHand]
  · have hopponent := h.opponent uid hne
    cases hplayer : fight.getPlayer uid with
    | none => simp_all [Fight.odds, Fight.hand]
    | some player => split_ifs at hopponent <;> simp_all [Fight.odds, Fight.hand, Player.valued]

end Loop

/-- The odds of the room of a game. -/
def Fight.roomOdds (fight : Fight) : Option LuaInt := fight.room.bind RoomInfo.roomOdds

/-- A settled game: the opponents of the banker have their stakes, and the banker has the negative
sum of them. -/
structure Fight.Paid (fight : Fight) (leaderUid : ℕ) : Prop where
  leader : fight.roomLeader = some leaderUid
  plays : leaderUid ∈ fight.playerLst.keys
  opponent : ∀ uid ∈ fight.playerLst.keys, uid ≠ leaderUid → ∃ roomOdds,
    fight.roomOdds = some roomOdds ∧ fight.winMoney uid =
      stakeOf roomOdds (fight.odds uid) (fight.odds leaderUid) (fight.hand uid)
        (fight.hand leaderUid)
  banker : fight.winMoney leaderUid =
    -∑ uid ∈ fight.playerLst.keys.erase leaderUid, fight.winMoney uid

/-- The money of a settled game sums to zero. -/
theorem Fight.Paid.sum_eq_zero {fight : Fight} {leaderUid : ℕ} (h : fight.Paid leaderUid) :
    ∑ uid ∈ fight.playerLst.keys, fight.winMoney uid = 0 := by
  rw [← Finset.add_sum_erase _ _ h.plays, h.banker, neg_add_cancel]

/-- A game whose settlement loop is through, with no money won before, is settled. -/
theorem SettledAlong.paid {fight last : Fight} {roomOdds : LuaInt} {leaderUid : ℕ} {leader : Player}
    {order : List ℕ} (h : SettledAlong fight roomOdds leaderUid leader order last)
    (hodds : fight.roomOdds = some roomOdds) (hleader : fight.roomLeader = some leaderUid)
    (hrecord : fight.getPlayer leaderUid = some leader)
    (horder : IsOrder order fight.playerLst.keys)
    (hzero : ∀ uid ∈ fight.playerLst.keys, fight.winMoney uid = 0) :
    last.Paid leaderUid := by
  have hmem : leaderUid ∈ fight.playerLst.keys := Table.mem_keys_iff.mpr ⟨leader, hrecord⟩
  have hkeys : last.playerLst.keys = fight.playerLst.keys :=
    Finset.ext fun uid ↦ (h.same hrecord uid).2.2
  have hopponent : ∀ uid ∈ fight.playerLst.keys, uid ≠ leaderUid →
      last.winMoney uid = ((fight.getPlayer uid).map (gainFrom roomOdds leader)).getD 0 := by
    intro uid hplays hne
    obtain ⟨player, hplayer⟩ := Table.mem_keys_iff.mp hplays
    change fight.getPlayer uid = some player at hplayer
    have hmoney : player.winMoney = 0 := by
      simpa [Fight.winMoney, hplayer] using hzero uid hplays
    have hlast := h.opponent uid hne
    rw [if_pos (horder.mem_iff.mpr hplays)] at hlast
    simp [Fight.winMoney, hlast, hplayer, hmoney]
  refine ⟨by rw [h.frame]; exact hleader, hkeys ▸ hmem, ?_, ?_⟩
  · intro uid hplays hne
    rw [hkeys] at hplays
    refine ⟨roomOdds, by rw [h.frame]; exact hodds, ?_⟩
    obtain ⟨player, hplayer⟩ := Table.mem_keys_iff.mp hplays
    change fight.getPlayer uid = some player at hplayer
    rw [hopponent uid hplays hne, (h.same hrecord uid).1, (h.same hrecord uid).2.1,
      (h.same hrecord leaderUid).1, (h.same hrecord leaderUid).2.1]
    simp [Fight.hand, Fight.odds, hplayer, hrecord, gainFrom]
  · obtain ⟨record, hlast, -, -, hvalued⟩ := h.exists_banker
    have hmoney : record.winMoney = leader.winMoney -
        totalGain fight roomOdds leader (opponents leaderUid order) :=
      congrArg Player.winMoney hvalued
    have hleaderZero : leader.winMoney = 0 := by
      simpa [Fight.winMoney, hrecord] using hzero leaderUid hmem
    have hopponents : IsOrder (opponents leaderUid order) (fight.playerLst.keys.erase leaderUid) := by
      refine ⟨horder.1.filter _, ?_⟩
      ext uid
      simp [opponents, horder.mem_iff, and_comm]
    have hsum : totalGain fight roomOdds leader (opponents leaderUid order) =
        ∑ uid ∈ fight.playerLst.keys.erase leaderUid, last.winMoney uid := by
      rw [totalGain, hopponents.sum_map]
      refine Finset.sum_congr rfl fun uid huid ↦ ?_
      exact (hopponent uid (Finset.mem_of_mem_erase huid) (Finset.ne_of_mem_erase huid)).symm
    have hbanker : last.winMoney leaderUid = record.winMoney := by simp [Fight.winMoney, hlast]
    rw [hkeys, hbanker, hmoney, hleaderZero, hsum, zero_sub]

/-- The settlement is zero-sum and correctly attributed. For a game with a banker, five cards in
every hand and no money won yet, the settlement loop succeeds along every order of the players and
always with the same result. In it the money of all players sums to zero, an opponent of the banker
has won or lost his stake with the multiplier of the winning hand, and the banker has the negative
sum of the others. -/
theorem settlement_zero_sum (fight : Fight) (room : RoomInfo) (roomOdds : LuaInt) (leaderUid : ℕ)
    (hroom : fight.room = some room) (hodds : room.roomOdds = some roomOdds)
    (hleader : fight.roomLeader = some leaderUid) (hmem : leaderUid ∈ fight.playerLst.keys)
    (hhands : ∀ uid ∈ fight.playerLst.keys, (fight.hand uid).length = 5)
    (hzero : ∀ uid ∈ fight.playerLst.keys, fight.winMoney uid = 0) :
    ∃ last : Fight,
      (∀ order, IsOrder order fight.playerLst.keys → fight.settle order = .ok last) ∧
      last.playerLst.keys = fight.playerLst.keys ∧
      ∑ uid ∈ last.playerLst.keys, last.winMoney uid = 0 ∧
      (∀ uid ∈ fight.playerLst.keys, uid ≠ leaderUid →
        last.winMoney uid =
          if handBeats (fight.hand uid) (fight.hand leaderUid) then
            (fight.odds uid : LuaInt) * (fight.odds leaderUid : LuaInt) * roomOdds *
              (getCardOdds (niuOf (fight.hand uid)) : LuaInt)
          else
            -((fight.odds uid : LuaInt) * (fight.odds leaderUid : LuaInt) * roomOdds *
              (getCardOdds (niuOf (fight.hand leaderUid)) : LuaInt))) ∧
      last.winMoney leaderUid =
        -∑ uid ∈ fight.playerLst.keys.erase leaderUid, last.winMoney uid := by
  obtain ⟨leader, hrecord⟩ := Table.mem_keys_iff.mp hmem
  obtain ⟨given, hgiven⟩ := exists_isOrder fight.playerLst.keys
  obtain ⟨last, -, hlast⟩ := settle_eq_ok hroom hodds hleader hrecord hhands hgiven
  have hroomOdds : fight.roomOdds = some roomOdds := by rw [Fight.roomOdds, hroom]; exact hodds
  have hkeys : last.playerLst.keys = fight.playerLst.keys :=
    Finset.ext fun uid ↦ (hlast.same hrecord uid).2.2
  have hpaid := hlast.paid hroomOdds hleader hrecord hgiven hzero
  refine ⟨last, ?_, hkeys, hpaid.sum_eq_zero, ?_, hkeys ▸ hpaid.banker⟩
  · intro order horder
    obtain ⟨other, hsettle, hother⟩ := settle_eq_ok hroom hodds hleader hrecord hhands horder
    rw [hsettle, hother.unique hlast (horder.perm hgiven)]
  · intro uid hplays hne
    obtain ⟨paidOdds, hpaidOdds, hstake⟩ := hpaid.opponent uid (hkeys.symm ▸ hplays) hne
    have hsame : paidOdds = roomOdds := by
      rw [hlast.frame] at hpaidOdds
      exact Option.some.inj (hpaidOdds.symm.trans hroomOdds)
    rw [hstake, hsame, (hlast.same hrecord uid).1, (hlast.same hrecord uid).2.1,
      (hlast.same hrecord leaderUid).1, (hlast.same hrecord leaderUid).2.1]
    rfl

/-- A game of two players at its end: the banker 1 holds a bull of ten, the other none. -/
def endedPair : Fight where
  playerLst := ((∅ : Table Player).insert 1
      { initRoomPlayer ⟨1, some 11, "", "", 0⟩ with
        odds := 2, isLeader := true, handCardLst := [10, 11, 12, 13, 23] }).insert 2
    { initRoomPlayer ⟨2, some 12, "", "", 0⟩ with odds := 5, handCardLst := [1, 2, 4, 14, 15] }
  cardLst := []
  roomStatus := .gameEnd
  statusBegin := 0
  roomLeader := some 1
  room := some ⟨1000, some 25, ∅, 4, 0, none, 0⟩
  curDbsId := 1
  dbServiceCnt := 1
  moneyUpdates := []

/-- In the game of two players the opponent loses three times the stake to the banker. -/
theorem settlement_zero_sum_pair :
    ∃ last : Fight, endedPair.settle [2, 1] = .ok last ∧
      ∑ uid ∈ last.playerLst.keys, last.winMoney uid = 0 ∧ last.winMoney 2 = -750 := by
  obtain ⟨last, hsettle, -, hsum, hopponent, -⟩ :=
    settlement_zero_sum endedPair ⟨1000, some 25, ∅, 4, 0, none, 0⟩ 25 1 rfl rfl rfl (by decide)
      (by decide) (by decide)
  exact ⟨last, hsettle [2, 1] (by decide), hsum, (hopponent 2 (by decide) (by decide)).trans
    (by decide)⟩

end SvrDemo.Douniu
