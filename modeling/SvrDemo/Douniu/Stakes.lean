import SvrDemo.Douniu.Phases
import Mathlib.Algebra.Order.Ring.Abs
import Mathlib.Algebra.Order.Ring.Int
import Mathlib.Tactic.Ring

/-!
# The stakes of a settlement

The settlement multiplies the odds of an opponent, the odds of the banker, the odds of the room and the
multiplier of a hand. In a game whose odds are those of its last phase, what an opponent wins or loses is
therefore the odds of the room times a factor between `5 * 1 * 1` and `25 * 4 * 3`, computed with
64-bit integers. A settlement that fails in the middle keeps the phase and the odds as well.
-/

set_option autoImplicit false
set_option relaxedAutoImplicit false

namespace SvrDemo.Douniu

open Lua Skynet

/-- An opponent of the banker has won or lost the odds of the room times a factor that three admissible
numbers make. -/
def Fight.Staked (fight : Fight) (uid : ℕ) : Prop :=
  ∃ (roomOdds : LuaInt) (factor : ℤ), fight.roomOdds = some roomOdds ∧
    5 * 1 * 1 ≤ factor ∧ factor ≤ 25 * 4 * 3 ∧
    (fight.winMoney uid = (factor : LuaInt) * roomOdds ∨
      fight.winMoney uid = -((factor : LuaInt) * roomOdds))

variable {fight first last : Fight} {uid leaderUid : ℕ}

/-- The multiplier of a hand is one, two or three. -/
theorem getCardOdds_bounds (niuNum : ℤ) : 1 ≤ getCardOdds niuNum ∧ getCardOdds niuNum ≤ 3 := by
  unfold getCardOdds
  split_ifs <;> decide

/-- The factor of a stake. -/
theorem factor_bounds {odds leaderOdds : ℤ} (niuNum : ℤ) (hodds : odds ∈ setOddsLimit)
    (hleader : 1 ≤ leaderOdds ∧ leaderOdds ≤ 4) :
    5 * 1 * 1 ≤ odds * leaderOdds * getCardOdds niuNum ∧
      odds * leaderOdds * getCardOdds niuNum ≤ 25 * 4 * 3 := by
  obtain ⟨hlow, hhigh⟩ := getCardOdds_bounds niuNum
  have hfive : 5 ≤ odds ∧ odds ≤ 25 := by
    simp only [setOddsLimit, List.mem_cons, List.not_mem_nil, or_false] at hodds
    omega
  have hpos : 0 ≤ odds * leaderOdds := mul_nonneg (by omega) (by omega)
  constructor
  · exact mul_le_mul (mul_le_mul hfive.1 hleader.1 (by omega) (by omega)) hlow (by omega) hpos
  · exact mul_le_mul (mul_le_mul hfive.2 hleader.2 (by omega) (by omega)) hhigh (by omega) (by omega)

/-! ### One turn of the settlement -/

theorem getPlayer_compared (fight : Fight) (player leader : Player) (other : ℕ) :
    (fight.compared uid player leaderUid leader).getPlayer other =
      if other = leaderUid then some leader else if other = uid then some player
      else fight.getPlayer other := by
  simp only [Fight.compared, Fight.getPlayer, Table.lookup_insert_eq]

/-- The comparison of two hands writes the values of the hands only. -/
theorem compareHandCard_eq_ok {first second first' second' : Player} {wins : Bool}
    (hok : compareHandCard first second = .ok (wins, first', second')) :
    (∃ niuNum maxCard, first' = { first with niuNum := niuNum, maxCard := maxCard }) ∧
      ∃ niuNum maxCard, second' = { second with niuNum := niuNum, maxCard := maxCard } := by
  unfold compareHandCard at hok
  cases hfirst : parseCardInfo first.handCardLst with
  | error error => rw [hfirst] at hok; exact nomatch hok
  | ok value =>
    cases hsecond : parseCardInfo second.handCardLst with
    | error error => rw [hfirst, hsecond] at hok; exact nomatch hok
    | ok value' =>
      rw [hfirst, hsecond] at hok
      obtain ⟨-, hrecords⟩ := Prod.mk.inj (Except.ok.inj hok)
      obtain ⟨rfl, rfl⟩ := Prod.mk.inj hrecords
      exact ⟨⟨_, _, rfl⟩, _, _, rfl⟩

/-- New records of a player and of the banker with their odds and flags. -/
theorem keepsPhase_compared {player leader player' leader' : Player}
    (hplayer : fight.getPlayer uid = some player) (hleader : fight.getPlayer leaderUid = some leader)
    (hodds : player'.odds = player.odds) (hflag : player'.isLeader = player.isLeader)
    (hleaderOdds : leader'.odds = leader.odds) (hleaderFlag : leader'.isLeader = leader.isLeader) :
    KeepsPhase fight (fight.compared uid player' leaderUid leader') where
  keys := by
    change ((fight.playerLst.insert uid player').insert leaderUid leader').keys = _
    rw [Table.keys_insert, Table.keys_insert, Finset.insert_eq_of_mem, Finset.insert_eq_of_mem]
    · exact Fight.mem_keys_iff.mpr ⟨player, hplayer⟩
    · exact Finset.mem_insert_of_mem (Fight.mem_keys_iff.mpr ⟨leader, hleader⟩)
  roomStatus := rfl
  roomLeader := rfl
  isLeader other := by
    rw [Fight.isLeader, Fight.isLeader, getPlayer_compared]
    split_ifs with hsame hother
    · simp [hsame, hleader, hleaderFlag]
    · simp [hother, hplayer, hflag]
    · rfl
  odds other := by
    refine .inl ?_
    rw [Fight.odds, Fight.odds, getPlayer_compared]
    split_ifs with hsame hother
    · simp [hsame, hleader, hleaderOdds]
    · simp [hother, hplayer, hodds]
    · rfl

/-- A turn of the settlement, whether it succeeds or fails: the banker's is skipped, and an
opponent's keeps the phase, and with it the money of all but the two, and stakes his odds. -/
inductive SettleTurn (leaderUid : ℕ) (first : Fight) (uid : ℕ) : Option LuaError → Fight → Prop
  | skipped (banker : uid = leaderUid) : SettleTurn leaderUid first uid none first
  | failed (error : LuaError) {last : Fight} (keeps : KeepsPhase first last) :
      SettleTurn leaderUid first uid (some error) last
  | staked (roomOdds : LuaInt) (niuNum : ℤ) {last : Fight} (opponent : uid ≠ leaderUid)
      (keeps : KeepsPhase first last) (roomOdds_eq : last.roomOdds = first.roomOdds)
      (others : ∀ other, other ≠ uid → other ≠ leaderUid → last.winMoney other = first.winMoney other)
      (room : first.roomOdds = some roomOdds)
      (stakes : last.winMoney uid = first.winMoney uid +
          (first.odds uid * first.odds leaderUid * getCardOdds niuNum : ℤ) * roomOdds ∨
        last.winMoney uid = first.winMoney uid -
          (first.odds uid * first.odds leaderUid * getCardOdds niuNum : ℤ) * roomOdds) :
      SettleTurn leaderUid first uid none last

/-- What a turn of the settlement has done. -/
def settleResult : Except (LuaError × Fight) Fight → Option LuaError × Fight
  | .ok last => (none, last)
  | .error (error, last) => (some error, last)

theorem settlePlayer_spec (leaderUid : ℕ) (first : Fight) (uid : ℕ) :
    SettleTurn leaderUid first uid (settleResult (first.settlePlayer leaderUid uid)).1
      (settleResult (first.settlePlayer leaderUid uid)).2 := by
  unfold Fight.settlePlayer
  split_ifs with hbanker
  · exact .skipped hbanker
  · cases hplayer : first.getPlayer uid with
    | none => exact .failed _ (.refl first)
    | some player =>
      cases hleader : first.getPlayer leaderUid with
      | none => exact .failed _ (.refl first)
      | some leader =>
        dsimp only
        cases hcompare : compareHandCard player leader with
        | error error => exact .failed _ (.refl first)
        | ok result =>
          obtain ⟨cpRet, player', leader'⟩ := result
          obtain ⟨⟨niuNum, maxCard, rfl⟩, niuNum', maxCard', rfl⟩ := compareHandCard_eq_ok hcompare
          cases hroom : first.room with
          | none => exact .failed _ (keepsPhase_compared hplayer hleader rfl rfl rfl rfl)
          | some room =>
            dsimp only
            cases hroomOdds : room.roomOdds with
            | none => exact .failed _ (keepsPhase_compared hplayer hleader rfl rfl rfl rfl)
            | some roomOdds =>
              have hodds : first.odds uid = player.odds := by simp [Fight.odds, hplayer]
              have hleaderOdds : first.odds leaderUid = leader.odds := by simp [Fight.odds, hleader]
              have hmoney : first.winMoney uid = player.winMoney := by simp [Fight.winMoney, hplayer]
              refine .staked roomOdds (if cpRet then niuNum else niuNum') hbanker
                (keepsPhase_compared hplayer hleader rfl rfl rfl rfl) rfl ?_ ?_ ?_
              · intro other hother hbanker'
                rw [Fight.winMoney, Fight.winMoney]
                simp only [settleResult, getPlayer_compared, if_neg hother, if_neg hbanker']
              · rw [Fight.roomOdds, hroom, Option.bind_some, hroomOdds]
              · rw [hodds, hleaderOdds, hmoney, Fight.winMoney]
                simp only [settleResult, getPlayer_compared, if_neg hbanker, ↓reduceIte,
                  Option.map_some, Option.getD_some]
                push_cast
                cases cpRet with
                | true =>
                  refine .inl ?_
                  simp only [↓reduceIte]
                  ring
                | false =>
                  refine .inr ?_
                  simp only [Bool.false_eq_true, ↓reduceIte]
                  ring

/-! ### The settlement -/

/-- In the last phase a change within the phase keeps all odds. -/
theorem KeepsPhase.odds_of_gameEnd (h : KeepsPhase first last) (hphase : first.roomStatus = .gameEnd)
    (uid : ℕ) : last.odds uid = first.odds uid := by
  rcases h.odds uid with hsame | ⟨hask, -⟩ | ⟨hselect, -⟩
  · exact hsame
  · exact nomatch hphase.symm.trans hask
  · exact nomatch hphase.symm.trans hselect

/-- The settlement keeps the phase, also when it fails. -/
theorem keepsPhase_settleLoop (leaderUid : ℕ) (order : List ℕ) : ∀ fight : Fight,
    KeepsPhase fight (settleResult (order.foldlM (Fight.settlePlayer leaderUid) fight)).2 := by
  induction order with
  | nil => exact fun fight ↦ .refl fight
  | cons uid order ih =>
    intro fight
    have hturn := settlePlayer_spec leaderUid fight uid
    rw [List.foldlM_cons]
    cases hresult : fight.settlePlayer leaderUid uid with
    | error failure =>
      rw [hresult] at hturn
      cases hturn with
      | failed error keeps => exact keeps
    | ok next =>
      rw [hresult] at hturn
      have hkeeps : KeepsPhase fight next := by
        cases hturn with
        | skipped => exact .refl _
        | staked _ _ _ keeps => exact keeps
      exact hkeeps.trans (ih next)

theorem keepsPhase_settle (order : List ℕ) (fight : Fight) :
    KeepsPhase fight (settleResult (fight.settle order)).2 := by
  unfold Fight.settle
  split
  · exact keepsPhase_settleLoop _ order fight
  · split
    · exact .refl fight
    · exact .refl fight

/-- What an opponent has won or lost in a settlement: his odds, those of the banker and those of the
room, times the multiplier of a hand. -/
def Stakes (first last : Fight) (leaderUid uid : ℕ) : Prop :=
  ∃ (roomOdds : LuaInt) (niuNum : ℤ), first.roomOdds = some roomOdds ∧
    (last.winMoney uid = first.winMoney uid +
        (first.odds uid * first.odds leaderUid * getCardOdds niuNum : ℤ) * roomOdds ∨
      last.winMoney uid = first.winMoney uid -
        (first.odds uid * first.odds leaderUid * getCardOdds niuNum : ℤ) * roomOdds)

/-- A settlement that succeeds stakes the odds of every opponent along its order, and touches no
other opponent. -/
theorem stakes_settleLoop {order : List ℕ} (hnodup : order.Nodup) : ∀ {fight : Fight},
    fight.roomStatus = .gameEnd → order.foldlM (Fight.settlePlayer leaderUid) fight = .ok last →
    last.roomOdds = fight.roomOdds ∧
      (∀ uid ∉ order, uid ≠ leaderUid → last.winMoney uid = fight.winMoney uid) ∧
      ∀ uid ∈ order, uid ≠ leaderUid → Stakes fight last leaderUid uid := by
  induction order with
  | nil =>
    intro fight _ hok
    obtain rfl := Except.ok.inj hok
    exact ⟨rfl, fun _ _ _ ↦ rfl, fun _ huid ↦ nomatch huid⟩
  | cons head order ih =>
    intro fight hphase hok
    obtain ⟨hhead, hnodup⟩ := List.nodup_cons.mp hnodup
    have hturn := settlePlayer_spec leaderUid fight head
    rw [List.foldlM_cons] at hok
    cases hresult : fight.settlePlayer leaderUid head with
    | error failure =>
      rw [hresult] at hok
      exact nomatch hok
    | ok next =>
      rw [hresult] at hok hturn
      cases hturn with
      | skipped banker =>
        obtain ⟨hroom, hothers, hstakes⟩ := ih hnodup hphase hok
        refine ⟨hroom, fun uid huid ↦ hothers uid (List.not_mem_of_not_mem_cons huid),
          fun uid huid hne ↦ ?_⟩
        rcases List.mem_cons.mp huid with rfl | htail
        · exact absurd banker hne
        · exact hstakes uid htail hne
      | staked roomOdds niuNum opponent keeps roomOdds_eq others room stakes =>
        obtain ⟨hroom, hothers, hstakes⟩ := ih hnodup (keeps.roomStatus.trans hphase) hok
        refine ⟨hroom.trans roomOdds_eq, fun uid huid hne ↦ ?_, fun uid huid hne ↦ ?_⟩
        · rw [hothers uid (List.not_mem_of_not_mem_cons huid) hne]
          exact others uid (List.ne_of_not_mem_cons huid) hne
        · rcases List.mem_cons.mp huid with rfl | htail
          · refine ⟨roomOdds, niuNum, room, ?_⟩
            rw [hothers uid hhead hne]
            exact stakes
          · have hne' : uid ≠ head := fun hsame ↦ hhead (hsame ▸ htail)
            obtain ⟨roomOdds', niuNum', hroom', hpaid⟩ := hstakes uid htail hne
            rw [others uid hne' hne, keeps.odds_of_gameEnd hphase uid,
              keeps.odds_of_gameEnd hphase leaderUid] at hpaid
            exact ⟨roomOdds', niuNum', roomOdds_eq ▸ hroom', hpaid⟩

/-- After a settlement that succeeds, in the last phase and with no money won before, every opponent
of the banker has won or lost his stake. -/
theorem staked_settle {order : List ℕ} {fight : Fight} (horder : IsOrder order fight.playerLst.keys)
    (hphase : fight.roomStatus = .gameEnd) (hbanker : fight.Banker leaderUid)
    (hodds : ∀ uid ∈ fight.playerLst.keys, uid ≠ leaderUid → fight.odds uid ∈ setOddsLimit)
    (hzero : ∀ uid ∈ fight.playerLst.keys, fight.winMoney uid = 0)
    (hok : fight.settle order = .ok last) :
    ∀ uid ∈ fight.playerLst.keys, uid ≠ leaderUid → last.Staked uid := by
  unfold Fight.settle at hok
  rw [hbanker.leads] at hok
  obtain ⟨hroom, -, hstakes⟩ := stakes_settleLoop horder.1 hphase hok
  intro uid huid hne
  obtain ⟨roomOdds, niuNum, hroomOdds, hpaid⟩ := hstakes uid (horder.mem_iff.mpr huid) hne
  obtain ⟨hlow, hhigh⟩ := factor_bounds niuNum (hodds uid huid hne) hbanker.odds
  rw [hzero uid huid, zero_add, zero_sub] at hpaid
  exact ⟨roomOdds, _, hroom.trans hroomOdds, hlow, hhigh, hpaid⟩

/-! ### Magnitudes -/

/-- A number that fits into 64 bits is its own remainder. -/
theorem bmod_of_fits {value : ℤ} (hfits : |value| < 2 ^ 63) : value.bmod (2 ^ 64) = value := by
  obtain ⟨hlow, hhigh⟩ := abs_lt.mp hfits
  exact Int.bmod_eq_of_le (by norm_num; omega) (by norm_num; omega)

/-- A product of a small factor that fits into 64 bits is computed exactly. -/
theorem toInt_mul_of_fits {factor : ℤ} {roomOdds : LuaInt} (hfactor : |factor| < 2 ^ 63)
    (hfits : |factor * roomOdds.toInt| < 2 ^ 63) :
    ((factor : LuaInt) * roomOdds).toInt = factor * roomOdds.toInt := by
  have hcast : (factor : LuaInt).toInt = factor := by
    change (BitVec.ofInt 64 factor).toInt = factor
    rw [BitVec.toInt_ofInt, bmod_of_fits hfactor]
  rw [BitVec.toInt_mul, hcast, bmod_of_fits hfits]

/-- When the largest stake of a room fits into 64 bits, the payment of an opponent lies between the
smallest and the largest stake. -/
theorem Fight.Staked.bounds (h : fight.Staked uid) {roomOdds : LuaInt}
    (hroom : fight.roomOdds = some roomOdds) (hfits : 25 * 4 * 3 * |roomOdds.toInt| < 2 ^ 63) :
    5 * 1 * 1 * |roomOdds.toInt| ≤ |(fight.winMoney uid).toInt| ∧
      |(fight.winMoney uid).toInt| ≤ 25 * 4 * 3 * |roomOdds.toInt| := by
  obtain ⟨roomOdds', factor, hroom', hlow, hhigh, hmoney⟩ := h
  obtain rfl := Option.some.inj (hroom.symm.trans hroom')
  have hpos : 0 ≤ factor := le_trans (by norm_num) hlow
  have hsmall : 5 * 1 * 1 * |roomOdds.toInt| ≤ |factor * roomOdds.toInt| := by
    rw [abs_mul, abs_of_nonneg hpos]
    exact mul_le_mul_of_nonneg_right hlow (abs_nonneg _)
  have hlarge : |factor * roomOdds.toInt| ≤ 25 * 4 * 3 * |roomOdds.toInt| := by
    rw [abs_mul, abs_of_nonneg hpos]
    exact mul_le_mul_of_nonneg_right hhigh (abs_nonneg _)
  have hfactor : |factor| < 2 ^ 63 := by
    rw [abs_of_nonneg hpos]
    omega
  have hproduct := toInt_mul_of_fits hfactor (hlarge.trans_lt hfits)
  have habs : |(fight.winMoney uid).toInt| = |factor * roomOdds.toInt| := by
    rcases hmoney with hwon | hlost
    · rw [hwon, hproduct]
    · rw [hlost, BitVec.toInt_neg, hproduct, bmod_of_fits, abs_neg]
      rw [abs_neg]
      exact hlarge.trans_lt hfits
  rw [habs]
  exact ⟨hsmall, hlarge⟩

end SvrDemo.Douniu
