import SvrDemo.Douniu.GameContract

/-!
# The steps of a game

What the single steps of `onStart` and `checkStatus` do to the assertions of a game: a new game, the
shuffle, one deal, the election of the banker, the change of a phase, and the settlement. These are
facts about states; the programs that take the steps come in the next file.
-/

set_option autoImplicit false
set_option relaxedAutoImplicit false

namespace SvrDemo.Douniu

open Coroutine Lua Skynet

variable {updates : List MoneyUpdate} {fight : Fight} {uid : ℕ}

/-! ### A new game -/

/-- A turn adds at most one player. -/
theorem card_addPlayer_le (room : RoomInfo) (players : Table Player) (key : ℕ) :
    (addPlayer room players key).keys.card ≤ players.keys.card + 1 := by
  unfold addPlayer
  split
  · rw [Table.keys_insert]
    exact Finset.card_insert_le _ _
  · exact Nat.le_succ _

/-- There are no more players than places in the room. -/
theorem card_initPlayers_le (room : RoomInfo) (order : List ℕ) :
    (initPlayers room order).keys.card ≤ order.length := by
  have hfold : ∀ players : Table Player,
      (order.foldl (addPlayer room) players).keys.card ≤ players.keys.card + order.length := by
    induction order with
    | nil => intro players; simp
    | cons key order ih =>
      intro players
      have hturn := card_addPlayer_le room players key
      have hrest := ih (addPlayer room players key)
      simp only [List.foldl_cons, List.length_cons]
      omega
  exact (hfold ∅).trans (by simp)

/-- The records of a new game are those that `initRoomPlayer` makes. -/
theorem exists_of_initPlayers_lookup (room : RoomInfo) (order : List ℕ) {player : Player}
    (hplayer : (initPlayers room order).lookup uid = some player) :
    ∃ roomPlayer, player = initRoomPlayer roomPlayer := by
  have hfold : ∀ players : Table Player,
      (∀ uid player, players.lookup uid = some player →
        ∃ roomPlayer, player = initRoomPlayer roomPlayer) →
      ∀ uid player, (order.foldl (addPlayer room) players).lookup uid = some player →
        ∃ roomPlayer, player = initRoomPlayer roomPlayer := by
    clear hplayer
    induction order with
    | nil => intro players hplayers; exact hplayers
    | cons key order ih =>
      intro players hplayers
      refine ih (addPlayer room players key) fun uid player hlookup ↦ ?_
      unfold addPlayer at hlookup
      split at hlookup
      · rename_i roomPlayer _
        rw [Table.lookup_insert_eq] at hlookup
        split_ifs at hlookup
        · exact ⟨roomPlayer, (Option.some.inj hlookup).symm⟩
        · exact hplayers uid player hlookup
      · exact hplayers uid player hlookup
  exact hfold ∅ (fun uid player hlookup ↦ by simp at hlookup) uid player hplayer

/-- The state of a new game. -/
def newGame (fight : Fight) (roomInfo : RoomInfo) (order : List ℕ) (now : ℤ) : Fight :=
  { fight with
    cardLst := deck
    room := some roomInfo
    roomLeader := none
    roomStatus := .ready
    playerLst := initPlayers roomInfo order
    statusBegin := now }

/-- The deals of a game: in a phase before the last one, every player gets `num` cards on top of `few`
and then has `many`. -/
structure Deal (status : RoomStatus) (few num many : ℕ) : Prop where
  adds : few + num = many
  most : many ≤ 5
  less : few < 5
  phase : status ≠ .gameEnd
  early : status ≠ .selectOdds → many ≤ 4

/-- The first deal. -/
theorem deal_ready : Deal .ready 0 4 4 :=
  ⟨rfl, by decide, by decide, by decide, by decide⟩

/-- The last deal. -/
theorem deal_selectOdds : Deal .selectOdds 4 1 5 :=
  ⟨rfl, by decide, by decide, by decide, fun hselect ↦ absurd rfl hselect⟩

/-- The state in which a game deals: the players of `rest` still hold `few` cards and the others
`many`. From the choice of odds on there is a banker. -/
structure Dealing (updates : List MoneyUpdate) (status : RoomStatus) (few many : ℕ)
    (rest : List ℕ) (fight : Fight) : Prop extends Going updates fight where
  phase : fight.roomStatus = status
  nodup : rest.Nodup
  plays : ∀ uid ∈ rest, uid ∈ fight.playerLst.keys
  counts : ∀ uid ∈ fight.playerLst.keys,
    (fight.hand uid).length = if uid ∈ rest then few else many
  leader : status = .selectOdds →
    ∃ leaderUid ∈ fight.playerLst.keys, fight.roomLeader = some leaderUid

theorem Dealing.of_interferes {first last : Fight} {status : RoomStatus} {few many : ℕ}
    {rest : List ℕ} (h : Interferes first last) (hfirst : Dealing updates status few many rest first) :
    Dealing updates status few many rest last where
  toGoing := hfirst.toGoing.of_interferes h
  phase := h.roomStatus.trans hfirst.phase
  nodup := hfirst.nodup
  plays uid huid := h.keys ▸ hfirst.plays uid huid
  counts uid huid := by
    rw [h.hand uid]
    exact hfirst.counts uid (h.keys ▸ huid)
  leader hstatus := by
    rw [h.keys, h.roomLeader]
    exact hfirst.leader hstatus

/-- A new game deals from a full deck. -/
theorem dealing_newGame {roomInfo : RoomInfo} {order : List ℕ} {now : ℤ}
    (hplayers : roomInfo.playerLst.size ≤ 10) (horder : IsOrder order roomInfo.playerLst.keys)
    (hupdates : fight.moneyUpdates = updates) :
    Dealing updates .ready 0 0 [] (newGame fight roomInfo order now) := by
  have hhand : ∀ uid, (newGame fight roomInfo order now).hand uid = [] := by
    intro uid
    change ((Option.map Player.handCardLst ((initPlayers roomInfo order).lookup uid)).getD []) = []
    cases hplayer : (initPlayers roomInfo order).lookup uid with
    | none => rfl
    | some player =>
      obtain ⟨roomPlayer, rfl⟩ := exists_of_initPlayers_lookup roomInfo order hplayer
      rfl
  refine ⟨⟨rfl, ?_, ?_, ?_, ?_, ?_, hupdates⟩, rfl, List.nodup_nil,
    (fun _ hmem ↦ absurd hmem List.not_mem_nil), ?_, ?_⟩
  · change (deck : Multiset ℤ) + ∑ uid ∈ (newGame fight roomInfo order now).playerLst.keys,
      ((newGame fight roomInfo order now).hand uid : Multiset ℤ) = deck
    simp [hhand]
  · have hlength : order.length = roomInfo.playerLst.keys.card := by
      rw [← horder.2, List.toFinset_card_of_nodup horder.1]
    exact (card_initPlayers_le roomInfo order).trans (hlength.le.trans hplayers)
  · intro _ _ uid
    simp [hhand]
  · rintro ⟨⟩
  · intro uid huid
    obtain ⟨player, hplayer⟩ := Fight.mem_keys_iff.mp huid
    obtain ⟨roomPlayer, rfl⟩ := exists_of_initPlayers_lookup roomInfo order hplayer
    rw [Fight.winMoney, hplayer]
    rfl
  · intro uid _
    simp [hhand]
  · rintro ⟨⟩

/-! ### Shuffle and deal -/

/-- The first deal is about to begin. -/
theorem Dealing.first {order : List ℕ} (h : Dealing updates .ready 0 0 [] fight)
    (horder : IsOrder order fight.playerLst.keys) : Dealing updates .ready 0 4 order fight where
  toGoing := h.toGoing
  phase := h.phase
  nodup := horder.1
  plays _ huid := horder.mem_iff.mp huid
  counts uid huid := by
    rw [if_pos (horder.mem_iff.mpr huid)]
    simpa using h.counts uid huid
  leader hstatus := nomatch hstatus

/-- A deal of cards that are exchanged within the deck is the same deal. -/
theorem Dealing.of_perm {status : RoomStatus} {few many : ℕ} {cards : List ℤ}
    {waiting : List ℕ} (h : Dealing updates status few many waiting fight)
    (hperm : cards.Perm fight.cardLst) :
    Dealing updates status few many waiting { fight with cardLst := cards } where
  room := h.room
  conserved := by
    have hcards : (cards : Multiset ℤ) = fight.cardLst := Multiset.coe_eq_coe.mpr hperm
    have hconserved : fight.allCards = deck := h.conserved
    change (cards : Multiset ℤ) + ∑ uid ∈ fight.playerLst.keys, (fight.hand uid : Multiset ℤ) = deck
    rw [hcards]
    exact hconserved
  players := h.players
  early := h.early
  dealt := h.dealt
  unpaid := h.unpaid
  unsaved := h.unsaved
  phase := h.phase
  nodup := h.nodup
  plays := h.plays
  counts := h.counts
  leader := h.leader

/-- The deck is large enough for every deal of a game of at most ten players. -/
theorem Dealing.le_length_cardLst {status : RoomStatus} {few num many : ℕ} {rest : List ℕ}
    (hdeal : Deal status few num many) (h : Dealing updates status few many (uid :: rest) fight) :
    num ≤ fight.cardLst.length := by
  obtain ⟨hadds, hmost, -, -, -⟩ := hdeal
  have huid : uid ∈ fight.playerLst.keys := h.plays uid List.mem_cons_self
  have htotal := h.conserved.length_cardLst
  have hfew : (fight.hand uid).length = few := by simpa using h.counts uid huid
  have hothers : ∑ other ∈ fight.playerLst.keys.erase uid, (fight.hand other).length ≤
      (fight.playerLst.keys.erase uid).card * 5 := by
    refine Finset.sum_le_card_nsmul _ _ 5 fun other hother ↦ ?_
    rw [h.counts other (Finset.mem_of_mem_erase hother)]
    split_ifs <;> omega
  have hcard := Finset.card_erase_add_one huid
  have hplayers := h.players
  rw [← Finset.add_sum_erase _ _ huid, hfew] at htotal
  omega

/-- One turn of a deal: the player at the head of the list gets his cards, and nobody who holds five
cards is touched. -/
theorem Dealing.draw {status : RoomStatus} {few num many : ℕ} {rest : List ℕ}
    (hdeal : Deal status few num many) (h : Dealing updates status few many (uid :: rest) fight) :
    Dealing updates status few many rest (fight.drawCards uid num).2 ∧
      Frozen fight (fight.drawCards uid num).2 := by
  have huid : uid ∈ fight.playerLst.keys := h.plays uid List.mem_cons_self
  have hrest : uid ∉ rest := (List.nodup_cons.mp h.nodup).1
  have hlength := h.le_length_cardLst hdeal
  obtain ⟨hadds, hmost, hless, hphase, hearly⟩ := hdeal
  have hhand := fun other ↦ fight.hand_drawCards uid num other huid
  have hcount : (fight.hand uid).length = few := by simpa using h.counts uid huid
  have hodds : ∀ other, (fight.drawCards uid num).2.odds other = fight.odds other := fun other ↦
    congrArg (Option.getD · 0) (fight.field_drawCards Player.odds (fun _ _ ↦ rfl) uid num other)
  have hmoney : ∀ other, (fight.drawCards uid num).2.winMoney other = fight.winMoney other :=
    fun other ↦ congrArg (Option.getD · 0)
      (fight.field_drawCards Player.winMoney (fun _ _ ↦ rfl) uid num other)
  have hkeys : (fight.drawCards uid num).2.playerLst.keys = fight.playerLst.keys := by
    rw [Fight.drawCards_eq]
    exact fight.keys_updatePlayer uid _
  have hstatus : (fight.drawCards uid num).2.roomStatus = status := by
    rw [Fight.drawCards_eq]
    exact h.phase
  have hcounts : ∀ other ∈ fight.playerLst.keys,
      ((fight.drawCards uid num).2.hand other).length = if other ∈ rest then few else many := by
    intro other hother
    rw [hhand other]
    by_cases hsame : other = uid
    · subst hsame
      rw [if_pos rfl, if_neg hrest, List.length_append, hcount, List.length_take,
        Nat.min_eq_left hlength, hadds]
    · rw [if_neg hsame, h.counts other hother]
      simp [hsame]
  constructor
  · refine ⟨⟨?_, ?_, ?_, ?_, ?_, ?_, ?_⟩, hstatus, (List.nodup_cons.mp h.nodup).2, ?_, ?_, ?_⟩
    · rw [Fight.drawCards_eq]
      exact h.room
    · exact (fight.allCards_drawCards uid num huid).trans h.conserved
    · rw [hkeys]
      exact h.players
    · intro hselect _ other
      rw [hstatus] at hselect
      by_cases hother : other ∈ fight.playerLst.keys
      · rw [hcounts other hother]
        have := hearly hselect
        split_ifs <;> omega
      · have hne : other ≠ uid := fun hsame ↦ hother (hsame ▸ huid)
        have hold := h.early (by rw [h.phase]; exact hselect) (by rw [h.phase]; exact hphase) other
        rw [hhand other, if_neg hne]
        exact hold
    · intro hend
      exact absurd (hstatus.symm.trans hend) hphase
    · intro other hother
      rw [hmoney other]
      exact h.unpaid other (hkeys ▸ hother)
    · rw [Fight.drawCards_eq]
      exact h.unsaved
    · rw [hkeys]
      exact fun other hother ↦ h.plays other (List.mem_cons_of_mem uid hother)
    · rw [hkeys]
      exact hcounts
    · rw [hkeys, Fight.drawCards_eq]
      exact h.leader
  · intro other hfive
    have hne : other ≠ uid := by
      rintro rfl
      omega
    exact ⟨by rw [hhand other, if_neg hne], hodds other⟩

/-! ### The phases -/

/-- Nobody holds five cards before the last deal. -/
theorem Ready.length_hand_ne_five (h : Ready updates fight) (hend : fight.roomStatus ≠ .gameEnd)
    (uid : ℕ) : (fight.hand uid).length ≠ 5 := by
  by_cases huid : uid ∈ fight.playerLst.keys
  · rw [h.hands hend uid huid]
    decide
  · have hnone : fight.getPlayer uid = none := by
      cases hplayer : fight.getPlayer uid with
      | none => rfl
      | some player => exact absurd (Fight.mem_keys_iff.mpr ⟨player, hplayer⟩) huid
    simp [Fight.hand, hnone]

/-- The end of the first deal. -/
theorem Dealing.ready (h : Dealing updates .ready 0 4 [] fight) : Ready updates fight where
  toGoing := h.toGoing
  hands _ uid huid := by simpa using h.counts uid huid
  leader hphase := by
    rw [h.phase] at hphase
    rcases hphase with hphase | hphase
    · exact nomatch hphase
    · exact nomatch hphase

/-- The beginning of the election. -/
theorem Ready.askLeader (h : Ready updates fight) (hphase : fight.roomStatus = .ready) (now : ℤ) :
    Ready updates { fight with statusBegin := now, roomStatus := .askLeader } where
  room := h.room
  conserved := h.conserved
  players := h.players
  early _ _ := h.early (by simp [hphase]) (by simp [hphase])
  dealt hend := nomatch hend
  unpaid := h.unpaid
  unsaved := h.unsaved
  hands _ := h.hands (by simp [hphase])
  leader hlater := by
    rcases hlater with hlater | hlater
    · exact nomatch hlater
    · exact nomatch hlater

/-- The elected banker is noted. -/
theorem Ready.elect (h : Ready updates fight) (hphase : fight.roomStatus = .askLeader)
    (leader : ℕ) : Ready updates { fight with roomLeader := some leader } where
  room := h.room
  conserved := h.conserved
  players := h.players
  early := h.early
  dealt := h.dealt
  unpaid := h.unpaid
  unsaved := h.unsaved
  hands := h.hands
  leader hlater := by
    rcases hlater with hlater | hlater
    · exact nomatch hphase.symm.trans hlater
    · exact nomatch hphase.symm.trans hlater

/-- The choice of odds begins once there is a banker. -/
theorem Ready.selectOdds {leader : ℕ} (h : Ready updates fight)
    (hphase : fight.roomStatus = .askLeader) (hleader : fight.roomLeader = some leader)
    (hplays : leader ∈ fight.playerLst.keys) :
    Ready updates { fight with roomStatus := .selectOdds } where
  room := h.room
  conserved := h.conserved
  players := h.players
  early hselect := absurd rfl hselect
  dealt hend := nomatch hend
  unpaid := h.unpaid
  unsaved := h.unsaved
  hands _ := h.hands (by simp [hphase])
  leader _ := ⟨leader, hplays, hleader⟩

/-- The beginning of the last deal. -/
theorem Ready.dealing {order : List ℕ} (h : Ready updates fight)
    (hphase : fight.roomStatus = .selectOdds) (horder : IsOrder order fight.playerLst.keys) :
    Dealing updates .selectOdds 4 5 order fight where
  toGoing := h.toGoing
  phase := hphase
  nodup := horder.1
  plays _ huid := horder.mem_iff.mp huid
  counts uid huid := by
    rw [if_pos (horder.mem_iff.mpr huid)]
    exact h.hands (by simp [hphase]) uid huid
  leader _ := h.leader (.inl hphase)

/-- The end of the last deal. -/
theorem Dealing.gameEnd (h : Dealing updates .selectOdds 4 5 [] fight) (now : ℤ) :
    Ready updates { fight with statusBegin := now, roomStatus := .gameEnd } where
  room := h.room
  conserved := h.conserved
  players := h.players
  early _ hend := absurd rfl hend
  dealt _ uid huid := (h.counts uid huid).trans (if_neg List.not_mem_nil)
  unpaid := h.unpaid
  unsaved := h.unsaved
  hands hend := absurd rfl hend
  leader _ := h.leader rfl

/-! ### The settlement -/

/-- Comparing two hands writes neither cards nor odds nor money. -/
theorem interferes_compared {leaderUid : ℕ} {player leader : Player}
    (hplayer : fight.getPlayer uid = some player) (hleader : fight.getPlayer leaderUid = some leader)
    (hne : uid ≠ leaderUid) :
    Interferes fight (fight.compared uid player.valued leaderUid leader.valued) ∧
      ∀ other, (fight.compared uid player.valued leaderUid leader.valued).odds other =
        fight.odds other := by
  have hrecord : ∀ other, (fight.compared uid player.valued leaderUid leader.valued).getPlayer other =
      if other = uid ∨ other = leaderUid then (fight.getPlayer other).map Player.valued
      else fight.getPlayer other := by
    intro other
    change ((fight.playerLst.insert uid player.valued).insert leaderUid leader.valued).lookup other = _
    rw [Table.lookup_insert_eq, Table.lookup_insert_eq]
    by_cases hbanker : other = leaderUid
    · simp [hbanker, hleader]
    · by_cases hsame : other = uid
      · simp [hsame, hne, hplayer]
      · simp [hbanker, hsame, Fight.getPlayer]
  have hfield : ∀ {β : Type} (field : Player → β), (∀ record, field record.valued = field record) →
      ∀ other, ((fight.compared uid player.valued leaderUid leader.valued).getPlayer other).map
        field = (fight.getPlayer other).map field := by
    intro β field hsame other
    rw [hrecord other]
    split_ifs
    · simp [Function.comp_def, hsame]
    · rfl
  have hodds : ∀ other, (fight.compared uid player.valued leaderUid leader.valued).odds other =
      fight.odds other := fun other ↦
    congrArg (Option.getD · 0) (hfield Player.odds (fun _ ↦ rfl) other)
  refine ⟨⟨?_, ?_, ?_, fun _ _ ↦ hodds, rfl, rfl, rfl, rfl, rfl, rfl⟩, hodds⟩
  · have hmem := Fight.mem_keys_iff.mpr ⟨player, hplayer⟩
    have hmemLeader := Fight.mem_keys_iff.mpr ⟨leader, hleader⟩
    change ((fight.playerLst.insert uid player.valued).insert leaderUid leader.valued).keys = _
    rw [Table.keys_insert, Table.keys_insert, Finset.insert_eq_self.mpr hmem,
      Finset.insert_eq_self.mpr hmemLeader]
  · exact fun other ↦ congrArg (Option.getD · [])
      (hfield Player.handCardLst (fun _ ↦ rfl) other)
  · exact fun other ↦ congrArg (Option.getD · 0) (hfield Player.winMoney (fun _ ↦ rfl) other)

/-- In a room without odds the settlement fails at the first opponent of the banker, before any money
is written. -/
theorem settle_of_no_odds {order : List ℕ} {leaderUid : ℕ} {leader : Player}
    (hroom : fight.room.isSome) (hodds : fight.roomOdds = none)
    (hleader : fight.roomLeader = some leaderUid) (hrecord : fight.getPlayer leaderUid = some leader)
    (hhands : ∀ uid ∈ fight.playerLst.keys, (fight.hand uid).length = 5)
    (horder : ∀ uid ∈ order, uid ∈ fight.playerLst.keys) :
    (fight.settle order = .ok fight ∧ ∀ uid ∈ order, uid = leaderUid) ∨
      ∃ left, fight.settle order = .error (.arithmeticOnNil, left) ∧ Interferes fight left ∧
        ∀ uid, left.odds uid = fight.odds uid := by
  have hlength : ∀ {uid player}, fight.getPlayer uid = some player →
      player.handCardLst.length = 5 := fun {uid player} hplayer ↦ by
    simpa [Fight.hand, hplayer] using hhands uid (Fight.mem_keys_iff.mpr ⟨player, hplayer⟩)
  obtain ⟨room, hsome⟩ := Option.isSome_iff_exists.mp hroom
  have hnone : room.roomOdds = none := by
    simpa [Fight.roomOdds, hsome] using hodds
  unfold Fight.settle
  rw [hleader]
  induction order with
  | nil => exact .inl ⟨rfl, fun _ hmem ↦ absurd hmem List.not_mem_nil⟩
  | cons uid order ih =>
    by_cases hne : uid = leaderUid
    · have hturn : fight.settlePlayer leaderUid uid = .ok fight := by
        rw [Fight.settlePlayer, if_pos hne]
      have hrest := ih fun other hother ↦ horder other (List.mem_cons_of_mem uid hother)
      dsimp only at hrest ⊢
      rw [List.foldlM_cons, hturn]
      rcases hrest with ⟨hok, hall⟩ | herror
      · exact .inl ⟨hok, fun other hother ↦ (List.mem_cons.mp hother).elim (· ▸ hne) (hall other)⟩
      · exact .inr herror
    · obtain ⟨player, hplayer⟩ := Fight.mem_keys_iff.mp (horder uid List.mem_cons_self)
      refine .inr ⟨_, ?_, interferes_compared hplayer hrecord hne⟩
      have hturn : fight.settlePlayer leaderUid uid =
          .error (.arithmeticOnNil, fight.compared uid player.valued leaderUid leader.valued) := by
        unfold Fight.settlePlayer
        rw [if_neg hne, hplayer, hrecord]
        simp only [compareHandCard_of_length (hlength hplayer) (hlength hrecord), hsome, hnone]
      dsimp only
      rw [List.foldlM_cons, hturn]
      rfl

/-- The settlement of a game in its last phase: it settles the game, or it fails without the odds of
the room, and never at the assertion. It does not touch cards or odds. -/
theorem Ready.settle {order : List ℕ} (h : Ready updates fight)
    (hphase : fight.roomStatus = .gameEnd) (horder : IsOrder order fight.playerLst.keys) :
    (∃ last, fight.settle order = .ok last ∧ Settled updates [] last ∧ Frozen fight last) ∨
      ∃ left, fight.settle order = .error (.arithmeticOnNil, left) ∧ Going updates left ∧
        Frozen fight left := by
  obtain ⟨leaderUid, hplays, hleader⟩ := h.leader (.inr hphase)
  obtain ⟨leader, hrecord⟩ := Fight.mem_keys_iff.mp hplays
  cases hodds : fight.roomOdds with
  | none =>
    rcases settle_of_no_odds h.room hodds hleader hrecord (h.dealt hphase)
      (fun uid huid ↦ horder.mem_iff.mp huid) with ⟨hok, hall⟩ | ⟨left, herror, hsame, hleft⟩
    · -- the banker plays alone, and nothing is paid
      refine .inl ⟨fight, hok, ⟨h.room, h.conserved, hphase, h.dealt hphase, ⟨leaderUid, hleader,
        hplays, ?_, ?_⟩, by simp [h.unsaved], List.nodup_nil, fun _ hcall ↦ nomatch hcall⟩,
        .refl fight⟩
      · intro uid huid hne
        exact absurd (hall uid (horder.mem_iff.mpr huid)) hne
      · rw [h.unpaid leaderUid hplays, Finset.sum_eq_zero, neg_zero]
        exact fun uid huid ↦ h.unpaid uid (Finset.mem_of_mem_erase huid)
    · exact .inr ⟨left, herror, h.toGoing.of_interferes hsame, .of_same hsame.hand hleft⟩
  | some roomOdds =>
    obtain ⟨room, hroom⟩ := Option.isSome_iff_exists.mp h.room
    have hroomOdds : room.roomOdds = some roomOdds := by
      simpa [Fight.roomOdds, hroom] using hodds
    obtain ⟨last, hok, hlast⟩ := settle_eq_ok hroom hroomOdds hleader hrecord (h.dealt hphase) horder
    have hsame := hlast.same hrecord
    have hkeys : last.playerLst.keys = fight.playerLst.keys :=
      Finset.ext fun uid ↦ (hsame uid).2.2
    have hframe := hlast.frame
    refine .inl ⟨last, hok, ⟨?_, ?_, ?_, ?_, ?_, ?_, List.nodup_nil, fun _ hcall ↦ nomatch hcall⟩,
      .of_same (fun uid ↦ (hsame uid).2.1) fun uid ↦ (hsame uid).1⟩
    · rw [hframe]
      exact h.room
    · refine (Fight.allCards_congr ?_ hkeys fun uid ↦ (hsame uid).2.1).trans h.conserved
      rw [hframe]
    · rw [hframe]
      exact hphase
    · intro uid huid
      rw [(hsame uid).2.1]
      exact h.dealt hphase uid (hkeys ▸ huid)
    · exact ⟨leaderUid, hlast.paid hodds hleader hrecord horder h.unpaid⟩
    · rw [hframe, List.append_nil]
      exact h.unsaved

/-- The answer to the call for one more player. -/
theorem Settled.answered {calls : List MoneyUpdate} (h : Settled updates calls fight)
    (huid : uid ∈ fight.playerLst.keys) (hnew : uid ∉ calls.map MoneyUpdate.uid) (executed : Bool) :
    Settled updates (calls ++ [⟨uid, fight.winMoney uid, executed⟩])
      (fight.answered uid (fight.winMoney uid) executed) where
  room := h.room
  conserved := h.conserved
  atEnd := h.atEnd
  dealt := h.dealt
  paid := h.paid.imp fun _ hpaid ↦ ⟨hpaid.leader, hpaid.plays, hpaid.opponent, hpaid.banker⟩
  saved := by simp [Fight.answered, h.saved]
  once := by
    rw [List.map_append, List.nodup_append]
    refine ⟨h.once, List.nodup_singleton _, fun first hfirst second hsecond ↦ ?_⟩
    obtain rfl := List.mem_singleton.mp hsecond
    exact fun heq ↦ hnew (heq ▸ hfirst)
  each call hcall := by
    rcases List.mem_append.mp hcall with hold | hlast
    · exact h.each call hold
    · obtain rfl := List.mem_singleton.mp hlast
      exact ⟨huid, rfl⟩

end SvrDemo.Douniu
