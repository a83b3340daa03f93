import SvrDemo.Douniu.Cards
import SvrDemo.Douniu.Settlement

/-!
# Messages during a game

While the coroutine of a game waits, messages of the players and of the lobby are handled. `effect`
is what a message does to the state of the fight service, all of it in its first section.
`Interferes` collects what the messages can do together: they write the odds of a player in the two
phases in which odds are chosen, mark hands as shown, and take players out of the copy of the room.
They never touch the cards, the phase, the banker, the money or the list of players.

The assertions under which a game waits are stable under this interference: `Going` until its result
is being stored, with `Ready` between two turns of `checkStatus`, and `Settled` from then on.
-/

set_option autoImplicit false
set_option relaxedAutoImplicit false

namespace SvrDemo.Douniu

open Coroutine Lua Skynet

variable {first middle last fight : Fight} {uid : ℕ}

/-! ### The effect of a message -/

/-- `onSetOdds` changes the odds: it considers the choice, and the player is not the banker. -/
def Fight.acceptsOdds (fight : Fight) (uid : ℕ) (odds : ℤ) : Prop :=
  fight.considersOdds uid odds = true ∧ fight.roomLeader ≠ none ∧ fight.roomLeader ≠ some uid

instance (fight : Fight) (uid : ℕ) (odds : ℤ) : Decidable (fight.acceptsOdds uid odds) :=
  inferInstanceAs (Decidable (_ ∧ _ ∧ _))

/-- What a message does to the state. -/
def Handler.effect : Handler → Fight → Fight
  | .onGetLeader uid (some odds), fight =>
    if fight.roomStatus = .askLeader ∧ uid ∈ fight.playerLst.keys ∧ odds ∈ getLeaderLimit then
      fight.updatePlayer uid fun player ↦ { player with odds := odds }
    else fight
  | .onSetOdds uid (some odds), fight =>
    if fight.acceptsOdds uid odds then
      fight.updatePlayer uid fun player ↦ { player with odds := odds }
    else fight
  | .onPackCard uid (some _), fight =>
    fight.updatePlayer uid fun player ↦ { player with handCardReady := true }
  | .onKickOut uid, fight =>
    { fight with room := fight.room.map fun room ↦ room.removePlayer uid }
  | _, fight => fight

/-! ### Interference -/

/-- What messages can change between two states of a fight service. -/
structure Interferes (first last : Fight) : Prop where
  keys : last.playerLst.keys = first.playerLst.keys
  hand : ∀ uid, last.hand uid = first.hand uid
  winMoney : ∀ uid, last.winMoney uid = first.winMoney uid
  odds : first.roomStatus ≠ .askLeader → first.roomStatus ≠ .selectOdds →
    ∀ uid, last.odds uid = first.odds uid
  cardLst : last.cardLst = first.cardLst
  roomStatus : last.roomStatus = first.roomStatus
  roomLeader : last.roomLeader = first.roomLeader
  moneyUpdates : last.moneyUpdates = first.moneyUpdates
  room : last.room.isSome = first.room.isSome
  roomOdds : last.roomOdds = first.roomOdds

namespace Interferes

theorem refl (fight : Fight) : Interferes fight fight :=
  ⟨rfl, fun _ ↦ rfl, fun _ ↦ rfl, fun _ _ _ ↦ rfl, rfl, rfl, rfl, rfl, rfl, rfl⟩

theorem trans (h : Interferes first middle) (h' : Interferes middle last) :
    Interferes first last where
  keys := h'.keys.trans h.keys
  hand uid := (h'.hand uid).trans (h.hand uid)
  winMoney uid := (h'.winMoney uid).trans (h.winMoney uid)
  odds hask hselect uid :=
    (h'.odds (h.roomStatus ▸ hask) (h.roomStatus ▸ hselect) uid).trans (h.odds hask hselect uid)
  cardLst := h'.cardLst.trans h.cardLst
  roomStatus := h'.roomStatus.trans h.roomStatus
  roomLeader := h'.roomLeader.trans h.roomLeader
  moneyUpdates := h'.moneyUpdates.trans h.moneyUpdates
  room := h'.room.trans h.room
  roomOdds := h'.roomOdds.trans h.roomOdds

/-- A change of the variables that no message touches and no assertion is about. -/
theorem of_same (hplayers : last.playerLst = first.playerLst) (hcards : last.cardLst = first.cardLst)
    (hstatus : last.roomStatus = first.roomStatus) (hleader : last.roomLeader = first.roomLeader)
    (hupdates : last.moneyUpdates = first.moneyUpdates) (hroom : last.room = first.room) :
    Interferes first last where
  keys := by rw [hplayers]
  hand uid := by rw [Fight.hand, Fight.getPlayer, hplayers]; rfl
  winMoney uid := by rw [Fight.winMoney, Fight.getPlayer, hplayers]; rfl
  odds _ _ uid := by rw [Fight.odds, Fight.getPlayer, hplayers]; rfl
  cardLst := hcards
  roomStatus := hstatus
  roomLeader := hleader
  moneyUpdates := hupdates
  room := by rw [hroom]
  roomOdds := by rw [Fight.roomOdds, hroom]; rfl

/-- A change of one record that keeps its hand and its money. -/
theorem of_updatePlayer {change : Player → Player}
    (hhand : ∀ player, (change player).handCardLst = player.handCardLst)
    (hmoney : ∀ player, (change player).winMoney = player.winMoney)
    (hodds : fight.roomStatus ≠ .askLeader → fight.roomStatus ≠ .selectOdds →
      ∀ player, (change player).odds = player.odds) :
    Interferes fight (fight.updatePlayer uid change) where
  keys := fight.keys_updatePlayer uid change
  hand := fight.hand_updatePlayer hhand uid
  winMoney := fight.winMoney_updatePlayer hmoney uid
  odds hask hselect := fight.odds_updatePlayer (hodds hask hselect) uid
  cardLst := rfl
  roomStatus := rfl
  roomLeader := rfl
  moneyUpdates := rfl
  room := rfl
  roomOdds := rfl

/-- A change of the room that keeps its odds. -/
theorem of_room {change : RoomInfo → RoomInfo}
    (hodds : ∀ room, (change room).roomOdds = room.roomOdds) :
    Interferes fight { fight with room := fight.room.map change } where
  keys := rfl
  hand _ := rfl
  winMoney _ := rfl
  odds _ _ _ := rfl
  cardLst := rfl
  roomStatus := rfl
  roomLeader := rfl
  moneyUpdates := rfl
  room := Option.isSome_map
  roomOdds := by cases hroom : fight.room <;> simp [Fight.roomOdds, hroom, hodds]

end Interferes

/-- Every message keeps to the interference. -/
theorem Handler.interferes_effect (handler : Handler) (fight : Fight) :
    Interferes fight (handler.effect fight) := by
  unfold Handler.effect
  split
  · split_ifs with haccepts
    · exact .of_updatePlayer (fun _ ↦ rfl) (fun _ ↦ rfl) fun hask _ ↦ absurd haccepts.1 hask
    · exact .refl fight
  · split_ifs with haccepts
    · refine .of_updatePlayer (fun _ ↦ rfl) (fun _ ↦ rfl) fun _ hselect ↦ absurd ?_ hselect
      have hconsiders := haccepts.1
      simp only [Fight.considersOdds, decide_eq_true_eq] at hconsiders
      exact hconsiders.1
    · exact .refl fight
  · exact .of_updatePlayer (fun _ ↦ rfl) (fun _ ↦ rfl) fun _ _ _ ↦ rfl
  · exact .of_room fun _ ↦ rfl
  · exact .refl fight

/-! ### Players with five cards -/

/-- Players who hold five cards keep them, and their odds. -/
def Frozen (first last : Fight) : Prop :=
  ∀ uid, (first.hand uid).length = 5 →
    last.hand uid = first.hand uid ∧ last.odds uid = first.odds uid

theorem Frozen.refl (fight : Fight) : Frozen fight fight := fun _ _ ↦ ⟨rfl, rfl⟩

theorem Frozen.trans (h : Frozen first middle) (h' : Frozen middle last) : Frozen first last := by
  intro uid hfive
  obtain ⟨hhand, hodds⟩ := h uid hfive
  obtain ⟨hhand', hodds'⟩ := h' uid (by rw [hhand]; exact hfive)
  exact ⟨hhand'.trans hhand, hodds'.trans hodds⟩

/-- Nothing is frozen while no player holds five cards. -/
theorem Frozen.of_ne (hnone : ∀ uid, (first.hand uid).length ≠ 5) : Frozen first last :=
  fun uid hfive ↦ absurd hfive (hnone uid)

theorem Frozen.of_same (hhand : ∀ uid, last.hand uid = first.hand uid)
    (hodds : ∀ uid, last.odds uid = first.odds uid) : Frozen first last :=
  fun uid _ ↦ ⟨hhand uid, hodds uid⟩

theorem Frozen.of_updatePlayer {change : Player → Player}
    (hhand : ∀ player, (change player).handCardLst = player.handCardLst)
    (hodds : ∀ player, (change player).odds = player.odds) :
    Frozen fight (fight.updatePlayer uid change) :=
  .of_same (fight.hand_updatePlayer hhand uid) (fight.odds_updatePlayer hodds uid)

/-! ### The assertions of a game -/

/-- A game that has not begun to store its result. In the phases before the last deal nobody holds
more than four cards, and in the last phase everybody holds five. -/
structure Going (updates : List MoneyUpdate) (fight : Fight) : Prop where
  room : fight.room.isSome
  conserved : fight.Conserved
  players : fight.playerLst.keys.card ≤ 10
  early : fight.roomStatus ≠ .selectOdds → fight.roomStatus ≠ .gameEnd →
    ∀ uid, (fight.hand uid).length ≤ 4
  dealt : fight.roomStatus = .gameEnd → ∀ uid ∈ fight.playerLst.keys, (fight.hand uid).length = 5
  unpaid : ∀ uid ∈ fight.playerLst.keys, fight.winMoney uid = 0
  unsaved : fight.moneyUpdates = updates

/-- A game between two turns of `checkStatus`: four cards in every hand until the last phase, and a
banker from the choice of odds on. -/
structure Ready (updates : List MoneyUpdate) (fight : Fight) : Prop extends Going updates fight where
  hands : fight.roomStatus ≠ .gameEnd → ∀ uid ∈ fight.playerLst.keys, (fight.hand uid).length = 4
  leader : fight.roomStatus = .selectOdds ∨ fight.roomStatus = .gameEnd →
    ∃ leaderUid ∈ fight.playerLst.keys, fight.roomLeader = some leaderUid

/-- A settled game that has had the answers `calls` to its calls of `update_user_money`: one for each
of the players in question, with the money he has won. -/
structure Settled (updates calls : List MoneyUpdate) (fight : Fight) : Prop where
  room : fight.room.isSome
  conserved : fight.Conserved
  atEnd : fight.roomStatus = .gameEnd
  dealt : ∀ uid ∈ fight.playerLst.keys, (fight.hand uid).length = 5
  paid : ∃ leaderUid, fight.Paid leaderUid
  saved : fight.moneyUpdates = updates ++ calls
  once : (calls.map MoneyUpdate.uid).Nodup
  each : ∀ call ∈ calls, call.uid ∈ fight.playerLst.keys ∧ call.addVal = fight.winMoney call.uid

theorem Fight.Conserved.of_interferes (h : Interferes first last) (hfirst : first.Conserved) :
    last.Conserved :=
  (Fight.allCards_congr h.cardLst h.keys h.hand).trans hfirst

theorem Going.of_interferes {updates : List MoneyUpdate} (h : Interferes first last)
    (hfirst : Going updates first) : Going updates last where
  room := h.room ▸ hfirst.room
  conserved := hfirst.conserved.of_interferes h
  players := h.keys ▸ hfirst.players
  early hselect hend uid := by
    rw [h.hand uid]
    rw [h.roomStatus] at hselect hend
    exact hfirst.early hselect hend uid
  dealt hend uid huid := by
    rw [h.hand uid]
    rw [h.roomStatus] at hend
    exact hfirst.dealt hend uid (h.keys ▸ huid)
  unpaid uid huid := (h.winMoney uid).trans (hfirst.unpaid uid (h.keys ▸ huid))
  unsaved := h.moneyUpdates.trans hfirst.unsaved

theorem Ready.of_interferes {updates : List MoneyUpdate} (h : Interferes first last)
    (hfirst : Ready updates first) : Ready updates last where
  toGoing := hfirst.toGoing.of_interferes h
  hands hend uid huid := by
    rw [h.hand uid]
    rw [h.roomStatus] at hend
    exact hfirst.hands hend uid (h.keys ▸ huid)
  leader hphase := by
    rw [h.roomStatus] at hphase
    rw [h.keys, h.roomLeader]
    exact hfirst.leader hphase

/-- The odds of a settled game are no longer touched. -/
theorem Fight.Paid.of_interferes {leaderUid : ℕ} (h : Interferes first last)
    (hover : first.roomStatus = .gameEnd) (hfirst : first.Paid leaderUid) :
    last.Paid leaderUid := by
  have hodds := h.odds (by simp [hover]) (by simp [hover])
  refine ⟨h.roomLeader.trans hfirst.leader, h.keys ▸ hfirst.plays, ?_, ?_⟩
  · intro uid huid hne
    rw [h.winMoney uid, h.roomOdds, hodds uid, hodds leaderUid, h.hand uid, h.hand leaderUid]
    exact hfirst.opponent uid (h.keys ▸ huid) hne
  · simp only [h.keys, h.winMoney]
    exact hfirst.banker

theorem Settled.of_interferes {updates calls : List MoneyUpdate} (h : Interferes first last)
    (hfirst : Settled updates calls first) : Settled updates calls last where
  room := h.room ▸ hfirst.room
  conserved := hfirst.conserved.of_interferes h
  atEnd := h.roomStatus.trans hfirst.atEnd
  dealt uid huid := by
    rw [h.hand uid]
    exact hfirst.dealt uid (h.keys ▸ huid)
  paid := hfirst.paid.imp fun _ hpaid ↦ hpaid.of_interferes h hfirst.atEnd
  saved := h.moneyUpdates.trans hfirst.saved
  once := hfirst.once
  each call hcall := by
    rw [h.keys, h.winMoney call.uid]
    exact hfirst.each call hcall

end SvrDemo.Douniu
