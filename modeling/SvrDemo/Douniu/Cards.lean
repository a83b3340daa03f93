import SvrDemo.Douniu.Fight
import Mathlib.Algebra.Order.BigOperators.Group.Finset
import Mathlib.Algebra.Order.Group.Multiset
import Mathlib.Data.Multiset.Bind

/-!
# The cards of a game

The cards of a game are in the deck or in a hand. The shuffle exchanges cards of the deck, and a
deal moves cards from the top of the deck to a hand, so neither makes or loses a card. `Conserved`
says that deck and hands together are the deck of a new game. In such a game no card is held twice,
and the length of the deck follows from the lengths of the hands.
-/

set_option autoImplicit false
set_option relaxedAutoImplicit false

namespace SvrDemo.Douniu

open Lua Skynet

variable {fight : Fight} {uid other : ℕ}

/-! ### Records -/

theorem Fight.mem_keys_iff :
    uid ∈ fight.playerLst.keys ↔ ∃ player, fight.getPlayer uid = some player :=
  Table.mem_keys_iff

@[simp]
theorem Fight.getPlayer_updatePlayer (fight : Fight) (uid other : ℕ) (change : Player → Player) :
    (fight.updatePlayer uid change).getPlayer other =
      if other = uid then (fight.getPlayer uid).map change else fight.getPlayer other :=
  Table.lookup_update fight.playerLst uid other change

@[simp]
theorem Fight.keys_updatePlayer (fight : Fight) (uid : ℕ) (change : Player → Player) :
    (fight.updatePlayer uid change).playerLst.keys = fight.playerLst.keys :=
  Table.keys_update fight.playerLst uid change

/-- A change of a record that keeps a field keeps it for every player. -/
theorem Fight.field_updatePlayer {β : Type} (field : Player → β) {change : Player → Player}
    (hfield : ∀ player, field (change player) = field player) (fight : Fight) (uid other : ℕ) :
    ((fight.updatePlayer uid change).getPlayer other).map field =
      (fight.getPlayer other).map field := by
  rw [getPlayer_updatePlayer]
  by_cases hother : other = uid
  · subst hother
    simp [Function.comp_def, hfield]
  · simp [hother]

theorem Fight.hand_updatePlayer {change : Player → Player}
    (hfield : ∀ player, (change player).handCardLst = player.handCardLst) (fight : Fight)
    (uid other : ℕ) : (fight.updatePlayer uid change).hand other = fight.hand other :=
  congrArg (Option.getD · []) (fight.field_updatePlayer Player.handCardLst hfield uid other)

theorem Fight.odds_updatePlayer {change : Player → Player}
    (hfield : ∀ player, (change player).odds = player.odds) (fight : Fight) (uid other : ℕ) :
    (fight.updatePlayer uid change).odds other = fight.odds other :=
  congrArg (Option.getD · 0) (fight.field_updatePlayer Player.odds hfield uid other)

theorem Fight.winMoney_updatePlayer {change : Player → Player}
    (hfield : ∀ player, (change player).winMoney = player.winMoney) (fight : Fight)
    (uid other : ℕ) : (fight.updatePlayer uid change).winMoney other = fight.winMoney other :=
  congrArg (Option.getD · 0) (fight.field_updatePlayer Player.winMoney hfield uid other)

/-- A change of the record of another player keeps the odds. -/
theorem Fight.odds_updatePlayer_of_ne (change : Player → Player) (hne : other ≠ uid) :
    (fight.updatePlayer uid change).odds other = fight.odds other := by
  rw [Fight.odds, Fight.getPlayer_updatePlayer, if_neg hne, Fight.odds]

/-! ### Cards -/

/-- All cards of a game: the deck and the hands. -/
def Fight.allCards (fight : Fight) : Multiset ℤ :=
  (fight.cardLst : Multiset ℤ) + ∑ uid ∈ fight.playerLst.keys, (fight.hand uid : Multiset ℤ)

/-- The deck and the hands together are the deck of a new game. -/
def Fight.Conserved (fight : Fight) : Prop := fight.allCards = (deck : Multiset ℤ)

theorem nodup_deck : deck.Nodup :=
  List.Nodup.map (fun _ _ heq ↦ Int.ofNat.inj heq) List.nodup_range'

theorem length_deck : deck.length = 52 := by simp [deck]

/-- The cards depend on the deck, the players and the hands only. -/
theorem Fight.allCards_congr {first last : Fight} (hcards : last.cardLst = first.cardLst)
    (hkeys : last.playerLst.keys = first.playerLst.keys)
    (hhand : ∀ uid, last.hand uid = first.hand uid) : last.allCards = first.allCards := by
  simp only [allCards, hcards, hkeys, hhand]

namespace Fight.Conserved

/-- No card is held twice, and none is in the deck and in a hand. -/
theorem nodup (h : fight.Conserved) : fight.allCards.Nodup := by
  rw [show fight.allCards = (deck : Multiset ℤ) from h]
  exact nodup_deck

theorem nodup_hand (h : fight.Conserved) (huid : uid ∈ fight.playerLst.keys) :
    (fight.hand uid).Nodup := by
  have hle : (fight.hand uid : Multiset ℤ) ≤ fight.allCards :=
    (Finset.single_le_sum (fun _ _ ↦ Multiset.zero_le _) huid).trans (Multiset.le_add_left _ _)
  exact Multiset.coe_nodup.mp (Multiset.nodup_of_le hle h.nodup)

/-- Two players hold different cards. -/
theorem disjoint_hand (h : fight.Conserved) (huid : uid ∈ fight.playerLst.keys)
    (hother : other ∈ fight.playerLst.keys) (hne : uid ≠ other) :
    (fight.hand uid).Disjoint (fight.hand other) := by
  have hpair : ∑ key ∈ {uid, other}, (fight.hand key : Multiset ℤ) =
      (fight.hand uid : Multiset ℤ) + (fight.hand other : Multiset ℤ) := Finset.sum_pair hne
  have hsubset : ({uid, other} : Finset ℕ) ⊆ fight.playerLst.keys := by
    intro key hkey
    rcases Finset.mem_insert.mp hkey with rfl | hkey
    · exact huid
    · exact Finset.mem_singleton.mp hkey ▸ hother
  have hle : (fight.hand uid : Multiset ℤ) + (fight.hand other : Multiset ℤ) ≤ fight.allCards := by
    rw [← hpair]
    exact (Finset.sum_le_sum_of_subset hsubset).trans (Multiset.le_add_left _ _)
  have hdisjoint := (Multiset.nodup_add.mp (Multiset.nodup_of_le hle h.nodup)).2.2
  exact Multiset.coe_disjoint _ _ |>.mp hdisjoint

/-- The deck holds what the hands do not. -/
theorem length_cardLst (h : fight.Conserved) :
    fight.cardLst.length + ∑ uid ∈ fight.playerLst.keys, (fight.hand uid).length = 52 := by
  have hcard : Multiset.card fight.allCards = 52 := by
    rw [show fight.allCards = (deck : Multiset ℤ) from h]
    exact length_deck
  simpa [allCards, map_sum] using hcard

end Fight.Conserved

/-! ### The shuffle -/

/-- An exchange keeps the cards. -/
theorem swapCards_perm (cardLst : List ℤ) (place rankNum : ℕ) :
    (swapCards cardLst place rankNum).Perm cardLst := by
  unfold swapCards
  split
  · rename_i card other hcard hother
    obtain ⟨hplace, rfl⟩ := List.getElem?_eq_some_iff.mp hcard
    obtain ⟨hrank, rfl⟩ := List.getElem?_eq_some_iff.mp hother
    exact List.set_set_perm hplace hrank
  · exact .refl _

/-! ### The deal -/

/-- The deal moves the first cards of the deck to the hand of the player. -/
theorem Fight.drawCards_eq (uid num : ℕ) : ∀ fight : Fight, fight.drawCards uid num =
    (fight.cardLst.take num,
      { fight.updatePlayer uid fun player ↦
          { player with handCardLst := player.handCardLst ++ fight.cardLst.take num } with
        cardLst := fight.cardLst.drop num }) := by
  induction num with
  | zero =>
    intro fight
    simp [drawCards, updatePlayer]
  | succ num ih =>
    intro fight
    cases hcards : fight.cardLst with
    | nil =>
      obtain ⟨playerLst, cardLst⟩ := fight
      obtain rfl : cardLst = [] := hcards
      simp [drawCards, updatePlayer]
    | cons card rest =>
      rw [drawCards]
      simp only [hcards, ih]
      simp [updatePlayer, Table.update_update]

/-- The deal leaves the other hands alone. -/
theorem Fight.hand_drawCards (fight : Fight) (uid num other : ℕ)
    (huid : uid ∈ fight.playerLst.keys) :
    (fight.drawCards uid num).2.hand other =
      if other = uid then fight.hand uid ++ fight.cardLst.take num else fight.hand other := by
  obtain ⟨player, hplayer⟩ := mem_keys_iff.mp huid
  rw [drawCards_eq, Fight.hand]
  change (((fight.updatePlayer uid _).getPlayer other).map Player.handCardLst).getD [] = _
  rw [getPlayer_updatePlayer]
  by_cases hother : other = uid
  · simp [hother, hplayer, Fight.hand]
  · simp [hother, Fight.hand]

/-- The deal changes the hands and the deck only. -/
theorem Fight.field_drawCards {β : Type} (field : Player → β)
    (hfield : ∀ (player : Player) (hand : List ℤ),
      field { player with handCardLst := hand } = field player) (fight : Fight)
    (uid num other : ℕ) : ((fight.drawCards uid num).2.getPlayer other).map field =
      (fight.getPlayer other).map field := by
  rw [drawCards_eq]
  exact fight.field_updatePlayer field (fun player ↦ hfield player _) uid other

/-- The deal makes and loses no card. -/
theorem Fight.allCards_drawCards (fight : Fight) (uid num : ℕ) (huid : uid ∈ fight.playerLst.keys) :
    (fight.drawCards uid num).2.allCards = fight.allCards := by
  have hkeys : (fight.drawCards uid num).2.playerLst.keys = fight.playerLst.keys := by
    rw [drawCards_eq]
    exact fight.keys_updatePlayer uid _
  have hcards : (fight.drawCards uid num).2.cardLst = fight.cardLst.drop num := by
    rw [drawCards_eq]
  have hothers : ∑ key ∈ fight.playerLst.keys.erase uid,
      ((fight.drawCards uid num).2.hand key : Multiset ℤ) =
        ∑ key ∈ fight.playerLst.keys.erase uid, (fight.hand key : Multiset ℤ) := by
    refine Finset.sum_congr rfl fun key hkey ↦ ?_
    rw [fight.hand_drawCards uid num key huid, if_neg (Finset.ne_of_mem_erase hkey)]
  unfold allCards
  rw [hkeys, hcards, ← Finset.add_sum_erase _ _ huid, ← Finset.add_sum_erase _ _ huid, hothers,
    fight.hand_drawCards uid num uid huid, if_pos rfl, ← add_assoc, ← add_assoc]
  congr 1
  -- the top of the deck has moved to the end of the hand
  calc (fight.cardLst.drop num : Multiset ℤ) + (fight.hand uid ++ fight.cardLst.take num : List ℤ)
      = (fight.cardLst.take num ++ fight.cardLst.drop num : List ℤ) + (fight.hand uid) := by
        simp only [← Multiset.coe_add]
        rw [add_comm, add_assoc, add_comm]
    _ = (fight.cardLst : Multiset ℤ) + (fight.hand uid) := by rw [List.take_append_drop]

end SvrDemo.Douniu
