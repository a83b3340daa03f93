import SvrDemo.Base.Fairness
import SvrDemo.Douniu.Cards
import SvrDemo.Skynet.Oracle

/-!
# The shuffle

The loop of `onShuffle` exchanges the card at every place, in order, with the card at a place that is thrown among
all 52. `shuffleDeck` is the loop for given throws, and `computes_shuffleLoop` says that the service computes it,
from the numbers its oracle throws. There are 52 throws of one of 52 places, and they make each of the orders of the
deck. The orders do not divide the throws evenly, so some orders are more likely than others.
-/

set_option autoImplicit false
set_option relaxedAutoImplicit false

namespace SvrDemo.Douniu

open Base Coroutine Lua Skynet

/-- The place thrown for a place of the deck, both counted from one. -/
def thrownFor (thrown : Fin 52 → ℕ) (place : ℕ) : ℕ := thrown (Fin.ofNat 52 (place - 1))

/-- The loop of `onShuffle` for given throws. -/
def shuffleDeck (thrown : Fin 52 → ℕ) (cardLst : List ℤ) : List ℤ :=
  (List.range' 1 cardLst.length).foldl (fun cards place ↦ swapCards cards place (thrownFor thrown place)) cardLst

/-- The loop of `onShuffle`. -/
def shuffleLoop : FightTask Unit := do
  let places := List.range' 1 (← Program.getState).cardLst.length
  Program.forEach places fun place ↦ do
    let rankNum ← mathRandom 52
    Program.modifyState fun fight ↦
      { fight with cardLst := swapCards fight.cardLst place rankNum.toNat }

/-- The shuffle comes before the deal. -/
theorem onShuffle_eq : onShuffle = (do
    shuffleLoop
    let order ← pairs (← Program.getState).playerLst.keys
    Program.forEach order fun uid ↦ getCardFromCardLst uid 4) := by
  simp only [onShuffle, shuffleLoop, bind_assoc]

/-- An order of the deck is as likely as any other. -/
def FairShuffle (cardLst : List ℤ) : Prop :=
  Fair (throws 52) cardLst.permutations.toFinset fun thrown ↦ shuffleDeck thrown cardLst

/-- Every shuffle keeps the cards. -/
theorem shuffleDeck_perm (thrown : Fin 52 → ℕ) (cardLst : List ℤ) : (shuffleDeck thrown cardLst).Perm cardLst := by
  suffices hloop : ∀ (places : List ℕ) (cards : List ℤ), cards.Perm cardLst →
      (places.foldl (fun cards place ↦ swapCards cards place (thrownFor thrown place)) cards).Perm cardLst from
    hloop _ cardLst (List.Perm.refl cardLst)
  intro places
  induction places with
  | nil => exact fun cards hcards ↦ hcards
  | cons place places ih => exact fun cards hcards ↦ ih _ ((swapCards_perm cards place _).trans hcards)

/-! ### The throws of the service -/

section Service

variable {oracle : Oracle skynet} {asked : ℕ} {fight : Fight}

/-- What an oracle throws for the places of the deck, from a question on. -/
def thrownBy (oracle : Oracle skynet) (asked : ℕ) (place : Fin 52) : ℕ := (dice oracle (asked + place) 52).toNat

theorem thrownBy_mem (oracle : Oracle skynet) (asked : ℕ) : thrownBy oracle asked ∈ throws 52 := by
  rw [mem_throws]
  intro place
  have hbounds := dice_bounds oracle (asked + place) (show 0 < 52 by decide)
  rw [thrownBy]
  omega

/-- The service computes the loop from the throws of its oracle. -/
theorem computes_shuffleLoop (hlength : fight.cardLst.length = 52) {post : Unit → ℕ → Fight → Prop}
    (hpost : post () (asked + 52) { fight with cardLst := shuffleDeck (thrownBy oracle asked) fight.cardLst }) :
    shuffleLoop.Computes oracle post asked fight := by
  unfold shuffleLoop
  refine Program.computes_bind (Program.computes_getState ?_)
  refine Program.computes_forEach (fun done asked' state ↦ asked' = asked + done.length ∧
    state = { fight with
      cardLst := done.foldl (fun cards place ↦ swapCards cards place (thrownFor (thrownBy oracle asked) place))
        fight.cardLst }) ⟨rfl, rfl⟩ ?_ ?_
  · rintro done place tail _ _ hplaces ⟨rfl, rfl⟩
    have hdone : done.length < 52 := by
      have hcount := congrArg List.length hplaces
      rw [List.length_range', hlength, List.length_append, List.length_cons] at hcount
      omega
    have hplace : place = done.length + 1 := by
      have hget := congrArg (fun places ↦ places[done.length]?) hplaces
      simp [hlength, hdone] at hget
      omega
    refine Program.computes_bind (computes_mathRandom (by decide) (Program.computes_modifyState ?_))
    constructor
    · rw [List.length_append]
      rfl
    · rw [List.foldl_append, hplace]
      simp [thrownFor, thrownBy, Nat.mod_eq_of_lt hdone]
  · rintro _ _ ⟨rfl, rfl⟩
    have hcount : (List.range' 1 fight.cardLst.length).length = 52 := List.length_range'.trans hlength
    rw [hcount]
    exact hpost

/-- Every sequence of throws is the sequence of an oracle. -/
theorem exists_thrownBy_eq {thrown : Fin 52 → ℕ} (hthrown : ∀ place, 1 ≤ thrown place ∧ thrown place ≤ 52)
    (asked : ℕ) : ∃ oracle, thrownBy oracle asked = thrown := by
  refine ⟨throwing fun later ↦ thrown (Fin.ofNat 52 (later - asked)), funext fun place ↦ ?_⟩
  have hplace : Fin.ofNat 52 (asked + place - asked) = place := by
    rw [Nat.add_sub_cancel_left]
    exact Fin.ofNat_val_eq_self place
  have hdice : dice (throwing fun later ↦ thrown (Fin.ofNat 52 (later - asked))) (asked + place) 52 =
      thrown (Fin.ofNat 52 (asked + place - asked)) := dice_throwing (by rw [hplace]; exact hthrown place)
  rw [thrownBy, hdice, hplace, Int.toNat_natCast]

end Service

/-! ### The orders of the deck -/

theorem not_fairShuffle {cardLst : List ℤ} (hcards : cardLst.Perm deck) : ¬ FairShuffle cardLst := by
  have hlength : cardLst.length = 52 := hcards.length_eq.trans length_deck
  have hnodup : cardLst.Nodup := hcards.nodup_iff.mpr nodup_deck
  exact not_fair_of_throws hnodup hlength (by decide) fun thrown _ ↦ shuffleDeck_perm thrown cardLst

/-- Some order of a new deck is made by more throws than another. -/
theorem new_deck_not_fair : ¬ FairShuffle deck := not_fairShuffle (List.Perm.refl deck)

/-- The service shuffles a deck by the throws of its dice, and that is not fair, however the deck lay before. -/
theorem shuffle_never_fair {fight : Fight} (hcards : fight.cardLst.Perm deck) :
    (∀ oracle asked, shuffleLoop.Computes oracle (fun _ _ after ↦
      after = { fight with cardLst := shuffleDeck (thrownBy oracle asked) fight.cardLst }) asked fight) ∧
    ¬ FairShuffle fight.cardLst := by
  constructor
  · intro oracle asked
    exact computes_shuffleLoop (hcards.length_eq.trans length_deck) rfl
  · exact not_fairShuffle hcards

/-- A game before the deal. -/
def undealt : Fight where
  playerLst := ∅
  cardLst := deck
  roomStatus := .ready
  statusBegin := 0
  roomLeader := none
  room := none
  curDbsId := 1
  dbServiceCnt := 1
  moneyUpdates := []

theorem shuffle_never_fair_undealt : ¬ FairShuffle undealt.cardLst :=
  (shuffle_never_fair (List.Perm.refl deck : undealt.cardLst.Perm deck)).2

end SvrDemo.Douniu
