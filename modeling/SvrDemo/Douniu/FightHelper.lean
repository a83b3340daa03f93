import SvrDemo.Skynet.Runtime

/-!
# The helpers of a douniu fight

`fight_helper.lua`: the phases of a game and their lengths, and the value of a hand of five cards.
A hand has a bull when three of its cards have values that sum to a multiple of ten. The hand
with a bull is worth the sum of all five values modulo ten, with zero read as ten, and the hand
without one is worth zero. Between equal hands the largest card decides.
-/

set_option autoImplicit false
set_option relaxedAutoImplicit false

namespace SvrDemo.Douniu

open Lua Skynet

/-- `enum_room_status`, with the value `room_status` has before the first game. -/
inductive RoomStatus
  | idle
  | ready
  | askLeader
  | selectOdds
  | gameEnd
  deriving DecidableEq, Repr

/-- The number of a phase. -/
def RoomStatus.code : RoomStatus → ℕ
  | .idle => 0
  | .ready => 1
  | .askLeader => 2
  | .selectOdds => 3
  | .gameEnd => 4

/-- `enum_game_status_inteval`: the seconds a phase may take, from phase one on. -/
def enumGameStatusInteval : List ℤ := [3, 5, 5, 10, 10]

/-- `enum_game_status_inteval[status]`, with the nil of an absent index. -/
def RoomStatus.inteval (status : RoomStatus) : Option ℤ :=
  if status.code = 0 then none else enumGameStatusInteval[status.code - 1]?

/-- The value of a card: its rank from one to thirteen, with ten for the court cards. -/
def transCard : Option ℤ → ℤ
  | none => 0
  | some cardNum => if (cardNum - 1) % 13 + 1 ≥ 10 then 10 else (cardNum - 1) % 13 + 1

/-- `card_lst[i]`, counted from one. -/
def cardAt (cardLst : List ℤ) (index : ℕ) : Option ℤ := cardLst[index - 1]?

/-- The search for a bull: three cards whose values sum to a multiple of ten. -/
def hasNiu (cardLst : List ℤ) : Bool :=
  (List.range' 1 3).any fun i ↦ (List.range' (i + 1) (4 - i)).any fun j ↦
    (List.range' (j + 1) (5 - j)).any fun k ↦
      (transCard (cardAt cardLst i) + transCard (cardAt cardLst j) +
        transCard (cardAt cardLst k)) % 10 == 0

/-- The largest card, found from zero up. -/
def maxCardOf (cardLst : List ℤ) : ℤ :=
  cardLst.foldl (fun maxCard card ↦ if card > maxCard then card else maxCard) 0

/-- The values of all cards together. -/
def cardSum (cardLst : List ℤ) : ℤ :=
  cardLst.foldl (fun sum card ↦ sum + transCard (some card)) 0

/-- `parse_card_info`: the bull of a hand, zero for none, and its largest card. It raises unless
the hand has five cards. -/
def parseCardInfo (cardLst : List ℤ) : Except LuaError (ℤ × ℤ) :=
  if cardLst.length = 5 then
    if hasNiu cardLst then
      .ok (if cardSum cardLst % 10 = 0 then 10 else cardSum cardLst % 10, maxCardOf cardLst)
    else .ok (0, maxCardOf cardLst)
  else .error .assertionFailed

/-- `get_card_odds`: the multiplier of a bull. -/
def getCardOdds (niuNum : ℤ) : ℤ :=
  if niuNum = 10 then 3 else if niuNum > 6 then 2 else 1

/-! ### Hands of five cards -/

/-- The bull of a hand of five cards. -/
def niuOf (cardLst : List ℤ) : ℤ :=
  if hasNiu cardLst then (if cardSum cardLst % 10 = 0 then 10 else cardSum cardLst % 10) else 0

/-- A hand of five cards is always valued. -/
theorem parseCardInfo_of_length {cardLst : List ℤ} (hlength : cardLst.length = 5) :
    parseCardInfo cardLst = .ok (niuOf cardLst, maxCardOf cardLst) := by
  unfold parseCardInfo niuOf
  rw [if_pos hlength]
  split <;> rfl

/-- Only a hand without five cards fails the assertion. -/
theorem parseCardInfo_eq_error_iff (cardLst : List ℤ) (error : LuaError) :
    parseCardInfo cardLst = .error error ↔ cardLst.length ≠ 5 ∧ error = .assertionFailed := by
  by_cases hlength : cardLst.length = 5
  · simp [parseCardInfo_of_length hlength, hlength]
  · simp [parseCardInfo, hlength, eq_comm]

/-- The fold of `maxCardOf` is bounded below by its start and by every card. -/
theorem le_foldl_max (cardLst : List ℤ) : ∀ start : ℤ,
    start ≤ cardLst.foldl (fun maxCard card ↦ if card > maxCard then card else maxCard) start ∧
      ∀ card ∈ cardLst,
        card ≤ cardLst.foldl (fun maxCard card ↦ if card > maxCard then card else maxCard) start := by
  induction cardLst with
  | nil => intro start; simp
  | cons head tail ih =>
    intro start
    obtain ⟨hnext, htail⟩ := ih (if head > start then head else start)
    have hstart : start ≤ if head > start then head else start := by split_ifs <;> omega
    have hhead : head ≤ if head > start then head else start := by split_ifs <;> omega
    simp only [List.foldl_cons, List.mem_cons, forall_eq_or_imp]
    exact ⟨hstart.trans hnext, hhead.trans hnext, htail⟩

/-- The fold of `maxCardOf` is its start or one of the cards. -/
theorem foldl_max_mem (cardLst : List ℤ) : ∀ start : ℤ,
    cardLst.foldl (fun maxCard card ↦ if card > maxCard then card else maxCard) start = start ∨
      cardLst.foldl (fun maxCard card ↦ if card > maxCard then card else maxCard) start ∈
        cardLst := by
  induction cardLst with
  | nil => intro start; exact .inl rfl
  | cons head tail ih =>
    intro start
    rw [List.foldl_cons]
    rcases ih (if head > start then head else start) with hstart | hmem
    · rw [hstart]
      split_ifs
      · exact .inr List.mem_cons_self
      · exact .inl rfl
    · exact .inr (List.mem_cons_of_mem head hmem)

/-- The largest card of a hand of positive cards is one of its cards. -/
theorem maxCardOf_mem {cardLst : List ℤ} (hne : cardLst ≠ []) (hpos : ∀ card ∈ cardLst, 0 < card) :
    maxCardOf cardLst ∈ cardLst := by
  rcases foldl_max_mem cardLst 0 with hzero | hmem
  · obtain ⟨card, hcard⟩ := List.exists_mem_of_ne_nil cardLst hne
    have hle := (le_foldl_max cardLst 0).2 card hcard
    have hlt := hpos card hcard
    omega
  · exact hmem

end SvrDemo.Douniu
