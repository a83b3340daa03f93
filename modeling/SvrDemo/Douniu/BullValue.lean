import SvrDemo.Douniu.HandOrder

/-!
# The value of a hand

`parse_card_info` searches for three cards whose values sum to a multiple of ten, and then scores the sum of all
five. The three found are not kept. They need not be: they add a multiple of ten to the other two, so the score is
that of the other two whichever three were found. A hand is a list here, and any splitting of it into three cards
and two is a permutation of it.
-/

set_option autoImplicit false
set_option relaxedAutoImplicit false

namespace SvrDemo.Douniu

open Lua Skynet

variable {hand three two : List ℤ}

/-- The values of some cards together. -/
def valueSum (cards : List ℤ) : ℤ := (cards.map fun card ↦ transCard (some card)).sum

/-- A sum modulo ten, with zero read as ten. -/
def bullPoints (sum : ℤ) : ℤ := if sum % 10 = 0 then 10 else sum % 10

/-- Three cards of a hand and the two that are left. -/
structure Splits (hand three two : List ℤ) : Prop where
  perm : (three ++ two).Perm hand
  length : three.length = 3

@[simp] theorem valueSum_append (first second : List ℤ) :
    valueSum (first ++ second) = valueSum first + valueSum second := by
  simp [valueSum]

theorem valueSum_perm {cards cards' : List ℤ} (hperm : cards'.Perm cards) : valueSum cards' = valueSum cards :=
  (hperm.map _).sum_eq

/-- The loop over all cards sums their values. -/
theorem cardSum_eq (hand : List ℤ) : cardSum hand = valueSum hand := by
  rw [valueSum, List.sum_eq_foldl, List.foldl_map]
  rfl

/-- The score is that of the two cards left, when the other three sum to a multiple of ten. -/
theorem Splits.bullPoints_eq (h : Splits hand three two) (hthree : valueSum three % 10 = 0) :
    bullPoints (cardSum hand) = bullPoints (valueSum two) := by
  have hsum : cardSum hand = valueSum three + valueSum two := by
    rw [cardSum_eq, ← valueSum_perm h.perm, valueSum_append]
  have hmod : (valueSum three + valueSum two) % 10 = valueSum two % 10 := by omega
  rw [hsum, bullPoints, bullPoints, hmod]

/-- Three cards of a hand are a sublist of one of its permutations, and the rest of it are the other two. -/
theorem exists_splits_iff (hand three : List ℤ) :
    (∃ two, Splits hand three two) ↔ (three : Multiset ℤ) ≤ hand ∧ three.length = 3 := by
  constructor
  · rintro ⟨two, hperm, hlength⟩
    exact ⟨(List.sublist_append_left three two).subperm.trans hperm.subperm, hlength⟩
  · rintro ⟨hle, hlength⟩
    obtain ⟨rest, hrest⟩ := Multiset.le_iff_exists_add.mp hle
    refine ⟨rest.toList, ?_, hlength⟩
    rw [← Multiset.coe_eq_coe, ← Multiset.coe_add, Multiset.coe_toList, ← hrest]

/-- The search finds a bull exactly when some three cards of the hand sum to a multiple of ten. -/
theorem hasNiu_iff_splits (hlength : hand.length = 5) :
    hasNiu hand = true ↔ ∃ three two, Splits hand three two ∧ valueSum three % 10 = 0 := by
  rw [hasNiu_iff hlength]
  constructor
  · rintro ⟨cards, hle, hcard, hsum⟩
    obtain ⟨three, rfl⟩ := Quot.exists_rep cards
    obtain ⟨two, hsplits⟩ := (exists_splits_iff hand three).mpr ⟨hle, hcard⟩
    exact ⟨three, two, hsplits, hsum⟩
  · rintro ⟨three, two, hsplits, hsum⟩
    obtain ⟨hle, hthree⟩ := (exists_splits_iff hand three).mp ⟨two, hsplits⟩
    exact ⟨three, hle, hthree, hsum⟩

theorem niuOf_eq_zero (hlength : hand.length = 5)
    (hnone : ∀ three two, Splits hand three two → valueSum three % 10 ≠ 0) : niuOf hand = 0 := by
  have hniu : ¬ hasNiu hand = true := by
    rw [hasNiu_iff_splits hlength]
    rintro ⟨three, two, hsplits, hsum⟩
    exact hnone three two hsplits hsum
  rw [niuOf, if_neg hniu]

theorem Splits.niuOf_eq (h : Splits hand three two) (hlength : hand.length = 5) (hthree : valueSum three % 10 = 0) :
    niuOf hand = bullPoints (valueSum two) := by
  have hniu : hasNiu hand = true := (hasNiu_iff_splits hlength).mpr ⟨three, two, h, hthree⟩
  rw [niuOf, if_pos hniu, ← h.bullPoints_eq hthree, bullPoints]

/-- `parse_card_info` computes the bull value of every five cards: zero when no three of them sum to a multiple of
ten, else the points of the other two, and the largest card, whatever the order of the cards. -/
theorem parseCardInfo_computes (hlength : hand.length = 5) (hpos : ∀ card ∈ hand, 0 < card) :
    ∃ niu maxCard, parseCardInfo hand = .ok (niu, maxCard) ∧
      ((∀ three two, Splits hand three two → valueSum three % 10 ≠ 0) → niu = 0) ∧
      (∀ three two, Splits hand three two → valueSum three % 10 = 0 → niu = bullPoints (valueSum two)) ∧
      maxCard ∈ hand ∧ (∀ card ∈ hand, card ≤ maxCard) ∧
      ∀ hand' : List ℤ, hand'.Perm hand → parseCardInfo hand' = .ok (niu, maxCard) := by
  refine ⟨niuOf hand, maxCardOf hand, parseCardInfo_of_length hlength, ?_, ?_, ?_, ?_, ?_⟩
  · exact niuOf_eq_zero hlength
  · intro three two hsplits hthree
    exact hsplits.niuOf_eq hlength hthree
  · exact maxCardOf_mem (List.ne_nil_of_length_eq_add_one hlength) hpos
  · intro card hcard
    exact le_maxCardOf hcard
  · intro hand' hperm
    rw [parseCardInfo_of_length (hperm.length_eq.trans hlength), niuOf_perm hlength hperm, maxCardOf_perm hperm]

/-- Three court cards and two fives, and the same cards in another order. -/
theorem parseCardInfo_computes_courts :
    parseCardInfo [11, 5, 12, 18, 13] = .ok (10, 18) ∧ parseCardInfo [5, 18, 11, 12, 13] = .ok (10, 18) := by
  obtain ⟨niu, maxCard, hvalue, -, hscore, -, -, hperm⟩ :=
    parseCardInfo_computes (show [11, 5, 12, 18, 13].length = 5 from rfl) (by decide)
  have hniu : niu = 10 := hscore [11, 12, 13] [5, 18] ⟨by decide, rfl⟩ (by decide)
  have hmax : maxCard = 18 := by
    have hok : parseCardInfo [11, 5, 12, 18, 13] = .ok (10, 18) := by decide
    rw [hvalue] at hok
    exact congrArg Prod.snd (Except.ok.inj hok)
  subst hniu hmax
  exact ⟨hvalue, hperm _ (by decide)⟩

end SvrDemo.Douniu
