import SvrDemo.Douniu.Settlement
import Mathlib.Data.Multiset.Powerset
import Mathlib.Data.Prod.Lex

/-!
# The order of the hands

`compare_hand_card` orders hands by the bull and then by the largest card. The bull depends on the cards of a
hand alone: the search goes over all three cards of the five (`hasNiu_iff`), and the break only ends its
innermost loop. The largest card is a card of the hand. Hands that share no card therefore never tie, and
`hands_strictly_ordered` says what this makes of a family of dealt hands.
-/

set_option autoImplicit false
set_option relaxedAutoImplicit false

namespace SvrDemo.Douniu

open Lua Skynet

/-- Five cards of the deck. -/
structure DealtHand (hand : List ℤ) : Prop where
  length : hand.length = 5
  card : ∀ card ∈ hand, 1 ≤ card ∧ card ≤ 52

/-- The result of a comparison, without what it notes in the two records. -/
def Compares (first second : Player) (wins : Bool) : Prop :=
  ∃ first' second', compareHandCard first second = .ok (wins, first', second')

/-! ### What a hand is worth -/

/-- The search goes over the sublists of three cards. -/
theorem hasNiu_iff_sublist {hand : List ℤ} (hlength : hand.length = 5) :
    hasNiu hand = true ↔ ∃ three ∈ hand.sublistsLen 3,
      (three.map fun card ↦ transCard (some card)).sum % 10 = 0 := by
  match hand, hlength with
  | [first, second, third, fourth, fifth], _ =>
    simp only [hasNiu, List.range', cardAt, List.sublistsLen, List.sublistsLenAux, List.any_cons, List.any_nil,
      Bool.or_eq_true, Bool.or_false, beq_iff_eq, List.mem_cons, List.not_mem_nil, or_false, exists_eq_or_imp,
      exists_eq_left, List.map_cons, List.map_nil, List.sum_cons, List.sum_nil, add_zero, Function.comp_apply,
      id, Nat.reduceAdd, Nat.reduceSub, List.getElem?_cons_zero, List.getElem?_cons_succ]
    -- the same ten sums, in another order
    simp only [← add_assoc]
    exact iff_of_eq (by ac_rfl)

/-- A hand has a bull when three of its cards have values that sum to a multiple of ten. -/
theorem hasNiu_iff {hand : List ℤ} (hlength : hand.length = 5) :
    hasNiu hand = true ↔ ∃ three ≤ (hand : Multiset ℤ), three.card = 3 ∧
      (three.map fun card ↦ transCard (some card)).sum % 10 = 0 := by
  rw [hasNiu_iff_sublist hlength]
  constructor
  · rintro ⟨cards, hcards, hsum⟩
    obtain ⟨hsub, hcard⟩ := List.mem_sublistsLen.mp hcards
    exact ⟨cards, hsub.subperm, hcard, hsum⟩
  · rintro ⟨three, hle, hcard, hsum⟩
    have hmem := Multiset.mem_powersetCard.mpr ⟨hle, hcard⟩
    rw [Multiset.powersetCard_coe, Multiset.mem_coe, List.mem_map] at hmem
    obtain ⟨cards, hcards, rfl⟩ := hmem
    exact ⟨cards, hcards, hsum⟩

section Permutations

variable {hand hand' : List ℤ}

theorem hasNiu_perm (hlength : hand.length = 5) (hperm : hand'.Perm hand) : hasNiu hand' = hasNiu hand := by
  rw [Bool.eq_iff_iff, hasNiu_iff (hperm.length_eq.trans hlength), hasNiu_iff hlength,
    Multiset.coe_eq_coe.mpr hperm]

theorem cardSum_perm (hperm : hand'.Perm hand) : cardSum hand' = cardSum hand := by
  refine hperm.foldl_eq' (fun first _ second _ sum ↦ ?_) 0
  exact add_right_comm sum _ _

theorem niuOf_perm (hlength : hand.length = 5) (hperm : hand'.Perm hand) : niuOf hand' = niuOf hand := by
  rw [niuOf, niuOf, hasNiu_perm hlength hperm, cardSum_perm hperm]

/-- The largest card of a dealt hand is one of its cards, and no card is larger. -/
theorem DealtHand.maxCardOf_mem (h : DealtHand hand) : maxCardOf hand ∈ hand := by
  refine Douniu.maxCardOf_mem (fun hnil ↦ ?_) fun card hcard ↦ (h.card card hcard).1
  have hlength := h.length
  rw [hnil] at hlength
  exact nomatch hlength

theorem le_maxCardOf {card : ℤ} (hcard : card ∈ hand) : card ≤ maxCardOf hand := (le_foldl_max hand 0).2 card hcard

theorem DealtHand.perm (h : DealtHand hand) (hperm : hand'.Perm hand) : DealtHand hand' where
  length := hperm.length_eq.trans h.length
  card card hcard := h.card card (hperm.mem_iff.mp hcard)

/-- The largest card does not depend on the order of the cards. -/
theorem maxCardOf_perm (hperm : hand'.Perm hand) : maxCardOf hand' = maxCardOf hand := by
  refine hperm.foldl_eq' (fun first _ second _ maxCard ↦ ?_) 0
  simp only [gt_iff_lt, ← max_def_lt]
  exact max_right_comm maxCard first second

/-- Hands without a common card have different largest cards. -/
theorem DealtHand.maxCardOf_ne (h : DealtHand hand) (h' : DealtHand hand') (hdisjoint : hand.Disjoint hand') :
    maxCardOf hand ≠ maxCardOf hand' := by
  intro hsame
  exact hdisjoint h.maxCardOf_mem (hsame ▸ h'.maxCardOf_mem)

end Permutations

/-! ### The order -/

/-- The hands in the order of `compare_hand_card`: by the bull, then by the largest card. -/
def handKey (hand : List ℤ) : ℤ ×ₗ ℤ := toLex (niuOf hand, maxCardOf hand)

theorem handBeats_iff (first second : List ℤ) : handBeats first second = true ↔ handKey second < handKey first := by
  rw [handKey, handKey, Prod.Lex.toLex_lt_toLex, handBeats]
  dsimp only
  by_cases hniu : niuOf first = niuOf second
  · rw [if_neg (not_not.mpr hniu), decide_eq_true_iff]
    constructor
    · exact fun hmax ↦ .inr ⟨hniu.symm, hmax⟩
    · rintro (hlt | ⟨-, hmax⟩)
      · exact absurd hniu hlt.ne'
      · exact hmax
  · rw [if_pos hniu, decide_eq_true_iff]
    constructor
    · exact fun hlt ↦ .inl hlt
    · rintro (hlt | ⟨hsame, -⟩)
      · exact hlt
      · exact absurd hsame.symm hniu

/-- DealtHand hands without a common card do not tie. -/
theorem handKey_ne {first second : List ℤ} (hfirst : DealtHand first) (hsecond : DealtHand second)
    (hdisjoint : first.Disjoint second) : handKey first ≠ handKey second := by
  intro hsame
  exact hfirst.maxCardOf_ne hsecond hdisjoint (congrArg (fun key ↦ (ofLex key).2) hsame)

/-- The key of a hand does not depend on the order of its cards. -/
theorem handKey_perm {hand hand' : List ℤ} (h : DealtHand hand) (hperm : hand'.Perm hand) :
    handKey hand' = handKey hand := by
  rw [handKey, handKey, niuOf_perm h.length hperm, maxCardOf_perm hperm]

/-- What a comparison of dealt hands returns. -/
theorem compares_iff {first second : Player} (hfirst : DealtHand first.handCardLst)
    (hsecond : DealtHand second.handCardLst) (wins : Bool) :
    Compares first second wins ↔
      (wins = true ↔ handKey second.handCardLst < handKey first.handCardLst) := by
  rw [← handBeats_iff, ← Bool.eq_iff_iff, Compares]
  rw [compareHandCard_of_length hfirst.length hsecond.length]
  constructor
  · rintro ⟨first', second', hok⟩
    exact (Prod.mk.inj (Except.ok.inj hok)).1.symm
  · rintro rfl
    exact ⟨_, _, rfl⟩

/-- Of two different hands exactly one beats the other, whichever is passed first, the relation is transitive,
and the order of the cards in the hands does not matter. -/
theorem hands_strictly_ordered {ι : Type} {players : ι → Player}
    (hdealt : ∀ index, DealtHand (players index).handCardLst)
    (hdisjoint : ∀ index other, index ≠ other →
      (players index).handCardLst.Disjoint (players other).handCardLst) :
    (∀ index other, index ≠ other →
      ∃ wins, Compares (players index) (players other) wins ∧ Compares (players other) (players index) !wins ∧
        ¬ Compares (players index) (players other) !wins ∧ ¬ Compares (players other) (players index) wins) ∧
    (∀ index other another, Compares (players index) (players other) true →
      Compares (players other) (players another) true → Compares (players index) (players another) true) ∧
    ∀ index other, ∀ first second : Player, first.handCardLst.Perm (players index).handCardLst →
      second.handCardLst.Perm (players other).handCardLst →
      ∀ wins, Compares first second wins ↔ Compares (players index) (players other) wins := by
  refine ⟨fun index other hne ↦ ?_, fun index other another hbeats hbeats' ↦ ?_, ?_⟩
  · have hkey := handKey_ne (hdealt index) (hdealt other) (hdisjoint index other hne)
    refine ⟨decide (handKey (players other).handCardLst < handKey (players index).handCardLst), ?_⟩
    rw [compares_iff (hdealt _) (hdealt _), compares_iff (hdealt _) (hdealt _), compares_iff (hdealt _) (hdealt _),
      compares_iff (hdealt _) (hdealt _)]
    rcases hkey.lt_or_gt with hlt | hgt
    · simp [hlt, hlt.not_gt]
    · simp [hgt, hgt.not_gt]
  · rw [compares_iff (hdealt _) (hdealt _)] at hbeats hbeats' ⊢
    have hlt := hbeats.mp rfl
    have hlt' := hbeats'.mp rfl
    exact ⟨fun _ ↦ hlt'.trans hlt, fun _ ↦ rfl⟩
  · intro index other first second hfirst hsecond wins
    rw [compares_iff ((hdealt index).perm hfirst) ((hdealt other).perm hsecond),
      compares_iff (hdealt index) (hdealt other), handKey_perm (hdealt index) hfirst,
      handKey_perm (hdealt other) hsecond]

/-- A player with a hand. -/
def playerWith (hand : List ℤ) : Player :=
  ⟨1, "", 0, 0, false, hand, 0, 0, none, false, false, false⟩

/-- The three hands of a small game: no bull, and two bulls of ten. -/
def threeHands (index : Fin 3) : Player :=
  playerWith ([[1, 2, 3, 14, 15], [10, 11, 12, 13, 23], [24, 25, 26, 36, 37]].getD index.val [])

theorem hands_strictly_ordered_three :
    Compares (threeHands 1) (threeHands 2) false ∧ Compares (threeHands 2) (threeHands 1) true := by
  have hdealt : ∀ index, DealtHand (threeHands index).handCardLst := fun index ↦
    ⟨by decide +revert, by decide +revert⟩
  have hdisjoint : ∀ index other, index ≠ other →
      (threeHands index).handCardLst.Disjoint (threeHands other).handCardLst := by
    intro index other hne
    rw [List.disjoint_left]
    revert hne
    decide +revert
  obtain ⟨wins, hfirst, hsecond, -, -⟩ := (hands_strictly_ordered hdealt hdisjoint).1 1 2 (by decide)
  have hwins := (compares_iff (hdealt 1) (hdealt 2) wins).mp hfirst
  rw [← handBeats_iff, show handBeats (threeHands 1).handCardLst (threeHands 2).handCardLst = false by decide]
    at hwins
  obtain rfl : wins = false := Bool.eq_false_iff.mpr fun htrue ↦ Bool.false_ne_true (hwins.mp htrue)
  exact ⟨hfirst, hsecond⟩

end SvrDemo.Douniu
