import SvrDemo.Combat.Character
import Mathlib.Data.Rat.Floor

/-!
# Health and damage

`init` puts the health of a character into its range, and `combat_melee_damage` keeps it there: what would take the
last of it gives all of it back. Between the two the health may be saved and loaded, which needs nothing but that a
stored health is positive (`health_kept`).

The greatest `health_max` of the tables is below the first damage that doubles cannot count, so that the health that
is lost is what the damage says.
-/

set_option autoImplicit false
set_option relaxedAutoImplicit false

namespace SvrDemo.Combat

open Base Protocol

/-! ### Damage -/

/-- As far as a health goes, three quarters of a damage are exact. -/
theorem min_threeQuarters (damage health : ℕ) (hhealth : health ≤ 2 ^ 32) :
    min (Character.threeQuarters damage) health = min (3 * damage / 4) health := by
  unfold Character.threeQuarters
  rcases Nat.lt_or_ge damage (2 ^ 51) with hsmall | hlarge
  · rw [toDouble_of_lt (by omega : damage < 2 ^ 53), toDouble_of_lt (by omega)]
  · have hdamage := le_two_mul_toDouble damage
    have hproduct := le_two_mul_toDouble (3 * toDouble damage)
    rw [min_eq_right (by omega), min_eq_right (by omega)]

/-! ### The derived attributes -/

theorem mem_of_lookup {table : List ((String × ℤ) × ℤ)} {key : String × ℤ} {value : ℤ}
    (hlookup : table.lookup key = some value) : (key, value) ∈ table := by
  obtain ⟨before, after, hsplit, -⟩ := List.lookup_eq_some_iff.mp hlookup
  rw [hsplit]
  exact List.mem_append_right _ List.mem_cons_self

theorem healthMax_range : ∀ entry ∈ healthMax, 0 < entry.2 ∧ entry.2 ≤ 500 := by decide

theorem stamina_range : ∀ entry ∈ stamina, 0 < entry.2 ∧ entry.2 ≤ 29 := by decide

/-- With the entries of the tables the derived `health_max` is positive, and not large. -/
theorem final_range {class' race : String} {level health_max stamina' : ℤ} (strength' : ℤ)
    (hhealth : healthMax.lookup (class', level) = some health_max)
    (hstamina : stamina.lookup (race, level) = some stamina') :
    0 < (Derived.final ⟨health_max, strength', stamina', 0⟩).healthMax ∧
      (Derived.final ⟨health_max, strength', stamina', 0⟩).healthMax ≤ 610 := by
  have hmax := healthMax_range _ (mem_of_lookup hhealth)
  have hamount := stamina_range _ (mem_of_lookup hstamina)
  unfold Derived.final
  dsimp only at hmax hamount ⊢
  split_ifs <;> omega

/-! ### Characters -/

/-- A health that is stored is positive. -/
def Stored.Positive (self : Stored) : Prop := ∀ health, self.health = some health → 0 < health

/-- A character that has been initialised has its health in its range. -/
structure Character.Ranged (state : Character) : Prop where
  index : state.attribute'.index = state.runtime
  positive : state.attribute'.stored.Positive
  ranged : ∀ final, state.runtime = some final → 0 < final.healthMax ∧ final.healthMax ≤ 610 ∧
    ∃ health, state.attribute'.stored.health = some health ∧ health ≤ final.healthMax

variable {self after : Character}

theorem Attribute.get_health (self : Attribute) : self.get .health = self.stored.health := by
  unfold Attribute.get
  cases hhealth : self.stored.health with
  | none => cases hindex : self.index <;> simp [Stored.raw, Derived.raw, hhealth]
  | some health => simp [Stored.raw, hhealth]

theorem Attribute.get_healthMax (self : Attribute) : self.get .healthMax = self.index.map Derived.healthMax := by
  cases hindex : self.index <;> simp [Attribute.get, Stored.raw, Derived.raw, hindex]

theorem ranged_unpack {stored : StoredCharacter} (hpositive : stored.attribute'.Positive) :
    stored.unpack.Ranged := ⟨rfl, hpositive, nofun⟩

/-- What is left after `init`: the health that was stored when it is in the range, and the greatest one otherwise. -/
theorem Character.init_ranged (hpositive : self.attribute'.stored.Positive) (hinit : self.init = some after) :
    after.Ranged := by
  have hlevel : self.attribute'.get .level = some self.attribute'.stored.level := rfl
  simp only [init, hlevel, Option.bind_eq_bind, Option.bind_some, Option.bind_eq_some_iff] at hinit
  obtain ⟨health_max, hhealth, strength', -, stamina', hstamina, top, htop, hafter⟩ := hinit
  obtain ⟨hpos, hle⟩ := final_range strength' hhealth hstamina
  have htop' : top = (Derived.final ⟨health_max, strength', stamina', 0⟩).healthMax := by
    rw [Attribute.get_healthMax] at htop
    exact (Option.some.inj htop).symm
  obtain rfl := Option.some.inj hafter
  rw [Attribute.get_health]
  dsimp only
  cases hstored : self.attribute'.stored.health with
  | none =>
    refine ⟨rfl, fun health hsome ↦ ?_, fun final hfinal ↦ ?_⟩
    · obtain rfl := Option.some.inj hsome
      exact htop' ▸ hpos
    · obtain rfl := Option.some.inj hfinal
      exact ⟨hpos, hle, top, rfl, htop'.le⟩
  | some health =>
    dsimp only
    split
    · refine ⟨rfl, fun health hsome ↦ ?_, fun final hfinal ↦ ?_⟩
      · obtain rfl := Option.some.inj hsome
        exact htop' ▸ hpos
      · obtain rfl := Option.some.inj hfinal
        exact ⟨hpos, hle, top, rfl, htop'.le⟩
    · next hsmall =>
      refine ⟨rfl, hpositive, fun final hfinal ↦ ?_⟩
      obtain rfl := Option.some.inj hfinal
      exact ⟨hpos, hle, health, hstored, htop' ▸ not_lt.mp hsmall⟩

/-- What a hit does to a character with some health. -/
theorem Character.combatMeleeDamage_eq {health : ℤ} (hhealth : self.attribute'.stored.health = some health)
    (attacker : ℤ) (damage : ℕ) : self.combatMeleeDamage attacker damage =
      some (min (threeQuarters damage : ℤ) health,
        { self with
          attribute' := self.attribute'.setHealth
            (if 0 < health - threeQuarters damage then some (health - threeQuarters damage)
              else self.attribute'.index.map Derived.healthMax) }) := by
  rw [combatMeleeDamage, Attribute.get_health, hhealth, Option.bind_eq_bind, Option.bind_some,
    Attribute.get_healthMax]
  dsimp only
  by_cases hleft : 0 < health - threeQuarters damage
  · rw [if_neg (by omega), if_pos hleft, min_eq_left (by omega)]
    rfl
  · rw [if_pos (by omega), if_neg hleft, min_eq_right (by omega), add_sub_cancel]
    rfl

theorem Character.combatMeleeDamage_ranged (hranged : self.Ranged) {attacker returned : ℤ} {damage : ℕ}
    (hdamage : self.combatMeleeDamage attacker damage = some (returned, after)) : after.Ranged := by
  cases hhealth : self.attribute'.stored.health with
  | none =>
    rw [combatMeleeDamage, Attribute.get_health, hhealth] at hdamage
    exact nomatch hdamage
  | some health =>
    rw [combatMeleeDamage_eq hhealth] at hdamage
    obtain ⟨-, rfl⟩ := Prod.mk.inj (Option.some.inj hdamage)
    have hpos := hranged.positive health hhealth
    by_cases hleft : 0 < health - threeQuarters damage
    · rw [if_pos hleft]
      refine ⟨hranged.index, fun left hsome ↦ ?_, fun final hfinal ↦ ?_⟩
      · obtain rfl := Option.some.inj hsome
        exact hleft
      · obtain ⟨htop, hle, other, hother, hbelow⟩ := hranged.ranged final hfinal
        obtain rfl := Option.some.inj (hother.symm.trans hhealth)
        exact ⟨htop, hle, other - threeQuarters damage, rfl, by omega⟩
    · rw [if_neg hleft]
      refine ⟨hranged.index, fun left hsome ↦ ?_, fun final hfinal ↦ ?_⟩
      · have hindex : self.attribute'.index.map Derived.healthMax = some left := hsome
        obtain ⟨final, hfinal, rfl⟩ := Option.map_eq_some_iff.mp hindex
        exact (hranged.ranged final (hranged.index ▸ hfinal)).1
      · obtain ⟨htop, hle, -⟩ := hranged.ranged final hfinal
        refine ⟨htop, hle, final.healthMax, ?_, le_rfl⟩
        have hindex : self.attribute'.index = some final := hranged.index.trans hfinal
        exact congrArg (Option.map Derived.healthMax) hindex

/-! ### Runs -/

/-- The health in the database is positive, and the character of the agent has its own in range. -/
structure Player.Healthy (state : Player) : Prop where
  stored : state.stored.attribute'.Positive
  ranged : ∀ character, state.character = some character → character.Ranged

theorem Player.Healthy.step {state next : Player} {event : PlayerEvent} (hhealthy : state.Healthy)
    (hstep : player.step state event = some next) : next.Healthy := by
  cases event with
  | load =>
    obtain rfl := Option.some.inj hstep
    refine ⟨hhealthy.stored, fun character hcharacter ↦ ?_⟩
    obtain rfl := Option.some.inj hcharacter
    exact ranged_unpack hhealthy.stored
  | init =>
    simp only [player] at hstep
    split at hstep
    · exact Option.some.inj hstep ▸ hhealthy
    · next character hinit =>
      obtain ⟨before, hbefore, hinit⟩ := Option.bind_eq_some_iff.mp hinit
      obtain rfl := Option.some.inj hstep
      refine ⟨hhealthy.stored, fun other hother ↦ ?_⟩
      obtain rfl := Option.some.inj hother
      exact Character.init_ranged (hhealthy.ranged before hbefore).positive hinit
  | combatMeleeDamage attacker damage =>
    simp only [player] at hstep
    split at hstep
    · exact Option.some.inj hstep ▸ hhealthy
    · next returned character hdamage =>
      obtain ⟨before, hbefore, hdamage⟩ := Option.bind_eq_some_iff.mp hdamage
      obtain rfl := Option.some.inj hstep
      refine ⟨hhealthy.stored, fun other hother ↦ ?_⟩
      obtain rfl := Option.some.inj hother
      exact Character.combatMeleeDamage_ranged (hhealthy.ranged before hbefore) hdamage
  | save =>
    simp only [player] at hstep
    split at hstep
    · exact Option.some.inj hstep ▸ hhealthy
    · next character hcharacter =>
      obtain rfl := Option.some.inj hstep
      exact ⟨(hhealthy.ranged character hcharacter).positive, hhealthy.ranged⟩

/-- The health of a character, along every run of loads, of initialisations, of hits and of saves from a character
that is stored without a health or with a positive one. A character that has been initialised has a health from 1 to
`health_max`. A hit returns three quarters of its damage or the health, whichever is less, and leaves the rest of the
health when there is a rest, and `health_max` otherwise. -/
theorem health_kept {stored : StoredCharacter} (hstored : stored.attribute'.Positive) {last : Player}
    (hrun : player.Run (fun _ _ ↦ True) ⟨stored, none⟩ last) {character : Character}
    (hcharacter : last.character = some character) (hinit : character.runtime.isSome) :
    ∃ health top, character.attribute'.get .health = some health ∧ character.attribute'.get .healthMax = some top ∧
      1 ≤ health ∧ health ≤ top ∧ ∀ (attacker : ℤ) (damage : ℕ), ∃ returned after,
        character.combatMeleeDamage attacker damage = some (returned, after) ∧
        returned = min (⌊(3 * damage / 4 : ℚ)⌋) health ∧
        after.attribute'.get .health = some (if 0 < health - returned then health - returned else top) ∧
        after.attribute'.get .healthMax = some top := by
  have hstart : Player.Healthy ⟨stored, none⟩ := ⟨hstored, nofun⟩
  have hhealthy : last.Healthy := hrun.invariant (fun _ _ _ _ hinv hstep ↦ hinv.step hstep) hstart
  have hranged := hhealthy.ranged character hcharacter
  obtain ⟨final, hfinal⟩ := Option.isSome_iff_exists.mp hinit
  obtain ⟨-, hle, health, hhealth, hbelow⟩ := hranged.ranged final hfinal
  have hpos := hranged.positive health hhealth
  have htop : character.attribute'.index.map Derived.healthMax = some final.healthMax := by
    rw [hranged.index, hfinal, Option.map_some]
  refine ⟨health, final.healthMax, ?_, ?_, hpos, hbelow, fun attacker damage ↦
    ⟨_, _, Character.combatMeleeDamage_eq hhealth attacker damage, ?_, ?_, ?_⟩⟩
  · rw [Attribute.get_health, hhealth]
  · rw [Attribute.get_healthMax, htop]
  · have hmin := min_threeQuarters damage health.toNat (by omega)
    have hfloor : ⌊(3 * damage / 4 : ℚ)⌋ = ((3 * damage / 4 : ℕ) : ℤ) := by
      have := Rat.floor_intCast_div_natCast (3 * damage) 4
      push_cast at this ⊢
      exact this
    rw [hfloor]
    omega
  · rw [Attribute.get_health, htop]
    by_cases hleft : 0 < health - Character.threeQuarters damage
    · rw [if_pos hleft, min_eq_left (by omega), if_pos hleft]
      rfl
    · rw [if_neg hleft, min_eq_right (by omega), if_neg (by omega)]
      rfl
  · rw [Attribute.get_healthMax]
    exact htop

/-- A mage whose stored health is too large, after a hit of 40 and another login, is killed by a hit of 1000. -/
theorem health_kept_mage : ∃ last character after,
    player.Run (fun _ _ ↦ True) ⟨⟨"mage", "human", ⟨some 1000, 1, 0⟩⟩, none⟩ last ∧ last.character = some character ∧
      character.combatMeleeDamage 7 1000 = some (80, after) ∧ after.attribute'.get .health = some 110 := by
  have hplay : (player.playMeeting (fun _ _ ↦ True) ⟨⟨"mage", "human", ⟨some 1000, 1, 0⟩⟩, none⟩
      [.load, .init, .combatMeleeDamage 7 40, .save, .load, .init]).map Player.character =
        some (some ⟨"mage", "human", ⟨⟨some 80, 1, 0⟩, some ⟨110, 22, 21, 22⟩⟩, some ⟨110, 22, 21, 22⟩⟩) := by
    decide +kernel
  obtain ⟨last, hrun, hcharacter⟩ := Machine.exists_run_of_playMeeting _ _ _ _ _ hplay
  have hpositive : Stored.Positive ⟨some 1000, 1, 0⟩ := fun health hhealth ↦ by
    obtain rfl := Option.some.inj hhealth
    decide
  obtain ⟨health, top, hhealth, htop, -, -, hhit⟩ := health_kept hpositive hrun hcharacter rfl
  obtain rfl : 80 = health := Option.some.inj hhealth
  obtain rfl : 110 = top := Option.some.inj htop
  obtain ⟨returned, after, hdamage, hreturned, hafter, -⟩ := hhit 7 1000
  have hall : returned = 80 := by
    rw [hreturned]
    norm_num
  subst hall
  exact ⟨last, _, after, hrun, hcharacter, hdamage, hafter⟩

end SvrDemo.Combat
