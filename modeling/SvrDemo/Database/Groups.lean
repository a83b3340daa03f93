import SvrDemo.Base.Uuid
import SvrDemo.Base.BigNumber
import Mathlib.Data.Int.GCD
import Mathlib.Data.Nat.Prime.Basic
import Mathlib.Data.Int.CardIntervalMod
import Mathlib.Algebra.Ring.Parity
import Mathlib.Tactic.LinearCombination

/-!
# Groups of the database

`connection_handler` of `database.lua` takes a key to one of the groups of the configuration: by a sum of its letters
and digits when it is a string, and by a shift when it is a number, as the ids of accounts and characters are.

Every number has a group. But a shifted number is a multiple of 256, so that an even number of groups leaves every
other group without a key (`groups_reached_iff`).
-/

set_option autoImplicit false
set_option relaxedAutoImplicit false

namespace SvrDemo.Database

open Base Lua

/-! ### Groups -/

/-- A key: a string, an integer, or a value of another type. -/
inductive Key
  | string (text : Bytes)
  | number (num : LuaInt)
  | other

/-- The class `%w`: a letter or a digit. -/
def isAlphanumeric (character : UInt8) : Bool :=
  (0x30 ≤ character && character ≤ 0x39) || (0x41 ≤ character && character ≤ 0x5a) ||
    (0x61 ≤ character && character ≤ 0x7a)

/-- `hash_str`. -/
def hashStr (str : Bytes) : LuaInt :=
  (str.filter isAlphanumeric).foldl (fun hash character ↦ hash + BitVec.ofNat 64 character.toNat) 0

/-- `hash_num`. -/
def hashNum (num : LuaInt) : LuaInt := num <<< 8

/-- The index of the group. The assertion fails for a key that is no number, and a modulo by zero raises. -/
def groupIndex (ngroup : ℕ) (key : Key) : Option ℤ := do
  let hash ← match key with
    | .string text => some (hashStr text)
    | .number num => some (hashNum num)
    | .other => none
  if ngroup = 0 then none else some (hash.toInt.fmod ngroup + 1)

/-- `connection_handler`. The table of the groups begins with index one. -/
def connectionHandler {Connection : Type} (group : List Connection) (key : Key) : Option Connection :=
  (groupIndex group.length key).bind fun index ↦ group[(index - 1).toNat]?

/-! ### Hashes of numbers -/

variable {ngroup : ℕ}

theorem groupIndex_number (hngroup : 0 < ngroup) (num : LuaInt) :
    groupIndex ngroup (.number num) = some ((hashNum num).toInt % ngroup + 1) := by
  rw [groupIndex, Option.bind_eq_bind, Option.bind_some]
  dsimp only
  rw [if_neg hngroup.ne', Int.fmod_eq_emod_of_nonneg _ (by omega)]

/-- A hash is a multiple of 256, of which there are `2 ^ 56`. -/
theorem exists_toInt_hashNum (num : LuaInt) :
    ∃ multiple : ℤ, -2 ^ 55 ≤ multiple ∧ multiple < 2 ^ 55 ∧ (hashNum num).toInt = 256 * multiple := by
  have hshift : (hashNum num).toNat = num.toNat * 256 % 2 ^ 64 := by
    rw [hashNum, BitVec.toNat_shiftLeft, Nat.shiftLeft_eq]
  have hrange := BitVec.toInt_eq_toNat_cond (hashNum num)
  rw [hshift] at hrange
  refine ⟨(hashNum num).toInt / 256, ?_, ?_, ?_⟩ <;> split at hrange <;> omega

/-- Every multiple of 256 that fits is a hash. -/
theorem toInt_hashNum_ofInt {multiple : ℤ} (hlow : -2 ^ 55 ≤ multiple) (hhigh : multiple < 2 ^ 55) :
    (hashNum (BitVec.ofInt 64 multiple)).toInt = 256 * multiple := by
  have hshift : (hashNum (BitVec.ofInt 64 multiple)).toNat = (BitVec.ofInt 64 multiple).toNat * 256 % 2 ^ 64 := by
    rw [hashNum, BitVec.toNat_shiftLeft, Nat.shiftLeft_eq]
  have hnum : ((BitVec.ofInt 64 multiple).toNat : ℤ) = multiple % 2 ^ 64 := by
    rw [BitVec.toNat_ofInt, Int.toNat_of_nonneg (Int.emod_nonneg _ (by decide))]
    rfl
  have hrange := BitVec.toInt_eq_toNat_cond (hashNum (BitVec.ofInt 64 multiple))
  rw [hshift] at hrange
  split at hrange <;> omega

/-! ### Multiples of 256 -/

/-- Modulo an odd number every integer is a multiple of a power of two, of one in a range of that length. -/
theorem exists_multiple_emod {unit : ℕ} (hcoprime : Nat.Coprime unit ngroup) (hngroup : 0 < ngroup) (first rest : ℤ) :
    ∃ multiple, first ≤ multiple ∧ multiple < first + ngroup ∧ (unit * multiple - rest) % ngroup = 0 := by
  have hinverse : (unit : ℤ) * unit.gcdA ngroup = 1 - ngroup * unit.gcdB ngroup := by
    have hbezout := Nat.gcd_eq_gcd_ab unit ngroup
    rw [hcoprime.gcd_eq_one] at hbezout
    push_cast at hbezout
    linarith
  refine ⟨first + (unit.gcdA ngroup * rest - first) % ngroup, ?_, ?_, ?_⟩
  · have := Int.emod_nonneg (unit.gcdA ngroup * rest - first) (by omega : (ngroup : ℤ) ≠ 0)
    omega
  · have := Int.emod_lt_of_pos (unit.gcdA ngroup * rest - first) (by omega : (0 : ℤ) < ngroup)
    omega
  · have hsplit := Int.emod_add_mul_ediv (unit.gcdA ngroup * rest - first) ngroup
    refine Int.emod_eq_zero_of_dvd ⟨-(unit.gcdB ngroup * rest) -
      unit * ((unit.gcdA ngroup * rest - first) / ngroup), ?_⟩
    linear_combination unit * hsplit + rest * hinverse

/-! ### Groups that have keys -/

/-- A rest that a multiple of 256 can have. -/
theorem reached_of_multiple (hngroup : 0 < ngroup) {index multiple : ℤ} (hlow : -2 ^ 55 ≤ multiple)
    (hhigh : multiple < 2 ^ 55) (hfirst : 1 ≤ index) (hlast : index ≤ ngroup)
    (hrest : (256 * multiple - (index - 1)) % ngroup = 0) :
    groupIndex ngroup (.number (BitVec.ofInt 64 multiple)) = some index := by
  have hmod : 256 * multiple % ngroup = index - 1 := by
    rw [Int.emod_eq_emod_iff_emod_sub_eq_zero.mpr hrest]
    exact Int.emod_eq_of_lt (by omega) (by omega)
  rw [groupIndex_number hngroup, toInt_hashNum_ofInt hlow hhigh, hmod, sub_add_cancel]

/-- With an odd number of groups, of which there are no more than hashes, every group has a key. -/
theorem exists_key_of_odd (hodd : Odd ngroup) (hle : ngroup ≤ 2 ^ 56) {index : ℤ} (hfirst : 1 ≤ index)
    (hlast : index ≤ ngroup) : ∃ num, groupIndex ngroup (.number num) = some index := by
  have hcoprime : Nat.Coprime 256 ngroup := (Nat.coprime_two_left.mpr hodd).pow_left 8
  obtain ⟨multiple, hlow, hhigh, hrest⟩ := exists_multiple_emod hcoprime hodd.pos (-2 ^ 55) (index - 1)
  exact ⟨_, reached_of_multiple hodd.pos hlow (by omega) hfirst hlast (by exact_mod_cast hrest)⟩

/-- An even number of groups has a second group, and no multiple of 256 gets there. -/
theorem odd_of_exists_key (hngroup : 0 < ngroup)
    (hreached : ∀ index : ℤ, 1 ≤ index → index ≤ ngroup → ∃ num, groupIndex ngroup (.number num) = some index) :
    Odd ngroup := by
  rw [← Nat.not_even_iff_odd]
  rintro ⟨half, rfl⟩
  obtain ⟨num, hnum⟩ := hreached 2 (by omega) (by omega)
  rw [groupIndex_number hngroup] at hnum
  obtain ⟨multiple, -, -, hhash⟩ := exists_toInt_hashNum num
  have hrest := Option.some.inj hnum
  rw [hhash] at hrest
  have hsplit := Int.emod_add_mul_ediv (256 * multiple) ((half + half : ℕ) : ℤ)
  have heven : ((half + half : ℕ) : ℤ) * (256 * multiple / ((half + half : ℕ) : ℤ)) =
      2 * (half * (256 * multiple / ((half + half : ℕ) : ℤ))) := by
    push_cast
    ring
  omega

/-- There are no more groups with a key than hashes. -/
theorem le_of_exists_key (hngroup : 0 < ngroup)
    (hreached : ∀ index : ℤ, 1 ≤ index → index ≤ ngroup → ∃ num, groupIndex ngroup (.number num) = some index) :
    ngroup ≤ 2 ^ 56 := by
  have hsubset : Finset.Icc (1 : ℤ) ngroup ⊆
      (Finset.Ico (-2 ^ 55 : ℤ) (2 ^ 55)).image fun multiple ↦ 256 * multiple % ngroup + 1 := by
    intro index hindex
    obtain ⟨hfirst, hlast⟩ := Finset.mem_Icc.mp hindex
    obtain ⟨num, hnum⟩ := hreached index hfirst hlast
    rw [groupIndex_number hngroup] at hnum
    obtain ⟨multiple, hlow, hhigh, hhash⟩ := exists_toInt_hashNum num
    rw [hhash] at hnum
    exact Finset.mem_image.mpr ⟨multiple, Finset.mem_Ico.mpr ⟨hlow, hhigh⟩, Option.some.inj hnum⟩
  have hcard := (Finset.card_le_card hsubset).trans Finset.card_image_le
  rw [Int.card_Icc, Int.card_Ico] at hcard
  omega

/-! ### Groups that have ids -/

/-- With an odd number of groups that is not large, every group has an id that a given service draws at some time. -/
theorem exists_id_of_odd (hodd : Odd ngroup) (hle : ngroup ≤ 2 ^ 24) {harbor sid : LuaInt} (hharbor : harbor.toNat < 64)
    (hsid : ∃ static, (lsid static).1 = some sid) {index : ℤ} (hfirst : 1 ≤ index) (hlast : index ≤ ngroup) :
    ∃ id time, Drawn harbor id time sid 1 ∧ groupIndex ngroup (.number id) = some index := by
  obtain ⟨static, hstatic⟩ := hsid
  have hrange := lsid_some hstatic
  have hsid : sid.toNat < 2 ^ 16 := by omega
  have hwide := harbor_lt hharbor hsid
  have hcoprime : Nat.Coprime (2 ^ 39) ngroup := (Nat.coprime_two_left.mpr hodd).pow_left 39
  -- the part of the id that the service has fixed, and the second that gives the rest
  obtain ⟨service, hservice⟩ : ∃ service : ℕ, service = 2 ^ 25 * (harbor.toNat ||| sid.toNat / 2 ^ 15) +
    2 ^ 10 * (sid.toNat % 2 ^ 15) + 1 := ⟨_, rfl⟩
  obtain ⟨second, hlow, hhigh, hrest⟩ :=
    exists_multiple_emod hcoprime hodd.pos 0 (index - 1 - 256 * service)
  obtain ⟨time, rfl⟩ := Int.eq_ofNat_of_zero_le hlow
  have htime : (BitVec.ofNat 64 time).toNat = time := by
    rw [BitVec.toNat_ofNat, Nat.mod_eq_of_lt (by omega)]
  have hnow : (BitVec.ofNat 64 time).toNat < 2 ^ 33 := by omega
  have hid := toNat_id hharbor hsid hnow (by decide : 1 < 1024)
  refine ⟨_, _, Drawn.first harbor hstatic hnow, ?_⟩
  have hmultiple : (BitVec.ofNat 64 time <<< 31 ||| serviceBits harbor sid ||| BitVec.ofNat 64 1 : LuaInt) =
      BitVec.ofInt 64 (2 ^ 31 * time + service) := by
    apply BitVec.eq_of_toNat_eq
    rw [hid, htime, BitVec.toNat_ofInt, Int.emod_eq_of_lt (by omega) (by omega)]
    omega
  rw [hmultiple]
  refine reached_of_multiple hodd.pos (by omega) (by omega) hfirst hlast ?_
  rw [← hrest]
  congr 1
  push_cast
  ring

/-! ### Every group -/

/-- Every integer is a key of a group, whatever the number of groups is. And every group has an integer for a key
exactly when the number of groups is odd, and not greater than that of hashes; then, up to `2 ^ 24` groups, the ids
that any one service draws from one second to the next are enough. -/
theorem groups_reached_iff {Connection : Type} (group : List Connection) (hgroup : 0 < group.length) :
    (∀ num : LuaInt, ∃ (index : ℤ) (connection : Connection), groupIndex group.length (.number num) = some index ∧
        1 ≤ index ∧ index ≤ group.length ∧ connectionHandler group (.number num) = some connection) ∧
      ((∀ index : ℤ, 1 ≤ index → index ≤ group.length →
          ∃ num, groupIndex group.length (.number num) = some index) ↔
        Odd group.length ∧ group.length ≤ 2 ^ 56) ∧
      (Odd group.length → group.length ≤ 2 ^ 24 → ∀ harbor sid : LuaInt, harbor.toNat < 64 →
        (∃ static, (lsid static).1 = some sid) → ∀ index : ℤ, 1 ≤ index → index ≤ group.length →
          ∃ id time, Drawn harbor id time sid 1 ∧ groupIndex group.length (.number id) = some index) := by
  refine ⟨fun num ↦ ?_, ⟨fun hreached ↦ ⟨odd_of_exists_key hgroup hreached, le_of_exists_key hgroup hreached⟩,
    fun h index hfirst hlast ↦ exists_key_of_odd h.1 h.2 hfirst hlast⟩,
    fun hodd hle harbor sid hharbor hsid index hfirst hlast ↦
      exists_id_of_odd hodd hle hharbor hsid hfirst hlast⟩
  have hindex := groupIndex_number hgroup num
  have hnonneg := Int.emod_nonneg (hashNum num).toInt (by omega : (group.length : ℤ) ≠ 0)
  have hlt := Int.emod_lt_of_pos (hashNum num).toInt (by omega : (0 : ℤ) < group.length)
  refine ⟨_, group.get ⟨((hashNum num).toInt % group.length).toNat, by omega⟩, hindex, by omega, by omega, ?_⟩
  rw [connectionHandler, hindex, Option.bind_some, add_sub_cancel_right]
  exact List.getElem?_eq_getElem _

/-- The three groups of a configuration. -/
theorem groups_reached_three : ∃ num : LuaInt, groupIndex 3 (.number num) = some 2 :=
  (groups_reached_iff ["first", "second", "third"] (by decide)).2.1.mpr (by decide) 2 (by decide) (by decide)

/-- No number is a key of the second one of two groups. -/
theorem second_group_unused : ¬ ∃ num : LuaInt, groupIndex 2 (.number num) = some 2 := by
  rintro ⟨num, hnum⟩
  rw [groupIndex_number two_pos] at hnum
  obtain ⟨multiple, -, -, hhash⟩ := exists_toInt_hashNum num
  have hrest := Option.some.inj hnum
  omega

end SvrDemo.Database
