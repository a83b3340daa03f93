import Mathlib.Data.Nat.Digits.Lemmas
import Mathlib.Data.UInt
import Mathlib.Tactic.Common

/-!
# Numbers as bytes

The big-endian bytes of a number, without a leading zero, and the number of a byte string. A number comes back
from its bytes (`binToBn_bnToBin`); a byte string comes back only without its leading zeros, and the zero is
the empty string.
-/

set_option autoImplicit false
set_option relaxedAutoImplicit false

namespace SvrDemo.Base

/-- A Lua string. -/
abbrev Bytes : Type := List UInt8

/-- `BN_bin2bn`. -/
def binToBn (bytes : Bytes) : ℕ :=
  Nat.ofDigits 256 (bytes.reverse.map UInt8.toNat)

/-- `BN_bn2bin`. -/
def bnToBin (bn : ℕ) : Bytes :=
  ((Nat.digits 256 bn).map UInt8.ofNat).reverse

theorem binToBn_bnToBin (bn : ℕ) : binToBn (bnToBin bn) = bn := by
  have hbytes : ((Nat.digits 256 bn).map UInt8.ofNat).map UInt8.toNat = Nat.digits 256 bn := by
    rw [List.map_map]
    refine (List.map_congr_left fun digit hdigit ↦ ?_).trans (List.map_id _)
    exact UInt8.toNat_ofNat_of_lt (Nat.digits_lt_base (by decide) hdigit)
  rw [binToBn, bnToBin, List.reverse_reverse, hbytes, Nat.ofDigits_digits]

theorem binToBn_lt (bytes : Bytes) : binToBn bytes < 256 ^ bytes.length := by
  have hdigits : ∀ digit ∈ bytes.reverse.map UInt8.toNat, digit < 256 := fun digit hdigit ↦ by
    obtain ⟨byte, _, rfl⟩ := List.mem_map.mp hdigit
    exact byte.toNat_lt
  have hlt := Nat.ofDigits_lt_base_pow_length (by decide) hdigits
  rwa [List.length_map, List.length_reverse] at hlt

/-- A number has no more bytes than it needs. -/
theorem length_bnToBin_le {bn length : ℕ} (hlt : bn < 256 ^ length) : (bnToBin bn).length ≤ length := by
  rw [bnToBin, List.length_reverse, List.length_map]
  exact (Nat.digits_length_le_iff (by decide) bn).mpr hlt

theorem bnToBin_eq_nil {bn : ℕ} : bnToBin bn = [] ↔ bn = 0 := by
  rw [bnToBin, List.reverse_eq_nil_iff, List.map_eq_nil_iff, Nat.digits_eq_nil_iff_eq_zero]

end SvrDemo.Base
