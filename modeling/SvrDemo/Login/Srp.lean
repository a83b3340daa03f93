import SvrDemo.Base.BigNumber
import Mathlib.Data.ZMod.Basic
import Mathlib.Data.Nat.Prime.Basic
import Mathlib.Tactic.NormNum.Prime
import Mathlib.Tactic.Ring

/-!
# The key agreement of a login

`lua-srp.c`, over the functions of OpenSSL that it calls. `Srp` has the group and the hashes, and the values
of `SRP_Calc_*` are the documented formulas modulo `N`; `SRP_Calc_u` gives no number for a public value that is not
below `N`, and `push_bn` crashes then. A secret is 32 random bytes, and `create_client_key`
and `create_server_session_key` draw again while the public value of a secret is a multiple of `N`: they take
the draws as a list, and return nothing when the list ends before.

Every number crosses the border to Lua as a byte string. The client and the server come to the same key
(`session_keys_agree`). What the client sends is not checked, and `session_key_forced_iff` says which public
value of a client forces the key that everybody knows.
-/

set_option autoImplicit false
set_option relaxedAutoImplicit false

namespace SvrDemo.Login

open Base

/-! ### What OpenSSL computes -/

/-- The group of `SRP_get_default_gN ("1024")`, the multiplier, and the hashes. -/
structure Srp where
  N : ℕ
  g : ℕ
  k : ℕ
  u : ℕ → ℕ → ℕ
  x : ℕ → Bytes → Bytes → ℕ
  bits : N < 2 ^ 1024
  one_lt : 1 < N

/-- What a C function reads of a Lua string. -/
def cString (bytes : Bytes) : Bytes := bytes.takeWhile (· ≠ 0)

namespace Srp

variable (srp : Srp)

/-- The verifier of `SRP_create_verifier_BN`. -/
def calcVerifier (I p : Bytes) (s : ℕ) : ℕ := srp.g ^ srp.x s I p % srp.N

/-- `SRP_Calc_A`. -/
def calcA (a : ℕ) : ℕ := srp.g ^ a % srp.N

/-- `SRP_Calc_B`. -/
def calcB (b v : ℕ) : ℕ := (srp.k * v + srp.g ^ b) % srp.N

/-- `SRP_Calc_u`, which takes public values below `N` only. -/
def calcU (A B : ℕ) : Option ℕ := if A < srp.N ∧ B < srp.N then some (srp.u A B) else none

/-- `SRP_Calc_server_key`. -/
def calcServerKey (A v u b : ℕ) : ℕ := (A * v ^ u) ^ b % srp.N

/-- `SRP_Calc_client_key`. -/
def calcClientKey (B x a u : ℕ) : ℕ :=
  (((B : ℤ) - srp.k * srp.g ^ x) ^ (a + u * x) % srp.N).toNat

/-- `SRP_Verify_A_mod_N`, and `SRP_Verify_B_mod_N`. -/
def verifyModN (bn : ℕ) : Bool := bn % srp.N ≠ 0

end Srp

/-! ### The library -/

/-- `KEY_SIZE` random bytes. -/
abbrev Key : Type := Vector UInt8 32

/-- The number of `random_key`. -/
def randomKey (draw : Key) : ℕ := binToBn draw.toList

/-- `push_bn`, with its assertion. -/
def pushBn (bn : ℕ) : Option Bytes :=
  if (bnToBin bn).length < 1024 then some (bnToBin bn) else none

/-- `lua_tobn`. -/
def luaToBn (s : Bytes) : ℕ := binToBn s

namespace Srp

variable (srp : Srp)

/-- The loops of `lcreate_client_key` and `lcreate_server_session_key`: a random key, with its public value,
that the check takes. -/
def randomPair (publicOf : ℕ → ℕ) : List Key → Option (ℕ × ℕ)
  | [] => none
  | draw :: draws =>
    if srp.verifyModN (publicOf (randomKey draw)) then some (randomKey draw, publicOf (randomKey draw))
    else randomPair publicOf draws

/-- `srp.create_verifier`, with the salt that it draws. -/
def createVerifier (I p : Bytes) (salt : Vector UInt8 20) : Option (Bytes × Bytes) := do
  let s := binToBn salt.toList
  let v := srp.calcVerifier (cString I) (cString p) s
  return (← pushBn s, ← pushBn v)

/-- `srp.create_client_key`. -/
def createClientKey (draws : List Key) : Option (Bytes × Bytes) := do
  let (a, A) ← srp.randomPair srp.calcA draws
  return (← pushBn a, ← pushBn A)

/-- `srp.create_server_session_key`. -/
def createServerSessionKey (v A : Bytes) (draws : List Key) : Option (Bytes × Bytes × Bytes) := do
  let (b, B) ← srp.randomPair (fun b ↦ srp.calcB b (luaToBn v)) draws
  let u ← srp.calcU (luaToBn A) B
  let K := srp.calcServerKey (luaToBn A) (luaToBn v) u b
  return (← pushBn K, ← pushBn b, ← pushBn B)

/-- `srp.create_client_session_key`. -/
def createClientSessionKey (I p s a A B : Bytes) : Option Bytes := do
  let u ← srp.calcU (luaToBn A) (luaToBn B)
  let x := srp.x (luaToBn s) (cString I) (cString p)
  let K := srp.calcClientKey (luaToBn B) x (luaToBn a) u
  return (← pushBn K)

end Srp

/-- The session key and the public value of the server that a handshake of `CMD.auth` leads to, for the
verifier that the account database has loaded. It raises without a name or without `client_pub`. -/
def handshake (srp : Srp) (load : Bytes → Option Bytes) (name clientPub : Option Bytes) (draws : List Key) :
    Option (Bytes × Bytes) := do
  let name ← name
  let clientPub ← clientPub
  let verifier ← load name
  let (sessionKey, _, pkey) ← srp.createServerSessionKey verifier clientPub draws
  return (sessionKey, pkey)

/-! ### The border to Lua -/

theorem randomKey_lt (draw : Key) : randomKey draw < 256 ^ 32 := by
  have hlt := binToBn_lt draw.toList
  rwa [Vector.length_toList] at hlt

theorem pushBn_of_lt {bn : ℕ} (hlt : bn < 256 ^ 128) : pushBn bn = some (bnToBin bn) :=
  if_pos ((length_bnToBin_le hlt).trans_lt (by decide))

theorem luaToBn_bnToBin (bn : ℕ) : luaToBn (bnToBin bn) = bn := binToBn_bnToBin bn

namespace Srp

variable {srp : Srp}

/-- What is reduced modulo `N` fits into the buffer of `push_bn`. -/
theorem pushBn_of_lt_N {bn : ℕ} (hlt : bn < srp.N) : pushBn bn = some (bnToBin bn) := by
  have hbytes : (2 : ℕ) ^ 1024 = 256 ^ 128 := by
    rw [show 256 = 2 ^ 8 from rfl, ← pow_mul]
  exact pushBn_of_lt (hlt.trans (srp.bits.trans_eq hbytes))

theorem pushBn_of_key {bn : ℕ} (hlt : bn < 256 ^ 32) : pushBn bn = some (bnToBin bn) :=
  pushBn_of_lt (hlt.trans (by norm_num))

theorem mod_lt (srp : Srp) (bn : ℕ) : bn % srp.N < srp.N := Nat.mod_lt bn (zero_lt_one.trans srp.one_lt)

/-- What the loops return: a key of 32 bytes and its public value, which is no multiple of `N`. -/
theorem randomPair_spec {publicOf : ℕ → ℕ} {draws : List Key} {secret pub : ℕ}
    (hpair : srp.randomPair publicOf draws = some (secret, pub)) :
    secret < 256 ^ 32 ∧ pub = publicOf secret ∧ ¬ srp.N ∣ pub := by
  induction draws with
  | nil => exact nomatch hpair
  | cons draw draws ih =>
    rw [randomPair] at hpair
    split at hpair
    · next hverify =>
      obtain ⟨rfl, rfl⟩ := Prod.mk.inj (Option.some.inj hpair)
      exact ⟨randomKey_lt draw, rfl, fun hdvd ↦ of_decide_eq_true hverify (Nat.mod_eq_zero_of_dvd hdvd)⟩
    · exact ih hpair

/-- What `create_verifier` returns. -/
theorem createVerifier_eq (I p : Bytes) (salt : Vector UInt8 20) :
    srp.createVerifier I p salt = some (bnToBin (binToBn salt.toList),
      bnToBin (srp.calcVerifier (cString I) (cString p) (binToBn salt.toList))) := by
  have hsalt : binToBn salt.toList < 256 ^ 128 := by
    have hlt := binToBn_lt salt.toList
    rw [Vector.length_toList] at hlt
    exact hlt.trans (by norm_num)
  rw [createVerifier, pushBn_of_lt hsalt, calcVerifier, pushBn_of_lt_N (mod_lt srp _)]
  rfl

/-- What `create_client_key` returns. -/
theorem createClientKey_eq (draws : List Key) :
    srp.createClientKey draws =
      (srp.randomPair srp.calcA draws).map fun pair ↦ (bnToBin pair.1, bnToBin pair.2) := by
  rw [createClientKey]
  cases hpair : srp.randomPair srp.calcA draws with
  | none => rfl
  | some pair =>
    obtain ⟨a, A⟩ := pair
    obtain ⟨ha, rfl, -⟩ := randomPair_spec hpair
    simp only [Option.bind_eq_bind, Option.bind_some, pushBn_of_key ha, pushBn_of_lt_N (mod_lt srp _), calcA]
    rfl

theorem calcU_of_lt {A B : ℕ} (hA : A < srp.N) (hB : B < srp.N) : srp.calcU A B = some (srp.u A B) :=
  if_pos ⟨hA, hB⟩

theorem calcU_of_le {A : ℕ} (hA : srp.N ≤ A) (B : ℕ) : srp.calcU A B = none :=
  if_neg fun h ↦ Nat.not_le_of_lt h.1 hA

/-- What `create_server_session_key` returns. -/
theorem createServerSessionKey_eq (v A : Bytes) (draws : List Key) (hA : luaToBn A < srp.N) :
    srp.createServerSessionKey v A draws =
      (srp.randomPair (fun b ↦ srp.calcB b (luaToBn v)) draws).map fun pair ↦
        (bnToBin (srp.calcServerKey (luaToBn A) (luaToBn v) (srp.u (luaToBn A) pair.2) pair.1),
          bnToBin pair.1, bnToBin pair.2) := by
  rw [createServerSessionKey]
  cases hpair : srp.randomPair (fun b ↦ srp.calcB b (luaToBn v)) draws with
  | none => rfl
  | some pair =>
    obtain ⟨b, B⟩ := pair
    obtain ⟨hb, rfl, -⟩ := randomPair_spec hpair
    have hB : srp.calcB b (luaToBn v) < srp.N := mod_lt srp _
    simp only [Option.bind_eq_bind, Option.bind_some, calcU_of_lt hA hB, pushBn_of_key hb, pushBn_of_lt_N hB,
      pushBn_of_lt_N (mod_lt srp _), calcServerKey]
    rfl

/-- It returns no key for a public value that is not below `N`. -/
theorem lt_N_of_createServerSessionKey {v A : Bytes} {draws : List Key} {result : Bytes × Bytes × Bytes}
    (h : srp.createServerSessionKey v A draws = some result) : luaToBn A < srp.N := by
  by_contra hge
  rw [createServerSessionKey] at h
  obtain ⟨⟨b, B⟩, _, hrest⟩ := Option.bind_eq_some_iff.mp h
  simp only [calcU_of_le (Nat.le_of_not_lt hge)] at hrest
  exact Option.some_ne_none _ hrest.symm

end Srp

/-! ### The two session keys -/

/-- A draw of the number one. -/
def drawOne : Key := (Vector.replicate 31 0).push 1

theorem randomKey_drawOne : randomKey drawOne = 1 := by
  decide +kernel

/-- A small group, with hashes that add their arguments. -/
def sampleSrp : Srp where
  N := 23
  g := 5
  k := 3
  u A B := A + B
  x s I p := s + binToBn I + binToBn p
  bits := by decide +kernel
  one_lt := by decide

namespace Srp

/-- The client and the server raise the same power of `g` to the same exponent. -/
theorem calcClientKey_eq (srp : Srp) (a b x u : ℕ) :
    srp.calcClientKey (srp.calcB b (srp.g ^ x % srp.N)) x a u =
      srp.calcServerKey (srp.calcA a) (srp.g ^ x % srp.N) u b := by
  have hsame : (((((srp.calcB b (srp.g ^ x % srp.N) : ℕ) : ℤ) - srp.k * srp.g ^ x) ^ (a + u * x) : ℤ) :
      ZMod srp.N) = (((srp.calcA a * (srp.g ^ x % srp.N) ^ u) ^ b : ℕ) : ℤ) := by
    simp only [calcA, calcB]
    push_cast
    rw [add_sub_cancel_left]
    ring
  rw [calcClientKey, (ZMod.intCast_eq_intCast_iff' _ _ _).mp hsame, calcServerKey]
  exact Int.toNat_natCast _

end Srp

/-- The client and the server of a login come to the same session key, whatever the name, the password, the
salt and the secrets are. -/
theorem session_keys_agree {srp : Srp} {I p s v a A Ks b B : Bytes} {salt : Vector UInt8 20}
    {draws draws' : List Key} (hverifier : srp.createVerifier I p salt = some (s, v))
    (hclient : srp.createClientKey draws = some (a, A))
    (hserver : srp.createServerSessionKey v A draws' = some (Ks, b, B)) :
    srp.createClientSessionKey I p s a A B = some Ks := by
  rw [Srp.createVerifier_eq] at hverifier
  obtain ⟨rfl, rfl⟩ := Prod.mk.inj (Option.some.inj hverifier)
  rw [Srp.createClientKey_eq] at hclient
  obtain ⟨⟨a', A'⟩, hpair, hclient⟩ := Option.map_eq_some_iff.mp hclient
  obtain ⟨rfl, rfl⟩ := Prod.mk.inj hclient
  have hA := Srp.lt_N_of_createServerSessionKey hserver
  rw [Srp.createServerSessionKey_eq _ _ _ hA] at hserver
  obtain ⟨⟨b', B'⟩, hpair', hserver⟩ := Option.map_eq_some_iff.mp hserver
  obtain ⟨rfl, hrest⟩ := Prod.mk.inj hserver
  obtain ⟨rfl, rfl⟩ := Prod.mk.inj hrest
  obtain ⟨-, rfl, -⟩ := Srp.randomPair_spec hpair
  obtain ⟨-, rfl, -⟩ := Srp.randomPair_spec hpair'
  rw [luaToBn_bnToBin] at hA
  simp only [Srp.createClientSessionKey, luaToBn_bnToBin, Srp.calcVerifier,
    Srp.calcU_of_lt hA (show srp.calcB _ _ < srp.N from Srp.mod_lt srp _), Option.bind_eq_bind, Option.bind_some]
  rw [Srp.calcClientKey_eq, Srp.calcServerKey, Srp.pushBn_of_lt_N (Srp.mod_lt srp _)]

/-- A user and a login over the small group. -/
theorem session_keys_agree_sample : ∃ s v a A Ks b B : Bytes,
    sampleSrp.createVerifier [0x61] [0x62] (Vector.replicate 20 0) = some (s, v) ∧
      sampleSrp.createClientKey [drawOne] = some (a, A) ∧
      sampleSrp.createServerSessionKey v A [drawOne] = some (Ks, b, B) ∧
      sampleSrp.createClientSessionKey [0x61] [0x62] s a A B = some Ks := by
  have hverifier := sampleSrp.createVerifier_eq [0x61] [0x62] (Vector.replicate 20 0)
  have hclient : sampleSrp.createClientKey [drawOne] = some (bnToBin 1, bnToBin 5) := by
    rw [Srp.createClientKey_eq, show sampleSrp.randomPair sampleSrp.calcA [drawOne] = some (1, 5) by decide +kernel]
    rfl
  have hserver := sampleSrp.createServerSessionKey_eq
    (bnToBin (sampleSrp.calcVerifier (cString [0x61]) (cString [0x62]) (binToBn (Vector.replicate 20 0).toList)))
    (bnToBin 5) [drawOne] (show luaToBn (bnToBin 5) < 23 by decide +kernel)
  obtain ⟨pair, hpair⟩ := Option.isSome_iff_exists.mp (show (sampleSrp.randomPair (fun b ↦ sampleSrp.calcB b
    (sampleSrp.calcVerifier (cString [0x61]) (cString [0x62]) (binToBn (Vector.replicate 20 0).toList)))
    [drawOne]).isSome = true by decide +kernel)
  simp only [luaToBn_bnToBin, hpair, Option.map_some] at hserver
  exact ⟨_, _, _, _, _, _, _, hverifier, hclient, hserver, session_keys_agree hverifier hclient hserver⟩

/-! ### What a client can force -/

namespace Srp

variable {srp : Srp}

/-- A product with a factor that `N` divides is raised to zero, whatever the verifier and the hash are. -/
theorem calcServerKey_of_dvd {A v u b : ℕ} (hA : srp.N ∣ A) (hb : b ≠ 0) : srp.calcServerKey A v u b = 0 :=
  Nat.mod_eq_zero_of_dvd (dvd_pow (hA.mul_right _) hb)

/-- Modulo a prime, factors that are not zero have no power that is zero. -/
theorem calcServerKey_ne_zero (hprime : srp.N.Prime) {A v u b : ℕ} (hv : v.Coprime srp.N)
    (hA : ¬ srp.N ∣ A) : srp.calcServerKey A v u b ≠ 0 := by
  intro hzero
  have hdvd := hprime.dvd_of_dvd_pow (Nat.dvd_of_mod_eq_zero hzero)
  rcases hprime.dvd_mul.mp hdvd with hA' | hv'
  · exact hA hA'
  · exact (hprime.coprime_iff_not_dvd.mp hv.symm) (hprime.dvd_of_dvd_pow hv')

end Srp

/-- The server computes a session key that is not the number zero, from a public value that is not zero modulo `N`,
exactly when the client does not send the number zero. From the number zero it computes the key zero, the empty
string, unless its own secret is zero. -/
theorem session_key_forced_iff {srp : Srp} (hprime : srp.N.Prime) {v A K b B : Bytes} {draws : List Key}
    (hv : (luaToBn v).Coprime srp.N) (hserver : srp.createServerSessionKey v A draws = some (K, b, B)) :
    ((luaToBn A % srp.N ≠ 0 ∧ luaToBn K ≠ 0) ↔ luaToBn A ≠ 0) ∧
      (luaToBn b ≠ 0 → (luaToBn K ≠ 0 ↔ luaToBn A ≠ 0)) ∧ (luaToBn A = 0 → luaToBn b ≠ 0 → K = []) := by
  have hA := Srp.lt_N_of_createServerSessionKey hserver
  rw [Srp.createServerSessionKey_eq _ _ _ hA] at hserver
  obtain ⟨⟨b', B'⟩, -, hserver⟩ := Option.map_eq_some_iff.mp hserver
  obtain ⟨rfl, hrest⟩ := Prod.mk.inj hserver
  obtain ⟨rfl, rfl⟩ := Prod.mk.inj hrest
  rw [luaToBn_bnToBin, luaToBn_bnToBin]
  have hkey : luaToBn A ≠ 0 → srp.calcServerKey (luaToBn A) (luaToBn v) (srp.u (luaToBn A) B') b' ≠ 0 := fun hne ↦
    Srp.calcServerKey_ne_zero hprime hv fun hdvd ↦ hne (Nat.eq_zero_of_dvd_of_lt hdvd hA)
  have hforced : luaToBn A = 0 → b' ≠ 0 → srp.calcServerKey (luaToBn A) (luaToBn v) (srp.u (luaToBn A) B') b' = 0 :=
    fun hzero hb ↦ Srp.calcServerKey_of_dvd (hzero ▸ dvd_zero _) hb
  refine ⟨⟨fun h hzero ↦ h.1 ((Nat.mod_eq_of_lt hA).trans hzero), fun hne ↦ ⟨?_, hkey hne⟩⟩,
    fun hb ↦ ⟨fun h hzero ↦ ?_, hkey⟩, ?_⟩
  · rwa [Nat.mod_eq_of_lt hA]
  · exact h (hforced hzero hb)
  · exact fun hzero hb ↦ bnToBin_eq_nil.mpr (hforced hzero hb)

/-- A client that is honest, over the small group. -/
theorem session_key_forced_iff_sample : ∃ K b B : Bytes,
    sampleSrp.createServerSessionKey [2] [5] [drawOne] = some (K, b, B) ∧ luaToBn K ≠ 0 := by
  have hserver : (sampleSrp.createServerSessionKey [2] [5] [drawOne]).isSome = true := by
    rw [Srp.createServerSessionKey_eq _ _ _ (show luaToBn [5] < 23 by decide +kernel), Option.isSome_map]
    decide +kernel
  obtain ⟨⟨K, b, B⟩, hserver⟩ := Option.isSome_iff_exists.mp hserver
  have hprime : sampleSrp.N.Prime := show Nat.Prime 23 by norm_num
  have hiff := (session_key_forced_iff hprime (by decide +kernel) hserver).1
  exact ⟨K, b, B, hserver, (hiff.mpr (by decide +kernel)).2⟩

/-- The modulus of the group `1024`. -/
def modulus1024 : ℕ :=
  ((0xEEAF0AB9ADB38DD69C33F80AFA8FC5E86072618775FF3C0B9EA2314C9C256576 * 2 ^ 256 +
    0xD674DF7496EA81D3383B4813D692C6E0E0D5D8E250B98BE48E495C1D6089DAD1) * 2 ^ 256 +
    0x5DC7D7B46154D6B6CE8EF4AD69B15D4982559B297BCF1885C529F566660E57EC) * 2 ^ 256 +
    0x68EDBC3C05726CC02FD4CBF4976EAA9AFD5138FE8376435B9FC61D2FC0EB06E3

/-- The group that `SRP_get_default_gN ("1024")` returns, with any hashes. -/
def group1024 (u : ℕ → ℕ → ℕ) (x : ℕ → Bytes → Bytes → ℕ) : Srp where
  N := modulus1024
  g := 2
  k := 0x7556AA045AEF2CDD07ABAF0F665C3E818913186F
  u := u
  x := x
  bits := by decide +kernel
  one_lt := by decide +kernel

/-- A client that sends the empty string as `client_pub` has the empty string for a session key, whatever the
hashes are, without any password. -/
theorem empty_client_pub_forces_key : ∃ v b B name : Bytes, ∀ u x,
    (luaToBn v).Coprime (group1024 u x).N ∧ luaToBn [] % (group1024 u x).N = 0 ∧
      (group1024 u x).createServerSessionKey v [] [drawOne] = some ([], b, B) ∧
      handshake (group1024 u x) (fun _ ↦ some v) (some name) (some []) [drawOne] = some ([], B) := by
  have hpublic : ∀ u x, (group1024 u x).calcB 1 (luaToBn [2]) = 0xEAAD5408B5DE59BA0F575E1ECCB87D03122630E0 := by
    intro u x
    show (0x7556AA045AEF2CDD07ABAF0F665C3E818913186F * luaToBn [2] + 2 ^ 1) % modulus1024 = _
    decide +kernel
  have hpair : ∀ u x, (group1024 u x).randomPair (fun b ↦ (group1024 u x).calcB b (luaToBn [2])) [drawOne] =
      some (1, 0xEAAD5408B5DE59BA0F575E1ECCB87D03122630E0) := by
    intro u x
    rw [Srp.randomPair, randomKey_drawOne, hpublic, if_pos]
    show decide (0xEAAD5408B5DE59BA0F575E1ECCB87D03122630E0 % modulus1024 ≠ 0) = true
    decide +kernel
  have hserver : ∀ u x, (group1024 u x).createServerSessionKey [2] [] [drawOne] =
      some ([], bnToBin 1, bnToBin 0xEAAD5408B5DE59BA0F575E1ECCB87D03122630E0) := by
    intro u x
    have hkey : ∀ v u', (group1024 u x).calcServerKey (luaToBn []) v u' 1 = 0 := fun v u' ↦
      Srp.calcServerKey_of_dvd (dvd_zero (group1024 u x).N) one_ne_zero
    have hlt : luaToBn [] < (group1024 u x).N := Nat.zero_lt_one.trans (group1024 u x).one_lt
    rw [Srp.createServerSessionKey_eq _ _ _ hlt, hpair, Option.map_some, hkey, bnToBin_eq_nil.mpr rfl]
  refine ⟨[2], bnToBin 1, _, [0x61], fun u x ↦ ⟨?_, ?_, hserver u x, ?_⟩⟩
  · show Nat.Coprime (luaToBn [2]) modulus1024
    decide +kernel
  · exact Nat.zero_mod _
  · simp only [handshake, Option.bind_eq_bind, Option.bind_some, hserver u x]
    rfl

end SvrDemo.Login
