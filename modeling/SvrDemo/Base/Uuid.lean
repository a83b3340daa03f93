import SvrDemo.Skynet.Runtime

/-!
# Unique ids

`uuid.lua` and `lua-uuid.c`. A service draws ids from the clock, its harbor, the service id that `core.sid`
has handed out to it, and a sequence number that starts again with every second: `uuid.gen` shifts them into
one integer, and `uuid.split` takes an integer apart. The service id has sixteen bits in `uuid.gen`, and
fifteen in the layout.

The static variable `sid` of `lua-uuid.c` belongs to the whole process, and every service that loads the
library sets it back, so a draw may find any value in it. `Draws` repeats for the statements what a service
has drawn its ids from.
-/

set_option autoImplicit false
set_option relaxedAutoImplicit false

namespace SvrDemo.Base

open Lua Skynet

/-! ### The library -/

/-- `lsid`: the next service id, if there is one, and the new value of the static variable. -/
def lsid (sid : BitVec 32) : Option LuaInt × BitVec 32 :=
  if sid ≥ 0xffff then (none, sid) else (some ((sid + 1).setWidth 64), sid + 1)

/-- The variables of `uuid.lua` in a service. -/
structure Uuid where
  timestamp : Option LuaInt
  service : Option LuaInt
  sequence : ℕ

/-- The harbor and the service id in their places. -/
def serviceBits (harbor sid : LuaInt) : LuaInt :=
  ((harbor &&& 0x3f) <<< 25) ||| ((sid &&& 0xffff) <<< 10)

/-- The part of `uuid.gen` that asks for a service id once. -/
def Uuid.ensureService (harbor : LuaInt) (sid : BitVec 32) (self : Uuid) : Except LuaError LuaInt × BitVec 32 :=
  match self.service with
  | some service => (.ok service, sid)
  | none =>
    match lsid sid with
    | (some sid, next) => (.ok (serviceBits harbor sid), next)
    | (none, next) => (.error .errorCalled, next)

/-- `uuid.gen`, with the new value of the static variable. -/
def Uuid.gen (harbor now : LuaInt) (sid : BitVec 32) (self : Uuid) :
    Except LuaError LuaInt × Uuid × BitVec 32 :=
  match self.ensureService harbor sid with
  | (.error error, sid) => (.error error, self, sid)
  | (.ok service, sid) =>
    let timestamp := self.timestamp.getD ((now <<< 31) ||| service)
    let sequence := if self.timestamp.isSome then self.sequence + 1 else 1
    let result := if sequence < 1024 then .ok (timestamp ||| BitVec.ofNat 64 sequence)
      else .error .assertionFailed
    (result, ⟨some timestamp, some service, sequence⟩, sid)

/-- The timer of a second. -/
def Uuid.timeout (self : Uuid) : Uuid := { self with timestamp := none }

/-- `uuid.split`. -/
def split (id : LuaInt) : LuaInt × LuaInt × LuaInt × LuaInt :=
  (id >>> 31, (id &&& 0x7fffffff) >>> 25, (id &&& 0x1ffffff) >>> 10, id &&& 0x3ff)

/-- A service that has just loaded the library. -/
def Uuid.initial : Uuid := ⟨none, none, 0⟩

/-! ### Runs of a service -/

/-- What happens to the library in a service: a draw, at a time and with what the static variable holds, or
the timer. -/
inductive Event
  | gen (now : LuaInt) (sid : BitVec 32)
  | timeout

/-- What a service draws its ids from: the time at which its second began, the service id that it has been
handed out, and the number of the last draw of the second. -/
structure Draws where
  time : Option LuaInt
  sid : Option LuaInt
  number : ℕ

/-- What happens to the sources of the ids. -/
def Draws.step (self : Draws) : Event → Draws
  | .timeout => { self with time := none }
  | .gen now sid =>
    match self.sid.or (lsid sid).1 with
    | none => self
    | some sid =>
      { time := self.time.or (some now), sid := some sid
        number := if self.time.isSome then self.number + 1 else 1 }

/-- What happens to the library. -/
def Uuid.step (harbor : LuaInt) (self : Uuid) : Event → Uuid
  | .timeout => self.timeout
  | .gen now sid => (self.gen harbor now sid).2.1

/-- A service on a harbor, after some events. -/
def Uuid.after (harbor : LuaInt) (events : List Event) : Uuid :=
  events.foldl (Uuid.step harbor) .initial

/-- What the service draws its next ids from. -/
def Draws.after (events : List Event) : Draws :=
  events.foldl Draws.step ⟨none, none, 0⟩

/-- The clock has not reached `2 ^ 33`. -/
def Event.inTime : Event → Prop
  | .gen now _ => now.toNat < 2 ^ 33
  | .timeout => True

/-- A service on a harbor draws an id from a time, a service id and a number. -/
def Drawn (harbor id time sid : LuaInt) (number : ℕ) : Prop :=
  ∃ events now static, (∀ event ∈ events ++ [.gen now static], event.inTime) ∧
    ((Uuid.after harbor events).gen harbor now static).1 = .ok id ∧
    Draws.after (events ++ [.gen now static]) = ⟨some time, some sid, number⟩

/-! ### The layout -/

/-- The service id has one bit more than its place, and it falls into the place of the harbor. -/
theorem toNat_serviceBits {harbor sid : LuaInt} (hharbor : harbor.toNat < 64) (hsid : sid.toNat < 2 ^ 16) :
    (serviceBits harbor sid).toNat =
      2 ^ 25 * (harbor.toNat ||| sid.toNat / 2 ^ 15) + 2 ^ 10 * (sid.toNat % 2 ^ 15) := by
  have hmask : (harbor &&& 0x3f).toNat = harbor.toNat := by
    rw [BitVec.toNat_and]
    exact (Nat.and_two_pow_sub_one_eq_mod harbor.toNat 6).trans (Nat.mod_eq_of_lt hharbor)
  have hmask' : (sid &&& 0xffff).toNat = sid.toNat := by
    rw [BitVec.toNat_and]
    exact (Nat.and_two_pow_sub_one_eq_mod sid.toNat 16).trans (Nat.mod_eq_of_lt hsid)
  have hlow : 2 ^ 10 * (sid.toNat % 2 ^ 15) < 2 ^ 25 := by omega
  have hhigh : sid.toNat <<< 10 = 2 ^ 25 * (sid.toNat / 2 ^ 15) ||| 2 ^ 10 * (sid.toNat % 2 ^ 15) := by
    rw [← Nat.two_pow_add_eq_or_of_lt hlow, Nat.shiftLeft_eq]
    omega
  rw [serviceBits, BitVec.toNat_or, BitVec.toNat_shiftLeft, BitVec.toNat_shiftLeft, hmask, hmask',
    Nat.mod_eq_of_lt (by rw [Nat.shiftLeft_eq]; omega), Nat.mod_eq_of_lt (by rw [Nat.shiftLeft_eq]; omega),
    hhigh, ← Nat.or_assoc]
  have hjoin : harbor.toNat <<< 25 ||| 2 ^ 25 * (sid.toNat / 2 ^ 15) =
      2 ^ 25 * (harbor.toNat ||| sid.toNat / 2 ^ 15) := by
    rw [Nat.mul_comm, ← Nat.shiftLeft_eq, ← Nat.shiftLeft_or_distrib, Nat.shiftLeft_eq, Nat.mul_comm]
  rw [hjoin, ← Nat.two_pow_add_eq_or_of_lt hlow]

/-- The harbor, with what has fallen into its place, fits into the place. -/
theorem harbor_lt {harbor sid : LuaInt} (hharbor : harbor.toNat < 64) (hsid : sid.toNat < 2 ^ 16) :
    harbor.toNat ||| sid.toNat / 2 ^ 15 < 64 := by
  have hbit : sid.toNat / 2 ^ 15 < 2 ^ 6 := by omega
  exact Nat.or_lt_two_pow (show harbor.toNat < 2 ^ 6 from hharbor) hbit

/-- An id is the sum of its four parts. -/
theorem toNat_id {harbor sid now : LuaInt} {number : ℕ} (hharbor : harbor.toNat < 64)
    (hsid : sid.toNat < 2 ^ 16) (hnow : now.toNat < 2 ^ 33) (hnumber : number < 1024) :
    (now <<< 31 ||| serviceBits harbor sid ||| BitVec.ofNat 64 number).toNat =
      2 ^ 31 * now.toNat + 2 ^ 25 * (harbor.toNat ||| sid.toNat / 2 ^ 15) +
        2 ^ 10 * (sid.toNat % 2 ^ 15) + number := by
  have hharbor' := harbor_lt hharbor hsid
  have hservice := toNat_serviceBits hharbor hsid
  have hhigh : (now <<< 31).toNat = 2 ^ 31 * now.toNat := by
    rw [BitVec.toNat_shiftLeft, Nat.shiftLeft_eq, Nat.mod_eq_of_lt (by omega), Nat.mul_comm]
  have hnumber' : (BitVec.ofNat 64 number).toNat = number := by
    rw [BitVec.toNat_ofNat, Nat.mod_eq_of_lt (by omega)]
  have hlow : (serviceBits harbor sid).toNat < 2 ^ 31 := by omega
  rw [BitVec.toNat_or, BitVec.toNat_or, hhigh, hnumber', ← Nat.two_pow_add_eq_or_of_lt hlow, hservice]
  have hsum : 2 ^ 31 * now.toNat + (2 ^ 25 * (harbor.toNat ||| sid.toNat / 2 ^ 15) +
      2 ^ 10 * (sid.toNat % 2 ^ 15)) = 2 ^ 10 * (2 ^ 21 * now.toNat +
        2 ^ 15 * (harbor.toNat ||| sid.toNat / 2 ^ 15) + sid.toNat % 2 ^ 15) := by omega
  rw [hsum, ← Nat.two_pow_add_eq_or_of_lt (show number < 2 ^ 10 from hnumber)]
  omega

/-- The parts that `uuid.split` takes out of an id. -/
theorem split_toNat (id : LuaInt) :
    split id = (BitVec.ofNat 64 (id.toNat / 2 ^ 31), BitVec.ofNat 64 (id.toNat % 2 ^ 31 / 2 ^ 25),
      BitVec.ofNat 64 (id.toNat % 2 ^ 25 / 2 ^ 10), BitVec.ofNat 64 (id.toNat % 2 ^ 10)) := by
  have hlt := id.isLt
  have hmask : ∀ (width : ℕ) (mask : LuaInt), mask.toNat = 2 ^ width - 1 →
      (id &&& mask).toNat = id.toNat % 2 ^ width := fun width mask hmask ↦ by
    rw [BitVec.toNat_and, hmask, Nat.and_two_pow_sub_one_eq_mod]
  have hshift : ∀ (part : LuaInt) (width : ℕ),
      part >>> width = BitVec.ofNat 64 (part.toNat / 2 ^ width) := fun part width ↦ by
    apply BitVec.eq_of_toNat_eq
    rw [BitVec.toNat_ushiftRight, Nat.shiftRight_eq_div_pow, BitVec.toNat_ofNat, Nat.mod_eq_of_lt]
    exact (Nat.div_le_self _ _).trans_lt part.isLt
  have hsame : ∀ part : LuaInt, part = BitVec.ofNat 64 part.toNat := fun part ↦
    (BitVec.ofNat_toNat 64 part).symm ▸ (BitVec.setWidth_eq part).symm
  rw [split, hshift, hshift, hshift, hsame (id &&& 0x3ff), hmask 31 _ rfl, hmask 25 _ rfl,
    hmask 10 _ rfl]

/-- What `uuid.split` makes of an id. -/
theorem split_id {harbor sid now : LuaInt} {number : ℕ} (hharbor : harbor.toNat < 64)
    (hsid : sid.toNat < 2 ^ 16) (hnow : now.toNat < 2 ^ 33) (hnumber : number < 1024) :
    split (now <<< 31 ||| serviceBits harbor sid ||| BitVec.ofNat 64 number) =
      (now, BitVec.ofNat 64 (harbor.toNat ||| sid.toNat / 2 ^ 15), BitVec.ofNat 64 (sid.toNat % 2 ^ 15),
        BitVec.ofNat 64 number) := by
  have hharbor' := harbor_lt hharbor hsid
  have hparts : ∀ time harbor sid number : ℕ, harbor < 64 → sid < 2 ^ 15 → number < 1024 →
      (2 ^ 31 * time + 2 ^ 25 * harbor + 2 ^ 10 * sid + number) / 2 ^ 31 = time ∧
      (2 ^ 31 * time + 2 ^ 25 * harbor + 2 ^ 10 * sid + number) % 2 ^ 31 / 2 ^ 25 = harbor ∧
      (2 ^ 31 * time + 2 ^ 25 * harbor + 2 ^ 10 * sid + number) % 2 ^ 25 / 2 ^ 10 = sid ∧
      (2 ^ 31 * time + 2 ^ 25 * harbor + 2 ^ 10 * sid + number) % 2 ^ 10 = number := by
    intro time harbor sid number hharbor hsid hnumber
    refine ⟨?_, ?_, ?_, ?_⟩ <;> omega
  obtain ⟨htime, hnode, hservice, hlast⟩ := hparts now.toNat _ _ number hharbor'
    (Nat.mod_lt sid.toNat (by decide)) hnumber
  rw [split_toNat, toNat_id hharbor hsid hnow hnumber, htime, hnode, hservice, hlast, BitVec.ofNat_toNat,
    BitVec.setWidth_eq]

/-! ### What a service draws -/

/-- `core.sid` hands out the ids from one up to `0xffff`. -/
theorem lsid_some {static : BitVec 32} {sid : LuaInt} (hsid : (lsid static).1 = some sid) :
    1 ≤ sid.toNat ∧ sid.toNat ≤ 0xffff := by
  unfold lsid at hsid
  split at hsid
  · exact nomatch hsid
  · rename_i hstatic
    obtain rfl := Option.some.inj hsid
    have hlt : static.toNat < 0xffff := by
      rw [ge_iff_le, BitVec.le_def, not_le] at hstatic
      exact hstatic
    have hnext : (static + 1).toNat = static.toNat + 1 := by
      rw [BitVec.toNat_add]
      exact Nat.mod_eq_of_lt (by simp; omega)
    rw [BitVec.toNat_setWidth, hnext, Nat.mod_eq_of_lt (by omega)]
    omega

/-- The library has what the service draws its ids from. -/
structure Uuid.Holds (harbor : LuaInt) (uuid : Uuid) (draws : Draws) : Prop where
  service : uuid.service = draws.sid.map (serviceBits harbor)
  timestamp : uuid.timestamp = draws.time.bind fun now ↦
    draws.sid.map fun sid ↦ now <<< 31 ||| serviceBits harbor sid
  sequence : draws.time.isSome = true → uuid.sequence = draws.number
  handed : draws.time.isSome = true → draws.sid.isSome = true
  inTime : ∀ now ∈ draws.time, now.toNat < 2 ^ 33
  sid : ∀ sid ∈ draws.sid, 1 ≤ sid.toNat ∧ sid.toNat ≤ 0xffff

namespace Uuid.Holds

variable {harbor now : LuaInt} {self : Uuid} {draws : Draws}

theorem initial (harbor : LuaInt) : Uuid.Holds harbor .initial ⟨none, none, 0⟩ where
  service := rfl
  timestamp := rfl
  sequence h := nomatch h
  handed h := nomatch h
  inTime _ h := nomatch h
  sid _ h := nomatch h

theorem timeout (h : Uuid.Holds harbor self draws) : Uuid.Holds harbor self.timeout (draws.step .timeout) where
  service := h.service
  timestamp := rfl
  sequence h := nomatch h
  handed h := nomatch h
  inTime _ h := nomatch h
  sid := h.sid

/-- The service of a draw is that of the service id that has been handed out. -/
theorem ensureService (h : Uuid.Holds harbor self draws) (static : BitVec 32) :
    (self.ensureService harbor static).1 = match draws.sid.or (lsid static).1 with
      | some sid => .ok (serviceBits harbor sid)
      | none => .error .errorCalled := by
  unfold Uuid.ensureService
  rw [h.service]
  cases draws.sid with
  | some sid => rfl
  | none =>
    rw [Option.map_none, Option.none_or]
    dsimp only
    cases lsid static with
    | mk handed next =>
      cases handed with
      | some sid => rfl
      | none => rfl

/-- A draw gives the id of what it draws from, as long as there are numbers left. -/
theorem gen (h : Uuid.Holds harbor self draws) (static : BitVec 32) (hnow : now.toNat < 2 ^ 33) :
    Uuid.Holds harbor (self.gen harbor now static).2.1 (draws.step (.gen now static)) ∧
      ∀ id, (self.gen harbor now static).1 = .ok id →
        ∃ time sid number, draws.step (.gen now static) = ⟨some time, some sid, number⟩ ∧
          number < 1024 ∧ id = time <<< 31 ||| serviceBits harbor sid ||| BitVec.ofNat 64 number := by
  have hservice := h.ensureService static
  unfold Uuid.gen
  simp only [Draws.step]
  generalize hensured : self.ensureService harbor static = ensured at hservice
  obtain ⟨result, next⟩ := ensured
  dsimp only at hservice ⊢
  cases hsid : draws.sid.or (lsid static).1 with
  | none =>
    rw [hsid] at hservice
    obtain rfl := hservice
    exact ⟨h, fun _ hid ↦ nomatch hid⟩
  | some sid =>
    rw [hsid] at hservice
    obtain rfl := hservice
    dsimp only
    -- the second and its last number, as the library and the sources have them
    have htimestamp : self.timestamp.getD (now <<< 31 ||| serviceBits harbor sid) =
        (draws.time.getD now) <<< 31 ||| serviceBits harbor sid := by
      rw [h.timestamp]
      cases htime : draws.time with
      | none => rfl
      | some time =>
        obtain ⟨sid', hsid'⟩ := Option.isSome_iff_exists.mp (h.handed (by rw [htime]; rfl))
        rw [hsid', Option.some_or] at hsid
        obtain rfl := Option.some.inj hsid
        rw [hsid']
        rfl
    have hsecond : self.timestamp.isSome = draws.time.isSome := by
      rw [h.timestamp]
      cases htime : draws.time with
      | none => rfl
      | some time =>
        obtain ⟨sid', hsid'⟩ := Option.isSome_iff_exists.mp (h.handed (by rw [htime]; rfl))
        rw [hsid']
        rfl
    have hnumber : (if self.timestamp.isSome = true then self.sequence + 1 else 1) =
        if draws.time.isSome = true then draws.number + 1 else 1 := by
      rw [hsecond]
      split
      · next hsome => rw [h.sequence hsome]
      · rfl
    have htime : draws.time.or (some now) = some (draws.time.getD now) := by
      cases draws.time with
      | none => rfl
      | some time => rfl
    have hinTime : (draws.time.getD now).toNat < 2 ^ 33 := by
      cases hsome : draws.time with
      | none => exact hnow
      | some time => exact h.inTime time hsome
    rw [htimestamp, hnumber, htime]
    refine ⟨⟨rfl, rfl, fun _ ↦ rfl, fun _ ↦ rfl, ?_, ?_⟩, fun id hid ↦ ?_⟩
    · rintro _ ⟨⟩
      exact hinTime
    · rintro _ ⟨⟩
      cases hold : draws.sid with
      | some sid' =>
        rw [hold, Option.some_or] at hsid
        obtain rfl := Option.some.inj hsid
        exact h.sid sid' hold
      | none =>
        rw [hold, Option.none_or] at hsid
        exact lsid_some hsid
    · refine ⟨_, _, _, rfl, ?_⟩
      by_cases hlast : (if draws.time.isSome = true then draws.number + 1 else 1) < 1024
      · rw [if_pos hlast] at hid
        exact ⟨hlast, (Except.ok.inj hid).symm⟩
      · rw [if_neg hlast] at hid
        exact nomatch hid

/-- The library has what the service draws from after all events of a run. -/
theorem after (harbor : LuaInt) (events : List Event) (hevents : ∀ event ∈ events, event.inTime) :
    Uuid.Holds harbor (Uuid.after harbor events) (Draws.after events) := by
  induction events using List.reverseRecOn with
  | nil => exact .initial harbor
  | append_singleton events event ih =>
    have hbefore := ih fun event hevent ↦ hevents event (List.mem_append_left _ hevent)
    have hlast := hevents event (List.mem_append_right _ (List.mem_singleton_self event))
    rw [Uuid.after, Draws.after, List.foldl_append, List.foldl_append]
    cases event with
    | timeout => exact hbefore.timeout
    | gen now static => exact (hbefore.gen static hlast).1

end Uuid.Holds

/-- What a service draws: an id with the time, the service id and the number of the draw in it. -/
theorem Drawn.spec {harbor id time sid : LuaInt} {number : ℕ} (h : Drawn harbor id time sid number) :
    id = time <<< 31 ||| serviceBits harbor sid ||| BitVec.ofNat 64 number ∧ time.toNat < 2 ^ 33 ∧
      sid.toNat < 2 ^ 16 ∧ number < 1024 := by
  obtain ⟨events, now, static, hevents, hid, hdraws⟩ := h
  have hholds := Uuid.Holds.after harbor events fun event hevent ↦
    hevents event (List.mem_append_left _ hevent)
  have hnow : now.toNat < 2 ^ 33 := hevents _ (List.mem_append_right _ (List.mem_singleton_self _))
  obtain ⟨hlast, hspec⟩ := hholds.gen static hnow
  rw [Draws.after, List.foldl_append] at hdraws
  have hstep : (Draws.after events).step (.gen now static) = ⟨some time, some sid, number⟩ := hdraws
  rw [hstep] at hlast hspec
  obtain ⟨time', sid', number', hsame, hnumber, hid'⟩ := hspec id hid
  cases hsame
  exact ⟨hid', hlast.inTime time rfl, lt_of_le_of_lt (hlast.sid sid rfl).2 (by decide), hnumber⟩

/-- The first draw of a service that is handed out a service id. -/
theorem Drawn.first (harbor : LuaInt) {now sid : LuaInt} {static : BitVec 32} (hstatic : (lsid static).1 = some sid)
    (hnow : now.toNat < 2 ^ 33) :
    Drawn harbor (now <<< 31 ||| serviceBits harbor sid ||| BitVec.ofNat 64 1) now sid 1 := by
  refine ⟨[], now, static, fun event hevent ↦ ?_, ?_, ?_⟩
  · obtain rfl := List.mem_singleton.mp hevent
    exact hnow
  · have hfirst := (Uuid.Holds.initial harbor).ensureService static
    rw [hstatic] at hfirst
    change ((Uuid.initial).gen harbor now static).1 = _
    unfold Uuid.gen
    generalize Uuid.initial.ensureService harbor static = ensured at hfirst
    obtain ⟨result, next⟩ := ensured
    obtain rfl := hfirst
    rfl
  · change Draws.step ⟨none, none, 0⟩ (.gen now static) = _
    rw [Draws.step, hstatic]
    rfl

/-! ### Ids of several services -/

/-- `uuid.split` gives back what every id of a service with a given service id was drawn from exactly when the
service id has fifteen bits, and two such services with different harbors or service ids never draw the same
id. -/
theorem uuid_layout {harbor sid : LuaInt} (hharbor : harbor.toNat < 64)
    (hsid : ∃ static, (lsid static).1 = some sid) :
    ((∀ id time number, Drawn harbor id time sid number →
        split id = (time, harbor, sid, BitVec.ofNat 64 number)) ↔ sid.toNat < 2 ^ 15) ∧
      (sid.toNat < 2 ^ 15 → ∀ harbor' sid' : LuaInt, harbor'.toNat < 64 → sid'.toNat < 2 ^ 15 →
        (harbor, sid) ≠ (harbor', sid') → ∀ id time number time' number',
          Drawn harbor id time sid number → ¬ Drawn harbor' id time' sid' number') := by
  -- a service id of fifteen bits stays in its place
  have hexact : ∀ {harbor sid id time : LuaInt} {number : ℕ}, harbor.toNat < 64 → sid.toNat < 2 ^ 15 →
      Drawn harbor id time sid number → split id = (time, harbor, sid, BitVec.ofNat 64 number) := by
    intro harbor sid id time number hharbor hsmall hdrawn
    obtain ⟨rfl, htime, hsid, hnumber⟩ := hdrawn.spec
    rw [split_id hharbor hsid htime hnumber, Nat.div_eq_of_lt hsmall, Nat.mod_eq_of_lt hsmall, Nat.or_zero]
    simp only [BitVec.ofNat_toNat, BitVec.setWidth_eq]
  refine ⟨⟨fun hsplit ↦ ?_, fun hsmall id time number ↦ hexact hharbor hsmall⟩, ?_⟩
  · obtain ⟨static, hstatic⟩ := hsid
    have hzero : (0 : LuaInt).toNat < 2 ^ 33 := Nat.two_pow_pos 33
    have hdrawn := Drawn.first harbor hstatic hzero
    have hparts := hsplit _ _ _ hdrawn
    have hrange := lsid_some hstatic
    have hwide : sid.toNat < 2 ^ 16 := by omega
    rw [split_id hharbor hwide hzero (show 1 < 1024 by decide)] at hparts
    have hservice : BitVec.ofNat 64 (sid.toNat % 2 ^ 15) = sid :=
      congrArg (fun parts ↦ parts.2.2.1) hparts
    have hmod := congrArg BitVec.toNat hservice
    rw [BitVec.toNat_ofNat] at hmod
    omega
  · intro hsmall harbor' sid' hharbor' hsmall' hne id time number time' number' hdrawn hdrawn'
    have hparts := (hexact hharbor hsmall hdrawn).symm.trans (hexact hharbor' hsmall' hdrawn')
    have hservice : (harbor, sid) = (harbor', sid') :=
      congrArg (fun parts ↦ (parts.2.1, parts.2.2.1)) hparts
    exact hne hservice

/-- The 32767th service on harbor 0: the largest service id that fits. -/
theorem uuid_layout_last : ∃ sid : LuaInt, sid.toNat = 0x7fff ∧
    ∀ id time number, Drawn 0 id time sid number → split id = (time, 0, sid, BitVec.ofNat 64 number) :=
  ⟨0x7fff, rfl, (uuid_layout (by decide) ⟨0x7ffe, by decide⟩).1.mpr (by decide)⟩

/-- The service with the id `0x8001` on harbor 0 draws the id of the first service on harbor 1, and
`uuid.split` takes it for that. -/
theorem uuid_of_other_harbor : ∃ id : LuaInt, Drawn 0 id 1700000000 0x8001 1 ∧
    Drawn 1 id 1700000000 1 1 ∧ split id ≠ (1700000000, 0, 0x8001, 1) := by
  refine ⟨1700000000 <<< 31 ||| serviceBits 1 1 ||| 1,
    ⟨[], 1700000000, 0x8000, ?_, by decide +kernel, by rfl⟩, ⟨[], 1700000000, 0, ?_, by decide +kernel, by rfl⟩,
    by decide +kernel⟩
  · intro event hevent
    obtain rfl := List.mem_singleton.mp hevent
    exact show (1700000000 : LuaInt).toNat < 2 ^ 33 by decide
  · intro event hevent
    obtain rfl := List.mem_singleton.mp hevent
    exact show (1700000000 : LuaInt).toNat < 2 ^ 33 by decide

end SvrDemo.Base
