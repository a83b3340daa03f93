import SvrDemo.Base.Uuid
import SvrDemo.Protocol.Machine

/-!
# The order of the ids of a service

`uuid.gen` reads the clock once and keeps the second until a timer of 100 ticks has fired, and it counts the
draws of the second past the last number that fits. The machine `drawing` has one service with the timers it
has armed, what the clock has shown last and the ids the service has drawn. Its runs meet `OnTime` when the
clock stays in 32 bits, never goes back, and has moved on when a timer fires.

What carries the runs is `Ordered`: a timer is armed exactly while a second is kept, the ids so far lie below
the end of that second, and below the next number of it. Without a second they lie below what the clock
shows.
-/

set_option autoImplicit false
set_option relaxedAutoImplicit false

namespace SvrDemo.Base

open Lua Skynet Protocol

/-! ### A service on a clock -/

/-- Whether `uuid.gen` arms a timer: it keeps no second, and it has a service id. -/
def Uuid.arms (harbor : LuaInt) (sid : BitVec 32) (self : Uuid) : Bool :=
  self.timestamp.isNone && ((self.ensureService harbor sid).1.toOption).isSome

/-- A service that draws ids: the library, the times at which the armed timers were armed, what the clock has
shown last, and the ids that were returned, the last one first. -/
structure Drawing where
  uuid : Uuid
  timers : List LuaInt
  clock : LuaInt
  ids : List LuaInt

/-- A draw, at a time and with what the static variable holds, or one of the armed timers at a time. -/
inductive ClockEvent
  | gen (now : LuaInt) (sid : BitVec 32)
  | fire (timer : ℕ) (now : LuaInt)

/-- The id that a draw has returned, if it has not raised. -/
def returned : Except LuaError LuaInt → List LuaInt
  | .ok id => [id]
  | .error _ => []

/-- A service of a harbor on its clock. -/
def drawing (harbor : LuaInt) : Machine Drawing ClockEvent where
  step state
    | .gen now sid =>
      some { uuid := (state.uuid.gen harbor now sid).2.1
             timers := if state.uuid.arms harbor sid then now :: state.timers else state.timers
             clock := now
             ids := returned (state.uuid.gen harbor now sid).1 ++ state.ids }
    | .fire timer now =>
      if timer < state.timers.length then
        some { state with uuid := state.uuid.timeout, timers := state.timers.eraseIdx timer, clock := now }
      else none

/-- A service that has just loaded the library. -/
def Drawing.initial : Drawing := ⟨.initial, [], 0, []⟩

/-- The clock stays in 32 bits and does not go back, and it has moved on since a timer that fires was
armed. -/
def OnTime (state : Drawing) : ClockEvent → Prop
  | .gen now _ => state.clock.toNat ≤ now.toNat ∧ now.toNat < 2 ^ 32
  | .fire timer now => state.clock.toNat ≤ now.toNat ∧ now.toNat < 2 ^ 32 ∧
      ∀ armed ∈ state.timers[timer]?, armed.toNat + 1 ≤ now.toNat

instance : ∀ state event, Decidable (OnTime state event)
  | _, .gen _ _ => inferInstanceAs (Decidable (_ ∧ _))
  | state, .fire timer now =>
    decidable_of_iff (state.clock.toNat ≤ now.toNat ∧ now.toNat < 2 ^ 32 ∧
      state.timers[timer]?.all (fun armed ↦ armed.toNat + 1 ≤ now.toNat) = true)
      (by simp only [OnTime, Option.all_eq_true, decide_eq_true_eq, Option.mem_def])

/-! ### The value of an id -/

theorem serviceBits_mask (harbor sid : LuaInt) : serviceBits harbor sid = serviceBits (harbor &&& 0x3f) sid := by
  rw [serviceBits, serviceBits, BitVec.and_assoc, BitVec.and_self]

/-- The harbor of `uuid.gen` has six bits, whatever the harbor is. -/
theorem toNat_mask_lt (harbor : LuaInt) : (harbor &&& 0x3f).toNat < 64 := by
  rw [BitVec.toNat_and]
  exact Nat.lt_succ_of_le Nat.and_le_right

theorem serviceBits_lt (harbor : LuaInt) {sid : LuaInt} (hsid : sid.toNat < 2 ^ 16) :
    (serviceBits harbor sid).toNat + 1024 ≤ 2 ^ 31 := by
  have hharbor := toNat_mask_lt harbor
  have hnode := harbor_lt hharbor hsid
  rw [serviceBits_mask, toNat_serviceBits hharbor hsid]
  omega

/-- An id is the sum of its time, its service and its number. -/
theorem toNat_drawn {harbor sid time : LuaInt} {number : ℕ} (hsid : sid.toNat < 2 ^ 16)
    (htime : time.toNat < 2 ^ 33) (hnumber : number < 1024) :
    (time <<< 31 ||| serviceBits harbor sid ||| BitVec.ofNat 64 number).toNat =
      2 ^ 31 * time.toNat + (serviceBits harbor sid).toNat + number := by
  have hharbor := toNat_mask_lt harbor
  rw [serviceBits_mask, toNat_id hharbor hsid htime hnumber, toNat_serviceBits hharbor hsid]
  omega

/-- Ids below `2 ^ 63` compare as the numbers they stand for. -/
theorem toInt_lt_of_toNat_lt {earlier later : LuaInt} (hlt : earlier.toNat < later.toNat)
    (hlater : later.toNat < 2 ^ 63) : earlier.toInt < later.toInt := by
  rw [BitVec.toInt_eq_toNat_of_lt (by omega), BitVec.toInt_eq_toNat_of_lt (by omega)]
  exact Int.ofNat_lt.mpr hlt

/-! ### What a run keeps -/

/-- The ids that a service has drawn, and the second that it draws the next ones from. -/
structure Ordered (harbor : LuaInt) (state : Drawing) (draws : Draws) : Prop where
  holds : Uuid.Holds harbor state.uuid draws
  clock : state.clock.toNat < 2 ^ 32
  timers : state.timers = draws.time.toList
  second : ∀ time ∈ draws.time, time.toNat < 2 ^ 32
  between : draws.time = none → ∀ id ∈ state.ids, id.toNat < 2 ^ 31 * state.clock.toNat
  within : ∀ time ∈ draws.time, ∀ id ∈ state.ids, id.toNat < 2 ^ 31 * (time.toNat + 1)
  counted : ∀ time ∈ draws.time, ∀ sid ∈ draws.sid, ∀ id ∈ state.ids,
    id.toNat ≤ 2 ^ 31 * time.toNat + (serviceBits harbor sid).toNat + draws.number
  sorted : state.ids.Pairwise fun later earlier ↦ earlier.toInt < later.toInt

namespace Ordered

variable {harbor : LuaInt} {state next : Drawing} {draws : Draws}

theorem initial (harbor : LuaInt) : Ordered harbor .initial ⟨none, none, 0⟩ where
  holds := .initial harbor
  clock := Nat.two_pow_pos 32
  timers := rfl
  second _ h := nomatch h
  between _ _ h := nomatch h
  within _ h := nomatch h
  counted _ h := nomatch h
  sorted := .nil

/-- A service without a service id that is handed none draws nothing and arms nothing. -/
theorem refused (h : Ordered harbor state draws) (now : LuaInt) {static : BitVec 32}
    (hservice : draws.sid.or (lsid static).1 = none) :
    draws.step (.gen now static) = draws ∧ returned (state.uuid.gen harbor now static).1 = [] ∧
      state.uuid.arms harbor static = false := by
  have hensured := h.holds.ensureService static
  rw [hservice] at hensured
  refine ⟨?_, ?_, ?_⟩
  · rw [Draws.step, hservice]
  · unfold Uuid.gen
    generalize state.uuid.ensureService harbor static = ensured at hensured
    obtain ⟨result, next⟩ := ensured
    obtain rfl := hensured
    rfl
  · rw [Uuid.arms, hensured]
    exact Bool.and_false _

/-- A service with a service id arms a timer exactly when it keeps no second. -/
theorem timers_of_gen (h : Ordered harbor state draws) {now sid : LuaInt} {static : BitVec 32}
    (hservice : draws.sid.or (lsid static).1 = some sid) :
    (if state.uuid.arms harbor static then now :: state.timers else state.timers) =
      (draws.time.or (some now)).toList := by
  have hensured := h.holds.ensureService static
  rw [hservice] at hensured
  have harms : state.uuid.arms harbor static = state.uuid.timestamp.isNone := by
    rw [Uuid.arms, hensured]
    exact Bool.and_true _
  rw [harms, h.holds.timestamp, h.timers]
  cases htime : draws.time with
  | none => rfl
  | some time =>
    obtain ⟨sid', hsid'⟩ := Option.isSome_iff_exists.mp (h.holds.handed (by rw [htime]; rfl))
    rw [hsid']
    rfl

/-- The ids so far lie below the one that the next draw is to return. -/
theorem ids_lt (h : Ordered harbor state draws) {now sid : LuaInt} {static : BitVec 32}
    (hclock : state.clock.toNat ≤ now.toNat) (hservice : draws.sid.or (lsid static).1 = some sid) :
    ∀ id ∈ state.ids, id.toNat < 2 ^ 31 * (draws.time.getD now).toNat + (serviceBits harbor sid).toNat +
      if draws.time.isSome then draws.number + 1 else 1 := by
  intro id hid
  cases htime : draws.time with
  | none =>
    have hbelow := h.between htime id hid
    have hmono : 2 ^ 31 * state.clock.toNat ≤ 2 ^ 31 * now.toNat := Nat.mul_le_mul_left _ hclock
    show id.toNat < 2 ^ 31 * now.toNat + _ + 1
    omega
  | some time =>
    obtain ⟨sid', hsid'⟩ := Option.isSome_iff_exists.mp (h.holds.handed (by rw [htime]; rfl))
    rw [hsid', Option.some_or] at hservice
    obtain rfl := Option.some.inj hservice
    have hcounted := h.counted time htime sid' hsid' id hid
    show id.toNat < 2 ^ 31 * time.toNat + _ + (draws.number + 1)
    omega

/-- A draw keeps the ids in order. -/
theorem gen (h : Ordered harbor state draws) {now : LuaInt} {static : BitVec 32}
    (hclock : state.clock.toNat ≤ now.toNat) (hnow : now.toNat < 2 ^ 32) :
    Ordered harbor
      { uuid := (state.uuid.gen harbor now static).2.1
        timers := if state.uuid.arms harbor static then now :: state.timers else state.timers
        clock := now
        ids := returned (state.uuid.gen harbor now static).1 ++ state.ids }
      (draws.step (.gen now static)) := by
  have hnow' : now.toNat < 2 ^ 33 := by omega
  obtain ⟨hholds, hdrawn⟩ := h.holds.gen static hnow'
  cases hservice : draws.sid.or (lsid static).1 with
  | none =>
    obtain ⟨hstep, hreturned, harms⟩ := h.refused now hservice
    rw [hstep] at hholds ⊢
    rw [hreturned, harms]
    refine ⟨hholds, hnow, h.timers, h.second, fun htime id hid ↦ ?_, h.within, h.counted, h.sorted⟩
    exact (h.between htime id hid).trans_le (Nat.mul_le_mul_left _ hclock)
  | some sid =>
    have hstep : draws.step (.gen now static) =
        ⟨draws.time.or (some now), some sid, if draws.time.isSome then draws.number + 1 else 1⟩ := by
      rw [Draws.step, hservice]
    have hor : draws.time.or (some now) = some (draws.time.getD now) := by
      cases draws.time <;> rfl
    have hsecond : (draws.time.getD now).toNat < 2 ^ 32 := by
      cases htime : draws.time with
      | none => exact hnow
      | some time => exact h.second time htime
    have hlt := h.ids_lt hclock hservice
    rw [hstep, hor] at hholds hdrawn ⊢
    have hbits := serviceBits_lt harbor
      (show sid.toNat < 2 ^ 16 from Nat.lt_succ_of_le (hholds.sid sid rfl).2)
    generalize (if draws.time.isSome = true then draws.number + 1 else 1) = number at *
    -- the id of this draw has the number that the ids so far lie below
    have hvalue : ∀ id ∈ returned (state.uuid.gen harbor now static).1, number < 1024 ∧
        id.toNat = 2 ^ 31 * (draws.time.getD now).toNat + (serviceBits harbor sid).toNat + number := by
      intro id hid
      cases hresult : (state.uuid.gen harbor now static).1 with
      | error error =>
        rw [hresult] at hid
        cases hid
      | ok id' =>
        rw [hresult] at hid
        obtain rfl := List.mem_singleton.mp hid
        obtain ⟨time, sid', number', hsame, hnumber, rfl⟩ := hdrawn id hresult
        cases hsame
        exact ⟨hnumber, toNat_drawn (Nat.lt_succ_of_le (hholds.sid sid rfl).2) (by omega) hnumber⟩
    refine ⟨hholds, hnow, ?_, ?_, fun hnone ↦ absurd hnone (Option.some_ne_none _), ?_, ?_, ?_⟩
    · exact (h.timers_of_gen hservice).trans (congrArg Option.toList hor)
    · rintro _ ⟨⟩
      exact hsecond
    · rintro _ ⟨⟩ id hid
      rcases List.mem_append.mp hid with hnew | hold
      · obtain ⟨hnumber, hid⟩ := hvalue id hnew
        omega
      · cases htime : draws.time with
        | none =>
          have hbelow := h.between htime id hold
          show id.toNat < 2 ^ 31 * (now.toNat + 1)
          omega
        | some time => exact h.within time htime id hold
    · rintro _ ⟨⟩ _ ⟨⟩ id hid
      rcases List.mem_append.mp hid with hnew | hold
      · exact (hvalue id hnew).2.le
      · exact (hlt id hold).le
    · refine List.pairwise_append.mpr ⟨?_, h.sorted, fun later hlater earlier hearlier ↦ ?_⟩
      · cases (state.uuid.gen harbor now static).1 with
        | ok id => exact List.pairwise_singleton _ id
        | error error => exact .nil
      · obtain ⟨hnumber, hlater⟩ := hvalue later hlater
        have hbefore := hlt earlier hearlier
        exact toInt_lt_of_toNat_lt (by omega) (by omega)

/-- A timer that fires leaves the ids below what the clock shows. -/
theorem fire (h : Ordered harbor state draws) {timer : ℕ} {now : LuaInt}
    (hon : OnTime state (.fire timer now)) (htimer : timer < state.timers.length) :
    Ordered harbor
      { state with uuid := state.uuid.timeout, timers := state.timers.eraseIdx timer, clock := now }
      (draws.step .timeout) := by
  obtain ⟨hclock, hnow, harmed⟩ := hon
  -- the only timer is that of the second that is kept
  cases htime : draws.time with
  | none =>
    rw [h.timers, htime] at htimer
    exact absurd htimer (Nat.not_lt_zero timer)
  | some time =>
    have hlist : state.timers = [time] := h.timers.trans (congrArg Option.toList htime)
    rw [hlist] at htimer harmed
    obtain rfl : timer = 0 := Nat.lt_one_iff.mp htimer
    have hmoved : time.toNat + 1 ≤ now.toNat := harmed time rfl
    refine ⟨h.holds.timeout, hnow, ?_, fun _ hnone ↦ (nomatch hnone), fun _ id hid ↦ ?_,
      fun _ hnone ↦ (nomatch hnone), fun _ hnone ↦ (nomatch hnone), h.sorted⟩
    · show state.timers.eraseIdx 0 = []
      rw [hlist, List.eraseIdx_cons_zero]
    · exact (h.within time htime id hid).trans_le (Nat.mul_le_mul_left _ hmoved)

/-- What happens on time keeps the ids in order. -/
theorem step (h : Ordered harbor state draws) {event : ClockEvent} (hon : OnTime state event)
    (hstep : (drawing harbor).step state event = some next) : ∃ draws', Ordered harbor next draws' := by
  cases event with
  | gen now static =>
    obtain rfl := Option.some.inj hstep
    exact ⟨_, h.gen hon.1 hon.2⟩
  | fire timer now =>
    simp only [drawing] at hstep
    split at hstep
    · next htimer =>
      obtain rfl := Option.some.inj hstep
      exact ⟨_, h.fire hon htimer⟩
    · exact nomatch hstep

/-- The ids are in order along every run on time. -/
theorem run (hrun : (drawing harbor).Run OnTime .initial state) : ∃ draws, Ordered harbor state draws := by
  have hstep : ∀ state event next, OnTime state event → (∃ draws, Ordered harbor state draws) →
      (drawing harbor).step state event = some next → ∃ draws, Ordered harbor next draws :=
    fun _ _ _ hon ⟨_, h⟩ hstep ↦ h.step hon hstep
  exact hrun.invariant hstep ⟨_, .initial harbor⟩

end Ordered

/-- Whatever draws and timers there have been in a service, every id is greater than every id before it, and
no id is repeated. -/
theorem ids_increase {harbor : LuaInt} {state : Drawing}
    (hrun : (drawing harbor).Run OnTime .initial state) :
    state.ids.Pairwise (fun later earlier ↦ earlier.toInt < later.toInt) ∧ state.ids.Nodup := by
  obtain ⟨draws, h⟩ := Ordered.run hrun
  refine ⟨h.sorted, h.sorted.imp fun {later earlier} hlt ↦ ?_⟩
  rintro rfl
  exact lt_irrefl _ hlt

/-- Two draws in a second, the timer, and a draw in the next second. -/
theorem ids_increase_seconds : ∃ state : Drawing, (drawing 1).Run OnTime .initial state ∧
    state.ids.map split = [(1700000001, 1, 1, 1), (1700000000, 1, 1, 2), (1700000000, 1, 1, 1)] ∧
    state.ids.Pairwise (fun later earlier ↦ earlier.toInt < later.toInt) ∧ state.ids.Nodup := by
  obtain ⟨state, hrun, hids⟩ := (drawing 1).exists_run_of_playMeeting OnTime .initial
    [.gen 1700000000 0, .gen 1700000001 1, .fire 0 1700000001, .gen 1700000001 1]
    (fun state ↦ state.ids.map split)
    (show _ = some [(1700000001, 1, 1, 1), (1700000000, 1, 1, 2), (1700000000, 1, 1, 1)] by decide +kernel)
  exact ⟨state, hrun, hids, ids_increase hrun⟩

end SvrDemo.Base
