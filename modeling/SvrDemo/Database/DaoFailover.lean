import SvrDemo.Database.Dao
import Mathlib.Data.List.Chain
import Mathlib.Data.List.Range
import Mathlib.Data.Nat.ModEq

/-!
# A service that fails

Whatever calls are under way at once, each is sent to one of the services. But the number goes on after a reply only:
calls that follow each other go round until they reach a service that fails, and stay there (`dead_service_captures`).
`route` is the way that they take.
-/

set_option autoImplicit false
set_option relaxedAutoImplicit false

namespace SvrDemo.Database

open Coroutine Skynet

variable {cnt : ℕ}

/-! ### The services that are called -/

/-- The number of the module is positive, and every call was sent to one of the services. -/
structure Dao.InRange (cnt : ℕ) (state : Dao) : Prop where
  positive : 0 < state.curDbsId
  called : ∀ index ∈ state.called, 1 ≤ index ∧ index ≤ cnt

theorem Dao.next_range {state : Dao} (hcnt : 0 < cnt) (hpositive : 0 < state.curDbsId) :
    1 ≤ state.next cnt ∧ state.next cnt ≤ cnt := by
  unfold next
  split <;> omega

theorem DaoDoes.inRange {point : DaoPoint} {first last : Dao} {heard : List Answer} {left : List DaoPoint}
    (hcnt : 0 < cnt) (hrange : first.InRange cnt) (hdoes : DaoDoes cnt point first heard left last) :
    last.InRange cnt := by
  cases point with
  | call cmd =>
    obtain ⟨rfl, -⟩ := hdoes
    have hnext := Dao.next_range hcnt hrange.positive
    refine ⟨hnext.1, fun index hindex ↦ ?_⟩
    rcases List.mem_append.mp hindex with hindex | hindex
    · exact hrange.called index hindex
    · exact List.mem_singleton.mp hindex ▸ hnext
  | service index cmd =>
    obtain ⟨-, ⟨-, rfl⟩ | ⟨-, rfl⟩⟩ := hdoes
    · exact hrange
    · exact ⟨Nat.succ_pos _, hrange.called⟩

theorem sound_dao (hcnt : 0 < cnt) :
    (dao cnt).Sound (daoContract cnt) (fun state _ ↦ state.InRange cnt) fun _ _ ↦ True := by
  refine System.sound_stateless (fun point reply state hpoint ↦ keeps_daoEntry cnt hpoint reply state) ?_ ?_
  · intro configuration point _ harrives hinv
    cases point with
    | call cmd => exact ⟨hinv, trivial⟩
    | service index cmd => exact nomatch harrives
  · intro configuration before point after reply answers left last _ _ hinv hdoes
    exact DaoDoes.inRange hcnt hinv hdoes

/-- The configurations that a module can reach keep the contract. -/
theorem good_of_anyRun (hcnt : 0 < cnt) {last : Configuration skynet DaoPoint Dao}
    (hrun : (dao cnt).AnyRun ⟨.initial, [], []⟩ last) :
    System.Good (daoContract cnt) (fun state _ ↦ state.InRange cnt) last := by
  refine (sound_dao hcnt).good_of_run ⟨⟨Nat.one_pos, fun _ hindex ↦ absurd hindex List.not_mem_nil⟩, ?_, ?_⟩ hrun
  · exact fun thread hthread ↦ absurd hthread List.not_mem_nil
  · exact fun error herror ↦ absurd herror List.not_mem_nil

/-! ### Calls that follow each other -/

/-- The service with a number raises, and no other. -/
def Raises (failing : ℕ) (reply : Answer) : DaoPoint → Prop
  | .call _ => True
  | .service index _ => reply = .raised ↔ index = failing

instance (failing : ℕ) (reply : Answer) : (point : DaoPoint) → Decidable (Raises failing reply point)
  | .call _ => inferInstanceAs (Decidable True)
  | .service index _ => inferInstanceAs (Decidable (reply = .raised ↔ index = failing))

/-- A call begins when none is under way, and the service with a number is the one that raises. -/
def Sequential (failing : ℕ) (configuration : Configuration skynet DaoPoint Dao) : Move skynet DaoPoint → Prop
  | .arrive _ => configuration.points = []
  | .resume index reply _ => ∀ point ∈ configuration.points[index]?, Raises failing reply point

instance (failing : ℕ) (configuration : Configuration skynet DaoPoint Dao) :
    (move : Move skynet DaoPoint) → Decidable (Sequential failing configuration move)
  | .arrive _ => inferInstanceAs (Decidable (configuration.points = []))
  | .resume index reply _ => inferInstanceAs
    (Decidable (∀ point ∈ configuration.points[index]?, Raises failing reply point))

/-- How many services come before the one that fails. -/
def distance (cnt failing : ℕ) (state : Dao) : ℕ := (failing + cnt - state.next cnt) % cnt

/-- The service of a call: the services in turn, up to the one that fails. -/
def route (cnt failing : ℕ) (start : Dao) (number : ℕ) : ℕ :=
  (start.next cnt - 1 + min number (distance cnt failing start)) % cnt + 1

theorem add_one_mod (hcnt : 0 < cnt) (number : ℕ) :
    (number + 1) % cnt = if number % cnt + 1 = cnt then 0 else number % cnt + 1 := by
  have hlt := Nat.mod_lt number hcnt
  have hsplit : number + 1 = cnt * (number / cnt) + (number % cnt + 1) := by
    have := Nat.div_add_mod number cnt
    omega
  rw [hsplit, Nat.mul_add_mod]
  split
  · next hlast => rw [hlast, Nat.mod_self]
  · next hlast => exact Nat.mod_eq_of_lt (by omega)

variable {failing : ℕ} {start : Dao}

/-- The route is at the service that fails when it has come that far, and not before. -/
theorem route_eq_iff (hfirst : 1 ≤ failing) (hlast : failing ≤ cnt) (hpositive : 0 < start.curDbsId) (number : ℕ) :
    route cnt failing start number = failing ↔ distance cnt failing start ≤ number := by
  have hcnt : 0 < cnt := by omega
  obtain ⟨hlow, hhigh⟩ := Dao.next_range hcnt hpositive
  have hlt : distance cnt failing start < cnt := Nat.mod_lt _ hcnt
  have harrived : (start.next cnt - 1 + distance cnt failing start) % cnt = failing - 1 := by
    have hsum : start.next cnt - 1 + (failing + cnt - start.next cnt) = failing - 1 + cnt := by omega
    rw [distance, Nat.add_mod_mod, hsum, Nat.add_mod_right, Nat.mod_eq_of_lt (by omega)]
  constructor
  · intro hroute
    by_contra hbefore
    rw [route, min_eq_left (by omega)] at hroute
    have hsame : (start.next cnt - 1 + number) % cnt = (start.next cnt - 1 + distance cnt failing start) % cnt := by
      omega
    have hmod : number ≡ distance cnt failing start [MOD cnt] := Nat.ModEq.add_left_cancel' _ hsame
    have := hmod.eq_of_lt_of_lt (by omega) hlt
    omega
  · intro hafter
    rw [route, min_eq_right hafter, harrived]
    omega

/-- A reply takes the module to the next service of the route. -/
theorem next_route (hfirst : 1 ≤ failing) (hlast : failing ≤ cnt) (hpositive : 0 < start.curDbsId) {number : ℕ}
    {state : Dao} (hcur : state.curDbsId = route cnt failing start number) :
    if route cnt failing start number = failing then state.next cnt = route cnt failing start (number + 1)
    else state.advance.next cnt = route cnt failing start (number + 1) := by
  have hcnt : 0 < cnt := by omega
  have hiff := route_eq_iff hfirst hlast hpositive number
  split
  · next hroute =>
    rw [Dao.next, hcur, hroute, if_neg (by omega), (route_eq_iff hfirst hlast hpositive (number + 1)).mpr (by omega)]
  · next hroute =>
    have hbefore : number < distance cnt failing start := by
      rw [hiff] at hroute
      omega
    have hadvance : state.advance.next cnt =
        if route cnt failing start number + 1 > cnt then 1 else route cnt failing start number + 1 := by
      rw [← hcur]
      rfl
    have hstep := add_one_mod hcnt (start.next cnt - 1 + number)
    have hlt := Nat.mod_lt (start.next cnt - 1 + number) hcnt
    rw [hadvance, route, route, min_eq_left hbefore.le, min_eq_left (by omega), ← add_assoc, hstep]
    split <;> split <;> omega

/-- The calls that have been sent are those of the route, and the module is on it: between two calls it has the number
of the next one, and in the middle of a call that of its service. -/
def OnRoute (cnt failing : ℕ) (start state : Dao) (points : List DaoPoint) : Prop :=
  ∃ number, state.called = start.called ++ (List.range number).map (route cnt failing start) ∧
    ((points = [] ∨ ∃ cmd, points = [.call cmd]) ∧ state.next cnt = route cnt failing start number ∨
      ∃ before cmd, number = before + 1 ∧ state.curDbsId = route cnt failing start before ∧
        points = [.service (route cnt failing start before) cmd])

theorem onRoute_of_run (hfirst : 1 ≤ failing) (hlast : failing ≤ cnt) {first last : Configuration skynet DaoPoint Dao}
    (hreached : (dao cnt).AnyRun ⟨.initial, [], []⟩ first) (hidle : first.points = [])
    (hrun : (dao cnt).Run (Sequential failing) first last) :
    OnRoute cnt failing first.state last.state last.points := by
  have hcnt : 0 < cnt := by omega
  have hgood := good_of_anyRun hcnt hreached
  have hpositive := hgood.holds.positive
  have hstart : OnRoute cnt failing first.state first.state first.points := by
    refine ⟨0, by simp, .inl ⟨.inl hidle, ?_⟩⟩
    obtain ⟨hlow, hhigh⟩ := Dao.next_range hcnt hpositive
    rw [route, Nat.zero_min, add_zero, Nat.mod_eq_of_lt (by omega)]
    omega
  suffices hboth : System.Good (daoContract cnt) (fun state _ ↦ state.InRange cnt) last ∧
      OnRoute cnt failing first.state last.state last.points from hboth.2
  refine (sound_dao hcnt).holds_of_run (fun _ _ _ ↦ trivial) ?_ ?_ hgood hstart hrun
  · intro configuration point hmeets harrives honRoute
    have hnone : configuration.points = [] := hmeets
    obtain ⟨number, hcalled, ⟨-, hnext⟩ | ⟨before, cmd, -, -, hpoints⟩⟩ := honRoute
    · cases point with
      | call cmd => exact ⟨number, hcalled, .inl ⟨.inr ⟨cmd, by rw [hnone]; rfl⟩, hnext⟩⟩
      | service index cmd => exact nomatch harrives
    · exact absurd (hnone.symm.trans hpoints) nofun
  · intro configuration before point after reply answers left next hmeets hpoints _ honRoute hdoes
    obtain ⟨number, hcalled, ⟨hnone | ⟨cmd, hcall⟩, hnext⟩ | ⟨earlier, cmd, rfl, hcur, hservice⟩⟩ := honRoute
    · exact absurd (hnone.symm.trans hpoints) (by simp)
    · obtain ⟨rfl, rfl, rfl⟩ : before = [] ∧ point = .call cmd ∧ after = [] := by
        rw [hcall] at hpoints
        rcases before with - | ⟨other, before⟩ <;> simp_all
      obtain ⟨rfl, rfl⟩ := hdoes
      refine ⟨number + 1, ?_, .inr ⟨number, cmd, rfl, hnext, by rw [hnext]; rfl⟩⟩
      rw [Dao.address, hnext, hcalled, List.range_succ, List.map_append, List.append_assoc]
      rfl
    · obtain ⟨rfl, rfl, rfl⟩ : before = [] ∧ point = .service (route cnt failing first.state earlier) cmd ∧
          after = [] := by
        rw [hservice] at hpoints
        rcases before with - | ⟨other, before⟩ <;> simp_all
      have hraised : reply = .raised ↔ route cnt failing first.state earlier = failing :=
        hmeets (.service _ cmd) (by rw [hservice]; rfl)
      have hroute := next_route hfirst hlast hpositive hcur
      obtain ⟨rfl, ⟨⟨rest, hheard⟩, rfl⟩ | ⟨hheard, rfl⟩⟩ := hdoes
      · rw [if_pos (hraised.mp (List.cons.inj hheard).1)] at hroute
        exact ⟨earlier + 1, hcalled, .inl ⟨.inl rfl, hroute⟩⟩
      · rw [if_neg fun h ↦ hheard answers (by rw [hraised.mpr h])] at hroute
        exact ⟨earlier + 1, hcalled, .inl ⟨.inl rfl, hroute⟩⟩

/-- Calls of the database services. In every run every call is sent to one of them. When calls follow each other, from
any moment on at which none is under way, and one of the services raises, no two calls in a row go to this one exactly
as long as there are no more of them than it takes to reach it. -/
theorem dead_service_captures (hcnt : 0 < cnt) :
    (∀ last, (dao cnt).AnyRun ⟨.initial, [], []⟩ last → ∀ index ∈ last.state.called, 1 ≤ index ∧ index ≤ cnt) ∧
    ∀ failing, 1 ≤ failing → failing ≤ cnt → ∀ first, (dao cnt).AnyRun ⟨.initial, [], []⟩ first → first.points = [] →
      ∀ last, (dao cnt).Run (Sequential failing) first last → ∃ calls, last.state.called = first.state.called ++ calls ∧
        (calls.IsChain (fun before after ↦ ¬ (before = failing ∧ after = failing)) ↔
          calls.length ≤ distance cnt failing first.state + 1) := by
  refine ⟨fun last hrun ↦ (good_of_anyRun hcnt hrun).holds.called,
    fun failing hfirst hlast first hreached hidle last hrun ↦ ?_⟩
  obtain ⟨number, hcalled, -⟩ := onRoute_of_run hfirst hlast hreached hidle hrun
  have hpositive := (good_of_anyRun hcnt hreached).holds.positive
  refine ⟨_, hcalled, ?_⟩
  rw [List.isChain_map, List.isChain_range, List.length_map, List.length_range]
  simp only [route_eq_iff hfirst hlast hpositive]
  constructor
  · intro hchain
    by_contra hlong
    exact hchain (distance cnt failing first.state) (by omega) ⟨le_rfl, by omega⟩
  · intro hshort index hindex hboth
    omega

/-- The second of two services fails: it is reached by the second call. -/
theorem dead_service_captures_second : ∃ last, (dao 2).Run (Sequential 2) ⟨.initial, [], []⟩ last ∧
    last.state.called = [1, 2] ∧ last.state.called.IsChain fun before after ↦ ¬ (before = 2 ∧ after = 2) := by
  have hplay : ((dao 2).playMeeting (Sequential 2) ⟨.initial, [], []⟩
      [.arrive (.call "get_user_info"), .resume 0 .ok [], .resume 0 .ok [],
        .arrive (.call "get_user_info"), .resume 0 .ok [], .resume 0 .raised []]).map
      (fun configuration ↦ configuration.state.called) = some [1, 2] := rfl
  obtain ⟨last, hrun, hcalled⟩ := System.exists_run_of_playMeeting _ _ _ _ _ hplay
  obtain ⟨calls, hcalls, hchain⟩ :=
    (dead_service_captures Nat.two_pos).2 2 (by decide) le_rfl ⟨.initial, [], []⟩ (.refl _) rfl last hrun
  obtain rfl : [1, 2] = calls := hcalled.symm.trans hcalls
  exact ⟨last, hrun, hcalled, hcalled ▸ hchain.mpr (by decide)⟩

/-- The first of two services fails, and two calls in a row go there. -/
theorem first_service_called_again : ∃ last, (dao 2).Run (Sequential 1) ⟨.initial, [], []⟩ last ∧
    last.state.called = [1, 1] := by
  have hplay : ((dao 2).playMeeting (Sequential 1) ⟨.initial, [], []⟩
      [.arrive (.call "get_user_info"), .resume 0 .ok [], .resume 0 .raised [],
        .arrive (.call "get_user_info"), .resume 0 .ok [], .resume 0 .raised []]).map
      (fun configuration ↦ configuration.state.called) = some [1, 1] := rfl
  exact System.exists_run_of_playMeeting _ _ _ _ _ hplay

end SvrDemo.Database
