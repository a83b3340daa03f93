import Mathlib.Data.List.Basic
import Mathlib.Tactic.Common

/-!
# Machines, runs and refinement

A machine is a partial step function: what an event makes of a state, or nothing where the event cannot
happen. Parties that exchange messages are a machine whose state has the messages in flight and whose events
say which of them is delivered next.

`Machine.Run` has the runs whose events meet a condition, and `Run.invariant` is the induction over them.
`Machine.Refines` says that a machine, seen through a view of its states, makes steps of another machine or
none at all, and that the condition on its events implies the condition of the other: then a run of the first
is a run of the second (`Refines.run`), and what is proved of the second holds of the first.
-/

set_option autoImplicit false
set_option relaxedAutoImplicit false

namespace SvrDemo.Protocol

variable {σ ε τ δ κ : Type}

/-- What an event makes of a state. -/
structure Machine (σ ε : Type) where
  step : σ → ε → Option σ

namespace Machine

/-- The runs of a machine whose events all meet a condition on the state before the event and on the
event. -/
inductive Run (machine : Machine σ ε) (condition : σ → ε → Prop) : σ → σ → Prop
  | refl (state : σ) : Run machine condition state state
  | snoc {first last next : σ} {event : ε} (run : Run machine condition first last)
      (meets : condition last event) (step : machine.step last event = some next) :
      Run machine condition first next

variable {machine : Machine σ ε} {condition : σ → ε → Prop}

/-- What every event of the runs keeps holds along the runs. -/
theorem Run.invariant {I : σ → Prop}
    (hstep : ∀ state event next, condition state event → I state →
      machine.step state event = some next → I next)
    {first last : σ} (hfirst : I first) (hrun : machine.Run condition first last) : I last := by
  induction hrun with
  | refl => exact hfirst
  | snoc _ meets step ih => exact hstep _ _ _ meets ih step

theorem Run.trans {first middle last : σ} (before : machine.Run condition first middle)
    (after : machine.Run condition middle last) : machine.Run condition first last := by
  induction after with
  | refl => exact before
  | snoc _ meets step ih => exact .snoc ih meets step

/-- Two conditions that agree wherever an invariant holds have the same runs from a state in which it holds. -/
theorem run_congr {I : σ → Prop} {condition' : σ → ε → Prop}
    (hstep : ∀ state event next, condition state event → I state → machine.step state event = some next → I next)
    (hagree : ∀ state event, I state → (machine.step state event).isSome →
      (condition state event ↔ condition' state event))
    {first last : σ} (hfirst : I first) :
    machine.Run condition first last ↔ machine.Run condition' first last := by
  constructor
  · intro hrun
    induction hrun with
    | refl => exact .refl first
    | snoc run meets step ih =>
      have hlast := run.invariant hstep hfirst
      exact .snoc ih ((hagree _ _ hlast (step ▸ rfl)).mp meets) step
  · intro hrun
    induction hrun with
    | refl => exact .refl first
    | snoc _ meets step ih =>
      have hlast := ih.invariant hstep hfirst
      exact .snoc ih ((hagree _ _ hlast (step ▸ rfl)).mpr meets) step

/-- A list of events that meet a condition. -/
def playMeeting (machine : Machine σ ε) (condition : σ → ε → Prop)
    [∀ state event, Decidable (condition state event)] (state : σ) (events : List ε) : Option σ :=
  events.foldlM (fun state event ↦
    if condition state event then machine.step state event else none) state

/-- Events that can be played lead, by a run, to a state in which what was evaluated holds. -/
theorem exists_run_of_playMeeting (machine : Machine σ ε) (condition : σ → ε → Prop)
    [∀ state event, Decidable (condition state event)] (first : σ) (events : List ε) (value : σ → κ)
    {result : κ} (hplay : (machine.playMeeting condition first events).map value = some result) :
    ∃ last, machine.Run condition first last ∧ value last = result := by
  obtain ⟨last, hlast, hvalue⟩ := Option.map_eq_some_iff.mp hplay
  refine ⟨last, ?_, hvalue⟩
  clear hplay hvalue
  induction events generalizing first with
  | nil =>
    obtain rfl : first = last := Option.some.inj hlast
    exact .refl first
  | cons event events ih =>
    rw [playMeeting, List.foldlM_cons, Option.bind_eq_bind, Option.bind_eq_some_iff] at hlast
    obtain ⟨next, hstep, hrest⟩ := hlast
    split at hstep
    · next hmeets => exact Run.trans (.snoc (.refl first) hmeets hstep) (ih next hrest)
    · exact nomatch hstep

/-! ### Refinement -/

/-- A machine makes, through a view, steps of an abstract machine. An event of which the view shows nothing
is no step of the abstract machine. -/
def Refines (concrete : Machine σ ε) (abstract : Machine τ δ) (view : σ → τ)
    (condition : σ → ε → Prop) (condition' : τ → δ → Prop) : Prop :=
  ∀ state event next, condition state event → concrete.step state event = some next →
    view next = view state ∨
      ∃ event', condition' (view state) event' ∧ abstract.step (view state) event' = some (view next)

/-- A run of a machine is a run of the machine that it refines. -/
theorem Refines.run {concrete : Machine σ ε} {abstract : Machine τ δ} {view : σ → τ}
    {condition' : τ → δ → Prop} (hrefines : concrete.Refines abstract view condition condition')
    {first last : σ} (hrun : concrete.Run condition first last) :
    abstract.Run condition' (view first) (view last) := by
  induction hrun with
  | refl => exact .refl (view first)
  | snoc _ meets step ih =>
    rcases hrefines _ _ _ meets step with hsame | ⟨event, hmeets, hstep⟩
    · exact hsame ▸ ih
    · exact .snoc ih hmeets hstep

end Machine

end SvrDemo.Protocol
