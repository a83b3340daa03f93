import SvrDemo.Coroutine.Logic
import SvrDemo.Skynet.Runtime

/-!
# Redis behind the database service

The database service answers every request in a coroutine of its own, and the coroutine waits only for
the replies of redis. A command travels, redis executes it as a whole, and the reply travels back; what
the coroutine does between two commands touches nothing that another coroutine sees. So a command takes
effect at the turn of the coroutine that waits for it.

A command can go wrong in two ways. It may never get to redis, or redis may execute it and the reply is
lost with the connection. The channel raises an error for both, and the coroutine cannot tell them apart.
-/

set_option autoImplicit false
set_option relaxedAutoImplicit false

namespace SvrDemo.Database

open Coroutine Skynet

/-- What a coroutine gets back: the command was executed, it was executed but the reply is lost, or it
was not executed. To a question inside a section it gets an answer. -/
inductive Reply (A : Type)
  | done
  | lost
  | failed
  | answer (value : A)
  deriving DecidableEq

/-- The interface of coroutines that talk to redis, over the questions they ask besides. -/
abbrev redis (Q A : Type) (admissible : Q → A → Bool) : Interface where
  Query := Q
  Answer := Reply A
  Error := LuaError
  admissible := fun query reply ↦
    match reply with
    | .answer value => admissible query value
    | _ => false

variable {Q A P σ β : Type} {admissible : Q → A → Bool}

/-- A command that waits at a point: its change of the database and its result. -/
def command (point : P) (change : σ → σ) (result : σ → β) : Program (redis Q A admissible) P σ β := do
  match ← Program.await (I := redis Q A admissible) point with
  | .failed => .fail .errorCalled
  | .lost => do
    Program.modifyState change
    .fail .errorCalled
  | _ => do
    let state ← Program.getState
    Program.modifyState change
    return result state

/-- A command that only reads. -/
def reading (point : P) (result : σ → β) : Program (redis Q A admissible) P σ β :=
  command point id result

/-! ### Rules -/

variable {K : Contract (redis Q A admissible) P σ}
  {raised : LuaError → Section (redis Q A admissible) P σ → σ → Prop}
  {current : Section (redis Q A admissible) P σ} {state : σ}

/-- A command ends its section. At the next turn of the coroutine the command has been executed, or
not, and the coroutine goes on or fails. -/
theorem wp_command {point : P} {change : σ → σ} {result : σ → β}
    {post : β → Section (redis Q A admissible) P σ → σ → Prop}
    (hends : K.Ends current (current.forks ++ [point]) state)
    (hexecuted : ∀ reply later, reply ≠ .failed → reply ≠ .lost →
      post (result later) ⟨point, later, [reply], []⟩ (change later))
    (hlost : ∀ later, raised .errorCalled ⟨point, later, [.lost], []⟩ (change later))
    (hfailed : ∀ later, raised .errorCalled ⟨point, later, [.failed], []⟩ later) :
    (command point change result).wp K post raised current state := by
  rw [command, Program.wp_bind, Program.wp_await]
  refine ⟨hends, fun reply later _ ↦ ?_⟩
  cases reply with
  | done => exact hexecuted .done later nofun nofun
  | lost => exact hlost later
  | failed => exact hfailed later
  | answer value => exact hexecuted (.answer value) later nofun nofun

end SvrDemo.Database
