import SvrDemo.Skynet.Runtime

/-!
# Calls of the database services

`new_dao.lua`. `M.call` sends a command to one of the services `.db_service_1`, `.db_service_2` and so on, in turn: the
variable `cur_dbs_id` has the number of the next one. It is brought into the range before the call and goes on after a
reply. The call waits, so that many of them may be under way at once in a service of Lua; a service that is not there
raises like one that fails.

`Dao.called` is a history: the numbers of the services that calls were sent to.
-/

set_option autoImplicit false
set_option relaxedAutoImplicit false

namespace SvrDemo.Database

open Coroutine Skynet

/-- The variable of `new_dao.lua`, and the history. -/
structure Dao where
  curDbsId : ℕ
  called : List ℕ
  deriving DecidableEq

/-- Where a call waits: for its first turn, and for the reply of a service. -/
inductive DaoPoint
  | call (cmd : String)
  | service (index : ℕ) (cmd : String)
  deriving DecidableEq

namespace Dao

/-- The module when it has just been loaded. -/
def initial : Dao := ⟨1, []⟩

/-- The number that the next call has. -/
def next (dbServiceCnt : ℕ) (self : Dao) : ℕ := if self.curDbsId > dbServiceCnt then 1 else self.curDbsId

/-- A call is sent to the service with a number. -/
def address (index : ℕ) (self : Dao) : Dao := ⟨index, self.called ++ [index]⟩

/-- The service after the present one is the next. -/
def advance (self : Dao) : Dao := { self with curDbsId := self.curDbsId + 1 }

/-- `M.call`: whether it has returned the reply. -/
def call (dbServiceCnt : ℕ) (cmd : String) : Task DaoPoint Dao Bool := do
  let self ← Program.getState
  let index := self.next dbServiceCnt
  Program.modifyState (address index)
  match ← (Skynet.call (.service index cmd)).attempt with
  | .error _ => return false
  | .ok _ =>
    Program.modifyState advance
    return true

end Dao

/-- The coroutines by the point at which they start. -/
def daoEntry (dbServiceCnt : ℕ) : DaoPoint → Task DaoPoint Dao Unit
  | .call cmd => do
    let _ ← Dao.call dbServiceCnt cmd
    return ()
  | .service _ _ => pure ()

/-- The module in a service whose coroutines call it. -/
def dao (dbServiceCnt : ℕ) : System skynet DaoPoint Dao where
  entry := daoEntry dbServiceCnt
  arrives := fun
    | .call _ => true
    | .service _ _ => false

/-! ### What a section does -/

/-- A call is sent to the next service, or a reply makes the service after it the next one. -/
def DaoDoes (dbServiceCnt : ℕ) : DaoPoint → Dao → List Answer → List DaoPoint → Dao → Prop
  | .call cmd, first, _, left, last =>
    last = first.address (first.next dbServiceCnt) ∧ left = [.service (first.next dbServiceCnt) cmd]
  | .service _ _, first, heard, left, last =>
    left = [] ∧ ((∃ rest, heard = .raised :: rest) ∧ last = first ∨
      (∀ rest, heard ≠ .raised :: rest) ∧ last = first.advance)

/-- Where a coroutine may start. -/
def DaoPoint.IsCall : DaoPoint → Prop
  | .call _ => True
  | .service _ _ => False

/-- The contract of the coroutines. -/
abbrev daoContract (dbServiceCnt : ℕ) : Contract skynet DaoPoint Dao :=
  .stateless DaoPoint.IsCall (DaoDoes dbServiceCnt)

theorem keeps_daoEntry (dbServiceCnt : ℕ) {point : DaoPoint} (hpoint : point.IsCall) (reply : Answer) (state : Dao) :
    (daoContract dbServiceCnt).Keeps (daoEntry dbServiceCnt point) ⟨point, state, [reply], []⟩ state := by
  cases point with
  | service index cmd => exact hpoint.elim
  | call cmd =>
    refine ⟨⟨⟨rfl, rfl⟩, nofun⟩, fun heard later _ ↦ ?_⟩
    cases heard with
    | raised => exact ⟨⟨rfl, .inl ⟨⟨[], rfl⟩, rfl⟩⟩, nofun⟩
    | _ => exact ⟨⟨rfl, .inr ⟨nofun, rfl⟩⟩, nofun⟩

end SvrDemo.Database
