import SvrDemo.Base.BigNumber
import SvrDemo.Protocol.Machine
import SvrDemo.Protocol.SortedTable
import Mathlib.Logic.Function.Basic

/-!
# Handles

`skynet_handle.c`: the table in which a handle is found by its lowest bits, which doubles when it is full, and the
sorted array of the names of handles, in which a name is found by cutting it in two halves.

A context learns its handle from the thread that has registered it. That is a step of its own in `skynet_context_new`,
after the lock was given back; until then the handle in the context is zero.
-/

set_option autoImplicit false
set_option relaxedAutoImplicit false

namespace SvrDemo.Skynet

open Base Protocol

def handleMask : ℕ := 0xffffff
def handleRemoteShift : ℕ := 24
def defaultSlotSize : ℕ := 4
def maxSlotSize : ℕ := 0x40000000

/-- `struct handle_name`. -/
structure HandleName where
  name : Bytes
  handle : ℕ
  deriving DecidableEq

/-- `strcmp`. -/
def strcmp (first second : Bytes) : Ordering := List.compareLex compare first second

/-- `struct handle_storage`. A context is a number, and `name_count` is the length of the names. -/
structure HandleStorage where
  harbor : ℕ
  handleIndex : ℕ
  slotSize : ℕ
  slot : ℕ → Option ℕ
  nameCap : ℕ
  name : List HandleName

namespace HandleStorage

/-- `skynet_handle_init`. -/
def init (harbor : ℕ) : HandleStorage :=
  ⟨(harbor &&& 0xff) <<< handleRemoteShift, 1, defaultSlotSize, fun _ ↦ none, 2, []⟩

/-- The place of a handle in the table. -/
def hash (s : HandleStorage) (handle : ℕ) : ℕ := handle &&& (s.slotSize - 1)

/-- The inner loop of `skynet_handle_register`, with the turns that are left. -/
def findSlot (s : HandleStorage) : ℕ → ℕ → Option ℕ
  | 0, _ => none
  | turns + 1, i =>
    let handle := (i + s.handleIndex) &&& handleMask
    if (s.slot (s.hash handle)).isNone then some handle else findSlot s turns (i + 1)

/-- A context in the new table, with the assertion. A place without a context would be no context to ask. -/
def moveSlot (s : HandleStorage) (handleOf : ℕ → ℕ) (newSlot : ℕ → Option ℕ) (i : ℕ) : Option (ℕ → Option ℕ) := do
  let ctx ← s.slot i
  let hash := handleOf ctx &&& (s.slotSize * 2 - 1)
  if (newSlot hash).isNone then some (Function.update newSlot hash (some ctx)) else none

/-- The table doubles, with the assertion on its size. -/
def growSlots (s : HandleStorage) (handleOf : ℕ → ℕ) : Option HandleStorage :=
  if s.slotSize * 2 - 1 ≤ handleMask then do
    let newSlot ← (List.range s.slotSize).foldlM (s.moveSlot handleOf) fun _ ↦ none
    some { s with slot := newSlot, slotSize := s.slotSize * 2 }
  else none

/-- `skynet_handle_register`, with the turns that are left. -/
def registerFrom (handleOf : ℕ → ℕ) (ctx : ℕ) : ℕ → HandleStorage → Option (ℕ × HandleStorage)
  | 0, _ => none
  | turns + 1, s =>
    match s.findSlot s.slotSize 0 with
    | some handle => some (handle ||| s.harbor, { s with
        slot := Function.update s.slot (s.hash handle) (some ctx)
        handleIndex := handle + 1 })
    | none => do
      let s ← s.growSlots handleOf
      registerFrom handleOf ctx turns s

/-- `skynet_handle_register`. Each turn but the last one doubles the table. -/
def register (s : HandleStorage) (handleOf : ℕ → ℕ) (ctx : ℕ) : Option (ℕ × HandleStorage) :=
  registerFrom handleOf ctx handleRemoteShift s

/-- `skynet_handle_grab`. -/
def grab (s : HandleStorage) (handleOf : ℕ → ℕ) (handle : ℕ) : Option ℕ :=
  match s.slot (s.hash handle) with
  | some ctx => if handleOf ctx = handle then some ctx else none
  | none => none

/-- `skynet_handle_retire`, with the context that is released then. -/
def retire (s : HandleStorage) (handleOf : ℕ → ℕ) (handle : ℕ) : Option ℕ × HandleStorage :=
  match s.slot (s.hash handle) with
  | some ctx =>
    if handleOf ctx = handle then
      (some ctx, { s with
        slot := Function.update s.slot (s.hash handle) none
        name := s.name.filter fun entry ↦ entry.handle ≠ handle })
    else (none, s)
  | none => (none, s)

/-- The loop of `skynet_handle_findname` and of `_insert_name`. -/
def searchName (s : HandleStorage) (name : Bytes) : HandleName ⊕ ℕ :=
  search HandleName.name strcmp s.name name s.name.length 0 s.name.length

/-- `skynet_handle_findname`. -/
def findName (s : HandleStorage) (name : Bytes) : ℕ :=
  match s.searchName name with
  | .inl entry => entry.handle
  | .inr _ => 0

/-- `_insert_name_before`, with the assertion on the size. -/
def insertNameBefore (s : HandleStorage) (name : Bytes) (handle before : ℕ) : Option HandleStorage :=
  let names := s.name.take before ++ ⟨name, handle⟩ :: s.name.drop before
  if s.nameCap ≤ s.name.length then
    if s.nameCap * 2 ≤ maxSlotSize then some { s with nameCap := s.nameCap * 2, name := names } else none
  else some { s with name := names }

/-- `skynet_handle_namehandle`, with whether the name was free. -/
def nameHandle (s : HandleStorage) (handle : ℕ) (name : Bytes) : Option (Bool × HandleStorage) :=
  match s.searchName name with
  | .inl _ => some (false, s)
  | .inr before => (s.insertNameBefore name handle before).map (true, ·)

end HandleStorage

/-- The storage, and the handles in the contexts. For histories the services that are registered with their handles,
those of which do not know them yet, and the handles that have names. -/
structure Registry where
  storage : HandleStorage
  handleOf : ℕ → ℕ
  live : List (ℕ × ℕ)
  unset : List (ℕ × ℕ)
  named : Bytes → Option ℕ

inductive RegistryMove
  | register (ctx : ℕ)
  | store (ctx handle : ℕ)
  | retire (handle : ℕ)
  | name (handle : ℕ) (name : Bytes)

namespace Registry

def init (harbor : ℕ) : Registry := ⟨.init harbor, fun _ ↦ 0, [], [], fun _ ↦ none⟩

/-- A context that was not registered before. -/
def IsNew (state : Registry) (ctx : ℕ) : Prop := state.handleOf ctx = 0 ∧ ∀ entry ∈ state.live, entry.1 ≠ ctx

instance (state : Registry) (ctx : ℕ) : Decidable (state.IsNew ctx) := inferInstanceAs (Decidable (_ ∧ _))

/-- `skynet_handle_retire`. -/
def retire (state : Registry) (handle : ℕ) : Registry :=
  match state.storage.retire state.handleOf handle with
  | (some ctx, storage) => { state with
      storage := storage
      live := state.live.filter fun entry ↦ entry.1 ≠ ctx
      named := fun name ↦ if state.named name = some handle then none else state.named name }
  | (none, storage) => { state with storage := storage }

end Registry

/-- The machine of the handles. A handle is stored by the thread that has registered it. -/
def registry : Machine Registry RegistryMove where
  step state move :=
    match move with
    | .register ctx =>
      if state.IsNew ctx then
        (state.storage.register state.handleOf ctx).map fun (handle, storage) ↦ { state with
          storage := storage
          live := state.live ++ [(ctx, handle)]
          unset := state.unset ++ [(ctx, handle)] }
      else none
    | .store ctx handle =>
      if (ctx, handle) ∈ state.unset then
        some { state with
          handleOf := Function.update state.handleOf ctx handle
          unset := state.unset.erase (ctx, handle) }
      else none
    | .retire handle => some (state.retire handle)
    | .name handle name =>
      (state.storage.nameHandle handle name).map fun (free, storage) ↦ { state with
        storage := storage
        named := if free then Function.update state.named name (some handle) else state.named }

end SvrDemo.Skynet
