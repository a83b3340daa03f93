import SvrDemo.Base.BigNumber
import SvrDemo.Protocol.Machine
import Mathlib.Data.Int.Notation
import Mathlib.Logic.Function.Basic

/-!
# Message queues

`skynet_mq.c`, and what `skynet_server.c` and the worker threads of `skynet_start.c` do with the queues. A service has
a queue and a context. The context counts its references, one of which is that of its handle; the queue is in the
global queue, or a worker has it, or it is empty and waits for a message.

A thread is the list of the operations it still has to do, each of which is done at once: under a lock, or with an
atomic instruction. Where the code would stop with an assertion, or use what was freed, the operation cannot be done.
A handle is the number of its service, and a number may come back when nothing is left of the service that had it, so
the queue that a worker has is that of the context it finds. What `skynet_error` sends to the logger is a deed of the
code around it.
-/

set_option autoImplicit false
set_option relaxedAutoImplicit false

namespace SvrDemo.Skynet

open Base Protocol

/-! ### Queues -/

def defaultQueueSize : ℕ := 64
def mqOverload : ℕ := 1024

/-- `PTYPE_ERROR`. -/
def ptypeError : ℕ := 7

/-- `struct skynet_message`. -/
structure Message where
  source : ℕ
  session : ℤ
  type : ℕ
  data : Bytes
  deriving DecidableEq

/-- `struct message_queue`. -/
structure MessageQueue where
  cap : ℕ
  head : ℕ
  tail : ℕ
  release : Bool
  inGlobal : Bool
  overload : ℕ
  overloadThreshold : ℕ
  queue : ℕ → Option Message

namespace MessageQueue

/-- `skynet_mq_create`. -/
def create : MessageQueue := ⟨defaultQueueSize, 0, 0, false, true, 0, mqOverload, fun _ ↦ none⟩

/-- `skynet_mq_length`. -/
def length (q : MessageQueue) : ℕ := if q.head ≤ q.tail then q.tail - q.head else q.tail + q.cap - q.head

/-- The loop of `skynet_mq_pop` that raises the threshold, with a bound of its turns. -/
def raiseOverload (length : ℕ) : ℕ → MessageQueue → MessageQueue
  | 0, q => q
  | turns + 1, q =>
    if q.overloadThreshold < length then
      raiseOverload length turns { q with overload := length, overloadThreshold := q.overloadThreshold * 2 }
    else q

/-- `skynet_mq_pop`. -/
def pop (q : MessageQueue) : Option Message × MessageQueue :=
  if q.head ≠ q.tail then
    let next := { q with head := if q.cap ≤ q.head + 1 then 0 else q.head + 1 }
    (q.queue q.head, next.raiseOverload next.length next.length)
  else (none, { q with overloadThreshold := mqOverload, inGlobal := false })

/-- `expand_queue`. -/
def expandQueue (q : MessageQueue) : MessageQueue :=
  { q with
    head := 0
    tail := q.cap
    cap := q.cap * 2
    queue := fun i ↦ if i < q.cap then q.queue ((q.head + i) % q.cap) else none }

/-- `skynet_mq_push` up to the flag: the message gets in the queue. -/
def put (q : MessageQueue) (message : Message) : MessageQueue :=
  let q := { q with
    queue := Function.update q.queue q.tail (some message)
    tail := if q.cap ≤ q.tail + 1 then 0 else q.tail + 1 }
  if q.head = q.tail then q.expandQueue else q

end MessageQueue

/-! ### Threads -/

/-- `struct skynet_context`: whether its handle is registered, its references, and whether `init` is set. -/
structure Context where
  registered : Bool
  ref : ℕ
  init : Bool
  deriving DecidableEq

/-- The memory that the threads share, and for histories how often a number was given to a service, the messages that
were pushed to its queue, and those that were taken from it, with whether a worker dispatches them. -/
structure Memory where
  contexts : ℕ → Option Context
  queues : ℕ → Option MessageQueue
  globalQueue : List ℕ
  births : ℕ → ℕ
  sent : ℕ → List Message
  taken : ℕ → List (Message × Bool)

/-- The operations of the threads. -/
inductive Operation
  /-- the timer, the socket thread, the main thread: may do anything at any time -/
  | outside
  /-- `skynet_globalmq_pop`, until there is a queue -/
  | take
  /-- `skynet_handle_grab` for the queue of the worker -/
  | grab (s : ℕ)
  /-- `skynet_mq_release` -/
  | mqRelease (s : ℕ)
  /-- `_drop_queue` -/
  | drop (s : ℕ)
  /-- the loop of `skynet_context_message_dispatch` -/
  | pop (s i n : ℕ)
  /-- `skynet_mq_length`, `skynet_mq_overload` and the beginning of `dispatch_message` -/
  | measure (s i n : ℕ)
  /-- the callback of the service -/
  | callback (s i n : ℕ)
  /-- `skynet_globalmq_pop` after the loop -/
  | requeue (s : ℕ)
  /-- `skynet_globalmq_push` -/
  | pushBack (s : ℕ)
  /-- `skynet_context_release` -/
  | release (s : ℕ)
  /-- `skynet_mq_mark_release` and the end of `delete_context` -/
  | markRelease (s : ℕ)
  /-- `skynet_handle_grab` of `skynet_context_push` -/
  | send (s : ℕ) (message : Message)
  /-- `skynet_mq_push` of `skynet_context_push` -/
  | push (s : ℕ) (message : Message)
  /-- `skynet_handle_retire` -/
  | retire (s : ℕ)
  /-- `skynet_module_instance_init` of `skynet_context_new` -/
  | init (s : ℕ)
  /-- `skynet_context_release` of `skynet_context_new`, when `init` has succeeded -/
  | launched (s : ℕ)
  /-- `ctx->init = true` -/
  | opened (s : ℕ)
  /-- `skynet_error` at the end of `skynet_context_new`, which reads the handle of the context -/
  | announce (s birth : ℕ)
  /-- `skynet_handle_retire` of `skynet_context_new`, when `init` has failed -/
  | failed (s : ℕ)
  deriving DecidableEq

namespace Memory

def setQueue (memory : Memory) (s : ℕ) (q : Option MessageQueue) : Memory :=
  { memory with queues := Function.update memory.queues s q }

def setContext (memory : Memory) (s : ℕ) (context : Option Context) : Memory :=
  { memory with contexts := Function.update memory.contexts s context }

/-- The context of a registered handle. -/
def find (memory : Memory) (s : ℕ) : Option Context := (memory.contexts s).filter Context.registered

/-- `skynet_handle_grab`, when the context was found. -/
def grabContext (memory : Memory) (s : ℕ) (context : Context) : Memory :=
  memory.setContext s (some { context with ref := context.ref + 1 })

/-- `skynet_globalmq_push`, with its assertion. -/
def globalPush (memory : Memory) (s : ℕ) : Option Memory :=
  if s ∈ memory.globalQueue then none else some { memory with globalQueue := memory.globalQueue ++ [s] }

/-- A message is taken from a queue. -/
def takeMessage (memory : Memory) (s : ℕ) (q : MessageQueue) (message : Message) (dispatched : Bool) : Memory :=
  { memory.setQueue s (some q) with
    taken := Function.update memory.taken s (memory.taken s ++ [(message, dispatched)]) }

/-- `skynet_mq_push`. -/
def mqPush (memory : Memory) (s : ℕ) (q : MessageQueue) (message : Message) : Option Memory :=
  let memory := { memory with sent := Function.update memory.sent s (memory.sent s ++ [message]) }
  let q := q.put message
  if q.inGlobal then some (memory.setQueue s (some q))
  else (memory.setQueue s (some { q with inGlobal := true })).globalPush s

/-- `skynet_mq_mark_release`, with its assertion. -/
def mqMarkRelease (memory : Memory) (s : ℕ) (q : MessageQueue) : Option Memory :=
  if q.release then none
  else
    let memory := memory.setQueue s (some { q with release := true })
    if q.inGlobal then some memory else memory.globalPush s

/-- `skynet_context_release`, with what follows when it was the last reference and when it was not. -/
def releaseContext (memory : Memory) (s : ℕ) (last other : List Operation) : Option (Memory × List Operation) := do
  let context ← memory.contexts s
  if context.ref = 0 then none
  else
    let memory := memory.setContext s (some { context with ref := context.ref - 1 })
    some (memory, if context.ref = 1 then .markRelease s :: last else other)

/-- `drop_message`: the source of a message is told, unless it is the system. -/
def dropMessage (s : ℕ) (message : Message) : List Operation :=
  if message.source = 0 then [] else [.send message.source ⟨s, 0, ptypeError, []⟩]

/-- A thread does an operation: what becomes of the memory, and the operations that take its place. -/
def execute (memory : Memory) (weight : ℤ) : Operation → Option (Memory × List Operation)
  | .outside => none
  | .take =>
    match memory.globalQueue with
    | [] => some (memory, [.take])
    | s :: rest => some ({ memory with globalQueue := rest }, [.grab s])
  | .grab s => do
    let _ ← memory.queues s
    match memory.find s with
    | some context => some (memory.grabContext s context, [.pop s 0 1])
    | none => some (memory, [.mqRelease s, .take])
  | .mqRelease s => do
    let q ← memory.queues s
    if q.release then some (memory, [.drop s])
    else
      let memory ← memory.globalPush s
      some (memory, [])
  | .drop s => do
    let q ← memory.queues s
    match q.pop with
    | (some message, q) => some (memory.takeMessage s q message false, dropMessage s message ++ [.drop s])
    | (none, _) => if s ∈ memory.globalQueue then none else some (memory.setQueue s none, [])
  | .pop s i n => do
    let q ← memory.queues s
    if i < n then
      match q.pop with
      | (some message, q) => some (memory.takeMessage s q message true, [.measure s i n])
      | (none, q) => some (memory.setQueue s (some q), [.release s, .take])
    else some (memory, [.requeue s])
  | .measure s i n => do
    let context ← memory.contexts s
    let q ← memory.queues s
    let n := if i = 0 ∧ 0 ≤ weight then q.length >>> weight.toNat else n
    if context.init then some (memory.setQueue s (some { q with overload := 0 }), [.callback s i n]) else none
  | .callback _ _ _ => none
  | .requeue s => do
    let _ ← memory.contexts s
    match memory.globalQueue with
    | [] => some (memory, [.release s, .grab s])
    | next :: rest => some ({ memory with globalQueue := rest }, [.pushBack s, .release s, .grab next])
  | .pushBack s => do
    let _ ← memory.queues s
    let memory ← memory.globalPush s
    some (memory, [])
  | .release s => memory.releaseContext s [] []
  | .markRelease s => do
    let _ ← memory.contexts s
    let q ← memory.queues s
    let memory ← memory.mqMarkRelease s q
    some (memory.setContext s none, [])
  | .send s message =>
    match memory.find s with
    | some context => some (memory.grabContext s context, [.push s message])
    | none => some (memory, [])
  | .push s message => do
    let _ ← memory.contexts s
    let q ← memory.queues s
    let memory ← memory.mqPush s q message
    some (memory, [.release s])
  | .retire s =>
    match memory.find s with
    | some context => some (memory.setContext s (some { context with registered := false }), [.release s])
    | none => some (memory, [])
  | .init _ => none
  | .launched s => memory.releaseContext s [.pushBack s] [.opened s]
  | .opened s => do
    let context ← memory.contexts s
    some (memory.setContext s (some { context with init := true }), [.pushBack s, .announce s (memory.births s)])
  | .announce s birth => do
    let _ ← memory.contexts s
    if memory.births s = birth then some (memory, []) else none
  | .failed s =>
    match memory.find s with
    | some context => some (memory.setContext s (some { context with registered := false }), [.release s, .mqRelease s])
    | none => some (memory, [.mqRelease s])

end Memory

/-- The memory with its threads. -/
structure Node where
  memory : Memory
  threads : List (List Operation)

/-- What code outside does, or the code of a service. -/
inductive Deed
  | send (s : ℕ) (message : Message)
  | retire (s : ℕ)
  | create (s : ℕ)

/-- The code that may do something. -/
def Operation.Acts : Operation → Prop
  | .outside => True
  | .callback _ _ _ => True
  | .init _ => True
  | _ => False

instance (op : Operation) : Decidable op.Acts := by
  unfold Operation.Acts
  split <;> infer_instance

/-- What `skynet_context_new` uses when it has given back its reference is still there. -/
def Memory.Keeps (memory : Memory) : Operation → Prop
  | .opened s => memory.contexts s ≠ none
  | .announce s birth => memory.contexts s ≠ none ∧ memory.births s = birth
  | _ => True

/-- The beginning of `skynet_context_new`: a service has a reference of its handle and one of its creator. -/
def Memory.newService (memory : Memory) (s : ℕ) : Memory :=
  { (memory.setContext s (some ⟨true, 2, false⟩)).setQueue s (some .create) with
    births := Function.update memory.births s (memory.births s + 1) }

/-- A deed, with the operations it consists of. -/
def Memory.act (memory : Memory) : Deed → Option (Memory × List Operation)
  | .send s message => some (memory, [.send s message])
  | .retire s => some (memory, [.retire s])
  | .create s =>
    if memory.contexts s = none ∧ (memory.queues s).isNone then
      some (memory.newService s, [.init s])
    else none

inductive NodeEvent
  | run (i : ℕ)
  | act (i : ℕ) (deed : Deed)
  | finish (i : ℕ) (success : Bool)

namespace Node

/-- Some workers, and some other threads. -/
def start (workers others : ℕ) : Node where
  memory := ⟨fun _ ↦ none, fun _ ↦ none, [], fun _ ↦ 0, fun _ ↦ [], fun _ ↦ []⟩
  threads := List.replicate workers [.take] ++ List.replicate others [.outside]

/-- What follows when the code of a service returns. -/
def finish (success : Bool) : Operation → Option (List Operation)
  | .callback s i n => some [.pop s (i + 1) n]
  | .init s => some (if success then [.launched s] else [.release s, .failed s])
  | _ => none

end Node

/-- The machine of the threads, with the weights of the workers. -/
def node (weight : ℕ → ℤ) : Machine Node NodeEvent where
  step state event :=
    match event with
    | .run i =>
      match state.threads[i]? with
      | some (op :: ops) => (state.memory.execute (weight i) op).map fun (memory, new) ↦
          ⟨memory, state.threads.set i (new ++ ops)⟩
      | _ => none
    | .act i deed =>
      match state.threads[i]? with
      | some (op :: ops) =>
        if op.Acts then (state.memory.act deed).map fun (memory, new) ↦
          ⟨memory, state.threads.set i ((new ++ [op]) ++ ops)⟩
        else none
      | _ => none
    | .finish i success =>
      match state.threads[i]? with
      | some (op :: ops) => (Node.finish success op).map fun new ↦ ⟨state.memory, state.threads.set i (new ++ ops)⟩
      | _ => none

end SvrDemo.Skynet
