import SvrDemo.Client.SimpleSocket
import Mathlib.Data.Int.Notation
import Mathlib.Logic.Function.Basic

/-!
# Packages of a gate

`lua-netpack.c`, which the gate server reads its sockets with, and the functions of `gateserver.lua` that dispatch what
it finds. The data of a socket message is cut anywhere. What is left of it waits as an `uncomplete`, in a hash table
with a chain for each hash; a single package is handed out at once, and several go to a ring buffer that all sockets
share.
-/

set_option autoImplicit false
set_option relaxedAutoImplicit false

namespace SvrDemo.Skynet

open Base Protocol

namespace Netpack

def queueSize : ℕ := 1024
def hashSize : ℕ := 4096

/-- `struct netpack`. -/
structure Pack where
  id : ℕ
  size : ℕ
  buffer : Bytes
  deriving DecidableEq

/-- The text of a package, as `netpack.tostring` makes it. -/
def Pack.text (pack : Pack) : Bytes := pack.buffer.take pack.size

/-- `struct uncomplete` without its link. The buffer has what was read, and the header is the first byte of a size whose
second one has not come (`read` is `-1` then). -/
structure Uncomplete where
  id : ℕ
  size : ℕ
  buffer : Bytes
  read : ℤ
  header : UInt8
  deriving DecidableEq

/-- `struct queue`. -/
structure Queue where
  cap : ℕ
  head : ℕ
  tail : ℕ
  hash : ℕ → List Uncomplete
  queue : ℕ → Option Pack

/-- `hash_fd`. -/
def hashFd (fd : ℕ) : ℕ := (fd >>> 24 + fd >>> 12 + fd) % 2 ^ 32 % hashSize

/-- `read_size`. -/
def readSize (high low : UInt8) : ℕ := high.toNat <<< 8 ||| low.toNat

namespace Queue

/-- `get_queue` makes a queue when there is none. -/
def new : Queue := ⟨queueSize, 0, 0, fun _ ↦ [], fun _ ↦ none⟩

/-- `find_uncomplete`: what is found is taken out of its chain. -/
def findUncomplete (q : Queue) (fd : ℕ) : Option (Uncomplete × Queue) :=
  ((q.hash (hashFd fd)).find? fun uc ↦ uc.id = fd).map fun uc ↦
    (uc, { q with hash := Function.update q.hash (hashFd fd) ((q.hash (hashFd fd)).eraseP fun uc ↦ uc.id = fd) })

/-- `expand_queue`. -/
def expandQueue (q : Queue) : Queue where
  cap := q.cap + queueSize
  head := 0
  tail := q.cap
  hash := q.hash
  queue i := if i < q.cap then q.queue ((q.head + i) % q.cap) else none

/-- `push_data`. -/
def pushData (q : Queue) (fd : ℕ) (buffer : Bytes) (size : ℕ) : Queue :=
  let tail := if q.cap ≤ q.tail + 1 then q.tail + 1 - q.cap else q.tail + 1
  let q := { q with queue := Function.update q.queue q.tail (some ⟨fd, size, buffer⟩), tail := tail }
  if q.head = q.tail then q.expandQueue else q

/-- `save_uncomplete`, with the fields that its callers set, and the end of `filter_data_` for a package that is still
not complete. -/
def saveUncomplete (q : Queue) (uc : Uncomplete) : Queue :=
  { q with hash := Function.update q.hash (hashFd uc.id) (uc :: q.hash (hashFd uc.id)) }

/-- `push_more`, with a bound of its calls: each takes two bytes at least. -/
def pushMore (fd : ℕ) : ℕ → Queue → Bytes → Queue
  | _, q, [header] => q.saveUncomplete ⟨fd, 0, [], -1, header⟩
  | calls + 1, q, high :: low :: buffer =>
    let packSize := readSize high low
    if buffer.length < packSize then q.saveUncomplete ⟨fd, packSize, buffer, buffer.length, 0⟩
    else
      let q := q.pushData fd (buffer.take packSize) packSize
      if 0 < (buffer.drop packSize).length then pushMore fd calls q (buffer.drop packSize) else q
  | _, q, _ => q

/-- What `filter_data_` returns: nothing, a package, or that there are packages in the queue. -/
inductive Filtered
  | none
  | data (pack : Pack)
  | more
  deriving DecidableEq

/-- `filter_data_` for a package of which a part has come, after its size. -/
def fillUncomplete (q : Queue) (uc : Uncomplete) (buffer : Bytes) : Filtered × Queue :=
  let need := uc.size - uc.read.toNat
  if buffer.length < need then
    (.none, q.saveUncomplete { uc with buffer := uc.buffer ++ buffer, read := uc.read + buffer.length })
  else
    let pack := uc.buffer ++ buffer.take need
    let rest := buffer.drop need
    if rest.length = 0 then (.data ⟨uc.id, uc.size, pack⟩, q)
    else (.more, pushMore uc.id rest.length (q.pushData uc.id pack uc.size) rest)

/-- `filter_data_`. -/
def filterData (q : Queue) (fd : ℕ) (buffer : Bytes) : Filtered × Queue :=
  match q.findUncomplete fd with
  | some (uc, q) =>
    if uc.read < 0 then
      match buffer with
      | [] => (.none, q)
      | low :: buffer =>
        q.fillUncomplete { uc with size := low.toNat ||| uc.header.toNat <<< 8, buffer := [], read := 0 } buffer
    else q.fillUncomplete uc buffer
  | none =>
    match buffer with
    | [] => (.none, q)
    | [header] => (.none, q.saveUncomplete ⟨fd, 0, [], -1, header⟩)
    | high :: low :: buffer =>
      let packSize := readSize high low
      if buffer.length < packSize then
        (.none, q.saveUncomplete ⟨fd, packSize, buffer, buffer.length, 0⟩)
      else if buffer.length = packSize then (.data ⟨fd, buffer.length, buffer⟩, q)
      else
        let rest := buffer.drop packSize
        (.more, pushMore fd rest.length (q.pushData fd (buffer.take packSize) packSize) rest)

/-- `close_uncomplete`. -/
def closeUncomplete (q : Queue) (fd : ℕ) : Queue :=
  match q.findUncomplete fd with
  | some (_, q) => q
  | none => q

/-- `lpop`. -/
def pop (q : Queue) : Option Pack × Queue :=
  if q.head = q.tail then (none, q)
  else (q.queue q.head, { q with head := if q.cap ≤ q.head + 1 then 0 else q.head + 1 })

end Queue

end Netpack

open Netpack

/-! ### The gate -/

/-- The messages of the socket thread for a gate. The data of a message is not empty. -/
inductive SocketMessage
  | data (fd : ℕ) (buffer : Bytes)
  | close (fd : ℕ)
  | error (fd : ℕ)
  deriving DecidableEq

/-- Where the coroutine that runs is: nowhere, at the beginning of `dispatch_queue`, or at its loop. -/
inductive Dispatching
  | no
  | first
  | loop
  deriving DecidableEq

/-- What the handler of a package does to the coroutine that called it. -/
inductive Handling
  | returns
  | yields
  | raises
  deriving DecidableEq

/-- The dispatching of a gate: its queue, the coroutine that runs, the coroutines in `fork_queue` that run
`dispatch_queue`, and those whose loop waits for a handler. For histories the socket messages, and the packages with
which `dispatch_msg` was called. -/
structure Gate where
  queue : Queue
  running : Dispatching
  forks : ℕ
  waiting : ℕ
  heard : List SocketMessage
  dispatched : List Pack

namespace Gate

def initial : Gate := ⟨.new, .no, 0, 0, [], []⟩

/-- The loop of `skynet.dispatch_message` has ended, and the next message may come. -/
def AtRest (gate : Gate) : Prop := gate.running = .no ∧ gate.forks = 0

instance (gate : Gate) : Decidable gate.AtRest := inferInstanceAs (Decidable (_ ∧ _))

/-- `dispatch_msg`, called before some place. -/
def dispatchMsg (gate : Gate) (pack : Pack) (place : Dispatching) (handling : Handling) : Gate :=
  { gate with
    dispatched := gate.dispatched ++ [pack]
    running := if handling = .returns then place else .no
    waiting := if handling = .yields ∧ place = .loop then gate.waiting + 1 else gate.waiting }

/-- `lfilter`, and the function of `MSG` for what it found. -/
def hear (gate : Gate) (message : SocketMessage) (handling : Handling) : Gate :=
  let gate := { gate with heard := gate.heard ++ [message] }
  match message with
  | .data fd buffer =>
    match gate.queue.filterData fd buffer with
    | (.none, q) => { gate with queue := q }
    | (.data pack, q) => { gate with queue := q }.dispatchMsg pack .no handling
    | (.more, q) => { gate with queue := q, running := .first }
  | .close fd => { gate with queue := gate.queue.closeUncomplete fd }
  | .error fd => { gate with queue := gate.queue.closeUncomplete fd }

/-- A turn of `dispatch_queue`, or of the loop that starts the coroutines of `fork_queue`. -/
def turn (gate : Gate) (handling : Handling) : Gate :=
  match gate.running with
  | .no => if gate.forks = 0 then gate else { gate with running := .first, forks := gate.forks - 1 }
  | .first =>
    match gate.queue.pop with
    | (some pack, q) => { gate with queue := q, forks := gate.forks + 1 }.dispatchMsg pack .loop handling
    | (none, q) => { gate with queue := q, running := .no }
  | .loop =>
    match gate.queue.pop with
    | (some pack, q) => { gate with queue := q }.dispatchMsg pack .loop handling
    | (none, q) => { gate with queue := q, running := .no }

end Gate

inductive GateEvent
  | hear (message : SocketMessage) (handling : Handling)
  | turn (handling : Handling)
  | resume (handling : Handling)

/-- The machine of a gate. The handler in which a coroutine waits goes on when another message has come, or when another
coroutine of the service has woken it up; it returns, raises or waits again. -/
def gate : Machine Gate GateEvent where
  step gate event :=
    match event with
    | .hear (.data _ []) _ => none
    | .hear message handling => if gate.AtRest then some (gate.hear message handling) else none
    | .turn handling => if gate.AtRest then none else some (gate.turn handling)
    | .resume handling =>
      if gate.running = .no ∧ 0 < gate.waiting then
        some { gate with
          running := if handling = .returns then .loop else .no
          waiting := if handling = .yields then gate.waiting else gate.waiting - 1 }
      else none

/-! ### What was sent -/

/-- The texts of the connections of an fd that were closed, and the text of the present one. -/
def streams (heard : List SocketMessage) (fd : ℕ) : List Bytes × Bytes :=
  heard.foldl (fun texts message ↦
    match message with
    | .data id buffer => if id = fd then (texts.1, texts.2 ++ buffer) else texts
    | .close id => if id = fd then (texts.1 ++ [texts.2], []) else texts
    | .error id => if id = fd then (texts.1 ++ [texts.2], []) else texts) ([], [])

/-- The packages of the connections of an fd. -/
def packages (heard : List SocketMessage) (fd : ℕ) : List Bytes :=
  (streams heard fd).1.flatMap (fun text ↦ (Client.s2.split text).1) ++ (Client.s2.split (streams heard fd).2).1

end SvrDemo.Skynet
