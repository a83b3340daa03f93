import SvrDemo.Base.BigNumber
import SvrDemo.Protocol.Machine
import SvrDemo.Protocol.Spool
import Mathlib.Logic.Function.Basic

/-!
# The socket server

`socket_server.c`, for TCP sockets that it opens, listens to or accepts (no UDP, and no descriptor that is bound). The
threads of the services reserve slots and write requests to a pipe; one thread reads them, waits for the poll and
writes, reads, accepts and closes. A package that the kernel does not take whole waits in one of two lists of its
socket, of high and of low priority.

A turn of `socket_server_poll` is one step, so no slot is reserved in the middle of a turn that frees it, between
`force_close` and `clear_closed_event` or between the two places where an `open_socket` that fails marks its slot.

The file behind an `fd` is a part of the socket here, a new one for each socket that is opened. The kernel is a
parameter of each turn of `socket_server_poll`: what it answers to the calls of that turn.
-/

set_option autoImplicit false
set_option relaxedAutoImplicit false

namespace SvrDemo.Skynet

open Base Protocol

def maxSocketP : ℕ := 16
def maxSocket : ℕ := 1 <<< maxSocketP
def maxEvent : ℕ := 64
def minReadBuffer : ℕ := 64

/-- `HASH_ID`. -/
def hashId (id : ℕ) : ℕ := id % maxSocket

/-- `SOCKET_TYPE_*`. -/
inductive SocketType
  | invalid
  | reserve
  | plisten
  | listen
  | connecting
  | connected
  | halfclose
  | paccept
  deriving DecidableEq

/-- `PRIORITY_*`. -/
inductive Priority
  | high
  | low
  deriving DecidableEq

/-- `struct write_buffer`, with `ptr` as a number of bytes from the beginning of the buffer. -/
structure WriteBuffer where
  buffer : Bytes
  ptr : ℕ
  deriving DecidableEq

/-- The `sz` of a buffer, what is left of it. -/
def WriteBuffer.sz (wb : WriteBuffer) : ℕ := wb.buffer.length - wb.ptr

/-- The file behind an `fd`: whether it is in the poll, whether the poll is to report that it can be written, and the
bytes that were written to it. Nothing reads `accepted`, the packages that the server took for it. -/
structure File where
  polled : Bool
  writeEvent : Bool
  written : Bytes
  accepted : List (Priority × Bytes)

def File.new : File := ⟨false, false, [], []⟩

/-- `struct socket`. The service of a socket is its `owner`, and `size` is `p.size`. -/
structure Socket where
  owner : ℕ
  high : List WriteBuffer
  low : List WriteBuffer
  wbSize : ℤ
  fd : File
  id : ℕ
  type : SocketType
  size : ℕ

/-- What `socket_server_poll` returns. -/
inductive SocketResultType
  | data
  | close
  | opened
  | accept
  | error
  deriving DecidableEq

/-- `struct socket_message`, without the texts of errors and addresses. -/
structure SocketResult where
  type : SocketResultType
  owner : ℕ
  id : ℕ
  ud : ℕ
  data : Bytes
  deriving DecidableEq

/-- What `write` returns: a number of bytes, `EINTR`, `EAGAIN`, or another error. -/
inductive WriteResult
  | wrote (n : ℕ)
  | interrupted
  | wouldBlock
  | failed
  deriving DecidableEq

/-- What `read` returns: the bytes, none at the end, or `EINTR` and `EAGAIN`, or another error. -/
inductive ReadResult
  | read (data : Bytes)
  | again
  | failed
  deriving DecidableEq

/-- What becomes of `connect` in `open_socket`. -/
inductive ConnectResult
  | connected
  | inProgress
  | failed
  deriving DecidableEq

/-- What becomes of `accept` and `reserve_id` in `report_accept`. -/
inductive AcceptResult
  | client (id : ℕ)
  | fileLimit
  | failed
  deriving DecidableEq

def AcceptResult.id? : AcceptResult → Option ℕ
  | client id => some id
  | fileLimit => none
  | failed => none

/-- `struct event`. The event of the pipe has no socket. -/
structure Event where
  slot : Option ℕ
  read : Bool
  write : Bool
  deriving DecidableEq

/-- What the kernel answers in one turn of `socket_server_poll`: to `sp_wait`, to the calls of `write` one after
another, to `read`, `connect`, `accept`, `sp_add` and `getsockopt`. After the answers to `write` it would block. -/
structure Kernel where
  ready : List Event
  writes : List WriteResult
  read : ReadResult
  connect : ConnectResult
  accept : AcceptResult
  added : Bool
  connectError : Bool

/-! ### One socket -/

namespace Socket

/-- `sp_write`. -/
def spWrite (s : Socket) (enable : Bool) : Socket := { s with fd := { s.fd with writeEvent := enable } }

/-- The result that `force_close` and others fill. -/
def report (s : Socket) (type : SocketResultType) : SocketResult := ⟨type, s.owner, s.id, 0, []⟩

/-- `force_close`, with its assertion. -/
def forceClose (s : Socket) : Option Socket :=
  if s.type = .invalid then some s
  else if s.type = .reserve then none
  else some { s with high := [], low := [], fd := { s.fd with polled := false, writeEvent := false }, type := .invalid }

/-- `force_close`, and a message. -/
def closeWith (s : Socket) (message : SocketResult) : Option (Option SocketResult × Socket) :=
  s.forceClose.map (some message, ·)

/-- `new_fd`, with its assertions and with whether it was added to the poll. -/
def newFd (s : Socket) (id owner : ℕ) (add added : Bool) : Option (Bool × Socket) :=
  if s.type ≠ .reserve then none
  else if add ∧ ¬added then some (false, { s with type := .invalid })
  else if s.high = [] ∧ s.low = [] then
    some (true, { s with
      id := id, fd := { File.new with polled := add }, size := minReadBuffer, owner := owner, wbSize := 0 })
  else none

end Socket

/-- `open_socket`. -/
def openSocket (kernel : Kernel) (id owner : ℕ) (s : Socket) : Option (Option SocketResult × Socket) :=
  match kernel.connect with
  | .failed => some (some ⟨.error, owner, id, 0, []⟩, { s with type := .invalid })
  | .connected => do
    let (added, ns) ← s.newFd id owner true kernel.added
    if added then some (some ⟨.opened, owner, id, 0, []⟩, { ns with type := .connected })
    else some (some ⟨.error, owner, id, 0, []⟩, { ns with type := .invalid })
  | .inProgress => do
    let (added, ns) ← s.newFd id owner true kernel.added
    if added then some (none, { ns with type := .connecting }.spWrite true)
    else some (some ⟨.error, owner, id, 0, []⟩, { ns with type := .invalid })

/-- What `send_list_tcp` changes: the list, `wb_size` and what was written. -/
structure Outgoing where
  list : List WriteBuffer
  wbSize : ℤ
  written : Bytes

/-- `send_list_tcp`, by the answers to its calls of `write`, with the answers that are left and whether a write
failed. -/
def sendListTcp : List WriteResult → Outgoing → Outgoing × List WriteResult × Bool
  | [], out => (out, [], false)
  | result :: results, out =>
    match out.list with
    | [] => (out, result :: results, false)
    | tmp :: list =>
      match result with
      | .interrupted => sendListTcp results out
      | .wouldBlock => (out, results, false)
      | .failed => (out, results, true)
      | .wrote n =>
        let sz := min n tmp.sz
        let written := out.written ++ (tmp.buffer.drop tmp.ptr).take sz
        if sz ≠ tmp.sz then
          (⟨{ tmp with ptr := tmp.ptr + sz } :: list, out.wbSize - sz, written⟩, results, false)
        else sendListTcp results ⟨list, out.wbSize - sz, written⟩

/-- `list_uncomplete`. -/
def listUncomplete (list : List WriteBuffer) : Bool :=
  match list with
  | [] => false
  | wb :: _ => wb.ptr ≠ 0

namespace Socket

/-- `raise_uncomplete`, with its assertion. Without a first buffer there would be none to raise. -/
def raiseUncomplete (s : Socket) : Option Socket :=
  match s.high, s.low with
  | [], tmp :: low => some { s with high := [tmp], low := low }
  | _, _ => none

/-- `send_buffer_empty`. -/
def sendBufferEmpty (s : Socket) : Bool := s.high.isEmpty ∧ s.low.isEmpty

/-- `send_list` of the high list. -/
def sendHigh (s : Socket) (writes : List WriteResult) : Socket × List WriteResult × Bool :=
  let (out, rest, failed) := sendListTcp writes ⟨s.high, s.wbSize, s.fd.written⟩
  ({ s with high := out.list, wbSize := out.wbSize, fd := { s.fd with written := out.written } }, rest, failed)

/-- `send_list` of the low list. -/
def sendLow (s : Socket) (writes : List WriteResult) : Socket × List WriteResult × Bool :=
  let (out, rest, failed) := sendListTcp writes ⟨s.low, s.wbSize, s.fd.written⟩
  ({ s with low := out.list, wbSize := out.wbSize, fd := { s.fd with written := out.written } }, rest, failed)

/-- `send_buffer`, with its assertion. -/
def sendBuffer (writes : List WriteResult) (s : Socket) : Option (Option SocketResult × Socket) :=
  if listUncomplete s.low then none
  else
    let (s, rest, failed) := s.sendHigh writes
    if failed then s.closeWith (s.report .close)
    else if s.high.isEmpty then
      if ¬s.low.isEmpty then
        let (s, _, failed) := s.sendLow rest
        if failed then s.closeWith (s.report .close)
        else if listUncomplete s.low then s.raiseUncomplete.map (none, ·)
        else some (none, s)
      else
        let s := s.spWrite false
        if s.type = .halfclose then s.closeWith (s.report .close) else some (none, s)
    else some (none, s)

/-- A package is taken: `append_sendbuffer` from its byte `n` on. -/
def appendSendbuffer (s : Socket) (buffer : Bytes) (n : ℕ) : Socket :=
  let buf : WriteBuffer := ⟨buffer, n⟩
  { s with high := s.high ++ [buf], wbSize := s.wbSize + buf.sz }

/-- `append_sendbuffer_low`. -/
def appendSendbufferLow (s : Socket) (buffer : Bytes) : Socket :=
  let buf : WriteBuffer := ⟨buffer, 0⟩
  { s with low := s.low ++ [buf], wbSize := s.wbSize + buf.sz }

end Socket

/-- How much of `size` bytes a `write` has taken. -/
def WriteResult.taken (size : ℕ) : WriteResult → ℕ
  | .wrote n => min n size
  | _ => 0

/-- The branch of `send_socket` that writes to the file at once. -/
def Socket.sendDirectly (s : Socket) (result : WriteResult) (buffer : Bytes) : Option (Option SocketResult × Socket) :=
  let n := result.taken buffer.length
  let s := { s with fd := { s.fd with written := s.fd.written ++ buffer.take n } }
  if result = .failed then s.closeWith (s.report .close)
  else if n = buffer.length then some (none, s)
  else some (none, (s.appendSendbuffer buffer n).spWrite true)

/-- `send_socket`. -/
def sendSocket (kernel : Kernel) (id : ℕ) (buffer : Bytes) (priority : Priority) (s : Socket) :
    Option (Option SocketResult × Socket) :=
  if s.type = .invalid ∨ s.id ≠ id ∨ s.type = .halfclose ∨ s.type = .paccept then some (none, s)
  else if s.type = .plisten ∨ s.type = .listen then some (none, s)
  else
    let s := { s with fd := { s.fd with accepted := s.fd.accepted ++ [(priority, buffer)] } }
    if s.sendBufferEmpty ∧ s.type = .connected then s.sendDirectly (kernel.writes.headD .wouldBlock) buffer
    else if priority = .low then some (none, s.appendSendbufferLow buffer)
    else some (none, s.appendSendbuffer buffer 0)

/-- `listen_socket`. -/
def listenSocket (id owner : ℕ) (s : Socket) : Option (Option SocketResult × Socket) := do
  let (_, s) ← s.newFd id owner false false
  some (none, { s with type := .plisten })

/-- `close_socket`. -/
def closeSocket (kernel : Kernel) (id : ℕ) (shutdown : Bool) (owner : ℕ) (s : Socket) :
    Option (Option SocketResult × Socket) :=
  if s.type = .invalid ∨ s.id ≠ id then some (some ⟨.close, owner, id, 0, []⟩, s)
  else do
    let (message, s) ← if s.sendBufferEmpty then some (none, s) else s.sendBuffer kernel.writes
    if message.isSome then some (message, s)
    else if shutdown ∨ s.sendBufferEmpty then s.closeWith ⟨.close, owner, id, 0, []⟩
    else some (none, { s with type := .halfclose })

/-- `start_socket`. -/
def startSocket (kernel : Kernel) (id owner : ℕ) (s : Socket) : Option (Option SocketResult × Socket) :=
  if s.type = .invalid ∨ s.id ≠ id then some (some ⟨.error, owner, id, 0, []⟩, s)
  else if s.type = .paccept ∨ s.type = .plisten then
    if ¬kernel.added then s.closeWith (s.report .error)
    else
      some (some ⟨.opened, owner, id, 0, []⟩, { s with
        fd := { s.fd with polled := true }
        type := if s.type = .paccept then .connected else .listen
        owner := owner })
  else if s.type = .connected then some (some ⟨.opened, owner, id, 0, []⟩, { s with owner := owner })
  else some (none, s)

/-- `forward_message_tcp`. -/
def forwardMessageTcp (kernel : Kernel) (s : Socket) : Option (Option SocketResult × Socket) :=
  match kernel.read with
  | .again => some (none, s)
  | .failed => s.closeWith (s.report .error)
  | .read data =>
    let data := data.take s.size
    let n := data.length
    if n = 0 then s.closeWith (s.report .close)
    else if s.type = .halfclose then some (none, s)
    else
      let size :=
        if n = s.size then s.size * 2 else if minReadBuffer < s.size ∧ n * 2 < s.size then s.size / 2 else s.size
      some (some ⟨.data, s.owner, s.id, n, data⟩, { s with size := size })

/-- `report_connect`. -/
def reportConnect (kernel : Kernel) (s : Socket) : Option (Option SocketResult × Socket) :=
  if kernel.connectError then s.closeWith (s.report .error)
  else
    let s := { s with type := .connected }
    some (some (s.report .opened), if s.sendBufferEmpty then s.spWrite false else s)

/-! ### The requests -/

/-- The requests of the services, with the id of the socket. -/
inductive Request
  | openSocket (id owner : ℕ)
  | listenSocket (id owner : ℕ)
  | startSocket (id owner : ℕ)
  | closeSocket (id : ℕ) (shutdown : Bool) (owner : ℕ)
  | sendSocket (id : ℕ) (buffer : Bytes) (priority : Priority)
  deriving DecidableEq

namespace Request

def id : Request → ℕ
  | openSocket id _ => id
  | listenSocket id _ => id
  | startSocket id _ => id
  | closeSocket id _ _ => id
  | sendSocket id _ _ => id

/-- Whether a request is for a slot that was reserved for it. -/
def opens : Request → Bool
  | openSocket _ _ => true
  | listenSocket _ _ => true
  | startSocket _ _ => false
  | closeSocket _ _ _ => false
  | sendSocket _ _ _ => false

/-- `ctrl_cmd`, on the slot of the id. -/
def ctrlCmd (kernel : Kernel) : Request → Socket → Option (Option SocketResult × Socket)
  | openSocket id owner => Skynet.openSocket kernel id owner
  | listenSocket id owner => Skynet.listenSocket id owner
  | startSocket id owner => Skynet.startSocket kernel id owner
  | closeSocket id shutdown owner => Skynet.closeSocket kernel id shutdown owner
  | sendSocket id buffer priority => Skynet.sendSocket kernel id buffer priority

end Request

/-! ### The server -/

/-- `struct socket_server`, with `ev` from `event_index` on and the requests that are in the pipe. Besides, the ids
whose slot a thread has reserved and not written its id to (`storing`), or written and not asked to open (`reserved`),
the ids that the services know, and the messages for the services. -/
structure SocketServer where
  slot : ℕ → Socket
  checkctrl : Bool
  ev : List Event
  pipe : List Request
  storing : List ℕ
  reserved : List ℕ
  known : List ℕ
  messages : List SocketResult

/-- What the server does next: a thread reserves the slot of an id, or stores the id there, or writes a request to the
pipe, or `socket_server_poll` makes a turn. -/
inductive ServerEvent
  | reserve (id : ℕ)
  | store (id : ℕ)
  | request (request : Request)
  | turn (kernel : Kernel)

namespace SocketServer

/-- `socket_server_create`. -/
def create : SocketServer where
  slot _ := ⟨0, [], [], 0, .new, 0, .invalid, 0⟩
  checkctrl := true
  ev := []
  pipe := []
  storing := []
  reserved := []
  known := []
  messages := []

def setSlot (ss : SocketServer) (i : ℕ) (s : Socket) : SocketServer :=
  { ss with slot := Function.update ss.slot i s }

/-- What `socket_server_poll` returns, if it does. -/
def push (ss : SocketServer) (message : Option SocketResult) : SocketServer :=
  { ss with messages := ss.messages ++ message.toList }

/-- An event of a socket that was closed under an id. -/
def closedEvent (ss : SocketServer) (id : ℕ) (event : Event) : Bool :=
  match event.slot with
  | none => false
  | some i => (ss.slot i).type = .invalid ∧ (ss.slot i).id = id

/-- The loop of `clear_closed_event`. -/
def clearEvents (ss : SocketServer) (id : ℕ) : List Event → List Event
  | [] => []
  | event :: events =>
    if ss.closedEvent id event then { event with slot := none } :: events else event :: ss.clearEvents id events

/-- `clear_closed_event`. -/
def clearClosedEvent (ss : SocketServer) (message : Option SocketResult) : SocketServer :=
  match message with
  | none => ss
  | some result =>
    if result.type = .close ∨ result.type = .error then { ss with ev := ss.clearEvents result.id ss.ev } else ss

/-- `report_accept`. -/
def reportAccept (ss : SocketServer) (kernel : Kernel) (s : Socket) : Option (Option SocketResult × SocketServer) :=
  match kernel.accept with
  | .failed => some (none, ss)
  | .fileLimit => some (some (s.report .error), ss)
  | .client id => do
    let (_, ns) ← { ss.slot (hashId id) with type := .reserve, id := id, fd := .new }.newFd id s.owner false false
    let ss := ss.setSlot (hashId id) { ns with type := .paccept }
    some (some ⟨.accept, s.owner, s.id, id, []⟩, { ss with known := id :: ss.known })

/-- The end of a turn of `socket_server_poll`, with an event of a socket that is connected. A socket that can also be
written is looked at again. -/
def transfer (ss : SocketServer) (kernel : Kernel) (i : ℕ) (e : Event) : Option SocketServer :=
  if e.read then do
    let (message, s) ← forwardMessageTcp kernel (ss.slot i)
    let ss := (ss.setSlot i s).push message
    let closed := message.any fun result ↦ result.type = .close ∨ result.type = .error
    some (if e.write ∧ ¬closed then { ss with ev := { e with read := false } :: ss.ev } else ss)
  else if e.write then
    ((ss.slot i).sendBuffer kernel.writes).map fun answer ↦ (ss.setSlot i answer.2).push answer.1
  else some ss

/-- The end of a turn of `socket_server_poll`, with an event. -/
def dispatch (ss : SocketServer) (kernel : Kernel) (e : Event) : Option SocketServer :=
  match e.slot with
  | none => some ss
  | some i =>
    let s := ss.slot i
    match s.type with
    | .connecting => (reportConnect kernel s).map fun answer ↦ (ss.setSlot i answer.2).push answer.1
    | .listen => (ss.reportAccept kernel s).map fun answer ↦ answer.2.push answer.1
    | .invalid => some ss
    | _ => ss.transfer kernel i e

/-- A turn of the loop of `socket_server_poll`. -/
def turn (ss : SocketServer) (kernel : Kernel) : Option SocketServer :=
  if ss.checkctrl ∧ ¬ss.pipe.isEmpty then
    match ss.pipe with
    | [] => some ss
    | request :: pipe => do
      let (message, s) ← request.ctrlCmd kernel (ss.slot (hashId request.id))
      some ((({ ss with pipe := pipe }.setSlot (hashId request.id) s).clearClosedEvent message).push message)
  else
    match ss.ev with
    | e :: ev => { ss with checkctrl := false, ev := ev }.dispatch kernel e
    | [] =>
      match kernel.ready with
      | e :: ev => { ss with checkctrl := true, ev := ev }.dispatch kernel e
      | [] => some { ss with checkctrl := true }

/-- An id that `reserve_id` may give: it has 31 bits, and its slot is free. -/
def Vacant (ss : SocketServer) (id : ℕ) : Prop := id < 0x80000000 ∧ (ss.slot (hashId id)).type = .invalid

instance (ss : SocketServer) (id : ℕ) : Decidable (ss.Vacant id) := inferInstanceAs (Decidable (_ ∧ _))

/-- An id that was given to nobody before. The ids are counted up, so it comes again only after all the others. -/
def Fresh (ss : SocketServer) (id : ℕ) : Prop := id ∉ ss.known ∧ id ∉ ss.storing ∧ id ∉ ss.reserved

instance (ss : SocketServer) (id : ℕ) : Decidable (ss.Fresh id) := inferInstanceAs (Decidable (_ ∧ _ ∧ _))

/-- What the kernel and `reserve_id` may answer: `sp_wait` reports sockets that are in the poll, each once, and those
that can be written where it is to report this. -/
def Answers (ss : SocketServer) (kernel : Kernel) : Prop :=
  (∀ e ∈ kernel.ready, ∀ i ∈ e.slot, (ss.slot i).fd.polled ∧ (e.write → (ss.slot i).fd.writeEvent)) ∧
    (kernel.ready.filterMap Event.slot).Nodup ∧ kernel.ready.length ≤ maxEvent ∧
      ∀ id ∈ kernel.accept.id?, ss.Vacant id

instance (ss : SocketServer) (kernel : Kernel) : Decidable (ss.Answers kernel) :=
  inferInstanceAs (Decidable (_ ∧ _ ∧ _ ∧ _))

/-- No id comes again, and where a request is read for the id that a slot had before it was reserved again, the new id
is stored there. -/
def Settled (ss : SocketServer) : ServerEvent → Prop
  | .reserve id => ss.Fresh id
  | .store _ => True
  | .request _ => True
  | .turn kernel => (∀ id ∈ kernel.accept.id?, ss.Fresh id) ∧ (ss.checkctrl → ∀ request ∈ ss.pipe.head?,
      (ss.slot (hashId request.id)).id = request.id → ∀ id ∈ ss.storing, hashId id ≠ hashId request.id)

instance (ss : SocketServer) : (event : ServerEvent) → Decidable (ss.Settled event)
  | .reserve id => inferInstanceAs (Decidable (ss.Fresh id))
  | .store _ => inferInstanceAs (Decidable True)
  | .request _ => inferInstanceAs (Decidable True)
  | .turn kernel => inferInstanceAs (Decidable ((∀ id ∈ kernel.accept.id?, ss.Fresh id) ∧ (ss.checkctrl →
      ∀ request ∈ ss.pipe.head?, (ss.slot (hashId request.id)).id = request.id →
        ∀ id ∈ ss.storing, hashId id ≠ hashId request.id)))

end SocketServer

/-- The server with the threads of the services. -/
def socketServer : Machine SocketServer ServerEvent where
  step ss event :=
    match event with
    | .reserve id =>
      if ss.Vacant id then
        some { ss.setSlot (hashId id) { ss.slot (hashId id) with type := .reserve } with storing := id :: ss.storing }
      else none
    | .store id =>
      if id ∈ ss.storing then
        some { ss.setSlot (hashId id) { ss.slot (hashId id) with id := id, fd := .new } with
          storing := ss.storing.erase id
          reserved := id :: ss.reserved }
      else none
    | .request request =>
      if request.opens then
        if request.id ∈ ss.reserved then
          some { ss with
            pipe := ss.pipe ++ [request]
            reserved := ss.reserved.erase request.id
            known := request.id :: ss.known }
        else none
      else if request.id ∈ ss.known then some { ss with pipe := ss.pipe ++ [request] }
      else none
    | .turn kernel => if ss.Answers kernel then ss.turn kernel else none

end SvrDemo.Skynet
