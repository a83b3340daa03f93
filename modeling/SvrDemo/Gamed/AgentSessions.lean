import SvrDemo.Base.Pack
import SvrDemo.Protocol.History
import SvrDemo.Sproto.Host

/-!
# The requests of an agent

The part of `agent.lua` that talks with the client. `send_request` numbers its requests and keeps what it has sent in
`session`; `handle_response` finds there what a response answers, and calls the handler that is registered for it.
An agent is opened and closed many times, for one user after the other.

`CMD.close` waits between its parts, and what a handler of a message sends is sent in steps of its own, so that
messages of the client, requests to it and the parts of `CMD.open` and `CMD.close` come in any order. `Since` the last
`opened` is what belongs to the present connection.
-/

set_option autoImplicit false
set_option relaxedAutoImplicit false

namespace SvrDemo.Gamed

open Base Protocol Sproto

variable {Args : Type}

/-- What `send_request` keeps. -/
structure SentRequest (Args : Type) where
  name : String
  args : Option Args

/-- The variables of `agent.lua` that the messages of the client are about. `response` has the names in `RESPONSE`. -/
structure AgentSessions (Args : Type) where
  userFd : Option ℕ
  response : Option (Finset String)
  session : Finmap fun _ : ℤ ↦ SentRequest Args
  sessionId : ℤ
  host : Host

/-- What becomes of a response: one of the two warnings before `kick_self`, an index of nil, or the handler with the
arguments of the request and of the response. -/
inductive Handling (Args : Type)
  | sessionNotFound (id : ℤ)
  | unhandledResponse (name : String)
  | raised
  | handler (name : String) (request response : Option Args)

/-- The names in the table `RESPONSE` of `aoi_handler.lua`, the only handler that has one. -/
def aoiResponse : Finset String := {"aoi_add", "aoi_update_move", "aoi_update_attribute"}

namespace AgentSessions

/-- The agent as it starts. -/
def initial : AgentSessions Args where
  userFd := none
  response := none
  session := ∅
  sessionId := 0
  host := ⟨∅⟩

/-- `send_msg`: the socket and the package. Without a socket it raises. -/
def sendMsg (fd : Option ℕ) (msg : Bytes) : Option (ℕ × Bytes) :=
  (packS2 msg).bind fun package ↦ fd.map fun fd ↦ (fd, package)

/-- `send_request`. -/
def sendRequest (core : Core Args) (self : AgentSessions Args) (name : String) (args : Option Args) :
    AgentSessions Args :=
  let id := self.sessionId + 1
  let (host, str) := self.host.attach core name args id
  let called := { self with sessionId := id, host := host }
  match str with
  | .error _ => called
  | .ok str =>
    match sendMsg self.userFd str with
    | none => called
    | some _ => { called with session := self.session.insert id ⟨name, args⟩ }

/-- `handle_response`. -/
def handleResponse (self : AgentSessions Args) (id : ℤ) (args : Option Args) : Handling Args :=
  match self.session.lookup id with
  | none => .sessionNotFound id
  | some s =>
    match self.response with
    | none => .raised
    | some response => if s.name ∈ response then .handler s.name s.args args else .unhandledResponse s.name

/-- `CMD.open`, up to the first of its calls. -/
def opened (self : AgentSessions Args) (fd : ℕ) : AgentSessions Args :=
  { self with userFd := some fd, response := some ∅ }

/-- `CMD.map_enter`, which raises without a user. -/
def mapEnter (self : AgentSessions Args) : AgentSessions Args :=
  if self.userFd.isSome then { self with response := self.response.map (· ∪ aoiResponse) } else self

/-- The part of `CMD.close` after the map has been left. -/
def mapLeave (self : AgentSessions Args) : AgentSessions Args :=
  if self.userFd.isSome then { self with response := self.response.map (· \ aoiResponse) } else self

/-- The end of `CMD.close`. -/
def closed (self : AgentSessions Args) : AgentSessions Args :=
  { self with userFd := none }

end AgentSessions

/-- What an agent is asked: to send a request, by `CMD.open`, `CMD.map_enter` and the parts of `CMD.close`, and by a
message of the client. -/
inductive AgentEvent (Args : Type)
  | sendRequest (name : String) (args : Option Args)
  | opened (fd : ℕ)
  | mapEnter
  | mapLeave
  | closed
  | message (msg : Bytes)

/-- The response that a message of the client is, with its handling. -/
def AgentSessions.responseOf (core : Core Args) (self : AgentSessions Args) (msg : Bytes) :
    Option (ℤ × Handling Args) :=
  match (self.host.dispatch core msg).2 with
  | .ok (.response id args) => some (id, self.handleResponse id args)
  | _ => none

/-- The machine of `agent.lua`. A message changes what the host waits for. -/
def agentSessions (core : Core Args) : Machine (AgentSessions Args) (AgentEvent Args) where
  step self event :=
    match event with
    | .sendRequest name args => some (self.sendRequest core name args)
    | .opened fd => some (self.opened fd)
    | .mapEnter => some self.mapEnter
    | .mapLeave => some self.mapLeave
    | .closed => some self.closed
    | .message msg => some { self with host := (self.host.dispatch core msg).1 }

/-! ### What is noted -/

/-- What is noted of the connections of an agent. -/
inductive SessionNote
  | opened
  | sent (id : ℤ)
  | answered (id : ℤ)
  deriving DecidableEq

namespace AgentSessions

/-- The notes of a step. A request has been sent when it is in the table. -/
def notes (core : Core Args) (self : AgentSessions Args) (event : AgentEvent Args) (next : AgentSessions Args)
    (_ : Unit) : List SessionNote :=
  match event with
  | .sendRequest _ _ => if next.sessionId ∈ next.session then [.sent next.sessionId] else []
  | .opened _ => [.opened]
  | .mapEnter => []
  | .mapLeave => []
  | .closed => []
  | .message msg => ((self.responseOf core msg).map fun response ↦ .answered response.1).toList

/-- A handler runs for a response with an id. -/
def Runs (core : Core Args) (self : AgentSessions Args) (event : AgentEvent Args) (id : ℤ) : Prop :=
  ∃ msg name request response, event = .message msg ∧
    self.responseOf core msg = some (id, .handler name request response)

end AgentSessions

/-- A request of the present connection that has not been answered. -/
def Outstanding (history : List SessionNote) (id : ℤ) : Prop :=
  Since (.sent id) .opened history ∧ .answered id ∉ history

/-- The machine of `agent.lua` with its history. -/
def recordedSessions (core : Core Args) :
    Machine (AgentSessions Args × (Unit → List SessionNote)) (AgentEvent Args) :=
  (agentSessions core).recorded (AgentSessions.notes core)

end SvrDemo.Gamed
