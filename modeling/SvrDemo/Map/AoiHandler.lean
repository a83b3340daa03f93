import SvrDemo.Lua.Table
import SvrDemo.Map.AoiPair

/-!
# The subscriptions of the agents

`aoi_handler.lua`, with the messages between the agents. The map calls `aoi_manage` in an agent with a list
of agents to add and a list of agents to remove. The agent runs a coroutine for every entry of a list, in the
section that handles the call: an add asks the other agent with `aoi_subscribe`, and the reply completes it; a
remove forgets the other agent when it is recorded and tells it with `aoi_unsubscribe`.

`AoiNet` has the agents of a map, the messages between them, and the calls of the map that have not arrived.
The messages from one agent to another arrive in the order in which they were sent, and so do the calls of
the map in one agent; nothing else is said about the order. A reader of a character is the id of the character.
The flags of a subscription and the updates that read them, which change no subscription, are left out.
-/

set_option autoImplicit false
set_option relaxedAutoImplicit false

namespace SvrDemo.Map

open Lua Protocol

/-! ### An agent -/

/-- The record that `subscribe` makes. -/
structure Subscription where
  character : ℕ
  agent : ℕ

/-- A package for the client, with the agent whose character it is about. -/
inductive Pack
  | aoiAdd (agent character : ℕ)
  | aoiRemove (agent character : ℕ)

/-- The variables of `aoi_handler.lua`, and what the client was sent. -/
structure AoiAgent where
  selfId : ℕ
  subscribeCharacter : Table Subscription
  subscribeAgent : Table Subscription
  sent : List Pack

namespace AoiAgent

/-- `subscribe`. -/
def subscribe (agent reader : ℕ) (self : AoiAgent) : AoiAgent :=
  { self with
    subscribeCharacter := self.subscribeCharacter.insert reader ⟨reader, agent⟩
    subscribeAgent := self.subscribeAgent.insert agent ⟨reader, agent⟩
    sent := self.sent ++ [.aoiAdd agent reader] }

/-- The part that `aoi_remove` and `aoi_unsubscribe` share. -/
def forget (agent : ℕ) (self : AoiAgent) : AoiAgent :=
  match self.subscribeAgent.lookup agent with
  | none => self
  | some t =>
    { self with
      subscribeCharacter := self.subscribeCharacter.erase t.character
      subscribeAgent := self.subscribeAgent.erase agent
      sent := self.sent ++ [.aoiRemove agent t.character] }

/-- The agent has recorded another one. -/
def records (self : AoiAgent) (agent : ℕ) : Bool :=
  (self.subscribeAgent.lookup agent).isSome

end AoiAgent

/-! ### The agents and their messages -/

/-- What an agent sends another one: calls and their replies. -/
inductive Message
  | aoiSubscribe (reader : ℕ)
  | subscribed (reader : ℕ)
  | aoiUnsubscribe
  | unsubscribed
  deriving DecidableEq

/-- The lists of a call of `aoi_manage`, in the order of their traversals. An agent is at most once in a list
and not in both, as the map makes them. -/
structure Manage where
  alist : List ℕ
  rlist : List ℕ
  addOnce : alist.Nodup
  removeOnce : rlist.Nodup
  disjoint : ∀ agent ∈ alist, agent ∉ rlist

/-- A call of `aoi_manage` in an agent. -/
structure ManageCall where
  agent : ℕ
  manage : Manage

/-- The agents, the messages from one to another, and the calls of the map on their way, in the order in
which they were issued. For the statements about it, `issued` has all calls of the map and `handled` those
that have arrived. -/
structure AoiNet where
  agents : ℕ → AoiAgent
  channel : ℕ → ℕ → List Message
  pending : List ManageCall
  issued : List ManageCall
  handled : List ManageCall

namespace AoiNet

/-- Change an agent. -/
def updateAgent (net : AoiNet) (agent : ℕ) (change : AoiAgent → AoiAgent) : AoiNet :=
  { net with agents := Function.update net.agents agent (change (net.agents agent)) }

/-- Replace the messages from one agent to another. -/
def setChannel (net : AoiNet) (sender receiver : ℕ) (messages : List Message) : AoiNet :=
  { net with channel := fun from' to' ↦
      if from' = sender ∧ to' = receiver then messages else net.channel from' to' }

/-- Send a message. -/
def send (net : AoiNet) (sender receiver : ℕ) (message : Message) : AoiNet :=
  net.setChannel sender receiver (net.channel sender receiver ++ [message])

/-- The coroutine of `aoi_add` for one target, up to its call. -/
def aoiAdd (self : ℕ) (net : AoiNet) (target : ℕ) : AoiNet :=
  net.send self target (.aoiSubscribe (net.agents self).selfId)

/-- The coroutine of `aoi_remove` for one agent. -/
def aoiRemove (self : ℕ) (net : AoiNet) (agent : ℕ) : AoiNet :=
  if (net.agents self).records agent then
    (net.updateAgent self (AoiAgent.forget agent)).send self agent .aoiUnsubscribe
  else net

/-- `CMD.aoi_manage`. -/
def aoiManage (net : AoiNet) (self : ℕ) (manage : Manage) : AoiNet :=
  manage.rlist.foldl (aoiRemove self) (manage.alist.foldl (aoiAdd self) net)

/-- A call of the map arrives. -/
def handle (net : AoiNet) (index : ℕ) (call : ManageCall) : AoiNet :=
  { net.aoiManage call.agent call.manage with
    pending := net.pending.eraseIdx index
    handled := net.handled ++ [call] }

/-- `CMD.aoi_subscribe` and `CMD.aoi_unsubscribe` with their replies, and the rest of `aoi_add` when the
reply arrives. -/
def receive (net : AoiNet) (sender self : ℕ) : Message → AoiNet
  | .aoiSubscribe reader =>
    (net.updateAgent self (AoiAgent.subscribe sender reader)).send self sender
      (.subscribed (net.agents self).selfId)
  | .subscribed reader => net.updateAgent self (AoiAgent.subscribe sender reader)
  | .aoiUnsubscribe => (net.updateAgent self (AoiAgent.forget sender)).send self sender .unsubscribed
  | .unsubscribed => net

end AoiNet

/-- What happens: the map issues a call, a call of the map arrives, or the next message from one agent to
another does. -/
inductive AoiEvent
  | issue (call : ManageCall)
  | manage (index : ℕ)
  | deliver (sender receiver : ℕ)

/-- The machine of the agents. -/
def aoiNet : Machine AoiNet AoiEvent where
  step net event :=
    match event with
    | .issue call => some { net with pending := net.pending ++ [call], issued := net.issued ++ [call] }
    | .manage index =>
      match net.pending[index]? with
      | none => none
      | some call =>
        if ∀ other ∈ net.pending.take index, other.agent ≠ call.agent then
          some (net.handle index call)
        else none
    | .deliver sender receiver =>
      match net.channel sender receiver with
      | [] => none
      | message :: rest => some ((net.setChannel sender receiver rest).receive sender receiver message)

/-- The agents when their characters have entered the map. -/
def AoiNet.initial (character : ℕ → ℕ) : AoiNet where
  agents agent := ⟨character agent, ∅, ∅, []⟩
  channel _ _ := []
  pending := []
  issued := []
  handled := []

end SvrDemo.Map
