import SvrDemo.Map.AoiHandler
import SvrDemo.Protocol.Coalescing

/-!
# What a client is told of the characters

The part of `aoi_handler.lua` that tells a client how the characters it sees change, and its own. A change marks
the flags of a subscription, in each scope: `aoi_send` comes from the agent of the character, and `aoi_manage` and
`boardcast` mark the character of the client itself in `self_flag`. A response of the client in which it wants more
grants an update. `refresh_aoi` and `send_self` send what is both marked and wanted.

The record of a subscription is a table of the language that `subscribe_character` and `subscribe_agent` share:
`subscriptions` has every record that was ever made under the number of its making. The handlers do not wait in the
middle of what they do to the flags, so each of them is one step. Coroutines that a handler forks run after it.
-/

set_option autoImplicit false
set_option relaxedAutoImplicit false

namespace SvrDemo.Map

open Lua Protocol

/-! ### Data -/

/-- The keys of `scope2proto`. -/
inductive Scope
  | move
  | attribute
  deriving DecidableEq

/-- An order in which a traversal visits the keys of `scope2proto`. -/
structure ScopeOrder where
  order : List Scope
  once : order.Nodup
  all : ∀ scope, scope ∈ order

/-- The record that `subscribe` makes, with its flags. -/
structure FlaggedSubscription extends Subscription where
  flag : Scope → Flag

/-- Whom an update is about: the character of the client, or that of a subscription. -/
inductive Subject
  | self
  | subscribed (record : ℕ)
  deriving DecidableEq

/-- What the client is sent with `send_request`. -/
inductive ClientRequest
  | aoiAdd (record : ℕ)
  | aoiRemove (character : ℕ)
  | aoiUpdate (scope : Scope) (subject : Subject)
  deriving DecidableEq

/-- The calls of other agents. -/
inductive AgentCall
  | aoiSubscribe (target : ℕ)
  | aoiUnsubscribe (agent : ℕ)
  | aoiSend (target : ℕ) (scope : Scope)

/-- The variables of `aoi_handler.lua`, with every record that was ever made, what the client was sent and which
agents were called. -/
structure Viewer where
  selfId : ℕ
  selfFlag : Scope → Flag
  characterWriter : Bool
  subscribeCharacter : Table ℕ
  subscribeAgent : Table ℕ
  subscriptions : ℕ → FlaggedSubscription
  subscriptionCnt : ℕ
  sent : List ClientRequest
  called : List AgentCall

namespace Viewer

/-- The function that `handler:init` registers. -/
def init (selfId : ℕ) : Viewer where
  selfId := selfId
  selfFlag _ := ⟨false, true⟩
  characterWriter := false
  subscribeCharacter := ∅
  subscribeAgent := ∅
  subscriptions _ := ⟨⟨0, 0⟩, fun _ ↦ ⟨false, false⟩⟩
  subscriptionCnt := 0
  sent := []
  called := []

/-- Set the flags of the own character in a scope. -/
def setSelfFlag (self : Viewer) (scope : Scope) (flag : Flag) : Viewer :=
  { self with selfFlag := Function.update self.selfFlag scope flag }

/-- Set the flags of a subscription in a scope. -/
def setFlag (self : Viewer) (record : ℕ) (scope : Scope) (flag : Flag) : Viewer :=
  { self with
    subscriptions := Function.update self.subscriptions record
      { self.subscriptions record with flag := Function.update (self.subscriptions record).flag scope flag } }

/-- `user.send_request`. -/
def sendRequest (self : Viewer) (request : ClientRequest) : Viewer :=
  { self with sent := self.sent ++ [request] }

/-- A coroutine calls another agent. -/
def call (self : Viewer) (call : AgentCall) : Viewer :=
  { self with called := self.called ++ [call] }

/-! ### Flags -/

/-- `send_self`. -/
def sendSelf (self : Viewer) (scope : Scope) : Viewer :=
  let flag := self.selfFlag scope
  if flag.dirty && flag.wantmore then
    (self.setSelfFlag scope ⟨false, false⟩).sendRequest (.aoiUpdate scope .self)
  else self

/-- `mark_flag`. -/
def markFlag (self : Viewer) (character : ℕ) (scope : Scope) (field : Field) (value : Bool) : Viewer :=
  match self.subscribeCharacter.lookup character with
  | none => self
  | some t => self.setFlag t scope (((self.subscriptions t).flag scope).set field value)

/-- `refresh_aoi`. -/
def refreshAoi (self : Viewer) (id : ℕ) (scope : Scope) : Viewer :=
  match self.subscribeCharacter.lookup id with
  | none => self
  | some t =>
    let flag := (self.subscriptions t).flag scope
    if flag.dirty && flag.wantmore then
      (self.sendRequest (.aoiUpdate scope (.subscribed t))).setFlag t scope ⟨false, false⟩
    else self

/-- `aoi_update_response`. -/
def aoiUpdateResponse (self : Viewer) (id : ℕ) (scope : Scope) : Viewer :=
  if id = self.selfId then
    (self.setSelfFlag scope ((self.selfFlag scope).set .wantmore true)).sendSelf scope
  else (self.markFlag id scope .wantmore true).refreshAoi id scope

/-! ### Subscriptions -/

/-- `create_reader`. -/
def createReader (self : Viewer) : Viewer :=
  { self with characterWriter := true }

/-- `subscribe`. -/
def subscribe (self : Viewer) (agent reader : ℕ) : Viewer :=
  { self with
    subscriptions := Function.update self.subscriptions self.subscriptionCnt
      ⟨⟨reader, agent⟩, fun _ ↦ ⟨false, false⟩⟩
    subscriptionCnt := self.subscriptionCnt + 1
    subscribeCharacter := self.subscribeCharacter.insert reader self.subscriptionCnt
    subscribeAgent := self.subscribeAgent.insert agent self.subscriptionCnt }.sendRequest
    (.aoiAdd self.subscriptionCnt)

/-- The part that `aoi_remove` and `aoi_unsubscribe` share, for a recorded agent. -/
def forget (self : Viewer) (agent record : ℕ) : Viewer :=
  let id := (self.subscriptions record).character
  { self with
    subscribeAgent := self.subscribeAgent.erase agent
    subscribeCharacter := self.subscribeCharacter.erase id }.sendRequest (.aoiRemove id)

/-- The coroutine of `aoi_add` for one target, up to its call. -/
def aoiAdd (self : Viewer) (target : ℕ) : Viewer :=
  self.createReader.call (.aoiSubscribe target)

/-- The coroutine of `aoi_remove` for one agent. -/
def aoiRemove (self : Viewer) (agent : ℕ) : Viewer :=
  match self.subscribeAgent.lookup agent with
  | none => self
  | some t => (self.forget agent t).call (.aoiUnsubscribe agent)

/-- The own character has changed: `aoi_update` and `boardcast`, up to the coroutines they fork. -/
def markSelf (self : Viewer) (scope : Scope) : Viewer :=
  (self.setSelfFlag scope ((self.selfFlag scope).set .dirty true)).sendSelf scope

/-- The coroutines of `aoi_update` and `boardcast`. -/
def sendAll (self : Viewer) (scope : Scope) (targets : List ℕ) : Viewer :=
  targets.foldl (fun self target ↦ self.call (.aoiSend target scope)) self

/-! ### Messages -/

/-- `CMD.aoi_subscribe`. -/
def aoiSubscribe (self : Viewer) (agent reader : ℕ) : Viewer :=
  (self.subscribe agent reader).createReader

/-- `CMD.aoi_unsubscribe`. -/
def aoiUnsubscribe (self : Viewer) (agent : ℕ) : Viewer :=
  match self.subscribeAgent.lookup agent with
  | none => self
  | some t => self.forget agent t

/-- `CMD.aoi_manage`: the lists in the order of their traversals, the third with its scope. A list that is nil
does what an empty one does, except for the third. -/
def aoiManage (self : Viewer) (alist rlist : List ℕ) (ulist : Option (Scope × List ℕ)) : Viewer :=
  let marked := match ulist with
    | none => self
    | some (scope, _) => self.markSelf scope
  let forked := rlist.foldl aoiRemove (alist.foldl aoiAdd marked)
  match ulist with
  | none => forked
  | some (scope, targets) => forked.sendAll scope targets

/-- `CMD.aoi_send`. -/
def aoiSend (self : Viewer) (agent : ℕ) (scope : Scope) : Viewer :=
  match self.subscribeAgent.lookup agent with
  | none => self
  | some t =>
    let id := (self.subscriptions t).character
    (self.markFlag id scope .dirty true).refreshAoi id scope

/-- `RESPONSE.aoi_add`, for a response that wants more. -/
def responseAoiAdd (self : Viewer) (id : ℕ) (scopes : ScopeOrder) : Viewer :=
  scopes.order.foldl (fun self k ↦ (self.markFlag id k .wantmore true).refreshAoi id k) self

/-- `handler.boardcast`, along a traversal of `subscribe_agent`. -/
def boardcast (self : Viewer) (scope : Scope) (order : List ℕ) : Viewer :=
  if self.characterWriter then (self.markSelf scope).sendAll scope order else self

end Viewer

/-- What an agent handles: calls of the map and of other agents, the reply to a call of `aoi_subscribe`, responses
of the client with whether it wants more, and a `boardcast` of `combat_handler.lua`. A response to
`aoi_update_move` or to `aoi_update_attribute` is one to an update in its scope. -/
inductive ViewerEvent
  | aoiManage (alist rlist : List ℕ) (ulist : Option (Scope × List ℕ))
  | aoiSubscribe (agent reader : ℕ)
  | subscribed (target reader : ℕ)
  | aoiUnsubscribe (agent : ℕ)
  | aoiSend (agent : ℕ) (scope : Scope)
  | responseAoiAdd (id : ℕ) (wantmore : Bool) (scopes : ScopeOrder)
  | responseAoiUpdate (scope : Scope) (id : ℕ) (wantmore : Bool)
  | boardcast (scope : Scope) (order : List ℕ)

/-- The machine of `aoi_handler.lua`. -/
def viewer : Machine Viewer ViewerEvent where
  step self event :=
    match event with
    | .aoiManage alist rlist ulist => some (self.aoiManage alist rlist ulist)
    | .aoiSubscribe agent reader => some (self.aoiSubscribe agent reader)
    | .subscribed target reader => some (self.subscribe target reader)
    | .aoiUnsubscribe agent => some (self.aoiUnsubscribe agent)
    | .aoiSend agent scope => some (self.aoiSend agent scope)
    | .responseAoiAdd id wantmore scopes => some (if wantmore then self.responseAoiAdd id scopes else self)
    | .responseAoiUpdate scope id wantmore => some (if wantmore then self.aoiUpdateResponse id scope else self)
    | .boardcast scope order =>
      if IsOrder order self.subscribeAgent.keys then some (self.boardcast scope order) else none

end SvrDemo.Map
