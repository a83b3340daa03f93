import SvrDemo.Gamed.Server

/-!
# One agent for an account

An agent is open for an account from the first section of `CMD.open` to the first section of
`CMD.close`. The invariant is that `online_account` has the agent that is open, or about to open, for an
account. Two steps of the game server can break it: `login_handler` overwrites the entry of an
account, and `CMD.close` clears it. `KeepsEntries` is the condition that they do so only when no other
agent is open or about to open for the account, and the invariant holds in all runs of such steps.

A second login of the same account breaks it: the kick only makes the socket of the first client
close, the second agent is opened at once, and when the first agent closes it clears the entry of the
second.
-/

set_option autoImplicit false
set_option relaxedAutoImplicit false

namespace SvrDemo.Gamed

open Coroutine Lua Skynet

/-! ### Agents and entries -/

/-- An agent is open for an account: `CMD.open` has run and `CMD.close` has not begun. -/
def Server.Open (server : Server) (agent account : ℕ) : Prop :=
  ∃ user, server.user.lookup agent = some user ∧ user.account = account ∧ user.closing = false

/-- The agent and the account of a `CMD.open` that is on its way. -/
def Place.opens : Place → Option (ℕ × ℕ)
  | .toAgent agent (.open _ account) => some (agent, account)
  | _ => none

/-- The account of a `CMD.close` of the game server that is on its way. -/
def Place.clears : Place → Option ℕ
  | .toGamed (.close _ account) => account
  | _ => none

/-- The account and the agent that `login_handler` puts into `online_account` when it goes on at a place
with a reply: the first agent of the pool, when there is one and no agent has to be kicked first, or
the new service. -/
def Server.assigns (server : Server) : Place → Answer → Option (ℕ × ℕ)
  | .verify _ _ _, .number account =>
    if server.onlineAccount.lookup account.toNat = none then
      server.pool.head?.map fun agent ↦ (account.toNat, agent)
    else none
  | .fromAgent _ (.kick account), _ => server.pool.head?.map fun agent ↦ (account, agent)
  | .newService _ account, .number address => some (account, address.toNat)
  | _, _ => none

/-- An agent holds an account: it is open for it, or about to open. -/
def Holds (server : Server) (places : List Place) (agent account : ℕ) : Prop :=
  server.Open agent account ∨ ∃ place ∈ places, place.opens = some (agent, account)

/-- The entry of an account is overwritten or cleared only while no other agent holds the account. -/
def KeepsEntries (configuration : Configuration skynet Place Server) : Move skynet Place → Prop
  | .arrive _ => True
  | .resume index reply _ => ∀ place, configuration.points[index]? = some place →
      (∀ account agent, configuration.state.assigns place reply = some (account, agent) →
        ∀ other, Holds configuration.state configuration.points other account → other = agent) ∧
      ∀ account, place.clears = some account →
        ∀ agent, ¬ Holds configuration.state configuration.points agent account

/-- The agents that hold an account. -/
def holders (server : Server) (places : List Place) (account : ℕ) : Finset ℕ :=
  (server.user.keys.filter fun agent ↦ (server.user.lookup agent).any fun user ↦
    user.account = account ∧ user.closing = false) ∪
      ((places.filterMap Place.opens).filter fun holder ↦ holder.2 = account).toFinset.image Prod.fst

theorem mem_holders {server : Server} {places : List Place} {agent account : ℕ} :
    agent ∈ holders server places account ↔ Holds server places agent account := by
  rw [holders, Finset.mem_union, Finset.mem_filter, Table.mem_keys_iff, Finset.mem_image]
  refine or_congr ?_ ?_
  · constructor
    · rintro ⟨⟨user, hlookup⟩, hopen⟩
      rw [hlookup] at hopen
      exact ⟨user, hlookup, by simpa using hopen⟩
    · rintro ⟨user, hlookup, hopen⟩
      exact ⟨⟨user, hlookup⟩, by simp [hlookup, hopen]⟩
  · simp only [List.mem_toFinset, List.mem_filter, List.mem_filterMap, decide_eq_true_eq]
    constructor
    · rintro ⟨⟨agent, account⟩, ⟨⟨place, hplace, hopens⟩, rfl⟩, rfl⟩
      exact ⟨place, hplace, hopens⟩
    · rintro ⟨place, hplace, hopens⟩
      exact ⟨(agent, account), ⟨⟨place, hplace, hopens⟩, rfl⟩, rfl⟩

instance (configuration : Configuration skynet Place Server) (move : Move skynet Place) :
    Decidable (KeepsEntries configuration move) :=
  match move with
  | .arrive _ => isTrue trivial
  | .resume index reply _ =>
    decidable_of_iff (∀ place ∈ configuration.points[index]?,
      (∀ pair ∈ configuration.state.assigns place reply,
        ∀ other ∈ holders configuration.state configuration.points pair.1, other = pair.2) ∧
      ∀ account ∈ place.clears, holders configuration.state configuration.points account = ∅) <| by
    simp only [KeepsEntries, Option.mem_def, mem_holders, Prod.forall,
      Finset.eq_empty_iff_forall_notMem]

/-! ### Sections -/

/-- A change that leaves the entries as they are and opens no agent. -/
structure Quiet (origin last : Server) : Prop where
  onlineAccount : last.onlineAccount = origin.onlineAccount
  opened : ∀ agent account, last.Open agent account → origin.Open agent account

/-- What a section does: nothing to the entries and the agents, or one of the three steps of an account.
The lists are what the section has heard and the places where it leaves coroutines waiting. -/
inductive ServerSection (place : Place) (origin : Server) (heard : List Answer) :
    List Place → Server → Prop
  | quiet {left : List Place} {last : Server} (quiet : Quiet origin last)
      (leaves : ∀ other ∈ left, other.opens = none) : ServerSection place origin heard left last
  | assigned {reply : Answer} {answers : List Answer} {fd account agent : ℕ} {last : Server}
      (hears : heard = reply :: answers)
      (assigns : origin.assigns place reply = some (account, agent))
      (onlineAccount : last.onlineAccount = origin.onlineAccount.insert account agent)
      (opened : ∀ other account, last.Open other account → origin.Open other account) :
      ServerSection place origin heard [.toAgent agent (.open fd account)] last
  | opened {agent account : ℕ} {left : List Place} {last : Server}
      (opens : place.opens = some (agent, account))
      (onlineAccount : last.onlineAccount = origin.onlineAccount)
      (opened : ∀ other account', last.Open other account' → origin.Open other account' ∨
        (other, account') = (agent, account))
      (leaves : ∀ other ∈ left, other.opens = none) : ServerSection place origin heard left last
  | cleared {account : ℕ} {left : List Place} {last : Server} (clears : place.clears = some account)
      (onlineAccount : last.onlineAccount = origin.onlineAccount.erase account)
      (opened : ∀ agent account, last.Open agent account → origin.Open agent account)
      (leaves : ∀ other ∈ left, other.opens = none) : ServerSection place origin heard left last

/-- The contract of a coroutine: its sections are as described, whatever happens in between. -/
def serverContract : Contract skynet Place Server where
  rely := fun _ _ _ ↦ True
  guar := ServerSection
  pre := fun place _ ↦ ∃ event, place = .event event
  err := fun _ ↦ True

/-- A section that could end here. -/
def SoFar (current : Section skynet Place Server) (state : Server) : Prop :=
  current.forks = [] ∧ ServerSection current.point current.origin current.heard [] state

theorem Quiet.refl (server : Server) : Quiet server server :=
  ⟨rfl, fun _ _ h ↦ h⟩

theorem Quiet.trans {first middle last : Server} (h : Quiet first middle) (h' : Quiet middle last) :
    Quiet first last :=
  ⟨h'.onlineAccount.trans h.onlineAccount, fun agent account hopen ↦
    h.opened agent account (h'.opened agent account hopen)⟩

/-- A section that has not changed anything. -/
theorem soFar_fresh (place : Place) (state : Server) (heard : List Answer) :
    SoFar ⟨place, state, heard, []⟩ state :=
  ⟨rfl, .quiet (.refl state) fun _ h ↦ nomatch h⟩

/-- A section goes on with a quiet change. -/
theorem SoFar.quiet {current : Section skynet Place Server} {state last : Server}
    (h : SoFar current state) (hquiet : Quiet state last) : SoFar current last := by
  refine ⟨h.1, ?_⟩
  cases h.2 with
  | quiet quiet leaves => exact .quiet (quiet.trans hquiet) leaves
  | opened opens onlineAccount opened leaves =>
    exact .opened opens (hquiet.onlineAccount.trans onlineAccount)
      (fun other account hopen ↦ opened other account (hquiet.opened other account hopen)) leaves
  | cleared clears onlineAccount opened leaves =>
    exact .cleared clears (hquiet.onlineAccount.trans onlineAccount)
      (fun agent account hopen ↦ opened agent account (hquiet.opened agent account hopen)) leaves

/-- A section may end where it leaves its coroutine at a place that opens no agent. -/
theorem SoFar.ends {current : Section skynet Place Server} {state : Server} {left : List Place}
    (h : SoFar current state) (hleft : ∀ place ∈ left, place.opens = none) :
    serverContract.Ends current left state := by
  refine ⟨?_, fun place hplace ↦ by simp [h.1] at hplace⟩
  cases h.2 with
  | quiet quiet _ => exact .quiet quiet hleft
  | opened opens onlineAccount opened _ => exact .opened opens onlineAccount opened hleft
  | cleared clears onlineAccount opened _ => exact .cleared clears onlineAccount opened hleft

/-! ### Programs that stay quiet -/

/-- Wherever a section may end, it may end after this program too. -/
def Stays {α : Type} (program : ServerTask α) : Prop :=
  ∀ current state, SoFar current state →
    program.wp serverContract (fun _ ↦ SoFar) (fun _ ↦ SoFar) current state

section Stays

variable {α β κ : Type}

theorem stays_pure (value : α) : Stays (pure value : ServerTask α) :=
  fun _ _ h ↦ h

theorem stays_fail (error : LuaError) : Stays (Program.fail error : ServerTask α) :=
  fun _ _ h ↦ h

theorem stays_bind {first : ServerTask α} {rest : α → ServerTask β} (hfirst : Stays first)
    (hrest : ∀ value, Stays (rest value)) : Stays (first >>= rest) := by
  intro current state h
  rw [Program.wp_bind]
  exact Program.wp_mono (fun value current state h ↦ hrest value current state h)
    (fun _ _ _ h ↦ h) (hfirst current state h)

theorem stays_getState : Stays (Program.getState : ServerTask Server) :=
  fun _ _ h ↦ h

theorem stays_modifyState {change : Server → Server} (hchange : ∀ server, Quiet server (change server)) :
    Stays (Program.modifyState change : ServerTask Unit) :=
  fun _ state h ↦ h.quiet (hchange state)

theorem stays_attempt {program : ServerTask α} (h : Stays program) : Stays program.attempt := by
  intro current state hsoFar
  rw [Program.wp_attempt]
  exact h current state hsoFar

theorem stays_await {place : Place} (hplace : place.opens = none) :
    Stays (Program.await place : ServerTask Answer) :=
  fun current _ h ↦ ⟨h.ends (by simpa [h.1] using hplace), fun reply later _ ↦
    soFar_fresh place later [reply]⟩

theorem stays_forEach {list : List κ} {body : κ → ServerTask Unit} (hbody : ∀ element, Stays (body element)) :
    Stays (Program.forEach list body) := by
  induction list with
  | nil => exact stays_pure ()
  | cons head tail ih => exact stays_bind (hbody head) fun _ ↦ ih

theorem stays_call {place : Place} (hplace : place.opens = none) :
    Stays (call place : ServerTask Unit) := by
  refine stays_bind (stays_await hplace) fun reply ↦ ?_
  cases reply with
  | raised => exact stays_fail .callFailed
  | number _ => exact stays_pure ()
  | order _ => exact stays_pure ()
  | ok => exact stays_pure ()

/-- A call of a service of the model, whose handler starts a section of its own. -/
theorem stays_rpc {request reply : Place} {body : ServerTask Unit} (hrequest : request.opens = none)
    (hreply : reply.opens = none) (hbody : ∀ answer later, body.wp serverContract (fun _ ↦ SoFar)
      (fun _ ↦ SoFar) ⟨request, later, [answer], []⟩ later) :
    Stays (rpc request reply body) := by
  intro current state h
  rw [wp_rpc]
  have hends : ∀ {current state}, SoFar current state →
      serverContract.Ends current (current.forks ++ [reply]) state := fun h ↦
    h.ends (by simpa [h.1] using hreply)
  refine ⟨h.ends (by simpa [h.1] using hrequest), fun answer later _ ↦ ?_⟩
  refine Program.wp_mono ?_ ?_ (hbody answer later)
  · exact fun _ current state h ↦ ⟨hends h, fun answer later _ ↦ soFar_fresh reply later [answer]⟩
  · exact fun _ current state h ↦ ⟨hends h, fun answer later _ ↦ soFar_fresh reply later [answer]⟩

end Stays

/-! ### The programs of the agents -/

theorem quiet_of_user {server last : Server} (honline : last.onlineAccount = server.onlineAccount)
    (huser : ∀ agent user, last.user.lookup agent = some user → user.closing = false →
      ∃ old, server.user.lookup agent = some old ∧ old.account = user.account ∧
        old.closing = false) : Quiet server last := by
  refine ⟨honline, ?_⟩
  rintro agent account ⟨user, hlookup, rfl, hopen⟩
  obtain ⟨old, hold, haccount, hclosing⟩ := huser agent user hlookup hopen
  exact ⟨old, hold, haccount, hclosing⟩

/-- A change of the user of an agent that opens nothing. -/
theorem quiet_update {server : Server} {agent : ℕ} {change : User → User}
    (hchange : ∀ user, (change user).closing = false →
      (change user).account = user.account ∧ user.closing = false) :
    Quiet server { server with user := server.user.update agent change } := by
  refine quiet_of_user rfl fun other user hlookup hopen ↦ ?_
  by_cases hother : other = agent
  · subst hother
    rw [Table.lookup_update_self, Option.map_eq_some_iff] at hlookup
    obtain ⟨old, hold, rfl⟩ := hlookup
    obtain ⟨haccount, hclosing⟩ := hchange old hopen
    exact ⟨old, hold, haccount.symm, hclosing⟩
  · exact ⟨user, (Table.lookup_update_of_ne _ hother).symm.trans hlookup, rfl, hopen⟩

theorem stays_kickSelf (agent : ℕ) : Stays (kickSelf agent) := by
  refine stays_bind stays_getState fun server ↦ stays_rpc rfl rfl fun answer later ↦ ?_
  exact soFar_fresh _ later [answer]

theorem stays_agentDispatch {agent : ℕ} {command : ServerTask Unit} (h : Stays command) :
    Stays (agentDispatch agent command) := by
  refine stays_bind (stays_attempt h) fun result ↦ ?_
  cases result with
  | ok _ => exact stays_pure ()
  | error _ => exact stays_kickSelf agent

theorem stays_changeUser {agent : ℕ} {change : User → User}
    (hchange : ∀ user, (change user).closing = false →
      (change user).account = user.account ∧ user.closing = false) :
    Stays (changeUser agent change) := by
  refine stays_bind stays_getState fun server ↦ ?_
  cases server.user.lookup agent with
  | none => exact stays_fail .indexNil
  | some _ => exact stays_modifyState fun _ ↦ quiet_update hchange

theorem stays_leaveMap (agent : ℕ) : Stays (leaveMap agent) := by
  refine stays_bind stays_getState fun server ↦ ?_
  cases server.user.lookup agent with
  | none => exact stays_fail .indexNil
  | some user =>
    dsimp only
    cases user.map with
    | none => exact stays_pure ()
    | some map => exact stays_bind (stays_call rfl) fun _ ↦ stays_changeUser fun _ h ↦ ⟨rfl, h⟩

theorem stays_leaveWorld (agent : ℕ) : Stays (leaveWorld agent) := by
  refine stays_bind stays_getState fun server ↦ ?_
  cases server.user.lookup agent with
  | none => exact stays_fail .indexNil
  | some user =>
    dsimp only
    cases user.world with
    | none => exact stays_pure ()
    | some world =>
      cases user.character with
      | none => exact stays_fail .indexNil
      | some character =>
        exact stays_bind (stays_call rfl) fun _ ↦ stays_changeUser fun _ h ↦ ⟨rfl, h⟩

theorem stays_saveCharacter (agent : ℕ) : Stays (saveCharacter agent) := by
  refine stays_bind stays_getState fun server ↦ ?_
  cases server.user.lookup agent with
  | none => exact stays_fail .indexNil
  | some user =>
    dsimp only
    cases user.character with
    | none => exact stays_pure ()
    | some character => exact stays_call rfl

/-- The section of the game server that takes the report of an agent clears the entry. -/
theorem stays_callGamed_close (agent : ℕ) (account : Option ℕ) :
    Stays (callGamed (.close agent account) (gamedClose agent account)) := by
  refine stays_rpc rfl rfl fun answer later ↦ ?_
  cases account with
  | none => exact soFar_fresh _ later [answer]
  | some account => exact ⟨rfl, .cleared rfl rfl (fun _ _ h ↦ h) fun _ h ↦ nomatch h⟩

theorem stays_agentClose (agent : ℕ) : Stays (agentClose agent) := by
  refine stays_bind stays_getState fun server ↦ ?_
  cases server.user.lookup agent with
  | none => exact stays_callGamed_close agent none
  | some user =>
    refine stays_bind (stays_modifyState fun _ ↦ quiet_update fun _ h ↦ nomatch h) fun _ ↦ ?_
    refine stays_bind (stays_leaveMap agent) fun _ ↦ stays_bind (stays_leaveWorld agent) fun _ ↦ ?_
    refine stays_bind (stays_saveCharacter agent) fun _ ↦ stays_bind ?_ fun _ ↦
      stays_callGamed_close agent (some user.account)
    refine stays_modifyState fun server ↦ quiet_of_user rfl fun other user hlookup hopen ↦ ?_
    rw [Table.lookup_erase_eq] at hlookup
    split at hlookup
    · cases hlookup
    · exact ⟨user, hlookup, rfl, hopen⟩

theorem stays_worldEnter (agent world : ℕ) : Stays (worldEnter agent world) := by
  refine stays_bind stays_getState fun server ↦ ?_
  cases (server.user.lookup agent).bind User.character with
  | none => exact stays_fail .indexNil
  | some _ => exact stays_changeUser fun _ h ↦ ⟨rfl, h⟩

/-- `CMD.open` opens the agent in its first section. -/
theorem keeps_agentOpen {agent fd account : ℕ} {answer : Answer} {later : Server} :
    (agentDispatch agent (agentOpen agent fd account)).wp serverContract (fun _ ↦ SoFar)
      (fun _ ↦ SoFar) ⟨.toAgent agent (.open fd account), later, [answer], []⟩ later := by
  rw [agentDispatch, Program.wp_bind, Program.wp_attempt, agentOpen, Program.wp_bind,
    Program.wp_modifyState]
  have hopened : SoFar ⟨.toAgent agent (.open fd account), later, [answer], []⟩
      { later with user := later.user.insert agent ⟨fd, account, none, none, none, false⟩ } := by
    refine ⟨rfl, .opened rfl rfl ?_ fun _ h ↦ nomatch h⟩
    rintro other account' ⟨user, hlookup, rfl, hopen⟩
    rw [Table.lookup_insert_eq] at hlookup
    split at hlookup
    · next hother =>
      obtain rfl := Option.some.inj hlookup
      exact .inr (by rw [hother])
    · exact .inl ⟨user, hlookup, rfl, hopen⟩
  refine Program.wp_mono (fun _ _ _ h ↦ h) (fun _ current state h ↦ ?_)
    (stays_call rfl _ _ hopened)
  exact stays_kickSelf agent current state h

/-! ### Login -/

/-- The section has just heard which account logs in. -/
def LoggedIn (account : ℕ) (current : Section skynet Place Server) (state : Server) : Prop :=
  ∃ fd session token value, current = ⟨.verify fd session token, state, [.number value], []⟩ ∧
    value.toNat = account

/-- The section can give the account the first agent of the pool. -/
def Choosing (account : ℕ) (current : Section skynet Place Server) (state : Server) : Prop :=
  ∃ place reply, current = ⟨place, state, [reply], []⟩ ∧
    state.assigns place reply = state.pool.head?.map fun agent ↦ (account, agent)

/-- The section is about to give the account an agent. -/
def Assigning (account agent : ℕ) (current : Section skynet Place Server) (state : Server) : Prop :=
  current.forks = [] ∧ Quiet current.origin state ∧ ∃ reply, current.heard = [reply] ∧
    current.origin.assigns current.point reply = some (account, agent)

theorem keeps_kickOnline {account : ℕ} {current : Section skynet Place Server} {state : Server}
    (h : LoggedIn account current state) :
    (kickOnline account).wp serverContract (fun _ ↦ Choosing account) (fun _ ↦ SoFar) current
      state := by
  obtain ⟨fd, session, token, value, rfl, hvalue⟩ := h
  rw [kickOnline, Program.wp_bind, Program.wp_getState]
  cases honline : state.onlineAccount.lookup account with
  | none =>
    refine ⟨_, _, rfl, ?_⟩
    rw [Server.assigns, hvalue, if_pos honline]
  | some agent =>
    refine wp_rpc.mpr ⟨(soFar_fresh _ state _).ends (by simp [Place.opens]), fun answer later _ ↦ ?_⟩
    refine Program.wp_mono ?_ ?_
      (stays_agentDispatch (stays_fail .errorCalled) _ later (soFar_fresh _ later [answer]))
    · exact fun _ current state h ↦ ⟨h.ends (by simp [h.1, Place.opens]), fun reply last _ ↦
        ⟨_, _, rfl, rfl⟩⟩
    · exact fun _ current state h ↦ ⟨h.ends (by simp [h.1, Place.opens]), fun reply last _ ↦
        soFar_fresh _ last [reply]⟩

theorem keeps_takeAgent {fd account : ℕ} {current : Section skynet Place Server} {state : Server}
    (h : Choosing account current state) :
    (takeAgent fd account).wp serverContract (fun agent ↦ Assigning account agent)
      (fun _ ↦ SoFar) current state := by
  obtain ⟨place, reply, rfl, hassigns⟩ := h
  rw [takeAgent, Program.wp_bind, Program.wp_getState]
  cases hpool : state.pool with
  | nil =>
    refine ⟨(soFar_fresh place state [reply]).ends (by simp [Place.opens]), fun answer later _ ↦ ?_⟩
    cases answer with
    | number address => exact ⟨rfl, .refl later, _, rfl, rfl⟩
    | order _ => exact soFar_fresh _ later _
    | ok => exact soFar_fresh _ later _
    | raised => exact soFar_fresh _ later _
  | cons agent pool =>
    rw [hpool] at hassigns
    exact ⟨rfl, ⟨rfl, fun _ _ h ↦ h⟩, reply, rfl, hassigns⟩

/-- `login_handler` puts the agent into the table and sends `CMD.open` in one section. -/
theorem keeps_loginHandler {fd account : ℕ} {current : Section skynet Place Server} {state : Server}
    (h : LoggedIn account current state) :
    (loginHandler fd account).wp serverContract (fun _ ↦ SoFar) (fun _ ↦ SoFar) current state := by
  rw [loginHandler, Program.wp_bind]
  refine Program.wp_mono (fun _ current state h ↦ ?_) (fun _ _ _ h ↦ h) (keeps_kickOnline h)
  rw [Program.wp_bind]
  refine Program.wp_mono (fun agent current state h ↦ ?_) (fun _ _ _ h ↦ h) (keeps_takeAgent h)
  obtain ⟨hforks, hquiet, reply, hheard, hassigns⟩ := h
  rw [Program.wp_bind, Program.wp_modifyState, Program.wp_bind]
  refine wp_rpc.mpr ⟨⟨?_, fun place hplace ↦ by simp [hforks] at hplace⟩, fun answer later _ ↦ ?_⟩
  · rw [hforks]
    refine .assigned hheard hassigns ?_ hquiet.opened
    rw [← hquiet.onlineAccount]
  · have hrest : Stays (do
        Program.modifyState (Server.forward fd agent)
        return agent : ServerTask ℕ) :=
      stays_bind (stays_modifyState fun _ ↦ ⟨rfl, fun _ _ h ↦ h⟩) fun _ ↦ stays_pure agent
    refine Program.wp_mono ?_ ?_ keeps_agentOpen
    · exact fun _ current state h ↦ ⟨h.ends (by simp [h.1, Place.opens]), fun reply last _ ↦
        hrest _ last (soFar_fresh _ last [reply])⟩
    · exact fun _ current state h ↦ ⟨h.ends (by simp [h.1, Place.opens]), fun reply last _ ↦
        soFar_fresh _ last [reply]⟩

theorem keeps_doLogin {fd : ℕ} {message : Message} {current : Section skynet Place Server}
    {state : Server} (h : SoFar current state) :
    (doLogin fd message).wp serverContract LoggedIn (fun _ ↦ SoFar) current state := by
  cases message with
  | other => exact h
  | login session token =>
    refine ⟨h.ends (by simp [h.1, Place.opens]), fun reply later _ ↦ ?_⟩
    cases reply with
    | number value => exact ⟨fd, session, token, value, rfl, rfl⟩
    | order _ => exact soFar_fresh _ later _
    | ok => exact soFar_fresh _ later _
    | raised => exact soFar_fresh _ later _

theorem stays_forwardPending (fd agent : ℕ) : Stays (forwardPending fd agent) := by
  refine stays_bind stays_getState fun server ↦ ?_
  cases server.pendingMsg.lookup fd with
  | none => exact stays_fail .indexNil
  | some queue =>
    refine stays_bind (stays_forEach fun message ↦ ?_) fun _ ↦
      stays_modifyState fun _ ↦ ⟨rfl, fun _ _ h ↦ h⟩
    exact stays_bind (stays_modifyState fun _ ↦ ⟨rfl, fun _ _ h ↦ h⟩) fun _ ↦ stays_call rfl

theorem stays_handlerMessage (fd : ℕ) (message : Message) : Stays (handlerMessage fd message) := by
  refine stays_bind stays_getState fun server ↦ ?_
  cases server.pendingMsg.lookup fd with
  | some queue => exact stays_modifyState fun _ ↦ ⟨rfl, fun _ _ h ↦ h⟩
  | none =>
    refine stays_bind (stays_modifyState fun _ ↦ ⟨rfl, fun _ _ h ↦ h⟩) fun _ current state h ↦ ?_
    rw [Program.wp_bind, Program.wp_attempt]
    refine Program.wp_mono (fun account current state h ↦ ?_) (fun error current state h ↦ ?_)
      (keeps_doLogin h)
    · refine (Program.wp_bind _ _ _ _ _ _).mpr ?_
      exact Program.wp_mono (fun agent current state h ↦ stays_forwardPending fd agent current state h)
        (fun _ _ _ h ↦ h) (keeps_loginHandler h)
    · have hrest : Stays (do
          closeClient (some fd)
          Program.modifyState fun server ↦
            { server with pendingMsg := server.pendingMsg.erase fd } : ServerTask Unit) :=
        stays_bind (stays_pure ()) fun _ ↦ stays_modifyState fun _ ↦ ⟨rfl, fun _ _ h ↦ h⟩
      exact hrest current state h

/-! ### Events -/

theorem stays_closeFd (fd : ℕ) : Stays (closeFd fd) := by
  refine stays_bind stays_getState fun server ↦ ?_
  cases server.connection.lookup fd with
  | none => exact stays_pure ()
  | some agent =>
    refine stays_bind ?_ fun _ ↦ stays_modifyState fun _ ↦ ⟨rfl, fun _ _ h ↦ h⟩
    cases agent with
    | none => exact stays_pure ()
    | some agent =>
      exact stays_rpc rfl rfl fun answer later ↦
        stays_agentDispatch (stays_agentClose agent) _ later (soFar_fresh _ later [answer])

theorem stays_dispatchMsg (fd : ℕ) (message : Message) : Stays (dispatchMsg fd message) := by
  refine stays_bind (stays_modifyState fun _ ↦ ⟨rfl, fun _ _ h ↦ h⟩) fun _ ↦ ?_
  refine stays_bind stays_getState fun server ↦ ?_
  cases server.connection.lookup fd with
  | none => exact stays_fail .indexNil
  | some agent =>
    cases agent with
    | none => exact stays_handlerMessage fd message
    | some agent => exact stays_modifyState fun _ ↦ ⟨rfl, fun _ _ h ↦ h⟩

theorem stays_socketOpen (fd : ℕ) : Stays (socketOpen fd) := by
  refine stays_modifyState fun server ↦ ?_
  split
  · exact .refl server
  · exact ⟨rfl, fun _ _ h ↦ h⟩

/-- Every event keeps the contract. -/
theorem stays_serve (event : Event) : Stays (serve event) := by
  cases event with
  | socketOpen fd => exact stays_socketOpen fd
  | socketClose fd => exact stays_closeFd fd
  | socketData fd message => exact stays_dispatchMsg fd message
  | kick agent => exact stays_agentDispatch (stays_fail .errorCalled)
  | clientFailure agent => exact stays_kickSelf agent
  | pick agent character => exact stays_agentDispatch (stays_changeUser fun _ h ↦ ⟨rfl, h⟩)
  | worldEnter agent world => exact stays_agentDispatch (stays_worldEnter agent world)
  | mapEnter agent map => exact stays_agentDispatch (stays_changeUser fun _ h ↦ ⟨rfl, h⟩)

/-! ### The invariant -/

/-- An agent that holds an account is in the table under it. -/
def OneAgent (server : Server) (places : List Place) : Prop :=
  ∀ agent account, Holds server places agent account →
    server.onlineAccount.lookup account = some agent

/-- The contract is sound for the game server, in the runs that keep the entries of accounts that are
held. -/
theorem sound_gameServer : gameServer.Sound serverContract OneAgent KeepsEntries where
  rely_refl _ _ := trivial
  rely_trans _ _ _ _ _ _ := trivial
  pre_rely _ _ _ hpre _ := hpre
  entry point reply state hpre := by
    obtain ⟨event, rfl⟩ := hpre
    refine Program.wp_mono (fun _ current state h ↦ ?_) (fun _ current state h ↦ ⟨trivial, ?_⟩)
      (stays_serve event _ state (soFar_fresh _ state [reply]))
    · exact h.ends (by simp [h.1])
    · exact h.ends (by simp [h.1])
  arrive configuration point _ harrives hinv := by
    have hevent : ∃ event, point = .event event := by
      cases point with
      | event event => exact ⟨event, rfl⟩
      | _ => exact nomatch harrives
    refine ⟨fun agent account hholds ↦ hinv agent account ?_, hevent⟩
    obtain ⟨event, rfl⟩ := hevent
    refine hholds.imp_right ?_
    rintro ⟨place, hplace, hopens⟩
    rcases List.mem_append.mp hplace with hold | hnew
    · exact ⟨place, hold, hopens⟩
    · rw [List.mem_singleton.mp hnew] at hopens
      cases hopens
  step configuration before point after reply answers left last hkeeps hpoints hinv hguar := by
    refine ⟨?_, fun _ _ ↦ trivial⟩
    have hplace : configuration.points[before.length]? = some point := by
      rw [hpoints]
      simp
    obtain ⟨hassign, hclear⟩ := hkeeps point hplace
    -- An account that is held after the section was held before it, or the section is its step.
    have hothers : ∀ {agent account}, (∃ place ∈ before ++ left ++ after,
        place.opens = some (agent, account)) → (∀ place ∈ left, place.opens = none) →
          Holds configuration.state configuration.points agent account := by
      rintro agent account ⟨place, hmem, hopens⟩ hleft
      refine .inr ⟨place, ?_, hopens⟩
      rw [hpoints]
      rcases List.mem_append.mp hmem with hmem | hmem
      · rcases List.mem_append.mp hmem with hmem | hmem
        · exact List.mem_append_left _ hmem
        · exact nomatch (hleft place hmem).symm.trans hopens
      · exact List.mem_append_right _ (List.mem_cons_of_mem _ hmem)
    intro agent account hholds
    cases hguar with
    | quiet quiet leaves =>
      rw [quiet.onlineAccount]
      refine hinv agent account ?_
      rcases hholds with hopen | hopening
      · exact .inl (quiet.opened agent account hopen)
      · exact hothers hopening leaves
    | opened opens onlineAccount opened leaves =>
      rw [onlineAccount]
      refine hinv agent account ?_
      rcases hholds with hopen | hopening
      · rcases opened agent account hopen with hold | hnew
        · exact .inl hold
        · obtain ⟨rfl, rfl⟩ := Prod.mk.inj hnew
          exact .inr ⟨point, by rw [hpoints]; simp, opens⟩
      · exact hothers hopening leaves
    | cleared clears onlineAccount opened leaves =>
      have hold : Holds configuration.state configuration.points agent account := by
        rcases hholds with hopen | hopening
        · exact .inl (opened agent account hopen)
        · exact hothers hopening leaves
      rw [onlineAccount, Table.lookup_erase_eq]
      split
      · next hsame => exact absurd hold (hsame ▸ hclear _ clears agent)
      · exact hinv agent account hold
    | @assigned reply' answers' fd account' agent' last hears assigns onlineAccount opened =>
      obtain ⟨rfl, rfl⟩ := List.cons.inj hears
      have hold : Holds configuration.state configuration.points agent account ∨
          (agent, account) = (agent', account') := by
        rcases hholds with hopen | ⟨place, hmem, hopens⟩
        · exact .inl (.inl (opened agent account hopen))
        · rw [List.mem_append, List.mem_append, List.mem_singleton] at hmem
          rcases hmem with (hmem | rfl) | hmem
          · exact .inl (.inr ⟨place, by rw [hpoints]; simp [hmem], hopens⟩)
          · exact .inr (Option.some.inj hopens).symm
          · exact .inl (.inr ⟨place, by rw [hpoints]; simp [hmem], hopens⟩)
      rw [onlineAccount, Table.lookup_insert_eq]
      rcases hold with hold | hnew
      · split
        · next hsame => rw [hassign account' agent' assigns agent (hsame ▸ hold)]
        · exact hinv agent account hold
      · obtain ⟨rfl, rfl⟩ := Prod.mk.inj hnew
        rw [if_pos rfl]

/-- In every run in which `login_handler` overwrites the entry of an account, and `CMD.close` clears it,
only while no other agent is open or about to open for the account, at most one agent is open for an
account, and it is in the table under it. -/
theorem one_open_agent (pool : List ℕ) (maxclient : ℤ) (last : Configuration skynet Place Server)
    (hrun : gameServer.Run KeepsEntries (opened pool maxclient) last) :
    (∀ agent account, last.state.Open agent account →
      last.state.onlineAccount.lookup account = some agent) ∧
    ∀ agent other account, last.state.Open agent account → last.state.Open other account →
      agent = other := by
  have hfirst : OneAgent (Server.opened pool maxclient) [] := by
    rintro agent account (⟨user, hlookup, -⟩ | ⟨place, hplace, -⟩)
    · simp [Server.opened] at hlookup
    · exact nomatch hplace
  have hinv : OneAgent last.state last.points := (sound_gameServer.good_of_run
    (sound_gameServer.good_of_starts hfirst fun _ h ↦ nomatch h) hrun).holds
  have hentry : ∀ agent account, last.state.Open agent account →
      last.state.onlineAccount.lookup account = some agent := fun agent account hopen ↦
    hinv agent account (.inl hopen)
  exact ⟨hentry, fun agent other account hopen hother ↦
    Option.some.inj ((hentry agent account hopen).symm.trans (hentry other account hother))⟩

/-! ### A second login -/

/-- The coroutine at an index goes on. -/
def goOn (index : ℕ) : Move skynet Place := .resume index .ok []

/-- The coroutine at an index gets a number. -/
def goOnWith (index : ℕ) (value : ℤ) : Move skynet Place := .resume index (.number value) []

/-- Account 7 logs in on socket 1 and gets the agent 100. -/
def firstLogin : List (Move skynet Place) :=
  [ .arrive (.event (.socketOpen 1)), goOn 0, .arrive (.event (.socketData 1 (.login 1 0))), goOn 0,
    goOnWith 0 7, goOnWith 0 100, goOn 0, goOn 0, goOn 0 ]

/-- Socket 1 closes, and its agent with it. -/
def firstClose : List (Move skynet Place) :=
  [ .arrive (.event (.socketClose 1)), goOn 0, goOn 0, goOn 0, goOn 0, goOn 0 ]

/-- Account 7 logs in again on socket 2, while the agent 100 is open for it, and gets the agent 101. -/
def secondLogin : List (Move skynet Place) :=
  [ .arrive (.event (.socketOpen 2)), goOn 0, .arrive (.event (.socketData 2 (.login 2 0))), goOn 0,
    goOnWith 0 7, goOn 0, goOn 0, goOn 0, goOn 0, goOnWith 0 101, goOn 0, goOn 0, goOn 0 ]

/-- Account 7 logs in again on socket 2, with the agent of the pool. -/
def nextLogin : List (Move skynet Place) :=
  [ .arrive (.event (.socketOpen 2)), goOn 0, .arrive (.event (.socketData 2 (.login 2 0))), goOn 0,
    goOnWith 0 7, goOn 0, goOn 0, goOn 0 ]

/-- An account that logs in, leaves, and logs in again. -/
theorem one_open_agent_again : ∃ last : Configuration skynet Place Server,
    last.state.Open 100 7 ∧ last.state.onlineAccount.lookup 7 = some 100 := by
  obtain ⟨last, hrun, huser⟩ : ∃ last, gameServer.Run KeepsEntries (opened [] 64) last ∧
      last.state.user.lookup 100 = some ⟨2, 7, none, none, none, false⟩ :=
    gameServer.exists_run_of_playMeeting KeepsEntries (opened [] 64)
      (firstLogin ++ firstClose ++ nextLogin)
      (fun configuration ↦ configuration.state.user.lookup 100) (by decide +kernel)
  have hopen : last.state.Open 100 7 := ⟨_, huser, rfl, rfl⟩
  exact ⟨last, hopen, (one_open_agent [] 64 last hrun).1 100 7 hopen⟩

/-- A second login while the first agent is open: for a while two agents are open for the account, and
when the first has closed, the second is not in the table. -/
theorem second_login_unlisted :
    (∃ last, gameServer.AnyRun (opened [] 64) last ∧ last.state.Open 100 7 ∧
      last.state.Open 101 7) ∧
    ∃ last, gameServer.AnyRun (opened [] 64) last ∧ last.state.Open 101 7 ∧
      last.state.onlineAccount.lookup 7 = none := by
  constructor
  · obtain ⟨last, hrun, hvalue⟩ := gameServer.exists_run_of_playAll (opened [] 64)
      (firstLogin ++ secondLogin) (fun configuration ↦
        (configuration.state.user.lookup 100, configuration.state.user.lookup 101))
      (show _ = some (some ⟨1, 7, none, none, none, false⟩, some ⟨2, 7, none, none, none, false⟩)
        by decide +kernel)
    obtain ⟨hfirst, hsecond⟩ := Prod.mk.inj hvalue
    exact ⟨last, hrun, ⟨_, hfirst, rfl, rfl⟩, ⟨_, hsecond, rfl, rfl⟩⟩
  · obtain ⟨last, hrun, hvalue⟩ := gameServer.exists_run_of_playAll (opened [] 64)
      (firstLogin ++ secondLogin ++ firstClose) (fun configuration ↦
        (configuration.state.user.lookup 101, configuration.state.onlineAccount.lookup 7))
      (show _ = some (some ⟨2, 7, none, none, none, false⟩, none) by decide +kernel)
    obtain ⟨hsecond, hentry⟩ := Prod.mk.inj hvalue
    exact ⟨last, hrun, ⟨_, hsecond, rfl, rfl⟩, hentry⟩

end SvrDemo.Gamed
