import SvrDemo.Gamed.Watched

/-!
# What one section of the game server does

A section of a coroutine has one effect on the services, of a list of effects: it accepts a connection or
drops it, calls `CMD.close` of an agent, removes the user of an agent, puts the agent back into the pool,
takes a message, begins a login, takes an agent for it, opens the agent, forwards the connection to it, or
goes on with a flush. Or it has none of these and only goes from one place to the next, `Flow`. Besides
its effect a section may change what a user knows of his character, his map and his world, `Calm`.

Every effect says under which circumstances it occurs, so that the invariants of the game server follow
from this list alone.
-/

set_option autoImplicit false
set_option relaxedAutoImplicit false

namespace SvrDemo.Gamed

open Coroutine Lua Skynet

/-! ### Places -/

/-- The calls of the game server by which an agent asks for the end of its connection. -/
def GamedCall.isKick : GamedCall → Bool
  | .kick _ _ => true
  | .close _ _ => false

/-- The agent whose `CMD.close` is between its first statement and `user = nil`. -/
def Place.stage : Place → Option ℕ
  | .mapLeave agent _ => some agent
  | .worldLeave agent _ _ => some agent
  | .saveCharacter agent _ => some agent
  | _ => none

/-- The agent whose `CMD.close` has removed its user, or has failed, while `close_fd` still waits. -/
def Place.finishes : Place → Option ℕ
  | .toGamed (.close agent _) => some agent
  | .fromGamed (.close agent _) => some agent
  | .toGamed (.kick agent _) => some agent
  | .fromGamed (.kick agent _) => some agent
  | .fromAgent agent .close => some agent
  | _ => none

/-- The places of a login, up to the return of `CMD.open`. -/
def Place.isLogin : Place → Bool
  | .verify _ _ _ => true
  | .newService _ _ => true
  | .toAgent _ (.kick _) => true
  | .fromAgent _ (.kick _) => true
  | .toGamed call => call.isKick
  | .fromGamed call => call.isKick
  | .toAgent _ (.open _ _) => true
  | .uniqueService _ => true
  | .fromAgent _ (.open _ _) => true
  | _ => false

/-- The agent and the account of a `CMD.open` that is on its way, or of a report that an agent has
closed. -/
def Place.carries : Place → Option (ℕ × ℕ)
  | .toAgent agent (.open _ account) => some (agent, account)
  | .toGamed (.close agent (some account)) => some (agent, account)
  | _ => none

/-- The places of a kick of a client by its agent. -/
def Place.isKick : Place → Bool
  | .toGamed call => call.isKick
  | .fromGamed call => call.isKick
  | _ => false

/-- The events of the sockets. -/
def Event.isSocket : Event → Bool
  | .socketOpen _ => true
  | .socketClose _ => true
  | .socketData _ _ => true
  | _ => false

/-! ### Calm changes -/

/-- The socket and the account of a user. -/
def User.owner (user : User) : ℕ × ℕ := (user.fd, user.account)

/-- A user who is in the world has a character. -/
def Server.Worldly (agent : ℕ) (server : Server) : Prop :=
  ∀ user, server.user.lookup agent = some user → user.world ≠ none → user.character ≠ none

/-- A change of what the users know of their characters, maps and worlds. -/
structure Calm (first last : Watched) : Prop where
  pool : last.server.pool = first.server.pool
  onlineAccount : last.server.onlineAccount = first.server.onlineAccount
  connection : last.server.connection = first.server.connection
  nclient : last.server.nclient = first.server.nclient
  maxclient : last.server.maxclient = first.server.maxclient
  pendingMsg : last.server.pendingMsg = first.server.pendingMsg
  received : last.server.received = first.server.received
  sent : last.server.sent = first.server.sent
  owner : ∀ agent, (last.server.user.lookup agent).map User.owner =
    (first.server.user.lookup agent).map User.owner
  worldly : ∀ agent, first.server.Worldly agent → last.server.Worldly agent
  taken : last.taken = first.taken
  calls : last.calls = first.calls
  since : last.since = first.since

theorem Calm.refl (whole : Watched) : Calm whole whole :=
  ⟨rfl, rfl, rfl, rfl, rfl, rfl, rfl, rfl, fun _ ↦ rfl, fun _ ↦ id, rfl, rfl, rfl⟩

theorem Calm.trans {first middle last : Watched} (h : Calm first middle) (h' : Calm middle last) :
    Calm first last where
  pool := h'.pool.trans h.pool
  onlineAccount := h'.onlineAccount.trans h.onlineAccount
  connection := h'.connection.trans h.connection
  nclient := h'.nclient.trans h.nclient
  maxclient := h'.maxclient.trans h.maxclient
  pendingMsg := h'.pendingMsg.trans h.pendingMsg
  received := h'.received.trans h.received
  sent := h'.sent.trans h.sent
  owner agent := (h'.owner agent).trans (h.owner agent)
  worldly agent := h'.worldly agent ∘ h.worldly agent
  taken := h'.taken.trans h.taken
  calls := h'.calls.trans h.calls
  since := h'.since.trans h.since

/-- A calm change keeps the agents that have a user. -/
theorem Calm.mem_keys {first last : Watched} (h : Calm first last) (agent : ℕ) :
    agent ∈ last.server.user.keys ↔ agent ∈ first.server.user.keys := by
  have howner := h.owner agent
  rw [Table.mem_keys_iff, Table.mem_keys_iff]
  cases hlast : last.server.user.lookup agent <;> cases hfirst : first.server.user.lookup agent <;>
    simp_all

/-! ### Flow -/

/-- Where a coroutine goes on that has no other effect. -/
inductive Flow (point : Served) (origin : Watched) (heard : List Answer) : Option Place → Prop
  -- `MSG.open` at the limit
  | refused (fd : ℕ) (event : point.event = .socketOpen fd)
      (limit : origin.server.maxclient ≤ origin.server.nclient) : Flow point origin heard none
  -- the events of an agent
  | other {next : Option Place} (event : point.event.isSocket = false)
      (kicks : ∀ place ∈ next, place.isKick = true) : Flow point origin heard next
  -- `close_fd`
  | absent (fd : ℕ) (event : point.event = .socketClose fd) (starts : point.place = .event point.event)
      (connection : origin.server.connection.lookup fd = none) : Flow point origin heard none
  | staged (fd agent : ℕ) {place : Place} (event : point.event = .socketClose fd)
      (closes : point.place = .toAgent agent .close ∧ agent ∈ origin.server.user.keys ∨
        point.place.stage = some agent)
      (stage : place.stage = some agent) : Flow point origin heard (some place)
  | notOpen (fd agent : ℕ) (event : point.event = .socketClose fd)
      (closes : point.place = .toAgent agent .close)
      (user : origin.server.user.lookup agent = none) :
      Flow point origin heard (some (.toGamed (.close agent none)))
  | failed (fd agent : ℕ) (userFd : Option ℕ) (event : point.event = .socketClose fd)
      (closes : point.place = .toAgent agent .close ∧ agent ∈ origin.server.user.keys ∨
        point.place.stage = some agent)
      (reason : heard.head? = some .raised ∧ point.place.stage = some agent ∨
        origin.server.user.lookup agent = none ∨ ¬ origin.server.Worldly agent) :
      Flow point origin heard (some (.toGamed (.kick agent userFd)))
  | finishing (fd agent : ℕ) {place : Place} (event : point.event = .socketClose fd)
      (before : point.place.finishes = some agent) (carries : point.place.carries = none)
      (after : place.finishes = some agent) (carries' : place.carries = none) :
      Flow point origin heard (some place)
  -- `handler.message`
  | login (fd : ℕ) (message : Message) {place : Place} (event : point.event = .socketData fd message)
      (before : point.place.isLogin = true) (carries : point.place.carries = none)
      (after : place.isLogin = true) (carries' : place.carries = none) :
      Flow point origin heard (some place)
  | loginDies (fd : ℕ) (message : Message) (event : point.event = .socketData fd message)
      (before : point.place.isLogin = true) (carries : point.place.carries = none)
      (taken : origin.taken fd = none) :
      Flow point origin heard none
  | flushDies (fd agent : ℕ) (message message' : Message) (event : point.event = .socketData fd message)
      (before : point.place = .forwarded agent message') : Flow point origin heard none

/-! ### Effects -/

/-- The effect of a section: where its coroutine goes on, and the state it leaves but for a calm
change. Under `linked` the user of an agent keeps his account while `CMD.close` waits. -/
inductive Effect (linked : Prop) (point : Served) (origin : Watched) (heard : List Answer) :
    Option Place → Watched → Prop
  | flow {next : Option Place} (flow : Flow point origin heard next) :
      Effect linked point origin heard next origin
  -- `MSG.open`
  | accepted (fd : ℕ) (event : point.event = .socketOpen fd) (starts : point.place = .event point.event)
      (limit : origin.server.nclient < origin.server.maxclient) :
      Effect linked point origin heard none (origin.put { origin.server with
        connection := origin.server.connection.insert fd none
        nclient := origin.server.nclient + 1 })
  -- `close_fd`
  | calls (fd agent : ℕ) (event : point.event = .socketClose fd)
      (starts : point.place = .event point.event)
      (connection : origin.server.connection.lookup fd = some (some agent)) :
      Effect linked point origin heard (some (.toAgent agent .close))
        { origin with calls := Function.update origin.calls fd (origin.calls fd + 1) }
  | dropped (fd : ℕ) (event : point.event = .socketClose fd)
      (drops : point.place = .event point.event ∧ origin.server.connection.lookup fd = some none ∨
        ∃ agent, point.place = .fromAgent agent .close) :
      Effect linked point origin heard none (origin.put { origin.server with
        connection := origin.server.connection.erase fd
        nclient := origin.server.nclient - 1 })
  | erased (fd agent account : ℕ) (event : point.event = .socketClose fd)
      (closes : point.place = .toAgent agent .close ∧ agent ∈ origin.server.user.keys ∨
        point.place.stage = some agent)
      (present : agent ∈ origin.server.user.keys ∨
        ∃ character, point.place = .saveCharacter agent character)
      (owner : linked ∨ point.place = .toAgent agent .close →
        (origin.server.user.lookup agent).map User.account = some account) :
      Effect linked point origin heard (some (.toGamed (.close agent (some account))))
        { origin with server := { origin.server with user := origin.server.user.erase agent } }
  | recycled (fd agent account : ℕ) (event : point.event = .socketClose fd)
      (place : point.place = .toGamed (.close agent (some account))) :
      Effect linked point origin heard (some (.fromGamed (.close agent (some account))))
        { origin with server := { origin.server with
            onlineAccount := origin.server.onlineAccount.erase account
            pool := origin.server.pool ++ [agent] } }
  -- `dispatch_msg`
  | lost (fd : ℕ) (message : Message) (event : point.event = .socketData fd message)
      (starts : point.place = .event point.event)
      (connection : origin.server.connection.lookup fd = none) :
      Effect linked point origin heard none { origin with server := { origin.server with
        received := origin.server.received ++ [(fd, message)] } }
  | redirected (fd agent : ℕ) (message : Message) (event : point.event = .socketData fd message)
      (starts : point.place = .event point.event)
      (connection : origin.server.connection.lookup fd = some (some agent)) :
      Effect linked point origin heard none { origin with server := { origin.server with
        received := origin.server.received ++ [(fd, message)]
        sent := origin.server.sent ++ [⟨agent, fd, message⟩] } }
  -- `handler.message`
  | queued (fd : ℕ) (message : Message) (queue : List Message)
      (event : point.event = .socketData fd message) (starts : point.place = .event point.event)
      (connection : origin.server.connection.lookup fd = some none)
      (pending : origin.server.pendingMsg.lookup fd = some queue) :
      Effect linked point origin heard none { origin with server := { origin.server with
        received := origin.server.received ++ [(fd, message)]
        pendingMsg := origin.server.pendingMsg.insert fd (queue ++ [message]) } }
  | noLogin (fd : ℕ) (message : Message) (event : point.event = .socketData fd message)
      (starts : point.place = .event point.event)
      (connection : origin.server.connection.lookup fd = some none)
      (pending : origin.server.pendingMsg.lookup fd = none) :
      Effect linked point origin heard none { origin with
        server := { origin.server with
          received := origin.server.received ++ [(fd, message)] }
        since := Function.update origin.since fd
          (origin.server.received.length + 1, origin.server.sent.length) }
  | begins (fd session token : ℕ) (message : Message) (event : point.event = .socketData fd message)
      (starts : point.place = .event point.event)
      (connection : origin.server.connection.lookup fd = some none)
      (pending : origin.server.pendingMsg.lookup fd = none) :
      Effect linked point origin heard (some (.verify fd session token)) { origin with
        server := { origin.server with
          received := origin.server.received ++ [(fd, message)]
          pendingMsg := origin.server.pendingMsg.insert fd [] }
        taken := Function.update origin.taken fd none
        since := Function.update origin.since fd
          (origin.server.received.length + 1, origin.server.sent.length) }
  | fails (fd session token : ℕ) (message : Message) (event : point.event = .socketData fd message)
      (place : point.place = .verify fd session token) (taken : origin.taken fd = none) :
      Effect linked point origin heard none { origin with server := { origin.server with
        pendingMsg := origin.server.pendingMsg.erase fd } }
  | assigned (fd agent account : ℕ) (message : Message) {pool : List ℕ}
      (event : point.event = .socketData fd message) (before : point.place.isLogin = true)
      (carries : point.place.carries = none) (taken : origin.taken fd = none)
      (source : origin.server.pool = agent :: pool ∨ origin.server.pool = pool ∧
        point.place = .newService fd account ∧
          ∃ address : ℤ, heard = [.number address] ∧ address.toNat = agent) :
      Effect linked point origin heard (some (.toAgent agent (.open fd account))) { origin with
        server := { origin.server with
          pool := pool
          onlineAccount := origin.server.onlineAccount.insert account agent }
        taken := Function.update origin.taken fd (some agent) }
  | opened (fd agent account : ℕ) (message : Message) (event : point.event = .socketData fd message)
      (place : point.place = .toAgent agent (.open fd account)) (taken : origin.taken fd = some agent) :
      Effect linked point origin heard (some (.uniqueService agent)) { origin with
        server := { origin.server with
          user := origin.server.user.insert agent ⟨fd, account, none, none, none, false⟩ } }
  | forwarded (fd agent account : ℕ) (message : Message) {next : Option Place}
      {pending : Table (List Message)} {sent : List Delivery}
      (event : point.event = .socketData fd message)
      (place : point.place = .fromAgent agent (.open fd account)) (taken : origin.taken fd = some agent)
      (flush : match origin.server.pendingMsg.lookup fd with
        | none => next = none ∧ pending = origin.server.pendingMsg ∧ sent = []
        | some [] => next = none ∧ pending = origin.server.pendingMsg.erase fd ∧ sent = []
        | some (first :: _) => next = some (.forwarded agent first) ∧
          pending = origin.server.pendingMsg ∧ sent = [⟨agent, fd, first⟩]) :
      Effect linked point origin heard next { origin with server := { origin.server with
        connection := origin.server.connection.update fd fun _ ↦ some agent
        pendingMsg := pending
        sent := origin.server.sent ++ sent } }
  | flushes (fd agent : ℕ) (message first second : Message)
      (event : point.event = .socketData fd message) (place : point.place = .forwarded agent first) :
      Effect linked point origin heard (some (.forwarded agent second)) { origin with
        server := { origin.server with sent := origin.server.sent ++ [⟨agent, fd, second⟩] } }
  | flushed (fd agent : ℕ) (message first : Message)
      (event : point.event = .socketData fd message) (place : point.place = .forwarded agent first) :
      Effect linked point origin heard none { origin with server := { origin.server with
        pendingMsg := origin.server.pendingMsg.erase fd } }

/-! ### The contract -/

/-- What a coroutine relies on while it waits: the agent that its login has taken, and under `linked`
the account of the user whom its `CMD.close` is about to remove. -/
structure Relies (linked : Prop) (point : Served) (first last : Watched) : Prop where
  taken : ∀ fd message, point.event = .socketData fd message → point.place ≠ .event point.event →
    last.taken fd = first.taken fd
  owner : linked → ∀ agent, point.place.stage = some agent →
    (last.server.user.lookup agent).map User.owner = (first.server.user.lookup agent).map User.owner

theorem Relies.refl (linked : Prop) (point : Served) (whole : Watched) :
    Relies linked point whole whole :=
  ⟨fun _ _ _ _ ↦ rfl, fun _ _ _ ↦ rfl⟩

theorem Relies.trans {linked : Prop} {point : Served} {first middle last : Watched}
    (h : Relies linked point first middle) (h' : Relies linked point middle last) :
    Relies linked point first last :=
  ⟨fun fd message hevent hplace ↦ (h'.taken fd message hevent hplace).trans
    (h.taken fd message hevent hplace),
    fun hlinked agent hstage ↦ (h'.owner hlinked agent hstage).trans (h.owner hlinked agent hstage)⟩

/-- What a section guarantees: one effect and a calm change. -/
def Guarantees (linked : Prop) (point : Served) (origin : Watched) (heard : List Answer)
    (left : List Served) (last : Watched) : Prop :=
  ∃ next target, left = (next.map (Served.mk point.event)).toList ∧
    Effect linked point origin heard next target ∧ Calm target last

/-- The contract of the watched game server. Its coroutines may fail. -/
def watchedContract (linked : Prop) : Contract skynet Served Watched where
  rely := Relies linked
  guar := Guarantees linked
  pre := fun point _ ↦ point.place = .event point.event
  err := fun _ ↦ True

end SvrDemo.Gamed
