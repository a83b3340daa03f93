import SvrDemo.Skynet.Runtime

/-!
# The game server and its agents

`gateserver.lua`, `gameserver.lua` and `gamed.lua` are one service: it accepts the sockets of the
clients, logs each of them in with its first message, and forwards what follows to the agent of the
account. `agent.lua` is a service for each client that plays. The state here is that of the game server
and the variable `user` of every agent, and a call between them is a request that travels, the handler
of the callee and a reply that travels, with anything in between.

The table `online_account` says which agent serves an account. `login_handler` writes it when it has got
an agent, from the pool or as a new service, and `CMD.close` of the game server clears it when an agent
reports that it has closed. A kick only asks the driver to close the socket: the event that the
socket has closed comes later, by itself, and makes the agent close.
-/

set_option autoImplicit false
set_option relaxedAutoImplicit false

namespace SvrDemo.Gamed

open Coroutine Lua Skynet

/-- A message of a client that is not logged in yet. -/
inductive Message
  | login (session token : ℕ)
  | other
  deriving DecidableEq

/-- The variable `user` of an agent. The field `closing` is a mark of the model: `CMD.close` has begun. -/
structure User where
  fd : ℕ
  account : ℕ
  character : Option ℕ
  map : Option ℕ
  world : Option ℕ
  closing : Bool
  deriving DecidableEq

/-- A message of a client that the game server has sent to an agent, and the socket it came from. -/
structure Delivery where
  agent : ℕ
  fd : ℕ
  message : Message
  deriving DecidableEq

/-- The state of the game server and of its agents. The connection of a socket has the agent that
serves it, if any; an agent that nobody uses has no user. The lists `received` and `sent` are histories:
the messages `dispatch_msg` has been called with, and those that have been sent to agents. -/
structure Server where
  pool : List ℕ
  onlineAccount : Table ℕ
  connection : Table (Option ℕ)
  nclient : ℤ
  maxclient : ℤ
  pendingMsg : Table (List Message)
  user : Table User
  received : List (ℕ × Message)
  sent : List Delivery

/-- What happens to the services from outside: the events of the sockets, a kick by the world, a client
message whose handler fails, and the progress of a character into the world and onto a map. -/
inductive Event
  | socketOpen (fd : ℕ)
  | socketClose (fd : ℕ)
  | socketData (fd : ℕ) (message : Message)
  | kick (agent : ℕ)
  | clientFailure (agent : ℕ)
  | pick (agent character : ℕ)
  | worldEnter (agent world : ℕ)
  | mapEnter (agent map : ℕ)
  deriving DecidableEq

/-- The commands of an agent that the game server calls. The kick of a login names the account. -/
inductive AgentCall
  | open (fd account : ℕ)
  | close
  | kick (account : ℕ)
  deriving DecidableEq

/-- The commands of the game server that an agent calls. -/
inductive GamedCall
  | close (agent : ℕ) (account : Option ℕ)
  | kick (agent : ℕ) (fd : Option ℕ)
  deriving DecidableEq

/-- Where a coroutine waits. -/
inductive Place
  | event (event : Event)
  | verify (fd session token : ℕ)
  | newService (fd account : ℕ)
  | toAgent (agent : ℕ) (call : AgentCall)
  | fromAgent (agent : ℕ) (call : AgentCall)
  | toGamed (call : GamedCall)
  | fromGamed (call : GamedCall)
  | uniqueService (agent : ℕ)
  | mapLeave (agent map : ℕ)
  | worldLeave (agent world character : ℕ)
  | saveCharacter (agent character : ℕ)
  | forwarded (agent : ℕ) (message : Message)
  deriving DecidableEq

/-- A coroutine of the game server or of an agent. -/
abbrev ServerTask (α : Type) : Type := Task Place Server α

/-! ### Commands of the game server -/

/-- `gateserver.close_client`. The driver is asked to close the socket; the state does not change. -/
def closeClient (_fd : Option ℕ) : ServerTask Unit := return ()

/-- `CMD.close` of `gamed.command_handler`. Without an account the assignment raises. -/
def gamedClose (agent : ℕ) : Option ℕ → ServerTask Unit
  | none => .fail .indexNil
  | some account => Program.modifyState fun server ↦
      { server with
        onlineAccount := server.onlineAccount.erase account
        pool := server.pool ++ [agent] }

/-- A call of the game server by an agent. -/
def callGamed (call : GamedCall) (body : ServerTask Unit) : ServerTask Unit :=
  rpc (.toGamed call) (.fromGamed call) body

/-- A call of an agent by the game server. -/
def callAgent (agent : ℕ) (call : AgentCall) (body : ServerTask Unit) : ServerTask Unit :=
  rpc (.toAgent agent call) (.fromAgent agent call) body

/-! ### The agents -/

/-- `kick_self`. -/
def kickSelf (agent : ℕ) : ServerTask Unit := do
  let server ← Program.getState
  let userFd := (server.user.lookup agent).map User.fd
  callGamed (.kick agent userFd) (closeClient userFd)

/-- The dispatch of an agent: a command that fails kicks the client. -/
def agentDispatch (agent : ℕ) (command : ServerTask Unit) : ServerTask Unit := do
  match ← command.attempt with
  | .ok _ => return ()
  | .error _ => kickSelf agent

/-- An assignment to a field of `user`. -/
def changeUser (agent : ℕ) (change : User → User) : ServerTask Unit := do
  let server ← Program.getState
  match server.user.lookup agent with
  | none => .fail .indexNil
  | some _ => Program.modifyState fun server ↦
      { server with user := server.user.update agent change }

/-- `CMD.open`. The registration of the handlers asks for the database service. -/
def agentOpen (agent fd account : ℕ) : ServerTask Unit := do
  Program.modifyState fun server ↦
    { server with user := server.user.insert agent ⟨fd, account, none, none, none, false⟩ }
  call (.uniqueService agent)

/-- The part of `CMD.close` that leaves the map. -/
def leaveMap (agent : ℕ) : ServerTask Unit := do
  let server ← Program.getState
  match server.user.lookup agent with
  | none => .fail .indexNil
  | some user =>
    match user.map with
    | none => return ()
    | some map => do
      call (.mapLeave agent map)
      changeUser agent fun user ↦ { user with map := none }

/-- The part of `CMD.close` that leaves the world. -/
def leaveWorld (agent : ℕ) : ServerTask Unit := do
  let server ← Program.getState
  match server.user.lookup agent with
  | none => .fail .indexNil
  | some user =>
    match user.world, user.character with
    | none, _ => return ()
    | some _, none => .fail .indexNil
    | some world, some character => do
      call (.worldLeave agent world character)
      changeUser agent fun user ↦ { user with world := none }

/-- `character_handler.save (user.character)`. -/
def saveCharacter (agent : ℕ) : ServerTask Unit := do
  let server ← Program.getState
  match server.user.lookup agent with
  | none => .fail .indexNil
  | some user =>
    match user.character with
    | none => return ()
    | some character => call (.saveCharacter agent character)

/-- `CMD.close`. -/
def agentClose (agent : ℕ) : ServerTask Unit := do
  let server ← Program.getState
  match server.user.lookup agent with
  | none => callGamed (.close agent none) (gamedClose agent none)
  | some user => do
    Program.modifyState fun server ↦
      { server with user := server.user.update agent fun user ↦ { user with closing := true } }
    leaveMap agent
    leaveWorld agent
    saveCharacter agent
    Program.modifyState fun server ↦ { server with user := server.user.erase agent }
    callGamed (.close agent (some user.account)) (gamedClose agent (some user.account))

/-- `CMD.kick`: the first statement raises. -/
def agentKick : ServerTask Unit := .fail .errorCalled

/-- `CMD.world_enter`. -/
def worldEnter (agent world : ℕ) : ServerTask Unit := do
  let server ← Program.getState
  match (server.user.lookup agent).bind User.character with
  | none => .fail .indexNil
  | some _ => changeUser agent fun user ↦ { user with world := some world }

/-- `CMD.map_enter`. -/
def mapEnter (agent map : ℕ) : ServerTask Unit :=
  changeUser agent fun user ↦ { user with map := some map }

/-- The assignment of `REQUEST.character_pick`. -/
def characterPick (agent character : ℕ) : ServerTask Unit :=
  changeUser agent fun user ↦ { user with character := some character }

/-! ### Login -/

/-- The part of `gamed.login_handler` that kicks the agent of the account. -/
def kickOnline (account : ℕ) : ServerTask Unit := do
  let server ← Program.getState
  match server.onlineAccount.lookup account with
  | none => return ()
  | some agent => callAgent agent (.kick account) (agentDispatch agent agentKick)

/-- The part of `gamed.login_handler` that gets an agent, from the pool or as a new service. -/
def takeAgent (fd account : ℕ) : ServerTask ℕ := do
  let server ← Program.getState
  match server.pool with
  | [] =>
    match ← Program.await (I := skynet) (.newService fd account) with
    | .number address => return address.toNat
    | _ => .fail .callFailed
  | agent :: pool => do
    Program.modifyState fun server ↦ { server with pool := pool }
    return agent

/-- `gateserver.forward`. -/
def Server.forward (fd agent : ℕ) (server : Server) : Server :=
  { server with connection := server.connection.update fd fun _ ↦ some agent }

/-- `gamed.login_handler`. -/
def loginHandler (fd account : ℕ) : ServerTask ℕ := do
  kickOnline account
  let agent ← takeAgent fd account
  Program.modifyState fun server ↦
    { server with onlineAccount := server.onlineAccount.insert account agent }
  callAgent agent (.open fd account) (agentDispatch agent (agentOpen agent fd account))
  Program.modifyState (Server.forward fd agent)
  return agent

/-- `do_login`, with `gamed.auth_handler`. -/
def doLogin (fd : ℕ) : Message → ServerTask ℕ
  | .other => .fail .assertionFailed
  | .login session token => do
    match ← Program.await (I := skynet) (.verify fd session token) with
    | .number account => return account.toNat
    | _ => .fail .errorCalled

/-- A message is sent to an agent. -/
def Server.send (agent fd : ℕ) (message : Message) (server : Server) : Server :=
  { server with sent := server.sent ++ [⟨agent, fd, message⟩] }

/-- What `handler.message` does after the login: it forwards the messages that have come meanwhile. A
`skynet.rawcall` sends the message and waits for a reply. -/
def forwardPending (fd agent : ℕ) : ServerTask Unit := do
  let server ← Program.getState
  match server.pendingMsg.lookup fd with
  | none => .fail .indexNil
  | some queue => do
    Program.forEach queue fun message ↦ do
      Program.modifyState (Server.send agent fd message)
      call (.forwarded agent message)
    Program.modifyState fun server ↦ { server with pendingMsg := server.pendingMsg.erase fd }

/-- `handler.message`. -/
def handlerMessage (fd : ℕ) (message : Message) : ServerTask Unit := do
  let server ← Program.getState
  match server.pendingMsg.lookup fd with
  | some queue => Program.modifyState fun server ↦
      { server with pendingMsg := server.pendingMsg.insert fd (queue ++ [message]) }
  | none => do
    Program.modifyState fun server ↦ { server with pendingMsg := server.pendingMsg.insert fd [] }
    match ← (doLogin fd message).attempt with
    | .ok account => do
      let agent ← loginHandler fd account
      forwardPending fd agent
    | .error _ => do
      closeClient (some fd)
      Program.modifyState fun server ↦ { server with pendingMsg := server.pendingMsg.erase fd }

/-! ### Sockets -/

/-- `MSG.open`. -/
def socketOpen (fd : ℕ) : ServerTask Unit :=
  Program.modifyState fun server ↦
    if server.nclient ≥ server.maxclient then server
    else { server with
      connection := server.connection.insert fd none
      nclient := server.nclient + 1 }

/-- The part of `close_fd` that closes the agent of the connection. -/
def closeAgentOf : Option ℕ → ServerTask Unit
  | none => return ()
  | some agent => callAgent agent .close (agentDispatch agent (agentClose agent))

/-- `close_fd`. -/
def closeFd (fd : ℕ) : ServerTask Unit := do
  let server ← Program.getState
  match server.connection.lookup fd with
  | none => return ()
  | some agent => do
    closeAgentOf agent
    Program.modifyState fun server ↦
      { server with
        connection := server.connection.erase fd
        nclient := server.nclient - 1 }

/-- `dispatch_msg`. A message that is redirected to an agent is sent without waiting for a reply, and
what the agent does with it is an event of that agent. -/
def dispatchMsg (fd : ℕ) (message : Message) : ServerTask Unit := do
  Program.modifyState fun server ↦ { server with received := server.received ++ [(fd, message)] }
  let server ← Program.getState
  match server.connection.lookup fd with
  | none => .fail .indexNil
  | some (some agent) => Program.modifyState (Server.send agent fd message)
  | some none => handlerMessage fd message

/-! ### The service -/

/-- What an event starts. -/
def serve : Event → ServerTask Unit
  | .socketOpen fd => socketOpen fd
  | .socketClose fd => closeFd fd
  | .socketData fd message => dispatchMsg fd message
  | .kick agent => agentDispatch agent agentKick
  | .clientFailure agent => kickSelf agent
  | .pick agent character => agentDispatch agent (characterPick agent character)
  | .worldEnter agent world => agentDispatch agent (worldEnter agent world)
  | .mapEnter agent map => agentDispatch agent (mapEnter agent map)

/-- The program of a coroutine that starts at a place. Coroutines start with events only. -/
def entry : Place → ServerTask Unit
  | .event event => serve event
  | _ => return ()

/-- The game server and its agents: any event may come at any time. -/
def gameServer : System skynet Place Server where
  entry := entry
  arrives := fun place ↦
    match place with
    | .event _ => true
    | _ => false

/-- The game server after `gamed.open`, with the agents of its pool. -/
def Server.opened (pool : List ℕ) (maxclient : ℤ) : Server :=
  ⟨pool, ∅, ∅, 0, maxclient, ∅, ∅, [], []⟩

/-- The game server before the first event. -/
def opened (pool : List ℕ) (maxclient : ℤ) : Configuration skynet Place Server :=
  ⟨.opened pool maxclient, [], []⟩

end SvrDemo.Gamed
