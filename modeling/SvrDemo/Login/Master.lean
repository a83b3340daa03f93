import SvrDemo.Coroutine.Logic
import SvrDemo.Login.Slave
import SvrDemo.Skynet.Runtime

/-!
# The login master

`loginserver.lua` spreads the login sessions over its slaves: the session with the id `n` is kept by the
slave `slave[n % nslave]`. `save_session` takes the next id, calls the slave and returns the id. While it
waits for the slave, the master takes up other calls.

In the source `save_session` assigns its id and its slave to the names `session` and `s` without
declaring them local, so both are fields of the state here, as the language has it. A call of a slave is
a request that travels to the slave, the section of the slave and a reply that travels back, and
anything may happen between these. The master is modelled from the moment on when its slaves are open.
The logs `stored`, `answered` and `asked` record what the slaves have stored, what the calls of
`save_session` have returned, and which slave was asked for which session.
-/

set_option autoImplicit false
set_option relaxedAutoImplicit false

namespace SvrDemo.Login

open Coroutine Skynet

/-- A value of `srp.random`, or the delivery of a message. -/
inductive LoginAnswer (Text : Type)
  | ok
  | text (value : Text)
  deriving DecidableEq

/-- The interface of the login services. The only question is `srp.random`. -/
abbrev login (Text : Type) : Interface where
  Query := Unit
  Answer := LoginAnswer Text
  Error := LuaError
  admissible := fun _ answer ↦
    match answer with
    | .text _ => true
    | .ok => false

/-- The calls of the master, and the timers of its slaves. -/
inductive Request (Account Key Secret Text : Type)
  | saveSession (account : Account) (key : Key) (challenge : Text)
  | challenge (session : ℕ) (secret : Secret)
  | verify (session : ℕ) (token : Secret)
  | expire (slave session : ℕ) (key : Key)
  deriving DecidableEq

/-- Where a call waits: for its first turn, for the slave to receive the request, or for the
reply. -/
inductive Stage
  | start
  | request (slave session : ℕ)
  | reply (slave session : ℕ)
  deriving DecidableEq

/-- A waiting call. -/
structure LoginPoint (Account Key Secret Text : Type) where
  request : Request Account Key Secret Text
  stage : Stage
  deriving DecidableEq

/-- A session as a slave has stored it. -/
structure Stored (Account Key Text : Type) where
  slave : ℕ
  session : ℕ
  account : Account
  key : Key
  challenge : Text
  deriving DecidableEq

/-- What a call of `save_session` has stored, and the id it has returned. -/
structure Answered (Account Key Text : Type) where
  stored : Stored Account Key Text
  returned : Option ℕ
  deriving DecidableEq

/-- The state of the master and of its slaves. -/
structure Master (Account Key Text : Type) where
  sessionId : ℕ
  slave : List ℕ
  session : Option ℕ
  s : Option ℕ
  slaves : ℕ → Slave Account Key Text
  stored : List (Stored Account Key Text)
  answered : List (Answered Account Key Text)
  asked : List (ℕ × ℕ)

variable {Account Key Secret Text : Type}

/-- A coroutine of the login services. -/
abbrev LoginTask (Account Key Secret Text α : Type) : Type :=
  Program (login Text) (LoginPoint Account Key Secret Text) (Master Account Key Text) α

/-- The slave of a session: `slave[(session % nslave) + 1]`. -/
def Master.slaveOf (master : Master Account Key Text) (session : ℕ) : Option ℕ :=
  master.slave[session % master.slave.length]?

/-- The slave of a session, for a caller. Without slaves the remainder is taken by zero. -/
def chooseSlave (session : ℕ) : LoginTask Account Key Secret Text ℕ := do
  let master ← Program.getState
  match master.slaveOf session with
  | some slave => return slave
  | none => .fail .moduloByZero

/-- `skynet.call` of a slave. A command that raises in the slave gives an empty reply. -/
def callSlave (request : Request Account Key Secret Text) (slave session : ℕ)
    (body : LoginTask Account Key Secret Text Unit) : LoginTask Account Key Secret Text Unit := do
  let _ ← Program.await ⟨request, .request slave session⟩
  body
  let _ ← Program.await ⟨request, .reply slave session⟩

/-- `srp.random ()`. -/
def srpRandom : LoginTask Account Key Secret Text (Option Text) := do
  match ← Program.query () with
  | .text value => return some value
  | .ok => return none

/-- The next session id, in the name `session`. -/
def Master.nextSession (master : Master Account Key Text) : Master Account Key Text :=
  { master with session := some master.sessionId, sessionId := master.sessionId + 1 }

section Commands

variable [DecidableEq Key] [DecidableEq Text] (decrypt : Secret → Key → Option Text)

/-- A slave handles an event. -/
def Master.handleAt (slave : ℕ) (event : Event Account Key Secret Text)
    (master : Master Account Key Text) : Master Account Key Text :=
  match (master.slaves slave).handle decrypt event with
  | some (next, _) => { master with slaves := Function.update master.slaves slave next }
  | none => master

/-- A slave stores a session. -/
def Master.store (record : Stored Account Key Text) (master : Master Account Key Text) :
    Master Account Key Text :=
  let saved := Master.handleAt decrypt record.slave
    (.save record.session record.account record.key record.challenge) master
  { saved with stored := master.stored ++ [record] }

/-- `CMD.save_session`. -/
def saveSession (account : Account) (key : Key) (challenge : Text) :
    LoginTask Account Key Secret Text Unit := do
  let master ← Program.getState
  let session := master.sessionId
  Program.modifyState Master.nextSession
  let slave ← chooseSlave session
  Program.modifyState fun master ↦ { master with s := some slave }
  callSlave (.saveSession account key challenge) slave session
    (Program.modifyState (Master.store decrypt ⟨slave, session, account, key, challenge⟩))
  -- `return session` reads the name again
  Program.modifyState fun master ↦
    { master with answered := master.answered ++
        [⟨⟨slave, session, account, key, challenge⟩, master.session⟩] }

/-- `CMD.challenge`. A challenge that the slave rejects draws nothing: its two values are not used. -/
def challenge (session : ℕ) (secret : Secret) : LoginTask Account Key Secret Text Unit := do
  let slave ← chooseSlave session
  Program.modifyState fun master ↦
    { master with s := some slave, asked := master.asked ++ [(slave, session)] }
  callSlave (.challenge session secret) slave session do
    let token ← srpRandom
    let next ← srpRandom
    match token, next with
    | some token, some next =>
      Program.modifyState (Master.handleAt decrypt slave (.challenge session secret token next))
    | _, _ => return ()

/-- `CMD.verify`. -/
def verify (session : ℕ) (token : Secret) : LoginTask Account Key Secret Text Unit := do
  let slave ← chooseSlave session
  Program.modifyState fun master ↦ { master with asked := master.asked ++ [(slave, session)] }
  callSlave (.verify session token) slave session
    (Program.modifyState (Master.handleAt decrypt slave (.verify session token)))

/-- The dispatch of the master, and the timers. -/
def dispatch : Request Account Key Secret Text → LoginTask Account Key Secret Text Unit
  | .saveSession account key text => saveSession decrypt account key text
  | .challenge session secret => challenge decrypt session secret
  | .verify session token => verify decrypt session token
  | .expire slave session key =>
    Program.modifyState (Master.handleAt decrypt slave (.expire session key))

/-- The login services: any call and any timer may come at any time. -/
def loginService : System (login Text) (LoginPoint Account Key Secret Text)
    (Master Account Key Text) where
  entry := fun point ↦ dispatch decrypt point.request
  arrives := fun point ↦ point.stage = .start

end Commands

/-- A master whose slaves are open. -/
def Master.opened (slave : List ℕ) : Master Account Key Text :=
  ⟨1, slave, none, none, fun _ ↦ .empty, [], [], []⟩

/-- A master whose slaves are open, before the first call. -/
def opened (slave : List ℕ) :
    Configuration (login Text) (LoginPoint Account Key Secret Text) (Master Account Key Text) :=
  ⟨.opened slave, [], []⟩

end SvrDemo.Login
