import SvrDemo.Coroutine.Recording
import SvrDemo.Gamed.Server

/-!
# The watched game server

The game server as it is, with what its state and its places do not show: every coroutine carries the
event it serves, so that one can speak of the `close_fd` or of the login of a socket that is under way,
and three histories stand beside the state. `taken` is the agent that the last login of a socket has got
from the pool or as a new service, `calls` counts the calls of `CMD.close` that `close_fd` has made for
the present connection of a socket, and `since` says how much had been received and sent when the last
login of a socket began.

The programs are those of the game server, and every run of the game server is a run of the watched one.
-/

set_option autoImplicit false
set_option relaxedAutoImplicit false

namespace SvrDemo.Gamed

open Coroutine Lua Skynet

/-! ### The service -/

/-- A coroutine of the game server: the event it serves, and where it waits. -/
structure Served where
  event : Event
  place : Place
  deriving DecidableEq

/-- The state of the game server and its histories. -/
structure Watched where
  server : Server
  taken : ℕ → Option ℕ
  calls : ℕ → ℕ
  since : ℕ → ℕ × ℕ

/-- A change of the game server: a connection that is accepted has had no call, and a login that begins
notes how much has been received and sent. -/
def Watched.put (server : Server) (whole : Watched) : Watched where
  server := server
  taken := whole.taken
  calls := fun fd ↦
    if fd ∈ server.connection.keys ∧ fd ∉ whole.server.connection.keys then 0 else whole.calls fd
  since := fun fd ↦
    if whole.server.pendingMsg.lookup fd = none ∧ server.pendingMsg.lookup fd ≠ none then
      (server.received.length, server.sent.length)
    else whole.since fd

/-- What is noted when a coroutine begins to wait: that a login asks the login server and has no agent
yet, that it sends `CMD.open` to the agent it has taken, and that `close_fd` calls `CMD.close`. -/
def Watched.wait : Event → Place → Watched → Watched
  | .socketData fd _, .verify _ _ _, whole =>
    { whole with taken := Function.update whole.taken fd none }
  | .socketData fd _, .toAgent agent (.open _ _), whole =>
    { whole with taken := Function.update whole.taken fd (some agent) }
  | .socketClose fd, .toAgent _ .close, whole =>
    { whole with calls := Function.update whole.calls fd (whole.calls fd + 1) }
  | _, _, whole => whole

/-- The waits change the histories only. -/
@[simp]
theorem Watched.server_wait (event : Event) (place : Place) (whole : Watched) :
    (whole.wait event place).server = whole.server := by
  unfold Watched.wait
  split <;> rfl

/-- A coroutine that serves an event, in the watched game server. -/
def watching (event : Event) : Embedding skynet Place Server Served Watched where
  get := Watched.server
  put := Watched.put
  handle := fun place ↦ do
    Program.modifyState (Watched.wait event place)
    Program.await ⟨event, place⟩
  fork := Served.mk event
  get_put := fun _ _ ↦ rfl

/-- The watched game server. -/
def watchedServer : System skynet Served Watched where
  entry := fun served ↦ (entry served.place).embed (watching served.event)
  arrives := fun served ↦ decide (served.place = .event served.event)

/-- The watched game server before the first event. -/
def watchedOpened (pool : List ℕ) (maxclient : ℤ) : Configuration skynet Served Watched :=
  ⟨⟨.opened pool maxclient, fun _ ↦ none, fun _ ↦ 0, fun _ ↦ (0, 0)⟩, [], []⟩

/-! ### The runs of the game server -/

theorem watching_watches (event : Event) :
    (watching event).Watches id Served.place :=
  ⟨fun _ ↦ rfl, fun place whole ↦ ⟨⟨event, place⟩, whole.wait event place, rfl,
    whole.server_wait event place, fun _ _ _ ↦ rfl⟩⟩

/-- The watched game server runs the programs of the game server. -/
theorem watchedServer_watches :
    System.Watches Place Watched.server Served.place watchedServer gameServer where
  arrives place harrives := by
    cases place with
    | event event => exact ⟨⟨event, .event event⟩, rfl, by simp [watchedServer]⟩
    | _ => exact nomatch harrives
  entry served := ⟨_, id, entry served.place, rfl, watching_watches served.event,
    Program.named_self _, rfl⟩

theorem follows_opened (pool : List ℕ) (maxclient : ℤ) :
    Configuration.Follows Place Watched.server Served.place (watchedOpened pool maxclient)
      (opened pool maxclient) :=
  ⟨rfl, .nil, rfl⟩

/-! ### Changes of the histories -/

/-- A change that accepts no connection keeps the counts of the calls. -/
theorem Watched.calls_put {server : Server} {whole : Watched}
    (hconnection : server.connection.keys ⊆ whole.server.connection.keys) :
    (whole.put server).calls = whole.calls :=
  funext fun _ ↦ if_neg fun hnew ↦ hnew.2 (hconnection hnew.1)

/-- A change that begins no login keeps what has been noted of the logins. -/
theorem Watched.since_put {server : Server} {whole : Watched}
    (hpending : server.pendingMsg.keys ⊆ whole.server.pendingMsg.keys) :
    (whole.put server).since = whole.since := by
  funext fd
  refine if_neg fun hnew ↦ ?_
  obtain ⟨queue, hqueue⟩ := Option.ne_none_iff_exists'.mp hnew.2
  obtain ⟨queue', hqueue'⟩ := Table.mem_keys_iff.mp (hpending (Table.mem_keys_iff.mpr ⟨queue, hqueue⟩))
  rw [hnew.1] at hqueue'
  exact nomatch hqueue'

/-- A change that accepts no connection and begins no login keeps the histories. -/
theorem Watched.put_eq {server : Server} {whole : Watched}
    (hconnection : server.connection.keys ⊆ whole.server.connection.keys)
    (hpending : server.pendingMsg.keys ⊆ whole.server.pendingMsg.keys) :
    whole.put server = { whole with server := server } :=
  calc whole.put server
      = ⟨server, whole.taken, (whole.put server).calls, (whole.put server).since⟩ := rfl
    _ = _ := by rw [Watched.calls_put hconnection, Watched.since_put hpending]

/-- A login that begins notes how much has been received and sent. -/
theorem Watched.put_insert {server : Server} {whole : Watched} {fd : ℕ} {queue : List Message}
    (hconnection : server.connection.keys ⊆ whole.server.connection.keys)
    (hnone : whole.server.pendingMsg.lookup fd = none)
    (hpending : server.pendingMsg = whole.server.pendingMsg.insert fd queue) :
    whole.put server = { whole with
      server := server
      since := Function.update whole.since fd (server.received.length, server.sent.length) } := by
  have hsince : (whole.put server).since =
      Function.update whole.since fd (server.received.length, server.sent.length) := by
    funext other
    simp only [Watched.put, hpending, Table.lookup_insert_eq]
    by_cases hsame : other = fd
    · rw [hsame, if_pos ⟨hnone, by rw [if_pos rfl]; exact Option.some_ne_none queue⟩,
        Function.update_self]
    · rw [if_neg, Function.update_of_ne hsame]
      rw [if_neg hsame]
      exact fun hnew ↦ hnew.2 hnew.1
  calc whole.put server
      = ⟨server, whole.taken, (whole.put server).calls, (whole.put server).since⟩ := rfl
    _ = _ := by rw [Watched.calls_put hconnection, hsince]

end SvrDemo.Gamed
