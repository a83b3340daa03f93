import SvrDemo.Gamed.Sections

/-!
# The sections of a login

The second part of the pass over the programs: `handler.message` with the login, the flush of the messages
that have come meanwhile, and the events of the agents. With it the watched game server keeps its
contract, `keeps_entry`.
-/

set_option autoImplicit false
set_option relaxedAutoImplicit false

namespace SvrDemo.Gamed

open Coroutine Lua Skynet

variable {linked : Prop} {event : Event} {current : Section skynet Served Watched} {whole : Watched}
  {fd agent account : ℕ} {message : Message}

/-! ### `login_handler` -/

/-- A login that has taken no agent yet. -/
structure LoggingIn (fd : ℕ) (message : Message) (current : Section skynet Served Watched)
    (whole : Watched) : Prop where
  forks : current.forks = []
  serves : current.point.event = .socketData fd message
  login : current.point.place.isLogin = true
  carries : current.point.place.carries = none
  taken : current.origin.taken fd = none
  same : whole = current.origin

theorem LoggingIn.mayGo (h : LoggingIn fd message current whole) {place : Place}
    (hlogin : place.isLogin = true) (hcarries : place.carries = none) :
    MayGo linked (.socketData fd message) current (some place) whole :=
  ⟨h.forks, h.serves, _, .flow (.login fd message h.serves h.login h.carries hlogin hcarries),
    h.same ▸ .refl current.origin⟩

/-- While a login waits it keeps what it has taken. -/
theorem Relies.taken_eq {place : Place} {first last : Watched}
    (h : Relies linked ⟨.socketData fd message, place⟩ first last) {value : Option ℕ}
    (hplace : place.isLogin = true) (htaken : first.taken fd = value) : last.taken fd = value := by
  refine (h.taken fd message rfl fun hevent ↦ ?_).trans htaken
  have hevent : place = .event (.socketData fd message) := hevent
  rw [hevent] at hplace
  exact nomatch hplace

/-- The kick of a client may be part of a login. -/
theorem Place.isLogin_of_isKick (place : Place) (hkick : place.isKick = true) :
    place.isLogin = true := by
  cases place with
  | toGamed call => exact hkick
  | fromGamed call => exact hkick
  | _ => exact nomatch hkick

/-- A login waits where it has taken no agent yet. -/
theorem LoggingIn.wait (h : LoggingIn fd message current whole) {place : Place}
    {post : Answer → Section skynet Served Watched → Watched → Prop}
    {raised : LuaError → Section skynet Served Watched → Watched → Prop}
    (hnoted : place.isNoted = false) (hlogin : place.isLogin = true) (hcarries : place.carries = none)
    (hpost : ∀ reply later, LoggingIn fd message ⟨⟨.socketData fd message, place⟩, later, [reply], []⟩
      later → post reply ⟨⟨.socketData fd message, place⟩, later, [reply], []⟩ later) :
    (Program.await (I := skynet) place).wpIn (watching (.socketData fd message))
      (watchedContract linked) post raised current whole := by
  refine wpIn_wait_quiet hnoted (h.mayGo hlogin hcarries) fun reply later hrelies ↦ ?_
  refine hpost reply later ⟨rfl, rfl, hlogin, hcarries, ?_, rfl⟩
  exact hrelies.taken_eq hlogin (h.same ▸ h.taken)

/-- A login that fails before it has taken an agent. -/
theorem LoggingIn.dies (h : LoggingIn fd message current whole) (error : LuaError) :
    (watchedContract linked).raised error current whole :=
  MayGo.raised ⟨h.forks, h.serves, _, .flow (.loginDies fd message h.serves h.login h.carries h.taken),
    h.same ▸ .refl current.origin⟩ error

/-- The agent that serves the account is kicked. -/
theorem wpIn_kickOnline {raised : LuaError → Section skynet Served Watched → Watched → Prop}
    (h : LoggingIn fd message current whole) :
    (kickOnline account).wpIn (watching (.socketData fd message)) (watchedContract linked)
      (fun _ ↦ LoggingIn fd message) raised current whole := by
  unfold kickOnline
  rw [Program.wpIn_bind, Program.wpIn_getState]
  split
  · exact h
  · rename_i online _
    unfold callAgent
    rw [wpIn_rpc watching_safe]
    refine h.wait rfl rfl rfl fun reply later h ↦ ?_
    rw [wpIn_agentDispatch, agentKick, Program.wpIn_fail]
    refine wpIn_kickSelf (fun whole ↦ whole.taken fd = none)
      (fun place first last hkick hrelies hfirst ↦ hrelies.taken_eq (place.isLogin_of_isKick hkick) hfirst)
      (h.same ▸ h.taken) (fun userFd ↦ h.mayGo rfl rfl) (fun userFd reply later _ ↦ ?_)
      fun userFd reply later htaken ↦ ?_
    · exact .login fd message rfl rfl rfl rfl rfl
    · have h : LoggingIn fd message
          ⟨⟨.socketData fd message, .fromGamed (.kick online userFd)⟩, later, [reply], []⟩ later :=
        ⟨rfl, rfl, rfl, rfl, htaken, rfl⟩
      exact h.wait rfl rfl rfl fun reply later h ↦ h

/-- A login that has taken an agent and has not waited since. -/
structure Taking (fd account : ℕ) (message : Message) (agent : ℕ)
    (current : Section skynet Served Watched) (whole : Watched) : Prop where
  forks : current.forks = []
  serves : current.point.event = .socketData fd message
  login : current.point.place.isLogin = true
  carries : current.point.place.carries = none
  taken : current.origin.taken fd = none
  source : ∃ pool, (current.origin.server.pool = agent :: pool ∨ current.origin.server.pool = pool ∧
    current.point.place = .newService fd account ∧
      ∃ address : ℤ, current.heard = [.number address] ∧ address.toNat = agent) ∧
    whole = { current.origin with server := { current.origin.server with pool := pool } }

theorem wpIn_takeAgent (h : LoggingIn fd message current whole) :
    (takeAgent fd account).wpIn (watching (.socketData fd message)) (watchedContract linked)
      (fun agent ↦ Taking fd account message agent) (watchedContract linked).raised current whole := by
  unfold takeAgent
  rw [Program.wpIn_bind, Program.wpIn_getState]
  split
  · rw [Program.wpIn_bind]
    refine h.wait rfl rfl rfl fun reply later h ↦ ?_
    cases reply with
    | number address =>
      exact ⟨rfl, rfl, rfl, rfl, h.taken, _, .inr ⟨rfl, rfl, address, rfl, rfl⟩, rfl⟩
    | order keys => exact h.dies .callFailed
    | ok => exact h.dies .callFailed
    | raised => exact h.dies .callFailed
  · rename_i agent pool hpool
    rw [Program.wpIn_bind, Program.wpIn_modifyState, Program.wpIn_pure,
      watching_put (by exact subset_rfl) (by exact subset_rfl)]
    refine ⟨h.forks, h.serves, h.login, h.carries, h.taken, pool, .inl ?_, ?_⟩
    · rw [← h.same]
      exact hpool
    · rw [h.same]
      rfl

/-! ### The flush -/

/-- A coroutine that has sent a message of the queue. -/
structure Flushing (fd agent : ℕ) (message : Message) (current : Section skynet Served Watched)
    (whole : Watched) : Prop where
  forks : current.forks = []
  serves : current.point.event = .socketData fd message
  place : ∃ first, current.point.place = .forwarded agent first
  same : whole = current.origin

/-- A message of the queue is sent, and the reply is awaited. -/
theorem wpIn_sendPending {second : Message}
    (hgoes : MayGo linked (.socketData fd message) current (some (.forwarded agent second))
      { whole with server := { whole.server with
        sent := whole.server.sent ++ [⟨agent, fd, second⟩] } }) :
    (do Program.modifyState (Server.send agent fd second)
        call (.forwarded agent second) : ServerTask Unit).wpIn (watching (.socketData fd message))
      (watchedContract linked) (fun _ ↦ Flushing fd agent message) (watchedContract linked).raised
      current whole := by
  rw [Program.wpIn_bind, Program.wpIn_modifyState,
    watching_put (by exact subset_rfl) (by exact subset_rfl)]
  refine wpIn_call_quiet rfl hgoes (fun reply later _ _ ↦ ⟨rfl, rfl, ⟨second, rfl⟩, rfl⟩)
    fun later _ ↦ ?_
  exact MayGo.raised ⟨rfl, rfl, _, .flow (.flushDies fd agent message second rfl rfl), .refl _⟩ _

/-- The rest of the queue is sent, and `pending_msg[fd]` is cleared. -/
theorem wpIn_flush {queue : List Message} (h : Flushing fd agent message current whole) :
    (do Program.forEach queue fun message ↦ do
          Program.modifyState (Server.send agent fd message)
          call (.forwarded agent message)
        Program.modifyState fun server ↦ { server with pendingMsg := server.pendingMsg.erase fd } :
      ServerTask Unit).wpIn (watching (.socketData fd message)) (watchedContract linked)
      (watchedContract linked).done (watchedContract linked).raised current whole := by
  rw [Program.wpIn_bind]
  refine Program.wpIn_forEach (fun _ ↦ Flushing fd agent message)
    (fun second _ current whole h ↦ ?_) (fun current whole h ↦ ?_) h
  · obtain ⟨first, hplace⟩ := h.place
    refine wpIn_sendPending ⟨h.forks, h.serves, _,
      .flushes fd agent message first second h.serves hplace, ?_⟩
    rw [h.same]
    exact .refl _
  · obtain ⟨first, hplace⟩ := h.place
    rw [Program.wpIn_modifyState, watching_put (by exact subset_rfl) (Table.keys_erase_subset _ fd)]
    refine MayGo.done ⟨h.forks, h.serves, _, .flushed fd agent message first h.serves hplace, ?_⟩
    rw [h.same]
    exact .refl _

/-- The connection of a login that has opened its agent is forwarded. -/
theorem mayGo_forwarded {reply : Answer} (htaken : whole.taken fd = some agent) {next : Option Place}
    {pending : Table (List Message)} {sent : List Delivery}
    (hflush : match whole.server.pendingMsg.lookup fd with
      | none => next = none ∧ pending = whole.server.pendingMsg ∧ sent = []
      | some [] => next = none ∧ pending = whole.server.pendingMsg.erase fd ∧ sent = []
      | some (first :: _) => next = some (.forwarded agent first) ∧
        pending = whole.server.pendingMsg ∧ sent = [⟨agent, fd, first⟩]) :
    MayGo linked (.socketData fd message)
      ⟨⟨.socketData fd message, .fromAgent agent (.open fd account)⟩, whole, [reply], []⟩ next
      { whole with server := { whole.server with
        connection := whole.server.connection.update fd fun _ ↦ some agent
        pendingMsg := pending
        sent := whole.server.sent ++ sent } } :=
  ⟨rfl, rfl, _, .forwarded fd agent account message rfl rfl htaken hflush, .refl _⟩

/-- The connection is forwarded to the agent, and the queue is flushed. -/
theorem wpIn_forwardPending {reply : Answer} (htaken : whole.taken fd = some agent) :
    (do Program.modifyState (Server.forward fd agent)
        forwardPending fd agent : ServerTask Unit).wpIn (watching (.socketData fd message))
      (watchedContract linked) (watchedContract linked).done (watchedContract linked).raised
      ⟨⟨.socketData fd message, .fromAgent agent (.open fd account)⟩, whole, [reply], []⟩ whole := by
  have hkeys : (whole.server.connection.update fd fun _ ↦ some agent).keys ⊆
      whole.server.connection.keys := (Table.keys_update _ _ _).subset
  have hforward : (watching (.socketData fd message)).put
      (Server.forward fd agent ((watching (.socketData fd message)).get whole)) whole =
      { whole with server := Server.forward fd agent whole.server } :=
    watching_put hkeys subset_rfl
  unfold forwardPending
  rw [Program.wpIn_bind, Program.wpIn_modifyState, Program.wpIn_bind, Program.wpIn_getState]
  have hpendings : ((watching (.socketData fd message)).get
      { whole with server := Server.forward fd agent whole.server }).pendingMsg = whole.server.pendingMsg := rfl
  have hgoes := @mayGo_forwarded linked whole fd agent account message reply htaken
  rw [hforward, hpendings]
  cases hpending : whole.server.pendingMsg.lookup fd with
  | none =>
    rw [Program.wpIn_fail]
    rw [hpending] at hgoes
    have hends := hgoes ⟨rfl, rfl, rfl⟩
    rw [List.append_nil] at hends
    exact hends.raised .indexNil
  | some queue =>
    rw [hpending] at hgoes
    cases queue with
    | nil =>
      have hends := hgoes ⟨rfl, rfl, rfl⟩
      rw [List.append_nil] at hends
      simp only
      rw [Program.forEach_nil, Program.wpIn_bind, Program.wpIn_pure, Program.wpIn_modifyState,
        watching_put (by exact subset_rfl) (Table.keys_erase_subset _ fd)]
      exact hends.done
    | cons first rest =>
      simp only
      rw [Program.forEach_cons, Program.wpIn_bind, Program.wpIn_bind]
      refine Program.wpIn_mono (fun _ current whole h ↦ ?_) (fun _ _ _ h ↦ h)
        (wpIn_sendPending (hgoes ⟨rfl, rfl, rfl⟩))
      exact (Program.wpIn_bind ..).mp (wpIn_flush h)

/-! ### `handler.message` -/

/-- `login_handler` and what follows it. -/
theorem wpIn_loginHandler (h : LoggingIn fd message current whole) :
    (do let agent ← loginHandler fd account
        forwardPending fd agent : ServerTask Unit).wpIn (watching (.socketData fd message))
      (watchedContract linked) (watchedContract linked).done (watchedContract linked).raised current
      whole := by
  unfold loginHandler
  rw [Program.wpIn_bind, Program.wpIn_bind]
  refine Program.wpIn_mono (fun _ current whole h ↦ ?_) (fun _ _ _ h ↦ h) (wpIn_kickOnline h)
  rw [Program.wpIn_bind]
  refine Program.wpIn_mono (fun agent current whole h ↦ ?_) (fun _ _ _ h ↦ h) (wpIn_takeAgent h)
  obtain ⟨pool, hsource, hwhole⟩ := h.source
  rw [Program.wpIn_bind, Program.wpIn_modifyState,
    watching_put (by exact subset_rfl) (by exact subset_rfl), Program.wpIn_bind]
  unfold callAgent
  rw [wpIn_rpc watching_safe]
  refine wpIn_wait ⟨h.forks, h.serves, _,
    .assigned fd agent account message h.serves h.login h.carries h.taken hsource, ?_⟩
    fun reply later hrelies ↦ ?_
  · rw [hwhole]
    exact .refl _
  have htaken : later.taken fd = some agent := hrelies.taken_eq rfl (Function.update_self ..)
  -- `CMD.open` returns, or its failure kicks the client and is lost
  have hreturns : ∀ current whole, current.forks = [] → current.point.event = .socketData fd message →
      current.point.place.isLogin = true → current.point.place.carries = none →
        whole = current.origin → whole.taken fd = some agent →
          (Program.await (I := skynet) (.fromAgent agent (.open fd account))).wpIn
            (watching (.socketData fd message)) (watchedContract linked)
            (fun _ current whole ↦ (do
              Program.modifyState (Server.forward fd agent)
              return agent : ServerTask ℕ).wpIn (watching (.socketData fd message))
                (watchedContract linked) (fun agent current whole ↦
                  (forwardPending fd agent).wpIn (watching (.socketData fd message))
                    (watchedContract linked) (watchedContract linked).done
                    (watchedContract linked).raised current whole)
                (watchedContract linked).raised current whole)
            (watchedContract linked).raised current whole := by
    intro current whole hforks hserves hlogin hcarries hsame htaken
    refine wpIn_wait_quiet rfl ⟨hforks, hserves, _,
      .flow (.login fd message hserves hlogin hcarries rfl rfl), hsame ▸ .refl _⟩
      fun reply last hrelies ↦ ?_
    have hlast : last.taken fd = some agent := hrelies.taken_eq rfl htaken
    rw [Program.wpIn_bind]
    exact (Program.wpIn_bind ..).mp (wpIn_forwardPending hlast)
  rw [wpIn_agentDispatch]
  unfold agentOpen
  rw [Program.wpIn_bind, Program.wpIn_modifyState,
    watching_put (by exact subset_rfl) (by exact subset_rfl)]
  refine wpIn_call_quiet rfl ⟨rfl, rfl, _, .opened fd agent account message rfl rfl htaken, .refl _⟩
    (fun reply last hrelies _ ↦ ?_) fun last hrelies ↦ ?_
  · exact hreturns _ _ rfl rfl rfl rfl rfl (hrelies.taken_eq rfl htaken)
  · refine wpIn_kickSelf (fun whole ↦ whole.taken fd = some agent)
      (fun place first last hkick hrelies hfirst ↦ hrelies.taken_eq (place.isLogin_of_isKick hkick) hfirst)
      (hrelies.taken_eq rfl htaken)
      (fun userFd ↦ ⟨rfl, rfl, _, .flow (.login fd message rfl rfl rfl rfl rfl), .refl _⟩)
      (fun userFd reply later _ ↦ .login fd message rfl rfl rfl rfl rfl)
      fun userFd reply later htaken ↦ hreturns _ _ rfl rfl rfl rfl rfl htaken

/-- `handler.message` of the first message, and of one that comes during the login. -/
theorem wpIn_handlerMessage {reply : Answer}
    (hconnection : whole.server.connection.lookup fd = some none) :
    (handlerMessage fd message).wpIn (watching (.socketData fd message)) (watchedContract linked)
      (watchedContract linked).done (watchedContract linked).raised
      ⟨⟨.socketData fd message, .event (.socketData fd message)⟩, whole, [reply], []⟩
      { whole with server := { whole.server with
        received := whole.server.received ++ [(fd, message)] } } := by
  unfold handlerMessage
  rw [Program.wpIn_bind, Program.wpIn_getState]
  have hpendings : ((watching (.socketData fd message)).get { whole with server := { whole.server with
      received := whole.server.received ++ [(fd, message)] } }).pendingMsg = whole.server.pendingMsg := rfl
  rw [hpendings]
  cases hpending : whole.server.pendingMsg.lookup fd with
  | some queue =>
    have hkeys : (whole.server.pendingMsg.insert fd (queue ++ [message])).keys ⊆
        whole.server.pendingMsg.keys := by
      rw [Table.keys_insert]
      exact (Finset.insert_eq_of_mem (Table.mem_keys_iff.mpr ⟨queue, hpending⟩)).subset
    simp only
    rw [Program.wpIn_modifyState, watching_put (by exact subset_rfl) hkeys]
    exact MayGo.done ⟨rfl, rfl, _, .queued fd message queue rfl rfl hconnection hpending, .refl _⟩
  | none =>
    simp only
    rw [Program.wpIn_bind, Program.wpIn_modifyState, Program.wpIn_bind,
      Program.wpIn_attempt watching_safe]
    have hbegins : (watching (.socketData fd message)).put { whole.server with
          received := whole.server.received ++ [(fd, message)]
          pendingMsg := whole.server.pendingMsg.insert fd [] }
        { whole with server := { whole.server with
          received := whole.server.received ++ [(fd, message)] } } = { whole with
        server := { whole.server with
          received := whole.server.received ++ [(fd, message)]
          pendingMsg := whole.server.pendingMsg.insert fd [] }
        since := Function.update whole.since fd
          (whole.server.received.length + 1, whole.server.sent.length) } := by
      refine (Watched.put_insert (by exact subset_rfl) hpending (by rfl)).trans ?_
      simp only [List.length_append, List.length_singleton]
    show Program.wpIn _ _ (doLogin fd message) _ _ _ ((watching (.socketData fd message)).put
      { whole.server with
        received := whole.server.received ++ [(fd, message)]
        pendingMsg := whole.server.pendingMsg.insert fd [] } { whole with server := { whole.server with
          received := whole.server.received ++ [(fd, message)] } })
    rw [hbegins]
    cases message with
    | other =>
      unfold doLogin
      rw [Program.wpIn_fail]
      simp only
      unfold closeClient
      rw [Program.wpIn_bind, Program.wpIn_pure, Program.wpIn_modifyState,
        watching_put (by exact subset_rfl) (Table.keys_erase_subset _ fd)]
      refine MayGo.done ⟨rfl, rfl, _, .noLogin fd .other rfl rfl hconnection hpending, ?_⟩
      have herase : (whole.server.pendingMsg.insert fd []).erase fd = whole.server.pendingMsg := by
        refine Finmap.ext_lookup fun other ↦ ?_
        rw [Table.lookup_erase_eq, Table.lookup_insert_eq]
        split
        · rename_i hsame
          rw [hsame, hpending]
        · rfl
      show Calm _ { whole with
        server := { whole.server with
          received := whole.server.received ++ [(fd, .other)]
          pendingMsg := (whole.server.pendingMsg.insert fd []).erase fd }
        since := _ }
      rw [herase]
      exact .refl _
    | login session token =>
      unfold doLogin
      rw [Program.wpIn_bind]
      refine wpIn_wait ⟨rfl, rfl, _, .begins fd session token (.login session token) rfl rfl hconnection
        hpending, .refl _⟩ fun reply later hrelies ↦ ?_
      have htaken : later.taken fd = none := hrelies.taken_eq rfl (Function.update_self ..)
      have hfails : ∀ error : LuaError, (do
          closeClient (some fd)
          Program.modifyState fun server ↦ { server with
            pendingMsg := server.pendingMsg.erase fd } : ServerTask Unit).wpIn
          (watching (.socketData fd (.login session token))) (watchedContract linked)
          (watchedContract linked).done (watchedContract linked).raised
          ⟨⟨.socketData fd (.login session token), .verify fd session token⟩, later, [reply], []⟩
          later := by
        intro error
        unfold closeClient
        rw [Program.wpIn_bind, Program.wpIn_pure, Program.wpIn_modifyState,
          watching_put (by exact subset_rfl) (Table.keys_erase_subset _ fd)]
        exact MayGo.done ⟨rfl, rfl, _, .fails fd session token (.login session token) rfl rfl htaken,
          .refl _⟩
      cases reply with
      | number account => exact wpIn_loginHandler ⟨rfl, rfl, rfl, rfl, htaken, rfl⟩
      | order keys => exact hfails .errorCalled
      | ok => exact hfails .errorCalled
      | raised => exact hfails .errorCalled

/-- `dispatch_msg`. -/
theorem wpIn_dispatchMsg {reply : Answer} :
    (dispatchMsg fd message).wpIn (watching (.socketData fd message)) (watchedContract linked)
      (watchedContract linked).done (watchedContract linked).raised
      ⟨⟨.socketData fd message, .event (.socketData fd message)⟩, whole, [reply], []⟩ whole := by
  unfold dispatchMsg
  rw [Program.wpIn_bind, Program.wpIn_modifyState,
    watching_put (by exact subset_rfl) (by exact subset_rfl), Program.wpIn_bind, Program.wpIn_getState]
  have hget : ∀ whole, (watching (.socketData fd message)).get whole = whole.server := fun _ ↦ rfl
  simp only [hget]
  cases hconnection : whole.server.connection.lookup fd with
  | none =>
    exact MayGo.raised ⟨rfl, rfl, _, .lost fd message rfl rfl hconnection, .refl _⟩ .indexNil
  | some agent =>
    cases agent with
    | none => exact wpIn_handlerMessage hconnection
    | some agent =>
      simp only
      rw [Program.wpIn_modifyState, watching_put (by exact subset_rfl) (by exact subset_rfl)]
      exact MayGo.done ⟨rfl, rfl, _, .redirected fd agent message rfl rfl hconnection, .refl _⟩

/-! ### The other events -/

/-- `MSG.open`. -/
theorem wpIn_socketOpen {reply : Answer} :
    (socketOpen fd).wpIn (watching (.socketOpen fd)) (watchedContract linked)
      (watchedContract linked).done (watchedContract linked).raised
      ⟨⟨.socketOpen fd, .event (.socketOpen fd)⟩, whole, [reply], []⟩ whole := by
  unfold socketOpen
  rw [Program.wpIn_modifyState]
  by_cases hlimit : whole.server.nclient ≥ whole.server.maxclient
  · have hsame : (if ((watching (.socketOpen fd)).get whole).nclient ≥
          ((watching (.socketOpen fd)).get whole).maxclient then (watching (.socketOpen fd)).get whole
        else { (watching (.socketOpen fd)).get whole with
          connection := ((watching (.socketOpen fd)).get whole).connection.insert fd none
          nclient := ((watching (.socketOpen fd)).get whole).nclient + 1 }) = whole.server :=
      if_pos hlimit
    rw [hsame, watching_put (by exact subset_rfl) (by exact subset_rfl)]
    exact MayGo.done ⟨rfl, rfl, _, .flow (.refused fd rfl hlimit), .refl _⟩
  · have hinsert : (if ((watching (.socketOpen fd)).get whole).nclient ≥
          ((watching (.socketOpen fd)).get whole).maxclient then (watching (.socketOpen fd)).get whole
        else { (watching (.socketOpen fd)).get whole with
          connection := ((watching (.socketOpen fd)).get whole).connection.insert fd none
          nclient := ((watching (.socketOpen fd)).get whole).nclient + 1 }) = { whole.server with
        connection := whole.server.connection.insert fd none
        nclient := whole.server.nclient + 1 } :=
      if_neg hlimit
    rw [hinsert]
    exact MayGo.done ⟨rfl, rfl, _, .accepted fd rfl rfl (not_le.mp hlimit), .refl _⟩

/-- A coroutine that serves an event of an agent. -/
structure Serving (event : Event) (current : Section skynet Served Watched) (whole : Watched) : Prop where
  forks : current.forks = []
  serves : current.point.event = event
  calm : Calm current.origin whole

theorem Serving.mayGo (h : Serving event current whole) (hevent : event.isSocket = false)
    {next : Option Place} (hkicks : ∀ place ∈ next, place.isKick = true) :
    MayGo linked event current next whole :=
  ⟨h.forks, h.serves, _, .flow (.other (h.serves ▸ hevent) hkicks), h.calm⟩

/-- An agent kicks its client. -/
theorem Serving.kickSelf (h : Serving event current whole) (hevent : event.isSocket = false) :
    (Gamed.kickSelf agent).wpIn (watching event) (watchedContract linked) (watchedContract linked).done
      (watchedContract linked).raised current whole := by
  have hkick : ∀ call : GamedCall, call.isKick = true → ∀ place : Place,
      place = .toGamed call ∨ place = .fromGamed call → place.isKick = true := by
    rintro call hcall place (rfl | rfl) <;> exact hcall
  refine wpIn_kickSelf (fun _ ↦ True) (fun _ _ _ _ _ _ ↦ trivial) trivial (fun userFd ↦ h.mayGo hevent ?_)
    (fun userFd reply later _ ↦ .other hevent ?_) fun userFd reply later _ ↦ ?_
  · rintro place ⟨⟩
    rfl
  · rintro place ⟨⟩
    rfl
  · have hlater : Serving event ⟨⟨event, .fromGamed (.kick agent userFd)⟩, later, [reply], []⟩ later :=
      ⟨rfl, rfl, .refl later⟩
    exact (hlater.mayGo hevent (fun _ hmem ↦ absurd hmem (Option.not_mem_none _))).done

/-- A command of an agent that changes a field of `user`. -/
theorem Serving.changeUser (h : Serving event current whole) (hevent : event.isSocket = false)
    {change : User → User} (howner : ∀ user, (change user).owner = user.owner)
    (hworldly : ∀ user, whole.server.user.lookup agent = some user →
      (user.world ≠ none → user.character ≠ none) →
        (change user).world ≠ none → (change user).character ≠ none) :
    (Gamed.changeUser agent change).wpIn (watching event) (watchedContract linked)
      (watchedContract linked).done
      (fun _ current whole ↦ (Gamed.kickSelf agent).wpIn (watching event) (watchedContract linked)
        (watchedContract linked).done (watchedContract linked).raised current whole) current whole := by
  unfold Gamed.changeUser
  rw [Program.wpIn_bind, Program.wpIn_getState]
  split
  · exact h.kickSelf hevent
  · rw [Program.wpIn_modifyState]
    have hserving : Serving event current ((watching event).put
        { whole.server with user := whole.server.user.update agent change } whole) :=
      ⟨h.forks, h.serves, h.calm.trans (calm_update howner hworldly)⟩
    exact (hserving.mayGo hevent (fun _ hmem ↦ absurd hmem (Option.not_mem_none _))).done

/-- Every coroutine keeps the contract from its first turn on. -/
theorem keeps_entry (point : Served) (reply : Answer) (whole : Watched)
    (hstarts : point.place = .event point.event) :
    (watchedContract linked).Keeps (watchedServer.entry point) ⟨point, whole, [reply], []⟩ whole := by
  obtain ⟨event, place⟩ := point
  obtain rfl : place = .event event := hstarts
  have hserving : Serving event ⟨⟨event, .event event⟩, whole, [reply], []⟩ whole :=
    ⟨rfl, rfl, .refl whole⟩
  show (serve event).wpIn (watching event) (watchedContract linked) (watchedContract linked).done
    (watchedContract linked).raised ⟨⟨event, .event event⟩, whole, [reply], []⟩ whole
  cases event with
  | socketOpen fd => exact wpIn_socketOpen
  | socketClose fd => exact wpIn_closeFd
  | socketData fd message => exact wpIn_dispatchMsg
  | kick agent =>
    rw [serve, wpIn_agentDispatch, agentKick, Program.wpIn_fail]
    exact hserving.kickSelf rfl
  | clientFailure agent => exact hserving.kickSelf rfl
  | pick agent character =>
    rw [serve, wpIn_agentDispatch]
    exact hserving.changeUser rfl (by exact fun _ ↦ rfl) fun _ _ _ _ ↦ Option.some_ne_none character
  | worldEnter agent world =>
    rw [serve, wpIn_agentDispatch]
    unfold worldEnter
    rw [Program.wpIn_bind, Program.wpIn_getState]
    split
    · exact hserving.kickSelf rfl
    · rename_i character hcharacter
      refine hserving.changeUser rfl (by exact fun _ ↦ rfl) fun user hlookup _ _ ↦ ?_
      have hcharacter : (whole.server.user.lookup agent).bind User.character = some character :=
        hcharacter
      rw [hlookup] at hcharacter
      have hcharacter : user.character = some character := hcharacter
      rw [hcharacter]
      exact Option.some_ne_none character
  | mapEnter agent map =>
    rw [serve, wpIn_agentDispatch]
    exact hserving.changeUser rfl (by exact fun _ ↦ rfl) fun _ _ hworldly ↦ hworldly

end SvrDemo.Gamed
