import SvrDemo.Gamed.Sockets

/-!
# The messages of a client

The messages of a socket go to the agent of its connection. During the login there is none: `dispatch_msg`
gives a message to `handler.message`, which puts it into `pending_msg[fd]`, and when the login has
forwarded the connection it sends what it finds there, one message after the other, and waits for a
reply each time. The client dispatch of an agent never replies. So only the first message of the queue is
sent, the entry stays, and what comes later is redirected past the rest of the queue.

As long as no message of a socket comes up during its login, the queue is empty when it is flushed, every
message after the login goes to the agent of the connection, once and in the order of arrival, and
`pending_msg[fd]` is clear.
-/

set_option autoImplicit false
set_option relaxedAutoImplicit false

namespace SvrDemo.Gamed

open Coroutine Lua Skynet

variable {linked : Prop} {point : Served} {origin target last : Watched} {heard : List Answer}
  {next : Option Place} {before after : List Served} {fd : ℕ}

/-! ### The condition -/

/-- No message of a socket is taken up during its login, and a socket is opened under an unused
number. -/
def Place.Unhurried (configuration : Configuration skynet Served Watched) : Place → Prop
  | .event (.socketOpen fd) => Unused configuration.points fd configuration.state.server
  | .event (.socketData fd _) => configuration.state.server.connection.lookup fd = some none →
    configuration.state.server.pendingMsg.lookup fd = none
  | _ => True

instance (configuration : Configuration skynet Served Watched) :
    (place : Place) → Decidable (place.Unhurried configuration)
  | .event (.socketOpen fd) =>
    inferInstanceAs (Decidable (Unused configuration.points fd configuration.state.server))
  | .event (.socketData fd _) =>
    inferInstanceAs (Decidable (configuration.state.server.connection.lookup fd = some none →
      configuration.state.server.pendingMsg.lookup fd = none))
  | .event (.socketClose _) | .event (.kick _) | .event (.clientFailure _) | .event (.pick _ _)
  | .event (.worldEnter _ _) | .event (.mapEnter _ _) | .verify _ _ _ | .newService _ _ | .toAgent _ _
  | .fromAgent _ _ | .toGamed _ | .fromGamed _ | .uniqueService _ | .mapLeave _ _ | .worldLeave _ _ _
  | .saveCharacter _ _ | .forwarded _ _ => .isTrue trivial

/-- The coroutine that is resumed takes up no message during a login. -/
def Unhurried (configuration : Configuration skynet Served Watched) (point : Served) (_ : Answer) : Prop :=
  point.place.Unhurried configuration

instance (configuration : Configuration skynet Served Watched) (point : Served) (reply : Answer) :
    Decidable (Unhurried configuration point reply) :=
  inferInstanceAs (Decidable (point.place.Unhurried configuration))

/-! ### The messages of a socket since its login -/

/-- The messages of a socket that `dispatch_msg` has been called with since its last login began. -/
def Watched.receivedSince (fd : ℕ) (whole : Watched) : List Message :=
  ((whole.server.received.drop (whole.since fd).1).filter fun entry ↦ entry.1 = fd).map Prod.snd

/-- The messages of a socket that have been sent to agents since its last login began. -/
def Watched.sentSince (fd : ℕ) (whole : Watched) : List Delivery :=
  (whole.server.sent.drop (whole.since fd).2).filter fun delivery ↦ delivery.fd = fd

/-- The histories are as long as what has been noted of them. -/
def Noted (whole : Watched) : Prop :=
  ∀ fd, (whole.since fd).1 ≤ whole.server.received.length ∧ (whole.since fd).2 ≤ whole.server.sent.length

/-- What a section means for the messages of a socket. -/
inductive MessageEffect (fd : ℕ) (point : Served) (origin : Watched) (next : Option Place)
    (last : Watched) : Prop
  | keeps (received : last.receivedSince fd = origin.receivedSince fd)
      (sent : last.sentSince fd = origin.sentSince fd)
      (pending : last.server.pendingMsg.lookup fd = origin.server.pendingMsg.lookup fd)
      (logins : ∀ place ∈ next, Served.inLogin fd ⟨point.event, place⟩ = true →
        point.inLogin fd = true) : MessageEffect fd point origin next last
  | lost (message : Message) (event : point.event = .socketData fd message)
      (connection : origin.server.connection.lookup fd = none)
      (pending : last.server.pendingMsg.lookup fd = origin.server.pendingMsg.lookup fd)
      (leaves : next = none) : MessageEffect fd point origin next last
  | redirected (agent : ℕ) (message : Message)
      (connection : origin.server.connection.lookup fd = some (some agent))
      (received : last.receivedSince fd = origin.receivedSince fd ++ [message])
      (sent : last.sentSince fd = origin.sentSince fd ++ [⟨agent, fd, message⟩])
      (pending : last.server.pendingMsg.lookup fd = origin.server.pendingMsg.lookup fd)
      (leaves : next = none) : MessageEffect fd point origin next last
  | begins (connection : origin.server.connection.lookup fd = some none)
      (absent : origin.server.pendingMsg.lookup fd = none)
      (received : last.receivedSince fd = []) (sent : last.sentSince fd = [])
      (pending : last.server.pendingMsg.lookup fd = some [] ∨ next = none) :
      MessageEffect fd point origin next last
  | ends (login : point.inLogin fd = true) (received : last.receivedSince fd = origin.receivedSince fd)
      (sent : last.sentSince fd = origin.sentSince fd)
      (pending : last.server.pendingMsg.lookup fd = none) (leaves : next = none) :
      MessageEffect fd point origin next last

/-- A message that is received is the last one of its socket. -/
theorem receivedSince_append {other : ℕ} {message : Message} (hnoted : Noted origin)
    (hreceived : last.server.received = origin.server.received ++ [(other, message)])
    (hsince : last.since fd = origin.since fd) :
    last.receivedSince fd = origin.receivedSince fd ++ if other = fd then [message] else [] := by
  unfold Watched.receivedSince
  rw [hreceived, hsince, List.drop_append_of_le_length (hnoted fd).1, List.filter_append, List.map_append]
  congr 1
  by_cases hother : other = fd
  · simp [hother]
  · simp [hother]

/-- A message that is sent is the last one of its socket. -/
theorem sentSince_append {agent other : ℕ} {message : Message} (hnoted : Noted origin)
    (hsent : last.server.sent = origin.server.sent ++ [⟨agent, other, message⟩])
    (hsince : last.since fd = origin.since fd) :
    last.sentSince fd = origin.sentSince fd ++ if other = fd then [⟨agent, fd, message⟩] else [] := by
  unfold Watched.sentSince
  rw [hsent, hsince, List.drop_append_of_le_length (hnoted fd).2, List.filter_append]
  congr 1
  by_cases hother : other = fd
  · simp [hother]
  · simp [hother]

/-- What has to be known of a section: it takes up no message during a login, and no queue has been
flushed. -/
structure Orderly (point : Served) (origin : Watched) : Prop where
  noted : Noted origin
  queue : ∀ fd message, point.event = .socketData fd message → point.place = .event point.event →
    origin.server.connection.lookup fd = some none → origin.server.pendingMsg.lookup fd = none
  flush : ∀ agent message, point.place ≠ .forwarded agent message
  login : ∀ fd, point.inLogin fd = true → origin.server.pendingMsg.lookup fd = some []

/-- A section that touches no message. -/
theorem Effect.messages_kept (hcalm : Calm target last)
    (hreceived : target.server.received = origin.server.received)
    (hsent : target.server.sent = origin.server.sent) (hsince : target.since = origin.since)
    (hpending : target.server.pendingMsg.lookup fd = origin.server.pendingMsg.lookup fd)
    (hlogins : ∀ place ∈ next, Served.inLogin fd ⟨point.event, place⟩ = true → point.inLogin fd = true) :
    MessageEffect fd point origin next last := by
  refine .keeps ?_ ?_ ?_ hlogins
  · unfold Watched.receivedSince
    rw [hcalm.received, hcalm.since, hreceived, hsince]
  · unfold Watched.sentSince
    rw [hcalm.sent, hcalm.since, hsent, hsince]
  · rw [hcalm.pendingMsg, hpending]

/-- A login that ends clears `pending_msg`. -/
theorem Effect.messages_ended (hcalm : Calm target last) {other : ℕ} {message : Message}
    (hevent : point.event = .socketData other message) (hplace : point.place.isLogin = true)
    (hreceived : target.server.received = origin.server.received)
    (hsent : target.server.sent = origin.server.sent) (hsince : target.since = origin.since)
    (hpending : target.server.pendingMsg = origin.server.pendingMsg.erase other) (hnext : next = none) :
    MessageEffect fd point origin next last := by
  by_cases hsame : fd = other
  · subst hsame
    refine .ends (Served.inLogin_iff.mpr ⟨hevent ▸ rfl, hplace⟩) ?_ ?_ ?_ hnext
    · unfold Watched.receivedSince
      rw [hcalm.received, hcalm.since, hreceived, hsince]
    · unfold Watched.sentSince
      rw [hcalm.sent, hcalm.since, hsent, hsince]
    · rw [hcalm.pendingMsg, hpending, Table.lookup_erase_eq, if_pos rfl]
  · refine Effect.messages_kept hcalm hreceived hsent hsince ?_
      fun _ hmem ↦ absurd hmem (not_mem_of_eq_none hnext)
    rw [hpending, Table.lookup_erase_eq, if_neg hsame]

/-- A login that begins, or a first message that is no login, starts the histories anew. -/
theorem Effect.messages_begun (hnoted : Noted origin) (hcalm : Calm target last) {other : ℕ}
    {message : Message} (hevent : point.event = .socketData other message)
    (hconnection : origin.server.connection.lookup other = some none)
    (habsent : origin.server.pendingMsg.lookup other = none)
    (hreceived : target.server.received = origin.server.received ++ [(other, message)])
    (hsent : target.server.sent = origin.server.sent)
    (hsince : target.since = Function.update origin.since other
      (origin.server.received.length + 1, origin.server.sent.length))
    (hpending : ∀ fd ≠ other, target.server.pendingMsg.lookup fd =
      origin.server.pendingMsg.lookup fd)
    (hnext : target.server.pendingMsg.lookup other = some [] ∨ next = none) :
    MessageEffect fd point origin next last := by
  have hreceived : last.server.received = origin.server.received ++ [(other, message)] :=
    hcalm.received.trans hreceived
  have hsent : last.server.sent = origin.server.sent := hcalm.sent.trans hsent
  have hsince := hcalm.since.trans hsince
  by_cases hsame : fd = other
  · subst hsame
    have hlater : last.since fd = (origin.server.received.length + 1, origin.server.sent.length) :=
      (congrFun hsince fd).trans (Function.update_self ..)
    refine .begins hconnection habsent ?_ ?_ (hnext.imp_left fun hqueue ↦ ?_)
    · unfold Watched.receivedSince
      rw [hreceived, hlater, List.drop_of_length_le (by simp)]
      rfl
    · unfold Watched.sentSince
      rw [hsent, hlater, List.drop_length]
      rfl
    · rw [hcalm.pendingMsg]
      exact hqueue
  · have hlater : last.since fd = origin.since fd :=
      (congrFun hsince fd).trans (Function.update_of_ne hsame ..)
    refine .keeps ?_ ?_ ?_ fun place _ hlogin ↦ ?_
    · rw [receivedSince_append hnoted hreceived hlater, if_neg (Ne.symm hsame), List.append_nil]
    · unfold Watched.sentSince
      rw [hsent, hlater]
    · rw [hcalm.pendingMsg, hpending fd hsame]
    · have hdata := (Served.inLogin_iff.mp hlogin).1
      rw [hevent] at hdata
      exact absurd (Option.some.inj hdata).symm hsame

/-- Every section has one of these effects on the messages of a socket. -/
theorem Effect.messages (h : Effect linked point origin heard next target) (hcalm : Calm target last)
    (horderly : Orderly point origin) (fd : ℕ) : MessageEffect fd point origin next last := by
  have hnone : ∀ place ∈ (none : Option Place), Served.inLogin fd ⟨point.event, place⟩ = true →
      point.inLogin fd = true := fun _ hmem ↦ absurd hmem (Option.not_mem_none _)
  have hclose : ∀ {fd'}, point.event = .socketClose fd' → ∀ place ∈ next,
      Served.inLogin fd ⟨point.event, place⟩ = true → point.inLogin fd = true :=
    fun hevent _ _ hlogin ↦ absurd hlogin (not_inLogin_of_close hevent)
  have hon : point.place.isLogin = true → ∀ place ∈ next,
      Served.inLogin fd ⟨point.event, place⟩ = true → point.inLogin fd = true :=
    fun hplace _ _ hlogin ↦ Served.inLogin_iff.mpr ⟨(Served.inLogin_iff.mp hlogin).1, hplace⟩
  cases h with
  | flow hflow => exact messages_kept hcalm rfl rfl rfl rfl (hflow.inLogin fd)
  | accepted =>
    exact messages_kept hcalm rfl rfl (Watched.since_put (by exact subset_rfl)) rfl hnone
  | calls _ _ hevent => exact messages_kept hcalm rfl rfl rfl rfl (hclose hevent)
  | dropped =>
    exact messages_kept hcalm rfl rfl (Watched.since_put (by exact subset_rfl)) rfl hnone
  | erased _ _ _ hevent => exact messages_kept hcalm rfl rfl rfl rfl (hclose hevent)
  | recycled _ _ _ hevent => exact messages_kept hcalm rfl rfl rfl rfl (hclose hevent)
  | lost other message hevent _ hconnection =>
    by_cases hsame : other = fd
    · subst hsame
      exact .lost message hevent hconnection (by rw [hcalm.pendingMsg]) rfl
    · refine .keeps ?_ ?_ (by rw [hcalm.pendingMsg]) hnone
      · have hreceived : last.receivedSince fd = _ :=
          receivedSince_append horderly.noted hcalm.received (congrFun hcalm.since fd)
        rw [hreceived, if_neg hsame, List.append_nil]
      · unfold Watched.sentSince
        rw [hcalm.sent, hcalm.since]
  | redirected other agent message hevent _ hconnection =>
    have hreceived : last.receivedSince fd = _ :=
      receivedSince_append horderly.noted hcalm.received (congrFun hcalm.since fd)
    have hsent : last.sentSince fd = _ :=
      sentSince_append horderly.noted hcalm.sent (congrFun hcalm.since fd)
    by_cases hsame : other = fd
    · rw [if_pos hsame] at hreceived hsent
      subst hsame
      exact .redirected agent message hconnection hreceived hsent (by rw [hcalm.pendingMsg]) rfl
    · rw [if_neg hsame, List.append_nil] at hreceived hsent
      exact .keeps hreceived hsent (by rw [hcalm.pendingMsg]) hnone
  | queued other message queue hevent hstarts hconnection hpending =>
    exact nomatch (horderly.queue other message hevent hstarts hconnection).symm.trans hpending
  | noLogin other message hevent _ hconnection hpending =>
    exact messages_begun horderly.noted hcalm hevent hconnection hpending rfl rfl rfl (fun _ _ ↦ rfl)
      (.inr rfl)
  | begins other session token message hevent _ hconnection hpending =>
    refine messages_begun horderly.noted hcalm hevent hconnection hpending rfl rfl rfl
      (fun fd' hfd' ↦ ?_) (.inl ?_)
    · rw [Table.lookup_insert_eq, if_neg hfd']
    · rw [Table.lookup_insert_eq, if_pos rfl]
  | fails other session token message hevent hplace =>
    exact messages_ended hcalm hevent (hplace ▸ rfl) rfl rfl rfl rfl rfl
  | assigned _ _ _ _ _ hbefore => exact messages_kept hcalm rfl rfl rfl rfl (hon hbefore)
  | opened _ _ _ _ _ hplace => exact messages_kept hcalm rfl rfl rfl rfl (hon (hplace ▸ rfl))
  | forwarded other agent account message hevent hplace _ hflush =>
    have hlogin : point.place.isLogin = true := hplace ▸ rfl
    rw [horderly.login other (Served.inLogin_iff.mpr ⟨hevent ▸ rfl, hlogin⟩)] at hflush
    obtain ⟨hnext, hpending, hsent⟩ := hflush
    subst hsent
    exact messages_ended hcalm hevent hlogin rfl (List.append_nil _) rfl hpending hnext
  | flushes _ _ _ _ _ _ hplace => exact absurd hplace (horderly.flush _ _)
  | flushed _ _ _ _ _ hplace => exact absurd hplace (horderly.flush _ _)

/-- What a section notes is no longer than the histories. -/
theorem Effect.noted (h : Effect linked point origin heard next target) (hcalm : Calm target last)
    (hnoted : Noted origin) : Noted last := by
  intro fd
  rw [hcalm.since, hcalm.received, hcalm.sent]
  obtain ⟨hreceived, hsent⟩ := hnoted fd
  have hbegun : ∀ other, (Function.update origin.since other
        (origin.server.received.length + 1, origin.server.sent.length) fd).1 ≤
          origin.server.received.length + 1 ∧
      (Function.update origin.since other
        (origin.server.received.length + 1, origin.server.sent.length) fd).2 ≤
          origin.server.sent.length := by
    intro other
    by_cases hsame : fd = other
    · rw [hsame, Function.update_self]
      exact ⟨le_refl _, le_refl _⟩
    · rw [Function.update_of_ne hsame]
      exact ⟨hreceived.trans (Nat.le_succ _), hsent⟩
  cases h with
  | accepted | dropped =>
    rw [Watched.since_put (by exact subset_rfl)]
    exact ⟨hreceived, hsent⟩
  | lost | queued =>
    simp only [List.length_append, List.length_singleton]
    exact ⟨hreceived.trans (Nat.le_succ _), hsent⟩
  | redirected =>
    simp only [List.length_append, List.length_singleton]
    exact ⟨hreceived.trans (Nat.le_succ _), hsent.trans (Nat.le_succ _)⟩
  | noLogin other | begins other =>
    simp only [List.length_append, List.length_singleton]
    exact hbegun other
  | forwarded | flushes =>
    simp only [List.length_append]
    exact ⟨hreceived, hsent.trans (Nat.le_add_right _ _)⟩
  | _ => exact ⟨hreceived, hsent⟩

/-- No queue is flushed. -/
theorem Effect.not_forwarded (h : Effect linked point origin heard next target)
    (horderly : Orderly point origin) : ∀ place ∈ next, ∀ agent message, place ≠ .forwarded agent message := by
  rintro place hplace agent message rfl
  cases h with
  | flow hflow =>
    cases hflow with
    | refused | absent | loginDies | flushDies => exact nomatch hplace
    | other hevent hkicks => exact nomatch hkicks _ hplace
    | staged _ _ _ _ hstage =>
      obtain rfl := Option.some.inj hplace
      exact nomatch hstage
    | notOpen | failed => exact nomatch Option.some.inj hplace
    | finishing _ _ _ _ _ hafter =>
      obtain rfl := Option.some.inj hplace
      exact nomatch hafter
    | login _ _ _ _ _ hafter =>
      obtain rfl := Option.some.inj hplace
      exact nomatch hafter
  | accepted | dropped | lost | redirected | queued | noLogin | fails | flushed => exact nomatch hplace
  | calls | erased | recycled | begins | assigned | opened => exact nomatch Option.some.inj hplace
  | forwarded other agent' account message' hevent hplace' _ hflush =>
    rw [horderly.login other (Served.inLogin_iff.mpr ⟨hevent ▸ rfl, hplace' ▸ rfl⟩)] at hflush
    exact nomatch hflush.1.symm.trans hplace
  | flushes _ _ _ _ _ _ hplace' => exact horderly.flush _ _ hplace'

/-- A connection has its agent from before, or a login with an empty queue has just forwarded it. -/
theorem Effect.connected (h : Effect linked point origin heard next target) (hcalm : Calm target last)
    (horderly : Orderly point origin) {agent : ℕ}
    (hconnection : last.server.connection.lookup fd = some (some agent)) :
    origin.server.connection.lookup fd = some (some agent) ∨
      point.inLogin fd = true ∧ origin.server.connection.lookup fd ≠ none ∧
        last.server.pendingMsg.lookup fd = none ∧ last.receivedSince fd = origin.receivedSince fd ∧
          last.sentSince fd = origin.sentSince fd := by
  rw [hcalm.connection] at hconnection
  cases h with
  | accepted other =>
    have hinsert : (origin.server.connection.insert other none).lookup fd = some (some agent) :=
      hconnection
    rw [Table.lookup_insert_eq] at hinsert
    split at hinsert
    · exact nomatch Option.some.inj hinsert
    · exact .inl hinsert
  | dropped other =>
    have herase : (origin.server.connection.erase other).lookup fd = some (some agent) := hconnection
    exact .inl (Table.lookup_of_erase herase)
  | forwarded other agent' account message hevent hplace _ hflush =>
    have hupdate : (origin.server.connection.update other fun _ ↦ some agent').lookup fd =
        some (some agent) := hconnection
    rw [Table.lookup_update] at hupdate
    split at hupdate
    · rename_i hsame
      subst hsame
      have hlogin : point.inLogin fd = true := Served.inLogin_iff.mpr ⟨hevent ▸ rfl, hplace ▸ rfl⟩
      rw [horderly.login fd hlogin] at hflush
      obtain ⟨-, hpending, hsent⟩ := hflush
      subst hsent
      refine .inr ⟨hlogin, fun hnone ↦ ?_, ?_, ?_, ?_⟩
      · rw [hnone] at hupdate
        exact nomatch hupdate
      · rw [hcalm.pendingMsg, hpending, Table.lookup_erase_eq, if_pos rfl]
      · unfold Watched.receivedSince
        rw [hcalm.received, hcalm.since]
      · unfold Watched.sentSince
        rw [hcalm.sent, hcalm.since, List.append_nil]
    · exact .inl hupdate
  | _ => exact .inl hconnection

/-! ### The invariant -/

/-- Every message that has been received since the login has been sent to the agent of the connection,
in order and once, and nothing waits. -/
def Watched.HandedOver (whole : Watched) : Prop :=
  ∀ fd agent, whole.server.connection.lookup fd = some (some agent) →
    whole.sentSince fd = (whole.receivedSince fd).map (Delivery.mk agent fd) ∧
      whole.server.pendingMsg.lookup fd = none

/-- During a login the queue of the socket is empty and no message has come since it began; no queue is
being flushed; and the messages of the connections have been handed over. -/
structure Handed (whole : Watched) (points : List Served) : Prop where
  apart : Apart whole points
  noted : Noted whole
  flush : ∀ point ∈ points, ∀ agent message, point.place ≠ .forwarded agent message
  begun : ∀ fd, InLogin fd points → whole.server.pendingMsg.lookup fd = some [] ∧
    (whole.server.connection.lookup fd ≠ none → whole.receivedSince fd = [] ∧ whole.sentSince fd = [])
  delivered : whole.HandedOver

theorem Handed.orderly (h : Handed origin (before ++ point :: after))
    (hqueue : ∀ fd message, point.event = .socketData fd message → point.place = .event point.event →
      origin.server.connection.lookup fd = some none → origin.server.pendingMsg.lookup fd = none) :
    Orderly point origin :=
  ⟨h.noted, hqueue, h.flush point mem_self, fun fd hlogin ↦ (h.begun fd ⟨point, mem_self, hlogin⟩).1⟩

/-- The messages of the connections are handed over after a section. -/
theorem Handed.delivered_step (h : Handed origin (before ++ point :: after))
    (horderly : Orderly point origin) (heffect : Effect linked point origin heard next target)
    (hcalm : Calm target last) : last.HandedOver := by
  intro fd agent hconnection
  rcases heffect.connected hcalm horderly hconnection with hold | ⟨hlogin, hsome, hpending, hreceived, hsent⟩
  · obtain ⟨hdelivered, hclear⟩ := h.delivered fd agent hold
    cases heffect.messages hcalm horderly fd with
    | keeps hreceived hsent hpending =>
      rw [hreceived, hsent, hpending]
      exact ⟨hdelivered, hclear⟩
    | lost message hevent hnone => exact nomatch hnone.symm.trans hold
    | redirected agent' message hagent hreceived hsent hpending =>
      obtain rfl := Option.some.inj (Option.some.inj (hold.symm.trans hagent))
      rw [hreceived, hsent, hpending, List.map_append, hdelivered]
      exact ⟨rfl, hclear⟩
    | begins hnone => exact nomatch Option.some.inj (hnone.symm.trans hold)
    | ends hlogin => exact absurd hold (h.apart.login fd ⟨point, mem_self, hlogin⟩ agent)
  · obtain ⟨-, hempty⟩ := h.begun fd ⟨point, mem_self, hlogin⟩
    obtain ⟨hreceived', hsent'⟩ := hempty hsome
    rw [hreceived, hsent, hreceived', hsent']
    exact ⟨rfl, hpending⟩

/-- A connection was there before a section, unless the section opens it. -/
theorem SocketEffect.connection_ne_none (h : SocketEffect point origin next last)
    (hconnection : last.server.connection.lookup fd ≠ none) :
    origin.server.connection.lookup fd ≠ none ∨
      point.event = .socketOpen fd ∧ point.place = .event point.event := by
  cases h with
  | keeps hsame | calls _ _ _ _ hsame | begins _ _ _ _ _ _ hsame =>
    rw [hsame] at hconnection
    exact .inl hconnection
  | accepted other hevent hstarts hinsert =>
    rw [hinsert, Table.lookup_insert_eq] at hconnection
    split at hconnection
    · rename_i hsame
      exact .inr ⟨hsame ▸ hevent, hstarts⟩
    · exact .inl hconnection
  | dropped other hevent hdrops herase =>
    rw [herase, Table.lookup_erase_eq] at hconnection
    split at hconnection
    · exact absurd rfl hconnection
    · exact .inl hconnection
  | forwarded other agent account message hevent hplace _ hupdate =>
    rw [hupdate, Table.lookup_update] at hconnection
    split at hconnection
    · rename_i hsame
      rw [hsame]
      exact .inl fun hnone ↦ hconnection (by rw [hnone]; rfl)
    · exact .inl hconnection

/-- The logins in progress after a section have an empty queue and no message yet. -/
theorem Handed.begun_step (h : Handed origin (before ++ point :: after))
    (hone : OneLogin origin (before ++ point :: after)) (horderly : Orderly point origin)
    (hopen : ∀ fd, point.event = .socketOpen fd → point.place = .event point.event →
      Unused (before ++ point :: after) fd origin.server)
    (heffect : Effect linked point origin heard next target) (hcalm : Calm target last)
    (hlogin : InLogin fd (before ++ (next.map (Served.mk point.event)).toList ++ after)) :
    last.server.pendingMsg.lookup fd = some [] ∧ (last.server.connection.lookup fd ≠ none →
      last.receivedSince fd = [] ∧ last.sentSince fd = []) := by
  have hothers : next = none → ∃ other ∈ before ++ after, other.inLogin fd = true := by
    rintro rfl
    obtain ⟨other, hmem, hother⟩ := hlogin
    rcases mem_step.mp hmem with hold | ⟨place, hplace, -⟩
    · exact ⟨other, hold, hother⟩
    · exact nomatch hplace
  have hpresent : InLogin fd (before ++ point :: after) → last.server.connection.lookup fd ≠ none →
      origin.server.connection.lookup fd ≠ none := by
    rintro ⟨other, hmem, hother⟩ hsome
    refine ((heffect.sockets hcalm).connection_ne_none hsome).resolve_right fun ⟨hevent, hstarts⟩ ↦ ?_
    have hunused := ((hopen fd hevent hstarts).2 other hmem).1
    exact nomatch (Served.logsIn_of_inLogin hother).symm.trans hunused
  cases heffect.messages hcalm horderly fd with
  | keeps hreceived hsent hpending hlogins =>
    have hold : InLogin fd (before ++ point :: after) := exists_of_step hlogins hlogin
    obtain ⟨hqueue, hempty⟩ := h.begun fd hold
    rw [hreceived, hsent, hpending]
    exact ⟨hqueue, fun hsome ↦ hempty (hpresent hold hsome)⟩
  | lost message hevent hconnection hpending hnext =>
    obtain ⟨other, hmem, hother⟩ := hothers hnext
    have hold : InLogin fd (before ++ point :: after) := ⟨other, mem_others hmem, hother⟩
    rw [hpending]
    exact ⟨(h.begun fd hold).1, fun hsome ↦ absurd hconnection (hpresent hold hsome)⟩
  | redirected agent message hconnection _ _ _ hnext =>
    obtain ⟨other, hmem, hother⟩ := hothers hnext
    exact absurd hconnection (h.apart.login fd ⟨other, mem_others hmem, hother⟩ agent)
  | begins hconnection habsent hreceived hsent hpending =>
    refine ⟨hpending.resolve_right fun hnext ↦ ?_, fun _ ↦ ⟨hreceived, hsent⟩⟩
    obtain ⟨other, hmem, hother⟩ := hothers hnext
    exact hone.pending_of_mem (mem_others hmem) (Served.logsIn_of_inLogin hother) habsent
  | ends hpoint _ _ _ hnext =>
    obtain ⟨other, hmem, hother⟩ := hothers hnext
    have htwo := countP_others point hmem (Served.logsIn_of_inLogin hother)
    have halone := hone.alone fd
    rw [List.countP_singleton, if_pos (Served.logsIn_of_inLogin hpoint)] at htwo
    omega

/-- Every section keeps the invariant. -/
theorem Handed.step (h : Handed origin (before ++ point :: after))
    (hone : OneLogin origin (before ++ point :: after))
    (hqueue : ∀ fd message, point.event = .socketData fd message → point.place = .event point.event →
      origin.server.connection.lookup fd = some none → origin.server.pendingMsg.lookup fd = none)
    (hopen : ∀ fd, point.event = .socketOpen fd → point.place = .event point.event →
      Unused (before ++ point :: after) fd origin.server)
    (heffect : Effect linked point origin heard next target) (hcalm : Calm target last) :
    Handed last (before ++ (next.map (Served.mk point.event)).toList ++ after) := by
  have horderly := h.orderly hqueue
  refine ⟨h.apart.step hone hopen (heffect.sockets hcalm), heffect.noted hcalm h.noted,
    fun other hmem agent message ↦ ?_, fun fd hlogin ↦ ?_, h.delivered_step horderly heffect hcalm⟩
  · rcases mem_step.mp hmem with hold | ⟨place, hplace, rfl⟩
    · exact h.flush other (mem_others hold) agent message
    · exact heffect.not_forwarded horderly place hplace agent message
  · exact h.begun_step hone horderly hopen heffect hcalm hlogin

theorem handed_opened (pool : List ℕ) (maxclient : ℤ) :
    Handed (watchedOpened pool maxclient).state [] where
  apart := apart_opened pool maxclient
  noted _ := ⟨le_refl 0, le_refl 0⟩
  flush _ hmem := absurd hmem List.not_mem_nil
  begun _ hlogin := absurd hlogin.choose_spec.1 List.not_mem_nil
  delivered _ _ hconnection := nomatch hconnection

/-- An event that arrives changes nothing. -/
theorem Handed.arrive {whole : Watched} {points : List Served} (h : Handed whole points)
    (hstarts : point.place = .event point.event) : Handed whole (points ++ [point]) := by
  refine ⟨h.apart.arrive hstarts, h.noted, fun other hmem agent message ↦ ?_,
    fun fd hlogin ↦ h.begun fd ?_, h.delivered⟩
  · rcases List.mem_append.mp hmem with hold | hnew
    · exact h.flush other hold agent message
    · rw [List.mem_singleton.mp hnew, hstarts]
      exact Place.noConfusion
  · exact exists_of_arrive (not_inLogin_of_starts hstarts fd) hlogin

/-! ### The runs -/

/-- As long as no message of a socket is taken up during its login, every message after the login is sent
to the agent of the connection, in order and once, and nothing waits. -/
theorem messages_handed_over {pool : List ℕ} {maxclient : ℤ} {last : Configuration skynet Served Watched}
    (hrun : watchedServer.Run (Resumes Unhurried) (watchedOpened pool maxclient) last) :
    last.state.HandedOver := by
  have hgood := sound_oneLogin.good_of_starts (oneLogin_opened pool maxclient)
    fun _ hmem ↦ absurd hmem List.not_mem_nil
  have hholds : System.Good (watchedContract False) OneLogin last ∧ Handed last.state last.points := by
    refine sound_oneLogin.holds_of_run (fun _ _ _ ↦ trivial) ?_ ?_ hgood
      (handed_opened pool maxclient) hrun
    · exact fun configuration point _ harrives h ↦ h.arrive (of_decide_eq_true harrives)
    · intro configuration before point after reply answers left last hmeets hpoints hone h hguar
      obtain ⟨next, target, rfl, heffect, hcalm⟩ := hguar
      have hunhurried := Resumes.meets hmeets hpoints
      rw [hpoints] at h hone
      refine h.step hone (fun fd message hevent hstarts ↦ ?_) (fun fd hevent hstarts ↦ ?_) heffect hcalm
      · unfold Unhurried at hunhurried
        rw [hstarts, hevent] at hunhurried
        exact hunhurried
      · unfold Unhurried at hunhurried
        rw [hstarts, hevent] at hunhurried
        have hunused : Unused configuration.points fd configuration.state.server := hunhurried
        rw [hpoints] at hunused
        exact hunused
  exact hholds.2.delivered

/-- A login and two messages after it. -/
theorem messages_handed_over_visit :
    ∃ last : Configuration skynet Served Watched, last.state.HandedOver ∧
      (last.threads.length, last.state.server.sent) = (0, [⟨100, 7, .other⟩, ⟨100, 7, .login 3 4⟩]) := by
  obtain ⟨last, hrun, hlast⟩ := watchedServer.exists_run_of_playMeeting (Resumes Unhurried)
    (watchedOpened [100] 10)
    (visit 7 1 2 5 ++ [.arrive ⟨.socketData 7 .other, .event (.socketData 7 .other)⟩, .resume 0 .ok [],
      .arrive ⟨.socketData 7 (.login 3 4), .event (.socketData 7 (.login 3 4))⟩, .resume 0 .ok []])
    (fun last ↦ (last.threads.length, last.state.server.sent))
    (show _ = some (0, [⟨100, 7, .other⟩, ⟨100, 7, .login 3 4⟩]) by decide +kernel)
  exact ⟨last, messages_handed_over hrun, hlast⟩

/-- Two messages come while the login server verifies the client, and a third one after the login: the
flush has sent the first one and waits for a reply, and the third one has overtaken the second. -/
theorem message_overtaken :
    ∃ last, watchedServer.AnyRun (watchedOpened [100] 10) last ∧
      (last.state.server.connection.lookup 7, last.state.receivedSince 7, last.state.sentSince 7,
        last.state.server.pendingMsg.lookup 7) =
          (some (some 100), [.other, .login 3 4, .login 5 6],
            [⟨100, 7, .other⟩, ⟨100, 7, .login 5 6⟩], some [.other, .login 3 4]) :=
  watchedServer.exists_run_of_playAll _
    [.arrive ⟨.socketOpen 7, .event (.socketOpen 7)⟩, .resume 0 .ok [],
      .arrive ⟨.socketData 7 (.login 1 2), .event (.socketData 7 (.login 1 2))⟩, .resume 0 .ok [],
      .arrive ⟨.socketData 7 .other, .event (.socketData 7 .other)⟩, .resume 1 .ok [],
      .arrive ⟨.socketData 7 (.login 3 4), .event (.socketData 7 (.login 3 4))⟩, .resume 1 .ok [],
      .resume 0 (.number 5) [], .resume 0 .ok [], .resume 0 .ok [], .resume 0 .ok [],
      .arrive ⟨.socketData 7 (.login 5 6), .event (.socketData 7 (.login 5 6))⟩, .resume 1 .ok []]
    (fun last ↦ (last.state.server.connection.lookup 7, last.state.receivedSince 7,
      last.state.sentSince 7, last.state.server.pendingMsg.lookup 7)) (by decide +kernel)

end SvrDemo.Gamed
