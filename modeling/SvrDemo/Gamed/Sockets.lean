import SvrDemo.Gamed.Seats

/-!
# The login and the end of a socket

A socket has no agent while a login of it is in progress, and `close_fd` waits only for the agent that
the connection has. So a login and a `close_fd` that waits never meet on one socket, as long as the
driver gives a new socket a number that nothing of an old one still uses.
-/

set_option autoImplicit false
set_option relaxedAutoImplicit false

namespace SvrDemo.Gamed

open Coroutine Lua Skynet

variable {linked : Prop} {point : Served} {origin target last : Watched} {heard : List Answer}
  {next : Option Place} {before after : List Served}

/-! ### Places of a socket -/

/-- The agent that `close_fd` waits for. -/
def Place.closing : Place → Option ℕ
  | .toAgent agent .close => some agent
  | .mapLeave agent _ => some agent
  | .worldLeave agent _ _ => some agent
  | .saveCharacter agent _ => some agent
  | .toGamed (.close agent _) => some agent
  | .fromGamed (.close agent _) => some agent
  | .toGamed (.kick agent _) => some agent
  | .fromGamed (.kick agent _) => some agent
  | .fromAgent agent .close => some agent
  | _ => none

theorem Place.closing_of_stage {place : Place} {agent : ℕ} (hstage : place.stage = some agent) :
    place.closing = some agent := by
  cases place with
  | mapLeave | worldLeave | saveCharacter => exact hstage
  | _ => exact nomatch hstage

theorem Place.finishes_of_stage {place : Place} {agent : ℕ} (hstage : place.stage = some agent) :
    place.finishes = none := by
  cases place with
  | mapLeave | worldLeave | saveCharacter => rfl
  | _ => exact nomatch hstage

theorem Place.closing_of_finishes {place : Place} {agent : ℕ} (hfinishes : place.finishes = some agent) :
    place.closing = some agent := by
  cases place with
  | toGamed call => cases call <;> exact hfinishes
  | fromGamed call => cases call <;> exact hfinishes
  | fromAgent other call =>
    cases call with
    | close => exact hfinishes
    | _ => exact nomatch hfinishes
  | _ => exact nomatch hfinishes

theorem Place.closing_of_closes {place : Place} {agent : ℕ} {present : Prop}
    (hcloses : place = .toAgent agent .close ∧ present ∨ place.stage = some agent) :
    place.closing = some agent :=
  hcloses.elim (fun hplace ↦ hplace.1 ▸ rfl) Place.closing_of_stage

/-- A coroutine in the middle of a login of a socket, up to the return of `CMD.open`. -/
def Served.inLogin (fd : ℕ) (point : Served) : Bool :=
  decide (point.event.dataOf = some fd) && point.place.isLogin

/-- A coroutine of `close_fd` for a socket that waits for an agent. -/
def Served.closesFor (fd agent : ℕ) (point : Served) : Bool :=
  decide (point.event.closeOf = some fd) && decide (point.place.closing = some agent)

theorem Served.inLogin_iff {fd : ℕ} : point.inLogin fd = true ↔
    point.event.dataOf = some fd ∧ point.place.isLogin = true := by
  rw [Served.inLogin, Bool.and_eq_true, decide_eq_true_iff]

theorem Served.closesFor_iff {fd agent : ℕ} : point.closesFor fd agent = true ↔
    point.event.closeOf = some fd ∧ point.place.closing = some agent := by
  rw [Served.closesFor, Bool.and_eq_true, decide_eq_true_iff, decide_eq_true_iff]

theorem Served.logsIn_of_inLogin {fd : ℕ} (h : point.inLogin fd = true) : point.logsIn fd = true := by
  obtain ⟨hdata, hlogin⟩ := Served.inLogin_iff.mp h
  rw [Served.logsIn, Served.underWay_of_isLogin hlogin, hdata, decide_eq_true rfl, Bool.and_self]

theorem Served.closes_of_closesFor {fd agent : ℕ} (h : point.closesFor fd agent = true) :
    point.closes fd = true := by
  obtain ⟨hclose, hclosing⟩ := Served.closesFor_iff.mp h
  have hunderWay : point.underWay = true := by
    refine decide_eq_true fun hplace ↦ ?_
    rw [hplace] at hclosing
    exact nomatch hclosing
  rw [Served.closes, hunderWay, hclose, decide_eq_true rfl, Bool.and_self]

/-! ### What a section does with a socket -/

/-- What a section means for the connections and for the coroutines of a socket. -/
inductive SocketEffect (point : Served) (origin : Watched) (next : Option Place) (last : Watched) : Prop
  | keeps (connection : last.server.connection = origin.server.connection)
      (logins : ∀ fd, ∀ place ∈ next, Served.inLogin fd ⟨point.event, place⟩ = true →
        point.inLogin fd = true)
      (closes : ∀ fd agent, ∀ place ∈ next, Served.closesFor fd agent ⟨point.event, place⟩ = true →
        point.closesFor fd agent = true) : SocketEffect point origin next last
  | accepted (fd : ℕ) (event : point.event = .socketOpen fd) (starts : point.place = .event point.event)
      (connection : last.server.connection = origin.server.connection.insert fd none)
      (leaves : next = none) : SocketEffect point origin next last
  | calls (fd agent : ℕ) (event : point.event = .socketClose fd)
      (before : origin.server.connection.lookup fd = some (some agent))
      (connection : last.server.connection = origin.server.connection)
      (leaves : next = some (.toAgent agent .close)) : SocketEffect point origin next last
  | dropped (fd : ℕ) (event : point.event = .socketClose fd)
      (drops : origin.server.connection.lookup fd = some none ∨
        ∃ agent, point.place.finishes = some agent)
      (connection : last.server.connection = origin.server.connection.erase fd) (leaves : next = none) :
      SocketEffect point origin next last
  | begins (fd session token : ℕ) (message : Message) (event : point.event = .socketData fd message)
      (before : origin.server.connection.lookup fd = some none)
      (connection : last.server.connection = origin.server.connection)
      (leaves : next = some (.verify fd session token)) : SocketEffect point origin next last
  | forwarded (fd agent account : ℕ) (message : Message) (event : point.event = .socketData fd message)
      (place : point.place = .fromAgent agent (.open fd account)) (taken : origin.taken fd = some agent)
      (connection : last.server.connection = origin.server.connection.update fd fun _ ↦ some agent)
      (leaves : ∀ place ∈ next, place.isLogin = false ∧ place.closing = none) :
      SocketEffect point origin next last

/-- The end of a socket is not a login of it. -/
theorem not_inLogin_of_close {fd fd' : ℕ} {place : Place} (hevent : point.event = .socketClose fd) :
    ¬ Served.inLogin fd' ⟨point.event, place⟩ = true := by
  rw [Served.inLogin_iff, hevent]
  exact fun h ↦ nomatch h.1

/-- A message of a socket is not the end of it. -/
theorem not_closesFor_of_data {fd fd' agent : ℕ} {message : Message} {place : Place}
    (hevent : point.event = .socketData fd message) :
    ¬ Served.closesFor fd' agent ⟨point.event, place⟩ = true := by
  rw [Served.closesFor_iff, hevent]
  exact fun h ↦ nomatch h.1

/-- Where a coroutine goes on without another effect, it stays with its login. -/
theorem Flow.inLogin (h : Flow point origin heard next) (fd : ℕ) :
    ∀ place ∈ next, Served.inLogin fd ⟨point.event, place⟩ = true → point.inLogin fd = true := by
  intro place hplace hlogin
  obtain ⟨hdata, -⟩ := Served.inLogin_iff.mp hlogin
  have hclose : ∀ fd', point.event = .socketClose fd' → point.inLogin fd = true := fun fd' hevent ↦
    absurd hlogin (not_inLogin_of_close hevent)
  cases h with
  | refused | absent | loginDies | flushDies => exact nomatch hplace
  | other hevent =>
    cases hpoint : point.event with
    | socketData => exact nomatch hpoint ▸ hevent
    | _ => exact nomatch hpoint ▸ hdata
  | staged fd' _ hevent => exact hclose fd' hevent
  | notOpen fd' _ hevent => exact hclose fd' hevent
  | failed fd' _ _ hevent => exact hclose fd' hevent
  | finishing fd' _ hevent => exact hclose fd' hevent
  | login fd' message hevent hbefore => exact Served.inLogin_iff.mpr ⟨hdata, hbefore⟩

/-- Where a coroutine goes on without another effect, it stays with its `close_fd`. -/
theorem Flow.closesFor (h : Flow point origin heard next) (fd agent : ℕ) :
    ∀ place ∈ next, Served.closesFor fd agent ⟨point.event, place⟩ = true →
      point.closesFor fd agent = true := by
  intro place hplace hcloses
  obtain ⟨hcloseOf, hclosing⟩ := Served.closesFor_iff.mp hcloses
  have hsame : ∀ {agent' : ℕ}, point.place.closing = some agent' → place.closing = some agent' →
      point.closesFor fd agent = true := fun hbefore hafter ↦
    Served.closesFor_iff.mpr ⟨hcloseOf, (hbefore.trans hafter.symm).trans hclosing⟩
  cases h with
  | refused | absent | loginDies | flushDies => exact nomatch hplace
  | other hevent =>
    cases hpoint : point.event with
    | socketClose => exact nomatch hpoint ▸ hevent
    | _ => exact nomatch hpoint ▸ hcloseOf
  | staged fd' agent' hevent hbefore hstage =>
    obtain rfl := Option.some.inj hplace
    exact hsame (Place.closing_of_closes hbefore) (Place.closing_of_stage hstage)
  | notOpen fd' agent' hevent hbefore =>
    obtain rfl := Option.some.inj hplace
    exact hsame (hbefore ▸ rfl) rfl
  | failed fd' agent' userFd hevent hbefore =>
    obtain rfl := Option.some.inj hplace
    exact hsame (Place.closing_of_closes hbefore) rfl
  | finishing fd' agent' hevent hbefore _ hafter =>
    obtain rfl := Option.some.inj hplace
    exact hsame (Place.closing_of_finishes hbefore) (Place.closing_of_finishes hafter)
  | login fd' message hevent => exact absurd hcloses (not_closesFor_of_data hevent)

/-- Every section has one of these effects. -/
theorem Effect.sockets (h : Effect linked point origin heard next target) (hcalm : Calm target last) :
    SocketEffect point origin next last := by
  have hnone : next = none → target.server.connection = origin.server.connection →
      SocketEffect point origin next last := by
    rintro rfl hconnection
    exact .keeps (hcalm.connection.trans hconnection) (fun _ _ hplace ↦ nomatch hplace)
      fun _ _ _ hplace ↦ nomatch hplace
  have hclose : ∀ fd agent place, point.event = .socketClose fd → point.place.closing = some agent →
      place.closing = some agent → next = some place →
        target.server.connection = origin.server.connection → SocketEffect point origin next last := by
    intro fd agent place hevent hbefore hafter hnext hconnection
    subst hnext
    refine .keeps (hcalm.connection.trans hconnection)
      (fun _ _ _ hlogin ↦ absurd hlogin (not_inLogin_of_close hevent)) ?_
    rintro fd' agent' place' ⟨⟩ hcloses
    obtain ⟨hcloseOf, hclosing⟩ := Served.closesFor_iff.mp hcloses
    exact Served.closesFor_iff.mpr ⟨hcloseOf, (hbefore.trans hafter.symm).trans hclosing⟩
  have hlogin : ∀ fd message, point.event = .socketData fd message →
      (point.place.isLogin = true ∨ ∀ place ∈ next, place.isLogin = false) →
        target.server.connection = origin.server.connection → SocketEffect point origin next last := by
    intro fd message hevent hbefore hconnection
    refine .keeps (hcalm.connection.trans hconnection) (fun other place hplace hlogin ↦ ?_)
      fun other agent place _ hcloses ↦ absurd hcloses (not_closesFor_of_data hevent)
    obtain ⟨hdata, hafter⟩ := Served.inLogin_iff.mp hlogin
    refine Served.inLogin_iff.mpr ⟨hdata, hbefore.resolve_right fun hnever ↦ ?_⟩
    exact Bool.false_ne_true ((hnever place hplace).symm.trans hafter)
  cases h with
  | flow hflow => exact .keeps hcalm.connection hflow.inLogin hflow.closesFor
  | accepted fd hevent hstarts => exact .accepted fd hevent hstarts hcalm.connection rfl
  | calls fd agent hevent _ hconnection => exact .calls fd agent hevent hconnection hcalm.connection rfl
  | dropped fd hevent hdrops =>
    refine .dropped fd hevent ?_ hcalm.connection rfl
    rcases hdrops with ⟨-, hconnection⟩ | ⟨agent, hplace⟩
    · exact .inl hconnection
    · exact .inr ⟨agent, hplace ▸ rfl⟩
  | erased fd agent account hevent hcloses =>
    exact hclose fd agent _ hevent (Place.closing_of_closes hcloses) rfl rfl rfl
  | recycled fd agent account hevent hplace => exact hclose fd agent _ hevent (hplace ▸ rfl) rfl rfl rfl
  | lost | redirected | queued | noLogin | fails | flushed => exact hnone rfl rfl
  | begins fd session token message hevent _ hconnection =>
    exact .begins fd session token message hevent hconnection hcalm.connection rfl
  | assigned fd agent account message hevent hbefore => exact hlogin fd message hevent (.inl hbefore) rfl
  | opened fd agent account message hevent hplace =>
    exact hlogin fd message hevent (.inl (hplace ▸ rfl)) rfl
  | forwarded fd agent account message hevent hplace htaken hflush =>
    refine .forwarded fd agent account message hevent hplace htaken hcalm.connection fun place hnext ↦ ?_
    split at hflush
    · exact nomatch hflush.1.symm.trans hnext
    · exact nomatch hflush.1.symm.trans hnext
    · obtain rfl := Option.some.inj (hflush.1.symm.trans hnext)
      exact ⟨rfl, rfl⟩
  | flushes fd agent message first second hevent =>
    refine hlogin fd message hevent (.inr fun place hplace ↦ ?_) rfl
    obtain rfl := Option.some.inj hplace
    rfl

/-! ### The invariant -/

/-- A login of a socket is in progress. -/
def InLogin (fd : ℕ) (points : List Served) : Prop :=
  ∃ point ∈ points, point.inLogin fd = true

/-- `close_fd` of a socket waits for an agent. -/
def InClose (fd agent : ℕ) (points : List Served) : Prop :=
  ∃ point ∈ points, point.closesFor fd agent = true

/-- During a login the socket has no agent and no `close_fd` of it waits, and `close_fd` waits for the
agent of the connection, which may have gone. -/
structure Apart (whole : Watched) (points : List Served) : Prop where
  login : ∀ fd, InLogin fd points → ∀ agent, whole.server.connection.lookup fd ≠ some (some agent)
  close : ∀ fd agent, InClose fd agent points →
    whole.server.connection.lookup fd = none ∨ whole.server.connection.lookup fd = some (some agent)
  apart : ∀ fd agent, InLogin fd points → ¬ InClose fd agent points

theorem apart_opened (pool : List ℕ) (maxclient : ℤ) :
    Apart (watchedOpened pool maxclient).state [] where
  login _ hlogin := absurd hlogin.choose_spec.1 List.not_mem_nil
  close _ _ hclose := absurd hclose.choose_spec.1 List.not_mem_nil
  apart _ _ hlogin := absurd hlogin.choose_spec.1 List.not_mem_nil

/-- No connection and no coroutine uses the number of a socket. -/
def Unused (points : List Served) (fd : ℕ) (server : Server) : Prop :=
  fd ∉ server.connection.keys ∧ ∀ point ∈ points, point.logsIn fd = false ∧ point.closes fd = false

instance (points : List Served) (fd : ℕ) (server : Server) : Decidable (Unused points fd server) :=
  inferInstanceAs (Decidable (_ ∧ _))

/-- The coroutines after a section are the others and the one that goes on. -/
theorem mem_step {other : Served} :
    other ∈ before ++ (next.map (Served.mk point.event)).toList ++ after ↔
      other ∈ before ++ after ∨ ∃ place ∈ next, other = ⟨point.event, place⟩ := by
  cases next with
  | none => simp
  | some place =>
    simp only [Option.map_some, Option.toList_some, List.mem_append, List.mem_singleton,
      Option.mem_some_iff, exists_eq_left', or_right_comm]


theorem mem_others {other : Served} (hother : other ∈ before ++ after) :
    other ∈ before ++ point :: after := by
  rw [List.mem_append, List.mem_cons]
  exact (List.mem_append.mp hother).imp_right .inr

theorem mem_self : point ∈ before ++ point :: after :=
  List.mem_append_right before List.mem_cons_self

/-- A kind of coroutines that a section does not add to. -/
theorem exists_of_step {kind : Served → Bool}
    (hkind : ∀ place ∈ next, kind ⟨point.event, place⟩ = true → kind point = true)
    (h : ∃ other ∈ before ++ (next.map (Served.mk point.event)).toList ++ after, kind other = true) :
    ∃ other ∈ before ++ point :: after, kind other = true := by
  obtain ⟨other, hmem, hother⟩ := h
  rcases mem_step.mp hmem with hold | ⟨place, hplace, rfl⟩
  · exact ⟨other, mem_others hold, hother⟩
  · exact ⟨point, mem_self, hkind place hplace hother⟩

theorem not_mem_of_eq_none {place : Place} (hnext : next = none) : place ∉ next := by
  rw [hnext]
  exact Option.not_mem_none place

/-- A socket is opened. -/
theorem Apart.accepted (h : Apart origin (before ++ point :: after)) {fd : ℕ}
    (hunused : Unused (before ++ point :: after) fd origin.server)
    (hconnection : last.server.connection = origin.server.connection.insert fd none)
    (hnext : next = none) :
    Apart last (before ++ (next.map (Served.mk point.event)).toList ++ after) := by
  have hlogin : ∀ other, InLogin other (before ++ (next.map (Served.mk point.event)).toList ++ after) →
      InLogin other (before ++ point :: after) := fun other ↦
    exists_of_step fun _ hplace ↦ absurd hplace (not_mem_of_eq_none hnext)
  have hclose : ∀ other agent,
      InClose other agent (before ++ (next.map (Served.mk point.event)).toList ++ after) →
        InClose other agent (before ++ point :: after) := fun other agent ↦
    exists_of_step fun _ hplace ↦ absurd hplace (not_mem_of_eq_none hnext)
  refine ⟨fun other hin ↦ ?_, fun other agent hin ↦ ?_, fun other agent hin hin' ↦ ?_⟩
  · rw [hconnection, Table.lookup_insert_eq]
    split
    · exact fun agent hsome ↦ nomatch Option.some.inj hsome
    · exact h.login other (hlogin other hin)
  · rw [hconnection, Table.lookup_insert_eq]
    split
    · rename_i hsame
      obtain ⟨closing, hmem, hclosing⟩ := hclose other agent hin
      have hidle := (hunused.2 closing hmem).2
      rw [← hsame, Served.closes_of_closesFor hclosing] at hidle
      exact nomatch hidle
    · exact h.close other agent (hclose other agent hin)
  · exact h.apart other agent (hlogin other hin) (hclose other agent hin')

/-- A connection is forwarded to the agent of the login. -/
theorem Apart.forwarded (h : Apart origin (before ++ point :: after))
    (hone : OneLogin origin (before ++ point :: after)) {fd agent : ℕ} (hpoint : point.inLogin fd = true)
    (hconnection : last.server.connection = origin.server.connection.update fd fun _ ↦ some agent)
    (hleaves : ∀ place ∈ next, place.isLogin = false ∧ place.closing = none) :
    Apart last (before ++ (next.map (Served.mk point.event)).toList ++ after) := by
  have hlogin : ∀ other, InLogin other (before ++ (next.map (Served.mk point.event)).toList ++ after) →
      InLogin other (before ++ point :: after) ∧ other ≠ fd := by
    rintro other ⟨login, hmem, hlogin⟩
    rcases mem_step.mp hmem with hold | ⟨place, hplace, rfl⟩
    · refine ⟨⟨login, mem_others hold, hlogin⟩, fun hsame ↦ ?_⟩
      -- the login that ends is the only one of its socket
      subst hsame
      have htwo := countP_others point hold (Served.logsIn_of_inLogin hlogin)
      have halone := hone.alone other
      rw [List.countP_singleton, if_pos (Served.logsIn_of_inLogin hpoint)] at htwo
      omega
    · have hafter := (Served.inLogin_iff.mp hlogin).2
      rw [(hleaves place hplace).1] at hafter
      exact nomatch hafter
  have hclose : ∀ other agent',
      InClose other agent' (before ++ (next.map (Served.mk point.event)).toList ++ after) →
        InClose other agent' (before ++ point :: after) := by
    rintro other agent' ⟨closing, hmem, hclosing⟩
    rcases mem_step.mp hmem with hold | ⟨place, hplace, rfl⟩
    · exact ⟨closing, mem_others hold, hclosing⟩
    · have hafter := (Served.closesFor_iff.mp hclosing).2
      rw [(hleaves place hplace).2] at hafter
      exact nomatch hafter
  refine ⟨fun other hin ↦ ?_, fun other agent' hin ↦ ?_, fun other agent' hin hin' ↦ ?_⟩
  · rw [hconnection, Table.lookup_update_of_ne _ (hlogin other hin).2]
    exact h.login other (hlogin other hin).1
  · have hother : other ≠ fd := by
      rintro rfl
      exact h.apart other agent' ⟨point, mem_self, hpoint⟩ (hclose other agent' hin)
    rw [hconnection, Table.lookup_update_of_ne _ hother]
    exact h.close other agent' (hclose other agent' hin)
  · exact h.apart other agent' (hlogin other hin).1 (hclose other agent' hin')

/-- Every section keeps the invariant when the sockets are opened under unused numbers. -/
theorem Apart.step (h : Apart origin (before ++ point :: after))
    (hone : OneLogin origin (before ++ point :: after))
    (hopen : ∀ fd, point.event = .socketOpen fd → point.place = .event point.event →
      Unused (before ++ point :: after) fd origin.server)
    (heffect : SocketEffect point origin next last) :
    Apart last (before ++ (next.map (Served.mk point.event)).toList ++ after) := by
  cases heffect with
  | keeps hconnection hlogins hcloses =>
    refine ⟨fun fd hin ↦ ?_, fun fd agent hin ↦ ?_, fun fd agent hin hin' ↦ ?_⟩
    · rw [hconnection]
      exact h.login fd (exists_of_step (hlogins fd) hin)
    · rw [hconnection]
      exact h.close fd agent (exists_of_step (hcloses fd agent) hin)
    · exact h.apart fd agent (exists_of_step (hlogins fd) hin) (exists_of_step (hcloses fd agent) hin')
  | accepted fd hevent hstarts hconnection hnext =>
    exact h.accepted (hopen fd hevent hstarts) hconnection hnext
  | calls fd agent hevent hbefore hconnection hnext =>
    have hlogin : ∀ other, InLogin other (before ++ (next.map (Served.mk point.event)).toList ++ after) →
        InLogin other (before ++ point :: after) := fun other ↦
      exists_of_step fun _ _ hin ↦ absurd hin (not_inLogin_of_close hevent)
    have hclose : ∀ other agent',
        InClose other agent' (before ++ (next.map (Served.mk point.event)).toList ++ after) →
          InClose other agent' (before ++ point :: after) ∨ other = fd ∧ agent' = agent := by
      rintro other agent' ⟨closing, hmem, hclosing⟩
      rcases mem_step.mp hmem with hold | ⟨place, hplace, rfl⟩
      · exact .inl ⟨closing, mem_others hold, hclosing⟩
      · obtain ⟨hcloseOf, hfor⟩ := Served.closesFor_iff.mp hclosing
        obtain rfl := Option.some.inj (hnext.symm.trans hplace)
        rw [hevent] at hcloseOf
        exact .inr ⟨(Option.some.inj hcloseOf).symm, (Option.some.inj hfor).symm⟩
    refine ⟨fun other hin ↦ ?_, fun other agent' hin ↦ ?_, fun other agent' hin hin' ↦ ?_⟩
    · rw [hconnection]
      exact h.login other (hlogin other hin)
    · rw [hconnection]
      rcases hclose other agent' hin with hold | ⟨rfl, rfl⟩
      · exact h.close other agent' hold
      · exact .inr hbefore
    · rcases hclose other agent' hin' with hold | ⟨rfl, rfl⟩
      · exact h.apart other agent' (hlogin other hin) hold
      · exact h.login other (hlogin other hin) agent' hbefore
  | dropped fd hevent hdrops hconnection hnext =>
    have hlogin : ∀ other, InLogin other (before ++ (next.map (Served.mk point.event)).toList ++ after) →
        InLogin other (before ++ point :: after) := fun other ↦
      exists_of_step fun _ hplace ↦ absurd hplace (not_mem_of_eq_none hnext)
    have hclose : ∀ other agent,
        InClose other agent (before ++ (next.map (Served.mk point.event)).toList ++ after) →
          InClose other agent (before ++ point :: after) := fun other agent ↦
      exists_of_step fun _ hplace ↦ absurd hplace (not_mem_of_eq_none hnext)
    refine ⟨fun other hin ↦ ?_, fun other agent hin ↦ ?_, fun other agent hin hin' ↦ ?_⟩
    · rw [hconnection, Table.lookup_erase_eq]
      split
      · exact fun agent hsome ↦ nomatch hsome
      · exact h.login other (hlogin other hin)
    · rw [hconnection, Table.lookup_erase_eq]
      split
      · exact .inl rfl
      · exact h.close other agent (hclose other agent hin)
    · exact h.apart other agent (hlogin other hin) (hclose other agent hin')
  | begins fd session token message hevent hbefore hconnection hnext =>
    have hclose : ∀ other agent,
        InClose other agent (before ++ (next.map (Served.mk point.event)).toList ++ after) →
          InClose other agent (before ++ point :: after) := fun other agent ↦
      exists_of_step fun _ _ hin ↦ absurd hin (not_closesFor_of_data hevent)
    have hlogin : ∀ other, InLogin other (before ++ (next.map (Served.mk point.event)).toList ++ after) →
        InLogin other (before ++ point :: after) ∨ other = fd := by
      rintro other ⟨login, hmem, hlogin⟩
      rcases mem_step.mp hmem with hold | ⟨place, hplace, rfl⟩
      · exact .inl ⟨login, mem_others hold, hlogin⟩
      · have hdata := (Served.inLogin_iff.mp hlogin).1
        rw [hevent] at hdata
        exact .inr (Option.some.inj hdata).symm
    refine ⟨fun other hin ↦ ?_, fun other agent hin ↦ ?_, fun other agent hin hin' ↦ ?_⟩
    · rw [hconnection]
      rcases hlogin other hin with hold | rfl
      · exact h.login other hold
      · rw [hbefore]
        exact fun agent hsome ↦ nomatch Option.some.inj hsome
    · rw [hconnection]
      exact h.close other agent (hclose other agent hin)
    · rcases hlogin other hin with hold | rfl
      · exact h.apart other agent hold (hclose other agent hin')
      · have hagent := h.close other agent (hclose other agent hin')
        rw [hbefore] at hagent
        exact nomatch hagent.resolve_left (Option.some_ne_none _)
  | forwarded fd agent account message hevent hplace htaken hconnection hleaves =>
    refine h.forwarded hone (Served.inLogin_iff.mpr ⟨?_, ?_⟩) hconnection hleaves
    · rw [hevent]
      rfl
    · rw [hplace]
      rfl

/-! ### Events that arrive -/

/-- A kind of coroutines that an event which arrives does not belong to. -/
theorem exists_of_arrive {kind : Served → Prop} {points : List Served} (hpoint : ¬ kind point)
    (h : ∃ other ∈ points ++ [point], kind other) : ∃ other ∈ points, kind other := by
  obtain ⟨other, hmem, hother⟩ := h
  rcases List.mem_append.mp hmem with hold | hnew
  · exact ⟨other, hold, hother⟩
  · exact absurd (List.mem_singleton.mp hnew ▸ hother) hpoint

theorem not_inLogin_of_starts (hstarts : point.place = .event point.event) (fd : ℕ) :
    ¬ point.inLogin fd = true := by
  intro hlogin
  have hplace := (Served.inLogin_iff.mp hlogin).2
  rw [hstarts] at hplace
  exact nomatch hplace

theorem not_closesFor_of_starts (hstarts : point.place = .event point.event) (fd agent : ℕ) :
    ¬ point.closesFor fd agent = true := by
  intro hcloses
  have hplace := (Served.closesFor_iff.mp hcloses).2
  rw [hstarts] at hplace
  exact nomatch hplace

/-- An event that arrives is neither a login in progress nor a `close_fd` that waits. -/
theorem Apart.arrive {whole : Watched} {points : List Served} (h : Apart whole points)
    (hstarts : point.place = .event point.event) : Apart whole (points ++ [point]) :=
  ⟨fun fd hlogin ↦ h.login fd (exists_of_arrive (not_inLogin_of_starts hstarts fd) hlogin),
    fun fd agent hclose ↦ h.close fd agent
      (exists_of_arrive (not_closesFor_of_starts hstarts fd agent) hclose),
    fun fd agent hlogin hclose ↦ h.apart fd agent
      (exists_of_arrive (not_inLogin_of_starts hstarts fd) hlogin)
      (exists_of_arrive (not_closesFor_of_starts hstarts fd agent) hclose)⟩

end SvrDemo.Gamed
