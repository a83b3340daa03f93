import SvrDemo.Login.Master

/-!
# The ids of the login sessions

What one section of a call does is a `MasterSection`. `save_session` reads its id back from a name that
every later `save_session` overwrites, so the id it returns is its own as long as no other
`save_session` is taken up while it waits. In the runs with this property every call returns the id of
what it has stored, no id is returned twice, and a session is looked for at the slave that has stored
it. When two calls overlap, the first returns the id of the second.
-/

set_option autoImplicit false
set_option relaxedAutoImplicit false

namespace SvrDemo.Login

open Coroutine Skynet

variable {Account Key Secret Text : Type}

/-- A call of `save_session`. -/
def Request.isSave : Request Account Key Secret Text → Bool
  | .saveSession _ _ _ => true
  | _ => false

/-- A call of `save_session` before its first turn. -/
def LoginPoint.startsSave (point : LoginPoint Account Key Secret Text) : Bool :=
  point.request.isSave && point.stage = .start

/-- A call of `save_session` that waits for its slave. -/
def LoginPoint.saving (point : LoginPoint Account Key Secret Text) : Bool :=
  point.request.isSave && point.stage ≠ .start

/-- What one section of a call does: from the state at its start, the calls it leaves waiting and the
state at its end. -/
inductive MasterSection : LoginPoint Account Key Secret Text → Master Account Key Text →
    List (LoginPoint Account Key Secret Text) → Master Account Key Text → Prop
  | unserved {account : Account} {key : Key} {text : Text} {origin : Master Account Key Text} :
      MasterSection ⟨.saveSession account key text, .start⟩ origin [] origin.nextSession
  | sent {account : Account} {key : Key} {text : Text} {origin : Master Account Key Text}
      {slave : ℕ} (served : origin.slaveOf origin.sessionId = some slave) :
      MasterSection ⟨.saveSession account key text, .start⟩ origin
        [⟨.saveSession account key text, .request slave origin.sessionId⟩]
        { origin.nextSession with s := some slave }
  | stored {account : Account} {key : Key} {text : Text} {origin : Master Account Key Text}
      {slave session : ℕ} (slaves : ℕ → Slave Account Key Text) :
      MasterSection ⟨.saveSession account key text, .request slave session⟩ origin
        [⟨.saveSession account key text, .reply slave session⟩]
        { origin with
          slaves := slaves
          stored := origin.stored ++ [⟨slave, session, account, key, text⟩] }
  | answered {account : Account} {key : Key} {text : Text} {origin : Master Account Key Text}
      {slave session : ℕ} :
      MasterSection ⟨.saveSession account key text, .reply slave session⟩ origin []
        { origin with
          answered := origin.answered ++ [⟨⟨slave, session, account, key, text⟩, origin.session⟩] }
  | other {point : LoginPoint Account Key Secret Text} {origin : Master Account Key Text}
      {left : List (LoginPoint Account Key Secret Text)} (s : Option ℕ)
      (slaves : ℕ → Slave Account Key Text) (asked : List (ℕ × ℕ))
      (request : point.request.isSave = false) (leaves : ∀ other ∈ left, other.request = point.request)
      (routed : ∀ slave session, (slave, session) ∈ asked →
        (slave, session) ∈ origin.asked ∨ origin.slaveOf session = some slave) :
      MasterSection point origin left { origin with s := s, slaves := slaves, asked := asked }

/-- The contract of a call: its sections are as described, whatever happens in between. -/
def masterContract : Contract (login Text) (LoginPoint Account Key Secret Text)
    (Master Account Key Text) where
  rely := fun _ _ _ ↦ True
  guar := fun point origin _ left last ↦ MasterSection point origin left last
  pre := fun point _ ↦ point.stage = .start
  err := fun _ ↦ True

/-- A routed call: the request goes to the slave of the session. -/
theorem MasterSection.routes {request : Request Account Key Secret Text}
    {origin : Master Account Key Text} {slave session : ℕ} (s : Option ℕ)
    (hrequest : request.isSave = false) (hslave : origin.slaveOf session = some slave) :
    MasterSection ⟨request, .start⟩ origin [⟨request, .request slave session⟩]
      { origin with s := s, asked := origin.asked ++ [(slave, session)] } := by
  refine .other s origin.slaves _ hrequest (by simp) fun other id hmem ↦ ?_
  rcases List.mem_append.mp hmem with hold | hnew
  · exact .inl hold
  · obtain ⟨rfl, rfl⟩ := Prod.mk.inj (List.mem_singleton.mp hnew)
    exact .inr hslave

/-- A section of another call than `save_session` that touches at most the slaves. -/
theorem MasterSection.slaves {point : LoginPoint Account Key Secret Text}
    {origin : Master Account Key Text} {left : List (LoginPoint Account Key Secret Text)}
    (slaves : ℕ → Slave Account Key Text) (hrequest : point.request.isSave = false)
    (hleft : ∀ other ∈ left, other.request = point.request) :
    MasterSection point origin left { origin with slaves := slaves } :=
  .other origin.s slaves origin.asked hrequest hleft fun _ _ h ↦ .inl h

/-! ### The programs keep the contract -/

section Programs

variable {K : Contract (login Text) (LoginPoint Account Key Secret Text) (Master Account Key Text)}
  {raised : LuaError → Section (login Text) (LoginPoint Account Key Secret Text)
    (Master Account Key Text) → Master Account Key Text → Prop}
  {current : Section (login Text) (LoginPoint Account Key Secret Text) (Master Account Key Text)}
  {master : Master Account Key Text} {session : ℕ}

theorem wp_chooseSlave {post : ℕ → Section (login Text) (LoginPoint Account Key Secret Text)
    (Master Account Key Text) → Master Account Key Text → Prop}
    (hsome : ∀ slave, master.slaveOf session = some slave → post slave current master)
    (hnone : raised .moduloByZero current master) :
    (chooseSlave session : LoginTask Account Key Secret Text ℕ).wp K post raised current master := by
  rw [chooseSlave, Program.wp_bind, Program.wp_getState]
  cases hslave : master.slaveOf session with
  | none => exact hnone
  | some slave => exact hsome slave hslave

theorem wp_srpRandom {post : Option Text → Section (login Text) (LoginPoint Account Key Secret Text)
    (Master Account Key Text) → Master Account Key Text → Prop}
    (h : ∀ value heard, post value { current with heard := heard } master) :
    (srpRandom : LoginTask Account Key Secret Text (Option Text)).wp K post raised current
      master := by
  rw [srpRandom, Program.wp_bind, Program.wp_query]
  intro answer _
  cases answer with
  | text value => exact h (some value) _
  | ok => exact h none _

/-- A call of a slave: the request travels, the slave runs, and the reply travels. -/
theorem wp_callSlave {request : Request Account Key Secret Text} {slave : ℕ}
    {body : LoginTask Account Key Secret Text Unit}
    {post : Unit → Section (login Text) (LoginPoint Account Key Secret Text)
      (Master Account Key Text) → Master Account Key Text → Prop} :
    (callSlave request slave session body).wp K post raised current master ↔
      K.Ends current (current.forks ++ [⟨request, .request slave session⟩]) master ∧
        ∀ reply later, K.rely ⟨request, .request slave session⟩ master later →
          body.wp K (fun _ current state ↦
            K.Ends current (current.forks ++ [⟨request, .reply slave session⟩]) state ∧
              ∀ reply last, K.rely ⟨request, .reply slave session⟩ state last →
                post () ⟨⟨request, .reply slave session⟩, last, [reply], []⟩ last) raised
            ⟨⟨request, .request slave session⟩, later, [reply], []⟩ later := by
  refine and_congr_right fun _ ↦ forall_congr' fun reply ↦ forall_congr' fun later ↦ ?_
  exact imp_congr_right fun _ ↦ Program.wp_bind body _ post raised _ later

/-- A slave that has changed at most its own state sends its reply. -/
theorem keeps_reply {request : Request Account Key Secret Text} {slave : ℕ}
    {origin last : Master Account Key Text} {heard : List (LoginAnswer Text)}
    (hrequest : request.isSave = false) (hlast : ∃ slaves, last = { origin with slaves := slaves }) :
    masterContract.Ends ⟨⟨request, .request slave session⟩, origin, heard, []⟩
        [⟨request, .reply slave session⟩] last ∧
      ∀ (reply : LoginAnswer Text) (later : Master Account Key Text),
        masterContract.rely ⟨request, .reply slave session⟩ last later →
          masterContract.done () ⟨⟨request, .reply slave session⟩, later, [reply], []⟩ later := by
  obtain ⟨slaves, rfl⟩ := hlast
  exact ⟨⟨.slaves slaves hrequest (by simp), fun _ h ↦ nomatch h⟩, fun reply later _ ↦
    ⟨.slaves later.slaves hrequest (by simp), fun _ h ↦ nomatch h⟩⟩

variable [DecidableEq Key] [DecidableEq Text] (decrypt : Secret → Key → Option Text)

/-- An event at a slave changes the slaves only. -/
theorem handleAt_eq (slave : ℕ) (event : Event Account Key Secret Text)
    (master : Master Account Key Text) : ∃ slaves,
      Master.handleAt decrypt slave event master = { master with slaves := slaves } := by
  unfold Master.handleAt
  split
  · exact ⟨_, rfl⟩
  · exact ⟨master.slaves, rfl⟩

theorem store_eq (record : Stored Account Key Text) (master : Master Account Key Text) : ∃ slaves,
    Master.store decrypt record master =
      { master with slaves := slaves, stored := master.stored ++ [record] } := by
  obtain ⟨slaves, hslaves⟩ := handleAt_eq decrypt record.slave
    (.save record.session record.account record.key record.challenge) master
  exact ⟨slaves, by rw [Master.store, hslaves]⟩

theorem keeps_saveSession {account : Account} {key : Key} {text : Text}
    {heard : List (LoginAnswer Text)} {origin : Master Account Key Text} :
    masterContract.Keeps (saveSession decrypt account key text)
      ⟨⟨.saveSession account key text, .start⟩, origin, heard, []⟩ origin := by
  rw [Contract.Keeps, saveSession, Program.wp_bind, Program.wp_getState, Program.wp_bind,
    Program.wp_modifyState, Program.wp_bind]
  refine wp_chooseSlave (fun slave hslave ↦ ?_) ⟨trivial, .unserved, fun _ h ↦ nomatch h⟩
  rw [Program.wp_bind, Program.wp_modifyState, Program.wp_bind, wp_callSlave]
  refine ⟨⟨.sent hslave, fun _ h ↦ nomatch h⟩, fun reply later _ ↦ ?_⟩
  obtain ⟨slaves, hslaves⟩ := store_eq decrypt ⟨slave, origin.sessionId, account, key, text⟩ later
  rw [Program.wp_modifyState, hslaves]
  exact ⟨⟨.stored slaves, fun _ h ↦ nomatch h⟩, fun reply last _ ↦
    ⟨.answered, fun _ h ↦ nomatch h⟩⟩

theorem keeps_challenge {session : ℕ} {secret : Secret} {heard : List (LoginAnswer Text)}
    {origin : Master Account Key Text} :
    masterContract.Keeps (challenge decrypt session secret)
      ⟨⟨.challenge session secret, .start⟩, origin, heard, []⟩ origin := by
  rw [Contract.Keeps, challenge, Program.wp_bind]
  refine wp_chooseSlave (fun slave hslave ↦ ?_)
    ⟨trivial, .slaves origin.slaves rfl (by simp), fun _ h ↦ nomatch h⟩
  rw [Program.wp_bind, Program.wp_modifyState, wp_callSlave]
  refine ⟨⟨.routes _ rfl hslave, fun _ h ↦ nomatch h⟩, fun reply later _ ↦ ?_⟩
  rw [Program.wp_bind]
  refine wp_srpRandom fun token _ ↦ ?_
  rw [Program.wp_bind]
  refine wp_srpRandom fun next _ ↦ ?_
  split
  · exact keeps_reply rfl (handleAt_eq decrypt slave _ later)
  · exact keeps_reply rfl ⟨later.slaves, rfl⟩

theorem keeps_verify {session : ℕ} {token : Secret} {heard : List (LoginAnswer Text)}
    {origin : Master Account Key Text} :
    masterContract.Keeps (verify decrypt session token)
      ⟨⟨.verify session token, .start⟩, origin, heard, []⟩ origin := by
  rw [Contract.Keeps, verify, Program.wp_bind]
  refine wp_chooseSlave (fun slave hslave ↦ ?_)
    ⟨trivial, .slaves origin.slaves rfl (by simp), fun _ h ↦ nomatch h⟩
  rw [Program.wp_bind, Program.wp_modifyState, wp_callSlave]
  refine ⟨⟨.routes origin.s rfl hslave, fun _ h ↦ nomatch h⟩, fun reply later _ ↦ ?_⟩
  exact keeps_reply rfl (handleAt_eq decrypt slave _ later)

/-- Every call keeps the contract. -/
theorem keeps_dispatch {request : Request Account Key Secret Text} {heard : List (LoginAnswer Text)}
    {origin : Master Account Key Text} :
    masterContract.Keeps (dispatch decrypt request) ⟨⟨request, .start⟩, origin, heard, []⟩
      origin := by
  cases request with
  | saveSession account key text => exact keeps_saveSession decrypt
  | challenge session secret => exact keeps_challenge decrypt
  | verify session token => exact keeps_verify decrypt
  | expire slave session key =>
    obtain ⟨slaves, hslaves⟩ := handleAt_eq decrypt slave (.expire session key) origin
    rw [Contract.Keeps, dispatch, Program.wp_modifyState, hslaves]
    exact ⟨.slaves slaves rfl (by simp), fun _ h ↦ nomatch h⟩

end Programs

/-! ### The invariant -/

/-- A call of `save_session` waits for its slave with this session. -/
def LoginPoint.SavingAt (point : LoginPoint Account Key Secret Text) (slave session : ℕ) : Prop :=
  point.request.isSave = true ∧
    (point.stage = .request slave session ∨ point.stage = .reply slave session)

/-- At most one call of `save_session` waits for its slave, and then the name `session` holds its id.
The ids that have been returned are those of what the calls have stored, and they differ. -/
structure MasterInvariant (slave : List ℕ) (master : Master Account Key Text)
    (points : List (LoginPoint Account Key Secret Text)) : Prop where
  slaves : master.slave = slave
  single : (points.filter LoginPoint.saving).length ≤ 1
  current : ∀ point ∈ points, ∀ slave session, point.SavingAt slave session →
    master.session = some session ∧ session < master.sessionId ∧
      master.slaveOf session = some slave ∧
        ∀ answered ∈ master.answered, answered.stored.session ≠ session
  arrived : ∀ point ∈ points, ∀ account key text slave session,
    point = ⟨.saveSession account key text, .reply slave session⟩ →
      ⟨slave, session, account, key, text⟩ ∈ master.stored
  returned : ∀ answered ∈ master.answered, answered.returned = some answered.stored.session ∧
    answered.stored ∈ master.stored ∧ answered.stored.session < master.sessionId
  distinct : (master.answered.map fun answered ↦ answered.stored.session).Nodup
  stored : ∀ stored ∈ master.stored, master.slaveOf stored.session = some stored.slave
  asked : ∀ slave session, (slave, session) ∈ master.asked → master.slaveOf session = some slave

/-- No call of `save_session` is taken up while another one waits for its slave. -/
def TakesTurns (configuration : Configuration (login Text) (LoginPoint Account Key Secret Text)
    (Master Account Key Text)) : Move (login Text) (LoginPoint Account Key Secret Text) → Prop
  | .arrive _ => True
  | .resume index _ _ => (configuration.points[index]?).any LoginPoint.startsSave = true →
      ∀ point ∈ configuration.points, point.saving = false

instance (configuration : Configuration (login Text) (LoginPoint Account Key Secret Text)
    (Master Account Key Text)) (move : Move (login Text) (LoginPoint Account Key Secret Text)) :
    Decidable (TakesTurns configuration move) :=
  match move with
  | .arrive _ => isTrue trivial
  | .resume _ _ _ => inferInstanceAs (Decidable (_ → _))

theorem LoginPoint.SavingAt.saving {point : LoginPoint Account Key Secret Text} {slave session : ℕ}
    (h : point.SavingAt slave session) : point.saving = true := by
  obtain ⟨hrequest, hstage⟩ := h
  rcases hstage with hstage | hstage <;> simp [LoginPoint.saving, hrequest, hstage]

/-- The invariant does not depend on the order of the calls. -/
theorem MasterInvariant.perm {slaves : List ℕ} {master : Master Account Key Text}
    {points points' : List (LoginPoint Account Key Secret Text)}
    (h : MasterInvariant slaves master points) (hperm : points.Perm points') :
    MasterInvariant slaves master points' where
  slaves := h.slaves
  single := by
    rw [← (hperm.filter LoginPoint.saving).length_eq]
    exact h.single
  current := fun point hpoint ↦ h.current point (hperm.mem_iff.mpr hpoint)
  arrived := fun point hpoint ↦ h.arrived point (hperm.mem_iff.mpr hpoint)
  returned := h.returned
  distinct := h.distinct
  stored := h.stored
  asked := h.asked

section Step

variable {slaves : List ℕ} {origin last : Master Account Key Text}
  {others left : List (LoginPoint Account Key Secret Text)}
  {point : LoginPoint Account Key Secret Text}

/-- The state stays, and one call more or less that does not wait in `save_session` does not count. -/
theorem MasterInvariant.of_idle {points : List (LoginPoint Account Key Secret Text)}
    (h : MasterInvariant slaves origin points)
    (hpoints : ∀ other ∈ left, other.saving = true → other ∈ points)
    (hsingle : (left.filter LoginPoint.saving).length ≤ (points.filter LoginPoint.saving).length) :
    MasterInvariant slaves origin left where
  slaves := h.slaves
  single := hsingle.trans h.single
  current := fun other hother slave session hsaving ↦
    h.current other (hpoints other hother hsaving.saving) slave session hsaving
  arrived := by
    rintro other hother account key text slave session rfl
    exact h.arrived _ (hpoints _ hother (by simp [LoginPoint.saving, Request.isSave])) account key
      text slave session rfl
  returned := h.returned
  distinct := h.distinct
  stored := h.stored
  asked := h.asked

/-- A new id, while no call waits in `save_session`. -/
theorem MasterInvariant.nextSession (h : MasterInvariant slaves origin others)
    (hidle : ∀ other ∈ others, other.saving = false) :
    MasterInvariant slaves origin.nextSession others where
  slaves := h.slaves
  single := h.single
  current := fun other hother _ _ hsaving ↦ nomatch (hidle other hother).symm.trans hsaving.saving
  arrived := h.arrived
  returned := fun answered hanswered ↦
    have hold := h.returned answered hanswered
    ⟨hold.1, hold.2.1, Nat.lt_succ_of_lt hold.2.2⟩
  distinct := h.distinct
  stored := h.stored
  asked := h.asked

/-- A call of `save_session` gets its id and goes to its slave. -/
theorem MasterInvariant.sent {account : Account} {key : Key} {text : Text} {slave : ℕ}
    (h : MasterInvariant slaves origin others) (hidle : ∀ other ∈ others, other.saving = false)
    (hserved : origin.slaveOf origin.sessionId = some slave) :
    MasterInvariant slaves { origin.nextSession with s := some slave }
      (⟨.saveSession account key text, .request slave origin.sessionId⟩ :: others) where
  slaves := h.slaves
  single := by
    have hnone : others.filter LoginPoint.saving = [] :=
      List.filter_eq_nil_iff.mpr fun other hother ↦ by simp [hidle other hother]
    rw [List.filter_cons_of_pos (by simp [LoginPoint.saving, Request.isSave]), hnone]
    exact le_rfl
  current := by
    intro other hother slave' session hsaving
    rcases List.mem_cons.mp hother with rfl | hold
    · obtain ⟨-, hstage | hstage⟩ := hsaving
      · obtain ⟨rfl, rfl⟩ := Stage.request.inj hstage
        exact ⟨rfl, Nat.lt_succ_self _, hserved, fun answered hanswered ↦
          (h.returned answered hanswered).2.2.ne⟩
      · cases hstage
    · exact nomatch (hidle other hold).symm.trans hsaving.saving
  arrived := by
    intro other hother account' key' text' slave' session hpoint
    rcases List.mem_cons.mp hother with rfl | hold
    · cases hpoint
    · exact h.arrived other hold account' key' text' slave' session hpoint
  returned := (h.nextSession hidle).returned
  distinct := h.distinct
  stored := h.stored
  asked := h.asked

/-- The slave stores the session and replies. -/
theorem MasterInvariant.store {account : Account} {key : Key} {text : Text} {slave session : ℕ}
    (newSlaves : ℕ → Slave Account Key Text) (h : MasterInvariant slaves origin
      (⟨.saveSession account key text, .request slave session⟩ :: others)) :
    MasterInvariant slaves { origin with
        slaves := newSlaves
        stored := origin.stored ++ [⟨slave, session, account, key, text⟩] }
      (⟨.saveSession account key text, .reply slave session⟩ :: others) := by
  have hself := h.current _ List.mem_cons_self slave session ⟨rfl, .inl rfl⟩
  refine ⟨h.slaves, ?_, ?_, ?_, ?_, h.distinct, ?_, h.asked⟩
  · have hsingle := h.single
    rw [List.filter_cons_of_pos (by simp [LoginPoint.saving, Request.isSave])] at hsingle ⊢
    exact hsingle
  · intro other hother slave' session' hsaving
    rcases List.mem_cons.mp hother with rfl | hold
    · obtain ⟨-, hstage | hstage⟩ := hsaving
      · cases hstage
      · obtain ⟨rfl, rfl⟩ := Stage.reply.inj hstage
        exact hself
    · exact h.current other (List.mem_cons_of_mem _ hold) slave' session' hsaving
  · intro other hother account' key' text' slave' session' hpoint
    rcases List.mem_cons.mp hother with rfl | hold
    · cases hpoint
      exact List.mem_append_right _ (List.mem_singleton_self _)
    · exact List.mem_append_left _ (h.arrived other (List.mem_cons_of_mem _ hold) account' key' text'
        slave' session' hpoint)
  · intro answered hanswered
    obtain ⟨hreturned, hstored, hlt⟩ := h.returned answered hanswered
    exact ⟨hreturned, List.mem_append_left _ hstored, hlt⟩
  · intro stored hstored
    rcases List.mem_append.mp hstored with hold | hnew
    · exact h.stored stored hold
    · obtain rfl := List.mem_singleton.mp hnew
      exact hself.2.2.1

/-- The call returns the name `session`, which holds its id. -/
theorem MasterInvariant.answer {account : Account} {key : Key} {text : Text} {slave session : ℕ}
    (h : MasterInvariant slaves origin
      (⟨.saveSession account key text, .reply slave session⟩ :: others)) :
    MasterInvariant slaves { origin with answered := origin.answered ++
      [⟨⟨slave, session, account, key, text⟩, origin.session⟩] } others := by
  obtain ⟨hsession, hlt, -, hfresh⟩ := h.current _ List.mem_cons_self slave session ⟨rfl, .inr rfl⟩
  have hidle : ∀ other ∈ [] ++ others, other.saving = false :=
    alone_of_single h.single (by simp [LoginPoint.saving, Request.isSave])
  have hothers := h.of_idle (fun other hother _ ↦ List.mem_cons_of_mem _ hother)
    ((List.sublist_cons_self _ _).filter _).length_le
  refine ⟨h.slaves, hothers.single, ?_, hothers.arrived, ?_, ?_, h.stored, h.asked⟩
  · exact fun other hother _ _ hsaving ↦ nomatch (hidle other hother).symm.trans hsaving.saving
  · intro answered hanswered
    rcases List.mem_append.mp hanswered with hold | hnew
    · exact h.returned answered hold
    · obtain rfl := List.mem_singleton.mp hnew
      exact ⟨hsession, h.arrived _ List.mem_cons_self account key text slave session rfl, hlt⟩
  · rw [List.map_append, List.nodup_append]
    refine ⟨h.distinct, List.nodup_singleton _, ?_⟩
    rintro id hid _ hnew rfl
    obtain ⟨answered, hanswered, rfl⟩ := List.mem_map.mp hid
    exact hfresh answered hanswered (List.mem_singleton.mp hnew)

/-- Another call. -/
theorem MasterInvariant.other (h : MasterInvariant slaves origin (point :: others))
    {newSlaves : ℕ → Slave Account Key Text} {s : Option ℕ} {asked : List (ℕ × ℕ)}
    (hrequest : point.request.isSave = false) (hleft : ∀ other ∈ left, other.request = point.request)
    (hrouted : ∀ slave session, (slave, session) ∈ asked →
      (slave, session) ∈ origin.asked ∨ origin.slaveOf session = some slave) :
    MasterInvariant slaves { origin with s := s, slaves := newSlaves, asked := asked }
      (left ++ others) := by
  have hnone : left.filter LoginPoint.saving = [] := List.filter_eq_nil_iff.mpr fun other hother ↦ by
    simp [LoginPoint.saving, hleft other hother, hrequest]
  have hsame : MasterInvariant slaves origin (left ++ others) := by
    refine h.of_idle (fun other hother hsaving ↦ ?_) ?_
    · rcases List.mem_append.mp hother with hnew | hold
      · rw [LoginPoint.saving, hleft other hnew, hrequest] at hsaving
        cases hsaving
      · exact List.mem_cons_of_mem _ hold
    · rw [List.filter_append, hnone]
      exact ((List.sublist_cons_self _ _).filter _).length_le
  refine ⟨hsame.slaves, hsame.single, hsame.current, hsame.arrived, hsame.returned, hsame.distinct,
    hsame.stored, fun slave session hmem ↦ ?_⟩
  rcases hrouted slave session hmem with hold | hslave
  · exact h.asked slave session hold
  · exact hslave

/-- Every section keeps the invariant, when the sections of `save_session` take turns. -/
theorem MasterInvariant.step (h : MasterInvariant slaves origin (point :: others))
    (hturns : point.startsSave = true → ∀ other ∈ others, other.saving = false)
    (hsection : MasterSection point origin left last) :
    MasterInvariant slaves last (left ++ others) := by
  have hothers := h.of_idle (fun other hother _ ↦ List.mem_cons_of_mem _ hother)
    ((List.sublist_cons_self _ _).filter _).length_le
  cases hsection with
  | unserved => exact hothers.nextSession (hturns rfl)
  | sent served => exact hothers.sent (hturns rfl) served
  | stored newSlaves => exact h.store newSlaves
  | answered => exact h.answer
  | other s newSlaves asked request leaves routed => exact h.other request leaves routed

end Step

/-! ### Runs -/

section Runs

variable [DecidableEq Key] [DecidableEq Text] (decrypt : Secret → Key → Option Text)

/-- The contract is sound for the login services, in the runs in which the calls of `save_session` take
turns. -/
theorem sound_loginService (slaves : List ℕ) :
    (loginService decrypt : System (login Text) (LoginPoint Account Key Secret Text)
      (Master Account Key Text)).Sound masterContract (MasterInvariant slaves) TakesTurns where
  rely_refl _ _ := trivial
  rely_trans _ _ _ _ _ _ := trivial
  pre_rely _ _ _ hpre _ := hpre
  entry point reply state hpre := by
    obtain ⟨request, stage⟩ := point
    obtain rfl : stage = .start := hpre
    exact keeps_dispatch decrypt
  arrive configuration point _ harrives hinv := by
    have hstart : point.stage = .start := of_decide_eq_true harrives
    have hidle : point.saving = false := by simp [LoginPoint.saving, hstart]
    refine ⟨hinv.of_idle (fun other hother hsaving ↦ ?_) ?_, hstart⟩
    · rcases List.mem_append.mp hother with hold | hnew
      · exact hold
      · rw [List.mem_singleton.mp hnew, hidle] at hsaving
        cases hsaving
    · rw [List.filter_append, List.filter_cons_of_neg (by simp [hidle]), List.filter_nil,
        List.append_nil]
  step configuration before point after reply answers left last hturns hpoints hinv hguar := by
    rw [hpoints] at hinv
    have hstep := (hinv.perm List.perm_middle).step (fun hstarts other hother ↦ ?_) hguar
    · refine ⟨hstep.perm ?_, fun _ _ ↦ trivial⟩
      rw [← List.append_assoc]
      exact List.perm_append_comm.append_right after
    · refine hturns ?_ other ?_
      · rw [hpoints]
        simpa using hstarts
      · rw [hpoints]
        rcases List.mem_append.mp hother with hmem | hmem <;> simp [hmem]

/-- The invariant holds in these runs. -/
theorem masterInvariant_of_run {slaves : List ℕ}
    {last : Configuration (login Text) (LoginPoint Account Key Secret Text) (Master Account Key Text)}
    (hrun : (loginService decrypt).Run TakesTurns (opened slaves) last) :
    MasterInvariant slaves last.state last.points := by
  have hfirst : MasterInvariant slaves (Master.opened slaves)
      ([] : List (LoginPoint Account Key Secret Text)) :=
    ⟨rfl, by simp, by simp, by simp, by simp [Master.opened], by simp [Master.opened],
      by simp [Master.opened], by simp [Master.opened]⟩
  exact ((sound_loginService decrypt slaves).good_of_run
    ((sound_loginService decrypt slaves).good_of_starts hfirst fun _ h ↦ nomatch h) hrun).holds

/-- In every run in which no call of `save_session` is taken up while another one waits for its slave,
each call returns the id under which its own session is stored, no id is returned twice, and a
session is looked for at the slave that has stored it. -/
theorem sessions_not_mixed (slaves : List ℕ)
    {last : Configuration (login Text) (LoginPoint Account Key Secret Text) (Master Account Key Text)}
    (hrun : (loginService decrypt).Run TakesTurns (opened slaves) last) :
    (∀ answered ∈ last.state.answered, answered.returned = some answered.stored.session ∧
      answered.stored ∈ last.state.stored) ∧
    (last.state.answered.map Answered.returned).Nodup ∧
    ∀ stored ∈ last.state.stored, ∀ slave, (slave, stored.session) ∈ last.state.asked →
      slave = stored.slave := by
  have hinv := masterInvariant_of_run decrypt hrun
  refine ⟨fun answered hanswered ↦ ?_, ?_, fun stored hstored slave hasked ↦ ?_⟩
  · exact ⟨(hinv.returned answered hanswered).1, (hinv.returned answered hanswered).2.1⟩
  · have hmap : last.state.answered.map Answered.returned =
        (last.state.answered.map fun answered ↦ answered.stored.session).map some := by
      rw [List.map_map]
      exact List.map_congr_left fun answered hanswered ↦ (hinv.returned answered hanswered).1
    rw [hmap]
    exact hinv.distinct.map (Option.some_injective ℕ)
  · exact Option.some.inj ((hinv.asked slave stored.session hasked).symm.trans
      (hinv.stored stored hstored))

end Runs

/-! ### Two logins -/

/-- Decryption by subtraction. -/
abbrev sampleService : System (login ℕ) (LoginPoint ℕ ℕ ℕ ℕ) (Master ℕ ℕ ℕ) :=
  loginService fun secret key ↦ if key ≤ secret then some (secret - key) else none

/-- The call at an index goes on. -/
def goOn (index : ℕ) : Move (login ℕ) (LoginPoint ℕ ℕ ℕ ℕ) := .resume index .ok []

/-- Two logins at a master with two slaves, one after the other, and a look at the first session. -/
theorem sessions_not_mixed_in_turn :
    ∃ last : Configuration (login ℕ) (LoginPoint ℕ ℕ ℕ ℕ) (Master ℕ ℕ ℕ),
      last.state.answered = [⟨⟨20, 1, 7, 100, 5⟩, some 1⟩, ⟨⟨10, 2, 8, 200, 6⟩, some 2⟩] ∧
        (last.state.answered.map Answered.returned).Nodup ∧
          ∀ stored ∈ last.state.stored, ∀ slave, (slave, stored.session) ∈ last.state.asked →
            slave = stored.slave := by
  obtain ⟨last, hrun, hlast⟩ : ∃ last, sampleService.Run TakesTurns (opened [10, 20]) last ∧
      last.state.answered = [⟨⟨20, 1, 7, 100, 5⟩, some 1⟩, ⟨⟨10, 2, 8, 200, 6⟩, some 2⟩] :=
    sampleService.exists_run_of_playMeeting TakesTurns (opened [10, 20])
      [.arrive ⟨.saveSession 7 100 5, .start⟩, goOn 0, .arrive ⟨.saveSession 8 200 6, .start⟩,
        goOn 0, goOn 0, goOn 0, goOn 0, goOn 0, .arrive ⟨.verify 1 105, .start⟩, goOn 0]
      (fun configuration ↦ configuration.state.answered) (by decide +kernel)
  exact ⟨last, hlast, (sessions_not_mixed _ [10, 20] hrun).2⟩

/-- Two logins that overlap: the first call stores the session 1 and returns the id 2. -/
theorem overlapping_logins_mixed :
    ∃ last : Configuration (login ℕ) (LoginPoint ℕ ℕ ℕ ℕ) (Master ℕ ℕ ℕ),
      sampleService.AnyRun (opened [10, 20]) last ∧
        last.state.answered = [⟨⟨20, 1, 7, 100, 5⟩, some 2⟩, ⟨⟨10, 2, 8, 200, 6⟩, some 2⟩] :=
  sampleService.exists_run_of_playAll (opened [10, 20])
    [.arrive ⟨.saveSession 7 100 5, .start⟩, .arrive ⟨.saveSession 8 200 6, .start⟩, goOn 0, goOn 1,
      goOn 0, goOn 1, goOn 0, goOn 0] (fun configuration ↦ configuration.state.answered)
    (by decide +kernel)

end SvrDemo.Login
