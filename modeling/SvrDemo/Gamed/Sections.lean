import SvrDemo.Gamed.Effects

/-!
# Every section has one of the effects

The programs of the game server and of its agents keep the contract `watchedContract`: whatever happens
while their coroutines wait, every section has one of the effects of the list. The file follows the
programs: the kick of a client, `CMD.close` and `close_fd`, the login, and the events of the agents.
-/

set_option autoImplicit false
set_option relaxedAutoImplicit false

namespace SvrDemo.Gamed

open Coroutine Lua Skynet

variable {linked : Prop} {event : Event} {current : Section skynet Served Watched} {whole : Watched}

/-! ### Waiting -/

/-- The game server never fails where it waits. -/
theorem watching_safe {event : Event} {K : Contract skynet Served Watched} (place : Place)
    (post : Answer → Section skynet Served Watched → Watched → Prop)
    (raised raised' : LuaError → Section skynet Served Watched → Watched → Prop)
    (current : Section skynet Served Watched) (whole : Watched)
    (h : ((watching event).handle place).wp K post raised current whole) :
    ((watching event).handle place).wp K post raised' current whole :=
  h

/-- The places where a history is written. -/
def Place.isNoted : Place → Bool
  | .verify _ _ _ => true
  | .toAgent _ (.open _ _) => true
  | .toAgent _ .close => true
  | _ => false

theorem Watched.wait_eq {place : Place} (hplace : place.isNoted = false) (event : Event)
    (whole : Watched) : whole.wait event place = whole := by
  unfold Watched.wait
  split
  · exact nomatch hplace
  · exact nomatch hplace
  · exact nomatch hplace
  · rfl

/-- A section may end with an effect. -/
structure MayGo (linked : Prop) (event : Event) (current : Section skynet Served Watched)
    (next : Option Place) (whole : Watched) : Prop where
  forks : current.forks = []
  serves : current.point.event = event
  effect : ∃ target, Effect linked current.point current.origin current.heard next target ∧
    Calm target whole

theorem MayGo.ends {next : Option Place} (h : MayGo linked event current next whole) :
    (watchedContract linked).Ends current (current.forks ++ (next.map (Served.mk event)).toList)
      whole := by
  obtain ⟨hforks, hevent, target, heffect, hcalm⟩ := h
  refine ⟨⟨next, target, ?_, heffect, hcalm⟩, ?_⟩
  · rw [hforks, hevent, List.nil_append]
  · rw [hforks]
    exact fun _ hmem ↦ nomatch hmem

theorem MayGo.done (h : MayGo linked event current none whole) :
    (watchedContract linked).done () current whole := by
  have hends := h.ends
  rw [Option.map_none, Option.toList_none, List.append_nil] at hends
  exact hends

theorem MayGo.raised (h : MayGo linked event current none whole) (error : LuaError) :
    (watchedContract linked).raised error current whole :=
  ⟨trivial, h.done⟩

/-- A coroutine begins to wait. -/
theorem wpIn_wait {place : Place} {post : Answer → Section skynet Served Watched → Watched → Prop}
    {raised : LuaError → Section skynet Served Watched → Watched → Prop}
    (hgoes : MayGo linked event current (some place) (whole.wait event place))
    (hnext : ∀ reply later, Relies linked ⟨event, place⟩ (whole.wait event place) later →
      post reply ⟨⟨event, place⟩, later, [reply], []⟩ later) :
    (Program.await (I := skynet) place).wpIn (watching event) (watchedContract linked) post raised
      current whole := by
  rw [Program.wpIn_await]
  exact ⟨hgoes.ends, hnext⟩

/-- The same at a place where no history is written. -/
theorem wpIn_wait_quiet {place : Place}
    {post : Answer → Section skynet Served Watched → Watched → Prop}
    {raised : LuaError → Section skynet Served Watched → Watched → Prop}
    (hplace : place.isNoted = false) (hgoes : MayGo linked event current (some place) whole)
    (hnext : ∀ reply later, Relies linked ⟨event, place⟩ whole later →
      post reply ⟨⟨event, place⟩, later, [reply], []⟩ later) :
    (Program.await (I := skynet) place).wpIn (watching event) (watchedContract linked) post raised
      current whole := by
  have hwait := whole.wait_eq hplace event
  refine wpIn_wait ?_ ?_
  · rw [hwait]
    exact hgoes
  · rw [hwait]
    exact hnext

/-- A call at a place where no history is written: it returns, or it raises. -/
theorem wpIn_call_quiet {place : Place}
    {post : Unit → Section skynet Served Watched → Watched → Prop}
    {raised : LuaError → Section skynet Served Watched → Watched → Prop}
    (hplace : place.isNoted = false) (hgoes : MayGo linked event current (some place) whole)
    (hreturns : ∀ reply later, Relies linked ⟨event, place⟩ whole later → reply ≠ .raised →
      post () ⟨⟨event, place⟩, later, [reply], []⟩ later)
    (hraises : ∀ later, Relies linked ⟨event, place⟩ whole later →
      raised .callFailed ⟨⟨event, place⟩, later, [.raised], []⟩ later) :
    (call place : ServerTask Unit).wpIn (watching event) (watchedContract linked) post raised
      current whole := by
  unfold call
  rw [Program.wpIn_bind]
  refine wpIn_wait_quiet hplace hgoes fun reply later hrelies ↦ ?_
  cases reply with
  | raised => exact hraises later hrelies
  | number value => exact hreturns _ later hrelies Answer.noConfusion
  | order keys => exact hreturns _ later hrelies Answer.noConfusion
  | ok => exact hreturns _ later hrelies Answer.noConfusion

/-! ### The kick of a client -/

section Kick

variable {post : Unit → Section skynet Served Watched → Watched → Prop}
  {raised : LuaError → Section skynet Served Watched → Watched → Prop} {agent : ℕ}

/-- A command of an agent that fails kicks the client. -/
theorem wpIn_agentDispatch {command : ServerTask Unit} :
    (agentDispatch agent command).wpIn (watching event) (watchedContract linked) post raised current
      whole ↔
    command.wpIn (watching event) (watchedContract linked) post
      (fun _ current whole ↦ (kickSelf agent).wpIn (watching event) (watchedContract linked) post
        raised current whole) current whole := by
  unfold agentDispatch
  rw [Program.wpIn_bind, Program.wpIn_attempt watching_safe]
  exact Iff.rfl

/-- `kick_self` goes to the game server and back, and keeps what its coroutine relies on. -/
theorem wpIn_kickSelf (carried : Watched → Prop)
    (hcarried : ∀ place first last, Place.isKick place = true →
      Relies linked ⟨event, place⟩ first last → carried first → carried last)
    (hstart : carried whole)
    (hgoes : ∀ userFd, MayGo linked event current (some (.toGamed (.kick agent userFd))) whole)
    (hkicks : ∀ userFd reply later, carried later →
      Flow ⟨event, .toGamed (.kick agent userFd)⟩ later [reply]
        (some (.fromGamed (.kick agent userFd))))
    (hpost : ∀ userFd reply later, carried later →
      post () ⟨⟨event, .fromGamed (.kick agent userFd)⟩, later, [reply], []⟩ later) :
    (kickSelf agent).wpIn (watching event) (watchedContract linked) post raised current whole := by
  unfold kickSelf callGamed
  rw [Program.wpIn_bind, Program.wpIn_getState, wpIn_rpc watching_safe]
  refine wpIn_wait_quiet rfl (hgoes _) fun reply later hrelies ↦ ?_
  have hlater : carried later := hcarried _ _ _ rfl hrelies hstart
  refine wpIn_wait_quiet rfl ⟨rfl, rfl, later, .flow (hkicks _ reply later hlater), .refl later⟩
    fun reply' last hrelies' ↦ ?_
  exact hpost _ reply' last (hcarried _ _ _ rfl hrelies' hlater)

end Kick

/-! ### Calm changes of a user -/

/-- A change of the state that accepts no connection and begins no login. -/
theorem watching_put {server : Server}
    (hconnection : server.connection.keys ⊆ whole.server.connection.keys)
    (hpending : server.pendingMsg.keys ⊆ whole.server.pendingMsg.keys) :
    (watching event).put server whole = { whole with server := server } :=
  Watched.put_eq hconnection hpending

/-- A change of the user of an agent that keeps his owner. -/
theorem calm_update {agent : ℕ} {change : User → User}
    (howner : ∀ user, (change user).owner = user.owner)
    (hworldly : ∀ user, whole.server.user.lookup agent = some user →
      (user.world ≠ none → user.character ≠ none) →
        (change user).world ≠ none → (change user).character ≠ none) :
    Calm whole ((watching event).put
      { whole.server with user := whole.server.user.update agent change } whole) := by
  rw [watching_put (by exact subset_rfl) (by exact subset_rfl)]
  refine ⟨rfl, rfl, rfl, rfl, rfl, rfl, rfl, rfl, fun other ↦ ?_, fun other hfirst user hlookup ↦ ?_,
    rfl, rfl, rfl⟩
  · rw [Table.lookup_update]
    split
    · rename_i hsame
      rw [hsame, Option.map_map]
      exact congrArg (Option.map · _) (funext howner)
    · rfl
  · rw [Table.lookup_update] at hlookup
    split at hlookup
    · rename_i hsame
      subst hsame
      obtain ⟨old, hold, rfl⟩ := Option.map_eq_some_iff.mp hlookup
      exact hworldly old hold (hfirst old hold)
    · exact hfirst user hlookup

/-! ### `CMD.close` -/

section Close

variable {fd agent account : ℕ}

/-- `CMD.close` of an agent, called by `close_fd`, before `user = nil`. -/
structure Closing (linked : Prop) (fd agent account : ℕ) (current : Section skynet Served Watched)
    (whole : Watched) : Prop where
  forks : current.forks = []
  serves : current.point.event = .socketClose fd
  closes : current.point.place = .toAgent agent .close ∧ agent ∈ current.origin.server.user.keys ∨
    current.point.place.stage = some agent
  calm : Calm current.origin whole
  owner : linked ∨ current.point.place = .toAgent agent .close →
    (current.origin.server.user.lookup agent).map User.account = some account

/-- A command of an agent has failed in such a way that the kick of its client may follow. -/
def Kicking (linked : Prop) (event : Event) (agent : ℕ) (_ : LuaError)
    (current : Section skynet Served Watched) (whole : Watched) : Prop :=
  ∀ userFd, MayGo linked event current (some (.toGamed (.kick agent userFd))) whole

/-- `CMD.close` fails, for one of three reasons. -/
theorem Closing.kicking (h : Closing linked fd agent account current whole)
    (hreason : current.heard.head? = some .raised ∧ current.point.place.stage = some agent ∨
      current.origin.server.user.lookup agent = none ∨ ¬ current.origin.server.Worldly agent)
    (error : LuaError) : Kicking linked (.socketClose fd) agent error current whole := fun userFd ↦
  ⟨h.forks, h.serves, _, .flow (.failed fd agent userFd h.serves h.closes hreason), h.calm⟩

/-- The user of the agent is gone. -/
theorem Closing.kicking_of_none (h : Closing linked fd agent account current whole)
    (huser : whole.server.user.lookup agent = none) (error : LuaError) :
    Kicking linked (.socketClose fd) agent error current whole := by
  refine h.kicking (.inr (.inl ?_)) error
  have howner := h.calm.owner agent
  rw [huser, Option.map_none] at howner
  exact Option.map_eq_none_iff.mp howner.symm

theorem Closing.modify {last : Watched} (h : Closing linked fd agent account current whole)
    (hcalm : Calm whole last) : Closing linked fd agent account current last :=
  ⟨h.forks, h.serves, h.closes, h.calm.trans hcalm, h.owner⟩

/-- An assignment to a field of `user` in `CMD.close`. -/
theorem Closing.changeUser (h : Closing linked fd agent account current whole) {change : User → User}
    (howner : ∀ user, (change user).owner = user.owner)
    (hworldly : ∀ user, (user.world ≠ none → user.character ≠ none) →
      (change user).world ≠ none → (change user).character ≠ none) :
    (Gamed.changeUser agent change).wpIn (watching (.socketClose fd)) (watchedContract linked)
      (fun _ ↦ Closing linked fd agent account) (Kicking linked (.socketClose fd) agent) current
      whole := by
  unfold Gamed.changeUser
  rw [Program.wpIn_bind, Program.wpIn_getState]
  split
  · rename_i hnone
    exact h.kicking_of_none hnone .indexNil
  · rw [Program.wpIn_modifyState]
    exact h.modify (calm_update howner fun user _ ↦ hworldly user)

/-- A call of `CMD.close` that returns goes on with the same account. -/
theorem Closing.call (h : Closing linked fd agent account current whole) {place : Place}
    (hstage : place.stage = some agent) (hnoted : place.isNoted = false) :
    (Skynet.call place : ServerTask Unit).wpIn (watching (.socketClose fd)) (watchedContract linked)
      (fun _ current whole ↦ Closing linked fd agent account current whole ∧
        current.point.place = place) (Kicking linked (.socketClose fd) agent) current whole := by
  have hnext : ∀ reply later, Relies linked ⟨.socketClose fd, place⟩ whole later →
      Closing linked fd agent account ⟨⟨.socketClose fd, place⟩, later, [reply], []⟩ later := by
    intro reply later hrelies
    refine ⟨rfl, rfl, .inr hstage, .refl later, fun hcase ↦ ?_⟩
    rcases hcase with hlinked | hplace
    · have howner := (hrelies.owner hlinked agent hstage).trans (h.calm.owner agent)
      have haccount := congrArg (Option.map Prod.snd) howner
      simp only [Option.map_map] at haccount
      exact haccount.trans (h.owner (.inl hlinked))
    · have hplace : place = .toAgent agent .close := hplace
      rw [hplace] at hstage
      exact nomatch hstage
  refine wpIn_call_quiet hnoted ⟨h.forks, h.serves, _, .flow (.staged fd agent h.serves h.closes
    hstage), h.calm⟩ (fun reply later hrelies _ ↦ ⟨hnext reply later hrelies, rfl⟩) fun later hrelies ↦ ?_
  exact (hnext .raised later hrelies).kicking (.inl ⟨rfl, hstage⟩) _

theorem wpIn_leaveMap (h : Closing linked fd agent account current whole) :
    (leaveMap agent).wpIn (watching (.socketClose fd)) (watchedContract linked)
      (fun _ ↦ Closing linked fd agent account) (Kicking linked (.socketClose fd) agent) current
      whole := by
  unfold leaveMap
  rw [Program.wpIn_bind, Program.wpIn_getState]
  split
  · rename_i hnone
    exact h.kicking_of_none hnone .indexNil
  · split
    · exact h
    · rw [Program.wpIn_bind]
      refine Program.wpIn_mono (fun _ current whole h ↦ ?_) (fun _ _ _ h ↦ h) (h.call rfl rfl)
      exact h.1.changeUser (fun _ ↦ rfl) fun _ hworldly ↦ hworldly

theorem wpIn_leaveWorld (h : Closing linked fd agent account current whole) :
    (leaveWorld agent).wpIn (watching (.socketClose fd)) (watchedContract linked)
      (fun _ ↦ Closing linked fd agent account) (Kicking linked (.socketClose fd) agent) current
      whole := by
  unfold leaveWorld
  rw [Program.wpIn_bind, Program.wpIn_getState]
  split
  · rename_i hnone
    exact h.kicking_of_none hnone .indexNil
  · rename_i user huser
    split
    · exact h
    · rename_i world hworld hcharacter
      refine h.kicking (.inr (.inr fun hworldly ↦ ?_)) .indexNil
      exact h.calm.worldly agent hworldly user huser (by rw [hworld]; exact Option.some_ne_none _)
        hcharacter
    · rw [Program.wpIn_bind]
      refine Program.wpIn_mono (fun _ current whole h ↦ ?_) (fun _ _ _ h ↦ h) (h.call rfl rfl)
      exact h.1.changeUser (fun _ ↦ rfl) fun _ _ hworld ↦ absurd rfl hworld

theorem wpIn_saveCharacter (h : Closing linked fd agent account current whole) :
    (saveCharacter agent).wpIn (watching (.socketClose fd)) (watchedContract linked)
      (fun _ current whole ↦ Closing linked fd agent account current whole ∧
        (agent ∈ current.origin.server.user.keys ∨
          ∃ character, current.point.place = .saveCharacter agent character))
      (Kicking linked (.socketClose fd) agent) current whole := by
  unfold saveCharacter
  rw [Program.wpIn_bind, Program.wpIn_getState]
  split
  · rename_i hnone
    exact h.kicking_of_none hnone .indexNil
  · rename_i user huser
    split
    · exact ⟨h, .inl ((h.calm.mem_keys agent).mp (Table.mem_keys_iff.mpr ⟨user, huser⟩))⟩
    · rename_i character _
      refine Program.wpIn_mono (fun _ current whole h ↦ ?_) (fun _ _ _ h ↦ h) (h.call rfl rfl)
      exact ⟨h.1, .inr ⟨character, h.2⟩⟩

/-- `close_fd` waits for an agent whose `CMD.close` is over. -/
structure Finishing (fd agent : ℕ) (current : Section skynet Served Watched) (whole : Watched) :
    Prop where
  forks : current.forks = []
  serves : current.point.event = .socketClose fd
  finishes : current.point.place.finishes = some agent
  carries : current.point.place.carries = none
  same : whole = current.origin

theorem Finishing.mayGo (h : Finishing fd agent current whole) {place : Place}
    (hfinishes : place.finishes = some agent) (hcarries : place.carries = none) :
    MayGo linked (.socketClose fd) current (some place) whole :=
  ⟨h.forks, h.serves, _, .flow (.finishing fd agent h.serves h.finishes h.carries hfinishes hcarries),
    h.same ▸ .refl current.origin⟩

/-- The report of an agent that has removed its user. -/
theorem wpIn_callGamed_close
    {raised : LuaError → Section skynet Served Watched → Watched → Prop}
    (hgoes : MayGo linked (.socketClose fd) current
      (some (.toGamed (.close agent (some account)))) whole) :
    (callGamed (.close agent (some account)) (gamedClose agent (some account))).wpIn
      (watching (.socketClose fd)) (watchedContract linked) (fun _ ↦ Finishing fd agent) raised current
      whole := by
  unfold callGamed
  rw [wpIn_rpc watching_safe]
  refine wpIn_wait_quiet rfl hgoes fun reply later _ ↦ ?_
  unfold gamedClose
  rw [Program.wpIn_modifyState, watching_put (by exact subset_rfl) (by exact subset_rfl)]
  refine wpIn_wait_quiet rfl ⟨rfl, rfl, _, .recycled fd agent account rfl rfl, .refl _⟩
    fun reply' last _ ↦ ⟨rfl, rfl, rfl, rfl, rfl⟩

/-- The report of an agent without a user: it fails. -/
theorem wpIn_callGamed_close_none {post : Unit → Section skynet Served Watched → Watched → Prop}
    (hgoes : MayGo linked (.socketClose fd) current (some (.toGamed (.close agent none))) whole) :
    (callGamed (.close agent none) (gamedClose agent none)).wpIn
      (watching (.socketClose fd)) (watchedContract linked) post (Kicking linked (.socketClose fd) agent)
      current whole := by
  unfold callGamed
  rw [wpIn_rpc watching_safe]
  refine wpIn_wait_quiet rfl hgoes fun reply later _ ↦ ?_
  unfold gamedClose
  rw [Program.wpIn_fail]
  have hlater : Finishing fd agent ⟨⟨.socketClose fd, .toGamed (.close agent none)⟩, later, [reply], []⟩
      later := ⟨rfl, rfl, rfl, rfl, rfl⟩
  refine wpIn_wait_quiet rfl (hlater.mayGo rfl rfl) fun reply' last _ ↦ ?_
  have hlast : Finishing fd agent
      ⟨⟨.socketClose fd, .fromGamed (.close agent none)⟩, last, [reply'], []⟩ last :=
    ⟨rfl, rfl, rfl, rfl, rfl⟩
  exact fun userFd ↦ hlast.mayGo rfl rfl

/-- `CMD.close`, from the arrival of the call on. -/
theorem wpIn_agentClose {reply : Answer} :
    (agentClose agent).wpIn (watching (.socketClose fd)) (watchedContract linked)
      (fun _ ↦ Finishing fd agent) (Kicking linked (.socketClose fd) agent)
      ⟨⟨.socketClose fd, .toAgent agent .close⟩, whole, [reply], []⟩ whole := by
  unfold agentClose
  rw [Program.wpIn_bind, Program.wpIn_getState]
  split
  · rename_i hnone
    exact wpIn_callGamed_close_none ⟨rfl, rfl, _, .flow (.notOpen fd agent rfl rfl hnone), .refl _⟩
  · rename_i user huser
    have huser : whole.server.user.lookup agent = some user := huser
    have hclosing : Closing linked fd agent user.account
        ⟨⟨.socketClose fd, .toAgent agent .close⟩, whole, [reply], []⟩ whole :=
      ⟨rfl, rfl, .inl ⟨rfl, Table.mem_keys_iff.mpr ⟨user, huser⟩⟩, .refl whole,
        fun _ ↦ congrArg (Option.map User.account) huser⟩
    rw [Program.wpIn_bind, Program.wpIn_modifyState, Program.wpIn_bind]
    refine Program.wpIn_mono (fun _ current whole h ↦ ?_) (fun _ _ _ h ↦ h) (wpIn_leaveMap
      (hclosing.modify (calm_update (by exact fun _ ↦ rfl) fun _ _ hworldly ↦ hworldly)))
    rw [Program.wpIn_bind]
    refine Program.wpIn_mono (fun _ current whole h ↦ ?_) (fun _ _ _ h ↦ h) (wpIn_leaveWorld h)
    rw [Program.wpIn_bind]
    refine Program.wpIn_mono (fun _ current whole h ↦ ?_) (fun _ _ _ h ↦ h) (wpIn_saveCharacter h)
    rw [Program.wpIn_bind, Program.wpIn_modifyState, watching_put (by exact subset_rfl) (by exact subset_rfl)]
    obtain ⟨h, hpresent⟩ := h
    refine wpIn_callGamed_close ⟨h.forks, h.serves, _,
      .erased fd agent user.account h.serves h.closes hpresent h.owner, ?_⟩
    have hcalm := h.calm
    refine ⟨hcalm.pool, hcalm.onlineAccount, hcalm.connection, hcalm.nclient, hcalm.maxclient,
      hcalm.pendingMsg, hcalm.received, hcalm.sent, fun other ↦ ?_, fun other hworldly user hlookup ↦ ?_,
      hcalm.taken, hcalm.calls, hcalm.since⟩
    · have howner := hcalm.owner other
      simp only [Table.lookup_erase_eq]
      split
      · rfl
      · exact howner
    · simp only [Table.lookup_erase_eq] at hlookup
      split at hlookup
      · exact nomatch hlookup
      · rename_i hne
        refine hcalm.worldly other (fun user hold ↦ hworldly user ?_) user hlookup
        simp only [Table.lookup_erase_eq]
        rw [if_neg hne]
        exact hold

/-- `close_fd`. -/
theorem wpIn_closeFd {reply : Answer} :
    (closeFd fd).wpIn (watching (.socketClose fd)) (watchedContract linked) (watchedContract linked).done
      (watchedContract linked).raised
      ⟨⟨.socketClose fd, .event (.socketClose fd)⟩, whole, [reply], []⟩ whole := by
  unfold closeFd
  rw [Program.wpIn_bind, Program.wpIn_getState]
  split
  · rename_i hnone
    exact MayGo.done ⟨rfl, rfl, _, .flow (.absent fd rfl rfl hnone), .refl whole⟩
  · rename_i agent hconnection
    rw [Program.wpIn_bind]
    cases agent with
    | none =>
      refine MayGo.done ⟨rfl, rfl, _, .dropped fd rfl (.inl ⟨rfl, hconnection⟩), .refl _⟩
    | some agent =>
      unfold closeAgentOf callAgent
      simp only
      rw [wpIn_rpc watching_safe]
      refine wpIn_wait ⟨rfl, rfl, _, .calls fd agent rfl rfl hconnection, .refl _⟩ fun reply later _ ↦ ?_
      have hreturns : ∀ current whole, Finishing fd agent current whole →
          (Program.await (I := skynet) (.fromAgent agent .close)).wpIn (watching (.socketClose fd))
            (watchedContract linked) (fun _ current whole ↦
              (Program.modifyState fun server ↦ { server with
                connection := server.connection.erase fd
                nclient := server.nclient - 1 } : ServerTask Unit).wpIn (watching (.socketClose fd))
                  (watchedContract linked) (watchedContract linked).done
                  (watchedContract linked).raised current whole)
            (watchedContract linked).raised current whole := by
        intro current whole h
        refine wpIn_wait_quiet rfl (h.mayGo rfl rfl) fun reply last _ ↦ ?_
        exact MayGo.done ⟨rfl, rfl, _, .dropped fd rfl (.inr ⟨agent, rfl⟩), .refl _⟩
      rw [wpIn_agentDispatch]
      refine Program.wpIn_mono (fun _ current whole h ↦ hreturns current whole h)
        (fun error current whole h ↦ ?_) wpIn_agentClose
      refine wpIn_kickSelf (fun _ ↦ True) (fun _ _ _ _ _ _ ↦ trivial) trivial h (fun userFd reply later _ ↦ ?_)
        fun userFd reply later _ ↦ hreturns _ later ⟨rfl, rfl, rfl, rfl, rfl⟩
      exact .finishing fd agent rfl rfl rfl rfl rfl

end Close

end SvrDemo.Gamed
