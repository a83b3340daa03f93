import SvrDemo.Gamed.Sockets

/-!
# No recorded agent is lost

`online_account` says which agent serves an account. The agent is recorded before `CMD.open` and removed
from the record when it reports that it has closed, and it closes when the socket of its user ends:
`gateserver.forward` writes the agent into the connection, where `close_fd` finds it. But `forward` does
nothing when the connection has gone meanwhile. Then the login ends with an agent that is recorded and open
and that no socket will ever close.

As long as `forward` finds the connection, as no call of `CMD.close` fails, and as no `CMD.close` of an
agent overtakes another one, every recorded agent is the agent of a connection, or a login that has taken
it or a `close_fd` that waits for it is in progress.
-/

set_option autoImplicit false
set_option relaxedAutoImplicit false

namespace SvrDemo.Gamed

open Coroutine Lua Skynet

variable {linked : Prop} {point : Served} {origin target last : Watched} {heard : List Answer}
  {next : Option Place} {before after : List Served}

/-! ### The condition -/

/-- The branches in which an agent is lost are not taken: a socket is opened under an unused number,
`CMD.close` begins while no other one of the agent waits, none of its calls raises, and `forward` finds
the connection. A new service is an agent that nobody knows. -/
def Place.Found (configuration : Configuration skynet Served Watched) (reply : Answer) : Place → Prop
  | .event (.socketOpen fd) => Unused configuration.points fd configuration.state.server
  | .toAgent agent .close => ∀ other ∈ configuration.points, other.stages agent = false
  | .mapLeave _ _ | .worldLeave _ _ _ | .saveCharacter _ _ => reply ≠ .raised
  | .newService fd account => Recycles configuration.state.server
      (configuration.points.map Served.place) (.newService fd account) reply
  | .fromAgent _ (.open fd _) => fd ∈ configuration.state.server.connection.keys
  | _ => True

instance (configuration : Configuration skynet Served Watched) (reply : Answer) :
    (place : Place) → Decidable (place.Found configuration reply)
  | .event (.socketOpen fd) =>
    inferInstanceAs (Decidable (Unused configuration.points fd configuration.state.server))
  | .toAgent agent .close =>
    inferInstanceAs (Decidable (∀ other ∈ configuration.points, other.stages agent = false))
  | .mapLeave _ _ | .worldLeave _ _ _ | .saveCharacter _ _ =>
    inferInstanceAs (Decidable (reply ≠ .raised))
  | .newService fd account => inferInstanceAs (Decidable (Recycles configuration.state.server
      (configuration.points.map Served.place) (.newService fd account) reply))
  | .fromAgent _ (.open fd _) =>
    inferInstanceAs (Decidable (fd ∈ configuration.state.server.connection.keys))
  | .event (.socketClose _) | .event (.socketData _ _) | .event (.kick _) | .event (.clientFailure _)
  | .event (.pick _ _) | .event (.worldEnter _ _) | .event (.mapEnter _ _) | .verify _ _ _
  | .toAgent _ (.open _ _) | .toAgent _ (.kick _) | .fromAgent _ .close | .fromAgent _ (.kick _)
  | .toGamed _ | .fromGamed _ | .uniqueService _ | .forwarded _ _ => .isTrue trivial

/-- The coroutine that is resumed does not lose an agent. -/
def Found (configuration : Configuration skynet Served Watched) (point : Served) (reply : Answer) : Prop :=
  point.place.Found configuration reply

instance (configuration : Configuration skynet Served Watched) (point : Served) (reply : Answer) :
    Decidable (Found configuration point reply) :=
  inferInstanceAs (Decidable (point.place.Found configuration reply))

/-! ### What a section does with a login and with a report -/

/-- A login that has taken an agent goes on, or forwards the connection to it. -/
theorem Effect.login_goes_on (h : Effect linked point origin heard next target)
    (hcalm : Calm target last) {fd agent : ℕ} (hlogin : point.inLogin fd = true)
    (htaken : origin.taken fd = some agent) :
    (∃ place ∈ next, Served.inLogin fd ⟨point.event, place⟩ = true) ∧ last.taken fd = some agent ∨
      (∃ account, point.place = .fromAgent agent (.open fd account)) ∧
        last.server.connection = origin.server.connection.update fd fun _ ↦ some agent := by
  obtain ⟨hdata, hplace⟩ := Served.inLogin_iff.mp hlogin
  -- the place of the coroutine is none of these
  have hnot : ∀ place, point.place = place → place.isLogin = false → False := fun place hsame hfalse ↦
    Bool.false_ne_true (hfalse.symm.trans (hsame ▸ hplace))
  have hon : ∀ place, next = some place → place.isLogin = true → target.taken = origin.taken →
      (∃ place ∈ next, Served.inLogin fd ⟨point.event, place⟩ = true) ∧ last.taken fd = some agent := by
    intro place hnext hafter hkeeps
    refine ⟨⟨place, hnext ▸ rfl, Served.inLogin_iff.mpr ⟨hdata, hafter⟩⟩, ?_⟩
    rw [hcalm.taken, hkeeps, htaken]
  have hother : ∀ fd', fd = fd' → origin.taken fd' = none → False := by
    rintro fd' rfl hnone
    exact nomatch hnone.symm.trans htaken
  have hclose : ∀ fd', point.event = .socketClose fd' → False := by
    intro fd' hevent
    rw [hevent] at hdata
    exact nomatch hdata
  have hsame : ∀ fd' message, point.event = .socketData fd' message → fd = fd' := by
    intro fd' message hevent
    rw [hevent] at hdata
    exact (Option.some.inj hdata).symm
  cases h with
  | flow hflow =>
    cases hflow with
    | refused fd' hevent =>
      rw [hevent] at hdata
      exact nomatch hdata
    | other hevent =>
      cases hpoint : point.event with
      | socketData => exact nomatch hpoint ▸ hevent
      | _ => exact nomatch hpoint ▸ hdata
    | absent fd' hevent => exact (hclose fd' hevent).elim
    | staged fd' _ hevent => exact (hclose fd' hevent).elim
    | notOpen fd' _ hevent => exact (hclose fd' hevent).elim
    | failed fd' _ _ hevent => exact (hclose fd' hevent).elim
    | finishing fd' _ hevent => exact (hclose fd' hevent).elim
    | login fd' message hevent hbefore hcarries hafter => exact .inl (hon _ rfl hafter rfl)
    | loginDies fd' message hevent hbefore hcarries hnone =>
      exact (hother fd' (hsame fd' message hevent) hnone).elim
    | flushDies fd' agent' message message' hevent hforwarded => exact (hnot _ hforwarded rfl).elim
  | accepted fd' hevent =>
    rw [hevent] at hdata
    exact nomatch hdata
  | calls fd' _ hevent => exact (hclose fd' hevent).elim
  | dropped fd' hevent => exact (hclose fd' hevent).elim
  | erased fd' _ _ hevent => exact (hclose fd' hevent).elim
  | recycled fd' _ _ hevent => exact (hclose fd' hevent).elim
  | lost _ _ _ hstarts | redirected _ _ _ _ hstarts | queued _ _ _ _ hstarts | noLogin _ _ _ hstarts
  | begins _ _ _ _ _ hstarts => exact (hnot _ hstarts rfl).elim
  | fails fd' session token message hevent _ hnone =>
    exact (hother fd' (hsame fd' message hevent) hnone).elim
  | assigned fd' agent' account message hevent hbefore hcarries hnone =>
    exact (hother fd' (hsame fd' message hevent) hnone).elim
  | opened => exact .inl (hon _ rfl rfl rfl)
  | forwarded fd' agent' account message hevent hplace' htaken' =>
    obtain rfl := hsame fd' message hevent
    obtain rfl := Option.some.inj (htaken.symm.trans htaken')
    exact .inr ⟨⟨account, hplace'⟩, hcalm.connection⟩
  | flushes _ _ _ _ _ _ hforwarded => exact (hnot _ hforwarded rfl).elim
  | flushed _ _ _ _ _ hforwarded => exact (hnot _ hforwarded rfl).elim

/-- Where an agent is carried to, or reported from. -/
theorem Effect.carried (h : Effect linked point origin heard next target) (hcalm : Calm target last)
    {agent account : ℕ} (hcarries : point.place.carries = some (agent, account))
    (hserves : (∃ fd, point.inLogin fd = true) ∨ ∃ fd, point.closesFor fd agent = true) :
    (∃ fd, last.server.owner agent = some (fd, account)) ∨
      last.server.onlineAccount.lookup account = none := by
  have hnot : ∀ place, point.place = place → place.carries = none → False := fun place hsame hnone ↦
    nomatch (hsame ▸ hnone : point.place.carries = none).symm.trans hcarries
  have hsocket : point.event.dataOf ≠ none ∨ point.event.closeOf ≠ none := by
    rcases hserves with ⟨fd, hlogin⟩ | ⟨fd, hclose⟩
    · exact .inl (Option.ne_none_iff_exists'.mpr ⟨fd, (Served.inLogin_iff.mp hlogin).1⟩)
    · exact .inr (Option.ne_none_iff_exists'.mpr ⟨fd, (Served.closesFor_iff.mp hclose).1⟩)
  have hcloses : ∀ {agent' : ℕ} {present : Prop}, point.place = .toAgent agent' .close ∧ present ∨
      point.place.stage = some agent' → False := by
    rintro agent' present (⟨hplace, -⟩ | hstage)
    · exact hnot _ hplace rfl
    · exact hnot _ rfl (Place.carries_of_stage hstage)
  cases h with
  | flow hflow =>
    cases hflow with
    | refused fd hevent =>
      rw [hevent] at hsocket
      exact absurd rfl (hsocket.resolve_right (not_not.mpr rfl))
    | other hevent =>
      cases hpoint : point.event with
      | socketOpen | socketClose | socketData => exact nomatch hpoint ▸ hevent
      | _ => exact absurd rfl ((hpoint ▸ hsocket).resolve_right (not_not.mpr rfl))
    | absent fd hevent hstarts => exact (hnot _ hstarts rfl).elim
    | staged fd agent' hevent hbefore => exact (hcloses hbefore).elim
    | notOpen fd agent' hevent hplace => exact (hnot _ hplace rfl).elim
    | failed fd agent' userFd hevent hbefore => exact (hcloses hbefore).elim
    | finishing fd agent' hevent hbefore hnone => exact (hnot _ rfl hnone).elim
    | login fd message hevent hbefore hnone => exact (hnot _ rfl hnone).elim
    | loginDies fd message hevent hbefore hnone => exact (hnot _ rfl hnone).elim
    | flushDies fd agent' message message' hevent hplace => exact (hnot _ hplace rfl).elim
  | accepted _ _ hstarts | calls _ _ _ hstarts | lost _ _ _ hstarts | redirected _ _ _ _ hstarts
  | queued _ _ _ _ hstarts | noLogin _ _ _ hstarts | begins _ _ _ _ _ hstarts =>
    exact (hnot _ hstarts rfl).elim
  | dropped fd hevent hdrops =>
    rcases hdrops with ⟨hstarts, -⟩ | ⟨agent', hplace⟩
    · exact (hnot _ hstarts rfl).elim
    · exact (hnot _ hplace rfl).elim
  | erased fd agent' account' hevent hbefore => exact (hcloses hbefore).elim
  | recycled fd agent' account' hevent hplace =>
    rw [hplace] at hcarries
    obtain ⟨rfl, rfl⟩ := Prod.mk.inj (Option.some.inj hcarries)
    refine .inr ?_
    rw [hcalm.onlineAccount, Table.lookup_erase_eq, if_pos rfl]
  | fails _ _ _ _ _ hplace => exact (hnot _ hplace rfl).elim
  | assigned fd agent' account' message hevent hbefore hnone => exact (hnot _ rfl hnone).elim
  | opened fd agent' account' message hevent hplace =>
    rw [hplace] at hcarries
    obtain ⟨rfl, rfl⟩ := Prod.mk.inj (Option.some.inj hcarries)
    refine .inl ⟨fd, (hcalm.owner agent').trans ?_⟩
    rw [Table.lookup_insert_eq, if_pos rfl]
    rfl
  | forwarded _ _ _ _ _ hplace => exact (hnot _ hplace rfl).elim
  | flushes _ _ _ _ _ _ hplace => exact (hnot _ hplace rfl).elim
  | flushed _ _ _ _ _ hplace => exact (hnot _ hplace rfl).elim

/-- Who is recorded after a section was recorded before, or the section has just recorded him. -/
theorem Effect.online (h : Effect linked point origin heard next target) (hcalm : Calm target last)
    {agent account : ℕ} (honline : last.server.onlineAccount.lookup account = some agent) :
    origin.server.onlineAccount.lookup account = some agent ∨
      ∃ fd message, point.event = .socketData fd message ∧ last.taken fd = some agent ∧
        next = some (.toAgent agent (.open fd account)) := by
  rw [hcalm.onlineAccount] at honline
  cases h with
  | assigned fd agent' account' message hevent =>
    rw [Table.lookup_insert_eq] at honline
    split at honline
    · rename_i hsame
      obtain rfl := hsame
      obtain rfl := Option.some.inj honline
      refine .inr ⟨fd, message, hevent, ?_, rfl⟩
      rw [hcalm.taken]
      exact Function.update_self ..
    · exact .inl honline
  | recycled fd agent' account' hevent =>
    exact .inl (Table.lookup_of_erase honline)
  | _ => exact .inl honline

/-- `CMD.close` of an agent ends with the agent without a user. -/
theorem Effect.finishes (h : Effect linked point origin heard next target) (hcalm : Calm target last)
    (hpresent : ∀ agent, point.place.stage = some agent → agent ∈ origin.server.user.keys)
    (hworldly : ∀ agent, origin.server.Worldly agent)
    (hraised : heard.head? = some .raised → point.place.stage = none) {place : Place} {fd agent : ℕ}
    (hnext : next = some place) (hclose : point.event.closeOf = some fd)
    (hfinishes : place.finishes = some agent) :
    point.place.finishes = some agent ∨ point.closesFor fd agent = true ∧
      last.server.owner agent = none ∧
        ∀ other ≠ agent, last.server.owner other = origin.server.owner other := by
  have hnone : ∀ {agent'}, agent' ∈ origin.server.user.keys →
      origin.server.user.lookup agent' = none → False := by
    intro agent' hmem hlookup
    exact Finmap.lookup_eq_none.mp hlookup (Finmap.mem_keys.mp hmem)
  have hmem : ∀ {agent'}, point.place = .toAgent agent' .close ∧ agent' ∈ origin.server.user.keys ∨
      point.place.stage = some agent' → agent' ∈ origin.server.user.keys := fun hcloses ↦
    hcloses.elim And.right (hpresent _)
  cases h with
  | flow hflow =>
    cases hflow with
    | refused | absent | loginDies | flushDies => exact nomatch hnext
    | other hevent hkicks =>
      cases hpoint : point.event with
      | socketClose => exact nomatch hpoint ▸ hevent
      | _ => exact nomatch hpoint ▸ hclose
    | staged fd' agent' hevent hcloses hstage =>
      obtain rfl := Option.some.inj hnext
      exact nomatch (Place.finishes_of_stage hstage).symm.trans hfinishes
    | notOpen fd' agent' hevent hplace hlookup =>
      obtain rfl := Option.some.inj hnext
      obtain rfl := Option.some.inj hfinishes
      refine .inr ⟨Served.closesFor_iff.mpr ⟨hclose, hplace ▸ rfl⟩, (hcalm.owner agent').trans ?_,
        fun other _ ↦ hcalm.owner other⟩
      rw [hlookup]
      rfl
    | failed fd' agent' userFd hevent hcloses hreason =>
      rcases hreason with ⟨hheard, hstage⟩ | hlookup | hnot
      · exact nomatch (hraised hheard).symm.trans hstage
      · exact (hnone (hmem hcloses) hlookup).elim
      · exact absurd (hworldly agent') hnot
    | finishing fd' agent' hevent hbefore hcarries hafter =>
      obtain rfl := Option.some.inj hnext
      obtain rfl := Option.some.inj (hafter.symm.trans hfinishes)
      exact .inl hbefore
    | login fd' message hevent =>
      rw [hevent] at hclose
      exact nomatch hclose
  | accepted | dropped | lost | redirected | queued | noLogin | fails | flushed => exact nomatch hnext
  | calls =>
    obtain rfl := Option.some.inj hnext
    exact nomatch hfinishes
  | erased fd' agent' account hevent hcloses =>
    obtain rfl := Option.some.inj hnext
    obtain rfl := Option.some.inj hfinishes
    refine .inr ⟨Served.closesFor_iff.mpr ⟨hclose, Place.closing_of_closes hcloses⟩,
      (hcalm.owner agent').trans ?_, fun other hother ↦ (hcalm.owner other).trans ?_⟩
    · rw [Table.lookup_erase_eq, if_pos rfl]
      rfl
    · rw [Table.lookup_erase_eq, if_neg hother, Server.owner]
  | recycled fd' agent' account hevent hplace =>
    obtain rfl := Option.some.inj hnext
    obtain rfl := Option.some.inj hfinishes
    exact .inl (hplace ▸ rfl)
  | begins _ _ _ _ hevent | assigned _ _ _ _ hevent | opened _ _ _ _ hevent
  | forwarded _ _ _ _ hevent | flushes _ _ _ _ _ hevent =>
    rw [hevent] at hclose
    exact nomatch hclose

/-! ### The invariant -/

/-- A login of a socket that has taken an agent is in progress. -/
def TakenFor (fd agent : ℕ) (whole : Watched) (points : List Served) : Prop :=
  InLogin fd points ∧ whole.taken fd = some agent

/-- The agent of a user is the agent of the connection of his socket, or his login is in progress; nobody
uses a socket whose `close_fd` has closed the agent; and an agent who is recorded has a user with the
account, or is on the way to or from him. -/
structure Tied (whole : Watched) (points : List Served) : Prop where
  apart : Apart whole points
  owner : ∀ agent fd account, whole.server.owner agent = some (fd, account) →
    TakenFor fd agent whole points ∨ whole.server.connection.lookup fd = some (some agent)
  finished : ∀ fd agent, (∃ point ∈ points, point.event.closeOf = some fd ∧
    point.place.finishes = some agent) → ∀ other account, whole.server.owner other ≠ some (fd, account)
  recorded : ∀ account agent, whole.server.onlineAccount.lookup account = some agent →
    (∃ point ∈ points, point.place.carries = some (agent, account) ∧
      ((∃ fd, point.inLogin fd = true ∧ whole.taken fd = some agent) ∨
        ∃ fd, point.closesFor fd agent = true)) ∨
    ∃ fd, whole.server.owner agent = some (fd, account)

/-- What has to be known of the section. -/
structure Kept (point : Served) (origin : Watched) (points : List Served) (heard : List Answer) : Prop where
  seated : Seated origin points
  opened : ∀ fd, point.event = .socketOpen fd → point.place = .event point.event →
    Unused points fd origin.server
  close : ∀ agent, point.place = .toAgent agent .close → points.countP (Served.stages agent) = 0
  raised : heard.head? = some .raised → point.place.stage = none
  found : ∀ fd agent account, point.place = .fromAgent agent (.open fd account) →
    fd ∈ origin.server.connection.keys

/-- A login that has taken an agent goes on, or the connection has the agent. -/
theorem TakenFor.step {fd agent : ℕ} (h : TakenFor fd agent origin (before ++ point :: after))
    (hkept : Kept point origin (before ++ point :: after) heard)
    (heffect : Effect linked point origin heard next target) (hcalm : Calm target last) :
    TakenFor fd agent last (before ++ (next.map (Served.mk point.event)).toList ++ after) ∨
      last.server.connection.lookup fd = some (some agent) := by
  obtain ⟨⟨login, hmem, hlogin⟩, htaken⟩ := h
  rw [List.mem_append, List.mem_cons] at hmem
  rcases (or_left_comm.mp hmem : login = point ∨ login ∈ before ∨ login ∈ after) with rfl | hother
  · rcases heffect.login_goes_on hcalm hlogin htaken with ⟨⟨place, hplace, hafter⟩, hsame⟩ |
      ⟨⟨account, hplace⟩, hconnection⟩
    · exact .inl ⟨⟨_, mem_step.mpr (.inr ⟨place, hplace, rfl⟩), hafter⟩, hsame⟩
    · obtain ⟨old, hold⟩ := Table.mem_keys_iff.mp (hkept.found fd agent account hplace)
      refine .inr ?_
      rw [hconnection, Table.lookup_update_self, hold]
      rfl
  · have hother := List.mem_append.mpr hother
    refine .inl ⟨⟨login, mem_step.mpr (.inl hother), hlogin⟩, ?_⟩
    rw [hkept.seated.login.taken_eq hother heffect hcalm (Served.logsIn_of_inLogin hlogin), htaken]

/-- A user whose socket and account stay keeps his connection or his login. -/
theorem Tied.owner_kept (h : Tied origin (before ++ point :: after))
    (hkept : Kept point origin (before ++ point :: after) heard)
    (heffect : Effect linked point origin heard next target) (hcalm : Calm target last)
    {agent fd account : ℕ} (howner : origin.server.owner agent = some (fd, account)) :
    TakenFor fd agent last (before ++ (next.map (Served.mk point.event)).toList ++ after) ∨
      last.server.connection.lookup fd = some (some agent) := by
  rcases h.owner agent fd account howner with htaken | hconnection
  · exact htaken.step hkept heffect hcalm
  · refine .inr ?_
    cases heffect.sockets hcalm with
    | keeps hsame | calls _ _ _ _ hsame | begins _ _ _ _ _ _ hsame =>
      rw [hsame]
      exact hconnection
    | accepted fd' hevent hstarts hinsert =>
      have hunused := (hkept.opened fd' hevent hstarts).1
      have hne : fd ≠ fd' := fun hsame ↦ hunused (hsame ▸ Table.mem_keys_iff.mpr ⟨_, hconnection⟩)
      rw [hinsert, Table.lookup_insert_eq, if_neg hne]
      exact hconnection
    | dropped fd' hevent hdrops herase =>
      have hne : fd ≠ fd' := by
        rintro rfl
        rcases hdrops with hnone | ⟨closed, hfinishes⟩
        · exact nomatch Option.some.inj (hnone.symm.trans hconnection)
        · exact h.finished fd closed ⟨point, mem_self, hevent ▸ rfl, hfinishes⟩ agent account howner
      rw [herase, Table.lookup_erase_eq, if_neg hne]
      exact hconnection
    | forwarded fd' agent' account' message hevent hplace _ hupdate =>
      have hne : fd ≠ fd' := by
        rintro rfl
        refine h.apart.login fd ⟨point, mem_self, ?_⟩ agent hconnection
        exact Served.inLogin_iff.mpr ⟨hevent ▸ rfl, hplace ▸ rfl⟩
      rw [hupdate, Table.lookup_update_of_ne _ hne]
      exact hconnection

/-- Every user has his connection or his login after a section. -/
theorem Tied.owner_step (h : Tied origin (before ++ point :: after))
    (hkept : Kept point origin (before ++ point :: after) heard)
    (heffect : Effect linked point origin heard next target) (hcalm : Calm target last)
    {agent fd account : ℕ} (howner : last.server.owner agent = some (fd, account)) :
    TakenFor fd agent last (before ++ (next.map (Served.mk point.event)).toList ++ after) ∨
      last.server.connection.lookup fd = some (some agent) := by
  rcases heffect.users hcalm with hsame | ⟨fd', opened, account', message, hevent, hplace, hnext, htaken,
    hopened, hothers⟩ | ⟨_, erased, _, _, _, _, _, hgone, hothers⟩
  · exact h.owner_kept hkept heffect hcalm ((hsame agent).symm.trans howner)
  · by_cases hagent : agent = opened
    · -- his login goes on
      subst hagent
      obtain ⟨rfl, rfl⟩ := Prod.mk.inj (Option.some.inj (hopened.symm.trans howner))
      have hlogin : point.inLogin fd' = true :=
        Served.inLogin_iff.mpr ⟨hevent ▸ rfl, hplace ▸ rfl⟩
      have htaken : TakenFor fd' agent origin (before ++ point :: after) :=
        ⟨⟨point, mem_self, hlogin⟩, htaken⟩
      exact htaken.step hkept heffect hcalm
    · exact h.owner_kept hkept heffect hcalm ((hothers agent hagent).symm.trans howner)
  · by_cases hagent : agent = erased
    · rw [hagent, hgone] at howner
      exact nomatch howner
    · exact h.owner_kept hkept heffect hcalm ((hothers agent hagent).symm.trans howner)

/-- Nobody uses a socket whose `close_fd` has closed the agent, after a section. -/
theorem Tied.finished_step (h : Tied origin (before ++ point :: after))
    (hkept : Kept point origin (before ++ point :: after) heard)
    (heffect : Effect linked point origin heard next target) (hcalm : Calm target last) {fd agent : ℕ}
    (hfinished : ∃ other ∈ before ++ (next.map (Served.mk point.event)).toList ++ after,
      other.event.closeOf = some fd ∧ other.place.finishes = some agent) (other account : ℕ) :
    last.server.owner other ≠ some (fd, account) := by
  intro howner
  -- a coroutine of `close_fd` that was there before shuts the socket out
  have hbefore : ∀ closing ∈ before ++ point :: after, closing.event.closeOf = some fd →
      closing.place.finishes = some agent → False := by
    intro closing hmem hclose hfinishes
    have hnobody := h.finished fd agent ⟨closing, hmem, hclose, hfinishes⟩ other
    rcases heffect.users hcalm with hsame | ⟨fd', opened, account', message, hevent, hplace, hnext,
      htaken, hopened, hothers⟩ | ⟨_, erased, _, _, _, _, _, hgone, hothers⟩
    · exact hnobody account ((hsame other).symm.trans howner)
    · by_cases hother : other = opened
      · subst hother
        obtain ⟨rfl, rfl⟩ := Prod.mk.inj (Option.some.inj (hopened.symm.trans howner))
        refine h.apart.apart fd' agent ⟨point, mem_self, Served.inLogin_iff.mpr
          ⟨hevent ▸ rfl, hplace ▸ rfl⟩⟩ ⟨closing, hmem, ?_⟩
        exact Served.closesFor_iff.mpr ⟨hclose, Place.closing_of_finishes hfinishes⟩
      · exact hnobody account ((hothers other hother).symm.trans howner)
    · by_cases hother : other = erased
      · rw [hother, hgone] at howner
        exact nomatch howner
      · exact hnobody account ((hothers other hother).symm.trans howner)
  obtain ⟨closing, hmem, hclose, hfinishes⟩ := hfinished
  rcases mem_step.mp hmem with hold | ⟨place, hnext, rfl⟩
  · exact hbefore closing (mem_others hold) hclose hfinishes
  · have hpresent : ∀ closed, point.place.stage = some closed → closed ∈ origin.server.user.keys :=
      fun closed hstage ↦ hkept.seated.present closed
        (List.countP_pos_iff.mpr ⟨point, mem_self, decide_eq_true hstage⟩)
    rcases heffect.finishes hcalm hpresent hkept.seated.worldly hkept.raised hnext hclose hfinishes with
      hpoint | ⟨hcloses, hgone, hothers⟩
    · exact hbefore point mem_self hclose hpoint
    · have hother : other ≠ agent := by
        rintro rfl
        exact nomatch hgone.symm.trans howner
      rw [hothers other hother] at howner
      have hclosing : InClose fd agent (before ++ point :: after) := ⟨point, mem_self, hcloses⟩
      rcases h.owner other fd account howner with ⟨hlogin, -⟩ | hconnection
      · exact h.apart.apart fd agent hlogin hclosing
      · rcases h.apart.close fd agent hclosing with hnone | hagent
        · exact nomatch hnone.symm.trans hconnection
        · exact hother (Option.some.inj (Option.some.inj (hconnection.symm.trans hagent)))

/-- An agent who is recorded after a section. -/
theorem Tied.recorded_step (h : Tied origin (before ++ point :: after))
    (hkept : Kept point origin (before ++ point :: after) heard)
    (heffect : Effect True point origin heard next target) (hcalm : Calm target last)
    {account agent : ℕ} (honline : last.server.onlineAccount.lookup account = some agent) :
    (∃ other ∈ before ++ (next.map (Served.mk point.event)).toList ++ after,
      other.place.carries = some (agent, account) ∧
        ((∃ fd, other.inLogin fd = true ∧ last.taken fd = some agent) ∨
          ∃ fd, other.closesFor fd agent = true)) ∨
    ∃ fd, last.server.owner agent = some (fd, account) := by
  rcases heffect.online hcalm honline with hold | ⟨fd, message, hevent, htaken, hnext⟩
  · rcases h.recorded account agent hold with ⟨carrying, hmem, hcarries, hserves⟩ | ⟨fd, howner⟩
    · rw [List.mem_append, List.mem_cons] at hmem
      rcases (or_left_comm.mp hmem : carrying = point ∨ carrying ∈ before ∨ carrying ∈ after) with
        rfl | hother
      · -- the coroutine that brings the agent has run
        have hkind : (∃ fd, carrying.inLogin fd = true) ∨ ∃ fd, carrying.closesFor fd agent = true :=
          hserves.imp_left fun ⟨fd, hlogin, _⟩ ↦ ⟨fd, hlogin⟩
        rcases heffect.carried hcalm hcarries hkind with howner | hnone
        · exact .inr howner
        · exact nomatch hnone.symm.trans honline
      · have hother := List.mem_append.mpr hother
        refine .inl ⟨carrying, mem_step.mpr (.inl hother), hcarries, hserves.imp_left ?_⟩
        rintro ⟨fd, hlogin, htaken⟩
        refine ⟨fd, hlogin, ?_⟩
        rw [hkept.seated.login.taken_eq hother heffect hcalm (Served.logsIn_of_inLogin hlogin), htaken]
    · rcases heffect.users hcalm with hsame | ⟨fd', opened, account', message, hevent, hplace, hnext,
        htaken, hopened, hothers⟩ | ⟨fd', erased, account', hevent, hcloses, hnext, haccount, hgone, hothers⟩
      · exact .inr ⟨fd, (hsame agent).trans howner⟩
      · refine .inr ⟨fd, (hothers agent fun hagent ↦ ?_).trans howner⟩
        -- a `CMD.open` comes to agents without a user
        subst hagent
        have htoken := hkept.seated.token agent
        have hcarried : 0 < ((before ++ point :: after).map Served.place).countP (Place.holds agent) := by
          refine List.countP_pos_iff.mpr ⟨point.place, List.mem_map_of_mem mem_self, ?_⟩
          rw [hplace]
          exact decide_eq_true rfl
        have hmem : agent ∈ origin.server.user.keys := by
          by_contra hnot
          exact nomatch (Server.owner_eq_none_iff.mpr hnot).symm.trans howner
        unfold tokens at htoken
        rw [if_pos hmem] at htoken
        omega
      · by_cases hagent : agent = erased
        · -- `CMD.close` reports the account of the user that it removes
          subst hagent
          have hreport := haccount trivial
          rw [howner] at hreport
          obtain rfl := Option.some.inj hreport
          refine .inl ⟨_, mem_step.mpr (.inr ⟨_, hnext, rfl⟩), rfl, .inr ⟨fd', ?_⟩⟩
          exact Served.closesFor_iff.mpr ⟨hevent ▸ rfl, rfl⟩
        · exact .inr ⟨fd, (hothers agent hagent).trans howner⟩
  · refine .inl ⟨_, mem_step.mpr (.inr ⟨_, hnext, rfl⟩), rfl, .inl ⟨fd, ?_, htaken⟩⟩
    exact Served.inLogin_iff.mpr ⟨hevent ▸ rfl, rfl⟩

/-- Every section keeps the invariant. -/
theorem Tied.step (h : Tied origin (before ++ point :: after))
    (hkept : Kept point origin (before ++ point :: after) heard)
    (heffect : Effect True point origin heard next target) (hcalm : Calm target last) :
    Tied last (before ++ (next.map (Served.mk point.event)).toList ++ after) where
  apart := h.apart.step hkept.seated.login hkept.opened (heffect.sockets hcalm)
  owner _ _ _ := h.owner_step hkept heffect hcalm
  finished _ _ := h.finished_step hkept heffect hcalm
  recorded _ _ := h.recorded_step hkept heffect hcalm

theorem tied_opened (pool : List ℕ) (maxclient : ℤ) :
    Tied (watchedOpened pool maxclient).state [] where
  apart := apart_opened pool maxclient
  owner _ _ _ howner := nomatch howner
  finished _ _ hfinished := absurd hfinished.choose_spec.1 List.not_mem_nil
  recorded _ _ honline := nomatch honline

/-- An event that arrives changes nothing. -/
theorem Tied.arrive {whole : Watched} {points : List Served} (h : Tied whole points)
    (hstarts : point.place = .event point.event) : Tied whole (points ++ [point]) := by
  refine ⟨h.apart.arrive hstarts, fun agent fd account howner ↦ ?_,
    fun fd agent hfinished ↦ h.finished fd agent (exists_of_arrive ?_ hfinished),
    fun account agent honline ↦ ?_⟩
  · refine (h.owner agent fd account howner).imp_left fun ⟨⟨login, hmem, hin⟩, htaken⟩ ↦ ?_
    exact ⟨⟨login, List.mem_append_left _ hmem, hin⟩, htaken⟩
  · rintro ⟨-, hfinishes⟩
    rw [hstarts] at hfinishes
    exact nomatch hfinishes
  · refine (h.recorded account agent honline).imp_left fun ⟨carrying, hmem, hcarrying⟩ ↦ ?_
    exact ⟨carrying, List.mem_append_left _ hmem, hcarrying⟩

/-! ### The runs -/

/-- Every recorded agent is the agent of a connection, or a login that has taken it or a `close_fd` that
waits for it is in progress. -/
def NoneLost (whole : Watched) (points : List Served) : Prop :=
  ∀ account agent, whole.server.onlineAccount.lookup account = some agent →
    (∃ fd, whole.server.connection.lookup fd = some (some agent)) ∨
      (∃ fd, TakenFor fd agent whole points) ∨ ∃ fd, InClose fd agent points

theorem Tied.noneLost {whole : Watched} {points : List Served} (h : Tied whole points) :
    NoneLost whole points := by
  intro account agent honline
  rcases h.recorded account agent honline with
    ⟨carrying, hmem, -, ⟨fd, hlogin, htaken⟩ | ⟨fd, hclose⟩⟩ | ⟨fd, howner⟩
  · exact .inr (.inl ⟨fd, ⟨carrying, hmem, hlogin⟩, htaken⟩)
  · exact .inr (.inr ⟨fd, carrying, hmem, hclose⟩)
  · exact (h.owner agent fd account howner).elim (fun htaken ↦ .inr (.inl ⟨fd, htaken⟩))
      fun hconnection ↦ .inl ⟨fd, hconnection⟩

/-- A move that loses no agent meets the condition of the contract. -/
theorem seats_of_found (configuration : Configuration skynet Served Watched) (move : Move skynet Served)
    (hmeets : Resumes Found configuration move) : Resumes Seats configuration move := by
  cases move with
  | arrive point => exact trivial
  | resume index reply answers =>
    intro point hpoint
    have hfound := hmeets point hpoint
    unfold Found at hfound
    refine ⟨fun agent hplace ↦ ?_, fun fd account address hplace hreply ↦ ?_⟩
    · rw [hplace] at hfound
      exact hfound
    · rw [hplace, hreply] at hfound
      exact hfound

/-- What a move that loses no agent knows of its section. -/
theorem Found.kept {configuration : Configuration skynet Served Watched} {reply : Answer}
    {answers : List Answer} (hfound : Found configuration point reply)
    (hpoints : configuration.points = before ++ point :: after)
    (hseated : Seated configuration.state (before ++ point :: after)) :
    Kept point configuration.state (before ++ point :: after) (reply :: answers) where
  seated := hseated
  opened fd hevent hstarts := by
    unfold Found at hfound
    rw [hstarts, hevent] at hfound
    have hunused : Unused configuration.points fd configuration.state.server := hfound
    rw [hpoints] at hunused
    exact hunused
  close agent hplace := by
    unfold Found at hfound
    rw [hplace] at hfound
    refine List.countP_eq_zero.mpr fun other hother ↦ Bool.eq_false_iff.mp ?_
    exact hfound other (hpoints ▸ hother)
  raised hraised := by
    have hreply : reply = .raised := Option.some.inj hraised
    unfold Found at hfound
    cases hplace : point.place with
    | mapLeave | worldLeave | saveCharacter =>
      rw [hplace] at hfound
      exact absurd hreply hfound
    | _ => rfl
  found fd agent account hplace := by
    unfold Found at hfound
    rw [hplace] at hfound
    exact hfound

/-- As long as the branches in which an agent is lost are not taken, no recorded agent is lost. -/
theorem no_agent_lost {pool : List ℕ} {maxclient : ℤ} {last : Configuration skynet Served Watched}
    (hnodup : pool.Nodup)
    (hrun : watchedServer.Run (Resumes Found) (watchedOpened pool maxclient) last) :
    NoneLost last.state last.points := by
  have hgood := sound_seated.good_of_starts (seated_opened hnodup maxclient)
    fun _ hmem ↦ absurd hmem List.not_mem_nil
  have hholds : System.Good (watchedContract True) Seated last ∧ Tied last.state last.points := by
    refine sound_seated.holds_of_run seats_of_found ?_ ?_ hgood (tied_opened pool maxclient) hrun
    · exact fun configuration point _ harrives h ↦ h.arrive (of_decide_eq_true harrives)
    · intro configuration before point after reply answers left last hmeets hpoints hseated h hguar
      obtain ⟨next, target, rfl, heffect, hcalm⟩ := hguar
      rw [hpoints] at h hseated
      exact h.step ((Resumes.meets hmeets hpoints).kept hpoints hseated) heffect hcalm
  exact hholds.2.noneLost

/-- A login for which a new agent is started. -/
theorem no_agent_lost_visit :
    ∃ last : Configuration skynet Served Watched, NoneLost last.state last.points ∧
      (last.threads.length, last.state.server.onlineAccount.lookup 5,
        last.state.server.connection.lookup 7) = (0, some 100, some (some 100)) := by
  obtain ⟨last, hrun, hlast⟩ := watchedServer.exists_run_of_playMeeting (Resumes Found)
    (watchedOpened [] 10)
    [.arrive ⟨.socketOpen 7, .event (.socketOpen 7)⟩, .resume 0 .ok [],
      .arrive ⟨.socketData 7 (.login 1 2), .event (.socketData 7 (.login 1 2))⟩,
      .resume 0 .ok [], .resume 0 (.number 5) [], .resume 0 (.number 100) [], .resume 0 .ok [],
      .resume 0 .ok [], .resume 0 .ok []]
    (fun last ↦ (last.threads.length, last.state.server.onlineAccount.lookup 5,
      last.state.server.connection.lookup 7))
    (show _ = some (0, some 100, some (some 100)) by decide +kernel)
  exact ⟨last, no_agent_lost (by decide) hrun, hlast⟩

/-- A client disconnects while the login server verifies him. The login goes on, the agent is opened
and recorded, nothing is in progress any more, and no connection is left. -/
theorem agent_lost_in_login :
    ∃ last, watchedServer.AnyRun (watchedOpened [100] 10) last ∧
      (last.threads.length, last.state.server.onlineAccount.lookup 5,
        last.state.server.connection.keys) = (0, some 100, ∅) :=
  watchedServer.exists_run_of_playAll _
    [.arrive ⟨.socketOpen 7, .event (.socketOpen 7)⟩, .resume 0 .ok [],
      .arrive ⟨.socketData 7 (.login 1 2), .event (.socketData 7 (.login 1 2))⟩,
      .resume 0 .ok [], .arrive ⟨.socketClose 7, .event (.socketClose 7)⟩, .resume 1 .ok [],
      .resume 0 (.number 5) [], .resume 0 .ok [], .resume 0 .ok [], .resume 0 .ok []]
    (fun last ↦ (last.threads.length, last.state.server.onlineAccount.lookup 5,
      last.state.server.connection.keys)) (by decide +kernel)

end SvrDemo.Gamed
