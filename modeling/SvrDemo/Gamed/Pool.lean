import SvrDemo.Gamed.LoginTurns

/-!
# The pool of agents

An agent that nobody uses is in the pool, and `login_handler` takes it out before it sends `CMD.open`.
`CMD.close` puts it back: the agent removes its `user` and reports to the game server, which appends the
agent to the pool without looking. So an agent is in one place only: in the pool, with a user, on its way
to a user, or on its way back.

`CMD.close` does not look at `user` again when the database has saved the character. If another
`CMD.close` of the same agent has ended meanwhile, the agent is reported twice and is twice in the pool,
and then two logins can get it. As long as no save returns to an agent without a user, the agents of the
pool are distinct and closed, and no agent is handed out twice.
-/

set_option autoImplicit false
set_option relaxedAutoImplicit false

namespace SvrDemo.Gamed

open Coroutine Lua Skynet

/-! ### Where an agent is -/

/-- A coroutine brings the agent a `CMD.open`, or reports that the agent has closed. -/
def Place.holds (agent : ℕ) (place : Place) : Bool :=
  decide (place.carries.map Prod.fst = some agent)

/-- How often an agent is in the pool, has a user or is on its way. -/
def tokens (agent : ℕ) (server : Server) (places : List Place) : ℕ :=
  server.pool.count agent + (if agent ∈ server.user.keys then 1 else 0) +
    places.countP (Place.holds agent)

/-- The pool has no agent twice and none with a user, and an agent has one account: he is opened for, or
on his way to, one at most. -/
structure PoolIntact (server : Server) (places : List Place) : Prop where
  nodup : server.pool.Nodup
  closed : ∀ agent ∈ server.pool, server.user.lookup agent = none
  handed : ∀ agent, tokens agent server places ≤ 1

theorem poolIntact_of_tokens {server : Server} {places : List Place}
    (h : ∀ agent, tokens agent server places ≤ 1) : PoolIntact server places where
  nodup := List.nodup_iff_count_le_one.mpr fun agent ↦ by
    have hone := h agent
    unfold tokens at hone
    omega
  closed agent hmem := by
    by_contra hopen
    obtain ⟨user, huser⟩ := Option.ne_none_iff_exists'.mp hopen
    have hone := h agent
    have hpos := List.count_pos_iff.mpr hmem
    unfold tokens at hone
    rw [if_pos (Table.mem_keys_iff.mpr ⟨user, huser⟩)] at hone
    omega
  handed := h

/-! ### The condition -/

/-- A save returns to an agent that has a user, and a new service is an agent that nobody knows. -/
def Recycles (server : Server) (places : List Place) : Place → Answer → Prop
  | .saveCharacter agent _, _ => agent ∈ server.user.keys
  | .newService _ _, .number address => tokens address.toNat server places = 0
  | _, _ => True

instance (server : Server) (places : List Place) :
    (place : Place) → (reply : Answer) → Decidable (Recycles server places place reply)
  | .saveCharacter agent _, _ => inferInstanceAs (Decidable (agent ∈ server.user.keys))
  | .newService _ _, .number address =>
    inferInstanceAs (Decidable (tokens address.toNat server places = 0))
  | .newService _ _, .order _ | .newService _ _, .ok | .newService _ _, .raised => .isTrue trivial
  | .event _, _ | .verify _ _ _, _ | .toAgent _ _, _ | .fromAgent _ _, _ | .toGamed _, _
  | .fromGamed _, _ | .uniqueService _, _ | .mapLeave _ _, _ | .worldLeave _ _ _, _
  | .forwarded _ _, _ => .isTrue trivial

/-! ### What a section does with the agents -/

variable {linked : Prop} {point : Served} {origin target last : Watched} {heard : List Answer}
  {next : Option Place}

theorem countP_holds_some {place : Place} {carried account : ℕ}
    (hcarries : place.carries = some (carried, account)) (agent : ℕ) :
    [place].countP (Place.holds agent) = if carried = agent then 1 else 0 := by
  rw [List.countP_singleton, Place.holds, hcarries, Option.map_some]
  exact if_congr (decide_eq_true_iff.trans Option.some_inj) rfl rfl

theorem countP_holds_none {place : Place} (hcarries : place.carries = none) (agent : ℕ) :
    [place].countP (Place.holds agent) = 0 := by
  rw [List.countP_singleton, Place.holds, hcarries]
  rfl

theorem Place.carries_of_stage {place : Place} {agent : ℕ} (hstage : place.stage = some agent) :
    place.carries = none := by
  cases place with
  | mapLeave | worldLeave | saveCharacter => rfl
  | _ => exact nomatch hstage

/-- A coroutine that goes on without another effect brings no agent. -/
theorem Flow.carries_eq_none (h : Flow point origin heard next) : ∀ place ∈ next, place.carries = none := by
  rintro place hplace
  cases h with
  | refused => exact nomatch hplace
  | other hevent hkicks =>
    have hkick := hkicks place hplace
    cases place with
    | toGamed call =>
      cases call with
      | kick => rfl
      | close => exact nomatch hkick
    | fromGamed call => rfl
    | _ => exact nomatch hkick
  | absent => exact nomatch hplace
  | staged fd agent hevent hcloses hstage =>
    rw [← Option.some.inj hplace]
    exact Place.carries_of_stage hstage
  | notOpen =>
    obtain rfl := Option.some.inj hplace
    rfl
  | failed =>
    obtain rfl := Option.some.inj hplace
    rfl
  | finishing fd agent hevent hbefore hcarries hafter hcarries' =>
    obtain rfl := Option.some.inj hplace
    exact hcarries'
  | login fd message hevent hbefore hcarries hafter hcarries' =>
    obtain rfl := Option.some.inj hplace
    exact hcarries'
  | loginDies => exact nomatch hplace
  | flushDies => exact nomatch hplace

/-- The tokens of an agent after a calm change. -/
theorem Calm.tokens (hcalm : Calm target last) (agent : ℕ) (places : List Place) :
    tokens agent last.server places = tokens agent target.server places := by
  unfold Gamed.tokens
  rw [hcalm.pool, if_congr (hcalm.mem_keys agent) rfl rfl]

/-- A section moves agents: only a new service adds one. -/
theorem Effect.tokens (h : Effect linked point origin heard next target) (hcalm : Calm target last)
    (hreturns : ∀ agent character, point.place = .saveCharacter agent character →
      agent ∈ origin.server.user.keys) (agent : ℕ) :
    tokens agent last.server next.toList ≤ tokens agent origin.server [point.place] ∨
      ∃ fd account, ∃ address : ℤ, point.place = .newService fd account ∧ heard = [.number address] ∧
        address.toNat = agent ∧
          tokens agent last.server next.toList ≤ tokens agent origin.server [point.place] + 1 := by
  rw [hcalm.tokens]
  -- the pool and the users stay, and nothing is carried
  have hkeeps : target.server.pool = origin.server.pool → target.server.user = origin.server.user →
      (∀ place ∈ next, place.carries = none) →
        Gamed.tokens agent target.server next.toList ≤
          Gamed.tokens agent origin.server [point.place] := by
    intro hpool huser hcarries
    have hnone : next.toList.countP (Place.holds agent) = 0 := by
      cases next with
      | none => rfl
      | some place => exact countP_holds_none (hcarries place rfl) agent
    unfold Gamed.tokens
    rw [hpool, huser, hnone]
    exact Nat.le_add_right _ _
  have hnone : ∀ place ∈ (none : Option Place), place.carries = none := fun _ hmem ↦
    absurd hmem (Option.not_mem_none _)
  have hsome : ∀ place : Place, place.carries = none → ∀ other ∈ some place, other.carries = none :=
    fun place hcarries other hother ↦ Option.some.inj hother ▸ hcarries
  cases h with
  | flow hflow => exact .inl (hkeeps rfl rfl hflow.carries_eq_none)
  | accepted => exact .inl (hkeeps rfl rfl hnone)
  | calls => exact .inl (hkeeps rfl rfl (hsome _ rfl))
  | dropped => exact .inl (hkeeps rfl rfl hnone)
  | erased fd carried account hevent hcloses hpresent =>
    -- the agent of the user is on its way back
    have hmem : carried ∈ origin.server.user.keys :=
      hpresent.elim id fun ⟨character, hplace⟩ ↦ hreturns carried character hplace
    have herase : (if agent ∈ (origin.server.user.erase carried).keys then 1 else 0) +
        (if carried = agent then 1 else 0) = if agent ∈ origin.server.user.keys then 1 else 0 := by
      by_cases hsame : carried = agent
      · rw [if_neg (by simp [hsame]), if_pos hsame, if_pos (hsame ▸ hmem)]
      · rw [if_neg hsame, Nat.add_zero]
        exact if_congr (by simp [Ne.symm hsame]) rfl rfl
    refine .inl ?_
    unfold Gamed.tokens
    rw [Option.toList_some, countP_holds_some rfl]
    simp only
    omega
  | recycled fd carried account hevent hplace =>
    refine .inl ?_
    unfold Gamed.tokens
    rw [Option.toList_some, countP_holds_none rfl, hplace, countP_holds_some rfl, List.count_append,
      List.count_singleton, beq_eq_decide]
    simp only [decide_eq_true_eq]
    omega
  | lost => exact .inl (hkeeps rfl rfl hnone)
  | redirected => exact .inl (hkeeps rfl rfl hnone)
  | queued => exact .inl (hkeeps rfl rfl hnone)
  | noLogin => exact .inl (hkeeps rfl rfl hnone)
  | begins => exact .inl (hkeeps rfl rfl (hsome _ rfl))
  | fails => exact .inl (hkeeps rfl rfl hnone)
  | assigned fd carried account message hevent hlogin hcarries htaken hsource =>
    rcases hsource with hpool | ⟨hpool, hplace, address, hheard, haddress⟩
    · refine .inl ?_
      unfold Gamed.tokens
      rw [Option.toList_some, countP_holds_some rfl, hpool, List.count_cons, beq_eq_decide]
      simp only [decide_eq_true_eq]
      omega
    · by_cases hsame : carried = agent
      · refine .inr ⟨fd, account, address, hplace, hheard, haddress.trans hsame, ?_⟩
        unfold Gamed.tokens
        rw [Option.toList_some, countP_holds_some rfl, hpool, if_pos hsame]
        simp only
        omega
      · refine .inl ?_
        unfold Gamed.tokens
        rw [Option.toList_some, countP_holds_some rfl, hpool, if_neg hsame]
        simp only
        omega
  | opened fd carried account message hevent hplace =>
    refine .inl ?_
    unfold Gamed.tokens
    have hinsert : (if agent ∈ (origin.server.user.insert carried
          ⟨fd, account, none, none, none, false⟩).keys then 1 else 0) ≤
        (if agent ∈ origin.server.user.keys then 1 else 0) + if carried = agent then 1 else 0 := by
      by_cases hsame : carried = agent
      · rw [if_pos hsame]
        split_ifs <;> omega
      · rw [if_neg hsame, Nat.add_zero]
        exact (if_congr (by simp [Ne.symm hsame]) rfl rfl).le
    rw [Option.toList_some, countP_holds_none rfl, hplace, countP_holds_some rfl]
    simp only
    omega
  | forwarded fd carried account message hevent hplace htaken hflush =>
    refine .inl (hkeeps rfl rfl ?_)
    split at hflush
    · rw [hflush.1]
      exact hnone
    · rw [hflush.1]
      exact hnone
    · rw [hflush.1]
      exact hsome _ rfl
  | flushes => exact .inl (hkeeps rfl rfl (hsome _ rfl))
  | flushed => exact .inl (hkeeps rfl rfl hnone)

/-! ### The invariant -/

theorem tokens_split (agent : ℕ) (server : Server) (before middle after : List Place) :
    tokens agent server (before ++ middle ++ after) =
      tokens agent server middle + (before ++ after).countP (Place.holds agent) := by
  simp only [tokens, List.countP_append]
  omega

/-- Every agent is in one place only. -/
def OneToken (whole : Watched) (points : List Served) : Prop :=
  ∀ agent, tokens agent whole.server (points.map Served.place) ≤ 1

/-- A section that recycles no agent twice keeps every agent in one place. -/
theorem OneToken.step {before after : List Served} {reply : Answer} {answers : List Answer}
    (h : OneToken origin (before ++ point :: after))
    (hmeets : Recycles origin.server ((before ++ point :: after).map Served.place) point.place reply)
    (heffect : Effect linked point origin (reply :: answers) next target) (hcalm : Calm target last) :
    OneToken last (before ++ (next.map (Served.mk point.event)).toList ++ after) := by
  intro agent
  have hleft : (next.map (Served.mk point.event)).toList.map Served.place = next.toList := by
    cases next <;> rfl
  have hone := h agent
  rw [List.map_append, List.map_append, hleft, tokens_split]
  rw [List.append_cons, List.map_append, List.map_append, List.map_singleton, tokens_split] at hone
  have hreturns : ∀ agent character, point.place = .saveCharacter agent character →
      agent ∈ origin.server.user.keys := by
    intro agent character hplace
    rw [hplace] at hmeets
    exact hmeets
  rcases heffect.tokens hcalm hreturns agent with hle | ⟨fd, account, address, hplace, hheard, rfl, hle⟩
  · omega
  · -- nobody knows the new agent
    obtain ⟨rfl, -⟩ := List.cons.inj hheard
    rw [hplace] at hmeets
    have hfresh : tokens address.toNat origin.server ((before ++ point :: after).map Served.place) = 0 :=
      hmeets
    rw [List.append_cons, List.map_append, List.map_append, List.map_singleton, tokens_split] at hfresh
    omega

/-- A condition on the plain game server, for the watched one. -/
abbrev Recycling (configuration : Configuration skynet Served Watched) (point : Served) (reply : Answer) :
    Prop :=
  Recycles configuration.state.server (configuration.points.map Served.place) point.place reply

theorem oneToken_of_run {pool : List ℕ} {maxclient : ℤ} {last : Configuration skynet Served Watched}
    (hnodup : pool.Nodup)
    (hrun : watchedServer.Run (Resumes Recycling) (watchedOpened pool maxclient) last) :
    OneToken last.state last.points := by
  have hgood := sound_oneLogin.good_of_starts (oneLogin_opened pool maxclient)
    fun _ hmem ↦ absurd hmem List.not_mem_nil
  have hfirst : OneToken (watchedOpened pool maxclient).state (watchedOpened pool maxclient).points :=
    fun agent ↦ List.nodup_iff_count_le_one.mp hnodup agent
  refine (sound_oneLogin.holds_of_run (fun _ _ _ ↦ trivial) ?_ ?_ hgood hfirst hrun).2
  · intro configuration point _ harrives h agent
    have hstarts : point.place = .event point.event := of_decide_eq_true harrives
    have hnone : [point.place].countP (Place.holds agent) = 0 :=
      countP_holds_none (hstarts ▸ rfl) agent
    have hone := h agent
    unfold tokens at hone ⊢
    rw [List.map_append, List.map_singleton, List.countP_append, hnone]
    exact hone
  · intro configuration before point after reply answers left last hmeets hpoints _ h hguar
    have hmeets := Resumes.meets hmeets hpoints
    obtain ⟨next, target, rfl, heffect, hcalm⟩ := hguar
    unfold Recycling at hmeets
    rw [hpoints] at h hmeets
    exact h.step hmeets heffect hcalm

/-! ### The runs -/

/-- As long as no save returns to an agent without a user, the agents of the pool are distinct, none of
them has a user, and no agent is handed out twice. -/
theorem pool_intact {pool : List ℕ} {maxclient : ℤ} {last : Configuration skynet Place Server}
    (hnodup : pool.Nodup)
    (hrun : gameServer.Run (Resumes fun configuration place reply ↦
      Recycles configuration.state configuration.points place reply) (opened pool maxclient) last) :
    PoolIntact last.state last.points := by
  have hcondition : ∀ (first' : Configuration skynet Served Watched)
      (first : Configuration skynet Place Server) (move' : Move skynet Served),
      Configuration.Follows Place Watched.server Served.place first' first →
        Resumes (fun configuration place reply ↦
          Recycles configuration.state configuration.points place reply) first (move'.map Served.place) →
          Resumes Recycling first' move' := by
    intro first' first move' hfirst
    refine hfirst.resumes fun point reply hmeets ↦ ?_
    unfold Recycling
    have hpoints : first'.points.map Served.place = first.points := hfirst.points
    rw [hfirst.state, hpoints]
    exact hmeets
  obtain ⟨last', hrun', hfollows⟩ := watchedServer_watches.exists_run hcondition
    (follows_opened pool maxclient) hrun
  have htokens := oneToken_of_run hnodup hrun'
  have hpoints : last'.points.map Served.place = last.points := hfollows.points
  unfold OneToken at htokens
  rw [hfollows.state, hpoints] at htokens
  exact poolIntact_of_tokens htokens

/-- A client with a character that leaves: the agent is back in the pool. -/
theorem pool_intact_visit :
    ∃ last : Configuration skynet Place Server, PoolIntact last.state last.points ∧
      (last.threads.length, last.state.pool) = (0, [100]) := by
  obtain ⟨last, hrun, hlast⟩ := gameServer.exists_run_of_playMeeting
    (Resumes fun configuration place reply ↦
      Recycles configuration.state configuration.points place reply) (opened [100] 10)
    [.arrive (.event (.socketOpen 7)), .resume 0 .ok [],
      .arrive (.event (.socketData 7 (.login 1 2))), .resume 0 .ok [], .resume 0 (.number 5) [],
      .resume 0 .ok [], .resume 0 .ok [], .resume 0 .ok [],
      .arrive (.event (.pick 100 9)), .resume 0 .ok [],
      .arrive (.event (.socketClose 7)), .resume 0 .ok [], .resume 0 .ok [], .resume 0 .ok [],
      .resume 0 .ok [], .resume 0 .ok [], .resume 0 .ok []]
    (fun last ↦ (last.threads.length, last.state.pool)) (show _ = some (0, [100]) by decide +kernel)
  exact ⟨last, pool_intact (by decide) hrun, hlast⟩

/-- Two close events of one socket whose agent saves its character both times: the agent is twice in the
pool. -/
theorem agent_recycled_twice :
    ∃ last, gameServer.AnyRun (opened [100] 10) last ∧
      (last.threads.length, last.state.pool) = (0, [100, 100]) :=
  gameServer.exists_run_of_playAll _
    [.arrive (.event (.socketOpen 7)), .resume 0 .ok [],
      .arrive (.event (.socketData 7 (.login 1 2))), .resume 0 .ok [], .resume 0 (.number 5) [],
      .resume 0 .ok [], .resume 0 .ok [], .resume 0 .ok [],
      .arrive (.event (.pick 100 9)), .resume 0 .ok [],
      .arrive (.event (.socketClose 7)), .arrive (.event (.socketClose 7)),
      .resume 0 .ok [], .resume 1 .ok [], .resume 0 .ok [], .resume 1 .ok [],
      .resume 0 .ok [], .resume 0 .ok [], .resume 0 .ok [], .resume 0 .ok [],
      .resume 0 .ok [], .resume 0 .ok [], .resume 0 .ok [], .resume 0 .ok []]
    (fun last ↦ (last.threads.length, last.state.pool)) (by decide +kernel)

end SvrDemo.Gamed
