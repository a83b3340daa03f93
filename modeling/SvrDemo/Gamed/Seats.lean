import SvrDemo.Gamed.Accounting
import SvrDemo.Gamed.Pool

/-!
# The user of an agent that closes

When `CMD.close` of an agent begins while no other one of the same agent waits, the user it finds is
the user it removes at the end: nobody else removes him, and `CMD.open` comes only to an agent that has no
user. So the account that the agent reports to the game server is the account of the user that has gone.
This is the stronger contract of the coroutines, `sound_seated`.
-/

set_option autoImplicit false
set_option relaxedAutoImplicit false

namespace SvrDemo.Gamed

open Coroutine Lua Skynet

variable {linked : Prop} {point : Served} {origin target last : Watched} {heard : List Answer}
  {next : Option Place} {before after : List Served}

/-- A coroutine in the middle of `CMD.close` of an agent, before `user = nil`. -/
def Served.stages (agent : ℕ) (point : Served) : Bool :=
  decide (point.place.stage = some agent)

/-- The socket and the account of the user of an agent. -/
def Server.owner (agent : ℕ) (server : Server) : Option (ℕ × ℕ) :=
  (server.user.lookup agent).map User.owner

theorem Server.owner_eq_none_iff {agent : ℕ} {server : Server} :
    server.owner agent = none ↔ agent ∉ server.user.keys := by
  rw [Server.owner, Option.map_eq_none_iff, Finmap.mem_keys, Finmap.lookup_eq_none]

/-! ### What a section does with the users -/

/-- A section opens the agent of its `CMD.open`, or ends its own `CMD.close`, or keeps the users. -/
inductive UserEffect (linked : Prop) (point : Served) (origin : Watched) (next : Option Place)
    (last : Watched) : Prop
  | keeps (owner : ∀ agent, last.server.owner agent = origin.server.owner agent) :
      UserEffect linked point origin next last
  | opened (fd agent account : ℕ) (message : Message) (event : point.event = .socketData fd message)
      (place : point.place = .toAgent agent (.open fd account)) (leaves : next = some (.uniqueService agent))
      (taken : origin.taken fd = some agent) (owner : last.server.owner agent = some (fd, account))
      (others : ∀ other ≠ agent, last.server.owner other = origin.server.owner other) :
      UserEffect linked point origin next last
  | erased (fd agent account : ℕ) (event : point.event = .socketClose fd)
      (closes : point.place = .toAgent agent .close ∨ point.place.stage = some agent)
      (leaves : next = some (.toGamed (.close agent (some account))))
      (account : linked → (origin.server.owner agent).map Prod.snd = some account)
      (owner : last.server.owner agent = none)
      (others : ∀ other ≠ agent, last.server.owner other = origin.server.owner other) :
      UserEffect linked point origin next last

/-- Every section has one of these effects on the users. -/
theorem Effect.users (h : Effect linked point origin heard next target) (hcalm : Calm target last) :
    UserEffect linked point origin next last := by
  have hkeeps : target.server.user = origin.server.user → UserEffect linked point origin next last :=
    fun huser ↦ .keeps fun agent ↦ (hcalm.owner agent).trans (by rw [huser, Server.owner])
  cases h with
  | opened fd agent account message hevent hplace htaken =>
    refine .opened fd agent account message hevent hplace rfl htaken ((hcalm.owner agent).trans ?_)
      fun other hother ↦ (hcalm.owner other).trans ?_
    · rw [Table.lookup_insert_eq, if_pos rfl]
      rfl
    · rw [Table.lookup_insert_eq, if_neg hother, Server.owner]
  | erased fd agent account hevent hcloses hpresent howner =>
    refine .erased fd agent account hevent (hcloses.imp_left And.left) rfl (fun hlinked ↦ ?_)
      ((hcalm.owner agent).trans ?_) fun other hother ↦ (hcalm.owner other).trans ?_
    · rw [Server.owner, Option.map_map]
      exact howner (.inl hlinked)
    · rw [Table.lookup_erase_eq, if_pos rfl]
      rfl
    · rw [Table.lookup_erase_eq, if_neg hother, Server.owner]
  | _ => exact hkeeps rfl

/-- Where a coroutine enters `CMD.close` of an agent, or goes on with it. -/
theorem Effect.stages (h : Effect linked point origin heard next target) {place : Place} {agent : ℕ}
    (hplace : next = some place) (hstage : place.stage = some agent) :
    point.place = .toAgent agent .close ∧ agent ∈ origin.server.user.keys ∨
      point.place.stage = some agent := by
  cases h with
  | flow hflow =>
    cases hflow with
    | refused => exact nomatch hplace
    | other hevent hkicks =>
      have hkick := hkicks place hplace
      cases place with
      | mapLeave | worldLeave | saveCharacter => exact nomatch hkick
      | _ => exact nomatch hstage
    | absent => exact nomatch hplace
    | staged fd other hevent hcloses hother =>
      obtain rfl := Option.some.inj hplace
      obtain rfl := Option.some.inj (hother.symm.trans hstage)
      exact hcloses
    | notOpen =>
      obtain rfl := Option.some.inj hplace
      exact nomatch hstage
    | failed =>
      obtain rfl := Option.some.inj hplace
      exact nomatch hstage
    | finishing fd other hevent hbefore hcarries hafter =>
      obtain rfl := Option.some.inj hplace
      rename_i place _
      cases place with
      | mapLeave | worldLeave | saveCharacter => exact nomatch hafter
      | _ => exact nomatch hstage
    | login fd message hevent hbefore hcarries hafter =>
      obtain rfl := Option.some.inj hplace
      rename_i place _
      cases place with
      | mapLeave | worldLeave | saveCharacter => exact nomatch hafter
      | _ => exact nomatch hstage
    | loginDies => exact nomatch hplace
    | flushDies => exact nomatch hplace
  | forwarded fd other account message hevent _ _ hflush =>
    split at hflush
    · exact nomatch hflush.1.symm.trans hplace
    · exact nomatch hflush.1.symm.trans hplace
    · obtain rfl := Option.some.inj (hflush.1.symm.trans hplace)
      exact nomatch hstage
  | accepted | dropped | lost | redirected | queued | noLogin | fails | flushed => exact nomatch hplace
  | calls | erased | recycled | begins | assigned | opened | flushes =>
    obtain rfl := Option.some.inj hplace
    exact nomatch hstage

/-- Whoever is in the world has a character, after every section. -/
theorem Effect.worldly (h : Effect linked point origin heard next target) (hcalm : Calm target last)
    (agent : ℕ) (hworldly : origin.server.Worldly agent) : last.server.Worldly agent := by
  refine hcalm.worldly agent ?_
  cases h with
  | opened fd other account =>
    intro user huser
    rw [Table.lookup_insert_eq] at huser
    split at huser
    · obtain rfl := Option.some.inj huser
      exact fun hworld ↦ absurd rfl hworld
    · exact hworldly user huser
  | erased fd other account =>
    intro user huser
    exact hworldly user (Table.lookup_of_erase huser)
  | _ => exact hworldly

/-! ### The invariant -/

/-- Every agent is in one place, and at most one `CMD.close` of it waits before `user = nil`, while it has
a user. -/
structure Seated (whole : Watched) (points : List Served) : Prop where
  login : OneLogin whole points
  token : OneToken whole points
  alone : ∀ agent, points.countP (Served.stages agent) ≤ 1
  present : ∀ agent, 0 < points.countP (Served.stages agent) → agent ∈ whole.server.user.keys
  worldly : ∀ agent, whole.server.Worldly agent

theorem seated_opened {pool : List ℕ} (hnodup : pool.Nodup) (maxclient : ℤ) :
    Seated (watchedOpened pool maxclient).state [] where
  login := oneLogin_opened pool maxclient
  token agent := List.nodup_iff_count_le_one.mp hnodup agent
  alone _ := Nat.zero_le 1
  present _ hpos := absurd hpos (lt_irrefl 0)
  worldly _ _ huser := nomatch huser

/-- `CMD.close` of an agent begins while no other one of it waits, and a new service is an agent that
nobody knows. -/
structure Seats (configuration : Configuration skynet Served Watched) (point : Served) (reply : Answer) :
    Prop where
  close : ∀ agent, point.place = .toAgent agent .close →
    ∀ other ∈ configuration.points, other.stages agent = false
  fresh : ∀ fd account (address : ℤ), point.place = .newService fd account → reply = .number address →
    tokens address.toNat configuration.state.server (configuration.points.map Served.place) = 0

/-- The coroutines that wait in `CMD.close` of an agent after a section. -/
theorem Seated.countP_stages (h : Seated origin (before ++ point :: after))
    (hclose : ∀ agent, point.place = .toAgent agent .close →
      (before ++ point :: after).countP (Served.stages agent) = 0)
    (heffect : Effect linked point origin heard next target) (agent : ℕ) :
    (before ++ (next.map (Served.mk point.event)).toList ++ after).countP (Served.stages agent) ≤ 1 ∧
      (0 < (before ++ (next.map (Served.mk point.event)).toList ++ after).countP (Served.stages agent) →
        agent ∈ origin.server.user.keys) := by
  have hsum := countP_step (Served.stages agent) before after
    (next.map (Served.mk point.event)).toList point
  have halone := h.alone agent
  have hpresent := h.present agent
  rw [List.countP_singleton] at hsum
  cases hnext : next with
  | none =>
    rw [hnext] at hsum
    simp only [Option.map_none, Option.toList_none, List.countP_nil] at hsum ⊢
    exact ⟨by omega, fun hpos ↦ hpresent (by omega)⟩
  | some place =>
    rw [hnext] at hsum
    simp only [Option.map_some, Option.toList_some, List.countP_singleton] at hsum ⊢
    by_cases hstage : place.stage = some agent
    · rw [if_pos (show Served.stages agent ⟨point.event, place⟩ = true from decide_eq_true hstage)] at hsum
      rcases heffect.stages hnext hstage with ⟨hplace, hmem⟩ | hpoint
      · have hzero := hclose agent hplace
        exact ⟨by omega, fun _ ↦ hmem⟩
      · rw [if_pos (show point.stages agent = true from decide_eq_true hpoint)] at hsum
        exact ⟨by omega, fun hpos ↦ hpresent (by omega)⟩
    · rw [if_neg (show ¬ Served.stages agent ⟨point.event, place⟩ = true by
        rw [Served.stages, decide_eq_true_iff]
        exact hstage)] at hsum
      exact ⟨by omega, fun hpos ↦ hpresent (by omega)⟩

/-- Every section keeps the invariant. -/
theorem Seated.step (h : Seated origin (before ++ point :: after)) {reply : Answer}
    {answers : List Answer}
    (hclose : ∀ agent, point.place = .toAgent agent .close →
      (before ++ point :: after).countP (Served.stages agent) = 0)
    (hfresh : Recycles origin.server ((before ++ point :: after).map Served.place) point.place reply)
    (heffect : Effect linked point origin (reply :: answers) next target) (hcalm : Calm target last) :
    Seated last (before ++ (next.map (Served.mk point.event)).toList ++ after) where
  login := h.login.step (heffect.logins hcalm)
  token := h.token.step hfresh heffect hcalm
  alone agent := (h.countP_stages hclose heffect agent).1
  present agent hpos := by
    have hmem := (h.countP_stages hclose heffect agent).2 hpos
    by_contra hgone
    rw [← Server.owner_eq_none_iff] at hgone
    -- only the end of its own `CMD.close` removes a user
    rcases heffect.users hcalm with howner | ⟨_, other, _, _, _, _, _, _, howner, hothers⟩ |
      ⟨_, other, account, _, hcloses, hleaves, _, _, hothers⟩
    · rw [howner, Server.owner_eq_none_iff] at hgone
      exact hgone hmem
    · by_cases hsame : agent = other
      · rw [hsame, howner] at hgone
        exact nomatch hgone
      · rw [hothers agent hsame, Server.owner_eq_none_iff] at hgone
        exact hgone hmem
    · by_cases hsame : agent = other
      · have hsum := countP_step (Served.stages agent) before after
          (next.map (Served.mk point.event)).toList point
        have hleft : ((some (Place.toGamed (.close other (some account)))).map
            (Served.mk point.event)).toList.countP (Served.stages agent) = 0 := rfl
        rw [← hleaves] at hleft
        rcases hcloses with hplace | hstage
        · have hzero := hclose agent (hsame ▸ hplace)
          omega
        · have halone := h.alone agent
          rw [List.countP_singleton, if_pos (show point.stages agent = true from
            decide_eq_true (hsame ▸ hstage))] at hsum
          omega
      · rw [hothers agent hsame, Server.owner_eq_none_iff] at hgone
        exact hgone hmem
  worldly agent := heffect.worldly hcalm agent (h.worldly agent)

/-- The other coroutines that wait in `CMD.close` keep the owners of their agents. -/
theorem Seated.owner_eq (h : Seated origin (before ++ point :: after))
    (hclose : ∀ agent, point.place = .toAgent agent .close →
      (before ++ point :: after).countP (Served.stages agent) = 0)
    (heffect : Effect linked point origin heard next target) (hcalm : Calm target last) {other : Served}
    (hother : other ∈ before ++ after) {agent : ℕ} (hstage : other.place.stage = some agent) :
    last.server.owner agent = origin.server.owner agent := by
  have hkind : other.stages agent = true := decide_eq_true hstage
  have hone := countP_others point hother hkind
  have halone := h.alone agent
  have hmem : agent ∈ origin.server.user.keys := h.present agent (by omega)
  rcases heffect.users hcalm with howner | ⟨fd, opened, account, _, _, hplace, _, _, _, hothers⟩ |
    ⟨_, erased, account, _, hcloses, _, _, _, hothers⟩
  · exact howner agent
  · refine hothers agent fun hsame ↦ ?_
    -- a `CMD.open` comes to agents without a user
    subst hsame
    have htoken := h.token agent
    have hcarried : 0 < ((before ++ point :: after).map Served.place).countP (Place.holds agent) := by
      refine List.countP_pos_iff.mpr ⟨point.place, List.mem_map_of_mem
        (List.mem_append_right before List.mem_cons_self), ?_⟩
      rw [hplace]
      exact decide_eq_true rfl
    unfold tokens at htoken
    rw [if_pos hmem] at htoken
    omega
  · refine hothers agent fun hsame ↦ ?_
    subst hsame
    rcases hcloses with hplace | hstage'
    · have hzero := hclose agent hplace
      omega
    · rw [List.countP_singleton, if_pos (show point.stages agent = true from
        decide_eq_true hstage')] at hone
      omega

/-- No agent is recycled twice. -/
theorem Seated.recycles (h : Seated origin (before ++ point :: after)) {reply : Answer}
    (hfresh : ∀ fd account (address : ℤ), point.place = .newService fd account →
      reply = .number address →
        tokens address.toNat origin.server ((before ++ point :: after).map Served.place) = 0) :
    Recycles origin.server ((before ++ point :: after).map Served.place) point.place reply := by
  cases hplace : point.place with
  | saveCharacter agent character =>
    refine h.present agent (List.countP_pos_iff.mpr ⟨point, ?_, ?_⟩)
    · exact List.mem_append_right before List.mem_cons_self
    · rw [Served.stages, hplace]
      exact decide_eq_true rfl
  | newService fd account =>
    cases reply with
    | number address => exact hfresh fd account address hplace rfl
    | _ => exact trivial
  | _ => exact trivial

/-- The watched game server keeps the stronger contract, as long as `CMD.close` of an agent begins while
no other one of it waits. -/
theorem sound_seated : watchedServer.Sound (watchedContract True) Seated (Resumes Seats) where
  rely_refl := Relies.refl True
  rely_trans _ _ _ _ := Relies.trans
  pre_rely _ _ _ hpre _ := hpre
  entry := keeps_entry
  arrive configuration point _ harrives hinv := by
    have hstarts : point.place = .event point.event := of_decide_eq_true harrives
    have hstages : ∀ agent, point.stages agent = false := fun agent ↦ by
      rw [Served.stages, hstarts]
      rfl
    have hcount := fun agent ↦ countP_arrive configuration.points (hstages agent)
    refine ⟨⟨(sound_oneLogin.arrive configuration point trivial harrives hinv.login).1, fun agent ↦ ?_,
      fun agent ↦ ?_, fun agent ↦ ?_, hinv.worldly⟩, hstarts⟩
    · have htoken := hinv.token agent
      have hnone : [point.place].countP (Place.holds agent) = 0 :=
        countP_holds_none (hstarts ▸ rfl) agent
      unfold tokens at htoken ⊢
      rw [List.map_append, List.map_singleton, List.countP_append, hnone]
      exact htoken
    · rw [hcount]
      exact hinv.alone agent
    · rw [hcount]
      exact hinv.present agent
  step configuration before point after reply answers left last hmeets hpoints hinv hguar := by
    obtain ⟨next, target, rfl, heffect, hcalm⟩ := hguar
    have hseats := Resumes.meets hmeets hpoints
    have hclose : ∀ agent, point.place = .toAgent agent .close →
        (before ++ point :: after).countP (Served.stages agent) = 0 := by
      intro agent hplace
      refine List.countP_eq_zero.mpr fun other hother ↦ Bool.eq_false_iff.mp ?_
      exact hseats.close agent hplace other (hpoints ▸ hother)
    have hfresh := hseats.fresh
    rw [hpoints] at hinv hfresh
    refine ⟨hinv.step hclose (hinv.recycles hfresh) heffect hcalm, fun other hother ↦
      ⟨fun fd message hevent hplace ↦ ?_, fun _ agent hstage ↦ hinv.owner_eq hclose heffect hcalm hother hstage⟩⟩
    exact hinv.login.taken_eq hother heffect hcalm (Served.logsIn_iff.mpr ⟨hplace, message, hevent⟩)

end SvrDemo.Gamed
