import SvrDemo.Gamed.LoginTurns

/-!
# The connections are counted

The gate keeps the connections of its sockets in a table and their number in `nclient`, which
`MSG.open` compares with `maxclient`. `close_fd` looks the connection up, calls `CMD.close` of its agent,
waits, and only then removes it from the table and from the count. When a second close or error event of
the same socket comes up meanwhile, it finds the connection as well: `CMD.close` is called twice for
one connection, and `nclient` goes down twice, for good.

As long as every close event is taken up when no `close_fd` of its socket is under way, and no socket is
opened twice, the count is right in every state, the limit is kept, and no agent is told twice to
close. The program of the gate needs both: the first is what its test of the connection is there for.
-/

set_option autoImplicit false
set_option relaxedAutoImplicit false

namespace SvrDemo.Gamed

open Coroutine Lua Skynet

variable {linked : Prop} {point : Served} {origin target last : Watched} {heard : List Answer}
  {next : Option Place}

/-! ### The condition -/

/-- A close event of a socket is taken up while no `close_fd` of it is under way, and a socket is opened
when the table does not have it. -/
def Event.InTurn (configuration : Configuration skynet Served Watched) : Event → Prop
  | .socketOpen fd => fd ∉ configuration.state.server.connection.keys
  | .socketClose fd => ∀ other ∈ configuration.points, other.closes fd = false
  | _ => True

instance (configuration : Configuration skynet Served Watched) :
    (event : Event) → Decidable (event.InTurn configuration)
  | .socketOpen fd => inferInstanceAs (Decidable (fd ∉ configuration.state.server.connection.keys))
  | .socketClose fd => inferInstanceAs (Decidable (∀ other ∈ configuration.points, other.closes fd = false))
  | .socketData _ _ | .kick _ | .clientFailure _ | .pick _ _ | .worldEnter _ _ | .mapEnter _ _ =>
    inferInstanceAs (Decidable True)

/-- The coroutine that is resumed does not take up an event out of its turn. -/
def InTurn (configuration : Configuration skynet Served Watched) (point : Served) (_ : Answer) : Prop :=
  point.underWay = false → point.event.InTurn configuration

instance (configuration : Configuration skynet Served Watched) (point : Served) (reply : Answer) :
    Decidable (InTurn configuration point reply) :=
  inferInstanceAs (Decidable (point.underWay = false → point.event.InTurn configuration))

/-! ### The effects on the connections -/

/-- What a section means for the connections: one is accepted, its agent is called, it is dropped, or
nothing. -/
inductive ConnectionEffect (point : Served) (origin : Watched) (left : List Served) (last : Watched) :
    Prop
  | keeps (keys : last.server.connection.keys = origin.server.connection.keys)
      (nclient : last.server.nclient = origin.server.nclient) (calls : last.calls = origin.calls)
      (closes : ∀ fd, left.countP (Served.closes fd) = [point].countP (Served.closes fd)) :
      ConnectionEffect point origin left last
  | accepted (fd : ℕ) (event : point.event = .socketOpen fd) (starts : point.underWay = false)
      (limit : origin.server.nclient < origin.server.maxclient)
      (keys : last.server.connection.keys = insert fd origin.server.connection.keys)
      (nclient : last.server.nclient = origin.server.nclient + 1)
      (calls : ∀ other, last.calls other = origin.calls other ∨ last.calls other = 0)
      (fresh : fd ∉ origin.server.connection.keys → last.calls fd = 0)
      (others : ∀ other ∈ origin.server.connection.keys, last.calls other = origin.calls other)
      (leaves : left = []) : ConnectionEffect point origin left last
  | calls (fd : ℕ) (event : point.event = .socketClose fd) (starts : point.underWay = false)
      (connection : fd ∈ origin.server.connection.keys)
      (keys : last.server.connection.keys = origin.server.connection.keys)
      (nclient : last.server.nclient = origin.server.nclient)
      (calls : last.calls = Function.update origin.calls fd (origin.calls fd + 1))
      (closes : ∀ other, left.countP (Served.closes other) = if other = fd then 1 else 0) :
      ConnectionEffect point origin left last
  | dropped (fd : ℕ) (event : point.event = .socketClose fd)
      (connection : point.underWay = false → fd ∈ origin.server.connection.keys)
      (keys : last.server.connection.keys = origin.server.connection.keys.erase fd)
      (nclient : last.server.nclient = origin.server.nclient - 1) (calls : last.calls = origin.calls)
      (leaves : left = []) : ConnectionEffect point origin left last

/-- A coroutine that does not serve the end of a socket is not in the middle of `close_fd`. -/
theorem countP_closes_of_ne (hevent : point.event.closeOf = none) (fd : ℕ) :
    (next.map (Served.mk point.event)).toList.countP (Served.closes fd) =
      [point].countP (Served.closes fd) := by
  have hkind : ∀ place, (Served.mk point.event place).closes fd = false := by
    intro place
    rw [Served.closes, hevent, decide_eq_false (Option.some_ne_none fd).symm, Bool.and_false]
  rw [List.countP_singleton, if_neg (Bool.eq_false_iff.mp (hkind point.place))]
  cases next with
  | none => rfl
  | some place =>
    rw [Option.map_some, Option.toList_some, List.countP_singleton,
      if_neg (Bool.eq_false_iff.mp (hkind place))]

/-- A coroutine in the middle of `close_fd` that goes on with it. -/
theorem countP_closes_of_underWay {place : Place} (hbefore : point.underWay = true)
    (hafter : (Served.mk point.event place).underWay = true) (fd : ℕ) :
    ((some place).map (Served.mk point.event)).toList.countP (Served.closes fd) =
      [point].countP (Served.closes fd) := by
  have hkind : (Served.mk point.event place).closes fd = point.closes fd := by
    rw [Served.closes, Served.closes, hbefore, hafter]
  rw [Option.map_some, Option.toList_some, List.countP_singleton, List.countP_singleton, hkind]

/-- A coroutine that has not had its first turn and is done. -/
theorem countP_closes_of_starts (hstarts : point.underWay = false) (fd : ℕ) :
    [point].countP (Served.closes fd) = 0 := by
  rw [List.countP_singleton, Served.closes, hstarts, Bool.false_and]
  rfl

theorem Served.underWay_of_stage {agent : ℕ} (hstage : point.place.stage = some agent) :
    point.underWay = true := by
  refine decide_eq_true fun hplace ↦ ?_
  rw [hplace] at hstage
  exact nomatch hstage

theorem Served.underWay_of_finishes {agent : ℕ} (hfinishes : point.place.finishes = some agent) :
    point.underWay = true := by
  refine decide_eq_true fun hplace ↦ ?_
  rw [hplace] at hfinishes
  exact nomatch hfinishes

/-- `CMD.close` of an agent, before `user = nil`, is part of a `close_fd` that has begun. -/
theorem Served.underWay_of_closes {agent : ℕ} {open' : Prop}
    (hcloses : point.place = .toAgent agent .close ∧ open' ∨ point.place.stage = some agent) :
    point.underWay = true :=
  hcloses.elim (fun hcall ↦ Served.underWay_of_eq hcall.1 fun _ ↦ Place.noConfusion)
    Served.underWay_of_stage

/-- Where a coroutine goes on without another effect, the `close_fd` under way stay. -/
theorem Flow.closes (h : Flow point origin heard next) (fd : ℕ) :
    (next.map (Served.mk point.event)).toList.countP (Served.closes fd) =
      [point].countP (Served.closes fd) := by
  cases h with
  | refused other hevent => exact countP_closes_of_ne (congrArg Event.closeOf hevent) fd
  | other hevent =>
    refine countP_closes_of_ne ?_ fd
    cases hpoint : point.event with
    | socketClose other =>
      rw [hpoint] at hevent
      exact nomatch hevent
    | _ => rfl
  | absent other hevent hstarts =>
    exact (countP_closes_of_starts (decide_eq_false (not_not.mpr hstarts)) fd).symm
  | staged other agent hevent hcloses hstage =>
    exact countP_closes_of_underWay (Served.underWay_of_closes hcloses)
      (Served.underWay_of_stage hstage) fd
  | notOpen other agent hevent hplace =>
    exact countP_closes_of_underWay (Served.underWay_of_eq hplace fun _ ↦ Place.noConfusion)
      (Served.underWay_of_finishes rfl) fd
  | failed other agent userFd hevent hcloses =>
    exact countP_closes_of_underWay (Served.underWay_of_closes hcloses)
      (Served.underWay_of_finishes rfl) fd
  | finishing other agent hevent hbefore _ hafter =>
    exact countP_closes_of_underWay (Served.underWay_of_finishes hbefore)
      (Served.underWay_of_finishes hafter) fd
  | login other message hevent => exact countP_closes_of_ne (congrArg Event.closeOf hevent) fd
  | loginDies other message hevent => exact countP_closes_of_ne (congrArg Event.closeOf hevent) fd
  | flushDies other agent message message' hevent =>
    exact countP_closes_of_ne (congrArg Event.closeOf hevent) fd

/-- Every section has one of these effects on the connections. -/
theorem Effect.connections (h : Effect linked point origin heard next target)
    (hcalm : Calm target last) :
    ConnectionEffect point origin (next.map (Served.mk point.event)).toList last := by
  have hkeeps : target.server.connection.keys = origin.server.connection.keys →
      target.server.nclient = origin.server.nclient → target.calls = origin.calls →
        (∀ fd, (next.map (Served.mk point.event)).toList.countP (Served.closes fd) =
          [point].countP (Served.closes fd)) →
          ConnectionEffect point origin (next.map (Served.mk point.event)).toList last := by
    intro hkeys hnclient hcalls hcloses
    refine .keeps ?_ (hcalm.nclient.trans hnclient) (hcalm.calls.trans hcalls) hcloses
    rw [hcalm.connection, hkeys]
  cases h with
  | flow hflow => exact hkeeps rfl rfl rfl hflow.closes
  | accepted fd hevent hstarts hlimit =>
    have hcalls : ∀ other, last.calls other =
        if other ∈ (origin.server.connection.insert fd none).keys ∧
          other ∉ origin.server.connection.keys then 0 else origin.calls other :=
      fun other ↦ congrFun hcalm.calls other
    refine .accepted fd hevent (decide_eq_false (not_not.mpr hstarts)) hlimit ?_ hcalm.nclient
      (fun other ↦ ?_) (fun hfresh ↦ ?_) (fun other hother ↦ ?_) rfl
    · rw [hcalm.connection]
      exact Table.keys_insert _ fd none
    · rw [hcalls]
      split
      · exact .inr rfl
      · exact .inl rfl
    · rw [hcalls, if_pos ⟨by rw [Table.keys_insert]; exact Finset.mem_insert_self fd _, hfresh⟩]
    · rw [hcalls, if_neg fun hnew ↦ hnew.2 hother]
  | calls fd agent hevent hstarts hconnection =>
    refine .calls fd hevent (decide_eq_false (not_not.mpr hstarts))
      (Table.mem_keys_iff.mpr ⟨_, hconnection⟩) (congrArg _ hcalm.connection) hcalm.nclient hcalm.calls
      fun other ↦ ?_
    rw [Option.map_some, Option.toList_some, List.countP_singleton]
    refine if_congr (Served.closes_iff.trans ?_) rfl rfl
    refine ⟨fun h ↦ ?_, fun hother ↦ ⟨Place.noConfusion, hother ▸ hevent⟩⟩
    exact (Event.socketClose.inj (hevent.symm.trans h.2)).symm
  | dropped fd hevent hdrops =>
    have herase : (origin.server.connection.erase fd).keys ⊆ origin.server.connection.keys :=
      Table.keys_erase_subset _ fd
    rw [Watched.put_eq (by exact herase) (by exact subset_rfl)] at hcalm
    refine .dropped fd hevent (fun hstarts ↦ ?_) ?_ hcalm.nclient hcalm.calls rfl
    · rcases hdrops with ⟨-, hconnection⟩ | ⟨agent, hplace⟩
      · exact Table.mem_keys_iff.mpr ⟨_, hconnection⟩
      · rw [Served.underWay_of_eq hplace fun _ ↦ Place.noConfusion] at hstarts
        exact nomatch hstarts
    · rw [hcalm.connection]
      exact Finmap.keys_erase fd _
  | erased fd agent account hevent hcloses =>
    exact hkeeps rfl rfl rfl (countP_closes_of_underWay (Served.underWay_of_closes hcloses)
      (Served.underWay_of_finishes rfl))
  | recycled fd agent account hevent hplace =>
    exact hkeeps rfl rfl rfl (countP_closes_of_underWay
      (Served.underWay_of_eq hplace fun _ ↦ Place.noConfusion) (Served.underWay_of_finishes rfl))
  | lost fd message hevent => exact hkeeps rfl rfl rfl (countP_closes_of_ne (congrArg _ hevent))
  | redirected fd agent message hevent =>
    exact hkeeps rfl rfl rfl (countP_closes_of_ne (congrArg _ hevent))
  | queued fd message queue hevent => exact hkeeps rfl rfl rfl (countP_closes_of_ne (congrArg _ hevent))
  | noLogin fd message hevent => exact hkeeps rfl rfl rfl (countP_closes_of_ne (congrArg _ hevent))
  | begins fd session token message hevent =>
    exact hkeeps rfl rfl rfl (countP_closes_of_ne (congrArg _ hevent))
  | fails fd session token message hevent =>
    exact hkeeps rfl rfl rfl (countP_closes_of_ne (congrArg _ hevent))
  | assigned fd agent account message hevent =>
    exact hkeeps rfl rfl rfl (countP_closes_of_ne (congrArg _ hevent))
  | opened fd agent account message hevent =>
    exact hkeeps rfl rfl rfl (countP_closes_of_ne (congrArg _ hevent))
  | forwarded fd agent account message hevent =>
    exact hkeeps (Table.keys_update _ fd _) rfl rfl (countP_closes_of_ne (congrArg _ hevent))
  | flushes fd agent message first second hevent =>
    exact hkeeps rfl rfl rfl (countP_closes_of_ne (congrArg _ hevent))
  | flushed fd agent message first hevent =>
    exact hkeeps rfl rfl rfl (countP_closes_of_ne (congrArg _ hevent))

/-- No section changes the limit. -/
theorem Effect.maxclient_eq (h : Effect linked point origin heard next target)
    (hcalm : Calm target last) : last.server.maxclient = origin.server.maxclient := by
  rw [hcalm.maxclient]
  cases h <;> rfl

/-! ### The invariant -/

/-- The connections are counted, the limit is kept, the gate refuses a socket when the limit is reached,
and the agent of a connection has been called at most once to close. -/
structure Watched.Accounted (whole : Watched) : Prop where
  counts : whole.server.nclient = whole.server.connection.size
  limit : (whole.server.connection.size : ℤ) ≤ max 0 whole.server.maxclient
  refuses : whole.server.nclient ≥ whole.server.maxclient ↔
    (whole.server.connection.size : ℤ) ≥ whole.server.maxclient
  calls : ∀ fd, whole.calls fd ≤ 1

/-- The connections are accounted for, and the `close_fd` under way are those of connections that are
still in the table, one for each. -/
structure Tallied (whole : Watched) (points : List Served) : Prop where
  counts : whole.server.nclient = whole.server.connection.size
  limit : (whole.server.connection.size : ℤ) ≤ max 0 whole.server.maxclient
  calls : ∀ fd, whole.calls fd ≤ 1
  alone : ∀ fd, points.countP (Served.closes fd) ≤ 1
  present : ∀ fd, 0 < points.countP (Served.closes fd) → fd ∈ whole.server.connection.keys
  uncalled : ∀ fd ∈ whole.server.connection.keys, points.countP (Served.closes fd) = 0 →
    whole.calls fd = 0

theorem Tallied.accounted {whole : Watched} {points : List Served} (h : Tallied whole points) :
    whole.Accounted :=
  ⟨h.counts, h.limit, by rw [h.counts], h.calls⟩

theorem tallied_opened (pool : List ℕ) (maxclient : ℤ) :
    Tallied (watchedOpened pool maxclient).state (watchedOpened pool maxclient).points where
  counts := rfl
  limit := le_max_left 0 maxclient
  calls _ := Nat.zero_le 1
  alone _ := Nat.zero_le 1
  present _ hpos := absurd hpos (lt_irrefl 0)
  uncalled _ _ _ := rfl

/-- A connection is accepted whose socket is not in the table. -/
theorem Tallied.accepted {before after : List Served} (h : Tallied origin (before ++ point :: after))
    {fd : ℕ} (hfresh : fd ∉ origin.server.connection.keys) (hstarts : point.underWay = false)
    (hlimit : origin.server.nclient < origin.server.maxclient)
    (hmaxclient : last.server.maxclient = origin.server.maxclient)
    (hkeys : last.server.connection.keys = insert fd origin.server.connection.keys)
    (hnclient : last.server.nclient = origin.server.nclient + 1)
    (hcalls : ∀ other, last.calls other = origin.calls other ∨ last.calls other = 0)
    (hnew : last.calls fd = 0)
    (hothers : ∀ other ∈ origin.server.connection.keys, last.calls other = origin.calls other) :
    Tallied last (before ++ [] ++ after) := by
  have hcount : ∀ other, (before ++ [] ++ after).countP (Served.closes other) =
      (before ++ point :: after).countP (Served.closes other) := by
    intro other
    have hsum := countP_step (Served.closes other) before after [] point
    rw [countP_closes_of_starts hstarts] at hsum
    exact hsum
  have hsize : (last.server.connection.size : ℤ) = origin.server.connection.size + 1 := by
    rw [Table.size, hkeys, Finset.card_insert_of_notMem hfresh]
    exact Nat.cast_succ _
  have hcounts := h.counts
  refine ⟨by omega, ?_, fun other ↦ ?_, fun other ↦ ?_, fun other hpos ↦ ?_, fun other hother hzero ↦ ?_⟩
  · rw [hmaxclient, hsize]
    exact le_max_of_le_right (by omega)
  · rcases hcalls other with hsame | hzero
    · rw [hsame]
      exact h.calls other
    · rw [hzero]
      exact Nat.zero_le 1
  · rw [hcount]
    exact h.alone other
  · rw [hcount] at hpos
    rw [hkeys]
    exact Finset.mem_insert_of_mem (h.present other hpos)
  · rw [hkeys, Finset.mem_insert] at hother
    rw [hcount] at hzero
    rcases hother with rfl | hold
    · exact hnew
    · rw [hothers other hold]
      exact h.uncalled other hold hzero

/-- `close_fd` begins when no other one of its socket is under way. -/
theorem Tallied.called {before after left : List Served}
    (h : Tallied origin (before ++ point :: after)) {fd : ℕ}
    (hturn : (before ++ point :: after).countP (Served.closes fd) = 0)
    (hstarts : point.underWay = false) (hmem : fd ∈ origin.server.connection.keys)
    (hmaxclient : last.server.maxclient = origin.server.maxclient)
    (hkeys : last.server.connection.keys = origin.server.connection.keys)
    (hnclient : last.server.nclient = origin.server.nclient)
    (hcalls : last.calls = Function.update origin.calls fd (origin.calls fd + 1))
    (hleft : ∀ other, left.countP (Served.closes other) = if other = fd then 1 else 0) :
    Tallied last (before ++ left ++ after) := by
  have hcount : ∀ other, (before ++ left ++ after).countP (Served.closes other) =
      (before ++ point :: after).countP (Served.closes other) + if other = fd then 1 else 0 := by
    intro other
    have hsum := countP_step (Served.closes other) before after left point
    rw [countP_closes_of_starts hstarts, hleft] at hsum
    exact hsum
  refine ⟨?_, ?_, fun other ↦ ?_, fun other ↦ ?_, fun other hpos ↦ ?_, fun other hother hzero ↦ ?_⟩
  · rw [hnclient, Table.size, hkeys]
    exact h.counts
  · rw [hmaxclient, Table.size, hkeys]
    exact h.limit
  · rw [hcalls]
    by_cases hother : other = fd
    · rw [hother, Function.update_self, h.uncalled fd hmem hturn]
    · rw [Function.update_of_ne hother]
      exact h.calls other
  · rw [hcount]
    by_cases hother : other = fd
    · rw [hother, hturn, if_pos rfl]
    · rw [if_neg hother]
      exact h.alone other
  · rw [hkeys]
    by_cases hother : other = fd
    · rw [hother]
      exact hmem
    · rw [hcount, if_neg hother] at hpos
      exact h.present other hpos
  · rw [hcount] at hzero
    rw [hkeys] at hother
    have hne : other ≠ fd := fun hsame ↦ by simp [hsame] at hzero
    rw [hcalls, Function.update_of_ne hne]
    exact h.uncalled other hother (by omega)

/-- `close_fd` drops its connection. -/
theorem Tallied.dropped {before after : List Served} (h : Tallied origin (before ++ point :: after))
    {fd : ℕ} (hevent : point.event = .socketClose fd)
    (hturn : point.underWay = false → (before ++ point :: after).countP (Served.closes fd) = 0)
    (hmem : point.underWay = false → fd ∈ origin.server.connection.keys)
    (hmaxclient : last.server.maxclient = origin.server.maxclient)
    (hkeys : last.server.connection.keys = origin.server.connection.keys.erase fd)
    (hnclient : last.server.nclient = origin.server.nclient - 1) (hcalls : last.calls = origin.calls) :
    Tallied last (before ++ [] ++ after) := by
  have hcloses : point.closes fd = point.underWay := by
    rw [Served.closes, hevent, Event.closeOf, decide_eq_true rfl, Bool.and_true]
  have hsum := fun other ↦ countP_step (Served.closes other) before after [] point
  have hothers : ∀ other ≠ fd, (before ++ [] ++ after).countP (Served.closes other) =
      (before ++ point :: after).countP (Served.closes other) := by
    intro other hother
    have hpoint : point.closes other = false := by
      rw [Served.closes, hevent, Event.closeOf,
        decide_eq_false fun hsame ↦ hother (Option.some.inj hsame).symm, Bool.and_false]
    have hcount := hsum other
    rw [List.countP_singleton, hpoint] at hcount
    exact hcount
  have hnone : (before ++ [] ++ after).countP (Served.closes fd) = 0 := by
    have hcount := hsum fd
    have halone := h.alone fd
    rw [List.countP_singleton, hcloses, List.countP_nil] at hcount
    cases hunderWay : point.underWay with
    | false =>
      have hzero := hturn hunderWay
      omega
    | true =>
      rw [hunderWay, if_pos rfl] at hcount
      omega
  have hold : fd ∈ origin.server.connection.keys := by
    cases hunderWay : point.underWay with
    | false => exact hmem hunderWay
    | true =>
      refine h.present fd (List.countP_pos_iff.mpr ⟨point, ?_, hcloses.trans hunderWay⟩)
      exact List.mem_append_right before List.mem_cons_self
  have hsize : (last.server.connection.size : ℤ) + 1 = origin.server.connection.size := by
    rw [Table.size, hkeys]
    exact_mod_cast Finset.card_erase_add_one hold
  have hcounts := h.counts
  refine ⟨by omega, ?_, fun other ↦ ?_, fun other ↦ ?_, fun other hpos ↦ ?_, fun other hother hzero ↦ ?_⟩
  · rw [hmaxclient]
    exact le_trans (by omega) h.limit
  · rw [hcalls]
    exact h.calls other
  · by_cases hother : other = fd
    · rw [hother, hnone]
      exact Nat.zero_le 1
    · rw [hothers other hother]
      exact h.alone other
  · have hother : other ≠ fd := by
      rintro rfl
      omega
    rw [hothers other hother] at hpos
    rw [hkeys]
    exact Finset.mem_erase.mpr ⟨hother, h.present other hpos⟩
  · rw [hkeys] at hother
    obtain ⟨hne, hother⟩ := Finset.mem_erase.mp hother
    rw [hcalls]
    exact h.uncalled other hother ((hothers other hne).symm.trans hzero)

/-- Every section that is taken up in its turn keeps the connections accounted for. -/
theorem Tallied.step {before after left : List Served}
    (h : Tallied origin (before ++ point :: after))
    (hopen : ∀ fd, point.event = .socketOpen fd → point.underWay = false →
      fd ∉ origin.server.connection.keys)
    (hclose : ∀ fd, point.event = .socketClose fd → point.underWay = false →
      (before ++ point :: after).countP (Served.closes fd) = 0)
    (hmaxclient : last.server.maxclient = origin.server.maxclient)
    (heffect : ConnectionEffect point origin left last) : Tallied last (before ++ left ++ after) := by
  cases heffect with
  | keeps hkeys hnclient hcalls hcloses =>
    have hcount : ∀ fd, (before ++ left ++ after).countP (Served.closes fd) =
        (before ++ point :: after).countP (Served.closes fd) := by
      intro fd
      have hsum := countP_step (Served.closes fd) before after left point
      have hleft := hcloses fd
      omega
    refine ⟨?_, ?_, ?_, fun fd ↦ ?_, fun fd hpos ↦ ?_, fun fd hfd hzero ↦ ?_⟩
    · rw [hnclient, Table.size, hkeys]
      exact h.counts
    · rw [hmaxclient, Table.size, hkeys]
      exact h.limit
    · rw [hcalls]
      exact h.calls
    · rw [hcount]
      exact h.alone fd
    · rw [hcount] at hpos
      rw [hkeys]
      exact h.present fd hpos
    · rw [hcount] at hzero
      rw [hkeys] at hfd
      rw [hcalls]
      exact h.uncalled fd hfd hzero
  | accepted fd hevent hstarts hlimit hkeys hnclient hcalls hfresh hothers hleaves =>
    have hnew := hopen fd hevent hstarts
    rw [hleaves]
    exact h.accepted hnew hstarts hlimit hmaxclient hkeys hnclient hcalls (hfresh hnew) hothers
  | calls fd hevent hstarts hmem hkeys hnclient hcalls hleft =>
    exact h.called (hclose fd hevent hstarts) hstarts hmem hmaxclient hkeys hnclient hcalls hleft
  | dropped fd hevent hmem hkeys hnclient hcalls hleaves =>
    rw [hleaves]
    exact h.dropped hevent (hclose fd hevent) hmem hmaxclient hkeys hnclient hcalls

/-! ### The runs -/

/-- A coroutine before its first turn is in the middle of nothing. -/
theorem countP_arrive {kind : Served → Bool} (points : List Served) {point : Served}
    (hkind : kind point = false) : (points ++ [point]).countP kind = points.countP kind := by
  rw [List.countP_append, List.countP_singleton, hkind]
  exact Nat.add_zero _

/-- An event that arrives is in the middle of nothing. -/
theorem tallied_arrive (configuration : Configuration skynet Served Watched) (point : Served)
    (_ : Resumes InTurn configuration (.arrive point))
    (harrives : watchedServer.arrives point = true)
    (h : Tallied configuration.state configuration.points) :
    Tallied configuration.state (configuration.points ++ [point]) := by
  have hcloses : ∀ fd, point.closes fd = false := by
    intro fd
    have hstarts : point.place = .event point.event := of_decide_eq_true harrives
    rw [Served.closes, Served.underWay, decide_eq_false (not_not.mpr hstarts), Bool.false_and]
  have hcount := fun fd ↦ countP_arrive configuration.points (hcloses fd)
  refine ⟨h.counts, h.limit, h.calls, fun fd ↦ ?_, fun fd ↦ ?_, fun fd ↦ ?_⟩
  · rw [hcount]
    exact h.alone fd
  · rw [hcount]
    exact h.present fd
  · rw [hcount]
    exact h.uncalled fd

/-- A section that is taken up in its turn keeps the connections accounted for. -/
theorem tallied_step (configuration : Configuration skynet Served Watched) (before : List Served)
    (point : Served) (after : List Served) (reply : Answer) (answers : List Answer) (left : List Served)
    (last : Watched)
    (hmeets : Resumes InTurn configuration
      (.resume before.length reply answers))
    (hpoints : configuration.points = before ++ point :: after)
    (_ : OneLogin configuration.state configuration.points)
    (h : Tallied configuration.state configuration.points)
    (hguar : Guarantees linked point configuration.state (reply :: answers) left last) :
    Tallied last (before ++ left ++ after) := by
  have hturn := Resumes.meets hmeets hpoints
  obtain ⟨next, target, rfl, heffect, hcalm⟩ := hguar
  rw [hpoints] at h
  refine h.step (fun fd hevent hstarts ↦ ?_) (fun fd hevent hstarts ↦ ?_)
    (heffect.maxclient_eq hcalm) (heffect.connections hcalm)
  · have hfresh := hturn hstarts
    rw [hevent] at hfresh
    exact hfresh
  · have hothers := hturn hstarts
    rw [hevent] at hothers
    have hothers : ∀ other ∈ before ++ point :: after, other.closes fd = false := hpoints ▸ hothers
    exact List.countP_eq_zero.mpr fun other hother ↦ Bool.eq_false_iff.mp (hothers other hother)

/-- As long as the events come up in their turn, the count of the connections is right in every state,
the limit is kept, and the agent of a connection is called at most once to close. -/
theorem connections_accounted {pool : List ℕ} {maxclient : ℤ}
    {last : Configuration skynet Served Watched}
    (hrun : watchedServer.Run (Resumes InTurn)
      (watchedOpened pool maxclient) last) :
    last.state.Accounted := by
  have hgood := sound_oneLogin.good_of_starts (oneLogin_opened pool maxclient)
    fun _ hmem ↦ absurd hmem List.not_mem_nil
  have hholds : System.Good (watchedContract False) OneLogin last ∧
      Tallied last.state last.points := by
    refine sound_oneLogin.holds_of_run (fun _ _ _ ↦ trivial) ?_ ?_ hgood
      (tallied_opened pool maxclient) hrun
    · exact tallied_arrive
    · exact tallied_step
  exact hholds.2.accounted

/-- A socket that is opened, whose client logs in. -/
def visit (fd session token account : ℕ) : List (Move skynet Served) :=
  [.arrive ⟨.socketOpen fd, .event (.socketOpen fd)⟩, .resume 0 .ok [],
    .arrive ⟨.socketData fd (.login session token), .event (.socketData fd (.login session token))⟩,
    .resume 0 .ok [], .resume 0 (.number account) [], .resume 0 .ok [], .resume 0 .ok [],
    .resume 0 .ok []]

/-- A visit that ends with a close event. -/
theorem connections_accounted_visit :
    ∃ last : Configuration skynet Served Watched, last.state.Accounted ∧
      (last.threads.length, last.state.calls 7) = (0, 1) := by
  obtain ⟨last, hrun, hlast⟩ := watchedServer.exists_run_of_playMeeting (Resumes InTurn)
    (watchedOpened [100] 10)
    (visit 7 1 2 5 ++ [.arrive ⟨.socketClose 7, .event (.socketClose 7)⟩, .resume 0 .ok [],
      .resume 0 .ok [], .resume 0 .ok [], .resume 0 .ok [], .resume 0 .ok []])
    (fun last ↦ (last.threads.length, last.state.calls 7))
    (show _ = some (0, 1) by decide +kernel)
  exact ⟨last, connections_accounted hrun, hlast⟩

/-- Two close events of one socket: when both are done no connection is left and the count is below
zero, and the agent has been called twice. -/
theorem connection_closed_twice :
    ∃ last, watchedServer.AnyRun (watchedOpened [100] 10) last ∧
      (last.threads.length, last.state.server.nclient, last.state.server.connection.size,
        last.state.calls 7) = (0, -1, 0, 2) :=
  watchedServer.exists_run_of_playAll _
    (visit 7 1 2 5 ++ [.arrive ⟨.socketClose 7, .event (.socketClose 7)⟩,
      .arrive ⟨.socketClose 7, .event (.socketClose 7)⟩, .resume 0 .ok [], .resume 1 .ok [],
      .resume 0 .ok [], .resume 0 .ok [], .resume 0 .ok [], .resume 0 .ok [],
      .resume 0 .ok [], .resume 0 .ok [], .resume 0 .ok [], .resume 0 .ok [], .resume 0 .ok [],
      .resume 0 .ok []])
    (fun last ↦ (last.threads.length, last.state.server.nclient, last.state.server.connection.size,
      last.state.calls 7)) (by decide +kernel)

end SvrDemo.Gamed
