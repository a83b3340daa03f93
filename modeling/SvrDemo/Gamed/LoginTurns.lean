import SvrDemo.Gamed.LoginSections

/-!
# One login for a socket

`handler.message` sets `pending_msg[fd]` before it waits for the first time and clears it after its last
wait, and a message that finds the entry only appends to it. So at most one coroutine of a socket is
between the two, and the agent that a login has taken is not changed by another one: this is what
the contract lets the coroutines rely on, `sound_oneLogin`.
-/

set_option autoImplicit false
set_option relaxedAutoImplicit false

namespace SvrDemo.Gamed

open Coroutine Lua Skynet

/-! ### Coroutines that are under way -/

/-- The socket whose message an event brings. -/
def Event.dataOf : Event → Option ℕ
  | .socketData fd _ => some fd
  | _ => none

/-- The socket whose end an event reports. -/
def Event.closeOf : Event → Option ℕ
  | .socketClose fd => some fd
  | _ => none

/-- A coroutine that has had its first turn. -/
def Served.underWay (point : Served) : Bool :=
  decide (point.place ≠ .event point.event)

/-- A coroutine in the middle of `handler.message` for a socket. -/
def Served.logsIn (fd : ℕ) (point : Served) : Bool :=
  point.underWay && decide (point.event.dataOf = some fd)

/-- A coroutine in the middle of `close_fd` for a socket. -/
def Served.closes (fd : ℕ) (point : Served) : Bool :=
  point.underWay && decide (point.event.closeOf = some fd)

theorem Served.logsIn_iff {fd : ℕ} {point : Served} :
    point.logsIn fd = true ↔ point.place ≠ .event point.event ∧ ∃ message,
      point.event = .socketData fd message := by
  have hdata : point.event.dataOf = some fd ↔ ∃ message, point.event = .socketData fd message := by
    cases point.event <;> simp [Event.dataOf]
  rw [Served.logsIn, Bool.and_eq_true, Served.underWay, decide_eq_true_iff, decide_eq_true_iff, hdata]

theorem Served.closes_iff {fd : ℕ} {point : Served} :
    point.closes fd = true ↔ point.place ≠ .event point.event ∧ point.event = .socketClose fd := by
  have hclose : point.event.closeOf = some fd ↔ point.event = .socketClose fd := by
    cases point.event <;> simp [Event.closeOf]
  rw [Served.closes, Bool.and_eq_true, Served.underWay, decide_eq_true_iff, decide_eq_true_iff, hclose]

/-- A section replaces its coroutine by those it leaves, and the others stay. -/
theorem countP_step (kind : Served → Bool) (before after left : List Served) (point : Served) :
    (before ++ left ++ after).countP kind + [point].countP kind =
      (before ++ point :: after).countP kind + left.countP kind := by
  simp only [List.countP_append, List.countP_cons, List.countP_nil]
  omega

/-- The coroutine that runs is one of its kind. -/
theorem countP_others {kind : Served → Bool} {before after : List Served} (point : Served)
    {other : Served} (hother : other ∈ before ++ after) (hkind : kind other = true) :
    1 + [point].countP kind ≤ (before ++ point :: after).countP kind := by
  have hpos : 0 < (before ++ after).countP kind := List.countP_pos_iff.mpr ⟨other, hother, hkind⟩
  simp only [List.countP_append, List.countP_cons, List.countP_nil] at hpos ⊢
  omega

/-! ### The effects on the logins -/

/-- What a section means for the logins: it begins one, it may end its own, or neither. -/
inductive LoginEffect (point : Served) (origin : Watched) (left : List Served) (last : Watched) : Prop
  | keeps (logins : ∀ fd, left.countP (Served.logsIn fd) ≤ [point].countP (Served.logsIn fd))
      (pending : ∀ fd, origin.server.pendingMsg.lookup fd ≠ none →
        last.server.pendingMsg.lookup fd ≠ none) : LoginEffect point origin left last
  | begins (fd : ℕ) (absent : origin.server.pendingMsg.lookup fd = none)
      (logins : ∀ other, left.countP (Served.logsIn other) ≤ if other = fd then 1 else 0)
      (present : last.server.pendingMsg.lookup fd ≠ none)
      (others : ∀ other ≠ fd, last.server.pendingMsg.lookup other =
        origin.server.pendingMsg.lookup other) : LoginEffect point origin left last
  | ends (fd : ℕ) (logsIn : point.logsIn fd = true) (leaves : left = [])
      (others : ∀ other ≠ fd, last.server.pendingMsg.lookup other =
        origin.server.pendingMsg.lookup other) : LoginEffect point origin left last

/-- A coroutine that goes on with a login was in the middle of it. -/
theorem countP_logsIn_le {point : Served} {next : Option Place}
    (h : next = none ∨ point.underWay = true ∨ point.event.dataOf = none) (fd : ℕ) :
    (next.map (Served.mk point.event)).toList.countP (Served.logsIn fd) ≤
      [point].countP (Served.logsIn fd) := by
  cases next with
  | none => exact Nat.zero_le _
  | some place =>
    rw [Option.map_some, Option.toList_some, List.countP_singleton, List.countP_singleton]
    split
    · rename_i hleft
      obtain ⟨-, hdata⟩ := (Bool.and_eq_true _ _).mp hleft
      have hdata : point.event.dataOf = some fd := of_decide_eq_true hdata
      have hunderWay : point.underWay = true := by
        rcases h with hnone | hunderWay | hevent
        · exact nomatch hnone
        · exact hunderWay
        · rw [hevent] at hdata
          exact nomatch hdata
      have hpoint : point.logsIn fd = true := by
        rw [Served.logsIn, hunderWay, hdata, decide_eq_true rfl, Bool.and_self]
      rw [if_pos hpoint]
    · exact Nat.zero_le _

/-- The places of a login come after its event. -/
theorem Served.underWay_of_isLogin {point : Served} (hlogin : point.place.isLogin = true) :
    point.underWay = true := by
  refine decide_eq_true fun hplace ↦ ?_
  rw [hplace] at hlogin
  exact nomatch hlogin

/-- The same of any place with another shape. -/
theorem Served.underWay_of_eq {point : Served} {place : Place} (hplace : point.place = place)
    (hstarts : ∀ event, place ≠ .event event) : point.underWay = true :=
  decide_eq_true (hplace ▸ hstarts point.event)

/-- Where a coroutine goes on without another effect, the logins are kept. -/
theorem Flow.logins {point : Served} {origin : Watched} {heard : List Answer} {next : Option Place}
    (h : Flow point origin heard next) :
    next = none ∨ point.underWay = true ∨ point.event.dataOf = none := by
  have hclose : ∀ fd, point.event = .socketClose fd → point.event.dataOf = none :=
    fun fd hevent ↦ congrArg Event.dataOf hevent
  cases h with
  | refused => exact .inl rfl
  | other hevent =>
    refine .inr (.inr ?_)
    cases hpoint : point.event with
    | socketData fd message =>
      rw [hpoint] at hevent
      exact nomatch hevent
    | _ => rfl
  | absent => exact .inl rfl
  | staged fd _ hevent => exact .inr (.inr (hclose fd hevent))
  | notOpen fd _ hevent => exact .inr (.inr (hclose fd hevent))
  | failed fd _ _ hevent => exact .inr (.inr (hclose fd hevent))
  | finishing fd _ hevent => exact .inr (.inr (hclose fd hevent))
  | login fd _ _ hbefore => exact .inr (.inl (Served.underWay_of_isLogin hbefore))
  | loginDies => exact .inl rfl
  | flushDies => exact .inl rfl

variable {linked : Prop} {point : Served} {origin target last : Watched} {heard : List Answer}
  {next : Option Place}

/-- Every section has one of these effects on the logins. -/
theorem Effect.logins (h : Effect linked point origin heard next target) (hcalm : Calm target last) :
    LoginEffect point origin (next.map (Served.mk point.event)).toList last := by
  have hkeeps : (next = none ∨ point.underWay = true ∨ point.event.dataOf = none) →
      target.server.pendingMsg = origin.server.pendingMsg →
        LoginEffect point origin (next.map (Served.mk point.event)).toList last := by
    intro hnext hpending
    refine .keeps (countP_logsIn_le hnext) fun fd ↦ ?_
    rw [hcalm.pendingMsg, hpending]
    exact id
  have hends : ∀ fd message, point.event = .socketData fd message → point.underWay = true →
      next = none → target.server.pendingMsg = origin.server.pendingMsg.erase fd →
        LoginEffect point origin (next.map (Served.mk point.event)).toList last := by
    intro fd message hevent hunderWay hnext hpending
    refine .ends fd ?_ (by rw [hnext]; rfl) fun other hother ↦ ?_
    · rw [Served.logsIn, hunderWay, hevent, Event.dataOf, decide_eq_true rfl, Bool.and_self]
    · rw [hcalm.pendingMsg, hpending, Table.lookup_erase_eq, if_neg hother]
  cases h with
  | flow hflow => exact hkeeps hflow.logins rfl
  | accepted => exact hkeeps (.inl rfl) rfl
  | calls fd agent hevent => exact hkeeps (.inr (.inr (congrArg Event.dataOf hevent))) rfl
  | dropped => exact hkeeps (.inl rfl) rfl
  | erased fd agent account hevent => exact hkeeps (.inr (.inr (congrArg Event.dataOf hevent))) rfl
  | recycled fd agent account hevent => exact hkeeps (.inr (.inr (congrArg Event.dataOf hevent))) rfl
  | lost => exact hkeeps (.inl rfl) rfl
  | redirected => exact hkeeps (.inl rfl) rfl
  | queued fd message queue =>
    refine .keeps (countP_logsIn_le (.inl rfl)) fun other hother ↦ ?_
    rw [hcalm.pendingMsg, Table.lookup_insert_eq]
    split
    · exact Option.some_ne_none _
    · exact hother
  | noLogin => exact hkeeps (.inl rfl) rfl
  | begins fd session token message hevent _ _ hpending =>
    refine .begins fd hpending (fun other ↦ ?_) ?_ fun other hother ↦ ?_
    · rw [Option.map_some, Option.toList_some, List.countP_singleton]
      split
      · rename_i hleft
        obtain ⟨-, hdata⟩ := (Bool.and_eq_true _ _).mp hleft
        have hdata : point.event.dataOf = some other := of_decide_eq_true hdata
        rw [hevent] at hdata
        obtain rfl := Option.some.inj hdata
        rw [if_pos rfl]
      · exact Nat.zero_le _
    · rw [hcalm.pendingMsg, Table.lookup_insert_eq, if_pos rfl]
      exact Option.some_ne_none _
    · rw [hcalm.pendingMsg, Table.lookup_insert_eq, if_neg hother]
  | fails fd session token message hevent hplace =>
    exact hends fd message hevent (Served.underWay_of_eq hplace fun _ ↦ Place.noConfusion) rfl rfl
  | assigned fd agent account message hevent hlogin =>
    exact hkeeps (.inr (.inl (Served.underWay_of_isLogin hlogin))) rfl
  | opened fd agent account message hevent hplace =>
    exact hkeeps (.inr (.inl (Served.underWay_of_eq hplace fun _ ↦ Place.noConfusion))) rfl
  | forwarded fd agent account message hevent hplace _ hflush =>
    have hunderWay : point.underWay = true :=
      Served.underWay_of_eq hplace fun _ ↦ Place.noConfusion
    split at hflush
    · exact hkeeps (.inl hflush.1) hflush.2.1
    · exact hends fd message hevent hunderWay hflush.1 hflush.2.1
    · exact hkeeps (.inr (.inl hunderWay)) hflush.2.1
  | flushes fd agent message first second hevent hplace =>
    exact hkeeps (.inr (.inl (Served.underWay_of_eq hplace fun _ ↦ Place.noConfusion))) rfl
  | flushed fd agent message first hevent hplace =>
    exact hends fd message hevent (Served.underWay_of_eq hplace fun _ ↦ Place.noConfusion) rfl rfl

/-- What a section notes about the agent of a login: nothing, unless it begins one or is in the middle
of one. -/
theorem Effect.taken_eq (h : Effect linked point origin heard next target) (hcalm : Calm target last)
    {fd : ℕ} (hpending : origin.server.pendingMsg.lookup fd ≠ none) (hpoint : point.logsIn fd = false) :
    last.taken fd = origin.taken fd := by
  rw [hcalm.taken]
  cases h with
  | begins other _ _ _ _ _ _ hnone =>
    refine Function.update_of_ne (fun hsame ↦ hpending ?_) _ _
    rw [hsame]
    exact hnone
  | assigned other agent account message hevent hlogin =>
    refine Function.update_of_ne (fun hsame ↦ ?_) _ _
    rw [Served.logsIn, Served.underWay_of_isLogin hlogin, hevent, Event.dataOf,
      decide_eq_true (congrArg some hsame.symm), Bool.and_self] at hpoint
    exact nomatch hpoint
  | _ => rfl

/-! ### The invariant -/

/-- At most one coroutine is in the middle of a login of a socket, and `pending_msg` knows of it. -/
structure OneLogin (whole : Watched) (points : List Served) : Prop where
  alone : ∀ fd, points.countP (Served.logsIn fd) ≤ 1
  pending : ∀ fd, 0 < points.countP (Served.logsIn fd) →
    whole.server.pendingMsg.lookup fd ≠ none

theorem oneLogin_opened (pool : List ℕ) (maxclient : ℤ) :
    OneLogin (watchedOpened pool maxclient).state [] where
  alone _ := Nat.zero_le 1
  pending _ hpos := absurd hpos (lt_irrefl 0)

theorem OneLogin.pending_of_mem {whole : Watched} {points : List Served} (h : OneLogin whole points)
    {point : Served} (hmem : point ∈ points) {fd : ℕ} (hpoint : point.logsIn fd = true) :
    whole.server.pendingMsg.lookup fd ≠ none :=
  h.pending fd (List.countP_pos_iff.mpr ⟨point, hmem, hpoint⟩)

/-- Every section keeps the invariant. -/
theorem OneLogin.step {before after left : List Served}
    (h : OneLogin origin (before ++ point :: after)) (heffect : LoginEffect point origin left last) :
    OneLogin last (before ++ left ++ after) := by
  have hcount := fun fd ↦ countP_step (Served.logsIn fd) before after left point
  cases heffect with
  | keeps hlogins hpending =>
    have hle : ∀ fd, (before ++ left ++ after).countP (Served.logsIn fd) ≤
        (before ++ point :: after).countP (Served.logsIn fd) := by
      intro fd
      have hsum := hcount fd
      have hleft := hlogins fd
      omega
    exact ⟨fun fd ↦ (hle fd).trans (h.alone fd),
      fun fd hpos ↦ hpending fd (h.pending fd (hpos.trans_le (hle fd)))⟩
  | begins fd habsent hlogins hpresent hothers =>
    have hzero : (before ++ point :: after).countP (Served.logsIn fd) = 0 :=
      Nat.eq_zero_of_not_pos fun hpos ↦ h.pending fd hpos habsent
    have hle : ∀ other ≠ fd, (before ++ left ++ after).countP (Served.logsIn other) ≤
        (before ++ point :: after).countP (Served.logsIn other) := by
      intro other hother
      have hsum := hcount other
      have hleft := hlogins other
      rw [if_neg hother] at hleft
      omega
    refine ⟨fun other ↦ ?_, fun other hpos ↦ ?_⟩
    · by_cases hother : other = fd
      · have hsum := hcount other
        have hleft := hlogins other
        rw [hother] at hsum hleft ⊢
        rw [if_pos rfl] at hleft
        omega
      · exact (hle other hother).trans (h.alone other)
    · by_cases hother : other = fd
      · rw [hother]
        exact hpresent
      · rw [hothers other hother]
        exact h.pending other (hpos.trans_le (hle other hother))
  | ends fd hlogsIn hleaves hothers =>
    have hpoint : [point].countP (Served.logsIn fd) = 1 := by
      rw [List.countP_singleton, if_pos hlogsIn]
    have hle : ∀ other, (before ++ left ++ after).countP (Served.logsIn other) +
        [point].countP (Served.logsIn other) =
          (before ++ point :: after).countP (Served.logsIn other) := by
      intro other
      have hsum := hcount other
      rw [hleaves, List.countP_nil] at hsum
      rw [hleaves]
      exact hsum
    refine ⟨fun other ↦ ((Nat.le_add_right _ _).trans (hle other).le).trans (h.alone other),
      fun other hpos ↦ ?_⟩
    have hother : other ≠ fd := by
      rintro rfl
      have hsum := hle other
      have halone := h.alone other
      omega
    rw [hothers other hother]
    exact h.pending other (hpos.trans_le ((Nat.le_add_right _ _).trans (hle other).le))

/-- The other coroutines keep the agents that their logins have taken. -/
theorem OneLogin.taken_eq {before after : List Served} {other : Served}
    (h : OneLogin origin (before ++ point :: after)) (hother : other ∈ before ++ after)
    (heffect : Effect linked point origin heard next target) (hcalm : Calm target last) {fd : ℕ}
    (hlogsIn : other.logsIn fd = true) : last.taken fd = origin.taken fd := by
  have hmem : other ∈ before ++ point :: after := by
    rw [List.mem_append, List.mem_cons]
    exact (List.mem_append.mp hother).imp_right .inr
  refine heffect.taken_eq hcalm (h.pending_of_mem hmem hlogsIn) ?_
  have hone := countP_others point hother hlogsIn
  have halone := h.alone fd
  rw [List.countP_singleton] at hone
  split at hone
  · omega
  · rename_i hpoint
    exact Bool.eq_false_iff.mpr hpoint

/-- The watched game server keeps its contract, without a condition on its moves. -/
theorem sound_oneLogin :
    watchedServer.Sound (watchedContract False) OneLogin fun _ _ ↦ True where
  rely_refl := Relies.refl False
  rely_trans _ _ _ _ := Relies.trans
  pre_rely _ _ _ hpre _ := hpre
  entry := keeps_entry
  arrive configuration point _ harrives hinv := by
    have hstarts : point.place = .event point.event := of_decide_eq_true harrives
    refine ⟨⟨fun fd ↦ ?_, fun fd hpos ↦ hinv.pending fd ?_⟩, hstarts⟩
    all_goals
      have hpoint : point.logsIn fd = false := by
        rw [Served.logsIn, Served.underWay, hstarts, decide_eq_false (not_not.mpr rfl), Bool.false_and]
      have hnew : [point].countP (Served.logsIn fd) = 0 := by
        rw [List.countP_singleton, hpoint]
        rfl
      have := hinv.alone fd
      simp only [List.countP_append] at *
      omega
  step configuration before point after reply answers left last _ hpoints hinv hguar := by
    obtain ⟨next, target, rfl, heffect, hcalm⟩ := hguar
    rw [hpoints] at hinv
    refine ⟨hinv.step (heffect.logins hcalm), fun other hother ↦ ⟨fun fd message hevent hplace ↦ ?_,
      fun hlinked ↦ hlinked.elim⟩⟩
    exact hinv.taken_eq hother heffect hcalm (Served.logsIn_iff.mpr ⟨hplace, message, hevent⟩)

end SvrDemo.Gamed
