import SvrDemo.Gamed.AgentSessions

/-!
# Requests that are answered

The host forgets a request when it is answered, so no request is answered twice. But the agent forgets none: a response
leaves its entry in `session`, and `CMD.open` leaves the entries of the previous user there, whose ids the host still
waits for. So a request is answered by its own client when the agent is opened with no request waiting, and the table
has only what is outstanding as long as nothing is answered and the agent is opened with an empty table
(`answered_by_own_client`).
-/

set_option autoImplicit false
set_option relaxedAutoImplicit false

namespace SvrDemo.Gamed

open Base Protocol Sproto

variable {Args : Type} {core : Core Args}

namespace AgentSessions

variable {self next : AgentSessions Args} {event : AgentEvent Args} {history : List SessionNote}

/-! ### Steps -/

/-- What a request changes: its number, what the host waits for, and, when it has been sent, the table. -/
theorem sendRequest_cases (core : Core Args) (self : AgentSessions Args) (name : String) (args : Option Args) :
    ∃ host : Host, (host = self.host ∨ ∃ response, host = ⟨self.host.session.insert (self.sessionId + 1) response⟩) ∧
      (self.sendRequest core name args = { self with sessionId := self.sessionId + 1, host := host } ∨
        self.sendRequest core name args =
          { self with
            sessionId := self.sessionId + 1
            host := host
            session := self.session.insert (self.sessionId + 1) ⟨name, args⟩ }) := by
  refine ⟨(self.host.attach core name args (self.sessionId + 1)).1, ?_, ?_⟩
  · rcases self.host.attach_cases core name args (self.sessionId + 1) with ⟨hsame, -⟩ | hinsert
    · exact .inl hsame
    · exact .inr hinsert
  · unfold sendRequest
    dsimp only
    split
    · exact .inl rfl
    · split
      · exact .inl rfl
      · exact .inr rfl

/-- A message that is no response changes nothing, and one that is takes what the host waited for. -/
theorem message_cases (core : Core Args) (self : AgentSessions Args) (msg : Bytes) :
    (self.host.dispatch core msg).1 = self.host ∧ self.responseOf core msg = none ∨
      ∃ id ∈ self.host.session, (self.host.dispatch core msg).1 = ⟨self.host.session.erase id⟩ ∧
        ∀ response, self.responseOf core msg = some response → response.1 = id := by
  rcases self.host.dispatch_cases core msg with ⟨hsame, hnone⟩ | ⟨id, hid, herase, hother⟩
  · refine .inl ⟨hsame, ?_⟩
    unfold responseOf
    split
    · next other args hdispatch => exact absurd hdispatch (hnone other args)
    · rfl
  · refine .inr ⟨id, hid, herase, fun response hresponse ↦ ?_⟩
    unfold responseOf at hresponse
    split at hresponse
    · next other args hdispatch =>
      obtain rfl := Option.some.inj hresponse
      exact hother other args hdispatch
    · exact nomatch hresponse

/-! ### The numbers -/

/-- The numbers that the host and the table have were given out. The host waits for no answered one, and those of the
table were sent. -/
structure Numbered (state : AgentSessions Args) (history : List SessionNote) : Prop where
  waiting_le : ∀ id ∈ state.host.session, id ≤ state.sessionId
  kept_le : ∀ id ∈ state.session, id ≤ state.sessionId
  answered_le : ∀ id, .answered id ∈ history → id ≤ state.sessionId
  waiting : ∀ id ∈ state.host.session, .answered id ∉ history
  kept : ∀ id ∈ state.session, .sent id ∈ history

theorem numbered_initial : Numbered (initial : AgentSessions Args) [] where
  waiting_le _ hid := absurd hid Finmap.notMem_empty
  kept_le _ hid := absurd hid Finmap.notMem_empty
  answered_le _ := nofun
  waiting _ hid := absurd hid Finmap.notMem_empty
  kept _ hid := absurd hid Finmap.notMem_empty

/-- A request, with what is noted of it. -/
theorem Numbered.sendRequest_cases (hnumbered : self.Numbered history) (core : Core Args) (name : String)
    (args : Option Args) :
    ∃ host : Host, (host = self.host ∨ ∃ response, host = ⟨self.host.session.insert (self.sessionId + 1) response⟩) ∧
      (self.sendRequest core name args = { self with sessionId := self.sessionId + 1, host := host } ∧
          self.notes core (.sendRequest name args) (self.sendRequest core name args) () = [] ∨
        self.sendRequest core name args =
            { self with
              sessionId := self.sessionId + 1
              host := host
              session := self.session.insert (self.sessionId + 1) ⟨name, args⟩ } ∧
          self.notes core (.sendRequest name args) (self.sendRequest core name args) () =
            [.sent (self.sessionId + 1)]) := by
  obtain ⟨host, hhost, hnext | hnext⟩ := AgentSessions.sendRequest_cases core self name args
  · have hfree : self.sessionId + 1 ∉ self.session := fun hid ↦ by have := hnumbered.kept_le _ hid; omega
    refine ⟨host, hhost, .inl ⟨hnext, ?_⟩⟩
    rw [notes, hnext]
    exact if_neg hfree
  · refine ⟨host, hhost, .inr ⟨hnext, ?_⟩⟩
    rw [notes, hnext]
    exact if_pos (Finmap.mem_insert.mpr (.inl rfl))

theorem Numbered.step (hnumbered : self.Numbered history)
    (hstep : (agentSessions core).step self event = some next) :
    next.Numbered (history ++ self.notes core event next ()) := by
  cases event with
  | sendRequest name args =>
    obtain rfl := Option.some.inj hstep
    obtain ⟨host, hhost, hnext⟩ := hnumbered.sendRequest_cases core name args
    have hwaiting : ∀ id ∈ host.session, id = self.sessionId + 1 ∨ id ∈ self.host.session := by
      intro id hid
      rcases hhost with rfl | ⟨response, rfl⟩
      · exact .inr hid
      · exact Finmap.mem_insert.mp hid
    have hle : ∀ id ∈ host.session, id ≤ self.sessionId + 1 := by
      intro id hid
      rcases hwaiting id hid with rfl | hid
      · exact le_rfl
      · have := hnumbered.waiting_le id hid
        omega
    have hfree : ∀ id ∈ host.session, .answered id ∉ history := by
      intro id hid hanswered
      rcases hwaiting id hid with rfl | hid
      · have := hnumbered.answered_le _ hanswered
        omega
      · exact hnumbered.waiting id hid hanswered
    rcases hnext with ⟨hnext, hnotes⟩ | ⟨hnext, hnotes⟩
    · rw [hnotes, hnext, List.append_nil]
      refine ⟨hle, fun id hid ↦ ?_, fun id hid ↦ ?_, hfree, hnumbered.kept⟩
      · exact (hnumbered.kept_le id hid).trans (by simp)
      · exact (hnumbered.answered_le id hid).trans (by simp)
    · rw [hnotes, hnext]
      refine ⟨hle, fun id hid ↦ ?_, fun id hid ↦ ?_, fun id hid ↦ ?_, fun id hid ↦ ?_⟩
      · rcases Finmap.mem_insert.mp hid with rfl | hid
        · exact le_rfl
        · exact (hnumbered.kept_le id hid).trans (by simp)
      · have hid : .answered id ∈ history := by simpa using hid
        exact (hnumbered.answered_le id hid).trans (by simp)
      · simpa using hfree id hid
      · rcases Finmap.mem_insert.mp hid with rfl | hid
        · simp
        · exact List.mem_append_left _ (hnumbered.kept id hid)
  | opened fd =>
    obtain rfl := Option.some.inj hstep
    refine ⟨hnumbered.waiting_le, hnumbered.kept_le, fun id hid ↦ ?_, fun id hid ↦ ?_, fun id hid ↦ ?_⟩
    · exact hnumbered.answered_le id (by simpa [notes] using hid)
    · simpa [notes] using hnumbered.waiting id hid
    · exact List.mem_append_left _ (hnumbered.kept id hid)
  | mapEnter =>
    obtain rfl := Option.some.inj hstep
    rw [notes, List.append_nil, mapEnter]
    split
    · exact ⟨hnumbered.waiting_le, hnumbered.kept_le, hnumbered.answered_le, hnumbered.waiting, hnumbered.kept⟩
    · exact hnumbered
  | mapLeave =>
    obtain rfl := Option.some.inj hstep
    rw [notes, List.append_nil, mapLeave]
    split
    · exact ⟨hnumbered.waiting_le, hnumbered.kept_le, hnumbered.answered_le, hnumbered.waiting, hnumbered.kept⟩
    · exact hnumbered
  | closed =>
    obtain rfl := Option.some.inj hstep
    rw [notes, List.append_nil]
    exact ⟨hnumbered.waiting_le, hnumbered.kept_le, hnumbered.answered_le, hnumbered.waiting, hnumbered.kept⟩
  | message msg =>
    obtain rfl := Option.some.inj hstep
    rcases message_cases core self msg with ⟨hsame, hnone⟩ | ⟨id, hid, herase, hother⟩
    · rw [notes, hnone, hsame]
      simpa using hnumbered
    · have hanswered : ∀ other, .answered other ∈ history ++
          ((self.responseOf core msg).map fun response ↦ SessionNote.answered response.1).toList →
          .answered other ∈ history ∨ other = id := by
        intro other hmem
        rcases List.mem_append.mp hmem with hmem | hmem
        · exact .inl hmem
        · obtain ⟨response, hresponse, heq⟩ := Option.map_eq_some_iff.mp (Option.mem_toList.mp hmem)
          exact .inr (SessionNote.answered.inj heq ▸ hother response hresponse)
      rw [herase]
      refine ⟨fun other hmem ↦ ?_, hnumbered.kept_le, fun other hmem ↦ ?_, fun other hmem hnote ↦ ?_,
        fun other hmem ↦ List.mem_append_left _ (hnumbered.kept other hmem)⟩
      · exact hnumbered.waiting_le other (Finmap.mem_erase.mp hmem).2
      · rcases hanswered other hmem with hmem | rfl
        · exact hnumbered.answered_le other hmem
        · exact hnumbered.waiting_le other hid
      · obtain ⟨hne, hmem⟩ := Finmap.mem_erase.mp hmem
        rcases hanswered other hnote with hnote | rfl
        · exact hnumbered.waiting other hmem hnote
        · exact hne rfl

/-! ### Handlers that run -/

/-- A handler runs for a request that the host waits for and the table has, under a name that is registered. -/
theorem Runs.waits {id : ℤ} (hruns : self.Runs core event id) : id ∈ self.host.session ∧
    ∃ request names, self.session.lookup id = some request ∧ self.response = some names ∧ request.name ∈ names := by
  obtain ⟨msg, name, request, response, rfl, hresponse⟩ := hruns
  constructor
  · rcases message_cases core self msg with ⟨-, hnone⟩ | ⟨id', hid, -, hother⟩
    · exact absurd (hnone ▸ hresponse) nofun
    · have hsame : id = id' := hother _ hresponse
      exact hsame ▸ hid
  · unfold responseOf at hresponse
    split at hresponse
    · next args hdispatch =>
      obtain ⟨rfl, hhandling⟩ := Prod.mk.inj (Option.some.inj hresponse)
      unfold handleResponse at hhandling
      split at hhandling
      · exact nomatch hhandling
      · next s hlookup =>
        split at hhandling
        · exact nomatch hhandling
        · next names hnames =>
          split at hhandling
          · next hmem => exact ⟨s, names, hlookup, hnames, hmem⟩
          · exact nomatch hhandling
    · exact nomatch hresponse

/-- A response that is answered for the second time, or was not sent, is rejected. -/
theorem Numbered.runs (hnumbered : self.Numbered history) {id : ℤ} (hruns : self.Runs core event id) :
    .sent id ∈ history ∧ .answered id ∉ history := by
  obtain ⟨hwaiting, request, names, hlookup, -, -⟩ := hruns.waits
  exact ⟨hnumbered.kept id (Finmap.mem_of_lookup_eq_some hlookup), hnumbered.waiting id hwaiting⟩

/-! ### The own client -/

/-- Requests that have a handler are opened over only when the host does not wait for them. -/
def Settled (state : AgentSessions Args) : AgentEvent Args → Prop
  | .opened _ => ∀ id ∈ state.host.session, ∀ request, state.session.lookup id = some request →
      request.name ∉ aoiResponse
  | _ => True

/-- Only the handlers of `aoi_handler.lua` are registered, and what waits for one was sent to the present client. -/
structure Own (state : AgentSessions Args) (history : List SessionNote) : Prop where
  registered : ∀ names, state.response = some names → names ⊆ aoiResponse
  own : ∀ id ∈ state.host.session, ∀ request, state.session.lookup id = some request → request.name ∈ aoiResponse →
    Since (.sent id) .opened history

theorem Own.step (hnumbered : self.Numbered history) (hown : self.Own history) (hsettled : self.Settled event)
    (hstep : (agentSessions core).step self event = some next) :
    next.Own (history ++ self.notes core event next ()) := by
  cases event with
  | sendRequest name args =>
    obtain rfl := Option.some.inj hstep
    obtain ⟨host, hhost, hnext⟩ := hnumbered.sendRequest_cases core name args
    have hwaiting : ∀ id ∈ host.session, id = self.sessionId + 1 ∨ id ∈ self.host.session := by
      intro id hid
      rcases hhost with rfl | ⟨response, rfl⟩
      · exact .inr hid
      · exact Finmap.mem_insert.mp hid
    rcases hnext with ⟨hnext, hnotes⟩ | ⟨hnext, hnotes⟩
    · rw [hnotes, hnext, List.append_nil]
      refine ⟨hown.registered, fun id hid request hlookup hname ↦ ?_⟩
      rcases hwaiting id hid with rfl | hid
      · have hfree := hnumbered.kept_le _ (Finmap.mem_of_lookup_eq_some hlookup)
        omega
      · exact hown.own id hid request hlookup hname
    · rw [hnotes, hnext]
      refine ⟨hown.registered, fun id hid request hlookup hname ↦ ?_⟩
      rw [since_concat]
      rcases hwaiting id hid with rfl | hid
      · exact .inl rfl
      · have hne : id ≠ self.sessionId + 1 := fun h ↦ by
          have := hnumbered.waiting_le id hid
          omega
        rw [Finmap.lookup_insert_of_ne _ hne] at hlookup
        exact .inr ⟨nofun, hown.own id hid request hlookup hname⟩
  | opened fd =>
    obtain rfl := Option.some.inj hstep
    refine ⟨fun names hnames ↦ ?_, fun id hid request hlookup hname ↦ ?_⟩
    · obtain rfl := Option.some.inj hnames
      exact Finset.empty_subset _
    · exact absurd hname (hsettled id hid request hlookup)
  | mapEnter =>
    obtain rfl := Option.some.inj hstep
    rw [notes, List.append_nil, mapEnter]
    split
    · refine ⟨fun names hnames ↦ ?_, hown.own⟩
      obtain ⟨names, hbefore, rfl⟩ := Option.map_eq_some_iff.mp hnames
      exact Finset.union_subset (hown.registered names hbefore) (Finset.Subset.refl _)
    · exact hown
  | mapLeave =>
    obtain rfl := Option.some.inj hstep
    rw [notes, List.append_nil, mapLeave]
    split
    · refine ⟨fun names hnames ↦ ?_, hown.own⟩
      obtain ⟨names, hbefore, rfl⟩ := Option.map_eq_some_iff.mp hnames
      exact Finset.sdiff_subset.trans (hown.registered names hbefore)
    · exact hown
  | closed =>
    obtain rfl := Option.some.inj hstep
    rw [notes, List.append_nil]
    exact ⟨hown.registered, hown.own⟩
  | message msg =>
    obtain rfl := Option.some.inj hstep
    refine ⟨hown.registered, fun id hid request hlookup hname ↦ ?_⟩
    have hwaiting : id ∈ self.host.session := by
      rcases message_cases core self msg with ⟨hsame, -⟩ | ⟨id', -, herase, -⟩
      · exact hsame ▸ hid
      · exact (Finmap.mem_erase.mp (herase ▸ hid)).2
    have hsince := hown.own id hwaiting request hlookup hname
    rw [notes]
    cases self.responseOf core msg with
    | none => simpa using hsince
    | some response => exact (since_concat history _).mpr (.inr ⟨nofun, hsince⟩)

theorem Own.runs (hnumbered : self.Numbered history) (hown : self.Own history) {id : ℤ}
    (hruns : self.Runs core event id) : Outstanding history id := by
  obtain ⟨hwaiting, request, names, hlookup, hnames, hname⟩ := hruns.waits
  exact ⟨hown.own id hwaiting request hlookup (hown.registered names hnames hname), hnumbered.waiting id hwaiting⟩

/-! ### The table -/

/-- The table has only requests of the present connection that have not been answered. -/
def Held (state : AgentSessions Args) (history : List SessionNote) : Prop :=
  ∀ id ∈ state.session, Outstanding history id

/-- No response is to a request of the table, and the agent is opened with an empty one. -/
def Untouched (core : Core Args) (state : AgentSessions Args) : AgentEvent Args → Prop
  | .opened _ => state.session = ∅
  | .message msg => ∀ id args, (state.host.dispatch core msg).2 = .ok (.response id args) → id ∉ state.session
  | _ => True

/-- A step keeps the table, and its handler is one of an outstanding request. -/
def Keeps (core : Core Args) (state : AgentSessions Args) (history : List SessionNote) (event : AgentEvent Args) :
    Prop :=
  ∀ next, (agentSessions core).step state event = some next →
    next.Held (history ++ state.notes core event next ()) ∧ ∀ id, state.Runs core event id → Outstanding history id

/-- What is outstanding stays so, when it is not answered and the agent is not opened. -/
theorem outstanding_append {history notes : List SessionNote} {id : ℤ} (hout : Outstanding history id)
    (hopened : .opened ∉ notes) (hanswered : .answered id ∉ notes) : Outstanding (history ++ notes) id := by
  obtain ⟨⟨before, after, rfl, hafter⟩, hunanswered⟩ := hout
  refine ⟨⟨before, after ++ notes, by simp, ?_⟩, ?_⟩
  · rw [List.mem_append]
    exact not_or.mpr ⟨hafter, hopened⟩
  · rw [List.mem_append]
    exact not_or.mpr ⟨hunanswered, hanswered⟩

/-- A step that meets the condition is one that keeps the table, and no other is. -/
theorem keeps_iff (hnumbered : self.Numbered history) (hheld : self.Held history) :
    self.Keeps core history event ↔ self.Untouched core event := by
  have hruns : ∀ id, self.Runs core event id → Outstanding history id := by
    intro id hruns
    obtain ⟨-, request, names, hlookup, -, -⟩ := hruns.waits
    exact hheld id (Finmap.mem_of_lookup_eq_some hlookup)
  constructor
  · intro hkeeps
    cases event with
    | opened fd =>
      obtain ⟨hnext, -⟩ := hkeeps _ rfl
      refine Finmap.ext_lookup fun id ↦ ?_
      rw [Finmap.lookup_empty, Finmap.lookup_eq_none]
      intro hid
      obtain ⟨hsince, -⟩ := hnext id hid
      rw [notes, since_concat] at hsince
      rcases hsince with hsame | ⟨hne, -⟩
      · exact nomatch hsame
      · exact hne rfl
    | message msg =>
      intro id args hdispatch hid
      obtain ⟨hnext, -⟩ := hkeeps _ rfl
      refine (hnext id hid).2 (List.mem_append_right _ ?_)
      rw [notes, responseOf, hdispatch]
      exact List.mem_singleton_self _
    | _ => trivial
  · intro huntouched next hstep
    refine ⟨?_, hruns⟩
    cases event with
    | sendRequest name args =>
      obtain rfl := Option.some.inj hstep
      obtain ⟨host, -, ⟨hnext, hnotes⟩ | ⟨hnext, hnotes⟩⟩ := hnumbered.sendRequest_cases core name args
      · rw [hnotes, hnext, List.append_nil]
        exact hheld
      · rw [hnotes, hnext]
        intro id hid
        rcases Finmap.mem_insert.mp hid with rfl | hid
        · refine ⟨(since_concat history _).mpr (.inl rfl), fun hanswered ↦ ?_⟩
          have := hnumbered.answered_le (self.sessionId + 1) (by simpa using hanswered)
          omega
        · exact outstanding_append (hheld id hid) (by simp) (by simp)
    | opened fd =>
      obtain rfl := Option.some.inj hstep
      intro id hid
      have hempty : self.session = ∅ := huntouched
      exact absurd (hempty ▸ hid) Finmap.notMem_empty
    | mapEnter =>
      obtain rfl := Option.some.inj hstep
      rw [notes, List.append_nil, mapEnter]
      split <;> exact hheld
    | mapLeave =>
      obtain rfl := Option.some.inj hstep
      rw [notes, List.append_nil, mapLeave]
      split <;> exact hheld
    | closed =>
      obtain rfl := Option.some.inj hstep
      rw [notes, List.append_nil]
      exact hheld
    | message msg =>
      obtain rfl := Option.some.inj hstep
      intro id hid
      refine outstanding_append (hheld id hid) ?_ ?_
      · simp [notes]
      · intro hanswered
        obtain ⟨response, hresponse, heq⟩ := Option.map_eq_some_iff.mp (Option.mem_toList.mp hanswered)
        obtain rfl := SessionNote.answered.inj heq
        unfold responseOf at hresponse
        split at hresponse
        · next args hdispatch =>
          obtain rfl := Option.some.inj hresponse
          exact huntouched _ args hdispatch hid
        · exact nomatch hresponse

end AgentSessions

/-! ### Runs -/

section Runs

open AgentSessions

variable {history : Unit → List SessionNote} {last : AgentSessions Args}

/-- The agent as it starts, with nothing noted. -/
def startSessions (Args : Type) : AgentSessions Args × (Unit → List SessionNote) := (initial, fun _ ↦ [])

theorem numbered_of_run (hrun : (recordedSessions core).Run (fun _ _ ↦ True) (startSessions Args) (last, history)) :
    last.Numbered (history ()) := by
  refine Machine.Run.invariant (I := fun whole ↦ whole.1.Numbered (whole.2 ())) ?_ numbered_initial hrun
  intro whole event next _ hnumbered hstep
  obtain ⟨state, hstate, rfl⟩ := Option.map_eq_some_iff.mp hstep
  exact hnumbered.step hstate

theorem own_of_run (hrun : (recordedSessions core).Run (fun whole event ↦ whole.1.Settled event)
    (startSessions Args) (last, history)) : last.Numbered (history ()) ∧ last.Own (history ()) := by
  refine Machine.Run.invariant
    (I := fun whole ↦ whole.1.Numbered (whole.2 ()) ∧ whole.1.Own (whole.2 ())) ?_ ⟨numbered_initial, ?_⟩ hrun
  · intro whole event next hsettled ⟨hnumbered, hown⟩ hstep
    obtain ⟨state, hstate, rfl⟩ := Option.map_eq_some_iff.mp hstep
    exact ⟨hnumbered.step hstate, hown.step hnumbered hsettled hstate⟩
  · exact ⟨nofun, fun _ hid ↦ absurd hid Finmap.notMem_empty⟩

end Runs

/-- The requests of an agent, along every run of the messages, requests and users that it has. A response handler runs
only for a request that the agent has sent and that has not been answered. It runs for the client that the request was
sent to, in every run in which the agent is opened only when the host waits for no response that has a handler. And
the runs in which every handler is one of an outstanding request and the table has only outstanding requests are those
in which no response is to a request of the table and the agent is opened with an empty table. -/
theorem answered_by_own_client (core : Core Args) :
    (∀ last history, (recordedSessions core).Run (fun _ _ ↦ True) (startSessions Args) (last, history) →
      ∀ event id, last.Runs core event id → .sent id ∈ history () ∧ .answered id ∉ history ()) ∧
    (∀ last history, (recordedSessions core).Run (fun whole event ↦ whole.1.Settled event) (startSessions Args)
        (last, history) →
      ∀ event id, last.Runs core event id → Outstanding (history ()) id) ∧
    ∀ whole, (recordedSessions core).Run (fun whole event ↦ whole.1.Keeps core (whole.2 ()) event)
        (startSessions Args) whole ↔
      (recordedSessions core).Run (fun whole event ↦ whole.1.Untouched core event) (startSessions Args) whole := by
  refine ⟨fun last history hrun event id hruns ↦ (numbered_of_run hrun).runs hruns,
    fun last history hrun event id hruns ↦ (own_of_run hrun).2.runs (own_of_run hrun).1 hruns, fun whole ↦ ?_⟩
  refine Machine.run_congr (I := fun whole ↦ whole.1.Numbered (whole.2 ()) ∧ whole.1.Held (whole.2 ()))
    ?_ ?_ ⟨AgentSessions.numbered_initial, fun _ hid ↦ absurd hid Finmap.notMem_empty⟩
  · intro whole event next hkeeps hinv hstep
    obtain ⟨state, hstate, rfl⟩ := Option.map_eq_some_iff.mp hstep
    exact ⟨hinv.1.step hstate, (hkeeps state hstate).1⟩
  · intro whole event ⟨hnumbered, hheld⟩ _
    exact AgentSessions.keeps_iff hnumbered hheld

/-- The codec on the request `aoi_add` with number 1 for a character `{id = 5}`, and on the response of the client that
wants more. A table is given by its encoding. -/
def aoiAddCore : Core Bytes where
  received _ := none
  attached name := if name = "aoi_add" then some ⟨"aoi_add", 0, some 0, some 1⟩ else none
  encodeHeader _ := [2, 0, 2, 0, 4, 0]
  decodeHeader _ := .ok (⟨none, some 1⟩, 6)
  encode _ args := .ok args
  decode _ content := .ok content
  pack _ := [0x55, 2, 2, 4, 1, 0x44, 4, 1, 0x01, 12]
  unpack _ := .ok [2, 0, 1, 0, 4, 0, 1, 0, 4, 0, 0, 0, 0, 0, 0, 0]

/-- The request of one user is answered by the next one, and an answered request stays in the table. -/
theorem other_user_answers :
    (∃ last history, (recordedSessions aoiAddCore).Run (fun _ _ ↦ True) (startSessions Bytes) (last, history) ∧
      last.Runs aoiAddCore (.message [0x55, 2, 1, 4, 1, 0x01, 4]) 1 ∧ ¬ Since (.sent 1) .opened (history ())) ∧
    ∃ last history, (recordedSessions aoiAddCore).Run (fun _ _ ↦ True) (startSessions Bytes) (last, history) ∧
      1 ∈ last.session ∧ .answered 1 ∈ history () := by
  constructor
  · have hplay : ((recordedSessions aoiAddCore).playMeeting (fun _ _ ↦ True) (startSessions Bytes)
        [.opened 7, .mapEnter, .sendRequest "aoi_add" (some [1, 0, 0, 0, 4, 0, 0, 0, 1, 0, 12, 0]), .mapLeave, .closed,
          .opened 8, .mapEnter]).map (fun whole ↦
            (whole.1.responseOf aoiAddCore [0x55, 2, 1, 4, 1, 0x01, 4], whole.2 ())) =
        some (some (1, .handler "aoi_add" (some [1, 0, 0, 0, 4, 0, 0, 0, 1, 0, 12, 0])
          (some [1, 0, 4, 0, 0, 0, 0, 0, 0, 0])), [.opened, .sent 1, .opened]) := rfl
    obtain ⟨⟨last, history⟩, hrun, hvalue⟩ := Machine.exists_run_of_playMeeting _ _ _ _ _ hplay
    obtain ⟨hresponse, hhistory⟩ := Prod.mk.inj hvalue
    refine ⟨last, history, hrun, ⟨_, _, _, _, rfl, hresponse⟩, ?_⟩
    have hnotes : history () = [.opened, .sent 1] ++ [.opened] := hhistory
    rw [hnotes, since_concat]
    simp
  · have hplay : ((recordedSessions aoiAddCore).playMeeting (fun _ _ ↦ True) (startSessions Bytes)
        [.opened 7, .mapEnter, .sendRequest "aoi_add" (some [1, 0, 0, 0, 4, 0, 0, 0, 1, 0, 12, 0]),
          .message [0x55, 2, 1, 4, 1, 0x01, 4]]).map (fun whole ↦
            (decide (1 ∈ whole.1.session), whole.2 ())) = some (true, [.opened, .sent 1, .answered 1]) := rfl
    obtain ⟨⟨last, history⟩, hrun, hvalue⟩ := Machine.exists_run_of_playMeeting _ _ _ _ _ hplay
    obtain ⟨hkept, hhistory⟩ := Prod.mk.inj hvalue
    have hnotes : history () = [.opened, .sent 1, .answered 1] := hhistory
    refine ⟨last, history, hrun, of_decide_eq_true hkept, ?_⟩
    rw [hnotes]
    simp

end SvrDemo.Gamed
