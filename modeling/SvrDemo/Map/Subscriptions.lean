import SvrDemo.Map.AoiHandler

/-!
# Subscriptions follow the map

Seen by two of its agents, the net of `AoiHandler` is the machine of `AoiPair`: what the other agents do
shows nothing in the pair (`refines_pair`). So the invariant of the pair holds of any two agents, and with it
what is wanted of their subscriptions, in the runs in which the entries of the lists for this pair are
handled in order.
-/

set_option autoImplicit false
set_option relaxedAutoImplicit false

namespace SvrDemo.Map

open Lua Protocol

/-! ### What a pair sees -/

/-- What a package says of an agent. -/
def Pack.about (agent : ℕ) : Pack → Option ListEntry
  | .aoiAdd other _ => if other = agent then some .add else none
  | .aoiRemove other _ => if other = agent then some .remove else none

/-- What a message means for its pair. -/
def Message.toPair : Message → Option PairMessage
  | .aoiSubscribe _ => some .subscribe
  | .subscribed _ => some .subscribed
  | .aoiUnsubscribe => some .unsubscribe
  | .unsubscribed => none

/-- What the lists of a call say of an agent. -/
def Manage.entry (manage : Manage) (agent : ℕ) : Option ListEntry :=
  if agent ∈ manage.alist then some .add
  else if agent ∈ manage.rlist then some .remove
  else none

/-- What a call says of a pair. -/
def ManageCall.entry (call : ManageCall) (a b : ℕ) : Option ListEntry :=
  if call.agent = a then call.manage.entry b
  else if call.agent = b then call.manage.entry a
  else none

/-- The entries for a pair in some calls. -/
def entries (a b : ℕ) (calls : List ManageCall) : List ListEntry :=
  calls.filterMap fun call ↦ call.entry a b

/-- What an agent has recorded of another one, and what its client was told. -/
def AoiAgent.side (self : AoiAgent) (agent : ℕ) : Side :=
  ⟨self.records agent, self.sent.filterMap (Pack.about agent)⟩

/-- The net as two agents see it. -/
def AoiNet.pair (net : AoiNet) (a b : ℕ) : Pair where
  here := (net.agents a).side b
  there := (net.agents b).side a
  toThere := (net.channel a b).filterMap Message.toPair
  toHere := (net.channel b a).filterMap Message.toPair
  last := (entries a b net.handled).getLast?

/-- What an entry makes of a pair, but for the mark that it has been handled. -/
def Pair.list (pair : Pair) (entry : ListEntry) : Pair :=
  { pair.manage entry with last := pair.last }

/-! ### The condition -/

/-- The entries for a pair are handled in order: an entry overtakes no earlier entry of the other kind, an add
comes only after a remove, and a remove of an add is handled by an agent that has recorded the add. -/
def OrderlyFor (a b : ℕ) (net : AoiNet) : AoiEvent → Prop
  | .manage index => ∀ call ∈ net.pending[index]?, ∀ entry ∈ call.entry a b,
      (∀ other ∈ entries a b (net.pending.take index), other = entry) ∧
        (if call.agent = a then net.pair a b else net.pair b a).OrderlyHere (.manage entry)
  | _ => True

instance (a b : ℕ) (net : AoiNet) : (event : AoiEvent) → Decidable (OrderlyFor a b net event)
  | .manage index => inferInstanceAs (Decidable (∀ call ∈ net.pending[index]?, ∀ entry ∈ call.entry a b,
      (∀ other ∈ entries a b (net.pending.take index), other = entry) ∧
        (if call.agent = a then net.pair a b else net.pair b a).OrderlyHere (.manage entry)))
  | .issue _ => isTrue trivial
  | .deliver _ _ => isTrue trivial

/-! ### Small steps -/

section Views

variable {net : AoiNet} {a b : ℕ}

theorem ManageCall.entry_comm (call : ManageCall) (hne : a ≠ b) : call.entry a b = call.entry b a := by
  unfold ManageCall.entry
  split
  · next ha =>
    rw [if_neg fun hb ↦ hne (ha.symm.trans hb)]
  · rfl

theorem entries_comm (calls : List ManageCall) (hne : a ≠ b) : entries a b calls = entries b a calls :=
  List.filterMap_congr fun call _ ↦ call.entry_comm hne

theorem AoiNet.pair_swap (net : AoiNet) (hne : a ≠ b) : net.pair b a = (net.pair a b).swap := by
  unfold AoiNet.pair Pair.swap
  rw [entries_comm _ hne]

theorem AoiAgent.side_subscribe (self : AoiAgent) (agent reader : ℕ) :
    (self.subscribe agent reader).side agent = (self.side agent).subscribe := by
  simp [side, subscribe, records, Side.subscribe, Pack.about]

theorem AoiAgent.side_subscribe_of_ne (self : AoiAgent) {agent other : ℕ} (reader : ℕ) (hne : other ≠ agent) :
    (self.subscribe agent reader).side other = self.side other := by
  simp [side, subscribe, records, Pack.about, Finmap.lookup_insert_of_ne _ hne, hne.symm]

theorem AoiAgent.side_forget (self : AoiAgent) (agent : ℕ) :
    (self.forget agent).side agent = (self.side agent).forget := by
  cases hrecord : self.subscribeAgent.lookup agent with
  | none => simp [side, forget, records, Side.forget, hrecord]
  | some t => simp [side, forget, records, Side.forget, hrecord, Pack.about]

theorem AoiAgent.side_forget_of_ne (self : AoiAgent) {agent other : ℕ} (hne : other ≠ agent) :
    (self.forget agent).side other = self.side other := by
  cases hrecord : self.subscribeAgent.lookup agent with
  | none => simp [side, forget, records, hrecord]
  | some t =>
    simp [side, forget, records, hrecord, Pack.about, Finmap.lookup_erase_ne hne, hne.symm]

theorem AoiNet.pair_updateAgent (net : AoiNet) (hne : a ≠ b) (change : AoiAgent → AoiAgent) :
    (net.updateAgent a change).pair a b =
      { net.pair a b with here := (change (net.agents a)).side b } := by
  simp [pair, updateAgent, Function.update_of_ne hne.symm]

theorem AoiNet.pair_updateAgent_of_ne (net : AoiNet) {self : ℕ} (ha : self ≠ a) (hb : self ≠ b)
    (change : AoiAgent → AoiAgent) : (net.updateAgent self change).pair a b = net.pair a b := by
  simp [pair, updateAgent, Function.update_of_ne ha.symm, Function.update_of_ne hb.symm]

/-- A change of what an agent knows of others does not show. -/
theorem AoiNet.pair_updateAgent_of_side (net : AoiNet) (hne : a ≠ b) {change : AoiAgent → AoiAgent}
    (hside : (change (net.agents a)).side b = (net.agents a).side b) :
    (net.updateAgent a change).pair a b = net.pair a b := by
  rw [pair_updateAgent net hne, hside]
  rfl

theorem AoiNet.pair_setChannel_there (net : AoiNet) (hne : a ≠ b) (messages : List Message) :
    (net.setChannel a b messages).pair a b =
      { net.pair a b with toThere := messages.filterMap Message.toPair } := by
  simp [pair, setChannel, hne, hne.symm]

theorem AoiNet.pair_setChannel_here (net : AoiNet) (hne : a ≠ b) (messages : List Message) :
    (net.setChannel b a messages).pair a b =
      { net.pair a b with toHere := messages.filterMap Message.toPair } := by
  simp [pair, setChannel, hne, hne.symm]

theorem AoiNet.pair_setChannel_of_ne (net : AoiNet) {sender receiver : ℕ}
    (hthere : ¬ (sender = a ∧ receiver = b)) (hhere : ¬ (sender = b ∧ receiver = a))
    (messages : List Message) : (net.setChannel sender receiver messages).pair a b = net.pair a b := by
  have hto : ¬ (a = sender ∧ b = receiver) := fun h ↦ hthere ⟨h.1.symm, h.2.symm⟩
  have hfrom : ¬ (b = sender ∧ a = receiver) := fun h ↦ hhere ⟨h.1.symm, h.2.symm⟩
  simp [pair, setChannel, hto, hfrom]

theorem AoiNet.pair_send (net : AoiNet) (hne : a ≠ b) (message : Message) :
    (net.send a b message).pair a b =
      { net.pair a b with toThere := (net.pair a b).toThere ++ message.toPair.toList } := by
  rw [send, pair_setChannel_there net hne, List.filterMap_append]
  cases hmessage : message.toPair <;> simp [hmessage, pair]

theorem AoiNet.pair_send_of_ne (net : AoiNet) {sender receiver : ℕ} (hthere : ¬ (sender = a ∧ receiver = b))
    (hhere : ¬ (sender = b ∧ receiver = a)) (message : Message) :
    (net.send sender receiver message).pair a b = net.pair a b :=
  net.pair_setChannel_of_ne hthere hhere _

end Views

/-! ### Entries and messages -/

section Events

variable {a b : ℕ}

/-- A loop of which a view sees no turn. -/
theorem view_foldl_same {σ τ : Type} (view : σ → τ) {turn : σ → ℕ → σ}
    (hturn : ∀ state other, view (turn state other) = view state) (list : List ℕ) (state : σ) :
    view (list.foldl turn state) = view state := by
  induction list generalizing state with
  | nil => rfl
  | cons head tail ih => exact (ih (turn state head)).trans (hturn state head)

/-- A loop over a list without repetitions, of which a view sees one turn only. -/
theorem view_foldl {σ τ : Type} (view : σ → τ) {turn : σ → ℕ → σ} (effect : τ → τ) {seen : ℕ}
    (hself : ∀ state, view (turn state seen) = effect (view state))
    (hother : ∀ state other, other ≠ seen → view (turn state other) = view state) {list : List ℕ}
    (hnodup : list.Nodup) (state : σ) :
    view (list.foldl turn state) = if seen ∈ list then effect (view state) else view state := by
  induction list generalizing state with
  | nil => rfl
  | cons head tail ih =>
    obtain ⟨hhead, htail⟩ := List.nodup_cons.mp hnodup
    rw [List.foldl_cons, ih htail]
    by_cases hseen : head = seen
    · subst hseen
      rw [if_neg hhead, if_pos List.mem_cons_self, hself]
    · rw [hother state head hseen]
      simp [Ne.symm hseen]

theorem AoiNet.pair_aoiAdd (net : AoiNet) (hne : a ≠ b) :
    (net.aoiAdd a b).pair a b = (net.pair a b).list .add :=
  net.pair_send hne _

theorem AoiNet.pair_aoiAdd_of_ne (net : AoiNet) (hne : a ≠ b) {target : ℕ} (htarget : target ≠ b) :
    (net.aoiAdd a target).pair a b = net.pair a b :=
  net.pair_send_of_ne (fun h ↦ htarget h.2) (fun h ↦ hne h.1) _

theorem AoiNet.pair_aoiRemove (net : AoiNet) (hne : a ≠ b) :
    (net.aoiRemove a b).pair a b = (net.pair a b).list .remove := by
  have hrecorded : (net.pair a b).here.recorded = (net.agents a).records b := rfl
  unfold aoiRemove Pair.list Pair.manage
  rw [hrecorded]
  split
  · rw [pair_send _ hne, pair_updateAgent net hne, AoiAgent.side_forget]
    rfl
  · next hside =>
    have hforget : (net.pair a b).here.forget = (net.pair a b).here := if_neg hside
    simp only [hforget, List.append_nil]

theorem AoiNet.pair_aoiRemove_of_ne (net : AoiNet) (hne : a ≠ b) {agent : ℕ} (hagent : agent ≠ b) :
    (net.aoiRemove a agent).pair a b = net.pair a b := by
  unfold aoiRemove
  split
  · rw [pair_send_of_ne _ (fun h ↦ hagent h.2) (fun h ↦ hne h.1),
      pair_updateAgent_of_side net hne (AoiAgent.side_forget_of_ne _ hagent.symm)]
  · rfl

/-- What a call of `aoi_manage` in one of the two makes of the pair. -/
theorem AoiNet.pair_aoiManage (net : AoiNet) (hne : a ≠ b) (manage : Manage) :
    (net.aoiManage a manage).pair a b =
      match manage.entry b with
      | none => net.pair a b
      | some entry => (net.pair a b).list entry := by
  have hadd := view_foldl (fun net : AoiNet ↦ net.pair a b) (fun pair ↦ pair.list .add)
    (fun state ↦ state.pair_aoiAdd hne)
    (fun state _ htarget ↦ state.pair_aoiAdd_of_ne hne htarget) manage.addOnce net
  have hremove := view_foldl (fun net : AoiNet ↦ net.pair a b) (fun pair ↦ pair.list .remove)
    (fun state ↦ state.pair_aoiRemove hne)
    (fun state _ hagent ↦ state.pair_aoiRemove_of_ne hne hagent) manage.removeOnce
    (manage.alist.foldl (aoiAdd a) net)
  have hdisjoint := manage.disjoint b
  unfold aoiManage Manage.entry
  by_cases halist : b ∈ manage.alist
  · have hrlist := hdisjoint halist
    simp only [halist, hrlist, if_true, if_false] at hadd hremove ⊢
    exact hremove.trans hadd
  · by_cases hrlist : b ∈ manage.rlist
    · simp only [halist, hrlist, if_true, if_false] at hadd hremove ⊢
      rw [hadd] at hremove
      exact hremove
    · simp only [halist, hrlist, if_false] at hadd hremove ⊢
      exact hremove.trans hadd

/-- A call in another agent does not show. -/
theorem AoiNet.pair_aoiManage_of_ne (net : AoiNet) {self : ℕ} (ha : self ≠ a) (hb : self ≠ b)
    (manage : Manage) : (net.aoiManage self manage).pair a b = net.pair a b := by
  have hadd : ∀ (state : AoiNet) (target : ℕ), (state.aoiAdd self target).pair a b = state.pair a b :=
    fun state target ↦ state.pair_send_of_ne (fun h ↦ ha h.1) (fun h ↦ hb h.1) _
  have hremove : ∀ (state : AoiNet) (agent : ℕ), (state.aoiRemove self agent).pair a b = state.pair a b := by
    intro state agent
    unfold aoiRemove
    split
    · rw [pair_send_of_ne _ (fun h ↦ ha h.1) (fun h ↦ hb h.1), pair_updateAgent_of_ne _ ha hb]
    · rfl
  exact (view_foldl_same (fun state : AoiNet ↦ state.pair a b) hremove _ _).trans
    (view_foldl_same (fun state : AoiNet ↦ state.pair a b) hadd _ _)

/-- What a message from one of the two makes of the pair when it arrives at the other. -/
theorem AoiNet.pair_receive (net : AoiNet) (hne : a ≠ b) (message : Message) :
    (net.receive b a message).pair a b =
      match message.toPair with
      | none => net.pair a b
      | some message => (net.pair a b).receive message := by
  cases message with
  | aoiSubscribe reader =>
    refine (pair_send _ hne _).trans ?_
    rw [pair_updateAgent net hne, AoiAgent.side_subscribe]
    rfl
  | subscribed reader =>
    refine (pair_updateAgent net hne _).trans ?_
    rw [AoiAgent.side_subscribe]
    rfl
  | aoiUnsubscribe =>
    refine (pair_send _ hne _).trans ?_
    rw [pair_updateAgent net hne, AoiAgent.side_forget]
    simp [Message.toPair, Pair.receive, pair]
  | unsubscribed => rfl

/-- A message at one of the two from another agent does not show. -/
theorem AoiNet.pair_receive_of_ne (net : AoiNet) (hne : a ≠ b) {sender : ℕ} (hsender : sender ≠ b)
    (message : Message) : (net.receive sender a message).pair a b = net.pair a b := by
  cases message with
  | aoiSubscribe reader =>
    refine (pair_send_of_ne _ (fun h ↦ hsender h.2) (fun h ↦ hne h.1) _).trans ?_
    exact pair_updateAgent_of_side net hne (AoiAgent.side_subscribe_of_ne _ reader hsender.symm)
  | subscribed reader =>
    exact pair_updateAgent_of_side net hne (AoiAgent.side_subscribe_of_ne _ reader hsender.symm)
  | aoiUnsubscribe =>
    refine (pair_send_of_ne _ (fun h ↦ hsender h.2) (fun h ↦ hne h.1) _).trans ?_
    exact pair_updateAgent_of_side net hne (AoiAgent.side_forget_of_ne _ hsender.symm)
  | unsubscribed => rfl

/-- A message at another agent does not show. -/
theorem AoiNet.pair_receive_elsewhere (net : AoiNet) {sender self : ℕ} (ha : self ≠ a) (hb : self ≠ b)
    (message : Message) : (net.receive sender self message).pair a b = net.pair a b := by
  cases message with
  | aoiSubscribe reader =>
    refine (pair_send_of_ne _ (fun h ↦ ha h.1) (fun h ↦ hb h.1) _).trans ?_
    exact pair_updateAgent_of_ne net ha hb _
  | subscribed reader => exact pair_updateAgent_of_ne net ha hb _
  | aoiUnsubscribe =>
    refine (pair_send_of_ne _ (fun h ↦ ha h.1) (fun h ↦ hb h.1) _).trans ?_
    exact pair_updateAgent_of_ne net ha hb _
  | unsubscribed => rfl

end Events

/-! ### Refinement -/

section Refinement

variable {a b : ℕ}

theorem entries_append (calls : List ManageCall) (call : ManageCall) :
    entries a b (calls ++ [call]) = entries a b calls ++ (call.entry a b).toList := by
  unfold entries
  rw [List.filterMap_append]
  cases hentry : call.entry a b <;> simp [hentry]

theorem AoiNet.pair_handle (net : AoiNet) (index : ℕ) (call : ManageCall) :
    (net.handle index call).pair a b =
      { (net.aoiManage call.agent call.manage).pair a b with
        last := (entries a b net.handled ++ (call.entry a b).toList).getLast? } := by
  rw [← entries_append]
  rfl

/-- The pair after one of the two has handled a call of the map. -/
theorem AoiNet.pair_handled (net : AoiNet) (hne : a ≠ b) (index : ℕ) {call : ManageCall}
    (hagent : call.agent = a) :
    (net.handle index call).pair a b =
      match call.entry a b with
      | none => net.pair a b
      | some entry => (net.pair a b).manage entry := by
  have hentry : call.entry a b = call.manage.entry b := if_pos hagent
  rw [pair_handle, hagent, pair_aoiManage net hne, hentry]
  cases call.manage.entry b with
  | none => simp [pair]
  | some entry => cases entry <;> simp [Pair.list, Pair.manage]

/-- The pair after the next message to one of the two has arrived. -/
theorem AoiNet.pair_delivered (net : AoiNet) (hne : a ≠ b) {message : Message} {rest : List Message}
    (hread : net.channel b a = message :: rest) :
    ((net.setChannel b a rest).receive b a message).pair a b = net.pair a b ∨
      (net.pair a b).stepHere .receive =
        some (((net.setChannel b a rest).receive b a message).pair a b) := by
  have htoHere : (net.pair a b).toHere = (message :: rest).filterMap Message.toPair :=
    congrArg (List.filterMap Message.toPair) hread
  rw [pair_receive _ hne, pair_setChannel_here net hne]
  cases hmessage : message.toPair with
  | none =>
    rw [List.filterMap_cons_none hmessage] at htoHere
    rw [← htoHere]
    exact .inl rfl
  | some pairMessage =>
    rw [List.filterMap_cons_some hmessage] at htoHere
    refine .inr ?_
    simp only [Pair.stepHere, htoHere]

/-- A call that one of the two handles is an event of the pair, or shows nothing. -/
theorem AoiNet.shows_handled (net : AoiNet) (hne : a ≠ b) (index : ℕ) {call : ManageCall}
    (hagent : call.agent = a)
    (horderly : ∀ entry ∈ call.entry a b, (net.pair a b).OrderlyHere (.manage entry)) :
    (net.handle index call).pair a b = net.pair a b ∨
      ∃ event, (net.pair a b).OrderlyHere event ∧
        (net.pair a b).stepHere event = some ((net.handle index call).pair a b) := by
  rw [pair_handled net hne index hagent]
  cases hentry : call.entry a b with
  | none => exact .inl rfl
  | some entry => exact .inr ⟨.manage entry, horderly entry hentry, rfl⟩

/-- What the other side of a pair sees is an event at the other side. -/
theorem shows_swap {net next : AoiNet} (hne : a ≠ b)
    (h : next.pair b a = net.pair b a ∨ ∃ event, (net.pair b a).OrderlyHere event ∧
      (net.pair b a).stepHere event = some (next.pair b a)) :
    next.pair a b = net.pair a b ∨ ∃ event, (net.pair a b).Orderly event ∧
      Pair.machine.step (net.pair a b) event = some (next.pair a b) := by
  rw [AoiNet.pair_swap net hne, AoiNet.pair_swap next hne] at h
  rcases h with hsame | ⟨event, horderly, hstep⟩
  · exact .inl (congrArg Pair.swap hsame)
  · refine .inr ⟨.there event, horderly, ?_⟩
    simp only [Pair.machine, hstep]
    rfl

/-- Two agents of the net are a pair: what happens in the net is an event of the pair, or shows nothing. -/
theorem refines_pair (hne : a ≠ b) :
    aoiNet.Refines Pair.machine (fun net ↦ net.pair a b) (OrderlyFor a b) Pair.Orderly := by
  intro net event next hmeets hstep
  cases event with
  | issue call =>
    obtain rfl := Option.some.inj hstep
    exact .inl rfl
  | manage index =>
    simp only [aoiNet] at hstep
    split at hstep
    · exact nomatch hstep
    next call hcall =>
    split_ifs at hstep
    obtain rfl := Option.some.inj hstep
    have horderly := hmeets call hcall
    by_cases ha : call.agent = a
    · rw [if_pos ha] at horderly
      rcases net.shows_handled hne index ha fun entry hentry ↦ (horderly entry hentry).2 with hsame | hevent
      · exact .inl hsame
      · obtain ⟨event, hevent⟩ := hevent
        exact .inr ⟨.here event, hevent⟩
    rw [if_neg ha, call.entry_comm hne] at horderly
    by_cases hb : call.agent = b
    · exact shows_swap hne
        (net.shows_handled hne.symm index hb fun entry hentry ↦ (horderly entry hentry).2)
    · refine .inl ?_
      have hentry : call.entry a b = none := by
        rw [ManageCall.entry, if_neg ha, if_neg hb]
      dsimp only
      rw [AoiNet.pair_handle, AoiNet.pair_aoiManage_of_ne net ha hb, hentry]
      simp [AoiNet.pair]
  | deliver sender receiver =>
    simp only [aoiNet] at hstep
    split at hstep
    · exact nomatch hstep
    next message rest hread =>
    obtain rfl := Option.some.inj hstep
    by_cases ha : receiver = a
    · subst ha
      by_cases hb : sender = b
      · subst hb
        rcases net.pair_delivered hne hread with hsame | hreceive
        · exact .inl hsame
        · exact .inr ⟨.here .receive, trivial, hreceive⟩
      · refine .inl ((AoiNet.pair_receive_of_ne _ hne hb message).trans ?_)
        exact net.pair_setChannel_of_ne (fun h ↦ hne h.2) (fun h ↦ hb h.1) rest
    by_cases hb : receiver = b
    · subst hb
      refine shows_swap hne ?_
      by_cases hs : sender = a
      · subst hs
        rcases net.pair_delivered hne.symm hread with hsame | hreceive
        · exact .inl hsame
        · exact .inr ⟨.receive, trivial, hreceive⟩
      · refine .inl ((AoiNet.pair_receive_of_ne _ hne.symm hs message).trans ?_)
        exact net.pair_setChannel_of_ne (fun h ↦ ha h.2) (fun h ↦ hs h.1) rest
    · refine .inl ((AoiNet.pair_receive_elsewhere _ ha hb message).trans ?_)
      exact net.pair_setChannel_of_ne (fun h ↦ hb h.2) (fun h ↦ ha h.2) rest

end Refinement

/-! ### Runs -/

section Runs

variable {a b : ℕ}

/-- What the client of an agent was told about another one. -/
def AoiNet.told (net : AoiNet) (agent other : ℕ) : List ListEntry :=
  (net.agents agent).sent.filterMap (Pack.about other)

/-- The last entry for a pair that the map has issued. -/
def AoiNet.lastIssued (net : AoiNet) (a b : ℕ) : Option ListEntry :=
  (entries a b net.issued).getLast?

/-- No message between two agents is in flight, and no entry for them. -/
def AoiNet.Quiet (net : AoiNet) (a b : ℕ) : Prop :=
  net.channel a b = [] ∧ net.channel b a = [] ∧ entries a b net.pending = []

instance (net : AoiNet) (a b : ℕ) : Decidable (net.Quiet a b) :=
  inferInstanceAs (Decidable (_ ∧ _ ∧ _))

/-- The entries for a pair have been handled in the order in which they were issued. -/
def IssuedInOrder (a b : ℕ) (net : AoiNet) : Prop :=
  entries a b net.issued = entries a b net.handled ++ entries a b net.pending

/-- An entry moves to the front of entries that are the same. -/
theorem append_singleton_of_same {entry : ListEntry} {before : List ListEntry}
    (hsame : ∀ other ∈ before, other = entry) : before ++ [entry] = entry :: before := by
  rw [List.eq_replicate_of_mem hsame, ← List.replicate_succ', List.replicate_succ]

/-- A call of `aoi_manage` issues nothing. -/
theorem AoiNet.issued_aoiManage (net : AoiNet) (self : ℕ) (manage : Manage) :
    (net.aoiManage self manage).issued = net.issued := by
  have hremove : ∀ (state : AoiNet) (agent : ℕ), (state.aoiRemove self agent).issued = state.issued := by
    intro state agent
    unfold aoiRemove
    split <;> rfl
  have hadd : ∀ (state : AoiNet) (target : ℕ), (state.aoiAdd self target).issued = state.issued :=
    fun _ _ ↦ rfl
  exact (view_foldl_same AoiNet.issued hremove _ _).trans (view_foldl_same AoiNet.issued hadd _ _)

theorem issuedInOrder_handle {net : AoiNet} (h : IssuedInOrder a b net) {index : ℕ} {call : ManageCall}
    (hcall : net.pending[index]? = some call) (hmeets : OrderlyFor a b net (.manage index)) :
    IssuedInOrder a b (net.handle index call) := by
  have hsplit : net.pending = net.pending.take index ++ call :: net.pending.drop (index + 1) := by
    obtain ⟨hlength, hget⟩ := List.getElem?_eq_some_iff.mp hcall
    rw [← hget, List.getElem_cons_drop, List.take_append_drop]
  have hpending : entries a b net.pending =
      entries a b (net.pending.take index) ++ (call.entry a b).toList ++
        entries a b (net.pending.drop (index + 1)) := by
    conv_lhs => rw [hsplit]
    unfold entries
    rw [List.filterMap_append]
    cases hentry : call.entry a b <;> simp [hentry]
  have hmoved : entries a b (net.pending.take index) ++ (call.entry a b).toList =
      (call.entry a b).toList ++ entries a b (net.pending.take index) := by
    cases hentry : call.entry a b with
    | none => simp
    | some entry => exact append_singleton_of_same (hmeets call hcall entry hentry).1
  have hissued : (net.handle index call).issued = net.issued := net.issued_aoiManage _ _
  rw [IssuedInOrder, hissued]
  calc entries a b net.issued
      = entries a b net.handled ++ ((call.entry a b).toList ++
          entries a b (net.pending.take index) ++ entries a b (net.pending.drop (index + 1))) := by
        rw [h, hpending, hmoved]
    _ = entries a b (net.handled ++ [call]) ++ entries a b (net.pending.eraseIdx index) := by
        rw [entries_append, List.eraseIdx_eq_take_drop_succ]
        simp [entries, List.filterMap_append]

/-- The map's calls change neither what was issued nor what was handled. -/
theorem AoiNet.logs_receive (net : AoiNet) (sender self : ℕ) (message : Message) :
    (net.receive sender self message).issued = net.issued ∧
      (net.receive sender self message).handled = net.handled ∧
      (net.receive sender self message).pending = net.pending := by
  cases message <;> exact ⟨rfl, rfl, rfl⟩

theorem issuedInOrder_of_run {first last : AoiNet} (h : IssuedInOrder a b first)
    (hrun : aoiNet.Run (OrderlyFor a b) first last) : IssuedInOrder a b last := by
  refine hrun.invariant (fun net event next hmeets h hstep ↦ ?_) h
  cases event with
  | issue call =>
    obtain rfl := Option.some.inj hstep
    unfold IssuedInOrder at h ⊢
    rw [entries_append, entries_append, h, List.append_assoc]
  | manage index =>
    simp only [aoiNet] at hstep
    split at hstep
    · exact nomatch hstep
    next call hcall =>
    split_ifs at hstep
    obtain rfl := Option.some.inj hstep
    exact issuedInOrder_handle h hcall hmeets
  | deliver sender receiver =>
    simp only [aoiNet] at hstep
    split at hstep
    · exact nomatch hstep
    next message rest hread =>
    obtain rfl := Option.some.inj hstep
    obtain ⟨hissued, hhandled, hpending⟩ :=
      (net.setChannel sender receiver rest).logs_receive sender receiver message
    rw [IssuedInOrder, hissued, hhandled, hpending]
    exact h

/-- For any two agents, any lists of the map and any order of deliveries: when the entries for the two are
handled in order, the client of each is sent `aoi_add` and `aoi_remove` for the other in turn, and whenever
nothing is in flight for them, each has recorded the other exactly when the last entry issued was an add. -/
theorem subscriptions_follow_map (character : ℕ → ℕ) (a b : ℕ) (hne : a ≠ b) (last : AoiNet)
    (hrun : aoiNet.Run (OrderlyFor a b) (.initial character) last) :
    Told ((last.agents a).records b) (last.told a b) ∧
    Told ((last.agents b).records a) (last.told b a) ∧
    (last.Quiet a b →
      ((last.agents a).records b = true ↔ last.lastIssued a b = some .add) ∧
      ((last.agents b).records a = true ↔ last.lastIssued a b = some .add)) := by
  have hfirst : PairInvariant ((AoiNet.initial character).pair a b) :=
    ⟨.inl (.apart nofun rfl rfl), .nothing, .nothing⟩
  have hpair : PairInvariant (last.pair a b) := hfirst.of_run ((refines_pair hne).run hrun)
  have hempty : IssuedInOrder a b (.initial character) := rfl
  have horder : IssuedInOrder a b last := issuedInOrder_of_run hempty hrun
  refine ⟨hpair.here, hpair.there, fun ⟨hthere, hhere, hpending⟩ ↦ ?_⟩
  have hlast : last.lastIssued a b = (last.pair a b).last := by
    rw [AoiNet.lastIssued, horder, hpending, List.append_nil]
    rfl
  rw [hlast]
  refine hpair.quiet ?_ ?_
  · simp [AoiNet.pair, hhere]
  · simp [AoiNet.pair, hthere]

/-- A list with one agent to add. -/
def Manage.adds (agent : ℕ) : Manage :=
  ⟨[agent], [], List.nodup_singleton agent, List.nodup_nil, fun _ _ ↦ List.not_mem_nil⟩

/-- A list with one agent to remove. -/
def Manage.removes (agent : ℕ) : Manage :=
  ⟨[], [agent], List.nodup_nil, List.nodup_singleton agent, fun _ h ↦ (List.not_mem_nil h).elim⟩

/-- The agent 1 comes to the agent 2, both subscribe, and the agent 2 goes away. -/
def comesAndGoes : List AoiEvent :=
  [ .issue ⟨1, .adds 2⟩, .manage 0, .deliver 1 2, .deliver 2 1,
    .issue ⟨2, .removes 1⟩, .manage 0, .deliver 2 1, .deliver 1 2 ]

theorem subscriptions_follow_map_away : ∃ last : AoiNet,
    Told ((last.agents 1).records 2) (last.told 1 2) ∧ last.told 1 2 = [.add, .remove] ∧
      ((last.agents 1).records 2 = true ↔ last.lastIssued 1 2 = some .add) := by
  obtain ⟨last, hrun, hvalue⟩ := aoiNet.exists_run_of_playMeeting (OrderlyFor 1 2) (.initial id)
    comesAndGoes (fun net ↦ (decide (net.Quiet 1 2), net.told 1 2))
    (show _ = some (true, [.add, .remove]) by decide +kernel)
  obtain ⟨hquiet, htold⟩ := Prod.mk.inj hvalue
  obtain ⟨hfirst, -, hrecords⟩ := subscriptions_follow_map id 1 2 (by decide) last hrun
  exact ⟨last, hfirst, htold, (hrecords (of_decide_eq_true hquiet)).1⟩

/-- The agent 1 comes to the agent 2 and goes away before the agent 2 has replied. -/
def goesEarly : List AoiEvent :=
  [ .issue ⟨1, .adds 2⟩, .manage 0, .issue ⟨1, .removes 2⟩, .manage 0, .deliver 1 2, .deliver 2 1 ]

/-- The remove finds nothing recorded, and the reply records the agent that has gone: nothing is in flight,
and both clients have a character that is not there. -/
theorem ghost_after_remove : ∃ last, aoiNet.Run (fun _ _ ↦ True) (.initial id) last ∧ last.Quiet 1 2 ∧
    last.lastIssued 1 2 = some .remove ∧ (last.agents 1).records 2 = true ∧
      (last.agents 2).records 1 = true := by
  obtain ⟨last, hrun, hvalue⟩ := aoiNet.exists_run_of_playMeeting (fun _ _ ↦ True) (.initial id)
    goesEarly (fun net ↦ (decide (net.Quiet 1 2), net.lastIssued 1 2, (net.agents 1).records 2,
      (net.agents 2).records 1)) (show _ = some (true, some .remove, true, true) by decide +kernel)
  obtain ⟨hquiet, hvalue⟩ := Prod.mk.inj hvalue
  obtain ⟨hissued, hvalue⟩ := Prod.mk.inj hvalue
  obtain ⟨hfirst, hsecond⟩ := Prod.mk.inj hvalue
  exact ⟨last, hrun, of_decide_eq_true hquiet, hissued, hfirst, hsecond⟩

end Runs

end SvrDemo.Map
