import SvrDemo.Map.AoiUpdates

/-!
# Every change is sent

Seen by one subject in one scope, every handler of `aoi_handler.lua` does nothing or raises one flag and then
updates if it can (`view_step`). So a history of marks, grants and updates of each subject can be replayed on its
flags, and what is known of such histories holds of `refresh_aoi` and of `send_self` alike (`updates_coalesce`).
-/

set_option autoImplicit false
set_option relaxedAutoImplicit false

namespace SvrDemo.Map

open Lua Protocol

namespace Viewer

/-! ### What a subject sees -/

/-- The flags of a subject in a scope. -/
def flag (self : Viewer) (scope : Scope) : Subject → Flag
  | .self => self.selfFlag scope
  | .subscribed t => (self.subscriptions t).flag scope

/-- The updates about a subject in a scope that the client was sent. -/
def updates (self : Viewer) (scope : Scope) (subject : Subject) : ℕ :=
  self.sent.count (.aoiUpdate scope subject)

/-- The flags and the updates of a subject in a scope. -/
def view (self : Viewer) (scope : Scope) (subject : Subject) : Flag × ℕ :=
  (self.flag scope subject, self.updates scope subject)

/-- The subscription of a character. -/
def subjectOf (self : Viewer) (character : ℕ) : Option Subject :=
  (self.subscribeCharacter.lookup character).map .subscribed

variable {self : Viewer} {scope other : Scope} {subject : Subject}

theorem view_setSelfFlag (flag : Flag) : (self.setSelfFlag other flag).view scope subject =
    if subject = .self ∧ scope = other then (flag, self.updates scope subject) else self.view scope subject := by
  cases subject with
  | self =>
    by_cases hscope : scope = other <;> simp [view, Viewer.flag, updates, setSelfFlag, hscope]
  | subscribed t => rfl

theorem view_setFlag (record : ℕ) (flag : Flag) : (self.setFlag record other flag).view scope subject =
    if subject = .subscribed record ∧ scope = other then (flag, self.updates scope subject)
    else self.view scope subject := by
  cases subject with
  | self => rfl
  | subscribed t =>
    by_cases hrecord : t = record
    · subst hrecord
      by_cases hscope : scope = other <;> simp [view, Viewer.flag, updates, setFlag, hscope]
    · simp [view, Viewer.flag, updates, setFlag, hrecord]

theorem view_sendRequest (request : ClientRequest) : (self.sendRequest request).view scope subject =
    if request = .aoiUpdate scope subject then (self.flag scope subject, self.updates scope subject + 1)
    else self.view scope subject := by
  have hupdates : (self.sendRequest request).updates scope subject =
      self.updates scope subject + if request = .aoiUpdate scope subject then 1 else 0 := by
    simp [updates, sendRequest, List.count_append, List.count_singleton]
  have hflag : (self.sendRequest request).flag scope subject = self.flag scope subject := by cases subject <;> rfl
  rw [view, hupdates, hflag]
  split <;> rfl

/-- The subject updates if it can. -/
def refreshed (seen : Flag × ℕ) : Flag × ℕ := (seen.1.refresh.1, seen.2 + seen.1.refresh.2)

/-- The subject raises a flag, and then updates if it can. -/
def reacted (field : Field) (seen : Flag × ℕ) : Flag × ℕ :=
  ((seen.1.react field).1, seen.2 + (seen.1.react field).2)

theorem view_sendSelf : (self.sendSelf other).view scope subject =
    if subject = .self ∧ scope = other then refreshed (self.view scope subject) else self.view scope subject := by
  unfold sendSelf
  dsimp only
  split
  · next hdue =>
    rw [view_sendRequest, view_setSelfFlag]
    by_cases hsame : subject = .self ∧ scope = other
    · obtain ⟨rfl, rfl⟩ := hsame
      simp [refreshed, Flag.refresh, view, Viewer.flag, updates, setSelfFlag, hdue]
    · have hne : ClientRequest.aoiUpdate other .self ≠ .aoiUpdate scope subject := fun h ↦ by
        obtain ⟨rfl, rfl⟩ := ClientRequest.aoiUpdate.inj h
        exact hsame ⟨rfl, rfl⟩
      rw [if_neg hsame, if_neg hne, if_neg hsame]
  · next hdue =>
    split
    · next hsame =>
      obtain ⟨rfl, rfl⟩ := hsame
      simp [refreshed, Flag.refresh, view, Viewer.flag, hdue]
    · rfl

theorem view_markSelf : (self.markSelf other).view scope subject =
    if subject = .self ∧ scope = other then reacted .dirty (self.view scope subject)
    else self.view scope subject := by
  rw [markSelf, view_sendSelf, view_setSelfFlag]
  by_cases hsame : subject = .self ∧ scope = other
  · obtain ⟨rfl, rfl⟩ := hsame
    rw [if_pos ⟨rfl, rfl⟩, if_pos ⟨rfl, rfl⟩, if_pos ⟨rfl, rfl⟩]
    rfl
  · rw [if_neg hsame, if_neg hsame, if_neg hsame]

/-! ### The subject of a message -/

@[simp]
theorem subjectOf_setFlag (record : ℕ) (flag : Flag) (character : ℕ) :
    (self.setFlag record other flag).subjectOf character = self.subjectOf character := rfl

@[simp]
theorem subjectOf_markFlag (id : ℕ) (field : Field) (character : ℕ) :
    (self.markFlag id other field true).subjectOf character = self.subjectOf character := by
  unfold markFlag
  split <;> rfl

@[simp]
theorem subjectOf_refreshAoi (id character : ℕ) :
    (self.refreshAoi id other).subjectOf character = self.subjectOf character := by
  unfold refreshAoi
  dsimp only
  split
  · rfl
  · split <;> rfl

theorem view_markFlag (id : ℕ) (field : Field) : (self.markFlag id other field true).view scope subject =
    if self.subjectOf id = some subject ∧ scope = other then
      ((self.flag scope subject).set field true, self.updates scope subject)
    else self.view scope subject := by
  unfold markFlag subjectOf
  split
  · next hnone => simp [hnone]
  · next t hlookup =>
    rw [view_setFlag, hlookup]
    by_cases hsame : subject = .subscribed t ∧ scope = other
    · obtain ⟨rfl, rfl⟩ := hsame
      rw [if_pos ⟨rfl, rfl⟩, if_pos ⟨rfl, rfl⟩]
      rfl
    · rw [if_neg hsame, if_neg fun h ↦ hsame ⟨(Option.some.inj h.1).symm, h.2⟩]

theorem view_refreshAoi (id : ℕ) : (self.refreshAoi id other).view scope subject =
    if self.subjectOf id = some subject ∧ scope = other then refreshed (self.view scope subject)
    else self.view scope subject := by
  unfold refreshAoi subjectOf
  dsimp only
  split
  · next hnone => simp [hnone]
  · next t hlookup =>
    have hsubject : (Option.map Subject.subscribed (some t) = some subject ∧ scope = other) ↔
        subject = .subscribed t ∧ scope = other := by
      rw [Option.map_some, Option.some_inj, eq_comm]
    rw [hlookup, if_congr hsubject rfl rfl]
    by_cases hsame : subject = .subscribed t ∧ scope = other
    · rw [if_pos hsame]
      obtain ⟨rfl, rfl⟩ := hsame
      by_cases hdue : (((self.subscriptions t).flag scope).dirty && ((self.subscriptions t).flag scope).wantmore) = true
      · rw [if_pos hdue, view_setFlag, if_pos ⟨rfl, rfl⟩]
        simp [refreshed, Flag.refresh, view, Viewer.flag, updates, sendRequest, hdue]
      · rw [if_neg hdue]
        simp [refreshed, Flag.refresh, view, Viewer.flag, hdue]
    · rw [if_neg hsame]
      split
      · have hne : ClientRequest.aoiUpdate other (.subscribed t) ≠ .aoiUpdate scope subject := fun h ↦ by
          obtain ⟨rfl, rfl⟩ := ClientRequest.aoiUpdate.inj h
          exact hsame ⟨rfl, rfl⟩
        rw [view_setFlag, if_neg hsame, view_sendRequest, if_neg hne]
      · rfl

/-- A subscription is marked, or granted an update, and refreshed. -/
theorem view_react (id : ℕ) (field : Field) :
    ((self.markFlag id other field true).refreshAoi id other).view scope subject =
      if self.subjectOf id = some subject ∧ scope = other then reacted field (self.view scope subject)
      else self.view scope subject := by
  rw [view_refreshAoi, view_markFlag, subjectOf_markFlag]
  by_cases hsame : self.subjectOf id = some subject ∧ scope = other
  · rw [if_pos hsame, if_pos hsame, if_pos hsame]
    rfl
  · rw [if_neg hsame, if_neg hsame, if_neg hsame]

/-! ### Steps that a subject does not see -/

theorem view_call (call : AgentCall) : (self.call call).view scope subject = self.view scope subject := by
  cases subject <;> rfl

theorem view_createReader : self.createReader.view scope subject = self.view scope subject := by
  cases subject <;> rfl

theorem view_forget (agent record : ℕ) : (self.forget agent record).view scope subject = self.view scope subject := by
  unfold forget
  rw [view_sendRequest, if_neg nofun]
  cases subject <;> rfl

/-- A record is made without flags, which is how it was seen before. -/
theorem view_subscribe (hfresh : ∀ scope, (self.subscriptions self.subscriptionCnt).flag scope = ⟨false, false⟩)
    (agent reader : ℕ) : (self.subscribe agent reader).view scope subject = self.view scope subject := by
  unfold subscribe
  rw [view_sendRequest, if_neg nofun]
  cases subject with
  | self => rfl
  | subscribed t =>
    by_cases hnew : t = self.subscriptionCnt
    · subst hnew
      simp [view, flag, updates, hfresh]
    · simp [view, flag, updates, hnew]

theorem view_aoiAdd (target : ℕ) : (self.aoiAdd target).view scope subject = self.view scope subject := by
  rw [aoiAdd, view_call, view_createReader]

theorem view_aoiRemove (agent : ℕ) : (self.aoiRemove agent).view scope subject = self.view scope subject := by
  unfold aoiRemove
  split
  · rfl
  · rw [view_call, view_forget]

theorem view_aoiUnsubscribe (agent : ℕ) :
    (self.aoiUnsubscribe agent).view scope subject = self.view scope subject := by
  unfold aoiUnsubscribe
  split
  · rfl
  · exact view_forget agent _

/-- Coroutines that a subject does not see one by one are not seen together. -/
theorem view_foldl {f : Viewer → ℕ → Viewer}
    (hf : ∀ (self : Viewer) (agent : ℕ), (f self agent).view scope subject = self.view scope subject)
    (self : Viewer) (agents : List ℕ) : (agents.foldl f self).view scope subject = self.view scope subject :=
  List.foldlRecOn (motive := fun seen : Viewer ↦ seen.view scope subject = self.view scope subject) agents f rfl
    fun _ hseen agent _ ↦ (hf _ agent).trans hseen

theorem view_sendAll (targets : List ℕ) : (self.sendAll other targets).view scope subject = self.view scope subject :=
  view_foldl (fun _ target ↦ view_call (.aoiSend target other)) self targets

/-! ### The records -/

/-- The tables have records that were made, and a record that was not made has no flags. -/
structure Made (state : Viewer) : Prop where
  known : ∀ character t, state.subscribeCharacter.lookup character = some t → t < state.subscriptionCnt
  fresh : ∀ t scope, state.subscriptionCnt ≤ t → (state.subscriptions t).flag scope = ⟨false, false⟩

theorem Made.setFlag (hmade : self.Made) {t : ℕ} (ht : t < self.subscriptionCnt) (flag : Flag) :
    (self.setFlag t scope flag).Made where
  known := hmade.known
  fresh t' scope' hle := by
    have hlt : t < t' := ht.trans_le hle
    change (Function.update self.subscriptions t _ t').flag scope' = _
    rw [Function.update_of_ne hlt.ne']
    exact hmade.fresh t' scope' hle

theorem Made.sendRequest (hmade : self.Made) (request : ClientRequest) : (self.sendRequest request).Made :=
  ⟨hmade.known, hmade.fresh⟩

theorem Made.call (hmade : self.Made) (call : AgentCall) : (self.call call).Made :=
  ⟨hmade.known, hmade.fresh⟩

theorem Made.createReader (hmade : self.Made) : self.createReader.Made :=
  ⟨hmade.known, hmade.fresh⟩

theorem Made.markSelf (hmade : self.Made) : (self.markSelf scope).Made := by
  unfold Viewer.markSelf sendSelf
  dsimp only
  split <;> exact ⟨hmade.known, hmade.fresh⟩

theorem Made.markFlag (hmade : self.Made) (character : ℕ) (field : Field) (value : Bool) :
    (self.markFlag character scope field value).Made := by
  unfold Viewer.markFlag
  split
  · exact hmade
  · next t hlookup => exact hmade.setFlag (hmade.known character t hlookup) _

theorem Made.refreshAoi (hmade : self.Made) (id : ℕ) : (self.refreshAoi id scope).Made := by
  unfold Viewer.refreshAoi
  dsimp only
  split
  · exact hmade
  · next t hlookup =>
    split
    · exact (hmade.sendRequest _).setFlag (hmade.known id t hlookup) _
    · exact hmade

theorem Made.aoiUpdateResponse (hmade : self.Made) (id : ℕ) : (self.aoiUpdateResponse id scope).Made := by
  unfold Viewer.aoiUpdateResponse sendSelf
  dsimp only
  split
  · split <;> exact ⟨hmade.known, hmade.fresh⟩
  · exact (hmade.markFlag id _ _).refreshAoi id

theorem Made.subscribe (hmade : self.Made) (agent reader : ℕ) : (self.subscribe agent reader).Made where
  known character t hlookup := by
    rw [Viewer.subscribe, Viewer.sendRequest, Table.lookup_insert_eq] at hlookup
    split at hlookup
    · exact Option.some.inj hlookup ▸ Nat.lt_succ_self _
    · exact (hmade.known character t hlookup).trans (Nat.lt_succ_self _)
  fresh t scope hle := by
    have hlt : self.subscriptionCnt < t := hle
    change (Function.update self.subscriptions self.subscriptionCnt _ t).flag scope = _
    rw [Function.update_of_ne hlt.ne']
    exact hmade.fresh t scope hlt.le

theorem Made.forget (hmade : self.Made) (agent record : ℕ) : (self.forget agent record).Made where
  known character t hlookup := by
    rw [Viewer.forget, Viewer.sendRequest, Table.lookup_erase_eq] at hlookup
    split at hlookup
    · exact nomatch hlookup
    · exact hmade.known character t hlookup
  fresh := hmade.fresh

theorem Made.aoiRemove (hmade : self.Made) (agent : ℕ) : (self.aoiRemove agent).Made := by
  unfold Viewer.aoiRemove
  split
  · exact hmade
  · exact (hmade.forget agent _).call _

theorem Made.aoiUnsubscribe (hmade : self.Made) (agent : ℕ) : (self.aoiUnsubscribe agent).Made := by
  unfold Viewer.aoiUnsubscribe
  split
  · exact hmade
  · exact hmade.forget agent _

theorem Made.sendAll (hmade : self.Made) (targets : List ℕ) : (self.sendAll scope targets).Made :=
  List.foldlRecOn targets _ hmade fun _ hseen _ _ ↦ hseen.call _

/-! ### What is heard of a subject -/

/-- What an event says of a subject in a scope: its character has changed, or the client wants more of it. -/
def heard (self : Viewer) (event : ViewerEvent) (scope : Scope) (subject : Subject) : Option Field :=
  match event with
  | .aoiManage _ _ ulist => if subject = .self ∧ ulist.map Prod.fst = some scope then some .dirty else none
  | .aoiSubscribe .. => none
  | .subscribed .. => none
  | .aoiUnsubscribe _ => none
  | .aoiSend agent other =>
    if (self.subscribeAgent.lookup agent).bind (fun t ↦ self.subjectOf (self.subscriptions t).character) =
        some subject ∧ scope = other then
      some .dirty
    else none
  | .responseAoiAdd id wantmore _ => if wantmore ∧ self.subjectOf id = some subject then some .wantmore else none
  | .responseAoiUpdate other id wantmore =>
    if wantmore ∧ (if id = self.selfId then some .self else self.subjectOf id) = some subject ∧ scope = other then
      some .wantmore
    else none
  | .boardcast other _ => if self.characterWriter ∧ subject = .self ∧ scope = other then some .dirty else none

/-- Both tables have the record as the subscription of an agent and of its character. -/
structure Subscribes (self : Viewer) (agent record : ℕ) : Prop where
  agent : self.subscribeAgent.lookup agent = some record
  character : self.subscribeCharacter.lookup (self.subscriptions record).character = some record

/-- A new record is the subscription of its agent and its character. -/
theorem subscribes_subscribe (agent reader : ℕ) :
    (self.subscribe agent reader).Subscribes agent self.subscriptionCnt where
  agent := by
    rw [Viewer.subscribe, Viewer.sendRequest, Table.lookup_insert_eq, if_pos rfl]
  character := by
    have hcharacter :
        ((self.subscribe agent reader).subscriptions self.subscriptionCnt).character = reader := by
      simp [Viewer.subscribe, Viewer.sendRequest]
    rw [hcharacter, Viewer.subscribe, Viewer.sendRequest, Table.lookup_insert_eq, if_pos rfl]

/-- While an agent is subscribed, its `aoi_send` is heard of its subscription. -/
theorem Subscribes.heard_aoiSend {agent record : ℕ} (hsubscribes : self.Subscribes agent record) (scope : Scope) :
    self.heard (.aoiSend agent scope) scope (.subscribed record) = some .dirty := by
  obtain ⟨hagent, hcharacter⟩ := hsubscribes
  have hsubject : self.subjectOf (self.subscriptions record).character = some (.subscribed record) := by
    rw [subjectOf, hcharacter, Option.map_some]
  rw [heard, hagent, Option.bind_some, if_pos ⟨hsubject, rfl⟩]

/-- What the subject does about it. -/
def respond : Option Field → Flag × ℕ → Flag × ℕ
  | none => id
  | some field => reacted field

/-- The notes of a step: what was heard, and the updates after it. -/
def notes (self : Viewer) (event : ViewerEvent) (next : Viewer) (seen : Scope × Subject) : List Note :=
  ((self.heard event seen.1 seen.2).map Field.note).toList ++
    List.replicate (next.updates seen.1 seen.2 - self.updates seen.1 seen.2) .update

theorem view_aoiUpdateResponse (id : ℕ) : (self.aoiUpdateResponse id other).view scope subject =
    if (if id = self.selfId then some .self else self.subjectOf id) = some subject ∧ scope = other then
      reacted .wantmore (self.view scope subject)
    else self.view scope subject := by
  unfold aoiUpdateResponse
  split
  · have hself : (some Subject.self = some subject ∧ scope = other) ↔ subject = .self ∧ scope = other := by
      rw [Option.some_inj, eq_comm]
    rw [view_sendSelf, view_setSelfFlag, if_congr hself rfl rfl]
    by_cases hsame : subject = .self ∧ scope = other
    · obtain ⟨rfl, rfl⟩ := hsame
      rw [if_pos ⟨rfl, rfl⟩, if_pos ⟨rfl, rfl⟩, if_pos ⟨rfl, rfl⟩]
      rfl
    · rw [if_neg hsame, if_neg hsame, if_neg hsame]
  · exact view_react id .wantmore

/-- Every scope is visited once. -/
theorem view_responseAoiAdd (id : ℕ) (scopes : ScopeOrder) : (self.responseAoiAdd id scopes).view scope subject =
    if self.subjectOf id = some subject then reacted .wantmore (self.view scope subject)
    else self.view scope subject := by
  have hfold (order : List Scope) (honce : order.Nodup) : ∀ self : Viewer,
      (order.foldl (fun self k ↦ (self.markFlag id k .wantmore true).refreshAoi id k) self).view scope subject =
        if self.subjectOf id = some subject ∧ scope ∈ order then reacted .wantmore (self.view scope subject)
        else self.view scope subject := by
    induction order with
    | nil => exact fun self ↦ by simp
    | cons k order ih =>
      intro self
      obtain ⟨hk, honce⟩ := List.nodup_cons.mp honce
      rw [List.foldl_cons, ih honce, subjectOf_refreshAoi, subjectOf_markFlag, view_react]
      by_cases hscope : scope = k
      · subst hscope
        simp [hk]
      · simp [hscope]
  rw [responseAoiAdd, hfold scopes.order scopes.once]
  exact if_congr (and_iff_left (scopes.all scope)) rfl rfl

theorem view_boardcast (order : List ℕ) : (self.boardcast other order).view scope subject =
    if self.characterWriter ∧ subject = .self ∧ scope = other then reacted .dirty (self.view scope subject)
    else self.view scope subject := by
  unfold boardcast
  split
  · next hwriter =>
    rw [view_sendAll, view_markSelf]
    exact if_congr (and_iff_right hwriter).symm rfl rfl
  · next hwriter => rw [if_neg fun h ↦ hwriter h.1]

theorem view_aoiSend (agent : ℕ) : (self.aoiSend agent other).view scope subject =
    if (self.subscribeAgent.lookup agent).bind (fun t ↦ self.subjectOf (self.subscriptions t).character) =
        some subject ∧ scope = other then
      reacted .dirty (self.view scope subject)
    else self.view scope subject := by
  unfold aoiSend
  split
  · next hnone => simp [hnone]
  · next t hlookup =>
    rw [hlookup, Option.bind_some]
    exact view_react _ .dirty

theorem view_aoiManage (alist rlist : List ℕ) (ulist : Option (Scope × List ℕ)) :
    (self.aoiManage alist rlist ulist).view scope subject =
      if subject = .self ∧ ulist.map Prod.fst = some scope then reacted .dirty (self.view scope subject)
      else self.view scope subject := by
  have hforked (self : Viewer) :
      (rlist.foldl aoiRemove (alist.foldl aoiAdd self)).view scope subject = self.view scope subject := by
    rw [view_foldl fun _ agent ↦ view_aoiRemove agent, view_foldl fun _ target ↦ view_aoiAdd target]
  cases ulist with
  | none =>
    rw [aoiManage, hforked]
    simp
  | some u =>
    obtain ⟨other, targets⟩ := u
    rw [aoiManage, view_sendAll, hforked, view_markSelf]
    refine if_congr (and_congr_right fun _ ↦ ?_) rfl rfl
    rw [Option.map_some, Option.some_inj, eq_comm]

/-- Every step does nothing to a subject, or is a reaction to what was heard. -/
theorem view_step (hmade : self.Made) (scope : Scope) (subject : Subject) {event : ViewerEvent} {next : Viewer}
    (hstep : viewer.step self event = some next) :
    next.view scope subject = respond (self.heard event scope subject) (self.view scope subject) := by
  have hrespond (heard : Prop) [Decidable heard] (field : Field) :
      respond (if heard then some field else none) (self.view scope subject) =
        if heard then reacted field (self.view scope subject) else self.view scope subject := by
    split <;> rfl
  cases event with
  | aoiManage alist rlist ulist =>
    obtain rfl := Option.some.inj hstep
    rw [view_aoiManage, heard, hrespond]
  | aoiSubscribe agent reader =>
    obtain rfl := Option.some.inj hstep
    rw [aoiSubscribe, view_createReader]
    exact view_subscribe (hmade.fresh _ · le_rfl) agent reader
  | subscribed target reader =>
    obtain rfl := Option.some.inj hstep
    exact view_subscribe (hmade.fresh _ · le_rfl) target reader
  | aoiUnsubscribe agent =>
    obtain rfl := Option.some.inj hstep
    exact view_aoiUnsubscribe agent
  | aoiSend agent other =>
    obtain rfl := Option.some.inj hstep
    rw [view_aoiSend, heard, hrespond]
  | responseAoiAdd id wantmore scopes =>
    obtain rfl := Option.some.inj hstep
    rw [heard, hrespond]
    cases wantmore with
    | true => simp [view_responseAoiAdd]
    | false => simp
  | responseAoiUpdate other id wantmore =>
    obtain rfl := Option.some.inj hstep
    rw [heard, hrespond]
    cases wantmore with
    | true => simp [view_aoiUpdateResponse]
    | false => simp
  | boardcast other order =>
    have hnext : self.boardcast other order = next := by
      simp only [viewer, Option.ite_none_right_eq_some, Option.some_inj] at hstep
      exact hstep.2
    rw [← hnext, view_boardcast, heard, hrespond]

theorem Made.step (hmade : self.Made) {event : ViewerEvent} {next : Viewer}
    (hstep : viewer.step self event = some next) : next.Made := by
  cases event with
  | aoiManage alist rlist ulist =>
    obtain rfl := Option.some.inj hstep
    have hforked {self : Viewer} (hmade : self.Made) :
        (rlist.foldl Viewer.aoiRemove (alist.foldl Viewer.aoiAdd self)).Made := by
      have hadded := List.foldlRecOn alist Viewer.aoiAdd hmade fun _ hseen target _ ↦
        hseen.createReader.call (.aoiSubscribe target)
      exact List.foldlRecOn rlist Viewer.aoiRemove hadded fun _ hseen agent _ ↦ hseen.aoiRemove agent
    cases ulist with
    | none => exact hforked hmade
    | some u => exact (hforked hmade.markSelf).sendAll u.2
  | aoiSubscribe agent reader =>
    obtain rfl := Option.some.inj hstep
    exact (hmade.subscribe agent reader).createReader
  | subscribed target reader =>
    obtain rfl := Option.some.inj hstep
    exact hmade.subscribe target reader
  | aoiUnsubscribe agent =>
    obtain rfl := Option.some.inj hstep
    exact hmade.aoiUnsubscribe agent
  | aoiSend agent scope =>
    obtain rfl := Option.some.inj hstep
    unfold aoiSend
    split
    · exact hmade
    · exact (hmade.markFlag _ _ _).refreshAoi _
  | responseAoiAdd id wantmore scopes =>
    obtain rfl := Option.some.inj hstep
    split
    · exact List.foldlRecOn scopes.order _ hmade fun _ hseen _ _ ↦ (hseen.markFlag _ _ _).refreshAoi _
    · exact hmade
  | responseAoiUpdate scope id wantmore =>
    obtain rfl := Option.some.inj hstep
    split
    · exact hmade.aoiUpdateResponse id
    · exact hmade
  | boardcast scope order =>
    have hnext : self.boardcast scope order = next := by
      simp only [viewer, Option.ite_none_right_eq_some, Option.some_inj] at hstep
      exact hstep.2
    rw [← hnext, boardcast]
    split
    · exact hmade.markSelf.sendAll order
    · exact hmade

/-- The notes of a step can be replayed on the flags of the subject, and have its updates. -/
theorem notes_step (hmade : self.Made) (scope : Scope) (subject : Subject) {event : ViewerEvent} {next : Viewer}
    (hstep : viewer.step self event = some next) :
    (self.flag scope subject).replay (self.notes event next (scope, subject)) = some (next.flag scope subject) ∧
      ((self.flag scope subject).AtRest → (next.flag scope subject).AtRest) ∧
      next.updates scope subject =
        self.updates scope subject + (self.notes event next (scope, subject)).count .update := by
  have hview := view_step hmade scope subject hstep
  unfold notes
  cases hheard : self.heard event scope subject with
  | none =>
    rw [hheard] at hview
    obtain ⟨hflag, hupdates⟩ := Prod.mk.inj hview
    rw [hflag, hupdates]
    simp
  | some field =>
    rw [hheard] at hview
    obtain ⟨hflag, hupdates⟩ := Prod.mk.inj hview
    obtain ⟨hreplay, hrest⟩ := Flag.replay_react (self.flag scope subject) field
    have hnote : field.note ≠ .update := by cases field <;> decide
    rw [hflag, hupdates]
    dsimp only [view]
    rw [Nat.add_sub_cancel_left]
    refine ⟨hreplay, fun _ ↦ hrest, ?_⟩
    simp [hnote]

/-- The flags of a subject before the first note about it. -/
def startFlag : Subject → Flag
  | .self => ⟨false, true⟩
  | .subscribed _ => ⟨false, false⟩

/-- What holds between the handlers: no update is due, and the history of a subject can be replayed on its flags
and has its updates. -/
structure Coalesces (state : Viewer) (history : Scope × Subject → List Note) : Prop where
  made : state.Made
  atRest : ∀ scope subject, (state.flag scope subject).AtRest
  replay : ∀ scope subject,
    (startFlag subject).replay (history (scope, subject)) = some (state.flag scope subject)
  counted : ∀ scope subject, state.updates scope subject = (history (scope, subject)).count .update

theorem coalesces_init (selfId : ℕ) : Coalesces (init selfId) fun _ ↦ [] where
  made := ⟨nofun, fun _ _ _ ↦ rfl⟩
  atRest scope subject := by cases subject <;> exact nofun
  replay scope subject := by cases subject <;> rfl
  counted scope subject := rfl

theorem Coalesces.step {history : Scope × Subject → List Note} (hcoalesces : Coalesces self history)
    {event : ViewerEvent} {next : Viewer} (hstep : viewer.step self event = some next) :
    Coalesces next fun seen ↦ history seen ++ self.notes event next seen where
  made := hcoalesces.made.step hstep
  atRest scope subject := (notes_step hcoalesces.made scope subject hstep).2.1 (hcoalesces.atRest scope subject)
  replay scope subject :=
    Flag.replay_trans (hcoalesces.replay scope subject) (notes_step hcoalesces.made scope subject hstep).1
  counted scope subject := by
    rw [(notes_step hcoalesces.made scope subject hstep).2.2, hcoalesces.counted scope subject, List.count_append]

end Viewer

/-- The machine of `aoi_handler.lua`, with the history of every subject in every scope. -/
def recordedViewer : Machine (Viewer × (Scope × Subject → List Note)) ViewerEvent :=
  viewer.recorded Viewer.notes

theorem coalesces_of_run {selfId : ℕ} {last : Viewer} {history : Scope × Subject → List Note}
    (hrun : recordedViewer.Run (fun _ _ ↦ True) (Viewer.init selfId, fun _ ↦ []) (last, history)) :
    last.Coalesces history := by
  refine Machine.Run.invariant (I := fun whole ↦ whole.1.Coalesces whole.2) ?_ (Viewer.coalesces_init selfId) hrun
  intro whole event next _ hcoalesces hstep
  obtain ⟨state, hstate, rfl⟩ := Option.map_eq_some_iff.mp hstep
  exact hcoalesces.step hstate

/-- The updates about a subject in a scope, along every run of the handlers. After each handler no update is due.
Up to any point of its history a subject has no more updates than grants, of which the own character has one at the
start. It is clean exactly when no mark came after the last update, and a grant of a marked subject sends an
update. The marks of a subscription are the `aoi_send`s of its agent (`aoi_send_marks`). -/
theorem updates_coalesce {selfId : ℕ} {last : Viewer} {history : Scope × Subject → List Note}
    (hrun : recordedViewer.Run (fun _ _ ↦ True) (Viewer.init selfId, fun _ ↦ []) (last, history)) (scope : Scope)
    (subject : Subject) :
    ¬ ((last.flag scope subject).dirty = true ∧ (last.flag scope subject).wantmore = true) ∧
      last.updates scope subject = (history (scope, subject)).count .update ∧
      (∀ before, before <+: history (scope, subject) →
        before.count .update ≤ before.count .grant + if subject = .self then 1 else 0) ∧
      ((last.flag scope subject).dirty = false ↔ ¬ Pending (history (scope, subject))) ∧
      ∀ event next, viewer.step last event = some next → last.heard event scope subject = some .wantmore →
        Pending (history (scope, subject)) → last.updates scope subject < next.updates scope subject := by
  have hcoalesces := coalesces_of_run hrun
  have hreplay := hcoalesces.replay scope subject
  have hclean : (Viewer.startFlag subject).dirty = false := by cases subject <;> rfl
  have hdirty := Flag.dirty_iff_pending hclean hreplay
  refine ⟨hcoalesces.atRest scope subject, hcoalesces.counted scope subject, fun before hpart ↦ ?_, ?_, ?_⟩
  · have hstart : (Viewer.startFlag subject).wantmore.toNat = if subject = .self then 1 else 0 := by
      cases subject <;> rfl
    exact hstart ▸ Flag.count_update_le hreplay hpart
  · rw [← hdirty, Bool.not_eq_true]
  · intro event next hstep hheard hpending
    obtain ⟨hnotes, hrest, hcount⟩ := Viewer.notes_step hcoalesces.made scope subject hstep
    have hgrant : .grant ∈ last.notes event next (scope, subject) := by
      rw [Viewer.notes, hheard]
      exact List.mem_cons_self
    have hupdate := Flag.update_of_grant (hdirty.mpr hpending) hnotes (hrest (hcoalesces.atRest scope subject)) hgrant
    rw [hcount]
    exact Nat.lt_add_of_pos_right (List.count_pos_iff.mpr hupdate)

/-- Along every run, an `aoi_send` of a subscribed agent is a mark in the history of its subscription: the subject
is left marked, or an update is sent. -/
theorem aoi_send_marks {selfId : ℕ} {last next : Viewer} {history : Scope × Subject → List Note}
    (hrun : recordedViewer.Run (fun _ _ ↦ True) (Viewer.init selfId, fun _ ↦ []) (last, history))
    {agent record : ℕ} (hsubscribes : last.Subscribes agent record) {scope : Scope}
    (hstep : viewer.step last (.aoiSend agent scope) = some next) :
    .mark ∈ last.notes (.aoiSend agent scope) next (scope, .subscribed record) ∧
      ((next.flag scope (.subscribed record)).dirty = true ∨
        last.updates scope (.subscribed record) < next.updates scope (.subscribed record)) := by
  have hheard := hsubscribes.heard_aoiSend scope
  have hview := Viewer.view_step (coalesces_of_run hrun).made scope (.subscribed record) hstep
  rw [hheard] at hview
  obtain ⟨hflag, hupdates⟩ := Prod.mk.inj hview
  constructor
  · rw [Viewer.notes, hheard]
    exact List.mem_cons_self
  · rw [hflag, hupdates]
    cases hgranted : (last.flag scope (.subscribed record)).wantmore with
    | false => exact .inl (by simp [Viewer.view, Flag.react, Flag.refresh, Flag.set, hgranted])
    | true => exact .inr (by simp [Viewer.view, Flag.react, Flag.refresh, Flag.set, hgranted])

/-- A change after a response of the client is sent at once. -/
theorem updates_coalesce_one : ∃ last history,
    recordedViewer.Run (fun _ _ ↦ True) (Viewer.init 1, fun _ ↦ []) (last, history) ∧
      history (.move, .subscribed 0) = [.grant, .mark, .update] ∧ last.updates .move (.subscribed 0) = 1 := by
  have hplay : (recordedViewer.playMeeting (fun _ _ ↦ True) (Viewer.init 1, fun _ ↦ [])
      [.subscribed 7 5, .responseAoiAdd 5 true ⟨[.move, .attribute], by decide, by rintro ⟨⟩ <;> decide⟩,
        .aoiSend 7 .move]).map (fun whole ↦ whole.2 (.move, .subscribed 0)) = some [.grant, .mark, .update] := rfl
  obtain ⟨⟨last, history⟩, hrun, hhistory⟩ := Machine.exists_run_of_playMeeting _ _ _ _ _ hplay
  have hnotes : history (.move, .subscribed 0) = [.grant, .mark, .update] := hhistory
  refine ⟨last, history, hrun, hnotes, ?_⟩
  rw [(updates_coalesce hrun .move (.subscribed 0)).2.1, hnotes]
  decide

end SvrDemo.Map
