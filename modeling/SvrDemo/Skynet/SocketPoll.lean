import SvrDemo.Skynet.SocketDelivery

/-!
# Runs of the socket server

What the slots, the ids that threads hold, the requests in the pipe, the events that are left and the messages have to
do with each other (`SocketServer.Sound`), in every run of the server (`packages_delivered`).
-/

set_option autoImplicit false
set_option relaxedAutoImplicit false

namespace SvrDemo.Skynet

open Base Protocol

namespace SocketServer

variable {ss : SocketServer} {s' : Socket} {message : Option SocketResult} {F : Prop}

/-- The ids that requests in the pipe are to open. -/
def opening (pipe : List Request) : List ℕ := (pipe.filter Request.opens).map Request.id

/-- The ids for which a slot is reserved. -/
def claims (ss : SocketServer) : List ℕ := ss.storing ++ (ss.reserved ++ opening ss.pipe)

/-- A new id, and its slot is free. -/
def Free (ss : SocketServer) (id : ℕ) : Prop := (ss.slot (hashId id)).type = .invalid ∧ ss.Fresh id

/-- A socket that is open under an id. -/
def OpenAs (ss : SocketServer) (id : ℕ) : Prop := ∃ i, (ss.slot i).Live ∧ (ss.slot i).id = id

/-- What every step keeps. -/
structure Sound (ss : SocketServer) : Prop where
  slots : ∀ i, (ss.slot i).Sound
  place : ∀ i, (ss.slot i).Live → hashId (ss.slot i).id = i
  named : ∀ i, (ss.slot i).Live → (ss.slot i).id ∈ ss.known
  claimed : ∀ i, (ss.slot i).type = .reserve ↔ ∃ id ∈ ss.claims, hashId id = i
  distinct : (ss.claims.map hashId).Nodup
  stored : ∀ id ∈ ss.reserved ++ opening ss.pipe, (ss.slot (hashId id)).id = id
  unknown : ∀ id ∈ ss.storing ++ ss.reserved, id ∉ ss.known
  requested : ∀ request ∈ ss.pipe, request.id ∈ ss.known
  ahead : ss.pipe.Pairwise fun request later ↦ later.opens → request.id ≠ later.id
  polled : ∀ e ∈ ss.ev, ∀ i ∈ e.slot, (ss.slot i).fd.polled
  once : (ss.ev.filterMap Event.slot).Nodup
  closed : ∀ result ∈ ss.messages, result.type = .close →
    result.id ∈ ss.known ∧ result.id ∉ opening ss.pipe ∧ ¬ss.OpenAs result.id
  messages : ss.messages.Pairwise fun result later ↦
    result.type = .close → later.id = result.id → later.type = .close ∨ later.type = .error

theorem opening_cons_of_opens {request : Request} (h : request.opens = true) (pipe : List Request) :
    opening (request :: pipe) = request.id :: opening pipe := by
  rw [opening, List.filter_cons_of_pos h]
  rfl

theorem opening_cons_of_not_opens {request : Request} (h : request.opens = false) (pipe : List Request) :
    opening (request :: pipe) = opening pipe := by
  rw [opening, List.filter_cons_of_neg (h ▸ Bool.false_ne_true)]
  rfl

theorem opening_append (pipe others : List Request) : opening (pipe ++ others) = opening pipe ++ opening others := by
  rw [opening, List.filter_append, List.map_append]
  rfl

theorem mem_opening {id : ℕ} {pipe : List Request} :
    id ∈ opening pipe ↔ ∃ request ∈ pipe, request.opens = true ∧ request.id = id := by
  simp [opening, and_assoc]

/-- A slot whose socket is polled is open. -/
theorem Sound.live_of_polled (h : ss.Sound) {i : ℕ} (hpolled : (ss.slot i).fd.polled = true) : (ss.slot i).Live :=
  (h.slots i).live_of_polled hpolled

/-- Only one slot has an open socket of an id. -/
theorem Sound.eq_hashId (h : ss.Sound) {i : ℕ} {id : ℕ} (hlive : (ss.slot i).Live) (hid : (ss.slot i).id = id) :
    i = hashId id := (hid ▸ h.place i hlive).symm

/-! ### The events of a socket that was closed -/

theorem clearEvents_of_none (id : ℕ) {events : List Event} (h : ∀ e ∈ events, ss.closedEvent id e = false) :
    ss.clearEvents id events = events := by
  induction events with
  | nil => rfl
  | cons e events ih =>
    rw [clearEvents, if_neg (h e List.mem_cons_self ▸ Bool.false_ne_true),
      ih fun e hmem ↦ h e (List.mem_cons_of_mem _ hmem)]

/-- The one event of the socket that was closed is cleared. -/
theorem clearEvents_spec {i id : ℕ} {events : List Event} (honce : (events.filterMap Event.slot).Nodup)
    (hclosed : ∀ e ∈ events, ss.closedEvent id e = true ↔ e.slot = some i) :
    ((ss.clearEvents id events).filterMap Event.slot).Sublist (events.filterMap Event.slot) ∧
      i ∉ (ss.clearEvents id events).filterMap Event.slot := by
  induction events with
  | nil => exact ⟨List.Sublist.refl _, List.not_mem_nil⟩
  | cons e events ih =>
    by_cases he : ss.closedEvent id e = true
    · have hslot := (hclosed e List.mem_cons_self).mp he
      rw [List.filterMap_cons_some hslot] at honce ⊢
      rw [clearEvents, if_pos he, List.filterMap_cons_none rfl]
      exact ⟨List.sublist_cons_self _ _, (List.nodup_cons.mp honce).1⟩
    · have hne : e.slot ≠ some i := fun hslot ↦ he ((hclosed e List.mem_cons_self).mpr hslot)
      obtain ⟨hsublist, hmem⟩ := ih (honce.sublist ((List.sublist_cons_self e events).filterMap _))
        fun e hmem ↦ hclosed e (List.mem_cons_of_mem _ hmem)
      rw [clearEvents, if_neg he]
      cases hslot : e.slot with
      | none =>
        rw [List.filterMap_cons_none hslot, List.filterMap_cons_none hslot]
        exact ⟨hsublist, hmem⟩
      | some j =>
        rw [List.filterMap_cons_some hslot, List.filterMap_cons_some hslot]
        refine ⟨hsublist.cons_cons j, fun h ↦ ?_⟩
        rcases List.mem_cons.mp h with rfl | h
        · exact hne hslot
        · exact hmem h

/-! ### A socket that is open becomes another one -/

/-- Another list of events, of which each is of a socket that is open. -/
theorem Sound.setSlot (h : ss.Sound) {i : ℕ} (hlive : (ss.slot i).Live) (hbecomes : (ss.slot i).Becomes F message s')
    {ev : List Event} (hev : (ev.filterMap Event.slot).Nodup)
    (hpolled : ∀ e ∈ ev, ∀ j ∈ e.slot, (ss.slot j).fd.polled ∧ (j = i → s'.type ≠ .invalid)) :
    Sound { ss.setSlot i s' with ev := ev } := by
  have hslot : ∀ j, j ≠ i → (ss.setSlot i s').slot j = ss.slot j := fun j hj ↦ Function.update_of_ne hj _ _
  have hself : (ss.setSlot i s').slot i = s' := Function.update_self ..
  refine { h with
    slots := fun j ↦ ?_, place := fun j hj ↦ ?_, named := fun j hj ↦ ?_, claimed := fun j ↦ ?_,
    stored := fun id hmem ↦ ?_, polled := fun e hmem j hj ↦ ?_, once := hev, closed := fun result hmem htype ↦ ?_ }
  · change ((ss.setSlot i s').slot j).Sound
    by_cases hji : j = i
    · rw [hji, hself]
      exact hbecomes.sound
    · rw [hslot j hji]
      exact h.slots j
  · by_cases hji : j = i
    · subst hji
      change hashId ((ss.setSlot j s').slot j).id = j
      rw [hself, hbecomes.id]
      exact h.place j hlive
    · change hashId ((ss.setSlot i s').slot j).id = j
      change ((ss.setSlot i s').slot j).Live at hj
      rw [hslot j hji] at hj ⊢
      exact h.place j hj
  · by_cases hji : j = i
    · subst hji
      change ((ss.setSlot j s').slot j).id ∈ ss.known
      rw [hself, hbecomes.id]
      exact h.named j hlive
    · change ((ss.setSlot i s').slot j).id ∈ ss.known
      change ((ss.setSlot i s').slot j).Live at hj
      rw [hslot j hji] at hj ⊢
      exact h.named j hj
  · change ((ss.setSlot i s').slot j).type = .reserve ↔ ∃ id ∈ ss.claims, hashId id = j
    by_cases hji : j = i
    · subst hji
      rw [hself, ← h.claimed j]
      exact ⟨fun h ↦ absurd h hbecomes.reserve, fun h ↦ absurd h hlive.2⟩
    · rw [hslot j hji]
      exact h.claimed j
  · change ((ss.setSlot i s').slot (hashId id)).id = id
    by_cases hji : hashId id = i
    · rw [hji, hself, hbecomes.id, ← hji]
      exact h.stored id hmem
    · rw [hslot _ hji]
      exact h.stored id hmem
  · change ((ss.setSlot i s').slot j).fd.polled = true
    obtain ⟨hold, hnew⟩ := hpolled e hmem j hj
    by_cases hji : j = i
    · subst hji
      rw [hself]
      exact hbecomes.polled hold (hnew rfl)
    · rw [hslot j hji]
      exact hold
  · obtain ⟨hknown, hopening, hopen⟩ := h.closed result hmem htype
    refine ⟨hknown, hopening, ?_⟩
    rintro ⟨j, hj, hid⟩
    refine hopen ?_
    change ((ss.setSlot i s').slot j).Live at hj
    change ((ss.setSlot i s').slot j).id = result.id at hid
    by_cases hji : j = i
    · subst hji
      rw [hself, hbecomes.id] at hid
      exact ⟨j, hlive, hid⟩
    · rw [hslot j hji] at hj hid
      exact ⟨j, hj, hid⟩

/-- A message about an id that is closed only if no socket is open, and to be opened, under it. -/
theorem Sound.push (h : ss.Sound)
    (hclose : ∀ result ∈ message, result.type = .close →
      result.id ∈ ss.known ∧ result.id ∉ opening ss.pipe ∧ ¬ss.OpenAs result.id)
    (hother : ∀ result ∈ message, result.type = .close ∨ result.type = .error ∨ ss.OpenAs result.id) :
    (ss.push message).Sound := by
  cases message with
  | none =>
    rw [SocketServer.push, Option.toList_none, List.append_nil]
    exact h
  | some result =>
    refine { h with closed := fun other hmem htype ↦ ?_, messages := ?_ }
    · rcases List.mem_append.mp hmem with hmem | hmem
      · exact h.closed other hmem htype
      · obtain rfl : other = result := List.mem_singleton.mp hmem
        exact hclose other rfl htype
    · refine List.pairwise_append.mpr ⟨h.messages, List.pairwise_singleton _ _, fun earlier hmem later hlater ↦ ?_⟩
      obtain rfl : later = result := List.mem_singleton.mp hlater
      intro htype hid
      rcases hother later rfl with hclosed | herror | hopen
      · exact .inl hclosed
      · exact .inr herror
      · exact absurd (hid ▸ hopen) (h.closed earlier hmem htype).2.2

/-- What has become of a socket is reported. -/
theorem Sound.report (h : ss.Sound) {i : ℕ} {s : Socket} (hbecomes : s.Becomes F message (ss.slot i))
    (hknown : s.id ∈ ss.known) (hplace : hashId s.id = i) (hopening : s.id ∉ opening ss.pipe) :
    (ss.push message).Sound := by
  refine h.push (fun result hmem htype ↦ ?_) fun result hmem ↦ ?_
  · rw [hbecomes.ids result hmem]
    refine ⟨hknown, hopening, ?_⟩
    rintro ⟨j, hj, hjid⟩
    refine hj.1 ?_
    rw [(h.eq_hashId hj hjid).trans hplace]
    exact hbecomes.close result hmem htype
  · by_cases hinvalid : (ss.slot i).type = .invalid
    · obtain ⟨result', hmem', htype⟩ := hbecomes.closed hinvalid
      obtain rfl : result = result' := Option.mem_unique hmem hmem'
      exact htype.imp_right .inl
    · exact .inr (.inr ⟨i, ⟨hinvalid, hbecomes.reserve⟩, hbecomes.id.trans (hbecomes.ids result hmem).symm⟩)

/-- A socket that is open becomes another one, and this is reported. -/
theorem Sound.answer (h : ss.Sound) {i : ℕ} (hlive : (ss.slot i).Live) (hbecomes : (ss.slot i).Becomes F message s')
    {ev : List Event} (hev : (ev.filterMap Event.slot).Nodup)
    (hpolled : ∀ e ∈ ev, ∀ j ∈ e.slot, (ss.slot j).fd.polled ∧ (j = i → s'.type ≠ .invalid)) :
    (SocketServer.push { ss.setSlot i s' with ev := ev } message).Sound := by
  have hself : (ss.setSlot i s').slot i = s' := Function.update_self ..
  refine (h.setSlot hlive hbecomes hev hpolled).report (hself.symm ▸ hbecomes) (h.named i hlive) (h.place i hlive) ?_
  exact fun hopening ↦ hlive.2 ((h.claimed i).mpr
    ⟨_, List.mem_append_right _ (List.mem_append_right _ hopening), h.place i hlive⟩)

theorem closedEvent_of_none {e : Event} (h : e.slot = none) (id : ℕ) : ss.closedEvent id e = false := by
  simp only [closedEvent, h]

theorem closedEvent_of_some {e : Event} {i : ℕ} (h : e.slot = some i) (id : ℕ) :
    ss.closedEvent id e = true ↔ (ss.slot i).type = .invalid ∧ (ss.slot i).id = id := by
  simp [closedEvent, h]

/-- After a request the events are of sockets that are open. -/
theorem exists_clear {s : Socket} {i : ℕ} (hslots : ∀ i, (ss.slot i).Sound)
    (hpolled : ∀ e ∈ ss.ev, ∀ i ∈ e.slot, (ss.slot i).fd.polled) (honce : (ss.ev.filterMap Event.slot).Nodup)
    (hbecomes : s.Becomes F message s') :
    ∃ ev, (ss.setSlot i s').clearClosedEvent message = { ss.setSlot i s' with ev := ev } ∧
      (ev.filterMap Event.slot).Nodup ∧
        ∀ e ∈ ev, ∀ j ∈ e.slot, (ss.slot j).fd.polled ∧ (j = i → s'.type ≠ .invalid) := by
  have hself : (ss.setSlot i s').slot i = s' := Function.update_self ..
  have hother : ∀ e ∈ ss.ev, ∀ j ∈ e.slot, j ≠ i → ((ss.setSlot i s').slot j).type ≠ .invalid := by
    intro e hmem j hj hji
    rw [show (ss.setSlot i s').slot j = ss.slot j from Function.update_of_ne hji _ _]
    exact ((hslots j).live_of_polled (hpolled e hmem j hj)).1
  by_cases hinvalid : s'.type = .invalid
  · -- the event of the socket is cleared
    obtain ⟨result, hmem, htype⟩ := hbecomes.closed hinvalid
    have hresult : message = some result := hmem
    subst hresult
    have hcleared : ∀ e ∈ ss.ev, (ss.setSlot i s').closedEvent result.id e = true ↔ e.slot = some i := by
      intro e hmem
      cases hslot : e.slot with
      | none =>
        rw [closedEvent_of_none hslot]
        exact ⟨fun h ↦ absurd h Bool.false_ne_true, fun h ↦ absurd h.symm (Option.some_ne_none _)⟩
      | some j =>
        rw [closedEvent_of_some hslot, Option.some_inj]
        refine ⟨fun hclosed ↦ ?_, ?_⟩
        · by_contra hji
          exact hother e hmem j hslot hji hclosed.1
        · rintro rfl
          rw [hself, hbecomes.id]
          exact ⟨hinvalid, (hbecomes.ids result rfl).symm⟩
    obtain ⟨hsublist, hnot⟩ := clearEvents_spec honce hcleared
    refine ⟨_, if_pos htype, honce.sublist hsublist, fun e hmem j hj ↦ ?_⟩
    have hj' := List.mem_filterMap.mpr ⟨e, hmem, hj⟩
    obtain ⟨e', hmem', hslot⟩ := List.mem_filterMap.mp (hsublist.subset hj')
    exact ⟨hpolled e' hmem' j hslot, fun hji ↦ absurd (hji ▸ hj') hnot⟩
  · refine ⟨ss.ev, ?_, honce, fun e hmem j hj ↦ ⟨hpolled e hmem j hj, fun _ ↦ hinvalid⟩⟩
    cases message with
    | none => rfl
    | some result =>
      have hnone : ∀ e ∈ ss.ev, (ss.setSlot i s').closedEvent result.id e = false := by
        intro e hmem
        cases hslot : e.slot with
        | none => exact closedEvent_of_none hslot _
        | some j =>
          refine Bool.eq_false_iff.mpr fun hclosed ↦ ?_
          have htype := ((closedEvent_of_some hslot _).mp hclosed).1
          by_cases hji : j = i
          · subst hji
            exact hinvalid (hself ▸ htype)
          · exact hother e hmem j hslot hji htype
      simp only [clearClosedEvent]
      split
      · exact congrArg (fun ev ↦ { ss.setSlot i s' with ev := ev }) (clearEvents_of_none _ hnone)
      · rfl

/-! ### A request is read -/

/-- A request that opens nothing is taken from the pipe. -/
theorem Sound.skip (h : ss.Sound) {request : Request} {pipe : List Request} (hpipe : ss.pipe = request :: pipe)
    (hopens : request.opens = false) : Sound { ss with pipe := pipe } := by
  have hopening : opening pipe = opening ss.pipe := by rw [hpipe, opening_cons_of_not_opens hopens]
  have hclaims : claims { ss with pipe := pipe } = ss.claims := by
    change ss.storing ++ (ss.reserved ++ opening pipe) = _
    rw [hopening]
    rfl
  refine { h with
    claimed := fun i ↦ hclaims.symm ▸ h.claimed i, distinct := hclaims.symm ▸ h.distinct
    stored := fun id hmem ↦ h.stored id (hopening ▸ hmem)
    requested := fun other hmem ↦ h.requested other (hpipe ▸ List.mem_cons_of_mem _ hmem)
    ahead := ?_
    closed := fun result hmem htype ↦ ?_ }
  · have hahead := h.ahead
    rw [hpipe] at hahead
    exact (List.pairwise_cons.mp hahead).2
  · change _ ∧ result.id ∉ opening pipe ∧ _
    rw [hopening]
    exact h.closed result hmem htype

/-- The request that is read for the socket in its slot. -/
theorem Sound.ctrlOpen (h : ss.Sound) (kernel : Kernel) {request : Request} {pipe : List Request}
    (hpipe : ss.pipe = request :: pipe) (hopens : request.opens = false)
    (hlive : (ss.slot (hashId request.id)).Live) (hid : (ss.slot (hashId request.id)).id = request.id) :
    ∃ message s', request.ctrlCmd kernel (ss.slot (hashId request.id)) = some (message, s') ∧
      (ss.slot (hashId request.id)).Becomes (request.shutsDown = false ∧ kernel.Faultless) message s' ∧
        SocketServer.Sound ((({ ss with pipe := pipe }.setSlot (hashId request.id) s').clearClosedEvent message).push
          message) := by
  obtain ⟨message, s', hs', hbecomes⟩ := (h.slots (hashId request.id)).ctrlCmd hlive kernel hopens hid
  have hskip := h.skip hpipe hopens
  obtain ⟨ev, hclear, hev, hpolled⟩ := exists_clear hskip.slots hskip.polled hskip.once hbecomes
  refine ⟨message, s', hs', hbecomes, ?_⟩
  rw [hclear]
  exact hskip.answer hlive hbecomes hev hpolled

/-- The request that is read for a socket that is not in its slot any more. -/
theorem Sound.ctrlStale (h : ss.Sound) (kernel : Kernel) {request : Request} {pipe : List Request}
    (hpipe : ss.pipe = request :: pipe) (hopens : request.opens = false)
    (hne : (ss.slot (hashId request.id)).type = .invalid ∨ (ss.slot (hashId request.id)).id ≠ request.id) :
    ∃ message, request.ctrlCmd kernel (ss.slot (hashId request.id)) = some (message, ss.slot (hashId request.id)) ∧
        SocketServer.Sound ((({ ss with pipe := pipe }.setSlot (hashId request.id)
          (ss.slot (hashId request.id))).clearClosedEvent message).push message) := by
  obtain ⟨message, hs', hresult⟩ := Socket.ctrlCmd_of_ne kernel hopens hne
  refine ⟨message, hs', ?_⟩
  have hskip := h.skip hpipe hopens
  have hsame : { ss with pipe := pipe }.setSlot (hashId request.id) (ss.slot (hashId request.id)) =
      { ss with pipe := pipe } :=
    congrArg (fun slot ↦ { ss with pipe := pipe, slot := slot }) (Function.update_eq_self _ ss.slot)
  have hopen : ¬ss.OpenAs request.id := by
    rintro ⟨i, hlive, hid⟩
    obtain rfl := h.eq_hashId hlive hid
    exact hne.elim hlive.1 fun hne ↦ hne hid
  have hclear : clearClosedEvent { ss with pipe := pipe } message = { ss with pipe := pipe } := by
    cases message with
    | none => rfl
    | some result =>
      simp only [clearClosedEvent]
      split
      · refine congrArg (fun ev ↦ { ss with pipe := pipe, ev := ev }) (clearEvents_of_none _ fun e hmem ↦ ?_)
        cases hslot : e.slot with
        | none => exact closedEvent_of_none hslot _
        | some j =>
          exact Bool.eq_false_iff.mpr fun hclosed ↦
            (h.live_of_polled (h.polled e hmem j hslot)).1 ((closedEvent_of_some hslot _).mp hclosed).1
      · rfl
  rw [hsame, hclear]
  refine hskip.push (fun result hmem htype ↦ ?_) fun result hmem ↦ ?_
  · rw [(hresult result hmem).1]
    refine ⟨h.requested request (hpipe ▸ List.mem_cons_self), fun hopening ↦ ?_, hopen⟩
    obtain ⟨later, hlater, hopens', hid⟩ := mem_opening.mp hopening
    have hahead := h.ahead
    rw [hpipe] at hahead
    exact (List.pairwise_cons.mp hahead).1 later hlater hopens' hid.symm
  · exact (hresult result hmem).2.imp_right .inl

/-- The request that opens a slot. -/
theorem Sound.ctrlOpens (h : ss.Sound) (kernel : Kernel) {request : Request} {pipe : List Request}
    (hpipe : ss.pipe = request :: pipe) (hopens : request.opens = true) :
    ∃ message s', request.ctrlCmd kernel (ss.slot (hashId request.id)) = some (message, s') ∧
        SocketServer.Sound ((({ ss with pipe := pipe }.setSlot (hashId request.id) s').clearClosedEvent message).push
          message) := by
  have hopening : opening ss.pipe = request.id :: opening pipe := by rw [hpipe, opening_cons_of_opens hopens]
  have hclaim : request.id ∈ ss.claims :=
    List.mem_append_right _ (List.mem_append_right _ (hopening ▸ List.mem_cons_self))
  -- the slot is reserved for this id alone
  have htype := (h.claimed (hashId request.id)).mpr ⟨_, hclaim, rfl⟩
  have hid := h.stored request.id (List.mem_append_right _ (hopening ▸ List.mem_cons_self))
  have hperm : ss.claims.Perm (request.id :: claims { ss with pipe := pipe }) := by
    change (ss.storing ++ (ss.reserved ++ opening ss.pipe)).Perm
      (request.id :: (ss.storing ++ (ss.reserved ++ opening pipe)))
    rw [hopening, ← List.append_assoc, ← List.append_assoc]
    exact List.perm_middle
  obtain ⟨halone, hdistinct⟩ := List.nodup_cons.mp ((hperm.map hashId).nodup_iff.mp h.distinct)
  have hclaims : ∀ id ∈ claims { ss with pipe := pipe }, hashId id ≠ hashId request.id := fun id hmem heq ↦
    halone (heq ▸ List.mem_map_of_mem hmem)
  obtain ⟨message, s', hs', hbecomes⟩ := (h.slots (hashId request.id)).opens htype kernel hopens hid
  refine ⟨message, s', hs', ?_⟩
  obtain ⟨ev, hclear, hev, hpolled⟩ := exists_clear
    (show ∀ i, (SocketServer.slot { ss with pipe := pipe } i).Sound from h.slots) h.polled h.once hbecomes
  rw [hclear]
  have hself : (ss.setSlot (hashId request.id) s').slot (hashId request.id) = s' := Function.update_self ..
  have hslot : ∀ j, j ≠ hashId request.id → (ss.setSlot (hashId request.id) s').slot j = ss.slot j :=
    fun j hj ↦ Function.update_of_ne hj _ _
  have hunpolled : ¬(ss.slot (hashId request.id)).fd.polled = true := fun hp ↦ (h.live_of_polled hp).2 htype
  have hnext : Sound { ss.setSlot (hashId request.id) s' with pipe := pipe, ev := ev } := by
    refine {
      slots := fun j ↦ ?_, place := fun j hj ↦ ?_, named := fun j hj ↦ ?_, claimed := fun j ↦ ?_,
      distinct := hdistinct, stored := fun id hmem ↦ ?_, unknown := h.unknown,
      requested := fun other hmem ↦ h.requested other (hpipe ▸ List.mem_cons_of_mem _ hmem), ahead := ?_,
      polled := fun e hmem j hj ↦ ?_, once := hev, closed := fun result hmem htype' ↦ ?_, messages := h.messages }
    · change ((ss.setSlot (hashId request.id) s').slot j).Sound
      by_cases hji : j = hashId request.id
      · rw [hji, hself]
        exact hbecomes.sound
      · rw [hslot j hji]
        exact h.slots j
    · change ((ss.setSlot (hashId request.id) s').slot j).Live at hj
      change hashId ((ss.setSlot (hashId request.id) s').slot j).id = j
      by_cases hji : j = hashId request.id
      · rw [hji, hself, hbecomes.id, hid]
      · rw [hslot j hji] at hj ⊢
        exact h.place j hj
    · change ((ss.setSlot (hashId request.id) s').slot j).Live at hj
      change ((ss.setSlot (hashId request.id) s').slot j).id ∈ ss.known
      by_cases hji : j = hashId request.id
      · rw [hji, hself, hbecomes.id, hid]
        exact h.requested request (hpipe ▸ List.mem_cons_self)
      · rw [hslot j hji] at hj ⊢
        exact h.named j hj
    · change ((ss.setSlot (hashId request.id) s').slot j).type = .reserve ↔
        ∃ id ∈ claims { ss with pipe := pipe }, hashId id = j
      by_cases hji : j = hashId request.id
      · rw [hji, hself]
        refine ⟨fun h ↦ absurd h hbecomes.reserve, ?_⟩
        rintro ⟨id, hmem, heq⟩
        exact absurd heq (hclaims id hmem)
      · rw [hslot j hji, h.claimed j]
        constructor
        · rintro ⟨id, hmem, heq⟩
          refine ⟨id, (List.mem_cons.mp (hperm.mem_iff.mp hmem)).resolve_left fun hrequest ↦ hji ?_, heq⟩
          rw [← heq, hrequest]
        · rintro ⟨id, hmem, heq⟩
          exact ⟨id, hperm.mem_iff.mpr (List.mem_cons_of_mem _ hmem), heq⟩
    · change ((ss.setSlot (hashId request.id) s').slot (hashId id)).id = id
      rw [hslot _ (hclaims id (List.mem_append_right _ hmem))]
      refine h.stored id ?_
      rw [hopening]
      exact (List.mem_append.mp hmem).elim (List.mem_append_left _)
        fun hmem ↦ List.mem_append_right _ (List.mem_cons_of_mem _ hmem)
    · have hahead := h.ahead
      rw [hpipe] at hahead
      exact (List.pairwise_cons.mp hahead).2
    · change ((ss.setSlot (hashId request.id) s').slot j).fd.polled = true
      have hold := (hpolled e hmem j hj).1
      rw [hslot j fun hji ↦ hunpolled (hji ▸ hold)]
      exact hold
    · obtain ⟨hknown, hopening', hopen⟩ := h.closed result hmem htype'
      rw [hopening] at hopening'
      refine ⟨hknown, fun hmem ↦ hopening' (List.mem_cons_of_mem _ hmem), ?_⟩
      rintro ⟨j, hj, hjid⟩
      change ((ss.setSlot (hashId request.id) s').slot j).Live at hj
      change ((ss.setSlot (hashId request.id) s').slot j).id = result.id at hjid
      by_cases hji : j = hashId request.id
      · rw [hji, hself, hbecomes.id, hid] at hjid
        exact hopening' (hjid ▸ List.mem_cons_self)
      · rw [hslot j hji] at hj hjid
        exact hopen ⟨j, hj, hjid⟩
  refine hnext.report (i := hashId request.id) (s := ss.slot (hashId request.id)) (hself.symm ▸ hbecomes) ?_ ?_ ?_
  · exact hid.symm ▸ h.requested request (hpipe ▸ List.mem_cons_self)
  · exact congrArg hashId hid
  · rw [hid]
    exact fun hmem ↦ hclaims _ (List.mem_append_right _ (List.mem_append_right _ hmem)) rfl

/-! ### An event -/

/-- A socket that a client has connected to. -/
theorem Sound.accept (h : ss.Sound) {id : ℕ} (owner : ℕ) (hfree : ss.Free id) :
    Sound { ss.setSlot (hashId id) { ss.slot (hashId id) with
      id := id, fd := { File.new with polled := false }, size := minReadBuffer, owner := owner, wbSize := 0,
      type := .paccept } with known := id :: ss.known } := by
  obtain ⟨htype, hknown, hstoring, hreserved⟩ := hfree
  obtain ⟨hlists, -⟩ := (h.slots (hashId id)).unused (.inl htype)
  generalize hs' : { ss.slot (hashId id) with
    id := id, fd := { File.new with polled := false }, size := minReadBuffer, owner := owner, wbSize := 0,
    type := .paccept } = s'
  have hid : s'.id = id := hs' ▸ rfl
  have htype' : s'.type = .paccept := hs' ▸ rfl
  have hsound : s'.Sound := by
    subst hs'
    exact Socket.sound_of_new hlists rfl rfl ⟨rfl, rfl⟩
      ⟨fun h ↦ absurd h Bool.false_ne_true, by simp [SocketType.Sends]⟩
      fun hsends ↦ by simp [SocketType.Sends] at hsends
  have hself : (ss.setSlot (hashId id) s').slot (hashId id) = s' := Function.update_self ..
  have hslot : ∀ j, j ≠ hashId id → (ss.setSlot (hashId id) s').slot j = ss.slot j :=
    fun j hj ↦ Function.update_of_ne hj _ _
  have hclaims : ∀ id' ∈ ss.claims, hashId id' ≠ hashId id := fun id' hmem heq ↦
    SocketType.noConfusion (htype.symm.trans ((h.claimed (hashId id)).mpr ⟨id', hmem, heq⟩))
  refine { h with
    slots := fun j ↦ ?_, place := fun j hj ↦ ?_, named := fun j hj ↦ ?_, claimed := fun j ↦ ?_,
    stored := fun id' hmem ↦ ?_, unknown := fun id' hmem hmem' ↦ ?_,
    requested := fun request hmem ↦ List.mem_cons_of_mem _ (h.requested request hmem),
    polled := fun e hmem j hj ↦ ?_, closed := fun result hmem htype ↦ ?_ }
  · change ((ss.setSlot (hashId id) s').slot j).Sound
    by_cases hji : j = hashId id
    · rw [hji, hself]
      exact hsound
    · rw [hslot j hji]
      exact h.slots j
  · change ((ss.setSlot (hashId id) s').slot j).Live at hj
    change hashId ((ss.setSlot (hashId id) s').slot j).id = j
    by_cases hji : j = hashId id
    · rw [hji, hself, hid]
    · rw [hslot j hji] at hj ⊢
      exact h.place j hj
  · change ((ss.setSlot (hashId id) s').slot j).Live at hj
    change ((ss.setSlot (hashId id) s').slot j).id ∈ id :: ss.known
    by_cases hji : j = hashId id
    · rw [hji, hself, hid]
      exact List.mem_cons_self
    · rw [hslot j hji] at hj ⊢
      exact List.mem_cons_of_mem _ (h.named j hj)
  · change ((ss.setSlot (hashId id) s').slot j).type = .reserve ↔ ∃ id' ∈ ss.claims, hashId id' = j
    by_cases hji : j = hashId id
    · rw [hji, hself, htype']
      refine ⟨fun h ↦ SocketType.noConfusion h, ?_⟩
      rintro ⟨id', hmem, heq⟩
      exact absurd heq (hclaims id' hmem)
    · rw [hslot j hji]
      exact h.claimed j
  · change ((ss.setSlot (hashId id) s').slot (hashId id')).id = id'
    rw [hslot _ (hclaims id' (List.mem_append_right _ hmem))]
    exact h.stored id' hmem
  · rcases List.mem_cons.mp hmem' with rfl | hmem'
    · exact (List.mem_append.mp hmem).elim hstoring hreserved
    · exact h.unknown id' hmem hmem'
  · change ((ss.setSlot (hashId id) s').slot j).fd.polled = true
    have hold := h.polled e hmem j hj
    rw [hslot j fun hji ↦ (h.live_of_polled hold).1 (hji ▸ htype)]
    exact hold
  · obtain ⟨hknown', hopening, hopen⟩ := h.closed result hmem htype
    refine ⟨List.mem_cons_of_mem _ hknown', hopening, ?_⟩
    rintro ⟨j, hj, hjid⟩
    change ((ss.setSlot (hashId id) s').slot j).Live at hj
    change ((ss.setSlot (hashId id) s').slot j).id = result.id at hjid
    by_cases hji : j = hashId id
    · rw [hji, hself, hid] at hjid
      exact hknown (hjid ▸ hknown')
    · rw [hslot j hji] at hj hjid
      exact hopen ⟨j, hj, hjid⟩

/-- Where a socket is closed in a step without a fault, everything that was accepted for it has been written. -/
def Drains (ss ss' : SocketServer) (faultless : Prop) : Prop :=
  ∀ i, (ss.slot i).Live → (ss'.slot i).type = .invalid → faultless → (ss'.slot i).Drained

theorem drains_setSlot {i : ℕ} {ss' : SocketServer} (hslot : ss'.slot = (ss.setSlot i s').slot)
    (hbecomes : (ss.slot i).Becomes F message s') {faultless : Prop} (himp : faultless → F) :
    ss.Drains ss' faultless := by
  intro j hlive htype hfaultless
  rw [hslot] at htype ⊢
  by_cases hji : j = i
  · subst hji
    rw [show (ss.setSlot j s').slot j = s' from Function.update_self ..] at htype ⊢
    exact hbecomes.drained (himp hfaultless) htype
  · rw [show (ss.setSlot i s').slot j = ss.slot j from Function.update_of_ne hji _ _] at htype
    exact absurd htype hlive.1

theorem drains_of_eq {ss' : SocketServer} (hslot : ss'.slot = ss.slot) (faultless : Prop) : ss.Drains ss' faultless :=
  fun _ hlive htype ↦ absurd (hslot ▸ htype) hlive.1

theorem Drains.mono {ss' : SocketServer} {faultless faultless' : Prop} (h : ss.Drains ss' faultless)
    (himp : faultless' → faultless) : ss.Drains ss' faultless' :=
  fun i hlive htype hfaultless ↦ h i hlive htype (himp hfaultless)

/-- `report_accept`. -/
theorem Sound.reportAccept (h : ss.Sound) {i : ℕ} (hlive : (ss.slot i).Live) {kernel : Kernel}
    (hfree : ∀ id ∈ kernel.accept.id?, ss.Free id) :
    ∃ answer, ss.reportAccept kernel (ss.slot i) = some answer ∧ (answer.2.push answer.1).Sound ∧
      ss.Drains (answer.2.push answer.1) kernel.Faultless := by
  cases haccept : kernel.accept with
  | failed =>
    refine ⟨(none, ss), by simp only [SocketServer.reportAccept, haccept], ?_, drains_of_eq rfl _⟩
    exact h.push Socket.not_mem_none_of Socket.not_mem_none_of
  | fileLimit =>
    refine ⟨(some ((ss.slot i).report .error), ss), by simp only [SocketServer.reportAccept, haccept], h.push ?_ ?_,
      drains_of_eq rfl _⟩
    · rintro result ⟨⟩ h
      exact SocketResultType.noConfusion h
    · rintro result ⟨⟩
      exact .inr (.inl rfl)
  | client id =>
    have hfree := hfree id (haccept ▸ rfl)
    obtain ⟨hlists, -⟩ := (h.slots (hashId id)).unused (.inl hfree.1)
    have hi : i ≠ hashId id := fun hi ↦ hlive.1 (hi ▸ hfree.1)
    have hslot : ∀ s' j, j ≠ hashId id → (ss.setSlot (hashId id) s').slot j = ss.slot j :=
      fun s' j hj ↦ Function.update_of_ne hj _ _
    refine ⟨(some ⟨.accept, (ss.slot i).owner, (ss.slot i).id, id, []⟩, _), ?_,
      (h.accept (ss.slot i).owner hfree).push ?_ ?_, ?_⟩
    · simp only [SocketServer.reportAccept, haccept]
      rw [Socket.newFd_eq (show Socket.type { ss.slot (hashId id) with type := .reserve, id := id, fd := .new } = _
        from rfl) hlists id _ fun h ↦ Bool.false_ne_true h.1]
      rfl
    · rintro result ⟨⟩ h
      exact SocketResultType.noConfusion h
    · rintro result ⟨⟩
      refine .inr (.inr ⟨i, ?_, ?_⟩)
      · change ((ss.setSlot (hashId id) _).slot i).Live
        rw [hslot _ i hi]
        exact hlive
      · change ((ss.setSlot (hashId id) _).slot i).id = (ss.slot i).id
        rw [hslot _ i hi]
    · intro j hlive' htype
      change ((ss.setSlot (hashId id) _).slot j).type = .invalid at htype
      rw [hslot _ j fun hj ↦ hlive'.1 (hj ▸ hfree.1)] at htype
      exact absurd htype hlive'.1

/-- An event of a socket in the poll. -/
theorem Sound.dispatch (h : ss.Sound) {kernel : Kernel} (hfree : ∀ id ∈ kernel.accept.id?, ss.Free id) {e : Event}
    (hpolled : ∀ i ∈ e.slot, (ss.slot i).fd.polled ∧ i ∉ ss.ev.filterMap Event.slot) :
    ∃ ss', ss.dispatch kernel e = some ss' ∧ ss'.Sound ∧ ss.Drains ss' kernel.Faultless := by
  cases hslot : e.slot with
  | none => exact ⟨ss, by simp only [SocketServer.dispatch, hslot], h, drains_of_eq rfl _⟩
  | some i =>
    obtain ⟨hi, honce⟩ := hpolled i hslot
    have hlive := h.live_of_polled hi
    have hev : ∀ (s' : Socket), ∀ e ∈ ss.ev, ∀ j ∈ e.slot, (ss.slot j).fd.polled ∧ (j = i → s'.type ≠ .invalid) :=
      fun s' e hmem j hj ↦ ⟨h.polled e hmem j hj, fun hji ↦ absurd (List.mem_filterMap.mpr ⟨e, hmem, hji ▸ hj⟩) honce⟩
    by_cases hconnecting : (ss.slot i).type = .connecting
    · obtain ⟨message, s', hs', hbecomes⟩ := (h.slots i).reportConnect hconnecting kernel
      refine ⟨(ss.setSlot i s').push message, ?_, h.answer hlive hbecomes h.once (hev s'),
        drains_setSlot rfl hbecomes fun hfaultless ↦ hfaultless.connectError⟩
      simp only [SocketServer.dispatch, hslot, hconnecting, hs', Option.map_some]
    by_cases hlisten : (ss.slot i).type = .listen
    · obtain ⟨answer, hanswer, hsound, hdrains⟩ := h.reportAccept hlive hfree
      refine ⟨_, ?_, hsound, hdrains⟩
      simp only [SocketServer.dispatch, hslot, hlisten, hanswer, Option.map_some]
    have htype := (h.slots i).sends_of_polled hi hconnecting hlisten
    have hdispatch : ss.dispatch kernel e = ss.transfer kernel i e := by
      rcases htype with htype | htype <;> simp only [SocketServer.dispatch, hslot, htype]
    rw [hdispatch, transfer]
    by_cases hread : e.read = true
    · obtain ⟨message, s', hs', hbecomes⟩ := (h.slots i).forwardMessageTcp hlive kernel
      rw [if_pos hread, hs']
      have hdrains : ∀ ss', ss'.slot = (ss.setSlot i s').slot → ss.Drains ss' kernel.Faultless :=
        fun ss' hslot ↦ drains_setSlot hslot hbecomes fun hfaultless ↦ hfaultless.read
      by_cases hagain : e.write = true ∧
          ¬(message.any fun result ↦ result.type = .close ∨ result.type = .error) = true
      · -- the event comes again, as the socket is not closed
        have honce' : (({ e with read := false } :: ss.ev).filterMap Event.slot).Nodup := by
          rw [List.filterMap_cons_some (show Event.slot { e with read := false } = some i from hslot)]
          exact List.nodup_cons.mpr ⟨honce, h.once⟩
        refine ⟨_, congrArg some (if_pos hagain), h.answer hlive hbecomes honce' fun e' hmem j hj ↦ ?_, hdrains _ rfl⟩
        rcases List.mem_cons.mp hmem with rfl | hmem
        · obtain rfl : i = j := Option.some.inj (hslot.symm.trans hj)
          refine ⟨hi, fun _ hinvalid ↦ hagain.2 ?_⟩
          obtain ⟨result, hresult, htype⟩ := hbecomes.closed hinvalid
          obtain rfl : message = some result := hresult
          exact decide_eq_true htype
        · exact hev s' e' hmem j hj
      · exact ⟨_, congrArg some (if_neg hagain), h.answer hlive hbecomes h.once (hev s'), hdrains _ rfl⟩
    · rw [if_neg hread]
      by_cases hwrite : e.write = true
      · obtain ⟨message, s', hs', hbecomes⟩ := (h.slots i).sendBuffer_becomes htype kernel.writes
        rw [if_pos hwrite, hs']
        exact ⟨(ss.setSlot i s').push message, rfl, h.answer hlive hbecomes h.once (hev s'),
          drains_setSlot rfl hbecomes fun hfaultless ↦ hfaultless.writes⟩
      · exact ⟨ss, if_neg hwrite, h, drains_of_eq rfl _⟩

/-! ### A turn -/

theorem clearClosedEvent_slot (ss : SocketServer) (message : Option SocketResult) :
    (ss.clearClosedEvent message).slot = ss.slot := by
  cases message with
  | none => rfl
  | some result =>
    simp only [clearClosedEvent]
    split <;> rfl

/-- A socket is not asked for while its slot is reserved for it. -/
theorem Sound.not_reserved (h : ss.Sound) {request : Request} {pipe : List Request} (hpipe : ss.pipe = request :: pipe)
    (hopens : request.opens = false) (hid : (ss.slot (hashId request.id)).id = request.id)
    (hstoring : ∀ id ∈ ss.storing, hashId id ≠ hashId request.id) :
    (ss.slot (hashId request.id)).type ≠ .reserve := by
  intro htype
  obtain ⟨id, hmem, heq⟩ := (h.claimed _).mp htype
  rcases List.mem_append.mp hmem with hmem | hmem
  · exact hstoring id hmem heq
  · have hstored := h.stored id hmem
    rw [heq, hid] at hstored
    subst hstored
    rcases List.mem_append.mp hmem with hmem | hmem
    · exact h.unknown _ (List.mem_append_right _ hmem) (h.requested request (hpipe ▸ List.mem_cons_self))
    · -- the request that opens it is read first
      rw [hpipe, opening_cons_of_not_opens hopens] at hmem
      obtain ⟨later, hlater, hopens', hid'⟩ := mem_opening.mp hmem
      have hahead := h.ahead
      rw [hpipe] at hahead
      exact (List.pairwise_cons.mp hahead).1 later hlater hopens' hid'.symm

/-- A turn fails no assertion. -/
theorem Sound.turn (h : ss.Sound) {kernel : Kernel} (hsettled : ss.Settled (.turn kernel))
    (hanswers : ss.Answers kernel) :
    ∃ ss', ss.turn kernel = some ss' ∧ ss'.Sound ∧
      ss.Drains ss' (kernel.Faultless ∧ ∀ request ∈ ss.pipe.head?, request.shutsDown = false) := by
  obtain ⟨hready, hnodup, -, hvacant⟩ := hanswers
  have hfree : ∀ id ∈ kernel.accept.id?, ss.Free id := fun id hid ↦ ⟨(hvacant id hid).2, hsettled.1 id hid⟩
  by_cases hctrl : ss.checkctrl = true ∧ ¬ss.pipe.isEmpty = true
  · -- a request is read
    cases hpipe : ss.pipe with
    | nil => exact absurd (hpipe ▸ rfl) hctrl.2
    | cons request pipe =>
      have hturn : ss.turn kernel = (request.ctrlCmd kernel (ss.slot (hashId request.id))).map fun answer ↦
          (({ ss with pipe := pipe }.setSlot (hashId request.id) answer.2).clearClosedEvent answer.1).push
            answer.1 := by
        rw [hpipe] at hctrl
        simp only [SocketServer.turn, hpipe, if_pos hctrl]
        cases request.ctrlCmd kernel (ss.slot (hashId request.id)) <;> rfl
      have hslot : ∀ s' message, ((({ ss with pipe := pipe }.setSlot (hashId request.id) s').clearClosedEvent
          message).push message).slot = (ss.setSlot (hashId request.id) s').slot := fun _ _ ↦ clearClosedEvent_slot _ _
      rw [hturn]
      cases hopens : request.opens with
      | true =>
        obtain ⟨message, s', hs', hsound⟩ := h.ctrlOpens kernel hpipe hopens
        refine ⟨_, hs' ▸ rfl, hsound, fun i hlive htype ↦ absurd ?_ hlive.1⟩
        have hreserve : (ss.slot (hashId request.id)).type = .reserve := by
          refine (h.claimed _).mpr ⟨request.id, List.mem_append_right _ (List.mem_append_right _ ?_), rfl⟩
          rw [hpipe, opening_cons_of_opens hopens]
          exact List.mem_cons_self
        have hi : i ≠ hashId request.id := fun hi ↦ by
          rw [hi] at hlive
          exact hlive.2 hreserve
        rwa [hslot, show (ss.setSlot (hashId request.id) s').slot i = ss.slot i from
          Function.update_of_ne hi _ _] at htype
      | false =>
        by_cases hne : (ss.slot (hashId request.id)).type = .invalid ∨ (ss.slot (hashId request.id)).id ≠ request.id
        · obtain ⟨message, hs', hsound⟩ := h.ctrlStale kernel hpipe hopens hne
          refine ⟨_, hs' ▸ rfl, hsound, drains_of_eq ?_ _⟩
          exact (hslot _ message).trans (Function.update_eq_self _ _)
        · rw [not_or, not_not] at hne
          have hreserve := h.not_reserved hpipe hopens hne.2 fun id hmem ↦
            hsettled.2 hctrl.1 request (hpipe ▸ rfl) hne.2 id hmem
          obtain ⟨message, s', hs', hbecomes, hsound⟩ := h.ctrlOpen kernel hpipe hopens ⟨hne.1, hreserve⟩ hne.2
          exact ⟨_, hs' ▸ rfl, hsound, drains_setSlot (hslot s' message) hbecomes
            fun hfaultless ↦ ⟨hfaultless.2 request rfl, hfaultless.1⟩⟩
  · simp only [SocketServer.turn, if_neg hctrl]
    cases hev : ss.ev with
    | cons e ev =>
      -- an event that is left
      have honce := h.once
      have hpolled := h.polled
      rw [hev] at honce hpolled
      have hrest : Sound { ss with checkctrl := false, ev := ev } := { h with
        polled := fun e hmem ↦ hpolled e (List.mem_cons_of_mem _ hmem)
        once := honce.sublist ((List.sublist_cons_self e ev).filterMap _) }
      obtain ⟨ss', hss', hsound, hdrains⟩ := hrest.dispatch hfree (e := e) fun i hslot ↦
        ⟨hpolled e List.mem_cons_self i hslot, by
          rw [List.filterMap_cons_some hslot] at honce
          exact (List.nodup_cons.mp honce).1⟩
      exact ⟨ss', hss', hsound, hdrains.mono And.left⟩
    | nil =>
      cases hkernel : kernel.ready with
      | nil =>
        exact ⟨_, rfl, { h with once := List.nodup_nil, polled := fun _ hmem ↦ absurd hmem List.not_mem_nil },
          drains_of_eq rfl _⟩
      | cons e ev =>
        -- the poll reports events
        rw [hkernel] at hready hnodup
        have hrest : Sound { ss with checkctrl := true, ev := ev } := { h with
          polled := fun e hmem i hslot ↦ (hready e (List.mem_cons_of_mem _ hmem) i hslot).1
          once := hnodup.sublist ((List.sublist_cons_self e ev).filterMap _) }
        obtain ⟨ss', hss', hsound, hdrains⟩ := hrest.dispatch hfree (e := e) fun i hslot ↦
          ⟨(hready e List.mem_cons_self i hslot).1, by
            rw [List.filterMap_cons_some hslot] at hnodup
            exact (List.nodup_cons.mp hnodup).1⟩
        exact ⟨ss', hss', hsound, hdrains.mono And.left⟩

/-! ### The other threads -/

theorem sound_create : create.Sound where
  slots _ := Socket.sound_of_unused (.inl rfl) ⟨rfl, rfl⟩ Bool.false_ne_true
  place _ hlive := absurd rfl hlive.1
  named _ hlive := absurd rfl hlive.1
  claimed _ := ⟨fun h ↦ SocketType.noConfusion h, fun h ↦ by
    obtain ⟨id, hmem, -⟩ := h
    exact absurd hmem List.not_mem_nil⟩
  distinct := List.nodup_nil
  stored _ hmem := absurd hmem List.not_mem_nil
  unknown _ hmem := absurd hmem List.not_mem_nil
  requested _ hmem := absurd hmem List.not_mem_nil
  ahead := List.Pairwise.nil
  polled _ hmem := absurd hmem List.not_mem_nil
  once := List.nodup_nil
  closed _ hmem := absurd hmem List.not_mem_nil
  messages := List.Pairwise.nil

/-- The slot of no socket is changed to another slot of no socket. -/
theorem Sound.setUnused (h : ss.Sound) {i : ℕ} (s' : Socket) (hunused : (ss.slot i).type = .invalid ∨
      (ss.slot i).type = .reserve) (htype : s'.type = .reserve) (hlists : s'.high = [] ∧ s'.low = [])
    (hpolled : ¬s'.fd.polled = true) {storing reserved : List ℕ}
    (hclaimed : ∀ j, ((ss.setSlot i s').slot j).type = .reserve ↔
      ∃ id ∈ storing ++ (reserved ++ opening ss.pipe), hashId id = j)
    (hdistinct : ((storing ++ (reserved ++ opening ss.pipe)).map hashId).Nodup)
    (hstored : ∀ id ∈ reserved ++ opening ss.pipe, ((ss.setSlot i s').slot (hashId id)).id = id)
    (hunknown : ∀ id ∈ storing ++ reserved, id ∉ ss.known) :
    Sound { ss.setSlot i s' with storing := storing, reserved := reserved } := by
  have hself : (ss.setSlot i s').slot i = s' := Function.update_self ..
  have hslot : ∀ j, j ≠ i → (ss.setSlot i s').slot j = ss.slot j := fun j hj ↦ Function.update_of_ne hj _ _
  have hlive : ∀ j, ((ss.setSlot i s').slot j).Live → (ss.setSlot i s').slot j = ss.slot j := by
    intro j hlive
    refine hslot j fun hji ↦ hlive.2 ?_
    rw [hji, hself, htype]
  refine { h with
    slots := fun j ↦ ?_, place := fun j hj ↦ ?_, named := fun j hj ↦ ?_, claimed := hclaimed, distinct := hdistinct,
    stored := hstored, unknown := hunknown, polled := fun e hmem j hj ↦ ?_, closed := fun result hmem htype ↦ ?_ }
  · change ((ss.setSlot i s').slot j).Sound
    by_cases hji : j = i
    · rw [hji, hself]
      exact Socket.sound_of_unused (.inr htype) hlists hpolled
    · rw [hslot j hji]
      exact h.slots j
  · change ((ss.setSlot i s').slot j).Live at hj
    change hashId ((ss.setSlot i s').slot j).id = j
    have hsame := hlive j hj
    rw [hsame] at hj ⊢
    exact h.place j hj
  · change ((ss.setSlot i s').slot j).Live at hj
    change ((ss.setSlot i s').slot j).id ∈ ss.known
    have hsame := hlive j hj
    rw [hsame] at hj ⊢
    exact h.named j hj
  · change ((ss.setSlot i s').slot j).fd.polled = true
    have hold := h.polled e hmem j hj
    rw [hslot j fun hji ↦ ?_]
    · exact hold
    · have hlive := h.live_of_polled hold
      rw [hji] at hlive
      exact hunused.elim hlive.1 hlive.2
  · obtain ⟨hknown, hopening, hopen⟩ := h.closed result hmem htype
    refine ⟨hknown, hopening, ?_⟩
    rintro ⟨j, hj, hjid⟩
    change ((ss.setSlot i s').slot j).Live at hj
    change ((ss.setSlot i s').slot j).id = result.id at hjid
    have hsame := hlive j hj
    rw [hsame] at hj hjid
    exact hopen ⟨j, hj, hjid⟩

/-- Every step of the server keeps the invariant. -/
theorem Sound.step (h : ss.Sound) {event : ServerEvent} (hsettled : ss.Settled event) {next : SocketServer}
    (hstep : socketServer.step ss event = some next) : next.Sound := by
  cases event with
  | turn kernel =>
    by_cases hanswers : ss.Answers kernel
    · obtain ⟨next', hnext, hsound, -⟩ := h.turn hsettled hanswers
      have hsame : some next' = some next := hnext.symm.trans ((if_pos hanswers).symm.trans hstep)
      exact Option.some.inj hsame ▸ hsound
    · exact absurd (hstep.symm.trans (if_neg hanswers)) (Option.some_ne_none _)
  | reserve id =>
    by_cases hvacant : ss.Vacant id
    · obtain rfl := Option.some.inj ((if_pos hvacant).symm.trans hstep)
      have htype := hvacant.2
      obtain ⟨hknown, hstoring, hreserved⟩ : ss.Fresh id := hsettled
      obtain ⟨hlists, hpolled⟩ := (h.slots (hashId id)).unused (.inl htype)
      have hself : (ss.setSlot (hashId id) { ss.slot (hashId id) with type := .reserve }).slot (hashId id) =
        { ss.slot (hashId id) with type := .reserve } := Function.update_self ..
      have hslot : ∀ j, j ≠ hashId id →
          (ss.setSlot (hashId id) { ss.slot (hashId id) with type := .reserve }).slot j = ss.slot j :=
        fun j hj ↦ Function.update_of_ne hj _ _
      have hclaims : ∀ id' ∈ ss.claims, hashId id' ≠ hashId id := fun id' hmem heq ↦
        SocketType.noConfusion (htype.symm.trans ((h.claimed (hashId id)).mpr ⟨id', hmem, heq⟩))
      refine h.setUnused { ss.slot (hashId id) with type := .reserve } (.inl htype) rfl hlists hpolled
        (fun j ↦ ?_) ?_ (fun id' hmem ↦ ?_) fun id' hmem ↦ ?_
      · change _ ↔ ∃ id' ∈ id :: ss.claims, hashId id' = j
        by_cases hj : j = hashId id
        · rw [hj, hself]
          exact ⟨fun _ ↦ ⟨id, List.mem_cons_self, rfl⟩, fun _ ↦ rfl⟩
        · rw [hslot j hj, h.claimed j]
          constructor
          · rintro ⟨id', hmem, heq⟩
            exact ⟨id', List.mem_cons_of_mem _ hmem, heq⟩
          · rintro ⟨id', hmem, heq⟩
            exact ⟨id', (List.mem_cons.mp hmem).resolve_left fun hid ↦ hj (by rw [← heq, hid]), heq⟩
      · refine List.nodup_cons.mpr ⟨fun hmem ↦ ?_, h.distinct⟩
        obtain ⟨id', hmem', heq⟩ := List.mem_map.mp hmem
        exact hclaims id' hmem' heq
      · rw [hslot _ (hclaims id' (List.mem_append_right _ hmem))]
        exact h.stored id' hmem
      · rcases List.mem_cons.mp hmem with rfl | hmem
        · exact hknown
        · exact h.unknown id' hmem
    · exact absurd (hstep.symm.trans (if_neg hvacant)) (Option.some_ne_none _)
  | store id =>
    by_cases hstoring : id ∈ ss.storing
    · obtain rfl := Option.some.inj ((if_pos hstoring).symm.trans hstep)
      have hclaim : id ∈ ss.claims := List.mem_append_left _ hstoring
      have htype := (h.claimed (hashId id)).mpr ⟨id, hclaim, rfl⟩
      obtain ⟨hlists, -⟩ := (h.slots (hashId id)).unused (.inr htype)
      have hself : (ss.setSlot (hashId id) { ss.slot (hashId id) with id := id, fd := .new }).slot (hashId id) =
        { ss.slot (hashId id) with id := id, fd := .new } := Function.update_self ..
      have hslot : ∀ j, j ≠ hashId id →
          (ss.setSlot (hashId id) { ss.slot (hashId id) with id := id, fd := .new }).slot j = ss.slot j :=
        fun j hj ↦ Function.update_of_ne hj _ _
      have hperm : ss.claims.Perm (ss.storing.erase id ++ (id :: ss.reserved ++ opening ss.pipe)) :=
        ((List.perm_cons_erase hstoring).append_right _).trans List.perm_middle.symm
      refine h.setUnused { ss.slot (hashId id) with id := id, fd := .new } (.inr htype) htype hlists Bool.false_ne_true
        (fun j ↦ ?_) ?_ (fun id' hmem ↦ ?_) fun id' hmem ↦ ?_
      · simp only [← hperm.mem_iff]
        rw [← h.claimed j]
        by_cases hj : j = hashId id
        · rw [hj, hself]
        · rw [hslot j hj]
      · exact ((hperm.map hashId).nodup_iff).mp h.distinct
      · by_cases hid : hashId id' = hashId id
        · -- an id that is claimed is told from the others by its place
          have hsame : id' = id := List.inj_on_of_nodup_map h.distinct (hperm.mem_iff.mpr
            (List.mem_append_right _ hmem)) hclaim hid
          rw [hsame, hself]
        · rw [hslot _ hid]
          exact h.stored id' ((List.mem_cons.mp hmem).resolve_left fun hsame ↦ hid (congrArg hashId hsame))
      · refine h.unknown id' ?_
        rcases List.mem_append.mp hmem with hmem | hmem
        · exact List.mem_append_left _ (List.mem_of_mem_erase hmem)
        · rcases List.mem_cons.mp hmem with rfl | hmem
          · exact List.mem_append_left _ hstoring
          · exact List.mem_append_right _ hmem
    · exact absurd (hstep.symm.trans (if_neg hstoring)) (Option.some_ne_none _)
  | request request =>
    cases hopens : request.opens with
    | true =>
      have hstep : (if request.id ∈ ss.reserved then _ else none) = some next := (if_pos hopens).symm.trans hstep
      by_cases hreserved : request.id ∈ ss.reserved
      · obtain rfl := Option.some.inj ((if_pos hreserved).symm.trans hstep)
        have hopening : opening (ss.pipe ++ [request]) = opening ss.pipe ++ [request.id] := by
          rw [opening_append, opening_cons_of_opens hopens]
          rfl
        have hunknown := h.unknown request.id (List.mem_append_right _ hreserved)
        have hrest : ss.claims.Perm
            (request.id :: (ss.storing ++ (ss.reserved.erase request.id ++ opening ss.pipe))) := by
          refine List.Perm.trans (List.Perm.append_left _ ?_) List.perm_middle
          exact (List.perm_cons_erase hreserved).append_right _
        have hperm : ss.claims.Perm
            (ss.storing ++ (ss.reserved.erase request.id ++ opening (ss.pipe ++ [request]))) := by
          rw [hopening, ← List.append_assoc, ← List.append_assoc]
          refine hrest.trans ?_
          rw [← List.append_assoc]
          exact (List.perm_append_singleton _ _).symm
        have hother : request.id ∉ ss.storing ++ (ss.reserved.erase request.id ++ opening ss.pipe) :=
          (List.nodup_cons.mp (hrest.nodup_iff.mp h.distinct.of_map)).1
        refine { h with
          named := fun i hi ↦ List.mem_cons_of_mem _ (h.named i hi), claimed := fun i ↦ ?_, distinct := ?_,
          stored := fun id hmem ↦ ?_, unknown := fun id hmem hknown ↦ ?_, requested := fun other hmem ↦ ?_,
          ahead := ?_, closed := fun result hmem htype ↦ ?_ }
        · exact (h.claimed i).trans (exists_congr fun id ↦ and_congr_left fun _ ↦ hperm.mem_iff)
        · exact (hperm.map hashId).nodup_iff.mp h.distinct
        · change id ∈ ss.reserved.erase request.id ++ opening (ss.pipe ++ [request]) at hmem
          rw [hopening, ← List.append_assoc] at hmem
          rcases List.mem_append.mp hmem with hmem | hmem
          · exact h.stored id ((List.mem_append.mp hmem).elim
              (fun hmem ↦ List.mem_append_left _ (List.mem_of_mem_erase hmem)) (List.mem_append_right _))
          · rw [List.mem_singleton.mp hmem]
            exact h.stored request.id (List.mem_append_left _ hreserved)
        · rcases List.mem_cons.mp hknown with rfl | hknown
          · refine hother ?_
            rw [← List.append_assoc]
            exact List.mem_append_left _ hmem
          · exact h.unknown id ((List.mem_append.mp hmem).elim (List.mem_append_left _)
              fun hmem ↦ List.mem_append_right _ (List.mem_of_mem_erase hmem)) hknown
        · rcases List.mem_append.mp hmem with hmem | hmem
          · exact List.mem_cons_of_mem _ (h.requested other hmem)
          · exact List.mem_singleton.mp hmem ▸ List.mem_cons_self
        · refine List.pairwise_append.mpr
            ⟨h.ahead, List.pairwise_singleton _ _, fun earlier hmem later hlater _ hid ↦ ?_⟩
          rw [List.mem_singleton.mp hlater] at hid
          exact hunknown (hid ▸ h.requested earlier hmem)
        · obtain ⟨hknown, hnot, hopen⟩ := h.closed result hmem htype
          refine ⟨List.mem_cons_of_mem _ hknown, fun hmem ↦ ?_, hopen⟩
          change result.id ∈ opening (ss.pipe ++ [request]) at hmem
          rw [hopening] at hmem
          rcases List.mem_append.mp hmem with hmem | hmem
          · exact hnot hmem
          · exact hunknown (List.mem_singleton.mp hmem ▸ hknown)
      · exact absurd (hstep.symm.trans (if_neg hreserved)) (Option.some_ne_none _)
    | false =>
      have hstep : (if request.id ∈ ss.known then _ else none) = some next :=
        (if_neg (hopens ▸ Bool.false_ne_true)).symm.trans hstep
      by_cases hknown : request.id ∈ ss.known
      · obtain rfl := Option.some.inj ((if_pos hknown).symm.trans hstep)
        have hopening : opening (ss.pipe ++ [request]) = opening ss.pipe := by
          rw [opening_append, opening_cons_of_not_opens hopens]
          exact List.append_nil _
        have hclaims : claims { ss with pipe := ss.pipe ++ [request] } = ss.claims :=
          congrArg (fun ids ↦ ss.storing ++ (ss.reserved ++ ids)) hopening
        refine { h with
          claimed := fun i ↦ hclaims.symm ▸ h.claimed i, distinct := hclaims.symm ▸ h.distinct,
          stored := fun id hmem ↦ h.stored id (hopening ▸ hmem), requested := fun other hmem ↦ ?_, ahead := ?_,
          closed := fun result hmem htype ↦ ?_ }
        · rcases List.mem_append.mp hmem with hmem | hmem
          · exact h.requested other hmem
          · exact List.mem_singleton.mp hmem ▸ hknown
        · refine List.pairwise_append.mpr
            ⟨h.ahead, List.pairwise_singleton _ _, fun earlier _ later hlater hlater' ↦ ?_⟩
          rw [List.mem_singleton.mp hlater, hopens] at hlater'
          exact absurd hlater' Bool.false_ne_true
        · change _ ∧ result.id ∉ opening (ss.pipe ++ [request]) ∧ _
          rw [hopening]
          exact h.closed result hmem htype
      · exact absurd (hstep.symm.trans (if_neg hknown)) (Option.some_ne_none _)

end SocketServer

/-- In every run of the server in which no id comes again, and none of a slot is asked for between its reservation and
the store of the next, each open socket has written the packages that were accepted for it whole, one after another,
those of one priority in their order, and the poll reports when it can write if something is left; a kernel that takes
everything gets everything. No turn fails an assertion, a socket that is closed without a fault was written whole, and
once an id is reported closed nothing but errors and closes is reported for it. -/
theorem packages_delivered {ss : SocketServer} (hrun : socketServer.Run SocketServer.Settled .create ss) :
    (∀ i, (ss.slot i).Live →
      (∃ done first last, (ss.slot i).DeliversAs done first last ∧
        (ss.slot i).fd.written = (done.map Prod.snd).flatten ++
          (((ss.slot i).high ++ (ss.slot i).low).head?.map fun wb ↦ wb.buffer.take wb.ptr).getD []) ∧
      (ss.slot i).wbSize = unsent ((ss.slot i).high ++ (ss.slot i).low) ∧
      ((ss.slot i).high ++ (ss.slot i).low ≠ [] ∨ (ss.slot i).type = .halfclose →
        (ss.slot i).fd.writeEvent ∧
        ∀ writes : List WriteResult, ((ss.slot i).high ++ (ss.slot i).low).length ≤ writes.length →
          (∀ result ∈ writes, ∃ n, result = .wrote n ∧ ∀ wb ∈ (ss.slot i).high ++ (ss.slot i).low, wb.sz ≤ n) →
          ∃ message s', (ss.slot i).sendBuffer writes = some (message, s') ∧ s'.high = [] ∧ s'.low = [] ∧ s'.Drained)) ∧
    (∀ kernel, ss.Answers kernel → ss.Settled (.turn kernel) →
      ∃ next, socketServer.step ss (.turn kernel) = some next ∧
        ∀ i, (ss.slot i).Live → (next.slot i).type = .invalid → kernel.Faultless →
          (∀ request ∈ ss.pipe.head?, request.shutsDown = false) → (next.slot i).Drained) ∧
    ss.messages.Pairwise fun result later ↦
      result.type = .close → later.id = result.id → later.type = .close ∨ later.type = .error := by
  have hsound : ss.Sound :=
    hrun.invariant (fun _ _ _ hsettled hbefore hstep ↦ hbefore.step hsettled hstep) SocketServer.sound_create
  refine ⟨fun i hlive ↦ ?_, fun kernel hanswers hsettled ↦ ?_, hsound.messages⟩
  · have hi := hsound.slots i
    obtain ⟨done, first, last, hdelivers⟩ := hi.delivers hlive
    refine ⟨⟨done, first, last, hdelivers, hdelivers.spooled.stream_eq⟩, hi.wbSize hlive, fun hleft ↦ ?_⟩
    have hsends : (ss.slot i).type.Sends := by
      by_contra hidle
      obtain ⟨hhigh, hlow⟩ := hi.idle hidle
      rcases hleft with hleft | hhalf
      · exact hleft (List.append_eq_nil_iff.mpr ⟨hhigh, hlow⟩)
      · exact hidle (.inr (.inr hhalf))
    refine ⟨hi.writeEvent hsends ?_, fun writes hlength htakes ↦ hi.drains hsends hlength htakes⟩
    exact hleft.symm.imp_left fun hhalf hconnected ↦ SocketType.noConfusion (hhalf.symm.trans hconnected)
  · obtain ⟨next, hnext, -, hdrains⟩ := hsound.turn hsettled hanswers
    exact ⟨next, (if_pos hanswers).trans hnext,
      fun i hi htype hfaultless hshut ↦ hdrains i hi htype ⟨hfaultless, hshut⟩⟩

/-- A kernel that answers to the calls of `write` and reports a socket that can be written. -/
def writingKernel (ready : List Event) (writes : List WriteResult) : Kernel where
  ready := ready
  writes := writes
  read := .again
  connect := .connected
  accept := .failed
  added := true
  connectError := false

/-- A socket that is opened and gets three packages, of which the one of high priority overtakes one of low priority. -/
def overtaking : List ServerEvent :=
  [.reserve 1, .store 1, .request (.openSocket 1 7), .turn (writingKernel [] []),
    .request (.sendSocket 1 [1, 2, 3] .low), .turn (writingKernel [] [.wrote 2]),
    .request (.sendSocket 1 [4, 5] .low), .request (.sendSocket 1 [6] .high), .turn (writingKernel [] []),
    .turn (writingKernel [] []),
    .turn (writingKernel [⟨some 1, false, true⟩] [.interrupted, .wrote 1, .wrote 1, .wrote 1])]

theorem packages_delivered_overtaking : ∃ ss, socketServer.Run SocketServer.Settled .create ss ∧
    (ss.slot 1).fd.written = [1, 2, 3, 6, 4] ∧ (∃ done first last, (ss.slot 1).DeliversAs done first last) ∧
      ∃ next, socketServer.step ss (.turn (writingKernel [⟨some 1, false, true⟩] [.wrote 1])) = some next := by
  obtain ⟨ss, hrun, hvalue⟩ := socketServer.exists_run_of_playMeeting SocketServer.Settled .create overtaking
    (fun ss ↦ ((ss.slot 1).fd.written, (ss.slot 1).type,
      decide (ss.Answers (writingKernel [⟨some 1, false, true⟩] [.wrote 1])),
      decide (ss.Settled (.turn (writingKernel [⟨some 1, false, true⟩] [.wrote 1])))))
    (show _ = some ([1, 2, 3, 6, 4], .connected, true, true) by decide +kernel)
  obtain ⟨hwritten, hrest⟩ := Prod.mk.inj hvalue
  obtain ⟨htype, hrest⟩ := Prod.mk.inj hrest
  obtain ⟨hanswers, hsettled⟩ := Prod.mk.inj hrest
  obtain ⟨hsockets, hturn, -⟩ := packages_delivered hrun
  have hlive : (ss.slot 1).Live := by
    constructor <;> intro h <;> exact SocketType.noConfusion (htype.symm.trans h)
  obtain ⟨next, hnext, -⟩ := hturn _ (of_decide_eq_true hanswers) (of_decide_eq_true hsettled)
  obtain ⟨⟨done, first, last, hdelivers, -⟩, -⟩ := hsockets 1 hlive
  exact ⟨ss, hrun, hwritten, ⟨done, first, last, hdelivers⟩, next, hnext⟩

end SvrDemo.Skynet
