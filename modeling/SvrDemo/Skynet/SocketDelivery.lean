import SvrDemo.Skynet.SocketServer

/-!
# What sockets deliver

Every package that the socket server takes for a socket is written to its file whole, once, and behind the packages of
its priority that were taken before it. `Socket.Becomes` says what a request or an event makes of one socket: it stays
sound, and when it is closed without a fault everything was written. From there the invariant of the server goes over
its slots, the requests in the pipe and the events that are left (`SocketServer.Sound`).
-/

set_option autoImplicit false
set_option relaxedAutoImplicit false

namespace SvrDemo.Skynet

open Base Protocol

/-! ### One socket -/

/-- The types of sockets that packages are taken for. -/
def SocketType.Sends (type : SocketType) : Prop := type = .connecting ∨ type = .connected ∨ type = .halfclose

/-- The bytes that are left of some buffers. -/
def unsent (list : List WriteBuffer) : ℕ := (list.map WriteBuffer.sz).sum

namespace Socket

variable {s : Socket}

/-- A socket that was opened and not closed. -/
def Live (s : Socket) : Prop := s.type ≠ .invalid ∧ s.type ≠ .reserve

/-- What was accepted, in an order that keeps the order of each priority: the packages that are done, those of the high
list, of which only the first may be of low priority, and those of the low list, of which none is begun. -/
structure DeliversAs (s : Socket) (done first last : List (Priority × Bytes)) : Prop where
  order : KeepsOrder s.fd.accepted (done ++ (first ++ last))
  spooled : Spooled WriteBuffer.buffer WriteBuffer.ptr done (first ++ last) (s.high ++ s.low) s.fd.written
  length : s.high.length = first.length
  begun : ∀ wb ∈ s.low, wb.ptr = 0
  highs : ∀ package ∈ first.tail, package.1 = .high
  lows : ∀ package ∈ last, package.1 = .low

def Delivers (s : Socket) : Prop := ∃ done first last, s.DeliversAs done first last

/-- Everything that was accepted has been written. -/
def Drained (s : Socket) : Prop :=
  ∃ order, KeepsOrder s.fd.accepted order ∧ s.fd.written = (order.map Prod.snd).flatten

/-- What every step keeps of a socket. -/
structure Sound (s : Socket) : Prop where
  idle : ¬s.type.Sends → s.high = [] ∧ s.low = []
  delivers : s.Live → s.Delivers
  wbSize : s.Live → s.wbSize = unsent (s.high ++ s.low)
  polled : s.fd.polled ↔ s.type = .listen ∨ s.type.Sends
  writeEvent : s.type.Sends → s.type ≠ .connected ∨ s.high ++ s.low ≠ [] → s.fd.writeEvent
  size : s.Live → ∃ k, s.size = minReadBuffer * 2 ^ k

end Socket

/-- Whether a request closes a socket whatever is left to write. -/
def Request.shutsDown : Request → Bool
  | openSocket _ _ => false
  | listenSocket _ _ => false
  | startSocket _ _ => false
  | closeSocket _ shutdown _ => shutdown
  | sendSocket _ _ _ => false

/-- The kernel reports no error and no end. -/
structure Kernel.Faultless (kernel : Kernel) : Prop where
  writes : .failed ∉ kernel.writes
  read : kernel.read ≠ .failed ∧ kernel.read ≠ .read []
  connectError : kernel.connectError = false
  added : kernel.added = true

/-! ### Writing a list -/

theorem unsent_cons (wb : WriteBuffer) (list : List WriteBuffer) : unsent (wb :: list) = wb.sz + unsent list := rfl

theorem unsent_append (list others : List WriteBuffer) : unsent (list ++ others) = unsent list + unsent others := by
  rw [unsent, List.map_append, List.sum_append]
  rfl

theorem length_unwritten (wb : WriteBuffer) :
    (unwritten WriteBuffer.buffer WriteBuffer.ptr wb).length = wb.sz := List.length_drop

section SendList

variable {n : ℕ} {results : List WriteResult} {tmp : WriteBuffer} {list : List WriteBuffer} {wbSize : ℤ}
  {written : Bytes}

/-- A `write` that takes a part of the first buffer. -/
theorem sendListTcp_part (hsz : n < tmp.sz) :
    sendListTcp (.wrote n :: results) ⟨tmp :: list, wbSize, written⟩ =
      (⟨{ tmp with ptr := tmp.ptr + n } :: list, wbSize - n, written ++ (tmp.buffer.drop tmp.ptr).take n⟩, results,
        false) := by
  simp only [sendListTcp, Nat.min_eq_left (Nat.le_of_lt hsz)]
  exact if_pos (Nat.ne_of_lt hsz)

/-- A `write` that takes all that is left of the first buffer. -/
theorem sendListTcp_rest (hsz : tmp.sz ≤ n) :
    sendListTcp (.wrote n :: results) ⟨tmp :: list, wbSize, written⟩ =
      sendListTcp results ⟨list, wbSize - tmp.sz, written ++ unwritten WriteBuffer.buffer WriteBuffer.ptr tmp⟩ := by
  have htake : (tmp.buffer.drop tmp.ptr).take tmp.sz = unwritten WriteBuffer.buffer WriteBuffer.ptr tmp :=
    List.take_of_length_le (le_of_eq (length_unwritten tmp))
  simp only [sendListTcp, Nat.min_eq_right hsz]
  rw [if_neg (not_not.mpr rfl), htake]

end SendList

/-- What `send_list_tcp` has made of a list: some packages are done, and the others wait. -/
theorem sendListTcp_spooled (results : List WriteResult) (out : Outgoing) {done first last : List (Priority × Bytes)}
    {others : List WriteBuffer}
    (h : Spooled WriteBuffer.buffer WriteBuffer.ptr done (first ++ last) (out.list ++ others) out.written)
    (hlength : out.list.length = first.length) :
    ∃ finished rest, first = finished ++ rest ∧ (sendListTcp results out).1.list.length = rest.length ∧
      Spooled WriteBuffer.buffer WriteBuffer.ptr (done ++ finished) (rest ++ last)
        ((sendListTcp results out).1.list ++ others) (sendListTcp results out).1.written := by
  have hsame : ∃ finished rest, first = finished ++ rest ∧ out.list.length = rest.length ∧
      Spooled WriteBuffer.buffer WriteBuffer.ptr (done ++ finished) (rest ++ last) (out.list ++ others) out.written :=
    ⟨[], first, rfl, hlength, (List.append_nil done).symm ▸ h⟩
  induction results generalizing out done first with
  | nil => exact hsame
  | cons result results ih =>
    obtain ⟨list, wbSize, written⟩ := out
    cases list with
    | nil => exact hsame
    | cons tmp list =>
      cases first with
      | nil => exact absurd hlength (Nat.succ_ne_zero _)
      | cons package first =>
        cases result with
        | interrupted => exact ih _ h hlength hsame
        | wouldBlock => exact hsame
        | failed => exact hsame
        | wrote n =>
          rcases Nat.lt_or_ge n tmp.sz with hsz | hsz
          · rw [sendListTcp_part hsz]
            refine ⟨[], package :: first, rfl, hlength, ?_⟩
            rw [List.append_nil]
            refine h.advance rfl ?_
            change tmp.buffer.drop tmp.ptr = _ ++ tmp.buffer.drop (tmp.ptr + n)
            rw [← List.drop_drop, List.take_append_drop]
          · rw [sendListTcp_rest hsz]
            have hlength' : list.length = first.length := Nat.succ.inj hlength
            obtain ⟨finished, rest, hfirst, hrest, hspooled⟩ := ih ⟨list, wbSize - tmp.sz, _⟩ h.finish hlength'
              ⟨[], first, rfl, hlength', (List.append_nil (done ++ [package])).symm ▸ h.finish⟩
            refine ⟨package :: finished, rest, congrArg _ hfirst, hrest, ?_⟩
            rwa [List.append_assoc] at hspooled

/-- `wb_size` goes down by what was written. -/
theorem sendListTcp_wbSize (results : List WriteResult) (out : Outgoing) :
    (sendListTcp results out).1.wbSize - unsent (sendListTcp results out).1.list = out.wbSize - unsent out.list := by
  induction results generalizing out with
  | nil => rfl
  | cons result results ih =>
    obtain ⟨list, wbSize, written⟩ := out
    cases list with
    | nil => rfl
    | cons tmp list =>
      cases result with
      | interrupted => exact ih _
      | wouldBlock => rfl
      | failed => rfl
      | wrote n =>
        rcases Nat.lt_or_ge n tmp.sz with hsz | hsz
        · rw [sendListTcp_part hsz]
          simp only [unsent_cons, WriteBuffer.sz] at hsz ⊢
          omega
        · rw [sendListTcp_rest hsz, ih]
          simp only [unsent_cons]
          omega

theorem sendListTcp_failed {results : List WriteResult} {out : Outgoing} (h : (sendListTcp results out).2.2 = true) :
    .failed ∈ results := by
  induction results generalizing out with
  | nil => exact absurd h Bool.false_ne_true
  | cons result results ih =>
    obtain ⟨list, wbSize, written⟩ := out
    cases list with
    | nil => exact absurd h Bool.false_ne_true
    | cons tmp list =>
      cases result with
      | interrupted => exact List.mem_cons_of_mem _ (ih h)
      | wouldBlock => exact absurd h Bool.false_ne_true
      | failed => exact List.mem_cons_self
      | wrote n =>
        rcases Nat.lt_or_ge n tmp.sz with hsz | hsz
        · rw [sendListTcp_part hsz] at h
          exact absurd h Bool.false_ne_true
        · rw [sendListTcp_rest hsz] at h
          exact List.mem_cons_of_mem _ (ih h)

/-- The answers that are left are some of the last ones. -/
theorem sendListTcp_suffix (results : List WriteResult) (out : Outgoing) :
    (sendListTcp results out).2.1 <:+ results := by
  induction results generalizing out with
  | nil => exact List.suffix_rfl
  | cons result results ih =>
    obtain ⟨list, wbSize, written⟩ := out
    cases list with
    | nil => exact List.suffix_rfl
    | cons tmp list =>
      cases result with
      | interrupted => exact (ih _).trans (List.suffix_cons _ _)
      | wouldBlock => exact List.suffix_cons _ _
      | failed => exact List.suffix_cons _ _
      | wrote n =>
        rcases Nat.lt_or_ge n tmp.sz with hsz | hsz
        · rw [sendListTcp_part hsz]
          exact List.suffix_cons _ _
        · rw [sendListTcp_rest hsz]
          exact (ih _).trans (List.suffix_cons _ _)

/-- A kernel that takes everything. -/
theorem sendListTcp_takes {results : List WriteResult} {out : Outgoing} (hlength : out.list.length ≤ results.length)
    (htakes : ∀ result ∈ results, ∃ n, result = .wrote n ∧ ∀ wb ∈ out.list, wb.sz ≤ n) :
    (sendListTcp results out).1.list = [] ∧ (sendListTcp results out).2.2 = false ∧
      results.length ≤ (sendListTcp results out).2.1.length + out.list.length := by
  induction results generalizing out with
  | nil => exact ⟨List.eq_nil_of_length_eq_zero (Nat.le_zero.mp hlength), rfl, Nat.zero_le _⟩
  | cons result results ih =>
    obtain ⟨list, wbSize, written⟩ := out
    cases list with
    | nil => exact ⟨rfl, rfl, Nat.le_refl _⟩
    | cons tmp list =>
      obtain ⟨n, rfl, hn⟩ := htakes result List.mem_cons_self
      rw [sendListTcp_rest (hn tmp List.mem_cons_self)]
      obtain ⟨hlist, hfailed, hrest⟩ := @ih ⟨list, wbSize - tmp.sz, _⟩ (Nat.le_of_succ_le_succ hlength)
        fun result hmem ↦ by
          obtain ⟨n, hresult, hn⟩ := htakes result (List.mem_cons_of_mem _ hmem)
          exact ⟨n, hresult, fun wb hwb ↦ hn wb (List.mem_cons_of_mem _ hwb)⟩
      exact ⟨hlist, hfailed, Nat.succ_le_succ hrest⟩

/-! ### Writing the lists of a socket -/

namespace Socket

variable {s s' : Socket} {message : Option SocketResult} {faultless : Prop}

/-- The lists of a socket that is being written. -/
structure Sending (s : Socket) : Prop where
  delivers : s.Delivers
  wbSize : s.wbSize = unsent (s.high ++ s.low)

/-- What a request or an event makes of a socket. -/
structure Becomes (s : Socket) (faultless : Prop) (message : Option SocketResult) (s' : Socket) : Prop where
  sound : s'.Sound
  id : s'.id = s.id
  reserve : s'.type ≠ .reserve
  polled : s.fd.polled → s'.type ≠ .invalid → s'.fd.polled
  ids : ∀ result ∈ message, result.id = s.id
  closed : s'.type = .invalid → ∃ result ∈ message, result.type = .close ∨ result.type = .error
  close : ∀ result ∈ message, result.type = .close → s'.type = .invalid
  drained : faultless → s'.type = .invalid → s'.Drained

/-- What `send_buffer` makes of a socket that it does not close. -/
structure Resent (s s' : Socket) : Prop where
  sending : s'.Sending
  type : s'.type = s.type
  id : s'.id = s.id
  size : s'.size = s.size
  polled : s'.fd.polled = s.fd.polled
  writeEvent : s'.type = .halfclose ∨ s'.high ++ s'.low ≠ [] → s'.fd.writeEvent

theorem live_of_sends (h : s.type.Sends) : s.Live := by
  constructor <;> intro htype <;> rcases htype ▸ h with h | h | h <;> exact SocketType.noConfusion h

theorem Sound.sending (h : s.Sound) (hlive : s.Live) : s.Sending := ⟨h.delivers hlive, h.wbSize hlive⟩

theorem Delivers.congr (h : s.Delivers) (hhigh : s'.high = s.high) (hlow : s'.low = s.low)
    (hwritten : s'.fd.written = s.fd.written) (haccepted : s'.fd.accepted = s.fd.accepted) : s'.Delivers := by
  obtain ⟨done, first, last, h⟩ := h
  refine ⟨done, first, last, haccepted ▸ h.order, ?_, hhigh ▸ h.length, hlow ▸ h.begun, h.highs, h.lows⟩
  rw [hhigh, hlow, hwritten]
  exact h.spooled

theorem Sending.congr (h : s.Sending) (hhigh : s'.high = s.high) (hlow : s'.low = s.low)
    (hwbSize : s'.wbSize = s.wbSize) (hwritten : s'.fd.written = s.fd.written)
    (haccepted : s'.fd.accepted = s.fd.accepted) : s'.Sending where
  delivers := h.delivers.congr hhigh hlow hwritten haccepted
  wbSize := by
    rw [hwbSize, hhigh, hlow]
    exact h.wbSize

/-- Nothing is left in the lists. -/
theorem Delivers.drained (h : s.Delivers) (hhigh : s.high = []) (hlow : s.low = []) : s.Drained := by
  obtain ⟨done, first, last, h⟩ := h
  have hspooled := h.spooled
  rw [hhigh, hlow] at hspooled
  exact ⟨_, h.order, hspooled.stream_of_nil⟩

/-- A socket that goes on sending. -/
theorem Sound.resume (h : s.Sound) (hsends : s.type.Sends) (htype : s'.type = s.type) (hsize : s'.size = s.size)
    (hpolled : s'.fd.polled = s.fd.polled) (hsending : s'.Sending)
    (hwrite : s'.type ≠ .connected ∨ s'.high ++ s'.low ≠ [] → s'.fd.writeEvent) : s'.Sound where
  idle hidle := absurd (htype ▸ hsends) hidle
  delivers _ := hsending.delivers
  wbSize _ := hsending.wbSize
  polled := by
    rw [hpolled, htype]
    exact h.polled
  writeEvent _ := hwrite
  size _ := hsize ▸ h.size (live_of_sends hsends)

/-- A socket is closed, and this is reported. -/
theorem exists_closeWith (s' : Socket) (result : SocketResult) (hlive : s'.Live) (hid : s'.id = s.id)
    (hresult : result.id = s.id) (htype : result.type = .close ∨ result.type = .error)
    (hdrained : faultless → s'.Drained) :
    ∃ next, s'.closeWith result = some (some result, next) ∧ s.Becomes faultless (some result) next := by
  refine ⟨{ s' with
    high := [], low := [], fd := { s'.fd with polled := false, writeEvent := false }, type := .invalid }, ?_, ?_⟩
  · rw [closeWith, forceClose, if_neg hlive.1, if_neg hlive.2]
    rfl
  · have hsends : ¬SocketType.invalid.Sends := by
      rintro (h | h | h) <;> exact SocketType.noConfusion h
    refine ⟨⟨fun _ ↦ ⟨rfl, rfl⟩, fun h ↦ absurd rfl h.1, fun h ↦ absurd rfl h.1, ?_, fun h ↦ absurd h hsends,
      fun h ↦ absurd rfl h.1⟩, hid, fun h ↦ SocketType.noConfusion h, fun _ h ↦ absurd rfl h, ?_,
      fun _ ↦ ⟨result, rfl, htype⟩, fun _ _ _ ↦ rfl, fun h _ ↦ hdrained h⟩
    · refine ⟨fun h ↦ absurd h Bool.false_ne_true, fun h ↦ ?_⟩
      rcases h with h | h
      · exact SocketType.noConfusion h
      · exact absurd h hsends
    · rintro result' ⟨⟩
      exact hresult

/-- A socket that stays open. -/
theorem Sound.becomes (h : s'.Sound) (hid : s'.id = s.id) (hlive : s'.Live) (hpolled : s.fd.polled → s'.fd.polled)
    (hids : ∀ result ∈ message, result.id = s.id ∧ result.type ≠ .close) : s.Becomes faultless message s' where
  sound := h
  id := hid
  reserve := hlive.2
  polled h _ := hpolled h
  ids result hmem := (hids result hmem).1
  closed h := absurd h hlive.1
  close result hmem htype := absurd htype (hids result hmem).2
  drained _ h := absurd h hlive.1

/-- The high list is written. -/
theorem Sending.sendHigh (h : s.Sending) (writes : List WriteResult) : (s.sendHigh writes).1.Sending := by
  obtain ⟨⟨done, first, last, h⟩, hwbSize⟩ := h
  obtain ⟨finished, rest, rfl, hlength, hspooled⟩ :=
    sendListTcp_spooled writes ⟨s.high, s.wbSize, s.fd.written⟩ h.spooled h.length
  refine ⟨⟨done ++ finished, rest, last, ?_, hspooled, hlength, h.begun, fun package hmem ↦ h.highs package ?_, h.lows⟩,
    ?_⟩
  · have horder := h.order
    simp only [List.append_assoc] at horder ⊢
    exact horder
  · cases finished with
    | nil => exact hmem
    | cons => exact List.mem_append_right _ (List.mem_of_mem_tail hmem)
  · have hout := sendListTcp_wbSize writes ⟨s.high, s.wbSize, s.fd.written⟩
    rw [unsent_append] at hwbSize ⊢
    push_cast at hwbSize ⊢
    change (sendListTcp writes ⟨s.high, s.wbSize, s.fd.written⟩).1.wbSize =
      unsent (sendListTcp writes ⟨s.high, s.wbSize, s.fd.written⟩).1.list + unsent s.low
    change _ = s.wbSize - unsent s.high at hout
    omega

/-- The low list is written, and a package that is begun goes to the high list. -/
theorem Sending.sendLow (h : s.Sending) (hhigh : s.high = []) (writes : List WriteResult) :
    (listUncomplete (s.sendLow writes).1.low = false → (s.sendLow writes).1.Sending) ∧
      (listUncomplete (s.sendLow writes).1.low = true → ∃ s', (s.sendLow writes).1.raiseUncomplete = some s' ∧
        s'.Sending ∧ s'.high ≠ [] ∧ s'.type = s.type ∧ s'.id = s.id ∧ s'.size = s.size ∧
          s'.fd.polled = s.fd.polled ∧ s'.fd.writeEvent = s.fd.writeEvent) := by
  obtain ⟨⟨done, first, last, h⟩, hwbSize⟩ := h
  have hfirst : first = [] := List.eq_nil_of_length_eq_zero (by rw [← h.length, hhigh]; rfl)
  subst hfirst
  have hspooled := h.spooled
  have horder := h.order
  rw [hhigh] at hspooled hwbSize
  rw [List.nil_append] at hspooled hwbSize horder
  have hout := sendListTcp_wbSize writes ⟨s.low, s.wbSize, s.fd.written⟩
  have hlist : Spooled WriteBuffer.buffer WriteBuffer.ptr done (last ++ []) (s.low ++ []) s.fd.written := by
    rwa [List.append_nil, List.append_nil]
  obtain ⟨finished, rest, rfl, hlength, hrest⟩ :=
    sendListTcp_spooled writes ⟨s.low, s.wbSize, s.fd.written⟩ hlist hspooled.length_eq
  simp only [Socket.sendLow]
  generalize sendListTcp writes ⟨s.low, s.wbSize, s.fd.written⟩ = sent at hout hlength hrest ⊢
  obtain ⟨⟨low, wbSize, written⟩, left, failed⟩ := sent
  simp only [List.append_nil] at hlength hrest
  have hsize : wbSize = unsent low := by
    change wbSize - unsent low = s.wbSize - unsent s.low at hout
    omega
  have hlows : ∀ package ∈ rest, package.1 = .low := fun package hmem ↦ h.lows package (List.mem_append_right _ hmem)
  rw [← List.append_assoc] at horder
  refine ⟨fun hcomplete ↦ ⟨⟨done ++ finished, [], rest, horder, ?_, ?_, ?_, fun _ hmem ↦ absurd hmem List.not_mem_nil,
    hlows⟩, ?_⟩, fun huncomplete ↦ ?_⟩
  · change Spooled _ _ _ rest (s.high ++ low) written
    rw [hhigh]
    exact hrest
  · exact congrArg List.length hhigh
  · cases low with
    | nil => exact fun _ hmem ↦ absurd hmem List.not_mem_nil
    | cons tmp low =>
      intro wb hmem
      rcases List.mem_cons.mp hmem with rfl | hmem
      · simpa [listUncomplete] using hcomplete
      · exact hrest.fresh wb hmem
  · change wbSize = unsent (s.high ++ low)
    rw [hhigh]
    exact hsize
  · cases low with
    | nil => exact absurd huncomplete Bool.false_ne_true
    | cons tmp low =>
      cases rest with
      | nil => exact absurd hlength (Nat.succ_ne_zero _)
      | cons package rest =>
        refine ⟨{ s with high := [tmp], low := low, wbSize := wbSize, fd := { s.fd with written := written } }, ?_, ?_,
          List.cons_ne_nil _ _, rfl, rfl, rfl, rfl, rfl⟩
        · simp only [raiseUncomplete, hhigh]
        · exact ⟨⟨done ++ finished, [package], rest, horder, hrest, rfl, hrest.fresh,
            fun _ hmem ↦ absurd hmem List.not_mem_nil,
            fun other hmem ↦ hlows other (List.mem_cons_of_mem _ hmem)⟩, hsize⟩

theorem sendListTcp_nil (results : List WriteResult) (wbSize : ℤ) (written : Bytes) :
    (sendListTcp results ⟨[], wbSize, written⟩).1.list = [] := by
  cases results <;> rfl

/-- The assertion of `send_buffer`. -/
theorem Sound.listUncomplete_low (h : s.Sound) (hlive : s.Live) : listUncomplete s.low = false := by
  obtain ⟨done, first, last, hdelivers⟩ := h.delivers hlive
  cases hlow : s.low with
  | nil => rfl
  | cons tmp low =>
    have hptr := hdelivers.begun tmp (hlow ▸ List.mem_cons_self)
    simp [listUncomplete, hptr]

/-- `send_buffer` on a socket that sends. -/
theorem Sound.sendBuffer (h : s.Sound) (hsends : s.type.Sends) (writes : List WriteResult) :
    ∃ message s', s.sendBuffer writes = some (message, s') ∧
      (message = none ∧ s.Resent s' ∨ message.isSome ∧ s.Becomes (.failed ∉ writes) message s') := by
  have hlive := live_of_sends hsends
  have hbegun := h.listUncomplete_low hlive
  have hhigh := (h.sending hlive).sendHigh writes
  have hfailed : (s.sendHigh writes).2.2 = true → .failed ∈ writes := sendListTcp_failed
  have hsuffix : (s.sendHigh writes).2.1 <:+ writes := sendListTcp_suffix _ _
  simp only [Socket.sendBuffer, hbegun, Bool.false_eq_true, if_false]
  obtain ⟨s₁, hs₁⟩ : ∃ s₁, s₁ = (s.sendHigh writes).1 := ⟨_, rfl⟩
  have hid : s₁.id = s.id := hs₁ ▸ rfl
  have htype : s₁.type = s.type := hs₁ ▸ rfl
  have hpolled : s₁.fd.polled = s.fd.polled := hs₁ ▸ rfl
  have hwrite : s₁.type ≠ .connected ∨ s₁.high ++ s₁.low ≠ [] → s₁.fd.writeEvent := by
    refine fun hcause ↦ hs₁ ▸ h.writeEvent hsends (hcause.imp (htype ▸ ·) fun hlists hempty ↦ hlists ?_)
    obtain ⟨hhigh, hlow⟩ := List.append_eq_nil_iff.mp hempty
    rw [hs₁]
    change (sendListTcp writes ⟨s.high, s.wbSize, s.fd.written⟩).1.list ++ s.low = []
    rw [hhigh, hlow, sendListTcp_nil, List.append_nil]
  have hsize : s₁.size = s.size := hs₁ ▸ rfl
  rw [← hs₁] at hhigh ⊢
  generalize (s.sendHigh writes).2.1 = rest at hsuffix ⊢
  generalize (s.sendHigh writes).2.2 = failed at hfailed ⊢
  have hlive₁ : s₁.Live := live_of_sends (htype ▸ hsends)
  have hcause : s₁.type = .halfclose ∨ s₁.high ++ s₁.low ≠ [] → s₁.type ≠ .connected ∨ s₁.high ++ s₁.low ≠ [] :=
    Or.imp_left fun hhalf hconnected ↦ SocketType.noConfusion (hhalf.symm.trans hconnected)
  by_cases hfail : failed = true
  · obtain ⟨s', hclose, hbecomes⟩ := exists_closeWith s₁ (s₁.report .close) hlive₁ hid hid (.inl rfl)
      fun hnone ↦ absurd (hfailed hfail) hnone
    exact ⟨_, s', by rw [if_pos hfail, hclose], .inr ⟨rfl, hbecomes⟩⟩
  rw [if_neg hfail]
  by_cases hempty : s₁.high.isEmpty = true
  · rw [if_pos hempty]
    have hnil : s₁.high = [] := List.isEmpty_iff.mp hempty
    by_cases hlow : ¬s₁.low.isEmpty = true
    · -- the low list is written
      rw [if_pos hlow]
      have hwrite₂ := hwrite (.inr fun hlists ↦ hlow (List.isEmpty_iff.mpr (List.append_eq_nil_iff.mp hlists).2))
      obtain ⟨hcomplete, hraise⟩ := hhigh.sendLow hnil rest
      have hfailed₂ : (s₁.sendLow rest).2.2 = true → .failed ∈ rest := sendListTcp_failed
      by_cases hfail₂ : (s₁.sendLow rest).2.2 = true
      · obtain ⟨s', hclose, hbecomes⟩ := exists_closeWith (s₁.sendLow rest).1
          ((s₁.sendLow rest).1.report .close) hlive₁ hid hid (.inl rfl)
          fun hnone ↦ absurd (hsuffix.subset (hfailed₂ hfail₂)) hnone
        exact ⟨_, s', by rw [if_pos hfail₂, hclose], .inr ⟨rfl, hbecomes⟩⟩
      rw [if_neg hfail₂]
      by_cases huncomplete : listUncomplete (s₁.sendLow rest).1.low = true
      · obtain ⟨s', hs', hsending, -, htype', hid', hsize', hpolled', hwrite'⟩ := hraise huncomplete
        rw [if_pos huncomplete, hs']
        exact ⟨none, s', rfl, .inl ⟨rfl, hsending, htype'.trans htype, hid'.trans hid, hsize'.trans hsize,
          hpolled'.trans hpolled, fun _ ↦ hwrite'.trans hwrite₂⟩⟩
      · rw [if_neg huncomplete]
        exact ⟨none, _, rfl, .inl ⟨rfl, hcomplete (Bool.eq_false_iff.mpr huncomplete), htype, hid, hsize, hpolled,
          fun _ ↦ hwrite₂⟩⟩
    · -- nothing is left
      rw [if_neg hlow]
      have hnil' : s₁.low = [] := List.isEmpty_iff.mp (not_not.mp hlow)
      by_cases hhalf : (s₁.spWrite false).type = .halfclose
      · obtain ⟨s', hclose, hbecomes⟩ := exists_closeWith (s₁.spWrite false)
          ((s₁.spWrite false).report .close) hlive₁ hid hid (.inl rfl)
          fun (_ : .failed ∉ writes) ↦ hhigh.delivers.drained hnil hnil'
        exact ⟨_, s', by rw [if_pos hhalf, hclose], .inr ⟨rfl, hbecomes⟩⟩
      · rw [if_neg hhalf]
        refine ⟨none, _, rfl, .inl ⟨rfl, hhigh.congr rfl rfl rfl rfl rfl, htype, hid, hsize, hpolled, ?_⟩⟩
        rintro (hhalf' | hlists)
        · exact absurd hhalf' hhalf
        · exact absurd (List.append_eq_nil_iff.mpr ⟨hnil, hnil'⟩) hlists
  · rw [if_neg hempty]
    exact ⟨none, _, rfl, .inl ⟨rfl, hhigh, htype, hid, hsize, hpolled, fun h ↦ hwrite (hcause h)⟩⟩

/-- A write event of a socket that is connected or half closed. -/
theorem Sound.sendBuffer_becomes (h : s.Sound) (htype : s.type = .connected ∨ s.type = .halfclose)
    (writes : List WriteResult) :
    ∃ message s', s.sendBuffer writes = some (message, s') ∧ s.Becomes (.failed ∉ writes) message s' := by
  obtain ⟨message, s', hsend, ⟨rfl, hs'⟩ | ⟨-, hs'⟩⟩ := h.sendBuffer (.inr htype) writes
  · refine ⟨none, s', hsend, ?_⟩
    have hsound : s'.Sound := h.resume (.inr htype) hs'.type hs'.size hs'.polled hs'.sending fun hcause ↦
      hs'.writeEvent (hcause.imp_left fun hconnected ↦ (hs'.type ▸ htype).resolve_left hconnected)
    exact hsound.becomes hs'.id (live_of_sends (hs'.type ▸ .inr htype)) (fun hp ↦ hs'.polled.trans hp)
      fun _ hmem ↦ absurd hmem (Option.not_mem_none _)
  · exact ⟨message, s', hsend, hs'⟩

theorem sendBufferEmpty_iff : s.sendBufferEmpty = true ↔ s.high = [] ∧ s.low = [] := by
  simp [sendBufferEmpty]

/-- `close_socket`. Where the service does not shut the socket down, and no write fails, everything is written first. -/
theorem Sound.closeSocket (h : s.Sound) (hlive : s.Live) (kernel : Kernel) (shutdown : Bool) (owner : ℕ) :
    ∃ message s', closeSocket kernel s.id shutdown owner s = some (message, s') ∧
      s.Becomes (shutdown = false ∧ .failed ∉ kernel.writes) message s' := by
  rw [Skynet.closeSocket, if_neg (not_or.mpr ⟨hlive.1, not_not.mpr rfl⟩)]
  by_cases hempty : s.sendBufferEmpty = true
  · obtain ⟨hhigh, hlow⟩ := sendBufferEmpty_iff.mp hempty
    obtain ⟨s', hclose, hbecomes⟩ := exists_closeWith s ⟨.close, owner, s.id, 0, []⟩ hlive rfl rfl (.inl rfl)
      fun (_ : shutdown = false ∧ .failed ∉ kernel.writes) ↦ (h.delivers hlive).drained hhigh hlow
    refine ⟨_, s', ?_, hbecomes⟩
    rw [if_pos hempty]
    exact (if_pos (.inr hempty)).trans hclose
  · have hsends : s.type.Sends := by
      by_contra hidle
      exact hempty (sendBufferEmpty_iff.mpr (h.idle hidle))
    obtain ⟨message, s₁, hsend, ⟨rfl, hs₁⟩ | ⟨hsome, hs₁⟩⟩ := h.sendBuffer hsends kernel.writes
    · have hsends₁ : s₁.type.Sends := hs₁.type ▸ hsends
      rw [if_neg hempty, hsend]
      by_cases hclose : shutdown = true ∨ s₁.sendBufferEmpty = true
      · -- it is closed at once
        obtain ⟨s', hs', hbecomes⟩ := exists_closeWith s₁ ⟨.close, owner, s.id, 0, []⟩ (live_of_sends hsends₁) hs₁.id
          rfl (.inl rfl) fun (hfaultless : shutdown = false ∧ .failed ∉ kernel.writes) ↦ by
            obtain ⟨hhigh, hlow⟩ := sendBufferEmpty_iff.mp (hclose.resolve_left (hfaultless.1 ▸ Bool.false_ne_true))
            exact hs₁.sending.delivers.drained hhigh hlow
        exact ⟨_, s', (if_pos hclose).trans hs', hbecomes⟩
      · -- what is left is written first
        refine ⟨none, { s₁ with type := .halfclose }, if_neg hclose, ?_⟩
        have hlists : s₁.high ++ s₁.low ≠ [] := fun hnil ↦
          hclose (.inr (sendBufferEmpty_iff.mpr (List.append_eq_nil_iff.mp hnil)))
        have hhalf : SocketType.halfclose.Sends := .inr (.inr rfl)
        refine Sound.becomes ⟨fun hidle ↦ absurd hhalf hidle, fun _ ↦ hs₁.sending.delivers.congr rfl rfl rfl rfl,
          fun _ ↦ hs₁.sending.wbSize, ?_, fun _ _ ↦ hs₁.writeEvent (.inr hlists), fun _ ↦ ?_⟩ hs₁.id
          (live_of_sends hhalf) (fun hp ↦ hs₁.polled.trans hp) fun _ hmem ↦ absurd hmem (Option.not_mem_none _)
        · refine ⟨fun _ ↦ .inr hhalf, fun _ ↦ ?_⟩
          exact hs₁.polled.trans (h.polled.mpr (.inr hsends))
        · exact hs₁.size ▸ h.size hlive
    · obtain ⟨result, rfl⟩ := Option.isSome_iff_exists.mp hsome
      refine ⟨some result, s₁, ?_, { hs₁ with drained := fun hfaultless ↦ hs₁.drained hfaultless.2 }⟩
      rw [if_neg hempty, hsend]
      rfl

/-! ### Packages that are taken -/

/-- A package that waits behind the ones of its priority. -/
theorem Delivers.append (h : s.Delivers) (priority : Priority) (buffer : Bytes) (hhigh : s'.high = s.high ++
      (if priority = .high then [⟨buffer, 0⟩] else []))
    (hlow : s'.low = s.low ++ (if priority = .low then [⟨buffer, 0⟩] else []))
    (haccepted : s'.fd.accepted = s.fd.accepted ++ [(priority, buffer)]) (hwritten : s'.fd.written = s.fd.written) :
    s'.Delivers := by
  obtain ⟨done, first, last, h⟩ := h
  cases priority with
  | high =>
    rw [if_pos rfl] at hhigh
    rw [if_neg fun h ↦ Priority.noConfusion h, List.append_nil] at hlow
    refine ⟨done, first ++ [(.high, buffer)], last, ?_, ?_, ?_, hlow ▸ h.begun, ?_, h.lows⟩
    · have horder := h.order
      rw [← List.append_assoc] at horder
      have hinsert := horder.insert .high buffer fun other hmem hhigh ↦
        Priority.noConfusion (hhigh.symm.trans (h.lows other hmem))
      rw [haccepted]
      simpa using hinsert
    · have hpush := h.spooled.push h.length h.begun .high (show WriteBuffer.ptr ⟨buffer, 0⟩ = 0 from rfl)
      rw [hhigh, hlow, hwritten, List.append_assoc, List.append_assoc]
      exact hpush
    · rw [hhigh, List.length_append, List.length_append, h.length]
      rfl
    · intro package hmem
      cases first with
      | nil => exact absurd hmem List.not_mem_nil
      | cons head first =>
        rcases List.mem_append.mp hmem with hmem | hmem
        · exact h.highs package hmem
        · rw [List.mem_singleton.mp hmem]
  | low =>
    rw [if_neg fun h ↦ Priority.noConfusion h, List.append_nil] at hhigh
    rw [if_pos rfl] at hlow
    refine ⟨done, first, last ++ [(.low, buffer)], ?_, ?_, hhigh ▸ h.length, ?_, h.highs, ?_⟩
    · have horder := h.order
      rw [← List.append_nil (done ++ (first ++ last))] at horder
      have hinsert := horder.insert .low buffer fun _ hmem ↦ absurd hmem List.not_mem_nil
      rw [haccepted]
      simpa using hinsert
    · have hspooled := h.spooled
      rw [← List.append_nil (first ++ last), ← List.append_nil (s.high ++ s.low)] at hspooled
      have hpush := hspooled.push h.spooled.length_eq (fun _ hmem ↦ absurd hmem List.not_mem_nil) .low
        (show WriteBuffer.ptr ⟨buffer, 0⟩ = 0 from rfl)
      rw [hhigh, hlow, hwritten, ← List.append_assoc, ← List.append_assoc]
      exact hpush
    · rw [hlow]
      intro wb hmem
      rcases List.mem_append.mp hmem with hmem | hmem
      · exact h.begun wb hmem
      · rw [List.mem_singleton.mp hmem]
    · intro package hmem
      rcases List.mem_append.mp hmem with hmem | hmem
      · exact h.lows package hmem
      · rw [List.mem_singleton.mp hmem]

/-- A package of which the kernel has taken a first part at once. -/
theorem Delivers.begin (h : s.Delivers) (hempty : s.high = [] ∧ s.low = []) (priority : Priority) (buffer : Bytes)
    (n : ℕ) (hhigh : s'.high = [⟨buffer, n⟩]) (hlow : s'.low = [])
    (haccepted : s'.fd.accepted = s.fd.accepted ++ [(priority, buffer)])
    (hwritten : s'.fd.written = s.fd.written ++ buffer.take n) : s'.Delivers := by
  obtain ⟨done, first, last, h⟩ := h
  have hspooled := h.spooled
  have hwaiting : first ++ last = [] := by
    rw [hempty.1, hempty.2] at hspooled
    exact List.eq_nil_of_length_eq_zero hspooled.length_eq.symm
  have horder := h.order
  rw [hwaiting, hempty.1, hempty.2] at hspooled
  rw [hwaiting] at horder
  have hnil : Spooled WriteBuffer.buffer WriteBuffer.ptr done ([] ++ []) ([] ++ []) s.fd.written := hspooled
  have hpush := (hnil.push rfl
    (fun _ hmem ↦ absurd hmem List.not_mem_nil) priority (show WriteBuffer.ptr ⟨buffer, 0⟩ = 0 from rfl)).advance
    (show WriteBuffer.buffer ⟨buffer, n⟩ = buffer from rfl) (List.take_append_drop n buffer).symm
  refine ⟨done, [(priority, buffer)], [], ?_, ?_, by rw [hhigh]; rfl, by simp [hlow], fun _ hmem ↦
    absurd hmem List.not_mem_nil, fun _ hmem ↦ absurd hmem List.not_mem_nil⟩
  · rw [haccepted]
    exact horder.insert priority buffer fun _ hmem ↦ absurd hmem List.not_mem_nil
  · rw [hhigh, hlow, hwritten]
    exact hpush

/-- A package that the kernel has taken whole at once. -/
theorem Delivers.whole (h : s.Delivers) (hempty : s.high = [] ∧ s.low = []) (priority : Priority) (buffer : Bytes)
    (hhigh : s'.high = s.high) (hlow : s'.low = s.low)
    (haccepted : s'.fd.accepted = s.fd.accepted ++ [(priority, buffer)])
    (hwritten : s'.fd.written = s.fd.written ++ buffer) : s'.Delivers := by
  obtain ⟨order, horder, hdrained⟩ := h.drained hempty.1 hempty.2
  refine ⟨order ++ [(priority, buffer)], [], [], ?_, ?_, by rw [hhigh, hempty.1]; rfl, by simp [hlow, hempty.2],
    fun _ hmem ↦ absurd hmem List.not_mem_nil, fun _ hmem ↦ absurd hmem List.not_mem_nil⟩
  · rw [← List.append_nil order] at horder
    have hinsert := horder.insert priority buffer fun _ hmem ↦ absurd hmem List.not_mem_nil
    rw [haccepted]
    simpa using hinsert
  · rw [hhigh, hlow, hempty.1, hempty.2, hwritten, hdrained]
    exact ⟨rfl, by simp, fun _ hmem ↦ absurd hmem List.not_mem_nil⟩

theorem unsent_singleton (wb : WriteBuffer) : unsent [wb] = wb.sz := Nat.add_zero _

/-- The socket with a package that it has taken. -/
def take (s : Socket) (priority : Priority) (buffer : Bytes) : Socket :=
  { s with fd := { s.fd with accepted := s.fd.accepted ++ [(priority, buffer)] } }

theorem not_mem_none_of {P : SocketResult → Prop} : ∀ result ∈ (none : Option SocketResult), P result :=
  fun _ hmem ↦ absurd hmem (Option.not_mem_none _)

/-- A package that the file may take at once. -/
theorem Sound.sendDirectly (h : s.Sound) (htype : s.type = .connected) (hempty : s.high = [] ∧ s.low = [])
    (result : WriteResult) (buffer : Bytes) (priority : Priority) :
    ∃ message s', (s.take priority buffer).sendDirectly result buffer = some (message, s') ∧
      s.Becomes (result ≠ .failed) message s' := by
  have hsends : s.type.Sends := .inr (.inl htype)
  have hlive := live_of_sends hsends
  by_cases hfailed : result = .failed
  · obtain ⟨s', hclose, hbecomes⟩ := exists_closeWith
      { s.take priority buffer with fd := { (s.take priority buffer).fd with
        written := s.fd.written ++ buffer.take (result.taken buffer.length) } }
      (s.report .close) hlive (Eq.refl s.id) rfl (.inl rfl) fun hfaultless ↦ absurd hfailed hfaultless
    exact ⟨_, s', (if_pos hfailed).trans hclose, hbecomes⟩
  by_cases hwhole : result.taken buffer.length = buffer.length
  · refine ⟨none, _, (if_neg hfailed).trans (if_pos hwhole), ?_⟩
    refine Sound.becomes ⟨h.idle, fun _ ↦ ?_, h.wbSize, h.polled, h.writeEvent, h.size⟩ rfl hlive (fun hp ↦ hp)
      not_mem_none_of
    refine (h.delivers hlive).whole hempty priority buffer rfl rfl rfl ?_
    change s.fd.written ++ buffer.take _ = _
    rw [hwhole, List.take_length]
  · refine ⟨none, _, (if_neg hfailed).trans (if_neg hwhole), ?_⟩
    refine Sound.becomes ⟨fun hidle ↦ absurd hsends hidle, fun _ ↦ ?_, fun _ ↦ ?_, h.polled, fun _ _ ↦ rfl, h.size⟩
      rfl hlive (fun hp ↦ hp) not_mem_none_of
    · refine (h.delivers hlive).begin hempty priority buffer (result.taken buffer.length) ?_ hempty.2 rfl rfl
      change s.high ++ _ = _
      rw [hempty.1]
      rfl
    · change s.wbSize + _ = unsent ((s.high ++ _) ++ s.low)
      simp only [h.wbSize hlive, hempty.1, hempty.2, List.append_nil, List.nil_append, unsent_singleton]
      exact Int.zero_add _

/-- A package that waits. -/
theorem Sound.append (h : s.Sound) (hsends : s.type.Sends) (hwrite : s.fd.writeEvent) (buffer : Bytes)
    (priority : Priority) :
    s.Becomes faultless none (if priority = .low then (s.take priority buffer).appendSendbufferLow buffer
      else (s.take priority buffer).appendSendbuffer buffer 0) := by
  have hlive := live_of_sends hsends
  have hwbSize := h.wbSize hlive
  cases priority with
  | high =>
    rw [if_neg fun h ↦ Priority.noConfusion h]
    refine Sound.becomes ⟨fun hidle ↦ absurd hsends hidle, fun _ ↦ ?_, fun _ ↦ ?_, h.polled, fun _ _ ↦ hwrite, h.size⟩
      rfl hlive (fun hp ↦ hp) not_mem_none_of
    · exact (h.delivers hlive).append .high buffer rfl (List.append_nil _).symm rfl rfl
    · change s.wbSize + _ = unsent ((s.high ++ [⟨buffer, 0⟩]) ++ s.low)
      rw [hwbSize, unsent_append, unsent_append, unsent_append, unsent_singleton]
      push_cast
      omega
  | low =>
    rw [if_pos rfl]
    refine Sound.becomes ⟨fun hidle ↦ absurd hsends hidle, fun _ ↦ ?_, fun _ ↦ ?_, h.polled, fun _ _ ↦ hwrite, h.size⟩
      rfl hlive (fun hp ↦ hp) not_mem_none_of
    · exact (h.delivers hlive).append .low buffer (List.append_nil _).symm rfl rfl rfl
    · change s.wbSize + _ = unsent (s.high ++ (s.low ++ [⟨buffer, 0⟩]))
      rw [hwbSize, unsent_append, unsent_append, unsent_append, unsent_singleton]
      push_cast
      omega

/-- `send_socket`. -/
theorem Sound.sendSocket (h : s.Sound) (hlive : s.Live) (kernel : Kernel) (buffer : Bytes) (priority : Priority) :
    ∃ message s', sendSocket kernel s.id buffer priority s = some (message, s') ∧
      s.Becomes (.failed ∉ kernel.writes) message s' := by
  by_cases htaken : s.type = .connecting ∨ s.type = .connected
  · have hdrop : ¬(s.type = .invalid ∨ s.id ≠ s.id ∨ s.type = .halfclose ∨ s.type = .paccept) := by
      rcases htaken with h | h <;> simp [h]
    have hlisten : ¬(s.type = .plisten ∨ s.type = .listen) := by
      rcases htaken with h | h <;> simp [h]
    have hsends : s.type.Sends := htaken.imp_right .inl
    rw [Skynet.sendSocket, if_neg hdrop, if_neg hlisten]
    by_cases hdirect : s.sendBufferEmpty = true ∧ s.type = .connected
    · obtain ⟨message, s', hs', hbecomes⟩ := h.sendDirectly hdirect.2 (sendBufferEmpty_iff.mp hdirect.1)
        (kernel.writes.headD .wouldBlock) buffer priority
      refine ⟨message, s', (if_pos hdirect).trans hs',
        { hbecomes with drained := fun hfaultless ↦ hbecomes.drained ?_ }⟩
      intro hfailed
      cases hwrites : kernel.writes with
      | nil => exact WriteResult.noConfusion (hwrites ▸ hfailed)
      | cons result results => exact hfaultless (hwrites ▸ List.mem_cons.mpr (.inl (hwrites ▸ hfailed).symm))
    · have hwrite : s.fd.writeEvent := by
        refine h.writeEvent hsends ?_
        by_contra hcontra
        rw [not_or, not_not, not_not, List.append_eq_nil_iff] at hcontra
        exact hdirect ⟨sendBufferEmpty_iff.mpr hcontra.2, hcontra.1⟩
      refine ⟨none, _, (if_neg hdirect).trans ?_, h.append hsends hwrite buffer priority⟩
      exact (apply_ite (fun s' ↦ some (none, s')) _ _ _).symm
  · -- it is not taken
    refine ⟨none, s, ?_, h.becomes rfl hlive (fun hp ↦ hp) not_mem_none_of⟩
    have htype : s.type = .plisten ∨ s.type = .listen ∨ s.type = .paccept ∨ s.type = .halfclose := by
      obtain ⟨hinvalid, hreserve⟩ := hlive
      cases htype : s.type <;> simp_all
    rcases htype with htype | htype | htype | htype <;> simp [Skynet.sendSocket, htype]

/-! ### The other requests and events -/

/-- `start_socket`. -/
theorem Sound.startSocket (h : s.Sound) (hlive : s.Live) (kernel : Kernel) (owner : ℕ) :
    ∃ message s', startSocket kernel s.id owner s = some (message, s') ∧
      s.Becomes (kernel.added = true) message s' := by
  have hopened : ∀ result ∈ some (⟨.opened, owner, s.id, 0, []⟩ : SocketResult),
      result.id = s.id ∧ result.type ≠ .close := by
    rintro result ⟨⟩
    exact ⟨rfl, fun h ↦ SocketResultType.noConfusion h⟩
  rw [Skynet.startSocket, if_neg (not_or.mpr ⟨hlive.1, not_not.mpr rfl⟩)]
  by_cases hpaused : s.type = .paccept ∨ s.type = .plisten
  · have hidle : ¬s.type.Sends := by
      rcases hpaused with h | h <;> simp [SocketType.Sends, h]
    obtain ⟨hhigh, hlow⟩ := h.idle hidle
    rw [if_pos hpaused]
    by_cases hadded : ¬kernel.added = true
    · obtain ⟨s', hclose, hbecomes⟩ := exists_closeWith s (s.report .error) hlive (Eq.refl s.id) rfl (.inr rfl)
        fun hfaultless ↦ absurd hfaultless hadded
      exact ⟨_, s', (if_pos hadded).trans hclose, hbecomes⟩
    · refine ⟨_, _, if_neg hadded, ?_⟩
      refine Sound.becomes ⟨fun _ ↦ ⟨hhigh, hlow⟩, fun _ ↦ (h.delivers hlive).congr rfl rfl rfl rfl,
        fun _ ↦ h.wbSize hlive, ?_, ?_, fun _ ↦ h.size hlive⟩ rfl ?_ (fun _ ↦ rfl) hopened
      · refine ⟨fun _ ↦ ?_, fun _ ↦ rfl⟩
        rcases hpaused with h | h <;> simp [SocketType.Sends, h]
      · intro hsends hcause
        rcases hpaused with htype | htype
        · -- it has nothing to write
          refine absurd (List.append_eq_nil_iff.mpr ⟨hhigh, hlow⟩) (hcause.resolve_left ?_)
          exact not_not.mpr (if_pos htype)
        · simp [SocketType.Sends, htype] at hsends
      · rcases hpaused with h | h <;> simp [Live, h]
  · rw [if_neg hpaused]
    by_cases hconnected : s.type = .connected
    · refine ⟨_, _, if_pos hconnected, ?_⟩
      exact Sound.becomes ⟨h.idle, fun hlive ↦ (h.delivers hlive).congr rfl rfl rfl rfl, h.wbSize, h.polled,
        h.writeEvent, h.size⟩ rfl hlive (fun hp ↦ hp) hopened
    · exact ⟨none, s, if_neg hconnected, h.becomes rfl hlive (fun hp ↦ hp) not_mem_none_of⟩

/-- `forward_message_tcp`. -/
theorem Sound.forwardMessageTcp (h : s.Sound) (hlive : s.Live) (kernel : Kernel) :
    ∃ message s', forwardMessageTcp kernel s = some (message, s') ∧
      s.Becomes (kernel.read ≠ .failed ∧ kernel.read ≠ .read []) message s' := by
  obtain ⟨k, hsize⟩ := h.size hlive
  have hpos : 0 < s.size := hsize ▸ Nat.mul_pos (by decide) (Nat.two_pow_pos k)
  cases hread : kernel.read with
  | again =>
    exact ⟨none, s, by simp only [Skynet.forwardMessageTcp, hread], h.becomes rfl hlive (fun hp ↦ hp) not_mem_none_of⟩
  | failed =>
    obtain ⟨s', hclose, hbecomes⟩ := exists_closeWith s (s.report .error) hlive (Eq.refl s.id) rfl (.inr rfl)
      fun (hfaultless : ReadResult.failed ≠ .failed ∧ ReadResult.failed ≠ .read []) ↦ absurd rfl hfaultless.1
    exact ⟨_, s', by simp only [Skynet.forwardMessageTcp, hread, hclose], hbecomes⟩
  | read data =>
    simp only [Skynet.forwardMessageTcp, hread]
    by_cases hend : (data.take s.size).length = 0
    · have hnil : data = [] := by
        rw [List.length_take] at hend
        exact List.eq_nil_of_length_eq_zero (by omega)
      obtain ⟨s', hclose, hbecomes⟩ := exists_closeWith s (s.report .close) hlive (Eq.refl s.id) rfl (.inl rfl)
        fun (hfaultless : ReadResult.read data ≠ .failed ∧ ReadResult.read data ≠ .read []) ↦
          absurd (congrArg ReadResult.read hnil) hfaultless.2
      exact ⟨_, s', (if_pos hend).trans hclose, hbecomes⟩
    · rw [if_neg hend]
      by_cases hhalf : s.type = .halfclose
      · exact ⟨none, s, if_pos hhalf, h.becomes rfl hlive (fun hp ↦ hp) not_mem_none_of⟩
      · refine ⟨_, _, if_neg hhalf, ?_⟩
        refine Sound.becomes ⟨h.idle, fun hlive ↦ (h.delivers hlive).congr rfl rfl rfl rfl, h.wbSize, h.polled,
          h.writeEvent, fun _ ↦ ?_⟩ rfl hlive (fun hp ↦ hp) ?_
        · -- the size of the buffer stays a power of two
          simp only
          split
          · exact ⟨k + 1, by rw [hsize, Nat.mul_assoc, ← Nat.pow_succ]⟩
          · split
            · next hlarge =>
              cases k with
              | zero => exact absurd hlarge.1 (by rw [hsize, Nat.pow_zero, Nat.mul_one]; exact Nat.lt_irrefl _)
              | succ k => exact ⟨k, by rw [hsize, Nat.pow_succ, ← Nat.mul_assoc, Nat.mul_div_cancel _ Nat.two_pos]⟩
            · exact ⟨k, hsize⟩
        · rintro result ⟨⟩
          exact ⟨rfl, fun h ↦ SocketResultType.noConfusion h⟩

/-- `report_connect`. -/
theorem Sound.reportConnect (h : s.Sound) (htype : s.type = .connecting) (kernel : Kernel) :
    ∃ message s', reportConnect kernel s = some (message, s') ∧ s.Becomes (kernel.connectError = false) message s' := by
  have hsends : s.type.Sends := .inl htype
  have hlive := live_of_sends hsends
  by_cases herror : kernel.connectError = true
  · obtain ⟨s', hclose, hbecomes⟩ := exists_closeWith s (s.report .error) hlive (Eq.refl s.id) rfl (.inr rfl)
      fun (hfaultless : kernel.connectError = false) ↦
        absurd (herror.symm.trans hfaultless) (fun h ↦ Bool.noConfusion h)
    exact ⟨_, s', (if_pos herror).trans hclose, hbecomes⟩
  · have hopened : ∀ result ∈ some (⟨.opened, s.owner, s.id, 0, []⟩ : SocketResult),
        result.id = s.id ∧ result.type ≠ .close := by
      rintro result ⟨⟩
      exact ⟨rfl, fun h ↦ SocketResultType.noConfusion h⟩
    have hconnected : SocketType.connected.Sends := .inr (.inl rfl)
    refine ⟨_, _, if_neg herror, ?_⟩
    by_cases hempty : s.sendBufferEmpty = true
    · rw [if_pos (show Socket.sendBufferEmpty { s with type := .connected } = true from hempty)]
      refine Sound.becomes ⟨fun hidle ↦ absurd hconnected hidle, fun _ ↦ (h.delivers hlive).congr rfl rfl rfl rfl,
        fun _ ↦ h.wbSize hlive, ⟨fun _ ↦ .inr hconnected, fun _ ↦ h.polled.mpr (.inr hsends)⟩, fun _ hcause ↦ ?_,
        fun _ ↦ h.size hlive⟩ rfl (live_of_sends hconnected) (fun hp ↦ hp) hopened
      exact absurd (List.append_eq_nil_iff.mpr (sendBufferEmpty_iff.mp hempty)) (hcause.resolve_left (not_not.mpr rfl))
    · rw [if_neg (show ¬Socket.sendBufferEmpty { s with type := .connected } = true from hempty)]
      refine Sound.becomes ⟨fun hidle ↦ absurd hconnected hidle, fun _ ↦ (h.delivers hlive).congr rfl rfl rfl rfl,
        fun _ ↦ h.wbSize hlive, ⟨fun _ ↦ .inr hconnected, fun _ ↦ h.polled.mpr (.inr hsends)⟩, fun _ _ ↦ ?_,
        fun _ ↦ h.size hlive⟩ rfl (live_of_sends hconnected) (fun hp ↦ hp) hopened
      exact h.writeEvent hsends (.inl (htype ▸ fun h ↦ SocketType.noConfusion h))

/-! ### Sockets that are opened -/

/-- A new socket. -/
theorem sound_of_new (hlists : s.high = [] ∧ s.low = []) (hwbSize : s.wbSize = 0) (hsize : s.size = minReadBuffer)
    (hfile : s.fd.written = [] ∧ s.fd.accepted = []) (hpolled : s.fd.polled ↔ s.type = .listen ∨ s.type.Sends)
    (hwrite : s.type.Sends → s.type ≠ .connected → s.fd.writeEvent) : s.Sound where
  idle _ := hlists
  delivers _ := by
    refine ⟨[], [], [], ?_, ?_, congrArg List.length hlists.1, ?_, fun _ hmem ↦ absurd hmem List.not_mem_nil,
      fun _ hmem ↦ absurd hmem List.not_mem_nil⟩
    · rw [hfile.2]
      exact .refl []
    · rw [hlists.1, hlists.2, hfile.1]
      exact .nil
    · rw [hlists.2]
      exact fun _ hmem ↦ absurd hmem List.not_mem_nil
  wbSize _ := by
    rw [hwbSize, hlists.1, hlists.2]
    rfl
  polled := hpolled
  writeEvent hsends hcause := by
    refine hwrite hsends (hcause.resolve_right ?_)
    rw [hlists.1, hlists.2]
    exact not_not.mpr rfl
  size _ := ⟨0, by rw [hsize, Nat.pow_zero, Nat.mul_one]⟩

/-- `new_fd` of a slot that is reserved. -/
theorem newFd_eq (htype : s.type = .reserve) (hlists : s.high = [] ∧ s.low = []) (id owner : ℕ) {add added : Bool}
    (hadded : ¬(add = true ∧ ¬added = true)) :
    s.newFd id owner add added = some (true, { s with
      id := id, fd := { File.new with polled := add }, size := minReadBuffer, owner := owner, wbSize := 0 }) := by
  rw [newFd, if_neg (not_not.mpr htype), if_neg hadded, if_pos hlists]

theorem newFd_eq_of_failed (htype : s.type = .reserve) (id owner : ℕ) :
    s.newFd id owner true false = some (false, { s with type := .invalid }) := by
  rw [newFd, if_neg (not_not.mpr htype), if_pos ⟨rfl, Bool.false_ne_true⟩]

theorem not_sends_invalid : ¬SocketType.invalid.Sends := by
  rintro (h | h | h) <;> exact SocketType.noConfusion h

theorem not_sends_reserve : ¬SocketType.reserve.Sends := by
  rintro (h | h | h) <;> exact SocketType.noConfusion h

/-- A slot without a socket. -/
theorem sound_of_unused (htype : s.type = .invalid ∨ s.type = .reserve) (hlists : s.high = [] ∧ s.low = [])
    (hpolled : ¬s.fd.polled = true) : s.Sound := by
  have hsends : ¬s.type.Sends := by
    rcases htype with h | h
    · exact h ▸ not_sends_invalid
    · exact h ▸ not_sends_reserve
  have hlive : ¬s.Live := fun hlive ↦ htype.elim hlive.1 hlive.2
  refine ⟨fun _ ↦ hlists, fun h ↦ absurd h hlive, fun h ↦ absurd h hlive, ⟨fun h ↦ absurd h hpolled, fun h ↦ ?_⟩,
    fun h ↦ absurd h hsends, fun h ↦ absurd h hlive⟩
  rcases h with h | h
  · rcases htype with htype | htype <;> exact SocketType.noConfusion (h.symm.trans htype)
  · exact absurd h hsends

/-- The slot of no socket has nothing. -/
theorem Sound.unused (h : s.Sound) (htype : s.type = .invalid ∨ s.type = .reserve) :
    (s.high = [] ∧ s.low = []) ∧ ¬s.fd.polled = true := by
  have hsends : ¬s.type.Sends := by
    rcases htype with h | h
    · exact h ▸ not_sends_invalid
    · exact h ▸ not_sends_reserve
  refine ⟨h.idle hsends, fun hp ↦ ?_⟩
  rcases h.polled.mp hp with hlisten | h
  · rcases htype with htype | htype <;> exact SocketType.noConfusion (hlisten.symm.trans htype)
  · exact hsends h

/-- A request opens a slot that was reserved for it. -/
theorem Sound.opens (h : s.Sound) (htype : s.type = .reserve) (kernel : Kernel) {request : Request}
    (hopens : request.opens = true) (hid : s.id = request.id) :
    ∃ message s', request.ctrlCmd kernel s = some (message, s') ∧ s.Becomes False message s' := by
  obtain ⟨hlists, hunpolled⟩ := h.unused (.inr htype)
  have hfail : ∀ owner, s.Becomes False (some ⟨.error, owner, s.id, 0, []⟩) { s with type := .invalid } := fun owner ↦ {
    sound := sound_of_unused (.inl rfl) hlists hunpolled
    id := rfl
    reserve := fun h ↦ SocketType.noConfusion h
    polled := fun hp ↦ absurd hp hunpolled
    ids := by
      rintro result ⟨⟩
      rfl
    closed := fun _ ↦ ⟨_, rfl, .inr rfl⟩
    close := by
      rintro result ⟨⟩ h
      exact SocketResultType.noConfusion h
    drained := False.elim }
  cases request with
  | openSocket id owner =>
    change s.id = id at hid
    subst hid
    have hopened : ∀ result ∈ some (⟨.opened, owner, s.id, 0, []⟩ : SocketResult),
        result.id = s.id ∧ result.type ≠ .close := by
      rintro result ⟨⟩
      exact ⟨rfl, fun h ↦ SocketResultType.noConfusion h⟩
    simp only [Request.ctrlCmd, openSocket]
    cases kernel.connect with
    | failed => exact ⟨_, _, rfl, hfail owner⟩
    | connected =>
      cases kernel.added with
      | false =>
        rw [newFd_eq_of_failed htype]
        exact ⟨_, _, rfl, hfail owner⟩
      | true =>
        rw [newFd_eq htype hlists s.id owner fun h ↦ h.2 rfl]
        refine ⟨_, _, rfl, Sound.becomes ?_ rfl ?_ (fun hp ↦ absurd hp hunpolled) hopened⟩
        · exact sound_of_new hlists rfl rfl ⟨rfl, rfl⟩ ⟨fun _ ↦ .inr (.inr (.inl rfl)), fun _ ↦ rfl⟩
            fun _ hconnected ↦ absurd rfl hconnected
        · exact ⟨fun h ↦ SocketType.noConfusion h, fun h ↦ SocketType.noConfusion h⟩
    | inProgress =>
      cases kernel.added with
      | false =>
        rw [newFd_eq_of_failed htype]
        exact ⟨_, _, rfl, hfail owner⟩
      | true =>
        rw [newFd_eq htype hlists s.id owner fun h ↦ h.2 rfl]
        refine ⟨_, _, rfl, Sound.becomes ?_ rfl ?_ (fun hp ↦ absurd hp hunpolled) not_mem_none_of⟩
        · exact sound_of_new hlists rfl rfl ⟨rfl, rfl⟩ ⟨fun _ ↦ .inr (.inl rfl), fun _ ↦ rfl⟩ fun _ _ ↦ rfl
        · exact ⟨fun h ↦ SocketType.noConfusion h, fun h ↦ SocketType.noConfusion h⟩
  | listenSocket id owner =>
    change s.id = id at hid
    subst hid
    simp only [Request.ctrlCmd, listenSocket]
    rw [newFd_eq htype hlists s.id owner fun h ↦ Bool.false_ne_true h.1]
    refine ⟨_, _, rfl, Sound.becomes ?_ rfl ?_ (fun hp ↦ absurd hp hunpolled) not_mem_none_of⟩
    · exact sound_of_new hlists rfl rfl ⟨rfl, rfl⟩ ⟨fun h ↦ absurd h Bool.false_ne_true, by simp [SocketType.Sends]⟩
        fun hsends ↦ by simp [SocketType.Sends] at hsends
    · exact ⟨fun h ↦ SocketType.noConfusion h, fun h ↦ SocketType.noConfusion h⟩
  | startSocket => exact absurd hopens Bool.false_ne_true
  | closeSocket => exact absurd hopens Bool.false_ne_true
  | sendSocket => exact absurd hopens Bool.false_ne_true

/-! ### The other requests on the slot of their id -/

/-- A request for the socket in the slot. -/
theorem Sound.ctrlCmd (h : s.Sound) (hlive : s.Live) (kernel : Kernel) {request : Request}
    (hopens : request.opens = false) (hid : s.id = request.id) :
    ∃ message s', request.ctrlCmd kernel s = some (message, s') ∧
      s.Becomes (request.shutsDown = false ∧ kernel.Faultless) message s' := by
  cases request with
  | openSocket => exact Bool.noConfusion hopens
  | listenSocket => exact Bool.noConfusion hopens
  | startSocket id owner =>
    obtain rfl : s.id = id := hid
    obtain ⟨message, s', hs', hbecomes⟩ := h.startSocket hlive kernel owner
    exact ⟨message, s', hs', { hbecomes with drained := fun hfaultless ↦ hbecomes.drained hfaultless.2.added }⟩
  | closeSocket id shutdown owner =>
    obtain rfl : s.id = id := hid
    obtain ⟨message, s', hs', hbecomes⟩ := h.closeSocket hlive kernel shutdown owner
    exact ⟨message, s', hs', { hbecomes with
      drained := fun hfaultless ↦ hbecomes.drained ⟨hfaultless.1, hfaultless.2.writes⟩ }⟩
  | sendSocket id buffer priority =>
    obtain rfl : s.id = id := hid
    obtain ⟨message, s', hs', hbecomes⟩ := h.sendSocket hlive kernel buffer priority
    exact ⟨message, s', hs', { hbecomes with drained := fun hfaultless ↦ hbecomes.drained hfaultless.2.writes }⟩

/-- A request for a socket that is not in the slot any more. -/
theorem ctrlCmd_of_ne (kernel : Kernel) {request : Request} (hopens : request.opens = false)
    (hne : s.type = .invalid ∨ s.id ≠ request.id) :
    ∃ message, request.ctrlCmd kernel s = some (message, s) ∧
      ∀ result ∈ message, result.id = request.id ∧ (result.type = .close ∨ result.type = .error) := by
  cases request with
  | openSocket => exact Bool.noConfusion hopens
  | listenSocket => exact Bool.noConfusion hopens
  | startSocket id owner =>
    refine ⟨_, if_pos hne, ?_⟩
    rintro result ⟨⟩
    exact ⟨rfl, .inr rfl⟩
  | closeSocket id shutdown owner =>
    refine ⟨_, if_pos hne, ?_⟩
    rintro result ⟨⟩
    exact ⟨rfl, .inl rfl⟩
  | sendSocket id buffer priority => exact ⟨none, if_pos (hne.imp_right .inl), not_mem_none_of⟩

/-- An event of a socket in the poll that is neither connecting nor listening. -/
theorem Sound.sends_of_polled (h : s.Sound) (hpolled : s.fd.polled = true) (hconnecting : s.type ≠ .connecting)
    (hlisten : s.type ≠ .listen) : s.type = .connected ∨ s.type = .halfclose :=
  ((h.polled.mp hpolled).resolve_left hlisten).resolve_left hconnecting

theorem Sound.live_of_polled (h : s.Sound) (hpolled : s.fd.polled = true) : s.Live := by
  rcases h.polled.mp hpolled with hlisten | hsends
  · constructor <;> intro htype <;> exact SocketType.noConfusion (hlisten.symm.trans htype)
  · exact live_of_sends hsends

/-- A kernel that takes everything that is left of a socket. -/
theorem Sound.drains (h : s.Sound) (hsends : s.type.Sends) {writes : List WriteResult}
    (hlength : (s.high ++ s.low).length ≤ writes.length)
    (htakes : ∀ result ∈ writes, ∃ n, result = .wrote n ∧ ∀ wb ∈ s.high ++ s.low, wb.sz ≤ n) :
    ∃ message s', s.sendBuffer writes = some (message, s') ∧ s'.high = [] ∧ s'.low = [] ∧ s'.Drained := by
  have hlive := live_of_sends hsends
  have hsending := (h.sending hlive).sendHigh writes
  rw [List.length_append] at hlength
  obtain ⟨hhigh, hfailed, hrest⟩ : (s.sendHigh writes).1.high = [] ∧ (s.sendHigh writes).2.2 = false ∧
      writes.length ≤ (s.sendHigh writes).2.1.length + s.high.length :=
    sendListTcp_takes (Nat.le_trans (Nat.le_add_right _ _) hlength) fun result hmem ↦ by
      obtain ⟨n, hresult, hn⟩ := htakes result hmem
      exact ⟨n, hresult, fun wb hwb ↦ hn wb (List.mem_append_left _ hwb)⟩
  have hsuffix : (s.sendHigh writes).2.1 <:+ writes := sendListTcp_suffix _ _
  simp only [Socket.sendBuffer, h.listUncomplete_low hlive, hfailed, Bool.false_eq_true, if_false]
  rw [if_pos (List.isEmpty_iff.mpr hhigh)]
  by_cases hlow : s.low = []
  · -- nothing waits in the low list
    rw [if_neg (show ¬¬(s.sendHigh writes).1.low.isEmpty = true from not_not.mpr (List.isEmpty_iff.mpr hlow))]
    have hdrained := hsending.delivers.drained hhigh hlow
    by_cases hhalf : ((s.sendHigh writes).1.spWrite false).type = .halfclose
    · rw [if_pos hhalf, closeWith, forceClose, if_neg (fun h ↦ SocketType.noConfusion (hhalf.symm.trans h)),
        if_neg (fun h ↦ SocketType.noConfusion (hhalf.symm.trans h))]
      exact ⟨_, _, rfl, rfl, rfl, hdrained⟩
    · rw [if_neg hhalf]
      exact ⟨_, _, rfl, hhigh, hlow, hdrained⟩
  · rw [if_pos (show ¬(s.sendHigh writes).1.low.isEmpty = true from fun h ↦ hlow (List.isEmpty_iff.mp h))]
    obtain ⟨hlow', hfailed', -⟩ : ((s.sendHigh writes).1.sendLow (s.sendHigh writes).2.1).1.low = [] ∧
        ((s.sendHigh writes).1.sendLow (s.sendHigh writes).2.1).2.2 = false ∧ _ :=
      sendListTcp_takes (show s.low.length ≤ _ by omega) fun result hmem ↦ by
        obtain ⟨n, hresult, hn⟩ := htakes result (hsuffix.subset hmem)
        exact ⟨n, hresult, fun wb hwb ↦ hn wb (List.mem_append_right _ hwb)⟩
    have hcomplete : listUncomplete ((s.sendHigh writes).1.sendLow (s.sendHigh writes).2.1).1.low = false := by
      rw [hlow']
      rfl
    rw [hfailed', hcomplete]
    exact ⟨_, _, rfl, hhigh, hlow', ((hsending.sendLow hhigh _).1 hcomplete).delivers.drained hhigh hlow'⟩

end Socket

end SvrDemo.Skynet
