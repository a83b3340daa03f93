import SvrDemo.Client.SimpleSocket

/-!
# What is written is read

Whatever parts the packages are sent in and whatever pieces arrive, what has arrived is the packages of the messages
that were returned and the variable `message` behind them (`Framed.pending`), and what has arrived, is under way or is
left of the package is the packages of the messages that were written (`Framed.stream`). So the messages returned are
the first of those written. Every read while bytes are under way takes some of them or returns a message, which
brings the reads to an end (`Framed.measure_readNext`).
-/

set_option autoImplicit false
set_option relaxedAutoImplicit false

namespace SvrDemo.Client

open Base Protocol

namespace Wire

variable {state next : Wire}

/-- The bytes that a read takes: none when `message` has a message. -/
def taken (state : Wire) (receive : Option ℕ) : Bytes :=
  if (s2.unpack state.message).isSome then [] else (receive.map state.flight.take).getD []

/-- What is written, what is read, and the bytes between them fit together. -/
structure Framed (state : Wire) : Prop where
  writes : s2.Packed state.written
  returns : s2.Packed state.returned
  pending : s2.frames state.returned ++ state.message = state.received
  stream : state.received ++ state.flight ++ state.pack = s2.frames state.written

theorem framed_initial : initial.Framed where
  writes := List.forall_mem_nil _
  returns := List.forall_mem_nil _
  pending := rfl
  stream := rfl

/-- Another message with a frame keeps the messages packed. -/
theorem packed_concat {messages : List Bytes} {msg frame : Bytes} (hpacked : s2.Packed messages)
    (hpack : packS2 msg = some frame) : s2.Packed (messages ++ [msg]) := by
  intro message hmem
  rcases List.mem_append.mp hmem with hbefore | hlast
  · exact hpacked message hbefore
  · obtain rfl := List.mem_singleton.mp hlast
    exact Option.isSome_iff_exists.mpr ⟨frame, hpack⟩

theorem packS2_isSome_iff (text : Bytes) : (packS2 text).isSome ↔ text.length ≤ 65535 := by
  rw [packS2, Option.isSome_ite]
  exact Nat.lt_succ_iff

/-! ### Writing -/

theorem write_written (state : Wire) {msg : Bytes} (hlength : msg.length ≤ 65535) :
    (state.write msg).written = state.written ++ [msg] := by
  obtain ⟨pack, hpack⟩ := Option.isSome_iff_exists.mp ((packS2_isSome_iff msg).mpr hlength)
  rw [write, hpack]

theorem sendPackage_written (state : Wire) {pack : Bytes} (hlength : pack.length ≤ 65535) :
    (state.sendPackage pack).written = state.written ++ [pack] := by
  obtain ⟨package, hpackage⟩ := Option.isSome_iff_exists.mp ((packS2_isSome_iff pack).mpr hlength)
  rw [sendPackage, hpackage]

theorem Framed.write (hframed : state.Framed) (hidle : state.pack = []) (msg : Bytes) : (state.write msg).Framed := by
  unfold Wire.write
  cases hpack : packS2 msg with
  | none => exact hframed
  | some pack =>
    have hstream := hframed.stream
    rw [hidle, List.append_nil] at hstream
    exact {
      writes := packed_concat hframed.writes hpack
      returns := hframed.returns
      pending := hframed.pending
      stream := by
        change state.received ++ state.flight ++ pack = s2.frames (state.written ++ [msg])
        rw [hstream, Framing.frames_concat hpack] }

theorem Framed.sendPackage (hframed : state.Framed) (hidle : state.pack = []) (pack : Bytes) :
    (state.sendPackage pack).Framed := by
  unfold Wire.sendPackage
  cases hpack : packS2 pack with
  | none => exact hframed
  | some package =>
    have hstream := hframed.stream
    rw [hidle, List.append_nil] at hstream
    exact {
      writes := packed_concat hframed.writes hpack
      returns := hframed.returns
      pending := hframed.pending
      stream := by
        change state.received ++ (state.flight ++ package) ++ state.pack = s2.frames (state.written ++ [pack])
        rw [hidle, List.append_nil, ← List.append_assoc, hstream, Framing.frames_concat hpack] }

theorem Framed.send (hframed : state.Framed) (bytes : ℕ) : (state.send bytes).Framed where
  writes := hframed.writes
  returns := hframed.returns
  pending := hframed.pending
  stream := by
    change state.received ++ (state.flight ++ state.pack.take bytes) ++ state.pack.drop bytes = _
    rw [← List.append_assoc, List.append_assoc _ (state.pack.take bytes), List.take_append_drop]
    exact hframed.stream

/-! ### Reading -/

/-- What a read does: it takes bytes behind `message`, and gives back the message at its front if there is one. -/
theorem read_cases (state : Wire) (receive : Option ℕ) :
    (state.read receive).written = state.written ∧ (state.read receive).pack = state.pack ∧
      state.taken receive ++ (state.read receive).flight = state.flight ∧
      (state.read receive).received = state.received ++ state.taken receive ∧
      ((∃ v frame, packS2 v = some frame ∧ (state.read receive).returned = state.returned ++ [v] ∧
          frame ++ (state.read receive).message = state.message ++ state.taken receive) ∨
        (state.read receive).returned = state.returned ∧
          (state.read receive).message = state.message ++ state.taken receive ∧
          s2.unpack (state.message ++ state.taken receive) = none) := by
  have hfirst : (unpackPackage state.message).1.isSome = (s2.unpack state.message).isSome := by
    rw [unpackPackage_eq]
    cases s2.unpack state.message <;> rfl
  have hsplit : state.taken receive ++ state.flight.drop (state.taken receive).length = state.flight := by
    unfold taken
    split
    · rfl
    · cases receive with
      | none => rfl
      | some bytes =>
        change state.flight.take bytes ++ state.flight.drop (state.flight.take bytes).length = state.flight
        rw [List.length_take, ← List.drop_eq_drop_min]
        exact List.take_append_drop _ _
  by_cases hclosed : s2.unpack state.message = none ∧ receive.map state.flight.take = some []
  · have hread : state.read receive = state := by
      unfold read
      dsimp only
      rw [recvPackage_eq, if_pos hclosed]
    have htaken : state.taken receive = [] := by
      rw [taken, hclosed.2]
      exact ite_self _
    rw [hread, htaken, List.append_nil, List.append_nil]
    exact ⟨rfl, rfl, rfl, rfl, .inr ⟨rfl, rfl, hclosed.1⟩⟩
  · obtain ⟨_, rfl, hcases⟩ := Framing.recv_cases (F := s2) state.message (receive.map state.flight.take)
    change (∃ v frame rest, _ = _ ∧ _ ∧ frame ++ rest = state.message ++ state.taken receive) ∨
      _ = (none, state.message ++ state.taken receive) ∧ _ at hcases
    have hread : state.read receive = { state with
        flight := state.flight.drop (state.taken receive).length
        received := state.received ++ state.taken receive
        message := (s2.recv state.message (receive.map state.flight.take)).2
        returned := state.returned ++ (s2.recv state.message (receive.map state.flight.take)).1.toList } := by
      unfold read
      dsimp only
      rw [recvPackage_eq, if_neg hclosed, hfirst]
      rfl
    rw [hread]
    refine ⟨rfl, rfl, hsplit, rfl, ?_⟩
    rcases hcases with ⟨v, frame, rest, hrecv, hframe, hmessage⟩ | ⟨hrecv, hnone⟩
    · exact .inl ⟨v, frame, hframe, by rw [hrecv]; rfl, by rw [hrecv]; exact hmessage⟩
    · exact .inr ⟨by rw [hrecv]; exact List.append_nil _, by rw [hrecv], hnone⟩

theorem Framed.read (hframed : state.Framed) (receive : Option ℕ) : (state.read receive).Framed := by
  obtain ⟨hwritten, hpack, hflight, hreceived, hcases⟩ := state.read_cases receive
  have hstream : (state.read receive).received ++ (state.read receive).flight ++ (state.read receive).pack =
      s2.frames (state.read receive).written := by
    rw [hwritten, hpack, hreceived, List.append_assoc state.received, hflight]
    exact hframed.stream
  have hwrites : s2.Packed (state.read receive).written := hwritten ▸ hframed.writes
  rcases hcases with ⟨v, frame, hframe, hreturned, hmessage⟩ | ⟨hreturned, hmessage, _⟩
  · refine ⟨hwrites, hreturned ▸ packed_concat hframed.returns hframe, ?_, hstream⟩
    rw [hreturned, Framing.frames_concat hframe, List.append_assoc, hmessage, hreceived, ← List.append_assoc,
      hframed.pending]
  · refine ⟨hwrites, hreturned ▸ hframed.returns, ?_, hstream⟩
    rw [hreturned, hmessage, hreceived, ← List.append_assoc, hframed.pending]

theorem Framed.step (hframed : state.Framed) {event : WireEvent} (hstep : wire.step state event = some next) :
    next.Framed := by
  cases event with
  | write msg =>
    obtain ⟨hidle, hnext⟩ := Option.ite_none_right_eq_some.mp hstep
    exact Option.some.inj hnext ▸ hframed.write hidle msg
  | sendPackage pack =>
    obtain ⟨hidle, hnext⟩ := Option.ite_none_right_eq_some.mp hstep
    exact Option.some.inj hnext ▸ hframed.sendPackage hidle pack
  | send bytes =>
    obtain ⟨_, hnext⟩ := Option.ite_none_left_eq_some.mp hstep
    exact Option.some.inj hnext ▸ hframed.send bytes
  | read receive => exact Option.some.inj hstep ▸ hframed.read receive

/-! ### What the reads return -/

/-- The messages returned are the first of those written, and the frames of the others are waiting, under way or
left. -/
theorem Framed.exists_rest (hframed : state.Framed) : ∃ rest, state.written = state.returned ++ rest ∧
    state.message ++ state.flight ++ state.pack = s2.frames rest := by
  refine Framing.exists_rest_of_frames hframed.returns hframed.writes ?_
  rw [← hframed.stream, ← hframed.pending]
  simp only [List.append_assoc]

theorem Framed.returned_length_le (hframed : state.Framed) : state.returned.length ≤ state.written.length := by
  obtain ⟨rest, hwritten, _⟩ := hframed.exists_rest
  rw [hwritten, List.length_append]
  exact Nat.le_add_right _ _

/-- The bytes under way and the messages not yet returned. -/
def measure (state : Wire) : ℕ := state.flight.length + (state.written.length - state.returned.length)

/-- A read while bytes arrive takes a byte or returns a message, until there are none. -/
theorem Framed.measure_readNext (hframed : state.Framed) (hidle : state.pack = []) (piece : ℕ) :
    (state.readNext piece).measure ≤ state.measure - 1 := by
  have hnext : (state.readNext piece).Framed := hframed.read _
  have hbound := hnext.returned_length_le
  unfold readNext at hnext hbound ⊢
  generalize hreceive : (if state.flight = [] then none else some (piece + 1)) = receive at hnext hbound ⊢
  obtain ⟨hwritten, _, hflight, _, hcases⟩ := state.read_cases receive
  have hlength := congrArg List.length hflight
  rw [List.length_append] at hlength
  rw [hwritten] at hbound
  unfold measure
  rw [hwritten]
  rcases hcases with ⟨v, _, _, hreturned, _⟩ | ⟨hreturned, _, hnone⟩
  · rw [hreturned, List.length_append, List.length_singleton] at hbound ⊢
    omega
  · rw [hreturned]
    by_cases hempty : state.flight = []
    · -- nothing is under way, and `message` is whole frames without a message at their front
      obtain ⟨rest, hrest, hframes⟩ := hframed.exists_rest
      rw [if_pos hempty] at hreceive
      have htaken : state.taken receive = [] := by
        rw [taken, ← hreceive]
        exact ite_self _
      rw [htaken, List.append_nil] at hnone
      rw [hidle, hempty, List.append_nil, List.append_nil] at hframes
      have hnil : rest = [] := by
        refine Framing.eq_nil_of_unpack_frames (F := s2) (fun message hmem ↦ ?_) (hframes ▸ hnone)
        exact hframed.writes message (hrest ▸ List.mem_append_right _ hmem)
      rw [hempty, List.length_nil] at hlength
      rw [hrest, hnil, List.append_nil, Nat.sub_self]
      omega
    · have hmessage : s2.unpack state.message = none := by
        by_contra hsome
        have htaken : state.taken receive = [] := if_pos (Option.isSome_iff_ne_none.mpr hsome)
        rw [htaken, List.append_nil] at hnone
        exact hsome hnone
      have htaken : state.taken receive = state.flight.take (piece + 1) := by
        rw [taken, hmessage, ← hreceive, if_neg hempty]
        rfl
      have hpositive := List.length_pos_of_ne_nil hempty
      rw [htaken, List.length_take] at hlength
      omega

/-- When all has been sent, enough reads return every message that was written, and nothing is left. -/
theorem Framed.foldl_readNext (hframed : state.Framed) (hidle : state.pack = []) {pieces : List ℕ}
    (henough : state.measure ≤ pieces.length) : (pieces.foldl readNext state).returned = state.written ∧
      (pieces.foldl readNext state).message = [] := by
  induction pieces generalizing state with
  | nil =>
    obtain ⟨rest, hwritten, hframes⟩ := hframed.exists_rest
    rw [measure, hwritten, List.length_append, List.length_nil] at henough
    have hflight : state.flight = [] := List.eq_nil_of_length_eq_zero (by omega)
    have hrest : rest = [] := List.eq_nil_of_length_eq_zero (by omega)
    rw [hidle, hflight, hrest, List.append_nil, List.append_nil] at hframes
    exact ⟨by rw [hwritten, hrest, List.append_nil]; rfl, hframes⟩
  | cons piece pieces ih =>
    have hless := hframed.measure_readNext hidle piece
    rw [List.length_cons] at henough
    obtain ⟨hwritten, hpack, _⟩ := state.read_cases (if state.flight = [] then none else some (piece + 1))
    rw [List.foldl_cons, ← hwritten]
    exact ih (hframed.read _) (hpack.trans hidle) (by omega)

end Wire

/-- Every message of at most 65535 bytes is written. The messages returned are the first of those written, what has
arrived is their packages and the text of `message`, and a read that returns nothing puts what it takes behind that
text, which has no message at its front. When all has been sent, enough reads return all messages. -/
theorem written_messages_returned {last : Wire} (hrun : wire.Run (fun _ _ ↦ True) Wire.initial last) :
    (∀ msg ∈ last.written, msg.length ≤ 65535) ∧
    (∀ msg : Bytes, msg.length ≤ 65535 → (last.write msg).written = last.written ++ [msg] ∧
      (last.sendPackage msg).written = last.written ++ [msg]) ∧
    last.received ++ last.flight ++ last.pack = s2.frames last.written ∧
    s2.frames last.returned ++ last.message = last.received ∧
    last.returned <+: last.written ∧
    (∀ receive, (last.read receive).returned = last.returned →
      (last.read receive).message = last.message ++ last.taken receive ∧
        unpackPackage (last.read receive).message = (none, (last.read receive).message)) ∧
    (last.pack = [] → ∀ pieces : List ℕ, last.measure ≤ pieces.length →
      (pieces.foldl Wire.readNext last).returned = last.written ∧ (pieces.foldl Wire.readNext last).message = []) := by
  have hframed : last.Framed := hrun.invariant (I := Wire.Framed)
    (fun _ _ _ _ hbefore hstep ↦ hbefore.step hstep) Wire.framed_initial
  refine ⟨fun msg hmem ↦ (Wire.packS2_isSome_iff msg).mp (hframed.writes msg hmem),
    fun msg hlength ↦ ⟨last.write_written hlength, last.sendPackage_written hlength⟩,
    hframed.stream, hframed.pending, ?_, ?_, fun hidle pieces henough ↦ hframed.foldl_readNext hidle henough⟩
  · obtain ⟨rest, hwritten, _⟩ := hframed.exists_rest
    exact ⟨rest, hwritten.symm⟩
  · intro receive hnothing
    obtain ⟨_, _, _, _, hcases⟩ := last.read_cases receive
    rcases hcases with ⟨v, _, _, hreturned, _⟩ | ⟨_, hmessage, hnone⟩
    · have hlength := congrArg List.length (hnothing.symm.trans hreturned)
      rw [List.length_append, List.length_singleton] at hlength
      omega
    · refine ⟨hmessage, ?_⟩
      rw [unpackPackage_eq, hmessage, hnone]

/-- Two messages, the second one empty, in parts that split the lengths. -/
theorem written_messages_returned_split : ∃ last, wire.Run (fun _ _ ↦ True) Wire.initial last ∧
    last.written = [[104, 105], []] ∧ last.returned = [[104, 105]] ∧ last.message = [0] ∧
      ([0, 0].foldl Wire.readNext last).returned = [[104, 105], []] := by
  have hplay : (wire.playMeeting (fun _ _ ↦ True) Wire.initial
      [.write [104, 105], .send 1, .read (some 1), .read none, .send 2, .read (some 1), .send 9, .write [], .send 2,
        .read (some 3)]).map id = some ⟨[[104, 105], []], [], [0], [0, 2, 104, 105, 0], [0], [[104, 105]]⟩ := rfl
  obtain ⟨last, hrun, rfl⟩ := Machine.exists_run_of_playMeeting _ _ _ _ _ hplay
  refine ⟨_, hrun, rfl, rfl, rfl, ?_⟩
  exact ((written_messages_returned hrun).2.2.2.2.2.2 rfl [0, 0] (by decide)).1

end SvrDemo.Client
