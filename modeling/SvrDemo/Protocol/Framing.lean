import Mathlib.Data.List.Basic
import Mathlib.Tactic.Common

/-!
# Messages in a stream

A framing packs messages, not always all of them, so that they can be found again at the front of a stream. Then the
frames of a list of messages determine the list, also when they are cut off anywhere (`exists_rest_of_frames`), and a
message is found at the front of the frames exactly when there is one (`unpack_frames`).

`Framing.recv` reads from a stream that arrives in pieces: it looks for a message in what it has kept, takes one more
piece if there is none, and looks again. What it has given back and what it keeps is what has arrived (`recv_cases`).
-/

set_option autoImplicit false
set_option relaxedAutoImplicit false

namespace SvrDemo.Protocol

variable {α β : Type}

/-- How messages are packed, and found again at the front of a stream with what follows them. -/
structure Framing (α β : Type) where
  pack : α → Option (List β)
  unpack : List β → Option (α × List β)
  unpack_nil : unpack [] = none
  unpack_pack : ∀ {message frame}, pack message = some frame → ∀ rest,
    unpack (frame ++ rest) = some (message, rest)
  pack_unpack : ∀ {text message rest}, unpack text = some (message, rest) →
    ∃ frame, pack message = some frame ∧ frame ++ rest = text

namespace Framing

variable (F : Framing α β) {message : α} {messages first second : List α} {text rest frame : List β}

/-- The frames of a list of messages. -/
def frames (messages : List α) : List β := messages.flatMap fun message ↦ (F.pack message).getD []

/-- All the messages have frames. -/
def Packed (messages : List α) : Prop := ∀ message ∈ messages, (F.pack message).isSome

variable {F}

@[simp]
theorem frames_nil : F.frames [] = [] := rfl

theorem frames_append (first second : List α) : F.frames (first ++ second) = F.frames first ++ F.frames second :=
  List.flatMap_append

theorem frames_cons (hpack : F.pack message = some frame) (messages : List α) :
    F.frames (message :: messages) = frame ++ F.frames messages := by
  rw [frames, List.flatMap_cons, hpack]
  rfl

theorem frames_concat (hpack : F.pack message = some frame) (messages : List α) :
    F.frames (messages ++ [message]) = F.frames messages ++ frame := by
  rw [frames_append, frames_cons hpack, frames_nil, List.append_nil]

/-- The first message of the frames, with the frames of the others. -/
theorem unpack_frames (hpacked : F.Packed (message :: messages)) (rest : List β) :
    F.unpack (F.frames (message :: messages) ++ rest) = some (message, F.frames messages ++ rest) := by
  obtain ⟨frame, hframe⟩ := Option.isSome_iff_exists.mp (hpacked message List.mem_cons_self)
  rw [frames_cons hframe, List.append_assoc, F.unpack_pack hframe]

/-- Frames that begin with the frames of a list are those of a list that begins with it. -/
theorem exists_rest_of_frames (hfirst : F.Packed first) (hsecond : F.Packed second)
    (hsplit : F.frames first ++ text = F.frames second) : ∃ rest, second = first ++ rest ∧ text = F.frames rest := by
  induction first generalizing second with
  | nil => exact ⟨second, rfl, hsplit⟩
  | cons message first ih =>
    have hfound := unpack_frames hfirst text
    rw [hsplit] at hfound
    cases second with
    | nil =>
      rw [frames_nil, F.unpack_nil] at hfound
      exact nomatch hfound
    | cons other second =>
      have hother := unpack_frames hsecond []
      rw [List.append_nil, List.append_nil, hfound] at hother
      obtain ⟨rfl, htext⟩ := Prod.mk.inj (Option.some.inj hother)
      obtain ⟨rest, rfl, hrest⟩ := ih (fun other hother ↦ hfirst other (List.mem_cons_of_mem _ hother))
        (fun other hother ↦ hsecond other (List.mem_cons_of_mem _ hother)) htext
      exact ⟨rest, rfl, hrest⟩

/-- There is nothing more when no message is found at the front of whole frames. -/
theorem eq_nil_of_unpack_frames (hpacked : F.Packed messages) (hnone : F.unpack (F.frames messages) = none) :
    messages = [] := by
  cases messages with
  | nil => rfl
  | cons message messages =>
    have hfound := unpack_frames hpacked []
    rw [List.append_nil, hnone] at hfound
    exact nomatch hfound

/-! ### Pieces -/

variable (F)

/-- Look for a message in what was kept, and again after another piece if there is one. -/
def recv (kept : List β) (piece : Option (List β)) : Option α × List β :=
  match F.unpack kept with
  | some (message, rest) => (some message, rest)
  | none =>
    match F.unpack (kept ++ piece.getD []) with
    | some (message, rest) => (some message, rest)
    | none => (none, kept ++ piece.getD [])

variable {F}

/-- A piece is taken when what was kept has no message. What is given back and kept is what was kept and taken, and
without a message there is none in what is kept. -/
theorem recv_cases (kept : List β) (piece : Option (List β)) :
    ∃ taken, taken = (if (F.unpack kept).isSome then [] else piece.getD []) ∧
      ((∃ message frame rest, F.recv kept piece = (some message, rest) ∧ F.pack message = some frame ∧
          frame ++ rest = kept ++ taken) ∨
        F.recv kept piece = (none, kept ++ taken) ∧ F.unpack (kept ++ taken) = none) := by
  refine ⟨_, rfl, ?_⟩
  unfold recv
  cases hkept : F.unpack kept with
  | some found =>
    obtain ⟨message, rest⟩ := found
    obtain ⟨frame, hframe, hsplit⟩ := F.pack_unpack hkept
    exact .inl ⟨message, frame, rest, rfl, hframe, by simpa using hsplit⟩
  | none =>
    cases hmore : F.unpack (kept ++ piece.getD []) with
    | some found =>
      obtain ⟨message, rest⟩ := found
      obtain ⟨frame, hframe, hsplit⟩ := F.pack_unpack hmore
      exact .inl ⟨message, frame, rest, rfl, hframe, by simpa using hsplit⟩
    | none => exact .inr ⟨rfl, by simpa using hmore⟩

/-! ### All the messages -/

variable (F)

/-- The messages at the front of a text, but no more than some number, with what is behind them. -/
def splitMost : ℕ → List β → List α × List β
  | 0, text => ([], text)
  | most + 1, text =>
    match F.unpack text with
    | some (message, rest) => (message :: (splitMost most rest).1, (splitMost most rest).2)
    | none => ([], text)

/-- All the messages at the front of a text, with what is behind them. -/
def split (text : List β) : List α × List β := F.splitMost text.length text

variable {F}

theorem frame_ne_nil (hpack : F.pack message = some frame) : frame ≠ [] := by
  rintro rfl
  have hfound := F.unpack_pack hpack []
  rw [List.append_nil, F.unpack_nil] at hfound
  exact absurd hfound.symm (Option.some_ne_none _)

theorem length_le_length_frames (hpacked : F.Packed messages) : messages.length ≤ (F.frames messages).length := by
  induction messages with
  | nil => exact Nat.le_refl _
  | cons message messages ih =>
    obtain ⟨frame, hframe⟩ := Option.isSome_iff_exists.mp (hpacked message List.mem_cons_self)
    have hpos := List.length_pos_iff.mpr (frame_ne_nil hframe)
    have hrest := ih fun other hother ↦ hpacked other (List.mem_cons_of_mem _ hother)
    rw [frames_cons hframe, List.length_append, List.length_cons]
    omega

theorem splitMost_frames (hpacked : F.Packed messages) (hnone : F.unpack rest = none) {most : ℕ}
    (hmost : messages.length ≤ most) : F.splitMost most (F.frames messages ++ rest) = (messages, rest) := by
  induction messages generalizing most with
  | nil =>
    cases most with
    | zero => rfl
    | succ most => simp [splitMost, hnone]
  | cons message messages ih =>
    obtain ⟨most, rfl⟩ := Nat.exists_eq_succ_of_ne_zero (Nat.ne_of_gt (Nat.lt_of_lt_of_le (Nat.succ_pos _) hmost))
    rw [splitMost, unpack_frames hpacked rest]
    dsimp only
    rw [ih (fun other hother ↦ hpacked other (List.mem_cons_of_mem _ hother)) (Nat.le_of_succ_le_succ hmost)]

/-- A text is the frames of its messages and a text without a message, in one way only. -/
theorem split_frames (hpacked : F.Packed messages) (hnone : F.unpack rest = none) :
    F.split (F.frames messages ++ rest) = (messages, rest) := by
  refine splitMost_frames hpacked hnone ?_
  rw [List.length_append]
  exact Nat.le_add_right_of_le (length_le_length_frames hpacked)

theorem splitMost_spec {most : ℕ} (hmost : text.length ≤ most) : F.Packed (F.splitMost most text).1 ∧
    F.frames (F.splitMost most text).1 ++ (F.splitMost most text).2 = text ∧
      F.unpack (F.splitMost most text).2 = none := by
  induction most generalizing text with
  | zero =>
    obtain rfl := List.eq_nil_of_length_eq_zero (Nat.le_zero.mp hmost)
    exact ⟨List.forall_mem_nil _, rfl, F.unpack_nil⟩
  | succ most ih =>
    rw [splitMost]
    cases hunpack : F.unpack text with
    | none => exact ⟨List.forall_mem_nil _, rfl, hunpack⟩
    | some found =>
      obtain ⟨message, rest⟩ := found
      obtain ⟨frame, hframe, rfl⟩ := F.pack_unpack hunpack
      have hpos := List.length_pos_iff.mpr (frame_ne_nil hframe)
      rw [List.length_append] at hmost
      obtain ⟨hpacked, hframes, hnone⟩ := ih (show rest.length ≤ most by omega)
      refine ⟨List.forall_mem_cons.mpr ⟨Option.isSome_iff_exists.mpr ⟨frame, hframe⟩, hpacked⟩, ?_, hnone⟩
      dsimp only
      rw [frames_cons hframe, List.append_assoc, hframes]

theorem packed_split (text : List β) : F.Packed (F.split text).1 := (splitMost_spec (Nat.le_refl _)).1

theorem frames_split (text : List β) : F.frames (F.split text).1 ++ (F.split text).2 = text :=
  (splitMost_spec (Nat.le_refl _)).2.1

theorem unpack_split (text : List β) : F.unpack (F.split text).2 = none := (splitMost_spec (Nat.le_refl _)).2.2

theorem split_of_unpack_none (hnone : F.unpack text = none) : F.split text = ([], text) :=
  split_frames (show F.Packed [] from List.forall_mem_nil _) hnone

theorem split_of_unpack_some (hunpack : F.unpack text = some (message, rest)) :
    F.split text = (message :: (F.split rest).1, (F.split rest).2) := by
  obtain ⟨frame, hframe, rfl⟩ := F.pack_unpack hunpack
  have hpacked : F.Packed (message :: (F.split rest).1) :=
    List.forall_mem_cons.mpr ⟨Option.isSome_iff_exists.mpr ⟨frame, hframe⟩, packed_split rest⟩
  rw [← split_frames hpacked (unpack_split rest), frames_cons hframe, List.append_assoc, frames_split]

/-- What follows is behind the messages that were there. -/
theorem split_append (text more : List β) : F.split (text ++ more) =
    ((F.split text).1 ++ (F.split ((F.split text).2 ++ more)).1, (F.split ((F.split text).2 ++ more)).2) := by
  have hpacked : F.Packed ((F.split text).1 ++ (F.split ((F.split text).2 ++ more)).1) :=
    List.forall_mem_append.mpr ⟨packed_split _, packed_split _⟩
  rw [← split_frames hpacked (unpack_split _), frames_append, List.append_assoc, frames_split, ← List.append_assoc,
    frames_split]

end Framing

end SvrDemo.Protocol
