import SvrDemo.Base.Pack
import SvrDemo.Protocol.Framing
import SvrDemo.Protocol.Machine

/-!
# Messages on a socket

`simplesocket.lua`, and the same functions of `client.lua`. A message is written with its length in two bytes before
it. The socket takes what is written in parts, and gives what has arrived in pieces, which `socket.read` puts behind
the variable `message` until there is a whole message at its front.

`client.lua` and `agent.lua` leave the parts to the library: their `send_package` calls it once.

`Wire` has both ends: what is left of the package in `socket.write`, the bytes under way, and the variable `message`,
with the messages and the bytes so far for histories.
-/

set_option autoImplicit false
set_option relaxedAutoImplicit false

namespace SvrDemo.Client

open Base Protocol

/-! ### Packages -/

/-- `unpack_package`: the message at the front and the text behind it, or the text. -/
def unpackPackage (text : Bytes) : Option Bytes × Bytes :=
  match text with
  | high :: low :: _ =>
    let s := high.toNat * 256 + low.toNat
    if text.length < s + 2 then (none, text) else (some ((text.drop 2).take s), text.drop (2 + s))
  | _ => (none, text)

/-- `recv_package`, with what `fd:receive` returns if it is called. -/
def recvPackage (last : Bytes) (receive : Option Bytes) : Except String (Option Bytes × Bytes) :=
  match unpackPackage last with
  | (some result, last) => .ok (some result, last)
  | (none, last) =>
    match receive with
    | none => .ok (none, last)
    | some r => if r = [] then .error "Server closed" else .ok (unpackPackage (last ++ r))

/-! ### Both ends -/

/-- The two ends of a socket, and the bytes between them. -/
structure Wire where
  written : List Bytes
  pack : Bytes
  flight : Bytes
  received : Bytes
  message : Bytes
  returned : List Bytes
  deriving DecidableEq

namespace Wire

/-- A socket that has just been connected. -/
def initial : Wire := ⟨[], [], [], [], [], []⟩

/-- `socket.write` begins. A message that is too long raises. -/
def write (self : Wire) (msg : Bytes) : Wire :=
  match packS2 msg with
  | none => self
  | some pack => { self with written := self.written ++ [msg], pack := pack }

/-- `send_package`, of `client.lua` and of `agent.lua`: one call, which takes the whole package. -/
def sendPackage (self : Wire) (pack : Bytes) : Wire :=
  match packS2 pack with
  | none => self
  | some package => { self with written := self.written ++ [pack], flight := self.flight ++ package }

/-- A turn of the loop of `socket.write`: `fd:send` takes some bytes. -/
def send (self : Wire) (bytes : ℕ) : Wire :=
  { self with pack := self.pack.drop bytes, flight := self.flight ++ self.pack.take bytes }

/-- `socket.read`, when `fd:receive` returns up to a number of bytes, or nothing. It is called only when `message`
has no message. What raises leaves `message` as it was. -/
def read (self : Wire) (receive : Option ℕ) : Wire :=
  let piece := receive.map self.flight.take
  let taken := if (unpackPackage self.message).1.isSome then [] else piece.getD []
  match recvPackage self.message piece with
  | .error _ => self
  | .ok (v, message) =>
    { self with
      flight := self.flight.drop taken.length
      received := self.received ++ taken
      message := message
      returned := self.returned ++ v.toList }

/-- `socket.read` while bytes arrive: a piece of at least one byte as long as there are bytes under way. -/
def readNext (self : Wire) (piece : ℕ) : Wire :=
  self.read (if self.flight = [] then none else some (piece + 1))

end Wire

/-- What happens at the ends of a socket. -/
inductive WireEvent
  | write (msg : Bytes)
  | sendPackage (pack : Bytes)
  | send (bytes : ℕ)
  | read (receive : Option ℕ)

/-- The machine of a socket. A message is written after the loop of the one before it, which goes on until nothing is
left of the package. -/
def wire : Machine Wire WireEvent where
  step self event :=
    match event with
    | .write msg => if self.pack = [] then some (self.write msg) else none
    | .sendPackage pack => if self.pack = [] then some (self.sendPackage pack) else none
    | .send bytes => if self.pack = [] then none else some (self.send bytes)
    | .read receive => some (self.read receive)

/-! ### The framing -/

theorem unpackPackage_append {text frame : Bytes} (hpack : packS2 text = some frame) (rest : Bytes) :
    unpackPackage (frame ++ rest) = (some text, rest) := by
  rw [packS2, Option.ite_none_right_eq_some] at hpack
  obtain ⟨hlength, hframe⟩ := hpack
  obtain rfl := Option.some.inj hframe
  have hhigh : (UInt8.ofNat (text.length / 256)).toNat = text.length / 256 :=
    UInt8.toNat_ofNat_of_lt (by change _ < 256; omega)
  have hlow : (UInt8.ofNat (text.length % 256)).toNat = text.length % 256 :=
    UInt8.toNat_ofNat_of_lt (Nat.mod_lt _ (by decide))
  have hsize : text.length / 256 * 256 + text.length % 256 = text.length := Nat.div_add_mod' _ _
  rw [List.cons_append, List.cons_append, unpackPackage]
  simp only [hhigh, hlow, hsize]
  rw [if_neg (by simp)]
  simp [Nat.add_comm 2, List.drop_append]

theorem exists_frame_of_unpackPackage {text message rest : Bytes}
    (hunpack : unpackPackage text = (some message, rest)) :
    ∃ frame, packS2 message = some frame ∧ frame ++ rest = text := by
  unfold unpackPackage at hunpack
  split at hunpack
  · next high low tail =>
    dsimp only at hunpack
    split at hunpack
    · exact nomatch hunpack
    · next hlong =>
      obtain ⟨hmessage, rfl⟩ := Prod.mk.inj hunpack
      obtain rfl := Option.some.inj hmessage
      have hhigh := high.toNat_lt
      have hlow := low.toNat_lt
      have hlength : (((high :: low :: tail).drop 2).take (high.toNat * 256 + low.toNat)).length =
          high.toNat * 256 + low.toNat := by
        rw [List.length_take, List.length_drop]
        omega
      have hfirst : (high.toNat * 256 + low.toNat) / 256 = high.toNat := by omega
      have hsecond : (high.toNat * 256 + low.toNat) % 256 = low.toNat := by omega
      refine ⟨_, if_pos (by omega), ?_⟩
      rw [hlength, hfirst, hsecond, UInt8.ofNat_toNat, UInt8.ofNat_toNat]
      simp [Nat.add_comm 2, List.take_append_drop]
  · exact nomatch hunpack

/-- Messages with their length in two bytes before them. -/
def s2 : Framing Bytes UInt8 where
  pack := packS2
  unpack text := match unpackPackage text with
    | (some message, rest) => some (message, rest)
    | (none, _) => none
  unpack_nil := rfl
  unpack_pack hpack rest := by rw [unpackPackage_append hpack]
  pack_unpack {text message rest} hunpack := by
    cases hfound : unpackPackage text with
    | mk found behind =>
      cases found with
      | none => simp [hfound] at hunpack
      | some found =>
        rw [hfound] at hunpack
        obtain ⟨rfl, rfl⟩ := Prod.mk.inj (Option.some.inj hunpack)
        exact exists_frame_of_unpackPackage hfound

theorem unpackPackage_eq (text : Bytes) : unpackPackage text =
    match s2.unpack text with
    | some (message, rest) => (some message, rest)
    | none => (none, text) := by
  have hkept : (unpackPackage text).1 = none → unpackPackage text = (none, text) := by
    unfold unpackPackage
    split
    · dsimp only
      split
      · exact fun _ ↦ rfl
      · exact fun hnone ↦ nomatch hnone
    · exact fun _ ↦ rfl
  cases hfound : unpackPackage text with
  | mk found rest =>
    cases found with
    | some message => simp [s2, hfound]
    | none =>
      rw [hfound] at hkept
      simpa [s2, hfound] using hkept rfl

/-- `recv_package` reads from the stream of packages, unless it finds the socket closed. -/
theorem recvPackage_eq (last : Bytes) (receive : Option Bytes) : recvPackage last receive =
    if s2.unpack last = none ∧ receive = some [] then .error "Server closed" else .ok (s2.recv last receive) := by
  rw [recvPackage, unpackPackage_eq, Framing.recv]
  cases hlast : s2.unpack last with
  | some found => simp
  | none =>
    cases receive with
    | none => simp [hlast]
    | some r =>
      by_cases hclosed : r = []
      · simp [hclosed]
      · dsimp only
        rw [if_neg hclosed, if_neg (fun h ↦ hclosed (Option.some.inj h.2)), unpackPackage_eq]
        rw [Option.getD_some]
        cases s2.unpack (last ++ r) <;> rfl

end SvrDemo.Client
