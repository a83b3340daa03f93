import SvrDemo.Base.BigNumber
import Mathlib.Data.Finmap

/-!
# The host of sproto

`host:attach` and `host:dispatch` of `sproto.lua`. A host has two protocols: the messages that it dispatches, and the
ones that the attached function makes. A request with a session leaves the type of its response in `__session`, and
a response takes it out again.

The codec in C is a parameter, `Core`: it has the types by their numbers and raises when it cannot encode or decode.
-/

set_option autoImplicit false
set_option relaxedAutoImplicit false

namespace SvrDemo.Sproto

open Base

/-- What `queryproto` returns: the types of a request and of its response, where the protocol has them. -/
structure Proto where
  name : String
  tag : ℕ
  request : Option ℕ
  response : Option ℕ

/-- The type `package` of `game_proto`. -/
structure Header where
  type : Option ℕ
  session : Option ℤ

/-- The codec, with the protocols that the host has and that it is attached to. -/
structure Core (Args : Type) where
  received : ℕ → Option Proto
  attached : String → Option Proto
  encodeHeader : Header → Bytes
  decodeHeader : Bytes → Except String (Header × ℕ)
  encode : Option ℕ → Args → Except String Bytes
  decode : ℕ → Bytes → Except String Args
  pack : Bytes → Bytes
  unpack : Bytes → Except String Bytes

/-- A host: the responses that it waits for. A response without a type is `true` in the source. -/
structure Host where
  session : Finmap fun _ : ℤ ↦ Option ℕ

/-- What `host:dispatch` returns. -/
inductive Dispatched (Args : Type)
  | request (name : String) (args : Option Args) (session : Option ℤ)
  | response (session : ℤ) (args : Option Args)

namespace Host

variable {Args : Type} (core : Core Args)

/-- The function that `host:attach` returns. What it has put into `__session` stays when it raises. -/
def attach (self : Host) (name : String) (args : Option Args) (session : ℤ) : Host × Except String Bytes :=
  match core.attached name with
  | none => (self, .error (name ++ " not found"))
  | some proto =>
    let header := core.encodeHeader ⟨some proto.tag, some session⟩
    let host : Host := ⟨self.session.insert session proto.response⟩
    match args with
    | none => (host, .ok (core.pack header))
    | some args => (host, (core.encode proto.request args).map fun content ↦ core.pack (header ++ content))

/-- `host:dispatch`. A response leaves the table before it is decoded. -/
def dispatch (self : Host) (msg : Bytes) : Host × Except String (Dispatched Args) :=
  match (do let bin ← core.unpack msg; let (header, size) ← core.decodeHeader bin; pure (header, bin.drop size)) with
  | .error error => (self, .error error)
  | .ok (header, content) =>
    match header.type with
    | some type =>
      match core.received type with
      | none => (self, .error (toString type ++ " not found"))
      | some proto =>
        match proto.request with
        | none => (self, .ok (.request proto.name none header.session))
        | some request =>
          (self, (core.decode request content).map fun result ↦ .request proto.name (some result) header.session)
    | none =>
      match header.session with
      | none => (self, .error "session not found")
      | some session =>
        match self.session.lookup session with
        | none => (self, .error "Unknown session")
        | some none => (⟨self.session.erase session⟩, .ok (.response session none))
        | some (some response) =>
          (⟨self.session.erase session⟩,
            (core.decode response content).map fun result ↦ .response session (some result))

variable (self : Host)

/-! ### What the host waits for -/

theorem map_eq_ok {α β : Type} {value : Except String α} {f : α → β} {result : β}
    (h : value.map f = .ok result) : ∃ content, value = .ok content ∧ f content = result := by
  cases value with
  | error error => exact nomatch h
  | ok content => exact ⟨content, rfl, Except.ok.inj h⟩

/-- A request with a session is waited for, or is not a request of the protocol. -/
theorem attach_cases (name : String) (args : Option Args) (session : ℤ) :
    ((self.attach core name args session).1 = self ∧ ∃ error, (self.attach core name args session).2 = .error error) ∨
      ∃ response, (self.attach core name args session).1 = ⟨self.session.insert session response⟩ := by
  unfold attach
  split
  · exact .inl ⟨rfl, _, rfl⟩
  · next proto _ =>
    right
    cases args <;> exact ⟨proto.response, rfl⟩

/-- A message changes what the host waits for only when it is a response that the host waits for, which it then
does no more. -/
theorem dispatch_cases (msg : Bytes) :
    (self.dispatch core msg).1 = self ∧ (∀ session args, (self.dispatch core msg).2 ≠ .ok (.response session args)) ∨
      ∃ session ∈ self.session, (self.dispatch core msg).1 = ⟨self.session.erase session⟩ ∧
        ∀ other args, (self.dispatch core msg).2 = .ok (.response other args) → other = session := by
  unfold dispatch
  split
  · exact .inl ⟨rfl, nofun⟩
  · split
    · split
      · exact .inl ⟨rfl, nofun⟩
      · split
        · exact .inl ⟨rfl, nofun⟩
        · refine .inl ⟨rfl, fun session args hresponse ↦ ?_⟩
          obtain ⟨result, -, hresult⟩ := map_eq_ok hresponse
          exact nomatch hresult
    · split
      · exact .inl ⟨rfl, nofun⟩
      · next session _ =>
        split
        · exact .inl ⟨rfl, nofun⟩
        · next hlookup =>
          refine .inr ⟨session, Finmap.mem_of_lookup_eq_some hlookup, rfl, fun other args hother ↦ ?_⟩
          exact (Dispatched.response.inj (Except.ok.inj hother)).1.symm
        · next response hlookup =>
          refine .inr ⟨session, Finmap.mem_of_lookup_eq_some hlookup, rfl, fun other args hother ↦ ?_⟩
          obtain ⟨result, -, hresult⟩ := map_eq_ok hother
          exact (Dispatched.response.inj hresult).1.symm

end Host

end SvrDemo.Sproto
