import SvrDemo.Lua.Table

/-!
# A login slave

`loginslave.lua` keeps the login sessions of the clients. `save_session` stores the account and the key
that a handshake has agreed on, with a first challenge. `challenge` takes a secret that decrypts to
the challenge of the session, and issues a token and the next challenge. `verify` takes a secret that
decrypts to the token, clears the token and returns the account. A timer drops the session when it
expires. No command waits, so the slave is a state machine whose steps are whole commands.

`aes.decrypt` is a parameter, and the values of `srp.random` are part of the event that draws them. A
`History` is the list of the events so far with their replies, and `Run` says which histories lead to
which slave. One lemma for each command says what its success means.
-/

set_option autoImplicit false
set_option relaxedAutoImplicit false

namespace SvrDemo.Login

open Lua

variable {Account Key Secret Text : Type}

/-- A stored session. The token is absent before the first challenge and after it has been used. -/
structure SavedSession (Account Key Text : Type) where
  account : Account
  key : Key
  challenge : Text
  token : Option Text

/-- The sessions of a slave, and the expiry timers that have not fired. -/
structure Slave (Account Key Text : Type) where
  savedSession : Table (SavedSession Account Key Text)
  timers : List (ℕ × Key)

namespace Slave

/-- A slave without sessions. -/
def empty : Slave Account Key Text := ⟨∅, []⟩

/-- `CMD.save_session`. -/
def saveSession (slave : Slave Account Key Text) (session : ℕ) (account : Account) (key : Key)
    (challenge : Text) : Slave Account Key Text where
  savedSession := slave.savedSession.insert session ⟨account, key, challenge, none⟩
  timers := slave.timers ++ [(session, key)]

/-- The function of the expiry timer: drop the session unless its key has changed. -/
def expire [DecidableEq Key] (slave : Slave Account Key Text) (session : ℕ) (key : Key) :
    Slave Account Key Text :=
  match slave.savedSession.lookup session with
  | some record =>
    if record.key = key then { slave with savedSession := slave.savedSession.erase session }
    else slave
  | none => slave

variable [DecidableEq Text]

/-- `CMD.challenge`, with the two values it draws. It raises for an unknown session and for a secret
that does not decrypt to the challenge. -/
def challenge (decrypt : Secret → Key → Option Text) (slave : Slave Account Key Text)
    (session : ℕ) (secret : Secret) (token next : Text) : Option (Slave Account Key Text) :=
  match slave.savedSession.lookup session with
  | none => none
  | some record =>
    match decrypt secret record.key with
    | none => none
    | some text =>
      let issued := { record with token := some token, challenge := next }
      if text = record.challenge then
        some { slave with savedSession := slave.savedSession.insert session issued }
      else none

/-- `CMD.verify`. It raises for an unknown session and for a secret that does not decrypt to the
token. -/
def verify (decrypt : Secret → Key → Option Text) (slave : Slave Account Key Text)
    (session : ℕ) (secret : Secret) :
    Option (Slave Account Key Text × Account) :=
  match slave.savedSession.lookup session with
  | none => none
  | some record =>
    match decrypt secret record.key with
    | none => none
    | some text =>
      let used := { record with token := none }
      if some text = record.token then
        some ({ slave with savedSession := slave.savedSession.insert session used }, record.account)
      else none

end Slave

/-! ### Histories -/

/-- What happens to a slave. A challenge comes with the values that `srp.random` has for it. -/
inductive Event (Account Key Secret Text : Type)
  | save (session : ℕ) (account : Account) (key : Key) (challenge : Text)
  | challenge (session : ℕ) (secret : Secret) (token next : Text)
  | verify (session : ℕ) (secret : Secret)
  | expire (session : ℕ) (key : Key)
  deriving DecidableEq

/-- What the slave answers. -/
inductive Reply (Account Text : Type)
  | done
  | challenged (token next : Text)
  | verified (account : Account)
  | failed
  deriving DecidableEq

/-- The events of a slave so far, each with its reply. -/
abbrev History (Account Key Secret Text : Type) : Type :=
  List (Event Account Key Secret Text × Reply Account Text)

section Step

variable [DecidableEq Key] [DecidableEq Text] (decrypt : Secret → Key → Option Text)

/-- One event. A failed command leaves the slave as it is; a timer fires only once. -/
def Slave.handle (slave : Slave Account Key Text) :
    Event Account Key Secret Text → Option (Slave Account Key Text × Reply Account Text)
  | .save session account key challenge =>
    some (slave.saveSession session account key challenge, .done)
  | .challenge session secret token next =>
    match Slave.challenge decrypt slave session secret token next with
    | some changed => some (changed, .challenged token next)
    | none => some (slave, .failed)
  | .verify session secret =>
    match Slave.verify decrypt slave session secret with
    | some (changed, account) => some (changed, .verified account)
    | none => some (slave, .failed)
  | .expire session key =>
    if (session, key) ∈ slave.timers then
      some ({ slave.expire session key with timers := slave.timers.erase (session, key) }, .done)
    else none

/-- The histories of a slave that starts without sessions. -/
inductive Run : History Account Key Secret Text → Slave Account Key Text → Prop
  | nil : Run [] .empty
  | snoc {history : History Account Key Secret Text} {slave last : Slave Account Key Text}
      {event : Event Account Key Secret Text} {reply : Reply Account Text} (run : Run history slave)
      (step : slave.handle decrypt event = some (last, reply)) :
      Run (history ++ [(event, reply)]) last

end Step

/-- The session ids of `save_session`. -/
def savedId : Event Account Key Secret Text × Reply Account Text → Option ℕ
  | (.save session _ _ _, _) => some session
  | _ => none

/-- The values of `srp.random` in an event: the challenge that is saved, and what a successful
challenge draws. -/
def drawn : Event Account Key Secret Text × Reply Account Text → List Text
  | (.save _ _ _ challenge, _) => [challenge]
  | (.challenge _ _ token next, .challenged _ _) => [token, next]
  | _ => []

/-- No two sessions are stored under one id. -/
def DistinctIds (history : History Account Key Secret Text) : Prop :=
  (history.filterMap savedId).Nodup

/-- `srp.random` never repeats a value. -/
def FreshDraws (history : History Account Key Secret Text) : Prop :=
  (history.flatMap drawn).Nodup

instance (history : History Account Key Secret Text) : Decidable (DistinctIds history) :=
  inferInstanceAs (Decidable (List.Nodup _))

instance [DecidableEq Text] (history : History Account Key Secret Text) :
    Decidable (FreshDraws history) :=
  inferInstanceAs (Decidable (List.Nodup _))

/-! ### What an event can do -/

section Cases

variable {decrypt : Secret → Key → Option Text} {slave last : Slave Account Key Text} {session : ℕ}

/-- An accepted challenge: the secret decrypts to the stored challenge. -/
theorem Slave.challenge_eq_some [DecidableEq Text] {secret : Secret} {token next : Text}
    (h : Slave.challenge decrypt slave session secret token next = some last) :
    ∃ record, slave.savedSession.lookup session = some record ∧
      decrypt secret record.key = some record.challenge ∧ last.savedSession =
        slave.savedSession.insert session ⟨record.account, record.key, next, some token⟩ := by
  simp only [Slave.challenge] at h
  split at h
  · cases h
  · next record hrecord =>
    split at h
    · cases h
    · next text htext =>
      split at h
      · next heq =>
        cases h
        exact ⟨record, hrecord, heq ▸ htext, rfl⟩
      · cases h

/-- An accepted verification: the secret decrypts to the stored token. -/
theorem Slave.verify_eq_some [DecidableEq Text] {secret : Secret} {account : Account}
    (h : Slave.verify decrypt slave session secret = some (last, account)) :
    ∃ record token, slave.savedSession.lookup session = some record ∧
      record.token = some token ∧ decrypt secret record.key = some token ∧
        account = record.account ∧ last.savedSession =
          slave.savedSession.insert session ⟨record.account, record.key, record.challenge, none⟩ := by
  simp only [Slave.verify] at h
  split at h
  · cases h
  · next record hrecord =>
    split at h
    · cases h
    · next text htext =>
      split at h
      · next heq =>
        cases h
        exact ⟨record, text, hrecord, heq.symm, htext, rfl, rfl⟩
      · cases h

/-- A timer removes the session when its key has not changed, and nothing otherwise. -/
theorem Slave.expire_cases [DecidableEq Key] (slave : Slave Account Key Text) (session : ℕ)
    (key : Key) :
    (slave.expire session key).savedSession = slave.savedSession.erase session ∨
      (slave.expire session key).savedSession = slave.savedSession ∧
        ∀ record, slave.savedSession.lookup session = some record → record.key ≠ key := by
  simp only [Slave.expire]
  split
  · next record hrecord =>
    split
    · exact .inl rfl
    · next hkey =>
      refine .inr ⟨rfl, fun other hother ↦ ?_⟩
      rw [hrecord] at hother
      exact Option.some.inj hother ▸ hkey
  · next hnone => exact .inr ⟨rfl, fun record hrecord ↦ by simp [hnone] at hrecord⟩

end Cases

end SvrDemo.Login
