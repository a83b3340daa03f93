import SvrDemo.Login.Slave

/-!
# Login tokens are used once

Where the fields of a stored session come from is the invariant `Slave.Backed` of a slave and its
history: the account and the key were stored for the session, which has not expired since; the token
was issued by the last accepted challenge and has not been used since; and a secret that has been
accepted as the answer to a challenge decrypts to a value that no session asks for any more. Every event
keeps it, because the values of `srp.random` do not repeat.

A verification therefore spends the live token of its session. The secret of an accepted challenge is
not accepted again for its session, nor for another session under the same key. For a session under
another key it may be: a secret can decrypt to two challenges under two keys.
-/

set_option autoImplicit false
set_option relaxedAutoImplicit false

namespace SvrDemo.Login

open Lua

variable {Account Key Secret Text : Type}

/-- An entry that issues a token for a session. -/
def Issues (session : ℕ) (entry : Event Account Key Secret Text × Reply Account Text) : Prop :=
  ∃ secret token next, entry = (.challenge session secret token next, .challenged token next)

/-- An entry that uses the token of a session. -/
def Spends (session : ℕ) (entry : Event Account Key Secret Text × Reply Account Text) : Prop :=
  ∃ secret account, entry = (.verify session secret, .verified account)

/-- A token of a session is live after a part of a history: the last successful challenge has issued it
and it has not been used since. -/
def LiveToken (history : History Account Key Secret Text) (session : ℕ) (token : Text) : Prop :=
  ∃ before secret next after,
    history = before ++ (.challenge session secret token next, .challenged token next) :: after ∧
      ∀ entry ∈ after, ¬ Issues session entry ∧ ¬ Spends session entry

/-- A part of a history begins when a session is stored for an account under a key, and the session has
not expired in it. -/
def StoredSince (history : History Account Key Secret Text) (session : ℕ) (account : Account)
    (key : Key) (after : History Account Key Secret Text) : Prop :=
  (∃ before challenge, history = before ++ (.save session account key challenge, .done) :: after) ∧
    ∀ reply, (.expire session key, reply) ∉ after

/-! ### The invariant -/

/-- Where the fields of a stored session come from: the session was stored with this account and key
and has not expired since, a token in it is live, and the challenge has been drawn. -/
structure BackedSession (history : History Account Key Secret Text) (session : ℕ)
    (record : SavedSession Account Key Text) : Prop where
  origin : ∃ after, StoredSince history session record.account record.key after ∧
    ∀ token, record.token = some token → LiveToken after session token
  challenge : record.challenge ∈ history.flatMap drawn

/-- The invariant of a slave. The challenges of two sessions differ, and a secret that has been accepted
decrypts, under the key of its session, to a value that is no longer the challenge of any session. -/
structure Slave.Backed (decrypt : Secret → Key → Option Text)
    (history : History Account Key Secret Text) (slave : Slave Account Key Text) : Prop where
  stored : ∀ session record, slave.savedSession.lookup session = some record →
    BackedSession history session record
  distinct : ∀ session session' record record', slave.savedSession.lookup session = some record →
    slave.savedSession.lookup session' = some record' → session ≠ session' →
      record.challenge ≠ record'.challenge
  spent : ∀ session secret token next,
    (.challenge session secret token next, .challenged token next) ∈ history →
      ∃ account key challenge text, (.save session account key challenge, .done) ∈ history ∧
        decrypt secret key = some text ∧ text ∈ history.flatMap drawn ∧
          ∀ other record, slave.savedSession.lookup other = some record → record.challenge ≠ text

variable {decrypt : Secret → Key → Option Text} {history : History Account Key Secret Text}
  {slave last : Slave Account Key Text} {session : ℕ} {account : Account} {key : Key} {token : Text}
  {entry : Event Account Key Secret Text × Reply Account Text}

/-- A live token stays live while its session is neither challenged nor verified. -/
theorem LiveToken.snoc (h : LiveToken history session token) (hissues : ¬ Issues session entry)
    (hspends : ¬ Spends session entry) : LiveToken (history ++ [entry]) session token := by
  obtain ⟨before, secret, next, after, rfl, hafter⟩ := h
  refine ⟨before, secret, next, after ++ [entry], by simp, fun other hother ↦ ?_⟩
  rcases List.mem_append.mp hother with hold | hnew
  · exact hafter other hold
  · obtain rfl := List.mem_singleton.mp hnew
    exact ⟨hissues, hspends⟩

theorem StoredSince.snoc {after : History Account Key Secret Text}
    (h : StoredSince history session account key after)
    (hexpire : ∀ reply, entry ≠ (.expire session key, reply)) :
    StoredSince (history ++ [entry]) session account key (after ++ [entry]) := by
  obtain ⟨⟨before, challenge, rfl⟩, hafter⟩ := h
  refine ⟨⟨before, challenge, by simp⟩, fun reply hmem ↦ ?_⟩
  rcases List.mem_append.mp hmem with hold | hnew
  · exact hafter reply hold
  · exact hexpire reply (List.mem_singleton.mp hnew).symm

/-- A session goes on when an event of another kind or for another session happens. -/
theorem BackedSession.snoc {record : SavedSession Account Key Text}
    (h : BackedSession history session record)
    (hexpire : ∀ reply, entry ≠ (.expire session record.key, reply))
    (hissues : ¬ Issues session entry) (hspends : ¬ Spends session entry) :
    BackedSession (history ++ [entry]) session record := by
  obtain ⟨⟨after, hstored, htoken⟩, hchallenge⟩ := h
  refine ⟨⟨after ++ [entry], hstored.snoc hexpire, fun token hsome ↦ ?_⟩, ?_⟩
  · exact (htoken token hsome).snoc hissues hspends
  · rw [List.flatMap_append]
    exact List.mem_append_left _ hchallenge

/-! ### The invariant is kept -/

/-- What an entry draws has not been drawn before. -/
theorem not_mem_drawn {value : Text} (hdraws : FreshDraws (history ++ [entry]))
    (hvalue : value ∈ drawn entry) : value ∉ history.flatMap drawn := by
  rw [FreshDraws, List.flatMap_append, List.nodup_append] at hdraws
  intro hold
  exact hdraws.2.2 value hold value (by simpa using hvalue) rfl

/-- The challenge of a stored session has been drawn. -/
theorem Slave.Backed.challenge_mem (h : slave.Backed decrypt history)
    {record : SavedSession Account Key Text} (hrecord : slave.savedSession.lookup session = some record) :
    record.challenge ∈ history.flatMap drawn :=
  (h.stored session record hrecord).challenge

/-- An event that stores no new challenge keeps the invariant when it keeps every stored session
backed. -/
theorem Slave.Backed.snoc_of_kept (h : slave.Backed decrypt history)
    (hstored : ∀ session record, last.savedSession.lookup session = some record →
      BackedSession (history ++ [entry]) session record)
    (hkept : ∀ session record, last.savedSession.lookup session = some record →
      ∃ old, slave.savedSession.lookup session = some old ∧ old.challenge = record.challenge)
    (hissues : ∀ session, ¬ Issues session entry) : last.Backed decrypt (history ++ [entry]) where
  stored := hstored
  distinct session session' record record' hrecord hrecord' hne := by
    obtain ⟨old, hold, heq⟩ := hkept session record hrecord
    obtain ⟨old', hold', heq'⟩ := hkept session' record' hrecord'
    rw [← heq, ← heq']
    exact h.distinct session session' old old' hold hold' hne
  spent session secret token next hmem := by
    rcases List.mem_append.mp hmem with hbefore | hnew
    · obtain ⟨account, key, challenge, text, hsave, htext, hdrawn, hother⟩ :=
        h.spent session secret token next hbefore
      refine ⟨account, key, challenge, text, List.mem_append_left _ hsave, htext, ?_, ?_⟩
      · rw [List.flatMap_append]
        exact List.mem_append_left _ hdrawn
      · intro other record hrecord
        obtain ⟨old, hold, heq⟩ := hkept other record hrecord
        exact heq ▸ hother other old hold
    · exact absurd ⟨secret, token, next, (List.mem_singleton.mp hnew).symm⟩ (hissues session)

/-- An event that stores a fresh challenge for one session keeps the invariant when it keeps every
stored session backed and spends no challenge but that of this session. -/
theorem Slave.Backed.snoc_of_fresh (h : slave.Backed decrypt history)
    {stored : SavedSession Account Key Text}
    (hlast : last.savedSession = slave.savedSession.insert session stored)
    (hstored : ∀ other record, last.savedSession.lookup other = some record →
      BackedSession (history ++ [entry]) other record)
    (hfresh : stored.challenge ∉ history.flatMap drawn)
    (hspent : ∀ other secret token next,
      entry = (.challenge other secret token next, .challenged token next) →
        ∃ record challenge, slave.savedSession.lookup session = some record ∧ other = session ∧
          (.save session record.account record.key challenge, .done) ∈ history ∧
            decrypt secret record.key = some record.challenge) :
    last.Backed decrypt (history ++ [entry]) := by
  have hlookup : ∀ other record, last.savedSession.lookup other = some record →
      other = session ∧ record = stored ∨
        other ≠ session ∧ slave.savedSession.lookup other = some record := by
    intro other record hrecord
    rw [hlast, Table.lookup_insert_eq] at hrecord
    by_cases hother : other = session
    · rw [if_pos hother] at hrecord
      exact .inl ⟨hother, (Option.some.inj hrecord).symm⟩
    · rw [if_neg hother] at hrecord
      exact .inr ⟨hother, hrecord⟩
  -- A value that has been drawn and is asked for by no other session is asked for by none now.
  have hunasked : ∀ text, text ∈ history.flatMap drawn →
      (∀ other record, other ≠ session → slave.savedSession.lookup other = some record →
        record.challenge ≠ text) →
      ∀ other record, last.savedSession.lookup other = some record → record.challenge ≠ text := by
    intro text htext hothers other record hrecord
    rcases hlookup other record hrecord with ⟨rfl, rfl⟩ | ⟨hne, hold⟩
    · exact fun heq ↦ hfresh (heq ▸ htext)
    · exact hothers other record hne hold
  refine ⟨hstored, ?_, ?_⟩
  · intro one two record record' hrecord hrecord' hne
    rcases hlookup one record hrecord with ⟨rfl, rfl⟩ | ⟨hone, hold⟩
    · rcases hlookup two record' hrecord' with ⟨rfl, rfl⟩ | ⟨htwo, hold'⟩
      · exact absurd rfl hne
      · exact fun heq ↦ hfresh (heq ▸ h.challenge_mem hold')
    · exact fun heq ↦ hunasked _ (h.challenge_mem hold)
        (fun other old hother hlook heq' ↦ by
          by_cases hsame : other = one
          · subst hsame
            rcases hlookup two record' hrecord' with ⟨rfl, rfl⟩ | ⟨htwo, hold'⟩
            · exact hfresh (heq ▸ h.challenge_mem hold)
            · exact h.distinct _ _ _ _ hold hold' hne heq
          · exact h.distinct _ _ _ _ hlook hold hsame heq') two record' hrecord' heq.symm
  · intro other secret token next hmem
    rcases List.mem_append.mp hmem with hbefore | hnew
    · obtain ⟨account, key, challenge, text, hsave, htext, hdrawn, hothers⟩ :=
        h.spent other secret token next hbefore
      refine ⟨account, key, challenge, text, List.mem_append_left _ hsave, htext, ?_, ?_⟩
      · rw [List.flatMap_append]
        exact List.mem_append_left _ hdrawn
      · exact hunasked text hdrawn fun third record _ hrecord ↦ hothers third record hrecord
    · obtain ⟨record, challenge, hrecord, rfl, hsave, hdecrypt⟩ :=
        hspent other secret token next (List.mem_singleton.mp hnew).symm
      have hdrawn := h.challenge_mem hrecord
      refine ⟨record.account, record.key, challenge, record.challenge,
        List.mem_append_left _ hsave, hdecrypt, ?_, ?_⟩
      · rw [List.flatMap_append]
        exact List.mem_append_left _ hdrawn
      · exact hunasked _ hdrawn fun third old hne hold ↦
          h.distinct third other old record hold hrecord hne

/-- `CMD.save_session` stores a session without a token. -/
theorem Slave.Backed.save (h : slave.Backed decrypt history) {challenge : Text}
    (hdraws : FreshDraws (history ++ [(.save session account key challenge, .done)])) :
    (slave.saveSession session account key challenge).Backed decrypt
      (history ++ [(.save session account key challenge, .done)]) := by
  refine h.snoc_of_fresh rfl ?_ (not_mem_drawn hdraws (by simp [drawn])) (by simp)
  intro other record hrecord
  rw [Slave.saveSession, Table.lookup_insert_eq] at hrecord
  by_cases hother : other = session
  · rw [if_pos hother] at hrecord
    obtain rfl := Option.some.inj hrecord
    subst hother
    refine ⟨⟨[], ⟨⟨history, challenge, rfl⟩, by simp⟩, fun token htoken ↦ nomatch htoken⟩, ?_⟩
    rw [List.flatMap_append]
    exact List.mem_append_right _ (by simp [drawn])
  · rw [if_neg hother] at hrecord
    exact (h.stored other record hrecord).snoc (by simp) (by simp [Issues]) (by simp [Spends])

/-- An accepted challenge spends the stored challenge and issues a live token. -/
theorem Slave.Backed.challenge [DecidableEq Text] (h : slave.Backed decrypt history)
    {secret : Secret} {next : Text}
    (hchallenge : Slave.challenge decrypt slave session secret token next = some last)
    (hdraws : FreshDraws
      (history ++ [(.challenge session secret token next, .challenged token next)])) :
    last.Backed decrypt
      (history ++ [(.challenge session secret token next, .challenged token next)]) := by
  obtain ⟨record, hrecord, hdecrypt, hlast⟩ := Slave.challenge_eq_some hchallenge
  obtain ⟨⟨after, hstored, -⟩, -⟩ := h.stored session record hrecord
  refine h.snoc_of_fresh hlast ?_ (not_mem_drawn hdraws (by simp [drawn])) ?_
  · intro other stored hother
    rw [hlast, Table.lookup_insert_eq] at hother
    by_cases hsame : other = session
    · rw [if_pos hsame] at hother
      obtain rfl := Option.some.inj hother
      subst hsame
      refine ⟨⟨_, hstored.snoc (by simp), fun live hlive ↦ ?_⟩, ?_⟩
      · obtain rfl := Option.some.inj hlive
        exact ⟨after, secret, next, [], rfl, by simp⟩
      · rw [List.flatMap_append]
        exact List.mem_append_right _ (by simp [drawn])
    · rw [if_neg hsame] at hother
      refine (h.stored other stored hother).snoc (by simp) ?_ (by simp [Spends])
      rintro ⟨secret, token, next, heq⟩
      simp only [Prod.mk.injEq, Event.challenge.injEq] at heq
      exact hsame heq.1.1.symm
  · rintro other secret' token' next' heq
    simp only [Prod.mk.injEq, Event.challenge.injEq] at heq
    obtain ⟨⟨rfl, rfl, -⟩, -⟩ := heq
    obtain ⟨⟨before, challenge, hbefore⟩, -⟩ := hstored
    exact ⟨record, challenge, hrecord, rfl, by simp [hbefore], hdecrypt⟩

/-- An accepted verification uses the live token of its session. -/
theorem Slave.Backed.verify [DecidableEq Text] (h : slave.Backed decrypt history) {secret : Secret}
    (hverify : Slave.verify decrypt slave session secret = some (last, account)) :
    last.Backed decrypt (history ++ [(.verify session secret, .verified account)]) := by
  obtain ⟨record, token, hrecord, -, -, -, hlast⟩ := Slave.verify_eq_some hverify
  refine h.snoc_of_kept ?_ ?_ (by simp [Issues])
  · intro other stored hother
    rw [hlast, Table.lookup_insert_eq] at hother
    by_cases hsame : other = session
    · rw [if_pos hsame] at hother
      obtain rfl := Option.some.inj hother
      subst hsame
      obtain ⟨⟨after, hstored, -⟩, hdrawn⟩ := h.stored other record hrecord
      refine ⟨⟨_, hstored.snoc (by simp), fun live hlive ↦ nomatch hlive⟩, ?_⟩
      rw [List.flatMap_append]
      exact List.mem_append_left _ hdrawn
    · rw [if_neg hsame] at hother
      refine (h.stored other stored hother).snoc (by simp) (by simp [Issues]) ?_
      rintro ⟨secret, account, heq⟩
      simp only [Prod.mk.injEq, Event.verify.injEq] at heq
      exact hsame heq.1.1.symm
  · intro other stored hother
    rw [hlast, Table.lookup_insert_eq] at hother
    by_cases hsame : other = session
    · rw [if_pos hsame] at hother
      obtain rfl := Option.some.inj hother
      exact ⟨record, hsame ▸ hrecord, rfl⟩
    · rw [if_neg hsame] at hother
      exact ⟨stored, hother, rfl⟩

/-- A failed command changes nothing. -/
theorem Slave.Backed.failed (h : slave.Backed decrypt history)
    {event : Event Account Key Secret Text} (hexpire : ∀ session key, event ≠ .expire session key) :
    slave.Backed decrypt (history ++ [(event, .failed)]) :=
  h.snoc_of_kept
    (fun session record hrecord ↦ (h.stored session record hrecord).snoc
      (fun _ heq ↦ hexpire _ _ (Prod.mk.inj heq).1) (by simp [Issues]) (by simp [Spends]))
    (fun _ record hrecord ↦ ⟨record, hrecord, rfl⟩) (by simp [Issues])

/-- A timer leaves no session under the key it looks for. -/
theorem Slave.Backed.expire [DecidableEq Key] (h : slave.Backed decrypt history)
    (hlast : last.savedSession = (slave.expire session key).savedSession) :
    last.Backed decrypt (history ++ [(.expire session key, .done)]) := by
  have hkept : ∀ other record, last.savedSession.lookup other = some record →
      slave.savedSession.lookup other = some record ∧ ¬ (other = session ∧ record.key = key) := by
    intro other record hrecord
    rw [hlast] at hrecord
    rcases slave.expire_cases session key with herased | ⟨hsame, hkey⟩
    · rw [herased, Table.lookup_erase_eq] at hrecord
      split at hrecord
      · cases hrecord
      · next hne => exact ⟨hrecord, fun hboth ↦ hne hboth.1⟩
    · rw [hsame] at hrecord
      exact ⟨hrecord, fun hboth ↦ hkey record (hboth.1 ▸ hrecord) hboth.2⟩
  refine h.snoc_of_kept ?_ ?_ (by simp [Issues])
  · intro other record hrecord
    obtain ⟨hold, hnot⟩ := hkept other record hrecord
    refine (h.stored other record hold).snoc ?_ (by simp [Issues]) (by simp [Spends])
    intro reply heq
    simp only [Prod.mk.injEq, Event.expire.injEq] at heq
    exact hnot ⟨heq.1.1.symm, heq.1.2.symm⟩
  · exact fun other record hrecord ↦ ⟨record, (hkept other record hrecord).1, rfl⟩

/-- Two entries of `save_session` with one id are the same entry. -/
theorem eq_of_savedId (hids : DistinctIds history)
    {other : Event Account Key Secret Text × Reply Account Text} (hentry : entry ∈ history)
    (hother : other ∈ history) (hid : savedId entry = some session)
    (hid' : savedId other = some session) : entry = other := by
  have hpairwise := List.pairwise_filterMap.mp hids
  by_contra hne
  have hsymm : Std.Symm fun one two : Event Account Key Secret Text × Reply Account Text ↦
      ∀ id, savedId one = some id → ∀ id', savedId two = some id' → id ≠ id' :=
    ⟨fun _ _ h id hid id' hid' heq ↦ h id' hid' id hid heq.symm⟩
  exact hpairwise.forall hentry hother hne session hid session hid' rfl

/-- The key of a stored session is the only one that is stored under its id. -/
theorem key_unique (hids : DistinctIds history) {account' : Account} {key' : Key}
    {challenge challenge' : Text} (hsave : (.save session account key challenge, .done) ∈ history)
    (hsave' : (.save session account' key' challenge', .done) ∈ history) : key = key' := by
  have heq := eq_of_savedId hids hsave hsave' rfl rfl
  simp only [Prod.mk.injEq, Event.save.injEq] at heq
  exact heq.1.2.2.1

/-! ### Runs -/

section Runs

variable [DecidableEq Key] [DecidableEq Text]

/-- Every event keeps the invariant. -/
theorem Slave.Backed.handle {event : Event Account Key Secret Text} {reply : Reply Account Text}
    (h : slave.Backed decrypt history) (hstep : slave.handle decrypt event = some (last, reply))
    (hdraws : FreshDraws (history ++ [(event, reply)])) :
    last.Backed decrypt (history ++ [(event, reply)]) := by
  cases event with
  | save session account key challenge =>
    cases hstep
    exact h.save hdraws
  | challenge session secret token next =>
    simp only [Slave.handle] at hstep
    split at hstep
    · next changed hchallenge =>
      cases hstep
      exact h.challenge hchallenge hdraws
    · cases hstep
      exact h.failed (by simp)
  | verify session secret =>
    simp only [Slave.handle] at hstep
    split at hstep
    · next changed account hverify =>
      cases hstep
      exact h.verify hverify
    · cases hstep
      exact h.failed (by simp)
  | expire session key =>
    simp only [Slave.handle] at hstep
    split at hstep
    · cases hstep
      exact h.expire rfl
    · cases hstep

/-- The invariant holds after every history whose draws differ. -/
theorem backed_of_run (run : Run decrypt history slave) (hdraws : FreshDraws history) :
    slave.Backed decrypt history := by
  induction run with
  | nil => exact ⟨by simp [Slave.empty], by simp [Slave.empty], by simp⟩
  | snoc run hstep ih =>
    have hbefore := hdraws
    rw [FreshDraws, List.flatMap_append] at hbefore
    exact (ih hbefore.of_append_left).handle hstep hdraws

/-- A history can be cut before each of its entries. -/
theorem Run.cut {before after : History Account Key Secret Text}
    (run : Run decrypt (before ++ entry :: after) last) :
    ∃ slave next, Run decrypt before slave ∧ slave.handle decrypt entry.1 = some (next, entry.2) := by
  generalize hhistory : before ++ entry :: after = history at run
  induction run generalizing after with
  | nil => simp at hhistory
  | @snoc history slave last event reply run hstep ih =>
    rcases List.eq_nil_or_concat after with rfl | ⟨rest, lastEntry, rfl⟩
    · obtain ⟨rfl, hentry⟩ := List.append_inj' hhistory rfl
      obtain rfl := (List.cons.inj hentry).1
      exact ⟨slave, last, run, hstep⟩
    · rw [List.concat_eq_append, ← List.cons_append, ← List.append_assoc] at hhistory
      exact ih (List.append_inj' hhistory rfl).1

/-- A verification returns the account that was stored for its session, which has not expired since, and
its secret decrypts, under the key stored with the account, to the token of the last accepted
challenge, which no verification has used since. A secret that one challenge has accepted is accepted
again for no session that is stored under the same key, and in particular not for the same session. -/
theorem tokens_single_use (run : Run decrypt history slave) (hids : DistinctIds history)
    (hdraws : FreshDraws history) :
    (∀ before session secret account after,
      history = before ++ (.verify session secret, .verified account) :: after →
        ∃ key since token, StoredSince before session account key since ∧
          LiveToken since session token ∧ decrypt secret key = some token) ∧
    ∀ before session session' secret token token' next next' middle after,
      history = before ++ (.challenge session secret token next, .challenged token next) ::
        (middle ++ (.challenge session' secret token' next', .challenged token' next') :: after) →
      session ≠ session' ∧ ∀ account account' key key' challenge challenge',
        (.save session account key challenge, .done) ∈ history →
          (.save session' account' key' challenge', .done) ∈ history → key ≠ key' := by
  constructor
  · rintro before session secret account after rfl
    obtain ⟨slave, next, hbefore, hstep⟩ := run.cut
    rw [FreshDraws, List.flatMap_append] at hdraws
    have hbacked := backed_of_run hbefore hdraws.of_append_left
    simp only [Slave.handle] at hstep
    split at hstep
    · next changed owner hverify =>
      simp only [Option.some.injEq, Prod.mk.injEq, Reply.verified.injEq] at hstep
      obtain ⟨record, token, hrecord, htoken, hdecrypt, howner, -⟩ := Slave.verify_eq_some hverify
      obtain ⟨⟨since, hstored, hlive⟩, -⟩ := hbacked.stored session record hrecord
      rw [← howner, hstep.2] at hstored
      exact ⟨record.key, since, token, hstored, hlive token htoken, hdecrypt⟩
    · simp at hstep
  · rintro before session session' secret token token' next next' middle after rfl
    have hcut := run
    rw [← List.cons_append, ← List.append_assoc] at hcut
    obtain ⟨slave, last, hbefore, hstep⟩ := hcut.cut
    have hfresh := hdraws
    rw [FreshDraws, ← List.cons_append, ← List.append_assoc, List.flatMap_append] at hfresh
    have hbacked := backed_of_run hbefore hfresh.of_append_left
    simp only [Slave.handle] at hstep
    split at hstep
    · next changed hchallenge =>
      obtain ⟨record, hrecord, hdecrypt, -⟩ := Slave.challenge_eq_some hchallenge
      obtain ⟨⟨since, ⟨⟨start, opened, hstart⟩, -⟩, -⟩, -⟩ := hbacked.stored session' record hrecord
      obtain ⟨account, key, challenge, text, hsave, htext, -, hother⟩ :=
        hbacked.spent session secret token next (by simp)
      have hsaved' : (.save session' record.account record.key opened, .done) ∈
          before ++ (.challenge session secret token next, .challenged token next) :: middle := by
        simp [hstart]
      -- The first secret decrypts to nothing that a session asks for, so the keys differ.
      have hkeys : key ≠ record.key := by
        rintro rfl
        rw [hdecrypt] at htext
        exact hother session' record hrecord (Option.some.inj htext)
      have hmono : ∀ other, other ∈ before ++
          (.challenge session secret token next, .challenged token next) :: middle →
            other ∈ before ++ (.challenge session secret token next, .challenged token next) ::
              (middle ++ (.challenge session' secret token' next', .challenged token' next') ::
                after) := by
        intro other hmem
        rw [← List.cons_append, ← List.append_assoc]
        exact List.mem_append_left _ hmem
      constructor
      · rintro rfl
        exact hkeys (key_unique hids (hmono _ hsave) (hmono _ hsaved'))
      · rintro account₁ account₂ key₁ key₂ challenge₁ challenge₂ hfirst hsecond rfl
        have hone := key_unique hids (hmono _ hsave) hfirst
        have htwo := key_unique hids (hmono _ hsaved') hsecond
        exact hkeys (hone.trans htwo.symm)
    · simp at hstep

end Runs

/-! ### A login -/

/-- A login with secrets that are the sum of a key and a text: the token 6 is issued for session 1 and
used. -/
def sampleLogin : History ℕ ℕ ℕ ℕ :=
  [(.save 1 7 100 5, .done), (.challenge 1 105 6 8, .challenged 6 8),
    (.verify 1 106, .verified 7)]

/-- Decrypting a sum. -/
def subtractKey (secret key : ℕ) : Option ℕ :=
  if key ≤ secret then some (secret - key) else none

/-- The histories that the slave can have, step by step from an empty slave. -/
def replay (decrypt : ℕ → ℕ → Option ℕ) (history : History ℕ ℕ ℕ ℕ) : Option (Slave ℕ ℕ ℕ) :=
  history.foldlM (fun slave entry ↦
    match slave.handle decrypt entry.1 with
    | some (next, reply) => if reply = entry.2 then some next else none
    | none => none) .empty

theorem run_of_replay {decrypt : ℕ → ℕ → Option ℕ} {history : History ℕ ℕ ℕ ℕ} {slave : Slave ℕ ℕ ℕ}
    (h : replay decrypt history = some slave) : Run decrypt history slave := by
  induction history using List.reverseRecOn generalizing slave with
  | nil =>
    cases h
    exact .nil
  | append_singleton history entry ih =>
    rw [replay, List.foldlM_append, Option.bind_eq_bind, Option.bind_eq_some_iff] at h
    obtain ⟨before, hbefore, hstep⟩ := h
    simp only [List.foldlM_cons, List.foldlM_nil, Option.pure_def] at hstep
    split at hstep
    · next next reply hhandle =>
      split at hstep
      · next hreply =>
        cases hstep
        subst hreply
        exact .snoc (ih hbefore) hhandle
      · cases hstep
    · cases hstep

theorem tokens_single_use_login :
    ∃ key since token, StoredSince (sampleLogin.take 2) 1 7 key since ∧
      LiveToken since 1 token ∧ subtractKey 106 key = some token := by
  obtain ⟨slave, hslave⟩ : ∃ slave, replay subtractKey sampleLogin = some slave := by
    rw [← Option.isSome_iff_exists]
    decide
  exact (tokens_single_use (run_of_replay hslave) (by decide) (by decide)).1 _ 1 106 7 [] rfl

/-- Two sessions under the keys 100 and 200 with the challenges 5 and 9, and one secret that decrypts
to both. -/
def sharedSecret (secret key : ℕ) : Option ℕ :=
  if secret = 0 then (if key = 100 then some 5 else some 9) else none

/-- A secret that a challenge has accepted can be accepted again, for a session under another key. -/
theorem secret_accepted_twice :
    ∃ (history : History ℕ ℕ ℕ ℕ) (slave : Slave ℕ ℕ ℕ), Run sharedSecret history slave ∧
      DistinctIds history ∧ FreshDraws history ∧
        (.challenge 1 0 10 11, .challenged 10 11) ∈ history ∧
          (.challenge 2 0 12 13, .challenged 12 13) ∈ history := by
  let history : History ℕ ℕ ℕ ℕ :=
    [(.save 1 7 100 5, .done), (.save 2 8 200 9, .done),
      (.challenge 1 0 10 11, .challenged 10 11), (.challenge 2 0 12 13, .challenged 12 13)]
  obtain ⟨slave, hslave⟩ : ∃ slave, replay sharedSecret history = some slave := by
    rw [← Option.isSome_iff_exists]
    decide
  exact ⟨history, slave, run_of_replay hslave, by decide, by decide, by decide, by decide⟩

end SvrDemo.Login
