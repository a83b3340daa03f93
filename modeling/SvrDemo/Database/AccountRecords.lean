import SvrDemo.Database.Account

/-!
# Account records are complete

`Does` says what one section of the account module can do, and `Records` is the invariant: a name that no
`create` is writing has no hash or a complete one, a name that one is writing has the id of that `create`
and nothing else, and a `load` that has read the id of a name reads the fields of the account that the name
has then.

The invariant needs two things of the run. A `load` must not read the salt of a name while a `create` is
between its two writes, and a `create` that has set the id must not fail before `hmset` has been executed.
-/

set_option autoImplicit false
set_option relaxedAutoImplicit false

namespace SvrDemo.Database

open Coroutine Skynet

variable {srp : String → String → ℕ → ℕ}

/-! ### What a section does -/

/-- The point of a `create` of the name between its two writes. -/
def AccountPoint.writes (name : String) : AccountPoint → Bool
  | .hmset _ written _ _ => written == name
  | _ => false

/-- The effect of one section, from the state at its start and what it hears to the points at which it
leaves coroutines waiting and the state at its end. -/
inductive Does (srp : String → String → ℕ → ℕ) :
    AccountPoint → Store → List (Reply SaltAndVerifier) → List AccountPoint → Store → Prop
  /-- The coroutine ends and has changed nothing: an assertion or a command has failed. -/
  | ended {point : AccountPoint} {store : Store} {heard : List (Reply SaltAndVerifier)}
      (calm : ∀ name, point.writes name = false) : Does srp point store heard [] store
  | loads {name : String} {store : Store} {heard : List (Reply SaltAndVerifier)} :
      Does srp (.load (some name)) store heard [.existsKey name] store
  | found {name : String} {store : Store} {heard : List (Reply SaltAndVerifier)}
      (known : (store.users name).exists? = true) :
      Does srp (.existsKey name) store heard [.hget .account { name := name }] store
  | missing {name : String} {store : Store} {heard : List (Reply SaltAndVerifier)} (pair : SaltAndVerifier)
      (drawn : isVerifier srp (.createVerifier name defaultPassword) pair = true) :
      Does srp (.existsKey name) store heard []
        (store.returns { name := name, salt := pair.map Prod.fst, verifier := pair.map Prod.snd })
  | readAccount {acc : Record} {store : Store} {heard : List (Reply SaltAndVerifier)} :
      Does srp (.hget .account acc) store heard
        [.hget .salt { acc with id := (store.users acc.name).account }] store
  | readSalt {acc : Record} {store : Store} {heard : List (Reply SaltAndVerifier)} :
      Does srp (.hget .salt acc) store heard
        [.hget .verifier { acc with salt := (store.users acc.name).salt }] store
  | readVerifier {acc : Record} {store : Store} {heard : List (Reply SaltAndVerifier)} :
      Does srp (.hget .verifier acc) store heard []
        (store.returns { acc with verifier := (store.users acc.name).verifier })
  | creates {id : ℤ} {name password : String} {store : Store} {heard : List (Reply SaltAndVerifier)} :
      Does srp (.create (some id) (some name) (some password)) store heard [.hsetnx id name password] store
  | reserves {id : ℤ} {name password : String} {store : Store} {heard : List (Reply SaltAndVerifier)}
      {pair : SaltAndVerifier} (fresh : (store.users name).account = none) (hears : .answer pair ∈ heard)
      (drawn : isVerifier srp (.createVerifier name password) pair = true) :
      Does srp (.hsetnx id name password) store heard [.hmset id name password pair] (store.hsetnx name id)
  | losesReply {id : ℤ} {name password : String} {store : Store} {heard : List (Reply SaltAndVerifier)}
      (fresh : (store.users name).account = none) (hears : .lost ∈ heard) :
      Does srp (.hsetnx id name password) store heard [] (store.hsetnx name id)
  | completes {id : ℤ} {name password : String} {salt verifier : ℕ} {store : Store}
      {heard : List (Reply SaltAndVerifier)} :
      Does srp (.hmset id name password (some (salt, verifier))) store heard []
        (store.hmset srp { id := id, name := name, password := password, salt := salt })
  /-- A `create` gives up between its two writes: the command is not executed, or it has no values. -/
  | abandons {id : ℤ} {name password : String} {pair : SaltAndVerifier} {store : Store}
      {heard : List (Reply SaltAndVerifier)} (cause : .failed ∈ heard ∨ pair = none) :
      Does srp (.hmset id name password pair) store heard [] store

/-- The contract of the module. -/
def accountContract (srp : String → String → ℕ → ℕ) : Contract (accountRedis srp) AccountPoint Store :=
  .stateless (fun point ↦ (accountService srp).arrives point = true) (Does srp)

/-- A section that starts no coroutine keeps its promise when it has the effect. -/
theorem ends_of_does {point : AccountPoint} {origin state : Store} {heard : List (Reply SaltAndVerifier)}
    {left : List AccountPoint} (hdoes : Does srp point origin heard left state) :
    (accountContract srp).Ends ⟨point, origin, heard, []⟩ left state :=
  ⟨hdoes, fun _ hfork ↦ nomatch hfork⟩

/-- A name that has an account keeps its id. -/
theorem Store.hsetnx_of_some {store : Store} {name : String} {id : ℤ}
    (h : (store.users name).account.isSome = true) : store.hsetnx name id = store := by
  obtain ⟨old, hold⟩ := Option.isSome_iff_exists.mp h
  have hsame : { store.users name with account := (store.users name).account.or (some id) } =
      store.users name := by
    rw [hold, Option.some_or, ← hold]
  calc store.hsetnx name id
      = { store with users := Function.update store.users name (store.users name) } :=
        congrArg (fun user ↦ { store with users := Function.update store.users name user }) hsame
    _ = store := by rw [Function.update_eq_self]

/-- `srp.create_verifier` gives a pair that fits its arguments, or nothing. -/
theorem wp_createVerifier {name password : String} {post : SaltAndVerifier →
      Section (accountRedis srp) AccountPoint Store → Store → Prop}
    {raised : LuaError → Section (accountRedis srp) AccountPoint Store → Store → Prop}
    {current : Section (accountRedis srp) AccountPoint Store} {state : Store}
    (h : ∀ pair, isVerifier srp (.createVerifier name password) pair = true →
      post pair { current with heard := current.heard ++ [.answer pair] } state) :
    (createVerifier srp name password).wp (accountContract srp) post raised current state := by
  rw [createVerifier, Program.wp_bind]
  intro reply hadmissible
  cases reply with
  | answer pair => exact h pair hadmissible
  | done => exact nomatch hadmissible
  | lost => exact nomatch hadmissible
  | failed => exact nomatch hadmissible

/-- A coroutine that fails where it has changed nothing keeps the contract. -/
theorem raised_of_calm {point : AccountPoint} {store : Store} {heard : List (Reply SaltAndVerifier)}
    {error : LuaError} (hcalm : ∀ name, point.writes name = false) :
    (accountContract srp).raised error ⟨point, store, heard, []⟩ store :=
  ⟨trivial, ends_of_does (.ended hcalm)⟩

/-- `account.load` keeps the contract. -/
theorem keeps_load (name : Option String) (store : Store) (heard : List (Reply SaltAndVerifier)) :
    (accountContract srp).Keeps (Account.load srp name) ⟨.load name, store, heard, []⟩ store := by
  cases name with
  | none => exact raised_of_calm fun _ ↦ rfl
  | some name =>
    refine (Program.wp_bind _ _ _ _ _ _).mpr (wp_command (ends_of_does .loads)
      (fun reply later _ _ ↦ ?_) (fun _ ↦ raised_of_calm fun _ ↦ rfl)
      (fun _ ↦ raised_of_calm fun _ ↦ rfl))
    cases hknown : (later.users name).exists? with
    | false =>
      refine (Program.wp_bind _ _ _ _ _ _).mpr (wp_createVerifier fun pair hdrawn ↦ ?_)
      exact ends_of_does (.missing pair hdrawn)
    | true =>
      refine (Program.wp_bind _ _ _ _ _ _).mpr (wp_command (ends_of_does (.found hknown))
        (fun reply later _ _ ↦ ?_) (fun _ ↦ raised_of_calm fun _ ↦ rfl)
        (fun _ ↦ raised_of_calm fun _ ↦ rfl))
      refine (Program.wp_bind _ _ _ _ _ _).mpr (wp_command (ends_of_does .readAccount)
        (fun reply later _ _ ↦ ?_) (fun _ ↦ raised_of_calm fun _ ↦ rfl)
        (fun _ ↦ raised_of_calm fun _ ↦ rfl))
      refine (Program.wp_bind _ _ _ _ _ _).mpr (wp_command (ends_of_does .readSalt)
        (fun reply later _ _ ↦ ?_) (fun _ ↦ raised_of_calm fun _ ↦ rfl)
        (fun _ ↦ raised_of_calm fun _ ↦ rfl))
      exact ends_of_does .readVerifier

/-- `account.create` keeps the contract. -/
theorem keeps_create (id : Option ℤ) (name password : Option String) (store : Store)
    (heard : List (Reply SaltAndVerifier)) :
    (accountContract srp).Keeps (Account.create srp id name password) ⟨.create id name password, store, heard, []⟩
      store := by
  rcases id with _ | id
  · exact raised_of_calm fun _ ↦ rfl
  rcases name with _ | name
  · exact raised_of_calm fun _ ↦ rfl
  rcases password with _ | password
  · exact raised_of_calm fun _ ↦ rfl
  simp only [Account.create]
  split_ifs with hsizes
  · refine (Program.wp_bind _ _ _ _ _ _).mpr (wp_command (ends_of_does .creates)
      (fun reply later _ _ ↦ ?_) (fun later ↦ ?_) (fun _ ↦ raised_of_calm fun _ ↦ rfl))
    · cases hfresh : (later.users name).account with
      | some old =>
        rw [Store.hsetnx_of_some (by rw [hfresh]; rfl)]
        exact raised_of_calm fun _ ↦ rfl
      | none =>
        refine (Program.wp_bind _ _ _ _ _ _).mpr (wp_createVerifier fun pair hdrawn ↦ ?_)
        have hreserves : Does srp (.hsetnx id name password) later ([reply] ++ [.answer pair])
            [.hmset id name password pair] (later.hsetnx name id) :=
          .reserves hfresh (by simp) hdrawn
        rcases pair with _ | ⟨salt, verifier⟩
        · exact ⟨ends_of_does hreserves, fun _ _ _ ↦ ⟨trivial, ends_of_does (.abandons (.inr rfl))⟩⟩
        · exact wp_command (ends_of_does hreserves) (fun _ _ _ _ ↦ ends_of_does .completes)
            (fun _ ↦ ⟨trivial, ends_of_does .completes⟩)
            fun _ ↦ ⟨trivial, ends_of_does (.abandons (.inl List.mem_cons_self))⟩
    · cases hfresh : (later.users name).account with
      | some old =>
        rw [Store.hsetnx_of_some (by rw [hfresh]; rfl)]
        exact raised_of_calm fun _ ↦ rfl
      | none => exact ⟨trivial, ends_of_does (.losesReply hfresh List.mem_cons_self)⟩
  · exact raised_of_calm fun _ ↦ rfl

/-- A section of the module has one of these effects. -/
theorem keeps_accountEntry {point : AccountPoint} (harrives : (accountService srp).arrives point = true)
    (store : Store) (heard : List (Reply SaltAndVerifier)) :
    (accountContract srp).Keeps (accountEntry srp point) ⟨point, store, heard, []⟩ store := by
  cases point with
  | load name => exact keeps_load name store heard
  | create id name password => exact keeps_create id name password store heard
  | existsKey name => exact nomatch harrives
  | hget field acc => exact nomatch harrives
  | hsetnx id name password => exact nomatch harrives
  | hmset id name password pair => exact nomatch harrives

/-! ### The invariant -/

/-- The hash that a completed `create` leaves. -/
def Creation.account (srp : String → String → ℕ → ℕ) (creation : Creation) : Account where
  account := some creation.id
  salt := some creation.salt
  verifier := some (srp creation.name creation.password creation.salt)

/-- The record that `load` returns for it. -/
def Creation.record (srp : String → String → ℕ → ℕ) (creation : Creation) : Record where
  name := creation.name
  id := some creation.id
  salt := some creation.salt
  verifier := some (srp creation.name creation.password creation.salt)

/-- The default record of a name without an account: no id, and the salt and the verifier of one call of
`srp.create_verifier` with the default password. -/
def Record.Fresh (srp : String → String → ℕ → ℕ) (record : Record) : Prop :=
  record.id = none ∧ ∃ pair, isVerifier srp (.createVerifier record.name defaultPassword) pair = true ∧
    record.salt = pair.map Prod.fst ∧ record.verifier = pair.map Prod.snd

/-- A record all of whose fields one `create` has written. -/
def Record.Complete (srp : String → String → ℕ → ℕ) (created : List Creation) (record : Record) : Prop :=
  ∃ creation ∈ created, record = creation.record srp

/-- A hash that does not exist, or all of whose fields one `create` of the name has written. -/
def Store.Whole (srp : String → String → ℕ → ℕ) (store : Store) (name : String) : Prop :=
  store.users name = {} ∨
    ∃ creation ∈ store.created, creation.name = name ∧ store.users name = creation.account srp

/-- What holds of the hash while a coroutine waits at a point. -/
def Store.Fits (srp : String → String → ℕ → ℕ) (store : Store) : AccountPoint → Prop
  | .hget .account acc => acc = { name := acc.name } ∧ (store.users acc.name).account.isSome = true
  | .hget .salt acc => acc = { name := acc.name, id := (store.users acc.name).account } ∧
      (store.users acc.name).account.isSome = true
  | .hget .verifier acc => ∃ creation ∈ store.created, creation.name = acc.name ∧
      store.users acc.name = creation.account srp ∧ acc = { creation.record srp with verifier := none }
  | .hmset id name password pair => store.users name = { account := some id } ∧
      ∃ salt, pair = some (salt, srp name password salt)
  | _ => True

/-- The invariant of the module. -/
structure Records (srp : String → String → ℕ → ℕ) (store : Store) (points : List AccountPoint) : Prop where
  fits : ∀ point ∈ points, store.Fits srp point
  single : ∀ name, (points.filter (AccountPoint.writes name)).length ≤ 1
  whole : ∀ name, (∀ point ∈ points, point.writes name = false) → store.Whole srp name
  loaded : ∀ record ∈ store.loaded, record.Fresh srp ∨ record.Complete srp store.created

/-- What a coroutine knows stays true when a name gets its id, and when a half-written account that the
coroutine does not write is completed. -/
theorem Store.Fits.mono {store later : Store} {point : AccountPoint} (hfits : store.Fits srp point)
    (hcreated : store.created ⊆ later.created)
    (husers : ∀ name, later.users name = store.users name ∨ (store.users name).account = none ∨
      point.writes name = false ∧ (later.users name).account = (store.users name).account ∧
        (store.users name).salt = none) : later.Fits srp point := by
  cases point with
  | load name => exact trivial
  | create id name password => exact trivial
  | existsKey name => exact trivial
  | hsetnx id name password => exact trivial
  | hget field acc =>
    cases field with
    | account =>
      obtain ⟨hacc, hsome⟩ := hfits
      refine ⟨hacc, ?_⟩
      rcases husers acc.name with hsame | hnone | ⟨-, hsame, -⟩
      · rwa [hsame]
      · rw [hnone] at hsome
        cases hsome
      · rwa [hsame]
    | salt =>
      obtain ⟨hacc, hsome⟩ := hfits
      rcases husers acc.name with hsame | hnone | ⟨-, hsame, -⟩
      · exact ⟨by rw [hsame]; exact hacc, by rwa [hsame]⟩
      · rw [hnone] at hsome
        cases hsome
      · exact ⟨by rw [hsame]; exact hacc, by rwa [hsame]⟩
    | verifier =>
      obtain ⟨creation, hcreation, hname, haccount, hacc⟩ := hfits
      refine ⟨creation, hcreated hcreation, hname, ?_, hacc⟩
      rcases husers acc.name with hsame | hnone | ⟨-, -, hnone⟩
      · rwa [hsame]
      · rw [haccount] at hnone
        cases hnone
      · rw [haccount] at hnone
        cases hnone
  | hmset id name password pair =>
    obtain ⟨haccount, hpair⟩ := hfits
    refine ⟨?_, hpair⟩
    rcases husers name with hsame | hnone | ⟨hwrites, -, -⟩
    · rwa [hsame]
    · rw [haccount] at hnone
      cases hnone
    · have hself : (AccountPoint.hmset id name password pair).writes name = true := beq_self_eq_true name
      rw [hself] at hwrites
      cases hwrites

namespace Records

variable {store later : Store} {before left after : List AccountPoint} {point : AccountPoint}

/-- A name that no coroutine writes after a section, nor the coroutine that ran it, is whole before. -/
theorem whole_before (h : Records srp store (before ++ point :: after)) {name : String}
    (hpoint : point.writes name = false) (hfree : ∀ other ∈ before ++ left ++ after, other.writes name = false) :
    store.Whole srp name := by
  refine h.whole name fun other hother ↦ ?_
  simp only [List.mem_append, List.mem_cons] at hother
  rcases hother with hbefore | rfl | hafter
  · exact hfree other (List.mem_append_left _ (List.mem_append_left _ hbefore))
  · exact hpoint
  · exact hfree other (List.mem_append_right _ hafter)

/-- A section that changes no hash, of a coroutine that is not between two writes. -/
theorem calm (h : Records srp store (before ++ point :: after)) (hpoint : ∀ name, point.writes name = false)
    (hleft : ∀ other ∈ left, (∀ name, other.writes name = false) ∧ store.Fits srp other)
    (husers : later.users = store.users) (hcreated : later.created = store.created)
    (hloaded : ∀ record ∈ later.loaded, record ∈ store.loaded ∨ record.Fresh srp ∨
      record.Complete srp store.created) : Records srp later (before ++ left ++ after) where
  fits := by
    intro other hother
    have hfits : store.Fits srp other := by
      rcases mem_of_left hother with hnew | hold
      · exact (hleft other hnew).2
      · exact h.fits other hold
    exact hfits.mono (by rw [hcreated]; exact List.Subset.refl _) fun name ↦ .inl (by rw [husers])
  single := by
    intro name
    exact (length_filter_left_le point fun other hother ↦ (hleft other hother).1 name).trans (h.single name)
  whole := by
    intro name hfree
    have hwhole := h.whole_before (hpoint name) hfree
    unfold Store.Whole
    rw [husers, hcreated]
    exact hwhole
  loaded := by
    intro record hrecord
    rw [hcreated]
    rcases hloaded record hrecord with hold | hnew
    · exact h.loaded record hold
    · exact hnew

/-- A coroutine between its two writes keeps the id of its name. -/
theorem account_of_writes (h : Records srp store before) {name : String} (hmem : point ∈ before)
    (hwrites : point.writes name = true) : (store.users name).account.isSome = true := by
  cases point with
  | hmset id written password pair =>
    obtain ⟨haccount, -⟩ := h.fits _ hmem
    obtain rfl : written = name := by simpa [AccountPoint.writes] using hwrites
    rw [haccount]
    rfl
  | load _ => exact nomatch hwrites
  | create _ _ _ => exact nomatch hwrites
  | existsKey _ => exact nomatch hwrites
  | hget _ _ => exact nomatch hwrites
  | hsetnx _ _ _ => exact nomatch hwrites

/-- A hash that exists has an id. -/
theorem account_of_exists (h : Records srp store before) {name : String}
    (hexists : (store.users name).exists? = true) : (store.users name).account.isSome = true := by
  by_cases hwriter : ∃ other ∈ before, other.writes name = true
  · obtain ⟨other, hother, hwrites⟩ := hwriter
    exact h.account_of_writes hother hwrites
  · have hfree : ∀ other ∈ before, other.writes name = false := by
      intro other hother
      by_contra hwrites
      exact hwriter ⟨other, hother, by simpa using hwrites⟩
    rcases h.whole name hfree with hempty | ⟨creation, -, -, haccount⟩
    · rw [hempty] at hexists
      cases hexists
    · rw [haccount]
      rfl

/-- A name gets its id, and the `create` goes on to its second write. -/
theorem reserve {id : ℤ} {name password : String} {salt : ℕ}
    (h : Records srp store (before ++ .hsetnx id name password :: after))
    (hnone : (store.users name).account = none) :
    Records srp (store.hsetnx name id)
      (before ++ [.hmset id name password (some (salt, srp name password salt))] ++ after) := by
  have hfree : ∀ other ∈ before ++ .hsetnx id name password :: after, other.writes name = false := by
    intro other hother
    by_contra hwrites
    have hsome := h.account_of_writes hother (by simpa using hwrites)
    rw [hnone] at hsome
    cases hsome
  have hempty : store.users name = {} := by
    rcases h.whole name hfree with hempty | ⟨creation, -, -, haccount⟩
    · exact hempty
    · rw [haccount] at hnone
      cases hnone
  have hnew : (store.hsetnx name id).users name = { account := some id } := by
    simp [Store.hsetnx, Store.update, hempty]
  have hold : ∀ other, other ≠ name → (store.hsetnx name id).users other = store.users other := by
    intro other hne
    simp [Store.hsetnx, Store.update, hne]
  refine ⟨?_, ?_, ?_, h.loaded⟩
  · intro other hother
    rcases mem_of_left hother with hmem | hmem
    · obtain rfl := List.mem_singleton.mp hmem
      exact ⟨hnew, salt, rfl⟩
    · refine (h.fits other hmem).mono (List.Subset.refl _) fun key ↦ ?_
      by_cases hkey : key = name
      · exact .inr (.inl (by rw [hkey]; exact hnone))
      · exact .inl (hold key hkey)
  · intro key
    by_cases hkey : name = key
    · subst hkey
      refine single_of_alone _ fun other hother ↦ hfree other ?_
      simp only [List.mem_append, List.mem_cons] at hother ⊢
      tauto
    · refine (length_filter_left_le _ fun other hother ↦ ?_).trans (h.single key)
      obtain rfl := List.mem_singleton.mp hother
      exact beq_eq_false_iff_ne.mpr hkey
  · intro key hfreed
    have hkey : key ≠ name := by
      rintro rfl
      have hself := hfreed _ (List.mem_append_left _ (List.mem_append_right _ List.mem_cons_self))
      simp [AccountPoint.writes] at hself
    have hwhole := h.whole_before rfl hfreed
    unfold Store.Whole
    rw [hold key hkey]
    exact hwhole

/-- The second write completes the account. -/
theorem complete {id : ℤ} {name password : String} {salt verifier : ℕ}
    (h : Records srp store (before ++ .hmset id name password (some (salt, verifier)) :: after)) :
    Records srp (store.hmset srp { id := id, name := name, password := password, salt := salt })
      (before ++ [] ++ after) := by
  obtain ⟨hhalf, -⟩ := h.fits _ (List.mem_append_right _ List.mem_cons_self)
  generalize hcreation : ({ id := id, name := name, password := password, salt := salt } : Creation) = creation
  have hname : creation.name = name := by rw [← hcreation]
  have hwrites : (AccountPoint.hmset id name password (some (salt, verifier))).writes name = true :=
    beq_self_eq_true name
  have halone := alone_of_single (h.single name) hwrites
  have hnew : (store.hmset srp creation).users name = creation.account srp := by
    subst hcreation
    simp [Store.hmset, Store.update, Creation.account, hhalf]
  have hold : ∀ other, other ≠ name → (store.hmset srp creation).users other = store.users other := by
    intro other hne
    rw [← hname] at hne
    simp [Store.hmset, Store.update, hne]
  have hgrows : store.created ⊆ (store.hmset srp creation).created := List.subset_append_left _ _
  refine ⟨?_, ?_, ?_, ?_⟩
  · intro other hother
    have hfits : store.Fits srp other := h.fits other ((mem_of_left hother).resolve_left List.not_mem_nil)
    rw [List.append_nil] at hother
    refine hfits.mono hgrows fun key ↦ ?_
    by_cases hkey : key = name
    · refine .inr (.inr ⟨hkey ▸ halone other hother, ?_, ?_⟩)
      · rw [hkey, hnew, hhalf, ← hcreation]
        rfl
      · rw [hkey, hhalf]
    · exact .inl (hold key hkey)
  · intro key
    exact (length_filter_left_le _ fun _ hother ↦ (List.not_mem_nil hother).elim).trans (h.single key)
  · intro key hfreed
    by_cases hkey : key = name
    · exact .inr ⟨creation, List.mem_append_right _ List.mem_cons_self, by rw [hname, hkey], by rw [hkey, hnew]⟩
    · have hwhole := h.whole_before (beq_eq_false_iff_ne.mpr (Ne.symm hkey)) hfreed
      unfold Store.Whole
      rw [hold key hkey]
      rcases hwhole with hempty | ⟨earlier, hearlier, hrest⟩
      · exact .inl hempty
      · exact .inr ⟨earlier, hgrows hearlier, hrest⟩
  · intro record hrecord
    rcases h.loaded record hrecord with hfresh | ⟨earlier, hearlier, hrest⟩
    · exact .inl hfresh
    · exact .inr ⟨earlier, hgrows hearlier, hrest⟩

end Records

/-! ### Runs -/

/-- The conditions on a section: a `load` reads the salt of a name only when no `create` is between its two
writes, and a `create` that sets the id does not fail before its second write is executed. -/
def Undisturbed (store : Store) (points : List AccountPoint) :
    AccountPoint → List (Reply SaltAndVerifier) → Prop
  | .hget .salt acc, _ => ∀ point ∈ points, point.writes acc.name = false
  | .hsetnx _ name _, heard => (store.users name).account = none → .lost ∉ heard ∧ .answer none ∉ heard
  | .hmset _ _ _ _, heard => .failed ∉ heard
  | _, _ => True

instance (store : Store) (points : List AccountPoint) :
    (point : AccountPoint) → (heard : List (Reply SaltAndVerifier)) →
      Decidable (Undisturbed store points point heard)
  | .load _, _ | .create _ _ _, _ | .existsKey _, _ | .hget .account _, _ | .hget .verifier _, _ =>
    inferInstanceAs (Decidable True)
  | .hget .salt acc, _ => inferInstanceAs (Decidable (∀ point ∈ points, point.writes acc.name = false))
  | .hsetnx _ name _, heard => inferInstanceAs
    (Decidable ((store.users name).account = none → .lost ∉ heard ∧ .answer none ∉ heard))
  | .hmset _ _ _ _, heard => inferInstanceAs (Decidable (.failed ∉ heard))

/-- One section keeps the invariant. -/
theorem Records.step {store later : Store} {before left after : List AccountPoint} {point : AccountPoint}
    {heard : List (Reply SaltAndVerifier)} (h : Records srp store (before ++ point :: after))
    (hmeets : Undisturbed store (before ++ point :: after) point heard)
    (hdoes : Does srp point store heard left later) : Records srp later (before ++ left ++ after) := by
  have hpoint : store.Fits srp point := h.fits point (List.mem_append_right _ List.mem_cons_self)
  cases hdoes with
  | ended calm => exact h.calm calm (fun _ hother ↦ nomatch hother) rfl rfl fun _ hold ↦ .inl hold
  | loads =>
    refine h.calm (fun _ ↦ rfl) (fun other hother ↦ ?_) rfl rfl fun _ hold ↦ .inl hold
    obtain rfl := List.mem_singleton.mp hother
    exact ⟨fun _ ↦ rfl, trivial⟩
  | @found name _ _ known =>
    refine h.calm (fun _ ↦ rfl) (fun other hother ↦ ?_) rfl rfl fun _ hold ↦ .inl hold
    obtain rfl := List.mem_singleton.mp hother
    exact ⟨fun _ ↦ rfl, rfl, h.account_of_exists known⟩
  | missing pair drawn =>
    refine h.calm (fun _ ↦ rfl) (fun _ hother ↦ nomatch hother) rfl rfl fun record hrecord ↦ ?_
    rcases List.mem_append.mp hrecord with hold | hnew
    · exact .inl hold
    · obtain rfl := List.mem_singleton.mp hnew
      exact .inr (.inl ⟨rfl, pair, drawn, rfl, rfl⟩)
  | readAccount =>
    obtain ⟨hacc, hsome⟩ := hpoint
    refine h.calm (fun _ ↦ rfl) (fun other hother ↦ ?_) rfl rfl fun _ hold ↦ .inl hold
    obtain rfl := List.mem_singleton.mp hother
    exact ⟨fun _ ↦ rfl, by rw [hacc], hsome⟩
  | readSalt =>
    obtain ⟨hacc, hsome⟩ := hpoint
    refine h.calm (fun _ ↦ rfl) (fun other hother ↦ ?_) rfl rfl fun _ hold ↦ .inl hold
    obtain rfl := List.mem_singleton.mp hother
    refine ⟨fun _ ↦ rfl, ?_⟩
    rcases h.whole _ hmeets with hempty | ⟨creation, hcreation, hname, haccount⟩
    · rw [hempty] at hsome
      cases hsome
    · refine ⟨creation, hcreation, hname, haccount, ?_⟩
      rw [hacc, haccount, ← hname]
      rfl
  | readVerifier =>
    obtain ⟨creation, hcreation, hname, haccount, hacc⟩ := hpoint
    refine h.calm (fun _ ↦ rfl) (fun _ hother ↦ nomatch hother) rfl rfl fun record hrecord ↦ ?_
    rcases List.mem_append.mp hrecord with hold | hnew
    · exact .inl hold
    · obtain rfl := List.mem_singleton.mp hnew
      refine .inr (.inr ⟨creation, hcreation, ?_⟩)
      rw [haccount, hacc]
      rfl
  | creates =>
    refine h.calm (fun _ ↦ rfl) (fun other hother ↦ ?_) rfl rfl fun _ hold ↦ .inl hold
    obtain rfl := List.mem_singleton.mp hother
    exact ⟨fun _ ↦ rfl, trivial⟩
  | @reserves _ _ _ _ _ pair fresh hears drawn =>
    obtain ⟨-, hnone⟩ := hmeets fresh
    rcases pair with _ | ⟨salt, verifier⟩
    · exact absurd hears hnone
    · obtain rfl := eq_of_beq drawn
      exact h.reserve fresh
  | losesReply fresh hears => exact absurd hears (hmeets fresh).1
  | completes => exact h.complete
  | abandons cause =>
    rcases cause with hfailed | rfl
    · exact absurd hfailed hmeets
    · obtain ⟨-, salt, hpair⟩ := hpoint
      cases hpair

/-- The condition on the moves. -/
def UndisturbedMove (srp : String → String → ℕ → ℕ) :
    Configuration (accountRedis srp) AccountPoint Store → Move (accountRedis srp) AccountPoint → Prop :=
  Hears fun configuration ↦ Undisturbed configuration.state configuration.points

instance (configuration : Configuration (accountRedis srp) AccountPoint Store)
    (move : Move (accountRedis srp) AccountPoint) : Decidable (UndisturbedMove srp configuration move) :=
  inferInstanceAs (Decidable (Hears _ configuration move))

/-- The module keeps the invariant. -/
theorem sound_accountService : (accountService srp).Sound (accountContract srp) (Records srp)
    (UndisturbedMove srp) := by
  refine System.sound_stateless (fun point reply state hstarts ↦ keeps_accountEntry hstarts state [reply])
    ?_ ?_
  · intro configuration point _ harrives hinv
    refine ⟨?_, harrives⟩
    have hcalm : ∀ name, point.writes name = false ∧ configuration.state.Fits srp point := by
      intro name
      cases point with
      | load _ => exact ⟨rfl, trivial⟩
      | create _ _ _ => exact ⟨rfl, trivial⟩
      | existsKey _ => exact nomatch harrives
      | hget _ _ => exact nomatch harrives
      | hsetnx _ _ _ => exact nomatch harrives
      | hmset _ _ _ _ => exact nomatch harrives
    refine ⟨?_, ?_, ?_, hinv.loaded⟩
    · intro other hother
      rcases List.mem_append.mp hother with hold | hnew
      · exact hinv.fits other hold
      · obtain rfl := List.mem_singleton.mp hnew
        exact (hcalm "").2
    · intro name
      rw [List.filter_append, List.filter_cons_of_neg (by simp [(hcalm name).1]), List.filter_nil,
        List.append_nil]
      exact hinv.single name
    · exact fun name hfree ↦ hinv.whole name fun other hother ↦ hfree other (List.mem_append_left _ hother)
  · intro configuration before point after reply answers left last hmeets hpoints hinv hdoes
    have hhears := Hears.meets hmeets hpoints
    rw [hpoints] at hhears hinv
    exact hinv.step hhears hdoes

/-- In a run in which no `load` reads the salt of a name between the two writes of a `create`, and no
`create` that has set the id fails before its second write, `load` returns default records and complete
ones only, and a hash that no `create` is writing has all its fields from one `create` when it exists. -/
theorem accounts_complete (srp : String → String → ℕ → ℕ)
    {last : Configuration (accountRedis srp) AccountPoint Store}
    (hrun : (accountService srp).Run (UndisturbedMove srp) ⟨emptyStore, [], []⟩ last) :
    (∀ record ∈ last.state.loaded, record.Fresh srp ∨ record.Complete srp last.state.created) ∧
      ∀ name, (∀ point ∈ last.points, point.writes name = false) →
        (last.state.users name).exists? = true → ∃ creation ∈ last.state.created,
          creation.name = name ∧ last.state.users name = creation.account srp := by
  have hempty : Records srp emptyStore [] :=
    ⟨fun _ hmem ↦ (List.not_mem_nil hmem).elim, fun _ ↦ Nat.zero_le 1, fun _ _ ↦ .inl rfl,
      fun _ hmem ↦ (List.not_mem_nil hmem).elim⟩
  have hgood := (sound_accountService.good_of_run
    (sound_accountService.good_of_starts hempty fun _ hmem ↦ nomatch hmem) hrun).holds
  refine ⟨hgood.loaded, fun name hfree hexists ↦ ?_⟩
  rcases hgood.whole name hfree with hnone | hcreation
  · rw [hnone] at hexists
    cases hexists
  · exact hcreation

/-! ### Two runs -/

/-- A verifier for the runs below. -/
def exampleSrp (_ _ : String) (salt : ℕ) : ℕ := salt + 1

/-- A `create` for the account `1` that has set the id. -/
def setsId : List (Move (accountRedis exampleSrp) AccountPoint) :=
  [.arrive (.create (some 1) (some "a") (some "b")), .resume 0 .done [],
    .resume 0 .done [.answer (some (5, 6))]]

/-- A `load` that starts at an index and reads all fields. -/
def loads (index : ℕ) : List (Move (accountRedis exampleSrp) AccountPoint) :=
  [.arrive (.load (some "a")), .resume index .done [], .resume index .done [], .resume index .done [],
    .resume index .done [], .resume index .done []]

/-- The account is created, and then it is loaded. -/
theorem accounts_complete_load :
    ∃ last : Configuration (accountRedis exampleSrp) AccountPoint Store,
      (accountService exampleSrp).Run (UndisturbedMove exampleSrp) ⟨emptyStore, [], []⟩ last ∧
      last.state.loaded = [⟨"a", some 1, some 5, some 6⟩] ∧
      ∀ record ∈ last.state.loaded, record.Fresh exampleSrp ∨
        record.Complete exampleSrp last.state.created := by
  obtain ⟨last, hrun, hloaded⟩ := (accountService exampleSrp).exists_run_of_playMeeting
    (UndisturbedMove exampleSrp) ⟨emptyStore, [], []⟩ (setsId ++ [.resume 0 .done []] ++ loads 0)
    (fun last ↦ last.state.loaded)
    (show _ = some [⟨"a", some 1, some 5, some 6⟩] by decide +kernel)
  exact ⟨last, hrun, hloaded, (accounts_complete exampleSrp hrun).1⟩

/-- A `load` between the two writes of a `create` returns a record with an id and no verifier. -/
theorem load_half_written :
    ∃ last : Configuration (accountRedis exampleSrp) AccountPoint Store,
      (accountService exampleSrp).AnyRun ⟨emptyStore, [], []⟩ last ∧
      ¬ ∀ record ∈ last.state.loaded, record.Fresh exampleSrp ∨
        record.Complete exampleSrp last.state.created := by
  obtain ⟨last, hrun, hvalue⟩ := (accountService exampleSrp).exists_run_of_playAll
    ⟨emptyStore, [], []⟩ (setsId ++ loads 1)
    (fun last ↦ (last.state.loaded, last.state.created))
    (show _ = some ([⟨"a", some 1, none, none⟩], []) by decide +kernel)
  obtain ⟨hloaded, hcreated⟩ := Prod.mk.inj hvalue
  refine ⟨last, hrun, fun hall ↦ ?_⟩
  rcases hall ⟨"a", some 1, none, none⟩ (by rw [hloaded]; exact List.mem_cons_self) with
    hfresh | ⟨creation, hcreation, -⟩
  · cases hfresh.1
  · rw [hcreated] at hcreation
    cases hcreation

end SvrDemo.Database
