import SvrDemo.Database.Redis

/-!
# Account records

`account.load` reads the hash of an account field by field, and `account.create` writes it in two parts:
the id first, by the `hsetnx` that keeps a second account of the name out, and the salt and the verifier
after they have been computed. Between the two writes the record is half-written, and a `create` that
fails there leaves it so.

`Store.loaded` and `Store.created` are histories: the records that `load` has returned and the accounts of
which `create` has written all fields. `srp` is the verifier of a name, a password and a salt.
-/

set_option autoImplicit false
set_option relaxedAutoImplicit false

namespace SvrDemo.Database

open Coroutine Skynet

/-! ### The module -/

/-- What the account module asks inside a section: `srp.create_verifier (name, password)`. -/
inductive AccountQuery
  | createVerifier (name password : String)
  deriving DecidableEq

/-- `srp.create_verifier` returns a salt and the verifier, or nothing when it fails. -/
abbrev SaltAndVerifier : Type := Option (ℕ × ℕ)

/-- The verifier is that of the name and the password with the salt that was drawn. -/
def isVerifier (srp : String → String → ℕ → ℕ) : AccountQuery → SaltAndVerifier → Bool
  | _, none => true
  | .createVerifier name password, some (salt, verifier) => verifier == srp name password salt

/-- The interface of the account module. -/
abbrev accountRedis (srp : String → String → ℕ → ℕ) : Interface :=
  redis AccountQuery SaltAndVerifier (isVerifier srp)

/-- The fields of the hash `user:name`. -/
structure Account where
  account : Option ℤ := none
  salt : Option ℕ := none
  verifier : Option ℕ := none
  deriving DecidableEq

/-- A key exists when its hash has a field. -/
def Account.exists? (account : Account) : Bool :=
  account.account.isSome || account.salt.isSome || account.verifier.isSome

/-- What `account.load` returns. -/
structure Record where
  name : String
  id : Option ℤ := none
  salt : Option ℕ := none
  verifier : Option ℕ := none
  deriving DecidableEq

/-- What a call of `account.create` writes. -/
structure Creation where
  id : ℤ
  name : String
  password : String
  salt : ℕ
  deriving DecidableEq

/-- The hashes of all names, the records that have been returned, and the accounts that have been
written completely. -/
structure Store where
  users : String → Account
  loaded : List Record
  created : List Creation

/-- The fields that `account.load` reads, in order. -/
inductive Field
  | account
  | salt
  | verifier
  deriving DecidableEq

/-- Where the coroutines of the module wait: for their first turn, and for redis. A point carries what
the coroutine has in its local variables. -/
inductive AccountPoint
  | load (name : Option String)
  | create (id : Option ℤ) (name password : Option String)
  | existsKey (name : String)
  | hget (field : Field) (acc : Record)
  | hsetnx (id : ℤ) (name password : String)
  | hmset (id : ℤ) (name password : String) (pair : SaltAndVerifier)
  deriving DecidableEq

/-- A coroutine of the module. -/
abbrev AccountTask (srp : String → String → ℕ → ℕ) (α : Type) : Type :=
  Program (accountRedis srp) AccountPoint Store α

namespace Store

/-- Change the hash of a name. -/
def update (store : Store) (name : String) (change : Account → Account) : Store :=
  { store with users := Function.update store.users name (change (store.users name)) }

/-- `hsetnx (key, "account", id)`. -/
def hsetnx (store : Store) (name : String) (id : ℤ) : Store :=
  store.update name fun user ↦ { user with account := user.account.or (some id) }

/-- `hmset (key, "salt", salt, "verifier", verifier)`, which completes the account. -/
def hmset (srp : String → String → ℕ → ℕ) (store : Store) (creation : Creation) : Store :=
  let store := store.update creation.name fun user ↦ { user with
    salt := some creation.salt
    verifier := some (srp creation.name creation.password creation.salt) }
  { store with created := store.created ++ [creation] }

/-- A record is returned. -/
def returns (store : Store) (record : Record) : Store :=
  { store with loaded := store.loaded ++ [record] }

end Store

section Module

variable (srp : String → String → ℕ → ℕ)

/-- `constant.default_password`. -/
def defaultPassword : String := "123abcDef$%^"

/-- `srp.create_verifier`. -/
def createVerifier (name password : String) : AccountTask srp SaltAndVerifier := do
  match ← Program.query (I := accountRedis srp) (.createVerifier name password) with
  | .answer pair => return pair
  | _ => return none

/-- `account.load`. -/
def Account.load : Option String → AccountTask srp Unit
  | none => .fail .assertionFailed
  | some name => do
    if ← reading (.existsKey name) fun store ↦ (store.users name).exists? then
      let acc : Record := { name := name }
      let id ← reading (.hget .account acc) fun store ↦ (store.users name).account
      let acc := { acc with id := id }
      let salt ← reading (.hget .salt acc) fun store ↦ (store.users name).salt
      let acc := { acc with salt := salt }
      let verifier ← reading (.hget .verifier acc) fun store ↦ (store.users name).verifier
      Program.modifyState fun store ↦ store.returns { acc with verifier := verifier }
    else
      let pair ← createVerifier srp name defaultPassword
      Program.modifyState fun store ↦ store.returns
        { name := name, salt := pair.map Prod.fst, verifier := pair.map Prod.snd }

/-- `account.create`. With no salt and no verifier the command `hmset` has no values, and redis answers
it with an error. -/
def Account.create : Option ℤ → Option String → Option String → AccountTask srp Unit
  | some id, some name, some password => do
    if name.utf8ByteSize < 24 && password.utf8ByteSize < 24 then
      let fresh ← command (.hsetnx id name password) (fun store ↦ store.hsetnx name id)
        fun store ↦ (store.users name).account.isNone
      if !fresh then
        .fail .assertionFailed
      match ← createVerifier srp name password with
      | none =>
        let _ ← Program.await (I := accountRedis srp) (.hmset id name password none)
        .fail .errorCalled
      | some (salt, verifier) =>
        command (.hmset id name password (some (salt, verifier)))
          (fun store ↦ store.hmset srp { id := id, name := name, password := password, salt := salt }) fun _ ↦ ()
    else .fail .assertionFailed
  | _, _, _ => .fail .assertionFailed

/-- The coroutines by the point at which they start. -/
def accountEntry : AccountPoint → AccountTask srp Unit
  | .load name => Account.load srp name
  | .create id name password => Account.create srp id name password
  | _ => pure ()

/-- The account module of the database service. -/
def accountService : System (accountRedis srp) AccountPoint Store where
  entry := accountEntry srp
  arrives := fun
    | .load _ => true
    | .create _ _ _ => true
    | _ => false

/-- An empty database. -/
def emptyStore : Store := ⟨fun _ ↦ {}, [], []⟩

end Module

end SvrDemo.Database
