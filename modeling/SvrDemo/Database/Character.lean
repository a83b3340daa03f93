import SvrDemo.Database.Redis

/-!
# Creating characters

`character_create` of an agent makes four calls of the database service: it reserves the name, saves the
character, reads the list of the account and writes the list back with the new id. Each call is one
command of redis. A call that fails there is answered with nothing, which the handler takes for a name that
is taken, and for a list that does not exist, and which it does not look at after a write.

`Characters.returned` is a history: the accounts and the characters that requests have returned. The game
data is a parameter, as the services get it from a shared table.
-/

set_option autoImplicit false
set_option relaxedAutoImplicit false

namespace SvrDemo.Database

open Coroutine Skynet

/-! ### Characters -/

/-- A race of the game data: where its characters start. -/
structure Race where
  home : String
  pos_x : ℤ
  pos_y : ℤ
  pos_z : ℤ
  pos_o : ℤ

/-- The game data that the handler reads. -/
structure Gdd where
  race : String → Option Race
  class' : String → Bool

/-- The fields of the request. -/
structure GeneralArgs where
  name : Option String
  race : Option String
  class' : Option String
  deriving DecidableEq

structure General where
  name : String
  race : String
  class' : String
  map : String
  deriving DecidableEq

structure Position where
  x : ℤ
  y : ℤ
  z : ℤ
  o : ℤ
  deriving DecidableEq

structure Attribute where
  level : ℕ
  exp : ℕ
  deriving DecidableEq

structure Movement where
  mode : ℕ
  pos : Position
  deriving DecidableEq

structure Character where
  id : Option ℤ := none
  general : General
  attribute' : Attribute
  movement : Movement
  deriving DecidableEq

/-- `create` of the handler: a character of the first level at the start of its race. -/
def Character.create (gdd : Gdd) : GeneralArgs → Except LuaError Character
  | ⟨some name, some race, some class'⟩ =>
    if 2 < name.utf8ByteSize ∧ name.utf8ByteSize < 24 ∧ gdd.class' class' = true then
      match gdd.race race with
      | none => .error .errorCalled
      | some r => .ok
          { general := ⟨name, race, class', r.home⟩
            attribute' := ⟨1, 0⟩
            movement := ⟨0, ⟨r.pos_x, r.pos_y, r.pos_z, r.pos_o⟩⟩ }
    else .error .assertionFailed
  | _ => .error .assertionFailed

/-! ### The database -/

/-- The hashes of the module, by name, id and account, and the characters that requests have returned. -/
structure Characters where
  names : String → Option ℤ
  characters : ℤ → Option Character
  lists : ℤ → Option (List ℤ)
  returned : List (ℤ × Character)

/-- The list of an account as `load_list` sees it: a list that does not exist is empty. -/
def Characters.list (store : Characters) (account : ℤ) : List ℤ :=
  (store.lists account).getD []

/-- What the handler asks inside a section: `uuid.gen ()`, which fails when a service draws too many. -/
inductive CharacterQuery
  | gen
  deriving DecidableEq

/-- The interface of the handler. -/
abbrev characterRedis : Interface :=
  redis CharacterQuery (Option ℤ) fun _ _ ↦ true

/-- Where a `character_create` waits: for its first turn, and for the calls of the database. A point
carries what the coroutine has in its local variables. -/
inductive CharacterPoint
  | characterCreate (account : ℤ) (character : Option GeneralArgs)
  | reserve (account : ℤ) (id : ℤ) (character : Character)
  | save (account : ℤ) (id : ℤ) (character : Character)
  | list (account : ℤ) (id : ℤ) (character : Character)
  | savelist (account : ℤ) (id : ℤ) (character : Character) (list : List ℤ)
  deriving DecidableEq

/-- A coroutine of an agent that creates a character. -/
abbrev CharacterTask (α : Type) : Type :=
  Program characterRedis CharacterPoint Characters α

/-- A call of the database service. Its dispatcher answers a function that fails with nothing. -/
def dispatch {α : Type} (function : CharacterTask α) : CharacterTask (Option α) := do
  match ← function.attempt with
  | .ok value => return some value
  | .error _ => return none

/-- `character.reserve`: one `hsetnx` of the name. -/
def Character.reserve (point : CharacterPoint) (id : ℤ) (name : String) : CharacterTask ℤ := do
  let fresh ← command point
    (fun store ↦ { store with names := Function.update store.names name ((store.names name).or (some id)) })
    fun store ↦ (store.names name).isNone
  if !fresh then
    .fail .assertionFailed
  return id

/-- `character.save`. -/
def Character.save (point : CharacterPoint) (id : ℤ) (data : Character) : CharacterTask Unit :=
  command point
    (fun store ↦ { store with characters := Function.update store.characters id (some data) }) fun _ ↦ ()

/-- `character.list`, which fails when there is no list. -/
def Character.list (point : CharacterPoint) (account : ℤ) : CharacterTask (List ℤ) := do
  match ← reading point fun store ↦ store.lists account with
  | some v => return v
  | none => .fail .errorCalled

/-- `character.savelist`. -/
def Character.savelist (point : CharacterPoint) (account : ℤ) (data : List ℤ) : CharacterTask Unit :=
  command point
    (fun store ↦ { store with lists := Function.update store.lists account (some data) }) fun _ ↦ ()

/-! ### The handler -/

/-- `load_list`. -/
def loadList (point : CharacterPoint) (account : ℤ) : CharacterTask (List ℤ) := do
  return (← dispatch (Character.list point account)).getD []

/-- `uuid.gen ()`. -/
def uuidGen : CharacterTask ℤ := do
  match ← Program.query (I := characterRedis) .gen with
  | .answer (some id) => return id
  | _ => .fail .assertionFailed

/-- The request returns a character. -/
def Characters.returns (store : Characters) (account : ℤ) (character : Character) : Characters :=
  { store with returned := store.returned ++ [(account, character)] }

/-- `REQUEST.character_create` of an agent that is open for an account. -/
def characterCreate (gdd : Gdd) (account : ℤ) : Option GeneralArgs → CharacterTask Unit
  | none => .fail .errorCalled
  | some c =>
    match Character.create gdd c with
    | .error error => .fail error
    | .ok character => do
      let id ← uuidGen
      match ← dispatch (Character.reserve (.reserve account id character) id character.general.name) with
      | none => return ()
      | some id =>
        let character := { character with id := some id }
        let _ ← dispatch (Character.save (.save account id character) id character)
        let list ← loadList (.list account id character) account
        let list := list ++ [id]
        let _ ← dispatch (Character.savelist (.savelist account id character list) account list)
        Program.modifyState fun store ↦ store.returns account character

/-- The coroutines by the point at which they start. -/
def characterEntry (gdd : Gdd) : CharacterPoint → CharacterTask Unit
  | .characterCreate account character => characterCreate gdd account character
  | _ => pure ()

/-- The agents that create characters, with the database. -/
def characterService (gdd : Gdd) : System characterRedis CharacterPoint Characters where
  entry := characterEntry gdd
  arrives := fun
    | .characterCreate _ _ => true
    | _ => false

end SvrDemo.Database
