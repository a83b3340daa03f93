import SvrDemo.Base.Double
import SvrDemo.Protocol.Machine

/-!
# Characters in combat

The attributes of a character, with `handler.init` and `handler.save` of `character_handler.lua` and
`combat_melee_damage` of `combat_handler.lua`. What a character has lost is in its table of attributes, and what
follows from its class, its race and its level in another table, where `init` lets the first one look for what it
does not have. The database has the first one only.

A health is an integer of the language, also after it has been saved. Damage is multiplied as a double.
-/

set_option autoImplicit false
set_option relaxedAutoImplicit false

namespace SvrDemo.Combat

open Base Protocol

/-! ### Game data -/

/-- The table `health_max`, by class and level. -/
def healthMax : List ((String × ℤ) × ℤ) :=
  [(("warrior", 1), 100), (("warrior", 2), 300), (("warrior", 3), 500),
    (("mage", 1), 80), (("mage", 2), 160), (("mage", 3), 240)]

/-- The table `strength`, by race and level. -/
def strength : List ((String × ℤ) × ℤ) :=
  [(("human", 1), 22), (("human", 2), 24), (("human", 3), 26), (("orc", 1), 24), (("orc", 2), 27), (("orc", 3), 30)]

/-- The table `stamina`, by race and level. -/
def stamina : List ((String × ℤ) × ℤ) :=
  [(("human", 1), 21), (("human", 2), 23), (("human", 3), 25), (("orc", 1), 23), (("orc", 2), 26), (("orc", 3), 29)]

/-! ### Attributes -/

/-- The keys of the attributes. -/
inductive Key
  | health
  | level
  | exp
  | healthMax
  | strength
  | stamina
  | attackPower

/-- The attributes that are saved. -/
structure Stored where
  health : Option ℤ
  level : ℤ
  exp : ℤ
  deriving DecidableEq

/-- The attributes that `init` derives. -/
structure Derived where
  healthMax : ℤ
  strength : ℤ
  stamina : ℤ
  attackPower : ℤ
  deriving DecidableEq

def Stored.raw (self : Stored) : Key → Option ℤ
  | .health => self.health
  | .level => some self.level
  | .exp => some self.exp
  | _ => none

def Derived.raw (self : Derived) : Key → Option ℤ
  | .healthMax => some self.healthMax
  | .strength => some self.strength
  | .stamina => some self.stamina
  | .attackPower => some self.attackPower
  | _ => none

/-- The table `character.attribute` with the `__index` of its metatable. -/
structure Attribute where
  stored : Stored
  index : Option Derived
  deriving DecidableEq

/-- A field of the attributes, which the metatable gives when the table does not have it. -/
def Attribute.get (self : Attribute) (key : Key) : Option ℤ :=
  match self.stored.raw key with
  | some value => some value
  | none => self.index.bind fun index ↦ index.raw key

def Attribute.setHealth (self : Attribute) (health : Option ℤ) : Attribute :=
  { self with stored := { self.stored with health := health } }

/-- The second of the two tables of `temp_attribute`, from the first one. -/
def Derived.final (last : Derived) : Derived where
  healthMax :=
    if last.stamina ≥ 20 then last.healthMax + 20 + (last.stamina - 20) * 10 else last.healthMax + last.stamina
  strength := last.strength
  stamina := last.stamina
  attackPower := last.attackPower + last.strength

/-! ### Characters -/

/-- A character in an agent. `runtime` has its derived attributes once it has been initialised. -/
structure Character where
  class' : String
  race : String
  attribute' : Attribute
  runtime : Option Derived
  deriving DecidableEq

/-- A character in the database, as the packer writes it: without metatables. -/
structure StoredCharacter where
  class' : String
  race : String
  attribute' : Stored
  deriving DecidableEq

namespace Character

/-- `handler.init`, which raises where the tables have no entry. -/
def init (self : Character) : Option Character := do
  let level ← self.attribute'.get .level
  let health_max ← Combat.healthMax.lookup (self.class', level)
  let strength ← Combat.strength.lookup (self.race, level)
  let stamina ← Combat.stamina.lookup (self.race, level)
  let final := Derived.final ⟨health_max, strength, stamina, 0⟩
  let attribute' : Attribute := { self.attribute' with index := some final }
  let top ← attribute'.get .healthMax
  let clamped := match attribute'.get .health with
    | none => attribute'.setHealth (some top)
    | some health => if health > top then attribute'.setHealth (some top) else attribute'
  return { self with attribute' := clamped, runtime := some final }

/-- `damage * 0.75`, rounded down: the damage is a double, and so is the product, which is given in quarters. -/
def threeQuarters (damage : ℕ) : ℕ := toDouble (3 * toDouble damage) / 4

/-- `combat_melee_damage` up to its broadcast. It raises when there is no health to subtract from. -/
def combatMeleeDamage (self : Character) (_attacker : ℤ) (damage : ℕ) : Option (ℤ × Character) := do
  let health ← self.attribute'.get .health
  let damage : ℤ := threeQuarters damage
  let hp := health - damage
  if hp ≤ 0 then
    return (damage + hp, { self with attribute' := self.attribute'.setHealth (self.attribute'.get .healthMax) })
  else
    return (damage, { self with attribute' := self.attribute'.setHealth (some hp) })

/-- `dbpacker.pack`, of a character whose `runtime` has been taken out. -/
def pack (self : Character) : StoredCharacter := ⟨self.class', self.race, self.attribute'.stored⟩

end Character

/-- `dbpacker.unpack`. -/
def StoredCharacter.unpack (self : StoredCharacter) : Character :=
  ⟨self.class', self.race, ⟨self.attribute', none⟩, none⟩

/-! ### Runs -/

/-- A character in the database, and in the agent of its player. -/
structure Player where
  stored : StoredCharacter
  character : Option Character

/-- `character_pick` reads the database, `world_enter` initialises, an attacker hits, and the character is saved. -/
inductive PlayerEvent
  | load
  | init
  | combatMeleeDamage (attacker : ℤ) (damage : ℕ)
  | save

/-- The machine of a character. What raises leaves the attributes as they are. -/
def player : Machine Player PlayerEvent where
  step self event :=
    match event with
    | .load => some { self with character := some self.stored.unpack }
    | .init =>
      match self.character.bind Character.init with
      | none => some self
      | some character => some { self with character := some character }
    | .combatMeleeDamage attacker damage =>
      match self.character.bind fun character ↦ character.combatMeleeDamage attacker damage with
      | none => some self
      | some (_, character) => some { self with character := some character }
    | .save =>
      match self.character with
      | none => some self
      | some character => some { self with stored := character.pack }

end SvrDemo.Combat
