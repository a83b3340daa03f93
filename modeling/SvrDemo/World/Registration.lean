import SvrDemo.World.Service

/-!
# Who is registered in the world

`Acts` says what one section of the world or of an agent does to the table of the world and to the characters
that the agents play. An agent that is registered for a character plays it, or is about to: `world_enter` is on
its way, or has failed and the registration will be taken back. An agent that plays a character is registered
for it, or has just left the world (`Registered`).

No handler looks who is registered when it writes the table, so this holds only in the runs in which nobody is
registered, cleared or forgotten at the wrong time (`Undisputed`). When no request is in progress, the table of
the world and the agents agree.
-/

set_option autoImplicit false
set_option relaxedAutoImplicit false

namespace SvrDemo.World

open Coroutine Lua Skynet

/-! ### What agents play -/

namespace WorldState

variable (state : WorldState)

/-- The character of an agent, when it has a user with one. -/
def character (agent : ℕ) : Option Character := (state.user.lookup agent).bind AgentUser.character

/-- The character that an agent plays: it is open, has entered the world, and has this character. -/
def playing (agent : ℕ) : Option ℕ :=
  match state.user.lookup agent with
  | some ⟨some character, true, _, _⟩ => some character.id
  | _ => none

/-- An agent has entered the world. -/
def inWorld (agent : ℕ) : Bool := (state.user.lookup agent).any AgentUser.world

/-- An agent plays a character for which it is registered. -/
def seated (agent : ℕ) : Bool :=
  (state.playing agent).any fun character ↦ state.onlineCharacter.lookup character = some agent

end WorldState

/-! ### What a section does -/

/-- The registration that a coroutine confirms or takes back. -/
def WorldPoint.enters : WorldPoint → Option (ℕ × ℕ)
  | .worldEnter agent character | .worldEntered agent character none | .kickBack agent character =>
    some (agent, character)
  | _ => none

/-- The character that an agent has left, before it knows. -/
def WorldPoint.leaves : WorldPoint → Option (ℕ × ℕ)
  | .characterLeft agent character => some (agent, character)
  | _ => none

/-- A coroutine that concerns no registration. -/
def WorldPoint.Calm (point : WorldPoint) : Prop := point.enters = none ∧ point.leaves = none

/-- The table and the characters that the agents play are as they were. -/
structure Same (state later : WorldState) : Prop where
  online : later.onlineCharacter = state.onlineCharacter
  playing : ∀ agent, later.playing agent = state.playing agent

/-- An agent is registered for a character, and the characters that the agents play are as they were. -/
structure Registers (agent character : ℕ) (state later : WorldState) : Prop where
  online : ∀ other, later.onlineCharacter.lookup other =
    if other = character then some agent else state.onlineCharacter.lookup other
  playing : ∀ other, later.playing other = state.playing other

/-- An agent plays no character any more, and the table is as it was. -/
structure Stops (agent : ℕ) (state later : WorldState) : Prop where
  online : later.onlineCharacter = state.onlineCharacter
  nothing : later.playing agent = none
  others : ∀ other, other ≠ agent → later.playing other = state.playing other

/-- The effect of one section. -/
inductive Acts : WorldPoint → WorldState → Reply → List WorldPoint → WorldState → Prop
  | calm {point : WorldPoint} {state later : WorldState} {reply : Reply} {next : List WorldPoint}
      (begins : point.Calm) (goesOn : ∀ place ∈ next, place.Calm) (same : Same state later) :
      Acts point state reply next later
  | loads {agent id : ℕ} {character : Character} {state : WorldState} :
      Acts (.load agent id) state (.loaded (some character)) [.uniqueservice agent id]
        (state.updateUser agent fun user ↦ { user with character := some character })
  | registers {agent character : ℕ} {state later : WorldState} {reply : Reply}
      (online : state.onlineCharacter.lookup character = none)
      (effect : Registers agent character state later) :
      Acts (.characterEnter agent character) state reply [.worldEnter agent character] later
  | replaces {agent character : ℕ} {state later : WorldState} {reply : Reply} (returned : reply ≠ .raised)
      (effect : Registers agent character state later) :
      Acts (.multipleLogin agent character) state reply [.worldEnter agent character] later
  | enters {agent character : ℕ} {found : Character} {state : WorldState}
      (present : state.character agent = some found) :
      Acts (.worldEnter agent character) state .ok [.worldEntered agent character (some found.map)]
        (state.updateUser agent fun user ↦ { user with world := true, registered := false })
  | entersNot {agent character : ℕ} {state : WorldState} {reply : Reply} :
      Acts (.worldEnter agent character) state reply [.worldEntered agent character none] state
  | kicksBack {agent character old : ℕ} {map : Option ℕ} {state : WorldState} {reply : Reply}
      (online : state.onlineCharacter.lookup character = some old) :
      Acts (.worldEntered agent character map) state reply [.kickBack old character] state
  | kicksNobody {agent character : ℕ} {map : Option ℕ} {state : WorldState} {reply : Reply}
      (online : state.onlineCharacter.lookup character = none) :
      Acts (.worldEntered agent character map) state reply [] state
  | fails {agent character : ℕ} {map : Option ℕ} {state : WorldState} :
      Acts (.worldEntered agent character map) state .raised [] state
  | clears {old character : ℕ} {state : WorldState} {reply : Reply} (returned : reply ≠ .raised) :
      Acts (.kickBack old character) state reply [] (state.unregister character)
  | clearsNot {old character : ℕ} {state : WorldState} :
      Acts (.kickBack old character) state .raised [] state
  | leaves {agent character : ℕ} {state : WorldState} {reply : Reply} :
      Acts (.characterLeave agent character) state reply [.characterLeft agent character]
        (state.unregister character)
  | left {agent character : ℕ} {state later : WorldState} {reply : Reply} {next : List WorldPoint}
      (returned : reply ≠ .raised) (goesOn : ∀ place ∈ next, place.Calm) (effect : Stops agent state later) :
      Acts (.characterLeft agent character) state reply next later
  | leftNot {agent character : ℕ} {state : WorldState} {reply : Reply}
      (cause : reply = .raised ∨ state.playing agent = none) :
      Acts (.characterLeft agent character) state reply [] state
  | saved {agent : ℕ} {state later : WorldState} {reply : Reply} (returned : reply ≠ .raised)
      (effect : Stops agent state later) :
      Acts (.save agent) state reply [] later
  | opens {agent : ℕ} {state later : WorldState} {reply : Reply} (effect : Stops agent state later) :
      Acts (.openAgent agent) state reply [] later

/-- The contract of the coroutines. A section hears the reply and nothing else. -/
def worldContract : Contract worldNet WorldPoint WorldState :=
  .stateless (fun point ↦ point.isRequest = true) fun point state heard next later ↦
    ∃ reply, heard = [reply] ∧ Acts point state reply next later

/-! ### Small facts -/

section Facts

variable {state : WorldState} {agent other character : ℕ}

theorem playing_eq_some_iff : state.playing agent = some character ↔
    ∃ user found, state.user.lookup agent = some user ∧ user.world = true ∧ user.character = some found ∧
      found.id = character := by
  unfold WorldState.playing
  split
  · next found map registered hlookup =>
    constructor
    · intro hid
      exact ⟨_, found, hlookup, rfl, rfl, Option.some.inj hid⟩
    · rintro ⟨user, found', huser, -, hfound, hid⟩
      obtain rfl := Option.some.inj (hlookup.symm.trans huser)
      obtain rfl := Option.some.inj hfound
      exact congrArg some hid
  · next hlookup =>
    refine iff_of_false (fun h ↦ nomatch h) ?_
    rintro ⟨⟨_, _, map, registered⟩, found, huser, rfl, rfl, -⟩
    exact hlookup found map registered huser

/-- A change of the user of one agent is none of what the others play. -/
theorem playing_updateUser_of_ne (change : AgentUser → AgentUser) (hne : other ≠ agent) :
    (state.updateUser agent change).playing other = state.playing other := by
  unfold WorldState.playing WorldState.updateUser
  rw [Table.lookup_update_of_ne change hne]

theorem playing_updateUser_self (change : AgentUser → AgentUser) :
    (state.updateUser agent change).playing agent =
      ((state.user.lookup agent).map change).bind fun user ↦
        if user.world then user.character.map Character.id else none := by
  unfold WorldState.playing WorldState.updateUser
  rw [Table.lookup_update_self]
  rcases (state.user.lookup agent).map change with _ | ⟨_ | found, _ | _, map, registered⟩ <;> rfl

theorem playing_dropUser_self : (state.dropUser agent).playing agent = none := by
  unfold WorldState.playing WorldState.dropUser
  rw [Table.lookup_erase_eq, if_pos rfl]

theorem playing_dropUser_of_ne (hne : other ≠ agent) :
    (state.dropUser agent).playing other = state.playing other := by
  unfold WorldState.playing WorldState.dropUser
  rw [Table.lookup_erase_eq, if_neg hne]

end Facts

/-! ### Sections -/

section Sections

variable {instances : ℕ → Bool} {point place : WorldPoint} {origin state later : WorldState} {reply : Reply}
  {next : List WorldPoint} {agent character id : ℕ}

theorem Same.refl (state : WorldState) : Same state state := ⟨rfl, fun _ ↦ rfl⟩

/-- A change of a user that changes nothing of the character that is played. -/
theorem same_updateUser {change : AgentUser → AgentUser} (hcharacter : ∀ user, (change user).character = user.character)
    (hworld : ∀ user, (change user).world = user.world) : Same state (state.updateUser agent change) := by
  refine ⟨rfl, fun other ↦ ?_⟩
  by_cases hother : other = agent
  · subst hother
    rw [playing_updateUser_self]
    unfold WorldState.playing
    cases state.user.lookup other with
    | none => rfl
    | some user =>
      simp only [Option.map_some, Option.bind_some, hcharacter, hworld]
      rcases user with ⟨_ | found, _ | _, map, registered⟩ <;> rfl
  · exact playing_updateUser_of_ne change hother

/-- A section keeps its promise when it has the effect. -/
theorem ends_of_acts (hacts : Acts point origin reply next state) :
    worldContract.Ends ⟨point, origin, [reply], []⟩ next state :=
  ⟨⟨reply, rfl, hacts⟩, fun _ hfork ↦ nomatch hfork⟩

/-- A request ends, or fails, in a section that changes nothing. -/
theorem acts_end (hpoint : point.Calm) (hsame : Same origin state) : Acts point origin reply [] state :=
  .calm hpoint (fun _ hplace ↦ (List.not_mem_nil hplace).elim) hsame

/-- A request goes on to wait at a place that concerns no registration. -/
theorem acts_wait (hpoint : point.Calm) (hplace : place.Calm) (hsame : Same origin state) :
    Acts point origin reply [place] state :=
  .calm hpoint (fun _ hmem ↦ List.mem_singleton.mp hmem ▸ hplace) hsame

/-- A call: the section ends with it, and the request goes on when it returns and fails when it raises. -/
theorem wp_call {post : Unit → Section worldNet WorldPoint WorldState → WorldState → Prop}
    {raised : LuaError → Section worldNet WorldPoint WorldState → WorldState → Prop}
    (hcalls : Acts point origin reply [place] state)
    (hreturns : ∀ reply later, reply ≠ .raised → post () ⟨place, later, [reply], []⟩ later)
    (hraises : ∀ later, raised .callFailed ⟨place, later, [.raised], []⟩ later) :
    (call place).wp worldContract post raised ⟨point, origin, [reply], []⟩ state := by
  refine (Program.wp_bind _ _ _ _ _ _).mpr ⟨ends_of_acts hcalls, fun reply later _ ↦ ?_⟩
  cases reply with
  | raised => exact hraises later
  | ok => exact hreturns .ok later (fun h ↦ nomatch h)
  | loaded found => exact hreturns (.loaded found) later (fun h ↦ nomatch h)

/-- A kick: nobody has the character, or the agent that has it is called. -/
theorem wp_kick {via : ℕ → WorldPoint} {post : Unit → Section worldNet WorldPoint WorldState → WorldState → Prop}
    {raised : LuaError → Section worldNet WorldPoint WorldState → WorldState → Prop}
    (hnobody : state.onlineCharacter.lookup character = none → post () ⟨point, origin, [reply], []⟩ state)
    (hkicks : ∀ old, state.onlineCharacter.lookup character = some old →
      Acts point origin reply [via old] state)
    (hreturns : ∀ old reply later, reply ≠ .raised →
      post () ⟨via old, later, [reply], []⟩ (later.unregister character))
    (hraises : ∀ old later, raised .callFailed ⟨via old, later, [.raised], []⟩ later) :
    (kick via character).wp worldContract post raised ⟨point, origin, [reply], []⟩ state := by
  refine (Program.wp_bind _ _ _ _ _ _).mpr ?_
  cases hlookup : state.onlineCharacter.lookup character with
  | none =>
    simp only [Program.wp_getState, hlookup]
    exact hnobody hlookup
  | some old =>
    simp only [Program.wp_getState, hlookup]
    exact (Program.wp_bind _ _ _ _ _ _).mpr (wp_call (hkicks old hlookup) (hreturns old) (hraises old))

theorem keeps_mapEnter : worldContract.Keeps (mapEnter agent) ⟨.mapEnter agent, state, [reply], []⟩ state := by
  refine (Program.wp_bind _ _ _ _ _ _).mpr ?_
  have hcalm : (WorldPoint.mapEnter agent).Calm := ⟨rfl, rfl⟩
  cases hlookup : state.user.lookup agent with
  | none =>
    simp only [Program.wp_getState, hlookup]
    exact ⟨trivial, ends_of_acts (acts_end hcalm (Same.refl state))⟩
  | some user =>
    simp only [Program.wp_getState, hlookup]
    exact ends_of_acts (acts_end hcalm (same_updateUser (fun _ ↦ rfl) fun _ ↦ rfl))

/-- The end of `CMD.character_enter`, after the reply to `world_enter`. -/
theorem keeps_enterMap {map : Option ℕ} :
    worldContract.Keeps (enterMap instances agent character map)
      ⟨.worldEntered agent character map, state, [reply], []⟩ state := by
  unfold enterMap
  split
  · next hknown =>
    have hcalm : (WorldPoint.worldEntered agent character map).Calm := by
      cases map with
      | none => exact nomatch hknown
      | some map => exact ⟨rfl, rfl⟩
    exact ⟨ends_of_acts (acts_wait hcalm ⟨rfl, rfl⟩ (Same.refl state)), fun _ _ _ ↦ keeps_mapEnter⟩
  · refine wp_kick (fun hnobody ↦ ?_) (fun old hold ↦ ?_) (fun old reply later hreply ↦ ?_) fun old later ↦ ?_
    · exact ends_of_acts (.kicksNobody hnobody)
    · exact .kicksBack hold
    · exact ends_of_acts (.clears hreply)
    · exact ⟨trivial, ends_of_acts .clearsNot⟩

/-- `CMD.character_enter` from the call of `world_enter` on. -/
theorem keeps_worldEnter :
    worldContract.Keeps
      (do
        let map ← worldEnter agent reply
        call (.worldEntered agent character map)
        enterMap instances agent character map)
      ⟨.worldEnter agent character, state, [reply], []⟩ state := by
  have hrest : ∀ (map : Option ℕ) (later : WorldState),
      Acts (.worldEnter agent character) state reply [.worldEntered agent character map] later →
      worldContract.Keeps
        (do
          call (.worldEntered agent character map)
          enterMap instances agent character map)
        ⟨.worldEnter agent character, state, [reply], []⟩ later := by
    intro map later hacts
    refine (Program.wp_bind _ _ _ _ _ _).mpr (wp_call hacts (fun _ _ _ ↦ keeps_enterMap) fun _ ↦ ?_)
    exact ⟨trivial, ends_of_acts .fails⟩
  refine (Program.wp_bind _ _ _ _ _ _).mpr ((Program.wp_bind _ _ _ _ _ _).mpr ?_)
  simp only [Program.wp_getState]
  split
  · next found hfound =>
    exact hrest (some found.map) _ (.enters hfound)
  · exact hrest none state .entersNot

/-- A character is registered in a table from which it has been removed, if it was there. -/
theorem registers_register (hlater : later.onlineCharacter = state.onlineCharacter ∨
      later = state.unregister character) (hplaying : ∀ other, later.playing other = state.playing other) :
    Registers agent character state (later.register agent character) := by
  refine ⟨fun other ↦ ?_, hplaying⟩
  rw [WorldState.register, Table.lookup_insert_eq]
  split_ifs with hother
  · rfl
  · rcases hlater with honline | rfl
    · rw [honline]
    · rw [WorldState.unregister, Table.lookup_erase_eq, if_neg hother]

theorem keeps_characterEnter :
    worldContract.Keeps (characterEnter instances agent character)
      ⟨.characterEnter agent character, state, [reply], []⟩ state := by
  refine (Program.wp_bind _ _ _ _ _ _).mpr (wp_kick (fun hnobody ↦ ?_) (fun old hold ↦ ?_)
    (fun old reply later hreply ↦ ?_) fun old later ↦ ?_)
  · refine ⟨ends_of_acts (.registers hnobody (registers_register (.inl rfl) fun _ ↦ rfl)), fun reply later _ ↦ ?_⟩
    exact keeps_worldEnter
  · exact acts_wait ⟨rfl, rfl⟩ ⟨rfl, rfl⟩ (Same.refl state)
  · refine ⟨ends_of_acts (.replaces hreply (registers_register (.inr rfl) fun _ ↦ rfl)), fun reply later _ ↦ ?_⟩
    exact keeps_worldEnter
  · exact ⟨trivial, ends_of_acts (acts_end ⟨rfl, rfl⟩ (Same.refl later))⟩

/-- `REQUEST.character_pick`. -/
theorem keeps_characterPick :
    worldContract.Keeps (characterPick instances agent id) ⟨.characterPick agent id, state, [reply], []⟩ state := by
  have hfails : ∀ (point : WorldPoint) (reply : Reply) (later : WorldState) (error : LuaError), point.Calm →
      worldContract.raised error ⟨point, later, [reply], []⟩ later :=
    fun _ _ later _ hcalm ↦ ⟨trivial, ends_of_acts (acts_end hcalm (Same.refl later))⟩
  refine (Program.wp_bind _ _ _ _ _ _).mpr ?_
  cases hlookup : state.user.lookup agent with
  | none =>
    simp only [Program.wp_getState, hlookup]
    exact hfails _ _ _ _ ⟨rfl, rfl⟩
  | some user =>
    simp only [Program.wp_getState, hlookup]
    split
    · refine (Program.wp_bind _ _ _ _ _ _).mpr (wp_call (acts_wait ⟨rfl, rfl⟩ ⟨rfl, rfl⟩ (Same.refl state))
        (fun reply later _ ↦ (Program.wp_bind _ _ _ _ _ _).mpr ?_) fun later ↦ hfails _ _ _ _ ⟨rfl, rfl⟩)
      refine ⟨ends_of_acts (acts_wait ⟨rfl, rfl⟩ ⟨rfl, rfl⟩ (Same.refl later)), fun reply later _ ↦ ?_⟩
      rcases reply with _ | _ | _ | found
      · exact hfails _ _ _ _ ⟨rfl, rfl⟩
      · exact hfails _ _ _ _ ⟨rfl, rfl⟩
      · exact hfails _ _ _ _ ⟨rfl, rfl⟩
      · refine (Program.wp_bind _ _ _ _ _ _).mpr ((Program.wp_bind _ _ _ _ _ _).mpr
          (wp_call .loads (fun reply later _ ↦ ?_) fun later ↦ hfails _ _ _ _ ⟨rfl, rfl⟩))
        refine ⟨ends_of_acts (acts_wait ⟨rfl, rfl⟩ ⟨rfl, rfl⟩ (Same.refl later)), fun reply later _ ↦ ?_⟩
        exact keeps_characterEnter
    · exact ends_of_acts (acts_end ⟨rfl, rfl⟩ (Same.refl state))

/-! ### The close of an agent -/

/-- The user of an agent that plays nothing is forgotten. -/
theorem same_dropUser (hnothing : state.playing agent = none) : Same state (state.dropUser agent) := by
  refine ⟨rfl, fun other ↦ ?_⟩
  by_cases hother : other = agent
  · subst hother
    rw [playing_dropUser_self, hnothing]
  · exact playing_dropUser_of_ne hother

/-- `user = nil`. -/
theorem stops_dropUser (state : WorldState) (agent : ℕ) : Stops agent state (state.dropUser agent) :=
  ⟨rfl, playing_dropUser_self, fun _ hother ↦ playing_dropUser_of_ne hother⟩

/-- The end of `CMD.close`, from a section with the effects that it may have. -/
theorem keeps_saveUser (hfails : Acts point origin reply [] state)
    (hsaves : Acts point origin reply [.save agent] state)
    (hdrops : Acts point origin reply [] (state.dropUser agent)) :
    worldContract.Keeps (saveUser agent) ⟨point, origin, [reply], []⟩ state := by
  refine (Program.wp_bind _ _ _ _ _ _).mpr ?_
  simp only [Program.wp_getState]
  split
  · exact ⟨trivial, ends_of_acts hfails⟩
  · refine (Program.wp_bind _ _ _ _ _ _).mpr (wp_call hsaves (fun reply later hreply ↦ ?_) fun later ↦ ?_)
    · exact ends_of_acts (.saved hreply (stops_dropUser later agent))
    · exact ⟨trivial, ends_of_acts (acts_end ⟨rfl, rfl⟩ (Same.refl later))⟩
  · exact ends_of_acts hdrops

/-- The call of `character_leave` and the rest of `CMD.close`, from the arrival of the call at the world. -/
theorem keeps_characterLeave (hpoint : point.Calm) (hsame : Same origin state) :
    worldContract.Keeps (characterLeave agent character >>= fun _ ↦ saveUser agent)
      ⟨point, origin, [reply], []⟩ state := by
  refine (Program.wp_bind _ _ _ _ _ _).mpr ((Program.wp_bind _ _ _ _ _ _).mpr ?_)
  refine ⟨ends_of_acts (acts_wait hpoint ⟨rfl, rfl⟩ hsame), fun reply later _ ↦ ?_⟩
  refine (Program.wp_bind _ _ _ _ _ _).mpr ((Program.wp_bind _ _ _ _ _ _).mpr
    (wp_call .leaves (fun reply later hreply ↦ (Program.wp_bind _ _ _ _ _ _).mpr ?_) fun later ↦ ?_))
  · simp only [Program.wp_getState]
    cases hlookup : later.user.lookup agent with
    | none =>
      have hnothing : later.playing agent = none := by
        unfold WorldState.playing
        rw [hlookup]
      exact ⟨trivial, ends_of_acts (.leftNot (.inr hnothing))⟩
    | some user =>
      have hstops : Stops agent later (later.updateUser agent fun user ↦ { user with world := false }) := by
        refine ⟨rfl, ?_, fun _ hother ↦ playing_updateUser_of_ne _ hother⟩
        rw [playing_updateUser_self, hlookup]
        rfl
      have hdrops : Stops agent later
          ((later.updateUser agent fun user ↦ { user with world := false }).dropUser agent) := by
        refine ⟨rfl, playing_dropUser_self, fun other hother ↦ ?_⟩
        rw [playing_dropUser_of_ne hother]
        exact hstops.others other hother
      have hnone : ∀ place ∈ ([] : List WorldPoint), place.Calm := fun _ hmem ↦ (List.not_mem_nil hmem).elim
      refine keeps_saveUser (.left hreply hnone hstops) (.left hreply (fun place hplace ↦ ?_) hstops)
        (.left hreply hnone hdrops)
      exact List.mem_singleton.mp hplace ▸ ⟨rfl, rfl⟩
  · exact ⟨trivial, ends_of_acts (.leftNot (.inl rfl))⟩

/-- `CMD.close` from the part for the world on. -/
theorem keeps_leaveWorld (hpoint : point.Calm) (hsame : Same origin state) :
    worldContract.Keeps (leaveWorld agent >>= fun _ ↦ saveUser agent) ⟨point, origin, [reply], []⟩ state := by
  have hfails : ∀ error : LuaError, worldContract.raised error ⟨point, origin, [reply], []⟩ state :=
    fun _ ↦ ⟨trivial, ends_of_acts (acts_end hpoint hsame)⟩
  refine (Program.wp_bind _ _ _ _ _ _).mpr ((Program.wp_bind _ _ _ _ _ _).mpr ?_)
  simp only [Program.wp_getState]
  split
  · exact hfails _
  · exact (Program.wp_bind _ _ _ _ _ _).mp (keeps_characterLeave hpoint hsame)
  · exact hfails _
  · next user hplays _ hlookup =>
    have hnothing : state.playing agent = none := by
      unfold WorldState.playing
      rw [hlookup]
      rcases user with ⟨_ | found, _ | _, map, registered⟩
      · rfl
      · rfl
      · rfl
      · exact (hplays found map registered rfl).elim
    have hdrops := same_dropUser hnothing
    refine keeps_saveUser (acts_end hpoint hsame) (acts_wait hpoint ⟨rfl, rfl⟩ hsame) (acts_end hpoint ?_)
    exact ⟨hdrops.online.trans hsame.online, fun other ↦ (hdrops.playing other).trans (hsame.playing other)⟩

/-- `CMD.close`. -/
theorem keeps_close :
    worldContract.Keeps (close agent) ⟨.close agent, state, [reply], []⟩ state := by
  refine (Program.wp_bind _ _ _ _ _ _).mpr ?_
  simp only [Program.wp_getState]
  cases hlookup : state.user.lookup agent with
  | none => exact ends_of_acts (acts_end ⟨rfl, rfl⟩ (Same.refl state))
  | some user =>
    refine (Program.wp_bind _ _ _ _ _ _).mpr ?_
    unfold leaveMap
    split
    · refine (Program.wp_bind _ _ _ _ _ _).mpr (wp_call (acts_wait ⟨rfl, rfl⟩ ⟨rfl, rfl⟩ (Same.refl state))
        (fun reply later _ ↦ (Program.wp_bind _ _ _ _ _ _).mpr ?_) fun later ↦ ?_)
      · simp only [Program.wp_getState]
        cases later.user.lookup agent with
        | none => exact ⟨trivial, ends_of_acts (acts_end ⟨rfl, rfl⟩ (Same.refl later))⟩
        | some user => exact keeps_leaveWorld ⟨rfl, rfl⟩ (same_updateUser (fun _ ↦ rfl) fun _ ↦ rfl)
      · exact ⟨trivial, ends_of_acts (acts_end ⟨rfl, rfl⟩ (Same.refl later))⟩
    · exact keeps_leaveWorld ⟨rfl, rfl⟩ (Same.refl state)

/-- `CMD.open`. -/
theorem keeps_openAgent :
    worldContract.Keeps (openAgent agent) ⟨.openAgent agent, state, [reply], []⟩ state := by
  refine ends_of_acts (.opens ⟨rfl, ?_, fun other hother ↦ ?_⟩)
  · unfold WorldState.playing
    rw [Table.lookup_insert_eq, if_pos rfl]
  · unfold WorldState.playing
    rw [Table.lookup_insert_eq, if_neg hother]

/-- A section of the world or of an agent has one of the effects. -/
theorem keeps_worldEntry (hrequest : point.isRequest = true) :
    worldContract.Keeps (worldEntry instances point) ⟨point, state, [reply], []⟩ state := by
  cases point with
  | characterPick agent id => exact keeps_characterPick
  | close agent => exact keeps_close
  | openAgent agent => exact keeps_openAgent
  | _ => exact nomatch hrequest

end Sections

/-! ### The condition -/

/-- No other agent plays a character. -/
def Free (state : WorldState) (agent character : ℕ) : Prop :=
  ∀ other ∈ state.user.keys, other ≠ agent → state.playing other ≠ some character

/-- The condition on `world_enter`: an agent with a character enters with the one for which it is registered. -/
def EntersRight (state : WorldState) (agent character : ℕ) : Option Character → Prop
  | some found => found.id = character ∧ state.onlineCharacter.lookup character = some agent
  | none => True

/-- The condition on the end of a kick that takes a registration back: the agent that loses it, if the kick
has returned, does not play the character. -/
def ClearsRight (state : WorldState) (character : ℕ) : Option ℕ → Reply → Prop
  | some old, .raised => state.playing old = some character
  | some old, _ => state.playing old ≠ some character
  | none, _ => True

instance (state : WorldState) (agent character : ℕ) : Decidable (Free state agent character) :=
  inferInstanceAs (Decidable (∀ other ∈ state.user.keys, other ≠ agent → state.playing other ≠ some character))

instance (state : WorldState) (agent character : ℕ) :
    (found : Option Character) → Decidable (EntersRight state agent character found)
  | some found => inferInstanceAs
    (Decidable (found.id = character ∧ state.onlineCharacter.lookup character = some agent))
  | none => inferInstanceAs (Decidable True)

instance (state : WorldState) (character : ℕ) :
    (old : Option ℕ) → (reply : Reply) → Decidable (ClearsRight state character old reply)
  | some old, .raised => inferInstanceAs (Decidable (state.playing old = some character))
  | some old, .ok | some old, .loaded _ => inferInstanceAs (Decidable (state.playing old ≠ some character))
  | none, _ => inferInstanceAs (Decidable True)

/-- The condition on a section. -/
def Undisputed (state : WorldState) : WorldPoint → Reply → Prop
  | .load agent _, .loaded (some character) =>
    state.inWorld agent = true → state.playing agent = some character.id
  | .characterEnter agent character, _ =>
    state.onlineCharacter.lookup character = none → Free state agent character
  | .multipleLogin agent character, reply => reply ≠ .raised → Free state agent character
  | .worldEnter agent character, .ok => EntersRight state agent character (state.character agent)
  | .worldEntered agent character none, .raised =>
    state.onlineCharacter.lookup character = some agent → state.playing agent = some character
  | .kickBack _ character, reply =>
    ClearsRight state character (state.onlineCharacter.lookup character) reply
  | .characterLeave agent character, _ =>
    state.onlineCharacter.lookup character = none ∨ state.onlineCharacter.lookup character = some agent
  | .characterLeft agent character, .raised =>
    state.playing agent = some character → state.onlineCharacter.lookup character = some agent
  | .characterLeft agent _, _ => state.seated agent = false
  | .save agent, reply => reply ≠ .raised → state.seated agent = false
  | .openAgent agent, _ => state.seated agent = false
  | _, _ => True

instance (state : WorldState) :
    (point : WorldPoint) → (reply : Reply) → Decidable (Undisputed state point reply)
  | .load agent _, .loaded (some character) => inferInstanceAs
    (Decidable (state.inWorld agent = true → state.playing agent = some character.id))
  | .characterEnter agent character, _ => inferInstanceAs
    (Decidable (state.onlineCharacter.lookup character = none → Free state agent character))
  | .multipleLogin agent character, reply => inferInstanceAs
    (Decidable (reply ≠ .raised → Free state agent character))
  | .worldEnter agent character, .ok => inferInstanceAs
    (Decidable (EntersRight state agent character (state.character agent)))
  | .worldEntered agent character none, .raised => inferInstanceAs
    (Decidable (state.onlineCharacter.lookup character = some agent → state.playing agent = some character))
  | .kickBack _ character, reply => inferInstanceAs
    (Decidable (ClearsRight state character (state.onlineCharacter.lookup character) reply))
  | .characterLeave agent character, _ => inferInstanceAs
    (Decidable (state.onlineCharacter.lookup character = none ∨
      state.onlineCharacter.lookup character = some agent))
  | .characterLeft agent character, .raised => inferInstanceAs
    (Decidable (state.playing agent = some character → state.onlineCharacter.lookup character = some agent))
  | .characterLeft agent _, .ok | .characterLeft agent _, .loaded _ | .openAgent agent, _ => inferInstanceAs
    (Decidable (state.seated agent = false))
  | .save agent, reply => inferInstanceAs (Decidable (reply ≠ .raised → state.seated agent = false))
  | .load _ _, .ok | .load _ _, .raised | .load _ _, .loaded none | .worldEnter _ _, .raised
  | .worldEnter _ _, .loaded _ | .worldEntered _ _ none, .ok | .worldEntered _ _ none, .loaded _
  | .worldEntered _ _ (some _), _ | .characterPick _ _, _ | .close _, _ | .list _ _, _ | .uniqueservice _ _, _
  | .mapEnter _, _ | .mapLeave _, _ => inferInstanceAs (Decidable True)

/-- The condition on the moves. -/
def UndisputedMove : Configuration worldNet WorldPoint WorldState → Move worldNet WorldPoint → Prop :=
  Resumes fun configuration ↦ Undisputed configuration.state

instance (configuration : Configuration worldNet WorldPoint WorldState) (move : Move worldNet WorldPoint) :
    Decidable (UndisputedMove configuration move) :=
  inferInstanceAs (Decidable (Resumes _ configuration move))

/-! ### The invariant -/

/-- The invariant of the world and the agents. -/
structure Registered (state : WorldState) (points : List WorldPoint) : Prop where
  accounted : ∀ agent character, state.onlineCharacter.lookup character = some agent →
    state.playing agent = some character ∨ ∃ point ∈ points, point.enters = some (agent, character)
  registered : ∀ agent character, state.playing agent = some character →
    state.onlineCharacter.lookup character = some agent ∨
      ∃ point ∈ points, point.leaves = some (agent, character)

section Steps

variable {state later : WorldState} {before next after : List WorldPoint} {point : WorldPoint} {reply : Reply}
  {agent character : ℕ} {key : ℕ × ℕ} {view : WorldPoint → Option (ℕ × ℕ)}

/-- A coroutine that waits and is not the one that has run waits still. -/
theorem waits_still (hold : ∃ place ∈ before ++ point :: after, view place = some key)
    (hpoint : view point ≠ some key) : ∃ place ∈ before ++ next ++ after, view place = some key := by
  obtain ⟨place, hmem, hview⟩ := hold
  refine ⟨place, ?_, hview⟩
  have hne : place ≠ point := fun hsame ↦ hpoint (hsame ▸ hview)
  simp only [List.mem_append, List.mem_cons] at hmem ⊢
  tauto

/-- A coroutine waits where the section has left it. -/
theorem waits_next {place : WorldPoint} (hmem : place ∈ next) (hview : view place = some key) :
    ∃ place ∈ before ++ next ++ after, view place = some key :=
  ⟨place, List.mem_append_left _ (List.mem_append_right _ hmem), hview⟩

namespace Registered

/-- A section changes neither the table nor what the agents play. -/
theorem of_same (h : Registered state (before ++ point :: after)) (hsame : Same state later)
    (henters : ∀ agent character, point.enters = some (agent, character) →
      state.onlineCharacter.lookup character = some agent → state.playing agent = some character ∨
        ∃ place ∈ before ++ next ++ after, place.enters = some (agent, character))
    (hleaves : ∀ agent character, point.leaves = some (agent, character) →
      state.playing agent = some character → state.onlineCharacter.lookup character = some agent) :
    Registered later (before ++ next ++ after) where
  accounted := by
    intro agent character honline
    rw [hsame.online] at honline
    rw [hsame.playing]
    by_cases hpoint : point.enters = some (agent, character)
    · exact henters agent character hpoint honline
    · exact (h.accounted agent character honline).imp_right fun hold ↦ waits_still hold hpoint
  registered := by
    intro agent character hplaying
    rw [hsame.playing] at hplaying
    rw [hsame.online]
    by_cases hpoint : point.leaves = some (agent, character)
    · exact .inl (hleaves agent character hpoint hplaying)
    · exact (h.registered agent character hplaying).imp_right fun hold ↦ waits_still hold hpoint

/-- A character that nobody else plays is registered for an agent. -/
theorem register (h : Registered state (before ++ point :: after)) (hpoint : point.Calm)
    (hfree : Free state agent character) (heffect : Registers agent character state later) :
    Registered later (before ++ [.worldEnter agent character] ++ after) where
  accounted := by
    intro other name honline
    rw [heffect.online] at honline
    rw [heffect.playing]
    split at honline
    · next hname =>
      obtain rfl := Option.some.inj honline
      subst hname
      exact .inr (waits_next List.mem_cons_self rfl)
    · refine (h.accounted other name honline).imp_right fun hold ↦ waits_still hold ?_
      rw [hpoint.1]
      exact fun hnone ↦ nomatch hnone
  registered := by
    intro other name hplaying
    rw [heffect.playing] at hplaying
    rw [heffect.online]
    split
    · next hname =>
      subst hname
      by_cases hother : other = agent
      · exact .inl (congrArg some hother.symm)
      · obtain ⟨user, found, huser, -⟩ := playing_eq_some_iff.mp hplaying
        exact absurd hplaying (hfree other (Table.mem_keys_iff.mpr ⟨user, huser⟩) hother)
    · refine (h.registered other name hplaying).imp_right fun hold ↦ waits_still hold ?_
      rw [hpoint.2]
      exact fun hnone ↦ nomatch hnone

/-- A character is registered for nobody any more. An agent that plays it has just left, or it was registered
for another one. -/
theorem unregister (h : Registered state (before ++ point :: after))
    (henters : ∀ agent other, point.enters = some (agent, other) → other = character)
    (hleaves : ∀ agent other, point.leaves ≠ some (agent, other))
    (hplayed : ∀ agent, state.playing agent = some character →
      state.onlineCharacter.lookup character = some agent →
        ∃ place ∈ before ++ next ++ after, place.leaves = some (agent, character)) :
    Registered (state.unregister character) (before ++ next ++ after) where
  accounted := by
    intro agent other honline
    rw [WorldState.unregister, Table.lookup_erase_eq] at honline
    split at honline
    · exact nomatch honline
    · next hother =>
      refine (h.accounted agent other honline).imp_right fun hold ↦ waits_still hold fun hpoint ↦ ?_
      exact hother (henters agent other hpoint)
  registered := by
    intro agent other hplaying
    rw [WorldState.unregister, Table.lookup_erase_eq]
    split
    · next hother =>
      subst hother
      rcases h.registered agent other hplaying with honline | hleft
      · exact .inr (hplayed agent hplaying honline)
      · exact .inr (waits_still hleft (hleaves agent other))
    · exact (h.registered agent other hplaying).imp_right fun hold ↦ waits_still hold (hleaves agent other)

/-- An agent that is not both registered and playing plays nothing any more. -/
theorem stop (h : Registered state (before ++ point :: after)) (hseated : state.seated agent = false)
    (henters : point.enters = none)
    (hleaves : ∀ other character, point.leaves = some (other, character) → other = agent)
    (heffect : Stops agent state later) : Registered later (before ++ next ++ after) where
  accounted := by
    intro other character honline
    rw [heffect.online] at honline
    have hstill : (∃ place ∈ before ++ point :: after, place.enters = some (other, character)) →
        ∃ place ∈ before ++ next ++ after, place.enters = some (other, character) := by
      refine fun hold ↦ waits_still hold ?_
      rw [henters]
      exact fun hnone ↦ nomatch hnone
    rcases h.accounted other character honline with hplaying | hold
    · by_cases hother : other = agent
      · subst hother
        rw [WorldState.seated, hplaying, Option.any_some] at hseated
        exact absurd honline (of_decide_eq_false hseated)
      · exact .inl ((heffect.others other hother).trans hplaying)
    · exact .inr (hstill hold)
  registered := by
    intro other character hplaying
    have hother : other ≠ agent := by
      rintro rfl
      rw [heffect.nothing] at hplaying
      exact nomatch hplaying
    rw [heffect.others other hother] at hplaying
    rw [heffect.online]
    refine (h.registered other character hplaying).imp_right fun hold ↦ waits_still hold fun hpoint ↦ ?_
    exact hother (hleaves other character hpoint)

/-- A character is loaded for an agent that is not in the world, or plays it. -/
theorem same_loads {character : Character}
    (hmeets : state.inWorld agent = true → state.playing agent = some character.id) :
    Same state (state.updateUser agent fun user ↦ { user with character := some character }) := by
  refine ⟨rfl, fun other ↦ ?_⟩
  by_cases hother : other = agent
  · subst hother
    rw [playing_updateUser_self]
    unfold WorldState.inWorld at hmeets
    unfold WorldState.playing at hmeets ⊢
    cases hlookup : state.user.lookup other with
    | none => rfl
    | some user =>
      rw [hlookup] at hmeets
      rcases user with ⟨found, _ | _, map, registered⟩
      · cases found <;> rfl
      · exact (hmeets rfl).symm
  · exact playing_updateUser_of_ne _ hother

/-- An agent enters the world with the character for which it is registered. -/
theorem enter {found : Character} (h : Registered state (before ++ .worldEnter agent character :: after))
    (hpresent : state.character agent = some found) (hid : found.id = character)
    (honline : state.onlineCharacter.lookup character = some agent) :
    Registered (state.updateUser agent fun user ↦ { user with world := true, registered := false })
      (before ++ [.worldEntered agent character (some found.map)] ++ after) := by
  have hplays : (state.updateUser agent fun user ↦ { user with world := true, registered := false }).playing agent =
      some character := by
    rw [playing_updateUser_self]
    unfold WorldState.character at hpresent
    cases hlookup : state.user.lookup agent with
    | none =>
      rw [hlookup] at hpresent
      exact nomatch hpresent
    | some user =>
      rw [hlookup, Option.bind_some] at hpresent
      simp only [Option.map_some, Option.bind_some, if_true, hpresent, hid]
  have hothers : ∀ other, other ≠ agent →
      (state.updateUser agent fun user ↦ { user with world := true, registered := false }).playing other =
        state.playing other := fun other hother ↦ playing_updateUser_of_ne _ hother
  have hbefore : ∀ name, state.playing agent = some name → name = character := by
    intro name hname
    obtain ⟨user, found', huser, -, hfound, rfl⟩ := playing_eq_some_iff.mp hname
    rw [WorldState.character, huser, Option.bind_some, hfound] at hpresent
    rw [Option.some.inj hpresent, hid]
  constructor
  · intro other name hname
    by_cases hother : other = agent
    · subst hother
      by_cases hsame : name = character
      · subst hsame
        exact .inl hplays
      · rcases h.accounted other name hname with hplaying | hold
        · exact absurd (hbefore name hplaying) hsame
        · refine .inr (waits_still hold fun hpoint ↦ ?_)
          exact hsame (Prod.mk.inj (Option.some.inj hpoint)).2.symm
    · rw [hothers other hother]
      refine (h.accounted other name hname).imp_right fun hold ↦ waits_still hold fun hpoint ↦ ?_
      exact hother (Prod.mk.inj (Option.some.inj hpoint)).1.symm
  · intro other name hplaying
    by_cases hother : other = agent
    · subst hother
      rw [hplays] at hplaying
      obtain rfl := Option.some.inj hplaying
      exact .inl honline
    · rw [hothers other hother] at hplaying
      have hpoint : (WorldPoint.worldEnter agent character).leaves ≠ some (other, name) := fun hnone ↦ nomatch hnone
      exact (h.registered other name hplaying).imp_right fun hold ↦ waits_still hold hpoint

/-- One section keeps the invariant. -/
theorem step (h : Registered state (before ++ point :: after)) (hmeets : Undisputed state point reply)
    (hacts : Acts point state reply next later) : Registered later (before ++ next ++ after) := by
  cases hacts with
  | calm begins goesOn same =>
    refine h.of_same same (fun agent character hpoint ↦ ?_) fun agent character hpoint ↦ ?_
    · exact nomatch begins.1.symm.trans hpoint
    · exact nomatch begins.2.symm.trans hpoint
  | loads =>
    exact h.of_same (same_loads hmeets) (fun _ _ hpoint ↦ nomatch hpoint) fun _ _ hpoint ↦ nomatch hpoint
  | registers online effect => exact h.register ⟨rfl, rfl⟩ (hmeets online) effect
  | replaces returned effect => exact h.register ⟨rfl, rfl⟩ (hmeets returned) effect
  | @enters agent character found state present =>
    have hright : EntersRight state agent character (state.character agent) := hmeets
    rw [present] at hright
    exact h.enter present hright.1 hright.2
  | @entersNot agent character state reply =>
    refine h.of_same (Same.refl state) (fun other name hpoint _ ↦ .inr ?_) fun _ _ hpoint ↦ nomatch hpoint
    exact waits_next List.mem_cons_self hpoint
  | @kicksBack agent character old map state reply online =>
    refine h.of_same (Same.refl state) (fun other name hpoint honline ↦ .inr ?_) fun _ _ hpoint ↦ nomatch hpoint
    have hname : name = character := by
      cases map with
      | none => exact (Prod.mk.inj (Option.some.inj hpoint)).2.symm
      | some map => exact nomatch hpoint
    subst hname
    obtain rfl := Option.some.inj (online.symm.trans honline)
    exact waits_next List.mem_cons_self rfl
  | @kicksNobody agent character map state reply online =>
    refine h.of_same (Same.refl state) (fun other name hpoint honline ↦ ?_) fun _ _ hpoint ↦ nomatch hpoint
    cases map with
    | none =>
      obtain rfl := (Prod.mk.inj (Option.some.inj hpoint)).2
      exact nomatch online.symm.trans honline
    | some map => exact nomatch hpoint
  | @fails agent character map state =>
    refine h.of_same (Same.refl state) (fun other name hpoint honline ↦ .inl ?_) fun _ _ hpoint ↦ nomatch hpoint
    cases map with
    | none =>
      obtain ⟨rfl, rfl⟩ := Prod.mk.inj (Option.some.inj hpoint)
      exact hmeets honline
    | some map => exact nomatch hpoint
  | @clears old character state reply returned =>
    refine h.unregister (fun agent other hpoint ↦ ?_) (fun _ _ hpoint ↦ nomatch hpoint) fun agent hplaying honline ↦ ?_
    · exact (Prod.mk.inj (Option.some.inj hpoint)).2.symm
    · have hright : ClearsRight state character (state.onlineCharacter.lookup character) reply := hmeets
      rw [honline] at hright
      cases reply with
      | raised => exact absurd rfl returned
      | ok => exact absurd hplaying hright
      | loaded found => exact absurd hplaying hright
  | @clearsNot old character state =>
    refine h.of_same (Same.refl state) (fun other name hpoint honline ↦ .inl ?_) fun _ _ hpoint ↦ nomatch hpoint
    obtain ⟨rfl, rfl⟩ := Prod.mk.inj (Option.some.inj hpoint)
    have hright : ClearsRight state character (state.onlineCharacter.lookup character) .raised := hmeets
    rw [honline] at hright
    exact hright
  | @leaves agent character state reply =>
    refine h.unregister (fun _ _ hpoint ↦ nomatch hpoint) (fun _ _ hpoint ↦ nomatch hpoint)
      fun other hplaying honline ↦ ?_
    rcases hmeets with hnobody | hself
    · exact nomatch hnobody.symm.trans honline
    · obtain rfl := Option.some.inj (hself.symm.trans honline)
      exact waits_next List.mem_cons_self rfl
  | @left agent character state later reply next returned goesOn effect =>
    have hseated : state.seated agent = false := by
      cases reply with
      | raised => exact absurd rfl returned
      | ok => exact hmeets
      | loaded found => exact hmeets
    refine h.stop hseated rfl (fun other name hpoint ↦ ?_) effect
    exact (Prod.mk.inj (Option.some.inj hpoint)).1.symm
  | @leftNot agent character state reply cause =>
    refine h.of_same (Same.refl state) (fun _ _ hpoint ↦ nomatch hpoint) fun other name hpoint hplaying ↦ ?_
    obtain ⟨rfl, rfl⟩ := Prod.mk.inj (Option.some.inj hpoint)
    rcases cause with rfl | hnothing
    · exact hmeets hplaying
    · exact nomatch hnothing.symm.trans hplaying
  | saved returned effect =>
    exact h.stop (hmeets returned) rfl (fun _ _ hpoint ↦ nomatch hpoint) effect
  | opens effect => exact h.stop hmeets rfl (fun _ _ hpoint ↦ nomatch hpoint) effect

/-- A request that arrives changes nothing. -/
theorem arrive {points : List WorldPoint} (h : Registered state points) : Registered state (points ++ [point]) where
  accounted := by
    intro agent character honline
    refine (h.accounted agent character honline).imp_right ?_
    rintro ⟨place, hmem, hview⟩
    exact ⟨place, List.mem_append_left _ hmem, hview⟩
  registered := by
    intro agent character hplaying
    refine (h.registered agent character hplaying).imp_right ?_
    rintro ⟨place, hmem, hview⟩
    exact ⟨place, List.mem_append_left _ hmem, hview⟩

end Registered

end Steps

/-! ### Runs -/

/-- The world and the agents keep the invariant. -/
theorem sound_worldService (instances : ℕ → Bool) :
    (worldService instances).Sound worldContract Registered UndisputedMove := by
  refine System.sound_stateless (fun _ _ _ hrequest ↦ keeps_worldEntry hrequest)
    (fun configuration point _ harrives hinv ↦ ⟨hinv.arrive, harrives⟩) ?_
  rintro configuration before point after reply answers next last hmeets hpoints hinv ⟨heard, hheard, hacts⟩
  have hundisputed := Resumes.meets hmeets hpoints
  obtain ⟨rfl, -⟩ := List.cons.inj hheard
  rw [hpoints] at hinv
  exact hinv.step hundisputed hacts

/-- A world without agents. -/
def emptyWorld : WorldState := ⟨∅, ∅⟩

/-- In every run whose sections are undisputed, whenever no request is in progress a character is registered for
an agent exactly when the agent is open and plays it. -/
theorem world_agrees (instances : ℕ → Bool) {last : Configuration worldNet WorldPoint WorldState}
    (hrun : (worldService instances).Run UndisputedMove ⟨emptyWorld, [], []⟩ last)
    (hidle : ∀ point ∈ last.points, point.isRequest = true) (agent character : ℕ) :
    last.state.onlineCharacter.lookup character = some agent ↔ last.state.playing agent = some character := by
  have hfirst : Registered emptyWorld [] := ⟨fun _ _ honline ↦ (nomatch honline), fun _ _ hplaying ↦ (nomatch hplaying)⟩
  have hlast := ((sound_worldService instances).good_of_run
    ((sound_worldService instances).good_of_starts hfirst fun _ hmem ↦ (List.not_mem_nil hmem).elim) hrun).holds
  constructor
  · intro honline
    refine (hlast.accounted agent character honline).resolve_right ?_
    rintro ⟨point, hmem, hview⟩
    have hrequest := hidle point hmem
    cases point with
    | characterPick _ _ => exact nomatch hview
    | close _ => exact nomatch hview
    | openAgent _ => exact nomatch hview
    | _ => exact nomatch hrequest
  · intro hplaying
    refine (hlast.registered agent character hplaying).resolve_right ?_
    rintro ⟨point, hmem, hview⟩
    have hrequest := hidle point hmem
    cases point with
    | characterLeft _ _ => exact nomatch hrequest
    | _ => exact nomatch hview

/-- A coroutine that is alone goes on some times with a reply that is ok. -/
def goes (times : ℕ) : List (Move worldNet WorldPoint) := List.replicate times (.resume 0 .ok [])

/-- An agent is opened when no request is in progress. -/
def opened (agent : ℕ) : List (Move worldNet WorldPoint) := .arrive (.openAgent agent) :: goes 1

/-- A character on a map is picked by an agent when no request is in progress; it takes some more replies until
the agent is on the map. -/
def picked (agent id map replies : ℕ) : List (Move worldNet WorldPoint) :=
  .arrive (.characterPick agent id) :: goes 2 ++ .resume 0 (.loaded (some ⟨id, map⟩)) [] :: goes replies

/-- An agent on a map closes when no request is in progress. -/
def closed (agent : ℕ) : List (Move worldNet WorldPoint) := .arrive (.close agent) :: goes 5

/-- A character that is picked by an agent, which closes, and then by another one. -/
theorem world_agrees_twice : ∃ last, (worldService fun _ ↦ true).Run UndisputedMove ⟨emptyWorld, [], []⟩ last ∧
    last.points = [] ∧ last.state.playing 16 = none ∧ last.state.onlineCharacter.lookup 7 = some 17 := by
  obtain ⟨last, hrun, hvalue⟩ := (worldService fun _ ↦ true).exists_run_of_playMeeting UndisputedMove
    ⟨emptyWorld, [], []⟩ (opened 16 ++ picked 16 7 1 5 ++ closed 16 ++ opened 17 ++ picked 17 7 1 5)
    (fun last ↦ (last.points, last.state.playing 16, last.state.playing 17))
    (show _ = some ([], none, some 7) by decide +kernel)
  simp only [Prod.mk.injEq] at hvalue
  obtain ⟨hpoints, hclosed, hplays⟩ := hvalue
  refine ⟨last, hrun, hpoints, hclosed, (world_agrees (fun _ ↦ true) hrun ?_ 17 7).mpr hplays⟩
  rw [hpoints]
  exact fun _ hmem ↦ (List.not_mem_nil hmem).elim

/-- A character that is picked by a second agent while the first one plays it: the first agent is kicked, and
when it closes it removes the registration of the second one. -/
theorem close_removes_other : ∃ last, (worldService fun _ ↦ true).AnyRun ⟨emptyWorld, [], []⟩ last ∧
    last.points = [] ∧ last.state.playing 17 = some 7 ∧ last.state.onlineCharacter.lookup 7 ≠ some 17 := by
  obtain ⟨last, hrun, hvalue⟩ := (worldService fun _ ↦ true).exists_run_of_playAll ⟨emptyWorld, [], []⟩
    (opened 16 ++ picked 16 7 1 5 ++ opened 17 ++ picked 17 7 1 6 ++ closed 16)
    (fun last ↦ (last.points, last.state.playing 17, (last.state.onlineCharacter.lookup 7).isSome))
    (show _ = some ([], some 7, false) by decide +kernel)
  simp only [Prod.mk.injEq] at hvalue
  obtain ⟨hpoints, hplays, hnobody⟩ := hvalue
  refine ⟨last, hrun, hpoints, hplays, fun honline ↦ ?_⟩
  rw [honline] at hnobody
  exact nomatch hnobody

end SvrDemo.World
