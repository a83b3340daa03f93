import SvrDemo.Map.FailedCalls
import SvrDemo.Skynet.Runtime

/-!
# The registry of a map

The service keeps the characters of the agents in two tables, `pending_character` for those that load the map
and `online_character` for those on it, and the module `aoi` has an object for each agent on the map. The four
requests change the three tables one after the other, and wait for the agent in between.

`character_ready` moves the character from one table to the other before the object is inserted, and returns
false where the insertion fails, with the character moved. `character_leave` removes the object, waits for the
agent and clears the two tables afterwards; what comes in between for the same agent is cleared with them.
`Undisturbed` excludes both, and then the tables agree whenever no request is in progress.
-/

set_option autoImplicit false
set_option relaxedAutoImplicit false

namespace SvrDemo.Map

open Coroutine Lua Skynet

/-! ### The service -/

/-- The tables of the service and of the module `aoi`. -/
structure Registry where
  pendingCharacter : Table ℕ
  onlineCharacter : Table ℕ
  aoi : Aoi

/-- The service. `refused` has the registry at the start and at the end of every `character_ready` that has
returned false. -/
structure MapState where
  registry : Registry
  refused : List (Registry × Registry)

/-- Where the coroutines wait: for their first turn, or for the reply of an agent to `map_enter` or to
`aoi_manage`. The `aoi_manage` of an agent that leaves is told apart. -/
inductive MapPoint
  | characterEnter (agent character : ℕ)
  | characterLeave (agent : ℕ)
  | characterReady (agent : ℕ) (pos : Position)
  | moveBlink (agent : ℕ) (pos : Position)
  | mapEnter (agent : ℕ)
  | aoiManage (agent : ℕ)
  | leaving (agent : ℕ)
  deriving DecidableEq

/-- A coroutine of the map. -/
abbrev MapTask (α : Type) : Type := Task MapPoint MapState α

/-- `CMD.character_enter`. -/
def characterEnter (agent character : ℕ) : MapTask Unit := do
  Program.modifyState fun state ↦
    { state with registry.pendingCharacter := state.registry.pendingCharacter.insert agent character }
  call (.mapEnter agent)

/-- The part of `CMD.character_leave` before the tables are cleared. -/
def leaveAoi (agent : ℕ) : MapTask Unit := do
  let state ← Program.getState
  match (state.registry.onlineCharacter.lookup agent).or (state.registry.pendingCharacter.lookup agent) with
  | none => return ()
  | some _ => do
    let order ← pairs (state.registry.aoi.visited (.remove agent []))
    match state.registry.aoi.remove agent order with
    | .error _ => return ()
    | .ok (aoi, _) => do
      Program.modifyState fun state ↦ { state with registry.aoi := aoi }
      call (.leaving agent)

/-- An agent is in neither table. -/
def MapState.clear (state : MapState) (agent : ℕ) : MapState :=
  { state with
    registry.onlineCharacter := state.registry.onlineCharacter.erase agent
    registry.pendingCharacter := state.registry.pendingCharacter.erase agent }

/-- `CMD.character_leave`. -/
def characterLeave (agent : ℕ) : MapTask Unit := do
  leaveAoi agent
  Program.modifyState fun state ↦ state.clear agent

/-- The part of `CMD.character_ready` after the character has been moved. -/
def insertReady (agent : ℕ) (pos : Position) : MapTask Bool := do
  let state ← Program.getState
  let length ← tableLength (state.registry.aoi.visited (.insert agent pos []))
  let order ← pairs (state.registry.aoi.visited (.insert agent pos []))
  Program.modifyState fun state ↦
    { state with registry.aoi := state.registry.aoi.after (fun _ ↦ length) (.insert agent pos order) }
  match state.registry.aoi.insert (fun _ ↦ length) agent pos order,
    state.registry.aoi.insertion (fun _ ↦ length) (.insert agent pos order) with
  | .ok _, _ => do
    call (.aoiManage agent)
    return true
  | .error _, some (.raised _) => .fail .indexNil
  | .error _, _ => return false

/-- `CMD.character_ready`. -/
def characterReady (agent : ℕ) (pos : Position) : MapTask Bool := do
  let state ← Program.getState
  match state.registry.pendingCharacter.lookup agent with
  | none => return false
  | some character => do
    Program.modifyState fun state ↦
      { state with
        registry.onlineCharacter := state.registry.onlineCharacter.insert agent character
        registry.pendingCharacter := state.registry.pendingCharacter.erase agent }
    insertReady agent pos

/-- `CMD.move_blink`, which returns nil where the update fails. -/
def moveBlinkMap (agent : ℕ) (pos : Position) : MapTask Bool := do
  let state ← Program.getState
  let length ← tableLength (state.registry.aoi.visited (.update agent pos []))
  let order ← pairs (state.registry.aoi.visited (.update agent pos []))
  Program.modifyState fun state ↦
    { state with registry.aoi := state.registry.aoi.after (fun _ ↦ length) (.update agent pos order) }
  match state.registry.aoi.update (fun _ ↦ length) agent pos order,
    state.registry.aoi.insertion (fun _ ↦ length) (.update agent pos order) with
  | .ok _, _ => do
    call (.aoiManage agent)
    return true
  | .error _, some (.raised _) => .fail .indexNil
  | .error _, _ => return false

/-- The dispatch of `character_ready`, with what it notes when false is returned. -/
def dispatchReady (agent : ℕ) (pos : Position) : MapTask Unit := do
  let first ← Program.getState
  let ok ← characterReady agent pos
  match ok with
  | true => return ()
  | false =>
    Program.modifyState fun state ↦
      { state with refused := state.refused ++ [(first.registry, state.registry)] }

/-- The requests. -/
def mapEntry : MapPoint → MapTask Unit
  | .characterEnter agent character => characterEnter agent character
  | .characterLeave agent => characterLeave agent
  | .characterReady agent pos => dispatchReady agent pos
  | .moveBlink agent pos => do
    let _ ← moveBlinkMap agent pos
    return ()
  | _ => pure ()

/-- A coroutine before its first turn. -/
def MapPoint.isRequest : MapPoint → Bool
  | .characterEnter _ _ | .characterLeave _ | .characterReady _ _ | .moveBlink _ _ => true
  | _ => false

/-- The service of a map. -/
def mapService : System skynet MapPoint MapState where
  entry := mapEntry
  arrives := MapPoint.isRequest

/-! ### The agents in the tables -/

/-- The agents in the three tables. -/
structure Agents where
  pending : Finset ℕ
  online : Finset ℕ
  object : Finset ℕ

/-- The agents of a registry. -/
def Registry.agents (registry : Registry) : Agents :=
  ⟨registry.pendingCharacter.keys, registry.onlineCharacter.keys, registry.aoi.object.keys⟩

@[simp]
theorem MapState.agents_clear (state : MapState) (agent : ℕ) :
    (state.clear agent).registry.agents =
      ⟨state.registry.agents.pending.erase agent, state.registry.agents.online.erase agent,
        state.registry.agents.object⟩ := by
  simp only [Registry.agents, clear, Finmap.keys_erase]

section Tables

variable {length : Finset ℕ → ℕ} {aoi last : Aoi} {id : ℕ} {pos : Position} {order : List ℕ}
  {list : Finset ℕ}

/-- An insertion that fails has the character already, is out of bounds, or tries to split the tree. -/
theorem Aoi.cause_of_insert (h : aoi.insert length id pos order = .error last) :
    id ∈ aoi.object.keys ∨ ¬ aoi.qtree.InBounds pos.x pos.z ∨
      2 ≤ length (Insert.insert id aoi.qtree.object.keys) := by
  unfold insert at h
  cases hlookup : aoi.object.lookup id with
  | some entry => exact .inl (Table.mem_keys_iff.mpr ⟨entry, hlookup⟩)
  | none =>
    cases htree : aoi.qtree.insert length id pos.x pos.z with
    | outside => exact .inr (.inl (insert_eq_outside.mp htree))
    | raised tree =>
      refine .inr (.inr ?_)
      unfold Quadtree.insert at htree
      split_ifs at htree with hout hsplit
      rwa [Quadtree.store, Table.keys_insert] at hsplit
    | inserted tree =>
      simp only [hlookup, htree, reduceCtorEq] at h

theorem Aoi.keys_of_insert (h : aoi.insert length id pos order = .ok (last, list)) :
    last.object.keys = Insert.insert id aoi.object.keys := by
  unfold insert at h
  cases hlookup : aoi.object.lookup id with
  | some entry => simp only [hlookup, reduceCtorEq] at h
  | none =>
    cases htree : aoi.qtree.insert length id pos.x pos.z with
    | outside => simp only [hlookup, htree, reduceCtorEq] at h
    | raised tree => simp only [hlookup, htree, reduceCtorEq] at h
    | inserted tree =>
      simp only [hlookup, htree, Except.ok.injEq] at h
      obtain rfl := (congrArg Prod.fst h).symm
      simp only [enter, Table.keys_insert, foldl_meet_snd, keys_foldl_update]

theorem Aoi.keys_of_remove (h : aoi.remove id order = .ok (last, list)) :
    last.object.keys = aoi.object.keys.erase id := by
  unfold remove at h
  cases hlookup : aoi.object.lookup id with
  | none => simp only [hlookup, reduceCtorEq] at h
  | some entry =>
    simp only [hlookup, Except.ok.injEq] at h
    obtain rfl := (congrArg Prod.fst h).symm
    simp only [Finmap.keys_erase, keys_foldl_update]

theorem Aoi.keys_after_update :
    (aoi.after length (.update id pos order)).object.keys = aoi.object.keys := by
  simp only [after, update]
  cases aoi.object.lookup id with
  | none => rfl
  | some entry =>
    cases (aoi.qtree.remove id).insert length id pos.x pos.z with
    | outside => rfl
    | raised tree => rfl
    | inserted tree => simp only [move, Table.keys_update]

end Tables

/-! ### What a section does -/

/-- The effect of one section on the agents in the tables. -/
inductive Handles : MapPoint → MapState → List Answer → List MapPoint → MapState → Prop
  /-- The tables keep their agents, and no leave begins or ends. -/
  | calm {point : MapPoint} {state later : MapState} {heard : List Answer} {left : List MapPoint}
      (goesOn : ∀ agent, point ≠ .leaving agent) (next : ∀ agent, .leaving agent ∉ left)
      (agents : later.registry.agents = state.registry.agents) (refused : later.refused = state.refused) :
      Handles point state heard left later
  | enters {agent character : ℕ} {state later : MapState} {heard : List Answer}
      (agents : later.registry.agents =
        { state.registry.agents with pending := insert agent state.registry.agents.pending })
      (refused : later.refused = state.refused) :
      Handles (.characterEnter agent character) state heard [.mapEnter agent] later
  | removes {agent : ℕ} {state later : MapState} {heard : List Answer}
      (agents : later.registry.agents =
        { state.registry.agents with object := state.registry.agents.object.erase agent })
      (refused : later.refused = state.refused) :
      Handles (.characterLeave agent) state heard [.leaving agent] later
  | clears {agent : ℕ} {state : MapState} {heard : List Answer}
      (absent : agent ∈ state.registry.agents.object → agent ∉ state.registry.agents.online) :
      Handles (.characterLeave agent) state heard [] (state.clear agent)
  | leaves {agent : ℕ} {state : MapState} {heard : List Answer} :
      Handles (.leaving agent) state heard [] (state.clear agent)
  | leavesRaised {agent : ℕ} {state : MapState} {heard : List Answer} (raised : .raised ∈ heard) :
      Handles (.leaving agent) state heard [] state
  | refuses {agent : ℕ} {pos : Position} {state later : MapState} {heard : List Answer}
      (absent : agent ∉ state.registry.agents.pending) (registry : later.registry = state.registry)
      (refused : later.refused = state.refused ++ [(state.registry, state.registry)]) :
      Handles (.characterReady agent pos) state heard [] later
  | inserts {agent : ℕ} {pos : Position} {state later : MapState} {heard : List Answer}
      (present : agent ∈ state.registry.agents.pending)
      (agents : later.registry.agents =
        ⟨state.registry.agents.pending.erase agent, insert agent state.registry.agents.online,
          insert agent state.registry.agents.object⟩)
      (refused : later.refused = state.refused) :
      Handles (.characterReady agent pos) state heard [.aoiManage agent] later
  /-- The insertion fails. -/
  | fails {agent : ℕ} {pos : Position} {state later : MapState} {heard : List Answer} {left : List MapPoint}
      (present : agent ∈ state.registry.agents.pending)
      (cause : agent ∈ state.registry.agents.object ∨ ¬ state.registry.aoi.qtree.InBounds pos.x pos.z ∨
        ∃ answer ∈ heard, 2 ≤ answer.toInt) :
      Handles (.characterReady agent pos) state heard left later

/-- The contract of the requests. -/
def mapContract : Contract skynet MapPoint MapState :=
  .stateless (fun point ↦ point.isRequest = true) Handles

section Sections

variable {agent character : ℕ} {pos : Position} {state later : MapState}
  {point : MapPoint} {heard : List Answer} {left : List MapPoint}

/-- A section keeps its promise when it has the effect. -/
theorem ends_of_handles (hhandles : Handles point state heard left later) :
    mapContract.Ends ⟨point, state, heard, []⟩ left later :=
  ⟨hhandles, fun _ hfork ↦ nomatch hfork⟩

/-- A section that changes nothing, at the end of a request that is no leave. -/
theorem ends_calm (hpoint : ∀ agent, point ≠ .leaving agent) :
    mapContract.Ends ⟨point, state, heard, []⟩ [] state :=
  ends_of_handles (.calm hpoint (fun _ ↦ List.not_mem_nil) rfl rfl)

/-- The call of an agent: the section ends with the call, and the request goes on or fails with the reply. -/
theorem wp_call {place : MapPoint} {post : Unit → Section skynet MapPoint MapState → MapState → Prop}
    {raised : LuaError → Section skynet MapPoint MapState → MapState → Prop}
    (hcalls : Handles point state heard [place] later)
    (hreturns : ∀ (reply : Answer) (later : MapState), post () ⟨place, later, [reply], []⟩ later)
    (hraises : ∀ later : MapState, raised .callFailed ⟨place, later, [.raised], []⟩ later) :
    (call place).wp mapContract post raised ⟨point, state, heard, []⟩ later := by
  rw [call, Program.wp_bind]
  refine ⟨ends_of_handles hcalls, fun reply later _ ↦ ?_⟩
  cases reply with
  | raised => exact hraises later
  | number _ => exact hreturns _ later
  | order _ => exact hreturns _ later
  | ok => exact hreturns _ later

theorem keeps_characterEnter :
    mapContract.Keeps (characterEnter agent character)
      ⟨.characterEnter agent character, state, heard, []⟩ state := by
  have hcalls : Handles (.characterEnter agent character) state heard [.mapEnter agent]
      { state with
        registry.pendingCharacter := state.registry.pendingCharacter.insert agent character } := by
    refine .enters ?_ rfl
    simp only [Registry.agents, Table.keys_insert]
  have hcalm : ∀ other, MapPoint.mapEnter agent ≠ .leaving other := fun _ ↦ MapPoint.noConfusion
  exact (Program.wp_bind _ _ _ _ _ _).mpr
    (wp_call hcalls (fun _ _ ↦ ends_calm hcalm) fun _ ↦ ⟨trivial, ends_calm hcalm⟩)

theorem keeps_characterLeave :
    mapContract.Keeps (characterLeave agent) ⟨.characterLeave agent, state, heard, []⟩ state := by
  refine (Program.wp_bind _ _ _ _ _ _).mpr ((Program.wp_bind _ _ _ _ _ _).mpr ?_)
  have hclears : ∀ heard : List Answer,
      (agent ∈ state.registry.agents.object → agent ∉ state.registry.agents.online) →
      mapContract.Ends ⟨.characterLeave agent, state, heard, []⟩ [] (state.clear agent) :=
    fun _ habsent ↦ ends_of_handles (.clears habsent)
  cases hcharacter : (state.registry.onlineCharacter.lookup agent).or
      (state.registry.pendingCharacter.lookup agent) with
  | none =>
    simp only [Program.wp_getState, hcharacter]
    refine hclears heard fun _ honline ↦ ?_
    obtain ⟨character, honline⟩ := Table.mem_keys_iff.mp honline
    rw [honline] at hcharacter
    cases hcharacter
  | some character =>
    simp only [Program.wp_getState, hcharacter]
    refine (Program.wp_bind _ _ _ _ _ _).mpr (wp_pairs fun order _ ↦ ?_)
    cases hremove : state.registry.aoi.remove agent order with
    | error aoi =>
      refine hclears _ fun hobject ↦ ?_
      obtain ⟨entry, hentry⟩ := Table.mem_keys_iff.mp hobject
      simp only [Aoi.remove, hentry, reduceCtorEq] at hremove
    | ok result =>
      refine (Program.wp_bind _ _ _ _ _ _).mpr (wp_call (.removes ?_ rfl) (fun _ _ ↦ ?_) fun later ↦ ?_)
      · simp only [Registry.agents, Aoi.keys_of_remove hremove]
      · exact ends_of_handles .leaves
      · exact ⟨trivial, ends_of_handles (.leavesRaised List.mem_cons_self)⟩

/-- The end of `aoi_manage`, also where the call has raised. -/
theorem ends_aoiManage :
    mapContract.Ends ⟨.aoiManage agent, state, heard, []⟩ [] state :=
  ends_calm fun _ h ↦ nomatch h

theorem keeps_dispatchReady :
    mapContract.Keeps (dispatchReady agent pos) ⟨.characterReady agent pos, state, heard, []⟩ state := by
  refine (Program.wp_bind _ _ _ _ _ _).mpr ((Program.wp_bind _ _ _ _ _ _).mpr
    ((Program.wp_bind _ _ _ _ _ _).mpr ?_))
  cases hpending : state.registry.pendingCharacter.lookup agent with
  | none =>
    simp only [Program.wp_getState, hpending]
    refine ends_of_handles (.refuses (fun hmem ↦ ?_) rfl rfl)
    obtain ⟨character, hcharacter⟩ := Table.mem_keys_iff.mp hmem
    rw [hpending] at hcharacter
    cases hcharacter
  | some character =>
    have hpresent : agent ∈ state.registry.agents.pending := Table.mem_keys_iff.mpr ⟨character, hpending⟩
    simp only [Program.wp_getState, hpending]
    refine (Program.wp_bind _ _ _ _ _ _).mpr ((Program.wp_bind _ _ _ _ _ _).mpr
      ((Program.wp_bind _ _ _ _ _ _).mpr (wp_tableLength fun length _ ↦ (Program.wp_bind _ _ _ _ _ _).mpr
        (wp_pairs fun order _ ↦ (Program.wp_bind _ _ _ _ _ _).mpr ?_))))
    simp only [Program.wp_modifyState]
    cases hinsert : state.registry.aoi.insert (fun _ ↦ length) agent pos order with
    | error aoi =>
      have hends : ∀ later, mapContract.Ends ⟨.characterReady agent pos, state,
          heard ++ [.number length] ++ [.order order], []⟩ [] later := by
        intro later
        refine ends_of_handles (.fails hpresent ((Aoi.cause_of_insert hinsert).imp_right (Or.imp_right ?_)))
        intro hsplit
        exact ⟨.number length, by simp, Int.ofNat_le.mpr hsplit⟩
      split
      · next hok => cases hok
      · exact ⟨trivial, hends _⟩
      · exact hends _
    | ok result =>
      refine (Program.wp_bind _ _ _ _ _ _).mpr (wp_call (.inserts hpresent ?_ rfl) (fun _ _ ↦ ?_) fun _ ↦ ?_)
      · simp only [Registry.agents, Table.keys_insert, Finmap.keys_erase, Aoi.after, hinsert,
          Aoi.keys_of_insert hinsert]
      · exact ends_aoiManage
      · exact ⟨trivial, ends_aoiManage⟩

theorem keeps_moveBlinkMap :
    mapContract.Keeps (mapEntry (.moveBlink agent pos)) ⟨.moveBlink agent pos, state, heard, []⟩ state := by
  have hcalm : ∀ other, MapPoint.moveBlink agent pos ≠ .leaving other := fun _ ↦ MapPoint.noConfusion
  refine (Program.wp_bind _ _ _ _ _ _).mpr ((Program.wp_bind _ _ _ _ _ _).mpr
    ((Program.wp_bind _ _ _ _ _ _).mpr (wp_tableLength fun length _ ↦ (Program.wp_bind _ _ _ _ _ _).mpr
      (wp_pairs fun order _ ↦ (Program.wp_bind _ _ _ _ _ _).mpr ?_))))
  simp only [Program.wp_modifyState]
  have hagents : Registry.agents
      { state.registry with aoi := state.registry.aoi.after (fun _ ↦ length) (.update agent pos order) } =
        state.registry.agents := by
    simp only [Registry.agents, Aoi.keys_after_update]
  split
  · refine (Program.wp_bind _ _ _ _ _ _).mpr (wp_call (.calm hcalm ?_ hagents rfl) (fun _ _ ↦ ?_) fun _ ↦ ?_)
    · intro other hother
      cases List.mem_singleton.mp hother
    · exact ends_aoiManage
    · exact ⟨trivial, ends_aoiManage⟩
  · exact ⟨trivial, ends_of_handles (.calm hcalm (fun _ ↦ List.not_mem_nil) hagents rfl)⟩
  · exact ends_of_handles (.calm hcalm (fun _ ↦ List.not_mem_nil) hagents rfl)

/-- A section of the service has one of the effects. -/
theorem keeps_mapEntry (hrequest : point.isRequest = true) :
    mapContract.Keeps (mapEntry point) ⟨point, state, heard, []⟩ state := by
  cases point with
  | characterEnter agent character => exact keeps_characterEnter
  | characterLeave agent => exact keeps_characterLeave
  | characterReady agent pos => exact keeps_dispatchReady
  | moveBlink agent pos => exact keeps_moveBlinkMap
  | mapEnter agent => exact nomatch hrequest
  | aoiManage agent => exact nomatch hrequest
  | leaving agent => exact nomatch hrequest

end Sections

/-! ### The invariant -/

/-- The tables agree on an agent: it is online exactly when it has an object, and not pending then. -/
def Agents.Agree (agents : Agents) (agent : ℕ) : Prop :=
  (agent ∈ agents.online ↔ agent ∈ agents.object) ∧ ¬ (agent ∈ agents.pending ∧ agent ∈ agents.online)

/-- The invariant of the requests. An agent that leaves has no object. -/
structure Registered (state : MapState) (points : List MapPoint) : Prop where
  gone : ∀ agent, .leaving agent ∈ points → agent ∉ state.registry.agents.object
  agree : ∀ agent, .leaving agent ∉ points → state.registry.agents.Agree agent
  refused : ∀ registries ∈ state.refused, registries.1 = registries.2

/-- The condition on a section. An agent enters the map that is not on it or is about to leave it; the
character of an agent becomes ready within the bounds of the map, where the tree need not split, and while the
agent does not leave; and the call of an agent that leaves raises only when the agent is not online. -/
def Undisturbed (state : MapState) (points : List MapPoint) :
    MapPoint → List Answer → Prop
  | .characterEnter agent _, _ =>
    agent ∈ state.registry.onlineCharacter.keys → .leaving agent ∈ points
  | .characterReady agent pos, heard =>
    agent ∈ state.registry.pendingCharacter.keys →
      state.registry.aoi.qtree.InBounds pos.x pos.z ∧ (∀ answer ∈ heard, answer.toInt < 2) ∧
        .leaving agent ∉ points
  | .leaving agent, heard => .raised ∈ heard → agent ∉ state.registry.onlineCharacter.keys
  | _, _ => True

instance (state : MapState) (points : List MapPoint) :
    (point : MapPoint) → (heard : List Answer) → Decidable (Undisturbed state points point heard)
  | .characterEnter agent _, _ => inferInstanceAs
    (Decidable (agent ∈ state.registry.onlineCharacter.keys → .leaving agent ∈ points))
  | .characterReady agent pos, heard => inferInstanceAs
    (Decidable (agent ∈ state.registry.pendingCharacter.keys →
      state.registry.aoi.qtree.InBounds pos.x pos.z ∧ (∀ answer ∈ heard, answer.toInt < 2) ∧
        .leaving agent ∉ points))
  | .leaving agent, heard => inferInstanceAs
    (Decidable (.raised ∈ heard → agent ∉ state.registry.onlineCharacter.keys))
  | .characterLeave _, _ | .moveBlink _ _, _ | .mapEnter _, _ | .aoiManage _, _ =>
    inferInstanceAs (Decidable True)

/-- The condition on the moves. -/
def UndisturbedMove : Configuration skynet MapPoint MapState → Move skynet MapPoint → Prop :=
  Hears fun configuration ↦ Undisturbed configuration.state configuration.points

instance (configuration : Configuration skynet MapPoint MapState) (move : Move skynet MapPoint) :
    Decidable (UndisturbedMove configuration move) :=
  inferInstanceAs (Decidable (Hears _ configuration move))

namespace Registered

variable {state later : MapState} {before left after : List MapPoint}
  {point : MapPoint} {heard : List Answer} {agent : ℕ}

/-- A section that neither begins nor ends a leave of an agent. -/
theorem leaving_iff (hpoint : point ≠ .leaving agent) (hleft : .leaving agent ∉ left) :
    .leaving agent ∈ before ++ left ++ after ↔ .leaving agent ∈ before ++ point :: after := by
  simp only [List.mem_append, List.mem_cons, hleft, hpoint.symm, or_false, false_or]

/-- A section that changes what the tables have of one agent at most. -/
theorem of_others (h : Registered state (before ++ point :: after)) (agent : ℕ)
    (hpoint : ∀ other, other ≠ agent → point ≠ .leaving other)
    (hleft : ∀ other, other ≠ agent → .leaving other ∉ left)
    (hothers : ∀ other, other ≠ agent →
      (other ∈ later.registry.agents.pending ↔ other ∈ state.registry.agents.pending) ∧
      (other ∈ later.registry.agents.online ↔ other ∈ state.registry.agents.online) ∧
      (other ∈ later.registry.agents.object ↔ other ∈ state.registry.agents.object))
    (hgone : .leaving agent ∈ before ++ left ++ after → agent ∉ later.registry.agents.object)
    (hagree : .leaving agent ∉ before ++ left ++ after → later.registry.agents.Agree agent)
    (hrefused : later.refused = state.refused) : Registered later (before ++ left ++ after) where
  gone := by
    intro other hmem
    by_cases hother : other = agent
    · subst hother
      exact hgone hmem
    · rw [(hothers other hother).2.2]
      exact h.gone other ((leaving_iff (hpoint other hother) (hleft other hother)).mp hmem)
  agree := by
    intro other hmem
    by_cases hother : other = agent
    · subst hother
      exact hagree hmem
    · obtain ⟨hpending, honline, hobject⟩ := hothers other hother
      rw [leaving_iff (hpoint other hother) (hleft other hother)] at hmem
      unfold Agents.Agree
      rw [hpending, honline, hobject]
      exact h.agree other hmem
  refused := by
    rw [hrefused]
    exact h.refused

/-- An agent that has no object any more is cleared. -/
theorem clear (h : Registered state (before ++ point :: after)) (hobject : agent ∉ state.registry.agents.object)
    (hpoint : ∀ other, other ≠ agent → point ≠ .leaving other) :
    Registered (state.clear agent) (before ++ [] ++ after) := by
  refine h.of_others agent hpoint (fun _ _ ↦ List.not_mem_nil) (fun other hother ↦ ?_) (fun _ ↦ ?_)
    (fun _ ↦ ?_) rfl
  · simp [hother]
  · simpa using hobject
  · simp [Agents.Agree, hobject]

/-- One section keeps the invariant. -/
theorem step (h : Registered state (before ++ point :: after))
    (hmeets : Undisturbed state (before ++ point :: after) point heard)
    (hhandles : Handles point state heard left later) :
    Registered later (before ++ left ++ after) := by
  cases hhandles with
  | calm goesOn next agents refused =>
    refine ⟨fun agent hmem ↦ ?_, fun agent hmem ↦ ?_, refused ▸ h.refused⟩
    · rw [agents]
      exact h.gone agent ((leaving_iff (goesOn agent) (next agent)).mp hmem)
    · rw [leaving_iff (goesOn agent) (next agent)] at hmem
      rw [agents]
      exact h.agree agent hmem
  | @enters agent character _ _ _ agents refused =>
    have hnext : ∀ other, MapPoint.leaving other ∉ [MapPoint.mapEnter agent] :=
      fun other hother ↦ nomatch List.mem_singleton.mp hother
    have hleaving : .leaving agent ∈ before ++ [.mapEnter agent] ++ after ↔
        .leaving agent ∈ before ++ .characterEnter agent character :: after :=
      leaving_iff (fun hpoint ↦ nomatch hpoint) (hnext agent)
    refine h.of_others agent (fun _ _ hpoint ↦ nomatch hpoint) (fun other _ ↦ hnext other)
      (fun other hother ↦ ?_) (fun hmem ↦ ?_) (fun hmem ↦ ?_) refused
    · simp [agents, hother]
    · rw [agents]
      exact h.gone agent (hleaving.mp hmem)
    · rw [hleaving] at hmem
      have honline : agent ∉ state.registry.agents.online := fun honline ↦ hmem (hmeets honline)
      rw [agents]
      exact ⟨(h.agree agent hmem).1, fun hboth ↦ honline hboth.2⟩
  | @removes agent _ _ _ agents refused =>
    refine h.of_others agent (fun _ _ hpoint ↦ nomatch hpoint) (fun other hother hmem ↦ ?_)
      (fun other hother ↦ ?_) (fun _ ↦ ?_) (fun hmem ↦ ?_) refused
    · exact hother (MapPoint.leaving.inj (List.mem_singleton.mp hmem))
    · simp [agents, hother]
    · simp [agents]
    · exact absurd (List.mem_append_left _ (List.mem_append_right _ List.mem_cons_self)) hmem
  | @clears agent _ _ absent =>
    refine h.clear (fun hobject ↦ ?_) fun _ _ hpoint ↦ nomatch hpoint
    by_cases hmem : .leaving agent ∈ before ++ .characterLeave agent :: after
    · exact h.gone agent hmem hobject
    · exact absent hobject ((h.agree agent hmem).1.mpr hobject)
  | @leaves agent _ _ =>
    have hobject := h.gone agent (List.mem_append_right _ List.mem_cons_self)
    exact h.clear hobject fun other hother hpoint ↦ hother (MapPoint.leaving.inj hpoint).symm
  | @leavesRaised agent _ _ raised =>
    have hobject := h.gone agent (List.mem_append_right _ List.mem_cons_self)
    have honline : agent ∉ state.registry.agents.online := hmeets raised
    refine h.of_others agent (fun other hother hpoint ↦ hother (MapPoint.leaving.inj hpoint).symm)
      (fun _ _ ↦ List.not_mem_nil) (fun _ _ ↦ ⟨Iff.rfl, Iff.rfl, Iff.rfl⟩) (fun _ ↦ hobject) (fun _ ↦ ?_) rfl
    exact ⟨iff_of_false honline hobject, fun hboth ↦ honline hboth.2⟩
  | @refuses agent pos _ _ _ absent registry refused =>
    have hleaving : ∀ other, .leaving other ∈ before ++ [] ++ after ↔
        .leaving other ∈ before ++ .characterReady agent pos :: after :=
      fun other ↦ leaving_iff (fun hpoint ↦ nomatch hpoint) List.not_mem_nil
    refine ⟨fun other hmem ↦ ?_, fun other hmem ↦ ?_, fun registries hmem ↦ ?_⟩
    · rw [registry]
      exact h.gone other ((hleaving other).mp hmem)
    · rw [hleaving] at hmem
      rw [registry]
      exact h.agree other hmem
    · rw [refused] at hmem
      rcases List.mem_append.mp hmem with hold | hnew
      · exact h.refused registries hold
      · rw [List.mem_singleton.mp hnew]
  | @inserts agent pos _ _ _ present agents refused =>
    obtain ⟨-, -, hstays⟩ := hmeets present
    have hnext : ∀ other, MapPoint.leaving other ∉ [MapPoint.aoiManage agent] :=
      fun other hother ↦ nomatch List.mem_singleton.mp hother
    have hleaving : .leaving agent ∈ before ++ [.aoiManage agent] ++ after ↔
        .leaving agent ∈ before ++ .characterReady agent pos :: after :=
      leaving_iff (fun hpoint ↦ nomatch hpoint) (hnext agent)
    refine h.of_others agent (fun _ _ hpoint ↦ nomatch hpoint) (fun other _ ↦ hnext other)
      (fun other hother ↦ ?_) (fun hmem ↦ ?_) (fun _ ↦ ?_) refused
    · simp [agents, hother]
    · exact absurd (hleaving.mp hmem) hstays
    · simp [agents, Agents.Agree]
  | @fails agent pos _ _ _ _ present cause =>
    obtain ⟨hbounds, hsplit, hstays⟩ := hmeets present
    have hagree := h.agree agent hstays
    rcases cause with hobject | hout | hlength
    · exact absurd ⟨present, hagree.1.mpr hobject⟩ hagree.2
    · exact absurd hbounds hout
    · obtain ⟨answer, hanswer, hlength⟩ := hlength
      exact absurd (hsplit answer hanswer) (Int.not_lt.mpr hlength)

/-- A request that arrives changes nothing. -/
theorem arrive {points : List MapPoint} (h : Registered state points) (hrequest : point.isRequest = true) :
    Registered state (points ++ [point]) := by
  have hleaving : ∀ agent, .leaving agent ∈ points ++ [point] ↔ .leaving agent ∈ points := by
    intro agent
    rw [List.mem_append, List.mem_singleton, or_iff_left]
    rintro rfl
    exact nomatch hrequest
  refine ⟨fun agent hmem ↦ h.gone agent ((hleaving agent).mp hmem), fun agent hmem ↦ ?_, h.refused⟩
  exact h.agree agent fun hold ↦ hmem ((hleaving agent).mpr hold)

end Registered

/-! ### Runs -/

/-- The requests keep the invariant. -/
theorem sound_mapService :
    mapService.Sound mapContract Registered UndisturbedMove := by
  refine System.sound_stateless (fun _ _ _ hrequest ↦ keeps_mapEntry hrequest)
    (fun configuration point _ harrives hinv ↦ ⟨hinv.arrive harrives, harrives⟩) ?_
  intro configuration before point after reply answers left last hmeets hpoints hinv hhandles
  have hundisturbed := Hears.meets hmeets hpoints
  rw [hpoints] at hundisturbed hinv
  exact hinv.step hundisturbed hhandles

/-- A map on which nobody is. -/
def emptyMap (left top right bottom radius : ℤ) : MapState :=
  ⟨⟨∅, ∅, .init left top right bottom radius⟩, []⟩

/-- In every run in which no agent enters that is on the map, the characters become ready within the bounds of
the map while their agents do not leave, and no call of an agent that leaves raises: whenever no request is in
progress an agent is online exactly when the module has an object for it, and is not pending then; and every
`character_ready` that has returned false has left the registry as it was. -/
theorem registry_agrees (left top right bottom radius : ℤ)
    {last : Configuration skynet MapPoint MapState}
    (hrun : mapService.Run UndisturbedMove ⟨emptyMap left top right bottom radius, [], []⟩ last) :
    ((∀ point ∈ last.points, point.isRequest = true) → ∀ agent,
      (agent ∈ last.state.registry.onlineCharacter.keys ↔ agent ∈ last.state.registry.aoi.object.keys) ∧
      ¬ (agent ∈ last.state.registry.pendingCharacter.keys ∧
        agent ∈ last.state.registry.onlineCharacter.keys)) ∧
    ∀ registries ∈ last.state.refused, registries.1 = registries.2 := by
  have hfirst : Registered (emptyMap left top right bottom radius) [] :=
    ⟨fun _ hmem ↦ (List.not_mem_nil hmem).elim, fun _ _ ↦ ⟨Iff.rfl, fun hboth ↦ Finset.notMem_empty _ hboth.1⟩,
      fun _ hmem ↦ (List.not_mem_nil hmem).elim⟩
  have hlast := (sound_mapService.good_of_run
    (sound_mapService.good_of_starts hfirst fun _ hmem ↦ (List.not_mem_nil hmem).elim) hrun).holds
  refine ⟨fun hidle agent ↦ hlast.agree agent fun hmem ↦ ?_, hlast.refused⟩
  exact nomatch hidle _ hmem

/-- The moves of a request that arrives when no other is in progress. The section asks for the length of the
table of objects and for the order of a traversal that visits the agent at most. -/
def handles (point : MapPoint) (answers : List Answer) : List (Move skynet MapPoint) :=
  [.arrive point, .resume 0 .ok answers]

/-- The agent replies. -/
def replies : Move skynet MapPoint := .resume 0 .ok []

/-- An agent that comes onto the map, becomes ready twice, moves and leaves. -/
theorem registry_agrees_once : ∃ last, mapService.Run UndisturbedMove
    ⟨emptyMap 0 0 100 100 10, [], []⟩ last ∧ last.points = [] ∧ last.state.refused.length = 1 ∧
      ∀ agent, (agent ∈ last.state.registry.onlineCharacter.keys ↔
        agent ∈ last.state.registry.aoi.object.keys) ∧
        ¬ (agent ∈ last.state.registry.pendingCharacter.keys ∧
          agent ∈ last.state.registry.onlineCharacter.keys) := by
  obtain ⟨last, hrun, hvalue⟩ := mapService.exists_run_of_playMeeting UndisturbedMove
    ⟨emptyMap 0 0 100 100 10, [], []⟩
    (handles (.characterEnter 16 7) [] ++ [replies] ++ handles (.characterReady 16 ⟨5, 5⟩) [.number 0, .order [16]] ++
      [replies] ++ handles (.characterReady 16 ⟨5, 5⟩) [] ++ handles (.moveBlink 16 ⟨8, 8⟩) [.number 0, .order [16]] ++
      [replies] ++ handles (.characterLeave 16) [.order []] ++ [replies])
    (fun last ↦ (last.points, last.state.refused.length)) (show _ = some ([], 1) by decide +kernel)
  obtain ⟨hpoints, hrefused⟩ := Prod.mk.inj hvalue
  refine ⟨last, hrun, hpoints, hrefused, (registry_agrees 0 0 100 100 10 hrun).1 ?_⟩
  rw [hpoints]
  exact fun _ hmem ↦ (List.not_mem_nil hmem).elim

/-- A character that becomes ready out of bounds: `character_ready` has returned false, no request is in
progress, and the agent is online without an object. -/
theorem ready_out_of_bounds : ∃ last, mapService.AnyRun ⟨emptyMap 0 0 100 100 10, [], []⟩ last ∧
    last.points = [] ∧
      ¬ (16 ∈ last.state.registry.onlineCharacter.keys ↔ 16 ∈ last.state.registry.aoi.object.keys) ∧
      ¬ ∀ registries ∈ last.state.refused, registries.1 = registries.2 := by
  obtain ⟨last, hrun, hvalue⟩ := mapService.exists_run_of_playAll ⟨emptyMap 0 0 100 100 10, [], []⟩
    (handles (.characterEnter 16 7) [] ++ [replies] ++
      handles (.characterReady 16 ⟨5, 101⟩) [.number 0, .order [16]])
    (fun last ↦ (last.points, decide (16 ∈ last.state.registry.onlineCharacter.keys),
      decide (16 ∈ last.state.registry.aoi.object.keys),
      last.state.refused.map fun registries : Registry × Registry ↦
        (decide (16 ∈ registries.1.pendingCharacter.keys), decide (16 ∈ registries.2.pendingCharacter.keys))))
    (show _ = some ([], true, false, [(true, false)]) by decide +kernel)
  simp only [Prod.mk.injEq, decide_eq_true_eq, decide_eq_false_iff_not] at hvalue
  obtain ⟨hpoints, honline, hobject, hrefused⟩ := hvalue
  refine ⟨last, hrun, hpoints, fun hiff ↦ hobject (hiff.mp honline), fun hall ↦ ?_⟩
  have hmem : (true, false) ∈ last.state.refused.map fun registries : Registry × Registry ↦
      (decide (16 ∈ registries.1.pendingCharacter.keys), decide (16 ∈ registries.2.pendingCharacter.keys)) := by
    rw [hrefused]
    exact List.mem_cons_self
  obtain ⟨registries, hregistries, hsame⟩ := List.mem_map.mp hmem
  rw [hall registries hregistries] at hsame
  obtain ⟨htrue, hfalse⟩ := Prod.mk.inj hsame
  exact Bool.noConfusion (htrue.symm.trans hfalse)

end SvrDemo.Map
