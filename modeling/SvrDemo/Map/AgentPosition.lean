import SvrDemo.Map.MoveHandler

/-!
# The position of an agent and the map

`Moves` says what one section of the agent or the map can do, and `Tracked` is the invariant. Until the map
has taken the first `character_ready` up it refuses every move, and the position that this call hands over is
the one with which the character has entered, when no move was pending as `map_ready` began. The moves
that the map has not decided form a queue: the old position of each is the new one of the move before it,
that of the first is the position that the map has accepted, and the character has the position of the
last. A refusal that is taken back before another move begins puts the character back on the accepted
position. Once a refused move has been followed by another, its old position is out of date, and the
invariant gives up.
-/

set_option autoImplicit false
set_option relaxedAutoImplicit false

namespace SvrDemo.Map

open Coroutine Skynet Lua

/-! ### What the calls of the map keep -/

section Calls

variable {length : Finset ℕ → ℕ} {aoi next : Aoi} {agent id : ℕ} {pos : Position} {order : List ℕ}

/-- The position that a table has for a character. -/
def posOf (object : Table Entry) (id : ℕ) : Option Position :=
  (object.lookup id).map Entry.pos

/-- A change of lists leaves the positions. -/
theorem posOf_update {object : Table Entry} {change : Entry → Entry} (key : ℕ)
    (hchange : ∀ entry, (change entry).pos = entry.pos) :
    posOf (object.update key change) agent = posOf object agent := by
  unfold posOf
  rw [Table.lookup_update]
  split_ifs with hagent
  · rw [hagent, Option.map_map]
    congr 1
    exact funext hchange
  · rfl

theorem posOf_foldl_update {keys : List ℕ} {change : Entry → Entry}
    (hchange : ∀ entry, (change entry).pos = entry.pos) : ∀ object : Table Entry,
      posOf (keys.foldl (fun object key ↦ object.update key change) object) agent = posOf object agent := by
  induction keys with
  | nil => exact fun _ ↦ rfl
  | cons key keys ih =>
    intro object
    rw [List.foldl_cons, ih, posOf_update key hchange]

theorem posOf_foldl_meet {result : List ℕ} : ∀ state : Finset ℕ × Table Entry,
    posOf (result.foldl (Aoi.meet id) state).2 agent = posOf state.2 agent := by
  induction result with
  | nil => exact fun _ ↦ rfl
  | cons cid result ih =>
    intro state
    rw [List.foldl_cons, ih]
    unfold Aoi.meet
    split
    · exact posOf_update cid fun _ ↦ rfl
    · rfl

/-- A call for another character leaves the position of an agent. -/
theorem posOf_after {call : Call} (hid : call.id ≠ agent) :
    posOf (aoi.after length call).object agent = posOf aoi.object agent := by
  cases call with
  | insert id pos order =>
    have hne : agent ≠ id := hid.symm
    simp only [Aoi.after, Aoi.insert]
    cases hid : aoi.object.lookup id with
    | some _ => rfl
    | none =>
      cases aoi.qtree.insert length id pos.x pos.z with
      | outside => rfl
      | raised tree => rfl
      | inserted tree =>
        simp only [Aoi.enter]
        unfold posOf
        rw [Table.lookup_insert_eq, if_neg hne]
        exact posOf_foldl_meet _
  | remove id order =>
    have hne : agent ≠ id := hid.symm
    simp only [Aoi.after, Aoi.remove]
    cases hid : aoi.object.lookup id with
    | none => rfl
    | some c =>
      simp only
      unfold posOf
      rw [Table.lookup_erase_eq, if_neg hne]
      have hkeeps : ∀ entry : Entry, ({ entry with list := entry.list.erase id } : Entry).pos = entry.pos :=
        fun _ ↦ rfl
      exact posOf_foldl_update hkeeps aoi.object
  | update id pos order =>
    have hne : agent ≠ id := hid.symm
    simp only [Aoi.after, Aoi.update]
    cases hid : aoi.object.lookup id with
    | none => rfl
    | some c =>
      cases (aoi.qtree.remove id).insert length id pos.x pos.z with
      | outside => rfl
      | raised tree => rfl
      | inserted tree =>
        simp only [Aoi.move]
        unfold posOf
        rw [Table.lookup_update_of_ne _ hne]

/-- An agent that has left has no position. -/
theorem posOf_after_remove :
    posOf (aoi.after length (.remove agent order)).object agent = none := by
  simp only [Aoi.after, Aoi.remove]
  cases hid : aoi.object.lookup agent with
  | none =>
    unfold posOf
    rw [hid]
    rfl
  | some c =>
    simp only
    unfold posOf
    rw [Table.lookup_erase_eq, if_pos rfl]
    rfl

/-- The bounds that an insertion leaves are those of the tree. -/
theorem inBounds_of_insert {tree : Quadtree} {x y x' y' : ℤ} :
    (∀ next, tree.insert length id x y = .inserted next → (next.InBounds x' y' ↔ tree.InBounds x' y')) ∧
      ∀ next, tree.insert length id x y = .raised next → (next.InBounds x' y' ↔ tree.InBounds x' y') := by
  unfold Quadtree.insert
  split_ifs <;> constructor <;> intro next hnext <;> cases hnext <;> exact Iff.rfl

/-- No call changes the bounds of the map. -/
theorem inBounds_after (call : Call) (x y : ℤ) :
    (aoi.after length call).qtree.InBounds x y ↔ aoi.qtree.InBounds x y := by
  cases call with
  | insert id pos order =>
    simp only [Aoi.after, Aoi.insert]
    cases hid : aoi.object.lookup id with
    | some _ => exact Iff.rfl
    | none =>
      cases hinsert : aoi.qtree.insert length id pos.x pos.z with
      | outside => exact Iff.rfl
      | raised tree => exact inBounds_of_insert.2 tree hinsert
      | inserted tree => exact inBounds_of_insert.1 tree hinsert
  | remove id order =>
    simp only [Aoi.after, Aoi.remove]
    cases hid : aoi.object.lookup id with
    | none => exact Iff.rfl
    | some c => exact Iff.rfl
  | update id pos order =>
    simp only [Aoi.after, Aoi.update]
    cases hid : aoi.object.lookup id with
    | none => exact Iff.rfl
    | some c =>
      cases hinsert : (aoi.qtree.remove id).insert length id pos.x pos.z with
      | outside => exact Iff.rfl
      | raised tree => exact (inBounds_of_insert.2 tree hinsert).trans Iff.rfl
      | inserted tree => exact (inBounds_of_insert.1 tree hinsert).trans Iff.rfl

/-- A move that the map accepts was in its bounds, and is the position of the agent from then on. -/
theorem update_eq_ok_pos {moved : Aoi.Moved} (h : aoi.update length agent pos order = .ok (next, moved)) :
    posOf next.object agent = some pos ∧ aoi.qtree.InBounds pos.x pos.z := by
  simp only [Aoi.update] at h
  cases hid : aoi.object.lookup agent with
  | none => simp only [hid] at h; cases h
  | some c =>
    simp only [hid] at h
    cases hinsert : (aoi.qtree.remove agent).insert length agent pos.x pos.z with
    | outside => simp only [hinsert] at h; cases h
    | raised tree => simp only [hinsert] at h; cases h
    | inserted tree =>
      simp only [hinsert, Except.ok.injEq] at h
      obtain ⟨rfl, -⟩ := Prod.mk.inj h
      refine ⟨?_, (Quadtree.insert_eq_inserted hinsert).1⟩
      simp [posOf, hid]

/-- A move that the map does not accept leaves the position of the agent. -/
theorem update_eq_error (h : aoi.update length agent pos order = .error next) :
    next.object = aoi.object := by
  simp only [Aoi.update] at h
  cases hid : aoi.object.lookup agent with
  | none => simp only [hid, Except.error.injEq] at h; rw [h]
  | some c =>
    simp only [hid] at h
    cases hinsert : (aoi.qtree.remove agent).insert length agent pos.x pos.z with
    | outside => simp only [hinsert, Except.error.injEq] at h; rw [← h]
    | raised tree => simp only [hinsert, Except.error.injEq] at h; rw [← h]
    | inserted tree => simp only [hinsert] at h; cases h

/-- An insertion that the map accepts was in its bounds, and its position is that of the agent. -/
theorem insert_eq_ok_pos {list : Finset ℕ} (h : aoi.insert length agent pos order = .ok (next, list)) :
    posOf next.object agent = some pos ∧ aoi.qtree.InBounds pos.x pos.z := by
  simp only [Aoi.insert] at h
  cases hid : aoi.object.lookup agent with
  | some c => simp only [hid, reduceCtorEq] at h
  | none =>
    simp only [hid] at h
    cases hinsert : aoi.qtree.insert length agent pos.x pos.z with
    | outside => simp only [hinsert, reduceCtorEq] at h
    | raised tree => simp only [hinsert, reduceCtorEq] at h
    | inserted tree =>
      simp only [hinsert, Except.ok.injEq] at h
      obtain rfl := (congrArg Prod.fst h).symm
      refine ⟨?_, (Quadtree.insert_eq_inserted hinsert).1⟩
      simp only [Aoi.enter, posOf, Table.lookup_insert_eq, if_pos, Option.map_some]

/-- An insertion that the map does not accept leaves the position of the agent. -/
theorem insert_eq_error (h : aoi.insert length agent pos order = .error next) : next.object = aoi.object := by
  simp only [Aoi.insert] at h
  cases hid : aoi.object.lookup agent with
  | some c => simp only [hid, Except.error.injEq] at h; rw [h]
  | none =>
    simp only [hid] at h
    cases hinsert : aoi.qtree.insert length agent pos.x pos.z with
    | outside => simp only [hinsert, Except.error.injEq] at h; rw [← h]
    | raised tree => simp only [hinsert, Except.error.injEq] at h; rw [← h]
    | inserted tree => simp only [hinsert, reduceCtorEq] at h

/-- A change of the map that gives an agent no new position. -/
structure Aoi.Still (agent : ℕ) (aoi next : Aoi) : Prop where
  bounds : ∀ x y, next.qtree.InBounds x y ↔ aoi.qtree.InBounds x y
  placed : ∀ pos, posOf next.object agent = some pos → posOf aoi.object agent = some pos

theorem Aoi.Still.refl (aoi : Aoi) : aoi.Still agent aoi := ⟨fun _ _ ↦ Iff.rfl, fun _ hpos ↦ hpos⟩

theorem Aoi.Still.of_other {call : Call} (hid : call.id ≠ agent) : aoi.Still agent (aoi.after length call) :=
  ⟨inBounds_after call, fun pos hpos ↦ by rwa [posOf_after hid] at hpos⟩

theorem Aoi.Still.of_remove {list : Finset ℕ} (h : aoi.remove agent order = .ok (next, list)) :
    aoi.Still agent next := by
  have hafter : aoi.after (fun _ ↦ 0) (.remove agent order) = next := by
    simp only [Aoi.after, h]
  rw [← hafter]
  refine ⟨inBounds_after _, fun pos hpos ↦ ?_⟩
  rw [posOf_after_remove] at hpos
  cases hpos

theorem Aoi.Still.of_insert_error (h : aoi.insert length agent pos order = .error next) :
    aoi.Still agent next := by
  have hafter : aoi.after length (.insert agent pos order) = next := by
    simp only [Aoi.after, h]
  refine ⟨fun x y ↦ ?_, fun place hplace ↦ ?_⟩
  · rw [← hafter]
    exact inBounds_after _ x y
  · rwa [insert_eq_error h] at hplace

end Calls

/-! ### What a section does -/

/-- A move that the map has not decided. -/
def MovePoint.undecided : MovePoint → Bool
  | .moveBlink _ _ _ => true
  | _ => false

/-- A `character_ready` that the map has not taken up. -/
def MovePoint.enters : MovePoint → Bool
  | .characterReady _ => true
  | _ => false

/-- A call of the agent that the map has not taken up. -/
def MovePoint.called (point : MovePoint) : Bool := point.undecided || point.enters

/-- A request that has not begun. -/
def MovePoint.waits : MovePoint → Bool
  | .mapReady => true
  | .move _ => true
  | _ => false

/-- A move that the map has not decided, or that is refused and not taken back yet. -/
def MovePoint.pending : MovePoint → Bool
  | .moveBlink _ _ _ => true
  | .refused _ _ => true
  | _ => false

/-- A place after which no call of the agent is on its way. -/
def MovePoint.calm (point : MovePoint) : Bool := !point.pending && !point.waits && !point.enters

/-- The effect of one section. -/
inductive Moves (agent : ℕ) : MovePoint → Moving → List Answer → List MovePoint → Moving → Prop
  /-- The section decides no move and begins none, and the agent does not become ready. -/
  | quiet {point : MovePoint} {state later : Moving} {heard : List Answer} {left : List MovePoint}
      (calm : point.pending = false) (next : ∀ place ∈ left, place.calm = true)
      (pos : later.pos = state.pos) (began : later.began = state.began)
      (accepted : later.accepted = state.accepted) (saved : later.saved = state.saved)
      (waiting : later.pendingCharacter = none ∨
        later.pendingCharacter = state.pendingCharacter ∧ point.enters = false)
      (aoi : state.aoi.Still agent later.aoi) : Moves agent point state heard left later
  | asks {state : Moving} {heard : List Answer} :
      Moves agent .mapReady state heard [.characterReady state.pos] state
  | enters {pos : Database.Position} {character : ℕ} {length : Finset ℕ → ℕ} {state : Moving}
      {heard : List Answer} {order : List ℕ} {aoi : Aoi} {list : Finset ℕ}
      (waiting : state.pendingCharacter = some character)
      (entered : state.aoi.insert length agent (onMap pos) order = .ok (aoi, list)) :
      Moves agent (.characterReady pos) state heard [.entering]
        { state with
          pendingCharacter := none
          onlineCharacter := some character
          aoi := aoi
          accepted := pos }
  | begins {args : PosArgs} {state : Moving} {heard : List Answer} :
      Moves agent (.move (some args)) state heard
        [.moveBlink (state.began + 1) (args.fill state.pos) state.pos]
        { state with pos := args.fill state.pos, began := state.began + 1 }
  | accepts {number : ℕ} {npos opos : Database.Position} {length : Finset ℕ → ℕ} {state : Moving}
      {heard : List Answer} {order : List ℕ} {aoi : Aoi} {moved : Aoi.Moved}
      (accepted : state.aoi.update length agent (onMap npos) order = .ok (aoi, moved)) :
      Moves agent (.moveBlink number npos opos) state heard [.aoiManage number]
        { state with aoi := aoi, accepted := npos }
  | refuses {number : ℕ} {npos opos : Database.Position} {length : Finset ℕ → ℕ} {state : Moving}
      {heard : List Answer} {order : List ℕ} {aoi : Aoi}
      (refused : state.aoi.update length agent (onMap npos) order = .error aoi) :
      Moves agent (.moveBlink number npos opos) state heard [.refused number opos] { state with aoi := aoi }
  | raises {number length : ℕ} {npos opos : Database.Position} {state later : Moving} {heard : List Answer}
      {left : List MovePoint} (answered : .number length ∈ heard)
      (raised : state.aoi.raises (fun _ ↦ length) (.update agent (onMap npos) []) = true) :
      Moves agent (.moveBlink number npos opos) state heard left later
  | takesBack {number : ℕ} {opos : Database.Position} {state : Moving} {heard : List Answer} :
      Moves agent (.refused number opos) state heard [] { state with pos := opos }
  | saves {state : Moving} {heard : List Answer} (replied : .raised ∉ heard) :
      Moves agent .worldLeave state heard [] { state with saved := state.saved ++ [state.pos], user := false }

/-- The contract of the agent and the map. -/
def moveContract (agent : ℕ) : Contract skynet MovePoint Moving :=
  .stateless (fun point ↦ (moveService agent).arrives point = true) (Moves agent)

variable {agent : ℕ}

/-- A section that starts no coroutine keeps its promise when it has the effect. -/
theorem ends_of_moves {point : MovePoint} {origin state : Moving} {heard : List Answer}
    {left : List MovePoint} (hmoves : Moves agent point origin heard left state) :
    (moveContract agent).Ends ⟨point, origin, heard, []⟩ left state :=
  ⟨hmoves, fun _ hfork ↦ nomatch hfork⟩

/-- The end of a section that leaves the moves, the character and the tables of the map alone. -/
theorem ends_still {point : MovePoint} {state later : Moving} {heard : List Answer} {left : List MovePoint}
    (hcalm : point.pending = false) (henters : point.enters = false)
    (hleft : ∀ place ∈ left, place.calm = true) (hpos : later.pos = state.pos)
    (hbegan : later.began = state.began) (haccepted : later.accepted = state.accepted)
    (hsaved : later.saved = state.saved) (hwaiting : later.pendingCharacter = state.pendingCharacter)
    (haoi : state.aoi.Still agent later.aoi) :
    (moveContract agent).Ends ⟨point, state, heard, []⟩ left later :=
  ends_of_moves (.quiet hcalm hleft hpos hbegan haccepted hsaved (.inr ⟨hwaiting, henters⟩) haoi)

/-- The end of a section that changes nothing, with the place where the coroutine waits then. -/
theorem ends_quiet {point : MovePoint} {state : Moving} {heard : List Answer} {left : List MovePoint}
    (hcalm : point.pending = false) (henters : point.enters = false)
    (hleft : ∀ place ∈ left, place.calm = true) :
    (moveContract agent).Ends ⟨point, state, heard, []⟩ left state :=
  ends_still hcalm henters hleft rfl rfl rfl rfl rfl (.refl _)

/-- A coroutine that ends waits nowhere. -/
theorem calm_nil : ∀ place ∈ ([] : List MovePoint), place.calm = true :=
  fun _ hplace ↦ (List.not_mem_nil hplace).elim

theorem calm_singleton {place : MovePoint} (hcalm : place.calm = true) :
    ∀ other ∈ [place], other.calm = true := by
  intro other hother
  rwa [List.mem_singleton.mp hother]

/-- The handling of a move by the map, and what the agent does with the reply. -/
theorem keeps_moveBlink {number : ℕ} {npos opos : Database.Position} {state : Moving}
    {heard : List Answer} :
    (moveContract agent).Keeps
      (do
        let ok ← moveBlink agent number npos opos
        if !ok then
          Program.modifyState fun state ↦ { state with pos := opos }
          .fail .errorCalled)
      ⟨.moveBlink number npos opos, state, heard, []⟩ state := by
  refine (Program.wp_bind _ _ _ _ _ _).mpr ((Program.wp_bind _ _ _ _ _ _).mpr
    ((Program.wp_bind _ _ _ _ _ _).mpr (wp_tableLength fun length _ ↦
      (Program.wp_bind _ _ _ _ _ _).mpr (wp_pairs fun order _ ↦ ?_))))
  cases hupdate : state.aoi.update (fun _ ↦ length) agent (onMap npos) order with
  | ok result =>
    obtain ⟨aoi, moved⟩ := result
    refine (Program.wp_bind _ _ _ _ _ _).mpr ?_
    refine (Program.wp_bind _ _ _ _ _ _).mpr ⟨ends_of_moves (.accepts hupdate), fun reply later _ ↦ ?_⟩
    refine (Program.wp_bind _ _ _ _ _ _).mpr
      ⟨ends_quiet rfl rfl (calm_singleton rfl), fun reply later _ ↦ ?_⟩
    exact ends_quiet rfl rfl calm_nil
  | error aoi =>
    refine (Program.wp_bind _ _ _ _ _ _).mpr ?_
    simp only [Program.wp_modifyState]
    split_ifs with hraises
    · have hends : Moves agent (.moveBlink number npos opos) state
          (heard ++ [.number length] ++ [.order order]) [.raised number] { state with aoi := aoi } :=
        .raises (by simp) hraises
      refine ⟨ends_of_moves hends, fun reply later _ ↦ ⟨trivial, ?_⟩⟩
      exact ends_quiet rfl rfl calm_nil
    · refine ⟨ends_of_moves (.refuses hupdate), fun reply later _ ↦ ⟨trivial, ?_⟩⟩
      exact ends_of_moves .takesBack

/-- `REQUEST.move` keeps the contract. -/
theorem keeps_move (args : Option PosArgs) (state : Moving) (heard : List Answer) :
    (moveContract agent).Keeps (move agent args) ⟨.move args, state, heard, []⟩ state := by
  cases args with
  | none => exact ⟨trivial, ends_quiet rfl rfl calm_nil⟩
  | some args =>
    simp only [move, Program.wp_bind, Program.wp_getState]
    split_ifs with hregistered
    · exact ends_quiet rfl rfl calm_nil
    · exact ⟨ends_of_moves .begins, fun reply later _ ↦ keeps_moveBlink⟩

/-- The call of `aoi_manage` by the map: a section ends, the next has nothing to do but to reply. -/
theorem replies_of_quiet {post : Section skynet MovePoint Moving → Moving → Prop} {point reply : MovePoint}
    {state : Moving} {heard : List Answer} (hcalm : point.pending = false) (henters : point.enters = false)
    (hreply : reply.calm = true)
    (hpost : ∀ (answer : Answer) (later : Moving), post ⟨reply, later, [answer], []⟩ later) :
    Replies (moveContract agent) reply post ⟨point, state, heard, []⟩ state :=
  ⟨ends_quiet hcalm henters (calm_singleton hreply), fun answer later _ ↦ hpost answer later⟩

/-- The handling of `character_ready` by the map: the reply comes at `ready`. -/
theorem wp_characterReady {pos : Database.Position} {state : Moving} {heard : List Answer}
    {post : Bool → Section skynet MovePoint Moving → Moving → Prop}
    {raised : Section skynet MovePoint Moving → Moving → Prop}
    (hpost : ∀ (ok : Bool) (reply : Answer) (later : Moving), post ok ⟨.ready, later, [reply], []⟩ later)
    (hraised : ∀ (reply : Answer) (later : Moving), raised ⟨.ready, later, [reply], []⟩ later) :
    (Moving.characterReady agent pos).wp (moveContract agent)
      (fun ok ↦ Replies (moveContract agent) .ready (post ok)) (fun _ ↦ Replies (moveContract agent) .ready raised)
      ⟨.characterReady pos, state, heard, []⟩ state := by
  refine (Program.wp_bind _ _ _ _ _ _).mpr ?_
  cases hpending : state.pendingCharacter with
  | none =>
    simp only [Program.wp_getState, hpending]
    refine ⟨ends_of_moves (.quiet rfl (calm_singleton rfl) rfl rfl rfl rfl (.inl hpending) (.refl _)),
      fun reply later _ ↦ hpost false reply later⟩
  | some character =>
    simp only [Program.wp_getState, hpending]
    refine (Program.wp_bind _ _ _ _ _ _).mpr ((Program.wp_bind _ _ _ _ _ _).mpr (wp_tableLength fun length _ ↦
      (Program.wp_bind _ _ _ _ _ _).mpr (wp_pairs fun order _ ↦ ?_)))
    cases hinsert : state.aoi.insert (fun _ ↦ length) agent (onMap pos) order with
    | ok result =>
      obtain ⟨aoi, list⟩ := result
      refine (Program.wp_bind _ _ _ _ _ _).mpr ((Program.wp_bind _ _ _ _ _ _).mpr (wp_call_of
        ⟨ends_of_moves (.enters hpending hinsert), fun answer later _ ↦ ⟨fun _ ↦ ?_, fun _ ↦ ?_⟩⟩))
      · exact replies_of_quiet rfl rfl rfl (hpost true)
      · exact replies_of_quiet rfl rfl rfl hraised
    | error aoi =>
      have hstill : state.aoi.Still agent aoi := .of_insert_error hinsert
      have hends : ∀ heard, (moveContract agent).Ends ⟨.characterReady pos, state, heard, []⟩ [.ready]
          { state with pendingCharacter := none, onlineCharacter := some character, aoi := aoi } :=
        fun _ ↦ ends_of_moves (.quiet rfl (calm_singleton rfl) rfl rfl rfl rfl (.inl rfl) hstill)
      refine (Program.wp_bind _ _ _ _ _ _).mpr ?_
      simp only [Program.wp_modifyState]
      split_ifs
      · exact ⟨hends _, fun reply later _ ↦ hraised reply later⟩
      · exact ⟨hends _, fun reply later _ ↦ hpost false reply later⟩

/-- `REQUEST.map_ready` keeps the contract. -/
theorem keeps_mapReady (state : Moving) (heard : List Answer) :
    (moveContract agent).Keeps (mapReady agent) ⟨.mapReady, state, heard, []⟩ state := by
  simp only [mapReady, Program.wp_bind, Program.wp_getState]
  split_ifs with hregistered
  · refine (Program.wp_bind _ _ _ _ _ _).mpr (wp_rpc.mpr ⟨ends_of_moves .asks, fun _ later _ ↦
      wp_characterReady (fun ok reply later ↦ ?_) fun reply later ↦ ?_⟩)
    · cases ok with
      | true => exact ends_quiet rfl rfl calm_nil
      | false => exact ⟨trivial, ends_quiet rfl rfl calm_nil⟩
    · exact ⟨trivial, ends_quiet rfl rfl calm_nil⟩
  · exact ends_quiet rfl rfl calm_nil

/-- The handling of `character_leave` by the map: the reply comes at `left`. -/
theorem wp_characterLeave {state : Moving} {heard : List Answer}
    {post raised : Section skynet MovePoint Moving → Moving → Prop}
    (hpost : ∀ (reply : Answer) (later : Moving), post ⟨.left, later, [reply], []⟩ later)
    (hraised : ∀ (reply : Answer) (later : Moving), raised ⟨.left, later, [reply], []⟩ later) :
    (Moving.characterLeave agent).wp (moveContract agent) (fun _ ↦ Replies (moveContract agent) .left post)
      (fun _ ↦ Replies (moveContract agent) .left raised) ⟨.characterLeave, state, heard, []⟩ state := by
  have hclears : ∀ (point : MovePoint) (state : Moving) (heard : List Answer), point.pending = false →
      Replies (moveContract agent) .left post ⟨point, state, heard, []⟩
        { state with onlineCharacter := none, pendingCharacter := none } := by
    intro point state heard hcalm
    exact ⟨ends_of_moves (.quiet hcalm (calm_singleton rfl) rfl rfl rfl rfl (.inl rfl) (.refl _)),
      fun reply later _ ↦ hpost reply later⟩
  refine (Program.wp_bind _ _ _ _ _ _).mpr ((Program.wp_bind _ _ _ _ _ _).mpr ?_)
  cases hcharacter : state.onlineCharacter.or state.pendingCharacter with
  | none =>
    simp only [Program.wp_getState, hcharacter]
    exact hclears .characterLeave state heard rfl
  | some character =>
    simp only [Program.wp_getState, hcharacter]
    refine (Program.wp_bind _ _ _ _ _ _).mpr (wp_pairs fun order _ ↦ ?_)
    cases hremove : state.aoi.remove agent order with
    | error aoi => exact hclears .characterLeave state _ rfl
    | ok result =>
      have hends : (moveContract agent).Ends ⟨.characterLeave, state, heard ++ [.order order], []⟩ [.leaving]
          { state with aoi := result.1 } :=
        ends_still rfl rfl (calm_singleton rfl) rfl rfl rfl rfl rfl (.of_remove hremove)
      refine (Program.wp_bind _ _ _ _ _ _).mpr (wp_call_of
        ⟨hends, fun answer later _ ↦ ⟨fun _ ↦ ?_, fun _ ↦ ?_⟩⟩)
      · exact hclears .leaving later [answer] rfl
      · exact replies_of_quiet rfl rfl rfl hraised

/-- `CMD.close` keeps the contract. -/
theorem keeps_close (state : Moving) (heard : List Answer) :
    (moveContract agent).Keeps (close agent) ⟨.close, state, heard, []⟩ state := by
  have hworld : ∀ (point : MovePoint) (origin state : Moving) (heard : List Answer),
      (moveContract agent).Ends ⟨point, origin, heard, []⟩ [.worldLeave] state →
      (moveContract agent).Keeps
        (do
          call .worldLeave
          Program.modifyState fun state ↦ { state with saved := state.saved ++ [state.pos], user := false })
        ⟨point, origin, heard, []⟩ state := by
    intro point origin state heard hends
    refine (Program.wp_bind _ _ _ _ _ _).mpr (wp_call_of
      ⟨hends, fun reply later _ ↦ ⟨fun hreplied ↦ ?_, fun _ ↦ ?_⟩⟩)
    · exact ends_of_moves (.saves hreplied)
    · exact ⟨trivial, ends_quiet rfl rfl calm_nil⟩
  simp only [close, Program.wp_bind, Program.wp_getState]
  split_ifs with huser hregistered
  · refine (Program.wp_bind _ _ _ _ _ _).mpr (wp_rpc.mpr
      ⟨ends_quiet rfl rfl (calm_singleton rfl), fun _ later _ ↦
        wp_characterLeave (fun reply later ↦ ?_) fun reply later ↦ ?_⟩)
    · refine hworld .left later _ [reply] ?_
      exact ends_still rfl rfl (calm_singleton rfl) rfl rfl rfl rfl rfl (.refl _)
    · exact ⟨trivial, ends_quiet rfl rfl calm_nil⟩
  · exact hworld .close state state heard (ends_quiet rfl rfl (calm_singleton rfl))
  · exact ends_quiet rfl rfl calm_nil

/-- The calls for the other agents keep the contract. -/
theorem keeps_otherCall {asked : Call} (hother : asked.id ≠ agent) (state : Moving) (heard : List Answer) :
    (moveContract agent).Keeps (otherCall asked) ⟨.other asked, state, heard, []⟩ state := by
  have hends : ∀ (length : Finset ℕ → ℕ) (call : Call) (heard : List Answer), call.id = asked.id →
      (moveContract agent).Ends ⟨.other asked, state, heard, []⟩ []
        { state with aoi := state.aoi.after length call } := by
    intro length call heard hid
    exact ends_still rfl rfl calm_nil rfl rfl rfl rfl rfl (.of_other (hid ▸ hother))
  cases asked with
  | insert id pos _ =>
    exact (Program.wp_bind _ _ _ _ _ _).mpr ((Program.wp_bind _ _ _ _ _ _).mpr (wp_tableLength fun length _ ↦
      (Program.wp_bind _ _ _ _ _ _).mpr (wp_pairs fun order _ ↦ hends _ (.insert id pos order) _ rfl)))
  | update id pos _ =>
    exact (Program.wp_bind _ _ _ _ _ _).mpr ((Program.wp_bind _ _ _ _ _ _).mpr (wp_tableLength fun length _ ↦
      (Program.wp_bind _ _ _ _ _ _).mpr (wp_pairs fun order _ ↦ hends _ (.update id pos order) _ rfl)))
  | remove id _ =>
    exact (Program.wp_bind _ _ _ _ _ _).mpr ((Program.wp_bind _ _ _ _ _ _).mpr
      (wp_pairs fun order _ ↦ hends _ (.remove id order) _ rfl))

/-- A section of the agent or the map has one of the effects. -/
theorem keeps_moveEntry {point : MovePoint} (harrives : (moveService agent).arrives point = true)
    (state : Moving) (heard : List Answer) :
    (moveContract agent).Keeps (moveEntry agent point) ⟨point, state, heard, []⟩ state := by
  cases point with
  | mapReady => exact keeps_mapReady state heard
  | move args => exact keeps_move args state heard
  | close => exact keeps_close state heard
  | other call => exact keeps_otherCall (of_decide_eq_true harrives) state heard
  | characterReady _ => exact nomatch harrives
  | entering => exact nomatch harrives
  | ready => exact nomatch harrives
  | moveBlink _ _ _ => exact nomatch harrives
  | aoiManage _ => exact nomatch harrives
  | moved _ => exact nomatch harrives
  | refused _ _ => exact nomatch harrives
  | raised _ => exact nomatch harrives
  | characterLeave => exact nomatch harrives
  | leaving => exact nomatch harrives
  | left => exact nomatch harrives
  | worldLeave => exact nomatch harrives

/-! ### The invariant -/

/-- The moves that the map has not decided, in order: their numbers, new and old positions. -/
def undecided (points : List MovePoint) : List (ℕ × Database.Position × Database.Position) :=
  points.filterMap fun
    | .moveBlink number npos opos => some (number, npos, opos)
    | _ => none

/-- The positions that `map_ready` has handed over and the map has not taken up, in order. -/
def enteringAt (points : List MovePoint) : List Database.Position :=
  points.filterMap fun
    | .characterReady pos => some pos
    | _ => none

/-- The old position of each move is the new one of the move before it, that of the first is the position
that the map has accepted. The last of them is the last that has begun, and its new position is that of
the character. -/
def Chained (began : ℕ) : Database.Position → List (ℕ × Database.Position × Database.Position) →
    Database.Position → Prop
  | accepted, [], pos => pos = accepted
  | accepted, (number, npos, opos) :: rest, pos =>
    opos = accepted ∧ (rest = [] → number = began) ∧ Chained began npos rest pos

/-- A refused move has not been taken back, and another has begun since. -/
def Overtaken (state : Moving) (points : List MovePoint) : Prop :=
  ∃ number opos, .refused number opos ∈ points ∧ number < state.began

/-- The character has the position that follows from the moves in flight. -/
structure InStep (state : Moving) (points : List MovePoint) : Prop where
  refused : ∀ number opos, .refused number opos ∈ points →
    number = state.began ∧ opos = state.accepted ∧ undecided points = []
  chained : (∀ number opos, .refused number opos ∉ points) →
    Chained state.began state.accepted (undecided points) state.pos

/-- The invariant of an agent and its map with the bounds of `box`. While the character waits to enter, the
agent has no position on the map, and the one that is handed over first is the one that counts as accepted. -/
structure Tracked (box : Quadtree) (agent : ℕ) (state : Moving) (points : List MovePoint) : Prop where
  ordered : points.Pairwise fun earlier later ↦ earlier.waits = true → later.called = false
  numbered : ((undecided points).map Prod.fst ++ [state.began + 1]).Pairwise (· < ·)
  inStep : Overtaken state points ∨ InStep state points
  bounds : ∀ x y, state.aoi.qtree.InBounds x y ↔ box.InBounds x y
  placed : ∀ pos, posOf state.aoi.object agent = some pos → pos = onMap state.accepted
  accepted : box.InBounds state.accepted.x state.accepted.z
  saved : ∀ pos ∈ state.saved, box.InBounds pos.x pos.z
  waiting : state.pendingCharacter = none ∨
    posOf state.aoi.object agent = none ∧ ∀ pos ∈ (enteringAt points).head?, pos = state.accepted

/-- The conditions on a section: the first `map_ready` begins when every move has been decided and the refused
ones are taken back, the map raises no error for a move, a refused move is taken back before another has
begun, and a character is saved when every move has been decided and the refused ones are taken back. -/
def Unmixed (agent : ℕ) (state : Moving) (points : List MovePoint) : MovePoint → List Answer → Prop
  | .mapReady, _ => state.pendingCharacter ≠ none → (∀ point ∈ points, point.enters = false) →
    ∀ point ∈ points, point.pending = false
  | .moveBlink _ npos _, heard => ∀ answer ∈ heard,
    state.aoi.raises (fun _ ↦ answer.toInt.toNat) (.update agent (onMap npos) []) = false
  | .refused number _, _ => state.began = number
  | .worldLeave, heard => .raised ∉ heard → ∀ point ∈ points, point.pending = false
  | _, _ => True

instance (agent : ℕ) (state : Moving) (points : List MovePoint) :
    (point : MovePoint) → (heard : List Answer) → Decidable (Unmixed agent state points point heard)
  | .mapReady, _ => inferInstanceAs (Decidable (state.pendingCharacter ≠ none →
    (∀ point ∈ points, point.enters = false) → ∀ point ∈ points, point.pending = false))
  | .moveBlink _ npos _, heard => inferInstanceAs (Decidable (∀ answer ∈ heard,
    state.aoi.raises (fun _ ↦ answer.toInt.toNat) (.update agent (onMap npos) []) = false))
  | .refused number _, _ => inferInstanceAs (Decidable (state.began = number))
  | .worldLeave, heard => inferInstanceAs
    (Decidable (.raised ∉ heard → ∀ point ∈ points, point.pending = false))
  | .move _, _ | .close, _ | .other _, _ | .characterReady _, _ | .entering, _ | .ready, _ | .aoiManage _, _
  | .moved _, _ | .raised _, _ | .characterLeave, _ | .leaving, _ | .left, _ => inferInstanceAs (Decidable True)

section Queue

variable {before after left : List MovePoint} {point : MovePoint}

@[simp]
theorem undecided_append : undecided (before ++ after) = undecided before ++ undecided after :=
  List.filterMap_append

/-- Coroutines none of which is an undecided move. -/
theorem undecided_eq_nil (h : ∀ place ∈ left, place.undecided = false) : undecided left = [] := by
  refine List.filterMap_eq_nil_iff.mpr fun place hplace ↦ ?_
  have hnone := h place hplace
  cases place with
  | moveBlink _ _ _ => exact nomatch hnone
  | _ => rfl

/-- A coroutine that is no undecided move makes no difference. -/
theorem undecided_cons (h : point.undecided = false) : undecided (point :: after) = undecided after := by
  have hone : undecided [point] = [] := undecided_eq_nil fun place hplace ↦ by
    obtain rfl := List.mem_singleton.mp hplace
    exact h
  rw [← List.singleton_append, undecided_append, hone, List.nil_append]

/-- A section that decides no move and begins none. -/
theorem undecided_left (hpoint : point.undecided = false) (hleft : ∀ place ∈ left, place.undecided = false) :
    undecided (before ++ left ++ after) = undecided (before ++ point :: after) := by
  rw [undecided_append, undecided_append, undecided_append, undecided_cons hpoint, undecided_eq_nil hleft,
    List.append_nil]

/-- What is not pending is no undecided move. -/
theorem undecided_of_calm (h : point.pending = false) : point.undecided = false := by
  cases point with
  | moveBlink _ _ _ => exact nomatch h
  | _ => rfl

/-- What is no call of the agent is neither an undecided move nor a position that is handed over. -/
theorem called_eq_false : point.called = false ↔ point.undecided = false ∧ point.enters = false :=
  Bool.or_eq_false_iff

/-- A place after which no call of the agent is on its way. -/
theorem calm_eq_true (h : point.calm = true) :
    point.pending = false ∧ point.waits = false ∧ point.enters = false := by
  simpa [MovePoint.calm, and_assoc] using h

@[simp]
theorem enteringAt_append : enteringAt (before ++ after) = enteringAt before ++ enteringAt after :=
  List.filterMap_append

theorem enteringAt_eq_nil : enteringAt left = [] ↔ ∀ place ∈ left, place.enters = false := by
  refine List.filterMap_eq_nil_iff.trans (forall₂_congr fun place _ ↦ ?_)
  cases place with
  | characterReady _ => exact iff_of_false (Option.some_ne_none _) Bool.noConfusion
  | _ => exact iff_of_true rfl rfl

theorem enteringAt_cons (h : point.enters = false) : enteringAt (point :: after) = enteringAt after := by
  have hone : enteringAt [point] = [] := enteringAt_eq_nil.mpr fun place hplace ↦ by
    obtain rfl := List.mem_singleton.mp hplace
    exact h
  rw [← List.singleton_append, enteringAt_append, hone, List.nil_append]

/-- A section that does not hand a position over, and leaves none handed over. -/
theorem enteringAt_left (hpoint : point.enters = false) (hleft : ∀ place ∈ left, place.enters = false) :
    enteringAt (before ++ left ++ after) = enteringAt (before ++ point :: after) := by
  rw [enteringAt_append, enteringAt_append, enteringAt_append, enteringAt_cons hpoint,
    enteringAt_eq_nil.mpr hleft, List.append_nil]

end Queue

/-! ### Steps -/

/-- A move that begins goes to the end of the queue. -/
theorem Chained.concat {began : ℕ} {npos pos : Database.Position} :
    ∀ {queue : List (ℕ × Database.Position × Database.Position)} {accepted : Database.Position},
      Chained began accepted queue pos →
        Chained (began + 1) accepted (queue ++ [(began + 1, npos, pos)]) npos := by
  intro queue
  induction queue with
  | nil => exact fun hpos ↦ ⟨hpos, fun _ ↦ rfl, rfl⟩
  | cons head queue ih =>
    obtain ⟨number, next, opos⟩ := head
    intro accepted h
    exact ⟨h.1, fun hnil ↦ by simp at hnil, ih h.2.2⟩

namespace Tracked

variable {box : Quadtree} {state later : Moving} {before after left : List MovePoint} {point : MovePoint}
  {heard : List Answer} {number : ℕ} {npos opos : Database.Position}

/-- The queue when the coroutine that runs has the first of the undecided moves. -/
theorem undecided_first (hfirst : ∀ other ∈ before, other.undecided = false) :
    undecided (before ++ .moveBlink number npos opos :: after) = (number, npos, opos) :: undecided after := by
  rw [undecided_append, undecided_eq_nil hfirst]
  rfl

/-- The queue after the first of the undecided moves has been decided. -/
theorem undecided_decided {place : MovePoint} (hfirst : ∀ other ∈ before, other.undecided = false)
    (hplace : place.undecided = false) : undecided (before ++ [place] ++ after) = undecided after := by
  rw [List.append_assoc, undecided_append, undecided_eq_nil hfirst, List.nil_append, List.singleton_append,
    undecided_cons hplace]

/-- No coroutine goes to a place of a request that has not begun. -/
theorem ordered_left (h : Tracked box agent state (before ++ point :: after))
    (hleft : ∀ place ∈ left, place.waits = false ∧ place.called = false) :
    (before ++ left ++ after).Pairwise fun earlier later ↦ earlier.waits = true → later.called = false := by
  have hordered := h.ordered
  rw [List.pairwise_append] at hordered
  obtain ⟨hbefore, hafter, hacross⟩ := hordered
  rw [List.append_assoc, List.pairwise_append]
  refine ⟨hbefore, ?_, ?_⟩
  · rw [List.pairwise_append]
    refine ⟨List.pairwise_of_forall_mem_list fun _ _ other hother _ ↦ (hleft other hother).2,
      (List.pairwise_cons.mp hafter).2, fun place hplace _ _ hwaits ↦ ?_⟩
    rw [(hleft place hplace).1] at hwaits
    cases hwaits
  · intro earlier hearlier other hother
    rcases List.mem_append.mp hother with hnew | hold
    · exact fun _ ↦ (hleft other hnew).2
    · exact hacross earlier hearlier other (List.mem_cons_of_mem _ hold)

/-- The refused moves after a section that leaves no further one. -/
theorem refused_of_left (hleft : ∀ place ∈ left, place.pending = false)
    (hmem : .refused number opos ∈ before ++ left ++ after) :
    .refused number opos ∈ before ++ point :: after := by
  rcases mem_of_left hmem with hnew | hold
  · exact nomatch hleft _ hnew
  · exact hold

/-- A refused move of another coroutine stays. -/
theorem refused_left (hmem : .refused number opos ∈ before ++ point :: after)
    (hne : MovePoint.refused number opos ≠ point) :
    .refused number opos ∈ before ++ left ++ after := by
  simp only [List.mem_append, List.mem_cons] at hmem ⊢
  tauto

/-- The requests after one that has not begun have made no calls. -/
theorem called_after (h : Tracked box agent state (before ++ point :: after)) (hwaits : point.waits = true) :
    ∀ other ∈ after, other.called = false := fun other hother ↦
  (List.pairwise_cons.mp (List.pairwise_append.mp h.ordered).2.1).1 other hother hwaits

/-- The first of the requests that have not begun makes its call. -/
theorem ordered_call {place : MovePoint} (h : Tracked box agent state (before ++ point :: after))
    (hwaits : point.waits = true) (hfirst : ∀ other ∈ before, other.waits = false) :
    (before ++ [place] ++ after).Pairwise fun earlier later ↦ earlier.waits = true → later.called = false := by
  have hordered := List.pairwise_append.mp h.ordered
  rw [List.append_assoc, List.pairwise_append]
  refine ⟨hordered.1, List.pairwise_cons.mpr ⟨fun other hother _ ↦ h.called_after hwaits other hother,
    (List.pairwise_cons.mp hordered.2.1).2⟩, fun earlier hearlier other hother hwaits ↦ ?_⟩
  rw [hfirst earlier hearlier] at hwaits
  cases hwaits

/-- What waits to enter still does when a section hands no position over and leaves the map as it is. -/
theorem waiting_left (h : Tracked box agent state (before ++ point :: after)) (hpoint : point.enters = false)
    (hleft : ∀ place ∈ left, place.enters = false) (haccepted : later.accepted = state.accepted)
    (hpending : later.pendingCharacter = state.pendingCharacter)
    (hmap : ∀ pos, posOf later.aoi.object agent = some pos → posOf state.aoi.object agent = some pos) :
    later.pendingCharacter = none ∨ posOf later.aoi.object agent = none ∧
      ∀ pos ∈ (enteringAt (before ++ left ++ after)).head?, pos = later.accepted := by
  rw [hpending, enteringAt_left hpoint hleft, haccepted]
  refine h.waiting.imp_right fun hwaits ↦ ⟨?_, hwaits.2⟩
  refine Option.eq_none_iff_forall_ne_some.mpr fun pos hpos ↦ ?_
  rw [hwaits.1] at hmap
  cases hmap pos hpos

/-- The character stays in step in a section that decides no move and begins none. -/
theorem inStep_left (h : Tracked box agent state (before ++ point :: after)) (hcalm : point.pending = false)
    (hleft : ∀ place ∈ left, place.pending = false) (hpos : later.pos = state.pos)
    (hbegan : later.began = state.began) (haccepted : later.accepted = state.accepted) :
    Overtaken later (before ++ left ++ after) ∨ InStep later (before ++ left ++ after) := by
  have hundecided : undecided (before ++ left ++ after) = undecided (before ++ point :: after) :=
    undecided_left (undecided_of_calm hcalm) fun place hplace ↦ undecided_of_calm (hleft place hplace)
  have hsame : ∀ number opos, .refused number opos ∈ before ++ left ++ after ↔
      .refused number opos ∈ before ++ point :: after := by
    intro number opos
    refine ⟨refused_of_left hleft, fun hmem ↦ refused_left hmem ?_⟩
    rintro rfl
    cases hcalm
  unfold Overtaken
  rw [hbegan]
  rcases h.inStep with ⟨number, opos, hmem, hlt⟩ | hstep
  · exact .inl ⟨number, opos, (hsame number opos).mpr hmem, hlt⟩
  · refine .inr ⟨fun number opos hmem ↦ ?_, fun hnone ↦ ?_⟩
    · rw [hbegan, haccepted, hundecided]
      exact hstep.refused number opos ((hsame number opos).mp hmem)
    · rw [hbegan, haccepted, hundecided, hpos]
      exact hstep.chained fun number opos hmem ↦ hnone number opos ((hsame number opos).mpr hmem)

/-- A section that decides no move and begins none, and puts the agent nowhere but on the accepted position. -/
theorem quiet (h : Tracked box agent state (before ++ point :: after)) (hcalm : point.pending = false)
    (hleft : ∀ place ∈ left, place.calm = true) (hpos : later.pos = state.pos)
    (hbegan : later.began = state.began) (haccepted : later.accepted = state.accepted)
    (hsaved : ∀ pos ∈ later.saved, box.InBounds pos.x pos.z)
    (hbounds : ∀ x y, later.aoi.qtree.InBounds x y ↔ state.aoi.qtree.InBounds x y)
    (hmap : ∀ pos, posOf later.aoi.object agent = some pos → pos = onMap state.accepted)
    (hwaiting : later.pendingCharacter = none ∨ posOf later.aoi.object agent = none ∧
      ∀ pos ∈ (enteringAt (before ++ left ++ after)).head?, pos = later.accepted) :
    Tracked box agent later (before ++ left ++ after) := by
  have hpending : ∀ place ∈ left, place.pending = false := fun place hplace ↦ (calm_eq_true (hleft place hplace)).1
  refine ⟨h.ordered_left fun place hplace ↦ ?_, ?_, h.inStep_left hcalm hpending hpos hbegan haccepted,
    fun x y ↦ (hbounds x y).trans (h.bounds x y), fun pos hpos ↦ ?_, ?_, hsaved, hwaiting⟩
  · obtain ⟨hnone, hwaits, henters⟩ := calm_eq_true (hleft place hplace)
    exact ⟨hwaits, called_eq_false.mpr ⟨undecided_of_calm hnone, henters⟩⟩
  · rw [undecided_left (undecided_of_calm hcalm) fun place hplace ↦ undecided_of_calm (hpending place hplace),
      hbegan]
    exact h.numbered
  · rw [haccepted]
    exact hmap pos hpos
  · rw [haccepted]
    exact h.accepted

/-- `map_ready` hands the position of the character over. When it is the first to do so while the character
waits to enter, that is the accepted position. -/
theorem ask (h : Tracked box agent state (before ++ .mapReady :: after))
    (hfirst : ∀ other ∈ before, other.waits = false)
    (hpos : state.pendingCharacter ≠ none → (∀ place ∈ before ++ .mapReady :: after, place.enters = false) →
      state.pos = state.accepted) :
    Tracked box agent state (before ++ [.characterReady state.pos] ++ after) := by
  have hafter : ∀ other ∈ after, other.enters = false := fun other hother ↦
    (called_eq_false.mp (h.called_after rfl other hother)).2
  have hcalm : ∀ place ∈ [MovePoint.characterReady state.pos], place.pending = false := by
    intro place hplace
    obtain rfl := List.mem_singleton.mp hplace
    rfl
  have hundecided : undecided (before ++ [.characterReady state.pos] ++ after) =
      undecided (before ++ .mapReady :: after) :=
    undecided_left rfl fun place hplace ↦ undecided_of_calm (hcalm place hplace)
  have hold : enteringAt (before ++ .mapReady :: after) = enteringAt before := by
    rw [enteringAt_append, enteringAt_cons rfl, enteringAt_eq_nil.mpr hafter, List.append_nil]
  have hnew : enteringAt (before ++ [.characterReady state.pos] ++ after) = enteringAt before ++ [state.pos] := by
    rw [enteringAt_append, enteringAt_append, enteringAt_eq_nil.mpr hafter, List.append_nil]
    rfl
  refine ⟨h.ordered_call rfl hfirst, by rw [hundecided]; exact h.numbered,
    h.inStep_left rfl hcalm rfl rfl rfl, h.bounds, h.placed, h.accepted, h.saved, ?_⟩
  rcases h.waiting with hnone | ⟨hnowhere, hhead⟩
  · exact .inl hnone
  by_cases hpending : state.pendingCharacter = none
  · exact .inl hpending
  refine .inr ⟨hnowhere, ?_⟩
  rw [hnew]
  rw [hold] at hhead
  cases hqueue : enteringAt before with
  | cons first rest =>
    rw [hqueue] at hhead
    exact hhead
  | nil =>
    intro pos hmem
    obtain rfl : state.pos = pos := Option.some.inj hmem
    exact hpos hpending (enteringAt_eq_nil.mp (hold.trans hqueue))

/-- A move begins: it goes to the end of the queue, with the position of the character. -/
theorem begin' {args : Option PosArgs} (h : Tracked box agent state (before ++ .move args :: after))
    (hfirst : ∀ other ∈ before, other.waits = false) :
    Tracked box agent { state with pos := npos, began := state.began + 1 }
      (before ++ [.moveBlink (state.began + 1) npos state.pos] ++ after) := by
  have hafter : ∀ other ∈ after, other.undecided = false := fun other hother ↦
    (called_eq_false.mp (h.called_after rfl other hother)).1
  have hqueue : undecided (before ++ .move args :: after) = undecided before := by
    rw [undecided_append, undecided_cons rfl, undecided_eq_nil hafter, List.append_nil]
  have hnew : undecided (before ++ [.moveBlink (state.began + 1) npos state.pos] ++ after) =
      undecided before ++ [(state.began + 1, npos, state.pos)] := by
    rw [undecided_append, undecided_append, undecided_eq_nil hafter, List.append_nil]
    rfl
  have hleft : ∀ place ∈ [MovePoint.moveBlink (state.began + 1) npos state.pos], place.enters = false := by
    intro place hplace
    obtain rfl := List.mem_singleton.mp hplace
    rfl
  refine ⟨h.ordered_call rfl hfirst, ?_, ?_, h.bounds, h.placed, h.accepted, h.saved,
    h.waiting_left rfl hleft rfl rfl fun _ hpos ↦ hpos⟩
  · have hnumbered := h.numbered
    rw [hqueue] at hnumbered
    rw [hnew, List.map_append, List.map_singleton, List.pairwise_append]
    refine ⟨hnumbered, List.pairwise_singleton _ _, fun number hnumber next hnext ↦ ?_⟩
    obtain rfl := List.mem_singleton.mp hnext
    rcases List.mem_append.mp hnumber with hold | hlast
    · have hlt := (List.pairwise_append.mp hnumbered).2.2 number hold _ List.mem_cons_self
      exact Nat.lt_succ_of_lt hlt
    · rw [List.mem_singleton.mp hlast]
      exact Nat.lt_succ_self _
  · have hkeeps : ∀ number opos, .refused number opos ∈ before ++ .move args :: after →
        .refused number opos ∈ before ++ [.moveBlink (state.began + 1) npos state.pos] ++ after :=
      fun number opos hmem ↦ refused_left hmem nofun
    rcases h.inStep with ⟨number, opos, hmem, hlt⟩ | hstep
    · exact .inl ⟨number, opos, hkeeps number opos hmem, Nat.lt_succ_of_lt hlt⟩
    by_cases hrefused : ∃ number opos, .refused number opos ∈ before ++ .move args :: after
    · -- the refused move is overtaken
      obtain ⟨number, opos, hmem⟩ := hrefused
      refine .inl ⟨number, opos, hkeeps number opos hmem, ?_⟩
      rw [(hstep.refused number opos hmem).1]
      exact Nat.lt_succ_self _
    · refine .inr ⟨fun number opos hmem ↦ ?_, fun _ ↦ ?_⟩
      · simp only [List.mem_append, List.mem_cons] at hmem hrefused
        exact absurd ⟨number, opos, by tauto⟩ hrefused
      · have hchained := hstep.chained fun number opos hmem ↦ hrefused ⟨number, opos, hmem⟩
        rw [hqueue] at hchained
        rw [hnew]
        exact hchained.concat

/-- While a move is undecided that is not overtaken, no move is refused. -/
theorem none_refused (hstep : InStep state (before ++ .moveBlink number npos opos :: after))
    (hfirst : ∀ other ∈ before, other.undecided = false) : ∀ number' opos',
      .refused number' opos' ∉ before ++ .moveBlink number npos opos :: after := by
  intro number' opos' hmem
  have hnil := (hstep.refused number' opos' hmem).2.2
  rw [undecided_first hfirst] at hnil
  cases hnil

/-- The agent becomes ready: the position that counted as accepted is on the map. -/
theorem enter {pos : Database.Position} {character : ℕ} {length : Finset ℕ → ℕ} {order : List ℕ} {aoi : Aoi}
    {list : Finset ℕ} (h : Tracked box agent state (before ++ .characterReady pos :: after))
    (hfirst : ∀ other ∈ before, other.called = false) (hpending : state.pendingCharacter = some character)
    (hentered : state.aoi.insert length agent (onMap pos) order = .ok (aoi, list)) :
    Tracked box agent
      { state with
        pendingCharacter := none
        onlineCharacter := some character
        aoi := aoi
        accepted := pos } (before ++ [.entering] ++ after) := by
  have hsame : pos = state.accepted := by
    rcases h.waiting with hnone | ⟨-, hhead⟩
    · rw [hnone] at hpending
      cases hpending
    · refine hhead pos ?_
      rw [enteringAt_append,
        enteringAt_eq_nil.mpr fun other hother ↦ (called_eq_false.mp (hfirst other hother)).2]
      rfl
  have hafter : state.aoi.after length (.insert agent (onMap pos) order) = aoi := by
    simp only [Aoi.after, hentered]
  refine h.quiet rfl (calm_singleton rfl) rfl rfl hsame h.saved (fun x y ↦ ?_) (fun place hplace ↦ ?_) (.inl rfl)
  · rw [← hafter]
    exact inBounds_after _ x y
  · rw [← hsame]
    exact Option.some.inj (hplace.symm.trans (insert_eq_ok_pos hentered).1)

/-- The map accepts the first of the undecided moves. -/
theorem accept {length : Finset ℕ → ℕ} {order : List ℕ} {aoi : Aoi} {moved : Aoi.Moved}
    (h : Tracked box agent state (before ++ .moveBlink number npos opos :: after))
    (hfirst : ∀ other ∈ before, other.undecided = false)
    (haccepted : state.aoi.update length agent (onMap npos) order = .ok (aoi, moved)) :
    Tracked box agent { state with aoi := aoi, accepted := npos } (before ++ [.aoiManage number] ++ after) := by
  have hqueue : undecided (before ++ .moveBlink number npos opos :: after) =
      (number, npos, opos) :: undecided after := undecided_first hfirst
  have hnew : undecided (before ++ [.aoiManage number] ++ after) = undecided after := undecided_decided hfirst rfl
  have hleft : ∀ place ∈ [MovePoint.aoiManage number], place.waits = false ∧ place.called = false := by
    intro place hplace
    obtain rfl := List.mem_singleton.mp hplace
    exact ⟨rfl, rfl⟩
  have hafter : state.aoi.after length (.update agent (onMap npos) order) = aoi := by
    simp only [Aoi.after, haccepted]
  obtain ⟨hpos, hbounds⟩ := update_eq_ok_pos haccepted
  refine ⟨h.ordered_left hleft, ?_, ?_, fun x y ↦ ?_, fun pos hposOf ↦ ?_, ?_, h.saved, .inl ?_⟩
  · have hnumbered := h.numbered
    rw [hqueue] at hnumbered
    rw [hnew]
    exact (List.pairwise_cons.mp hnumbered).2
  · rcases h.inStep with ⟨number', opos', hmem, hlt⟩ | hstep
    · exact .inl ⟨number', opos', refused_left hmem (by simp), hlt⟩
    · have hnone := none_refused hstep hfirst
      refine .inr ⟨fun number' opos' hmem ↦ ?_, fun _ ↦ ?_⟩
      · refine absurd (refused_of_left (fun place hplace ↦ ?_) hmem) (hnone number' opos')
        obtain rfl := List.mem_singleton.mp hplace
        rfl
      · have hchained := hstep.chained hnone
        rw [hqueue] at hchained
        rw [hnew]
        exact hchained.2.2
  · rw [← hafter]
    exact (inBounds_after _ x y).trans (h.bounds x y)
  · exact Option.some.inj (hposOf.symm.trans hpos)
  · exact (h.bounds _ _).mp hbounds
  · -- an agent whose character waits to enter has no position that could be updated
    rcases h.waiting with hnone | ⟨hnowhere, -⟩
    · exact hnone
    · rw [Aoi.update, Option.map_eq_none_iff.mp hnowhere] at haccepted
      cases haccepted

/-- The map refuses the first of the undecided moves. -/
theorem refuse {length : Finset ℕ → ℕ} {order : List ℕ} {aoi : Aoi}
    (h : Tracked box agent state (before ++ .moveBlink number npos opos :: after))
    (hfirst : ∀ other ∈ before, other.undecided = false)
    (hrefused : state.aoi.update length agent (onMap npos) order = .error aoi) :
    Tracked box agent { state with aoi := aoi } (before ++ [.refused number opos] ++ after) := by
  have hqueue : undecided (before ++ .moveBlink number npos opos :: after) =
      (number, npos, opos) :: undecided after := undecided_first hfirst
  have hnew : undecided (before ++ [.refused number opos] ++ after) = undecided after := undecided_decided hfirst rfl
  have hleft : ∀ place ∈ [MovePoint.refused number opos],
      place.waits = false ∧ place.called = false ∧ place.enters = false := by
    intro place hplace
    obtain rfl := List.mem_singleton.mp hplace
    exact ⟨rfl, rfl, rfl⟩
  have hafter : state.aoi.after length (.update agent (onMap npos) order) = aoi := by
    simp only [Aoi.after, hrefused]
  have hobject := update_eq_error hrefused
  have hnumbered := h.numbered
  rw [hqueue, List.map_cons, List.cons_append, List.pairwise_cons] at hnumbered
  have hmine : .refused number opos ∈ before ++ [.refused number opos] ++ after :=
    List.mem_append_left _ (List.mem_append_right _ List.mem_cons_self)
  refine ⟨h.ordered_left fun place hplace ↦ ⟨(hleft place hplace).1, (hleft place hplace).2.1⟩,
    by rw [hnew]; exact hnumbered.2, ?_, fun x y ↦ ?_, fun pos hposOf ↦ ?_, h.accepted, h.saved,
    h.waiting_left rfl (fun place hplace ↦ (hleft place hplace).2.2) rfl rfl fun pos hpos ↦ ?_⟩
  · rcases h.inStep with ⟨number', opos', hmem, hlt⟩ | hstep
    · exact .inl ⟨number', opos', refused_left hmem (by simp), hlt⟩
    have hnone := none_refused hstep hfirst
    have hchained := hstep.chained hnone
    rw [hqueue] at hchained
    cases hrest : undecided after with
    | cons next rest =>
      -- another move has begun since
      refine .inl ⟨number, opos, hmine, ?_⟩
      rw [hrest] at hnumbered
      have hlt : number < next.1 := hnumbered.1 next.1 (by simp)
      have hle : next.1 < state.began + 1 := by
        rw [List.map_cons, List.cons_append, List.pairwise_cons] at hnumbered
        exact hnumbered.2.1 _ (List.mem_append_right _ List.mem_cons_self)
      exact Nat.lt_of_lt_of_le hlt (Nat.le_of_lt_succ hle)
    | nil =>
      refine .inr ⟨fun number' opos' hmem ↦ ?_, fun hno ↦ absurd hmine (hno number opos)⟩
      rcases mem_of_left hmem with hself | hold
      · obtain ⟨rfl, rfl⟩ : number' = number ∧ opos' = opos := by simpa using hself
        exact ⟨hchained.2.1 hrest, hchained.1, by rw [hnew, hrest]⟩
      · exact absurd hold (hnone number' opos')
  · rw [← hafter]
    exact (inBounds_after _ x y).trans (h.bounds x y)
  · refine h.placed pos ?_
    rw [← hobject]
    exact hposOf
  · rwa [hobject] at hpos

/-- A refused move that no other has overtaken is taken back. -/
theorem takeBack (h : Tracked box agent state (before ++ .refused number opos :: after))
    (hlast : state.began = number) :
    Tracked box agent { state with pos := opos } (before ++ [] ++ after) := by
  have hqueue : undecided (before ++ [] ++ after) = undecided (before ++ .refused number opos :: after) :=
    undecided_left rfl fun _ hplace ↦ (List.not_mem_nil hplace).elim
  have hmine : .refused number opos ∈ before ++ .refused number opos :: after :=
    List.mem_append_right _ List.mem_cons_self
  have hnil : ∀ place ∈ ([] : List MovePoint), place.pending = false :=
    fun _ hplace ↦ (List.not_mem_nil hplace).elim
  refine ⟨h.ordered_left fun _ hplace ↦ (List.not_mem_nil hplace).elim, by rw [hqueue]; exact h.numbered, ?_,
    h.bounds, h.placed, h.accepted, h.saved,
    h.waiting_left rfl (fun _ hplace ↦ (List.not_mem_nil hplace).elim) rfl rfl fun _ hpos ↦ hpos⟩
  rcases h.inStep with ⟨number', opos', hmem, hlt⟩ | hstep
  · refine .inl ⟨number', opos', refused_left hmem fun heq ↦ ?_, hlt⟩
    obtain ⟨hsame, -⟩ := MovePoint.refused.inj heq
    rw [hsame, ← hlast] at hlt
    exact lt_irrefl _ hlt
  · obtain ⟨-, hopos, hempty⟩ := hstep.refused number opos hmine
    refine .inr ⟨fun number' opos' hmem ↦ ?_, fun _ ↦ ?_⟩
    · rw [hqueue]
      exact hstep.refused number' opos' (refused_of_left hnil hmem)
    · rw [hqueue, hempty]
      exact hopos

/-- When every move has been decided and the refused ones are taken back, the character is where the map
has accepted it. -/
theorem pos_eq_accepted {points : List MovePoint} (h : Tracked box agent state points)
    (hpending : ∀ point ∈ points, point.pending = false) : state.pos = state.accepted := by
  have hnone : ∀ number opos, .refused number opos ∉ points := fun number opos hmem ↦ by
    cases hpending _ hmem
  have hempty : undecided points = [] :=
    undecided_eq_nil fun place hplace ↦ undecided_of_calm (hpending place hplace)
  rcases h.inStep with ⟨number, opos, hmem, -⟩ | hstep
  · exact absurd hmem (hnone number opos)
  · have hchained := hstep.chained hnone
    rw [hempty] at hchained
    exact hchained

/-- One section keeps the invariant. -/
theorem step (h : Tracked box agent state (before ++ point :: after))
    (hwaits : point.waits = true → ∀ other ∈ before, other.waits = false)
    (hfirst : point.called = true → ∀ other ∈ before, other.called = false)
    (hmeets : Unmixed agent state (before ++ point :: after) point heard)
    (hmoves : Moves agent point state heard left later) :
    Tracked box agent later (before ++ left ++ after) := by
  have hundecided : point.called = true → ∀ other ∈ before, other.undecided = false := fun hcalled other hother ↦
    (called_eq_false.mp (hfirst hcalled other hother)).1
  cases hmoves with
  | quiet calm next pos began accepted saved waiting aoi =>
    refine h.quiet calm next pos began accepted (by rw [saved]; exact h.saved) aoi.bounds
      (fun pos hpos ↦ h.placed pos (aoi.placed pos hpos)) ?_
    rcases waiting with hnone | ⟨hsame, henters⟩
    · exact .inl hnone
    · exact h.waiting_left henters (fun place hplace ↦ (calm_eq_true (next place hplace)).2.2) accepted hsame
        aoi.placed
  | asks => exact h.ask (hwaits rfl) fun hwaiting hnone ↦ h.pos_eq_accepted (hmeets hwaiting hnone)
  | enters waiting entered => exact h.enter (hfirst rfl) waiting entered
  | begins => exact h.begin' (hwaits rfl)
  | accepts accepted => exact h.accept (hundecided rfl) accepted
  | refuses refused => exact h.refuse (hundecided rfl) refused
  | raises answered raised => exact Bool.noConfusion ((hmeets _ answered).symm.trans raised)
  | takesBack => exact h.takeBack hmeets
  | saves replied =>
    refine h.quiet rfl calm_nil rfl rfl rfl (fun pos hpos ↦ ?_) (fun _ _ ↦ Iff.rfl) h.placed
      (h.waiting_left rfl (fun _ hplace ↦ (List.not_mem_nil hplace).elim) rfl rfl fun _ hpos ↦ hpos)
    rcases List.mem_append.mp hpos with hold | hnew
    · exact h.saved pos hold
    · rw [List.mem_singleton.mp hnew, h.pos_eq_accepted (hmeets replied)]
      exact h.accepted

/-- A request that arrives changes nothing. -/
theorem arrive {points : List MovePoint} (h : Tracked box agent state points)
    (harrives : (moveService agent).arrives point = true) : Tracked box agent state (points ++ [point]) := by
  have hcalls : point.pending = false ∧ point.called = false := by
    cases point with
    | mapReady => exact ⟨rfl, rfl⟩
    | move _ => exact ⟨rfl, rfl⟩
    | close => exact ⟨rfl, rfl⟩
    | other _ => exact ⟨rfl, rfl⟩
    | _ => exact nomatch harrives
  obtain ⟨hcalm, hcalled⟩ := hcalls
  have hundecided : undecided (points ++ [point]) = undecided points := by
    rw [undecided_append, undecided_cons (called_eq_false.mp hcalled).1]
    exact List.append_nil _
  have hentering : enteringAt (points ++ [point]) = enteringAt points := by
    rw [enteringAt_append, enteringAt_cons (called_eq_false.mp hcalled).2]
    exact List.append_nil _
  have hrefused : ∀ number opos, .refused number opos ∈ points ++ [point] → .refused number opos ∈ points := by
    intro number opos hmem
    rcases List.mem_append.mp hmem with hold | hnew
    · exact hold
    · rw [← List.mem_singleton.mp hnew] at hcalm
      cases hcalm
  refine ⟨?_, ?_, ?_, h.bounds, h.placed, h.accepted, h.saved, by rw [hentering]; exact h.waiting⟩
  · rw [List.pairwise_append]
    refine ⟨h.ordered, List.pairwise_singleton _ _, fun _ _ other hother _ ↦ ?_⟩
    rw [List.mem_singleton.mp hother]
    exact hcalled
  · rw [hundecided]
    exact h.numbered
  · rcases h.inStep with ⟨number, opos, hmem, hlt⟩ | hstep
    · exact .inl ⟨number, opos, List.mem_append_left _ hmem, hlt⟩
    · refine .inr ⟨fun number opos hmem ↦ ?_, fun hnone ↦ ?_⟩
      · rw [hundecided]
        exact hstep.refused number opos (hrefused number opos hmem)
      · rw [hundecided]
        exact hstep.chained fun number opos hmem ↦ hnone number opos (List.mem_append_left _ hmem)

end Tracked

/-! ### Runs -/

/-- The order that the runtime keeps: the requests of the client begin in the order in which they come, and
the map handles the calls of the agent in the order in which they were made. -/
def InOrder (configuration : Configuration skynet MovePoint Moving) (move : Move skynet MovePoint) : Prop :=
  FirstOf MovePoint.waits configuration move ∧ FirstOf MovePoint.called configuration move

instance (configuration : Configuration skynet MovePoint Moving) (move : Move skynet MovePoint) :
    Decidable (InOrder configuration move) :=
  inferInstanceAs (Decidable (_ ∧ _))

/-- The condition on the moves. -/
def UnmixedMove (agent : ℕ) (configuration : Configuration skynet MovePoint Moving)
    (move : Move skynet MovePoint) : Prop :=
  InOrder configuration move ∧ Hears (fun configuration ↦
    Unmixed agent configuration.state configuration.points) configuration move

instance (configuration : Configuration skynet MovePoint Moving) (move : Move skynet MovePoint) :
    Decidable (UnmixedMove agent configuration move) :=
  inferInstanceAs (Decidable (_ ∧ _))

/-- The agent and the map keep the invariant. -/
theorem sound_moveService (box : Quadtree) : (moveService agent).Sound (moveContract agent)
    (Tracked box agent) (UnmixedMove agent) := by
  refine System.sound_stateless (fun point reply state hstarts ↦ keeps_moveEntry hstarts state [reply])
    (fun _ _ _ harrives hinv ↦ ⟨hinv.arrive harrives, harrives⟩) ?_
  intro configuration before point after reply answers left last hmeets hpoints hinv hmoves
  have hmixed := Hears.meets hmeets.2 hpoints
  rw [hpoints] at hmixed hinv
  exact hinv.step (hmeets.1.1.meets hpoints) (hmeets.1.2.meets hpoints) hmixed hmoves

/-- An agent whose character enters the map. -/
def entering (character : ℕ) (pos : Database.Position) (aoi : Aoi) : Moving where
  pos := pos
  user := true
  registered := true
  pendingCharacter := some character
  onlineCharacter := none
  aoi := aoi
  began := 0
  accepted := pos
  saved := []

/-- An agent enters the map with a position in its bounds. In a run in which no move waits for the map or to be
taken back when the first `map_ready` begins, the map raises no error for a move, every refused move is taken
back before another begins, and the character is saved only when all moves have been decided and taken back:
whenever no move waits for the map or to be taken back, the character has the position that the map has
accepted last, which is the one in the table of the map, and every position that is saved is within the bounds
of the map. -/
theorem position_accepted (agent character : ℕ) {pos : Database.Position} {aoi : Aoi}
    (hentry : posOf aoi.object agent = none) (hbounds : aoi.qtree.InBounds pos.x pos.z)
    {last : Configuration skynet MovePoint Moving}
    (hrun : (moveService agent).Run (UnmixedMove agent) ⟨entering character pos aoi, [], []⟩ last) :
    ((∀ point ∈ last.points, point.pending = false) →
      last.state.pos = last.state.accepted ∧ aoi.qtree.InBounds last.state.pos.x last.state.pos.z ∧
        ∀ place, posOf last.state.aoi.object agent = some place → place = onMap last.state.pos) ∧
      ∀ saved ∈ last.state.saved, aoi.qtree.InBounds saved.x saved.z := by
  have hfirst : Tracked aoi.qtree agent (entering character pos aoi) [] := by
    refine ⟨List.Pairwise.nil, List.pairwise_singleton _ _, .inr ⟨fun _ _ hmem ↦ (List.not_mem_nil hmem).elim,
      fun _ ↦ rfl⟩, fun _ _ ↦ Iff.rfl, fun place hplace ↦ ?_, hbounds, fun _ hmem ↦ (List.not_mem_nil hmem).elim,
      .inr ⟨hentry, nofun⟩⟩
    cases hentry.symm.trans hplace
  have hlast := ((sound_moveService aoi.qtree).good_of_run
    ((sound_moveService aoi.qtree).good_of_starts hfirst fun _ hmem ↦ (List.not_mem_nil hmem).elim) hrun).holds
  refine ⟨fun hpending ↦ ?_, hlast.saved⟩
  have hpos := hlast.pos_eq_accepted hpending
  rw [hpos]
  exact ⟨rfl, hlast.accepted, hlast.placed⟩

/-! ### Two runs -/

/-- Where the character of the runs below is. -/
def home : Database.Position := ⟨100, 10, 100, 180⟩

/-- The map that it enters. -/
def homeMap : Aoi := .init 0 0 1000 1000 20

/-- `map_ready` when no other coroutine waits, and the map inserts the agent. -/
def becomesReady : List (Move skynet MovePoint) :=
  [.arrive .mapReady, .resume 0 .ok [], .resume 0 .ok [.number 0, .order [16]], .resume 0 .ok [], .resume 0 .ok []]

/-- A request with a new first coordinate that begins at an index. -/
def beginsMove (index : ℕ) (x : ℤ) : List (Move skynet MovePoint) :=
  [.arrive (.move (some ⟨some x, none, none, none⟩)), .resume index .ok []]

/-- The map decides the move at an index. -/
def decides (index : ℕ) : Move skynet MovePoint := .resume index .ok [.number 0, .order [16]]

/-- `CMD.close` when no other coroutine waits. -/
def closes : List (Move skynet MovePoint) :=
  [.arrive .close, .resume 0 .ok [], .resume 0 .ok [.order []], .resume 0 .ok [], .resume 0 .ok [],
    .resume 0 .ok []]

/-- A move before the agent is ready, which is refused, then one that is accepted and another that is refused,
and the character is saved. -/
theorem position_accepted_close :
    ∃ last, (moveService 16).Run (UnmixedMove 16) ⟨entering 7 home homeMap, [], []⟩ last ∧
      last.points = [] ∧ last.state.saved = [⟨110, 10, 100, 180⟩] ∧
      ∀ saved ∈ last.state.saved, homeMap.qtree.InBounds saved.x saved.z := by
  obtain ⟨last, hrun, hvalue⟩ := (moveService 16).exists_run_of_playMeeting
    (UnmixedMove 16) ⟨entering 7 home homeMap, [], []⟩
    (beginsMove 0 200 ++ [decides 0, .resume 0 .ok []] ++ becomesReady ++ beginsMove 0 110 ++
      [decides 0, .resume 0 .ok [], .resume 0 .ok []] ++ beginsMove 0 5000 ++
      [decides 0, .resume 0 .ok []] ++ closes) (fun last ↦ (last.points, last.state.saved))
    (show _ = some ([], [⟨110, 10, 100, 180⟩]) by decide +kernel)
  obtain ⟨hpoints, hsaved⟩ := Prod.mk.inj hvalue
  have hbounds : homeMap.qtree.InBounds home.x home.z := ⟨by decide, by decide, by decide, by decide⟩
  exact ⟨last, hrun, hpoints, hsaved, (position_accepted 16 7 rfl hbounds hrun).2⟩

/-- Two moves out of the bounds of the map, the second of which begins before the first is taken back: the
character is left at the first of them, and saved there. -/
theorem refused_position_saved :
    ∃ last, (moveService 16).Run InOrder ⟨entering 7 home homeMap, [], []⟩ last ∧
      last.points = [] ∧ last.state.pos ≠ last.state.accepted ∧
      ¬ ∀ saved ∈ last.state.saved, homeMap.qtree.InBounds saved.x saved.z := by
  obtain ⟨last, hrun, hvalue⟩ := (moveService 16).exists_run_of_playMeeting InOrder
    ⟨entering 7 home homeMap, [], []⟩ (becomesReady ++ beginsMove 0 5000 ++ beginsMove 1 6000 ++
      [decides 0, decides 1, .resume 0 .ok [], .resume 0 .ok []] ++ closes)
    (fun last ↦ (last.points, last.state.pos, last.state.accepted, last.state.saved))
    (show _ = some ([], ⟨5000, 10, 100, 180⟩, home, [⟨5000, 10, 100, 180⟩]) by decide +kernel)
  obtain ⟨hpoints, hpos, haccepted, hsaved⟩ : last.points = [] ∧ last.state.pos = ⟨5000, 10, 100, 180⟩ ∧
      last.state.accepted = home ∧ last.state.saved = [⟨5000, 10, 100, 180⟩] := by
    simpa only [Prod.mk.injEq] using hvalue
  refine ⟨last, hrun, hpoints, by rw [hpos, haccepted]; decide, fun hall ↦ ?_⟩
  have hbounds := hall ⟨5000, 10, 100, 180⟩ (by rw [hsaved]; exact List.mem_cons_self)
  have hright : (5000 : ℤ) ≤ 1000 := hbounds.2.1
  omega

end SvrDemo.Map
