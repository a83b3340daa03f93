import SvrDemo.Protocol.Machine

/-!
# The subscriptions of a pair

What two agents and the messages between them make of one pair: whether either has recorded the other, the
packages about the other that its client was sent, and the requests and replies in flight in either
direction. The map tells one side to add or to remove the other. A side that adds asks the other, which
records it at once, and records the other when the reply arrives. A side that removes forgets what it has
recorded and tells the other to forget it; a side that has recorded nothing does nothing.

`Pair.Orderly` is the condition on the map under which this works: it adds only a pair that it has not added
already, and it removes a pair through a side that has recorded the add. Then the two sides are always in
one of four phases (`Phase`), up to their order, so that when nothing is in flight both or neither have
recorded the other, and the client of each was told so in turn.
-/

set_option autoImplicit false
set_option relaxedAutoImplicit false

namespace SvrDemo.Map

open Protocol

/-! ### The machine -/

/-- What a list of the map says of the other side. -/
inductive ListEntry
  | add
  | remove
  deriving DecidableEq, Repr

/-- What one side sends the other. The reply of `aoi_unsubscribe` changes nothing and is left out. -/
inductive PairMessage
  | subscribe
  | subscribed
  | unsubscribe
  deriving DecidableEq, Repr

/-- One side: whether it has recorded the other, and what its client was sent about the other. -/
structure Side where
  recorded : Bool
  told : List ListEntry
  deriving DecidableEq

/-- A pair: its sides, the messages from one to the other, and the last entry that a side has handled. -/
structure Pair where
  here : Side
  there : Side
  toThere : List PairMessage
  toHere : List PairMessage
  last : Option ListEntry
  deriving DecidableEq

/-- What happens at one side: it handles an entry of a list, or the next message arrives. -/
inductive SideEvent
  | manage (entry : ListEntry)
  | receive

/-- An event at one of the two sides. -/
inductive PairEvent
  | here (event : SideEvent)
  | there (event : SideEvent)

/-- The other is recorded, and the client learns of it. -/
def Side.subscribe (side : Side) : Side :=
  ⟨true, side.told ++ [.add]⟩

/-- The other is forgotten, and the client learns of it when it was recorded. -/
def Side.forget (side : Side) : Side :=
  if side.recorded then ⟨false, side.told ++ [.remove]⟩ else side

namespace Pair

/-- The pair seen from the other side. -/
def swap (pair : Pair) : Pair :=
  ⟨pair.there, pair.here, pair.toHere, pair.toThere, pair.last⟩

@[simp]
theorem swap_swap (pair : Pair) : pair.swap.swap = pair :=
  rfl

/-- A side handles an entry of a list. -/
def manage (pair : Pair) : ListEntry → Pair
  | .add => { pair with toThere := pair.toThere ++ [.subscribe], last := some .add }
  | .remove =>
    { pair with
      here := pair.here.forget
      toThere := pair.toThere ++ if pair.here.recorded then [.unsubscribe] else []
      last := some .remove }

/-- A message arrives at a side. -/
def receive (pair : Pair) : PairMessage → Pair
  | .subscribe => { pair with here := pair.here.subscribe, toThere := pair.toThere ++ [.subscribed] }
  | .subscribed => { pair with here := pair.here.subscribe }
  | .unsubscribe => { pair with here := pair.here.forget }

/-- What an event at this side makes of the pair. -/
def stepHere (pair : Pair) : SideEvent → Option Pair
  | .manage entry => some (pair.manage entry)
  | .receive =>
    match pair.toHere with
    | [] => none
    | message :: rest => some ({ pair with toHere := rest }.receive message)

/-- The machine of a pair. -/
def machine : Machine Pair PairEvent where
  step pair event :=
    match event with
    | .here event => pair.stepHere event
    | .there event => (pair.swap.stepHere event).map swap

/-- An add is handled only when the last entry was no add. A remove after an add is handled only where the
add has been recorded: no request is in flight, and no reply to this side. -/
def OrderlyHere (pair : Pair) : SideEvent → Prop
  | .manage .add => pair.last ≠ some .add
  | .manage .remove => pair.last = some .add →
    .subscribe ∉ pair.toThere ∧ .subscribe ∉ pair.toHere ∧ .subscribed ∉ pair.toHere
  | .receive => True

instance (pair : Pair) : (event : SideEvent) → Decidable (pair.OrderlyHere event)
  | .manage .add => inferInstanceAs (Decidable (pair.last ≠ some .add))
  | .manage .remove => inferInstanceAs (Decidable (pair.last = some .add →
    .subscribe ∉ pair.toThere ∧ .subscribe ∉ pair.toHere ∧ .subscribed ∉ pair.toHere))
  | .receive => inferInstanceAs (Decidable True)

/-- The events of a pair whose entries come in order. -/
def Orderly (pair : Pair) : PairEvent → Prop
  | .here event => pair.OrderlyHere event
  | .there event => pair.swap.OrderlyHere event

end Pair

/-! ### What a side will have read -/

/-- The messages in flight to a side leave the other forgotten, none of them is a request, and none says
subscribed to a side that has recorded the other. -/
def Settles : Bool → List PairMessage → Prop
  | recorded, [] => recorded = false
  | _, .unsubscribe :: rest => Settles false rest
  | recorded, .subscribed :: rest => recorded = false ∧ Settles true rest
  | _, .subscribe :: _ => False

namespace Settles

variable {recorded : Bool} {messages : List PairMessage}

/-- The same, when the other has been forgotten. -/
theorem clear (h : Settles recorded messages) : Settles false messages := by
  cases messages with
  | nil => rfl
  | cons message rest =>
    cases message with
    | subscribe => exact h.elim
    | subscribed => exact ⟨rfl, h.2⟩
    | unsubscribe => exact h

theorem unsubscribe (h : Settles recorded messages) : Settles recorded (messages ++ [.unsubscribe]) := by
  induction messages generalizing recorded with
  | nil => rfl
  | cons message rest ih =>
    cases message with
    | subscribe => exact h.elim
    | subscribed => exact ⟨h.1, ih h.2⟩
    | unsubscribe => exact ih h

/-- A reply that is taken back. -/
theorem cancelled (h : Settles recorded messages) :
    Settles recorded (messages ++ [.subscribed] ++ [.unsubscribe]) := by
  induction messages generalizing recorded with
  | nil => exact ⟨h, rfl⟩
  | cons message rest ih =>
    cases message with
    | subscribe => exact h.elim
    | subscribed => exact ⟨h.1, ih h.2⟩
    | unsubscribe => exact ih h

end Settles

/-! ### The packages of a client -/

/-- The packages of a client alternate, begin with an add and end with one exactly when the other is
recorded. -/
inductive Told : Bool → List ListEntry → Prop
  | nothing : Told false []
  | add {told : List ListEntry} (before : Told false told) : Told true (told ++ [.add])
  | remove {told : List ListEntry} (before : Told true told) : Told false (told ++ [.remove])

/-- The client knows what the side has recorded. -/
def Side.Told (side : Side) : Prop :=
  Map.Told side.recorded side.told

theorem Side.told_subscribe {side : Side} (h : side.Told) (hnew : side.recorded = false) :
    side.subscribe.Told := by
  unfold Side.Told at h
  rw [hnew] at h
  exact .add h

theorem Side.told_forget {side : Side} (h : side.Told) : side.forget.Told := by
  unfold Side.forget
  unfold Side.Told at h ⊢
  split
  · next hrecorded =>
    rw [hrecorded] at h
    exact .remove h
  · exact h

@[simp]
theorem Side.recorded_forget (side : Side) : side.forget.recorded = false := by
  unfold Side.forget
  split
  · rfl
  · next hrecorded => exact Bool.eq_false_iff.mpr hrecorded

/-! ### The phases -/

/-- How far the last entry has got. `apart` after a remove, and before any entry: whatever is in flight
leaves both sides without the other. After an add at this side its request is in flight (`asked`), or its
reply (`answered`), or both sides have recorded the other (`joined`). -/
inductive Phase (pair : Pair) : Prop
  | apart (last : pair.last ≠ some .add) (here : Settles pair.here.recorded pair.toHere)
      (there : Settles pair.there.recorded pair.toThere)
  | asked {before : List PairMessage} (last : pair.last = some .add)
      (request : pair.toThere = before ++ [.subscribe]) (here : Settles pair.here.recorded pair.toHere)
      (there : Settles pair.there.recorded before)
  | answered {before : List PairMessage} (last : pair.last = some .add)
      (reply : pair.toHere = before ++ [.subscribed]) (here : Settles pair.here.recorded before)
      (there : pair.there.recorded = true) (quiet : pair.toThere = [])
  | joined (last : pair.last = some .add) (here : pair.here.recorded = true)
      (there : pair.there.recorded = true) (quietHere : pair.toHere = []) (quietThere : pair.toThere = [])

/-- The invariant of a pair: it is in a phase, seen from one of its sides, and both clients know what their
side has recorded. -/
structure PairInvariant (pair : Pair) : Prop where
  phase : Phase pair ∨ Phase pair.swap
  here : pair.here.Told
  there : pair.there.Told

theorem PairInvariant.swap {pair : Pair} (h : PairInvariant pair) : PairInvariant pair.swap :=
  ⟨h.phase.symm, h.there, h.here⟩

/-! ### Steps -/

section Steps

variable {pair : Pair}

/-- A message that a side reads before the last one changes that side only. -/
theorem Pair.receive_settles {message : PairMessage} {before : List PairMessage} (after : List PairMessage)
    (hhere : pair.here.Told) (hsettles : Settles pair.here.recorded (message :: before)) :
    ∃ side, ({ pair with toHere := after }).receive message = { pair with here := side, toHere := after } ∧
      Settles side.recorded before ∧ side.Told := by
  cases message with
  | subscribe => exact hsettles.elim
  | subscribed => exact ⟨_, rfl, hsettles.2, Side.told_subscribe hhere hsettles.1⟩
  | unsubscribe =>
    refine ⟨_, rfl, ?_, Side.told_forget hhere⟩
    rw [Side.recorded_forget]
    exact hsettles

/-- While the last entry is no add, both sides will have forgotten each other. -/
theorem settles_of_apart (h : Phase pair ∨ Phase pair.swap) (hlast : pair.last ≠ some .add) :
    Settles pair.here.recorded pair.toHere ∧ Settles pair.there.recorded pair.toThere := by
  rcases h with h | h
  · cases h with
    | apart _ here there => exact ⟨here, there⟩
    | asked last => exact absurd last hlast
    | answered last => exact absurd last hlast
    | joined last => exact absurd last hlast
  · cases h with
    | apart _ here there => exact ⟨there, here⟩
    | asked last => exact absurd last hlast
    | answered last => exact absurd last hlast
    | joined last => exact absurd last hlast

/-- A side handles an add. -/
theorem PairInvariant.add (h : PairInvariant pair) (horderly : pair.OrderlyHere (.manage .add)) :
    PairInvariant (pair.manage .add) := by
  obtain ⟨hhere, hthere⟩ := settles_of_apart h.phase horderly
  exact ⟨.inl (.asked rfl rfl hhere hthere), h.here, h.there⟩

/-- A side handles a remove. -/
theorem PairInvariant.remove (h : PairInvariant pair) (horderly : pair.OrderlyHere (.manage .remove)) :
    PairInvariant (pair.manage .remove) := by
  refine ⟨.inl ?_, Side.told_forget h.here, h.there⟩
  have hapart : ∀ {messages : List PairMessage}, Settles false pair.toHere →
      pair.toThere = messages → (pair.here.recorded = true →
        Settles pair.there.recorded (messages ++ [.unsubscribe])) →
      (pair.here.recorded = false → Settles pair.there.recorded messages) →
      Phase (pair.manage .remove) := by
    intro messages hhere hmessages hrecorded hunrecorded
    refine .apart nofun ?_ ?_
    · simpa [Pair.manage] using hhere
    · simp only [Pair.manage]
      split
      · next hside => exact hmessages ▸ hrecorded hside
      · next hside =>
        rw [List.append_nil, hmessages]
        exact hunrecorded (Bool.eq_false_iff.mpr hside)
  by_cases hlast : pair.last = some .add
  · obtain ⟨hrequest, hrequest', hreply⟩ := horderly hlast
    rcases h.phase with hphase | hphase
    · cases hphase with
      | apart last => exact absurd hlast last
      | asked _ request => exact absurd (by rw [request]; simp) hrequest
      | answered _ reply => exact absurd (by rw [reply]; simp) hreply
      | joined _ here there quietHere quietThere =>
        refine hapart (quietHere ▸ rfl) quietThere (fun _ ↦ rfl) fun hside ↦ ?_
        exact nomatch hside.symm.trans here
    · cases hphase with
      | apart last => exact absurd hlast last
      | asked _ request =>
        have hmem : .subscribe ∈ pair.toHere := by
          rw [show pair.toHere = _ from request]
          simp
        exact absurd hmem hrequest'
      | answered _ reply here there quiet =>
        refine hapart ?_ reply (fun _ ↦ here.cancelled) fun hside ↦ ?_
        · rw [show pair.toHere = [] from quiet]
          rfl
        · exact nomatch hside.symm.trans there
      | joined _ here there quietHere quietThere =>
        refine hapart ?_ quietHere (fun _ ↦ rfl) fun hside ↦ ?_
        · rw [show pair.toHere = [] from quietThere]
          rfl
        · exact nomatch hside.symm.trans there
  · obtain ⟨hhere, hthere⟩ := settles_of_apart h.phase hlast
    exact hapart hhere.clear rfl (fun _ ↦ hthere.unsubscribe) fun _ ↦ hthere

/-- A message arrives at a side. -/
theorem PairInvariant.receive (h : PairInvariant pair) {message : PairMessage} {rest : List PairMessage}
    (hread : pair.toHere = message :: rest) :
    PairInvariant (({ pair with toHere := rest }).receive message) := by
  rcases h.phase with hphase | hphase
  · cases hphase with
    | apart last here there =>
      rw [hread] at here
      obtain ⟨side, hside, hsettles, htold⟩ := Pair.receive_settles rest h.here here
      rw [hside]
      exact ⟨.inl (.apart last hsettles there), htold, h.there⟩
    | asked last request here there =>
      rw [hread] at here
      obtain ⟨side, hside, hsettles, htold⟩ := Pair.receive_settles rest h.here here
      rw [hside]
      exact ⟨.inl (.asked last request hsettles there), htold, h.there⟩
    | @answered before last reply here there quiet =>
      rw [reply] at hread
      cases before with
      | nil =>
        obtain ⟨rfl, rfl⟩ := List.cons.inj hread
        exact ⟨.inl (.joined last rfl there rfl quiet), Side.told_subscribe h.here here, h.there⟩
      | cons first before =>
        rw [List.cons_append] at hread
        obtain ⟨rfl, rfl⟩ := List.cons.inj hread
        obtain ⟨side, hside, hsettles, htold⟩ :=
          Pair.receive_settles (before ++ [.subscribed]) h.here here
        rw [hside]
        exact ⟨.inl (.answered last rfl hsettles there quiet), htold, h.there⟩
    | joined _ _ _ quietHere => exact nomatch quietHere.symm.trans hread
  · cases hphase with
    | apart last there here =>
      have here : Settles pair.here.recorded (message :: rest) := hread ▸ here
      obtain ⟨side, hside, hsettles, htold⟩ := Pair.receive_settles rest h.here here
      rw [hside]
      exact ⟨.inl (.apart last hsettles there), htold, h.there⟩
    | @asked before last request there here =>
      rw [show pair.toHere = _ from request] at hread
      cases before with
      | nil =>
        obtain ⟨rfl, rfl⟩ := List.cons.inj hread
        exact ⟨.inr (.answered last rfl there rfl rfl), Side.told_subscribe h.here here, h.there⟩
      | cons first before =>
        rw [List.cons_append] at hread
        obtain ⟨rfl, rfl⟩ := List.cons.inj hread
        obtain ⟨side, hside, hsettles, htold⟩ :=
          Pair.receive_settles (before ++ [.subscribe]) h.here here
        rw [hside]
        exact ⟨.inr (.asked last rfl there hsettles), htold, h.there⟩
    | answered _ _ _ _ quiet => exact nomatch quiet.symm.trans hread
    | joined _ _ _ _ quietThere => exact nomatch quietThere.symm.trans hread

/-- An event at a side keeps the invariant. -/
theorem PairInvariant.stepHere (h : PairInvariant pair) {event : SideEvent} {next : Pair}
    (horderly : pair.OrderlyHere event) (hstep : pair.stepHere event = some next) :
    PairInvariant next := by
  cases event with
  | manage entry =>
    obtain rfl := Option.some.inj hstep
    cases entry with
    | add => exact h.add horderly
    | remove => exact h.remove horderly
  | receive =>
    cases hread : pair.toHere with
    | nil =>
      simp only [Pair.stepHere, hread] at hstep
      exact nomatch hstep
    | cons message rest =>
      simp only [Pair.stepHere, hread] at hstep
      obtain rfl := Option.some.inj hstep
      exact h.receive hread

/-- The invariant holds along the runs whose entries come in order. -/
theorem PairInvariant.of_run {first last : Pair} (h : PairInvariant first)
    (hrun : Pair.machine.Run Pair.Orderly first last) : PairInvariant last := by
  refine hrun.invariant (fun pair event next horderly h hstep ↦ ?_) h
  cases event with
  | here event => exact h.stepHere horderly hstep
  | there event =>
    obtain ⟨other, hother, rfl⟩ := Option.map_eq_some_iff.mp hstep
    exact (h.swap.stepHere horderly hother).swap

/-- When nothing is in flight, both sides have recorded each other after an add, and neither has after a
remove. -/
theorem PairInvariant.quiet (h : PairInvariant pair) (hhere : pair.toHere = []) (hthere : pair.toThere = []) :
    (pair.here.recorded = true ↔ pair.last = some .add) ∧
      (pair.there.recorded = true ↔ pair.last = some .add) := by
  have hquiet : ∀ {pair : Pair}, Phase pair → pair.toHere = [] → pair.toThere = [] →
      (pair.here.recorded = true ↔ pair.last = some .add) ∧
        (pair.there.recorded = true ↔ pair.last = some .add) := by
    intro pair hphase hhere hthere
    cases hphase with
    | apart last here there =>
      rw [hhere] at here
      rw [hthere] at there
      have hforgotten : pair.here.recorded = false := here
      have hforgotten' : pair.there.recorded = false := there
      simp [hforgotten, hforgotten', last]
    | asked _ request => exact absurd (request.symm.trans hthere) (by simp)
    | answered _ reply => exact absurd (reply.symm.trans hhere) (by simp)
    | joined last here there => simp [here, there, last]
  rcases h.phase with hphase | hphase
  · exact hquiet hphase hhere hthere
  · exact (hquiet hphase hthere hhere).symm

end Steps

end SvrDemo.Map
