import SvrDemo.Coroutine.Program
import Mathlib.Data.List.Forall2

/-!
# Services that are watched

Between two waits a coroutine may change the state several times, and the configurations show the last
change only; nor do they show which request a coroutine serves. A watched service runs the same programs
over a larger state, with finer names for the places where its coroutines wait: `get` is the state of
the plain service in that of the watched one, and `erase` the plain name of a place.
`Embedding.Watches` says that the embedding of the programs adds nothing that the plain service could
notice.

`System.Watches.exists_run` says that every run of the plain service is a run of the watched one, so
that what is shown of the watched service holds of the plain one. A service with a record of the changes
of its state, `Embedding.recording`, is a watched one.
-/

set_option autoImplicit false
set_option relaxedAutoImplicit false

namespace SvrDemo.Coroutine

variable {I : Interface} {P P' P₀ σ τ κ : Type}

/-! ### Embeddings that watch -/

/-- An embedding that only watches: what it does where the part waits is to wait at a place of the same
plain name, in a state with the same part. -/
structure Embedding.Watches (E : Embedding I P σ P' τ) (via : P → P₀) (erase : P' → P₀) : Prop where
  fork : ∀ point, erase (E.fork point) = via point
  handle : ∀ point whole, ∃ (place : P') (later : τ), erase place = via point ∧
    E.get later = E.get whole ∧ ∀ (rest : I.Answer → Program I P' τ Unit) answers forks,
      ((E.handle point).bind rest).exec whole answers forks =
        (Program.wait place rest).exec later answers forks

/-- The embedding of a part that is the whole but for a record of its changes. -/
def Embedding.recording (via : P → P') (note : σ → σ → List κ) :
    Embedding I P σ P' (σ × List κ) where
  get := Prod.fst
  put := fun part whole ↦ (part, whole.2 ++ note whole.1 part)
  handle := fun point ↦ .await (via point)
  fork := via
  get_put := fun _ _ ↦ rfl

theorem Embedding.recording_watches (via : P → P') (note : σ → σ → List κ) :
    (Embedding.recording via note : Embedding I P σ P' (σ × List κ)).Watches via id :=
  ⟨fun _ ↦ rfl, fun point whole ↦ ⟨via point, whole, rfl, rfl, fun _ _ _ ↦ rfl⟩⟩

/-- A program of the plain service: the program of a part, with other names for its points. -/
inductive Program.Named (via : P → P₀) : Program I P σ Unit → Program I P₀ σ Unit → Prop
  | ret (value : Unit) : Named via (.ret value) (.ret value)
  | get {next : σ → Program I P σ Unit} {next' : σ → Program I P₀ σ Unit}
      (hnext : ∀ state, Named via (next state) (next' state)) : Named via (.get next) (.get next')
  | set (state : σ) {next : Program I P σ Unit} {next' : Program I P₀ σ Unit}
      (hnext : Named via next next') : Named via (.set state next) (.set state next')
  | put (state : σ) {next : Program I P σ Unit} {next' : Program I P₀ σ Unit}
      (hnext : Named via next next') : Named via (.set state next) (.get fun _ ↦ .set state next')
  | ask (query : I.Query) {next : I.Answer → Program I P σ Unit}
      {next' : I.Answer → Program I P₀ σ Unit} (hnext : ∀ answer, Named via (next answer) (next' answer)) :
      Named via (.ask query next) (.ask query next')
  | wait (point : P) {next : I.Answer → Program I P σ Unit} {next' : I.Answer → Program I P₀ σ Unit}
      (hnext : ∀ reply, Named via (next reply) (next' reply)) :
      Named via (.wait point next) (.wait (via point) next')
  | fork (point : P) {next : Program I P σ Unit} {next' : Program I P₀ σ Unit}
      (hnext : Named via next next') : Named via (.fork point next) (.fork (via point) next')
  | fail (error : I.Error) : Named via (.fail error) (.fail error)

theorem Program.named_relabel (via : P → P₀) (program : Program I P σ Unit) :
    Named via program (program.embed (.relabel via)) := by
  induction program with
  | ret value => exact .ret value
  | get next ih => exact .get ih
  | set state next ih => exact .put state ih
  | ask query next ih => exact .ask query ih
  | wait point next ih => exact .wait point ih
  | fork point next ih => exact .fork point ih
  | fail error => exact .fail error

theorem Program.named_self (program : Program I P σ Unit) : Named id program program := by
  induction program with
  | ret value => exact .ret value
  | get next ih => exact .get ih
  | set state next ih => exact .set state ih
  | ask query next ih => exact .ask query ih
  | wait point next ih => exact .wait point ih
  | fork point next ih => exact .fork point ih
  | fail error => exact .fail error

/-! ### Two services that agree -/

section Follows

variable (P) (get : τ → σ) (erase : P' → P₀)

/-- A coroutine of the watched service and one of the plain service run the same program. -/
def Thread.Follows (watched : Thread I P' τ) (plain : Thread I P₀ σ) : Prop :=
  erase watched.point = plain.point ∧ ∃ (E : Embedding I P σ P' τ) (via : P → P₀)
    (next : I.Answer → Program I P σ Unit), E.get = get ∧ E.Watches via erase ∧
      (∀ reply, Program.Named via (next reply) (plain.next reply)) ∧
      watched.next = fun reply ↦ (next reply).embed E

/-- The configurations of the two services that agree on what the plain one shows. -/
structure Configuration.Follows (watched : Configuration I P' τ) (plain : Configuration I P₀ σ) :
    Prop where
  state : get watched.state = plain.state
  threads : List.Forall₂ (Thread.Follows P get erase) watched.threads plain.threads
  errors : watched.errors = plain.errors

/-- A service that runs the programs of a plain one and watches. -/
structure System.Watches (watched : System I P' τ) (plain : System I P₀ σ) : Prop where
  arrives : ∀ point, plain.arrives point = true →
    ∃ point', erase point' = point ∧ watched.arrives point' = true
  entry : ∀ point, ∃ (E : Embedding I P σ P' τ) (via : P → P₀) (program : Program I P σ Unit),
    E.get = get ∧ E.Watches via erase ∧ program.Named via (plain.entry (erase point)) ∧
      watched.entry point = program.embed E

/-- The endings of a section in the two services. -/
inductive Ending.Follows : Ending I P' τ → Ending I P₀ σ → Prop
  | done : Follows .done .done
  | parked {thread : Thread I P' τ} {plain : Thread I P₀ σ} (h : Thread.Follows P get erase thread plain) :
      Follows (.parked thread.point thread.next) (.parked plain.point plain.next)
  | failed (error : I.Error) : Follows (.failed error) (.failed error)

variable {P get erase}

/-- Configurations that agree wait at the same points. -/
theorem Configuration.Follows.points {watched : Configuration I P' τ} {plain : Configuration I P₀ σ}
    (h : Configuration.Follows P get erase watched plain) :
    watched.points.map erase = plain.points := by
  unfold Configuration.points
  have hthreads := h.threads
  generalize watched.threads = threads at hthreads
  generalize plain.threads = threads' at hthreads
  induction hthreads with
  | nil => rfl
  | cons hhead _ ih => rw [List.map_cons, List.map_cons, List.map_cons, hhead.1, ih]

/-- The move of the plain service that a move of the watched one shows. -/
def Move.map (erase : P' → P₀) : Move I P' → Move I P₀
  | .arrive point => .arrive (erase point)
  | .resume index reply answers => .resume index reply answers

/-- A condition on the coroutine that the plain service resumes, as one on that of the watched service. -/
theorem Configuration.Follows.resumes {watched : Configuration I P' τ} {plain : Configuration I P₀ σ}
    (h : Configuration.Follows P get erase watched plain) {move : Move I P'}
    {condition : Configuration I P₀ σ → P₀ → I.Answer → Prop}
    {condition' : Configuration I P' τ → P' → I.Answer → Prop}
    (hcondition : ∀ point reply, condition plain (erase point) reply → condition' watched point reply)
    (hmeets : Resumes condition plain (move.map erase)) : Resumes condition' watched move := by
  cases move with
  | arrive point => exact trivial
  | resume index reply answers =>
    intro point hpoint
    refine hcondition point reply (hmeets (erase point) ?_)
    rw [← h.points, List.getElem?_map]
    exact Option.mem_map_of_mem erase hpoint

/-- A section of the plain service is a section of the watched one. -/
theorem Program.Named.exec {E : Embedding I P σ P' τ} {via : P → P₀} (hwatches : E.Watches via erase)
    {program : Program I P σ Unit} {plain : Program I P₀ σ Unit} (hnamed : program.Named via plain) :
    ∀ (whole : τ) (answers : List I.Answer) (forks : List P') (outcome : Outcome I P₀ σ),
      plain.exec (E.get whole) answers (forks.map erase) = some outcome →
      ∃ outcome' : Outcome I P' τ,
        (program.embed E).exec whole answers forks = some outcome' ∧
        E.get outcome'.state = outcome.state ∧ outcome'.forks.map erase = outcome.forks ∧
          Ending.Follows P E.get erase outcome'.ending outcome.ending := by
  induction hnamed with
  | ret value =>
    intro whole answers forks outcome hexec
    cases answers with
    | cons _ _ => exact nomatch hexec
    | nil =>
      obtain rfl := Option.some.inj hexec
      exact ⟨⟨whole, forks, .done⟩, rfl, rfl, rfl, .done⟩
  | get _ ih =>
    intro whole answers forks outcome hexec
    exact ih (E.get whole) whole answers forks outcome hexec
  | set part _ ih =>
    intro whole answers forks outcome hexec
    refine ih (E.put part whole) answers forks outcome ?_
    rw [E.get_put]
    exact hexec
  | put part _ ih =>
    intro whole answers forks outcome hexec
    refine ih (E.put part whole) answers forks outcome ?_
    rw [E.get_put]
    exact hexec
  | ask query _ ih =>
    intro whole answers forks outcome hexec
    cases answers with
    | nil => exact nomatch hexec
    | cons answer answers =>
      simp only [Program.embed, Program.exec] at hexec ⊢
      split_ifs at hexec with hadmissible
      rw [if_pos hadmissible]
      exact ih answer whole answers forks outcome hexec
  | @wait point next next' hnext ih =>
    intro whole answers forks outcome hexec
    cases answers with
    | cons _ _ => exact nomatch hexec
    | nil =>
      obtain rfl := Option.some.inj hexec
      obtain ⟨place, later, hplace, hpart, hwaits⟩ := hwatches.handle point whole
      refine ⟨_, hwaits _ [] forks, hpart, rfl, ?_⟩
      have hthread : Thread.Follows P E.get erase
          (⟨place, fun reply ↦ (next reply).embed E⟩ : Thread I P' τ) ⟨via point, next'⟩ :=
        ⟨hplace, E, via, next, rfl, hwatches, hnext, rfl⟩
      exact .parked hthread
  | fork point _ ih =>
    intro whole answers forks outcome hexec
    refine ih whole answers (forks ++ [E.fork point]) outcome ?_
    rw [List.map_append, List.map_singleton, hwatches.fork]
    exact hexec
  | fail error =>
    intro whole answers forks outcome hexec
    cases answers with
    | cons _ _ => exact nomatch hexec
    | nil =>
      obtain rfl := Option.some.inj hexec
      exact ⟨⟨whole, forks, .failed error⟩, rfl, rfl, rfl, .failed error⟩

namespace System

variable {watched : System I P' τ} {plain : System I P₀ σ}

/-- A coroutine before its first turn. -/
theorem Watches.start (h : System.Watches P get erase watched plain) (point : P') :
    Thread.Follows P get erase (watched.start point) (plain.start (erase point)) := by
  obtain ⟨E, via, program, hget, hwatches, hplain, hwatched⟩ := h.entry point
  exact ⟨rfl, E, via, fun _ ↦ program, hget, hwatches, fun _ ↦ hplain, funext fun _ ↦ hwatched⟩

/-- The coroutines that a section leaves waiting. -/
theorem Watches.leaves (h : System.Watches P get erase watched plain) {outcome' : Outcome I P' τ}
    {outcome : Outcome I P₀ σ} (hforks : outcome'.forks.map erase = outcome.forks)
    (hending : Ending.Follows P get erase outcome'.ending outcome.ending) :
    List.Forall₂ (Thread.Follows P get erase) (watched.leaves outcome') (plain.leaves outcome) ∧
      failed outcome'.ending = failed outcome.ending := by
  have hstarts : List.Forall₂ (Thread.Follows P get erase) (outcome'.forks.map watched.start)
      (outcome.forks.map plain.start) := by
    rw [← hforks, List.map_map, List.forall₂_map_left_iff, List.forall₂_map_right_iff,
      List.forall₂_same]
    exact fun point _ ↦ h.start point
  unfold System.leaves
  generalize outcome'.ending = ending' at hending
  generalize outcome.ending = ending at hending
  cases hending with
  | done => exact ⟨List.rel_append hstarts .nil, rfl⟩
  | parked hthread => exact ⟨List.rel_append hstarts (.cons hthread .nil), rfl⟩
  | failed error => exact ⟨List.rel_append hstarts .nil, rfl⟩

/-- A move of the plain service is a move of the watched one. -/
theorem Watches.exists_play (h : System.Watches P get erase watched plain)
    {first' : Configuration I P' τ} {first last : Configuration I P₀ σ}
    {move : Move I P₀} (hfirst : Configuration.Follows P get erase first' first)
    (hplay : plain.play first move = some last) :
    ∃ move' last', move'.map erase = move ∧ watched.play first' move' = some last' ∧
      Configuration.Follows P get erase last' last := by
  cases move with
  | arrive point =>
    simp only [play] at hplay
    split_ifs at hplay with harrives
    obtain rfl := Option.some.inj hplay
    obtain ⟨point', rfl, harrives'⟩ := h.arrives point harrives
    refine ⟨.arrive point', _, rfl, if_pos harrives', hfirst.state, ?_, hfirst.errors⟩
    exact List.rel_append hfirst.threads (.cons (h.start point') .nil)
  | resume index reply answers =>
    simp only [play] at hplay
    split at hplay
    · exact nomatch hplay
    rename_i thread hthread
    split at hplay
    · exact nomatch hplay
    rename_i outcome hexec
    obtain rfl := Option.some.inj hplay
    obtain ⟨hindex, hget⟩ := List.getElem?_eq_some_iff.mp hthread
    have hindex' : index < first'.threads.length := by
      rw [hfirst.threads.length_eq]
      exact hindex
    have hfollows : Thread.Follows P get erase first'.threads[index] thread := by
      rw [← hget]
      exact hfirst.threads.get hindex' hindex
    obtain ⟨-, E, via, next, rfl, hwatches, hnamed, hnext⟩ := hfollows
    rw [← hfirst.state] at hexec
    obtain ⟨outcome', hexec', hstate, hforks, hending⟩ :=
      (hnamed reply).exec hwatches first'.state answers [] outcome hexec
    obtain ⟨hleaves, hfailed⟩ := h.leaves hforks hending
    have hsection : (first'.threads[index].next reply).exec first'.state answers [] =
        some outcome' := by
      rw [hnext]
      exact hexec'
    refine ⟨.resume index reply answers,
      { state := outcome'.state
        threads := first'.threads.take index ++ watched.leaves outcome' ++
          first'.threads.drop (index + 1)
        errors := first'.errors ++ failed outcome'.ending }, rfl, ?_, hstate, ?_, ?_⟩
    · simp only [play, List.getElem?_eq_getElem hindex', hsection]
    · exact List.rel_append (List.rel_append (List.forall₂_take index hfirst.threads) hleaves)
        (List.forall₂_drop (index + 1) hfirst.threads)
    · rw [hfirst.errors, hfailed]

/-- A run of the plain service whose moves meet a condition is a run of the watched one whose moves
meet a condition that follows from it. -/
theorem Watches.exists_run (h : System.Watches P get erase watched plain)
    {condition : Configuration I P₀ σ → Move I P₀ → Prop}
    {condition' : Configuration I P' τ → Move I P' → Prop}
    (hcondition : ∀ first' first move', Configuration.Follows P get erase first' first →
      condition first (move'.map erase) → condition' first' move')
    {first' : Configuration I P' τ} {first last : Configuration I P₀ σ}
    (hfirst : Configuration.Follows P get erase first' first)
    (hrun : plain.Run condition first last) :
    ∃ last', watched.Run condition' first' last' ∧ Configuration.Follows P get erase last' last := by
  induction hrun with
  | refl => exact ⟨first', .refl first', hfirst⟩
  | snoc _ hmeets hplay ih =>
    obtain ⟨middle', hrun', hmiddle⟩ := ih
    obtain ⟨move', last', rfl, hplay', hlast⟩ := h.exists_play hmiddle hplay
    exact ⟨last', .snoc hrun' (hcondition _ _ _ hmiddle hmeets) hplay', hlast⟩

/-- The same for all runs. -/
theorem Watches.exists_anyRun (h : System.Watches P get erase watched plain)
    {first' : Configuration I P' τ} {first last : Configuration I P₀ σ}
    (hfirst : Configuration.Follows P get erase first' first) (hrun : plain.AnyRun first last) :
    ∃ last', watched.AnyRun first' last' ∧ Configuration.Follows P get erase last' last :=
  h.exists_run (fun _ _ _ _ _ ↦ trivial) hfirst hrun

end System

end Follows

end SvrDemo.Coroutine
