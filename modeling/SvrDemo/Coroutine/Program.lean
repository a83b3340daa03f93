import Mathlib.Data.List.Basic
import Mathlib.Control.Basic
import Mathlib.Tactic.Common

/-!
# Cooperative programs and their interleavings

A service that runs coroutines on one thread gives up control only where a coroutine waits for a
reply. Between two waits a coroutine is atomic: the other coroutines of the service see its
effects only at the next wait. `Program` is the syntax of such a coroutine over a state `σ`. It
reads and writes the state, asks the environment questions whose answer is not determined by the
state (a random number, the clock, the iteration order of a table), starts other coroutines,
waits at a named point, and may fail.

`Program.exec` runs a program up to its next wait, its end or its failure: one section. A
`Configuration` holds the state and the coroutines that wait, and `System.play` makes one move of
the whole service: a request arrives, or a waiting coroutine receives a reply and runs one
section. `System.Run` is the interleaving of moves, restricted to those that meet a condition, so
that a statement about all runs takes the trivial condition and a statement about some runs names
theirs.

Everything here is executable: `System.playAll` evaluates a list of moves.
-/

set_option autoImplicit false
set_option relaxedAutoImplicit false

namespace SvrDemo.Coroutine

/-- What the programs of a service exchange with their environment: the questions they ask inside a
section, the answers and replies they get, and the errors they can fail with. An answer is
admissible for a question when the environment can really give it. -/
structure Interface where
  Query : Type
  Answer : Type
  Error : Type
  admissible : Query → Answer → Bool

/-- A coroutine over a state `σ` that waits at points of the type `P`. Only `wait` gives up
control. -/
inductive Program (I : Interface) (P : Type) (σ : Type) (α : Type) : Type
  | ret (value : α)
  | get (next : σ → Program I P σ α)
  | set (state : σ) (next : Program I P σ α)
  | ask (query : I.Query) (next : I.Answer → Program I P σ α)
  | wait (point : P) (next : I.Answer → Program I P σ α)
  | fork (point : P) (next : Program I P σ α)
  | fail (error : I.Error)

variable {I : Interface} {P σ α β κ : Type}

namespace Program

/-! ### The monad of programs -/

/-- Sequential composition. -/
def bind : Program I P σ α → (α → Program I P σ β) → Program I P σ β
  | .ret value, rest => rest value
  | .get next, rest => .get fun state ↦ (next state).bind rest
  | .set state next, rest => .set state (next.bind rest)
  | .ask query next, rest => .ask query fun answer ↦ (next answer).bind rest
  | .wait point next, rest => .wait point fun reply ↦ (next reply).bind rest
  | .fork point next, rest => .fork point (next.bind rest)
  | .fail error, _ => .fail error

instance : Monad (Program I P σ) where
  pure := .ret
  bind := bind

/-- The state at this point of the section. -/
def getState : Program I P σ σ := .get .ret

/-- Replace the state by its image under `change`. -/
def modifyState (change : σ → σ) : Program I P σ Unit :=
  .get fun state ↦ .set (change state) (.ret ())

/-- The answer of the environment to a question. -/
def query (question : I.Query) : Program I P σ I.Answer := .ask question .ret

/-- Wait at a point for a reply. -/
def await (point : P) : Program I P σ I.Answer := .wait point .ret

/-- Start another coroutine, which waits at `point` for its first turn. -/
def spawn (point : P) : Program I P σ Unit := .fork point (.ret ())

/-- Change the state by a function that may fail, and then leaves the state it says. -/
def tryModify (change : σ → Except (I.Error × σ) σ) : Program I P σ Unit :=
  .get fun state ↦
    match change state with
    | .ok changed => .set changed (.ret ())
    | .error (error, changed) => .set changed (.fail error)

/-- Run a program and turn its failure into a value. What it did before the failure stays. -/
def attempt : Program I P σ α → Program I P σ (Except I.Error α)
  | .ret value => .ret (.ok value)
  | .get next => .get fun state ↦ (next state).attempt
  | .set state next => .set state next.attempt
  | .ask query next => .ask query fun answer ↦ (next answer).attempt
  | .wait point next => .wait point fun reply ↦ (next reply).attempt
  | .fork point next => .fork point next.attempt
  | .fail error => .ret (.error error)

/-- Run a body for every element of a list, in order. -/
def forEach : List κ → (κ → Program I P σ Unit) → Program I P σ Unit
  | [], _ => .ret ()
  | head :: tail, body => (body head).bind fun _ ↦ forEach tail body

@[simp]
theorem forEach_nil (body : κ → Program I P σ Unit) : forEach [] body = pure () :=
  rfl

@[simp]
theorem forEach_cons (head : κ) (tail : List κ) (body : κ → Program I P σ Unit) :
    forEach (head :: tail) body = body head >>= fun _ ↦ forEach tail body :=
  rfl

end Program

/-! ### A part inside a whole -/

/-- How the programs of a part run inside a whole: where the state of the part lies in the state
of the whole, what the whole does where the part waits, and the points at which the coroutines wait
that the part starts. -/
structure Embedding (I : Interface) (P σ P' τ : Type) where
  get : τ → σ
  put : σ → τ → τ
  handle : P → Program I P' τ I.Answer
  fork : P → P'
  get_put : ∀ part whole, get (put part whole) = part

/-- The program of a part as a program of the whole. -/
def Program.embed {P' τ : Type} (E : Embedding I P σ P' τ) : Program I P σ α → Program I P' τ α
  | .ret value => .ret value
  | .get next => .get fun whole ↦ (next (E.get whole)).embed E
  | .set part next => .get fun whole ↦ .set (E.put part whole) (next.embed E)
  | .ask query next => .ask query fun answer ↦ (next answer).embed E
  | .wait point next => (E.handle point).bind fun reply ↦ (next reply).embed E
  | .fork point next => .fork (E.fork point) (next.embed E)
  | .fail error => .fail error

/-- The embedding that changes only the names of the points: the part is the whole, and `via` says
where it waits in a service whose points also tell the coroutines apart. -/
def Embedding.relabel {P' : Type} (via : P → P') : Embedding I P σ P' σ where
  get := id
  put := fun part _ ↦ part
  handle := fun point ↦ .await (via point)
  fork := via
  get_put := fun _ _ ↦ rfl

/-! ### One section -/

/-- How a section ends: the coroutine is finished, it waits at a point, or it has failed. -/
inductive Ending (I : Interface) (P : Type) (σ : Type) : Type
  | done
  | parked (point : P) (next : I.Answer → Program I P σ Unit)
  | failed (error : I.Error)

/-- The result of a section: the state it leaves, the coroutines it started and its ending. -/
structure Outcome (I : Interface) (P : Type) (σ : Type) where
  state : σ
  forks : List P
  ending : Ending I P σ

/-- Run a program up to the end of its section, with the answers to the questions of the section
and the coroutines started so far. There is no result when an answer is not admissible or when
the answers are too many or too few. -/
def Program.exec : Program I P σ Unit → σ → List I.Answer → List P → Option (Outcome I P σ)
  | .ret _, state, [], forks => some ⟨state, forks, .done⟩
  | .ret _, _, _ :: _, _ => none
  | .get next, state, answers, forks => (next state).exec state answers forks
  | .set state next, _, answers, forks => next.exec state answers forks
  | .ask _ _, _, [], _ => none
  | .ask query next, state, answer :: answers, forks =>
    if I.admissible query answer then (next answer).exec state answers forks else none
  | .wait point next, state, [], forks => some ⟨state, forks, .parked point next⟩
  | .wait _ _, _, _ :: _, _ => none
  | .fork point next, state, answers, forks => next.exec state answers (forks ++ [point])
  | .fail error, state, [], forks => some ⟨state, forks, .failed error⟩
  | .fail _, _, _ :: _, _ => none

/-! ### Configurations and moves -/

/-- A waiting coroutine: its point and what it does with the reply. -/
structure Thread (I : Interface) (P : Type) (σ : Type) where
  point : P
  next : I.Answer → Program I P σ Unit

/-- A service between two sections: its state, its waiting coroutines, and the errors with which
coroutines have failed so far. -/
structure Configuration (I : Interface) (P : Type) (σ : Type) where
  state : σ
  threads : List (Thread I P σ)
  errors : List I.Error

/-- The points at which the coroutines of a configuration wait. -/
def Configuration.points (configuration : Configuration I P σ) : List P :=
  configuration.threads.map Thread.point

/-- A service: the program of a coroutine that starts at a point, and the points at which the
environment may start one. -/
structure System (I : Interface) (P : Type) (σ : Type) where
  entry : P → Program I P σ Unit
  arrives : P → Bool

/-- One move of a service: a request arrives, or the coroutine at an index gets a reply and runs
one section with the given answers. -/
inductive Move (I : Interface) (P : Type) : Type
  | arrive (point : P)
  | resume (index : ℕ) (reply : I.Answer) (answers : List I.Answer)

namespace System

/-- A coroutine before its first section. -/
def start (system : System I P σ) (point : P) : Thread I P σ :=
  ⟨point, fun _ ↦ system.entry point⟩

/-- The coroutine a section leaves waiting. -/
def parked : Ending I P σ → List (Thread I P σ)
  | .parked point next => [⟨point, next⟩]
  | _ => []

/-- The error a section ends with. -/
def failed : Ending I P σ → List I.Error
  | .failed error => [error]
  | _ => []

/-- The coroutines that wait after a section in place of the one that ran it. -/
def leaves (system : System I P σ) (outcome : Outcome I P σ) : List (Thread I P σ) :=
  outcome.forks.map system.start ++ parked outcome.ending

/-- One move, or no result when the move is not possible in the configuration. -/
def play (system : System I P σ) (configuration : Configuration I P σ) :
    Move I P → Option (Configuration I P σ)
  | .arrive point =>
    if system.arrives point then
      some { configuration with threads := configuration.threads ++ [system.start point] }
    else none
  | .resume index reply answers =>
    match configuration.threads[index]? with
    | none => none
    | some thread =>
      match (thread.next reply).exec configuration.state answers [] with
      | none => none
      | some outcome => some
          { state := outcome.state
            threads := configuration.threads.take index ++ system.leaves outcome ++
              configuration.threads.drop (index + 1)
            errors := configuration.errors ++ failed outcome.ending }

/-- A list of moves. -/
def playAll (system : System I P σ) (configuration : Configuration I P σ) (moves : List (Move I P)) :
    Option (Configuration I P σ) :=
  moves.foldlM system.play configuration

/-- The runs of a service whose moves all meet a condition on the configuration before the move
and on the move. -/
inductive Run (system : System I P σ) (condition : Configuration I P σ → Move I P → Prop) :
    Configuration I P σ → Configuration I P σ → Prop
  | refl (configuration : Configuration I P σ) : Run system condition configuration configuration
  | snoc {first last next : Configuration I P σ} {move : Move I P} (run : Run system condition first last)
      (meets : condition last move) (step : system.play last move = some next) :
      Run system condition first next

/-- The runs of a service. -/
abbrev AnyRun (system : System I P σ) : Configuration I P σ → Configuration I P σ → Prop :=
  system.Run fun _ _ ↦ True

theorem Run.trans {system : System I P σ} {condition : Configuration I P σ → Move I P → Prop}
    {first middle last : Configuration I P σ} (before : system.Run condition first middle)
    (after : system.Run condition middle last) : system.Run condition first last := by
  induction after with
  | refl => exact before
  | snoc _ meets step ih => exact .snoc ih meets step

/-- The moves of a run meet every weaker condition. -/
theorem Run.mono {system : System I P σ} {condition condition' : Configuration I P σ → Move I P → Prop}
    {first last : Configuration I P σ}
    (hweaker : ∀ configuration move, condition configuration move → condition' configuration move)
    (run : system.Run condition first last) : system.Run condition' first last := by
  induction run with
  | refl => exact .refl first
  | snoc _ meets step ih => exact .snoc ih (hweaker _ _ meets) step

/-- The empty list of moves leads back to the configuration. -/
@[simp]
theorem playAll_nil (system : System I P σ) (configuration : Configuration I P σ) :
    system.playAll configuration [] = some configuration :=
  rfl

/-- A list of moves is its first move followed by the others. -/
@[simp]
theorem playAll_cons (system : System I P σ) (configuration : Configuration I P σ) (move : Move I P)
    (moves : List (Move I P)) :
    system.playAll configuration (move :: moves) =
      (system.play configuration move).bind fun next ↦ system.playAll next moves :=
  rfl

/-- A list of moves that can be played is a run. -/
theorem run_of_playAll {system : System I P σ} {last : Configuration I P σ} (moves : List (Move I P)) :
    ∀ first : Configuration I P σ, system.playAll first moves = some last →
      system.AnyRun first last := by
  induction moves with
  | nil =>
    intro first hplay
    obtain rfl : first = last := Option.some.inj hplay
    exact .refl first
  | cons move moves ih =>
    intro first hplay
    rw [playAll_cons, Option.bind_eq_some_iff] at hplay
    obtain ⟨next, hmove, hrest⟩ := hplay
    exact Run.trans (.snoc (.refl first) trivial hmove) (ih next hrest)

/-- A list of moves that can be played leads to a configuration in which what was evaluated holds. -/
theorem exists_run_of_playAll (system : System I P σ) (first : Configuration I P σ)
    (moves : List (Move I P)) (value : Configuration I P σ → κ) {result : κ}
    (hplay : (system.playAll first moves).map value = some result) :
    ∃ last, system.AnyRun first last ∧ value last = result := by
  obtain ⟨last, hlast, hvalue⟩ := Option.map_eq_some_iff.mp hplay
  exact ⟨last, run_of_playAll moves first hlast, hvalue⟩

/-- A list of moves that meet a condition. -/
def playMeeting (system : System I P σ) (condition : Configuration I P σ → Move I P → Prop)
    [∀ configuration move, Decidable (condition configuration move)]
    (configuration : Configuration I P σ) (moves : List (Move I P)) : Option (Configuration I P σ) :=
  moves.foldlM (fun configuration move ↦
    if condition configuration move then system.play configuration move else none) configuration

/-- A list of moves that meet a condition and can be played leads, by a run of such moves, to a
configuration in which what was evaluated holds. -/
theorem exists_run_of_playMeeting (system : System I P σ)
    (condition : Configuration I P σ → Move I P → Prop)
    [∀ configuration move, Decidable (condition configuration move)] (first : Configuration I P σ)
    (moves : List (Move I P)) (value : Configuration I P σ → κ) {result : κ}
    (hplay : (system.playMeeting condition first moves).map value = some result) :
    ∃ last, system.Run condition first last ∧ value last = result := by
  obtain ⟨last, hlast, hvalue⟩ := Option.map_eq_some_iff.mp hplay
  refine ⟨last, ?_, hvalue⟩
  clear hplay hvalue
  induction moves generalizing first with
  | nil =>
    obtain rfl : first = last := Option.some.inj hlast
    exact .refl first
  | cons move moves ih =>
    rw [playMeeting, List.foldlM_cons, Option.bind_eq_bind, Option.bind_eq_some_iff] at hlast
    obtain ⟨next, hmove, hrest⟩ := hlast
    split at hmove
    · next hmeets => exact Run.trans (.snoc (.refl first) hmeets hmove) (ih next hrest)
    · cases hmove

end System

/-! ### Conditions on the coroutine that is resumed -/

/-- The moves that resume a coroutine under a condition on the configuration, its point and the reply it
gets. -/
def Resumes (condition : Configuration I P σ → P → I.Answer → Prop) (configuration : Configuration I P σ) :
    Move I P → Prop
  | .arrive _ => True
  | .resume index reply _ => ∀ point ∈ configuration.points[index]?, condition configuration point reply

instance {condition : Configuration I P σ → P → I.Answer → Prop}
    [∀ configuration point reply, Decidable (condition configuration point reply)]
    (configuration : Configuration I P σ) : (move : Move I P) → Decidable (Resumes condition configuration move)
  | .arrive _ => inferInstanceAs (Decidable True)
  | .resume index reply _ => inferInstanceAs
    (Decidable (∀ point ∈ configuration.points[index]?, condition configuration point reply))

theorem Resumes.meets {condition : Configuration I P σ → P → I.Answer → Prop}
    {configuration : Configuration I P σ} {before after : List P} {point : P} {reply : I.Answer}
    {answers : List I.Answer}
    (h : Resumes condition configuration (.resume before.length reply answers))
    (hpoints : configuration.points = before ++ point :: after) : condition configuration point reply :=
  h point (by rw [hpoints]; simp)

/-- The same, with all that the section hears: the reply and the answers to its questions. -/
def Hears (condition : Configuration I P σ → P → List I.Answer → Prop) (configuration : Configuration I P σ) :
    Move I P → Prop
  | .arrive _ => True
  | .resume index reply answers =>
    ∀ point ∈ configuration.points[index]?, condition configuration point (reply :: answers)

instance {condition : Configuration I P σ → P → List I.Answer → Prop}
    [∀ configuration point heard, Decidable (condition configuration point heard)]
    (configuration : Configuration I P σ) : (move : Move I P) → Decidable (Hears condition configuration move)
  | .arrive _ => inferInstanceAs (Decidable True)
  | .resume index reply answers => inferInstanceAs
    (Decidable (∀ point ∈ configuration.points[index]?, condition configuration point (reply :: answers)))

theorem Hears.meets {condition : Configuration I P σ → P → List I.Answer → Prop}
    {configuration : Configuration I P σ} {before after : List P} {point : P} {reply : I.Answer}
    {answers : List I.Answer}
    (h : Hears condition configuration (.resume before.length reply answers))
    (hpoints : configuration.points = before ++ point :: after) :
    condition configuration point (reply :: answers) :=
  h point (by rw [hpoints]; simp)

/-- The moves that resume a coroutine of some kind only when none of the kind waits before it: the
coroutines of the kind take their turns in the order in which they came. -/
def FirstOf (kind : P → Bool) (configuration : Configuration I P σ) : Move I P → Prop
  | .arrive _ => True
  | .resume index _ _ => ∀ point ∈ configuration.points[index]?, kind point = true →
    ∀ other ∈ configuration.points.take index, kind other = false

instance {kind : P → Bool} (configuration : Configuration I P σ) :
    (move : Move I P) → Decidable (FirstOf kind configuration move)
  | .arrive _ => inferInstanceAs (Decidable True)
  | .resume index _ _ => inferInstanceAs (Decidable (∀ point ∈ configuration.points[index]?,
    kind point = true → ∀ other ∈ configuration.points.take index, kind other = false))

theorem FirstOf.meets {kind : P → Bool} {configuration : Configuration I P σ} {before after : List P}
    {point : P} {reply : I.Answer} {answers : List I.Answer}
    (h : FirstOf kind configuration (.resume before.length reply answers))
    (hpoints : configuration.points = before ++ point :: after) (hpoint : kind point = true) :
    ∀ other ∈ before, kind other = false := by
  intro other hother
  refine h point (by rw [hpoints]; simp) hpoint other ?_
  rw [hpoints, List.take_left']
  · exact hother
  · rfl

end SvrDemo.Coroutine
