import SvrDemo.Coroutine.Logic
import Mathlib.Data.List.Forall2

/-!
# Services that are traced

Some laws of a service are about what its state does not show: the readings of the clock, the number of
turns a coroutine has taken, the calls it has made. A `Tracing` notes the answers to the questions of a
program and the points where it waits in a trace beside the state. It changes neither what the program
does nor what the environment may answer, so that a traced service is the plain one with a trace.

The weakest precondition of a traced program, `Program.wpTr`, has the rules of the plain one, with the
trace in the places where something is noted. `Tracing.Silent` is a tracing that notes nothing, under
which a program keeps the contracts it keeps untraced. `System.Shadows.exists_run` says that every run of
the plain service is a run of the traced one.
-/

set_option autoImplicit false
set_option relaxedAutoImplicit false

namespace SvrDemo.Coroutine

variable {I : Interface} {P P' σ Γ α β κ : Type}

/-! ### Traced programs -/

/-- What is noted of a program in a trace, and the names of its points in the service that runs it. -/
structure Tracing (I : Interface) (P P' Γ : Type) where
  via : P → P'
  asked : I.Query → I.Answer → Γ → Γ
  waits : P → Γ → Γ

/-- A change of the trace before a program goes on. -/
def Program.noted (note : Γ → Γ) (next : Program I P' (σ × Γ) α) : Program I P' (σ × Γ) α :=
  .get fun whole ↦ .set (whole.1, note whole.2) next

/-- The program with its trace. -/
def Program.traced (T : Tracing I P P' Γ) : Program I P σ α → Program I P' (σ × Γ) α
  | .ret value => .ret value
  | .get next => .get fun whole ↦ (next whole.1).traced T
  | .set state next => .get fun whole ↦ .set (state, whole.2) (next.traced T)
  | .ask query next => .ask query fun answer ↦ ((next answer).traced T).noted (T.asked query answer)
  | .wait point next =>
    Program.noted (T.waits point) (.wait (T.via point) fun reply ↦ (next reply).traced T)
  | .fork point next => .fork (T.via point) (next.traced T)
  | .fail error => .fail error

/-- A tracing that notes nothing. -/
structure Tracing.Silent (T : Tracing I P P' Γ) : Prop where
  asked : ∀ query answer trace, T.asked query answer trace = trace
  waits : ∀ point trace, T.waits point trace = trace

namespace Program

variable {T : Tracing I P P' Γ} {K : Contract I P' (σ × Γ)}

/-- A trace respects composition. -/
theorem traced_bind (T : Tracing I P P' Γ) (first : Program I P σ α) (rest : α → Program I P σ β) :
    (first.bind rest).traced T = (first.traced T).bind fun value ↦ (rest value).traced T := by
  induction first with
  | ret value => rfl
  | get next ih => exact congrArg Program.get (funext fun whole ↦ ih whole.1)
  | set changed next ih => exact congrArg Program.get (funext fun _ ↦ congrArg _ ih)
  | ask query next ih =>
    refine congrArg (Program.ask query) (funext fun answer ↦ ?_)
    exact congrArg Program.get (funext fun whole ↦ congrArg _ (ih answer))
  | wait point next ih =>
    refine congrArg Program.get (funext fun whole ↦ congrArg _ ?_)
    exact congrArg (Program.wait (T.via point)) (funext ih)
  | fork point next ih => exact congrArg (Program.fork (T.via point)) ih
  | fail error => rfl

/-- The weakest precondition of a program with its trace. -/
def wpTr (T : Tracing I P P' Γ) (K : Contract I P' (σ × Γ)) (program : Program I P σ α)
    (post : α → Section I P' (σ × Γ) → σ × Γ → Prop)
    (raised : I.Error → Section I P' (σ × Γ) → σ × Γ → Prop)
    (current : Section I P' (σ × Γ)) (whole : σ × Γ) : Prop :=
  (program.traced T).wp K post raised current whole

/-! ### Rules -/

section Rules

variable {post : α → Section I P' (σ × Γ) → σ × Γ → Prop}
  {raised : I.Error → Section I P' (σ × Γ) → σ × Γ → Prop} {current : Section I P' (σ × Γ)}
  {whole : σ × Γ}

@[simp]
theorem wpTr_pure {value : α} :
    (pure value : Program I P σ α).wpTr T K post raised current whole ↔ post value current whole :=
  Iff.rfl

theorem wpTr_bind_eq {first : Program I P σ β} {rest : β → Program I P σ α} :
    (first.bind rest).wpTr T K post raised current whole ↔
      first.wpTr T K (fun value ↦ (rest value).wpTr T K post raised) raised current whole := by
  unfold wpTr
  rw [traced_bind, wp_bind_eq]

@[simp]
theorem wpTr_bind {first : Program I P σ β} {rest : β → Program I P σ α} :
    (first >>= rest).wpTr T K post raised current whole ↔
      first.wpTr T K (fun value ↦ (rest value).wpTr T K post raised) raised current whole :=
  wpTr_bind_eq

@[simp]
theorem wpTr_getState_bind {rest : σ → Program I P σ α} :
    (getState >>= rest : Program I P σ α).wpTr T K post raised current whole ↔
      (rest whole.1).wpTr T K post raised current whole :=
  Iff.rfl

@[simp]
theorem wpTr_modifyState {change : σ → σ} {post : Unit → Section I P' (σ × Γ) → σ × Γ → Prop} :
    (modifyState change : Program I P σ Unit).wpTr T K post raised current whole ↔
      post () current (change whole.1, whole.2) :=
  Iff.rfl

@[simp]
theorem wpTr_modifyState_bind {change : σ → σ} {rest : Unit → Program I P σ α} :
    (modifyState change >>= rest : Program I P σ α).wpTr T K post raised current whole ↔
      (rest ()).wpTr T K post raised current (change whole.1, whole.2) :=
  Iff.rfl

/-- The answer to a question is noted. -/
@[simp]
theorem wpTr_query {question : I.Query} {post : I.Answer → Section I P' (σ × Γ) → σ × Γ → Prop} :
    (query question : Program I P σ I.Answer).wpTr T K post raised current whole ↔
      ∀ answer, I.admissible question answer = true →
        post answer { current with heard := current.heard ++ [answer] }
          (whole.1, T.asked question answer whole.2) :=
  Iff.rfl

/-- The point where a program waits is noted. -/
@[simp]
theorem wpTr_await {point : P} {post : I.Answer → Section I P' (σ × Γ) → σ × Γ → Prop} :
    (await point : Program I P σ I.Answer).wpTr T K post raised current whole ↔
      K.Ends current (current.forks ++ [T.via point]) (whole.1, T.waits point whole.2) ∧
        ∀ reply later, K.rely (T.via point) (whole.1, T.waits point whole.2) later →
          post reply ⟨T.via point, later, [reply], []⟩ later :=
  Iff.rfl

@[simp]
theorem wpTr_spawn {point : P} {post : Unit → Section I P' (σ × Γ) → σ × Γ → Prop} :
    (spawn point : Program I P σ Unit).wpTr T K post raised current whole ↔
      post () { current with forks := current.forks ++ [T.via point] } whole :=
  Iff.rfl

@[simp]
theorem wpTr_fail {error : I.Error} :
    (fail error : Program I P σ α).wpTr T K post raised current whole ↔ raised error current whole :=
  Iff.rfl

/-- A change that succeeds. -/
theorem wpTr_tryModify {change : σ → Except (I.Error × σ) σ} {changed : σ}
    {post : Unit → Section I P' (σ × Γ) → σ × Γ → Prop} (hchange : change whole.1 = .ok changed)
    (h : post () current (changed, whole.2)) :
    (tryModify change : Program I P σ Unit).wpTr T K post raised current whole := by
  unfold wpTr tryModify
  simp only [traced, wp, hchange]
  exact h

/-- A change that fails. -/
theorem wpTr_tryModify_of_error {change : σ → Except (I.Error × σ) σ} {changed : σ} {error : I.Error}
    {post : Unit → Section I P' (σ × Γ) → σ × Γ → Prop}
    (hchange : change whole.1 = .error (error, changed))
    (h : raised error current (changed, whole.2)) :
    (tryModify change : Program I P σ Unit).wpTr T K post raised current whole := by
  unfold wpTr tryModify
  simp only [traced, wp, hchange]
  exact h

theorem wpTr_mono {program : Program I P σ α}
    {post' : α → Section I P' (σ × Γ) → σ × Γ → Prop}
    (hpost : ∀ value current whole, post value current whole → post' value current whole)
    (h : program.wpTr T K post raised current whole) :
    program.wpTr T K post' raised current whole :=
  wp_mono hpost (fun _ _ _ hraised ↦ hraised) h

/-- The composition rule, with the assertion between the parts that the first part establishes. -/
theorem wpTr_seq {first : Program I P σ β} {rest : β → Program I P σ α}
    {middle : β → Section I P' (σ × Γ) → σ × Γ → Prop}
    (hfirst : first.wpTr T K middle raised current whole)
    (hrest : ∀ value current whole, middle value current whole →
      (rest value).wpTr T K post raised current whole) :
    (first >>= rest).wpTr T K post raised current whole :=
  wpTr_bind.mpr (wpTr_mono hrest hfirst)

/-- The composition rule with an assertion for the place between the parts. -/
theorem wpTr_seq_at (middle : β → Section I P' (σ × Γ) → σ × Γ → Prop) {first : Program I P σ β}
    {rest : β → Program I P σ α} (hfirst : first.wpTr T K middle raised current whole)
    (hrest : ∀ value current whole, middle value current whole →
      (rest value).wpTr T K post raised current whole) :
    (first >>= rest).wpTr T K post raised current whole :=
  wpTr_seq hfirst hrest

/-- The loop rule: `inv` relates what is left of the list to the state and the trace. -/
theorem wpTr_forEach (inv : List κ → Section I P' (σ × Γ) → σ × Γ → Prop) {list : List κ}
    {body : κ → Program I P σ Unit} {post : Unit → Section I P' (σ × Γ) → σ × Γ → Prop}
    (hbody : ∀ head tail current whole, inv (head :: tail) current whole →
      (body head).wpTr T K (fun _ ↦ inv tail) raised current whole)
    (hpost : ∀ current whole, inv [] current whole → post () current whole) :
    ∀ {current : Section I P' (σ × Γ)} {whole : σ × Γ}, inv list current whole →
      (forEach list body).wpTr T K post raised current whole := by
  induction list with
  | nil => intro current whole h; exact hpost current whole h
  | cons head tail ih =>
    intro current whole h
    rw [forEach, wpTr_bind_eq]
    exact wpTr_mono (fun _ _ _ hinv ↦ ih hinv) (hbody head tail current whole h)

/-- The loop rule with an accumulator. -/
theorem wpTr_foldlM (inv : List κ → β → Section I P' (σ × Γ) → σ × Γ → Prop) {list : List κ}
    {body : β → κ → Program I P σ β} {post : β → Section I P' (σ × Γ) → σ × Γ → Prop}
    (hbody : ∀ head tail acc current whole, inv (head :: tail) acc current whole →
      (body acc head).wpTr T K (fun next ↦ inv tail next) raised current whole)
    (hpost : ∀ acc current whole, inv [] acc current whole → post acc current whole) :
    ∀ {acc : β} {current : Section I P' (σ × Γ)} {whole : σ × Γ}, inv list acc current whole →
      (list.foldlM body acc).wpTr T K post raised current whole := by
  induction list with
  | nil => intro acc current whole h; exact hpost acc current whole h
  | cons head tail ih =>
    intro acc current whole h
    rw [List.foldlM_cons, wpTr_bind]
    exact wpTr_mono (fun _ _ _ hinv ↦ ih hinv) (hbody head tail acc current whole h)

end Rules

end Program

/-! ### Programs of which nothing is noted -/

/-- The section that runs, without the trace. -/
def Section.untraced (current : Section I P' (σ × Γ)) : Section I P' σ :=
  ⟨current.point, current.origin.1, current.heard, current.forks⟩

/-- A contract for the traced service asks of the coroutines in question what a contract of the plain
service asks, and that they leave the trace alone. -/
structure Contract.Extends (K' : Contract I P' (σ × Γ)) (K : Contract I P' σ) (points : P' → Prop) :
    Prop where
  left : ∀ current left state, points current.point → K.Ends current left state →
    ∀ point ∈ left, points point
  ends : ∀ current left whole, points current.point → (∀ point ∈ current.forks, point ∈ left) →
    K.Ends current.untraced left whole.1 → whole.2 = current.origin.2 → K'.Ends current left whole
  rely : ∀ point first last, points point → K'.rely point first last → K.rely point first.1 last.1

/-- A program of which nothing is noted keeps the contracts that it keeps without a trace. -/
theorem Program.wpTr_of_silent {T : Tracing I P P' Γ} (hsilent : T.Silent)
    {K' : Contract I P' (σ × Γ)} {K : Contract I P' σ} {points : P' → Prop}
    (hextends : K'.Extends K points) {post : α → Section I P' σ → σ → Prop}
    {raised : I.Error → Section I P' σ → σ → Prop} (program : Program I P σ α) :
    ∀ (current : Section I P' (σ × Γ)) (whole : σ × Γ), points current.point →
      whole.2 = current.origin.2 →
      program.wpIn (.relabel T.via) K post raised current.untraced whole.1 →
      program.wpTr T K'
        (fun value current whole ↦ points current.point ∧ whole.2 = current.origin.2 ∧
          post value current.untraced whole.1)
        (fun error current whole ↦ points current.point ∧ whole.2 = current.origin.2 ∧
          raised error current.untraced whole.1) current whole := by
  induction program with
  | ret value => intro current whole hpoint htrace h; exact ⟨hpoint, htrace, h⟩
  | get next ih => intro current whole hpoint htrace h; exact ih whole.1 current whole hpoint htrace h
  | set changed next ih =>
    intro current whole hpoint htrace h
    exact ih current (changed, whole.2) hpoint htrace h
  | ask query next ih =>
    intro current whole hpoint htrace h answer hanswer
    refine ih answer { current with heard := current.heard ++ [answer] }
      (whole.1, T.asked query answer whole.2) hpoint ?_ (h answer hanswer)
    rw [hsilent.asked]
    exact htrace
  | wait point next ih =>
    intro current whole hpoint htrace h
    have htrace' : T.waits point whole.2 = current.origin.2 := (hsilent.waits _ _).trans htrace
    have hvia : points (T.via point) := hextends.left _ _ _ hpoint h.1 _ (by simp)
    refine ⟨hextends.ends current _ (whole.1, T.waits point whole.2) hpoint
      (fun _ hmem ↦ List.mem_append_left _ hmem) h.1 htrace', fun reply later hrely ↦ ?_⟩
    exact ih reply ⟨T.via point, later, [reply], []⟩ later hvia rfl (h.2 reply later.1
      (hextends.rely _ (whole.1, T.waits point whole.2) later hvia hrely))
  | fork point next ih =>
    intro current whole hpoint htrace h
    exact ih { current with forks := current.forks ++ [T.via point] } whole hpoint htrace h
  | fail error => intro current whole hpoint htrace h; exact ⟨hpoint, htrace, h⟩

/-! ### Runs of a plain service -/

/-- A traced program does what a plain one does. -/
inductive Program.Shadows : Program I P' (σ × Γ) Unit → Program I P' σ Unit → Prop
  | ret (value : Unit) : Shadows (.ret value) (.ret value)
  | get {next' : σ × Γ → Program I P' (σ × Γ) Unit} {next : σ → Program I P' σ Unit}
      (hnext : ∀ whole, Shadows (next' whole) (next whole.1)) : Shadows (.get next') (.get next)
  | put (state : σ) {next' : Program I P' (σ × Γ) Unit} {next : Program I P' σ Unit}
      (hnext : Shadows next' next) :
      Shadows (.get fun whole ↦ .set (state, whole.2) next') (.get fun _ ↦ .set state next)
  | note (change : Γ → Γ) {next' : Program I P' (σ × Γ) Unit} {next : Program I P' σ Unit}
      (hnext : Shadows next' next) : Shadows (next'.noted change) next
  | ask (query : I.Query) {next' : I.Answer → Program I P' (σ × Γ) Unit}
      {next : I.Answer → Program I P' σ Unit} (hnext : ∀ answer, Shadows (next' answer) (next answer)) :
      Shadows (.ask query next') (.ask query next)
  | wait (point : P') {next' : I.Answer → Program I P' (σ × Γ) Unit}
      {next : I.Answer → Program I P' σ Unit} (hnext : ∀ reply, Shadows (next' reply) (next reply)) :
      Shadows (.wait point next') (.wait point next)
  | fork (point : P') {next' : Program I P' (σ × Γ) Unit} {next : Program I P' σ Unit}
      (hnext : Shadows next' next) : Shadows (.fork point next') (.fork point next)
  | fail (error : I.Error) : Shadows (.fail error) (.fail error)

theorem Program.shadows_traced (T : Tracing I P P' Γ) (program : Program I P σ Unit) :
    Shadows (program.traced T) (program.embed (.relabel T.via)) := by
  induction program with
  | ret value => exact .ret value
  | get next ih => exact .get fun whole ↦ ih whole.1
  | set state next ih => exact .put state ih
  | ask query next ih => exact .ask query fun answer ↦ .note _ (ih answer)
  | wait point next ih => exact .note _ (.wait (T.via point) ih)
  | fork point next ih => exact .fork (T.via point) ih
  | fail error => exact .fail error

/-- The endings of a section with a trace and without one. -/
inductive Ending.Shadows : Ending I P' (σ × Γ) → Ending I P' σ → Prop
  | done : Shadows .done .done
  | parked (point : P') {next' : I.Answer → Program I P' (σ × Γ) Unit}
      {next : I.Answer → Program I P' σ Unit}
      (hnext : ∀ reply, Program.Shadows (next' reply) (next reply)) :
      Shadows (.parked point next') (.parked point next)
  | failed (error : I.Error) : Shadows (.failed error) (.failed error)

/-- A section without a trace is one with a trace. -/
theorem Program.Shadows.exec {traced : Program I P' (σ × Γ) Unit} {plain : Program I P' σ Unit}
    (h : traced.Shadows plain) : ∀ (whole : σ × Γ) (answers : List I.Answer) (forks : List P')
      (outcome : Outcome I P' σ), plain.exec whole.1 answers forks = some outcome →
      ∃ outcome' : Outcome I P' (σ × Γ), traced.exec whole answers forks = some outcome' ∧
        outcome'.state.1 = outcome.state ∧ outcome'.forks = outcome.forks ∧
          Ending.Shadows outcome'.ending outcome.ending := by
  induction h with
  | ret value =>
    intro whole answers forks outcome hexec
    cases answers with
    | cons _ _ => cases hexec
    | nil =>
      obtain rfl := Option.some.inj hexec
      exact ⟨⟨whole, forks, .done⟩, rfl, rfl, rfl, .done⟩
  | get _ ih => intro whole; exact ih whole whole
  | put state _ ih => intro whole; exact ih (state, whole.2)
  | note change _ ih => intro whole; exact ih (whole.1, change whole.2)
  | ask query _ ih =>
    intro whole answers forks outcome hexec
    cases answers with
    | nil => cases hexec
    | cons answer answers =>
      simp only [Program.exec] at hexec ⊢
      split_ifs at hexec with hadmissible
      rw [if_pos hadmissible]
      exact ih answer whole answers forks outcome hexec
  | @wait point next' next hnext _ =>
    intro whole answers forks outcome hexec
    cases answers with
    | cons _ _ => cases hexec
    | nil =>
      obtain rfl := Option.some.inj hexec
      exact ⟨⟨whole, forks, .parked point next'⟩, rfl, rfl, rfl, .parked point hnext⟩
  | fork point _ ih => intro whole answers forks; exact ih whole answers (forks ++ [point])
  | fail error =>
    intro whole answers forks outcome hexec
    cases answers with
    | cons _ _ => cases hexec
    | nil =>
      obtain rfl := Option.some.inj hexec
      exact ⟨⟨whole, forks, .failed error⟩, rfl, rfl, rfl, .failed error⟩

/-- A coroutine with a trace and one without, at the same point. -/
structure Thread.Shadows (traced : Thread I P' (σ × Γ)) (plain : Thread I P' σ) : Prop where
  point : traced.point = plain.point
  next : ∀ reply, Program.Shadows (traced.next reply) (plain.next reply)

/-- The configurations that agree but for the trace. -/
structure Configuration.Shadows (traced : Configuration I P' (σ × Γ)) (plain : Configuration I P' σ) :
    Prop where
  state : traced.state.1 = plain.state
  threads : List.Forall₂ Thread.Shadows traced.threads plain.threads
  errors : traced.errors = plain.errors

/-- A service that runs the programs of a plain one with a trace. -/
structure System.Shadows (traced : System I P' (σ × Γ)) (plain : System I P' σ) : Prop where
  arrives : ∀ point, traced.arrives point = plain.arrives point
  entry : ∀ point, Program.Shadows (traced.entry point) (plain.entry point)

theorem Configuration.Shadows.points {traced : Configuration I P' (σ × Γ)}
    {plain : Configuration I P' σ} (h : traced.Shadows plain) : traced.points = plain.points := by
  unfold Configuration.points
  have hthreads := h.threads
  generalize traced.threads = threads' at hthreads
  generalize plain.threads = threads at hthreads
  induction hthreads with
  | nil => rfl
  | cons hhead _ ih => rw [List.map_cons, List.map_cons, hhead.point, ih]

namespace System

variable {traced : System I P' (σ × Γ)} {plain : System I P' σ}

/-- The coroutines that a section leaves waiting. -/
theorem Shadows.leaves (h : traced.Shadows plain) {outcome' : Outcome I P' (σ × Γ)}
    {outcome : Outcome I P' σ} (hforks : outcome'.forks = outcome.forks)
    (hending : Ending.Shadows outcome'.ending outcome.ending) :
    List.Forall₂ Thread.Shadows (traced.leaves outcome') (plain.leaves outcome) ∧
      failed outcome'.ending = failed outcome.ending := by
  have hstarts : List.Forall₂ Thread.Shadows (outcome'.forks.map traced.start)
      (outcome.forks.map plain.start) := by
    rw [hforks, List.forall₂_map_left_iff, List.forall₂_map_right_iff, List.forall₂_same]
    exact fun point _ ↦ ⟨rfl, fun _ ↦ h.entry point⟩
  unfold System.leaves
  generalize outcome'.ending = ending' at hending
  generalize outcome.ending = ending at hending
  cases hending with
  | done => exact ⟨List.rel_append hstarts .nil, rfl⟩
  | parked point hnext => exact ⟨List.rel_append hstarts (.cons ⟨rfl, hnext⟩ .nil), rfl⟩
  | failed error => exact ⟨List.rel_append hstarts .nil, rfl⟩

/-- A move of the plain service is the same move of the traced one. -/
theorem Shadows.exists_play (h : traced.Shadows plain) {first' : Configuration I P' (σ × Γ)}
    {first last : Configuration I P' σ} {move : Move I P'} (hfirst : first'.Shadows first)
    (hplay : plain.play first move = some last) :
    ∃ last', traced.play first' move = some last' ∧ last'.Shadows last := by
  cases move with
  | arrive point =>
    simp only [play] at hplay
    split_ifs at hplay with harrives
    obtain rfl := Option.some.inj hplay
    refine ⟨_, if_pos ((h.arrives point).trans harrives), hfirst.state, ?_, hfirst.errors⟩
    exact List.rel_append hfirst.threads (.cons ⟨rfl, fun _ ↦ h.entry point⟩ .nil)
  | resume index reply answers =>
    simp only [play] at hplay
    split at hplay
    · cases hplay
    rename_i thread hthread
    split at hplay
    · cases hplay
    rename_i outcome hexec
    obtain rfl := Option.some.inj hplay
    obtain ⟨hindex, hget⟩ := List.getElem?_eq_some_iff.mp hthread
    have hindex' : index < first'.threads.length := by
      rw [hfirst.threads.length_eq]
      exact hindex
    have hshadows : Thread.Shadows first'.threads[index] thread := by
      rw [← hget]
      exact hfirst.threads.get hindex' hindex
    rw [← hfirst.state] at hexec
    obtain ⟨outcome', hexec', hstate, hforks, hending⟩ :=
      (hshadows.next reply).exec first'.state answers [] outcome hexec
    obtain ⟨hleaves, hfailed⟩ := h.leaves hforks hending
    refine ⟨{ state := outcome'.state
              threads := first'.threads.take index ++ traced.leaves outcome' ++
                first'.threads.drop (index + 1)
              errors := first'.errors ++ failed outcome'.ending }, ?_, hstate, ?_, ?_⟩
    · simp only [play, List.getElem?_eq_getElem hindex', hexec']
    · exact List.rel_append (List.rel_append (List.forall₂_take index hfirst.threads) hleaves)
        (List.forall₂_drop (index + 1) hfirst.threads)
    · rw [hfirst.errors, hfailed]

/-- A run of the plain service whose moves meet a condition is a run of the traced one whose moves meet a
condition that follows from it. -/
theorem Shadows.exists_run (h : traced.Shadows plain)
    {condition : Configuration I P' σ → Move I P' → Prop}
    {condition' : Configuration I P' (σ × Γ) → Move I P' → Prop}
    (hcondition : ∀ first' first move, Configuration.Shadows first' first → condition first move →
      condition' first' move)
    {first' : Configuration I P' (σ × Γ)} {first last : Configuration I P' σ}
    (hfirst : first'.Shadows first) (hrun : plain.Run condition first last) :
    ∃ last', traced.Run condition' first' last' ∧ last'.Shadows last := by
  induction hrun with
  | refl => exact ⟨first', .refl first', hfirst⟩
  | snoc _ hmeets hplay ih =>
    obtain ⟨middle', hrun', hmiddle⟩ := ih
    obtain ⟨last', hplay', hlast⟩ := h.exists_play hmiddle hplay
    exact ⟨last', .snoc hrun' (hcondition _ _ _ hmiddle hmeets) hplay', hlast⟩

end System

end SvrDemo.Coroutine
