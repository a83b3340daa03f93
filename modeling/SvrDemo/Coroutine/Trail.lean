import SvrDemo.Coroutine.Following

/-!
# What a coroutine has met on its way

Whether a call returns is decided by what its coroutine finds when it goes on, at each of the places where it
has to wait. `Trail` is the way of a coroutine so far: its turns, and where the present one has begun.
`Program.wpTrail` is the weakest precondition of a program whose postconditions see the whole trail, so that they
may say that the coroutine ends well exactly when it has found everything in order. What the environment may
leave and reply in between is bounded by `may`.

`trail_of_followAll` carries such a triple to the runs of a service.
-/

set_option autoImplicit false
set_option relaxedAutoImplicit false

namespace SvrDemo.Coroutine

variable {I : Interface} {P σ α β κ : Type}

/-! ### Trails -/

/-- What is kept of a turn of a coroutine: where it waited, the state it found and the reply, and the state
that it left. -/
structure Visit (I : Interface) (P : Type) (σ : Type) where
  point : P
  origin : σ
  reply : I.Answer
  last : σ

/-- What is kept of a turn. -/
def Turn.visit (turn : Turn I P σ) : Visit I P σ := ⟨turn.point, turn.origin, turn.reply, turn.last⟩

/-- The way of a coroutine so far: the visits, and the beginning of the present turn. -/
structure Trail (I : Interface) (P : Type) (σ : Type) where
  visits : List (Visit I P σ)
  point : P
  origin : σ
  reply : I.Answer

namespace Trail

variable (trail : Trail I P σ)

/-- The visits when the present turn ends. -/
def ended (last : σ) : List (Visit I P σ) := trail.visits ++ [⟨trail.point, trail.origin, trail.reply, last⟩]

/-- The trail when the coroutine waits, and goes on. -/
def next (last : σ) (point : P) (later : σ) (reply : I.Answer) : Trail I P σ :=
  ⟨trail.ended last, point, later, reply⟩

theorem ended_next (last : σ) (point : P) (later : σ) (reply : I.Answer) (final : σ) :
    (trail.next last point later reply).ended final = trail.ended last ++ [⟨point, later, reply, final⟩] :=
  rfl

end Trail

/-! ### Weakest preconditions -/

namespace Program

/-- Whatever the state and the reply are when the program goes on, as long as they are as `may` says, it ends
with the postcondition, or raises with the other one. -/
def wpTrail (may : P → σ → I.Answer → Prop) : Program I P σ α → (α → Trail I P σ → σ → Prop) →
    (I.Error → Trail I P σ → σ → Prop) → Trail I P σ → σ → Prop
  | .ret value, post, _, trail, state => post value trail state
  | .get next, post, raised, trail, state => (next state).wpTrail may post raised trail state
  | .set changed next, post, raised, trail, _ => next.wpTrail may post raised trail changed
  | .ask query next, post, raised, trail, state =>
    ∀ answer, I.admissible query answer = true → (next answer).wpTrail may post raised trail state
  | .wait point next, post, raised, trail, state =>
    ∀ later reply, may point later reply →
      (next reply).wpTrail may post raised (trail.next state point later reply) later
  | .fork _ next, post, raised, trail, state => next.wpTrail may post raised trail state
  | .fail error, _, raised, trail, state => raised error trail state

section Rules

variable {may : P → σ → I.Answer → Prop} {raised : I.Error → Trail I P σ → σ → Prop} {trail : Trail I P σ}
  {state : σ}

@[simp]
theorem wpTrail_pure {value : α} {post : α → Trail I P σ → σ → Prop} :
    (pure value : Program I P σ α).wpTrail may post raised trail state ↔ post value trail state :=
  Iff.rfl

theorem wpTrail_bind_eq {first : Program I P σ α} {rest : α → Program I P σ β}
    {post : β → Trail I P σ → σ → Prop} : (first.bind rest).wpTrail may post raised trail state ↔
      first.wpTrail may (fun value ↦ (rest value).wpTrail may post raised) raised trail state := by
  induction first generalizing trail state with
  | ret value => exact Iff.rfl
  | get next ih => exact ih state
  | set changed next ih => exact ih
  | ask query next ih => exact forall_congr' fun answer ↦ imp_congr_right fun _ ↦ ih answer
  | wait point next ih =>
    exact forall_congr' fun later ↦ forall_congr' fun reply ↦ imp_congr_right fun _ ↦ ih reply
  | fork point next ih => exact ih
  | fail error => exact Iff.rfl

@[simp]
theorem wpTrail_bind {first : Program I P σ α} {rest : α → Program I P σ β}
    {post : β → Trail I P σ → σ → Prop} : (first >>= rest).wpTrail may post raised trail state ↔
      first.wpTrail may (fun value ↦ (rest value).wpTrail may post raised) raised trail state :=
  wpTrail_bind_eq

@[simp]
theorem wpTrail_modifyState {change : σ → σ} {post : Unit → Trail I P σ → σ → Prop} :
    (modifyState change : Program I P σ Unit).wpTrail may post raised trail state ↔
      post () trail (change state) :=
  Iff.rfl

@[simp]
theorem wpTrail_await {point : P} {post : I.Answer → Trail I P σ → σ → Prop} :
    (await point : Program I P σ I.Answer).wpTrail may post raised trail state ↔
      ∀ later reply, may point later reply → post reply (trail.next state point later reply) later :=
  Iff.rfl

@[simp]
theorem wpTrail_await_bind {point : P} {rest : I.Answer → Program I P σ α} {post : α → Trail I P σ → σ → Prop} :
    (await point >>= rest : Program I P σ α).wpTrail may post raised trail state ↔
      ∀ later reply, may point later reply →
        (rest reply).wpTrail may post raised (trail.next state point later reply) later :=
  Iff.rfl

@[simp]
theorem wpTrail_fail {error : I.Error} {post : α → Trail I P σ → σ → Prop} :
    (fail error : Program I P σ α).wpTrail may post raised trail state ↔ raised error trail state :=
  Iff.rfl

theorem wpTrail_mono {program : Program I P σ α} {post post' : α → Trail I P σ → σ → Prop}
    {raised' : I.Error → Trail I P σ → σ → Prop}
    (hpost : ∀ value trail state, post value trail state → post' value trail state)
    (hraised : ∀ error trail state, raised error trail state → raised' error trail state)
    (h : program.wpTrail may post raised trail state) : program.wpTrail may post' raised' trail state := by
  induction program generalizing trail state with
  | ret value => exact hpost value trail state h
  | get next ih => exact ih state h
  | set changed next ih => exact ih h
  | ask query next ih => exact fun answer hanswer ↦ ih answer (h answer hanswer)
  | wait point next ih => exact fun later reply hmay ↦ ih reply (h later reply hmay)
  | fork point next ih => exact ih h
  | fail error => exact hraised error trail state h

@[simp]
theorem wpTrail_attempt {program : Program I P σ α} {post : Except I.Error α → Trail I P σ → σ → Prop} :
    program.attempt.wpTrail may post raised trail state ↔
      program.wpTrail may (fun value ↦ post (.ok value)) (fun error ↦ post (.error error)) trail state := by
  induction program generalizing trail state with
  | ret value => exact Iff.rfl
  | get next ih => exact ih state
  | set changed next ih => exact ih
  | ask query next ih => exact forall_congr' fun answer ↦ imp_congr_right fun _ ↦ ih answer
  | wait point next ih =>
    exact forall_congr' fun later ↦ forall_congr' fun reply ↦ imp_congr_right fun _ ↦ ih reply
  | fork point next ih => exact ih
  | fail error => exact Iff.rfl

end Rules

section Part

variable {P' τ : Type} {E : Embedding I P σ P' τ} {may : P' → τ → I.Answer → Prop}
  {raised : I.Error → Trail I P' τ → τ → Prop} {trail : Trail I P' τ} {whole : τ}

/-- The program of a part, as the whole runs it. -/
def wpTrailIn (E : Embedding I P σ P' τ) (may : P' → τ → I.Answer → Prop) (program : Program I P σ α)
    (post : α → Trail I P' τ → τ → Prop) (raised : I.Error → Trail I P' τ → τ → Prop) (trail : Trail I P' τ)
    (whole : τ) : Prop :=
  (program.embed E).wpTrail may post raised trail whole

@[simp]
theorem wpTrailIn_pure {value : α} {post : α → Trail I P' τ → τ → Prop} :
    (pure value : Program I P σ α).wpTrailIn E may post raised trail whole ↔ post value trail whole :=
  Iff.rfl

@[simp]
theorem wpTrailIn_bind {first : Program I P σ α} {rest : α → Program I P σ β}
    {post : β → Trail I P' τ → τ → Prop} : (first >>= rest).wpTrailIn E may post raised trail whole ↔
      first.wpTrailIn E may (fun value ↦ (rest value).wpTrailIn E may post raised) raised trail whole := by
  change ((first.bind rest).embed E).wpTrail may post raised trail whole ↔ _
  rw [embed_bind, wpTrail_bind_eq]
  rfl

@[simp]
theorem wpTrailIn_getState {post : σ → Trail I P' τ → τ → Prop} :
    (getState : Program I P σ σ).wpTrailIn E may post raised trail whole ↔ post (E.get whole) trail whole :=
  Iff.rfl

@[simp]
theorem wpTrailIn_modifyState {change : σ → σ} {post : Unit → Trail I P' τ → τ → Prop} :
    (modifyState change : Program I P σ Unit).wpTrailIn E may post raised trail whole ↔
      post () trail (E.put (change (E.get whole)) whole) :=
  Iff.rfl

@[simp]
theorem wpTrailIn_query {question : I.Query} {post : I.Answer → Trail I P' τ → τ → Prop} :
    (query question : Program I P σ I.Answer).wpTrailIn E may post raised trail whole ↔
      ∀ answer, I.admissible question answer = true → post answer trail whole :=
  Iff.rfl

@[simp]
theorem wpTrailIn_await {point : P} {post : I.Answer → Trail I P' τ → τ → Prop} :
    (await point : Program I P σ I.Answer).wpTrailIn E may post raised trail whole ↔
      (E.handle point).wpTrail may post raised trail whole := by
  change ((E.handle point).bind .ret).wpTrail may post raised trail whole ↔ _
  rw [bind_ret]

@[simp]
theorem wpTrailIn_fail {error : I.Error} {post : α → Trail I P' τ → τ → Prop} :
    (fail error : Program I P σ α).wpTrailIn E may post raised trail whole ↔ raised error trail whole :=
  Iff.rfl

theorem wpTrailIn_mono {program : Program I P σ α} {post post' : α → Trail I P' τ → τ → Prop}
    (hpost : ∀ value trail whole, post value trail whole → post' value trail whole)
    (h : program.wpTrailIn E may post raised trail whole) : program.wpTrailIn E may post' raised trail whole :=
  wpTrail_mono hpost (fun _ _ _ hraised ↦ hraised) h

/-- The loop rule: `inv` relates what is left of the list to the trail and the state. -/
theorem wpTrailIn_forEach (inv : List κ → Trail I P' τ → τ → Prop) {list : List κ} {body : κ → Program I P σ Unit}
    (hbody : ∀ head tail trail whole, inv (head :: tail) trail whole →
      (body head).wpTrailIn E may (fun _ ↦ inv tail) raised trail whole)
    (h : inv list trail whole) : (forEach list body).wpTrailIn E may (fun _ ↦ inv []) raised trail whole := by
  induction list generalizing trail whole with
  | nil => exact h
  | cons head tail ih =>
    rw [forEach_cons, wpTrailIn_bind]
    exact wpTrailIn_mono (fun _ _ _ hinv ↦ ih hinv) (hbody head tail trail whole h)

end Part

end Program

/-! ### Turns and runs -/

/-- A section of a program: it ends as the postconditions say, or waits, and goes on as they say. -/
theorem Program.wpTrail_exec {may : P → σ → I.Answer → Prop} {post : Unit → Trail I P σ → σ → Prop}
    {raised : I.Error → Trail I P σ → σ → Prop} {program : Program I P σ Unit} {trail : Trail I P σ} {state : σ}
    {answers : List I.Answer} {forks : List P} {outcome : Outcome I P σ}
    (h : program.wpTrail may post raised trail state) (hexec : program.exec state answers forks = some outcome) :
    match outcome.ending with
    | .done => post () trail outcome.state
    | .failed error => raised error trail outcome.state
    | .parked point next => ∀ later reply, may point later reply →
        (next reply).wpTrail may post raised (trail.next outcome.state point later reply) later := by
  induction program generalizing state answers forks with
  | ret value =>
    cases answers with
    | cons _ _ => cases hexec
    | nil =>
      obtain rfl := Option.some.inj hexec
      exact h
  | get next ih => exact ih state h hexec
  | set changed next ih => exact ih h hexec
  | ask query next ih =>
    cases answers with
    | nil => cases hexec
    | cons answer answers =>
      simp only [Program.exec] at hexec
      split_ifs at hexec with hanswer
      exact ih answer (h answer hanswer) hexec
  | wait point next ih =>
    cases answers with
    | cons _ _ => cases hexec
    | nil =>
      obtain rfl := Option.some.inj hexec
      exact h
  | fork point next ih => exact ih h hexec
  | fail error =>
    cases answers with
    | cons _ _ => cases hexec
    | nil =>
      obtain rfl := Option.some.inj hexec
      exact h

namespace System

variable {system : System I P σ} {may : P → σ → I.Answer → Prop} {post : Unit → Trail I P σ → σ → Prop}
  {raised : I.Error → Trail I P σ → σ → Prop}

/-- How a coroutine has ended: well with one postcondition, or with an error and the other one. -/
def Ended (post : Unit → Trail I P σ → σ → Prop) (raised : I.Error → Trail I P σ → σ → Prop)
    (turns : List (Turn I P σ)) : Prop :=
  ∃ trail state, trail.ended state = turns.map Turn.visit ∧
    ((∀ turn ∈ turns, turn.fails = false) ∧ post () trail state ∨
      (∃ turn ∈ turns, turn.fails = true) ∧ ∃ error, raised error trail state)

/-- A coroutine after some turns: it has ended, or has not failed and will end so whatever reply `may` come. -/
def Holds (may : P → σ → I.Answer → Prop) (post : Unit → Trail I P σ → σ → Prop)
    (raised : I.Error → Trail I P σ → σ → Prop) (turns : List (Turn I P σ)) : Option (Thread I P σ) → Prop
  | none => Ended post raised turns
  | some thread => (∀ turn ∈ turns, turn.fails = false) ∧ ∀ later reply, may thread.point later reply →
      (thread.next reply).wpTrail may post raised ⟨turns.map Turn.visit, thread.point, later, reply⟩ later

/-- A coroutine of a service, followed while its turns begin as `may` says: it has not failed as long as it
waits, and at its end the postconditions hold of its turns. -/
theorem trail_of_followAll {first : Configuration I P σ} {index : ℕ} {thread : Thread I P σ}
    (hthread : first.threads[index]? = some thread)
    (hholds : ∀ later reply, may thread.point later reply →
      (thread.next reply).wpTrail may post raised ⟨[], thread.point, later, reply⟩ later)
    {moves : List (Move I P)} {last : Followed I P σ}
    (hfollow : system.followAll (first.following index) moves = some last)
    (hmay : ∀ turn ∈ last.turns, may turn.point turn.origin turn.reply) (hended : last.thread = none) :
    Ended post raised last.turns := by
  have hgood := followAll_induction (fun turns rest ↦
    (∀ turn ∈ turns, may turn.point turn.origin turn.reply) → Holds may post raised turns rest)
    hthread (fun _ ↦ ⟨fun _ hturn ↦ absurd hturn List.not_mem_nil, hholds⟩) ?_ hfollow hmay
  · rw [hended] at hgood
    exact hgood
  · intro turns thread reached reply answers outcome hgood _ hexec hmay
    obtain ⟨hfails, hholds⟩ := hgood fun turn hturn ↦ hmay turn (List.mem_append_left _ hturn)
    have hnow := hholds reached.state reply (hmay _ (List.mem_append_right _ (List.mem_singleton_self _)))
    have hsection := Program.wpTrail_exec hnow hexec
    have hall : ∀ turn : Turn I P σ, turn.fails = false → ∀ other ∈ turns ++ [turn], other.fails = false := by
      intro turn hturn other hother
      rcases List.mem_append.mp hother with hold | hnew
      · exact hfails other hold
      · exact List.mem_singleton.mp hnew ▸ hturn
    cases hending : outcome.ending with
    | done =>
      rw [hending] at hsection
      rw [show rest outcome = none by rw [rest, hending]]
      refine ⟨_, _, ?_, .inl ⟨hall _ (by simp [Turn.fails, hending, failed]), hsection⟩⟩
      rw [List.map_append]
      rfl
    | failed error =>
      rw [hending] at hsection
      rw [show rest outcome = none by rw [rest, hending]]
      refine ⟨_, _, ?_, .inr ⟨⟨_, List.mem_append_right _ (List.mem_singleton_self _), ?_⟩, error, hsection⟩⟩
      · rw [List.map_append]
        rfl
      · simp [Turn.fails, hending, failed]
    | parked point next =>
      rw [hending] at hsection
      rw [show rest outcome = some ⟨point, next⟩ by rw [rest, hending]]
      refine ⟨hall _ (by simp [Turn.fails, hending, failed]), ?_⟩
      rw [List.map_append]
      exact hsection

end System

end SvrDemo.Coroutine
