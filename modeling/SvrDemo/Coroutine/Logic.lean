import SvrDemo.Coroutine.Program

/-!
# Rely and guarantee for cooperative programs

A program that waits resumes in a state that other coroutines have changed. A `Contract` says what
each waiting coroutine may rely on while it waits (`rely`, a relation between the state when it
stops and the state when it goes on), and what one section of it guarantees (`guar`, from the state
at the start of the section, the reply and the answers it heard, the coroutines it leaves waiting
and the state at its end).

`Program.wp` is the weakest precondition of a program under a contract, by recursion on the
program: at a wait the guarantee of the section that ends is due, and the rest has to hold from
every state the coroutine may rely on. `wp_exec` is its soundness for one section.

`System.Sound` is the rule for a whole service. An invariant relates the state to the list of
waiting points. If every section that keeps its guarantee preserves the invariant and respects
what the other waiting coroutines rely on, then the invariant holds in every configuration of
every run (`Sound.good_of_run`), and every move of a run that runs a section keeps the guarantee of
that section (`Sound.section_of_play`).
-/

set_option autoImplicit false
set_option relaxedAutoImplicit false

namespace SvrDemo.Coroutine

variable {I : Interface} {P σ α β κ : Type}

/-- What the coroutines of a service promise each other: `rely` while waiting at a point, `guar`
for a section that starts at a point, `pre` where a coroutine is started, and `err` for the errors
that may occur. -/
structure Contract (I : Interface) (P : Type) (σ : Type) where
  rely : P → σ → σ → Prop
  guar : P → σ → List I.Answer → List P → σ → Prop
  pre : P → σ → Prop
  err : I.Error → Prop

/-- The contract of coroutines that rely on nothing while they wait: what they know is in their points.
What they promise is the effect of each section. They are started at the points `starts`. -/
def Contract.stateless (starts : P → Prop) (guar : P → σ → List I.Answer → List P → σ → Prop) :
    Contract I P σ where
  rely := fun _ _ _ ↦ True
  guar := guar
  pre := fun point _ ↦ starts point
  err := fun _ ↦ True

/-- The section that runs: the point and the state at which it started, the reply and the answers
it has heard, and the coroutines it has started. -/
structure Section (I : Interface) (P : Type) (σ : Type) where
  point : P
  origin : σ
  heard : List I.Answer
  forks : List P

/-- What a section owes at its end when it leaves the coroutines `left` waiting. -/
def Contract.Ends (K : Contract I P σ) (current : Section I P σ) (left : List P) (state : σ) :
    Prop :=
  K.guar current.point current.origin current.heard left state ∧
    ∀ point ∈ current.forks, K.pre point state

namespace Program

/-- The weakest precondition of a program: `post` for its value, `raised` for its failure. -/
def wp (K : Contract I P σ) :
    Program I P σ α → (α → Section I P σ → σ → Prop) → (I.Error → Section I P σ → σ → Prop) →
      Section I P σ → σ → Prop
  | .ret value, post, _, current, state => post value current state
  | .get next, post, raised, current, state => (next state).wp K post raised current state
  | .set changed next, post, raised, current, _ => next.wp K post raised current changed
  | .ask query next, post, raised, current, state =>
    ∀ answer, I.admissible query answer = true →
      (next answer).wp K post raised { current with heard := current.heard ++ [answer] } state
  | .wait point next, post, raised, current, state =>
    K.Ends current (current.forks ++ [point]) state ∧
      ∀ reply later, K.rely point state later →
        (next reply).wp K post raised ⟨point, later, [reply], []⟩ later
  | .fork point next, post, raised, current, state =>
    next.wp K post raised { current with forks := current.forks ++ [point] } state
  | .fail error, _, raised, current, state => raised error current state

/-! ### Rules -/

section Rules

variable {K : Contract I P σ}

@[simp]
theorem wp_pure (value : α) (post : α → Section I P σ → σ → Prop)
    (raised : I.Error → Section I P σ → σ → Prop) (current : Section I P σ) (state : σ) :
    (pure value : Program I P σ α).wp K post raised current state ↔ post value current state :=
  Iff.rfl

/-- The composition rule. -/
theorem wp_bind_eq (first : Program I P σ α) (rest : α → Program I P σ β)
    (post : β → Section I P σ → σ → Prop) (raised : I.Error → Section I P σ → σ → Prop) :
    ∀ (current : Section I P σ) (state : σ), (first.bind rest).wp K post raised current state ↔
      first.wp K (fun value ↦ (rest value).wp K post raised) raised current state := by
  induction first with
  | ret value => intro current state; exact Iff.rfl
  | get next ih => intro current state; exact ih state current state
  | set changed next ih => intro current state; exact ih current changed
  | ask query next ih =>
    intro current state
    exact forall_congr' fun answer ↦ imp_congr_right fun _ ↦ ih answer _ state
  | wait point next ih =>
    intro current state
    refine and_congr_right fun _ ↦ forall_congr' fun reply ↦ forall_congr' fun later ↦ ?_
    exact imp_congr_right fun _ ↦ ih reply _ later
  | fork point next ih => intro current state; exact ih _ state
  | fail error => intro current state; exact Iff.rfl

@[simp]
theorem wp_bind (first : Program I P σ α) (rest : α → Program I P σ β)
    (post : β → Section I P σ → σ → Prop) (raised : I.Error → Section I P σ → σ → Prop)
    (current : Section I P σ) (state : σ) :
    (first >>= rest).wp K post raised current state ↔
      first.wp K (fun value ↦ (rest value).wp K post raised) raised current state :=
  wp_bind_eq first rest post raised current state

@[simp]
theorem wp_getState (post : σ → Section I P σ → σ → Prop)
    (raised : I.Error → Section I P σ → σ → Prop) (current : Section I P σ) (state : σ) :
    (getState : Program I P σ σ).wp K post raised current state ↔ post state current state :=
  Iff.rfl

@[simp]
theorem wp_modifyState (change : σ → σ) (post : Unit → Section I P σ → σ → Prop)
    (raised : I.Error → Section I P σ → σ → Prop) (current : Section I P σ) (state : σ) :
    (modifyState change : Program I P σ Unit).wp K post raised current state ↔
      post () current (change state) :=
  Iff.rfl

@[simp]
theorem wp_query (question : I.Query) (post : I.Answer → Section I P σ → σ → Prop)
    (raised : I.Error → Section I P σ → σ → Prop) (current : Section I P σ) (state : σ) :
    (query question : Program I P σ I.Answer).wp K post raised current state ↔
      ∀ answer, I.admissible question answer = true →
        post answer { current with heard := current.heard ++ [answer] } state :=
  Iff.rfl

@[simp]
theorem wp_await (point : P) (post : I.Answer → Section I P σ → σ → Prop)
    (raised : I.Error → Section I P σ → σ → Prop) (current : Section I P σ) (state : σ) :
    (await point : Program I P σ I.Answer).wp K post raised current state ↔
      K.Ends current (current.forks ++ [point]) state ∧
        ∀ reply later, K.rely point state later →
          post reply ⟨point, later, [reply], []⟩ later :=
  Iff.rfl

@[simp]
theorem wp_fail (error : I.Error) (post : α → Section I P σ → σ → Prop)
    (raised : I.Error → Section I P σ → σ → Prop) (current : Section I P σ) (state : σ) :
    (fail error : Program I P σ α).wp K post raised current state ↔ raised error current state :=
  Iff.rfl

/-- A failure that is caught is a value. -/
@[simp]
theorem wp_attempt (program : Program I P σ α) (post : Except I.Error α → Section I P σ → σ → Prop)
    (raised : I.Error → Section I P σ → σ → Prop) :
    ∀ (current : Section I P σ) (state : σ), program.attempt.wp K post raised current state ↔
      program.wp K (fun value ↦ post (.ok value)) (fun error ↦ post (.error error)) current
        state := by
  induction program with
  | ret value => intro current state; exact Iff.rfl
  | get next ih => intro current state; exact ih state current state
  | set changed next ih => intro current state; exact ih current changed
  | ask query next ih =>
    intro current state
    exact forall_congr' fun answer ↦ imp_congr_right fun _ ↦ ih answer _ state
  | wait point next ih =>
    intro current state
    refine and_congr_right fun _ ↦ forall_congr' fun reply ↦ forall_congr' fun later ↦ ?_
    exact imp_congr_right fun _ ↦ ih reply _ later
  | fork point next ih => intro current state; exact ih _ state
  | fail error => intro current state; exact Iff.rfl

/-- Weakest preconditions are monotone in both postconditions. -/
theorem wp_mono {program : Program I P σ α} {post post' : α → Section I P σ → σ → Prop}
    {raised raised' : I.Error → Section I P σ → σ → Prop}
    (hpost : ∀ value current state, post value current state → post' value current state)
    (hraised : ∀ error current state, raised error current state → raised' error current state) :
    ∀ {current : Section I P σ} {state : σ}, program.wp K post raised current state →
      program.wp K post' raised' current state := by
  induction program with
  | ret value => intro current state h; exact hpost value current state h
  | get next ih => intro current state h; exact ih state h
  | set changed next ih => intro current state h; exact ih h
  | ask query next ih => intro current state h answer hanswer; exact ih answer (h answer hanswer)
  | wait point next ih =>
    intro current state h
    exact ⟨h.1, fun reply later hrely ↦ ih reply (h.2 reply later hrely)⟩
  | fork point next ih => intro current state h; exact ih h
  | fail error => intro current state h; exact hraised error current state h

end Rules

/-! ### Rules for a part inside a whole -/

section Part

variable {P' τ : Type} {E : Embedding I P σ P' τ} {K : Contract I P' τ}

theorem bind_ret (program : Program I P σ α) : program.bind .ret = program := by
  induction program with
  | ret value => rfl
  | get next ih => exact congrArg Program.get (funext ih)
  | set changed next ih => exact congrArg (Program.set changed) ih
  | ask query next ih => exact congrArg (Program.ask query) (funext ih)
  | wait point next ih => exact congrArg (Program.wait point) (funext ih)
  | fork point next ih => exact congrArg (Program.fork point) ih
  | fail error => rfl

theorem bind_assoc (first : Program I P σ α) (second : α → Program I P σ β)
    (third : β → Program I P σ κ) :
    (first.bind second).bind third = first.bind fun value ↦ (second value).bind third := by
  induction first with
  | ret value => rfl
  | get next ih => exact congrArg Program.get (funext ih)
  | set changed next ih => exact congrArg (Program.set changed) ih
  | ask query next ih => exact congrArg (Program.ask query) (funext ih)
  | wait point next ih => exact congrArg (Program.wait point) (funext ih)
  | fork point next ih => exact congrArg (Program.fork point) ih
  | fail error => rfl

/-- An embedding respects composition. -/
theorem embed_bind (E : Embedding I P σ P' τ) (first : Program I P σ α)
    (rest : α → Program I P σ β) :
    (first.bind rest).embed E = (first.embed E).bind fun value ↦ (rest value).embed E := by
  induction first with
  | ret value => rfl
  | get next ih => exact congrArg Program.get (funext fun whole ↦ ih (E.get whole))
  | set changed next ih => exact congrArg Program.get (funext fun _ ↦ congrArg _ ih)
  | ask query next ih => exact congrArg (Program.ask query) (funext ih)
  | wait point next ih =>
    calc (E.handle point).bind (fun reply ↦ ((next reply).bind rest).embed E)
        = (E.handle point).bind fun reply ↦
            ((next reply).embed E).bind fun value ↦ (rest value).embed E := by simp only [ih]
      _ = _ := (bind_assoc _ _ _).symm
  | fork point next ih => exact congrArg (Program.fork (E.fork point)) ih
  | fail error => rfl

/-- The weakest precondition of the program of a part, as the whole runs it. -/
def wpIn (E : Embedding I P σ P' τ) (K : Contract I P' τ) (program : Program I P σ α)
    (post : α → Section I P' τ → τ → Prop) (raised : I.Error → Section I P' τ → τ → Prop)
    (current : Section I P' τ) (whole : τ) : Prop :=
  (program.embed E).wp K post raised current whole

@[simp]
theorem wpIn_pure (value : α) (post : α → Section I P' τ → τ → Prop)
    (raised : I.Error → Section I P' τ → τ → Prop) (current : Section I P' τ) (whole : τ) :
    (pure value : Program I P σ α).wpIn E K post raised current whole ↔ post value current whole :=
  Iff.rfl

theorem wpIn_bind_eq (first : Program I P σ α) (rest : α → Program I P σ β)
    (post : β → Section I P' τ → τ → Prop) (raised : I.Error → Section I P' τ → τ → Prop)
    (current : Section I P' τ) (whole : τ) :
    (first.bind rest).wpIn E K post raised current whole ↔
      first.wpIn E K (fun value ↦ (rest value).wpIn E K post raised) raised current whole := by
  unfold wpIn
  rw [embed_bind, wp_bind_eq]

@[simp]
theorem wpIn_bind (first : Program I P σ α) (rest : α → Program I P σ β)
    (post : β → Section I P' τ → τ → Prop) (raised : I.Error → Section I P' τ → τ → Prop)
    (current : Section I P' τ) (whole : τ) :
    (first >>= rest).wpIn E K post raised current whole ↔
      first.wpIn E K (fun value ↦ (rest value).wpIn E K post raised) raised current whole :=
  wpIn_bind_eq first rest post raised current whole

@[simp]
theorem wpIn_getState (post : σ → Section I P' τ → τ → Prop)
    (raised : I.Error → Section I P' τ → τ → Prop) (current : Section I P' τ) (whole : τ) :
    (getState : Program I P σ σ).wpIn E K post raised current whole ↔
      post (E.get whole) current whole :=
  Iff.rfl

@[simp]
theorem wpIn_modifyState (change : σ → σ) (post : Unit → Section I P' τ → τ → Prop)
    (raised : I.Error → Section I P' τ → τ → Prop) (current : Section I P' τ) (whole : τ) :
    (modifyState change : Program I P σ Unit).wpIn E K post raised current whole ↔
      post () current (E.put (change (E.get whole)) whole) :=
  Iff.rfl

@[simp]
theorem wpIn_query (question : I.Query) (post : I.Answer → Section I P' τ → τ → Prop)
    (raised : I.Error → Section I P' τ → τ → Prop) (current : Section I P' τ) (whole : τ) :
    (query question : Program I P σ I.Answer).wpIn E K post raised current whole ↔
      ∀ answer, I.admissible question answer = true →
        post answer { current with heard := current.heard ++ [answer] } whole :=
  Iff.rfl

/-- A part that waits does what the whole does there. -/
@[simp]
theorem wpIn_await (point : P) (post : I.Answer → Section I P' τ → τ → Prop)
    (raised : I.Error → Section I P' τ → τ → Prop) (current : Section I P' τ) (whole : τ) :
    (await point : Program I P σ I.Answer).wpIn E K post raised current whole ↔
      (E.handle point).wp K post raised current whole := by
  change ((E.handle point).bind .ret).wp K post raised current whole ↔ _
  rw [bind_ret]

@[simp]
theorem wpIn_spawn (point : P) (post : Unit → Section I P' τ → τ → Prop)
    (raised : I.Error → Section I P' τ → τ → Prop) (current : Section I P' τ) (whole : τ) :
    (spawn point : Program I P σ Unit).wpIn E K post raised current whole ↔
      post () { current with forks := current.forks ++ [E.fork point] } whole :=
  Iff.rfl

@[simp]
theorem wpIn_fail (error : I.Error) (post : α → Section I P' τ → τ → Prop)
    (raised : I.Error → Section I P' τ → τ → Prop) (current : Section I P' τ) (whole : τ) :
    (fail error : Program I P σ α).wpIn E K post raised current whole ↔
      raised error current whole :=
  Iff.rfl

/-- A change that may fail: the changed state on success, the error and the state it leaves on
failure. -/
theorem wpIn_tryModify (change : σ → Except (I.Error × σ) σ)
    (post : Unit → Section I P' τ → τ → Prop) (raised : I.Error → Section I P' τ → τ → Prop)
    (current : Section I P' τ) (whole : τ) :
    (tryModify change : Program I P σ Unit).wpIn E K post raised current whole ↔
      (∀ changed, change (E.get whole) = .ok changed → post () current (E.put changed whole)) ∧
        ∀ error changed, change (E.get whole) = .error (error, changed) →
          raised error current (E.put changed whole) := by
  unfold wpIn tryModify
  simp only [embed, wp]
  cases change (E.get whole) with
  | ok changed => simp [embed, wp]
  | error failure => obtain ⟨error, changed⟩ := failure; simp [embed, wp]

/-- A failure that is caught is a value, when the whole never fails where the part waits. -/
theorem wpIn_attempt
    (hsafe : ∀ point post raised raised' current whole,
      (E.handle point).wp K post raised current whole → (E.handle point).wp K post raised' current whole)
    (program : Program I P σ α) (post : Except I.Error α → Section I P' τ → τ → Prop)
    (raised : I.Error → Section I P' τ → τ → Prop) :
    ∀ (current : Section I P' τ) (whole : τ), program.attempt.wpIn E K post raised current whole ↔
      program.wpIn E K (fun value ↦ post (.ok value)) (fun error ↦ post (.error error)) current
        whole := by
  induction program with
  | ret value => intro current whole; exact Iff.rfl
  | get next ih => intro current whole; exact ih (E.get whole) current whole
  | set changed next ih => intro current whole; exact ih current (E.put changed whole)
  | ask query next ih =>
    intro current whole
    exact forall_congr' fun answer ↦ imp_congr_right fun _ ↦ ih answer _ whole
  | wait point next ih =>
    intro current whole
    refine (wp_bind_eq _ _ _ _ _ _).trans (Iff.trans ?_ (wp_bind_eq _ _ _ _ _ _).symm)
    constructor
    · intro h
      refine hsafe _ _ raised _ _ _ (wp_mono (fun reply current whole h ↦ ?_) (fun _ _ _ h ↦ h) h)
      exact (ih reply current whole).mp h
    · intro h
      have h := hsafe _ _ _ raised _ _ h
      exact wp_mono (fun reply current whole h ↦ (ih reply current whole).mpr h) (fun _ _ _ h ↦ h) h
  | fork point next ih => intro current whole; exact ih _ whole
  | fail error => intro current whole; exact Iff.rfl

theorem wpIn_mono {program : Program I P σ α} {post post' : α → Section I P' τ → τ → Prop}
    {raised raised' : I.Error → Section I P' τ → τ → Prop}
    (hpost : ∀ value current whole, post value current whole → post' value current whole)
    (hraised : ∀ error current whole, raised error current whole → raised' error current whole)
    {current : Section I P' τ} {whole : τ} (h : program.wpIn E K post raised current whole) :
    program.wpIn E K post' raised' current whole :=
  wp_mono hpost hraised h

/-- The composition rule, with the assertion between the parts that the first part establishes. -/
theorem wpIn_seq {first : Program I P σ α} {rest : α → Program I P σ β}
    {middle : α → Section I P' τ → τ → Prop} {post : β → Section I P' τ → τ → Prop}
    {raised : I.Error → Section I P' τ → τ → Prop} {current : Section I P' τ} {whole : τ}
    (hfirst : first.wpIn E K middle raised current whole)
    (hrest : ∀ value current whole, middle value current whole →
      (rest value).wpIn E K post raised current whole) :
    (first >>= rest).wpIn E K post raised current whole :=
  (wpIn_bind first rest post raised current whole).mpr
    (wpIn_mono hrest (fun _ _ _ hraised ↦ hraised) hfirst)

/-- The composition rule with an assertion for the place between the parts. -/
theorem wpIn_seq_at (middle : α → Section I P' τ → τ → Prop) {first : Program I P σ α}
    {rest : α → Program I P σ β} {post : β → Section I P' τ → τ → Prop}
    {raised : I.Error → Section I P' τ → τ → Prop} {current : Section I P' τ} {whole : τ}
    (hfirst : first.wpIn E K middle raised current whole)
    (hrest : ∀ value current whole, middle value current whole →
      (rest value).wpIn E K post raised current whole) :
    (first >>= rest).wpIn E K post raised current whole :=
  wpIn_seq hfirst hrest

/-- The loop rule: `inv` relates what is left of the list to the state, and every turn of the
loop moves it one element forward. -/
theorem wpIn_forEach (inv : List κ → Section I P' τ → τ → Prop) {list : List κ}
    {body : κ → Program I P σ Unit} {post : Unit → Section I P' τ → τ → Prop}
    {raised : I.Error → Section I P' τ → τ → Prop}
    (hbody : ∀ head tail current whole, inv (head :: tail) current whole →
      (body head).wpIn E K (fun _ ↦ inv tail) raised current whole)
    (hpost : ∀ current whole, inv [] current whole → post () current whole) :
    ∀ {current : Section I P' τ} {whole : τ}, inv list current whole →
      (forEach list body).wpIn E K post raised current whole := by
  induction list with
  | nil => intro current whole h; exact hpost current whole h
  | cons head tail ih =>
    intro current whole h
    rw [forEach, wpIn_bind_eq]
    exact wpIn_mono (fun _ _ _ hinv ↦ ih hinv) (fun _ _ _ hraised ↦ hraised)
      (hbody head tail current whole h)

/-- The loop rule with an accumulator. -/
theorem wpIn_foldlM (inv : List κ → β → Section I P' τ → τ → Prop) {list : List κ}
    {body : β → κ → Program I P σ β} {post : β → Section I P' τ → τ → Prop}
    {raised : I.Error → Section I P' τ → τ → Prop}
    (hbody : ∀ head tail acc current whole, inv (head :: tail) acc current whole →
      (body acc head).wpIn E K (fun next ↦ inv tail next) raised current whole)
    (hpost : ∀ acc current whole, inv [] acc current whole → post acc current whole) :
    ∀ {acc : β} {current : Section I P' τ} {whole : τ}, inv list acc current whole →
      (list.foldlM body acc).wpIn E K post raised current whole := by
  induction list with
  | nil => intro acc current whole h; exact hpost acc current whole h
  | cons head tail ih =>
    intro acc current whole h
    rw [List.foldlM_cons, wpIn_bind]
    exact wpIn_mono (fun _ _ _ hinv ↦ ih hinv) (fun _ _ _ hraised ↦ hraised)
      (hbody head tail acc current whole h)

/-! A part that is the whole looks at its own state. -/

@[simp]
theorem wpIn_relabel_getState_bind {via : P → P'} {K : Contract I P' σ} (rest : σ → Program I P σ β)
    (post : β → Section I P' σ → σ → Prop) (raised : I.Error → Section I P' σ → σ → Prop)
    (current : Section I P' σ) (state : σ) :
    (getState >>= rest : Program I P σ β).wpIn (.relabel via) K post raised current state ↔
      (rest state).wpIn (.relabel via) K post raised current state :=
  Iff.rfl

@[simp]
theorem wpIn_relabel_modifyState_bind {via : P → P'} {K : Contract I P' σ} (change : σ → σ)
    (rest : Unit → Program I P σ β) (post : β → Section I P' σ → σ → Prop)
    (raised : I.Error → Section I P' σ → σ → Prop) (current : Section I P' σ) (state : σ) :
    (modifyState change >>= rest : Program I P σ β).wpIn (.relabel via) K post raised current
        state ↔
      (rest ()).wpIn (.relabel via) K post raised current (change state) :=
  Iff.rfl

@[simp]
theorem wpIn_relabel_modifyState {via : P → P'} {K : Contract I P' σ} (change : σ → σ)
    (post : Unit → Section I P' σ → σ → Prop) (raised : I.Error → Section I P' σ → σ → Prop)
    (current : Section I P' σ) (state : σ) :
    (modifyState change : Program I P σ Unit).wpIn (.relabel via) K post raised current state ↔
      post () current (change state) :=
  Iff.rfl

@[simp]
theorem wpIn_relabel_await {via : P → P'} {K : Contract I P' σ} (point : P)
    (post : I.Answer → Section I P' σ → σ → Prop) (raised : I.Error → Section I P' σ → σ → Prop)
    (current : Section I P' σ) (state : σ) :
    (await point : Program I P σ I.Answer).wpIn (.relabel via) K post raised current state ↔
      K.Ends current (current.forks ++ [via point]) state ∧
        ∀ reply later, K.rely (via point) state later →
          post reply ⟨via point, later, [reply], []⟩ later :=
  Iff.rfl

end Part

end Program

/-! ### Soundness for one section -/

/-- What a coroutine owes when it is finished. -/
def Contract.done (K : Contract I P σ) (_ : Unit) (current : Section I P σ) (state : σ) : Prop :=
  K.Ends current current.forks state

/-- What a coroutine owes when it fails. -/
def Contract.raised (K : Contract I P σ) (error : I.Error) (current : Section I P σ) (state : σ) :
    Prop :=
  K.err error ∧ K.Ends current current.forks state

/-- A program keeps the contract from a state on: to its end it owes the guarantees. -/
abbrev Contract.Keeps (K : Contract I P σ) (program : Program I P σ Unit) (current : Section I P σ)
    (state : σ) : Prop :=
  program.wp K K.done K.raised current state

/-- A waiting coroutine keeps the contract from every state it may rely on. -/
def Contract.Waits (K : Contract I P σ) (thread : Thread I P σ) (state : σ) : Prop :=
  ∀ reply later, K.rely thread.point state later →
    K.Keeps (thread.next reply) ⟨thread.point, later, [reply], []⟩ later

/-- The point at which a section leaves its own coroutine waiting. -/
def Ending.points : Ending I P σ → List P
  | .parked point _ => [point]
  | _ => []

/-- Soundness of weakest preconditions for one section: it keeps its guarantee, what it starts
meets its precondition, what it leaves waiting keeps the contract, and its error is expected. -/
theorem Program.wp_exec {K : Contract I P σ} (program : Program I P σ Unit) :
    ∀ (current : Section I P σ) (state : σ) (answers : List I.Answer) (outcome : Outcome I P σ),
      K.Keeps program current state → program.exec state answers current.forks = some outcome →
        K.guar current.point current.origin (current.heard ++ answers)
            (outcome.forks ++ outcome.ending.points) outcome.state ∧
          (∀ point ∈ outcome.forks, K.pre point outcome.state) ∧
          (∀ thread ∈ System.parked outcome.ending, K.Waits thread outcome.state) ∧
          ∀ error ∈ System.failed outcome.ending, K.err error := by
  induction program with
  | ret value =>
    intro current state answers outcome hkeeps hexec
    cases answers with
    | cons _ _ => cases hexec
    | nil =>
      obtain rfl := Option.some.inj hexec
      have hends : K.Ends current current.forks state := hkeeps
      exact ⟨by simpa [Ending.points] using hends.1, hends.2, by simp [System.parked],
        by simp [System.failed]⟩
  | get next ih =>
    intro current state answers outcome hkeeps hexec
    exact ih state current state answers outcome hkeeps hexec
  | set changed next ih =>
    intro current state answers outcome hkeeps hexec
    exact ih current changed answers outcome hkeeps hexec
  | ask query next ih =>
    intro current state answers outcome hkeeps hexec
    cases answers with
    | nil => cases hexec
    | cons answer answers =>
      simp only [Program.exec] at hexec
      split_ifs at hexec with hadmissible
      have hrest := ih answer { current with heard := current.heard ++ [answer] } state answers
        outcome (hkeeps answer hadmissible) hexec
      simpa using hrest
  | wait point next ih =>
    intro current state answers outcome hkeeps hexec
    cases answers with
    | cons _ _ => cases hexec
    | nil =>
      obtain rfl := Option.some.inj hexec
      refine ⟨by simpa [Ending.points] using hkeeps.1.1, hkeeps.1.2, ?_, by simp [System.failed]⟩
      intro thread hthread
      obtain rfl := List.mem_singleton.mp hthread
      exact hkeeps.2
  | fork point next ih =>
    intro current state answers outcome hkeeps hexec
    exact ih { current with forks := current.forks ++ [point] } state answers outcome hkeeps hexec
  | fail error =>
    intro current state answers outcome hkeeps hexec
    cases answers with
    | cons _ _ => cases hexec
    | nil =>
      obtain rfl := Option.some.inj hexec
      obtain ⟨herr, hends⟩ : K.err error ∧ K.Ends current current.forks state := hkeeps
      exact ⟨by simpa [Ending.points] using hends.1, hends.2, by simp [System.parked],
        by simpa [System.failed] using herr⟩

/-! ### Two contracts at once -/

/-- The contract that asks what both ask. -/
def Contract.and (K L : Contract I P σ) : Contract I P σ where
  rely := fun point first last ↦ K.rely point first last ∧ L.rely point first last
  guar := fun point origin heard left last ↦ K.guar point origin heard left last ∧
    L.guar point origin heard left last
  pre := fun point state ↦ K.pre point state ∧ L.pre point state
  err := fun error ↦ K.err error ∧ L.err error

theorem Contract.Ends.and {K L : Contract I P σ} {current : Section I P σ} {left : List P} {state : σ}
    (h : K.Ends current left state) (h' : L.Ends current left state) : (K.and L).Ends current left state :=
  ⟨⟨h.1, h'.1⟩, fun point hpoint ↦ ⟨h.2 point hpoint, h'.2 point hpoint⟩⟩

/-- A program that is shown to be right under two contracts is right under both. -/
theorem Program.wp_and {K L : Contract I P σ} {program : Program I P σ α}
    {post post' : α → Section I P σ → σ → Prop} {raised raised' : I.Error → Section I P σ → σ → Prop} :
    ∀ {current : Section I P σ} {state : σ}, program.wp K post raised current state →
      program.wp L post' raised' current state →
      program.wp (K.and L) (fun value current state ↦ post value current state ∧ post' value current state)
        (fun error current state ↦ raised error current state ∧ raised' error current state) current state := by
  induction program with
  | ret value => intro current state h h'; exact ⟨h, h'⟩
  | get next ih => intro current state h h'; exact ih state h h'
  | set changed next ih => intro current state h h'; exact ih h h'
  | ask query next ih =>
    intro current state h h' answer hanswer
    exact ih answer (h answer hanswer) (h' answer hanswer)
  | wait point next ih =>
    intro current state h h'
    exact ⟨h.1.and h'.1, fun reply later hrely ↦ ih reply (h.2 reply later hrely.1) (h'.2 reply later hrely.2)⟩
  | fork point next ih => intro current state h h'; exact ih h h'
  | fail error => intro current state h h'; exact ⟨h, h'⟩

theorem Contract.Keeps.and {K L : Contract I P σ} {program : Program I P σ Unit} {current : Section I P σ}
    {state : σ} (h : K.Keeps program current state) (h' : L.Keeps program current state) :
    (K.and L).Keeps program current state :=
  Program.wp_mono (fun _ _ _ h ↦ h.1.and h.2) (fun _ _ _ h ↦ ⟨⟨h.1.1, h.2.1⟩, h.1.2.and h.2.2⟩)
    (Program.wp_and h h')

/-! ### Coroutines that wait alone -/

/-- When at most one coroutine waits at a point of some kind and one does, the others wait elsewhere. -/
theorem alone_of_single {kind : P → Bool} {before after : List P} {point : P}
    (hsingle : ((before ++ point :: after).filter kind).length ≤ 1) (hpoint : kind point = true) :
    ∀ other ∈ before ++ after, kind other = false := by
  rw [List.filter_append, List.filter_cons_of_pos hpoint, List.length_append,
    List.length_cons] at hsingle
  have hnone : (before ++ after).filter kind = [] := by
    rw [List.filter_append, ← List.length_eq_zero_iff, List.length_append]
    omega
  intro other hother
  simpa using List.filter_eq_nil_iff.mp hnone other hother

/-- Where no other coroutine waits at a point of some kind, a section may leave one there. -/
theorem single_of_alone {kind : P → Bool} {before after : List P} (point : P)
    (halone : ∀ other ∈ before ++ after, kind other = false) :
    ((before ++ [point] ++ after).filter kind).length ≤ 1 := by
  have hbefore : before.filter kind = [] :=
    List.filter_eq_nil_iff.mpr fun other hother ↦ by simp [halone other (List.mem_append_left _ hother)]
  have hafter : after.filter kind = [] :=
    List.filter_eq_nil_iff.mpr fun other hother ↦ by simp [halone other (List.mem_append_right _ hother)]
  rw [List.filter_append, List.filter_append, hbefore, hafter, List.append_nil, List.nil_append]
  exact List.length_filter_le kind [point]

/-- A section that leaves no coroutine at a point of some kind leaves no more of them than there were. -/
theorem length_filter_left_le {kind : P → Bool} {before left after : List P} (point : P)
    (hleft : ∀ other ∈ left, kind other = false) :
    ((before ++ left ++ after).filter kind).length ≤ ((before ++ point :: after).filter kind).length := by
  have hnone : left.filter kind = [] :=
    List.filter_eq_nil_iff.mpr fun other hother ↦ by simp [hleft other hother]
  have hafter : (after.filter kind).length ≤ ((point :: after).filter kind).length :=
    ((List.sublist_cons_self point after).filter kind).length_le
  rw [List.filter_append, List.filter_append, List.filter_append, hnone, List.append_nil,
    List.length_append, List.length_append]
  omega

/-- After a section, a coroutine waits where the section left it or where it waited before. -/
theorem mem_of_left {before left after : List P} {point other : P} (h : other ∈ before ++ left ++ after) :
    other ∈ left ∨ other ∈ before ++ point :: after := by
  simp only [List.mem_append, List.mem_cons] at h ⊢
  tauto

/-! ### Soundness for a service -/

/-- What has to be shown of a service for an invariant of its state and its waiting points. The
condition restricts the moves, as in `System.Run`. -/
structure System.Sound (system : System I P σ) (K : Contract I P σ)
    (inv : σ → List P → Prop) (condition : Configuration I P σ → Move I P → Prop) : Prop where
  rely_refl : ∀ point state, K.rely point state state
  rely_trans : ∀ point first middle last, K.rely point first middle → K.rely point middle last →
    K.rely point first last
  pre_rely : ∀ point first last, K.pre point first → K.rely point first last → K.pre point last
  entry : ∀ point reply state, K.pre point state →
    K.Keeps (system.entry point) ⟨point, state, [reply], []⟩ state
  arrive : ∀ configuration point, condition configuration (.arrive point) →
    system.arrives point = true → inv configuration.state configuration.points →
      inv configuration.state (configuration.points ++ [point]) ∧
        K.pre point configuration.state
  step : ∀ configuration before point after reply answers left last,
    condition configuration (.resume before.length reply answers) →
    configuration.points = before ++ point :: after →
    inv configuration.state configuration.points →
    K.guar point configuration.state (reply :: answers) left last →
      inv last (before ++ left ++ after) ∧
        ∀ other ∈ before ++ after, K.rely other configuration.state last

namespace System

variable {system : System I P σ} {K : Contract I P σ} {inv : σ → List P → Prop}
  {condition : Configuration I P σ → Move I P → Prop}

/-- The configurations in which an invariant holds and every coroutine keeps the contract. -/
structure Good (K : Contract I P σ) (inv : σ → List P → Prop)
    (configuration : Configuration I P σ) : Prop where
  holds : inv configuration.state configuration.points
  waits : ∀ thread ∈ configuration.threads, K.Waits thread configuration.state
  errors : ∀ error ∈ configuration.errors, K.err error

/-- A waiting coroutine goes on waiting when the state changes as it may rely on. -/
theorem Sound.waits_rely (sound : system.Sound K inv condition) {thread : Thread I P σ}
    {first last : σ} (hwaits : K.Waits thread first) (hrely : K.rely thread.point first last) :
    K.Waits thread last := fun reply later hlater ↦
  hwaits reply later (sound.rely_trans _ _ _ _ hrely hlater)

/-- A coroutine that is started in a state that meets its precondition keeps the contract. -/
theorem Sound.waits_start (sound : system.Sound K inv condition) {point : P} {state : σ}
    (hpre : K.pre point state) : K.Waits (system.start point) state := fun reply later hrely ↦
  sound.entry point reply later (sound.pre_rely _ _ _ hpre hrely)

/-- The points at which a section leaves coroutines waiting. -/
theorem points_leaves (system : System I P σ) (outcome : Outcome I P σ) :
    (system.leaves outcome).map Thread.point = outcome.forks ++ outcome.ending.points := by
  have hstart : (Thread.point ∘ system.start) = id := rfl
  cases hending : outcome.ending <;>
    simp [leaves, parked, Ending.points, hending, hstart]

/-- A move that resumes a coroutine keeps the guarantee of the section it runs. -/
theorem Sound.section_of_play (sound : system.Sound K inv condition)
    {first last : Configuration I P σ} {index : ℕ} {reply : I.Answer} {answers : List I.Answer}
    (hgood : Good K inv first)
    (hplay : system.play first (.resume index reply answers) = some last) :
    ∃ before point after left, first.points = before ++ point :: after ∧
      before.length = index ∧ last.points = before ++ left ++ after ∧
      K.guar point first.state (reply :: answers) left last.state := by
  simp only [play] at hplay
  split at hplay
  · exact nomatch hplay
  rename_i thread hthread
  split at hplay
  · exact nomatch hplay
  rename_i outcome hexec
  obtain rfl := Option.some.inj hplay
  have hmem : thread ∈ first.threads := List.mem_of_getElem? hthread
  have hkeeps := hgood.waits thread hmem reply first.state
    (sound.rely_refl thread.point first.state)
  have hsection := Program.wp_exec _ _ _ _ _ hkeeps hexec
  obtain ⟨hlength, hget⟩ := List.getElem?_eq_some_iff.mp hthread
  refine ⟨(first.threads.take index).map Thread.point, thread.point,
    (first.threads.drop (index + 1)).map Thread.point, outcome.forks ++ outcome.ending.points,
    ?_, ?_, ?_, hsection.1⟩
  · rw [Configuration.points, ← List.map_cons, ← List.map_append, ← hget,
      List.getElem_cons_drop, List.take_append_drop]
  · simp [Nat.le_of_lt hlength]
  · simp [Configuration.points, ← points_leaves system outcome]

/-- One move of a service keeps its configuration good. -/
theorem Sound.good_of_play (sound : system.Sound K inv condition)
    {first last : Configuration I P σ} {move : Move I P} (hgood : Good K inv first)
    (hmeets : condition first move) (hplay : system.play first move = some last) :
    Good K inv last := by
  cases move with
  | arrive point =>
    simp only [play] at hplay
    split_ifs at hplay with harrives
    obtain rfl := Option.some.inj hplay
    obtain ⟨hinv, hpre⟩ := sound.arrive first point hmeets harrives hgood.holds
    refine ⟨by simpa [Configuration.points, start] using hinv, ?_, hgood.errors⟩
    intro thread hthread
    rcases List.mem_append.mp hthread with hold | hnew
    · exact hgood.waits thread hold
    · obtain rfl := List.mem_singleton.mp hnew
      exact sound.waits_start hpre
  | resume index reply answers =>
    obtain ⟨before, point, after, left, hpoints, hindex, hlast, hguar⟩ :=
      sound.section_of_play hgood hplay
    subst hindex
    have hstep := sound.step first before point after reply answers left last.state hmeets hpoints
      hgood.holds hguar
    -- the section is opened a second time for the coroutines it leaves
    simp only [play] at hplay
    split at hplay
    · exact nomatch hplay
    rename_i thread hthread
    split at hplay
    · exact nomatch hplay
    rename_i outcome hexec
    obtain rfl := Option.some.inj hplay
    have hkeeps := hgood.waits thread (List.mem_of_getElem? hthread) reply first.state
      (sound.rely_refl thread.point first.state)
    obtain ⟨-, hforks, hparked, herrors⟩ := Program.wp_exec _ _ _ _ _ hkeeps hexec
    have hothers : ∀ other ∈ first.threads.take before.length ++
        first.threads.drop (before.length + 1), K.Waits other outcome.state := by
      intro other hother
      have hpoint : other.point ∈ before ++ after := by
        have hsplit : before ++ after = (first.threads.take before.length ++
            first.threads.drop (before.length + 1)).map Thread.point := by
          have hmap : first.threads.map Thread.point = before ++ point :: after := hpoints
          rw [List.map_append, List.map_take, List.map_drop, hmap]
          simp
        rw [hsplit]
        exact List.mem_map_of_mem hother
      refine sound.waits_rely (hgood.waits other ?_) (hstep.2 other.point hpoint)
      rcases List.mem_append.mp hother with hleft | hright
      · exact List.mem_of_mem_take hleft
      · exact List.mem_of_mem_drop hright
    refine ⟨hlast ▸ hstep.1, ?_, ?_⟩
    · intro other hother
      simp only [leaves, List.mem_append, List.mem_map] at hother
      rcases hother with (hleft | ⟨fork, hfork, rfl⟩ | hparkedMem) | hright
      · exact hothers other (List.mem_append_left _ hleft)
      · exact sound.waits_start (hforks fork hfork)
      · exact hparked other hparkedMem
      · exact hothers other (List.mem_append_right _ hright)
    · intro error herror
      rcases List.mem_append.mp herror with hold | hnew
      · exact hgood.errors error hold
      · exact herrors error hnew

/-- A whole run keeps the configuration good. -/
theorem Sound.good_of_run (sound : system.Sound K inv condition) {first last : Configuration I P σ}
    (hgood : Good K inv first) (hrun : system.Run condition first last) : Good K inv last := by
  induction hrun with
  | refl => exact hgood
  | snoc _ hmeets hplay ih => exact sound.good_of_play ih hmeets hplay

/-- A further invariant, which every move keeps in the good configurations, holds along the runs. -/
theorem Sound.holds_of_run (sound : system.Sound K inv condition) {more : σ → List P → Prop}
    {condition' : Configuration I P σ → Move I P → Prop}
    (hcondition : ∀ configuration move, condition' configuration move → condition configuration move)
    (harrive : ∀ configuration point, condition' configuration (.arrive point) →
      system.arrives point = true → more configuration.state configuration.points →
        more configuration.state (configuration.points ++ [point]))
    (hstep : ∀ configuration before point after reply answers left last,
      condition' configuration (.resume before.length reply answers) →
      configuration.points = before ++ point :: after →
      inv configuration.state configuration.points → more configuration.state configuration.points →
      K.guar point configuration.state (reply :: answers) left last → more last (before ++ left ++ after))
    {first last : Configuration I P σ} (hgood : Good K inv first)
    (hfirst : more first.state first.points) (hrun : system.Run condition' first last) :
    Good K inv last ∧ more last.state last.points := by
  induction hrun with
  | refl => exact ⟨hgood, hfirst⟩
  | snoc _ hmeets hplay ih =>
    obtain ⟨hgood, hmore⟩ := ih
    refine ⟨sound.good_of_play hgood (hcondition _ _ hmeets) hplay, ?_⟩
    rename_i middle next move _
    cases move with
    | arrive point =>
      simp only [play] at hplay
      split_ifs at hplay with harrives
      obtain rfl := Option.some.inj hplay
      simpa [Configuration.points, start] using harrive middle point hmeets harrives hmore
    | resume index reply answers =>
      obtain ⟨before, point, after, left, hpoints, rfl, hlast, hguar⟩ :=
        sound.section_of_play hgood hplay
      rw [hlast]
      exact hstep middle before point after reply answers left next.state hmeets hpoints hgood.holds hmore
        hguar

/-- The rule for a service whose coroutines rely on nothing: every section keeps its guarantee, and a
section that keeps it preserves the invariant. -/
theorem sound_stateless {starts : P → Prop} {guar : P → σ → List I.Answer → List P → σ → Prop}
    (entry : ∀ point reply state, starts point →
      (Contract.stateless starts guar).Keeps (system.entry point) ⟨point, state, [reply], []⟩ state)
    (arrive : ∀ configuration point, condition configuration (.arrive point) →
      system.arrives point = true → inv configuration.state configuration.points →
        inv configuration.state (configuration.points ++ [point]) ∧ starts point)
    (step : ∀ configuration before point after reply answers left last,
      condition configuration (.resume before.length reply answers) →
      configuration.points = before ++ point :: after →
      inv configuration.state configuration.points →
      guar point configuration.state (reply :: answers) left last → inv last (before ++ left ++ after)) :
    system.Sound (Contract.stateless starts guar) inv condition where
  rely_refl := fun _ _ ↦ trivial
  rely_trans := fun _ _ _ _ _ _ ↦ trivial
  pre_rely := fun _ _ _ hpre _ ↦ hpre
  entry := fun point reply state hpre ↦ entry point reply state hpre
  arrive := arrive
  step := fun configuration before point after reply answers left last hmeets hpoints hinv hguar ↦
    ⟨step configuration before point after reply answers left last hmeets hpoints hinv hguar,
      fun _ _ ↦ trivial⟩

/-- A configuration whose coroutines have not had their first turn is good when the invariant
holds and every precondition is met. -/
theorem Sound.good_of_starts (sound : system.Sound K inv condition) {state : σ}
    {points : List P} (hinv : inv state points) (hpre : ∀ point ∈ points, K.pre point state) :
    Good K inv ⟨state, points.map system.start, []⟩ := by
  refine ⟨?_, ?_, fun _ herror ↦ nomatch herror⟩
  · have hpoints : (Configuration.mk state (points.map system.start) [] :
        Configuration I P σ).points = points := by
      simp [Configuration.points, Function.comp_def, start]
    rw [hpoints]
    exact hinv
  · intro thread hthread
    obtain ⟨point, hpoint, rfl⟩ := List.mem_map.mp hthread
    exact sound.waits_start (hpre point hpoint)

end System

end SvrDemo.Coroutine
