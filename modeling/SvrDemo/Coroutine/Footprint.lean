import SvrDemo.Coroutine.Logic

/-!
# Footprints of programs

Many programs of a service are used only for what they may touch: they send messages, wait, and
change the state in a way that no caller looks at. A `Footprint` lists the points where such a
program may wait, the changes it may make and the errors it may raise, and `Program.Within` says
that a program keeps to it. An assertion that is `Steady` under a footprint holds after every
program within that footprint (`Steady.wpIn`), so that one lemma about the program serves under
every contract.
-/

set_option autoImplicit false
set_option relaxedAutoImplicit false

namespace SvrDemo.Coroutine

variable {I : Interface} {P σ α β κ : Type}

/-- What a program may do: the points where it waits, the changes it makes, the errors it
raises. -/
structure Footprint (I : Interface) (P σ : Type) where
  waits : P → Prop
  changes : σ → σ → Prop
  raises : I.Error → Prop

namespace Program

/-- From a state on, a program keeps to a footprint, and it starts no coroutine. Nothing is assumed
of the states in which it resumes. -/
def Within (F : Footprint I P σ) : Program I P σ α → σ → Prop
  | .ret _, _ => True
  | .get next, state => (next state).Within F state
  | .set changed next, state => F.changes state changed ∧ next.Within F changed
  | .ask _ next, state => ∀ answer, (next answer).Within F state
  | .wait point next, _ => F.waits point ∧ ∀ reply later, (next reply).Within F later
  | .fork _ _, _ => False
  | .fail error, _ => F.raises error

section Rules

variable {F : Footprint I P σ} {state : σ}

@[simp]
theorem within_pure (value : α) : (pure value : Program I P σ α).Within F state :=
  trivial

/-- A composition keeps to a footprint when both parts do, the second from every state. -/
theorem within_bind_eq {first : Program I P σ α} {rest : α → Program I P σ β}
    (hrest : ∀ value later, (rest value).Within F later) :
    ∀ {state : σ}, first.Within F state → (first.bind rest).Within F state := by
  induction first with
  | ret value => intro state _; exact hrest value state
  | get next ih => intro state h; exact ih state h
  | set changed next ih => intro state h; exact ⟨h.1, ih h.2⟩
  | ask query next ih => intro state h answer; exact ih answer (h answer)
  | wait point next ih => intro state h; exact ⟨h.1, fun reply later ↦ ih reply (h.2 reply later)⟩
  | fork point next => intro state h; exact h.elim
  | fail error => intro state h; exact h

theorem within_bind {first : Program I P σ α} {rest : α → Program I P σ β}
    (hfirst : first.Within F state) (hrest : ∀ value later, (rest value).Within F later) :
    (first >>= rest).Within F state :=
  within_bind_eq hrest hfirst

/-- What follows a look at the state may use it. -/
@[simp]
theorem within_getState_bind (rest : σ → Program I P σ β) :
    (getState >>= rest : Program I P σ β).Within F state ↔ (rest state).Within F state :=
  Iff.rfl

@[simp]
theorem within_modifyState_bind (change : σ → σ) (rest : Unit → Program I P σ β) :
    (modifyState change >>= rest : Program I P σ β).Within F state ↔
      F.changes state (change state) ∧ (rest ()).Within F (change state) :=
  Iff.rfl

@[simp]
theorem within_modifyState (change : σ → σ) :
    (modifyState change : Program I P σ Unit).Within F state ↔ F.changes state (change state) :=
  and_iff_left trivial

@[simp]
theorem within_query_bind (question : I.Query) (rest : I.Answer → Program I P σ β) :
    (query question >>= rest : Program I P σ β).Within F state ↔
      ∀ answer, (rest answer).Within F state :=
  Iff.rfl

@[simp]
theorem within_await_bind (point : P) (rest : I.Answer → Program I P σ β) :
    (await point >>= rest : Program I P σ β).Within F state ↔
      F.waits point ∧ ∀ reply later, (rest reply).Within F later :=
  Iff.rfl

@[simp]
theorem within_await (point : P) :
    (await point : Program I P σ I.Answer).Within F state ↔ F.waits point :=
  and_iff_left fun _ _ ↦ trivial

@[simp]
theorem within_fail (error : I.Error) :
    (fail error : Program I P σ α).Within F state ↔ F.raises error :=
  Iff.rfl

/-- A change that may fail makes a change of the footprint either way. -/
theorem within_tryModify {change : σ → Except (I.Error × σ) σ}
    (hok : ∀ changed, change state = .ok changed → F.changes state changed)
    (herror : ∀ error changed, change state = .error (error, changed) →
      F.changes state changed ∧ F.raises error) :
    (tryModify change : Program I P σ Unit).Within F state := by
  unfold tryModify
  simp only [Within]
  cases hchange : change state with
  | ok changed => exact ⟨hok changed hchange, trivial⟩
  | error failure => exact herror failure.1 failure.2 hchange

/-- A loop keeps to a footprint when its body does. -/
theorem within_forEach {list : List κ} {body : κ → Program I P σ Unit}
    (hbody : ∀ element ∈ list, ∀ later, (body element).Within F later) :
    ∀ {state : σ}, (forEach list body).Within F state := by
  induction list with
  | nil => intro state; exact trivial
  | cons head tail ih =>
    intro state
    refine within_bind_eq (fun _ _ ↦ ?_) (hbody head List.mem_cons_self state)
    exact ih fun element helement ↦ hbody element (List.mem_cons_of_mem head helement)

theorem within_foldlM {list : List κ} {body : β → κ → Program I P σ β}
    (hbody : ∀ acc, ∀ element ∈ list, ∀ later, (body acc element).Within F later) :
    ∀ {acc : β} {state : σ}, (list.foldlM body acc).Within F state := by
  induction list with
  | nil => intro acc state; exact trivial
  | cons head tail ih =>
    intro acc state
    rw [List.foldlM_cons]
    refine within_bind (hbody acc head List.mem_cons_self state) fun next _ ↦ ?_
    exact ih fun acc element helement ↦ hbody acc element (List.mem_cons_of_mem head helement)

end Rules

end Program

/-- An assertion of a coroutine that no program of a part within the footprint can break: it does
not depend on what the coroutine has heard, it survives the changes and the waits of the footprint,
and it is enough for its errors. -/
structure Steady {P' τ : Type} (E : Embedding I P σ P' τ) (K : Contract I P' τ)
    (F : Footprint I P σ) (raised : I.Error → Section I P' τ → τ → Prop)
    (inv : Section I P' τ → τ → Prop) : Prop where
  heard : ∀ current whole answer, inv current whole →
    inv { current with heard := current.heard ++ [answer] } whole
  change : ∀ current whole part, F.changes (E.get whole) part → inv current whole →
    inv current (E.put part whole)
  wait : ∀ point current whole, F.waits point → inv current whole →
    (E.handle point).wp K (fun _ ↦ inv) raised current whole
  raise : ∀ error current whole, F.raises error → inv current whole → raised error current whole

namespace Steady

variable {P' τ : Type} {E : Embedding I P σ P' τ} {K : Contract I P' τ} {F : Footprint I P σ}
  {raised : I.Error → Section I P' τ → τ → Prop} {inv : Section I P' τ → τ → Prop}

/-- A program within the footprint keeps the assertion. -/
theorem wpIn (steady : Steady E K F raised inv) {program : Program I P σ α} :
    ∀ {current : Section I P' τ} {whole : τ}, program.Within F (E.get whole) →
      inv current whole → program.wpIn E K (fun _ ↦ inv) raised current whole := by
  induction program with
  | ret value => intro current whole _ h; exact h
  | get next ih => intro current whole hwithin h; exact ih (E.get whole) hwithin h
  | set changed next ih =>
    intro current whole hwithin h
    have hrest : next.Within F (E.get (E.put changed whole)) := by
      rw [E.get_put]
      exact hwithin.2
    exact ih hrest (steady.change current whole changed hwithin.1 h)
  | ask query next ih =>
    intro current whole hwithin h answer _
    exact ih answer (hwithin answer) (steady.heard current whole answer h)
  | wait point next ih =>
    intro current whole hwithin h
    refine (Program.wp_bind_eq _ _ _ _ _ _).mpr
      (Program.wp_mono (fun reply _ later hlater ↦ ?_) (fun _ _ _ hraised ↦ hraised)
        (steady.wait point current whole hwithin.1 h))
    exact ih reply (hwithin.2 reply (E.get later)) hlater
  | fork point next => intro current whole hwithin _; exact hwithin.elim
  | fail error => intro current whole hwithin h; exact steady.raise error current whole hwithin h

/-- The rule with another postcondition. -/
theorem wpIn_of (steady : Steady E K F raised inv) {program : Program I P σ α}
    {post : α → Section I P' τ → τ → Prop} {current : Section I P' τ} {whole : τ}
    (hwithin : program.Within F (E.get whole)) (h : inv current whole)
    (hpost : ∀ value current whole, inv current whole → post value current whole) :
    program.wpIn E K post raised current whole :=
  Program.wpIn_mono hpost (fun _ _ _ hraised ↦ hraised) (steady.wpIn hwithin h)

end Steady

end SvrDemo.Coroutine
