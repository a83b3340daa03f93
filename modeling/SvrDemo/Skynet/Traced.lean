import SvrDemo.Coroutine.Tracing
import SvrDemo.Skynet.Traversal

/-!
# The runtime with a trace

The rules of the runtime for programs of which a trace is taken: what the clock shows, what the dice say
and the order of a traversal are noted as the tracing says, and so is the point at which a call waits.
-/

set_option autoImplicit false
set_option relaxedAutoImplicit false

namespace SvrDemo.Skynet

open Coroutine Lua

variable {P P' σ Γ : Type} {T : Tracing skynet P P' Γ} {K : Contract skynet P' (σ × Γ)}
  {raised : LuaError → Section skynet P' (σ × Γ) → σ × Γ → Prop}
  {current : Section skynet P' (σ × Γ)} {whole : σ × Γ}

theorem wpTr_osTime {post : ℤ → Section skynet P' (σ × Γ) → σ × Γ → Prop}
    (h : ∀ now : ℤ, post now { current with heard := current.heard ++ [.number now] }
      (whole.1, T.asked .time (.number now) whole.2)) :
    (osTime : Task P σ ℤ).wpTr T K post raised current whole := by
  rw [osTime, Program.wpTr_bind]
  intro answer hanswer
  cases answer with
  | number now => exact h now
  | order _ => cases hanswer
  | ok => cases hanswer
  | raised => cases hanswer

theorem wpTr_mathRandom {limit : ℕ} {post : ℤ → Section skynet P' (σ × Γ) → σ × Γ → Prop}
    (h : ∀ value : ℤ, post value { current with heard := current.heard ++ [.number value] }
      (whole.1, T.asked (.random limit) (.number value) whole.2)) :
    (mathRandom limit : Task P σ ℤ).wpTr T K post raised current whole := by
  rw [mathRandom, Program.wpTr_bind]
  intro answer hanswer
  cases answer with
  | number value => exact h value
  | order _ => cases hanswer
  | ok => cases hanswer
  | raised => cases hanswer

theorem wpTr_pairs {keys : Finset ℕ} {post : List ℕ → Section skynet P' (σ × Γ) → σ × Γ → Prop}
    (h : ∀ order : List ℕ, IsOrder order keys →
      post order { current with heard := current.heard ++ [.order order] }
        (whole.1, T.asked (.pairs keys) (.order order) whole.2)) :
    (pairs keys : Task P σ (List ℕ)).wpTr T K post raised current whole := by
  rw [pairs, Program.wpTr_bind]
  intro answer hanswer
  cases answer with
  | order order => exact h order (of_decide_eq_true hanswer)
  | number _ => cases hanswer
  | ok => cases hanswer
  | raised => cases hanswer

/-- A call, with what holds when it returns and what holds when it raises. -/
theorem wpTr_call {point : P} {post : Unit → Section skynet P' (σ × Γ) → σ × Γ → Prop}
    (hends : K.Ends current (current.forks ++ [T.via point]) (whole.1, T.waits point whole.2))
    (h : ∀ (reply : Answer) (later : σ × Γ),
      K.rely (T.via point) (whole.1, T.waits point whole.2) later →
      (reply ≠ .raised → post () ⟨T.via point, later, [reply], []⟩ later) ∧
        (reply = .raised → raised .callFailed ⟨T.via point, later, [reply], []⟩ later)) :
    (call point : Task P σ Unit).wpTr T K post raised current whole := by
  rw [call, Program.wpTr_bind, Program.wpTr_await]
  refine ⟨hends, fun reply later hrely ↦ ?_⟩
  cases reply with
  | raised => exact (h .raised later hrely).2 rfl
  | number value => exact (h (.number value) later hrely).1 Answer.noConfusion
  | order order => exact (h (.order order) later hrely).1 Answer.noConfusion
  | ok => exact (h .ok later hrely).1 Answer.noConfusion

/-- The questions of a traversal. -/
def Query.isTraversal : Query → Bool
  | .pairs _ => true
  | .rehashed => true
  | .remaining => true
  | _ => false

section Traversals

variable {α : Type} {live : LiveTable σ α} {body : ℕ → α → Task P σ Unit} {still : Prop}

/-- One turn of a traversal whose body keeps an assertion. -/
theorem wpTr_visit (inv : Section skynet P' (σ × Γ) → σ × Γ → Prop)
    (hasked : ∀ query answer trace, query.isTraversal = true → T.asked query answer trace = trace)
    (hheard : ∀ answer current whole, inv current whole →
      inv { current with heard := current.heard ++ [answer] } whole)
    (hraise : ¬ still → ∀ current whole, inv current whole → raised .invalidKey current whole) {key : ℕ}
    (hbody : ∀ record, (live.rows whole.1).lookup key = some record →
      (body key record).wpTr T K (fun _ current' whole' ↦ inv current' whole' ∧
        (still → live.layout whole'.1 = live.layout whole.1)) raised current whole)
    (h : inv current whole) : (visit live body key).wpTr T K (fun _ ↦ inv) raised current whole := by
  unfold visit
  rw [Program.wpTr_getState_bind]
  split
  · next record hrecord =>
    refine Program.wpTr_seq (hbody record hrecord) fun _ current' whole' ⟨h, hstays⟩ ↦ ?_
    unfold nextFrom
    rw [Program.wpTr_getState_bind]
    split
    · exact h
    · next hlost =>
      have hnew : ¬ still := fun hstill ↦ hlost (.inr (hstays hstill))
      refine Program.wpTr_bind.mpr (Program.wpTr_query.mpr fun answer _ ↦ ?_)
      rw [hasked .rehashed answer _ rfl]
      have hgoes := hheard answer _ _ h
      cases answer with
      | raised => exact hraise hnew _ _ hgoes
      | number _ => exact hgoes
      | order _ => exact hgoes
      | ok => exact hgoes
  · exact h

/-- A traversal whose body keeps an assertion. Where it also leaves the table without new keys, `next` does not
raise. -/
theorem wpTr_traverse (inv : Section skynet P' (σ × Γ) → σ × Γ → Prop)
    (hasked : ∀ query answer trace, query.isTraversal = true → T.asked query answer trace = trace)
    (hheard : ∀ answer current whole, inv current whole →
      inv { current with heard := current.heard ++ [answer] } whole)
    (hraise : ¬ still → ∀ current whole, inv current whole → raised .invalidKey current whole)
    (hbody : ∀ key record current whole, (live.rows whole.1).lookup key = some record → inv current whole →
      (body key record).wpTr T K (fun _ current' whole' ↦ inv current' whole' ∧
        (still → live.layout whole'.1 = live.layout whole.1)) raised current whole)
    (h : inv current whole) : (traverse live body).wpTr T K (fun _ ↦ inv) raised current whole := by
  have hvisit : ∀ key current whole, inv current whole →
      (visit live body key).wpTr T K (fun _ ↦ inv) raised current whole := fun key current whole h ↦
    wpTr_visit inv hasked hheard hraise (fun record hrecord ↦ hbody key record current whole hrecord h) h
  unfold traverse
  rw [Program.wpTr_getState_bind]
  refine Program.wpTr_bind.mpr (wpTr_pairs fun order horder ↦ ?_)
  have hfirst := hheard (.order order) current whole h
  clear h horder
  rw [hasked (.pairs (live.rows whole.1).keys) (.order order) _ rfl]
  -- along the order the table began with, and then along whatever keys come
  generalize live.layout whole.1 = layout
  generalize ({ current with heard := current.heard ++ [.order order] } : Section skynet P' (σ × Γ)) = current
    at hfirst
  induction order generalizing current whole with
  | nil => exact hfirst
  | cons key rest ih =>
    refine Program.wpTr_seq (hvisit key current whole hfirst) fun _ current whole h ↦ ?_
    rw [Program.wpTr_getState_bind]
    split
    · exact ih _ h
    · refine Program.wpTr_bind.mpr (Program.wpTr_query.mpr fun answer _ ↦ ?_)
      rw [hasked .remaining answer _ rfl]
      exact Program.wpTr_forEach (fun _ ↦ inv) (fun key _ current whole h ↦ hvisit key current whole h)
        (fun _ _ h ↦ h) (hheard answer _ _ h)

end Traversals

end SvrDemo.Skynet
