import SvrDemo.Coroutine.Trail
import SvrDemo.Skynet.Traversal

/-!
# Trails of Lua services

The rules of `Coroutine.Trail` for what a Lua service asks of its environment, and for `skynet.call`.
-/

set_option autoImplicit false
set_option relaxedAutoImplicit false

namespace SvrDemo.Skynet

open Coroutine Lua

variable {P P' σ σ' : Type} {E : Embedding skynet P σ P' σ'} {may : P' → σ' → Answer → Prop}
  {raised : LuaError → Trail skynet P' σ' → σ' → Prop} {trail : Trail skynet P' σ'} {whole : σ'}

theorem wpTrailIn_osTime {post : ℤ → Trail skynet P' σ' → σ' → Prop} (h : ∀ now, post now trail whole) :
    (osTime : Task P σ ℤ).wpTrailIn E may post raised trail whole := by
  rw [osTime, Program.wpTrailIn_bind]
  intro answer _
  exact h answer.toInt

/-- The traversal visits every key once. -/
theorem wpTrailIn_pairs {keys : Finset ℕ} {post : List ℕ → Trail skynet P' σ' → σ' → Prop}
    (h : ∀ order, IsOrder order keys → post order trail whole) :
    (pairs keys : Task P σ (List ℕ)).wpTrailIn E may post raised trail whole := by
  rw [pairs, Program.wpTrailIn_bind]
  intro answer hanswer
  cases answer with
  | order order => exact h order (of_decide_eq_true hanswer)
  | number _ => cases hanswer
  | ok => cases hanswer
  | raised => cases hanswer

/-- What holds when a call returns, and what holds when it raises. -/
theorem wpTrailIn_call {point : P} {post : Unit → Trail skynet P' σ' → σ' → Prop}
    (h : (E.handle point).wpTrail may
      (fun reply trail whole ↦ (reply ≠ .raised → post () trail whole) ∧
        (reply = .raised → raised .callFailed trail whole))
      raised trail whole) :
    (call point : Task P σ Unit).wpTrailIn E may post raised trail whole := by
  rw [call, Program.wpTrailIn_bind, Program.wpTrailIn_await]
  refine Program.wpTrail_mono (fun reply _ _ hboth ↦ ?_) (fun _ _ _ hraised ↦ hraised) h
  cases reply with
  | raised => exact hboth.2 rfl
  | number _ => exact hboth.1 Answer.noConfusion
  | order _ => exact hboth.1 Answer.noConfusion
  | ok => exact hboth.1 Answer.noConfusion

section Traversals

variable {α : Type} {live : LiveTable σ α} {body : ℕ → α → Task P σ Unit}

/-- One turn of a traversal, by its body. -/
theorem wpTrailIn_visit {key : ℕ} (inv lost : Trail skynet P' σ' → σ' → Prop)
    (hbody : ∀ record, (live.rows (E.get whole)).lookup key = some record →
      (body key record).wpTrailIn E may (fun _ trail' whole' ↦
        live.layout (E.get whole') = live.layout (E.get whole) ∧ inv trail' whole' ∨ lost trail' whole') raised
        trail whole)
    (hskip : (live.rows (E.get whole)).lookup key = none → inv trail whole)
    (hraise : ∀ trail whole, lost trail whole → raised .invalidKey trail whole) :
    (visit live body key).wpTrailIn E may (fun _ trail' whole' ↦
      live.layout (E.get whole') = live.layout (E.get whole) ∧ inv trail' whole' ∨ lost trail' whole') raised
      trail whole := by
  unfold visit
  rw [Program.wpTrailIn_bind, Program.wpTrailIn_getState]
  split
  · next record hrecord =>
    rw [Program.wpTrailIn_bind]
    refine Program.wpTrailIn_mono (fun _ trail' whole' h ↦ ?_) (hbody record hrecord)
    unfold nextFrom
    rw [Program.wpTrailIn_bind, Program.wpTrailIn_getState]
    split
    · exact h
    · next hgone =>
      have hlost : lost trail' whole' := h.resolve_left fun hsame ↦ hgone (.inr hsame.1)
      rw [Program.wpTrailIn_bind]
      intro answer _
      cases answer with
      | raised => exact hraise trail' whole' hlost
      | number _ => exact .inr hlost
      | order _ => exact .inr hlost
      | ok => exact .inr hlost
  · next hnone => exact .inl ⟨rfl, hskip hnone⟩

/-- Turns that keep `lost`, when `next` may raise where it holds and the body keeps it. -/
theorem wpTrailIn_visits_lost {lost : Trail skynet P' σ' → σ' → Prop}
    (hraise : ∀ trail whole, lost trail whole → raised .invalidKey trail whole)
    (hlost : ∀ key record trail whole, (live.rows (E.get whole)).lookup key = some record →
      lost trail whole → (body key record).wpTrailIn E may (fun _ ↦ lost) raised trail whole)
    (keys : List ℕ) (h : lost trail whole) :
    (Program.forEach keys (visit live body)).wpTrailIn E may (fun _ ↦ lost) raised trail whole := by
  refine Program.wpTrailIn_forEach (fun _ ↦ lost) (fun key _ trail whole h ↦ ?_) h
  refine Program.wpTrailIn_mono (fun _ _ _ h ↦ h.elim And.right id) (wpTrailIn_visit lost lost
    (fun record hrecord ↦ ?_) (fun _ ↦ h) hraise)
  exact Program.wpTrailIn_mono (fun _ _ _ ↦ .inr) (hlost key record trail whole hrecord h)

/-- A traversal that goes on where `lost` holds keeps it, whichever keys it comes to. -/
theorem wpTrailIn_follow_lost {lost : Trail skynet P' σ' → σ' → Prop}
    (hraise : ∀ trail whole, lost trail whole → raised .invalidKey trail whole)
    (hlost : ∀ key record trail whole, (live.rows (E.get whole)).lookup key = some record →
      lost trail whole → (body key record).wpTrailIn E may (fun _ ↦ lost) raised trail whole)
    {layout : ℕ} {order : List ℕ} (h : lost trail whole) :
    (follow live body layout order).wpTrailIn E may (fun _ ↦ lost) raised trail whole := by
  induction order generalizing trail whole with
  | nil => exact h
  | cons key rest ih =>
    have hfirst := wpTrailIn_visits_lost hraise hlost [key] h
    rw [Program.forEach_cons, Program.wpTrailIn_bind] at hfirst
    unfold follow
    rw [Program.wpTrailIn_bind]
    refine Program.wpTrailIn_mono (fun _ trail whole h ↦ ?_) hfirst
    rw [Program.wpTrailIn_bind, Program.wpTrailIn_getState]
    split
    · exact ih h
    · rw [Program.wpTrailIn_bind, Program.wpTrailIn_query]
      exact fun answer _ ↦ wpTrailIn_visits_lost hraise hlost answer.toOrder h

/-- The rule for a traversal. As long as the table gets no new keys, `inv` relates what is left of the order that it
began with to the trail and the state; from then on `lost` holds, and `next` may raise. -/
theorem wpTrailIn_traverse (inv : List ℕ → Trail skynet P' σ' → σ' → Prop) (lost : Trail skynet P' σ' → σ' → Prop)
    (hstart : ∀ order, IsOrder order (live.rows (E.get whole)).keys → inv order trail whole)
    (hbody : ∀ key rest record trail whole, (live.rows (E.get whole)).lookup key = some record →
      inv (key :: rest) trail whole → (body key record).wpTrailIn E may (fun _ trail' whole' ↦
        live.layout (E.get whole') = live.layout (E.get whole) ∧ inv rest trail' whole' ∨ lost trail' whole') raised
        trail whole)
    (hskip : ∀ key rest trail whole, (live.rows (E.get whole)).lookup key = none →
      inv (key :: rest) trail whole → inv rest trail whole)
    (hraise : ∀ trail whole, lost trail whole → raised .invalidKey trail whole)
    (hlost : ∀ key record trail whole, (live.rows (E.get whole)).lookup key = some record →
      lost trail whole → (body key record).wpTrailIn E may (fun _ ↦ lost) raised trail whole) :
    (traverse live body).wpTrailIn E may (fun _ trail whole ↦ inv [] trail whole ∨ lost trail whole) raised trail
      whole := by
  unfold traverse
  rw [Program.wpTrailIn_bind, Program.wpTrailIn_getState, Program.wpTrailIn_bind]
  refine wpTrailIn_pairs fun order horder ↦ ?_
  have hfirst := hstart order horder
  clear hstart horder
  obtain ⟨layout, hlayout⟩ : ∃ layout, live.layout (E.get whole) = layout := ⟨_, rfl⟩
  rw [hlayout]
  -- along the order the table began with, as long as it has had no new keys
  induction order generalizing trail whole with
  | nil => exact .inl hfirst
  | cons key rest ih =>
    unfold follow
    rw [Program.wpTrailIn_bind]
    refine Program.wpTrailIn_mono (fun _ trail' whole' h ↦ ?_) (wpTrailIn_visit (inv rest) lost
      (fun record hrecord ↦ hbody key rest record trail whole hrecord hfirst)
      (fun hnone ↦ hskip key rest trail whole hnone hfirst) hraise)
    rw [Program.wpTrailIn_bind, Program.wpTrailIn_getState]
    split
    · next hsame =>
      rcases h with ⟨-, h⟩ | h
      · exact ih h hsame
      · exact Program.wpTrailIn_mono (fun _ _ _ ↦ .inr) (wpTrailIn_follow_lost hraise hlost h)
    · next hnew =>
      have hmoved : lost trail' whole' := h.resolve_left fun hstays ↦ hnew (hstays.1.trans hlayout)
      rw [Program.wpTrailIn_bind, Program.wpTrailIn_query]
      exact fun answer _ ↦ Program.wpTrailIn_mono (fun _ _ _ ↦ .inr)
        (wpTrailIn_visits_lost hraise hlost answer.toOrder hmoved)

end Traversals

end SvrDemo.Skynet
