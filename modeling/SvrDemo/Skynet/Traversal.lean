import SvrDemo.Skynet.Runtime

/-!
# Traversals that wait

A loop `for key, record in pairs (table)` whose body waits follows a table that other coroutines change.
The assignment of a key that the table has, nil included, leaves the order of the keys as it is: the loop
goes on along the order it began with, and skips the keys whose records have been removed. The assignment
of a key that the table does not have, nil included again, may rehash it. From then on the loop may come
to any keys, some of them a second time and others not at all, and `next` raises for the key it has
reached when its record is gone.

A `LiveTable` is such a table in a state: its records, and how many assignments have been made of keys
it did not have (`layout`).
-/

set_option autoImplicit false
set_option relaxedAutoImplicit false

namespace SvrDemo.Skynet

open Coroutine Lua

variable {P σ α : Type}

/-- A table in a state, and the number of the assignments of keys that it did not have. -/
structure LiveTable (σ α : Type) where
  rows : σ → Table α
  layout : σ → ℕ

/-- `next (table, key)`, for a key that was there when the table had had `layout` such assignments. -/
def nextFrom (live : LiveTable σ α) (layout key : ℕ) : Task P σ Unit := do
  let state ← Program.getState
  if key ∈ (live.rows state).keys ∨ live.layout state = layout then return ()
  else
    match ← Program.query (I := skynet) .rehashed with
    | .raised => .fail .invalidKey
    | _ => return ()

/-- One turn of a traversal: the body, and the step from the key. A key without a record is skipped. -/
def visit (live : LiveTable σ α) (body : ℕ → α → Task P σ Unit) (key : ℕ) : Task P σ Unit := do
  let state ← Program.getState
  match (live.rows state).lookup key with
  | some record => do
    body key record
    nextFrom live (live.layout state) key
  | none => return ()

/-- Follow an order of a table that has had `layout` assignments of new keys; when it has had more, go on with
whatever keys come. -/
def follow (live : LiveTable σ α) (body : ℕ → α → Task P σ Unit) (layout : ℕ) : List ℕ → Task P σ Unit
  | [] => return ()
  | key :: rest => do
    visit live body key
    if live.layout (← Program.getState) = layout then follow live body layout rest
    else do
      let keys ← Program.query (I := skynet) .remaining
      Program.forEach keys.toOrder (visit live body)

/-- `for key, record in pairs (table) do body end`. -/
def traverse (live : LiveTable σ α) (body : ℕ → α → Task P σ Unit) : Task P σ Unit := do
  let state ← Program.getState
  let order ← pairs (live.rows state).keys
  follow live body (live.layout state) order

/-! ### Footprints -/

section Footprints

variable {F : Footprint skynet P σ} {state : σ} {live : LiveTable σ α} {body : ℕ → α → Task P σ Unit}

theorem within_visit
    (hbody : ∀ key record later, (live.rows later).lookup key = some record → (body key record).Within F later)
    (hraise : F.raises .invalidKey) (key : ℕ) : (visit live body key).Within F state := by
  refine (Program.within_getState_bind _).mpr ?_
  split
  · next record hrecord =>
    refine Program.within_bind (hbody key record state hrecord) fun _ later ↦ (Program.within_getState_bind _).mpr ?_
    split
    · exact Program.within_pure ()
    · refine (Program.within_query_bind _ _).mpr fun answer ↦ ?_
      cases answer with
      | raised => exact hraise
      | number _ => exact trivial
      | order _ => exact trivial
      | ok => exact trivial
  · exact Program.within_pure ()

/-- A traversal keeps to a footprint when its body does, and when it may raise. -/
theorem within_traverse
    (hbody : ∀ key record later, (live.rows later).lookup key = some record → (body key record).Within F later)
    (hraise : F.raises .invalidKey) : (traverse live body).Within F state := by
  refine (Program.within_getState_bind _).mpr (Program.within_bind (within_pairs _) fun order later ↦ ?_)
  induction order generalizing later with
  | nil => exact Program.within_pure ()
  | cons key rest ih =>
    refine Program.within_bind (within_visit hbody hraise key) fun _ later ↦
      (Program.within_getState_bind _).mpr ?_
    split
    · exact ih later
    · exact (Program.within_query_bind _ _).mpr fun answer ↦
        Program.within_forEach fun key _ _ ↦ within_visit hbody hraise key

end Footprints

/-! ### Rules -/

section Rules

variable {P' σ' : Type} {E : Embedding skynet P σ P' σ'} {K : Contract skynet P' σ'}
  {raised : LuaError → Section skynet P' σ' → σ' → Prop} {current : Section skynet P' σ'}
  {whole : σ'} {live : LiveTable σ α} {body : ℕ → α → Task P σ Unit}

/-- The step from a key. It asks nothing when the key is still there or the table has had no new keys. -/
theorem wpIn_nextFrom {layout key : ℕ} {post : Unit → Section skynet P' σ' → σ' → Prop}
    (hstays : key ∈ (live.rows (E.get whole)).keys ∨ live.layout (E.get whole) = layout → post () current whole)
    (hgoes : live.layout (E.get whole) ≠ layout → ∀ answer, answer ≠ .raised →
      post () { current with heard := current.heard ++ [answer] } whole)
    (hraise : key ∉ (live.rows (E.get whole)).keys → live.layout (E.get whole) ≠ layout →
      raised .invalidKey { current with heard := current.heard ++ [.raised] } whole) :
    (nextFrom live layout key : Task P σ Unit).wpIn E K post raised current whole := by
  unfold nextFrom
  rw [Program.wpIn_bind, Program.wpIn_getState]
  split
  · next hkey => exact hstays hkey
  · next hkey =>
    obtain ⟨hgone, hnew⟩ := not_or.mp hkey
    rw [Program.wpIn_bind, Program.wpIn_query]
    intro answer _
    cases answer with
    | raised => exact hraise hgone hnew
    | number _ => exact hgoes hnew _ nofun
    | order _ => exact hgoes hnew _ nofun
    | ok => exact hgoes hnew _ nofun

/-- The rule for a traversal by its turns. As long as the table gets no new keys, `inv` relates what is left of the
order that it began with to the state; from then on every turn keeps `lost`. -/
theorem wpIn_traverse_of_visit (inv : List ℕ → Section skynet P' σ' → σ' → Prop)
    (lost : Section skynet P' σ' → σ' → Prop)
    (hstart : ∀ order, IsOrder order (live.rows (E.get whole)).keys →
      inv order { current with heard := current.heard ++ [.order order] } whole)
    (hvisit : ∀ key rest current' whole', live.layout (E.get whole') = live.layout (E.get whole) →
      inv (key :: rest) current' whole' → (visit live body key).wpIn E K (fun _ current' whole' ↦
        live.layout (E.get whole') = live.layout (E.get whole) ∧ inv rest current' whole' ∨
          live.layout (E.get whole') ≠ live.layout (E.get whole) ∧ lost current' whole') raised current' whole')
    (hremaining : ∀ current whole order, lost current whole →
      lost { current with heard := current.heard ++ [.order order] } whole)
    (hlost : ∀ key current whole, lost current whole →
      (visit live body key).wpIn E K (fun _ ↦ lost) raised current whole) :
    (traverse live body).wpIn E K (fun _ current whole ↦ inv [] current whole ∨ lost current whole) raised
      current whole := by
  unfold traverse
  rw [Program.wpIn_bind, Program.wpIn_getState, Program.wpIn_bind]
  refine wpIn_pairs fun order horder ↦ ?_
  have hfirst := hstart order horder
  obtain ⟨layout, hlayout⟩ : ∃ layout, live.layout (E.get whole) = layout := ⟨_, rfl⟩
  rw [hlayout] at hvisit ⊢
  clear hstart horder
  generalize ({ current with heard := current.heard ++ [.order order] } : Section skynet P' σ') = current at hfirst
  -- along the order the table began with, as long as it has had no new keys
  induction order generalizing current whole with
  | nil => exact .inl hfirst
  | cons key rest ih =>
    refine Program.wpIn_seq (hvisit key rest current whole hlayout hfirst) fun _ current whole h ↦ ?_
    rw [Program.wpIn_bind, Program.wpIn_getState]
    rcases h with ⟨hsame, h⟩ | ⟨hnew, h⟩
    · rw [if_pos hsame]
      exact ih hsame _ h
    · rw [if_neg hnew, Program.wpIn_bind, Program.wpIn_query]
      intro answer hanswer
      have hheard : lost { current with heard := current.heard ++ [answer] } whole := by
        cases answer with
        | order order => exact hremaining current whole order h
        | number _ => exact nomatch hanswer
        | ok => exact nomatch hanswer
        | raised => exact nomatch hanswer
      exact Program.wpIn_forEach (fun _ ↦ lost) (fun key _ current whole h ↦ hlost key current whole h)
        (fun _ _ h ↦ .inr h) hheard

/-- The rule for a traversal by its body. When the table has had new keys, the step from a key may raise. -/
theorem wpIn_traverse_of (inv : List ℕ → Section skynet P' σ' → σ' → Prop)
    (lost : Section skynet P' σ' → σ' → Prop)
    (hstart : ∀ order, IsOrder order (live.rows (E.get whole)).keys →
      inv order { current with heard := current.heard ++ [.order order] } whole)
    (hbody : ∀ key rest record current whole, (live.rows (E.get whole)).lookup key = some record →
      inv (key :: rest) current whole → (body key record).wpIn E K (fun _ ↦ inv rest) raised current whole)
    (hskip : ∀ key rest current whole, (live.rows (E.get whole)).lookup key = none →
      inv (key :: rest) current whole → inv rest current whole)
    (hnew : ∀ rest current' whole', inv rest current' whole' →
      live.layout (E.get whole') ≠ live.layout (E.get whole) → lost current' whole')
    (hheard : ∀ current whole answer, answer ≠ .raised → lost current whole →
      lost { current with heard := current.heard ++ [answer] } whole)
    (hraise : ∀ current whole, lost current whole →
      raised .invalidKey { current with heard := current.heard ++ [.raised] } whole)
    (hlost : ∀ key record current whole, (live.rows (E.get whole)).lookup key = some record →
      lost current whole → (body key record).wpIn E K (fun _ ↦ lost) raised current whole) :
    (traverse live body).wpIn E K (fun _ current whole ↦ inv [] current whole ∨ lost current whole) raised
      current whole := by
  refine wpIn_traverse_of_visit inv lost hstart (fun key rest current' whole' hlayout h ↦ ?_)
    (fun current whole order ↦ hheard current whole _ nofun) fun key current whole h ↦ ?_
  · unfold visit
    rw [Program.wpIn_bind, Program.wpIn_getState, hlayout]
    split
    · next record hrecord =>
      refine Program.wpIn_seq (hbody key rest record current' whole' hrecord h) fun _ current' whole' h ↦ ?_
      refine wpIn_nextFrom (fun _ ↦ ?_) (fun hchanged answer hanswer ↦ .inr ⟨hchanged, ?_⟩) fun _ hchanged ↦ ?_
      · by_cases hsame : live.layout (E.get whole') = live.layout (E.get whole)
        · exact .inl ⟨hsame, h⟩
        · exact .inr ⟨hsame, hnew rest current' whole' h hsame⟩
      · exact hheard _ _ _ hanswer (hnew rest current' whole' h hchanged)
      · exact hraise _ _ (hnew rest current' whole' h hchanged)
    · next hnone => exact .inl ⟨hlayout, hskip key rest current' whole' hnone h⟩
  · unfold visit
    rw [Program.wpIn_bind, Program.wpIn_getState]
    split
    · next record hrecord =>
      exact Program.wpIn_seq (hlost key record current whole hrecord h) fun _ current whole h ↦
        wpIn_nextFrom (fun _ ↦ h) (fun _ answer hanswer ↦ hheard _ _ _ hanswer h) fun _ _ ↦ hraise _ _ h
    · exact h

/-- The rule for a traversal with an assertion that its body keeps, whatever becomes of the table. -/
theorem wpIn_traverse (inv : Section skynet P' σ' → σ' → Prop)
    (hheard : ∀ current whole answer, inv current whole →
      inv { current with heard := current.heard ++ [answer] } whole)
    (hraise : ∀ current whole, inv current whole → raised .invalidKey current whole)
    (hbody : ∀ key record current whole, (live.rows (E.get whole)).lookup key = some record →
      inv current whole → (body key record).wpIn E K (fun _ ↦ inv) raised current whole)
    (h : inv current whole) : (traverse live body).wpIn E K (fun _ ↦ inv) raised current whole :=
  Program.wpIn_mono (fun _ _ _ h ↦ h.elim id id) (fun _ _ _ h ↦ h)
    (wpIn_traverse_of (fun _ ↦ inv) inv (fun order _ ↦ hheard current whole (.order order) h)
      (fun key _ record current whole ↦ hbody key record current whole) (fun _ _ _ _ _ h ↦ h)
      (fun _ _ _ h _ ↦ h) (fun current whole answer _ ↦ hheard current whole answer)
      (fun current whole h ↦ hraise _ _ (hheard current whole .raised h)) hbody)

/-- The rule for a traversal whose body leaves its key in the table, or gives the table no new keys. -/
theorem wpIn_traverse_staying (inv : Section skynet P' σ' → σ' → Prop)
    (hheard : ∀ current whole order, inv current whole →
      inv { current with heard := current.heard ++ [.order order] } whole)
    (hbody : ∀ key record current whole, (live.rows (E.get whole)).lookup key = some record →
      inv current whole → (body key record).wpIn E K (fun _ current' whole' ↦ inv current' whole' ∧
        (key ∈ (live.rows (E.get whole')).keys ∨ live.layout (E.get whole') = live.layout (E.get whole)))
        raised current whole)
    (h : inv current whole) : (traverse live body).wpIn E K (fun _ ↦ inv) raised current whole := by
  have hvisit : ∀ key current whole, inv current whole →
      (visit live body key).wpIn E K (fun _ ↦ inv) raised current whole := by
    intro key current whole h
    unfold visit
    rw [Program.wpIn_bind, Program.wpIn_getState]
    split
    · next record hrecord =>
      refine Program.wpIn_seq (hbody key record current whole hrecord h) fun _ current' whole' ⟨h, hstays⟩ ↦ ?_
      rw [nextFrom, Program.wpIn_bind, Program.wpIn_getState, if_pos hstays]
      exact h
    · exact h
  refine Program.wpIn_mono (fun _ _ _ h ↦ h.elim id id) (fun _ _ _ h ↦ h)
    (wpIn_traverse_of_visit (fun _ ↦ inv) inv (fun order _ ↦ hheard current whole order h)
      (fun key _ current' whole' _ h ↦ ?_) hheard hvisit)
  refine Program.wpIn_mono (fun _ current' whole' h ↦ ?_) (fun _ _ _ h ↦ h) (hvisit key current' whole' h)
  by_cases hsame : live.layout (E.get whole') = live.layout (E.get whole)
  · exact .inl ⟨hsame, h⟩
  · exact .inr ⟨hsame, h⟩

end Rules

end SvrDemo.Skynet
