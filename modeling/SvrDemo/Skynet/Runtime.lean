import SvrDemo.Coroutine.Footprint
import SvrDemo.Lua.Table

/-!
# The runtime under the services

What the Lua services ask of the language and of skynet inside a section (`math.random`,
`os.time`, the length of a table, the traversal order of `pairs`, and how a traversal goes on in a table
that has been given new keys), the errors they can raise, and `skynet.call`, which
waits for a reply and raises when the callee has failed. `skynet` is the `Interface` these make.
-/

set_option autoImplicit false
set_option relaxedAutoImplicit false

namespace SvrDemo.Skynet

open Coroutine Lua

/-- The errors a service can raise. -/
inductive LuaError
  | assertionFailed
  | callFailed
  | indexNil
  | arithmeticOnNil
  | compareNil
  | concatNil
  | moduloByZero
  | errorCalled
  | invalidKey
  deriving DecidableEq, Repr

/-- What a section asks and the state does not determine. -/
inductive Query
  | random (limit : ℕ)
  | time
  | length (keys : Finset ℕ)
  | pairs (keys : Finset ℕ)
  | rehashed
  | remaining
  deriving DecidableEq

/-- The answers, and the replies to a call: `raised` when the callee has failed. -/
inductive Answer
  | number (value : ℤ)
  | order (keys : List ℕ)
  | ok
  | raised
  deriving DecidableEq, Repr

/-- `math.random (limit)` is a number from 1 to `limit`, the clock may show any time, the length of a table
is a border of it, and a traversal visits every key once. When a table has been given new keys, `next` may
raise for a key that is gone (`rehashed`), and the keys it still visits are not determined (`remaining`). -/
def admissible : Query → Answer → Bool
  | .random limit, .number value => decide (1 ≤ value ∧ value ≤ limit)
  | .time, .number _ => true
  | .length keys, .number value => decide (0 ≤ value ∧ IsBorder value.toNat keys)
  | .pairs keys, .order order => decide (IsOrder order keys)
  | .rehashed, .ok => true
  | .rehashed, .raised => true
  | .remaining, .order _ => true
  | _, _ => false

/-- The interface of a Lua service. -/
abbrev skynet : Interface where
  Query := Query
  Answer := Answer
  Error := LuaError
  admissible := admissible

/-- A coroutine of a Lua service with state `σ` that waits at points `P`. -/
abbrev Task (P σ α : Type) : Type := Program skynet P σ α

variable {P σ α : Type}

/-- The number in an answer. -/
def Answer.toInt : Answer → ℤ
  | .number value => value
  | _ => 0

/-- The order in an answer. -/
def Answer.toOrder : Answer → List ℕ
  | .order keys => keys
  | _ => []

/-- `math.random (limit)`. -/
def mathRandom (limit : ℕ) : Task P σ ℤ := do
  let answer ← Program.query (I := skynet) (.random limit)
  return answer.toInt

/-- `os.time ()`. -/
def osTime : Task P σ ℤ := do
  let answer ← Program.query (I := skynet) .time
  return answer.toInt

/-- The length operator, for a table with these keys. -/
def tableLength (keys : Finset ℕ) : Task P σ ℕ := do
  let answer ← Program.query (I := skynet) (.length keys)
  return answer.toInt.toNat

/-- The order in which `pairs` visits the keys of a table. -/
def pairs (keys : Finset ℕ) : Task P σ (List ℕ) := do
  let answer ← Program.query (I := skynet) (.pairs keys)
  return answer.toOrder

/-- `skynet.call`: wait at a point for the reply, and raise when the callee has raised. -/
def call (point : P) : Task P σ Unit := do
  match ← Program.await (I := skynet) point with
  | .raised => .fail .callFailed
  | _ => return ()

/-- A call of a service that is part of the model: the request travels, the callee runs, the reply
travels, and a failure of the callee is raised in the caller. -/
def rpc (request reply : P) (body : Task P σ α) : Task P σ α := do
  let _ ← Program.await (I := skynet) request
  let result ← body.attempt
  let _ ← Program.await (I := skynet) reply
  match result with
  | .ok value => return value
  | .error _ => .fail .callFailed

/-! ### Rules -/

section Rules

variable {σ' P' : Type} {E : Embedding skynet P σ P' σ'} {K : Contract skynet P' σ'}
  {raised : LuaError → Section skynet P' σ' → σ' → Prop} {current : Section skynet P' σ'}
  {whole : σ'}

theorem wpIn_mathRandom {limit : ℕ} {post : ℤ → Section skynet P' σ' → σ' → Prop}
    (h : ∀ value : ℤ, 1 ≤ value → value ≤ limit →
      post value { current with heard := current.heard ++ [.number value] } whole) :
    (mathRandom limit : Task P σ ℤ).wpIn E K post raised current whole := by
  rw [mathRandom, Program.wpIn_bind]
  intro answer hanswer
  cases answer with
  | number value =>
    obtain ⟨hlow, hhigh⟩ := of_decide_eq_true hanswer
    exact h value hlow hhigh
  | order _ => exact nomatch hanswer
  | ok => exact nomatch hanswer
  | raised => exact nomatch hanswer

theorem wpIn_osTime {post : ℤ → Section skynet P' σ' → σ' → Prop}
    (h : ∀ now : ℤ, post now { current with heard := current.heard ++ [.number now] } whole) :
    (osTime : Task P σ ℤ).wpIn E K post raised current whole := by
  rw [osTime, Program.wpIn_bind]
  intro answer hanswer
  cases answer with
  | number now => exact h now
  | order _ => exact nomatch hanswer
  | ok => exact nomatch hanswer
  | raised => exact nomatch hanswer

theorem wpIn_pairs {keys : Finset ℕ} {post : List ℕ → Section skynet P' σ' → σ' → Prop}
    (h : ∀ order : List ℕ, IsOrder order keys →
      post order { current with heard := current.heard ++ [.order order] } whole) :
    (pairs keys : Task P σ (List ℕ)).wpIn E K post raised current whole := by
  rw [pairs, Program.wpIn_bind]
  intro answer hanswer
  cases answer with
  | order order => exact h order (of_decide_eq_true hanswer)
  | number _ => exact nomatch hanswer
  | ok => exact nomatch hanswer
  | raised => exact nomatch hanswer

theorem wp_pairs {K : Contract skynet P σ} {keys : Finset ℕ}
    {post : List ℕ → Section skynet P σ → σ → Prop} {raised : LuaError → Section skynet P σ → σ → Prop}
    {current : Section skynet P σ} {state : σ}
    (h : ∀ order : List ℕ, IsOrder order keys →
      post order { current with heard := current.heard ++ [.order order] } state) :
    (pairs keys : Task P σ (List ℕ)).wp K post raised current state := by
  rw [pairs, Program.wp_bind]
  intro answer hanswer
  cases answer with
  | order order => exact h order (of_decide_eq_true hanswer)
  | number _ => exact nomatch hanswer
  | ok => exact nomatch hanswer
  | raised => exact nomatch hanswer

theorem wp_tableLength {K : Contract skynet P σ} {keys : Finset ℕ}
    {post : ℕ → Section skynet P σ → σ → Prop} {raised : LuaError → Section skynet P σ → σ → Prop}
    {current : Section skynet P σ} {state : σ}
    (h : ∀ length : ℕ, IsBorder length keys →
      post length { current with heard := current.heard ++ [.number length] } state) :
    (tableLength keys : Task P σ ℕ).wp K post raised current state := by
  rw [tableLength, Program.wp_bind]
  intro answer hanswer
  cases answer with
  | number value =>
    obtain ⟨hnonneg, hborder⟩ := of_decide_eq_true hanswer
    obtain ⟨length, rfl⟩ := Int.eq_ofNat_of_zero_le hnonneg
    exact h length hborder
  | order _ => exact nomatch hanswer
  | ok => exact nomatch hanswer
  | raised => exact nomatch hanswer

/-- A call returns or raises, whatever the reply. -/
theorem wpIn_call {point : P} {post : Unit → Section skynet P' σ' → σ' → Prop}
    (h : (E.handle point).wp K
      (fun _ current whole ↦ post () current whole ∧ raised .callFailed current whole)
      raised current whole) :
    (call point : Task P σ Unit).wpIn E K post raised current whole := by
  rw [call, Program.wpIn_bind, Program.wpIn_await]
  refine Program.wp_mono (fun reply _ _ hboth ↦ ?_) (fun _ _ _ hraised ↦ hraised) h
  cases reply with
  | raised => exact hboth.2
  | number _ => exact hboth.1
  | order _ => exact hboth.1
  | ok => exact hboth.1

/-- The same, with what holds when the call returns and what holds when it raises. -/
theorem wpIn_call_of {point : P} {post : Unit → Section skynet P' σ' → σ' → Prop}
    (h : (E.handle point).wp K
      (fun reply current whole ↦ (reply ≠ .raised → post () current whole) ∧
        (reply = .raised → raised .callFailed current whole))
      raised current whole) :
    (call point : Task P σ Unit).wpIn E K post raised current whole := by
  rw [call, Program.wpIn_bind, Program.wpIn_await]
  refine Program.wp_mono (fun reply _ _ hboth ↦ ?_) (fun _ _ _ hraised ↦ hraised) h
  cases reply with
  | raised => exact hboth.2 rfl
  | number _ => exact hboth.1 nofun
  | order _ => exact hboth.1 nofun
  | ok => exact hboth.1 nofun

/-- A call of a service of the model, as the whole runs it. -/
theorem wpIn_rpc
    (hsafe : ∀ point post raised raised' current whole,
      (E.handle point).wp K post raised current whole → (E.handle point).wp K post raised' current whole)
    {request reply : P} {body : Task P σ α} {post : α → Section skynet P' σ' → σ' → Prop} :
    (rpc request reply body).wpIn E K post raised current whole ↔
      (Program.await (I := skynet) request).wpIn E K (fun _ ↦ body.wpIn E K
        (fun value ↦ (Program.await (I := skynet) reply).wpIn E K (fun _ ↦ post value) raised)
        (fun _ ↦ (Program.await (I := skynet) reply).wpIn E K (fun _ ↦ raised .callFailed) raised))
        raised current whole := by
  unfold rpc
  rw [Program.wpIn_bind]
  refine ⟨fun h ↦ ?_, fun h ↦ ?_⟩
  · refine Program.wpIn_mono (fun _ current whole h ↦ ?_) (fun _ _ _ h ↦ h) h
    rw [Program.wpIn_bind, Program.wpIn_attempt hsafe] at h
    refine Program.wpIn_mono (fun value current whole h ↦ ?_) (fun error current whole h ↦ ?_) h
    · rw [Program.wpIn_bind] at h
      exact h
    · rw [Program.wpIn_bind] at h
      exact h
  · refine Program.wpIn_mono (fun _ current whole h ↦ ?_) (fun _ _ _ h ↦ h) h
    rw [Program.wpIn_bind, Program.wpIn_attempt hsafe]
    refine Program.wpIn_mono (fun value current whole h ↦ ?_) (fun error current whole h ↦ ?_) h
    · rw [Program.wpIn_bind]
      exact h
    · rw [Program.wpIn_bind]
      exact h

/-- A reply travels: the section ends, and `next` runs when the reply arrives. -/
def Replies {P σ : Type} (K : Contract skynet P σ) (point : P) (next : Section skynet P σ → σ → Prop)
    (current : Section skynet P σ) (state : σ) : Prop :=
  K.Ends current (current.forks ++ [point]) state ∧ ∀ (reply : Answer) (later : σ),
    K.rely point state later → next ⟨point, later, [reply], []⟩ later

/-- A call: the section ends, and goes on or fails with the reply. -/
theorem wp_call_of {K : Contract skynet P σ} {point : P}
    {post : Unit → Section skynet P σ → σ → Prop} {raised : LuaError → Section skynet P σ → σ → Prop}
    {current : Section skynet P σ} {state : σ}
    (h : Replies K point (fun current state ↦ (.raised ∉ current.heard → post () current state) ∧
      (.raised ∈ current.heard → raised .callFailed current state)) current state) :
    (call point : Task P σ Unit).wp K post raised current state := by
  rw [call, Program.wp_bind]
  refine ⟨h.1, fun reply later hrely ↦ ?_⟩
  obtain ⟨hreturns, hraises⟩ := h.2 reply later hrely
  cases reply with
  | raised => exact hraises (by simp)
  | number _ => exact hreturns (by simp)
  | order _ => exact hreturns (by simp)
  | ok => exact hreturns (by simp)

/-- A call of a service of the model: the section of the caller ends, the handler of the callee runs
in a section of its own, and the caller goes on when the reply arrives. -/
theorem wp_rpc {K : Contract skynet P σ} {request reply : P} {body : Task P σ α}
    {post : α → Section skynet P σ → σ → Prop} {raised : LuaError → Section skynet P σ → σ → Prop}
    {current : Section skynet P σ} {state : σ} :
    (rpc request reply body).wp K post raised current state ↔
      Replies K request (body.wp K (fun value ↦ Replies K reply (post value))
        fun _ ↦ Replies K reply (raised .callFailed)) current state := by
  refine and_congr_right fun _ ↦ forall_congr' fun answer ↦ forall_congr' fun later ↦ ?_
  refine imp_congr_right fun _ ↦ ?_
  refine (Program.wp_bind body.attempt _ post raised _ later).trans ?_
  rw [Program.wp_attempt]
  exact Iff.rfl

end Rules

/-! ### Footprints -/

section Footprints

variable {F : Footprint skynet P σ} {state : σ}

@[simp]
theorem within_mathRandom (limit : ℕ) : (mathRandom limit : Task P σ ℤ).Within F state :=
  fun _ ↦ trivial

@[simp]
theorem within_osTime : (osTime : Task P σ ℤ).Within F state :=
  fun _ ↦ trivial

@[simp]
theorem within_pairs (keys : Finset ℕ) : (pairs keys : Task P σ (List ℕ)).Within F state :=
  fun _ ↦ trivial

theorem within_call {point : P} (hwait : F.waits point) (hfail : F.raises .callFailed) :
    (call point : Task P σ Unit).Within F state := by
  refine ⟨hwait, fun reply _ ↦ ?_⟩
  cases reply with
  | raised => exact hfail
  | number _ => exact trivial
  | order _ => exact trivial
  | ok => exact trivial

end Footprints

end SvrDemo.Skynet
