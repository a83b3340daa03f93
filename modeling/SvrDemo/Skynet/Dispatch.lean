import SvrDemo.Skynet.QueueRights

/-!
# One worker at a time

Every operation hands its rights on (`Memory.Fine.execute`). So no service gets two messages at a time, its messages are
taken in the order in which they were pushed, a queue with messages has an owner, and no thread uses what was freed,
with two exceptions: `skynet_context_new` sets `init` when it has already given back its reference, and reads the
handle for `skynet_error` when it has given away the queue too (`context_gone_before_init` and
`context_gone_before_error`).
-/

set_option autoImplicit false
set_option relaxedAutoImplicit false

namespace SvrDemo.Skynet

open Base Protocol

namespace Memory

variable {memory next : Memory} {rest : List Right} {s : ℕ} {context : Context} {q : MessageQueue}

/-- Any operation can be done, and it hands its rights on. The code outside is no operation, and only
`skynet_context_new` may find that its context is gone. -/
theorem Fine.execute (weight : ℤ) {op : Operation} (h : ∀ s, memory.Fine (op.rights ++ rest) s) (hacts : ¬ op.Acts)
    (hkept : memory.Keeps op) :
    ∃ next new, memory.execute weight op = some (next, new) ∧
      ∀ s, next.Fine (new.flatMap Operation.rights ++ rest) s := by
  cases op with
  | outside => exact absurd trivial hacts
  | callback s i n => exact absurd trivial hacts
  | init s => exact absurd trivial hacts
  | take =>
    rw [Memory.execute]
    cases hglobal : memory.globalQueue with
    | nil => exact ⟨_, _, rfl, h⟩
    | cons s₀ tail => exact ⟨_, _, rfl, fun s ↦ (h s).take hglobal⟩
  | grab s₀ =>
    obtain ⟨q, hqueue⟩ := ((h s₀).exists_of_owners (by simp [owners, Operation.rights])).1
    rw [Memory.execute, hqueue, Option.bind_eq_bind, Option.bind_some]
    cases hfind : memory.find s₀ with
    | none => exact ⟨_, _, rfl, h⟩
    | some context =>
      have hinit := Fine.init_of_find h hfind
      refine ⟨_, _, rfl, fun s ↦ ?_⟩
      have hgrab := (Fine.grabRef (s := s) h hfind).perm (List.Perm.swap ..)
      exact hgrab.loop_of_token (Function.update_self ..) hinit
  | mqRelease s₀ =>
    obtain ⟨q, hqueue⟩ := ((h s₀).exists_of_owners (by simp [owners, Operation.rights])).1
    rw [Memory.execute, hqueue, Option.bind_eq_bind, Option.bind_some]
    by_cases hrelease : q.release = true
    · rw [if_pos hrelease]
      refine ⟨_, _, rfl, fun s ↦ (h s).dropping_of_token ?_⟩
      cases h s₀ with
      | alive context other hcontext hother halive =>
        obtain rfl := Option.some.inj (hqueue.symm.trans hother)
        exact absurd (halive.release.symm.trans hrelease) Bool.false_ne_true
      | left other hcontext hother hleft => exact hcontext
      | gone hcontext hnone hgone => exact hcontext
    · rw [if_neg hrelease]
      obtain ⟨next, hnext, hfine⟩ := Fine.globalPush h
      exact ⟨next, [], by rw [hnext]; rfl, hfine⟩
  | drop s₀ =>
    obtain ⟨q, hqueue⟩ := ((h s₀).exists_of_owners (by simp [owners, Operation.rights])).1
    obtain ⟨items, hitems⟩ := (h s₀).exists_items hqueue
    rw [Memory.execute, hqueue, Option.bind_eq_bind, Option.bind_some]
    cases items with
    | nil =>
      obtain ⟨hnot, hfree⟩ := Fine.free (s := s₀) h hqueue hitems
      rw [MessageQueue.pop_nil hitems]
      exact ⟨_, _, if_neg hnot, fun s ↦ (Fine.free h hqueue hitems).2⟩
    | cons message items =>
      obtain ⟨q', hpop, hitems', hrelease, hflag⟩ := MessageQueue.pop_cons hitems
      rw [hpop]
      refine ⟨_, _, rfl, fun s ↦ ?_⟩
      rw [List.flatMap_append, rights_dropMessage, List.nil_append]
      exact (h s).takeMessage hqueue hitems hitems' hrelease hflag false
  | pop s₀ i n =>
    obtain ⟨context, q, hcontext, hqueue, halive⟩ := (h s₀).exists_of_ref (by simp [Operation.rights])
    obtain ⟨items, hitems⟩ := (h s₀).exists_items hqueue
    rw [Memory.execute, hqueue, Option.bind_eq_bind, Option.bind_some]
    by_cases hmore : i < n
    · rw [if_pos hmore]
      cases items with
      | nil =>
        rw [MessageQueue.pop_nil hitems]
        exact ⟨_, _, rfl, fun s ↦ Fine.leave h hqueue hitems⟩
      | cons message items =>
        obtain ⟨q', hpop, hitems', hrelease, hflag⟩ := MessageQueue.pop_cons hitems
        rw [hpop]
        exact ⟨_, _, rfl, fun s ↦ (h s).takeMessage hqueue hitems hitems' hrelease hflag true⟩
    · rw [if_neg hmore]
      exact ⟨_, _, rfl, h⟩
  | measure s₀ i n =>
    obtain ⟨context, q, hcontext, hqueue, halive⟩ := (h s₀).exists_of_ref (by simp [Operation.rights])
    have hinit : context.init = true := by
      by_contra hnot
      exact absurd (halive.init (Bool.not_eq_true _ ▸ hnot)).1 (by simp [Operation.rights])
    rw [Memory.execute, hcontext, hqueue]
    simp only [Option.bind_eq_bind, Option.bind_some]
    refine ⟨_, _, if_pos hinit, fun s ↦ ?_⟩
    exact (h s).queue { q with overload := 0 } hqueue rfl rfl (fun _ hqueued ↦ hqueued) rfl rfl rfl rfl (fun _ _ ↦ rfl)
  | requeue s₀ =>
    obtain ⟨context, q, hcontext, hqueue, halive⟩ := (h s₀).exists_of_ref (by simp [Operation.rights])
    rw [Memory.execute, hcontext, Option.bind_eq_bind, Option.bind_some]
    cases hglobal : memory.globalQueue with
    | nil => exact ⟨_, _, rfl, fun s ↦ (h s).token_of_loop.perm (List.Perm.swap ..)⟩
    | cons next tail =>
      refine ⟨_, _, rfl, fun s ↦ ((h s).token_of_loop.take hglobal).perm ?_⟩
      have hperm : ([.token s₀, .ref s₀] ++ [.token next] : List Right).Perm ([.token next] ++ [.token s₀, .ref s₀]) :=
        List.perm_append_comm
      exact hperm.append_right rest
  | pushBack s₀ =>
    obtain ⟨q, hqueue⟩ := ((h s₀).exists_of_owners (by simp [owners, Operation.rights])).1
    obtain ⟨next, hnext, hfine⟩ := Fine.globalPush h
    refine ⟨next, [], ?_, hfine⟩
    rw [Memory.execute, hqueue, Option.bind_eq_bind, Option.bind_some, hnext]
    rfl
  | release s₀ => exact Fine.releaseContext h (fun _ hfine ↦ hfine) fun _ hfine ↦ hfine
  | markRelease s₀ =>
    obtain ⟨context, q, next, hcontext, hqueue, hnext, hfine⟩ := Fine.markRelease h
    refine ⟨_, [], ?_, hfine⟩
    rw [Memory.execute, hcontext, hqueue]
    simp only [Option.bind_eq_bind, Option.bind_some, hnext]
  | send s₀ message =>
    rw [Memory.execute]
    cases hfind : memory.find s₀ with
    | none => exact ⟨_, _, rfl, h⟩
    | some context => exact ⟨_, _, rfl, fun s ↦ Fine.grabRef h hfind⟩
  | push s₀ message =>
    obtain ⟨context, q, hcontext, hqueue, halive⟩ := (h s₀).exists_of_ref (by simp [Operation.rights])
    obtain ⟨next, hnext, hfine⟩ := Fine.mqPush h hqueue message
    refine ⟨_, [.release s₀], ?_, hfine⟩
    rw [Memory.execute, hcontext, hqueue]
    simp only [Option.bind_eq_bind, Option.bind_some, hnext]
  | retire s₀ =>
    rw [Memory.execute]
    cases hfind : memory.find s₀ with
    | none => exact ⟨_, _, rfl, h⟩
    | some context => exact ⟨_, _, rfl, fun s ↦ Fine.unregister h hfind⟩
  | launched s₀ =>
    refine Fine.releaseContext (fun s ↦ (h s).perm (List.Perm.swap ..)) (fun next hfine s ↦ ?_) fun _ hfine ↦ hfine
    refine (((hfine s).perm (List.Perm.swap ..)).token_of_fresh fun context hcontext ↦ .inr ?_).perm (List.Perm.swap ..)
    exact Fine.unregistered_of_mark hfine hcontext
  | opened s₀ =>
    obtain ⟨context, hcontext⟩ := Option.ne_none_iff_exists'.mp hkept
    refine ⟨_, _, by rw [Memory.execute, hcontext]; rfl, fun s ↦ ?_⟩
    refine (Fine.setInit h hcontext).token_of_fresh fun context' hcontext' ↦ .inl ?_
    rw [contexts_setContext_self] at hcontext'
    obtain rfl := Option.some.inj hcontext'
    rfl
  | announce s₀ birth =>
    obtain ⟨context, hcontext⟩ := Option.ne_none_iff_exists'.mp hkept.1
    refine ⟨memory, [], ?_, h⟩
    rw [Memory.execute, hcontext, Option.bind_eq_bind, Option.bind_some, if_pos hkept.2]
  | failed s₀ =>
    rw [Memory.execute]
    cases hfind : memory.find s₀ with
    | none =>
      refine ⟨_, _, rfl, fun s ↦ (h s).token_of_fresh fun context hcontext ↦ .inr ?_⟩
      have hfilter := Option.filter_eq_none_iff.mp hfind context hcontext
      simpa using hfilter
    | some context =>
      refine ⟨_, _, rfl, fun s ↦ ?_⟩
      refine (((Fine.unregister h hfind).perm (List.Perm.swap ..)).token_of_fresh fun context' hcontext' ↦ .inr ?_).perm
        (List.Perm.swap ..)
      rw [contexts_setContext_self] at hcontext'
      obtain rfl := Option.some.inj hcontext'
      rfl

end Memory

/-! ### Threads -/

/-- Whether an operation owns the queue of a service. -/
def Operation.owns (s : ℕ) : Operation → Bool
  | .grab s' => s' = s
  | .mqRelease s' => s' = s
  | .drop s' => s' = s
  | .pop s' _ _ => s' = s
  | .measure s' _ _ => s' = s
  | .callback s' _ _ => s' = s
  | .requeue s' => s' = s
  | .pushBack s' => s' = s
  | .init s' => s' = s
  | .launched s' => s' = s
  | .opened s' => s' = s
  | .failed s' => s' = s
  | _ => false

namespace Node

variable {weight : ℕ → ℤ} {state next : Node}

/-- The places where a queue is: in the global queue, and with the threads. -/
def places (state : Node) (s : ℕ) : ℕ :=
  state.memory.globalQueue.count s + state.threads.flatten.countP (Operation.owns s)

/-- Every service is as it should be. -/
def Sound (state : Node) : Prop := ∀ s, state.memory.Fine (held Operation.rights state.threads) s

/-- Where a thread is, any operation can be done. -/
theorem Sound.run (h : state.Sound) {i : ℕ} {op : Operation} {ops : List Operation}
    (hthread : state.threads[i]? = some (op :: ops)) (hacts : ¬ op.Acts) (hkept : state.memory.Keeps op) :
    ∃ next, (node weight).step state (.run i) = some next ∧ next.Sound := by
  obtain ⟨rest, hbefore, hafter⟩ := exists_frame Operation.rights hthread
  obtain ⟨memory, new, hexecute, hfine⟩ :=
    Memory.Fine.execute (weight i) (fun s ↦ (h s).perm hbefore.symm) hacts hkept
  refine ⟨⟨memory, state.threads.set i (new ++ ops)⟩, ?_, fun s ↦ (hfine s).perm (hafter new)⟩
  simp only [node, hthread, hexecute, Option.map_some]

theorem Sound.act (h : state.Sound) {i : ℕ} {op : Operation} {ops : List Operation}
    (hthread : state.threads[i]? = some (op :: ops)) {deed : Deed} {memory : Memory} {new : List Operation}
    (hact : state.memory.act deed = some (memory, new)) :
    (⟨memory, state.threads.set i ((new ++ [op]) ++ ops)⟩ : Node).Sound := by
  obtain ⟨rest, hbefore, hafter⟩ := exists_frame Operation.rights hthread
  have hall : ∀ s, memory.Fine (new.flatMap Operation.rights ++ held Operation.rights state.threads) s := by
    cases deed with
    | send s message =>
      obtain ⟨rfl, rfl⟩ := Prod.mk.inj (Option.some.inj hact)
      exact h
    | retire s =>
      obtain ⟨rfl, rfl⟩ := Prod.mk.inj (Option.some.inj hact)
      exact h
    | create s₀ =>
      obtain ⟨⟨hcontext, hqueue⟩, hnext⟩ := Option.ite_none_right_eq_some.mp hact
      obtain ⟨rfl, rfl⟩ := Prod.mk.inj (Option.some.inj hnext)
      exact fun s ↦ Memory.Fine.create h hcontext (Option.isNone_iff_eq_none.mp hqueue)
  refine fun s ↦ (hall s).perm ((hafter _).trans ?_)
  rw [List.flatMap_append, List.flatMap_singleton, List.append_assoc]
  exact hbefore.symm.append_left _

theorem Sound.finish (h : state.Sound) {i : ℕ} {op : Operation} {ops : List Operation}
    (hthread : state.threads[i]? = some (op :: ops)) {success : Bool} {new : List Operation}
    (hfinish : Node.finish success op = some new) :
    (⟨state.memory, state.threads.set i (new ++ ops)⟩ : Node).Sound := by
  obtain ⟨rest, hbefore, hafter⟩ := exists_frame Operation.rights hthread
  have hrights : (new.flatMap Operation.rights).Perm op.rights := by
    unfold Node.finish at hfinish
    split at hfinish
    · obtain rfl := Option.some.inj hfinish
      exact List.Perm.refl _
    · obtain rfl := Option.some.inj hfinish
      split
      · exact List.Perm.refl _
      · exact List.Perm.swap ..
    · exact absurd hfinish.symm (Option.some_ne_none _)
  exact fun s ↦ (h s).perm ((hafter new).trans ((hrights.append_right rest).trans hbefore.symm))

/-- What does not wait for code outside was an operation that could be done. -/
theorem not_acts_of_execute {memory next : Memory} {weight : ℤ} {op : Operation} {new : List Operation}
    (hexecute : memory.execute weight op = some (next, new)) : ¬ op.Acts ∧ memory.Keeps op := by
  constructor
  · intro hacts
    cases op
    case outside => exact absurd hexecute.symm (Option.some_ne_none _)
    case callback => exact absurd hexecute.symm (Option.some_ne_none _)
    case init => exact absurd hexecute.symm (Option.some_ne_none _)
    all_goals exact hacts
  · cases op
    case opened s =>
      obtain ⟨context, hcontext, -⟩ := Option.bind_eq_some_iff.mp hexecute
      exact Option.ne_none_iff_exists'.mpr ⟨context, hcontext⟩
    case announce s birth =>
      obtain ⟨context, hcontext, hrest⟩ := Option.bind_eq_some_iff.mp hexecute
      exact ⟨Option.ne_none_iff_exists'.mpr ⟨context, hcontext⟩, (Option.ite_none_right_eq_some.mp hrest).1⟩
    all_goals exact trivial

theorem Sound.step (h : state.Sound) {event : NodeEvent} (hstep : (node weight).step state event = some next) :
    next.Sound := by
  cases event with
  | run i =>
    cases hthread : state.threads[i]? with
    | none => simp [node, hthread] at hstep
    | some ops =>
      cases ops with
      | nil => simp [node, hthread] at hstep
      | cons op ops =>
        have hexecute := hstep
        simp only [node, hthread, Option.map_eq_some_iff] at hexecute
        obtain ⟨⟨memory, new⟩, hexecute, -⟩ := hexecute
        obtain ⟨hacts, hkept⟩ := not_acts_of_execute hexecute
        obtain ⟨other, hother, hsound⟩ := h.run hthread hacts hkept
        exact Option.some.inj (hother.symm.trans hstep) ▸ hsound
  | act i deed =>
    cases hthread : state.threads[i]? with
    | none => simp [node, hthread] at hstep
    | some ops =>
      cases ops with
      | nil => simp [node, hthread] at hstep
      | cons op ops =>
        simp only [node, hthread, Option.ite_none_right_eq_some, Option.map_eq_some_iff] at hstep
        obtain ⟨-, ⟨memory, new⟩, hact, rfl⟩ := hstep
        exact h.act hthread hact
  | finish i success =>
    cases hthread : state.threads[i]? with
    | none => simp [node, hthread] at hstep
    | some ops =>
      cases ops with
      | nil => simp [node, hthread] at hstep
      | cons op ops =>
        simp only [node, hthread, Option.map_eq_some_iff] at hstep
        obtain ⟨new, hfinish, rfl⟩ := hstep
        exact h.finish hthread hfinish

end Node

/-- Two workers, and two other threads. -/
def exampleNode : Node := .start 2 2

/-- A service is retired between the end of its `init` and the line after it: `skynet_context_new` sets `init` in a
context that was freed. -/
theorem context_gone_before_init : ∃ state, (node fun _ ↦ 0).Run (fun _ _ ↦ True) exampleNode state ∧
    state.threads[2]? = some [.opened 1, .outside] ∧ state.memory.contexts 1 = none := by
  obtain ⟨state, hrun, hvalue⟩ := (node fun _ ↦ 0).exists_run_of_playMeeting (fun _ _ ↦ True) exampleNode
    [.act 2 (.create 1), .finish 2 true, .run 2, .act 3 (.retire 1), .run 3, .run 3, .run 3]
    (fun state ↦ (state.threads[2]?, state.memory.contexts 1))
    (show _ = some (some [.opened 1, .outside], none) by decide +kernel)
  obtain ⟨hthread, hcontext⟩ := Prod.mk.inj hvalue
  exact ⟨state, hrun, hthread, hcontext⟩

/-- A service is retired when its queue is in the global queue: `skynet_context_new` reads the handle of a context that
was freed. -/
theorem context_gone_before_error : ∃ state, (node fun _ ↦ 0).Run (fun _ _ ↦ True) exampleNode state ∧
    state.threads[2]? = some [.announce 1 1, .outside] ∧ state.memory.contexts 1 = none := by
  obtain ⟨state, hrun, hvalue⟩ := (node fun _ ↦ 0).exists_run_of_playMeeting (fun _ _ ↦ True) exampleNode
    [.act 2 (.create 1), .finish 2 true, .run 2, .run 2, .run 2, .act 3 (.retire 1), .run 3, .run 3, .run 3]
    (fun state ↦ (state.threads[2]?, state.memory.contexts 1))
    (show _ = some (some [.announce 1 1, .outside], none) by decide +kernel)
  obtain ⟨hthread, hcontext⟩ := Prod.mk.inj hvalue
  exact ⟨state, hrun, hthread, hcontext⟩

end SvrDemo.Skynet
