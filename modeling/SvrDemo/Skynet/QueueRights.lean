import SvrDemo.Skynet.MessageQueue
import SvrDemo.Protocol.Rights
import SvrDemo.Protocol.RingBuffer

/-!
# The rights of the threads

A queue has one owner at most: the global queue, a worker, the thread that creates its service, or the one that drops
its messages. That is the right to work on it, which the operations hand on (`Operation.rights`). A context has as many
references as operations that will give one back, and one for its handle. When the last one is gone an operation marks
the queue, and only then are its messages dropped.

`Memory.Fine` says so of one service, and the lemmas after it are what may happen to a service.
-/

set_option autoImplicit false
set_option relaxedAutoImplicit false

namespace SvrDemo.Skynet

open Base Protocol

/-! ### Queues -/

namespace MessageQueue

variable {q : MessageQueue} {items : List Message} {message : Message}

/-- The ring buffer of a queue. -/
def ring (q : MessageQueue) : RingBuffer Message := ⟨q.cap, q.head, q.tail, q.queue⟩

@[simp]
theorem ring_raiseOverload (length turns : ℕ) (q : MessageQueue) : (raiseOverload length turns q).ring = q.ring := by
  induction turns generalizing q with
  | zero => rfl
  | succ turns ih =>
    rw [raiseOverload]
    split
    · rw [ih]
      rfl
    · rfl

@[simp]
theorem release_raiseOverload (length turns : ℕ) (q : MessageQueue) :
    (raiseOverload length turns q).release = q.release := by
  induction turns generalizing q with
  | zero => rfl
  | succ turns ih =>
    rw [raiseOverload]
    split
    · rw [ih]
    · rfl

@[simp]
theorem inGlobal_raiseOverload (length turns : ℕ) (q : MessageQueue) :
    (raiseOverload length turns q).inGlobal = q.inGlobal := by
  induction turns generalizing q with
  | zero => rfl
  | succ turns ih =>
    rw [raiseOverload]
    split
    · rw [ih]
    · rfl

theorem holds_create : create.ring.Holds [] := RingBuffer.holds_empty (show 0 < defaultQueueSize by decide)

theorem pop_nil (h : q.ring.Holds []) :
    q.pop = (none, { q with overloadThreshold := mqOverload, inGlobal := false }) :=
  if_neg fun hne ↦ hne (h.head_eq_tail_iff.mpr rfl)

theorem pop_cons (h : q.ring.Holds (message :: items)) : ∃ next, q.pop = (some message, next) ∧
    next.ring.Holds items ∧ next.release = q.release ∧ next.inGlobal = q.inGlobal := by
  obtain ⟨hfirst, hrest⟩ := h.pop
  have hne : ¬ q.ring.head = q.ring.tail := fun heq ↦ List.cons_ne_nil _ _ (h.head_eq_tail_iff.mp heq)
  rw [RingBuffer.pop, if_neg hne] at hfirst hrest
  have hslot : q.queue q.head = some message := hfirst
  rw [show q.pop = _ from if_pos hne, hslot]
  refine ⟨_, rfl, ?_, ?_, ?_⟩
  · rw [ring_raiseOverload]
    exact hrest
  · rw [release_raiseOverload]
  · rw [inGlobal_raiseOverload]

theorem holds_put (h : q.ring.Holds items) (message : Message) : (q.put message).ring.Holds (items ++ [message]) := by
  have hhead : q.head < q.cap := h.head
  have hpush : (q.ring.push (q.cap * 2) message).Holds (items ++ [message]) := h.push (show q.cap < q.cap * 2 by omega)
  have hring : (q.put message).ring = q.ring.push (q.cap * 2) message := by
    unfold put RingBuffer.push
    change ring (if q.head = RingBuffer.next q.cap q.tail then _ else _) =
      if q.head = RingBuffer.next q.cap q.tail then _ else _
    split <;> rfl
  exact hring ▸ hpush

@[simp]
theorem release_put (q : MessageQueue) (message : Message) : (q.put message).release = q.release := by
  unfold put
  exact (apply_ite release _ _ _).trans (ite_self _)

@[simp]
theorem inGlobal_put (q : MessageQueue) (message : Message) : (q.put message).inGlobal = q.inGlobal := by
  unfold put
  exact (apply_ite inGlobal _ _ _).trans (ite_self _)

end MessageQueue

/-! ### Rights -/

/-- What an operation owns: the queue of a service, before its loop, in its loop, while the service is created, or while
its messages are dropped; a reference to a context; or the duty to mark a queue. -/
inductive Right
  | token (s : ℕ)
  | loop (s : ℕ)
  | fresh (s : ℕ)
  | dropping (s : ℕ)
  | ref (s : ℕ)
  | mark (s : ℕ)
  deriving DecidableEq

def Right.service : Right → ℕ
  | .token s => s
  | .loop s => s
  | .fresh s => s
  | .dropping s => s
  | .ref s => s
  | .mark s => s

def Operation.rights : Operation → List Right
  | .outside => []
  | .take => []
  | .grab s => [.token s]
  | .mqRelease s => [.token s]
  | .drop s => [.dropping s]
  | .pop s _ _ => [.loop s, .ref s]
  | .measure s _ _ => [.loop s, .ref s]
  | .callback s _ _ => [.loop s, .ref s]
  | .requeue s => [.loop s, .ref s]
  | .pushBack s => [.token s]
  | .release s => [.ref s]
  | .markRelease s => [.mark s]
  | .send _ _ => []
  | .push s _ => [.ref s]
  | .retire _ => []
  | .init s => [.fresh s, .ref s]
  | .launched s => [.fresh s, .ref s]
  | .opened s => [.fresh s]
  | .announce _ _ => []
  | .failed s => [.fresh s]

namespace Memory

variable {memory next : Memory} {rest gone new : List Right} {s : ℕ} {context : Context} {q : MessageQueue}

/-- The owners of a queue. -/
def owners (memory : Memory) (held : List Right) (s : ℕ) : ℕ :=
  memory.globalQueue.count s + held.count (.token s) + held.count (.loop s) + held.count (.fresh s) +
    held.count (.dropping s)

/-- The messages of a queue are those that were pushed and not taken. -/
def Queued (memory : Memory) (s : ℕ) (q : MessageQueue) (waits : Prop) : Prop :=
  ∃ items, q.ring.Holds items ∧ memory.sent s = (memory.taken s).map Prod.fst ++ items ∧ (items ≠ [] → waits)

/-- A service with its queue. -/
structure Alive (memory : Memory) (held : List Right) (s : ℕ) (context : Context) (q : MessageQueue) : Prop where
  release : q.release = false
  owners : memory.owners held s = if q.inGlobal then 1 else 0
  ref : context.ref = (if context.registered then 1 else 0) + held.count (.ref s)
  mark : held.count (.mark s) = if context.ref = 0 then 1 else 0
  dropping : held.count (.dropping s) = 0
  init : context.init = false → held.count (.loop s) = 0 ∧ (context.registered = true → held.count (.fresh s) = 1)
  queued : memory.Queued s q (q.inGlobal = true)

/-- The queue of a service that is gone, until its messages are dropped. -/
structure Left (memory : Memory) (held : List Right) (s : ℕ) (q : MessageQueue) : Prop where
  release : q.release = true
  owners : memory.owners held s = 1
  ref : held.count (.ref s) = 0
  mark : held.count (.mark s) = 0
  queued : memory.Queued s q True

/-- There is no such service. -/
structure Gone (memory : Memory) (held : List Right) (s : ℕ) : Prop where
  owners : memory.owners held s = 0
  ref : held.count (.ref s) = 0
  mark : held.count (.mark s) = 0
  sent : memory.sent s = (memory.taken s).map Prod.fst

/-- A service is there, or only its queue, or nothing. -/
inductive Fine (memory : Memory) (held : List Right) (s : ℕ) : Prop
  | alive (context : Context) (q : MessageQueue) (hcontext : memory.contexts s = some context)
      (hqueue : memory.queues s = some q) (h : memory.Alive held s context q)
  | left (q : MessageQueue) (hcontext : memory.contexts s = none) (hqueue : memory.queues s = some q)
      (h : memory.Left held s q)
  | gone (hcontext : memory.contexts s = none) (hqueue : memory.queues s = none) (h : memory.Gone held s)

/-- What a step may do at a service without a change of its context and of its queue. -/
theorem Fine.congr {held held' : List Right} (h : memory.Fine held s) (hcontext : next.contexts s = memory.contexts s)
    (hqueue : next.queues s = memory.queues s) (hsent : next.sent s = memory.sent s)
    (htaken : next.taken s = memory.taken s) (howners : next.owners held' s = memory.owners held s)
    (hloop : held'.count (.loop s) ≤ held.count (.loop s)) (hfresh : held'.count (.fresh s) = held.count (.fresh s))
    (hdropping : held'.count (.dropping s) ≤ held.count (.dropping s))
    (href : held'.count (.ref s) = held.count (.ref s)) (hmark : held'.count (.mark s) = held.count (.mark s)) :
    next.Fine held' s := by
  have hqueued : ∀ q waits, memory.Queued s q waits → next.Queued s q waits := by
    intro q waits hitems
    rwa [Queued, hsent, htaken]
  cases h with
  | alive context q hcontext' hqueue' h =>
    refine .alive context q (hcontext.trans hcontext') (hqueue.trans hqueue') ⟨h.release, howners.trans h.owners,
      href.symm ▸ h.ref, hmark.trans h.mark, ?_, fun hinit ↦ ⟨?_, fun hregistered ↦ ?_⟩, hqueued _ _ h.queued⟩
    · exact Nat.le_zero.mp (hdropping.trans (Nat.le_of_eq h.dropping))
    · exact Nat.le_zero.mp (hloop.trans (Nat.le_of_eq (h.init hinit).1))
    · exact hfresh.trans ((h.init hinit).2 hregistered)
  | left q hcontext' hqueue' h =>
    exact .left q (hcontext.trans hcontext') (hqueue.trans hqueue') ⟨h.release, howners.trans h.owners,
      href.trans h.ref, hmark.trans h.mark, hqueued _ _ h.queued⟩
  | gone hcontext' hqueue' h =>
    exact .gone (hcontext.trans hcontext') (hqueue.trans hqueue') ⟨howners.trans h.owners, href.trans h.ref,
      hmark.trans h.mark, by rw [hsent, htaken, h.sent]⟩

/-- A step at one service does nothing to the others. -/
theorem Fine.other {s₀ : ℕ} (gone new : List Right) (hne : s ≠ s₀) (h : memory.Fine (gone ++ rest) s)
    (hgone : ∀ right ∈ gone, right.service = s₀) (hnew : ∀ right ∈ new, right.service = s₀)
    (hcontext : next.contexts s = memory.contexts s)
    (hqueue : next.queues s = memory.queues s) (hsent : next.sent s = memory.sent s)
    (htaken : next.taken s = memory.taken s) (hglobal : next.globalQueue.count s = memory.globalQueue.count s) :
    next.Fine (new ++ rest) s := by
  have hcount : ∀ right : Right, right.service = s → (new ++ rest).count right = (gone ++ rest).count right := by
    intro right hright
    have hzero : ∀ rights : List Right, (∀ right ∈ rights, right.service = s₀) → rights.count right = 0 :=
      fun rights hrights ↦ List.count_eq_zero_of_not_mem fun hmem ↦ hne (hright.symm.trans (hrights right hmem))
    rw [List.count_append, List.count_append, hzero gone hgone, hzero new hnew]
  refine h.congr hcontext hqueue hsent htaken ?_ (Nat.le_of_eq (hcount _ rfl)) (hcount _ rfl)
    (Nat.le_of_eq (hcount _ rfl)) (hcount _ rfl) (hcount _ rfl)
  rw [owners, owners, hglobal, hcount (.token s) rfl, hcount (.loop s) rfl, hcount (.fresh s) rfl,
    hcount (.dropping s) rfl]

/-- A context to which somebody has a reference is there. -/
theorem Fine.exists_of_ref {held : List Right} (h : memory.Fine held s) (href : 0 < held.count (.ref s)) :
    ∃ context q, memory.contexts s = some context ∧ memory.queues s = some q ∧ memory.Alive held s context q := by
  cases h with
  | alive context q hcontext hqueue h => exact ⟨context, q, hcontext, hqueue, h⟩
  | left q hcontext hqueue h => exact absurd h.ref (Nat.ne_of_gt href)
  | gone hcontext hqueue h => exact absurd h.ref (Nat.ne_of_gt href)

/-- So is a registered context. -/
theorem Fine.exists_of_find {held : List Right} (h : memory.Fine held s) (hfind : memory.find s = some context) :
    context.registered = true ∧ ∃ q, memory.contexts s = some context ∧ memory.queues s = some q ∧
      memory.Alive held s context q := by
  obtain ⟨hcontext, hregistered⟩ := Option.filter_eq_some_iff.mp hfind
  refine ⟨hregistered, ?_⟩
  cases h with
  | alive context' q hcontext' hqueue h =>
    obtain rfl := Option.some.inj (hcontext.symm.trans hcontext')
    exact ⟨q, hcontext, hqueue, h⟩
  | left q hcontext' hqueue h => exact absurd (hcontext'.symm.trans hcontext).symm (Option.some_ne_none _)
  | gone hcontext' hqueue h => exact absurd (hcontext'.symm.trans hcontext).symm (Option.some_ne_none _)

/-- A queue with an owner is there. -/
theorem Fine.exists_of_owners {held : List Right} (h : memory.Fine held s) (howners : 0 < memory.owners held s) :
    (∃ q, memory.queues s = some q) ∧ memory.owners held s = 1 := by
  cases h with
  | alive context q hcontext hqueue h =>
    refine ⟨⟨q, hqueue⟩, ?_⟩
    rw [h.owners] at howners ⊢
    split
    · rfl
    · next hnot =>
      rw [if_neg hnot] at howners
      exact absurd howners (Nat.lt_irrefl 0)
  | left q hcontext hqueue h => exact ⟨⟨q, hqueue⟩, h.owners⟩
  | gone hcontext hqueue h => exact absurd h.owners (Nat.ne_of_gt howners)

/-! ### Operations -/

/-- The owner of a queue puts it in the global queue, where it is not. -/
theorem Fine.globalPush {s₀ : ℕ} (h : ∀ s, memory.Fine (.token s₀ :: rest) s) :
    ∃ next, memory.globalPush s₀ = some next ∧ ∀ s, next.Fine rest s := by
  have hnot : s₀ ∉ memory.globalQueue := by
    have hone := (h s₀).exists_of_owners (by simp [owners])
    have hall := hone.2
    simp only [owners, List.count_cons_self] at hall
    exact List.count_eq_zero.mp (by omega)
  refine ⟨_, if_neg hnot, fun s ↦ (h s).congr rfl rfl rfl rfl ?_ ?_ ?_ ?_ ?_ ?_⟩
  · simp only [owners, List.count_append, List.count_cons, List.count_nil]
    by_cases hs : s₀ = s
    · simp [hs]
      omega
    · simp [hs]
  all_goals simp

theorem Fine.take {s₀ : ℕ} {tail : List ℕ} (h : memory.Fine rest s) (hglobal : memory.globalQueue = s₀ :: tail) :
    ({ memory with globalQueue := tail } : Memory).Fine (.token s₀ :: rest) s := by
  refine h.congr rfl rfl rfl rfl ?_ ?_ ?_ ?_ ?_ ?_
  · simp only [owners, List.count_cons, hglobal]
    by_cases hs : s₀ = s
    · simp [hs]
      omega
    · simp [hs]
  all_goals simp

theorem Fine.perm {held held' : List Right} (h : memory.Fine held s) (hperm : held'.Perm held) :
    memory.Fine held' s := by
  refine h.congr rfl rfl rfl rfl ?_ (Nat.le_of_eq (hperm.count_eq _)) (hperm.count_eq _)
    (Nat.le_of_eq (hperm.count_eq _)) (hperm.count_eq _) (hperm.count_eq _)
  rw [owners, owners, hperm.count_eq, hperm.count_eq, hperm.count_eq, hperm.count_eq]

/-- A worker leaves the loop. -/
theorem Fine.token_of_loop {s₀ : ℕ} (h : memory.Fine (.loop s₀ :: rest) s) : memory.Fine (.token s₀ :: rest) s := by
  refine h.congr rfl rfl rfl rfl ?_ ?_ ?_ ?_ ?_ ?_
  · simp only [owners, List.count_cons]
    by_cases hs : s₀ = s
    · simp [hs]
      omega
    · simp [hs]
  · simp [List.count_cons]
  all_goals simp

/-- A worker begins the loop of a service that is there. -/
theorem Fine.loop_of_token {s₀ : ℕ} (h : memory.Fine (.token s₀ :: rest) s)
    (hcontext : memory.contexts s₀ = some context) (hinit : context.init = true) :
    memory.Fine (.loop s₀ :: rest) s := by
  by_cases hs : s = s₀
  · subst hs
    cases h with
    | alive other q hother hqueue h =>
      obtain rfl := Option.some.inj (hcontext.symm.trans hother)
      refine .alive context q hcontext hqueue ⟨h.release, ?_, by simpa using h.ref, by simpa using h.mark,
        by simpa using h.dropping, fun hnot ↦ absurd (hnot.symm.trans hinit) (by simp), h.queued⟩
      rw [← h.owners]
      simp [owners]
      omega
    | left q hnone hqueue h => exact absurd (hnone.symm.trans hcontext).symm (Option.some_ne_none _)
    | gone hnone hqueue h => exact absurd (hnone.symm.trans hcontext).symm (Option.some_ne_none _)
  · exact Fine.other [_] [_] hs h (List.forall_mem_singleton.mpr rfl)
      (List.forall_mem_singleton.mpr rfl) rfl rfl rfl rfl rfl

/-- A thread that creates a service has done so, or has failed. -/
theorem Fine.token_of_fresh {s₀ : ℕ} (h : memory.Fine (.fresh s₀ :: rest) s)
    (hcontext : ∀ context, memory.contexts s₀ = some context → context.init = true ∨ context.registered = false) :
    memory.Fine (.token s₀ :: rest) s := by
  by_cases hs : s = s₀
  · subst hs
    have howners : memory.owners (.token s :: rest) s = memory.owners (.fresh s :: rest) s := by
      simp [owners]
      omega
    cases h with
    | alive context q hsome hqueue h =>
      refine .alive context q hsome hqueue ⟨h.release, howners.trans h.owners, by simpa using h.ref,
        by simpa using h.mark, by simpa using h.dropping,
        fun hnot ↦ ⟨by simpa using (h.init hnot).1, fun hregistered ↦ ?_⟩, h.queued⟩
      rcases hcontext context hsome with hinit | hnone
      · exact absurd (hnot.symm.trans hinit) (by simp)
      · exact absurd (hnone.symm.trans hregistered) (by simp)
    | left q hnone hqueue h =>
      exact .left q hnone hqueue ⟨h.release, howners.trans h.owners, by simpa using h.ref, by simpa using h.mark,
        h.queued⟩
    | gone hnone hqueue h =>
      exact .gone hnone hqueue ⟨howners.trans h.owners, by simpa using h.ref, by simpa using h.mark, h.sent⟩
  · exact Fine.other [_] [_] hs h (List.forall_mem_singleton.mpr rfl)
      (List.forall_mem_singleton.mpr rfl) rfl rfl rfl rfl rfl

/-- The messages of a queue are dropped when its context is gone. -/
theorem Fine.dropping_of_token {s₀ : ℕ} (h : memory.Fine (.token s₀ :: rest) s) (hcontext : memory.contexts s₀ = none) :
    memory.Fine (.dropping s₀ :: rest) s := by
  by_cases hs : s = s₀
  · subst hs
    have howners : memory.owners (.dropping s :: rest) s = memory.owners (.token s :: rest) s := by
      simp [owners]
      omega
    cases h with
    | alive context q hsome hqueue h => exact absurd (hcontext.symm.trans hsome).symm (Option.some_ne_none _)
    | left q hnone hqueue h =>
      exact .left q hnone hqueue ⟨h.release, howners.trans h.owners, by simpa using h.ref, by simpa using h.mark,
        h.queued⟩
    | gone hnone hqueue h =>
      exact .gone hnone hqueue ⟨howners.trans h.owners, by simpa using h.ref, by simpa using h.mark, h.sent⟩
  · exact Fine.other [_] [_] hs h (List.forall_mem_singleton.mpr rfl)
      (List.forall_mem_singleton.mpr rfl) rfl rfl rfl rfl rfl

variable (gone new)

/-- Something happens at a context. -/
theorem Fine.setContext {s₀ : ℕ} {context' : Context} (h : memory.Fine (gone ++ rest) s)
    (hcontext : memory.contexts s₀ = some context) (hgone : ∀ right ∈ gone, right.service = s₀)
    (hnew : ∀ right ∈ new, right.service = s₀)
    (halive : ∀ q, memory.Alive (gone ++ rest) s₀ context q →
      (memory.setContext s₀ (some context')).Alive (new ++ rest) s₀ context' q) :
    (memory.setContext s₀ (some context')).Fine (new ++ rest) s := by
  by_cases hs : s = s₀
  · subst hs
    cases h with
    | alive other q hother hqueue h =>
      obtain rfl := Option.some.inj (hcontext.symm.trans hother)
      exact .alive context' q (Function.update_self ..) hqueue (halive q h)
    | left q hnone hqueue h => exact absurd (hnone.symm.trans hcontext).symm (Option.some_ne_none _)
    | gone hnone hqueue h => exact absurd (hnone.symm.trans hcontext).symm (Option.some_ne_none _)
  · exact Fine.other gone new hs h hgone hnew (Function.update_of_ne hs ..) rfl rfl rfl rfl

variable {gone new}

@[simp]
theorem owners_setContext (memory : Memory) (s₀ : ℕ) (context : Option Context) (held : List Right) (s : ℕ) :
    (memory.setContext s₀ context).owners held s = memory.owners held s := rfl

@[simp]
theorem contexts_setContext_self (memory : Memory) (s : ℕ) (context : Option Context) :
    (memory.setContext s context).contexts s = context := Function.update_self ..

@[simp]
theorem owners_cons_ref (memory : Memory) (s₀ : ℕ) (held : List Right) (s : ℕ) :
    memory.owners (.ref s₀ :: held) s = memory.owners held s := by
  simp [owners]

@[simp]
theorem owners_cons_mark (memory : Memory) (s₀ : ℕ) (held : List Right) (s : ℕ) :
    memory.owners (.mark s₀ :: held) s = memory.owners held s := by
  simp [owners]

/-- A registered context, or one to which somebody has a reference, gets another reference. -/
theorem Fine.grabRef {s₀ : ℕ} (h : ∀ s, memory.Fine rest s) (hfind : memory.find s₀ = some context) :
    (memory.grabContext s₀ context).Fine (.ref s₀ :: rest) s := by
  obtain ⟨hregistered, q, hcontext, -, -⟩ := (h s₀).exists_of_find hfind
  refine Fine.setContext [] [.ref s₀] (h s) hcontext (List.forall_mem_nil _) (List.forall_mem_singleton.mpr rfl)
    fun q halive ↦ ?_
  obtain ⟨hrelease, howners, href, hmark, hdropping, hinit, hqueued⟩ := halive
  rw [hregistered, if_pos rfl] at href
  rw [if_neg (by omega)] at hmark
  refine ⟨hrelease, ?_, ?_, ?_, ?_, ?_, hqueued⟩
  · simpa using howners
  · simp [hregistered, href]
    omega
  · simpa using hmark
  · simpa using hdropping
  · simpa using hinit

/-- A reference is given back. -/
theorem Fine.releaseRef {s₀ : ℕ} (h : ∀ s, memory.Fine (.ref s₀ :: rest) s)
    (hcontext : memory.contexts s₀ = some context) : context.ref ≠ 0 ∧
    (memory.setContext s₀ (some { context with ref := context.ref - 1 })).Fine
      ((if context.ref = 1 then [.mark s₀] else []) ++ rest) s := by
  have hpos : context.ref ≠ 0 := by
    obtain ⟨context', q, hcontext', -, halive⟩ := (h s₀).exists_of_ref (by simp)
    obtain rfl := Option.some.inj (hcontext.symm.trans hcontext')
    rw [halive.ref, List.count_cons_self]
    omega
  refine ⟨hpos, Fine.setContext [.ref s₀] _ (h s) hcontext (List.forall_mem_singleton.mpr rfl) ?_ fun q halive ↦ ?_⟩
  · intro right hmem
    split at hmem
    · rw [List.mem_singleton.mp hmem]
      rfl
    · exact absurd hmem List.not_mem_nil
  obtain ⟨hrelease, howners, href, hmark, hdropping, hinit, hqueued⟩ := halive
  rw [List.singleton_append] at howners href hmark hdropping hinit
  rw [if_neg hpos] at hmark
  rw [List.count_cons_self] at href
  have hnext : context.ref - 1 = (if context.registered then 1 else 0) + rest.count (.ref s₀) := by omega
  by_cases hlast : context.ref = 1
  · rw [if_pos hlast, List.singleton_append]
    refine ⟨hrelease, by simpa using howners, by simpa using hnext, ?_, by simpa using hdropping, by simpa using hinit,
      hqueued⟩
    simpa [hlast] using hmark
  · rw [if_neg hlast, List.nil_append]
    refine ⟨hrelease, by simpa using howners, hnext, ?_, by simpa using hdropping, by simpa using hinit, hqueued⟩
    rw [if_neg (show context.ref - 1 ≠ 0 by omega)]
    simpa using hmark

/-- The reference of the handle goes to the one who retires the service. -/
theorem Fine.unregister {s₀ : ℕ} (h : ∀ s, memory.Fine rest s) (hfind : memory.find s₀ = some context) :
    (memory.setContext s₀ (some { context with registered := false })).Fine (.ref s₀ :: rest) s := by
  obtain ⟨hregistered, q, hcontext, -, -⟩ := (h s₀).exists_of_find hfind
  refine Fine.setContext [] [.ref s₀] (h s) hcontext (List.forall_mem_nil _) (List.forall_mem_singleton.mpr rfl)
    fun q halive ↦ ?_
  obtain ⟨hrelease, howners, href, hmark, hdropping, hinit, hqueued⟩ := halive
  refine ⟨hrelease, ?_, ?_, ?_, ?_, ?_, hqueued⟩
  · simpa using howners
  · rw [hregistered, if_pos rfl] at href
    simp [href]
    omega
  · simpa using hmark
  · simpa using hdropping
  · intro hnot
    simpa using (hinit hnot).1

theorem Fine.setInit {s₀ : ℕ} (h : ∀ s, memory.Fine rest s) (hcontext : memory.contexts s₀ = some context) :
    (memory.setContext s₀ (some { context with init := true })).Fine rest s := by
  refine Fine.setContext [] [] (h s) hcontext (List.forall_mem_nil _) (List.forall_mem_nil _) fun q halive ↦ ?_
  exact ⟨halive.release, halive.owners, halive.ref, halive.mark, halive.dropping,
    fun hnot ↦ absurd hnot (by simp), halive.queued⟩

/-- Something happens at a queue that leaves its flags. -/
theorem Fine.queue {held : List Right} {s₀ : ℕ} (q' : MessageQueue) (h : memory.Fine held s)
    (hqueue : memory.queues s₀ = some q) (hrelease : q'.release = q.release) (hflag : q'.inGlobal = q.inGlobal)
    (hqueued : ∀ waits, memory.Queued s₀ q waits → next.Queued s₀ q' waits)
    (hcontexts : next.contexts = memory.contexts) (hglobal : next.globalQueue = memory.globalQueue)
    (hqueues : next.queues = Function.update memory.queues s₀ (some q'))
    (hsent : next.sent = memory.sent) (htaken : ∀ s, s ≠ s₀ → next.taken s = memory.taken s) : next.Fine held s := by
  have howners : next.owners held s = memory.owners held s := by rw [owners, owners, hglobal]
  by_cases hs : s = s₀
  · subst hs
    have hqueue' : next.queues s = some q' := by rw [hqueues, Function.update_self]
    cases h with
    | alive context other hcontext hother h =>
      obtain rfl := Option.some.inj (hqueue.symm.trans hother)
      refine .alive context q' (hcontexts ▸ hcontext) hqueue' ⟨hrelease.trans h.release, ?_, h.ref, h.mark, h.dropping,
        h.init, ?_⟩
      · rw [howners, hflag, h.owners]
      · rw [hflag]
        exact hqueued _ h.queued
    | left other hcontext hother h =>
      obtain rfl := Option.some.inj (hqueue.symm.trans hother)
      exact .left q' (hcontexts ▸ hcontext) hqueue' ⟨hrelease.trans h.release, howners.trans h.owners, h.ref, h.mark,
        hqueued _ h.queued⟩
    | gone hcontext hnone h => exact absurd (hnone.symm.trans hqueue).symm (Option.some_ne_none _)
  · refine h.congr (hcontexts ▸ rfl) ?_ (hsent ▸ rfl) (htaken s hs) howners (Nat.le_refl _) rfl (Nat.le_refl _) rfl rfl
    rw [hqueues, Function.update_of_ne hs]

/-- A message is taken. -/
theorem Fine.takeMessage {held : List Right} {s₀ : ℕ} {q' : MessageQueue} {message : Message} {items : List Message}
    (h : memory.Fine held s) (hqueue : memory.queues s₀ = some q) (hitems : q.ring.Holds (message :: items))
    (hitems' : q'.ring.Holds items) (hrelease : q'.release = q.release) (hflag : q'.inGlobal = q.inGlobal)
    (dispatched : Bool) : (memory.takeMessage s₀ q' message dispatched).Fine held s := by
  refine h.queue q' hqueue hrelease hflag (fun waits hqueued ↦ ?_) rfl rfl rfl rfl
    fun s hs ↦ Function.update_of_ne hs ..
  obtain ⟨others, hothers, hsent, hwaits⟩ := hqueued
  obtain rfl := hothers.unique hitems
  refine ⟨items, hitems', ?_, fun _ ↦ hwaits (List.cons_ne_nil _ _)⟩
  change memory.sent s₀ = (Function.update memory.taken s₀ _ s₀).map _ ++ items
  rw [hsent, Function.update_self, List.map_append, List.map_singleton, List.append_assoc, List.singleton_append]

/-- A worker finds a queue empty. -/
theorem Fine.leave {s₀ : ℕ} (h : ∀ s, memory.Fine (.loop s₀ :: .ref s₀ :: rest) s) (hqueue : memory.queues s₀ = some q)
    (hitems : q.ring.Holds []) : (memory.setQueue s₀ (some { q with
      overloadThreshold := mqOverload
      inGlobal := false })).Fine (.ref s₀ :: rest) s := by
  by_cases hs : s = s₀
  · subst hs
    obtain ⟨context, other, hcontext, hother, halive⟩ := (h s).exists_of_ref (by simp)
    obtain rfl := Option.some.inj (hqueue.symm.trans hother)
    obtain ⟨hrelease, howners, href, hmark, hdropping, hinit, hqueued⟩ := halive
    refine .alive context _ hcontext (Function.update_self ..) ⟨hrelease, ?_, by simpa using href, by simpa using hmark,
      by simpa using hdropping, fun hnot ↦ absurd (hinit hnot).1 (by simp), ?_⟩
    · have hone : memory.owners (.ref s :: rest) s + 1 ≤ 1 := by
        have hle : memory.owners (.loop s :: .ref s :: rest) s ≤ 1 := by
          rw [howners]
          split <;> omega
        refine Nat.le_trans (Nat.le_of_eq ?_) hle
        simp [owners]
        omega
      rw [if_neg Bool.false_ne_true]
      exact Nat.le_zero.mp (Nat.le_of_succ_le_succ hone)
    · obtain ⟨items, hholds, hsent, -⟩ := hqueued
      obtain rfl := hholds.unique hitems
      exact ⟨[], hitems, hsent, fun hne ↦ absurd rfl hne⟩
  · exact Fine.other [.loop s₀] [] hs (h s) (List.forall_mem_singleton.mpr rfl) (List.forall_mem_nil _) rfl
      (Function.update_of_ne hs ..) rfl rfl rfl

/-- All messages of a queue were dropped. -/
theorem Fine.free {s₀ : ℕ} (h : ∀ s, memory.Fine (.dropping s₀ :: rest) s) (hqueue : memory.queues s₀ = some q)
    (hitems : q.ring.Holds []) : s₀ ∉ memory.globalQueue ∧ (memory.setQueue s₀ none).Fine rest s := by
  have hleft : memory.contexts s₀ = none ∧ memory.Left (.dropping s₀ :: rest) s₀ q := by
    cases h s₀ with
    | alive context other hcontext hother halive => exact absurd halive.dropping (by simp)
    | left other hcontext hother hleft =>
      obtain rfl := Option.some.inj (hqueue.symm.trans hother)
      exact ⟨hcontext, hleft⟩
    | gone hcontext hnone hgone => exact absurd (hnone.symm.trans hqueue).symm (Option.some_ne_none _)
  obtain ⟨hcontext, hrelease, howners, href, hmark, hqueued⟩ := hleft
  have hzero : memory.owners rest s₀ = 0 := by
    simp only [owners, List.count_cons] at howners ⊢
    simp at howners
    omega
  refine ⟨List.count_eq_zero.mp (by unfold owners at hzero; omega), ?_⟩
  by_cases hs : s = s₀
  · subst hs
    obtain ⟨items, hholds, hsent, -⟩ := hqueued
    obtain rfl := hholds.unique hitems
    rw [List.append_nil] at hsent
    exact .gone hcontext (Function.update_self ..) ⟨hzero, by simpa using href, by simpa using hmark, hsent⟩
  · exact Fine.other [.dropping s₀] [] hs (h s) (List.forall_mem_singleton.mpr rfl) (List.forall_mem_nil _) rfl
      (Function.update_of_ne hs ..) rfl rfl rfl

theorem Alive.owners_le {held : List Right} (h : memory.Alive held s context q) : memory.owners held s ≤ 1 := by
  rw [h.owners]
  split <;> omega

/-- `skynet_mq_push` by one who has a reference. -/
theorem Fine.mqPush {s₀ : ℕ} (h : ∀ s, memory.Fine (.ref s₀ :: rest) s) (hqueue : memory.queues s₀ = some q)
    (message : Message) : ∃ next, memory.mqPush s₀ q message = some next ∧ ∀ s, next.Fine (.ref s₀ :: rest) s := by
  obtain ⟨context, other, hcontext, hother, halive⟩ := (h s₀).exists_of_ref (by simp)
  obtain rfl := Option.some.inj (hqueue.symm.trans hother)
  obtain ⟨hrelease, howners, href, hmark, hdropping, hinit, items, hitems, hsent, -⟩ := halive
  have hsent' : Function.update memory.sent s₀ (memory.sent s₀ ++ [message]) s₀ =
      (memory.taken s₀).map Prod.fst ++ (items ++ [message]) := by
    rw [Function.update_self, hsent, List.append_assoc]
  have hholds := MessageQueue.holds_put hitems message
  unfold Memory.mqPush
  dsimp only
  rw [MessageQueue.inGlobal_put]
  by_cases hglobal : q.inGlobal = true
  · rw [if_pos hglobal]
    refine ⟨_, rfl, fun s ↦ ?_⟩
    by_cases hs : s = s₀
    · subst hs
      refine .alive context _ hcontext (Function.update_self ..) ⟨?_, ?_, href, hmark, hdropping, hinit,
        items ++ [message], hholds, hsent', fun _ ↦ ?_⟩
      · rw [MessageQueue.release_put, hrelease]
      · rw [MessageQueue.inGlobal_put, ← howners]
        rfl
      · rw [MessageQueue.inGlobal_put, hglobal]
    · exact Fine.other [] [] hs (h s) (List.forall_mem_nil _) (List.forall_mem_nil _) rfl (Function.update_of_ne hs ..)
        (Function.update_of_ne hs ..) rfl rfl
  · rw [if_neg hglobal] at howners ⊢
    have hnot : s₀ ∉ memory.globalQueue := List.count_eq_zero.mp (by unfold owners at howners; omega)
    refine ⟨_, if_neg hnot, fun s ↦ ?_⟩
    by_cases hs : s = s₀
    · subst hs
      refine .alive context _ hcontext (Function.update_self ..) ⟨?_, ?_, href, hmark, hdropping, hinit,
        items ++ [message], hholds, hsent', fun _ ↦ rfl⟩
      · exact (MessageQueue.release_put q message).trans hrelease
      · rw [if_pos rfl, ← Nat.zero_add 1, ← howners]
        change (memory.globalQueue ++ [s]).count s + _ + _ + _ + _ = memory.owners _ s + 1
        rw [List.count_append, List.count_singleton_self, owners]
        omega
    · refine Fine.other [] [] hs (h s) (List.forall_mem_nil _) (List.forall_mem_nil _) rfl
        (Function.update_of_ne hs ..) (Function.update_of_ne hs ..) rfl ?_
      change (memory.globalQueue ++ [s₀]).count s = _
      rw [List.count_append, List.count_singleton, if_neg (by simpa using Ne.symm hs), Nat.add_zero]

/-- The queue of a service whose last reference is gone. -/
theorem Fine.markRelease {s₀ : ℕ} (h : ∀ s, memory.Fine (.mark s₀ :: rest) s) :
    ∃ context q next, memory.contexts s₀ = some context ∧ memory.queues s₀ = some q ∧
      memory.mqMarkRelease s₀ q = some next ∧ ∀ s, (next.setContext s₀ none).Fine rest s := by
  have hexists : ∃ context q, memory.contexts s₀ = some context ∧ memory.queues s₀ = some q ∧
      memory.Alive (.mark s₀ :: rest) s₀ context q := by
    cases h s₀ with
    | alive context q hcontext hqueue halive => exact ⟨context, q, hcontext, hqueue, halive⟩
    | left q hcontext hqueue hleft => exact absurd hleft.mark (by simp)
    | gone hcontext hqueue hgone => exact absurd hgone.mark (by simp)
  obtain ⟨context, q, hcontext, hqueue, hrelease, howners, href, hmark, -, -, items, hitems, hsent, -⟩ := hexists
  rw [List.count_cons_self] at hmark
  have hzero : context.ref = 0 := by
    by_contra hpos
    rw [if_neg hpos] at hmark
    omega
  rw [if_pos hzero] at hmark
  have href' : rest.count (.ref s₀) = 0 := by
    have hall := href.symm.trans hzero
    simp at hall
    omega
  rw [owners_cons_mark] at howners
  refine ⟨context, q, ?_⟩
  unfold Memory.mqMarkRelease
  rw [hrelease, if_neg Bool.false_ne_true]
  have hothers : ∀ next : Memory, next.contexts = memory.contexts →
      next.queues = Function.update memory.queues s₀ (some { q with release := true }) → next.sent = memory.sent →
      next.taken = memory.taken → (∀ s, s ≠ s₀ → next.globalQueue.count s = memory.globalQueue.count s) →
      next.owners rest s₀ = 1 → ∀ s, (next.setContext s₀ none).Fine rest s := by
    intro next hcontexts hqueues hsent' htaken hglobal howners' s
    by_cases hs : s = s₀
    · subst hs
      refine .left { q with release := true } (Function.update_self ..) ?_
        ⟨rfl, howners', href', by omega, items, hitems, ?_, fun _ ↦ trivial⟩
      · change next.queues s = _
        rw [hqueues, Function.update_self]
      · change next.sent s = (next.taken s).map _ ++ _
        rw [hsent', htaken, hsent]
    · refine Fine.other [.mark s₀] [] hs (h s) (List.forall_mem_singleton.mpr rfl) (List.forall_mem_nil _) ?_ ?_
        (congrFun hsent' s) (congrFun htaken s) (hglobal s hs)
      · exact (Function.update_of_ne hs ..).trans (congrFun hcontexts s)
      · exact (congrFun hqueues s).trans (Function.update_of_ne hs ..)
  by_cases hflag : q.inGlobal = true
  · rw [if_pos hflag] at howners ⊢
    exact ⟨_, hcontext, hqueue, rfl, hothers _ rfl rfl rfl rfl (fun _ _ ↦ rfl) howners⟩
  · rw [if_neg hflag] at howners ⊢
    have hnot : s₀ ∉ memory.globalQueue := List.count_eq_zero.mp (by unfold owners at howners; omega)
    refine ⟨_, hcontext, hqueue, if_neg hnot, hothers _ rfl rfl rfl rfl (fun s hs ↦ ?_) ?_⟩
    · change (memory.globalQueue ++ [s₀]).count s = _
      rw [List.count_append, List.count_singleton, if_neg (by simpa using Ne.symm hs), Nat.add_zero]
    · rw [← Nat.zero_add 1, ← howners]
      change (memory.globalQueue ++ [s₀]).count s₀ + _ + _ + _ + _ = memory.owners rest s₀ + 1
      rw [List.count_append, List.count_singleton_self, owners]
      omega

/-- A new service. -/
theorem Fine.create {s₀ : ℕ} (h : ∀ s, memory.Fine rest s) (hcontext : memory.contexts s₀ = none)
    (hqueue : memory.queues s₀ = none) : (memory.newService s₀).Fine (.fresh s₀ :: .ref s₀ :: rest) s := by
  by_cases hs : s = s₀
  · subst hs
    have hgone : memory.Gone rest s := by
      cases h s with
      | alive context q hsome hother halive => exact absurd (hcontext.symm.trans hsome).symm (Option.some_ne_none _)
      | left q hnone hother hleft => exact absurd (hqueue.symm.trans hother).symm (Option.some_ne_none _)
      | gone hnone hnone' hgone => exact hgone
    obtain ⟨howners, href, hmark, hsent⟩ := hgone
    unfold owners at howners
    refine .alive ⟨true, 2, false⟩ .create (Function.update_self ..) (Function.update_self ..) ⟨rfl, ?_, ?_, ?_, ?_,
      fun _ ↦ ⟨?_, fun _ ↦ ?_⟩, [], MessageQueue.holds_create, ?_, fun hne ↦ absurd rfl hne⟩
    · change _ = 1
      simp only [owners, List.count_cons]
      change memory.globalQueue.count s + _ + _ + _ + _ = 1
      simp
      omega
    · simp [href]
    · simpa using hmark
    · simp
      omega
    · simp
      omega
    · simp
      omega
    · rw [List.append_nil]
      exact hsent
  · exact Fine.other [] [.fresh s₀, .ref s₀] hs (h s) (List.forall_mem_nil _)
      (List.forall_mem_cons.mpr ⟨rfl, List.forall_mem_singleton.mpr rfl⟩) (Function.update_of_ne hs ..)
      (Function.update_of_ne hs ..) rfl rfl rfl

theorem Fine.exists_items {held : List Right} (h : memory.Fine held s) (hqueue : memory.queues s = some q) :
    ∃ items, q.ring.Holds items := by
  cases h with
  | alive context other hcontext hother halive =>
    obtain rfl := Option.some.inj (hqueue.symm.trans hother)
    obtain ⟨items, hitems, -⟩ := halive.queued
    exact ⟨items, hitems⟩
  | left other hcontext hother hleft =>
    obtain rfl := Option.some.inj (hqueue.symm.trans hother)
    obtain ⟨items, hitems, -⟩ := hleft.queued
    exact ⟨items, hitems⟩
  | gone hcontext hnone hgone => exact absurd (hnone.symm.trans hqueue).symm (Option.some_ne_none _)

theorem rights_dropMessage (s : ℕ) (message : Message) : (dropMessage s message).flatMap Operation.rights = [] := by
  unfold dropMessage
  split <;> rfl

/-- A reference is given back, and the right operations follow. -/
theorem Fine.releaseContext {s₀ : ℕ} {last other : List Operation} {own : List Right}
    (h : ∀ s, memory.Fine (.ref s₀ :: own) s)
    (hlast : ∀ next : Memory, (∀ s, next.Fine (.mark s₀ :: own) s) →
      ∀ s, next.Fine (.mark s₀ :: last.flatMap Operation.rights ++ rest) s)
    (hother : ∀ next : Memory, (∀ s, next.Fine own s) → ∀ s, next.Fine (other.flatMap Operation.rights ++ rest) s) :
    ∃ next new, memory.releaseContext s₀ last other = some (next, new) ∧
      ∀ s, next.Fine (new.flatMap Operation.rights ++ rest) s := by
  obtain ⟨context, q, hcontext, -, -⟩ := (h s₀).exists_of_ref (by simp)
  have hpos := (Fine.releaseRef (s := s₀) h hcontext).1
  have hfine := fun s ↦ (Fine.releaseRef (s := s) h hcontext).2
  refine ⟨memory.setContext s₀ (some { context with ref := context.ref - 1 }),
    if context.ref = 1 then .markRelease s₀ :: last else other, ?_, ?_⟩
  · rw [Memory.releaseContext, hcontext, Option.bind_eq_bind, Option.bind_some, if_neg hpos]
  · by_cases hone : context.ref = 1
    · simp only [if_pos hone] at hfine ⊢
      exact hlast _ hfine
    · simp only [if_neg hone] at hfine ⊢
      exact hother _ hfine

/-- A queue is marked when its service was retired. -/
theorem Fine.unregistered_of_mark {s₀ : ℕ} (h : ∀ s, memory.Fine (.mark s₀ :: rest) s)
    (hcontext : memory.contexts s₀ = some context) : context.registered = false := by
  cases h s₀ with
  | alive other q hother hqueue halive =>
    obtain rfl := Option.some.inj (hcontext.symm.trans hother)
    have hmark := halive.mark
    have href := halive.ref
    rw [List.count_cons_self] at hmark
    by_contra hnot
    rw [Bool.not_eq_false] at hnot
    rw [if_pos hnot] at href
    rw [if_neg (by omega)] at hmark
    omega
  | left q hnone hqueue hleft => exact absurd (hnone.symm.trans hcontext).symm (Option.some_ne_none _)
  | gone hnone hqueue hgone => exact absurd (hnone.symm.trans hcontext).symm (Option.some_ne_none _)

theorem Fine.owners_le {held : List Right} (h : memory.Fine held s) : memory.owners held s ≤ 1 := by
  cases h with
  | alive context q hcontext hqueue halive => exact halive.owners_le
  | left q hcontext hqueue hleft => exact Nat.le_of_eq hleft.owners
  | gone hcontext hqueue hgone => exact Nat.le_trans (Nat.le_of_eq hgone.owners) (Nat.zero_le 1)

/-- The worker of a service that was found may call it. -/
theorem Fine.init_of_find {s₀ : ℕ} (h : ∀ s, memory.Fine (.token s₀ :: rest) s)
    (hfind : memory.find s₀ = some context) : context.init = true := by
  obtain ⟨hregistered, q, -, -, halive⟩ := (h s₀).exists_of_find hfind
  by_contra hnot
  have hfresh := (halive.init (Bool.not_eq_true _ ▸ hnot)).2 hregistered
  have hle := halive.owners_le
  simp only [owners, List.count_cons] at hle
  simp at hle hfresh
  omega

end Memory

end SvrDemo.Skynet
