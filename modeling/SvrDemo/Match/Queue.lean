import Mathlib.Data.List.Nodup
import SvrDemo.Protocol.Machine

/-!
# The match queue

`Match:start` puts a player at the end of `match_queue`, and `Match:cancel` takes the first entry of a player
out. Every five seconds `matchLoop` takes the two players at the front, starts a game of them, and removes the
first two entries of the queue when the game has started. `startGame` waits for four replies: of the launcher,
of the new fight, and of the agents of the two players. When a call raises, the loop ends and sets no timer
again; this is so for the calls of the agents unless a protocol `game` has been registered, for which the
service itself does nothing.

While the loop waits, players start and cancel, and the entries that are removed at the end are those that are
at the front then. `Orderly` excludes that they are others, and that a player is in the queue twice where it
matters. Then no player is lost, and none is in two games of one start.
-/

set_option autoImplicit false
set_option relaxedAutoImplicit false

namespace SvrDemo.Match

open Protocol

/-! ### The service -/

/-- A player as a message of the service has it. -/
structure Player where
  uid : ℕ
  fd : ℕ
  agent : ℕ
  deriving DecidableEq

/-- An entry of the queue. Each message makes a table of its own, so an entry is told apart by the number of
the starts before it. -/
structure Entry where
  player : Player
  number : ℕ
  deriving DecidableEq

/-- The entries of a player. -/
def Entry.isOf (uid : ℕ) (entry : Entry) : Bool := entry.player.uid == uid

/-- A cancel that has returned: its player, the entry that it has removed, and the number of the starts before
it. -/
structure Cancel where
  uid : ℕ
  removed : Option Entry
  starts : ℕ
  deriving DecidableEq

/-- The players of a call of `startGame`, and the cancels that had returned by then. -/
structure Game where
  player₁ : Entry
  player₂ : Entry
  cancels : List Cancel
  deriving DecidableEq

/-- What `startGame` waits for. -/
inductive Stage
  | newservice
  | start
  | onFightStart₁
  | onFightStart₂
  deriving DecidableEq

/-- The next call of `startGame`. -/
def Stage.next : Stage → Option Stage
  | .newservice => some .start
  | .start => some .onFightStart₁
  | .onFightStart₁ => some .onFightStart₂
  | .onFightStart₂ => none

/-- Where `matchLoop` is. -/
inductive Loop
  | timer
  | startGame (stage : Stage) (player₁ player₂ : Entry)
  | failed
  deriving DecidableEq

/-- The service. `starts`, `cancels` and `games` are what has happened so far. -/
structure MatchState where
  matchQueue : List Entry
  loop : Loop
  starts : List Entry
  cancels : List Cancel
  games : List Game
  deriving DecidableEq

namespace MatchState

/-- The service when it starts. -/
def init : MatchState := ⟨[], .timer, [], [], []⟩

/-- `Match:start`. -/
def start (state : MatchState) (player : Player) : MatchState :=
  let entry : Entry := ⟨player, state.starts.length⟩
  { state with matchQueue := state.matchQueue ++ [entry], starts := state.starts ++ [entry] }

/-- `Match:cancel`: the first entry of the player is removed. -/
def cancel (state : MatchState) (player : Player) : MatchState :=
  { state with
    matchQueue := state.matchQueue.eraseP (Entry.isOf player.uid)
    cancels := state.cancels ++
      [⟨player.uid, state.matchQueue.find? (Entry.isOf player.uid), state.starts.length⟩] }

/-- `Match:startGame` up to its first call. -/
def startGame (state : MatchState) (player₁ player₂ : Entry) : MatchState :=
  { state with
    loop := .startGame .newservice player₁ player₂
    games := state.games ++ [⟨player₁, player₂, state.cancels⟩] }

/-- The head of the loop of `matchLoop`: a game of the first two players, or the timer. -/
def pass (state : MatchState) : MatchState :=
  match state.matchQueue with
  | player₁ :: player₂ :: _ => state.startGame player₁ player₂
  | _ => { state with loop := .timer }

/-- The end of a turn of `matchLoop`, after `startGame` has returned. -/
def remove (state : MatchState) : MatchState := { state with matchQueue := state.matchQueue.tail.tail }

end MatchState

/-- What happens: the messages, the timer of the loop, and the replies to its calls. A reply that is not ok
raises. -/
inductive Event
  | start (player : Player)
  | cancel (player : Player)
  | timer
  | reply (ok : Bool)
  deriving DecidableEq

/-- The reply to the call of a stage. -/
def MatchState.reply (state : MatchState) (stage : Stage) (player₁ player₂ : Entry) : Bool → MatchState
  | true =>
    match stage.next with
    | some next => { state with loop := .startGame next player₁ player₂ }
    | none => state.remove.pass
  | false => { state with loop := .failed }

/-- One event. -/
def step (state : MatchState) : Event → Option MatchState
  | .start player => some (state.start player)
  | .cancel player => some (state.cancel player)
  | .timer => if state.loop = .timer then some state.pass else none
  | .reply ok =>
    match state.loop with
    | .startGame stage player₁ player₂ => some (state.reply stage player₁ player₂ ok)
    | _ => none

/-- The service as a machine. -/
def matchService : Machine MatchState Event := ⟨step⟩

/-! ### What has become of a player -/

/-- The players of a game. -/
def Game.players (game : Game) : List Entry := [game.player₁, game.player₂]

/-- A game of two players, of which neither has cancelled since he started. -/
structure Game.Fair (game : Game) : Prop where
  differ : game.player₁.player.uid ≠ game.player₂.player.uid
  started : ∀ entry ∈ game.players, ∀ cancel ∈ game.cancels, cancel.uid = entry.player.uid →
    cancel.starts ≤ entry.number

/-- How often an entry has been handed to `startGame`. -/
def MatchState.handed (state : MatchState) (entry : Entry) : ℕ :=
  (state.games.flatMap Game.players).count entry

/-- An entry that a cancel has removed. -/
def MatchState.Cancelled (state : MatchState) (entry : Entry) : Prop :=
  ∃ cancel ∈ state.cancels, cancel.removed = some entry

instance (state : MatchState) (entry : Entry) : Decidable (state.Cancelled entry) :=
  inferInstanceAs (Decidable (∃ cancel ∈ state.cancels, cancel.removed = some entry))

/-! ### The condition -/

/-- The two players at the front are different ones. -/
def FrontDiffers : List Entry → Prop
  | player₁ :: player₂ :: _ => player₁.player.uid ≠ player₂.player.uid
  | _ => True

instance : DecidablePred FrontDiffers
  | player₁ :: player₂ :: _ => inferInstanceAs (Decidable (player₁.player.uid ≠ player₂.player.uid))
  | [] | [_] => inferInstanceAs (Decidable True)

/-- The condition on the removal after a game: the first two entries are entries of this game, and the next two
players are different ones. -/
def Removes (queue : List Entry) (player₁ player₂ : Entry) : Prop :=
  (∀ entry ∈ queue.take 2, entry = player₁ ∨ entry = player₂) ∧ FrontDiffers queue.tail.tail

instance (queue : List Entry) (player₁ player₂ : Entry) : Decidable (Removes queue player₁ player₂) :=
  inferInstanceAs (Decidable (_ ∧ _))

/-- The condition on a reply. -/
def Returns (queue : List Entry) : Loop → Bool → Prop
  | .startGame .onFightStart₂ player₁ player₂, true => Removes queue player₁ player₂
  | _, _ => True

instance (queue : List Entry) : (loop : Loop) → (ok : Bool) → Decidable (Returns queue loop ok)
  | .startGame .onFightStart₂ player₁ player₂, true => inferInstanceAs (Decidable (Removes queue player₁ player₂))
  | .startGame .onFightStart₂ _ _, false | .startGame .newservice _ _, _ | .startGame .start _ _, _
  | .startGame .onFightStart₁ _ _, _ | .timer, _ | .failed, _ => inferInstanceAs (Decidable True)

/-- The condition on the events. A cancel finds at most one entry of the player. -/
def Orderly (state : MatchState) : Event → Prop
  | .start _ => True
  | .cancel player => (state.matchQueue.filter (Entry.isOf player.uid)).length ≤ 1
  | .timer => FrontDiffers state.matchQueue
  | .reply ok => Returns state.matchQueue state.loop ok

instance (state : MatchState) : (event : Event) → Decidable (Orderly state event)
  | .start _ => inferInstanceAs (Decidable True)
  | .cancel player =>
    inferInstanceAs (Decidable ((state.matchQueue.filter (Entry.isOf player.uid)).length ≤ 1))
  | .timer => inferInstanceAs (Decidable (FrontDiffers state.matchQueue))
  | .reply ok => inferInstanceAs (Decidable (Returns state.matchQueue state.loop ok))

/-! ### The invariant -/

/-- The entries of a queue that have been handed to `startGame` are those of the game that the loop waits
for. -/
def Handing (queue : List Entry) (handed : Entry → ℕ) : Loop → Prop
  | .timer => ∀ entry ∈ queue, handed entry = 0
  | .startGame _ player₁ player₂ => handed player₁ = 1 ∧ handed player₂ = 1 ∧
      ∀ entry ∈ queue, handed entry = 0 ∨ entry = player₁ ∨ entry = player₂
  | .failed => True

/-- The invariant of the service. -/
structure Kept (state : MatchState) : Prop where
  numbered : ∀ entry ∈ state.starts, entry.number < state.starts.length
  nodup : state.starts.Nodup
  queued : state.matchQueue.Sublist state.starts
  handed : ∀ entry, entry ∉ state.starts → state.handed entry = 0
  once : ∀ entry, state.handed entry ≤ 1
  present : ∀ entry ∈ state.starts,
    entry ∈ state.matchQueue ∨ state.Cancelled entry ∨ state.handed entry = 1
  counted : ∀ cancel ∈ state.cancels, cancel.starts ≤ state.starts.length
  cancelled : ∀ cancel ∈ state.cancels, ∀ entry, cancel.removed = some entry →
    cancel.uid = entry.player.uid ∧ entry.number < cancel.starts
  fresh : ∀ entry ∈ state.matchQueue, ∀ cancel ∈ state.cancels, cancel.uid = entry.player.uid →
    cancel.starts ≤ entry.number
  handing : Handing state.matchQueue state.handed state.loop
  fair : ∀ game ∈ state.games, game.Fair

/-! ### The queue -/

section Lists

variable {queue : List Entry} {entry : Entry} {uid : ℕ}

/-- A cancel removes the entry that it finds and no other. -/
theorem mem_eraseP_or_find (hmem : entry ∈ queue) :
    entry ∈ queue.eraseP (Entry.isOf uid) ∨ queue.find? (Entry.isOf uid) = some entry := by
  induction queue with
  | nil => exact absurd hmem List.not_mem_nil
  | cons head tail ih =>
    by_cases hhead : head.isOf uid
    · rw [List.eraseP_cons_of_pos hhead, List.find?_cons_of_pos hhead]
      rcases List.mem_cons.mp hmem with rfl | htail
      · exact .inr rfl
      · exact .inl htail
    · rw [List.eraseP_cons_of_neg hhead, List.find?_cons_of_neg hhead]
      rcases List.mem_cons.mp hmem with rfl | htail
      · exact .inl List.mem_cons_self
      · exact (ih htail).imp_left (List.mem_cons_of_mem head)

/-- A player with one entry at most has none after the cancel. -/
theorem isOf_of_mem_eraseP (hone : (queue.filter (Entry.isOf uid)).length ≤ 1)
    (hmem : entry ∈ queue.eraseP (Entry.isOf uid)) : entry.isOf uid = false := by
  induction queue with
  | nil => exact absurd hmem List.not_mem_nil
  | cons head tail ih =>
    by_cases hhead : head.isOf uid
    · rw [List.filter_cons_of_pos hhead, List.length_cons] at hone
      rw [List.eraseP_cons_of_pos hhead] at hmem
      have hnone : tail.filter (Entry.isOf uid) = [] := List.length_eq_zero_iff.mp (by omega)
      exact Bool.eq_false_iff.mpr (List.filter_eq_nil_iff.mp hnone entry hmem)
    · rw [List.filter_cons_of_neg hhead] at hone
      rw [List.eraseP_cons_of_neg hhead] at hmem
      rcases List.mem_cons.mp hmem with rfl | htail
      · exact Bool.eq_false_iff.mpr hhead
      · exact ih hone htail

/-- When the first two entries are those of a game, the others are not. -/
theorem not_mem_tail_tail {player₁ player₂ : Entry} (hnodup : queue.Nodup)
    (hfront : ∀ entry ∈ queue.take 2, entry = player₁ ∨ entry = player₂) (hmem : entry ∈ queue.tail.tail) :
    entry ≠ player₁ ∧ entry ≠ player₂ := by
  match queue with
  | [] => exact absurd hmem List.not_mem_nil
  | [_] => exact absurd hmem List.not_mem_nil
  | first :: second :: rest =>
    have hfirst := hfront first List.mem_cons_self
    have hsecond := hfront second (List.mem_cons_of_mem _ List.mem_cons_self)
    have hne : first ≠ second := fun hsame ↦ (List.nodup_cons.mp hnodup).1 (hsame ▸ List.mem_cons_self)
    have hentry : entry ≠ first ∧ entry ≠ second := by
      constructor
      · rintro rfl
        exact (List.nodup_cons.mp hnodup).1 (List.mem_cons_of_mem _ hmem)
      · rintro rfl
        exact (List.nodup_cons.mp (List.nodup_cons.mp hnodup).2).1 hmem
    rcases hfirst with rfl | rfl
    · rcases hsecond with rfl | rfl
      · exact absurd rfl hne
      · exact hentry
    · rcases hsecond with rfl | rfl
      · exact hentry.symm
      · exact absurd rfl hne

/-- An entry of the queue is one of the first two or one of the others. -/
theorem mem_take_or_tail (hmem : entry ∈ queue) : entry ∈ queue.take 2 ∨ entry ∈ queue.tail.tail := by
  rw [← List.take_append_drop 2 queue] at hmem
  rcases List.mem_append.mp hmem with hfront | hrest
  · exact .inl hfront
  · refine .inr ?_
    rwa [← List.drop_one, ← List.drop_one, List.drop_drop]

end Lists

/-! ### Events -/

/-- The queue gets entries that have not been handed to `startGame`, or loses some. -/
theorem Handing.change {queue later : List Entry} {handed : Entry → ℕ} {loop : Loop}
    (h : Handing queue handed loop) (hlater : ∀ entry ∈ later, entry ∈ queue ∨ handed entry = 0) :
    Handing later handed loop := by
  cases loop with
  | timer => exact fun entry hmem ↦ (hlater entry hmem).elim (h entry) id
  | startGame stage player₁ player₂ =>
    exact ⟨h.1, h.2.1, fun entry hmem ↦ (hlater entry hmem).elim (h.2.2 entry) .inl⟩
  | failed => exact trivial

namespace Kept

variable {state next : MatchState} {entry player₁ player₂ : Entry} {stage : Stage}

/-- A new entry has another number than those before it. -/
theorem not_mem_starts (h : Kept state) (player : Player) : ⟨player, state.starts.length⟩ ∉ state.starts :=
  fun hmem ↦ absurd (h.numbered _ hmem) (Nat.lt_irrefl _)

theorem nodup_queue (h : Kept state) : state.matchQueue.Nodup := h.nodup.sublist h.queued

theorem start (h : Kept state) (player : Player) : Kept (state.start player) where
  numbered := by
    intro entry hmem
    rw [MatchState.start, List.length_append, List.length_singleton]
    rcases List.mem_append.mp hmem with hold | hnew
    · exact Nat.lt_succ_of_lt (h.numbered entry hold)
    · rw [List.mem_singleton.mp hnew]
      exact Nat.lt_succ_self _
  nodup := by
    refine List.nodup_append.mpr ⟨h.nodup, List.nodup_singleton _, fun entry hold other hnew ↦ ?_⟩
    rw [List.mem_singleton.mp hnew]
    exact fun hsame ↦ h.not_mem_starts player (hsame ▸ hold)
  queued := h.queued.append (List.Sublist.refl _)
  handed := fun entry hmem ↦ h.handed entry fun hold ↦ hmem (List.mem_append_left _ hold)
  once := h.once
  present := by
    intro entry hmem
    rcases List.mem_append.mp hmem with hold | hnew
    · exact (h.present entry hold).imp_left (List.mem_append_left _)
    · exact .inl (List.mem_append_right _ hnew)
  counted := by
    intro cancel hcancel
    rw [MatchState.start, List.length_append]
    exact Nat.le_trans (h.counted cancel hcancel) (Nat.le_add_right _ _)
  cancelled := h.cancelled
  fresh := by
    intro entry hmem cancel hcancel huid
    rcases List.mem_append.mp hmem with hold | hnew
    · exact h.fresh entry hold cancel hcancel huid
    · rw [List.mem_singleton.mp hnew]
      exact h.counted cancel hcancel
  handing := by
    refine h.handing.change fun entry hmem ↦ ?_
    rcases List.mem_append.mp hmem with hold | hnew
    · exact .inl hold
    · rw [List.mem_singleton.mp hnew]
      exact .inr (h.handed _ (h.not_mem_starts player))
  fair := h.fair

/-- A cancel of a player with one entry at most. -/
theorem cancel (h : Kept state) {player : Player}
    (hone : (state.matchQueue.filter (Entry.isOf player.uid)).length ≤ 1) : Kept (state.cancel player) where
  numbered := h.numbered
  nodup := h.nodup
  queued := List.eraseP_sublist.trans h.queued
  handed := h.handed
  once := h.once
  present := by
    intro entry hmem
    rcases h.present entry hmem with hqueue | ⟨cancel, hcancel, hremoved⟩ | hhanded
    · refine (mem_eraseP_or_find hqueue).imp_right fun hfound ↦ .inl ?_
      exact ⟨_, List.mem_append_right _ List.mem_cons_self, hfound⟩
    · exact .inr (.inl ⟨cancel, List.mem_append_left _ hcancel, hremoved⟩)
    · exact .inr (.inr hhanded)
  counted := by
    intro cancel hcancel
    rcases List.mem_append.mp hcancel with hold | hnew
    · exact h.counted cancel hold
    · rw [List.mem_singleton.mp hnew]
      exact Nat.le_refl _
  cancelled := by
    intro cancel hcancel entry hremoved
    rcases List.mem_append.mp hcancel with hold | hnew
    · exact h.cancelled cancel hold entry hremoved
    · rw [List.mem_singleton.mp hnew] at hremoved ⊢
      have hqueue := List.mem_of_find?_eq_some hremoved
      have hof : entry.isOf player.uid = true := List.find?_some hremoved
      exact ⟨(beq_iff_eq.mp hof).symm, h.numbered entry (h.queued.subset hqueue)⟩
  fresh := by
    intro entry hmem cancel hcancel huid
    rcases List.mem_append.mp hcancel with hold | hnew
    · exact h.fresh entry (List.mem_of_mem_eraseP hmem) cancel hold huid
    · rw [List.mem_singleton.mp hnew] at huid
      exact absurd huid.symm (beq_eq_false_iff_ne.mp (isOf_of_mem_eraseP hone hmem))
  handing := h.handing.change fun entry hmem ↦ .inl (List.mem_of_mem_eraseP hmem)
  fair := h.fair

/-- The loop is elsewhere, and no call of `startGame` has begun. -/
theorem waits (h : Kept state) {loop : Loop} (hhanding : Handing state.matchQueue state.handed loop) :
    Kept { state with loop := loop } :=
  ⟨h.numbered, h.nodup, h.queued, h.handed, h.once, h.present, h.counted, h.cancelled, h.fresh, hhanding, h.fair⟩

/-- The first two players are removed when they are those of the game that has started. -/
theorem remove (h : Kept state) (hloop : state.loop = .startGame stage player₁ player₂)
    (hfront : ∀ entry ∈ state.matchQueue.take 2, entry = player₁ ∨ entry = player₂) :
    Kept state.remove ∧ ∀ entry ∈ state.remove.matchQueue, state.remove.handed entry = 0 := by
  have hhanding := h.handing
  rw [hloop] at hhanding
  obtain ⟨hhanded₁, hhanded₂, hothers⟩ := hhanding
  have hsublist : state.matchQueue.tail.tail.Sublist state.matchQueue :=
    (List.tail_sublist _).trans (List.tail_sublist _)
  refine ⟨⟨h.numbered, h.nodup, hsublist.trans h.queued, h.handed, h.once, ?_, h.counted, h.cancelled, ?_, ?_,
    h.fair⟩, ?_⟩
  · intro entry hmem
    rcases h.present entry hmem with hqueue | hgone
    · rcases mem_take_or_tail hqueue with htake | htail
      · refine .inr (.inr ?_)
        rcases hfront entry htake with rfl | rfl
        · exact hhanded₁
        · exact hhanded₂
      · exact .inl htail
    · exact .inr hgone
  · exact fun entry hmem ↦ h.fresh entry (hsublist.subset hmem)
  · exact h.handing.change fun entry hmem ↦ .inl (hsublist.subset hmem)
  · intro entry hmem
    obtain ⟨hne₁, hne₂⟩ := not_mem_tail_tail h.nodup_queue hfront hmem
    rcases hothers entry (hsublist.subset hmem) with hnone | rfl | rfl
    · exact hnone
    · exact absurd rfl hne₁
    · exact absurd rfl hne₂

/-- What a game of two entries adds to what has been handed to `startGame`. -/
theorem handed_startGame (hne : player₁ ≠ player₂) (entry : Entry) :
    (state.startGame player₁ player₂).handed entry =
      state.handed entry + if entry ∈ [player₁, player₂] then 1 else 0 := by
  have hnodup : [player₁, player₂].Nodup :=
    List.nodup_cons.mpr ⟨fun hmem ↦ hne (List.mem_singleton.mp hmem), List.nodup_singleton _⟩
  rw [MatchState.handed, MatchState.startGame, List.flatMap_append, List.count_append, List.flatMap_singleton,
    Game.players, hnodup.count]
  rfl

/-- A game of two entries of the queue that have not been handed to `startGame`. -/
theorem startGame (h : Kept state) (hidle : ∀ entry ∈ state.matchQueue, state.handed entry = 0)
    (hmem₁ : player₁ ∈ state.matchQueue) (hmem₂ : player₂ ∈ state.matchQueue)
    (hdiffer : player₁.player.uid ≠ player₂.player.uid) : Kept (state.startGame player₁ player₂) := by
  have hne : player₁ ≠ player₂ := fun hsame ↦ hdiffer (congrArg (fun entry ↦ entry.player.uid) hsame)
  have hplayers : ∀ entry ∈ [player₁, player₂], entry ∈ state.matchQueue := by
    intro entry hmem
    rcases List.mem_cons.mp hmem with rfl | hmem
    · exact hmem₁
    · rwa [List.mem_singleton.mp hmem]
  have hin : ∀ entry ∈ [player₁, player₂], (state.startGame player₁ player₂).handed entry = 1 := by
    intro entry hmem
    rw [handed_startGame hne, if_pos hmem, hidle entry (hplayers entry hmem)]
  have hout : ∀ entry ∉ [player₁, player₂],
      (state.startGame player₁ player₂).handed entry = state.handed entry := by
    intro entry hmem
    rw [handed_startGame hne, if_neg hmem, Nat.add_zero]
  refine ⟨h.numbered, h.nodup, h.queued, fun entry hmem ↦ ?_, fun entry ↦ ?_, fun entry hmem ↦ ?_, h.counted,
    h.cancelled, h.fresh, ⟨?_, ?_, fun entry hmem ↦ ?_⟩, fun game hmem ↦ ?_⟩
  · rw [hout entry fun hplayer ↦ hmem (h.queued.subset (hplayers entry hplayer))]
    exact h.handed entry hmem
  · by_cases hmem : entry ∈ [player₁, player₂]
    · exact Nat.le_of_eq (hin entry hmem)
    · rw [hout entry hmem]
      exact h.once entry
  · by_cases hplayer : entry ∈ [player₁, player₂]
    · exact .inr (.inr (hin entry hplayer))
    · rw [hout entry hplayer]
      exact h.present entry hmem
  · exact hin player₁ List.mem_cons_self
  · exact hin player₂ (List.mem_cons_of_mem _ List.mem_cons_self)
  · by_cases hplayer : entry ∈ [player₁, player₂]
    · exact .inr ((List.mem_cons.mp hplayer).imp_right List.mem_singleton.mp)
    · rw [hout entry hplayer]
      exact .inl (hidle entry hmem)
  · rcases List.mem_append.mp hmem with hold | hnew
    · exact h.fair game hold
    · rw [List.mem_singleton.mp hnew]
      exact ⟨hdiffer, fun entry hplayer ↦ h.fresh entry (hplayers entry hplayer)⟩

/-- A game begins with the first two players, or the timer is set. -/
theorem pass (h : Kept state) (hidle : ∀ entry ∈ state.matchQueue, state.handed entry = 0)
    (hdiffer : FrontDiffers state.matchQueue) : Kept state.pass := by
  unfold MatchState.pass
  split
  · next player₁ player₂ rest hqueue =>
    rw [hqueue] at hdiffer
    refine h.startGame hidle ?_ ?_ hdiffer
    · rw [hqueue]
      exact List.mem_cons_self
    · rw [hqueue]
      exact List.mem_cons_of_mem _ List.mem_cons_self
  · exact h.waits hidle

/-- One event keeps the invariant. -/
theorem step {event : Event} (h : Kept state) (hmeets : Orderly state event)
    (hstep : matchService.step state event = some next) : Kept next := by
  cases event with
  | start player =>
    obtain rfl := Option.some.inj hstep
    exact h.start player
  | cancel player =>
    obtain rfl := Option.some.inj hstep
    exact h.cancel hmeets
  | timer =>
    simp only [matchService, Match.step] at hstep
    split_ifs at hstep with hloop
    obtain rfl := Option.some.inj hstep
    have hhanding := h.handing
    rw [hloop] at hhanding
    exact h.pass hhanding hmeets
  | reply ok =>
    cases hloop : state.loop with
    | timer => simp only [matchService, Match.step, hloop, reduceCtorEq] at hstep
    | failed => simp only [matchService, Match.step, hloop, reduceCtorEq] at hstep
    | startGame stage player₁ player₂ =>
      simp only [matchService, Match.step, hloop, Option.some.injEq] at hstep
      subst hstep
      have hhanding := h.handing
      rw [hloop] at hhanding
      cases ok with
      | false => exact h.waits trivial
      | true =>
        cases stage with
        | newservice => exact h.waits hhanding
        | start => exact h.waits hhanding
        | onFightStart₁ => exact h.waits hhanding
        | onFightStart₂ =>
          simp only [Orderly, hloop] at hmeets
          obtain ⟨hfront, hdiffer⟩ := hmeets
          obtain ⟨hremoved, hidle⟩ := h.remove hloop hfront
          exact hremoved.pass hidle hdiffer

end Kept

/-! ### Runs -/

theorem kept_init : Kept .init where
  numbered := fun _ hmem ↦ (List.not_mem_nil hmem).elim
  nodup := List.nodup_nil
  queued := List.Sublist.refl _
  handed := fun _ _ ↦ rfl
  once := fun _ ↦ Nat.zero_le 1
  present := fun _ hmem ↦ (List.not_mem_nil hmem).elim
  counted := fun _ hmem ↦ (List.not_mem_nil hmem).elim
  cancelled := fun _ hmem ↦ (List.not_mem_nil hmem).elim
  fresh := fun _ hmem ↦ (List.not_mem_nil hmem).elim
  handing := fun _ _ ↦ rfl
  fair := fun _ hmem ↦ (List.not_mem_nil hmem).elim

/-- In every run in which a cancel finds at most one entry of its player, games are of two different players,
and the entries that are removed after a game are entries of this game: every entry that was started is in the
queue, has been cancelled or has been handed to one game; none is handed to two games; those in the queue are
different ones that have not been cancelled; and no game is of a player who has cancelled since he started. -/
theorem players_conserved {last : MatchState} (hrun : matchService.Run Orderly .init last) :
    (∀ entry ∈ last.starts, entry ∈ last.matchQueue ∨ last.Cancelled entry ∨ last.handed entry = 1) ∧
      (∀ entry, last.handed entry ≤ 1) ∧
      (last.matchQueue.Nodup ∧ ∀ entry ∈ last.matchQueue, entry ∈ last.starts ∧ ¬ last.Cancelled entry) ∧
      ∀ game ∈ last.games, game.Fair := by
  have hlast : Kept last :=
    hrun.invariant (fun _ _ _ hmeets hkept hstep ↦ hkept.step hmeets hstep) kept_init
  refine ⟨hlast.present, hlast.once, ⟨hlast.nodup_queue, fun entry hmem ↦ ⟨hlast.queued.subset hmem, ?_⟩⟩,
    hlast.fair⟩
  rintro ⟨cancel, hcancel, hremoved⟩
  obtain ⟨huid, hbefore⟩ := hlast.cancelled cancel hcancel entry hremoved
  exact absurd (hlast.fresh entry hmem cancel hcancel huid) (Nat.not_le.mpr hbefore)

/-- A player whose connection and agent have the numbers of his uid. -/
def plain (uid : ℕ) : Player := ⟨uid, uid, uid⟩

/-- All calls of a game return. -/
def returns : List Event := [.reply true, .reply true, .reply true, .reply true]

/-- A game of two players, of which one starts again and cancels. -/
theorem players_conserved_again : ∃ last, matchService.Run Orderly .init last ∧
    last.starts.length = 4 ∧ last.matchQueue = [⟨plain 3, 2⟩] ∧
      (∀ entry ∈ last.starts, entry ∈ last.matchQueue ∨ last.Cancelled entry ∨ last.handed entry = 1) ∧
      ∀ game ∈ last.games, game.Fair := by
  obtain ⟨last, hrun, hvalue⟩ := matchService.exists_run_of_playMeeting Orderly .init
    ([.start (plain 1), .start (plain 2), .start (plain 3), .timer] ++ returns ++
      [.start (plain 1), .cancel (plain 1)])
    (fun last ↦ (last.starts.length, last.matchQueue)) (show _ = some (4, [⟨plain 3, 2⟩]) by decide +kernel)
  obtain ⟨hstarts, hqueue⟩ := Prod.mk.inj hvalue
  obtain ⟨hpresent, -, -, hfair⟩ := players_conserved hrun
  exact ⟨last, hrun, hstarts, hqueue, hpresent, hfair⟩

/-- A player who starts twice is matched with himself. And when the first of three players cancels while a game
of the first two begins, the third is removed with the second: he is in no game and not in the queue, though he
has not cancelled. -/
theorem player_lost :
    (∃ last, matchService.Run (fun _ _ ↦ True) .init last ∧
      ¬ ∀ game ∈ last.games, game.player₁.player.uid ≠ game.player₂.player.uid) ∧
    ∃ last, matchService.Run (fun _ _ ↦ True) .init last ∧ ∃ entry ∈ last.starts,
      entry ∉ last.matchQueue ∧ ¬ last.Cancelled entry ∧ last.handed entry = 0 := by
  constructor
  · obtain ⟨last, hrun, hvalue⟩ := matchService.exists_run_of_playMeeting (fun _ _ ↦ True) .init
      [.start (plain 1), .start (plain 1), .timer] MatchState.games
      (show _ = some [⟨⟨plain 1, 0⟩, ⟨plain 1, 1⟩, []⟩] by decide +kernel)
    refine ⟨last, hrun, fun hall ↦ ?_⟩
    exact hall ⟨⟨plain 1, 0⟩, ⟨plain 1, 1⟩, []⟩ (by rw [hvalue]; exact List.mem_cons_self) rfl
  · obtain ⟨last, hrun, hvalue⟩ := matchService.exists_run_of_playMeeting (fun _ _ ↦ True) .init
      ([.start (plain 1), .start (plain 2), .start (plain 3), .timer, .cancel (plain 1)] ++ returns)
      (fun last ↦ (decide (⟨plain 3, 2⟩ ∈ last.starts), decide (⟨plain 3, 2⟩ ∈ last.matchQueue),
        decide (last.Cancelled ⟨plain 3, 2⟩), last.handed ⟨plain 3, 2⟩))
      (show _ = some (true, false, false, 0) by decide +kernel)
    simp only [Prod.mk.injEq, decide_eq_true_eq, decide_eq_false_iff_not] at hvalue
    obtain ⟨hstarted, hqueue, hcancelled, hhanded⟩ := hvalue
    exact ⟨last, hrun, ⟨plain 3, 2⟩, hstarted, hqueue, hcancelled, hhanded⟩

end SvrDemo.Match
