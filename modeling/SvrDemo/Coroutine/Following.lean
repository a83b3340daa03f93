import SvrDemo.Coroutine.Endless

/-!
# One coroutine of a service

A service runs many coroutines, and the moves of the others come between the sections of each. `Followed` is a
configuration in which one coroutine is followed: where it waits among the others, and the sections that it has
run, its turns. `System.followAll` makes moves of the whole service and keeps an eye on it.

`followAll_induction` is the rule for what the turns of a coroutine have in common, whatever happens in
between. With it, a program that keeps a contract under which it relies on nothing keeps the guarantee in every
turn (`guar_of_followAll`).

`System.Attends` is a run that goes on forever and in which the coroutine gets another turn as long as it
waits: it comes to its end (`exists_ended`).
-/

set_option autoImplicit false
set_option relaxedAutoImplicit false

namespace SvrDemo.Coroutine

variable {I : Interface} {P σ α β κ : Type}

/-! ### Turns -/

/-- A section that a coroutine has run: where it waited, the state before, the reply and the answers it has
heard, and its result. -/
structure Turn (I : Interface) (P : Type) (σ : Type) where
  point : P
  origin : σ
  reply : I.Answer
  answers : List I.Answer
  outcome : Outcome I P σ

namespace Turn

variable (turn : Turn I P σ)

/-- The state after the turn. -/
def last : σ := turn.outcome.state

/-- What the coroutine has heard in the turn. -/
def heard : List I.Answer := turn.reply :: turn.answers

/-- The coroutine fails in the turn. -/
def fails : Bool := !(System.failed turn.outcome.ending).isEmpty

end Turn

/-- A configuration in which one coroutine is followed: its index, as long as it waits, and its turns. -/
structure Followed (I : Interface) (P : Type) (σ : Type) where
  configuration : Configuration I P σ
  index : Option ℕ
  turns : List (Turn I P σ)

/-- The coroutine that is followed, as long as it waits. -/
def Followed.thread (followed : Followed I P σ) : Option (Thread I P σ) :=
  followed.index.bind fun index ↦ followed.configuration.threads[index]?

/-- The coroutine that is followed has come to its end when it is not found any more. -/
def Followed.Tracked (followed : Followed I P σ) : Prop := followed.thread = none → followed.index = none

theorem Followed.Tracked.of_thread {followed : Followed I P σ} {thread : Thread I P σ}
    (hthread : followed.thread = some thread) : followed.Tracked :=
  fun hnone ↦ nomatch hnone.symm.trans hthread

theorem Followed.thread_of_index {followed : Followed I P σ} (hindex : followed.index = none) :
    followed.thread = none := by
  rw [Followed.thread, hindex, Option.bind_none]

/-- A coroutine of a configuration that has had no turn yet. -/
def Configuration.following (configuration : Configuration I P σ) (index : ℕ) : Followed I P σ :=
  ⟨configuration, some index, []⟩

namespace System

variable (system : System I P σ)

/-- The configuration after the section of the coroutine at an index. -/
def after (configuration : Configuration I P σ) (index : ℕ) (outcome : Outcome I P σ) :
    Configuration I P σ where
  state := outcome.state
  threads := configuration.threads.take index ++ system.leaves outcome ++
    configuration.threads.drop (index + 1)
  errors := configuration.errors ++ failed outcome.ending

/-- Where a coroutine that does not take the move waits afterwards. -/
def moved (index other : ℕ) (outcome : Outcome I P σ) : ℕ :=
  if other < index then index + (system.leaves outcome).length - 1 else index

/-- Where a coroutine that has run a section waits. -/
def stays (index : ℕ) (outcome : Outcome I P σ) : Option ℕ :=
  match outcome.ending with
  | .parked _ _ => some (index + outcome.forks.length)
  | _ => none

/-- One move of the service. -/
def follow (followed : Followed I P σ) : Move I P → Option (Followed I P σ)
  | .arrive point =>
    (system.play followed.configuration (.arrive point)).map fun next ↦
      { followed with configuration := next }
  | .resume other reply answers =>
    match followed.configuration.threads[other]? with
    | none => none
    | some thread =>
      match (thread.next reply).exec followed.configuration.state answers [] with
      | none => none
      | some outcome =>
        let next := system.after followed.configuration other outcome
        if followed.index = some other then
          some ⟨next, stays other outcome, followed.turns ++
            [⟨thread.point, followed.configuration.state, reply, answers, outcome⟩]⟩
        else
          some ⟨next, followed.index.map fun index ↦ system.moved index other outcome, followed.turns⟩

/-- A list of moves. -/
def followAll (followed : Followed I P σ) (moves : List (Move I P)) : Option (Followed I P σ) :=
  moves.foldlM system.follow followed

variable {system}

/-- A move is a move of the service, whatever it follows. -/
theorem play_of_follow {followed next : Followed I P σ} {move : Move I P}
    (hfollow : system.follow followed move = some next) :
    system.play followed.configuration move = some next.configuration := by
  cases move with
  | arrive point =>
    obtain ⟨configuration, hplay, rfl⟩ := Option.map_eq_some_iff.mp hfollow
    exact hplay
  | resume other reply answers =>
    simp only [follow] at hfollow
    split at hfollow
    · exact nomatch hfollow
    rename_i thread hthread
    split at hfollow
    · exact nomatch hfollow
    rename_i outcome hexec
    simp only [play, hthread, hexec]
    split at hfollow
    · obtain rfl := Option.some.inj hfollow
      rfl
    · obtain rfl := Option.some.inj hfollow
      rfl

/-- What a coroutine leaves of itself when it has run a section. -/
def rest (outcome : Outcome I P σ) : Option (Thread I P σ) :=
  match outcome.ending with
  | .parked point next => some ⟨point, next⟩
  | _ => none

theorem stays_of_rest {outcome : Outcome I P σ} (hrest : rest outcome = none) (index : ℕ) :
    stays index outcome = none := by
  unfold rest at hrest
  unfold stays
  cases hending : outcome.ending with
  | parked point next =>
    rw [hending] at hrest
    exact nomatch hrest
  | done => rfl
  | failed error => rfl

theorem parked_of_rest {outcome : Outcome I P σ} {thread : Thread I P σ} (hrest : rest outcome = some thread) :
    outcome.ending = .parked thread.point thread.next := by
  unfold rest at hrest
  cases hending : outcome.ending with
  | parked point next =>
    rw [hending] at hrest
    obtain rfl := Option.some.inj hrest
    rfl
  | done =>
    rw [hending] at hrest
    exact nomatch hrest
  | failed error =>
    rw [hending] at hrest
    exact nomatch hrest

/-- The coroutine that has run a section is found where it stays. -/
theorem getElem?_stays {configuration : Configuration I P σ} {index : ℕ} {outcome : Outcome I P σ}
    (hindex : index < configuration.threads.length) :
    ((stays index outcome).bind fun place ↦ (system.after configuration index outcome).threads[place]?) =
      rest outcome := by
  unfold stays rest
  cases hending : outcome.ending with
  | done => rfl
  | failed error => rfl
  | parked point next =>
    have hbefore : (configuration.threads.take index).length = index :=
      List.length_take_of_le (Nat.le_of_lt hindex)
    have hleaves : system.leaves outcome = outcome.forks.map system.start ++ [⟨point, next⟩] := by
      rw [leaves, hending]
      rfl
    rw [Option.bind_some, after]
    dsimp only
    rw [hleaves, List.append_assoc, List.getElem?_append_right (by omega), hbefore, Nat.add_sub_cancel_left,
      List.append_assoc, List.getElem?_append_right (by simp)]
    simp

/-- A coroutine that does not run waits where it has moved. -/
theorem getElem?_moved {configuration : Configuration I P σ} {index other : ℕ} {outcome : Outcome I P σ}
    (hother : other < configuration.threads.length) (hne : index ≠ other) :
    (system.after configuration other outcome).threads[system.moved index other outcome]? =
      configuration.threads[index]? := by
  have hbefore : (configuration.threads.take other).length = other :=
    List.length_take_of_le (Nat.le_of_lt hother)
  unfold moved after
  dsimp only
  split
  · rw [List.getElem?_append_right (by rw [List.length_append, hbefore]; omega), List.length_append, hbefore,
      List.getElem?_drop]
    congr 1
    omega
  · rw [List.append_assoc, List.getElem?_append_left (by omega), List.getElem?_take_of_lt (by omega)]

/-- A coroutine that has come to its end has no further turn. -/
theorem follow_ended {followed next : Followed I P σ} {move : Move I P} (hended : followed.index = none)
    (hfollow : system.follow followed move = some next) : next.turns = followed.turns ∧ next.index = none := by
  cases move with
  | arrive point =>
    obtain ⟨configuration, -, rfl⟩ := Option.map_eq_some_iff.mp hfollow
    exact ⟨rfl, hended⟩
  | resume other reply answers =>
    simp only [follow, hended] at hfollow
    split at hfollow
    · exact nomatch hfollow
    split at hfollow
    · exact nomatch hfollow
    obtain rfl := Option.some.inj hfollow
    exact ⟨rfl, rfl⟩

/-- One move of the service and a coroutine that waits: it has a turn, or stays as it is. -/
theorem follow_cases {followed next : Followed I P σ} {move : Move I P} {thread : Thread I P σ}
    (hthread : followed.thread = some thread) (hfollow : system.follow followed move = some next) :
    next.turns = followed.turns ∧ next.thread = some thread ∨
      ∃ reply answers outcome,
        (thread.next reply).exec followed.configuration.state answers [] = some outcome ∧
        next.turns = followed.turns ++
          [⟨thread.point, followed.configuration.state, reply, answers, outcome⟩] ∧
        next.thread = rest outcome ∧ (rest outcome = none → next.index = none) := by
  obtain ⟨index, hindex, hget⟩ := Option.bind_eq_some_iff.mp hthread
  obtain ⟨hlt, -⟩ := List.getElem?_eq_some_iff.mp hget
  cases move with
  | arrive point =>
    obtain ⟨configuration, hplay, rfl⟩ := Option.map_eq_some_iff.mp hfollow
    refine .inl ⟨rfl, ?_⟩
    simp only [play] at hplay
    split_ifs at hplay
    obtain rfl := Option.some.inj hplay
    simp only [Followed.thread, hindex, Option.bind_some]
    rw [List.getElem?_append_left hlt]
    exact hget
  | resume other reply answers =>
    simp only [follow] at hfollow
    split at hfollow
    · cases hfollow
    rename_i running hrunning
    split at hfollow
    · cases hfollow
    rename_i outcome hexec
    split at hfollow
    · rename_i hsame
      obtain rfl := Option.some.inj hfollow
      obtain rfl := Option.some.inj (hindex.symm.trans hsame)
      obtain rfl := Option.some.inj (hget.symm.trans hrunning)
      exact .inr ⟨reply, answers, outcome, hexec, rfl, getElem?_stays hlt, fun hrest ↦ stays_of_rest hrest index⟩
    · rename_i hne
      obtain rfl := Option.some.inj hfollow
      obtain ⟨hother, -⟩ := List.getElem?_eq_some_iff.mp hrunning
      refine .inl ⟨rfl, ?_⟩
      simp only [Followed.thread, hindex, Option.map_some, Option.bind_some]
      rw [getElem?_moved hother fun hsame ↦ hne (hsame ▸ hindex), hget]

/-- A coroutine stays tracked. -/
theorem tracked_of_follow {followed next : Followed I P σ} {move : Move I P} (htracked : followed.Tracked)
    (hfollow : system.follow followed move = some next) : next.Tracked := by
  intro hnone
  cases hwaits : followed.thread with
  | none => exact (follow_ended (htracked hwaits) hfollow).2
  | some waiting =>
    rcases follow_cases hwaits hfollow with ⟨-, hsame⟩ | ⟨_, _, outcome, -, -, hthen, hdone⟩
    · exact nomatch hnone.symm.trans hsame
    · exact hdone (hthen.symm.trans hnone)

/-- What holds of a coroutine before its first turn, and is kept by every turn that it takes in a configuration
that the service has reached, holds of its turns and of what it has left to do. -/
theorem followAll_induction (good : List (Turn I P σ) → Option (Thread I P σ) → Prop)
    {first : Configuration I P σ} {index : ℕ} {thread : Thread I P σ}
    (hthread : first.threads[index]? = some thread) (hstart : good [] (some thread))
    (hturn : ∀ turns thread reached reply answers outcome, good turns (some thread) →
      system.AnyRun first reached → (thread.next reply).exec reached.state answers [] = some outcome →
        good (turns ++ [⟨thread.point, reached.state, reply, answers, outcome⟩]) (rest outcome))
    {moves : List (Move I P)} {last : Followed I P σ}
    (hfollow : system.followAll (first.following index) moves = some last) :
    good last.turns last.thread := by
  have hall : ∀ (moves : List (Move I P)) (followed : Followed I P σ),
      system.AnyRun first followed.configuration → good followed.turns followed.thread → followed.Tracked →
        system.followAll followed moves = some last → good last.turns last.thread := by
    intro moves
    induction moves with
    | nil =>
      intro followed _ hgood _ hfollow
      obtain rfl := Option.some.inj hfollow
      exact hgood
    | cons move moves ih =>
      intro followed hrun hgood htracked hfollow
      rw [followAll, List.foldlM_cons, Option.bind_eq_bind, Option.bind_eq_some_iff] at hfollow
      obtain ⟨next, hmove, hrest⟩ := hfollow
      refine ih next (.snoc hrun trivial (play_of_follow hmove)) ?_ (tracked_of_follow htracked hmove) hrest
      cases hwaits : followed.thread with
      | none =>
        obtain ⟨hturns, hindex⟩ := follow_ended (htracked hwaits) hmove
        rw [hturns, Followed.thread_of_index hindex, ← hwaits]
        exact hgood
      | some waiting =>
        rw [hwaits] at hgood
        rcases follow_cases hwaits hmove with ⟨hturns, hsame⟩ | ⟨reply, answers, outcome, hexec, hturns, hthen, -⟩
        · rw [hturns, hsame]
          exact hgood
        · rw [hturns, hthen]
          exact hturn _ _ _ _ _ _ hgood hrun hexec
  have hfollowing : (first.following index).thread = some thread := hthread
  exact hall moves _ (.refl first) (hfollowing ▸ hstart) (.of_thread hfollowing) hfollow

/-- The turns of a coroutine begin in states that the service has reached. -/
theorem reached_of_followAll {first : Configuration I P σ} {index : ℕ} {thread : Thread I P σ}
    (hthread : first.threads[index]? = some thread) {moves : List (Move I P)} {last : Followed I P σ}
    (hfollow : system.followAll (first.following index) moves = some last) :
    ∀ turn ∈ last.turns, ∃ reached, system.AnyRun first reached ∧ reached.state = turn.origin := by
  refine followAll_induction (fun turns _ ↦
    ∀ turn ∈ turns, ∃ reached, system.AnyRun first reached ∧ reached.state = turn.origin)
    hthread (fun _ hturn ↦ absurd hturn List.not_mem_nil) ?_ hfollow
  intro turns thread reached reply answers outcome hgood hrun _ turn hturn
  rcases List.mem_append.mp hturn with hold | hnew
  · exact hgood turn hold
  · obtain rfl := List.mem_singleton.mp hnew
    exact ⟨reached, hrun, rfl⟩

/-- A coroutine that keeps a contract under which it relies on nothing keeps the guarantee in every turn. -/
theorem guar_of_followAll {starts : P → Prop} {guar : P → σ → List I.Answer → List P → σ → Prop}
    {first : Configuration I P σ} {index : ℕ} {thread : Thread I P σ}
    (hthread : first.threads[index]? = some thread)
    (hkeeps : ∀ state, (Contract.stateless starts guar).Waits thread state) {moves : List (Move I P)}
    {last : Followed I P σ} (hfollow : system.followAll (first.following index) moves = some last) :
    ∀ turn ∈ last.turns, ∃ left, guar turn.point turn.origin turn.heard left turn.last := by
  refine (followAll_induction (fun turns rest ↦
    (∀ turn ∈ turns, ∃ left, guar turn.point turn.origin turn.heard left turn.last) ∧
      ∀ thread ∈ rest, ∀ state, (Contract.stateless starts guar).Waits thread state)
    hthread ⟨fun _ hturn ↦ absurd hturn List.not_mem_nil, ?_⟩ ?_ hfollow).1
  · intro other hother
    obtain rfl := Option.some.inj hother
    exact hkeeps
  · intro turns thread reached reply answers outcome hgood _ hexec
    obtain ⟨hguar, -, hparked, -⟩ := Program.wp_exec _ _ _ _ _
      (hgood.2 thread rfl reached.state reply reached.state trivial) hexec
    refine ⟨fun turn hturn ↦ ?_, fun next hnext state reply later _ ↦ ?_⟩
    · rcases List.mem_append.mp hturn with hold | hnew
      · exact hgood.1 turn hold
      · obtain rfl := List.mem_singleton.mp hnew
        exact ⟨_, hguar⟩
    · refine hparked next ?_ reply later trivial
      rw [parked_of_rest hnext]
      exact List.mem_singleton_self _

/-- What the turns of such a coroutine have in common as long as they meet a condition: a turn that begins at one of
some places, and meets it, leaves the coroutine at one of them. -/
theorem good_of_followAll {starts : P → Prop} {guar : P → σ → List I.Answer → List P → σ → Prop}
    (places : P → Prop) {meets good : Turn I P σ → Prop} {first : Configuration I P σ} {index : ℕ}
    {thread : Thread I P σ} (hthread : first.threads[index]? = some thread) (hplace : places thread.point)
    (hkeeps : ∀ state, (Contract.stateless starts guar).Waits thread state)
    (hturn : ∀ turn left, places turn.point → meets turn →
      guar turn.point turn.origin turn.heard left turn.last → good turn ∧ ∀ other ∈ left, places other)
    {moves : List (Move I P)} {last : Followed I P σ}
    (hfollow : system.followAll (first.following index) moves = some last)
    (hmeets : ∀ turn ∈ last.turns, meets turn) : ∀ turn ∈ last.turns, good turn := by
  refine (followAll_induction (fun turns rest ↦
    (∀ thread ∈ rest, ∀ state, (Contract.stateless starts guar).Waits thread state) ∧
      ((∀ turn ∈ turns, meets turn) → (∀ turn ∈ turns, good turn) ∧ ∀ thread ∈ rest, places thread.point))
    hthread ⟨?_, fun _ ↦ ⟨fun _ hturn ↦ absurd hturn List.not_mem_nil, ?_⟩⟩ ?_ hfollow).2 hmeets |>.1
  · rintro other ⟨⟩
    exact hkeeps
  · rintro other ⟨⟩
    exact hplace
  · intro turns thread reached reply answers outcome hgood _ hexec
    obtain ⟨hguar, -, hparked, -⟩ := Program.wp_exec _ _ _ _ _
      (hgood.1 thread rfl reached.state reply reached.state trivial) hexec
    refine ⟨fun next hnext state reply later _ ↦ ?_, fun hmeets ↦ ?_⟩
    · refine hparked next ?_ reply later trivial
      rw [parked_of_rest hnext]
      exact List.mem_singleton_self _
    · obtain ⟨hold, hwaits⟩ := hgood.2 fun turn hturn ↦ hmeets turn (List.mem_append_left _ hturn)
      obtain ⟨hnew, hleft⟩ := hturn ⟨thread.point, reached.state, reply, answers, outcome⟩ _ (hwaits thread rfl)
        (hmeets _ (List.mem_append_right _ (List.mem_singleton_self _))) hguar
      refine ⟨fun turn hturn ↦ ?_, fun next hnext ↦ hleft next.point ?_⟩
      · rcases List.mem_append.mp hturn with hbefore | hlast
        · exact hold turn hbefore
        · exact List.mem_singleton.mp hlast ▸ hnew
      · rw [parked_of_rest hnext]
        exact List.mem_append_right _ (List.mem_singleton_self _)

/-! ### Runs that go on forever -/

/-- A run that goes on forever, in which the coroutine that is followed gets another turn as long as it waits. -/
structure Attends (system : System I P σ) (runs : ℕ → Followed I P σ) (moves : ℕ → Move I P) : Prop where
  step : ∀ time, system.follow (runs time) (moves time) = some (runs (time + 1))
  turn : ∀ time, (runs time).thread.isSome → ∃ later ≥ time, (runs (later + 1)).turns ≠ (runs later).turns

variable {runs : ℕ → Followed I P σ} {moves : ℕ → Move I P}

/-- What is reached in such a run is reached by finitely many moves. -/
theorem Attends.followAll_of (h : system.Attends runs moves) (time : ℕ) :
    system.followAll (runs 0) ((List.range time).map moves) = some (runs time) := by
  induction time with
  | zero => rfl
  | succ time ih =>
    rw [List.range_succ, List.map_append, followAll, List.foldlM_append, ← followAll, ih]
    simp [h.step time]

/-- A coroutine that gets its turns comes to its end. -/
theorem Attends.exists_ended (h : system.Attends runs moves) (hthread : (runs 0).thread.isSome) :
    ∃ time, (runs time).thread = none := by
  obtain ⟨thread, hfirst⟩ := Option.isSome_iff_exists.mp hthread
  have htracked : ∀ time, (runs time).Tracked := by
    intro time
    induction time with
    | zero => exact .of_thread hfirst
    | succ time ih => exact tracked_of_follow ih (h.step time)
  refine exists_idle wellFounded_leads (fun time ↦ (runs time).thread)
    (fun time ↦ (runs (time + 1)).turns ≠ (runs time).turns) ?_ ?_ h.turn
  · intro time hidle
    cases hwaits : (runs time).thread with
    | none => exact Followed.thread_of_index (follow_ended (htracked time hwaits) (h.step time)).2
    | some waiting =>
      rcases follow_cases hwaits (h.step time) with ⟨-, hsame⟩ | ⟨_, _, _, -, hturns, -⟩
      · exact hsame
      · exact absurd (not_not.mp hidle) (by rw [hturns]; simp)
  · intro time before after hbusy hbefore hafter
    rcases follow_cases hbefore (h.step time) with ⟨hturns, -⟩ | ⟨reply, answers, outcome, hexec, -, hthen, -⟩
    · exact absurd hturns hbusy
    · exact ⟨reply, _, answers, [], outcome, hexec, parked_of_rest (hthen.symm.trans hafter)⟩

/-- A move adds to the turns. -/
theorem turns_prefix_of_follow {followed next : Followed I P σ} {move : Move I P} (htracked : followed.Tracked)
    (hfollow : system.follow followed move = some next) : followed.turns <+: next.turns := by
  cases hwaits : followed.thread with
  | none => exact (follow_ended (htracked hwaits) hfollow).1 ▸ List.prefix_rfl
  | some thread =>
    rcases follow_cases hwaits hfollow with ⟨hturns, -⟩ | ⟨_, _, _, -, hturns, -⟩
    · exact hturns ▸ List.prefix_rfl
    · rw [hturns]; exact List.prefix_append _ _

/-- A coroutine that has come to its end: the run goes on forever when messages arrive. -/
theorem attends_ended {followed : Followed I P σ} (hindex : followed.index = none) {point : P}
    (harrives : system.arrives point = true) : ∃ runs moves, system.Attends runs moves ∧ runs 0 = followed ∧
      ∀ time, (runs time).turns = followed.turns := by
  let runs : ℕ → Followed I P σ := fun time ↦ { followed with
    configuration := { followed.configuration with
      threads := followed.configuration.threads ++ List.replicate time (system.start point) } }
  have hnone : ∀ time, (runs time).thread = none := fun time ↦ Followed.thread_of_index hindex
  refine ⟨runs, fun _ ↦ .arrive point, ⟨fun time ↦ ?_, fun time hsome ↦ ?_⟩, ?_, fun _ ↦ rfl⟩
  · simp [runs, follow, play, harrives, List.replicate_succ']
  · rw [hnone] at hsome
    cases hsome
  · simp [runs]

/-- A run that brings a coroutine to its end goes on forever when messages arrive. -/
theorem exists_attends {point : P} (harrives : system.arrives point = true) {moves : List (Move I P)}
    {last : Followed I P σ} (hended : last.thread = none) : ∀ {followed : Followed I P σ}, followed.Tracked →
      system.followAll followed moves = some last → ∃ runs moves', system.Attends runs moves' ∧
        runs 0 = followed ∧ ∀ time, (runs time).turns <+: last.turns := by
  induction moves with
  | nil =>
    intro followed htracked hfollow
    obtain rfl := Option.some.inj hfollow
    obtain ⟨runs, moves', hattends, hfirst, hturns⟩ := attends_ended (htracked hended) harrives
    exact ⟨runs, moves', hattends, hfirst, fun time ↦ hturns time ▸ List.prefix_rfl⟩
  | cons move moves ih =>
    intro followed htracked hfollow
    rw [followAll, List.foldlM_cons, Option.bind_eq_bind, Option.bind_eq_some_iff] at hfollow
    obtain ⟨next, hmove, hrest⟩ := hfollow
    obtain ⟨runs, moves', hattends, hfirst, hturns⟩ := ih (tracked_of_follow htracked hmove) hrest
    refine ⟨fun time ↦ Nat.casesOn time followed runs, fun time ↦ Nat.casesOn time move moves',
      ⟨fun time ↦ ?_, fun time hsome ↦ ?_⟩, rfl, fun time ↦ ?_⟩
    · cases time with
      | zero => exact hmove.trans (congrArg some hfirst.symm)
      | succ time => exact hattends.step time
    · cases time with
      | succ time =>
        obtain ⟨later, hlater, hturn⟩ := hattends.turn time hsome
        exact ⟨later + 1, Nat.succ_le_succ hlater, hturn⟩
      | zero =>
        obtain ⟨thread, hwaits⟩ := Option.isSome_iff_exists.mp hsome
        rcases follow_cases hwaits hmove with ⟨-, hsame⟩ | ⟨_, _, _, -, hnew, -⟩
        · obtain ⟨later, hlater, hturn⟩ := hattends.turn 0 (by rw [hfirst, hsame]; rfl)
          exact ⟨later + 1, Nat.zero_le _, hturn⟩
        · exact ⟨0, le_rfl, fun hsame ↦ by simp [hfirst, hnew] at hsame⟩
    · cases time with
      | succ time => exact hturns time
      | zero => exact (turns_prefix_of_follow htracked hmove).trans (hfirst ▸ hturns 0)

end System

end SvrDemo.Coroutine
