import SvrDemo.Coroutine.Logic
import Mathlib.Data.Nat.Find

/-!
# Runs that go on forever

A coroutine gets further with every reply: what is left of its program after a section is a part of what
was left before. So `Thread.Leads`, which relates a waiting coroutine to the one it was a section ago, is
well founded, and a coroutine cannot wait for a reply, get it and wait again forever.

`System.Endless` is a run that goes on forever. `exists_idle` is the rule for what comes to its end in such
a run: something that is worked on time and again as long as it is there, and that shrinks whenever it is
worked on, is gone at some time.
-/

set_option autoImplicit false
set_option relaxedAutoImplicit false

namespace SvrDemo.Coroutine

variable {I : Interface} {P σ α : Type}

/-- A coroutine that waits a section after another one has waited in its place. -/
def Thread.Leads (later earlier : Thread I P σ) : Prop :=
  ∃ reply state answers forks outcome,
    (earlier.next reply).exec state answers forks = some outcome ∧
      outcome.ending = .parked later.point later.next

/-- What a program leaves waiting is one of its own waits. -/
theorem Program.acc_of_exec (program : Program I P σ Unit) :
    ∀ (state : σ) (answers : List I.Answer) (forks : List P) (outcome : Outcome I P σ)
      (later : Thread I P σ), program.exec state answers forks = some outcome →
      outcome.ending = .parked later.point later.next → Acc Thread.Leads later := by
  induction program with
  | ret value =>
    intro state answers forks outcome later hexec hending
    cases answers with
    | cons _ _ => cases hexec
    | nil =>
      obtain rfl := Option.some.inj hexec
      cases hending
  | get next ih => intro state; exact ih state state
  | set changed next ih => intro state; exact ih changed
  | ask query next ih =>
    intro state answers forks outcome later hexec hending
    cases answers with
    | nil => cases hexec
    | cons answer answers =>
      simp only [Program.exec] at hexec
      split_ifs at hexec
      exact ih answer state answers forks outcome later hexec hending
  | wait point next ih =>
    intro state answers forks outcome later hexec hending
    cases answers with
    | cons _ _ => cases hexec
    | nil =>
      obtain rfl := Option.some.inj hexec
      obtain ⟨rfl, rfl⟩ := Ending.parked.inj hending
      constructor
      rintro last ⟨reply, state', answers', forks', outcome', hexec', hending'⟩
      exact ih reply state' answers' forks' outcome' last hexec' hending'
  | fork point next ih =>
    intro state answers forks
    exact ih state answers (forks ++ [point])
  | fail error =>
    intro state answers forks outcome later hexec hending
    cases answers with
    | cons _ _ => cases hexec
    | nil =>
      obtain rfl := Option.some.inj hexec
      cases hending

/-- No coroutine waits time and again forever. -/
theorem wellFounded_leads : WellFounded (Thread.Leads (I := I) (P := P) (σ := σ)) := by
  constructor
  intro earlier
  constructor
  rintro later ⟨reply, state, answers, forks, outcome, hexec, hending⟩
  exact (earlier.next reply).acc_of_exec state answers forks outcome later hexec hending

/-- Something that shrinks whenever it is worked on, and is worked on time and again, is gone at some
time. -/
theorem exists_idle {smaller : α → α → Prop} (hwell : WellFounded smaller) (value : ℕ → Option α)
    (busy : ℕ → Prop) (hkeeps : ∀ time, ¬ busy time → value (time + 1) = value time)
    (hshrinks : ∀ time first last, busy time → value time = some first →
      value (time + 1) = some last → smaller last first)
    (hfair : ∀ time, (value time).isSome → ∃ later ≥ time, busy later) :
    ∃ time, value time = none := by
  classical
  have hstage : ∀ first time, value time = some first → ∃ last, value last = none := by
    intro first
    induction first using hwell.induction with
    | h first ih =>
      intro time hfirst
      obtain ⟨later, hlater, hbusy⟩ := hfair time (by rw [hfirst]; rfl)
      -- the first time from now on at which it is worked on
      have hexists : ∃ delay, busy (time + delay) := ⟨later - time, by rwa [Nat.add_sub_of_le hlater]⟩
      have hsame : ∀ delay ≤ Nat.find hexists, value (time + delay) = some first := by
        intro delay
        induction delay with
        | zero => intro _; exact hfirst
        | succ delay ih =>
          intro hdelay
          have hidle : ¬ busy (time + delay) := Nat.find_min hexists hdelay
          rw [← Nat.add_assoc, hkeeps (time + delay) hidle]
          exact ih (Nat.le_of_succ_le hdelay)
      cases hnext : value (time + Nat.find hexists + 1) with
      | none => exact ⟨_, hnext⟩
      | some last =>
        exact ih last (hshrinks _ first last (Nat.find_spec hexists) (hsame _ le_rfl) hnext) _ hnext
  cases hfirst : value 0 with
  | none => exact ⟨0, hfirst⟩
  | some first => exact hstage first 0 hfirst

namespace System

/-- A run that goes on forever, through the configurations `run` by the moves `moves`. -/
structure Endless (system : System I P σ) (condition : Configuration I P σ → Move I P → Prop)
    (run : ℕ → Configuration I P σ) (moves : ℕ → Move I P) : Prop where
  meets : ∀ time, condition (run time) (moves time)
  step : ∀ time, system.play (run time) (moves time) = some (run (time + 1))

variable {system : System I P σ} {condition : Configuration I P σ → Move I P → Prop}
  {run : ℕ → Configuration I P σ} {moves : ℕ → Move I P}

/-- What an endless run reaches is reached by a run. -/
theorem Endless.run_of (h : system.Endless condition run moves) (time : ℕ) :
    system.Run condition (run 0) (run time) := by
  induction time with
  | zero => exact .refl _
  | succ time ih => exact .snoc ih (h.meets time) (h.step time)

/-- A move that resumes a coroutine of some kind. -/
def Serves (kind : P → Bool) (configuration : Configuration I P σ) : Move I P → Prop
  | .arrive _ => False
  | .resume index _ _ => ∃ thread, configuration.threads[index]? = some thread ∧ kind thread.point = true

/-- The first coroutine of some kind that waits. -/
def threadOf (kind : P → Bool) (configuration : Configuration I P σ) : Option (Thread I P σ) :=
  configuration.threads.find? fun thread ↦ kind thread.point

/-- No coroutine of the kind waits. -/
theorem threadOf_eq_none_iff {kind : P → Bool} {configuration : Configuration I P σ} :
    threadOf kind configuration = none ↔ configuration.points.filter kind = [] := by
  rw [threadOf, List.find?_eq_none, List.filter_eq_nil_iff]
  simp [Configuration.points]

/-- The section that a move runs. -/
theorem exists_of_play_resume {first last : Configuration I P σ} {index : ℕ} {reply : I.Answer}
    {answers : List I.Answer} (hplay : system.play first (.resume index reply answers) = some last) :
    ∃ thread outcome, first.threads[index]? = some thread ∧
      (thread.next reply).exec first.state answers [] = some outcome ∧ last.state = outcome.state ∧
      first.threads = first.threads.take index ++ thread :: first.threads.drop (index + 1) ∧
      last.threads = first.threads.take index ++ system.leaves outcome ++
        first.threads.drop (index + 1) := by
  simp only [play] at hplay
  split at hplay
  · cases hplay
  rename_i thread hthread
  split at hplay
  · cases hplay
  rename_i outcome hexec
  obtain rfl := Option.some.inj hplay
  obtain ⟨hlength, hget⟩ := List.getElem?_eq_some_iff.mp hthread
  refine ⟨thread, outcome, hthread, hexec, rfl, ?_, rfl⟩
  rw [← hget, List.getElem_cons_drop, List.take_append_drop]

/-- A section of a coroutine of a good configuration keeps its guarantee, and what it starts meets its
precondition. -/
theorem Sound.section_of_exec {K : Contract I P σ} {inv : σ → List P → Prop}
    (sound : system.Sound K inv condition) {configuration : Configuration I P σ}
    (hgood : Good K inv configuration) {thread : Thread I P σ} (hthread : thread ∈ configuration.threads)
    {reply : I.Answer} {answers : List I.Answer} {outcome : Outcome I P σ}
    (hexec : (thread.next reply).exec configuration.state answers [] = some outcome) :
    K.guar thread.point configuration.state (reply :: answers)
        ((system.leaves outcome).map Thread.point) outcome.state ∧
      ∀ point ∈ outcome.forks, K.pre point outcome.state := by
  have hkeeps := hgood.waits thread hthread reply configuration.state
    (sound.rely_refl thread.point configuration.state)
  have hsection := Program.wp_exec _ _ _ _ _ hkeeps hexec
  rw [points_leaves]
  exact ⟨hsection.1, hsection.2.1⟩

/-- A move that serves another kind leaves the coroutine of the kind waiting where it is. -/
theorem threadOf_of_play {kind : P → Bool} {first last : Configuration I P σ} {move : Move I P}
    (hplay : system.play first move = some last) (hserves : ¬ Serves kind first move)
    (harrives : ∀ point, system.arrives point = true → kind point = false)
    (hleft : ∀ index reply answers thread outcome, move = .resume index reply answers →
      first.threads[index]? = some thread → (thread.next reply).exec first.state answers [] = some outcome →
      ∀ other ∈ system.leaves outcome, kind other.point = false) :
    threadOf kind last = threadOf kind first := by
  cases move with
  | arrive point =>
    simp only [play] at hplay
    split_ifs at hplay with hpoint
    obtain rfl := Option.some.inj hplay
    have hnew : [system.start point].find? (fun thread ↦ kind thread.point) = none := by
      simp [start, harrives point hpoint]
    rw [threadOf, threadOf, List.find?_append, hnew, Option.or_none]
  | resume index reply answers =>
    obtain ⟨thread, outcome, hthread, hexec, -, hfirst, hlast⟩ := exists_of_play_resume hplay
    have hkind : kind thread.point = false := by
      by_contra hkind
      exact hserves ⟨thread, hthread, by simpa using hkind⟩
    have hleaves : (system.leaves outcome).find? (fun thread ↦ kind thread.point) = none := by
      rw [List.find?_eq_none]
      exact fun other hother ↦ by simp [hleft index reply answers thread outcome rfl hthread hexec other hother]
    rw [threadOf, threadOf, hlast, List.find?_append, List.find?_append, hleaves, Option.or_none]
    nth_rewrite 3 [hfirst]
    rw [List.find?_append, List.find?_cons_of_neg (by simp [hkind])]

/-- A move that serves the only coroutine of a kind leaves those of the kind that its section leaves. -/
theorem threadOf_of_serves {kind : P → Bool} {first last : Configuration I P σ} {index : ℕ}
    {reply : I.Answer} {answers : List I.Answer}
    (hplay : system.play first (.resume index reply answers) = some last)
    (hserves : Serves kind first (.resume index reply answers))
    (hsingle : (first.points.filter kind).length ≤ 1) :
    ∃ thread outcome, threadOf kind first = some thread ∧ thread ∈ first.threads ∧
      (thread.next reply).exec first.state answers [] = some outcome ∧ last.state = outcome.state ∧
      threadOf kind last = (system.leaves outcome).find? fun thread ↦ kind thread.point := by
  obtain ⟨thread, outcome, hthread, hexec, hstate, hfirst, hlast⟩ := exists_of_play_resume hplay
  have hkind : kind thread.point = true := by
    obtain ⟨other, hother, hkind⟩ := hserves
    rw [hthread] at hother
    exact Option.some.inj hother ▸ hkind
  have halone : ∀ other ∈ first.threads.take index ++ first.threads.drop (index + 1),
      kind other.point = false := by
    intro other hother
    rw [Configuration.points, hfirst, List.map_append, List.map_cons] at hsingle
    refine alone_of_single hsingle hkind other.point ?_
    rw [← List.map_append]
    exact List.mem_map_of_mem hother
  have hbefore : (first.threads.take index).find? (fun thread ↦ kind thread.point) = none := by
    rw [List.find?_eq_none]
    exact fun other hother ↦ by simp [halone other (List.mem_append_left _ hother)]
  have hafter : (first.threads.drop (index + 1)).find? (fun thread ↦ kind thread.point) = none := by
    rw [List.find?_eq_none]
    exact fun other hother ↦ by simp [halone other (List.mem_append_right _ hother)]
  refine ⟨thread, outcome, ?_, List.mem_of_getElem? hthread, hexec, hstate, ?_⟩
  · rw [threadOf, hfirst, List.find?_append, hbefore, Option.none_or]
    simp [hkind]
  · rw [threadOf, hlast, List.find?_append, List.find?_append, hbefore, hafter, Option.none_or,
      Option.or_none]

end System

end SvrDemo.Coroutine
