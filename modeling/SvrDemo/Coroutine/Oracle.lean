import SvrDemo.Coroutine.Logic

/-!
# Computing under an oracle

A part of a section that neither waits nor starts a coroutine computes: what it returns and the state it leaves
follow from the answers to its questions. An `Oracle` is an environment that answers, and `Program.evaluate` is the
computation under it. It has no value when the program waits, starts a coroutine or fails, so that to have a value
under every oracle is to come to the end whatever the environment answers.

`exec_of_evaluate` says what this means for a section: it goes through the part with admissible answers and
continues with the value.
-/

set_option autoImplicit false
set_option relaxedAutoImplicit false

namespace SvrDemo.Coroutine

variable {I : Interface} {P σ α β κ : Type}

/-- An environment that answers. The answer may depend on how many questions came before, and it is admissible
for every question that has an admissible answer. -/
structure Oracle (I : Interface) where
  answer : ℕ → I.Query → I.Answer
  admissible : ∀ asked query answered, I.admissible query answered = true →
    I.admissible query (answer asked query) = true

/-- The end of a computation: its value, the number of questions asked so far, and the state. -/
structure Computed (α σ : Type) where
  value : α
  asked : ℕ
  state : σ

namespace Program

/-- What a program computes under an oracle. -/
def evaluate (oracle : Oracle I) : Program I P σ α → ℕ → σ → Option (Computed α σ)
  | .ret value, asked, state => some ⟨value, asked, state⟩
  | .get next, asked, state => (next state).evaluate oracle asked state
  | .set changed next, asked, _ => next.evaluate oracle asked changed
  | .ask query next, asked, state =>
    if I.admissible query (oracle.answer asked query) then
      (next (oracle.answer asked query)).evaluate oracle (asked + 1) state
    else none
  | .wait _ _, _, _ => none
  | .fork _ _, _, _ => none
  | .fail _, _, _ => none

/-- The composition rule. -/
theorem evaluate_bind (oracle : Oracle I) (first : Program I P σ α) (rest : α → Program I P σ β) :
    ∀ (asked : ℕ) (state : σ), (first >>= rest).evaluate oracle asked state =
      (first.evaluate oracle asked state).bind fun computed ↦
        (rest computed.value).evaluate oracle computed.asked computed.state := by
  induction first with
  | ret value => intro asked state; rfl
  | get next ih => intro asked state; exact ih state asked state
  | set changed next ih => intro asked state; exact ih asked changed
  | ask query next ih =>
    intro asked state
    by_cases hadmissible : I.admissible query (oracle.answer asked query) = true
    · refine (if_pos hadmissible).trans ((ih _ (asked + 1) state).trans ?_)
      rw [evaluate, if_pos hadmissible]
    · refine (if_neg hadmissible).trans ?_
      rw [evaluate, if_neg hadmissible]
      rfl
  | wait point next => intro asked state; rfl
  | fork point next => intro asked state; rfl
  | fail error => intro asked state; rfl

/-- A program computes a value, and the value, the number of questions and the state meet a condition. -/
def Computes (oracle : Oracle I) (program : Program I P σ α) (post : α → ℕ → σ → Prop) (asked : ℕ) (state : σ) :
    Prop :=
  ∃ computed, program.evaluate oracle asked state = some computed ∧
    post computed.value computed.asked computed.state

/-! ### Rules -/

section Rules

variable {oracle : Oracle I} {asked : ℕ} {state : σ}

theorem computes_pure {value : α} {post : α → ℕ → σ → Prop} (h : post value asked state) :
    (pure value : Program I P σ α).Computes oracle post asked state :=
  ⟨⟨value, asked, state⟩, rfl, h⟩

theorem computes_getState {post : σ → ℕ → σ → Prop} (h : post state asked state) :
    (getState : Program I P σ σ).Computes oracle post asked state :=
  ⟨⟨state, asked, state⟩, rfl, h⟩

theorem computes_modifyState {change : σ → σ} {post : Unit → ℕ → σ → Prop} (h : post () asked (change state)) :
    (modifyState change : Program I P σ Unit).Computes oracle post asked state :=
  ⟨⟨(), asked, change state⟩, rfl, h⟩

theorem computes_query {question : I.Query} {answered : I.Answer} (hanswered : I.admissible question answered = true)
    {post : I.Answer → ℕ → σ → Prop} (h : post (oracle.answer asked question) (asked + 1) state) :
    (query question : Program I P σ I.Answer).Computes oracle post asked state :=
  ⟨⟨_, _, state⟩, if_pos (oracle.admissible asked question answered hanswered), h⟩

theorem computes_mono {program : Program I P σ α} {post post' : α → ℕ → σ → Prop}
    (hpost : ∀ value asked state, post value asked state → post' value asked state)
    (h : program.Computes oracle post asked state) : program.Computes oracle post' asked state := by
  obtain ⟨computed, hcomputed, hmeets⟩ := h
  exact ⟨computed, hcomputed, hpost _ _ _ hmeets⟩

/-- A composition computes what its second part computes from the value of the first. -/
theorem computes_bind {first : Program I P σ α} {rest : α → Program I P σ β} {post : β → ℕ → σ → Prop}
    (h : first.Computes oracle (fun value ↦ (rest value).Computes oracle post) asked state) :
    (first >>= rest).Computes oracle post asked state := by
  obtain ⟨computed, hcomputed, last, hlast, hpost⟩ := h
  refine ⟨last, ?_, hpost⟩
  rw [evaluate_bind, hcomputed, Option.bind_some, hlast]

/-- A loop that only changes the state. -/
theorem computes_forEach_modifyState {change : κ → σ → σ} {list : List κ} {post : Unit → ℕ → σ → Prop}
    (h : post () asked (list.foldl (fun state key ↦ change key state) state)) :
    (forEach list fun key ↦ modifyState (change key) : Program I P σ Unit).Computes oracle post asked state := by
  induction list generalizing state with
  | nil => exact computes_pure h
  | cons head tail ih => exact computes_bind (computes_modifyState (ih h))

/-- The rule for a loop with an accumulator: when every turn has a value and keeps the invariant, so has the loop.
The invariant sees what of the list is done. -/
theorem computes_foldlM {turn : β → κ → Program I P σ β} {list : List κ} {start : β}
    (inv : List κ → β → ℕ → σ → Prop) {post : β → ℕ → σ → Prop} (hstart : inv [] start asked state)
    (hturn : ∀ done head tail acc asked state, list = done ++ head :: tail → inv done acc asked state →
      (turn acc head).Computes oracle (inv (done ++ [head])) asked state)
    (hpost : ∀ acc asked state, inv list acc asked state → post acc asked state) :
    (list.foldlM turn start).Computes oracle post asked state := by
  suffices hloop : ∀ (rest done : List κ) (acc : β) (asked : ℕ) (state : σ), list = done ++ rest →
      inv done acc asked state → (rest.foldlM turn acc).Computes oracle post asked state from
    hloop list [] start asked state rfl hstart
  intro rest
  induction rest with
  | nil =>
    intro done acc asked state hlist hinv
    rw [List.append_nil] at hlist
    exact computes_pure (hpost acc asked state (hlist ▸ hinv))
  | cons head tail ih =>
    intro done acc asked state hlist hinv
    rw [List.foldlM_cons]
    refine computes_bind (computes_mono (fun next asked state hnext ↦ ?_)
      (hturn done head tail acc asked state hlist hinv))
    exact ih (done ++ [head]) next asked state (by rw [hlist, List.append_assoc]; rfl) hnext

/-- The rule for a loop without an accumulator. -/
theorem computes_forEach {body : κ → Program I P σ Unit} {list : List κ} (inv : List κ → ℕ → σ → Prop)
    {post : Unit → ℕ → σ → Prop} (hstart : inv [] asked state)
    (hturn : ∀ done head tail asked state, list = done ++ head :: tail → inv done asked state →
      (body head).Computes oracle (fun _ ↦ inv (done ++ [head])) asked state)
    (hpost : ∀ asked state, inv list asked state → post () asked state) :
    (forEach list body).Computes oracle post asked state := by
  have hfold : forEach list body = list.foldlM (fun _ key ↦ body key) () := by
    clear hturn hpost
    induction list with
    | nil => rfl
    | cons head tail ih =>
      rw [forEach_cons, List.foldlM_cons]
      exact congrArg (body head >>= ·) (funext fun _ ↦ ih)
  rw [hfold]
  refine computes_foldlM (fun done _ ↦ inv done) hstart ?_ ?_
  · intro done head tail _ asked state hlist hinv
    exact hturn done head tail asked state hlist hinv
  · intro _ asked state hinv
    exact hpost asked state hinv

end Rules

/-! ### Inside a section -/

instance : LawfulMonad (Program I P σ) :=
  LawfulMonad.mk' _ bind_ret (fun _ _ ↦ rfl) bind_assoc

/-- A section that begins with a computation goes through it, with answers the environment can give, and
continues with its value. -/
theorem exec_of_evaluate {oracle : Oracle I} {computed : Computed α σ} (program : Program I P σ α) :
    ∀ {asked : ℕ} {state : σ}, program.evaluate oracle asked state = some computed →
      ∃ answers : List I.Answer, answers.length + asked = computed.asked ∧
        ∀ (rest : α → Program I P σ Unit) (later : List I.Answer) (forks : List P),
          (program >>= rest).exec state (answers ++ later) forks =
            (rest computed.value).exec computed.state later forks := by
  induction program with
  | ret value =>
    intro asked state hcomputed
    obtain rfl := Option.some.inj hcomputed
    exact ⟨[], Nat.zero_add asked, fun _ _ _ ↦ rfl⟩
  | get next ih =>
    intro asked state hcomputed
    obtain ⟨answers, hlength, hexec⟩ := ih state hcomputed
    exact ⟨answers, hlength, hexec⟩
  | set changed next ih =>
    intro asked state hcomputed
    obtain ⟨answers, hlength, hexec⟩ := ih hcomputed
    exact ⟨answers, hlength, hexec⟩
  | ask query next ih =>
    intro asked state hcomputed
    rw [evaluate] at hcomputed
    split at hcomputed
    · rename_i hadmissible
      obtain ⟨answers, hlength, hexec⟩ := ih _ hcomputed
      refine ⟨oracle.answer asked query :: answers, ?_, fun rest later forks ↦ ?_⟩
      · rw [List.length_cons, ← hlength]
        omega
      · exact (if_pos hadmissible).trans (hexec rest later forks)
    · exact nomatch hcomputed
  | wait point next => intro asked state hcomputed; exact nomatch hcomputed
  | fork point next => intro asked state hcomputed; exact nomatch hcomputed
  | fail error => intro asked state hcomputed; exact nomatch hcomputed

end Program

end SvrDemo.Coroutine
