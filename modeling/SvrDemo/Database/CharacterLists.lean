import SvrDemo.Database.Character

/-!
# The lists of characters

`Creates` says what one section of a `character_create` can do, and `Listed` is the invariant: a request
between its read and its write of a list is alone with the account and has read what is still stored, and
every character that has been returned is in the list of its account.

It holds in the runs in which the requests of an account do not overlap between the read and the write, a
read fails only where there is nothing to read, and the write does not fail. Along such a run the lists only
grow.
-/

set_option autoImplicit false
set_option relaxedAutoImplicit false

namespace SvrDemo.Database

open Coroutine Skynet

/-! ### What a section does -/

/-- The point of a request of the account between its read and its write of the list. -/
def CharacterPoint.saves (account : ℤ) : CharacterPoint → Bool
  | .savelist owner _ _ _ => owner == account
  | _ => false

/-- The effect of one section. What it does to the names and the saved characters is left open. -/
inductive Creates : CharacterPoint → Characters → List (Reply (Option ℤ)) → List CharacterPoint →
    Characters → Prop
  /-- The coroutine ends or goes on, at a place other than the write, and the lists are as they were. -/
  | other {point : CharacterPoint} {store later : Characters} {heard : List (Reply (Option ℤ))}
      {left : List CharacterPoint} (calm : ∀ account, point.saves account = false)
      (next : ∀ place ∈ left, ∀ account, place.saves account = false)
      (lists : later.lists = store.lists) (returned : later.returned = store.returned) :
      Creates point store heard left later
  | reads {account id : ℤ} {character : Character} {store : Characters} {heard : List (Reply (Option ℤ))}
      {list : List ℤ} (stored : store.lists account = some list) :
      Creates (.list account id character) store heard
        [.savelist account id character (list ++ [id])] store
  | missesList {account id : ℤ} {character : Character} {store : Characters}
      {heard : List (Reply (Option ℤ))}
      (cause : .failed ∈ heard ∨ .lost ∈ heard ∨ store.lists account = none) :
      Creates (.list account id character) store heard
        [.savelist account id character [id]] store
  | writes {account id : ℤ} {character : Character} {list : List ℤ} {store : Characters}
      {heard : List (Reply (Option ℤ))} (named : character.id = some id) :
      Creates (.savelist account id character list) store heard []
        ({ store with lists := Function.update store.lists account (some list) }.returns account character)
  | losesWrite {account id : ℤ} {character : Character} {list : List ℤ} {store : Characters}
      {heard : List (Reply (Option ℤ))} (named : character.id = some id) (cause : .failed ∈ heard) :
      Creates (.savelist account id character list) store heard [] (store.returns account character)

/-- The contract of the requests. -/
def characterContract (gdd : Gdd) : Contract characterRedis CharacterPoint Characters :=
  .stateless (fun point ↦ (characterService gdd).arrives point = true) Creates

variable {gdd : Gdd}

/-- A section that starts no coroutine keeps its promise when it has the effect. -/
theorem ends_of_creates {point : CharacterPoint} {origin state : Characters}
    {heard : List (Reply (Option ℤ))} {left : List CharacterPoint}
    (hcreates : Creates point origin heard left state) :
    (characterContract gdd).Ends ⟨point, origin, heard, []⟩ left state :=
  ⟨hcreates, fun _ hfork ↦ nomatch hfork⟩

/-- A call of the database: a function that fails is a function without a result. -/
theorem wp_dispatch {α : Type} {function : CharacterTask α}
    {post : Option α → Section characterRedis CharacterPoint Characters → Characters → Prop}
    {raised : LuaError → Section characterRedis CharacterPoint Characters → Characters → Prop}
    {current : Section characterRedis CharacterPoint Characters} {state : Characters}
    (h : function.wp (characterContract gdd) (fun value ↦ post (some value)) (fun _ ↦ post none) current
      state) :
    (dispatch function).wp (characterContract gdd) post raised current state := by
  rw [dispatch, Program.wp_bind, Program.wp_attempt]
  exact h

/-- The rest of a request after its read: the list is written and the character is returned. -/
theorem wp_savelist {account id : ℤ} {character : Character} {list : List ℤ} {point : CharacterPoint}
    {origin state : Characters} {heard : List (Reply (Option ℤ))} (named : character.id = some id)
    (hreads : Creates point origin heard [.savelist account id character list] state) :
    (characterContract gdd).Keeps
      (do
        let _ ← dispatch (Character.savelist (.savelist account id character list) account list)
        Program.modifyState fun store ↦ store.returns account character)
      ⟨point, origin, heard, []⟩ state := by
  refine (Program.wp_bind _ _ _ _ _ _).mpr (wp_dispatch (wp_command (ends_of_creates hreads) ?_ ?_ ?_))
  · exact fun _ _ _ _ ↦ ends_of_creates (.writes named)
  · exact fun _ ↦ ends_of_creates (.writes named)
  · exact fun _ ↦ ends_of_creates (.losesWrite named List.mem_cons_self)

/-- The rest of a request after the character has been saved: the list is read. -/
theorem wp_loadList {account id : ℤ} {character : Character} {point : CharacterPoint}
    {origin state : Characters} {heard : List (Reply (Option ℤ))} (named : character.id = some id)
    (hsaves : Creates point origin heard [.list account id character] state) :
    (characterContract gdd).Keeps
      (do
        let list ← loadList (.list account id character) account
        let list := list ++ [id]
        let _ ← dispatch (Character.savelist (.savelist account id character list) account list)
        Program.modifyState fun store ↦ store.returns account character)
      ⟨point, origin, heard, []⟩ state := by
  refine (Program.wp_bind _ _ _ _ _ _).mpr ((Program.wp_bind _ _ _ _ _ _).mpr (wp_dispatch
    ((Program.wp_bind _ _ _ _ _ _).mpr (wp_command (ends_of_creates hsaves) ?_ ?_ ?_))))
  · intro reply later _ _
    cases hstored : later.lists account with
    | some list => exact wp_savelist named (.reads hstored)
    | none => exact wp_savelist named (.missesList (.inr (.inr hstored)))
  · exact fun later ↦ wp_savelist named (.missesList (.inr (.inl List.mem_cons_self)))
  · exact fun later ↦ wp_savelist named (.missesList (.inl List.mem_cons_self))

/-- A section that changes no list, and leaves at most a coroutine before its read. -/
theorem creates_other {point : CharacterPoint} {store later : Characters} {heard : List (Reply (Option ℤ))}
    {left : List CharacterPoint} (hpoint : ∀ account, point.saves account = false)
    (hleft : ∀ place ∈ left, ∀ account, place.saves account = false) (hlists : later.lists = store.lists)
    (hreturned : later.returned = store.returned) :
    (characterContract gdd).Ends ⟨point, store, heard, []⟩ left later :=
  ends_of_creates (.other hpoint hleft hlists hreturned)

/-- `REQUEST.character_create` keeps the contract. -/
theorem keeps_characterCreate (account : ℤ) (args : Option GeneralArgs) (store : Characters)
    (heard : List (Reply (Option ℤ))) :
    (characterContract gdd).Keeps (characterCreate gdd account args)
      ⟨.characterCreate account args, store, heard, []⟩ store := by
  have hnone : ∀ place ∈ ([] : List CharacterPoint), ∀ account, place.saves account = false :=
    fun _ hmem ↦ (List.not_mem_nil hmem).elim
  have hone : ∀ next : CharacterPoint, (∀ account, next.saves account = false) →
      ∀ place ∈ [next], ∀ account, place.saves account = false := by
    intro next hnext place hplace
    obtain rfl := List.mem_singleton.mp hplace
    exact hnext
  have hraised : ∀ (error : LuaError) (heard : List (Reply (Option ℤ))), (characterContract gdd).raised error
      ⟨.characterCreate account args, store, heard, []⟩ store := fun error heard ↦
    ⟨trivial, creates_other (fun _ ↦ rfl) hnone rfl rfl⟩
  cases args with
  | none => exact hraised _ _
  | some c =>
    simp only [characterCreate]
    cases Character.create gdd c with
    | error error => exact hraised error _
    | ok character =>
      refine (Program.wp_bind _ _ _ _ _ _).mpr ((Program.wp_bind _ _ _ _ _ _).mpr fun reply _ ↦ ?_)
      rcases reply with _ | _ | _ | _ | id
      · exact hraised _ _
      · exact hraised _ _
      · exact hraised _ _
      · exact hraised _ _
      refine (Program.wp_bind _ _ _ _ _ _).mpr (wp_dispatch ((Program.wp_bind _ _ _ _ _ _).mpr
        (wp_command (creates_other (fun _ ↦ rfl) (hone _ fun _ ↦ rfl) rfl rfl) ?_ ?_ ?_)))
      · intro reply later _ _
        cases hfresh : (later.names character.general.name).isNone with
        | false => exact creates_other (fun _ ↦ rfl) hnone rfl rfl
        | true =>
          -- the name is reserved, and whatever comes of the save the list is read next
          refine (Program.wp_bind _ _ _ _ _ _).mpr (wp_dispatch (wp_command
            (creates_other (fun _ ↦ rfl) (hone _ fun _ ↦ rfl) rfl rfl) ?_ ?_ ?_))
          · exact fun _ _ _ _ ↦ wp_loadList rfl (.other (fun _ ↦ rfl) (hone _ fun _ ↦ rfl) rfl rfl)
          · exact fun _ ↦ wp_loadList rfl (.other (fun _ ↦ rfl) (hone _ fun _ ↦ rfl) rfl rfl)
          · exact fun _ ↦ wp_loadList rfl (.other (fun _ ↦ rfl) (hone _ fun _ ↦ rfl) rfl rfl)
      · exact fun later ↦ creates_other (fun _ ↦ rfl) hnone rfl rfl
      · exact fun later ↦ creates_other (fun _ ↦ rfl) hnone rfl rfl

/-! ### The invariant -/

/-- A character that has been returned is in the list of its account. -/
def Characters.Keeps (store : Characters) (entry : ℤ × Character) : Prop :=
  ∃ id, entry.2.id = some id ∧ id ∈ store.list entry.1

/-- What a coroutine has read is still stored while it waits for its write. -/
def Characters.Fits (store : Characters) : CharacterPoint → Prop
  | .savelist account id _ list => list = store.list account ++ [id]
  | _ => True

/-- The invariant of the requests. -/
structure Listed (store : Characters) (points : List CharacterPoint) : Prop where
  fits : ∀ point ∈ points, store.Fits point
  single : ∀ account, (points.filter (CharacterPoint.saves account)).length ≤ 1
  kept : ∀ entry ∈ store.returned, store.Keeps entry

/-- The lists of one state begin with those of another. -/
def Characters.Grows (store later : Characters) : Prop :=
  ∀ account, store.list account <+: later.list account

/-- The same as an invariant of the runs from a state. -/
def Characters.GrownTo (store later : Characters) (_ : List CharacterPoint) : Prop :=
  store.Grows later

/-- The conditions on a section: no two requests of an account are between the read and the write, a read
that fails finds no list, and no write fails. -/
def Serial (store : Characters) (points : List CharacterPoint) :
    CharacterPoint → List (Reply (Option ℤ)) → Prop
  | .list account _ _, heard => (∀ point ∈ points, point.saves account = false) ∧
      (.failed ∈ heard ∨ .lost ∈ heard → store.list account = [])
  | .savelist _ _ _ _, heard => .failed ∉ heard
  | _, _ => True

instance (store : Characters) (points : List CharacterPoint) :
    (point : CharacterPoint) → (heard : List (Reply (Option ℤ))) →
      Decidable (Serial store points point heard)
  | .characterCreate _ _, _ | .reserve _ _ _, _ | .save _ _ _, _ => inferInstanceAs (Decidable True)
  | .list account _ _, heard => inferInstanceAs
    (Decidable ((∀ point ∈ points, point.saves account = false) ∧
      (.failed ∈ heard ∨ .lost ∈ heard → store.list account = [])))
  | .savelist _ _ _ _, heard => inferInstanceAs (Decidable (.failed ∉ heard))

/-- The lists of the accounts that do not change. -/
theorem Characters.list_congr {store later : Characters} (h : later.lists = store.lists) (account : ℤ) :
    later.list account = store.list account := by
  rw [Characters.list, Characters.list, h]

namespace Listed

variable {store later : Characters} {before left after : List CharacterPoint} {point : CharacterPoint}
  {heard : List (Reply (Option ℤ))} {account id : ℤ} {character : Character} {list : List ℤ}

/-- A section that changes no list and reads none. -/
theorem calm (h : Listed store (before ++ point :: after))
    (hleft : ∀ place ∈ left, ∀ account, place.saves account = false) (hlists : later.lists = store.lists)
    (hreturned : later.returned = store.returned) : Listed later (before ++ left ++ after) where
  fits := by
    intro place hplace
    rcases mem_of_left hplace with hnew | hold
    · have hcalm := hleft place hnew
      cases place with
      | savelist owner id character list =>
        have hself : (CharacterPoint.savelist owner id character list).saves owner = true :=
          beq_self_eq_true owner
        rw [hcalm owner] at hself
        cases hself
      | characterCreate _ _ => exact trivial
      | reserve _ _ _ => exact trivial
      | save _ _ _ => exact trivial
      | list _ _ _ => exact trivial
    · have hfits := h.fits place hold
      cases place with
      | savelist owner id character list => exact Eq.trans hfits (by rw [Characters.list_congr hlists])
      | characterCreate _ _ => exact trivial
      | reserve _ _ _ => exact trivial
      | save _ _ _ => exact trivial
      | list _ _ _ => exact trivial
  single := by
    intro account
    exact (length_filter_left_le point fun place hplace ↦ hleft place hplace account).trans
      (h.single account)
  kept := by
    intro entry hentry
    rw [hreturned] at hentry
    obtain ⟨id, hid, hmem⟩ := h.kept entry hentry
    exact ⟨id, hid, by rwa [Characters.list_congr hlists]⟩

/-- A request reads the list of an account with which it is alone. -/
theorem read (h : Listed store (before ++ .list account id character :: after))
    (halone : ∀ place ∈ before ++ .list account id character :: after, place.saves account = false)
    (hlist : list = store.list account) :
    Listed store (before ++ [.savelist account id character (list ++ [id])] ++ after) where
  fits := by
    intro place hplace
    rcases mem_of_left hplace with hnew | hold
    · obtain rfl := List.mem_singleton.mp hnew
      exact congrArg (· ++ [id]) hlist
    · exact h.fits place hold
  single := by
    intro owner
    by_cases howner : account = owner
    · subst howner
      refine single_of_alone _ fun other hother ↦ halone other ?_
      simp only [List.mem_append, List.mem_cons] at hother ⊢
      tauto
    · refine (length_filter_left_le _ fun other hother ↦ ?_).trans (h.single owner)
      obtain rfl := List.mem_singleton.mp hother
      exact beq_eq_false_iff_ne.mpr howner
  kept := h.kept

/-- The lists after the write of a request. -/
theorem list_write (h : Listed store (before ++ .savelist account id character list :: after)) (owner : ℤ) :
    ({ store with lists := Function.update store.lists account (some list) } : Characters).list owner =
      if owner = account then store.list account ++ [id] else store.list owner := by
  have hfits : list = store.list account ++ [id] :=
    h.fits _ (List.mem_append_right _ List.mem_cons_self)
  split_ifs with howner
  · subst howner
    simp [Characters.list, hfits]
  · simp [Characters.list, howner]

/-- The write of a request adds its character to the list. -/
theorem write (h : Listed store (before ++ .savelist account id character list :: after))
    (named : character.id = some id) :
    Listed (({ store with lists := Function.update store.lists account (some list) } : Characters).returns
      account character) (before ++ [] ++ after) := by
  have hlist := h.list_write
  have halone := alone_of_single (h.single account) (beq_self_eq_true account)
  refine ⟨?_, ?_, ?_⟩
  · intro place hplace
    have hfits := h.fits place ((mem_of_left hplace).resolve_left List.not_mem_nil)
    rw [List.append_nil] at hplace
    have hother := halone place hplace
    cases place with
    | savelist owner id' character' list' =>
      have howner : owner ≠ account := beq_eq_false_iff_ne.mp hother
      refine Eq.trans hfits (congrArg (· ++ [id']) ?_)
      exact ((hlist owner).trans (if_neg howner)).symm
    | characterCreate _ _ => exact trivial
    | reserve _ _ _ => exact trivial
    | save _ _ _ => exact trivial
    | list _ _ _ => exact trivial
  · intro owner
    exact (length_filter_left_le _ fun _ hother ↦ (List.not_mem_nil hother).elim).trans (h.single owner)
  · intro entry hentry
    rcases List.mem_append.mp hentry with hold | hnew
    · obtain ⟨other, hother, hmem⟩ := h.kept entry hold
      refine ⟨other, hother, ?_⟩
      refine (hlist entry.1).symm ▸ ?_
      split_ifs with howner
      · exact List.mem_append_left _ (howner ▸ hmem)
      · exact hmem
    · obtain rfl := List.mem_singleton.mp hnew
      refine ⟨id, named, (hlist account).symm ▸ ?_⟩
      rw [if_pos rfl]
      exact List.mem_append_right _ List.mem_cons_self

/-- One section keeps the invariant. -/
theorem step (h : Listed store (before ++ point :: after))
    (hmeets : Serial store (before ++ point :: after) point heard)
    (hcreates : Creates point store heard left later) :
    Listed later (before ++ left ++ after) ∧ store.Grows later := by
  cases hcreates with
  | other calm next lists returned =>
    refine ⟨h.calm next lists returned, fun account ↦ ?_⟩
    rw [Characters.list_congr lists]
  | reads stored =>
    exact ⟨h.read hmeets.1 (by rw [Characters.list, stored]; rfl), fun _ ↦ List.prefix_refl _⟩
  | @missesList account _ _ _ _ cause =>
    have hempty : store.list account = [] := by
      rcases cause with hfailed | hlost | hnone
      · exact hmeets.2 (.inl hfailed)
      · exact hmeets.2 (.inr hlost)
      · rw [Characters.list, hnone]
        rfl
    exact ⟨h.read hmeets.1 hempty.symm, fun _ ↦ List.prefix_refl _⟩
  | @writes account id _ _ _ _ named =>
    refine ⟨h.write named, fun owner ↦ ?_⟩
    refine (h.list_write owner).symm ▸ ?_
    split_ifs with howner
    · exact howner ▸ List.prefix_append _ _
    · exact List.prefix_refl _
  | losesWrite named cause => exact absurd cause hmeets

end Listed

/-! ### Runs -/

/-- The condition on the moves. -/
def SerialMove : Configuration characterRedis CharacterPoint Characters →
    Move characterRedis CharacterPoint → Prop :=
  Hears fun configuration ↦ Serial configuration.state configuration.points

instance (configuration : Configuration characterRedis CharacterPoint Characters)
    (move : Move characterRedis CharacterPoint) : Decidable (SerialMove configuration move) :=
  inferInstanceAs (Decidable (Hears _ configuration move))

/-- A section of the service has one of the effects. -/
theorem keeps_characterEntry {point : CharacterPoint}
    (harrives : (characterService gdd).arrives point = true) (store : Characters)
    (heard : List (Reply (Option ℤ))) :
    (characterContract gdd).Keeps (characterEntry gdd point) ⟨point, store, heard, []⟩ store := by
  cases point with
  | characterCreate account args => exact keeps_characterCreate account args store heard
  | reserve _ _ _ => exact nomatch harrives
  | save _ _ _ => exact nomatch harrives
  | list _ _ _ => exact nomatch harrives
  | savelist _ _ _ _ => exact nomatch harrives

/-- A request that arrives changes nothing. -/
theorem Listed.arrive {store : Characters} {points : List CharacterPoint} {point : CharacterPoint}
    (h : Listed store points) (harrives : (characterService gdd).arrives point = true) :
    Listed store (points ++ [point]) := by
  cases point with
  | characterCreate account args =>
    refine ⟨?_, ?_, h.kept⟩
    · intro place hplace
      rcases List.mem_append.mp hplace with hold | hnew
      · exact h.fits place hold
      · obtain rfl := List.mem_singleton.mp hnew
        exact trivial
    · intro owner
      rw [List.filter_append, List.filter_cons_of_neg Bool.false_ne_true, List.filter_nil, List.append_nil]
      exact h.single owner
  | reserve _ _ _ => exact nomatch harrives
  | save _ _ _ => exact nomatch harrives
  | list _ _ _ => exact nomatch harrives
  | savelist _ _ _ _ => exact nomatch harrives

/-- The requests keep the invariant. -/
theorem sound_characterService (gdd : Gdd) :
    (characterService gdd).Sound (characterContract gdd) Listed SerialMove := by
  refine System.sound_stateless (fun point reply state hstarts ↦ keeps_characterEntry hstarts state [reply])
    (fun configuration point _ harrives hinv ↦ ⟨hinv.arrive harrives, harrives⟩) ?_
  intro configuration before point after reply answers left last hmeets hpoints hinv hcreates
  have hhears := Hears.meets hmeets hpoints
  rw [hpoints] at hhears hinv
  exact (hinv.step hhears hcreates).1

/-- In a run in which the requests of an account do not overlap between the read and the write of its list,
no read of a list fails that has characters, and no write fails, the lists only grow and have every
character that a request has returned. -/
theorem characters_kept (gdd : Gdd) {names : String → Option ℤ} {saved : ℤ → Option Character}
    {lists : ℤ → Option (List ℤ)} {middle last : Configuration characterRedis CharacterPoint Characters}
    (hbefore : (characterService gdd).Run SerialMove ⟨⟨names, saved, lists, []⟩, [], []⟩ middle)
    (hafter : (characterService gdd).Run SerialMove middle last) :
    middle.state.Grows last.state ∧ ∀ entry ∈ last.state.returned, last.state.Keeps entry := by
  have hfirst : Listed ⟨names, saved, lists, []⟩ [] :=
    ⟨fun _ hmem ↦ (List.not_mem_nil hmem).elim, fun _ ↦ Nat.zero_le 1,
      fun _ hmem ↦ (List.not_mem_nil hmem).elim⟩
  have hmiddle := (sound_characterService gdd).good_of_run
    ((sound_characterService gdd).good_of_starts hfirst fun _ hmem ↦ (List.not_mem_nil hmem).elim) hbefore
  have hstep : ∀ (configuration : Configuration characterRedis CharacterPoint Characters) before point after
      reply answers left last, SerialMove configuration (.resume before.length reply answers) →
      configuration.points = before ++ point :: after → Listed configuration.state configuration.points →
      middle.state.GrownTo configuration.state configuration.points →
      Creates point configuration.state (reply :: answers) left last →
      middle.state.GrownTo last (before ++ left ++ after) := by
    intro configuration before point after reply answers left last hmeets hpoints hinv hgrown hcreates
    have hhears := Hears.meets hmeets hpoints
    rw [hpoints] at hhears hinv
    exact fun account ↦ (hgrown account).trans ((hinv.step hhears hcreates).2 account)
  have hstart : middle.state.GrownTo middle.state middle.points := fun _ ↦ List.prefix_refl _
  obtain ⟨hlast, hgrown⟩ := (sound_characterService gdd).holds_of_run (fun _ _ hmeets ↦ hmeets)
    (fun _ _ _ _ hgrown ↦ hgrown) hstep hmiddle hstart hafter
  exact ⟨hgrown, hlast.holds.kept⟩

/-! ### Two runs -/

/-- Game data with one race and one class. -/
def exampleGdd : Gdd where
  race := fun race ↦ if race = "orc" then some ⟨"Orgrimmar", 900, 10, 900, 0⟩ else none
  class' := fun class' ↦ class' == "mage"

/-- An empty database. -/
def noCharacters : Characters := ⟨fun _ ↦ none, fun _ ↦ none, fun _ ↦ none, []⟩

/-- A request of the account `7` that comes to its read of the list at an index. -/
def comesToRead (index : ℕ) (name : String) (id : ℤ) : List (Move characterRedis CharacterPoint) :=
  [.arrive (.characterCreate 7 (some ⟨some name, some "orc", some "mage"⟩)),
    .resume index .done [.answer (some id)], .resume index .done [], .resume index .done []]

/-- The accounts, the ids that have been returned and the list of the account `7`. -/
def returnedIds (configuration : Configuration characterRedis CharacterPoint Characters) :
    List (ℤ × Option ℤ) × List ℤ :=
  (configuration.state.returned.map fun entry ↦ (entry.1, entry.2.id), configuration.state.list 7)

/-- Two requests after one another. -/
theorem characters_kept_two :
    ∃ last, (characterService exampleGdd).Run SerialMove ⟨noCharacters, [], []⟩ last ∧
      returnedIds last = ([(7, some 1), (7, some 2)], [1, 2]) ∧ noCharacters.Grows last.state ∧
      ∀ entry ∈ last.state.returned, last.state.Keeps entry := by
  obtain ⟨last, hrun, hvalue⟩ := (characterService exampleGdd).exists_run_of_playMeeting SerialMove
    ⟨noCharacters, [], []⟩ (comesToRead 0 "grom" 1 ++ [.resume 0 .done [], .resume 0 .done []] ++
      comesToRead 0 "thrall" 2 ++ [.resume 0 .done [], .resume 0 .done []]) returnedIds
    (show _ = some ([(7, some 1), (7, some 2)], [1, 2]) by decide +kernel)
  exact ⟨last, hrun, hvalue, characters_kept exampleGdd (.refl _) hrun⟩

/-- Two requests that read the list before either writes it: both return a character, and the list has
the second one only. -/
theorem character_overwritten :
    ∃ last, (characterService exampleGdd).AnyRun ⟨noCharacters, [], []⟩ last ∧ last.points = [] ∧
      ¬ ∀ entry ∈ last.state.returned, last.state.Keeps entry := by
  obtain ⟨last, hrun, hvalue⟩ := (characterService exampleGdd).exists_run_of_playAll
    ⟨noCharacters, [], []⟩ (comesToRead 0 "grom" 1 ++ comesToRead 1 "thrall" 2 ++
      [.resume 0 .done [], .resume 1 .done [], .resume 0 .done [], .resume 0 .done []])
    (fun last ↦ (last.points, returnedIds last))
    (show _ = some ([], [(7, some 1), (7, some 2)], [2]) by decide +kernel)
  obtain ⟨hpoints, hreturned, hlist⟩ : last.points = [] ∧
      last.state.returned.map (fun entry ↦ (entry.1, entry.2.id)) = [(7, some 1), (7, some 2)] ∧
        last.state.list 7 = [2] := by
    simpa only [Prod.mk.injEq, returnedIds] using hvalue
  refine ⟨last, hrun, hpoints, fun hall ↦ ?_⟩
  have hfirst : ((7, some 1) : ℤ × Option ℤ) ∈
      last.state.returned.map fun entry ↦ (entry.1, entry.2.id) := by
    rw [hreturned]
    exact List.mem_cons_self
  obtain ⟨entry, hentry, hpair⟩ := List.mem_map.mp hfirst
  obtain ⟨haccount, hid⟩ := Prod.mk.inj hpair
  obtain ⟨id, hid', hmem⟩ := hall entry hentry
  obtain rfl : id = 1 := Option.some.inj (hid'.symm.trans hid)
  rw [haccount, hlist] at hmem
  simp at hmem

end SvrDemo.Database
