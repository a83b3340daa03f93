import SvrDemo.Coroutine.Endless
import SvrDemo.Douniu.CourseTurn

/-!
# Runs of a traced fight

The contract is sound for the traced fight service, in runs in which the calls of the game that it does
not protect return if the game is to run smoothly, and in which `onKickOut` assigns no new key to the players of
the room while the game broadcasts to them. Until the game is over there is one coroutine of it.

`game_ends_once` is about the runs of a game of at most ten players in a sturdy room: its turns are at
most twenty-eight while the clock is timely, it sends the money of a player to the database at most once,
and it calls `unlock_room` once. In a run that goes on forever, and in which a coroutine of the game that
waits gets its reply at some time, the game comes to its end: from turn to turn there is less room for
another one, and within a turn the coroutine has less to do after every reply. When the players of the room get
a new key during the last broadcast, the game may end without the call of `unlock_room`.
-/

set_option autoImplicit false
set_option relaxedAutoImplicit false

namespace SvrDemo.Douniu

open Coroutine Lua Skynet

variable {smooth : Prop} {updates : List MoneyUpdate} {whole : TimedFight}

/-! ### Soundness -/

/-- The calls of the game that it does not protect return: all but those that store money. -/
def CallsReturn {σ : Type} : Configuration skynet Point σ → Move skynet Point → Prop :=
  Resumes fun _ point reply ↦
    point.handler.isMessage = false → point.call.isSaving = false → reply ≠ .raised

instance {σ : Type} (configuration : Configuration skynet Point σ) (move : Move skynet Point) :
    Decidable (CallsReturn configuration move) :=
  inferInstanceAs (Decidable (Resumes _ configuration move))

/-- The player whom a message kicks out when it is taken up. -/
def Point.kicks : Point → Option ℕ
  | ⟨.onKickOut uid, .start⟩ => some uid
  | _ => none

/-- `onKickOut` of a uid that the room lacks, which assigns `nil` to a key that the table `player_lst` does not
have, is not taken up while a broadcast of the game waits. -/
def KicksSeated {σ : Type} (fightOf : σ → Fight) (configuration : Configuration skynet Point σ) (point : Point)
    (_ : Answer) : Prop :=
  ∀ uid ∈ point.kicks, uid ∉ (Fight.roomPlayers.rows (fightOf configuration.state)).keys →
    ∀ other ∈ configuration.points, other.handler.isMessage = false → other.call.broadcasts = false

/-- The calls of the game return, and the room gets no new keys while the game broadcasts to its players. -/
def RunsSmoothly {σ : Type} (fightOf : σ → Fight) (configuration : Configuration skynet Point σ)
    (move : Move skynet Point) : Prop :=
  CallsReturn configuration move ∧ Resumes (KicksSeated fightOf) configuration move

instance {σ : Type} (fightOf : σ → Fight) (configuration : Configuration skynet Point σ) (point : Point)
    (reply : Answer) : Decidable (KicksSeated fightOf configuration point reply) :=
  inferInstanceAs (Decidable (∀ uid ∈ point.kicks, _))

instance {σ : Type} (fightOf : σ → Fight) (configuration : Configuration skynet Point σ)
    (move : Move skynet Point) : Decidable (RunsSmoothly fightOf configuration move) :=
  inferInstanceAs (Decidable (_ ∧ _))

/-- The game is about to be opened, or at most one coroutine of it waits and it is on its course. A game
that is to run smoothly is left by its last coroutine when it is over. -/
inductive CourseInvariant (smooth : Prop) (whole : TimedFight) (points : List Point) : Prop
  | before (roomInfo : RoomInfo) (waits : gamePoints points = [⟨.onStart roomInfo, .start⟩])
      (fresh : whole.2 = .fresh)
  | during (single : (gamePoints points).length ≤ 1)
      (opened : ∀ point ∈ gamePoints points, point.opensGame = false) (onCourse : OnCourse whole)
      (timer : whole.2.timely = true → ∀ point ∈ gamePoints points, point.call = .start →
        (whole.2.turns : ℤ) + 1 ≤ turnLimit 4)
      (ended : gamePoints points = [] → whole.2.overs = 1 ∨ ¬ smooth)

namespace CourseInvariant

theorem of_undisturbed {last : Fight} {points points' : List Point}
    (hpoints : gamePoints points' = gamePoints points) (hsame : Undisturbed whole.1 last)
    (h : CourseInvariant smooth whole points) : CourseInvariant smooth (last, whole.2) points' := by
  cases h with
  | before roomInfo hwaits hfresh => exact .before roomInfo (hpoints.trans hwaits) hfresh
  | during hsingle hopened honCourse htimer hended =>
    rw [← hpoints] at hsingle hopened htimer hended
    exact .during hsingle hopened (honCourse.of_undisturbed hsame) htimer hended

theorem single' {points : List Point} (h : CourseInvariant smooth whole points) :
    (gamePoints points).length ≤ 1 := by
  cases h with
  | before roomInfo hwaits _ => rw [hwaits]; exact le_rfl
  | during hsingle _ _ _ _ => exact hsingle

/-- A section of the game leaves it on its course, with what the section leaves waiting for its coroutines. -/
theorem of_section {before left after : List Point} {point : Point} {heard : List Answer} {last : TimedFight}
    (h : CourseInvariant smooth whole (before ++ point :: after)) (hkind : point.handler.isMessage = false)
    (hsection : CourseSection smooth point whole heard left last)
    (hreturns : smooth → point.call.isSaving = false → heard.head? ≠ some .raised) :
    CourseInvariant smooth last (before ++ left ++ after) := by
  obtain ⟨-, hleft⟩ := gamePoints_of_game_section h.single' hkind fun other hother ↦
    (hsection.waiting other hother).1
  refine .during ?_ ?_ hsection.onCourse ?_ ?_
  · rw [hleft]
    exact hsection.single
  · rw [hleft]
    exact fun other hother ↦ (hsection.waiting other hother).2
  · rw [hleft]
    exact hsection.timer
  · rw [hleft]
    intro hnil
    rcases hsection.ended hnil with hover | hrough | ⟨hraised, hsaving⟩
    · exact .inl hover
    · exact .inr hrough
    · exact .inr fun hsmooth ↦ hreturns hsmooth hsaving hraised

end CourseInvariant

/-- A message does not disturb the game. -/
theorem MessageSection.undisturbed {point : Point} {origin last : Fight} {left : List Point}
    (h : MessageSection point origin left last) : Undisturbed origin last := by
  rw [h.effect]
  split_ifs
  · exact Handler.undisturbed_effect _ _
  · exact .refl origin

/-- A message leaves the table of the players of the room without new keys, unless it is `onKickOut` of a uid that
the room lacks. -/
theorem MessageSection.sameLayout {point : Point} {origin last : Fight} {left : List Point}
    (h : MessageSection point origin left last)
    (hseated : ∀ uid ∈ point.kicks, uid ∈ (Fight.roomPlayers.rows origin).keys) :
    SameLayout origin last := by
  rw [h.effect]
  split_ifs with hstart
  · obtain ⟨handler, call⟩ := point
    obtain rfl : call = .start := hstart
    cases handler with
    | onKickOut uid =>
      have hkey := hseated uid (by simp [Point.kicks])
      cases hroom : origin.room with
      | none => simp [SameLayout, Fight.roomPlayers, Handler.effect, hroom]
      | some room =>
        have hmem : uid ∈ room.playerLst.keys := by simpa [Fight.roomPlayers, hroom] using hkey
        simp [SameLayout, Fight.roomPlayers, Handler.effect, hroom, RoomInfo.removePlayer, hmem]
    | onGetLeader uid odds =>
      cases odds with
      | none => rfl
      | some odds =>
        simp only [Handler.effect]
        split_ifs <;> rfl
    | onSetOdds uid odds =>
      cases odds with
      | none => rfl
      | some odds =>
        simp only [Handler.effect]
        split_ifs <;> rfl
    | onPackCard uid cards => cases cards <;> rfl
    | _ => rfl
  · rfl

/-- The contract is sound for the traced fight service. -/
theorem sound_timedFight (smooth : Prop) (updates : List MoneyUpdate) :
    timedFight.Sound (courseContract smooth updates) (CourseInvariant smooth)
      fun configuration move ↦ smooth → RunsSmoothly Prod.fst configuration move where
  rely_refl _ whole _ := ⟨.refl whole.1, rfl, fun _ _ ↦ rfl⟩
  rely_trans _ _ _ _ h h' hgame := by
    obtain ⟨hsame, hcourse, hlayout⟩ := h hgame
    obtain ⟨hsame', hcourse', hlayout'⟩ := h' hgame
    exact ⟨hsame.trans hsame', hcourse'.trans hcourse, fun hsmooth hcall ↦
      (hlayout' hsmooth hcall).trans (hlayout hsmooth hcall)⟩
  pre_rely point first last hpre hrely := by
    obtain ⟨handler, call⟩ := point
    cases call with
    | start =>
      cases handler with
      | onStart roomInfo =>
        obtain ⟨hsame, hcourse, -⟩ := hrely rfl
        exact ⟨hpre.1, hsame.interferes.moneyUpdates.trans hpre.2.1, hcourse.trans hpre.2.2.1, hpre.2.2.2⟩
      | checkStatus =>
        obtain ⟨hsame, hcourse, -⟩ := hrely rfl
        obtain ⟨hready, hunderway, hpaced, hstays⟩ := hpre
        have hlast : last = (last.1, first.2) := Prod.ext rfl hcourse
        rw [hlast]
        exact ⟨hready.of_interferes hsame.interferes, hunderway.of_undisturbed hsame, hpaced.of_undisturbed hsame,
          hstays.of_undisturbed hsame⟩
      | onGetLeader uid odds => exact hpre
      | onSetOdds uid odds => exact hpre
      | onPackCard uid retCardLst => exact hpre
      | onKickOut uid => exact hpre
    | _ => cases handler <;> exact hpre.elim
  entry _ _ _ hpre := keepsCourse hpre
  arrive configuration point _ harrives hinv := by
    obtain ⟨handler, call⟩ := point
    simp only [timedFight, fightService, Bool.and_eq_true, decide_eq_true_eq] at harrives
    obtain ⟨hmessage, rfl⟩ := harrives
    refine ⟨hinv.of_undisturbed ?_ (.refl _), ?_⟩
    · have hnew : gamePoints [⟨handler, .start⟩] = [] := gamePoints_of_message fun point hpoint ↦
        List.mem_singleton.mp hpoint ▸ hmessage
      rw [gamePoints_append, hnew, List.append_nil]
    · cases handler with
      | onStart roomInfo => cases hmessage
      | checkStatus => cases hmessage
      | _ => exact hmessage
  step configuration before point after reply answers left last hmeets hpoints hinv hguar := by
    cases hkind : point.handler.isMessage with
    | true =>
      obtain ⟨hsection, hcourse⟩ := hguar.1 hkind
      have hsame : gamePoints (before ++ left ++ after) = gamePoints configuration.points := by
        rw [hpoints]
        exact gamePoints_of_message_section hkind hsection.waiting
      have hlast : last = (last.1, configuration.state.2) := Prod.ext rfl hcourse
      refine ⟨?_, fun other hother hgame ↦ ⟨hsection.undisturbed, hcourse, fun hsmooth hcall ↦ ?_⟩⟩
      · rw [hlast]
        exact hinv.of_undisturbed hsame hsection.undisturbed
      · refine hsection.sameLayout fun uid hpoint ↦ ?_
        by_contra habsent
        have hmem : other ∈ configuration.points := by
          rw [hpoints]
          simp only [List.mem_append, List.mem_cons] at hother ⊢
          tauto
        have hquiet := (hmeets hsmooth).2.meets hpoints uid hpoint habsent other hmem hgame
        cases hcall.symm.trans hquiet
    | false =>
      have hsection := hguar.2 hkind
      rw [hpoints] at hinv
      refine ⟨hinv.of_section hkind hsection fun hsmooth hsaving hraised ↦ ?_, fun other hother hgame ↦ ?_⟩
      · exact (hmeets hsmooth).1.meets hpoints hkind hsaving (Option.some.inj hraised)
      · have hothers := (gamePoints_of_game_section hinv.single' hkind fun other hother ↦
          (hsection.waiting other hother).1).1
        cases (hothers other hother).symm.trans hgame

/-- The configurations of a traced game. -/
abbrev GoodCourse (smooth : Prop) (updates : List MoneyUpdate)
    (configuration : Configuration skynet Point TimedFight) : Prop :=
  System.Good (courseContract smooth updates) (CourseInvariant smooth) configuration

/-- The lobby has sent `onStart` for a room of at most ten players, a sturdy one if the game is to run
smoothly. -/
theorem goodCourse_timedBeforeGame (fight : Fight) {roomInfo : RoomInfo}
    (hplayers : roomInfo.playerLst.size ≤ 10) (hsturdy : smooth → roomInfo.Sturdy) :
    GoodCourse smooth fight.moneyUpdates (timedBeforeGame fight roomInfo) := by
  have hinv : CourseInvariant smooth (fight, .fresh) [⟨.onStart roomInfo, .start⟩] :=
    .before roomInfo rfl rfl
  refine (sound_timedFight smooth fight.moneyUpdates).good_of_starts hinv fun point hpoint ↦ ?_
  obtain rfl := List.mem_singleton.mp hpoint
  exact ⟨hplayers, rfl, rfl, hsturdy⟩

/-! ### The end of a game -/

/-- The coroutines of the game. -/
def Point.isGame (point : Point) : Bool := !point.handler.isMessage

/-- The turns that a game has room for, when the one it waits for has been counted. -/
def turnsLeft (course : Course) (thread : Thread skynet Point TimedFight) : ℕ :=
  (turnLimit 4 - course.turns - if thread.point.call = .start then 1 else 0).toNat

theorem threadOf_isGame_eq_none {configuration : Configuration skynet Point TimedFight} :
    System.threadOf Point.isGame configuration = none ↔ gamePoints configuration.points = [] :=
  System.threadOf_eq_none_iff

/-- A move of a message leaves the coroutine of the game and its course alone. -/
theorem GoodCourse.of_message {first last : Configuration skynet Point TimedFight}
    {move : Move skynet Point} (h : GoodCourse smooth updates first)
    (hplay : timedFight.play first move = some last)
    (hserves : ¬ System.Serves Point.isGame first move) :
    System.threadOf Point.isGame last = System.threadOf Point.isGame first ∧
      last.state.2 = first.state.2 := by
  have hmessage : ∀ index reply answers thread outcome, move = .resume index reply answers →
      first.threads[index]? = some thread → (thread.next reply).exec first.state answers [] = some outcome →
      MessageSection thread.point first.state.1 ((timedFight.leaves outcome).map Thread.point)
        outcome.state.1 ∧ outcome.state.2 = first.state.2 := by
    rintro index reply answers thread outcome rfl hthread hexec
    have hkind : thread.point.handler.isMessage = true := by
      by_contra hgame
      exact hserves ⟨thread, hthread, by simpa [Point.isGame] using hgame⟩
    exact ((sound_timedFight smooth updates).section_of_exec h (List.mem_of_getElem? hthread) hexec).1.1
      hkind
  constructor
  · refine System.threadOf_of_play hplay hserves (fun point harrives ↦ ?_) ?_
    · simp only [timedFight, fightService, Bool.and_eq_true, decide_eq_true_eq] at harrives
      simp [Point.isGame, harrives.1]
    · intro index reply answers thread outcome hmove hthread hexec other hother
      have hsection := (hmessage index reply answers thread outcome hmove hthread hexec).1
      simp [Point.isGame, hsection.waiting other.point (List.mem_map_of_mem hother)]
  · cases move with
    | arrive point =>
      simp only [System.play] at hplay
      split_ifs at hplay
      obtain rfl := Option.some.inj hplay
      rfl
    | resume index reply answers =>
      obtain ⟨thread, outcome, hthread, hexec, hstate, -, -⟩ := System.exists_of_play_resume hplay
      rw [hstate]
      exact (hmessage index reply answers thread outcome rfl hthread hexec).2

/-- A move of the game leaves it with less room for turns, or with less to do in its turn. -/
theorem GoodCourse.of_game {first last : Configuration skynet Point TimedFight}
    {move : Move skynet Point} (h : GoodCourse smooth updates first)
    (hplay : timedFight.play first move = some last) (hserves : System.Serves Point.isGame first move)
    (htimely : last.state.2.timely = true) {before after : Thread skynet Point TimedFight}
    (hbefore : System.threadOf Point.isGame first = some before)
    (hafter : System.threadOf Point.isGame last = some after) :
    Prod.Lex (· < ·) Thread.Leads (turnsLeft last.state.2 after, after)
      (turnsLeft first.state.2 before, before) := by
  cases move with
  | arrive point => exact hserves.elim
  | resume index reply answers =>
    obtain ⟨thread, outcome, hthread, hmem, hexec, hstate, hleaves⟩ :=
      System.threadOf_of_serves hplay hserves h.holds.single'
    obtain rfl := Option.some.inj (hthread.symm.trans hbefore)
    rw [hleaves] at hafter
    have hkind : thread.point.handler.isMessage = false := by
      have hgame := List.find?_some hthread
      simpa [Point.isGame] using hgame
    obtain ⟨hguar, hstarts⟩ := (sound_timedFight smooth updates).section_of_exec h hmem hexec
    have hsection := hguar.2 hkind
    have hmemAfter := List.mem_of_find?_eq_some hafter
    have hbegins := hsection.begins
    rw [← hstate] at hbegins
    by_cases hstart : after.point.call = .start
    · -- the next turn waits for its timer
      have hroom := hsection.timer (hstate ▸ htimely) after.point (List.mem_map_of_mem hmemAfter) hstart
      rw [← hstate] at hroom
      refine .left _ _ ?_
      simp only [turnsLeft, hbegins, if_pos hstart]
      rw [hbegins] at hroom
      split_ifs at hroom ⊢ <;> push_cast at hroom ⊢ <;> omega
    · -- the turn goes on
      have hparked : outcome.ending = .parked after.point after.next := by
        rcases List.mem_append.mp hmemAfter with hfork | hpark
        · obtain ⟨point, hpoint, rfl⟩ := List.mem_map.mp hfork
          have hpre : startsCourse smooth updates point outcome.state := hstarts point hpoint
          obtain ⟨handler, call⟩ := point
          cases call with
          | start => exact absurd rfl hstart
          | _ => cases handler <;> exact hpre.elim
        · generalize outcome.ending = ending at hpark
          cases ending with
          | parked point next =>
            obtain rfl := List.mem_singleton.mp hpark
            rfl
          | done => exact nomatch hpark
          | failed error => exact nomatch hpark
      have hsame : turnsLeft last.state.2 after = turnsLeft first.state.2 thread := by
        simp only [turnsLeft, hbegins, if_neg hstart]
        split_ifs <;> push_cast <;> omega
      rw [hsame]
      exact .right _ ⟨reply, first.state, answers, [], outcome, hexec, hparked⟩

/-- What a game has to do until it ends: its turns, and the rest of the turn of its coroutine. -/
def remaining (configuration : Configuration skynet Point TimedFight) :
    Option (ℕ × Thread skynet Point TimedFight) :=
  (System.threadOf Point.isGame configuration).map fun thread ↦
    (turnsLeft configuration.state.2 thread, thread)

/-- In an endless run of a timely game, whose coroutine gets its replies, the game comes to its end. -/
theorem exists_gamePoints_eq_nil {run : ℕ → Configuration skynet Point TimedFight}
    {moves : ℕ → Move skynet Point} (hgood : ∀ time, GoodCourse smooth updates (run time))
    (hplay : ∀ time, timedFight.play (run time) (moves time) = some (run (time + 1)))
    (htimely : ∀ time, (run time).state.2.timely = true)
    (hfair : ∀ time, gamePoints (run time).points ≠ [] →
      ∃ later ≥ time, System.Serves Point.isGame (run later) (moves later)) :
    ∃ time, gamePoints (run time).points = [] := by
  have hkeeps : ∀ time, ¬ System.Serves Point.isGame (run time) (moves time) →
      remaining (run (time + 1)) = remaining (run time) := by
    intro time hidle
    obtain ⟨hthread, hcourse⟩ := (hgood time).of_message (hplay time) hidle
    rw [remaining, remaining, hthread, hcourse]
  have hshrinks : ∀ time first last, System.Serves Point.isGame (run time) (moves time) →
      remaining (run time) = some first → remaining (run (time + 1)) = some last →
      Prod.Lex (· < ·) Thread.Leads last first := by
    intro time first last hbusy hfirst hlast
    obtain ⟨before, hbefore, rfl⟩ := Option.map_eq_some_iff.mp hfirst
    obtain ⟨after, hafter, rfl⟩ := Option.map_eq_some_iff.mp hlast
    exact (hgood time).of_game (hplay time) hbusy (htimely (time + 1)) hbefore hafter
  have hserved : ∀ time, (remaining (run time)).isSome →
      ∃ later ≥ time, System.Serves Point.isGame (run later) (moves later) := by
    intro time hsome
    refine hfair time fun hnil ↦ ?_
    rw [remaining, threadOf_isGame_eq_none.mpr hnil] at hsome
    exact nomatch hsome
  obtain ⟨time, hnone⟩ := exists_idle (WellFounded.prod_lex Nat.lt_wfRel.wf wellFounded_leads) _ _
    hkeeps hshrinks hserved
  exact ⟨time, threadOf_isGame_eq_none.mp (Option.map_eq_none_iff.mp hnone)⟩

/-- A game whose last coroutine is gone has none later on. -/
theorem GoodCourse.gamePoints_of_play {first last : Configuration skynet Point TimedFight}
    {move : Move skynet Point} (h : GoodCourse smooth updates first)
    (hplay : timedFight.play first move = some last) (hnil : gamePoints first.points = []) :
    gamePoints last.points = [] := by
  have hidle : ¬ System.Serves Point.isGame first move := by
    intro hserves
    cases move with
    | arrive point => exact hserves
    | resume index reply answers =>
      obtain ⟨thread, hthread, hgame⟩ := hserves
      have hmem : thread.point ∈ gamePoints first.points :=
        List.mem_filter.mpr ⟨List.mem_map_of_mem (List.mem_of_getElem? hthread), hgame⟩
      rw [hnil] at hmem
      exact nomatch hmem
  rw [← threadOf_isGame_eq_none] at hnil ⊢
  exact (h.of_message hplay hidle).1.trans hnil

/-- What holds of the course of a game, and when no coroutine of it waits. -/
theorem GoodCourse.course {configuration : Configuration skynet Point TimedFight}
    (h : GoodCourse smooth updates configuration) :
    configuration.state.2.saved.Nodup ∧ configuration.state.2.overs ≤ 1 ∧
      (configuration.state.2.timely = true → configuration.state.2.turns ≤ 28) ∧
      (gamePoints configuration.points = [] → configuration.state.2.overs = 1 ∨ ¬ smooth) := by
  cases h.holds with
  | before roomInfo hwaits hfresh =>
    rw [hfresh]
    refine ⟨List.nodup_nil, Nat.zero_le 1, fun _ ↦ Nat.zero_le 28, fun hnil ↦ ?_⟩
    rw [hwaits] at hnil
    exact nomatch hnil
  | during _ _ honCourse _ hended =>
    have hlimit : turnLimit 4 = 28 := by decide
    refine ⟨honCourse.once, honCourse.overs, fun htimely ↦ ?_, hended⟩
    exact_mod_cast hlimit ▸ honCourse.turns htimely

/-- Every run of the fight service is a run of the traced one. -/
theorem exists_timed_run {fight : Fight} {roomInfo : RoomInfo} {plain : Configuration skynet Point Fight}
    (hrun : fightService.Run (RunsSmoothly id) (beforeGame fight roomInfo) plain) :
    ∃ timed, timedFight.Run (RunsSmoothly Prod.fst) (timedBeforeGame fight roomInfo) timed ∧
      timed.Shadows plain := by
  refine timedFight_shadows.exists_run (fun first' first move hfirst hsmooth ↦ ?_)
    (shadows_beforeGame fight roomInfo) hrun
  cases move with
  | arrive point => exact ⟨trivial, trivial⟩
  | resume index reply answers =>
    refine ⟨fun point hpoint ↦ ?_, fun point hpoint uid huid habsent ↦ ?_⟩
    · rw [hfirst.points] at hpoint
      exact hsmooth.1 point hpoint
    · rw [hfirst.points] at hpoint ⊢
      rw [hfirst.state] at habsent
      exact hsmooth.2 point hpoint uid huid habsent

/-- A game of at most ten players in a sturdy room, in which every call returns and the room gets no new keys
while the game broadcasts to its players. The trace shows of every run of the fight service that the money of a
player is sent at most once, that `unlock_room` is called at most once, and once when no coroutine of the game is
left, and that a timely clock leaves room for twenty-eight turns. The game is left by its last coroutine for
good. -/
theorem game_ends_once (fight : Fight) (roomInfo : RoomInfo) (hplayers : roomInfo.playerLst.size ≤ 10)
    (hsturdy : roomInfo.Sturdy) :
    (∀ plain, fightService.Run (RunsSmoothly id) (beforeGame fight roomInfo) plain →
      ∃ timed, timedFight.Run (RunsSmoothly Prod.fst) (timedBeforeGame fight roomInfo) timed ∧ timed.Shadows plain) ∧
    (∀ timed, timedFight.Run (RunsSmoothly Prod.fst) (timedBeforeGame fight roomInfo) timed →
      timed.state.2.saved.Nodup ∧ timed.state.2.overs ≤ 1 ∧
        (timed.state.2.timely = true → timed.state.2.turns ≤ 28) ∧
        (gamePoints timed.points = [] → timed.state.2.overs = 1)) ∧
    ∀ run moves, timedFight.Endless (RunsSmoothly Prod.fst) run moves → run 0 = timedBeforeGame fight roomInfo →
      (∀ time, (run time).state.2.timely = true) →
      (∀ time, gamePoints (run time).points ≠ [] →
        ∃ later ≥ time, System.Serves Point.isGame (run later) (moves later)) →
      ∃ time, ∀ later ≥ time, gamePoints (run later).points = [] ∧ (run later).state.2.overs = 1 := by
  have hgood : ∀ timed, timedFight.Run (RunsSmoothly Prod.fst) (timedBeforeGame fight roomInfo) timed →
      GoodCourse True fight.moneyUpdates timed := fun timed hrun ↦
    (sound_timedFight True fight.moneyUpdates).good_of_run
      (goodCourse_timedBeforeGame fight hplayers fun _ ↦ hsturdy)
      (hrun.mono fun _ _ hsmooth _ ↦ hsmooth)
  have hcourse : ∀ timed, timedFight.Run (RunsSmoothly Prod.fst) (timedBeforeGame fight roomInfo) timed →
      gamePoints timed.points = [] → timed.state.2.overs = 1 := fun timed hrun hnil ↦
    ((hgood timed hrun).course.2.2.2 hnil).resolve_right (not_not_intro trivial)
  refine ⟨fun plain ↦ exists_timed_run, fun timed hrun ↦ ?_, ?_⟩
  · obtain ⟨hsaved, hovers, hturns, -⟩ := (hgood timed hrun).course
    exact ⟨hsaved, hovers, hturns, hcourse timed hrun⟩
  · intro run moves hendless hfirst htimely hfair
    have hruns : ∀ time, timedFight.Run (RunsSmoothly Prod.fst) (timedBeforeGame fight roomInfo) (run time) :=
      fun time ↦ hfirst ▸ hendless.run_of time
    obtain ⟨time, hnil⟩ := exists_gamePoints_eq_nil (fun time ↦ hgood _ (hruns time)) hendless.step
      htimely hfair
    refine ⟨time, fun later hlater ↦ ?_⟩
    have hgone : gamePoints (run later).points = [] := by
      induction later, hlater using Nat.le_induction with
      | base => exact hnil
      | succ later _ ih => exact (hgood _ (hruns later)).gamePoints_of_play (hendless.step later) ih
    exact ⟨hgone, hcourse _ (hruns later) hgone⟩

theorem pairRoom_sturdy : pairRoom.Sturdy := by
  refine ⟨fun key player hplayer ↦ ?_, rfl⟩
  change (((∅ : Table RoomPlayer).insert 1 _).insert 2 _).lookup key = some player at hplayer
  rw [Table.lookup_insert_eq, Table.lookup_insert_eq] at hplayer
  split_ifs at hplayer
  · obtain rfl := Option.some.inj hplayer
    rfl
  · obtain rfl := Option.some.inj hplayer
    rfl
  · exact nomatch hplayer

/-- The game of two players, in which nobody bids and nobody shows his hand. -/
theorem game_ends_once_pair : ∃ timed : Configuration skynet Point TimedFight,
    timedFight.Run (RunsSmoothly Prod.fst) (timedBeforeGame idleFight pairRoom) timed ∧
      timed.state.2.saved = [1, 2] ∧ timed.state.2.overs = 1 := by
  obtain ⟨timed, hrun, hvalue⟩ := System.exists_run_of_playMeeting timedFight (RunsSmoothly Prod.fst)
    (timedBeforeGame idleFight pairRoom) (untilLastDeal ++ fromLastDeal .ok .ok)
    (fun timed ↦ ((gamePoints timed.points).length, timed.state.2.saved))
    (show _ = some (0, [1, 2]) by decide +kernel)
  refine ⟨timed, hrun, congrArg Prod.snd hvalue, ?_⟩
  exact ((game_ends_once idleFight pairRoom (by decide) pairRoom_sturdy).2.1 timed hrun).2.2.2
    (List.eq_nil_of_length_eq_zero (congrArg Prod.fst hvalue))

/-- Player 1 leaves the room, and so does a player 9 who is not in it. -/
def twoKicks : List (Move skynet Point) :=
  [.arrive ⟨.onKickOut 1, .start⟩, .resume 1 .ok [], .arrive ⟨.onKickOut 9, .start⟩, .resume 2 .ok []]

/-- The agent of player 1 is being told the result when both are kicked out. All calls return, but the traversal
cannot go on from the key 1 any more: the last coroutine of the game is gone, and it has not called
`unlock_room`. -/
theorem twoKicks_end_broadcast : ∃ timed : Configuration skynet Point TimedFight,
    timedFight.Run CallsReturn (timedBeforeGame idleFight pairRoom) timed ∧ timed.state.2.timely = true ∧
      gamePoints timed.points = [] ∧ timed.state.2.overs = 0 := by
  obtain ⟨timed, hrun, hvalue⟩ := System.exists_run_of_playMeeting timedFight CallsReturn
    (timedBeforeGame idleFight pairRoom)
    (untilLastDeal ++ (fromLastDeal .ok .ok).dropLast.dropLast.dropLast ++ twoKicks ++ [.resume 0 .ok [.raised]])
    (fun timed ↦ (timed.state.2.timely, (gamePoints timed.points).length, timed.state.2.overs))
    (show _ = some (true, 0, 0) by decide +kernel)
  obtain ⟨htimely, hrest⟩ := Prod.mk.inj hvalue
  obtain ⟨hpoints, hovers⟩ := Prod.mk.inj hrest
  exact ⟨timed, hrun, htimely, List.eq_nil_of_length_eq_zero hpoints, hovers⟩

end SvrDemo.Douniu
