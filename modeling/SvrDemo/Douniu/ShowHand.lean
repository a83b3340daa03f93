import SvrDemo.Douniu.CourseRuns

/-!
# The last phase of a game

When everyone holds five cards the players have ten seconds to show their hands, and the game is settled
when all have done so or the time is over. But `onPackCard` does not look at the phase: it notes of a
player who packs in an earlier phase, with four cards, that his hand is shown, and when everyone has
packed early the last phase ends as soon as it begins.

`show_hand_kept` is about the runs in which packs are handled in the last phase only. In these a player
whose hand is shown holds five cards, the last phase keeps the time at which it has begun, and the section
that settles the game is one in which everyone has shown his hand or the time is over. The condition is
exact: after a pack in an earlier phase a hand is shown before the last phase.
-/

set_option autoImplicit false
set_option relaxedAutoImplicit false

namespace SvrDemo.Douniu

open Coroutine Lua Skynet

variable {σ : Type} {updates : List MoneyUpdate}

/-! ### Packs -/

/-- A player of the game is about to show his hand. -/
def Point.packs (point : Point) (fight : Fight) : Bool :=
  match point with
  | ⟨.onPackCard uid (some _), .start⟩ => (fight.getPlayer uid).isSome
  | _ => false

/-- When the game has been opened, a player shows his hand in the last phase only. -/
def PacksAtEnd (fight : σ → Fight) : Configuration skynet Point σ → Move skynet Point → Prop :=
  Resumes fun configuration point _ ↦ (∀ other ∈ configuration.points, other.opensGame = false) →
    point.packs (fight configuration.state) = true → (fight configuration.state).roomStatus = .gameEnd

instance (fight : σ → Fight) (configuration : Configuration skynet Point σ) (move : Move skynet Point) :
    Decidable (PacksAtEnd fight configuration move) :=
  inferInstanceAs (Decidable (Resumes _ configuration move))

/-- When the game has been opened, hands are shown in the last phase only. -/
def ShownAtEnd (whole : TimedFight) (points : List Point) : Prop :=
  (∀ point ∈ points, point.opensGame = false) → ∀ uid, whole.1.packed uid = true →
    whole.1.roomStatus = .gameEnd

theorem Fight.packed_updatePlayer_ready (fight : Fight) (uid other : ℕ) :
    (fight.updatePlayer uid fun player ↦ { player with handCardReady := true }).packed other =
      (fight.packed other || (decide (other = uid) && (fight.getPlayer uid).isSome)) := by
  unfold Fight.packed
  rw [Fight.getPlayer_updatePlayer]
  by_cases hsame : other = uid
  · subst hsame
    cases fight.getPlayer other <;> simp
  · simp [hsame]

/-- A message shows no hand unless it is a pack. -/
theorem Handler.packed_effect {handler : Handler} {fight : Fight} {uid : ℕ}
    (h : (handler.effect fight).packed uid = true) :
    fight.packed uid = true ∨ Point.packs ⟨handler, .start⟩ fight = true := by
  unfold Handler.effect at h
  split at h
  · split_ifs at h
    · exact .inl ((fight.packed_updatePlayer (by exact fun _ ↦ rfl) _ uid).symm.trans h)
    · exact .inl h
  · split_ifs at h
    · exact .inl ((fight.packed_updatePlayer (by exact fun _ ↦ rfl) _ uid).symm.trans h)
    · exact .inl h
  · rename_i packer retCardLst
    rw [Fight.packed_updatePlayer_ready, Bool.or_eq_true, Bool.and_eq_true] at h
    exact h.imp_right And.right
  · exact .inl h
  · exact .inl h

/-- A pack shows the hand of a player. -/
theorem Point.exists_packed_effect {point : Point} {fight : Fight} (h : point.packs fight = true) :
    point.call = .start ∧ ∃ uid, (point.handler.effect fight).packed uid = true := by
  unfold Point.packs at h
  split at h
  · rename_i uid retCardLst
    refine ⟨rfl, uid, ?_⟩
    change (fight.updatePlayer uid _).packed uid = true
    rw [Fight.packed_updatePlayer_ready, h, decide_eq_true rfl]
    simp
  · exact nomatch h

/-- A coroutine that is about to pack serves a message. -/
theorem Point.isMessage_of_packs {point : Point} {fight : Fight} (h : point.packs fight = true) :
    point.handler.isMessage = true := by
  unfold Point.packs at h
  split at h
  · rfl
  · exact nomatch h

/-! ### The last phase -/

/-- A section that starts with no early pack shows no hand before the last phase. -/
theorem packed_of_section {configuration : Configuration skynet Point TimedFight} {before after : List Point}
    {point : Point} {reply : Answer} {answers : List Answer} {left : List Point} {last : TimedFight}
    (hmeets : PacksAtEnd Prod.fst configuration (.resume before.length reply answers))
    (hpoints : configuration.points = before ++ point :: after)
    (hguar : (courseContract False updates).guar point configuration.state (reply :: answers) left last)
    (hstarted : ∀ other ∈ configuration.points, other.opensGame = false)
    (hshown : ∀ uid, configuration.state.1.packed uid = true → configuration.state.1.roomStatus = .gameEnd)
    {uid : ℕ} (hpacked : last.1.packed uid = true) : last.1.roomStatus = .gameEnd := by
  cases hkind : point.handler.isMessage with
  | true =>
    obtain ⟨hsection, -⟩ := hguar.1 hkind
    rw [hsection.undisturbed.interferes.roomStatus]
    have heffect := hsection.effect
    split_ifs at heffect with hstart
    · rw [heffect] at hpacked
      rcases Handler.packed_effect hpacked with hold | hnew
      · exact hshown uid hold
      · have hpoint : (⟨point.handler, .start⟩ : Point) = point := by rw [← hstart]
        exact hmeets.meets hpoints hstarted (hpoint ▸ hnew)
    · rw [heffect] at hpacked
      exact hshown uid hpacked
  | false =>
    have hsection := hguar.2 hkind
    obtain ⟨hopens, hold⟩ := hsection.packs uid hpacked
    exact (hsection.late hopens (hshown uid hold)).1

/-- Every move of a run keeps it that hands are shown in the last phase only. -/
theorem shownAtEnd_of_run {fight : Fight} {roomInfo : RoomInfo} (hplayers : roomInfo.playerLst.size ≤ 10)
    {timed : Configuration skynet Point TimedFight}
    (hrun : timedFight.Run (PacksAtEnd Prod.fst) (timedBeforeGame fight roomInfo) timed) :
    GoodCourse False fight.moneyUpdates timed ∧ ShownAtEnd timed.state timed.points := by
  refine (sound_timedFight False fight.moneyUpdates).holds_of_run
    (fun _ _ _ hfalse ↦ hfalse.elim) ?_ ?_ (goodCourse_timedBeforeGame fight hplayers False.elim) ?_ hrun
  · intro configuration point _ _ hshown hstarted
    exact hshown fun other hother ↦ hstarted other (List.mem_append_left _ hother)
  · intro configuration before point after reply answers left last hmeets hpoints hinv hshown hguar
      hstarted uid hpacked
    have hopens : point.opensGame = false := by
      cases hkind : point.handler.isMessage with
      | true => exact opensGame_of_message hkind
      | false => exact ((hguar.2 hkind).packs uid hpacked).1
    have hall : ∀ other ∈ configuration.points, other.opensGame = false := by
      intro other hother
      rw [hpoints] at hother
      rcases List.mem_append.mp hother with hmem | hmem
      · exact hstarted other (List.mem_append_left _ (List.mem_append_left _ hmem))
      · rcases List.mem_cons.mp hmem with rfl | hmem
        · exact hopens
        · exact hstarted other (List.mem_append_right _ hmem)
    exact packed_of_section hmeets hpoints hguar hall (hshown hall) hpacked
  · intro hstarted
    exact nomatch hstarted ⟨.onStart roomInfo, .start⟩ (List.mem_singleton_self _)

/-- A move keeps it that hands are shown in the last phase only if and only if it is no early pack. -/
theorem GoodCourse.packsAtEnd_iff {first last : Configuration skynet Point TimedFight}
    {move : Move skynet Point} (h : GoodCourse False updates first)
    (hstarted : ∀ point ∈ first.points, point.opensGame = false)
    (hshown : ∀ uid, first.state.1.packed uid = true → first.state.1.roomStatus = .gameEnd)
    (hplay : timedFight.play first move = some last) :
    PacksAtEnd Prod.fst first move ↔
      ∀ uid, last.state.1.packed uid = true → last.state.1.roomStatus = .gameEnd := by
  cases move with
  | arrive point =>
    simp only [System.play] at hplay
    split_ifs at hplay
    obtain rfl := Option.some.inj hplay
    exact ⟨fun _ ↦ hshown, fun _ ↦ trivial⟩
  | resume index reply answers =>
    obtain ⟨before, point, after, left, hpoints, rfl, -, hguar⟩ :=
      (sound_timedFight False updates).section_of_play h hplay
    constructor
    · intro hmeets uid hpacked
      exact packed_of_section hmeets hpoints hguar hstarted hshown hpacked
    · intro hlast other hother _ hpacks
      obtain rfl : point = other := by
        rw [hpoints, List.getElem?_append_right le_rfl, Nat.sub_self] at hother
        exact Option.some.inj hother
      obtain ⟨hsection, -⟩ := hguar.1 (Point.isMessage_of_packs hpacks)
      obtain ⟨hstart, uid, hpacked⟩ := Point.exists_packed_effect hpacks
      have heffect := hsection.effect
      rw [if_pos hstart] at heffect
      rw [← heffect] at hpacked
      rw [← hsection.undisturbed.interferes.roomStatus]
      exact hlast uid hpacked

/-- The settlement is the section of a last phase in which everyone has shown his hand or the time is
over, and the last phase keeps the time at which it has begun. -/
theorem GoodCourse.shown_of_play {first last : Configuration skynet Point TimedFight}
    {move : Move skynet Point} (h : GoodCourse False updates first)
    (hstarted : ∀ point ∈ first.points, point.opensGame = false)
    (hplay : timedFight.play first move = some last) :
    (Uncompared first.state.1 → ¬ Uncompared last.state.1 → Shown last.state) ∧
      LastPhaseKept first.state.1 last.state.1 := by
  cases move with
  | arrive point =>
    simp only [System.play] at hplay
    split_ifs at hplay
    obtain rfl := Option.some.inj hplay
    exact ⟨fun hfirst hlast ↦ absurd hfirst hlast, fun hend ↦ ⟨hend, rfl⟩⟩
  | resume index reply answers =>
    obtain ⟨before, point, after, left, hpoints, -, -, hguar⟩ :=
      (sound_timedFight False updates).section_of_play h hplay
    have hopens : point.opensGame = false := hstarted point (by rw [hpoints]; simp)
    cases hkind : point.handler.isMessage with
    | true =>
      have hundisturbed := (hguar.1 hkind).1.undisturbed
      refine ⟨fun hfirst hlast ↦ absurd (fun uid ↦ ?_) hlast, .of_undisturbed hundisturbed⟩
      exact (hundisturbed.maxCard uid).trans (hfirst uid)
    | false => exact ⟨(hguar.2 hkind).shown, (hguar.2 hkind).late hopens⟩

/-- A player of a game holds five cards in the last phase. -/
theorem GoodCourse.hand_of_packed {configuration : Configuration skynet Point TimedFight}
    (h : GoodCourse False updates configuration)
    (hstarted : ∀ point ∈ configuration.points, point.opensGame = false)
    (hend : configuration.state.1.roomStatus = .gameEnd) {uid : ℕ}
    (hpacked : configuration.state.1.packed uid = true) : (configuration.state.1.hand uid).length = 5 := by
  cases h.holds with
  | before roomInfo hwaits _ =>
    have hmem : (⟨.onStart roomInfo, .start⟩ : Point) ∈ gamePoints configuration.points := by
      rw [hwaits]
      exact List.mem_singleton_self _
    exact nomatch hstarted _ (mem_gamePoints.mp hmem).1
  | during _ _ honCourse _ _ =>
    refine honCourse.dealt hend uid (Fight.mem_keys_iff.mpr ?_)
    unfold Fight.packed at hpacked
    cases hplayer : configuration.state.1.getPlayer uid with
    | none =>
      rw [hplayer] at hpacked
      exact nomatch hpacked
    | some player => exact ⟨player, rfl⟩

/-- Runs of a game of at most ten players in which packs are handled in the last phase only. A player whose
hand is shown holds five cards, in the last phase; the game is settled in a last phase in which everyone has
shown his hand or the time is over; and an early pack, which the condition excludes, would have shown a hand
before the last phase. -/
theorem show_hand_kept (fight : Fight) (roomInfo : RoomInfo) (hplayers : roomInfo.playerLst.size ≤ 10) :
    (∀ plain, fightService.Run (PacksAtEnd id) (beforeGame fight roomInfo) plain →
      ∃ timed, timedFight.Run (PacksAtEnd Prod.fst) (timedBeforeGame fight roomInfo) timed ∧
        timed.Shadows plain) ∧
    ∀ timed, timedFight.Run (PacksAtEnd Prod.fst) (timedBeforeGame fight roomInfo) timed →
      (∀ point ∈ timed.points, point.opensGame = false) →
      (∀ uid, timed.state.1.packed uid = true →
        timed.state.1.roomStatus = .gameEnd ∧ (timed.state.1.hand uid).length = 5) ∧
      ∀ move next, timedFight.play timed move = some next →
        (Uncompared timed.state.1 → ¬ Uncompared next.state.1 → Shown next.state) ∧
          LastPhaseKept timed.state.1 next.state.1 ∧
          (PacksAtEnd Prod.fst timed move ↔
            ∀ uid, next.state.1.packed uid = true → next.state.1.roomStatus = .gameEnd) := by
  refine ⟨fun plain hrun ↦ ?_, fun timed hrun hstarted ↦ ?_⟩
  · refine timedFight_shadows.exists_run (fun first' first move hfirst hpacks ↦ ?_)
      (shadows_beforeGame fight roomInfo) hrun
    cases move with
    | arrive point => trivial
    | resume index reply answers =>
      intro point hpoint hstarted
      rw [hfirst.points] at hpoint hstarted
      rw [hfirst.state]
      exact hpacks point hpoint hstarted
  · obtain ⟨hgood, hshown⟩ := shownAtEnd_of_run hplayers hrun
    have hend := hshown hstarted
    refine ⟨fun uid hpacked ↦ ⟨hend uid hpacked, hgood.hand_of_packed hstarted (hend uid hpacked) hpacked⟩,
      fun move next hplay ↦ ?_⟩
    obtain ⟨hsettles, hkept⟩ := hgood.shown_of_play hstarted hplay
    exact ⟨hsettles, hkept, hgood.packsAtEnd_iff hstarted hend hplay⟩

/-! ### A game of two players -/

/-- A player packs, and his agent is waited for. -/
def pack (uid index : ℕ) : List (Move skynet Point) :=
  [.arrive ⟨.onPackCard uid (some []), .start⟩, .resume index .ok [.order [1, 2]]]

/-- The game of `pairRoom` up to the last phase. -/
def untilLastPhase : List (Move skynet Point) := untilLastDeal ++ (fromLastDeal .ok .ok).take 5

/-- Both players show their hands in the last phase. -/
theorem show_hand_kept_pair : ∃ timed : Configuration skynet Point TimedFight,
    timedFight.Run (PacksAtEnd Prod.fst) (timedBeforeGame idleFight pairRoom) timed ∧
      timed.state.1.packed 1 = true ∧ (timed.state.1.hand 1).length = 5 := by
  obtain ⟨timed, hrun, hvalue⟩ := System.exists_run_of_playMeeting timedFight (PacksAtEnd Prod.fst)
    (timedBeforeGame idleFight pairRoom) (untilLastPhase ++ pack 1 1)
    (fun timed ↦ (timed.points.all fun point ↦ !point.opensGame, timed.state.1.packed 1))
    (show _ = some (true, true) by decide +kernel)
  have hstarted : ∀ point ∈ timed.points, point.opensGame = false := by
    simpa using congrArg Prod.fst hvalue
  have hpacked : timed.state.1.packed 1 = true := congrArg Prod.snd hvalue
  exact ⟨timed, hrun, hpacked,
    (((show_hand_kept idleFight pairRoom (by decide)).2 timed hrun hstarted).1 1 hpacked).2⟩

/-- Both players pack with four cards, before the banker is elected. Nobody packs again, and the game is
settled as soon as the last phase begins, at second thirty. -/
theorem early_packs_skip_show_hand : ∃ early settled : Configuration skynet Point TimedFight,
    timedFight.AnyRun (timedBeforeGame idleFight pairRoom) early ∧
      early.state.1.roomStatus = .ready ∧ early.state.1.packed 1 = true ∧
      (early.state.1.hand 1).length = 4 ∧
      timedFight.Run (Resumes fun configuration point _ ↦ point.packs configuration.state.1 = false)
        early settled ∧
      settled.state.1.maxCard 2 ≠ none ∧ settled.state.1.statusBegin = 30 ∧
      settled.state.2.latest = some 30 ∧ RoomStatus.gameEnd.isOver 30 30 = false := by
  have hplays : ((timedFight.playAll (timedBeforeGame idleFight pairRoom)
      (untilLastDeal.take 5 ++ pack 1 1 ++ pack 2 2)).bind fun early ↦
        (timedFight.playMeeting
          (Resumes fun configuration point _ ↦ point.packs configuration.state.1 = false) early
          (untilLastDeal.drop 5 ++ (fromLastDeal .ok .ok).take 5 ++
            [takeTurn [.order [1, 2], .order [1, 2]]])).map fun settled ↦
          ((early.state.1.roomStatus, early.state.1.packed 1, (early.state.1.hand 1).length),
            (settled.state.1.maxCard 2).isSome, settled.state.1.statusBegin, settled.state.2.latest)) =
      some ((.ready, true, 4), true, 30, some 30) := by
    decide +kernel
  obtain ⟨early, hearly, hrest⟩ := Option.bind_eq_some_iff.mp hplays
  obtain ⟨settled, hrun, hvalue⟩ := System.exists_run_of_playMeeting timedFight _ early _ _ hrest
  refine ⟨early, settled, System.run_of_playAll _ _ hearly, congrArg (fun value ↦ value.1.1) hvalue,
    congrArg (fun value ↦ value.1.2.1) hvalue, congrArg (fun value ↦ value.1.2.2) hvalue, hrun, ?_,
    congrArg (fun value ↦ value.2.2.1) hvalue, congrArg (fun value ↦ value.2.2.2) hvalue, by decide⟩
  have hcompared : (settled.state.1.maxCard 2).isSome = true := congrArg (fun value ↦ value.2.1) hvalue
  exact fun hnone ↦ nomatch hnone ▸ hcompared

end SvrDemo.Douniu
