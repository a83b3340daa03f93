import SvrDemo.Douniu.Course
import SvrDemo.Skynet.Traced

/-!
# The contract of a traced fight

The coroutines of a game guarantee, section by section, what the course of the game is about: it has
taken no more turns than its phases have room for, it sends the money of a player once, it calls
`unlock_room` at most once, and when no coroutine of it is left it has called it. The last holds of the
games that run smoothly: the room has odds, every player in it has an agent, and no call raises. A section
of the game packs no hand, and the section that settles the game does so in a last phase that has ended
as it should.

The messages keep the contract that they keep without a trace, and leave the trace alone. This file
states the contract and shows it of the messages and of the parts of the game that only send packages.
-/

set_option autoImplicit false
set_option relaxedAutoImplicit false

namespace SvrDemo.Douniu

open Coroutine Lua Skynet

/-! ### The contract -/

/-- A room with odds, in which every player has an agent. -/
def RoomInfo.Sturdy (roomInfo : RoomInfo) : Prop :=
  (∀ key player, roomInfo.playerLst.lookup key = some player → player.agent.isSome) ∧
    roomInfo.roomOdds.isSome

/-- The course of a game between two sections. -/
structure OnCourse (whole : TimedFight) : Prop where
  dealt : Dealt whole.1
  turns : whole.2.timely = true → (whole.2.turns : ℤ) ≤ turnLimit 4
  once : whole.2.saved.Nodup
  overs : whole.2.overs ≤ 1

/-- A game that has not been settled. If it is to run smoothly, its room is sturdy. -/
structure Underway (smooth : Prop) (whole : TimedFight) : Prop where
  sturdy : smooth → whole.1.Staffed ∧ whole.1.roomOdds.isSome
  phase : whole.1.roomStatus ≠ .idle
  odds : ∀ uid, 0 ≤ whole.1.odds uid
  enough : whole.1.roomStatus ≠ .ready → 2 ≤ whole.1.playerLst.keys.card
  uncompared : Uncompared whole.1
  unsaved : whole.2.saved = []
  unlocks : whole.2.overs = 0

/-- The last phase goes on, with the time at which it has begun. -/
def LastPhaseKept (first last : Fight) : Prop :=
  first.roomStatus = .gameEnd → last.roomStatus = .gameEnd ∧ last.statusBegin = first.statusBegin

theorem LastPhaseKept.of_undisturbed {first last : Fight} (h : Undisturbed first last) : LastPhaseKept first last :=
  fun hend ↦ ⟨h.interferes.roomStatus.trans hend, h.statusBegin⟩

/-- What a section of the game guarantees. -/
structure CourseSection (smooth : Prop) (point : Point) (origin : TimedFight) (heard : List Answer)
    (left : List Point) (last : TimedFight) : Prop where
  single : left.length ≤ 1
  waiting : ∀ other ∈ left, other.handler.isMessage = false ∧ other.opensGame = false
  onCourse : OnCourse last
  timer : last.2.timely = true → ∀ other ∈ left, other.call = .start →
    (last.2.turns : ℤ) + 1 ≤ turnLimit 4
  ended : left = [] → last.2.overs = 1 ∨ ¬ smooth ∨
    heard.head? = some .raised ∧ point.call.isSaving = false
  packs : ∀ uid, last.1.packed uid = true → point.opensGame = false ∧ origin.1.packed uid = true
  late : point.opensGame = false → LastPhaseKept origin.1 last.1
  shown : Uncompared origin.1 → ¬ Uncompared last.1 → Shown last
  begins : last.2.turns = origin.2.turns + if point.call = .start then 1 else 0

/-- Where a coroutine may be started, and in which state. -/
def startsCourse (smooth : Prop) (updates : List MoneyUpdate) : Point → TimedFight → Prop
  | ⟨.onStart roomInfo, .start⟩, whole => roomInfo.playerLst.size ≤ 10 ∧
    whole.1.moneyUpdates = updates ∧ whole.2 = .fresh ∧ (smooth → roomInfo.Sturdy)
  | ⟨.checkStatus, .start⟩, whole =>
    Ready updates whole.1 ∧ Underway smooth whole ∧ Paced whole ∧ Stays whole
  | ⟨handler, .start⟩, _ => handler.isMessage = true
  | _, _ => False

/-- The calls of `broadcast_room_player`, which traverses the players of the room. -/
def Call.broadcasts : Call → Bool
  | .sendPackCli _ (.onOddsChange _ _ _ _) => true
  | .sendPackCli _ (.onGameResult _ _ _) => true
  | _ => false

/-- The table of the players of the room has been assigned no new keys. -/
def SameLayout (first last : Fight) : Prop :=
  Fight.roomPlayers.layout last = Fight.roomPlayers.layout first

/-- The contract of the fight service with its trace. A game that runs smoothly relies on it that the table which
it traverses gets no new keys. -/
def courseContract (smooth : Prop) (updates : List MoneyUpdate) : Contract skynet Point TimedFight where
  rely point first last := point.handler.isMessage = false → Undisturbed first.1 last.1 ∧ last.2 = first.2 ∧
    (smooth → point.call.broadcasts = true → SameLayout first.1 last.1)
  guar point origin heard left last :=
    (point.handler.isMessage = true → MessageSection point origin.1 left last.1 ∧ last.2 = origin.2) ∧
      (point.handler.isMessage = false → CourseSection smooth point origin heard left last)
  pre := startsCourse smooth updates
  err _ := True

variable {smooth : Prop} {updates : List MoneyUpdate} {handler : Handler} {whole : TimedFight}
  {current : Section skynet Point TimedFight}

/-! ### Messages -/

/-- Of the coroutines of messages the contract asks what it asks without a trace. -/
theorem courseContract_extends (smooth : Prop) (updates : List MoneyUpdate) :
    (courseContract smooth updates).Extends (gameContract updates) fun point ↦
      point.handler.isMessage = true where
  left current left state hmessage hends := (hends.1.1 hmessage).waiting
  ends current left whole hmessage hforks hends htrace := by
    have hsection : MessageSection current.point current.origin.1 left whole.1 := hends.1.1 hmessage
    refine ⟨⟨fun _ ↦ ⟨hsection, htrace⟩, fun hgame ↦ ?_⟩, fun point hpoint ↦ ?_⟩
    · rw [hmessage] at hgame
      exact nomatch hgame
    · have hstarts : startsWell updates point whole.1 := hends.2 point hpoint
      have hkind := hsection.waiting point (hforks point hpoint)
      obtain ⟨handler, call⟩ := point
      cases call with
      | start =>
        cases handler with
        | onStart roomInfo => exact nomatch hkind
        | checkStatus => exact nomatch hkind
        | _ => exact rfl
      | _ => cases handler <;> exact hstarts.elim
  rely point first last hmessage _ hgame := by
    rw [hmessage] at hgame
    exact nomatch hgame

/-- Every message keeps the contract. -/
theorem keepsCourse_message (hmessage : handler.isMessage = true) (reply : Answer) :
    (courseContract smooth updates).Keeps (timedFight.entry ⟨handler, .start⟩)
      ⟨⟨handler, .start⟩, whole, [reply], []⟩ whole := by
  have hplain : handler.body.wpIn (.relabel handler.at) (gameContract updates) (gameContract updates).done
      (gameContract updates).raised ⟨⟨handler, .start⟩, whole.1, [reply], []⟩ whole.1 :=
    keeps_message hmessage reply
  have htraced := Program.wpTr_of_silent (silent_tracing hmessage)
    (courseContract_extends smooth updates) handler.body ⟨⟨handler, .start⟩, whole, [reply], []⟩ whole
    hmessage rfl hplain
  have hends : ∀ {current : Section skynet Point TimedFight} {whole : TimedFight},
      current.point.handler.isMessage = true → whole.2 = current.origin.2 →
      (gameContract updates).Ends current.untraced current.forks whole.1 →
      (courseContract smooth updates).Ends current current.forks whole := fun hpoint htrace h ↦
    (courseContract_extends smooth updates).ends _ _ _ hpoint (fun _ hmem ↦ hmem) h htrace
  have hentry : timedFight.entry ⟨handler, .start⟩ =
      Program.noted id (handler.body.traced handler.tracing) := by
    simp [timedFight, hmessage]
  rw [hentry]
  exact Program.wp_mono (fun _ _ _ h ↦ hends h.1 h.2.1 h.2.2)
    (fun _ _ _ h ↦ ⟨trivial, hends h.1 h.2.1 h.2.2.2⟩) htraced

/-! ### The coroutine of a game -/

/-- The coroutine of a game in the middle of a section. -/
structure InCourse (handler : Handler) (current : Section skynet Point TimedFight) (whole : TimedFight) :
    Prop where
  forks : current.forks = []
  serves : current.point.handler = handler
  packs : ∀ uid, whole.1.packed uid = true →
    current.point.opensGame = false ∧ current.origin.1.packed uid = true
  late : current.point.opensGame = false → LastPhaseKept current.origin.1 whole.1
  shown : Uncompared current.origin.1 → ¬ Uncompared whole.1 → Shown whole
  begins : whole.2.turns = current.origin.2.turns + if current.point.call = .start then 1 else 0

namespace InCourse

theorem hear (h : InCourse handler current whole) (heard : List Answer) :
    InCourse handler { current with heard := heard } whole :=
  ⟨h.forks, h.serves, h.packs, h.late, h.shown, h.begins⟩

/-- A change before the settlement. -/
theorem step {last : TimedFight} (h : InCourse handler current whole)
    (hpacked : ∀ uid, last.1.packed uid = whole.1.packed uid)
    (hlate : LastPhaseKept whole.1 last.1)
    (huncompared : Uncompared last.1) (hturns : last.2.turns = whole.2.turns) :
    InCourse handler current last where
  forks := h.forks
  serves := h.serves
  packs uid hlast := h.packs uid ((hpacked uid).symm.trans hlast)
  late hopens horigin := by
    obtain ⟨hend, hbegin⟩ := h.late hopens horigin
    exact ⟨(hlate hend).1, (hlate hend).2.trans hbegin⟩
  shown _ hcompared := absurd huncompared hcompared
  begins := hturns.trans h.begins

/-- A change that leaves alone what is shown of the end of the last phase. -/
theorem modify {last : TimedFight} (h : InCourse handler current whole)
    (hpacked : ∀ uid, last.1.packed uid = whole.1.packed uid)
    (hmax : ∀ uid, last.1.maxCard uid = whole.1.maxCard uid)
    (hkeys : last.1.playerLst.keys = whole.1.playerLst.keys)
    (hstatus : last.1.roomStatus = whole.1.roomStatus)
    (hbegin : last.1.statusBegin = whole.1.statusBegin) (hlatest : last.2.latest = whole.2.latest)
    (hturns : last.2.turns = whole.2.turns) : InCourse handler current last where
  forks := h.forks
  serves := h.serves
  packs uid hlast := h.packs uid ((hpacked uid).symm.trans hlast)
  late hopens horigin :=
    ⟨hstatus.trans (h.late hopens horigin).1, hbegin.trans (h.late hopens horigin).2⟩
  shown horigin hcompared := by
    obtain ⟨hend, hshown⟩ := h.shown horigin fun hwhole ↦ hcompared fun uid ↦ (hmax uid).trans (hwhole uid)
    refine ⟨hstatus.trans hend, hshown.imp (fun hall uid huid ↦ ?_) ?_⟩
    · rw [hpacked uid]
      exact hall uid (hkeys ▸ huid)
    · rw [hbegin, hlatest]
      exact id
  begins := hturns.trans h.begins

theorem undisturbed {last : Fight} (h : InCourse handler current whole) (hsame : Undisturbed whole.1 last)
    (hpacked : ∀ uid, last.packed uid = whole.1.packed uid) :
    InCourse handler current (last, whole.2) :=
  h.modify hpacked hsame.maxCard hsame.interferes.keys hsame.interferes.roomStatus hsame.statusBegin rfl
    rfl

/-- The coroutine of a game when it has got the reply to a call. -/
theorem resumed {call : Call} {heard : List Answer} (hcall : call ≠ .start) :
    InCourse handler ⟨⟨handler, call⟩, whole, heard, []⟩ whole where
  forks := rfl
  serves := rfl
  packs _ hpacked := ⟨Point.opensGame_of_ne handler hcall, hpacked⟩
  late _ hend := ⟨hend, rfl⟩
  shown horigin hcompared := absurd horigin hcompared
  begins := by simp [hcall]

/-- The coroutine of the timer when its turn begins. -/
theorem begun {heard : List Answer} :
    InCourse .checkStatus ⟨⟨.checkStatus, .start⟩, whole, heard, []⟩ (whole.1, whole.2.begins) where
  forks := rfl
  serves := rfl
  packs _ hpacked := ⟨rfl, hpacked⟩
  late _ hend := ⟨hend, rfl⟩
  shown horigin hcompared := absurd horigin hcompared
  begins := rfl

/-- The game may end its section with one coroutine waiting at a call, or with none. -/
theorem ends (h : InCourse handler current whole) (hgame : handler.isMessage = false)
    {left : List Point} (hsingle : left.length ≤ 1)
    (hleft : ∀ other ∈ left, ∃ call, call ≠ .start ∧ other = ⟨handler, call⟩)
    (honCourse : OnCourse whole)
    (hended : left = [] → whole.2.overs = 1 ∨ ¬ smooth ∨
      current.heard.head? = some .raised ∧ current.point.call.isSaving = false) :
    (courseContract smooth updates).Ends current left whole := by
  refine ⟨⟨fun hmessage ↦ ?_, fun _ ↦ ⟨hsingle, ?_, honCourse, ?_, hended, h.packs, h.late, h.shown,
    h.begins⟩⟩, ?_⟩
  · rw [h.serves, hgame] at hmessage
    exact nomatch hmessage
  · intro other hother
    obtain ⟨call, hcall, rfl⟩ := hleft other hother
    exact ⟨hgame, Point.opensGame_of_ne handler hcall⟩
  · intro _ other hother hstart
    obtain ⟨call, hcall, rfl⟩ := hleft other hother
    exact absurd hstart hcall
  · rw [h.forks]
    exact fun _ hmem ↦ nomatch hmem

theorem done (h : InCourse handler current whole) (hgame : handler.isMessage = false)
    (honCourse : OnCourse whole)
    (hended : whole.2.overs = 1 ∨ ¬ smooth ∨
      current.heard.head? = some .raised ∧ current.point.call.isSaving = false) :
    (courseContract smooth updates).done () current whole := by
  have hends : (courseContract smooth updates).Ends current [] whole :=
    h.ends hgame (by simp) (fun _ hmem ↦ nomatch hmem) honCourse fun _ ↦ hended
  rw [← h.forks] at hends
  exact hends

theorem raised {error : LuaError} (h : InCourse handler current whole)
    (hgame : handler.isMessage = false) (honCourse : OnCourse whole)
    (hended : whole.2.overs = 1 ∨ ¬ smooth ∨
      current.heard.head? = some .raised ∧ current.point.call.isSaving = false) :
    (courseContract smooth updates).raised error current whole :=
  ⟨trivial, h.done hgame honCourse hended⟩

end InCourse

/-- What a part of the game may assume while it sends packages: it is stable under the messages, the game
is on its course, and there is a room, a sturdy one if the game is to run smoothly. -/
structure Enduring (smooth : Prop) (holds : TimedFight → Prop) : Prop where
  stable : ∀ whole last, Undisturbed whole.1 last → holds whole → holds (last, whole.2)
  onCourse : ∀ whole, holds whole → OnCourse whole
  room : ∀ whole, holds whole → whole.1.room.isSome
  staffed : ∀ whole, holds whole → smooth → whole.1.Staffed

/-- The coroutine of a game in the middle of a section, in a state of which an assertion holds. -/
def Along (handler : Handler) (holds : TimedFight → Prop) (current : Section skynet Point TimedFight)
    (whole : TimedFight) : Prop :=
  InCourse handler current whole ∧ holds whole

/-- The tracing of the coroutines of a game. -/
def gameTracing (handler : Handler) : Tracing skynet Call Point Course :=
  ⟨handler.at, Course.asked, Course.waits⟩

section Sending

variable {holds : TimedFight → Prop} (hgame : handler.isMessage = false) (henduring : Enduring smooth holds)

include hgame henduring in
/-- A call that is not noted returns to the game, or it raises and ends it. Meanwhile the room of a broadcast gets
no new players. -/
theorem wpTr_toldCall {call : Call} (hcall : call ≠ .start ∧ call ≠ .timer)
    (hsaving : call.isSaving = false) (hnoted : ∀ course, Course.waits call course = course)
    (h : Along handler holds current whole) :
    (Skynet.call call).wpTr (gameTracing handler) (courseContract smooth updates)
      (fun _ current' whole' ↦ Along handler holds current' whole' ∧
        (smooth → call.broadcasts = true → SameLayout whole.1 whole'.1))
      (courseContract smooth updates).raised current whole := by
  have hat : (gameTracing handler).via call = ⟨handler, call⟩ := handler.at_of_ne hcall.2
  have htrace : (whole.1, (gameTracing handler).waits call whole.2) = whole :=
    congrArg (Prod.mk whole.1) (hnoted whole.2)
  refine wpTr_call ?_ fun reply later hrely ↦ ?_
  · rw [h.1.forks, hat, htrace]
    refine h.1.ends hgame (by simp) ?_ (henduring.onCourse whole h.2) fun hnil ↦ nomatch hnil
    exact fun other hother ↦ ⟨call, hcall.1, List.mem_singleton.mp hother⟩
  · rw [hat, htrace] at hrely
    obtain ⟨hsame, hcourse, hlayout⟩ := hrely hgame
    have hlater : later = (later.1, whole.2) := Prod.ext rfl hcourse
    have hholds : holds later := by
      rw [hlater]
      exact henduring.stable whole later.1 hsame h.2
    have hresumed : InCourse handler ⟨⟨handler, call⟩, later, [reply], []⟩ later :=
      .resumed hcall.1
    rw [hat]
    refine ⟨fun _ ↦ ⟨⟨hresumed, hholds⟩, hlayout⟩, fun hraised ↦ ?_⟩
    exact hresumed.raised hgame (henduring.onCourse later hholds)
      (.inr (.inr ⟨by rw [hraised]; rfl, hsaving⟩))

include hgame henduring in
theorem wpTr_quietCall {call : Call} (hcall : call ≠ .start ∧ call ≠ .timer)
    (hsaving : call.isSaving = false) (hnoted : ∀ course, Course.waits call course = course)
    (h : Along handler holds current whole) :
    (Skynet.call call).wpTr (gameTracing handler) (courseContract smooth updates)
      (fun _ ↦ Along handler holds) (courseContract smooth updates).raised current whole :=
  Program.wpTr_mono (fun _ _ _ ↦ And.left) (wpTr_toldCall hgame henduring hcall hsaving hnoted h)

include henduring in
/-- The copy of the room is there. -/
theorem wpTr_getRoom_bind {β : Type} {rest : RoomInfo → FightTask β}
    {post : β → Section skynet Point TimedFight → TimedFight → Prop}
    (h : Along handler holds current whole)
    (hrest : ∀ room, whole.1.room = some room → (rest room).wpTr (gameTracing handler)
      (courseContract smooth updates) post (courseContract smooth updates).raised current whole) :
    (getRoom >>= rest).wpTr (gameTracing handler) (courseContract smooth updates) post
      (courseContract smooth updates).raised current whole := by
  obtain ⟨room, hroom⟩ := Option.isSome_iff_exists.mp (henduring.room whole h.2)
  unfold getRoom
  rw [Program.wpTr_bind, Program.wpTr_getState_bind, hroom]
  exact hrest room hroom

include hgame henduring in
/-- A broadcast reaches its end when its table gets no new keys. -/
theorem wpTr_broadcastRoomPlayer {package : Package}
    (hpackage : ∀ agent, (Call.sendPackCli agent package).broadcasts = true)
    (h : Along handler holds current whole) :
    (broadcastRoomPlayer package).wpTr (gameTracing handler) (courseContract smooth updates)
      (fun _ ↦ Along handler holds) (courseContract smooth updates).raised current whole := by
  unfold broadcastRoomPlayer
  refine wpTr_getRoom_bind henduring h fun room _ ↦ ?_
  refine wpTr_traverse (Along handler holds) (fun query answer trace hquery ↦ ?_)
    (fun answer current whole h ↦ ⟨h.1.hear _, h.2⟩) (fun (hrough : ¬ smooth) current whole h ↦ ?_)
    (fun key player current whole _ h ↦ ?_) h
  · cases query with
    | time => exact nomatch hquery
    | _ => rfl
  · exact h.1.raised hgame (henduring.onCourse whole h.2) (.inr (.inl hrough))
  · split
    · exact Program.wpTr_mono (fun _ _ _ hnext ↦ ⟨hnext.1, fun hsmooth ↦ hnext.2 hsmooth (hpackage _)⟩)
        (wpTr_toldCall hgame henduring ⟨Call.noConfusion, Call.noConfusion⟩ rfl (fun _ ↦ rfl) h)
    · exact ⟨h, fun _ ↦ rfl⟩

include hgame henduring in
theorem wpTr_sendUserOdds (uidLst : List ℕ) (h : Along handler holds current whole) :
    (sendUserOdds uidLst).wpTr (gameTracing handler) (courseContract smooth updates)
      (fun _ ↦ Along handler holds) (courseContract smooth updates).raised current whole := by
  unfold sendUserOdds
  refine Program.wpTr_forEach (fun _ ↦ Along handler holds) ?_ (fun _ _ hlast ↦ hlast) h
  intro uid rest current whole h
  rw [Program.wpTr_getState_bind]
  split
  · exact wpTr_broadcastRoomPlayer hgame henduring (fun _ ↦ rfl) h
  · exact h

include hgame henduring in
/-- `update_game_process` sends to the players of the game that are still in the room. -/
theorem wpTr_updateGameProcess (h : Along handler holds current whole) :
    updateGameProcess.wpTr (gameTracing handler) (courseContract smooth updates)
      (fun _ ↦ Along handler holds) (courseContract smooth updates).raised current whole := by
  unfold updateGameProcess
  rw [Program.wpTr_getState_bind]
  refine wpTr_getRoom_bind henduring h fun room hroom ↦ ?_
  rw [Program.wpTr_modifyState_bind]
  have hmap : some { room with status := whole.1.roomStatus.code } =
      whole.1.room.map fun room ↦ { room with status := whole.1.roomStatus.code } := by
    rw [hroom]
    rfl
  have hsame : Undisturbed whole.1
      { whole.1 with room := some { room with status := whole.1.roomStatus.code } } := by
    rw [hmap]
    exact .of_room (fun _ ↦ rfl) fun _ _ _ hplayer ↦ hplayer
  refine Program.wpTr_bind.mpr (wpTr_pairs fun order _ ↦ Program.wpTr_forEach
    (fun _ ↦ Along handler holds) ?_ (fun _ _ hlast ↦ hlast)
    ⟨(h.1.undisturbed hsame fun _ ↦ rfl).hear _, henduring.stable _ _ hsame h.2⟩)
  intro uid rest current whole h
  rw [Program.wpTr_getState_bind]
  refine wpTr_getRoom_bind henduring h fun room hroom ↦ ?_
  split
  · rename_i roomPlayer hplayer
    unfold sendPackCli
    split
    · exact wpTr_quietCall hgame henduring ⟨Call.noConfusion, Call.noConfusion⟩ rfl (fun _ ↦ rfl) h
    · rename_i hagent
      -- a player without an agent is not in the room of a game that runs smoothly
      refine h.1.raised hgame (henduring.onCourse whole h.2) (.inr (.inl fun hsmooth ↦ ?_))
      have hsome := henduring.staffed whole h.2 hsmooth room hroom uid roomPlayer hplayer
      rw [hagent] at hsome
      exact nomatch hsome
  · exact h

include hgame henduring in
theorem wpTr_sendPerflop (uid : ℕ) (retCardLst : List ℤ) (h : Along handler holds current whole) :
    (sendPerflop uid retCardLst).wpTr (gameTracing handler) (courseContract smooth updates)
      (fun _ ↦ Along handler holds) (courseContract smooth updates).raised current whole := by
  unfold sendPerflop
  refine wpTr_getRoom_bind henduring h fun room _ ↦ ?_
  split
  · exact wpTr_quietCall hgame henduring ⟨Call.noConfusion, Call.noConfusion⟩ rfl (fun _ ↦ rfl) h
  · exact h

end Sending

end SvrDemo.Douniu
