import SvrDemo.Douniu.HallEffects

/-!
# The fights and the clients in the hall

The parts of a coroutine of the hall keep the contract: what an agent does with a call, `unlock_room` as a
fight service calls it, the handlers of the fight services, and the requests of the clients. Each part is
followed from the places where it may wait: a family of places that are not told apart (`Family`), or the
places of a game that goes on.
-/

set_option autoImplicit false
set_option relaxedAutoImplicit false

namespace SvrDemo.Douniu

open Coroutine Lua Skynet

variable {linked : Prop} {current : Section skynet Served Hall} {hall : Hall} {request : Request}
  {raised : LuaError → Section skynet Served Hall → Hall → Prop}

/-! ### Families of places -/

/-- A section at a point may wait next at a place, whatever it has done. -/
def Goes (point place : Served) : Prop :=
  ∀ (linked : Prop) (hall : Hall), Left linked point hall [place]

theorem Under.goes {point place : Served} (h : Under point place) : Goes point place :=
  fun _ _ ↦ .goes place h

/-- The places of a part of a coroutine. It waits at `points`, from each of which it may go to each of
`places`. -/
structure Family (points places : Served → Prop) : Prop where
  sub : ∀ point, points point → places point
  goes : ∀ point place, points point → places place → Goes point place
  idle : ∀ point, points point → point.idle = true

/-- A section that may wait at every place of a family. -/
structure Own (places : Served → Prop) (current : Section skynet Served Hall) (hall : Hall) : Prop where
  soFar : SoFar current hall
  goes : ∀ place, places place → Goes current.point place

variable {points places : Served → Prop}

namespace Own

/-- A section that has just begun at a place of the family. -/
theorem fresh (hfamily : Family points places) {point : Served} (hpoint : points point) (hall : Hall)
    (heard : List Answer) : Own places ⟨point, hall, heard, []⟩ hall :=
  ⟨soFar_fresh (hfamily.idle point hpoint) hall heard,
    fun place hplace ↦ hfamily.goes point place hpoint hplace⟩

/-- A section that has done something at a place of the family. -/
theorem of_did (hfamily : Family points places) {point : Served} {origin : Hall} {heard : List Answer}
    (hpoint : points point) (hdid : Did point origin heard hall) :
    Own places ⟨point, origin, heard, []⟩ hall :=
  ⟨.of_did hdid, fun place hplace ↦ hfamily.goes point place hpoint hplace⟩

theorem hear (h : Own places current hall) (answer : Answer) :
    Own places { current with heard := current.heard ++ [answer] } hall :=
  ⟨h.soFar.hear answer, h.goes⟩

theorem andThen (h : Own places current hall) {last : Hall} (hcalm : Calm hall last) :
    Own places current last :=
  ⟨h.soFar.andThen hcalm, h.goes⟩

theorem ends (h : Own places current hall) {place : Served} (hplace : places place) :
    (hallContract linked).Ends current (current.forks ++ [place]) hall := by
  rw [h.soFar.forks]
  exact h.soFar.leaves (h.goes place hplace linked hall)

/-- A section waits at a place of the family. -/
theorem wp_await (hfamily : Family points places) (h : Own places current hall) {place : Served}
    (hplace : points place) {post : Answer → Section skynet Served Hall → Hall → Prop}
    (hpost : ∀ reply later, Own places ⟨place, later, [reply], []⟩ later →
      post reply ⟨place, later, [reply], []⟩ later) :
    (Program.await (I := skynet) place : HallTask Answer).wp (hallContract linked) post raised
      current hall :=
  ⟨h.ends (hfamily.sub place hplace), fun reply later _ ↦
    hpost reply later (.fresh hfamily hplace later [reply])⟩

end Own

/-- The coroutines of one plain request. -/
def Own.plain (request : Request) (place : Served) : Prop :=
  place.request = request

theorem Own.plain_at (request : Request) (place : Place) : Own.plain request ⟨request, place⟩ :=
  rfl

theorem family_plain (hplain : request.isPlain = true) :
    Family (Own.plain request) (Own.plain request) where
  sub _ h := h
  goes := by
    rintro ⟨_, place⟩ ⟨_, place'⟩ rfl rfl
    exact (under_of_plain hplain place place').goes
  idle := by
    rintro ⟨_, place⟩ rfl
    exact (under_of_plain hplain place place).idle

/-! ### The agents -/

/-- The stages of the lobby that belong to a family, with the places at which agents are told a fight. -/
structure Speaks (request : Request) (stage : LobbyStage → Place) (points places : Served → Prop) :
    Prop where
  family : Family points places
  stages : ∀ at', points ⟨request, stage at'⟩
  tells : ∀ room agent fight,
    Served.tells ⟨request, stage (.waits (.setFight room agent fight))⟩ = some (room, agent, fight)

section Speaks

variable {stage : LobbyStage → Place}

/-- What becomes of a call of the lobby in an agent. -/
theorem wp_agentHandles (hspeaks : Speaks request stage points places) (call : LobbyCall)
    (h : Own places current hall) :
    (agentHandles request stage call).wp (hallContract linked) (fun _ ↦ Own places) raised current hall := by
  have hwaits : ∀ call, (Program.await (I := skynet) ⟨request, stage (.waits call)⟩ : HallTask Answer).wp
      (hallContract linked) (fun _ ↦ Own places) raised current hall := fun call ↦
    h.wp_await hspeaks.family (hspeaks.stages _) fun _ _ hlater ↦ hlater
  cases call with
  | setFight room agent fight =>
    unfold agentHandles
    rw [Program.wp_bind]
    refine h.wp_await hspeaks.family (hspeaks.stages _) fun reply later hlater ↦ ?_
    have hhandled : ((do
        Program.modifyState fun hall ↦ hall.updateAgent agent (Agent.setFight fight)
        let _ ← Program.await (I := skynet) ⟨request, stage (.handled (.setFight room agent fight))⟩
        return .ok) : HallTask Answer).wp (hallContract linked) (fun _ ↦ Own places) raised
          ⟨⟨request, stage (.waits (.setFight room agent fight))⟩, later, [reply], []⟩ later := by
      rw [Program.wp_bind, Program.wp_modifyState, Program.wp_bind]
      exact (Own.of_did hspeaks.family (hspeaks.stages _)
        (.told (hspeaks.tells room agent fight))).wp_await hspeaks.family (hspeaks.stages _)
          fun _ _ hlast ↦ hlast
    cases reply with
    | raised => exact hlater
    | number _ => exact hhandled
    | order _ => exact hhandled
    | ok => exact hhandled
  | start => exact hwaits _
  | timer => exact hwaits _
  | sendPackCli => exact hwaits _
  | newService => exact hwaits _
  | onStart => exact hwaits _
  | onKickOut => exact hwaits _

/-- The footprint of what only speaks to the agents. -/
def speech : Footprint skynet LobbyCall Lobby where
  waits := fun call ↦ match call with
    | .sendPackCli _ _ | .setFight _ _ _ => True
    | _ => False
  changes := fun _ _ ↦ False
  raises := fun _ ↦ True

theorem speaking_speech : Speaking speech :=
  ⟨fun _ ↦ trivial, fun _ _ ↦ trivial, fun _ _ _ ↦ trivial⟩

/-- `unlock_room`, from the place where a fight service has sent it. -/
theorem wp_unlockRoom (hspeaks : Speaks request stage points places) {roomId : ℕ} {point : Served}
    (hpoint : points point) (hunlocks : point.unlocks = some roomId) (reply : Answer)
    (hraised : ∀ error current hall, Own places current hall → raised error current hall) :
    ((unlockRoom roomId).embed (agentsOnly request stage)).wp (hallContract linked) (fun _ ↦ Own places)
      raised ⟨point, hall, [reply], []⟩ hall := by
  have hsteady : Steady (agentsOnly request stage) (hallContract linked) speech raised (Own places) :=
    { heard := fun _ _ answer h ↦ h.hear answer
      change := fun _ _ _ hchange _ ↦ hchange.elim
      wait := fun _ _ _ _ h ↦ wp_agentHandles hspeaks _ h
      raise := fun error _ _ _ h ↦ hraised error _ _ h }
  change (unlockRoom roomId).wpIn (agentsOnly request stage) _ _ _ _ _
  unfold unlockRoom
  rw [Program.wpIn_bind, Program.wpIn_getState]
  split
  · exact .fresh hspeaks.family hpoint hall [reply]
  · rename_i room hfinds
    rw [Program.wpIn_bind]
    refine wpIn_osTime fun now ↦ ?_
    rw [Program.wpIn_bind, Program.wpIn_modifyState]
    exact hsteady.wpIn (within_setFight speaking_speech room _)
      (.of_did hspeaks.family hpoint (.unlocked now hunlocks hfinds))

end Speaks

/-! ### The fight services -/

/-- The stages of a handler after the report to the lobby. -/
def FightStage.isOver : FightStage → Bool
  | .waits _ => false
  | _ => true

/-- The places of a handler of a fight service: those at which its game goes on (`good`), and the family of
those after the report to the lobby. -/
structure Wraps (request : Request) (stage : FightStage → Place) (good points places : Served → Prop) :
    Prop where
  family : Family points places
  atOver : ∀ at', FightStage.isOver at' = true → points ⟨request, stage at'⟩
  waits : ∀ call, good ⟨request, stage (.waits call)⟩
  goesOn : ∀ point call, good point → Goes point ⟨request, stage (.waits call)⟩
  goesOver : ∀ point place, good point → places place → Goes point place
  idle : ∀ call, Served.idle ⟨request, stage (.waits call)⟩ = true
  unlocks : ∀ roomId, Served.unlocks ⟨request, stage (.unlockRequest roomId)⟩ = some roomId
  tells : ∀ room agent fight, Served.tells
    ⟨request, stage (.unlock (.waits (.setFight room agent fight)))⟩ = some (room, agent, fight)

section Wraps

variable {stage : FightStage → Place} {good : Served → Prop}

theorem Wraps.speaks (hwraps : Wraps request stage good points places) :
    Speaks request (fun place ↦ stage (.unlock place)) points places :=
  ⟨hwraps.family, fun _ ↦ hwraps.atOver _ rfl, hwraps.tells⟩

/-- A fight service has the lobby unlock a room. -/
theorem wp_callUnlock (hwraps : Wraps request stage good points places) (roomId : ℕ)
    (h : Own places current hall) :
    (callUnlock request stage roomId).wp (hallContract linked) (fun _ ↦ Own places) raised current hall := by
  unfold callUnlock exchange
  rw [Program.wp_bind, Program.wp_bind]
  refine h.wp_await hwraps.family (hwraps.atOver _ rfl) fun reply later _ ↦ ?_
  rw [Program.wp_bind, Program.wp_attempt]
  have hreply : ∀ (result : Except LuaError Unit) (current : Section skynet Served Hall) (hall : Hall),
      Own places current hall →
      ((do
        let _ ← Program.await (I := skynet) ⟨request, stage (.unlockReply result.isOk)⟩
        return result : HallTask (Except LuaError Unit))).wp (hallContract linked) (fun result current hall ↦
          (pure (replyOf result) : HallTask Answer).wp (hallContract linked) (fun _ ↦ Own places) raised
            current hall) raised current hall := by
    intro result current hall h
    rw [Program.wp_bind]
    exact h.wp_await hwraps.family (hwraps.atOver _ rfl) fun _ _ hlast ↦ hlast
  exact Program.wp_mono (fun _ current hall h ↦ hreply (.ok ()) current hall h)
    (fun error current hall h ↦ hreply (.error error) current hall h)
    (wp_unlockRoom hwraps.speaks (hwraps.atOver _ rfl) (hwraps.unlocks roomId) reply
      fun _ _ _ h ↦ h)

/-- A section of a game that goes on. -/
structure Plays (good : Served → Prop) (current : Section skynet Served Hall) (hall : Hall) : Prop where
  soFar : SoFar current hall
  good : good current.point

theorem Plays.own (hwraps : Wraps request stage good points places) (h : Plays good current hall) :
    Own places current hall :=
  ⟨h.soFar, fun place hplace ↦ hwraps.goesOver _ place h.good hplace⟩

/-- A change of the fight service that keeps its players and its room, in the hall. -/
theorem calm_put {fight : ℕ} {part : Fight}
    (hkeeps : KeepsSeats ((inFightService request stage fight).get hall) part) :
    Calm hall ((inFightService request stage fight).put part hall) :=
  .of_fight hall hkeeps

/-- A call of a game that goes on. -/
theorem wp_fightHandles (hwraps : Wraps request stage good points places) {call : Call} (hcall : call.inGame)
    (h : Plays good current hall) :
    (fightHandles request stage call).wp (hallContract linked) (fun _ ↦ Plays good) raised current hall := by
  have hwaits : ∀ call, (Program.await (I := skynet) ⟨request, stage (.waits call)⟩ : HallTask Answer).wp
      (hallContract linked) (fun _ ↦ Plays good) raised current hall := by
    refine fun call ↦ ⟨?_, fun reply later _ ↦ ?_⟩
    · rw [h.soFar.forks]
      exact h.soFar.leaves (hwraps.goesOn _ call h.good linked hall)
    · exact ⟨soFar_fresh (hwraps.idle call) later [reply], hwraps.waits call⟩
  cases call with
  | unlockRoom => exact hcall.elim
  | start => exact hwaits _
  | timer => exact hwaits _
  | sleep => exact hwaits _
  | sendPackCli => exact hwaits _
  | updateUserMoney => exact hwaits _

/-- The rule for the turns of a game, with what follows in the hall. -/
theorem gameRule (linked : Prop) (hwraps : Wraps request stage good points places) (fight : ℕ)
    (raised : LuaError → Section skynet Served Hall → Hall → Prop)
    (ended : Section skynet Served Hall → Hall → Prop)
    (hraised : ∀ error current hall, Own places current hall → raised error current hall)
    (hended : ∀ current hall, Own places current hall → ended current hall)
    (htimer : ∀ current hall, Plays good current hall →
      ended { current with forks := current.forks ++ [⟨.checkStatus fight, .start⟩] } hall) :
    GameRule (inFightService request stage fight) (hallContract linked) raised (Plays good) (Own places)
      ended where
  steady :=
    { heard := fun _ _ answer h ↦ ⟨h.soFar.hear answer, h.good⟩
      change := fun _ _ _ hchange h ↦ ⟨h.soFar.andThen (calm_put hchange), h.good⟩
      wait := fun _ _ _ hcall h ↦ wp_fightHandles hwraps hcall h
      raise := fun error _ _ _ h ↦ hraised error _ _ (h.own hwraps) }
  unlock roomId _ _ h := wp_callUnlock hwraps roomId (h.own hwraps)
  reached_of_live _ _ h := h.own hwraps
  raise := hraised
  finish := hended
  timer := htimer

end Wraps

/-! ### Turns of a game -/

/-- The places of a handler after the report to the lobby. -/
def overPlaces (request : Request) (stage : FightStage → Place) (point : Served) : Prop :=
  ∃ at', FightStage.isOver at' = true ∧ point = ⟨request, stage at'⟩

/-- The places of `checkStatus` as a timer starts it. -/
theorem wraps_checkStatus (fight : ℕ) :
    Wraps (.checkStatus fight) .fight
      (fun point ↦ point.request = .checkStatus fight ∧ point.live = some fight)
      (overPlaces (.checkStatus fight) .fight) (overPlaces (.checkStatus fight) .fight) where
  family :=
    { sub := fun _ h ↦ h
      goes := by
        rintro _ _ ⟨at', hat, rfl⟩ ⟨at'', hat', rfl⟩
        cases at'' with
        | waits call => exact nomatch hat'
        | _ => exact Under.goes ⟨rfl, .inl rfl, .inl rfl, .inl rfl, .inl rfl, rfl, rfl⟩
      idle := by
        rintro _ ⟨at', hat, rfl⟩
        rfl }
  atOver at' hat := ⟨at', hat, rfl⟩
  waits call := ⟨rfl, rfl⟩
  goesOn := by
    rintro ⟨_, place⟩ call ⟨rfl, hlive⟩
    exact Under.goes ⟨rfl, .inl rfl, .inr hlive.symm, .inl rfl, .inl rfl, rfl, rfl⟩
  goesOver := by
    rintro ⟨_, place⟩ _ ⟨rfl, hlive⟩ ⟨at', hat, rfl⟩
    cases at' with
    | waits call => exact nomatch hat
    | _ => exact Under.goes ⟨rfl, .inl rfl, .inl rfl, .inl rfl, .inl rfl, rfl, rfl⟩
  idle _ := rfl
  unlocks _ := rfl
  tells _ _ _ := rfl

/-- A turn of `checkStatus` keeps the contract. -/
theorem serves_checkStatus (fight : ℕ) (reply : Answer) :
    (hallContract linked).Keeps (hallService.entry ⟨.checkStatus fight, .start⟩)
      ⟨⟨.checkStatus fight, .start⟩, hall, [reply], []⟩ hall := by
  refine wpIn_checkStatus_over (gameRule linked (wraps_checkStatus fight) fight
    (hallContract linked).raised ((hallContract linked).done ()) (fun _ _ _ h ↦ ⟨trivial, h.soFar.done⟩)
    (fun _ _ h ↦ h.soFar.done) fun current hall h ↦ ?_)
    ⟨soFar_fresh rfl hall [reply], rfl, rfl⟩
  have hleft : Left linked current.point hall [⟨.checkStatus fight, .start⟩] :=
    .timer h.good.1 h.good.2
  refine ⟨⟨h.soFar.did, ?_⟩, fun point hpoint ↦ ?_⟩
  · simp only [h.soFar.forks]
    exact hleft
  · simp only [h.soFar.forks] at hpoint
    obtain rfl := List.mem_singleton.mp hpoint
    rfl

section OnStart

variable (fight room : ℕ) (roomInfo : RoomInfo)

/-- Where the handler of `onStart` waits. -/
def onStartStage (at' : FightStage) : Place :=
  .inFight (.onStart fight room roomInfo) (.handler at')

/-- The places of an `onStart` whose game goes on. -/
def startPlaces (point : Served) : Prop :=
  point = ⟨.matchLoop, .inFight (.onStart fight room roomInfo) .request⟩ ∨
    ∃ call, point = ⟨.matchLoop, onStartStage fight room roomInfo (.waits call)⟩

/-- The places of an `onStart` whose game is over. -/
def startedPlaces (point : Served) : Prop :=
  overPlaces .matchLoop (onStartStage fight room roomInfo) point ∨
    ∃ ok, point = ⟨.matchLoop, .inFight (.onStart fight room roomInfo) (.reply ok)⟩

/-- The places of `onStart` as the lobby calls it. -/
theorem wraps_onStart :
    Wraps .matchLoop (onStartStage fight room roomInfo) (startPlaces fight room roomInfo)
      (overPlaces .matchLoop (onStartStage fight room roomInfo)) (startedPlaces fight room roomInfo) where
  family :=
    { sub := fun _ h ↦ .inl h
      goes := by
        rintro _ _ ⟨at', hat, rfl⟩ (⟨at'', hat', rfl⟩ | ⟨ok, rfl⟩)
        · cases at'' with
          | waits call => exact nomatch hat'
          | _ => exact Under.goes ⟨rfl, .inr rfl, .inl rfl, .inr rfl, .inl rfl, rfl, rfl⟩
        · exact Under.goes ⟨rfl, .inr rfl, .inl rfl, .inr rfl, .inl rfl, rfl, rfl⟩
      idle := by
        rintro _ ⟨at', hat, rfl⟩
        rfl }
  atOver at' hat := ⟨at', hat, rfl⟩
  waits call := .inr ⟨call, rfl⟩
  goesOn := by
    rintro _ call (rfl | ⟨call', rfl⟩)
    · exact fun _ _ ↦ .opens (.waits call) rfl
    · exact Under.goes ⟨rfl, .inr rfl, .inr rfl, .inr rfl, .inl rfl, rfl, rfl⟩
  goesOver := by
    rintro _ _ (rfl | ⟨call', rfl⟩) (⟨at', hat, rfl⟩ | ⟨ok, rfl⟩)
    · exact fun _ _ ↦ .opens at' rfl
    · exact fun _ _ ↦ .fails ok rfl
    · cases at' with
      | waits call => exact nomatch hat
      | _ => exact Under.goes ⟨rfl, .inr rfl, .inl rfl, .inr rfl, .inl rfl, rfl, rfl⟩
    · exact Under.goes ⟨rfl, .inr rfl, .inl rfl, .inr rfl, .inl rfl, rfl, rfl⟩
  idle _ := rfl
  unlocks _ := rfl
  tells _ _ _ := rfl

/-- A game that goes on leaves its timer, and the answer to `onStart`. -/
theorem ends_onStart (h : Plays (startPlaces fight room roomInfo) current hall) :
    (hallContract linked).Ends { current with forks := current.forks ++ [⟨.checkStatus fight, .start⟩] }
      (current.forks ++ [⟨.checkStatus fight, .start⟩] ++
        [⟨.matchLoop, .inFight (.onStart fight room roomInfo) (.reply true)⟩]) hall := by
  have hleft : Left linked current.point hall [⟨.checkStatus fight, .start⟩,
      ⟨.matchLoop, .inFight (.onStart fight room roomInfo) (.reply true)⟩] := by
    refine .started ?_
    rcases h.good with hpoint | ⟨call, hpoint⟩
    · rw [hpoint]
      exact .inl rfl
    · rw [hpoint]
      exact .inr ⟨rfl, rfl⟩
  refine ⟨⟨h.soFar.did, ?_⟩, fun point hpoint ↦ ?_⟩
  · rw [h.soFar.forks]
    exact hleft
  · simp only [h.soFar.forks] at hpoint
    obtain rfl := List.mem_singleton.mp hpoint
    rfl

variable {fight room roomInfo}

/-- The lobby calls `onStart`. The section that gets the answer begins at a place that shows whether the
handler has raised. -/
theorem wp_callOnStart {post : Answer → Section skynet Served Hall → Hall → Prop}
    (hends : (hallContract linked).Ends current
      (current.forks ++ [⟨.matchLoop, .inFight (.onStart fight room roomInfo) .request⟩]) hall)
    (hok : ∀ reply later, post .ok
      ⟨⟨.matchLoop, .inFight (.onStart fight room roomInfo) (.reply true)⟩, later, [reply], []⟩ later)
    (hraised : ∀ reply later, post .raised
      ⟨⟨.matchLoop, .inFight (.onStart fight room roomInfo) (.reply false)⟩, later, [reply], []⟩ later) :
    (lobbyHandles .matchLoop (.onStart fight room roomInfo)).wp (hallContract linked) post raised
      current hall := by
  change (callFight .matchLoop (.onStart fight room roomInfo) fight (onStart roomInfo)).wp _ _ _ _ _
  unfold callFight exchange
  rw [Program.wp_bind, Program.wp_bind, Program.wp_await]
  refine ⟨hends, fun reply later _ ↦ ?_⟩
  rw [Program.wp_bind, Program.wp_attempt]
  have hwraps := wraps_onStart fight room roomInfo
  -- the handler ends with the reply on its way, with the timer of `checkStatus` while the game goes on
  have hrule := gameRule linked hwraps fight
    (fun _ current hall ↦ (hallContract linked).Ends current
      (current.forks ++ [⟨.matchLoop, .inFight (.onStart fight room roomInfo) (.reply false)⟩]) hall)
    (fun current hall ↦ (hallContract linked).Ends current
      (current.forks ++ [⟨.matchLoop, .inFight (.onStart fight room roomInfo) (.reply true)⟩]) hall)
    (fun _ _ _ h ↦ h.ends (.inr ⟨false, rfl⟩)) (fun _ _ h ↦ h.ends (.inr ⟨true, rfl⟩))
    fun _ _ h ↦ ends_onStart fight room roomInfo h
  refine Program.wp_mono (fun _ current hall hends ↦ ⟨hends, fun reply later _ ↦ hok reply later⟩)
    (fun _ current hall hends ↦ ⟨hends, fun reply later _ ↦ hraised reply later⟩)
    (wpIn_onStart_over hrule fun order now horder ↦ ?_)
  exact ⟨.of_did (.opened now rfl horder), .inl rfl⟩

end OnStart

/-! ### The requests of the clients -/

section Plain

variable (hplain : request.isPlain = true)

include hplain in
theorem speaks_plain : Speaks request .lobby (Own.plain request) (Own.plain request) :=
  ⟨family_plain hplain, fun _ ↦ rfl, fun _ _ _ ↦ rfl⟩

include hplain in
/-- The places of a handler that a plain request has started. -/
theorem wraps_plain {stage : FightStage → Place}
    (hunlocks : ∀ roomId, Served.unlocks ⟨request, stage (.unlockRequest roomId)⟩ = some roomId)
    (htells : ∀ room agent fight, Served.tells
      ⟨request, stage (.unlock (.waits (.setFight room agent fight)))⟩ = some (room, agent, fight)) :
    Wraps request stage (Own.plain request) (Own.plain request) (Own.plain request) where
  family := family_plain hplain
  atOver _ _ := rfl
  waits _ := rfl
  goesOn point _ hpoint := (family_plain hplain).goes point _ hpoint rfl
  goesOver := (family_plain hplain).goes
  idle _ := (family_plain hplain).idle _ rfl
  unlocks := hunlocks
  tells := htells

/-- A handler of a fight service that a plain request has started. -/
theorem steady_plainFight {stage : FightStage → Place}
    (hwraps : Wraps request stage (Own.plain request) (Own.plain request) (Own.plain request))
    (fight : ℕ) (hraised : ∀ error current hall, Own (Own.plain request) current hall →
      raised error current hall) :
    Steady (inFightService request stage fight) (hallContract linked) (seating fun _ ↦ True) raised
      (Own (Own.plain request)) where
  heard _ _ answer h := h.hear answer
  change _ _ _ hchange h := h.andThen (calm_put hchange)
  wait call current hall _ h := by
    have hwaits : ∀ call, (Program.await (I := skynet) ⟨request, stage (.waits call)⟩ :
        HallTask Answer).wp (hallContract linked) (fun _ ↦ Own (Own.plain request)) raised current hall :=
      fun call ↦ h.wp_await hwraps.family (Own.plain_at _ _) fun _ _ hlater ↦ hlater
    cases call with
    | unlockRoom roomId => exact wp_callUnlock hwraps roomId h
    | start => exact hwaits _
    | timer => exact hwaits _
    | sleep => exact hwaits _
    | sendPackCli => exact hwaits _
    | updateUserMoney => exact hwaits _
  raise error _ _ _ h := hraised error _ _ h

/-- `onKickOut` keeps the players and the room of the fight. -/
theorem seating_onKickOut {fight : Fight} (uid : ℕ) :
    (onKickOut uid).Within (seating fun _ ↦ True) fight := by
  refine within_getRoom_bind (gaming_seating fun _ _ ↦ trivial).toOrdinary fun room hroom ↦ ?_
  exact (Program.within_modifyState_bind _ _).mpr
    ⟨.of_room hroom rfl fun _ _ ↦ Table.lookup_of_erase, within_call trivial trivial⟩

include hplain in
/-- The lobby calls `onKickOut`. -/
theorem wp_callOnKickOut (fight uid : ℕ) (h : Own (Own.plain request) current hall) :
    (lobbyHandles request (.onKickOut fight uid)).wp (hallContract linked)
      (fun _ ↦ Own (Own.plain request)) raised current hall := by
  have hfamily := family_plain hplain
  change (callFight request (.onKickOut fight uid) fight (onKickOut uid)).wp _ _ _ _ _
  unfold callFight exchange
  rw [Program.wp_bind, Program.wp_bind]
  refine h.wp_await hfamily (Own.plain_at _ _) fun reply later hlater ↦ ?_
  rw [Program.wp_bind, Program.wp_attempt]
  have hreply : ∀ (result : Except LuaError Unit) (current : Section skynet Served Hall) (hall : Hall),
      Own (Own.plain request) current hall →
      ((do
        let _ ← Program.await (I := skynet) ⟨request, .inFight (.onKickOut fight uid) (.reply result.isOk)⟩
        return result : HallTask (Except LuaError Unit))).wp (hallContract linked) (fun result current hall ↦
          (pure (replyOf result) : HallTask Answer).wp (hallContract linked)
            (fun _ ↦ Own (Own.plain request)) raised current hall) raised current hall := by
    intro result current hall h
    rw [Program.wp_bind]
    exact h.wp_await hfamily (Own.plain_at _ _) fun _ _ hlast ↦ hlast
  exact Program.wp_mono (fun _ current hall h ↦ hreply (.ok ()) current hall h)
    (fun error current hall h ↦ hreply (.error error) current hall h)
    ((steady_plainFight (wraps_plain hplain (fun _ ↦ rfl) fun _ _ _ ↦ rfl) fight
      fun _ _ _ h ↦ h).wpIn (seating_onKickOut uid) hlater)

/-- The footprint of what a plain request does in the lobby besides its one change: it speaks to the agents
and calls `onKickOut`. -/
def plainSpeech : Footprint skynet LobbyCall Lobby where
  waits := fun call ↦ match call with
    | .sendPackCli _ _ | .setFight _ _ _ | .onKickOut _ _ => True
    | _ => False
  changes := fun _ _ ↦ False
  raises := fun _ ↦ True

theorem speaking_plainSpeech : Speaking plainSpeech :=
  ⟨fun _ ↦ trivial, fun _ _ ↦ trivial, fun _ _ _ ↦ trivial⟩

include hplain in
theorem steady_plainLobby (hraised : ∀ error current hall, Own (Own.plain request) current hall →
    raised error current hall) :
    Steady (inLobby request) (hallContract linked) plainSpeech raised (Own (Own.plain request)) where
  heard _ _ answer h := h.hear answer
  change _ _ _ hchange _ := hchange.elim
  wait call current hall hcall h := by
    cases call with
    | onKickOut fight uid => exact wp_callOnKickOut hplain fight uid h
    | sendPackCli agent info => exact wp_agentHandles (speaks_plain hplain) (.sendPackCli agent info) h
    | setFight room agent fight =>
      exact wp_agentHandles (speaks_plain hplain) (.setFight room agent fight) h
    | start => exact hcall.elim
    | timer => exact hcall.elim
    | newService => exact hcall.elim
    | onStart => exact hcall.elim
  raise error _ _ _ h := hraised error _ _ h

include hplain in
/-- An agent calls the lobby. -/
theorem wp_callLobby {α : Type} {sent : Place} {body : LobbyTask α}
    {post : α → Section skynet Served Hall → Hall → Prop}
    (h : Own (Own.plain request) current hall)
    (hbody : ∀ reply later, body.wpIn (inLobby request) (hallContract linked)
      (fun _ ↦ Own (Own.plain request)) (fun _ ↦ Own (Own.plain request))
      ⟨⟨request, sent⟩, later, [reply], []⟩ later)
    (hpost : ∀ value current hall, Own (Own.plain request) current hall → post value current hall)
    (hraised : ∀ error current hall, Own (Own.plain request) current hall → raised error current hall) :
    (callLobby request sent body).wp (hallContract linked) post raised current hall := by
  have hfamily := family_plain hplain
  unfold callLobby exchange
  rw [Program.wp_bind, Program.wp_bind]
  refine h.wp_await hfamily (Own.plain_at _ _) fun reply later _ ↦ ?_
  rw [Program.wp_bind, Program.wp_attempt]
  refine Program.wp_mono (fun value current hall h ↦ ?_) (fun error current hall h ↦ ?_)
    (hbody reply later)
  · rw [Program.wp_bind]
    exact h.wp_await hfamily (Own.plain_at _ _) fun _ later hlater ↦ hpost value _ later hlater
  · rw [Program.wp_bind]
    exact h.wp_await hfamily (Own.plain_at _ _) fun _ later hlater ↦ hraised .callFailed _ later hlater

end Plain

/-- A coroutine of a plain request that has just started. -/
theorem own_start {request : Request} (hplain : request.isPlain = true) (reply : Answer) :
    Own (Own.plain request) ⟨⟨request, .start⟩, hall, [reply], []⟩ hall :=
  .fresh (family_plain hplain) (Own.plain_at _ _) hall [reply]

/-- What a coroutine of a plain request owes at its end. -/
theorem Own.done {request : Request} (h : Own (Own.plain request) current hall) :
    (hallContract linked).done () current hall :=
  h.soFar.done

theorem Own.raises {request : Request} (error : LuaError) (h : Own (Own.plain request) current hall) :
    (hallContract linked).raised error current hall :=
  ⟨trivial, h.soFar.done⟩

theorem serves_createRoom (agent : ℕ) (odds : Option LuaInt) (reply : Answer) :
    (hallContract linked).Keeps (hallService.entry ⟨.createRoom agent odds, .start⟩)
      ⟨⟨.createRoom agent odds, .start⟩, hall, [reply], []⟩ hall := by
  have hplain : (Request.createRoom agent odds).isPlain = true := rfl
  change (gameCreateRoom agent odds).wp _ _ _ _ _
  unfold gameCreateRoom
  rw [Program.wp_bind, Program.wp_getState]
  dsimp only
  split
  · refine wp_callLobby hplain (own_start hplain reply) (fun reply later ↦ ?_)
      (fun _ _ _ h ↦ h.done) (fun error _ _ h ↦ h.raises error)
    unfold createRoom makeRoom
    rw [Program.wpIn_bind, Program.wpIn_bind, Program.wpIn_getState, Program.wpIn_bind]
    refine wpIn_osTime fun now ↦ ?_
    rw [Program.wpIn_bind, Program.wpIn_modifyState]
    exact .of_did (family_plain hplain) (Own.plain_at _ _) (.created now rfl rfl)
  · exact (own_start hplain reply).done

/-- `enter_room` seats the player in the section in which it finds the room. -/
theorem wpIn_hallEnterRoom {agent : ℕ} {player : RoomPlayer} (hagent : player.agent = some agent)
    (reply : Answer) :
    (enterRoom player).wpIn (inLobby (.enterRoom agent)) (hallContract linked)
      (fun _ ↦ Own (Own.plain (.enterRoom agent))) (fun _ ↦ Own (Own.plain (.enterRoom agent)))
      ⟨⟨.enterRoom agent, .request⟩, hall, [reply], []⟩ hall := by
  have hplain : (Request.enterRoom agent).isPlain = true := rfl
  have hsteady : Steady (inLobby (.enterRoom agent)) (hallContract linked) plainSpeech
      (fun _ ↦ Own (Own.plain (.enterRoom agent))) (Own (Own.plain (.enterRoom agent))) :=
    steady_plainLobby hplain fun _ _ _ h ↦ h
  -- what follows the seating
  have hrest : ∀ (room : ℕ) (middle : Lobby) (order : List ℕ) (answers : List Answer),
      IsOrder order hall.lobby.roomQueue.keys → RoomFor hall.lobby order room middle →
      (do
        Program.modifyState fun lobby ↦ lobby.seat room player
        updateRoomInfo room
        return (← Program.getState).rooms room : LobbyTask RoomInfo).wpIn (inLobby (.enterRoom agent))
          (hallContract linked) (fun _ ↦ Own (Own.plain (.enterRoom agent)))
          (fun _ ↦ Own (Own.plain (.enterRoom agent)))
          ⟨⟨.enterRoom agent, .request⟩, hall, reply :: .order order :: answers, []⟩
          { hall with lobby := middle } := by
    intro room middle order answers horder htakes
    rw [Program.wpIn_bind, Program.wpIn_modifyState]
    exact hsteady.wpIn (Program.within_bind (within_updateRoomInfo speaking_plainSpeech room)
      fun _ _ ↦ (Program.within_getState_bind _).mpr (Program.within_pure _))
      (.of_did (family_plain hplain) (Own.plain_at _ _) (.entered rfl hagent rfl horder htakes))
  unfold enterRoom
  rw [Program.wpIn_bind, Program.wpIn_getState, Program.wpIn_bind]
  refine wpIn_pairs fun order horder ↦ ?_
  unfold roomFor
  rw [Program.wpIn_bind, Program.wpIn_bind, Program.wpIn_getState]
  split
  · rename_i room hfinds
    rw [Program.wpIn_pure]
    exact hrest room hall.lobby order [] horder (.found hfinds)
  · rename_i hfinds
    unfold makeRoom
    rw [Program.wpIn_bind, Program.wpIn_getState, Program.wpIn_bind]
    refine wpIn_osTime fun now ↦ ?_
    rw [Program.wpIn_bind, Program.wpIn_modifyState, Program.wpIn_pure]
    exact hrest _ _ order [.number now] horder (.made now hfinds)

theorem serves_enterRoom (agent : ℕ) (reply : Answer) :
    (hallContract linked).Keeps (hallService.entry ⟨.enterRoom agent, .start⟩)
      ⟨⟨.enterRoom agent, .start⟩, hall, [reply], []⟩ hall := by
  have hplain : (Request.enterRoom agent).isPlain = true := rfl
  change (gameEnterRoom agent).wp _ _ _ _ _
  unfold gameEnterRoom checkLogin
  rw [Program.wp_bind, Program.wp_bind, Program.wp_getState]
  dsimp only
  split
  · rw [Program.wp_pure, Program.wp_bind]
    refine wp_callLobby hplain (own_start hplain reply) (fun reply later ↦ wpIn_hallEnterRoom rfl reply)
      (fun room current hall h ↦ ?_) (fun error _ _ h ↦ h.raises error)
    rw [Program.wp_modifyState]
    refine (h.andThen (.of_agent hall rfl ?_)).done
    exact List.subset_append_left _ _
  · exact (own_start hplain reply).raises _

/-- `leave_room` removes the player in the section in which it finds the room. -/
theorem wpIn_hallLeaveRoom (hplain : request.isPlain = true) (roomId uid : ℕ) (reply : Answer) :
    (leaveRoom roomId uid).wpIn (inLobby request) (hallContract linked)
      (fun _ ↦ Own (Own.plain request)) (fun _ ↦ Own (Own.plain request))
      ⟨⟨request, .leaveRequest roomId uid⟩, hall, [reply], []⟩ hall := by
  unfold leaveRoom
  rw [Program.wpIn_bind, Program.wpIn_getState, Program.wpIn_bind]
  refine wpIn_pairs fun order _ ↦ ?_
  rw [Program.wpIn_bind, Program.wpIn_getState]
  split
  · exact (Own.fresh (family_plain hplain) (Own.plain_at _ _) hall [reply]).hear _
  · rename_i room hfinds
    rw [Program.wpIn_bind, Program.wpIn_modifyState]
    refine (steady_plainLobby hplain fun _ _ _ h ↦ h).wpIn ?_
      (.of_did (family_plain hplain) (Own.plain_at _ _) (.departed rfl rfl hfinds))
    refine (Program.within_getState_bind _).mpr ?_
    refine Program.within_bind (within_address speaking_plainSpeech _) fun fight _ ↦ ?_
    refine Program.within_bind (within_call trivial trivial) fun _ _ ↦ ?_
    exact Program.within_bind (within_updateRoomInfo speaking_plainSpeech room) fun _ _ ↦
      Program.within_pure _

/-- `GAME:leave_room`, for a request of its own or in `CMD.disconnect`. -/
theorem wp_gameLeaveRoom (hplain : request.isPlain = true) (agent : ℕ) (reply : Answer) :
    (gameLeaveRoom request agent).wp (hallContract linked) (fun _ ↦ Own (Own.plain request))
      (fun _ ↦ Own (Own.plain request)) ⟨⟨request, .start⟩, hall, [reply], []⟩ hall := by
  unfold gameLeaveRoom checkLogin
  rw [Program.wp_bind, Program.wp_bind, Program.wp_getState]
  dsimp only
  split
  · rw [Program.wp_pure]
    split
    · exact own_start hplain reply
    · rw [Program.wp_bind]
      exact wp_callLobby hplain (own_start hplain reply)
        (fun reply later ↦ wpIn_hallLeaveRoom hplain _ _ reply) (fun _ _ _ h ↦ h) fun _ _ _ h ↦ h
  · exact own_start hplain reply

theorem serves_leaveRoom (agent : ℕ) (reply : Answer) :
    (hallContract linked).Keeps (hallService.entry ⟨.leaveRoom agent, .start⟩)
      ⟨⟨.leaveRoom agent, .start⟩, hall, [reply], []⟩ hall :=
  (Program.wp_bind _ _ _ _ _ _).mpr (Program.wp_mono (fun _ _ _ h ↦ h.done)
    (fun error _ _ h ↦ h.raises error)
    (wp_gameLeaveRoom (by exact rfl) agent reply))

theorem serves_disconnect (agent : ℕ) (reply : Answer) :
    (hallContract linked).Keeps (hallService.entry ⟨.disconnect agent, .start⟩)
      ⟨⟨.disconnect agent, .start⟩, hall, [reply], []⟩ hall := by
  refine (Program.wp_bind _ _ _ _ _ _).mpr (Program.wp_mono (fun _ current hall h ↦ ?_)
    (fun error _ _ h ↦ h.raises error)
    (wp_gameLeaveRoom (by exact rfl) agent reply))
  rw [Program.wp_modifyState]
  exact (h.andThen (.of_agent hall rfl (List.Subset.refl _))).done

theorem serves_login (agent : ℕ) (reply : Answer) :
    (hallContract linked).Keeps (hallService.entry ⟨.login agent, .start⟩)
      ⟨⟨.login agent, .start⟩, hall, [reply], []⟩ hall := by
  have hplain : (Request.login agent).isPlain = true := rfl
  change (gameLogin agent).wp _ _ _ _ _
  unfold gameLogin
  rw [Program.wp_bind]
  refine (own_start hplain reply).wp_await (family_plain hplain) (Own.plain_at _ _) fun _ later h ↦ ?_
  rw [Program.wp_bind]
  unfold mathRandom
  rw [Program.wp_bind, Program.wp_query]
  intro answer _
  rw [Program.wp_pure, Program.wp_modifyState]
  exact ((h.hear answer).andThen (.of_agent later rfl (List.Subset.refl _))).done

theorem serves_playerMessage {fight : ℕ} {handler : Handler} (hhandler : handler.isFromClient = true)
    (reply : Answer) :
    (hallContract linked).Keeps (hallService.entry ⟨.playerMessage fight handler, .start⟩)
      ⟨⟨.playerMessage fight handler, .start⟩, hall, [reply], []⟩ hall := by
  have hplain : (Request.playerMessage fight handler).isPlain = true := rfl
  have hwraps : Wraps (.playerMessage fight handler) .fight (Own.plain _) (Own.plain _) (Own.plain _) :=
    wraps_plain hplain (fun _ ↦ rfl) fun _ _ _ ↦ rfl
  have hsteady : Steady (inFightService (.playerMessage fight handler) .fight fight) (hallContract linked)
      (seating fun _ ↦ True) (hallContract linked).raised (Own (Own.plain _)) :=
    steady_plainFight hwraps fight fun error _ _ h ↦ h.raises error
  have hgaming : Gaming (seating fun _ ↦ True) := gaming_seating fun _ _ ↦ trivial
  have hwithin : handler.body.Within (seating fun _ ↦ True) (hall.fights fight) := by
    cases handler with
    | onGetLeader uid odds => exact (gaming_fromClient hgaming uid).1 odds
    | onSetOdds uid odds => exact (gaming_fromClient hgaming uid).2.1 odds
    | onPackCard uid cards => exact (gaming_fromClient hgaming uid).2.2 cards
    | onStart => exact nomatch hhandler
    | checkStatus => exact nomatch hhandler
    | onKickOut => exact nomatch hhandler
  exact hsteady.wpIn_of hwithin (own_start hplain reply) fun _ _ _ h ↦ h.done

end SvrDemo.Douniu
