import SvrDemo.Coroutine.Following
import SvrDemo.Douniu.HallInvariant

/-!
# The call of `leave_room`

An agent calls `leave_room` of the lobby for its client and in `CMD.disconnect`, with the id of the room that it
has got last and its uid at that moment. `leaving` is a coroutine that has sent this call.
-/

set_option autoImplicit false
set_option relaxedAutoImplicit false

namespace SvrDemo.Douniu

open Coroutine Lua Skynet

/-- The requests of an agent that call `leave_room`. -/
inductive Request.Leaves (agent : ℕ) : Request → Prop
  | leaveRoom : Leaves agent (.leaveRoom agent)
  | disconnect : Leaves agent (.disconnect agent)

/-- What follows the call of `leave_room`: `CMD.disconnect` reaches `skynet.exit`. -/
def Request.afterLeave : Request → HallTask Unit
  | .disconnect agent =>
    Program.modifyState fun hall ↦ hall.updateAgent agent fun self ↦ { self with exited := true }
  | _ => return ()

/-- The handler of `leave_room` and its reply. -/
def takeLeave (request : Request) (roomId uid : ℕ) : HallTask ℤ := do
  let result ← ((leaveRoom roomId uid).embed (inLobby request)).attempt
  let _ ← Program.await (I := skynet) ⟨request, .reply result.isOk⟩
  match result with
  | .ok value => return value
  | .error _ => .fail .callFailed

/-- A coroutine that has sent `leave_room`. -/
def leaving (request : Request) (roomId uid : ℕ) : Thread skynet Served Hall where
  point := ⟨request, .leaveRequest roomId uid⟩
  next _ := do
    let _ ← takeLeave request roomId uid
    request.afterLeave

/-- The call of `leave_room` is a request to the lobby, which takes it up. -/
theorem callLobby_leaveRoom (request : Request) (roomId uid : ℕ) :
    callLobby request (.leaveRequest roomId uid) (leaveRoom roomId uid) =
      .wait ⟨request, .leaveRequest roomId uid⟩ fun _ ↦ takeLeave request roomId uid := by
  refine congrArg (Program.wait _) (funext fun _ ↦ ?_)
  refine (Program.bind_assoc ((leaveRoom roomId uid).embed (inLobby request)).attempt _ _).trans ?_
  refine congrArg (Program.bind _) (funext fun result ↦ congrArg (Program.wait _) (funext fun _ ↦ ?_))
  cases result with
  | ok value => rfl
  | error error => rfl

/-- An agent that has a room calls `leave_room` with its id and the uid of the player. -/
theorem leaving_of_start {request : Request} {agent : ℕ} (hrequest : request.Leaves agent) {hall : Hall}
    (hlogin : (hall.agents agent).login = true) {room : RoomInfo} (hroom : (hall.agents agent).room = some room)
    (reply : Answer) : ((hallService.start ⟨request, .start⟩).next reply).exec hall [] [] =
      some ⟨hall, [], .parked (leaving request room.roomId (hall.agents agent).uid).point
        (leaving request room.roomId (hall.agents agent).uid).next⟩ := by
  have hcall : ∀ rest : HallTask Unit, ((gameLeaveRoom request agent).bind fun _ ↦ rest).exec hall [] [] =
      some ⟨hall, [], .parked ⟨request, .leaveRequest room.roomId (hall.agents agent).uid⟩ fun _ ↦
        (takeLeave request room.roomId (hall.agents agent).uid).bind fun _ ↦ rest⟩ := by
    intro rest
    unfold gameLeaveRoom checkLogin
    simp only [bind, Program.bind, Program.getState, Program.exec, hlogin, if_true, pure, hroom,
      callLobby_leaveRoom]
    refine congrArg some (congrArg (Outcome.mk hall []) (congrArg (Ending.parked _) (funext fun _ ↦ ?_)))
    exact Program.bind_assoc _ _ _
  cases hrequest with
  | leaveRoom => exact hcall _
  | disconnect => exact hcall _

/-- The coroutine of such a request, when it has arrived and has had its first turn. -/
theorem playAll_leaving {request : Request} {agent : ℕ} (hrequest : request.Leaves agent)
    {first : Configuration skynet Served Hall} (hlogin : (first.state.agents agent).login = true) {room : RoomInfo}
    (hroom : (first.state.agents agent).room = some room) :
    hallService.playAll first [.arrive ⟨request, .start⟩, .resume first.threads.length .ok []] =
      some { first with
        threads := first.threads ++ [leaving request room.roomId (first.state.agents agent).uid] } := by
  have harrives : hallService.arrives ⟨request, .start⟩ = true := by cases hrequest <;> rfl
  rw [System.playAll_cons, System.play, if_pos harrives, Option.bind_some, System.playAll_cons, System.play]
  rw [List.getElem?_concat_length]
  dsimp only
  rw [leaving_of_start hrequest hlogin hroom]
  simp [System.leaves, System.parked, System.failed]

/-- A run of the services in which an agent sends `leave_room`, and the moves after it. -/
theorem exists_leaving {κ : Type} {request : Request} {agent : ℕ} (hrequest : request.Leaves agent)
    (before after : List (Move skynet Served))
    (value : Configuration skynet Served Hall → Followed skynet Served Hall → κ) {index roomId uid : ℕ} {result : κ}
    (hbefore : (hallService.playAll (openHall 1) before).map (fun first ↦ (first.threads.length,
      (first.state.agents agent).login, (first.state.agents agent).room.map RoomInfo.roomId,
      (first.state.agents agent).uid)) = some (index, true, some roomId, uid))
    (hafter : ((hallService.playAll (openHall 1) before).bind fun first ↦
      (hallService.playAll first [.arrive ⟨request, .start⟩, .resume index .ok []]).bind fun first ↦
        (hallService.followAll (first.following index) after).map (value first)) = some result) :
    ∃ first last, hallService.AnyRun (openHall 1) first ∧
      first.threads[index]? = some (leaving request roomId uid) ∧
      hallService.followAll (first.following index) after = some last ∧ value first last = result := by
  obtain ⟨start, hstart, hvalues⟩ := Option.map_eq_some_iff.mp hbefore
  obtain ⟨hlength, hlogin, hroom, huid⟩ := by simpa only [Prod.mk.injEq] using hvalues
  obtain ⟨room, hhas, hid⟩ := Option.map_eq_some_iff.mp hroom
  rw [hstart, Option.bind_some, Option.bind_eq_some_iff] at hafter
  obtain ⟨first, hsent, hfollow⟩ := hafter
  obtain ⟨last, hlast, hresult⟩ := Option.map_eq_some_iff.mp hfollow
  refine ⟨first, last, (System.run_of_playAll _ _ hstart).trans (System.run_of_playAll _ _ hsent), ?_, hlast, hresult⟩
  rw [← hlength, playAll_leaving hrequest hlogin hhas, hid, huid] at hsent
  obtain rfl := Option.some.inj hsent
  rw [← hlength]
  exact List.getElem?_concat_length

end SvrDemo.Douniu
