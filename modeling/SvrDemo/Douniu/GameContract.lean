import SvrDemo.Douniu.Footprints
import SvrDemo.Douniu.Interference

/-!
# The contract of a fight service

The coroutines of a fight service during a game are the game itself, one at a time, and any number of
messages. A section of a message changes the state by the effect of the message when it is the first
section of its coroutine, and not at all when it is a later one. A section of the game leaves at
most one coroutine of the game waiting, leaves a state in which the cards and the money are
accounted for, and does not touch a player who holds five cards. The game relies on the messages for
`Interferes`, and the messages rely on nothing.

This file states the contract and shows that the messages keep it.
-/

set_option autoImplicit false
set_option relaxedAutoImplicit false

namespace SvrDemo.Douniu

open Coroutine Lua Skynet

/-! ### Points -/

/-- The point at which the coroutine waits that is going to open the game. -/
def Point.opensGame : Point → Bool
  | ⟨.onStart _, .start⟩ => true
  | _ => false

/-- The call that stores the money of a player. -/
def Call.isSaving : Call → Bool
  | .updateUserMoney _ _ _ => true
  | _ => false

/-- The calls that store or show the result of a game. -/
def Call.isSettling : Call → Bool
  | .updateUserMoney _ _ _ => true
  | .sendPackCli _ package => package.isResult
  | _ => false

/-- The place of a coroutine that waits at a call, the timer of `checkStatus` apart. -/
theorem Handler.at_of_ne {call : Call} (handler : Handler) (hcall : call ≠ .timer) :
    handler.at call = ⟨handler, call⟩ := by
  cases call with
  | timer => exact absurd rfl hcall
  | _ => rfl

theorem Point.opensGame_of_ne {call : Call} (handler : Handler) (hcall : call ≠ .start) :
    Point.opensGame ⟨handler, call⟩ = false := by
  cases call with
  | start => exact absurd rfl hcall
  | _ => cases handler <;> rfl

/-! ### The contract -/

/-- The cards and the money of a game are accounted for: it is going, with nothing stored and no
coroutine of `left` storing or showing the result, or it is settled, and unless a coroutine of
`left` is storing, the calls of all players have been answered. -/
inductive Accounted (updates : List MoneyUpdate) (fight : Fight) (left : List Point) : Prop
  | going (going : Going updates fight) (quiet : ∀ point ∈ left, point.call.isSettling = false)
  | settled (calls : List MoneyUpdate) (settled : Settled updates calls fight)
      (complete : (∀ point ∈ left, point.call.isSaving = false) →
        ∀ uid ∈ fight.playerLst.keys, uid ∈ calls.map MoneyUpdate.uid)

/-- What a section of a message guarantees. -/
structure MessageSection (point : Point) (origin : Fight) (left : List Point) (last : Fight) :
    Prop where
  waiting : ∀ other ∈ left, other.handler.isMessage = true
  effect : last = if point.call = .start then point.handler.effect origin else origin

/-- What a section of the game guarantees. -/
structure GameSection (updates : List MoneyUpdate) (point : Point) (origin : Fight)
    (left : List Point) (last : Fight) : Prop where
  single : left.length ≤ 1
  waiting : ∀ other ∈ left, other.handler.isMessage = false ∧ other.opensGame = false
  accounted : Accounted updates last left
  frozen : point.opensGame = false → Frozen origin last

/-- Where a coroutine may be started, and in which state: the game for a room of at most ten players,
a turn of `checkStatus` when the game is ready for it, and messages at any time. -/
def startsWell (updates : List MoneyUpdate) : Point → Fight → Prop
  | ⟨.onStart roomInfo, .start⟩, fight =>
    roomInfo.playerLst.size ≤ 10 ∧ fight.moneyUpdates = updates
  | ⟨.checkStatus, .start⟩, fight => Ready updates fight
  | ⟨handler, .start⟩, _ => handler.isMessage = true
  | _, _ => False

/-- The contract of a fight service whose calls of `update_user_money` so far are `updates`. Its
coroutines may fail, but not at the assertion of `parse_card_info`. -/
def gameContract (updates : List MoneyUpdate) : Contract skynet Point Fight where
  rely point first last := point.handler.isMessage = false → Interferes first last
  guar point origin _ left last :=
    (point.handler.isMessage = true → MessageSection point origin left last) ∧
      (point.handler.isMessage = false → GameSection updates point origin left last)
  pre := startsWell updates
  err error := error ≠ .assertionFailed

variable {updates : List MoneyUpdate} {handler : Handler} {fight : Fight}

/-! ### Messages keep the contract -/

/-- The coroutine of a message in the middle of a section: its effect is due in the first section
and nothing afterwards. -/
structure Handled (handler : Handler) (current : Section skynet Point Fight) (fight : Fight) :
    Prop where
  forks : current.forks = []
  serves : current.point.handler = handler
  effect : fight =
    if current.point.call = .start then handler.effect current.origin else current.origin

namespace Handled

variable {current : Section skynet Point Fight}

/-- A message may end its section and leave coroutines of its own waiting. -/
theorem ends (h : Handled handler current fight) (hmessage : handler.isMessage = true)
    {left : List Point} (hleft : ∀ other ∈ left, other.handler = handler) :
    (gameContract updates).Ends current left fight := by
  refine ⟨⟨fun _ ↦ ⟨fun other hother ↦ ?_, ?_⟩, fun hgame ↦ ?_⟩, ?_⟩
  · rw [hleft other hother]
    exact hmessage
  · rw [h.serves]
    exact h.effect
  · rw [h.serves, hmessage] at hgame
    exact nomatch hgame
  · rw [h.forks]
    exact fun _ hmem ↦ nomatch hmem

theorem done (h : Handled handler current fight) (hmessage : handler.isMessage = true) :
    (gameContract updates).done () current fight :=
  h.ends hmessage (by rw [h.forks]; exact fun _ hmem ↦ nomatch hmem)

theorem raised (h : Handled handler current fight) (hmessage : handler.isMessage = true)
    {error : LuaError} (herror : error ≠ .assertionFailed) :
    (gameContract updates).raised error current fight :=
  ⟨herror, h.done hmessage⟩

end Handled

/-- What a message does after its effect: it sends packages and reports to the lobby. -/
def messageFootprint : Footprint skynet Call Fight where
  waits call := call ≠ .start ∧ call ≠ .timer
  changes _ _ := False
  raises error := error ≠ .assertionFailed

theorem ordinary_messageFootprint : Ordinary messageFootprint :=
  ⟨LuaError.noConfusion, LuaError.noConfusion, LuaError.noConfusion, fun _ _ _ ↦ ⟨Call.noConfusion, Call.noConfusion⟩⟩

theorem steady_handled (hmessage : handler.isMessage = true) :
    Steady (.relabel handler.at) (gameContract updates) messageFootprint
      (gameContract updates).raised (Handled handler) where
  heard _ _ _ h := ⟨h.forks, h.serves, h.effect⟩
  change _ _ _ hchange := hchange.elim
  wait call current fight hcall h := by
    have hat : handler.at call = ⟨handler, call⟩ := handler.at_of_ne hcall.2
    refine ⟨?_, fun reply later _ ↦ ⟨rfl, ?_, ?_⟩⟩
    · refine h.ends hmessage ?_
      rw [h.forks, hat]
      exact fun other hother ↦ List.mem_singleton.mp hother ▸ rfl
    · rw [hat]
    · rw [hat, if_neg hcall.1]
  raise _ _ _ herror h := h.raised hmessage herror

/-- The state at the start of a message, when the message is about to have its effect. -/
theorem handled_start (handler : Handler) (origin : Fight) (heard : List Answer)
    (heffect : fight = handler.effect origin) :
    Handled handler ⟨⟨handler, .start⟩, origin, heard, []⟩ fight :=
  ⟨rfl, rfl, by rw [if_pos rfl, heffect]⟩

section Messages

variable {origin : Fight} {heard : List Answer}

/-- After its effect a message sends the odds of a player. -/
theorem wpIn_sendUserOdds_handled (hmessage : handler.isMessage = true) {uidLst : List ℕ}
    (heffect : fight = handler.effect origin) :
    (sendUserOdds uidLst).wpIn (.relabel handler.at) (gameContract updates)
      (gameContract updates).done (gameContract updates).raised
      ⟨⟨handler, .start⟩, origin, heard, []⟩ fight :=
  (steady_handled hmessage).wpIn_of (within_sendUserOdds ordinary_messageFootprint uidLst)
    (handled_start handler origin heard heffect) fun _ _ _ h ↦ h.done hmessage

theorem keeps_onGetLeader (uid : ℕ) (odds : Option ℤ) :
    (onGetLeader uid odds).wpIn (.relabel (Handler.onGetLeader uid odds).at) (gameContract updates)
      (gameContract updates).done (gameContract updates).raised
      ⟨⟨.onGetLeader uid odds, .start⟩, origin, heard, []⟩ origin := by
  unfold onGetLeader
  rw [Program.wpIn_relabel_getState_bind]
  split_ifs with hphase
  · refine (handled_start (.onGetLeader uid odds) origin heard ?_).done rfl
    cases odds with
    | none => rfl
    | some odds => simp [Handler.effect, hphase]
  · cases odds with
    | none => exact (handled_start _ origin heard rfl).raised rfl (by decide)
    | some odds =>
      simp only [ne_eq, not_not] at hphase
      cases hplayer : origin.getPlayer uid with
      | none =>
        refine (handled_start _ origin heard ?_).done rfl
        have hout : uid ∉ origin.playerLst.keys := fun hmem ↦ by
          obtain ⟨player, hsome⟩ := Fight.mem_keys_iff.mp hmem
          exact nomatch hplayer.symm.trans hsome
        simp [Handler.effect, hout]
      | some player =>
        have hmem : uid ∈ origin.playerLst.keys := Fight.mem_keys_iff.mpr ⟨player, hplayer⟩
        dsimp only
        split_ifs with hlimit
        · rw [Program.wpIn_relabel_modifyState_bind]
          exact wpIn_sendUserOdds_handled rfl (by simp [Handler.effect, hphase, hmem, hlimit])
        · exact (handled_start _ origin heard (by simp [Handler.effect, hlimit])).done rfl

theorem keeps_onSetOdds (uid : ℕ) (odds : Option ℤ) :
    (onSetOdds uid odds).wpIn (.relabel (Handler.onSetOdds uid odds).at) (gameContract updates)
      (gameContract updates).done (gameContract updates).raised
      ⟨⟨.onSetOdds uid odds, .start⟩, origin, heard, []⟩ origin := by
  cases odds with
  | none => exact (handled_start _ origin heard rfl).raised rfl (by decide)
  | some odds =>
    unfold onSetOdds
    dsimp only
    rw [Program.wpIn_relabel_getState_bind]
    split_ifs with hconsiders
    · cases hleader : origin.roomLeader with
      | none =>
        refine (handled_start _ origin heard ?_).raised rfl (by decide)
        simp [Handler.effect, Fight.acceptsOdds, hleader]
      | some leader =>
        dsimp only
        split_ifs with hbanker
        · refine (handled_start _ origin heard ?_).done rfl
          simp [Handler.effect, Fight.acceptsOdds, hleader, hbanker]
        · rw [Program.wpIn_relabel_modifyState_bind]
          refine wpIn_sendUserOdds_handled rfl ?_
          have haccepts : origin.acceptsOdds uid odds :=
            ⟨hconsiders, by simp [hleader], by simp [hleader, hbanker]⟩
          simp only [Handler.effect, if_pos haccepts]
    · refine (handled_start _ origin heard ?_).done rfl
      have hrefuses : ¬ origin.acceptsOdds uid odds := fun haccepts ↦ hconsiders haccepts.1
      simp only [Handler.effect, if_neg hrefuses]

theorem keeps_onPackCard (uid : ℕ) (retCardLst : Option (List ℤ)) :
    (onPackCard uid retCardLst).wpIn (.relabel (Handler.onPackCard uid retCardLst).at)
      (gameContract updates) (gameContract updates).done (gameContract updates).raised
      ⟨⟨.onPackCard uid retCardLst, .start⟩, origin, heard, []⟩ origin := by
  cases retCardLst with
  | none => exact (handled_start _ origin heard rfl).done rfl
  | some cards =>
    unfold onPackCard
    dsimp only
    rw [Program.wpIn_relabel_getState_bind]
    cases hplayer : origin.getPlayer uid with
    | none =>
      refine (handled_start _ origin heard ?_).done rfl
      have hsame : ∀ change, origin.playerLst.update uid change = origin.playerLst := fun change ↦ by
        unfold Table.update
        rw [show origin.playerLst.lookup uid = none from hplayer]
      simp only [Handler.effect, Fight.updatePlayer, hsame]
    | some player =>
      dsimp only
      rw [Program.wpIn_relabel_modifyState_bind]
      exact wpIn_sendUserOdds_handled rfl rfl

theorem keeps_onKickOut (uid : ℕ) :
    (onKickOut uid).wpIn (.relabel (Handler.onKickOut uid).at) (gameContract updates)
      (gameContract updates).done (gameContract updates).raised
      ⟨⟨.onKickOut uid, .start⟩, origin, heard, []⟩ origin := by
  unfold onKickOut getRoom
  rw [Program.wpIn_bind, Program.wpIn_relabel_getState_bind]
  cases hroom : origin.room with
  | none =>
    refine (handled_start _ origin heard ?_).raised rfl (by decide)
    simp only [Handler.effect, hroom, Option.map_none]
    rw [← hroom]
  | some room =>
    dsimp only
    rw [Program.wpIn_pure, Program.wpIn_relabel_modifyState_bind]
    refine (steady_handled rfl).wpIn_of (within_call ⟨Call.noConfusion, Call.noConfusion⟩
      LuaError.noConfusion) (handled_start _ origin heard ?_) fun _ _ _ h ↦ h.done rfl
    simp [Handler.effect, hroom]

/-- Every message keeps the contract. -/
theorem keeps_message (hmessage : handler.isMessage = true) (reply : Answer) :
    (gameContract updates).Keeps (fightService.entry ⟨handler, .start⟩)
      ⟨⟨handler, .start⟩, origin, [reply], []⟩ origin := by
  cases handler with
  | onStart roomInfo => exact nomatch hmessage
  | checkStatus => exact nomatch hmessage
  | onGetLeader uid odds => exact keeps_onGetLeader uid odds
  | onSetOdds uid odds => exact keeps_onSetOdds uid odds
  | onPackCard uid retCardLst => exact keeps_onPackCard uid retCardLst
  | onKickOut uid => exact keeps_onKickOut uid

end Messages

end SvrDemo.Douniu
