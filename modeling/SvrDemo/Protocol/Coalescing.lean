import Mathlib.Algebra.Order.Group.Nat
import SvrDemo.Protocol.History

/-!
# Updates on demand

A sender coalesces the changes of a value: a change only marks the value, and the marks are sent as one update
when the receiver has granted it. Two flags are enough: `dirty` for the marks that no update has carried yet, and
`wantmore` for a grant that no update has used. A mark and a grant raise their flags, and an update, which needs
both, lowers both.

`Flag.replay` follows a history of marks, grants and updates. Every update of a history that can be replayed has
used a grant of its own (`count_update_le`), and the value is dirty exactly when a mark came after the last update
(`dirty_iff_pending`). A sender that raises a flag and then updates if it can (`Flag.react`) keeps both and is
`Flag.AtRest` after each of its reactions.
-/

set_option autoImplicit false
set_option relaxedAutoImplicit false

namespace SvrDemo.Protocol

/-- The two flags of a value. -/
structure Flag where
  dirty : Bool
  wantmore : Bool
  deriving DecidableEq

/-- What happens to a value. -/
inductive Note
  | mark
  | grant
  | update
  deriving DecidableEq

/-- The names of the flags. -/
inductive Field
  | dirty
  | wantmore
  deriving DecidableEq

/-- What it means that a flag is raised. -/
def Field.note : Field → Note
  | .dirty => .mark
  | .wantmore => .grant

namespace Flag

/-- Set one of the flags. -/
def set (flag : Flag) : Field → Bool → Flag
  | .dirty, value => { flag with dirty := value }
  | .wantmore, value => { flag with wantmore := value }

/-- Update if it can be done: the flags, and the number of updates. -/
def refresh (flag : Flag) : Flag × ℕ :=
  if flag.dirty && flag.wantmore then (⟨false, false⟩, 1) else (flag, 0)

/-- A sender raises a flag, and then updates if it can. -/
def react (flag : Flag) (field : Field) : Flag × ℕ := (flag.set field true).refresh

/-- No update is due. -/
def AtRest (flag : Flag) : Prop := ¬ (flag.dirty = true ∧ flag.wantmore = true)

instance : DecidablePred AtRest := fun _ ↦ inferInstanceAs (Decidable (¬ _))

/-- What becomes of the flags. An update needs both. -/
def next : Flag → Note → Option Flag
  | flag, .mark => some { flag with dirty := true }
  | flag, .grant => some { flag with wantmore := true }
  | flag, .update => if flag.dirty && flag.wantmore then some ⟨false, false⟩ else none

/-- What becomes of the flags along a history. -/
def replay (flag : Flag) (history : List Note) : Option Flag := history.foldlM next flag

variable {flag middle last : Flag} {history before after : List Note}

@[simp]
theorem replay_nil (flag : Flag) : flag.replay [] = some flag := rfl

@[simp]
theorem replay_cons (flag : Flag) (note : Note) (history : List Note) :
    flag.replay (note :: history) = (flag.next note).bind fun flag ↦ flag.replay history := by
  rw [replay, List.foldlM_cons]
  rfl

theorem replay_append (flag : Flag) (before after : List Note) :
    flag.replay (before ++ after) = (flag.replay before).bind fun flag ↦ flag.replay after := by
  rw [replay, List.foldlM_append]
  rfl

/-- A history goes on. -/
theorem replay_trans (hbefore : flag.replay before = some middle) (hafter : middle.replay after = some last) :
    flag.replay (before ++ after) = some last := by
  rw [replay_append, hbefore, Option.bind_some, hafter]

/-- What was replayed can be replayed up to any point. -/
theorem exists_replay_of_prefix (hreplay : flag.replay history = some last) (hpart : before <+: history) :
    ∃ middle, flag.replay before = some middle := by
  obtain ⟨after, rfl⟩ := hpart
  rw [replay_append, Option.bind_eq_some_iff] at hreplay
  obtain ⟨middle, hmiddle, -⟩ := hreplay
  exact ⟨middle, hmiddle⟩

/-- The grants that are there: those of the history, and one that was there before. -/
theorem count_update_add (hreplay : flag.replay history = some last) :
    history.count .update + last.wantmore.toNat ≤ history.count .grant + flag.wantmore.toNat := by
  induction history generalizing flag with
  | nil =>
    obtain rfl := Option.some.inj hreplay
    exact le_rfl
  | cons note history ih =>
    rw [replay_cons, Option.bind_eq_some_iff] at hreplay
    obtain ⟨middle, hmiddle, hrest⟩ := hreplay
    have hcount := ih hrest
    cases note with
    | mark =>
      obtain rfl := Option.some.inj hmiddle
      simpa using hcount
    | grant =>
      obtain rfl := Option.some.inj hmiddle
      have hle := Bool.toNat_le flag.wantmore
      simp only [List.count_cons, beq_self_eq_true, if_true, reduceCtorEq, beq_iff_eq, if_false,
        Bool.toNat_true] at hcount ⊢
      omega
    | update =>
      rw [next, Option.ite_none_right_eq_some, Bool.and_eq_true] at hmiddle
      obtain ⟨⟨-, hwantmore⟩, hmiddle⟩ := hmiddle
      obtain rfl := Option.some.inj hmiddle
      simp only [List.count_cons, beq_self_eq_true, if_true, reduceCtorEq, beq_iff_eq, if_false, hwantmore,
        Bool.toNat_true, Bool.toNat_false] at hcount ⊢
      omega

/-- At every point of a history the updates are no more than the grants. -/
theorem count_update_le (hreplay : flag.replay history = some last) (hpart : before <+: history) :
    before.count .update ≤ before.count .grant + flag.wantmore.toNat := by
  obtain ⟨middle, hmiddle⟩ := exists_replay_of_prefix hreplay hpart
  exact (Nat.le_add_right _ _).trans (count_update_add hmiddle)

end Flag

/-- A mark of the history came after its last update. -/
def Pending (history : List Note) : Prop := Since .mark .update history

/-- A value that was clean is dirty exactly when a mark is pending. -/
theorem Flag.dirty_iff_pending {flag last : Flag} {history : List Note} (hclean : flag.dirty = false)
    (hreplay : flag.replay history = some last) : last.dirty = true ↔ Pending history := by
  induction history using List.reverseRecOn generalizing last with
  | nil =>
    obtain rfl := Option.some.inj hreplay
    simp [hclean, Pending, not_since_nil]
  | append_singleton history note ih =>
    rw [replay_append, Option.bind_eq_some_iff] at hreplay
    obtain ⟨middle, hmiddle, hnote⟩ := hreplay
    have hlast : middle.next note = some last := by simpa using hnote
    rw [Pending, since_concat, ← Pending, ← ih hmiddle]
    cases note with
    | mark =>
      obtain rfl := Option.some.inj hlast
      simp
    | grant =>
      obtain rfl := Option.some.inj hlast
      simp
    | update =>
      rw [next, Option.ite_none_right_eq_some] at hlast
      obtain ⟨-, hlast⟩ := hlast
      obtain rfl := Option.some.inj hlast
      simp

/-- Without an update, marks and grants only raise their flags. -/
theorem Flag.replay_of_no_update {history : List Note} (hnone : .update ∉ history) : ∀ flag : Flag,
    flag.replay history =
      some ⟨flag.dirty || decide (.mark ∈ history), flag.wantmore || decide (.grant ∈ history)⟩ := by
  induction history with
  | nil => exact fun flag ↦ by simp
  | cons note history ih =>
    intro flag
    have hrest := ih fun hmem ↦ hnone (List.mem_cons_of_mem _ hmem)
    cases note with
    | mark => simp [next, hrest]
    | grant => simp [next, hrest]
    | update => exact absurd List.mem_cons_self hnone

/-- A reaction is a note and the updates after it, and leaves no update due. -/
theorem Flag.replay_react (flag : Flag) (field : Field) :
    flag.replay (field.note :: List.replicate (flag.react field).2 .update) = some (flag.react field).1 ∧
      (flag.react field).1.AtRest := by
  obtain ⟨dirty, wantmore⟩ := flag
  cases field <;> cases dirty <;> cases wantmore <;> exact ⟨rfl, by decide⟩

/-- A sender that leaves no update due answers a grant of a dirty value with an update. -/
theorem Flag.update_of_grant {flag last : Flag} {history : List Note} (hdirty : flag.dirty = true)
    (hreplay : flag.replay history = some last) (hrest : last.AtRest) (hgrant : .grant ∈ history) :
    .update ∈ history := by
  by_contra hnone
  rw [replay_of_no_update hnone] at hreplay
  obtain rfl := Option.some.inj hreplay
  exact hrest ⟨by simp [hdirty], by simp [hgrant]⟩

end SvrDemo.Protocol
