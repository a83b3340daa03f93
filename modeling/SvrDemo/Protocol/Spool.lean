import Mathlib.Data.List.Basic
import Mathlib.Tactic.Common

/-!
# Spools

Packages that wait to be written to a stream which takes them piece by piece. An entry of a spool has the contents of a
package and how many of its units the stream has taken (`offset`); only the first entry may have been begun.

The packages have tags, and those with one tag are to be written in the order in which they were sent, whatever is
written between them (`KeepsOrder`). `Spooled` says that the stream has whole packages one after another and then the
begun part of the first entry (`Spooled.stream_eq`): the units of two packages are never mixed.
-/

set_option autoImplicit false
set_option relaxedAutoImplicit false

namespace SvrDemo.Protocol

/-! ### The order of tagged packages -/

section Order

variable {τ α : Type} [DecidableEq τ] {sent before after : List (τ × α)}

/-- The packages that were sent in another order, in which those with one tag keep their order. -/
def KeepsOrder (sent order : List (τ × α)) : Prop :=
  ∀ tag, order.filter (fun package ↦ package.1 = tag) = sent.filter fun package ↦ package.1 = tag

theorem KeepsOrder.refl (sent : List (τ × α)) : KeepsOrder sent sent := fun _ ↦ rfl

/-- A package that is sent may overtake packages with other tags. -/
theorem KeepsOrder.insert (h : KeepsOrder sent (before ++ after)) (tag : τ) (package : α)
    (hafter : ∀ other ∈ after, other.1 ≠ tag) :
    KeepsOrder (sent ++ [(tag, package)]) (before ++ (tag, package) :: after) := by
  intro tag'
  have hsent := h tag'
  rw [List.filter_append] at hsent
  rw [List.filter_append, List.filter_append, List.filter_cons, ← hsent]
  by_cases htag : tag = tag'
  · -- none of the packages behind it has its tag
    subst htag
    have hnone : after.filter (fun package ↦ package.1 = tag) = [] :=
      List.filter_eq_nil_iff.mpr fun other hmem ↦ by simpa using hafter other hmem
    simp [hnone]
  · simp [htag]

end Order

/-! ### Spools -/

section Spool

variable {τ β ε : Type} (contents : ε → List β) (offset : ε → ℕ)

/-- What the stream has not taken of an entry. -/
def unwritten (entry : ε) : List β := (contents entry).drop (offset entry)

/-- The entries of a spool are the packages that wait, and what the stream has and what it has not taken are the
packages that are done and the ones that wait. -/
structure Spooled (done waiting : List (τ × List β)) (entries : List ε) (stream : List β) : Prop where
  packages : entries.map contents = waiting.map Prod.snd
  whole : stream ++ (entries.map (unwritten contents offset)).flatten = ((done ++ waiting).map Prod.snd).flatten
  fresh : ∀ entry ∈ entries.tail, offset entry = 0

variable {contents : ε → List β} {offset : ε → ℕ} {done waiting : List (τ × List β)} {entries : List ε}
  {stream : List β}

theorem unwritten_of_fresh {entry : ε} (h : offset entry = 0) : unwritten contents offset entry = contents entry := by
  rw [unwritten, h, List.drop_zero]

theorem flatten_unwritten_of_fresh (h : ∀ entry ∈ entries, offset entry = 0) :
    (entries.map (unwritten contents offset)).flatten = (entries.map contents).flatten :=
  congrArg List.flatten (List.map_congr_left fun entry hmem ↦ unwritten_of_fresh (h entry hmem))

theorem Spooled.nil : Spooled (τ := τ) contents offset [] [] [] [] :=
  ⟨rfl, rfl, fun _ hmem ↦ absurd hmem List.not_mem_nil⟩

theorem Spooled.length_eq (h : Spooled contents offset done waiting entries stream) :
    entries.length = waiting.length := by
  rw [← List.length_map contents, h.packages, List.length_map]

/-- When nothing waits, the stream has the packages that are done. -/
theorem Spooled.stream_of_nil (h : Spooled contents offset done waiting [] stream) :
    stream = ((done ++ waiting).map Prod.snd).flatten := by
  rw [← h.whole]
  exact (List.append_nil stream).symm

/-- The stream has whole packages one after another, and then the begun part of the first entry. -/
theorem Spooled.stream_eq (h : Spooled contents offset done waiting entries stream) :
    stream = (done.map Prod.snd).flatten ++
      (entries.head?.map fun entry ↦ (contents entry).take (offset entry)).getD [] := by
  cases entries with
  | nil =>
    have hwaiting : waiting = [] := List.map_eq_nil_iff.mp h.packages.symm
    have hstream := h.stream_of_nil
    rw [hwaiting, List.append_nil] at hstream
    simpa using hstream
  | cons entry rest =>
    have hrest : (rest.map (unwritten contents offset)).flatten = (rest.map contents).flatten :=
      flatten_unwritten_of_fresh h.fresh
    have hstream := h.whole
    rw [List.map_append, List.flatten_append, ← h.packages, List.map_cons, List.map_cons, List.flatten_cons,
      List.flatten_cons, hrest, ← List.append_assoc, ← List.append_assoc] at hstream
    have hentry : stream ++ (contents entry).drop (offset entry) = (done.map Prod.snd).flatten ++ contents entry :=
      List.append_cancel_right hstream
    refine (List.append_left_inj ((contents entry).drop (offset entry))).mp ?_
    rw [hentry, List.append_assoc]
    exact congrArg (_ ++ ·) (List.take_append_drop (offset entry) (contents entry)).symm

/-- A package that is sent waits behind some of the entries, and before others that are not begun. -/
theorem Spooled.push {ahead behind : List ε} {first last : List (τ × List β)}
    (h : Spooled contents offset done (first ++ last) (ahead ++ behind) stream)
    (hlength : ahead.length = first.length) (hbehind : ∀ entry ∈ behind, offset entry = 0)
    (tag : τ) {entry : ε} (hentry : offset entry = 0) :
    Spooled contents offset done (first ++ (tag, contents entry) :: last) (ahead ++ entry :: behind) stream := by
  have hcontents := h.packages
  rw [List.map_append, List.map_append] at hcontents
  obtain ⟨hfirst, hlast⟩ := List.append_inj hcontents (by simpa using hlength)
  refine ⟨?_, ?_, ?_⟩
  · rw [List.map_append, List.map_append, List.map_cons, List.map_cons, hfirst, hlast]
  · have hstream := h.whole
    simp only [List.map_append, List.flatten_append, List.map_cons, List.flatten_cons,
      flatten_unwritten_of_fresh hbehind, hlast, ← List.append_assoc] at hstream ⊢
    rw [List.append_cancel_right hstream, unwritten_of_fresh hentry]
  · cases ahead with
    | nil => exact hbehind
    | cons head ahead =>
      intro other hmem
      rcases List.mem_append.mp hmem with hahead | hmem
      · exact h.fresh other (List.mem_append_left behind hahead)
      · rcases List.mem_cons.mp hmem with rfl | hbehind'
        · exact hentry
        · exact hbehind other hbehind'

/-- The stream takes a part of the first entry. -/
theorem Spooled.advance {entry entry' : ε} {data : List β}
    (h : Spooled contents offset done waiting (entry :: entries) stream) (hcontents : contents entry' = contents entry)
    (hdata : unwritten contents offset entry = data ++ unwritten contents offset entry') :
    Spooled contents offset done waiting (entry' :: entries) (stream ++ data) := by
  refine ⟨?_, ?_, h.fresh⟩
  · rw [← h.packages, List.map_cons, List.map_cons, hcontents]
  · rw [← h.whole, List.map_cons, List.map_cons, List.flatten_cons, List.flatten_cons, hdata, List.append_assoc,
      List.append_assoc]

/-- The stream takes all that is left of the first entry. -/
theorem Spooled.finish {entry : ε} {package : τ × List β}
    (h : Spooled contents offset done (package :: waiting) (entry :: entries) stream) :
    Spooled contents offset (done ++ [package]) waiting entries (stream ++ unwritten contents offset entry) := by
  refine ⟨?_, ?_, fun other hmem ↦ h.fresh other (List.mem_of_mem_tail hmem)⟩
  · exact (List.cons.inj h.packages).2
  · rw [List.append_assoc, List.append_assoc, List.singleton_append, ← h.whole, List.map_cons, List.flatten_cons]

end Spool

end SvrDemo.Protocol
