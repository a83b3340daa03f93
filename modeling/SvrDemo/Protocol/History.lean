import SvrDemo.Protocol.Machine
import Mathlib.Data.List.Induction

/-!
# Histories of runs

What the steps of a machine note is a history. `Machine.recorded` has a history for each of several subjects, and
`Since` says that something was noted after the last note of another kind.
-/

set_option autoImplicit false
set_option relaxedAutoImplicit false

namespace SvrDemo.Protocol

variable {σ ε κ : Type} {history : List κ} {note stop last : κ}

/-- It was noted, and nothing stopped it after that. -/
def Since (note stop : κ) (history : List κ) : Prop :=
  ∃ before after, history = before ++ note :: after ∧ stop ∉ after

theorem not_since_nil (note stop : κ) : ¬ Since note stop [] := by
  rintro ⟨before, after, hsplit, -⟩
  simp at hsplit

/-- What one more note does. -/
theorem since_concat (history : List κ) (last : κ) :
    Since note stop (history ++ [last]) ↔ last = note ∨ last ≠ stop ∧ Since note stop history := by
  constructor
  · rintro ⟨before, after, hsplit, hafter⟩
    rcases List.eq_nil_or_concat after with rfl | ⟨after, other, rfl⟩
    · exact .inl (List.append_singleton_inj.mp hsplit).2
    · rw [List.concat_eq_append, ← List.cons_append, ← List.append_assoc] at hsplit
      obtain ⟨hhistory, rfl⟩ := List.append_singleton_inj.mp hsplit
      refine .inr ⟨?_, before, after, hhistory, fun hmem ↦ hafter (by simp [hmem])⟩
      rintro rfl
      exact hafter (by simp)
  · rintro (rfl | ⟨hne, before, after, rfl, hafter⟩)
    · exact ⟨history, [], rfl, List.not_mem_nil⟩
    · refine ⟨before, after ++ [last], by simp, ?_⟩
      simpa [hafter] using hne.symm

namespace Machine

/-- A machine with a history of each subject: what its steps note of them. -/
def recorded {ι : Type} (machine : Machine σ ε) (notes : σ → ε → σ → ι → List κ) :
    Machine (σ × (ι → List κ)) ε where
  step whole event := (machine.step whole.1 event).map fun next ↦
    (next, fun subject ↦ whole.2 subject ++ notes whole.1 event next subject)

end Machine

end SvrDemo.Protocol
