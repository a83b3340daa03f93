import Mathlib.Data.List.Perm.Basic
import Mathlib.Tactic.Common

/-!
# Rights of threads

A thread is the list of the operations that it still has to do. What a thread may do with a resource that it shares
with others is a right of the operation that does it: to be the only one who works on a thing, or to use a thing that
is counted. A step replaces the first operation of one thread by others, and hands rights on. So the rights of all
threads are those of that operation and a rest, before and after (`exists_frame`), and a step has to be looked at for
its own operation only.
-/

set_option autoImplicit false
set_option relaxedAutoImplicit false

namespace SvrDemo.Protocol

variable {ο ρ : Type} (rights : ο → List ρ)

/-- The rights of all threads. -/
def held (threads : List (List ο)) : List ρ := threads.flatten.flatMap rights

/-- The rights of all threads are those of the next operation of a thread and a rest, and they still are when other
operations take its place. -/
theorem exists_frame {threads : List (List ο)} {i : ℕ} {op : ο} {ops : List ο}
    (hthread : threads[i]? = some (op :: ops)) : ∃ rest, (held rights threads).Perm (rights op ++ rest) ∧
      ∀ new : List ο, (held rights (threads.set i (new ++ ops))).Perm (new.flatMap rights ++ rest) := by
  obtain ⟨hlt, hop⟩ := List.getElem?_eq_some_iff.mp hthread
  have hframe : ∀ new : List ο, (held rights (threads.set i (new ++ ops))).Perm (new.flatMap rights ++
      (((threads.take i).flatten ++ ops ++ (threads.drop (i + 1)).flatten).flatMap rights)) := by
    intro new
    rw [held, List.set_eq_take_append_cons_drop, if_pos hlt]
    simp only [List.flatten_append, List.flatten_cons, List.flatMap_append, List.append_assoc]
    exact (List.perm_append_comm_assoc _ _ _)
  refine ⟨_, ?_, hframe⟩
  have hself := hframe [op]
  rwa [List.singleton_append, ← hop, List.set_getElem_self, List.flatMap_singleton] at hself

end SvrDemo.Protocol
