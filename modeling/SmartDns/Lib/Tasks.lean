/-
# Tasks that take turns

Any number of tasks run side by side, each in a phase of its own, and one of them moves
at a time: the list of the phases gets a new one at its place. What all tasks are they
stay if the one that moves does (`forall_mem_set`), and what some task is some task
still is if the one that moves stays so (`exists_mem_set`).

Key theorems: `forall_mem_set`, `exists_mem_set`.
-/
import Mathlib.Data.List.Basic

namespace SmartDns
namespace Lib

universe u

variable {A : Type u} {tasks : List A} {i : ℕ} {old new : A} {Q : A → Prop}

theorem forall_mem_set (h : ∀ a ∈ tasks, Q a) (hnew : Q new) : ∀ a ∈ tasks.set i new, Q a := by
  intro a ha
  obtain ha | rfl := List.mem_or_eq_of_mem_set ha
  · exact h a ha
  · exact hnew

theorem mem_set_self (hold : tasks[i]? = some old) : new ∈ tasks.set i new :=
  List.mem_set (List.getElem?_eq_some_iff.mp hold).1 new

/-- The task that is so is the one that moves, or is still there. -/
theorem exists_mem_set_or (hold : tasks[i]? = some old) (new : A) (h : ∃ a ∈ tasks, Q a) :
    Q old ∨ ∃ a ∈ tasks.set i new, Q a := by
  obtain ⟨a, ha, hQ⟩ := h
  obtain ⟨j, hj, hget⟩ := List.getElem_of_mem ha
  by_cases hij : i = j
  · subst hij
    rw [List.getElem?_eq_getElem hj, hget] at hold
    exact .inl (Option.some.inj hold ▸ hQ)
  · have hset : (tasks.set i new)[j]? = some a := by
      rw [List.getElem?_set_ne hij, List.getElem?_eq_getElem hj, hget]
    exact .inr ⟨a, List.mem_of_getElem? hset, hQ⟩

/-- What some task is, some task still is, if the one that moves stays so. -/
theorem exists_mem_set (hold : tasks[i]? = some old) (keep : Q old → Q new) (h : ∃ a ∈ tasks, Q a) :
    ∃ a ∈ tasks.set i new, Q a := by
  obtain hQ | h := exists_mem_set_or hold new h
  · exact ⟨new, mem_set_self hold, keep hQ⟩
  · exact h

theorem exists_mem_append (b : A) (h : ∃ a ∈ tasks, Q a) : ∃ a ∈ tasks ++ [b], Q a := by
  obtain ⟨a, ha, hQ⟩ := h
  exact ⟨a, List.mem_append_left _ ha, hQ⟩

theorem forall_mem_append {b : A} (h : ∀ a ∈ tasks, Q a) (hb : Q b) : ∀ a ∈ tasks ++ [b], Q a := by
  intro a ha
  obtain ha | ha := List.mem_append.mp ha
  · exact h a ha
  · exact List.mem_singleton.mp ha ▸ hb

end Lib
end SmartDns
