/-
# Nested blocks

A text opens and closes blocks. A closing mark closes the innermost block that is open,
whoever opened it; with none open it does nothing. Where a text first closes what it did
not open, all of its own blocks are closed (`exists_of_not_inside`).

Key definitions: `Mark`, `run`, `Inside`, `Nested`.
Key theorem: `exists_of_not_inside`.
-/
import Mathlib.Data.List.Basic

namespace SmartDns
namespace Lib
namespace Nesting

universe u

inductive Mark (α : Type u)
  | opens (a : α)
  | closes
  | neither

variable {α : Type u}

/-- The open blocks, the innermost first. -/
def step (stack : List α) : Mark α → List α
  | .opens a => a :: stack
  | .closes => stack.tail
  | .neither => stack

def run (stack : List α) (w : List (Mark α)) : List α := w.foldl step stack

@[simp] theorem run_nil (stack : List α) : run stack [] = stack := rfl

@[simp] theorem run_cons (stack : List α) (m : Mark α) (w : List (Mark α)) :
    run stack (m :: w) = run (step stack m) w := rfl

/-- The text closes its own blocks only; those of `own` are its own. -/
def Inside : List α → List (Mark α) → Prop
  | _, [] => True
  | own, m :: w => (m = .closes → own ≠ []) ∧ Inside (step own m) w

/-- And all of them. -/
def Nested (w : List (Mark α)) : Prop := Inside [] w ∧ run [] w = []

theorem inside_append {own : List α} {w w' : List (Mark α)} :
    Inside own (w ++ w') ↔ Inside own w ∧ Inside (run own w) w' := by
  induction w generalizing own with
  | nil => simp [Inside]
  | cons m w ih => rw [List.cons_append, Inside, Inside, ih, run_cons, and_assoc]

theorem step_append_base {own base : List α} {m : Mark α} (h : m = .closes → own ≠ []) :
    step (own ++ base) m = step own m ++ base := by
  cases m with
  | opens a => rfl
  | closes => exact List.tail_append_of_ne_nil (h rfl)
  | neither => rfl

/-- **The first mark that closes a block below.** -/
theorem exists_of_not_inside : ∀ {w : List (Mark α)} {own : List α}, ¬ Inside own w →
    ∃ front back, w = front ++ .closes :: back ∧ Inside own front ∧ run own front = []
  | [], _, h => absurd trivial h
  | m :: w, own, h => by
    by_cases hm : m = .closes ∧ own = []
    · obtain ⟨rfl, rfl⟩ := hm
      exact ⟨[], w, rfl, trivial, rfl⟩
    · have hm' : m = .closes → own ≠ [] := fun h1 h2 => hm ⟨h1, h2⟩
      have hw : ¬ Inside (step own m) w := fun hw => h ⟨hm', hw⟩
      obtain ⟨front, back, rfl, hin, hrun⟩ := exists_of_not_inside hw
      exact ⟨m :: front, back, rfl, ⟨hm', hin⟩, hrun⟩

end Nesting
end Lib
end SmartDns
