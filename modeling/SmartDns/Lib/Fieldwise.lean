/-
# Changes field by field

A state whose fields have types of their own, and changes that make the new value of each
field out of its old one. A `Write` changes one field; a list of them, one after another,
changes the fields it names (`onFields`). Changes that touch different fields commute, field by
field also where one of the fields is left out.

Key definitions: `Write`, `mapFields`, `onFields`.
Key theorems: `onFields_of_notMem`, `onFields_comm`, `mapFields_update`.
-/
import Mathlib.Logic.Function.Basic

namespace SmartDns
namespace Lib

universe u v

/-- A change of one field. -/
structure Write {F : Type u} (V : F → Type v) where
  field : F
  change : V field → V field

variable {F : Type u} {V : F → Type v}

def mapFields (Φ : ∀ f, V f → V f) (s : ∀ f, V f) : ∀ f, V f := fun f => Φ f (s f)

variable [DecidableEq F]

/-- The rest of the fields does not notice another value of one. -/
theorem mapFields_update (Φ : ∀ f, V f → V f) (s : ∀ f, V f) (f : F) (v : V f) :
    mapFields Φ (Function.update s f v) = Function.update (mapFields Φ s) f (Φ f v) := by
  funext g
  by_cases h : g = f
  · subst h
    rw [mapFields, Function.update_self, Function.update_self]
  · rw [mapFields, Function.update_of_ne h, Function.update_of_ne h]
    rfl

def Write.onFields (w : Write V) : ∀ f, V f → V f := Function.update (fun _ => id) w.field w.change

theorem Write.onFields_of_ne {w : Write V} {f : F} (h : f ≠ w.field) : w.onFields f = id := Function.update_of_ne h ..

/-- What a list of writes makes of each field, one write after another. -/
def onFields : List (Write V) → ∀ f, V f → V f
  | [] => fun _ => id
  | w :: ws => fun f => onFields ws f ∘ w.onFields f

/-- A field that is not written stays. -/
theorem onFields_of_notMem {f : F} : ∀ {ws : List (Write V)}, f ∉ ws.map (·.field) → onFields ws f = id
  | [], _ => rfl
  | w :: ws, h => by
    rw [List.map_cons, List.mem_cons, not_or] at h
    show onFields ws f ∘ w.onFields f = id
    rw [onFields_of_notMem h.2, Write.onFields_of_ne h.1, Function.comp_id]

/-- **Lists of writes that name different fields commute.** -/
theorem onFields_comm {ws ws' : List (Write V)} {f : F} (h : f ∉ ws.map (·.field) ∨ f ∉ ws'.map (·.field)) (v : V f) :
    onFields ws' f (onFields ws f v) = onFields ws f (onFields ws' f v) := by
  rcases h with h | h
  · rw [onFields_of_notMem h]
    rfl
  · rw [onFields_of_notMem h]
    rfl

end Lib
end SmartDns
