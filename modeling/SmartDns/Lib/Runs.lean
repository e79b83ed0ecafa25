/-
# Runs of timed events

A machine takes events one after another, each at a moment. What every event keeps,
from a moment to any later one, holds after a whole run (`run_invariant`); the rule
takes a condition on the events (`Meets`), for machines that keep an invariant only
as long as their surroundings keep to something. What a state owes to the events
before it goes by `run_history`, and what it owes to those in a log of its own by `FollowedBy`.
What a condition and an invariant give for one step is a property of every step of a run
(`meets_of_meets`). Where the condition is the weakest that does, a property of all states reached
says no more and no less (`throughout_iff_meets`).

Key definitions: `run`, `InOrder`, `Meets`, `FollowedBy`, `Throughout`.
Key theorems: `run_invariant`, `run_history`, `throughout_iff_meets`.
-/
import Mathlib.Data.Int.Notation
import Mathlib.Data.List.Basic
import Mathlib.Data.List.Induction

namespace SmartDns
namespace Lib

universe u v

variable {S : Type u} {A : Type v} (step : S → ℤ → A → S)

def run (s : S) (es : List (ℤ × A)) : S := es.foldl (fun s e => step s e.1 e.2) s

@[simp] theorem run_nil (s : S) : run step s [] = s := rfl

@[simp] theorem run_cons (s : S) (e : ℤ × A) (es : List (ℤ × A)) :
    run step s (e :: es) = run step (step s e.1 e.2) es := rfl

theorem run_append (s : S) (es fs : List (ℤ × A)) : run step s (es ++ fs) = run step (run step s es) fs :=
  List.foldl_append

/-- The moments never go back, and none is before `t`. -/
def InOrder : ℤ → List (ℤ × A) → Prop
  | _, [] => True
  | t, e :: es => t ≤ e.1 ∧ InOrder e.1 es

/-- The moment of the last event, or `t`. -/
def endTime : ℤ → List (ℤ × A) → ℤ
  | t, [] => t
  | _, e :: es => endTime e.1 es

/-- Each event meets the condition in the state it comes to. -/
def Meets (ok : S → ℤ → A → Prop) : S → List (ℤ × A) → Prop
  | _, [] => True
  | s, e :: es => ok s e.1 e.2 ∧ Meets ok (step s e.1 e.2) es

/-- An invariant that does not speak of the time. -/
theorem run_invariant_of_mem {I : S → Prop} {P : A → Prop}
    (keeps : ∀ s t a, I s → P a → I (step s t a)) :
    ∀ (es : List (ℤ × A)) (s : S), I s → (∀ e ∈ es, P e.2) → I (run step s es)
  | [], _, h, _ => h
  | e :: es, s, h, hP =>
    run_invariant_of_mem keeps es (step s e.1 e.2) (keeps s e.1 e.2 h (hP e List.mem_cons_self))
      fun e' he' => hP e' (List.mem_cons_of_mem _ he')

/-- An invariant that does not speak of the time, under a condition on the steps. -/
theorem run_invariant_of_meets {ok : S → ℤ → A → Prop} {I : S → Prop}
    (keeps : ∀ s t a, I s → ok s t a → I (step s t a)) :
    ∀ (es : List (ℤ × A)) (s : S), I s → Meets step ok s es → I (run step s es)
  | [], _, h, _ => h
  | e :: es, s, h, hok => run_invariant_of_meets keeps es _ (keeps s e.1 e.2 h hok.1) hok.2

/-- Where every step that meets a condition keeps an invariant, what the invariant and the condition give
for a step holds of every step. -/
theorem meets_of_meets {ok ok' : S → ℤ → A → Prop} {I : ℤ → S → Prop}
    (keeps : ∀ s t t' a, t ≤ t' → I t s → ok s t' a → I t' (step s t' a))
    (gives : ∀ s t t' a, t ≤ t' → I t s → ok s t' a → ok' s t' a) :
    ∀ (es : List (ℤ × A)) (s : S) (t : ℤ), I t s → InOrder t es → Meets step ok s es → Meets step ok' s es
  | [], _, _, _, _, _ => trivial
  | e :: es, s, t, h, hord, hok =>
    ⟨gives s t e.1 e.2 hord.1 h hok.1,
      meets_of_meets keeps gives es _ e.1 (keeps s t e.1 e.2 hord.1 h hok.1) hord.2 hok.2⟩

theorem inOrder_append {t : ℤ} {e : ℤ × A} : ∀ {es : List (ℤ × A)},
    InOrder t (es ++ [e]) ↔ InOrder t es ∧ endTime t es ≤ e.1
  | [] => by simp [InOrder, endTime]
  | e' :: es => by
    rw [List.cons_append, InOrder, InOrder, inOrder_append, endTime, and_assoc]

@[simp] theorem endTime_append (e : ℤ × A) : ∀ (es : List (ℤ × A)) (t : ℤ), endTime t (es ++ [e]) = e.1
  | [], _ => rfl
  | e' :: es, _ => endTime_append e es e'.1

/-- **An invariant of the state and the events so far.** -/
theorem run_history {s₀ : S} {t₀ : ℤ} {P : ℤ × A → Prop} {I : List (ℤ × A) → S → Prop} (start : I [] s₀)
    (keeps : ∀ es e s, endTime t₀ es ≤ e.1 → P e → I es s → I (es ++ [e]) (step s e.1 e.2))
    (es : List (ℤ × A)) (hord : InOrder t₀ es) (hP : ∀ e ∈ es, P e) : I es (run step s₀ es) := by
  induction es using List.reverseRecOn with
  | nil => exact start
  | append_singleton es e ih =>
    obtain ⟨hord, hle⟩ := inOrder_append.mp hord
    have hes := ih hord fun e' he' => hP e' (List.mem_append_left _ he')
    rw [run_append]
    exact keeps es e _ hle (hP e (List.mem_append_right _ (List.mem_singleton_self e))) hes

/-- In a log whose last event is first, every event is owed something, or one after it stands to it so. -/
def FollowedBy {E : Type v} (R : E → E → Prop) (owed : E → Prop) (log : List E) : Prop :=
  ∀ later e earlier, log = later ++ e :: earlier → owed e ∨ ∃ e' ∈ later, R e e'

theorem FollowedBy.cons {E : Type v} {R : E → E → Prop} {owed owed' : E → Prop} {log : List E} {new : E}
    (h : FollowedBy R owed log) (keep : ∀ e ∈ log, owed e → owed' e ∨ R e new) (hnew : owed' new) :
    FollowedBy R owed' (new :: log) := by
  intro later e earlier hsplit
  rcases List.cons_eq_append_iff.mp hsplit with ⟨rfl, heq⟩ | ⟨later, rfl, heq⟩
  · obtain ⟨rfl, -⟩ := List.cons.inj heq
    exact .inl hnew
  · rcases h later e earlier heq with ho | ⟨e', he', hR⟩
    · rcases keep e (heq ▸ List.mem_append_right _ List.mem_cons_self) ho with ho | hR
      · exact .inl ho
      · exact .inr ⟨new, List.mem_cons_self, hR⟩
    · exact .inr ⟨e', List.mem_cons_of_mem _ he', hR⟩

theorem FollowedBy.mono {E : Type v} {R : E → E → Prop} {owed owed' : E → Prop} {log : List E}
    (h : FollowedBy R owed log) (keep : ∀ e ∈ log, owed e → owed' e) : FollowedBy R owed' log := by
  intro later e earlier hsplit
  rcases h later e earlier hsplit with ho | hR
  · exact .inl (keep e (hsplit ▸ List.mem_append_right _ List.mem_cons_self) ho)
  · exact .inr hR

/-- The property holds in every state reached. -/
def Throughout (Q : S → Prop) : S → List (ℤ × A) → Prop
  | s, [] => Q s
  | s, e :: es => Q s ∧ Throughout Q (step s e.1 e.2) es

/-- Steps that meet the condition keep an invariant, so it holds in every state reached. -/
theorem throughout_of_meets {Q I : S → Prop} {ok : S → ℤ → A → Prop} (sound : ∀ s, I s → Q s)
    (keeps : ∀ s t a, I s → ok s t a → I (step s t a)) :
    ∀ (es : List (ℤ × A)) (s : S), I s → Meets step ok s es → Throughout step Q s es
  | [], s, h, _ => sound s h
  | e :: es, s, h, hok =>
    ⟨sound s h, throughout_of_meets sound keeps es _ (keeps s e.1 e.2 h hok.1) hok.2⟩

/-- What every step keeps holds in every state reached. -/
theorem throughout_of_keeps {Q I : S → Prop} (sound : ∀ s, I s → Q s) (keeps : ∀ s t a, I s → I (step s t a)) :
    ∀ (es : List (ℤ × A)) (s : S), I s → Throughout step Q s es
  | [], s, h => sound s h
  | e :: es, s, h => ⟨sound s h, throughout_of_keeps sound keeps es _ (keeps s e.1 e.2 h)⟩

/-- **The exact condition for a property of all states reached**: steps that meet it keep an
invariant that gives the property, and from a state with the invariant no other step keeps the
property. -/
theorem throughout_iff_meets {Q I : S → Prop} {ok : S → ℤ → A → Prop} (sound : ∀ s, I s → Q s)
    (keeps : ∀ s t a, I s → ok s t a → I (step s t a))
    (needed : ∀ s t a, I s → Q (step s t a) → ok s t a) :
    ∀ (es : List (ℤ × A)) (s : S), I s → (Throughout step Q s es ↔ Meets step ok s es)
  | [], s, h => ⟨fun _ => trivial, fun _ => sound s h⟩
  | e :: es, s, h => by
    have first : ∀ {s : S}, Throughout step Q s es → Q s := by
      cases es with
      | nil => exact fun h => h
      | cons e' es => exact fun h => h.1
    refine ⟨fun ⟨_, hes⟩ => ?_, throughout_of_meets step sound keeps (e :: es) s h⟩
    have hok := needed s e.1 e.2 h (first hes)
    exact ⟨hok, (throughout_iff_meets sound keeps needed es _ (keeps s e.1 e.2 h hok)).mp hes⟩

/-- What a step keeps that may also refuse its event holds wherever a run comes to. -/
theorem foldlM_invariant {step : S → A → Option S} {I : S → Prop}
    (keeps : ∀ s a s', I s → step s a = some s' → I s') :
    ∀ (as : List A) (s : S) {s' : S}, I s → as.foldlM step s = some s' → I s'
  | [], s, s', h, hrun => Option.some.inj hrun ▸ h
  | a :: as, s, s', h, hrun => by
    rw [List.foldlM_cons] at hrun
    obtain ⟨next, hstep, hrun⟩ := Option.bind_eq_some_iff.mp hrun
    exact foldlM_invariant keeps as next (keeps s a next h hstep) hrun

end Lib
end SmartDns
