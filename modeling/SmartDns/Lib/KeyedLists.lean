/-
# Lists under keys

A map from keys to lists that is made by adding, one after another, a piece to the list under
a key. A key is there once a piece was added under it, be it empty. What one piece in the
middle amounts to can be seen in the result: two pieces in one place come to the same only
if they are equal, or if they are empty and the key is there anyway (`extendAll_middle_iff`).

Key definitions: `extend`, `extendAll`.
Key theorems: `extendAll_apply`, `extendAll_middle_iff`.
-/
import Mathlib.Data.List.Induction
import Mathlib.Logic.Function.Basic

namespace SmartDns
namespace Lib

universe u v

variable {K : Type u} {α : Type v} [DecidableEq K]

/-- The piece goes behind what is there under its key. -/
def extend (m : K → Option (List α)) (e : K × List α) : K → Option (List α) :=
  Function.update m e.1 (some ((m e.1).getD [] ++ e.2))

def extendAll (m : K → Option (List α)) (es : List (K × List α)) : K → Option (List α) := es.foldl extend m

@[simp] theorem extendAll_nil (m : K → Option (List α)) : extendAll m [] = m := rfl

theorem extendAll_append (m : K → Option (List α)) (es es' : List (K × List α)) :
    extendAll m (es ++ es') = extendAll (extendAll m es) es' := List.foldl_append

/-- The pieces under a key, one behind another. -/
def under (k : K) (es : List (K × List α)) : List α := (es.filter (·.1 = k)).flatMap (·.2)

@[simp] theorem under_append (k : K) (es es' : List (K × List α)) :
    under k (es ++ es') = under k es ++ under k es' := by
  unfold under
  rw [List.filter_append, List.flatMap_append]

@[simp] theorem under_singleton (k : K) (piece : List α) : under k [(k, piece)] = piece := by simp [under]

theorem under_cons_of_ne {k : K} {e : K × List α} (h : e.1 ≠ k) (es : List (K × List α)) :
    under k (e :: es) = under k es := by simp [under, h]

theorem under_eq_nil {k : K} {es : List (K × List α)} (h : ∀ e ∈ es, e.2 = []) : under k es = [] :=
  List.flatMap_eq_nil_iff.mpr fun e he => h e (List.mem_filter.mp he).1

/-- **The list under a key is the pieces under it, if there is any.** -/
theorem extendAll_apply (es : List (K × List α)) (k : K) :
    extendAll (fun _ => none) es k = if k ∈ es.map (·.1) then some (under k es) else none := by
  induction es using List.reverseRecOn with
  | nil => rfl
  | append_singleton es e ih =>
    rw [extendAll_append, under_append, List.map_append]
    show extend (extendAll (fun _ => none) es) e k = _
    unfold extend
    by_cases hk : k = e.1
    · subst hk
      have hlast : e.1 ∈ es.map (·.1) ++ [e].map (·.1) := by simp
      rw [Function.update_self, ih, if_pos hlast, under_singleton]
      by_cases hmem : e.1 ∈ es.map (·.1)
      · rw [if_pos hmem, Option.getD_some]
      · have hnone : under e.1 es = [] := by
          unfold under
          rw [List.filter_eq_nil_iff.mpr fun e' he' heq =>
            hmem (List.mem_map.mpr ⟨e', he', of_decide_eq_true heq⟩)]
          rfl
        rw [if_neg hmem, hnone, Option.getD_none]
    · have hiff : k ∈ es.map (·.1) ++ [e].map (·.1) ↔ k ∈ es.map (·.1) := by simp [hk]
      rw [Function.update_of_ne hk, ih, under_cons_of_ne (Ne.symm hk)]
      simp only [hiff]
      show _ = if _ then some (under k es ++ []) else none
      rw [List.append_nil]

section

variable (es es' : List (K × List α))

/-- Empty pieces under keys that are there anyway do nothing. -/
theorem extendAll_middle_of_empty {mid : List (K × List α)}
    (h : ∀ e ∈ mid, e.2 = [] ∧ e.1 ∈ (es ++ es').map (·.1)) :
    extendAll (fun _ => none) (es ++ (mid ++ es')) = extendAll (fun _ => none) (es ++ es') := by
  funext k
  have hunder : under k (es ++ (mid ++ es')) = under k (es ++ es') := by
    rw [under_append, under_append, under_append, under_eq_nil fun e he => (h e he).1, List.nil_append]
  have hkeys : k ∈ (es ++ (mid ++ es')).map (·.1) ↔ k ∈ (es ++ es').map (·.1) := by
    constructor
    · intro hk
      obtain ⟨e, he, rfl⟩ := List.mem_map.mp hk
      rcases List.mem_append.mp he with he | he
      · exact List.mem_map_of_mem (List.mem_append_left _ he)
      · rcases List.mem_append.mp he with he | he
        · exact (h e he).2
        · exact List.mem_map_of_mem (List.mem_append_right _ he)
    · intro hk
      obtain ⟨e, he, rfl⟩ := List.mem_map.mp hk
      apply List.mem_map_of_mem
      rcases List.mem_append.mp he with he | he
      · exact List.mem_append_left _ he
      · exact List.mem_append_right _ (List.mem_append_right _ he)
  rw [extendAll_apply, extendAll_apply, hunder]
  simp only [hkeys]

/-- If a piece in the middle comes to the same as none, it is empty and its key is there anyway. -/
theorem empty_of_extendAll_middle {k : K} {piece : List α}
    (h : extendAll (fun _ => none) (es ++ ([(k, piece)] ++ es')) k = extendAll (fun _ => none) (es ++ es') k) :
    piece = [] ∧ k ∈ (es ++ es').map (·.1) := by
  have hthere : k ∈ (es ++ ([(k, piece)] ++ es')).map (·.1) := by simp
  rw [extendAll_apply, extendAll_apply, if_pos hthere] at h
  by_cases hmem : k ∈ (es ++ es').map (·.1)
  · rw [if_pos hmem] at h
    refine ⟨?_, hmem⟩
    have hlists := Option.some.inj h
    rw [under_append, under_append, under_append, under_singleton] at hlists
    exact List.append_left_eq_self.mp (List.append_cancel_left hlists)
  · rw [if_neg hmem] at h
    cases h

/-- **Two pieces in one place, either of which may be missing, come to the same exactly if they are
equal, or are empty under a key that is there anyway.** -/
theorem extendAll_middle_iff (k : K) (piece piece' : Option (List α)) :
    extendAll (fun _ => none) (es ++ ((piece.map fun p => (k, p)).toList ++ es')) =
        extendAll (fun _ => none) (es ++ ((piece'.map fun p => (k, p)).toList ++ es')) ↔
      piece = piece' ∨
        ∀ e ∈ (piece.map fun p => (k, p)).toList ++ (piece'.map fun p => (k, p)).toList,
          e.2 = [] ∧ e.1 ∈ (es ++ es').map (·.1) := by
  constructor
  · intro h
    have hk := congrFun h k
    cases piece with
    | none =>
      cases piece' with
      | none => exact .inl rfl
      | some p' =>
        right
        intro e he
        obtain rfl := List.mem_singleton.mp he
        exact empty_of_extendAll_middle es es' hk.symm
    | some p =>
      cases piece' with
      | none =>
        right
        intro e he
        obtain rfl := List.mem_singleton.mp he
        exact empty_of_extendAll_middle es es' hk
      | some p' =>
        left
        have hthere (p : List α) : k ∈ (es ++ ([(k, p)] ++ es')).map (·.1) := by simp
        have hsome : some (under k (es ++ ([(k, p)] ++ es'))) = some (under k (es ++ ([(k, p')] ++ es'))) := by
          rw [Option.map_some, Option.toList_some, Option.map_some, Option.toList_some, extendAll_apply,
            extendAll_apply, if_pos (hthere p), if_pos (hthere p')] at hk
          exact hk
        have hlists := Option.some.inj hsome
        rw [under_append, under_append, under_append, under_append, under_singleton, under_singleton] at hlists
        rw [List.append_cancel_right (List.append_cancel_left hlists)]
  · rintro (rfl | hempty)
    · rfl
    · rw [extendAll_middle_of_empty es es' fun e he => hempty e (List.mem_append_left _ he),
        extendAll_middle_of_empty es es' fun e he => hempty e (List.mem_append_right _ he)]

end

end Lib
end SmartDns
