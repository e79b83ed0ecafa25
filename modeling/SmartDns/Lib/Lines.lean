/-
# Lines with their ends

A text is cut behind every occurrence of a separator, so that the pieces keep their
ends and join to the text again (`flatten_splitLines`). A piece is a line: it is not
empty and has the separator at its end or nowhere.

An editor that works line by line joins pieces it kept, dropped or replaced. What the
result is cut into follows from the pieces alone as long as each but the last one ends
with the separator (`Separate`, `splitLines_flatten`), which dropping pieces keeps, and
replacing them by pieces that end alike.

Key definitions: `splitLines`, `IsLine`, `Terminated`, `Separate`, `closed`.
Key theorems: `splitLines_append`, `splitLines_flatten`, `map_splitLines_closed`.
-/
import Mathlib.Data.List.Basic

namespace SmartDns
namespace Lib

universe u

variable {A : Type u} (nl : A)

/-- A piece that has the separator at its end or nowhere. -/
def IsLine (line : List A) : Prop := line ≠ [] ∧ nl ∉ line.dropLast

/-- Nothing, or a text that ends with the separator. -/
def Terminated (t : List A) : Prop := ∀ a ∈ t.getLast?, a = nl

/-- Each piece but the last one ends with the separator. -/
def Separate : List (List A) → Prop
  | [] => True
  | x :: xs => (xs ≠ [] → Terminated nl x) ∧ Separate xs

theorem terminated_cons_iff {a : A} {as : List A} (h : as ≠ []) : Terminated nl (a :: as) ↔ Terminated nl as := by
  rw [Terminated, Terminated, List.getLast?_cons_of_ne_nil h]

theorem terminated_append {t u : List A} (h : Terminated nl u) (hu : u ≠ []) : Terminated nl (t ++ u) := by
  rw [Terminated, List.getLast?_append_of_ne_nil _ hu]
  exact h

theorem Separate.filter {p : List A → Bool} : ∀ {xs : List (List A)}, Separate nl xs → Separate nl (xs.filter p)
  | [], _ => trivial
  | x :: xs, h => by
    rw [List.filter_cons]
    split_ifs
    · refine ⟨fun hne => h.1 ?_, h.2.filter⟩
      rintro rfl
      exact hne rfl
    · exact h.2.filter

theorem Separate.map {f : List A → List A} : ∀ {xs : List (List A)}, (∀ x ∈ xs, Terminated nl x → Terminated nl (f x)) →
    Separate nl xs → Separate nl (xs.map f)
  | [], _, _ => trivial
  | x :: xs, hf, h => by
    refine ⟨fun hne => hf x (by simp) (h.1 ?_), h.2.map fun y hy => hf y (by simp [hy])⟩
    rintro rfl
    exact hne rfl

/-! ### Cutting -/

variable [DecidableEq A]

def splitLines : List A → List (List A)
  | [] => []
  | a :: as =>
    if a = nl then [a] :: splitLines as
    else
      match splitLines as with
      | [] => [[a]]
      | line :: lines => (a :: line) :: lines

instance (t : List A) : Decidable (Terminated nl t) :=
  match h : t.getLast? with
  | none => .isTrue (by simp [Terminated, h])
  | some a => decidable_of_iff (a = nl) (by simp [Terminated, h])

/-- The text with a separator behind it, unless it is terminated. -/
def closed (t : List A) : List A := if Terminated nl t then t else t ++ [nl]

theorem splitLines_nl (as : List A) : splitLines nl (nl :: as) = [nl] :: splitLines nl as := by
  simp [splitLines]

theorem splitLines_eq_nil_iff (t : List A) : splitLines nl t = [] ↔ t = [] := by
  cases t with
  | nil => simp [splitLines]
  | cons a as =>
    unfold splitLines
    split_ifs
    · simp
    · cases splitLines nl as <;> simp

theorem flatten_splitLines : ∀ t : List A, (splitLines nl t).flatten = t
  | [] => rfl
  | a :: as => by
    have ih := flatten_splitLines as
    unfold splitLines
    split_ifs with h
    · rw [List.flatten_cons, ih, List.singleton_append]
    · cases hs : splitLines nl as with
      | nil =>
        have : as = [] := (splitLines_eq_nil_iff nl as).mp hs
        simp [this]
      | cons line lines =>
        rw [hs, List.flatten_cons] at ih
        simp [ih]

theorem isLine_of_mem_splitLines : ∀ {t line : List A}, line ∈ splitLines nl t → IsLine nl line
  | a :: as, line, hmem => by
    have ih {l : List A} (hl : l ∈ splitLines nl as) : IsLine nl l := isLine_of_mem_splitLines hl
    unfold splitLines at hmem
    split_ifs at hmem with h
    · rcases List.mem_cons.mp hmem with rfl | hmem
      · simp [IsLine]
      · exact ih hmem
    · cases hs : splitLines nl as with
      | nil =>
        simp only [hs, List.mem_singleton] at hmem
        simp [IsLine, hmem]
      | cons l ls =>
        simp only [hs, List.mem_cons] at hmem
        rcases hmem with rfl | hmem
        · obtain ⟨hne, hnot⟩ := ih (l := l) (by simp [hs])
          refine ⟨by simp, ?_⟩
          rw [List.dropLast_cons_of_ne_nil hne, List.mem_cons, not_or]
          exact ⟨Ne.symm h, hnot⟩
        · exact ih (by simp [hs, hmem])

theorem splitLines_append : ∀ {t : List A}, Terminated nl t → ∀ u,
    splitLines nl (t ++ u) = splitLines nl t ++ splitLines nl u
  | [], _, _ => rfl
  | a :: as, h, u => by
    by_cases ha : a = nl
    · have has : Terminated nl as := by
        by_cases hne : as = []
        · simp [hne, Terminated]
        · exact (terminated_cons_iff nl hne).mp h
      rw [ha, List.cons_append, splitLines_nl, splitLines_nl, splitLines_append has u, List.cons_append]
    · have hne : as ≠ [] := by
        rintro rfl
        exact ha (h a (by simp))
      have ih := splitLines_append ((terminated_cons_iff nl hne).mp h) u
      cases hs : splitLines nl as with
      | nil => exact absurd ((splitLines_eq_nil_iff nl as).mp hs) hne
      | cons l ls =>
        rw [hs, List.cons_append] at ih
        simp only [List.cons_append, splitLines, ha, ↓reduceIte, ih, hs]

theorem splitLines_of_isLine : ∀ {line : List A}, IsLine nl line → splitLines nl line = [line]
  | [], h => absurd rfl h.1
  | [a], _ => by by_cases ha : a = nl <;> simp [splitLines, ha]
  | a :: b :: as, h => by
    have hb : IsLine nl (b :: as) := ⟨by simp, fun hm => h.2 (by simp [hm])⟩
    have ha : a ≠ nl := fun e => h.2 (by simp [e])
    rw [splitLines, if_neg ha, splitLines_of_isLine hb]

theorem splitLines_eq_singleton_iff {line : List A} : splitLines nl line = [line] ↔ IsLine nl line := by
  constructor
  · intro h
    exact isLine_of_mem_splitLines nl (t := line) (by simp [h])
  · exact splitLines_of_isLine nl

/-! ### Joining -/

theorem splitLines_flatten : ∀ {xs : List (List A)}, Separate nl xs →
    splitLines nl xs.flatten = xs.flatMap (splitLines nl)
  | [], _ => rfl
  | x :: xs, h => by
    rw [List.flatten_cons, List.flatMap_cons]
    by_cases hxs : xs = []
    · simp [hxs]
    · rw [splitLines_append nl (h.1 hxs), splitLines_flatten h.2]

theorem flatMap_splitLines {xs : List (List A)} (h : ∀ x ∈ xs, IsLine nl x) : xs.flatMap (splitLines nl) = xs := by
  induction xs with
  | nil => rfl
  | cons x xs ih =>
    rw [List.flatMap_cons, splitLines_of_isLine nl (h x (by simp)), ih fun y hy => h y (by simp [hy])]
    rfl

theorem length_splitLines_pos {t : List A} (h : t ≠ []) : 0 < (splitLines nl t).length :=
  List.length_pos_iff.mpr fun e => h ((splitLines_eq_nil_iff nl t).mp e)

theorem length_le_length_flatMap {xs : List (List A)} (h : ∀ x ∈ xs, x ≠ []) :
    xs.length ≤ (xs.flatMap (splitLines nl)).length := by
  induction xs with
  | nil => simp
  | cons x xs ih =>
    have hx := length_splitLines_pos nl (h x (by simp))
    have hxs := ih fun y hy => h y (by simp [hy])
    rw [List.flatMap_cons, List.length_append, List.length_cons]
    omega

/-- Pieces that fall into no more lines than they are, are lines. -/
theorem isLine_of_length_flatMap : ∀ {xs : List (List A)}, (∀ x ∈ xs, x ≠ []) →
    (xs.flatMap (splitLines nl)).length ≤ xs.length → ∀ x ∈ xs, IsLine nl x
  | [], _, _, _, hx => absurd hx (by simp)
  | x :: xs, hne, hlen, y, hy => by
    have rest := length_le_length_flatMap nl fun z hz => hne z (List.mem_cons_of_mem _ hz)
    rw [List.flatMap_cons, List.length_append, List.length_cons] at hlen
    have hx := length_splitLines_pos nl (hne x (by simp))
    rcases List.mem_cons.mp hy with rfl | hy
    · obtain ⟨l, hl⟩ := List.length_eq_one_iff.mp (show (splitLines nl y).length = 1 by omega)
      have : l = y := by simpa [hl] using flatten_splitLines nl y
      exact (splitLines_eq_singleton_iff nl).mp (by rw [hl, this])
    · exact isLine_of_length_flatMap (fun z hz => hne z (by simp [hz])) (by omega) y hy

theorem separate_splitLines : ∀ t : List A, Separate nl (splitLines nl t)
  | [] => trivial
  | a :: as => by
    have ih := separate_splitLines as
    unfold splitLines
    split_ifs with h
    · exact ⟨fun _ => by simp [Terminated, h], ih⟩
    · cases hs : splitLines nl as with
      | nil => exact ⟨fun h => absurd rfl h, trivial⟩
      | cons l ls =>
        rw [hs] at ih
        have hne : l ≠ [] := (isLine_of_mem_splitLines nl (t := as) (by simp [hs])).1
        exact ⟨fun h => (terminated_cons_iff nl hne).mpr (ih.1 h), ih.2⟩

/-- Dropping lines and cutting again gives the lines that are left. -/
theorem splitLines_filter (p : List A → Bool) (t : List A) :
    splitLines nl ((splitLines nl t).filter p).flatten = (splitLines nl t).filter p := by
  rw [splitLines_flatten nl (separate_splitLines nl t).filter]
  apply flatMap_splitLines
  intro x hx
  exact isLine_of_mem_splitLines nl (List.mem_of_mem_filter hx)

/-! ### Closing the last line -/

theorem terminated_closed (t : List A) : Terminated nl (closed nl t) := by
  unfold closed
  split_ifs with h
  · exact h
  · exact terminated_append nl (by simp [Terminated]) (by simp)

theorem exists_splitLines_of_not_terminated : ∀ {t : List A}, ¬ Terminated nl t → ∃ init line,
    splitLines nl t = init ++ [line] ∧ line ≠ [] ∧ nl ∉ line ∧ splitLines nl (t ++ [nl]) = init ++ [line ++ [nl]]
  | [], h => absurd (by simp [Terminated]) h
  | a :: as, h => by
    by_cases hne : as = []
    · have ha : a ≠ nl := by
        rintro rfl
        exact h (by simp [Terminated, hne])
      exact ⟨[], [a], by simp [splitLines, hne, ha], by simp, by simp [Ne.symm ha], by simp [splitLines, hne, ha]⟩
    · rw [terminated_cons_iff nl hne] at h
      obtain ⟨init, line, hs, hline, hnot, hs'⟩ := exists_splitLines_of_not_terminated h
      by_cases ha : a = nl
      · exact ⟨[a] :: init, line, by simp [splitLines, ha, hs], hline, hnot, by simp [splitLines, ha, hs']⟩
      · cases init with
        | nil =>
          refine ⟨[], a :: line, by simp [splitLines, ha, hs], by simp, ?_, by simp [splitLines, ha, hs']⟩
          simp [Ne.symm ha, hnot]
        | cons x xs =>
          exact ⟨(a :: x) :: xs, line, by simp [splitLines, ha, hs], hline, hnot, by simp [splitLines, ha, hs']⟩

/-- A view of lines that does not see a separator put behind a line sees the closed text as the
text. -/
theorem map_splitLines_closed {B : Type*} {p : List A → B}
    (hp : ∀ line, line ≠ [] → nl ∉ line → p (line ++ [nl]) = p line) (t : List A) :
    (splitLines nl (closed nl t)).map p = (splitLines nl t).map p := by
  unfold closed
  split_ifs with h
  · rfl
  · obtain ⟨init, line, hs, hne, hnot, hs'⟩ := exists_splitLines_of_not_terminated nl h
    simp [hs, hs', hp line hne hnot]

end Lib
end SmartDns
