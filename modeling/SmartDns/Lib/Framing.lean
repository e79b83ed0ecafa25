/-
# Frames on a stream

Messages go over a stream as frames, one behind the other. Where no frame begins another one, a stream says
which messages were put on it: whoever takes whole frames off any beginning of the stream has the first of the
messages (`PrefixFree.isPrefix_of_framed`), and a stream is cut in one way only (`PrefixFree.framed_inj`).

Key definitions: `framed`, `PrefixFree`, `Partial`.
Key theorems: `PrefixFree.isPrefix_of_framed`, `PrefixFree.framed_inj`.
-/
import Mathlib.Data.List.Basic

namespace SmartDns
namespace Lib

universe u v

variable {M : Type u} {A : Type v} (frame : M → List A)

/-- The frames of the messages, one behind the other. -/
def framed (ms : List M) : List A := ms.flatMap frame

@[simp] theorem framed_nil : framed frame [] = [] := rfl

@[simp] theorem framed_cons (m : M) (ms : List M) : framed frame (m :: ms) = frame m ++ framed frame ms := rfl

@[simp] theorem framed_append (ms ms' : List M) : framed frame (ms ++ ms') = framed frame ms ++ framed frame ms' :=
  List.flatMap_append

theorem framed_singleton (m : M) : framed frame [m] = frame m := by simp

/-- No frame is empty, and none begins another one. -/
structure PrefixFree : Prop where
  nonempty : ∀ m, frame m ≠ []
  eq_of_append : ∀ m m' s s', frame m ++ s = frame m' ++ s' → m = m'

/-- No frame stands whole in front. -/
def Partial (p : List A) : Prop := ∀ m s, p ≠ frame m ++ s

variable {frame}

/-- **Whole frames off the beginning of a stream are those of its first messages.** -/
theorem PrefixFree.isPrefix_of_framed (h : PrefixFree frame) {p : List A} :
    ∀ {ms sent : List M}, framed frame ms ++ p <+: framed frame sent → ms <+: sent
  | [], sent, _ => List.nil_prefix
  | m :: ms, [], hle => by
    have hnil : framed frame (m :: ms) ++ p = [] := List.prefix_nil.mp hle
    rw [framed_cons, List.append_assoc] at hnil
    exact absurd (List.append_eq_nil_iff.mp hnil).1 (h.nonempty m)
  | m :: ms, m' :: sent, hle => by
    obtain ⟨s, hs⟩ := hle
    simp only [framed_cons, List.append_assoc] at hs
    obtain rfl := h.eq_of_append m m' _ _ hs
    have hrest := List.append_cancel_left hs
    rw [← List.append_assoc] at hrest
    exact List.cons_prefix_cons.mpr ⟨rfl, h.isPrefix_of_framed ⟨s, hrest⟩⟩

/-- **A stream is cut into frames in one way.** -/
theorem PrefixFree.framed_inj (h : PrefixFree frame) {p p' : List A} (hp : Partial frame p) (hp' : Partial frame p') :
    ∀ {ms ms' : List M}, framed frame ms ++ p = framed frame ms' ++ p' → ms = ms' ∧ p = p'
  | [], [], heq => ⟨rfl, heq⟩
  | [], m' :: ms', heq => by
    rw [framed_nil, List.nil_append, framed_cons, List.append_assoc] at heq
    exact absurd heq (hp m' _)
  | m :: ms, [], heq => by
    rw [framed_nil, List.nil_append, framed_cons, List.append_assoc] at heq
    exact absurd heq.symm (hp' m _)
  | m :: ms, m' :: ms', heq => by
    simp only [framed_cons, List.append_assoc] at heq
    obtain rfl := h.eq_of_append m m' _ _ heq
    obtain ⟨rfl, rfl⟩ := h.framed_inj hp hp' (List.append_cancel_left heq)
    exact ⟨rfl, rfl⟩

end Lib
end SmartDns
