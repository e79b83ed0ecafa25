/-
# Joined texts

A text that joins parts with a separator can be taken apart where the parts on one
side do not contain it: at the first separator (`append_sep_inj`) or at the last
(`append_sep_inj_last`). Two joined texts are one where their parts are, or where a
part goes on behind a separator (`append_sep_eq_iff`). The digits of a number tell it,
and are none of the usual separators.

Key theorems: `append_sep_inj`, `append_sep_inj_last`, `append_sep_eq_iff`, `toDigits_injective`.
-/
import Mathlib.Data.List.Basic

namespace SmartDns
namespace Lib

universe u

variable {α : Type u}

/-- The first separator. -/
theorem append_sep_inj {sep : α} : ∀ {a a' : List α} {b b' : List α}, sep ∉ a → sep ∉ a' →
    a ++ sep :: b = a' ++ sep :: b' → a = a' ∧ b = b'
  | [], [], b, b', _, _, h => ⟨rfl, by simpa using h⟩
  | [], y :: a', b, b', _, ha', h => by
    have h := (List.cons.inj h).1
    exact absurd (h ▸ List.mem_cons_self) ha'
  | x :: a, [], b, b', ha, _, h => by
    have h := (List.cons.inj h).1
    exact absurd (h ▸ List.mem_cons_self) ha
  | x :: a, y :: a', b, b', ha, ha', h => by
    obtain ⟨hxy, htail⟩ := List.cons.inj h
    obtain ⟨haa, hbb⟩ := append_sep_inj (fun hx => ha (List.mem_cons_of_mem _ hx))
      (fun hx => ha' (List.mem_cons_of_mem _ hx)) htail
    exact ⟨by rw [hxy, haa], hbb⟩

/-- The last separator. -/
theorem append_sep_inj_last {sep : α} {a a' b b' : List α} (hb : sep ∉ b) (hb' : sep ∉ b')
    (h : a ++ sep :: b = a' ++ sep :: b') : a = a' ∧ b = b' := by
  have hrev := congrArg List.reverse h
  simp only [List.reverse_append, List.reverse_cons, List.append_assoc, List.singleton_append] at hrev
  obtain ⟨h1, h2⟩ := append_sep_inj (by simpa using hb) (by simpa using hb') hrev
  exact ⟨List.reverse_injective h2, List.reverse_injective h1⟩

/-- The parts are one, or one first part goes on behind a separator. -/
theorem append_sep_eq_iff {sep : α} {a a' b b' : List α} : a ++ sep :: b = a' ++ sep :: b' ↔
    a = a' ∧ b = b' ∨ (∃ x, a' = a ++ sep :: x ∧ b = x ++ sep :: b') ∨
      ∃ x, a = a' ++ sep :: x ∧ b' = x ++ sep :: b := by
  constructor
  · intro h
    rcases List.append_eq_append_iff.mp h with ⟨t, ha, hb⟩ | ⟨t, ha, hb⟩
    · cases t with
      | nil => exact .inl ⟨by rw [ha, List.append_nil], (List.cons.inj hb).2⟩
      | cons c x =>
        obtain ⟨rfl, htail⟩ := List.cons.inj hb
        exact .inr (.inl ⟨x, ha, htail⟩)
    · cases t with
      | nil => exact .inl ⟨by rw [ha, List.append_nil], (List.cons.inj hb).2.symm⟩
      | cons c x =>
        obtain ⟨rfl, htail⟩ := List.cons.inj hb
        exact .inr (.inr ⟨x, ha, htail⟩)
  · rintro (⟨rfl, rfl⟩ | ⟨x, rfl, rfl⟩ | ⟨x, rfl, rfl⟩)
    · rfl
    · simp only [List.append_assoc, List.cons_append]
    · simp only [List.append_assoc, List.cons_append]

/-- Nothing is itself with more behind it. -/
theorem ne_append_sep {sep : α} (a x : List α) : a ≠ a ++ sep :: x := fun h => by
  have := congrArg List.length h
  simp at this

/-- The digits below the base, and the rest of the number. -/
theorem toDigits_cases {b : ℕ} (hb : 1 < b) (n : ℕ) :
    Nat.toDigits b n = [n.digitChar] ∧ n < b ∨
      Nat.toDigits b n = Nat.toDigits b (n / b) ++ [(n % b).digitChar] ∧ b ≤ n := by
  rw [Nat.toDigits_eq_if hb]
  by_cases h : n < b
  · rw [if_pos h]
    exact .inl ⟨rfl, h⟩
  · rw [if_neg h]
    exact .inr ⟨rfl, Nat.le_of_not_lt h⟩

theorem mem_toDigits {b : ℕ} (hb : 1 < b) {c : Char} (n : ℕ) :
    c ∈ Nat.toDigits b n → ∃ d < b, c = d.digitChar := by
  induction n using Nat.strongRecOn with
  | _ n ih =>
    intro hc
    rcases toDigits_cases hb n with ⟨h, hn⟩ | ⟨h, hn⟩
    · rw [h, List.mem_singleton] at hc
      exact ⟨n, hn, hc⟩
    · rw [h, List.mem_append, List.mem_singleton] at hc
      rcases hc with hc | hc
      · exact ih (n / b) (Nat.div_lt_self (by omega) hb) hc
      · exact ⟨n % b, Nat.mod_lt _ (by omega), hc⟩

theorem digitChar_injective {m n : ℕ} (hm : m < 16) (hn : n < 16) (h : m.digitChar = n.digitChar) : m = n := by
  have : ∀ m < 16, ∀ n < 16, m.digitChar = n.digitChar → m = n := by decide
  exact this m hm n hn h

/-- The digits of a number in a base up to sixteen tell the number. -/
theorem toDigits_injective {b : ℕ} (hb : 1 < b) (hb' : b ≤ 16) (m : ℕ) :
    ∀ n : ℕ, Nat.toDigits b m = Nat.toDigits b n → m = n := by
  induction m using Nat.strongRecOn with
  | _ m ih =>
    intro n h
    have hne (k : ℕ) : Nat.toDigits b k ≠ [] := Nat.toDigits_ne_nil
    rcases toDigits_cases hb m with ⟨hm, hmb⟩ | ⟨hm, hmb⟩ <;>
      rcases toDigits_cases hb n with ⟨hn, hnb⟩ | ⟨hn, hnb⟩ <;> rw [hm, hn] at h
    · exact digitChar_injective (Nat.lt_of_lt_of_le hmb hb') (Nat.lt_of_lt_of_le hnb hb') (List.singleton_inj.mp h)
    · have hlen := congrArg List.length h
      have := List.length_pos_iff.mpr (hne (n / b))
      rw [List.length_append, List.length_singleton, List.length_singleton] at hlen
      omega
    · have hlen := congrArg List.length h
      have := List.length_pos_iff.mpr (hne (m / b))
      rw [List.length_append, List.length_singleton, List.length_singleton] at hlen
      omega
    · obtain ⟨h1, h2⟩ := List.append_inj' h rfl
      have hdiv := ih (m / b) (Nat.div_lt_self (by omega) hb) (n / b) h1
      have hlt (k : ℕ) : k % b < 16 := Nat.lt_of_lt_of_le (Nat.mod_lt k (by omega)) hb'
      have hmod := digitChar_injective (hlt m) (hlt n) (List.singleton_inj.mp h2)
      calc m = b * (m / b) + m % b := (Nat.div_add_mod m b).symm
        _ = b * (n / b) + n % b := by rw [hdiv, hmod]
        _ = n := Nat.div_add_mod n b

end Lib
end SmartDns
