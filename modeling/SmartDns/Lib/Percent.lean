/-
# Percent-encoding

An escape is a percent sign and two hexadecimal digits; decoding puts one byte in its place and
leaves everything else. So decoding changes a text exactly if it has an escape
(`percentDecode_eq_self_iff`).

Key definitions: `percentDecode`, `Escaped`.
Key theorem: `percentDecode_eq_self_iff`.
-/
import Mathlib.Data.List.Basic

namespace SmartDns
namespace Lib

def isHexByte (b : UInt8) : Bool := (48 ≤ b && b ≤ 57) || (65 ≤ b && b ≤ 70) || (97 ≤ b && b ≤ 102)

def hexByteValue (b : UInt8) : ℕ :=
  if b ≤ 57 then b.toNat - 48 else if b ≤ 70 then b.toNat - 55 else b.toNat - 87

def percentDecode : List UInt8 → List UInt8
  | [] => []
  | [b] => [b]
  | [b, c] => [b, c]
  | b :: c :: d :: rest =>
    if b = 37 ∧ isHexByte c = true ∧ isHexByte d = true then
      UInt8.ofNat (hexByteValue c * 16 + hexByteValue d) :: percentDecode rest
    else b :: percentDecode (c :: d :: rest)

/-- There is an escape in the text. -/
def Escaped (bs : List UInt8) : Prop := ∃ front c d rest, bs = front ++ 37 :: c :: d :: rest ∧
  isHexByte c = true ∧ isHexByte d = true

theorem Escaped.cons {bs : List UInt8} (h : Escaped bs) (b : UInt8) : Escaped (b :: bs) := by
  obtain ⟨front, c, d, rest, rfl, hc, hd⟩ := h
  exact ⟨b :: front, c, d, rest, rfl, hc, hd⟩

theorem length_percentDecode_le : ∀ bs : List UInt8, (percentDecode bs).length ≤ bs.length
  | [] => Nat.le_refl _
  | [_] => Nat.le_refl _
  | [_, _] => Nat.le_refl _
  | b :: c :: d :: rest => by
    unfold percentDecode
    split
    · have := length_percentDecode_le rest
      simp only [List.length_cons]
      omega
    · have := length_percentDecode_le (c :: d :: rest)
      simp only [List.length_cons] at this ⊢
      omega

theorem percentDecode_of_not_escaped : ∀ {bs : List UInt8}, ¬ Escaped bs → percentDecode bs = bs
  | [], _ => rfl
  | [_], _ => rfl
  | [_, _], _ => rfl
  | b :: c :: d :: rest, h => by
    have hhead : ¬ (b = 37 ∧ isHexByte c = true ∧ isHexByte d = true) := by
      rintro ⟨rfl, hc, hd⟩
      exact h ⟨[], c, d, rest, rfl, hc, hd⟩
    have htail : ¬ Escaped (c :: d :: rest) := fun h' => h (h'.cons b)
    rw [percentDecode, if_neg hhead, percentDecode_of_not_escaped htail]

/-- An escape is three bytes for one. -/
theorem length_percentDecode_lt : ∀ {bs : List UInt8}, Escaped bs → (percentDecode bs).length < bs.length
  | [], ⟨front, c, d, rest, h, _⟩ => by simp at h
  | [b], ⟨front, c, d, rest, h, _⟩ => by
    have := congrArg List.length h
    simp at this
    omega
  | [b, b'], ⟨front, c, d, rest, h, _⟩ => by
    have := congrArg List.length h
    simp at this
    omega
  | b :: b' :: b'' :: bs, ⟨front, c, d, rest, h, hc, hd⟩ => by
    unfold percentDecode
    by_cases hhead : b = 37 ∧ isHexByte b' = true ∧ isHexByte b'' = true
    · rw [if_pos hhead]
      have := length_percentDecode_le bs
      simp only [List.length_cons]
      omega
    · rw [if_neg hhead]
      have htail : Escaped (b' :: b'' :: bs) := by
        cases front with
        | nil =>
          injection h with h1 h2
          injection h2 with h2 h3
          injection h3 with h3 _
          exact absurd ⟨h1, h2 ▸ hc, h3 ▸ hd⟩ hhead
        | cons x front =>
          injection h with _ h
          exact ⟨front, c, d, rest, h, hc, hd⟩
      have := length_percentDecode_lt htail
      simp only [List.length_cons] at this ⊢
      omega

/-- **Decoding changes what has an escape, and nothing else.** -/
theorem percentDecode_eq_self_iff (bs : List UInt8) : percentDecode bs = bs ↔ ¬ Escaped bs := by
  constructor
  · intro h hesc
    have := length_percentDecode_lt hesc
    rw [h] at this
    omega
  · exact percentDecode_of_not_escaped

end Lib
end SmartDns
