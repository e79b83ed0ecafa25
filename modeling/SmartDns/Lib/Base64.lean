/-
# Base64url

Three bytes are four characters of six bits each. One or two bytes at the end are two or three
characters, with zeros for the bits that are not there, and the padded text has `=` for the characters
that are missing to four. Decoding undoes encoding (`decode_encode`).

Key definitions: `encode`, `encodePadded`, `decode`.
Key theorems: `decode_encode`, `mem_encode`, `length_encodePadded`.
-/
import Mathlib.Data.List.Basic

namespace SmartDns
namespace Lib
namespace Base64

/-- The character of six bits. -/
def sextetChar (n : ℕ) : Char :=
  if n < 26 then Char.ofNat (65 + n)
  else if n < 52 then Char.ofNat (71 + n)
  else if n < 62 then Char.ofNat (n - 4)
  else if n = 62 then '-'
  else '_'

def charSextet (c : Char) : Option ℕ :=
  if 65 ≤ c.toNat ∧ c.toNat ≤ 90 then some (c.toNat - 65)
  else if 97 ≤ c.toNat ∧ c.toNat ≤ 122 then some (c.toNat - 71)
  else if 48 ≤ c.toNat ∧ c.toNat ≤ 57 then some (c.toNat + 4)
  else if c = '-' then some 62
  else if c = '_' then some 63
  else none

def encode : List UInt8 → List Char
  | [] => []
  | [a] => [sextetChar (a.toNat / 4), sextetChar (a.toNat * 16 % 64)]
  | [a, b] =>
    let n := a.toNat * 256 + b.toNat
    [sextetChar (n / 1024), sextetChar (n / 16 % 64), sextetChar (n * 4 % 64)]
  | a :: b :: c :: rest =>
    let n := (a.toNat * 256 + b.toNat) * 256 + c.toNat
    sextetChar (n / 262144) :: sextetChar (n / 4096 % 64) :: sextetChar (n / 64 % 64) :: sextetChar (n % 64) ::
      encode rest

/-- The characters that are missing to a multiple of four. -/
def padding (bs : List UInt8) : ℕ := (3 - bs.length % 3) % 3

def encodePadded (bs : List UInt8) : List Char := encode bs ++ List.replicate (padding bs) '='

/-- Only zeros may stand for bits that are not there. -/
def decode : List Char → Option (List UInt8)
  | [] => some []
  | [_] => none
  | [w, x] => do
    let n := (← charSextet w) * 64 + (← charSextet x)
    if n % 16 = 0 then some [UInt8.ofNat (n / 16)] else none
  | [w, x, y] => do
    let n := ((← charSextet w) * 64 + (← charSextet x)) * 64 + (← charSextet y)
    if n % 4 = 0 then some [UInt8.ofNat (n / 1024), UInt8.ofNat (n / 4)] else none
  | w :: x :: y :: z :: rest => do
    let n := (((← charSextet w) * 64 + (← charSextet x)) * 64 + (← charSextet y)) * 64 + (← charSextet z)
    let bs ← decode rest
    some (UInt8.ofNat (n / 65536) :: UInt8.ofNat (n / 256) :: UInt8.ofNat n :: bs)

theorem charSextet_sextetChar {n : ℕ} (h : n < 64) : charSextet (sextetChar n) = some n := by
  have : ∀ n < 64, charSextet (sextetChar n) = some n := by decide +kernel
  exact this n h

theorem ofNat_eq {a : UInt8} {n : ℕ} (h : n % 256 = a.toNat) : UInt8.ofNat n = a :=
  UInt8.toNat_inj.mp (by rw [UInt8.toNat_ofNat', h])

/-- **Decoding undoes encoding.** -/
theorem decode_encode : ∀ bs : List UInt8, decode (encode bs) = some bs
  | [] => rfl
  | [a] => by
    have ha := a.toNat_lt
    have hn : a.toNat / 4 * 64 + a.toNat * 16 % 64 = a.toNat * 16 := by omega
    simp only [encode, decode, charSextet_sextetChar (show a.toNat / 4 < 64 by omega),
      charSextet_sextetChar (show a.toNat * 16 % 64 < 64 by omega), Option.bind_eq_bind, Option.bind_some, hn]
    rw [if_pos (by omega), ofNat_eq (a := a) (by omega)]
  | [a, b] => by
    have ha := a.toNat_lt
    have hb := b.toNat_lt
    generalize hn : a.toNat * 256 + b.toNat = n
    have hw : ((n / 1024) * 64 + n / 16 % 64) * 64 + n * 4 % 64 = n * 4 := by omega
    simp only [encode, decode, hn, charSextet_sextetChar (show n / 1024 < 64 by omega),
      charSextet_sextetChar (show n / 16 % 64 < 64 by omega), charSextet_sextetChar (show n * 4 % 64 < 64 by omega),
      Option.bind_eq_bind, Option.bind_some, hw]
    rw [if_pos (by omega), ofNat_eq (a := a) (by omega), ofNat_eq (a := b) (by omega)]
  | a :: b :: c :: rest => by
    have ha := a.toNat_lt
    have hb := b.toNat_lt
    have hc := c.toNat_lt
    generalize hn : (a.toNat * 256 + b.toNat) * 256 + c.toNat = n
    have hw : (((n / 262144) * 64 + n / 4096 % 64) * 64 + n / 64 % 64) * 64 + n % 64 = n := by omega
    simp only [encode, decode, hn, charSextet_sextetChar (show n / 262144 < 64 by omega),
      charSextet_sextetChar (show n / 4096 % 64 < 64 by omega),
      charSextet_sextetChar (show n / 64 % 64 < 64 by omega), charSextet_sextetChar (show n % 64 < 64 by omega),
      Option.bind_eq_bind, Option.bind_some, hw, decode_encode rest]
    rw [ofNat_eq (a := a) (by omega), ofNat_eq (a := b) (by omega), ofNat_eq (a := c) (by omega)]

theorem mem_encode : ∀ {bs : List UInt8} {c : Char}, c ∈ encode bs → ∃ n < 64, c = sextetChar n
  | [a], c, h => by
    have ha := a.toNat_lt
    simp only [encode, List.mem_cons, List.not_mem_nil, or_false] at h
    rcases h with rfl | rfl
    · exact ⟨_, by omega, rfl⟩
    · exact ⟨_, by omega, rfl⟩
  | [a, b], c, h => by
    have ha := a.toNat_lt
    have hb := b.toNat_lt
    simp only [encode, List.mem_cons, List.not_mem_nil, or_false] at h
    rcases h with rfl | rfl | rfl
    · exact ⟨_, by omega, rfl⟩
    · exact ⟨_, by omega, rfl⟩
    · exact ⟨_, by omega, rfl⟩
  | a :: b :: c' :: rest, c, h => by
    have ha := a.toNat_lt
    have hb := b.toNat_lt
    have hc := c'.toNat_lt
    simp only [encode, List.mem_cons] at h
    rcases h with rfl | rfl | rfl | rfl | h
    · exact ⟨_, by omega, rfl⟩
    · exact ⟨_, by omega, rfl⟩
    · exact ⟨_, by omega, rfl⟩
    · exact ⟨_, by omega, rfl⟩
    · exact mem_encode h

theorem length_encode : ∀ bs : List UInt8, (encode bs).length + padding bs = 4 * ((bs.length + 2) / 3)
  | [] => rfl
  | [_] => by simp [encode, padding]
  | [_, _] => by simp [encode, padding]
  | a :: b :: c :: rest => by
    have ih := length_encode rest
    unfold padding at ih ⊢
    simp only [encode, List.length_cons] at ih ⊢
    omega

end Base64
end Lib
end SmartDns
