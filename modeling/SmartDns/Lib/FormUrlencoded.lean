/-
# Form-urlencoded text

A list of pieces, each a key alone or a key with a value, as one text: the pieces are joined with `&`, a
value stands behind `=`, and in keys and values a space is `+` and every byte that is neither a letter, a
digit nor one of `*-._` is percent-encoded. Reading the text gives the pieces back, a key alone with an
empty value, and drops a piece that is nothing at all (`parse_text`).

Key definitions: `encode`, `decode`, `text`, `parse`, `cut`.
Key theorems: `decode_encode`, `parse_text`, `mem_text`.
-/
import SmartDns.Lib.Groups
import SmartDns.Lib.Percent
import SmartDns.Lib.Reader

namespace SmartDns
namespace Lib
namespace Form

open Parse

/-! ### Cutting a text -/

section

variable {A : Type} [DecidableEq A]

/-- What stands in front of the first `c`, and what stands behind it. -/
def cut (c : A) : List A → List A × Option (List A)
  | [] => ([], none)
  | a :: s => if a = c then ([], some s) else (a :: (cut c s).1, (cut c s).2)

theorem cut_of_not_mem {c : A} : ∀ {s : List A}, c ∉ s → cut c s = (s, none)
  | [], _ => rfl
  | a :: s, h => by
    obtain ⟨hne, hs⟩ := List.ne_and_not_mem_of_not_mem_cons h
    rw [cut, if_neg (Ne.symm hne), cut_of_not_mem hs]

theorem cut_append {c : A} : ∀ {p : List A}, c ∉ p → ∀ s, cut c (p ++ c :: s) = (p, some s)
  | [], _, s => if_pos rfl
  | a :: p, h, s => by
    obtain ⟨hne, hp⟩ := List.ne_and_not_mem_of_not_mem_cons h
    rw [List.cons_append, cut, if_neg (Ne.symm hne), cut_append hp]

theorem cut_fst (c : A) : ∀ s : List A, (cut c s).1 = s.takeWhile (· != c)
  | [] => rfl
  | a :: s => by
    unfold cut
    by_cases h : a = c
    · rw [if_pos h, List.takeWhile_cons_of_neg (by simp [h])]
    · rw [if_neg h, List.takeWhile_cons_of_pos (by simpa using h), cut_fst c s]

/-- All the pieces between the `c`s. -/
def pieces (c : A) (s : List A) : List (List A) :=
  s.foldr (fun a ps => if a = c then [] :: ps else (a :: ps.headD []) :: ps.tail) [[]]

theorem pieces_of_not_mem {c : A} : ∀ {p : List A}, c ∉ p → pieces c p = [p]
  | [], _ => rfl
  | a :: p, h => by
    obtain ⟨hne, hp⟩ := List.ne_and_not_mem_of_not_mem_cons h
    have ih := pieces_of_not_mem hp
    unfold pieces at ih ⊢
    rw [List.foldr_cons, ih, if_neg (Ne.symm hne)]
    rfl

theorem pieces_append {c : A} : ∀ {p : List A}, c ∉ p → ∀ s, pieces c (p ++ c :: s) = p :: pieces c s
  | [], _, s => if_pos rfl
  | a :: p, h, s => by
    obtain ⟨hne, hp⟩ := List.ne_and_not_mem_of_not_mem_cons h
    have ih := pieces_append hp s
    unfold pieces at ih ⊢
    rw [List.cons_append, List.foldr_cons, ih, if_neg (Ne.symm hne)]
    rfl

/-- Cutting undoes joining. -/
theorem pieces_joined {c : A} : ∀ {p : List A} {ps : List (List A)}, (∀ q ∈ p :: ps, c ∉ q) →
    pieces c (joined c (p :: ps)) = p :: ps
  | p, [], h => by
    rw [joined, List.flatMap_nil, List.append_nil]
    exact pieces_of_not_mem (h p List.mem_cons_self)
  | p, q :: ps, h => by
    obtain ⟨hp, hps⟩ := List.forall_mem_cons.mp h
    have ih := pieces_joined hps
    rw [joined] at ih
    rw [joined, List.flatMap_cons, List.cons_append, pieces_append hp, ih]

end

/-! ### Keys and values -/

/-- Letters, digits and `*-._` stand for themselves. -/
def keptByte (b : UInt8) : Bool :=
  (48 ≤ b && b ≤ 57) || (65 ≤ b && b ≤ 90) || (97 ≤ b && b ≤ 122) || b == 42 || b == 45 || b == 46 || b == 95

def hexDigitByte (n : ℕ) : UInt8 := UInt8.ofNat (if n < 10 then 48 + n else 55 + n)

def encodeByte (b : UInt8) : List UInt8 :=
  if keptByte b then [b]
  else if b = 32 then [43]
  else [37, hexDigitByte (b.toNat / 16), hexDigitByte (b.toNat % 16)]

def charOfByte (b : UInt8) : Char := Char.ofNat b.toNat

def byteOfChar (c : Char) : UInt8 := UInt8.ofNat c.toNat

def encode (s : List Char) : List Char := ((utf8 (String.ofList s)).flatMap encodeByte).map charOfByte

def plusToSpace (b : UInt8) : UInt8 := if b = 43 then 32 else b

/-- The text of an encoded key or value, if it is UTF-8. -/
def decode (s : List Char) : Option (List Char) :=
  (fromUtf8 (percentDecode (s.map fun c => plusToSpace (byteOfChar c)))).map String.toList

theorem percentDecode_cons {b : UInt8} (h : b ≠ 37) (bs : List UInt8) :
    percentDecode (b :: bs) = b :: percentDecode bs := by
  rcases bs with - | ⟨c, - | ⟨d, bs⟩⟩
  · rfl
  · rfl
  · rw [percentDecode, if_neg fun h' => h h'.1]

theorem percentDecode_escape {c d : UInt8} (hc : isHexByte c = true) (hd : isHexByte d = true) (bs : List UInt8) :
    percentDecode (37 :: c :: d :: bs) = UInt8.ofNat (hexByteValue c * 16 + hexByteValue d) :: percentDecode bs := by
  rw [percentDecode, if_pos ⟨rfl, hc, hd⟩]

theorem hexDigitByte_spec {n : ℕ} (h : n < 16) : isHexByte (hexDigitByte n) = true ∧
    hexByteValue (hexDigitByte n) = n ∧ plusToSpace (hexDigitByte n) = hexDigitByte n := by
  have : ∀ n < 16, isHexByte (hexDigitByte n) = true ∧ hexByteValue (hexDigitByte n) = n ∧
      plusToSpace (hexDigitByte n) = hexDigitByte n := by decide +kernel
  exact this n h

theorem keptByte_spec {b : UInt8} (h : keptByte b = true) : b ≠ 37 ∧ plusToSpace b = b := by
  have h37 : b ≠ 37 := by
    rintro rfl
    exact absurd h (by decide)
  have h43 : b ≠ 43 := by
    rintro rfl
    exact absurd h (by decide)
  exact ⟨h37, if_neg h43⟩

/-- An encoded byte is read as the byte. -/
theorem percentDecode_encodeByte (b : UInt8) (bs : List UInt8) :
    percentDecode ((encodeByte b).map plusToSpace ++ bs) = b :: percentDecode bs := by
  unfold encodeByte
  by_cases hkept : keptByte b = true
  · obtain ⟨h37, hplus⟩ := keptByte_spec hkept
    rw [if_pos hkept, List.map_singleton, hplus]
    exact percentDecode_cons h37 bs
  · rw [if_neg hkept]
    by_cases hspace : b = 32
    · rw [if_pos hspace, hspace]
      exact percentDecode_cons (by decide) bs
    · have hb := b.toNat_lt
      obtain ⟨hhi, hhi', hhi''⟩ := hexDigitByte_spec (show b.toNat / 16 < 16 by omega)
      obtain ⟨hlo, hlo', hlo''⟩ := hexDigitByte_spec (show b.toNat % 16 < 16 by omega)
      have hsum : b.toNat / 16 * 16 + b.toNat % 16 = b.toNat := by omega
      rw [if_neg hspace, List.map_cons, List.map_cons, List.map_singleton, hhi'', hlo'']
      calc percentDecode (37 :: hexDigitByte (b.toNat / 16) :: hexDigitByte (b.toNat % 16) :: bs)
          = UInt8.ofNat (hexByteValue (hexDigitByte (b.toNat / 16)) * 16 +
              hexByteValue (hexDigitByte (b.toNat % 16))) :: percentDecode bs := percentDecode_escape hhi hlo bs
        _ = b :: percentDecode bs := by rw [hhi', hlo', hsum, UInt8.ofNat_toNat]

theorem percentDecode_encodeBytes (bs : List UInt8) :
    percentDecode ((bs.flatMap encodeByte).map plusToSpace) = bs := by
  induction bs with
  | nil => rfl
  | cons b bs ih => rw [List.flatMap_cons, List.map_append, percentDecode_encodeByte, ih]

theorem byteOfChar_charOfByte (b : UInt8) : byteOfChar (charOfByte b) = b := by
  have hall : ∀ n < 256, byteOfChar (charOfByte (UInt8.ofNat n)) = UInt8.ofNat n := by decide +kernel
  have hb := hall b.toNat b.toNat_lt
  rwa [UInt8.ofNat_toNat] at hb

/-- **Decoding undoes encoding.** -/
theorem decode_encode (s : List Char) : decode (encode s) = some s := by
  have hbytes : ∀ bs : List UInt8, (bs.map charOfByte).map (fun c => plusToSpace (byteOfChar c)) =
      bs.map plusToSpace := by
    intro bs
    rw [List.map_map]
    exact List.map_congr_left fun b _ => congrArg plusToSpace (byteOfChar_charOfByte b)
  unfold decode encode
  rw [hbytes, percentDecode_encodeBytes, fromUtf8_utf8, Option.map_some, String.toList_ofList]

/-- The characters of encoded keys and values. -/
def encodedChar (c : Char) : Bool := c.isAlphanum || ['*', '-', '.', '_', '+', '%'].contains c

theorem encodedChar_of_mem {b b' : UInt8} (h : b' ∈ encodeByte b) : encodedChar (charOfByte b') = true := by
  have hall : ∀ b < 256, ((encodeByte (UInt8.ofNat b)).all fun b' => encodedChar (charOfByte b')) = true := by
    decide +kernel
  have hb := hall b.toNat b.toNat_lt
  rw [UInt8.ofNat_toNat] at hb
  exact List.all_eq_true.mp hb b' h

theorem mem_encode {s : List Char} {c : Char} (h : c ∈ encode s) : encodedChar c = true := by
  obtain ⟨b', hb', rfl⟩ := List.mem_map.mp h
  obtain ⟨b, -, hb⟩ := List.mem_flatMap.mp hb'
  exact encodedChar_of_mem hb

theorem not_mem_encode {c : Char} (h : encodedChar c = false) (s : List Char) : c ∉ encode s := by
  intro hc
  rw [mem_encode hc] at h
  cases h

/-! ### Pieces -/

/-- A key alone, or a key with a value. -/
abbrev Piece := List Char × Option (List Char)

def pieceText (p : Piece) : List Char := encode p.1 ++ p.2.elim [] fun v => '=' :: encode v

def text (ps : List Piece) : List Char := joined '&' (ps.map pieceText)

def readPiece (s : List Char) : Option (List Char × List Char) :=
  if s.isEmpty then none
  else do
    let k ← decode (cut '=' s).1
    let v ← decode ((cut '=' s).2.getD [])
    return (k, v)

def parse (s : List Char) : List (List Char × List Char) := (pieces '&' s).filterMap readPiece

/-- What is left of a piece: an empty key alone is nothing. -/
def kept (p : Piece) : Option (List Char × List Char) :=
  if p.1 = [] ∧ p.2 = none then none else some (p.1, p.2.getD [])

theorem decode_nil : decode [] = some [] := decode_encode []

theorem encode_eq_nil {s : List Char} (h : encode s = []) : s = [] := by
  have hdecode := decode_encode s
  rw [h, decode_nil] at hdecode
  exact (Option.some.inj hdecode).symm

theorem readPiece_pieceText (p : Piece) : readPiece (pieceText p) = kept p := by
  have heq : '=' ∉ encode p.1 := not_mem_encode (by decide) p.1
  obtain ⟨k, v⟩ := p
  unfold readPiece pieceText kept
  cases v with
  | none =>
    rw [Option.elim_none, List.append_nil, cut_of_not_mem heq, Option.getD_none, decode_nil, decode_encode]
    by_cases hk : k = []
    · rw [hk]
      rfl
    · rw [if_neg (fun h => hk (encode_eq_nil (List.isEmpty_iff.mp h))), if_neg fun h => hk h.1]
      rfl
  | some v =>
    rw [Option.elim_some, cut_append heq, Option.getD_some, decode_encode, decode_encode,
      if_neg (by simp), if_neg fun h => by cases h.2]
    rfl

theorem mem_pieceText {p : Piece} {c : Char} (h : c ∈ pieceText p) : encodedChar c = true ∨ c = '=' := by
  rcases List.mem_append.mp h with h | h
  · exact .inl (mem_encode h)
  · obtain ⟨k, v⟩ := p
    cases v with
    | none => exact absurd h List.not_mem_nil
    | some v =>
      rcases List.mem_cons.mp h with h | h
      · exact .inr h
      · exact .inl (mem_encode h)

/-- **What is read is the pieces, without empty keys that stand alone.** -/
theorem parse_text (ps : List Piece) : parse (text ps) = ps.filterMap kept := by
  have hread : ∀ ps : List Piece, (ps.map pieceText).filterMap readPiece = ps.filterMap kept := by
    intro ps
    rw [List.filterMap_map]
    exact List.filterMap_congr fun p _ => readPiece_pieceText p
  cases ps with
  | nil => rfl
  | cons p ps =>
    have hamp : ∀ q ∈ pieceText p :: ps.map pieceText, '&' ∉ q := by
      intro q hq hmem
      obtain ⟨p', -, rfl⟩ := List.mem_map.mp (show q ∈ (p :: ps).map pieceText from hq)
      rcases mem_pieceText hmem with h | h
      · exact absurd h (by decide)
      · exact absurd h (by decide)
    unfold parse text
    rw [List.map_cons, pieces_joined hamp, ← List.map_cons, hread]

theorem mem_text {ps : List Piece} {c : Char} (h : c ∈ text ps) : encodedChar c = true ∨ c = '&' ∨ c = '=' := by
  have hpiece : ∀ q ∈ ps.map pieceText, ∀ c ∈ q, encodedChar c = true ∨ c = '&' ∨ c = '=' := by
    intro q hq c hc
    obtain ⟨p, -, rfl⟩ := List.mem_map.mp hq
    exact (mem_pieceText hc).imp_right .inr
  unfold text at h
  generalize ps.map pieceText = qs at hpiece h
  cases qs with
  | nil => cases h
  | cons q qs =>
    rcases List.mem_append.mp h with h | h
    · exact hpiece q List.mem_cons_self c h
    · obtain ⟨q', hq', h⟩ := List.mem_flatMap.mp h
      rcases List.mem_cons.mp h with h | h
      · exact .inr (.inl h)
      · exact hpiece q' (List.mem_cons_of_mem _ hq') c h

end Form
end Lib
end SmartDns
