/-
# The text of a name

`Display` of the vendored name type. A label is written byte by byte: letters, digits,
`_`, a `-` that is not first and a `*` that is, as they are; other printable bytes
behind a backslash; the rest as a backslash and three decimal digits. A label that
starts with `xn--` is written as the Unicode text it stands for, if it is one; that
conversion is a third-party package's and a parameter here.

The escapes make the text of names without such labels readable: it tells the name,
and a colon behind it is its end (`nameText_inj`). The text of an `xn--` label is not
escaped.

Key definitions: `writeAscii`, `nameText`.
Key theorem: `nameText_inj`.
-/
import SmartDns.Dns.Name

namespace SmartDns
namespace Dns

def charOf (b : UInt8) : Char := Char.ofNat b.toNat

def isAsciiAlphanumeric (b : UInt8) : Bool :=
  (48 ≤ b && b ≤ 57) || (65 ≤ b && b ≤ 90) || (97 ≤ b && b ≤ 122)

/-- `is_safe_ascii` for encoding. -/
def isSafeAscii (b : UInt8) (isFirst : Bool) : Bool :=
  isAsciiAlphanumeric b || (b == 45 && !isFirst) || b == 95 || (b == 42 && isFirst)

/-- `\DDD`. -/
def toTripleEscape (b : UInt8) : List Char :=
  ['\\', (b.toNat / 100).digitChar, (b.toNat / 10 % 10).digitChar, (b.toNat % 10).digitChar]

def escapeNonAscii (b : UInt8) (isFirst : Bool) : List Char :=
  if isSafeAscii b isFirst then [charOf b]
  else if 32 < b && b < 127 then ['\\', charOf b]
  else toTripleEscape b

def writeAscii : List UInt8 → List Char
  | [] => []
  | b :: bs => escapeNonAscii b true ++ bs.flatMap (escapeNonAscii · false)

/-- `IDNA_PREFIX`: `xn--`. -/
def IDNA_PREFIX : List UInt8 := [120, 110, 45, 45]

/-- The text of a label; `toUnicode` is the IDNA conversion of a label, where it succeeds. -/
def labelText (toUnicode : List UInt8 → Option String) (l : Label) : List Char :=
  if IDNA_PREFIX.isPrefixOf l.bytes then
    match toUnicode l.bytes with
    | some s => s.toList
    | none => writeAscii l.bytes
  else writeAscii l.bytes

/-- `write_labels`. -/
def nameText (toUnicode : List UInt8 → Option String) (n : Name) : List Char :=
  (match n.labels with
    | [] => []
    | l :: ls => labelText toUnicode l ++ ls.flatMap fun l => '.' :: labelText toUnicode l) ++
  if n.isFqdn then ['.'] else []

/-! ### Reading it back -/

/-- A byte of a label, or the dot between two labels. -/
inductive NameToken
  | byte (b : UInt8)
  | dot
deriving DecidableEq

/-- The token a text starts with; none at a colon. -/
def readToken : List Char → Option (NameToken × List Char)
  | '\\' :: c :: rest =>
    if c.isDigit then
      match rest with
      | d :: d' :: rest =>
        some (.byte (UInt8.ofNat ((c.toNat - 48) * 100 + (d.toNat - 48) * 10 + (d'.toNat - 48))), rest)
      | _ => none
    else some (.byte (UInt8.ofNat c.toNat), rest)
  | '.' :: rest => some (.dot, rest)
  | ':' :: _ => none
  | c :: rest => some (.byte (UInt8.ofNat c.toNat), rest)
  | [] => none

/-- The text of a byte is read back from it alone. -/
def readsBack (b : UInt8) : List Char → Bool
  | [c] => c ≠ '\\' && c ≠ '.' && c ≠ ':' && UInt8.ofNat c.toNat = b
  | ['\\', c] => !c.isDigit && UInt8.ofNat c.toNat = b
  | ['\\', c, d, d'] =>
    c.isDigit && UInt8.ofNat ((c.toNat - 48) * 100 + (d.toNat - 48) * 10 + (d'.toNat - 48)) = b
  | _ => false

theorem readsBack_escapeNonAscii (b : UInt8) (isFirst : Bool) : readsBack b (escapeNonAscii b isFirst) = true := by
  have h : ∀ n < 256, ∀ f : Bool, readsBack (UInt8.ofNat n) (escapeNonAscii (UInt8.ofNat n) f) = true := by
    decide +kernel
  have := h b.toNat b.toNat_lt isFirst
  rwa [UInt8.ofNat_toNat] at this

theorem readToken_of_readsBack {b : UInt8} {cs : List Char} (h : readsBack b cs = true) (s : List Char) :
    readToken (cs ++ s) = some (.byte b, s) := by
  unfold readsBack at h
  split at h
  · rename_i c
    simp only [Bool.and_eq_true, decide_eq_true_eq] at h
    obtain ⟨⟨⟨h1, h2⟩, h3⟩, rfl⟩ := h
    unfold readToken
    split <;> simp_all
  · simp only [Bool.and_eq_true, Bool.not_eq_true', decide_eq_true_eq] at h
    obtain ⟨h1, rfl⟩ := h
    simp [readToken, h1]
  · simp only [Bool.and_eq_true, decide_eq_true_eq] at h
    obtain ⟨h1, rfl⟩ := h
    simp [readToken, h1]
  · cases h

/-- A token and the place of a byte in its label. -/
def tokenText : NameToken × Bool → List Char
  | (.byte b, isFirst) => escapeNonAscii b isFirst
  | (.dot, _) => ['.']

theorem readToken_tokenText (t : NameToken × Bool) (s : List Char) :
    readToken (tokenText t ++ s) = some (t.1, s) := by
  obtain ⟨t, f⟩ := t
  cases t with
  | byte b => exact readToken_of_readsBack (readsBack_escapeNonAscii b f) s
  | dot => rfl

/-- Tokens are told by their text, which ends at a colon. -/
theorem tokens_inj : ∀ {ts ts' : List (NameToken × Bool)} {s s' : List Char},
    ts.flatMap tokenText ++ ':' :: s = ts'.flatMap tokenText ++ ':' :: s' → ts.map (·.1) = ts'.map (·.1) ∧ s = s'
  | [], [], s, s', h => ⟨rfl, (List.cons.inj h).2⟩
  | [], t' :: ts', s, s', h => by
    rw [List.flatMap_cons, List.append_assoc] at h
    have hr := congrArg readToken h
    rw [readToken_tokenText] at hr
    cases hr
  | t :: ts, [], s, s', h => by
    rw [List.flatMap_cons, List.append_assoc] at h
    have hr := congrArg readToken h
    rw [readToken_tokenText] at hr
    cases hr
  | t :: ts, t' :: ts', s, s', h => by
    rw [List.flatMap_cons, List.flatMap_cons, List.append_assoc, List.append_assoc] at h
    have hr := congrArg readToken h
    rw [readToken_tokenText, readToken_tokenText, Option.some.injEq, Prod.mk.injEq] at hr
    obtain ⟨ht, hrest⟩ := hr
    obtain ⟨hts, hs⟩ := tokens_inj hrest
    exact ⟨by rw [List.map_cons, List.map_cons, ht, hts], hs⟩

def labelTokens : List UInt8 → List (NameToken × Bool)
  | [] => []
  | b :: bs => (.byte b, true) :: bs.map (.byte ·, false)

theorem labelTokens_fst (bs : List UInt8) : (labelTokens bs).map (·.1) = bs.map .byte := by
  cases bs with
  | nil => rfl
  | cons b bs => simp [labelTokens]

theorem flatMap_labelTokens (bs : List UInt8) : (labelTokens bs).flatMap tokenText = writeAscii bs := by
  cases bs with
  | nil => rfl
  | cons b bs => simp [labelTokens, writeAscii, tokenText, List.flatMap_map]

/-- The tokens behind the first label. -/
def restTokens (isFqdn : Bool) : List Label → List (NameToken × Bool)
  | [] => if isFqdn then [(.dot, false)] else []
  | l :: ls => (.dot, false) :: (labelTokens l.bytes ++ restTokens isFqdn ls)

def nameTokens (n : Name) : List (NameToken × Bool) :=
  match n.labels with
  | [] => restTokens n.isFqdn []
  | l :: ls => labelTokens l.bytes ++ restTokens n.isFqdn ls

/-- A name that is written without IDNA. -/
def PlainName (n : Name) : Prop := ∀ l ∈ n.labels, IDNA_PREFIX.isPrefixOf l.bytes = false

theorem flatMap_restTokens (toUnicode : List UInt8 → Option String) (isFqdn : Bool) : ∀ (ls : List Label),
    (∀ l ∈ ls, IDNA_PREFIX.isPrefixOf l.bytes = false) → (restTokens isFqdn ls).flatMap tokenText =
      (ls.flatMap fun l => '.' :: labelText toUnicode l) ++ if isFqdn then ['.'] else []
  | [], _ => by cases isFqdn <;> rfl
  | l :: ls, h => by
    have hl : labelText toUnicode l = writeAscii l.bytes := if_neg (by simp [h l List.mem_cons_self])
    have ih := flatMap_restTokens toUnicode isFqdn ls fun l' hl' => h l' (List.mem_cons_of_mem _ hl')
    rw [restTokens, List.flatMap_cons, List.flatMap_append, flatMap_labelTokens, ih, List.flatMap_cons, hl,
      List.append_assoc]
    rfl

theorem flatMap_nameTokens (toUnicode : List UInt8 → Option String) {n : Name} (h : PlainName n) :
    (nameTokens n).flatMap tokenText = nameText toUnicode n := by
  obtain ⟨f, labels⟩ := n
  cases labels with
  | nil => cases f <;> rfl
  | cons l ls =>
    have hl : labelText toUnicode l = writeAscii l.bytes := if_neg (by simp [h l List.mem_cons_self])
    have hrest := flatMap_restTokens toUnicode f ls fun l' hl' => h l' (List.mem_cons_of_mem _ hl')
    show (labelTokens l.bytes ++ restTokens f ls).flatMap tokenText =
      (labelText toUnicode l ++ ls.flatMap fun l => '.' :: labelText toUnicode l) ++ if f then ['.'] else []
    rw [List.flatMap_append, flatMap_labelTokens, hrest, hl, List.append_assoc]

/-- A label and what stands behind it are told apart: it is followed by a dot or by nothing. -/
theorem label_append_inj : ∀ {a a' : List UInt8} {b b' : List NameToken},
    (∀ x, b.head? ≠ some (.byte x)) → (∀ x, b'.head? ≠ some (.byte x)) →
    a.map NameToken.byte ++ b = a'.map NameToken.byte ++ b' → a = a' ∧ b = b'
  | [], [], _, _, _, _, h => ⟨rfl, h⟩
  | [], x :: a', b, b', hb, _, h => by
    have h : b = .byte x :: (a'.map NameToken.byte ++ b') := h
    exact absurd (by rw [h]; rfl) (hb x)
  | x :: a, [], b, b', _, hb', h => by
    have h : NameToken.byte x :: (a.map NameToken.byte ++ b) = b' := h
    exact absurd (by rw [← h]; rfl) (hb' x)
  | x :: a, x' :: a', b, b', hb, hb', h => by
    obtain ⟨hx, htail⟩ := List.cons.inj h
    obtain ⟨ha, hbb⟩ := label_append_inj hb hb' htail
    exact ⟨by rw [NameToken.byte.inj hx, ha], hbb⟩

theorem head?_restTokens (f : Bool) (ls : List Label) (x : UInt8) :
    ((restTokens f ls).map (·.1)).head? ≠ some (.byte x) := by
  cases ls with
  | nil => cases f <;> simp [restTokens]
  | cons l ls => simp [restTokens]

theorem restTokens_inj {f f' : Bool} : ∀ {ls ls' : List Label},
    (restTokens f ls).map (·.1) = (restTokens f' ls').map (·.1) → f = f' ∧ ls = ls'
  | [], [], h => by cases f <;> cases f' <;> simp [restTokens] at h ⊢
  | [], l :: ls, h => by
    cases f with
    | false => simp [restTokens] at h
    | true =>
      simp only [restTokens, ↓reduceIte, List.map_cons, List.map_nil, List.map_append, labelTokens_fst,
        List.cons.injEq, true_and, List.nil_eq, List.append_eq_nil_iff, List.map_eq_nil_iff] at h
      exact absurd h.1 l.nonempty
  | l :: ls, [], h => by
    cases f' with
    | false => simp [restTokens] at h
    | true =>
      simp only [restTokens, ↓reduceIte, List.map_cons, List.map_nil, List.map_append, labelTokens_fst,
        List.cons.injEq, true_and, List.append_eq_nil_iff, List.map_eq_nil_iff] at h
      exact absurd h.1 l.nonempty
  | l :: ls, l' :: ls', h => by
    simp only [restTokens, List.map_cons, List.map_append, labelTokens_fst, List.cons.injEq, true_and] at h
    obtain ⟨hl, hrest⟩ := label_append_inj (head?_restTokens f ls) (head?_restTokens f' ls') h
    obtain ⟨hf, hls⟩ := restTokens_inj hrest
    exact ⟨hf, by rw [Label.ext_bytes hl, hls]⟩

theorem nameTokens_inj {n n' : Name} (h : (nameTokens n).map (·.1) = (nameTokens n').map (·.1)) : n = n' := by
  obtain ⟨f, ls⟩ := n
  obtain ⟨f', ls'⟩ := n'
  -- a first label starts with a byte, which no name without labels does
  have none_first {f f' : Bool} {l : Label} {ls : List Label}
      (h : (nameTokens ⟨f, []⟩).map (·.1) = (nameTokens ⟨f', l :: ls⟩).map (·.1)) : False := by
    obtain ⟨b, bs, hb⟩ := List.exists_cons_of_ne_nil l.nonempty
    refine head?_restTokens f [] b ?_
    show ((nameTokens ⟨f, []⟩).map (·.1)).head? = _
    rw [h]
    show ((labelTokens l.bytes ++ restTokens f' ls).map (·.1)).head? = _
    rw [List.map_append, labelTokens_fst, hb]
    rfl
  cases ls with
  | nil =>
    cases ls' with
    | nil =>
      have h : (restTokens f []).map (·.1) = (restTokens f' []).map (·.1) := h
      obtain ⟨rfl, -⟩ := restTokens_inj h
      rfl
    | cons l' ls' => exact (none_first h).elim
  | cons l ls =>
    cases ls' with
    | nil => exact (none_first h.symm).elim
    | cons l' ls' =>
      have h : (labelTokens l.bytes ++ restTokens f ls).map (·.1) =
        (labelTokens l'.bytes ++ restTokens f' ls').map (·.1) := h
      rw [List.map_append, List.map_append, labelTokens_fst, labelTokens_fst] at h
      obtain ⟨hl, hrest⟩ := label_append_inj (head?_restTokens f ls) (head?_restTokens f' ls') h
      obtain ⟨rfl, rfl⟩ := restTokens_inj hrest
      rw [Label.ext_bytes hl]

/-- **The text of a plain name tells the name**, and a colon behind it is its end. -/
theorem nameText_inj {toUnicode : List UInt8 → Option String} {n n' : Name} {s s' : List Char} (hn : PlainName n)
    (hn' : PlainName n') (h : nameText toUnicode n ++ ':' :: s = nameText toUnicode n' ++ ':' :: s') :
    n = n' ∧ s = s' := by
  rw [← flatMap_nameTokens toUnicode hn, ← flatMap_nameTokens toUnicode hn'] at h
  obtain ⟨ht, hs⟩ := tokens_inj h
  exact ⟨nameTokens_inj ht, hs⟩

end Dns
end SmartDns
