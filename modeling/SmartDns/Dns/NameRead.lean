/-
# Names are read back

`Name::from_str` on the text that `Display` writes for a name it has read: the name is read back
where each of its labels is.

Two things stand in the way. IDNA takes the ideographic full stops for dots, and a label with a dot
in it is written with an escape or, as Unicode, as two labels (`Name.Dotted`). And one label that IDNA
refuses makes all of them be read as ASCII, although the others may have been written as Unicode
(`Name.Mixed`).

Key definitions: `Idna`, `Name.Mixed`, `Name.Dotted`.
Key theorems: `Name.fromStr_nameText`, `Name.Mixed.fromStr_nameText`, `Name.Dotted.unread`.
-/
import SmartDns.Dns.NameParts
import SmartDns.Dns.NameText

namespace SmartDns
namespace Dns

open Lib.Parse (joined)

/-! ### The text of a label -/

/-- What may stand in a label that is read as ASCII. -/
def safeChar (c : Char) : Bool := isSafeText c true || c == '-'

theorem charOf_ofNat {c : Char} (h : c.toNat < 128) : charOf (UInt8.ofNat c.toNat) = c := by
  unfold charOf
  rw [UInt8.toNat_ofNat_of_lt' (by show c.toNat < 256; omega), Char.ofNat_toNat]

theorem toNat_lt_of_isAlphanum {c : Char} (h : c.isAlphanum = true) : c.toNat < 128 := by
  have hupto (last : Char) (hlast : last.toNat < 128) (hle : c.val ≤ last.val) : c.toNat < 128 :=
    Nat.lt_of_le_of_lt (UInt32.le_iff_toNat_le.mp hle) hlast
  rcases (Bool.or_eq_true_iff.mp h : c.isAlpha = true ∨ c.isDigit = true) with halpha | hdigit
  · rcases (Bool.or_eq_true_iff.mp halpha : c.isUpper = true ∨ c.isLower = true) with hupper | hlower
    · exact hupto 'Z' (by decide) (of_decide_eq_true hupper).2
    · exact hupto 'z' (by decide) (of_decide_eq_true (Bool.and_eq_true_iff.mp hlower).2)
  · exact hupto '9' (by decide) (of_decide_eq_true (Bool.and_eq_true_iff.mp hdigit).2)

theorem toNat_lt_of_isSafeText {c : Char} {isFirst : Bool} (h : isSafeText c isFirst = true) : c.toNat < 128 := by
  simp only [isSafeText, Bool.or_eq_true, Bool.and_eq_true, beq_iff_eq] at h
  rcases h with (((h | ⟨rfl, -⟩) | rfl) | ⟨rfl, -⟩) | rfl
  · exact toNat_lt_of_isAlphanum h
  all_goals decide

/-- A property of the ASCII characters. -/
theorem ascii_induction {p : Char → Prop} (h : ∀ n < 128, p (Char.ofNat n)) {c : Char} (hc : c.toNat < 128) : p c := by
  have := h c.toNat hc
  rwa [Char.ofNat_toNat] at this

theorem isSafeText_of_isSafeLabel {s : List Char} (h : isSafeLabel s = true) {c : Char} (hc : c ∈ s) :
    safeChar c = true := by
  cases s with
  | nil => cases hc
  | cons d s =>
    simp only [isSafeLabel, Bool.and_eq_true] at h
    rcases List.mem_cons.mp hc with rfl | hc
    · simp [safeChar, h.1]
    · have hsafe := List.all_eq_true.mp h.2 c hc
      have htable : ∀ n < 128, isSafeText (Char.ofNat n) false = true → safeChar (Char.ofNat n) = true := by decide
      exact ascii_induction (p := fun c => isSafeText c false = true → safeChar c = true) htable
        (toNat_lt_of_isSafeText hsafe) hsafe

/-- Safe text is written as it is, except for a dot. -/
theorem escapeNonAscii_of_isSafeText {c : Char} {isFirst : Bool} (h : isSafeText c isFirst = true) (hdot : c ≠ '.') :
    escapeNonAscii (UInt8.ofNat c.toNat) isFirst = [c] := by
  have htable : ∀ n < 128, ∀ f : Bool, isSafeText (Char.ofNat n) f = true → Char.ofNat n ≠ '.' →
      escapeNonAscii (UInt8.ofNat (Char.ofNat n).toNat) f = [Char.ofNat n] := by
    decide +kernel
  exact ascii_induction (p := fun c => ∀ f : Bool, isSafeText c f = true → c ≠ '.' →
    escapeNonAscii (UInt8.ofNat c.toNat) f = [c]) htable (toNat_lt_of_isSafeText h) isFirst h hdot

theorem writeAscii_of_isSafeLabel {s : List Char} (h : isSafeLabel s = true) (hdot : '.' ∉ s) :
    writeAscii (s.map fun c => UInt8.ofNat c.toNat) = s := by
  cases s with
  | nil => rfl
  | cons c s =>
    simp only [isSafeLabel, Bool.and_eq_true] at h
    rw [List.mem_cons, not_or] at hdot
    have hrest : (s.map fun c => UInt8.ofNat c.toNat).flatMap (escapeNonAscii · false) = s := by
      obtain ⟨-, hs⟩ := h
      replace hdot := hdot.2
      induction s with
      | nil => rfl
      | cons d s ih =>
        rw [List.all_cons, Bool.and_eq_true] at hs
        rw [List.mem_cons, not_or] at hdot
        rw [List.map_cons, List.flatMap_cons, escapeNonAscii_of_isSafeText hs.1 (Ne.symm hdot.1), ih hs.2 hdot.2]
        rfl
    rw [List.map_cons, writeAscii, escapeNonAscii_of_isSafeText h.1 (Ne.symm hdot.1), hrest]
    rfl

/-- What is written for safe text. -/
theorem mem_writeAscii {s : List Char} (h : isSafeLabel s = true) {c : Char}
    (hc : c ∈ writeAscii (s.map fun c => UInt8.ofNat c.toNat)) : c = '\\' ∨ safeChar c = true := by
  have htable : ∀ n < 128, ∀ f : Bool, isSafeText (Char.ofNat n) f = true →
      (escapeNonAscii (UInt8.ofNat (Char.ofNat n).toNat) f).all (fun c => c == '\\' || safeChar c) = true := by
    decide +kernel
  have hchar {d : Char} {f : Bool} (hd : isSafeText d f = true) (hc : c ∈ escapeNonAscii (UInt8.ofNat d.toNat) f) :
      c = '\\' ∨ safeChar c = true := by
    have hall := ascii_induction (p := fun d => ∀ f : Bool, isSafeText d f = true →
      (escapeNonAscii (UInt8.ofNat d.toNat) f).all (fun c => c == '\\' || safeChar c) = true) htable
        (toNat_lt_of_isSafeText hd) f hd
    simpa using List.all_eq_true.mp hall c hc
  cases s with
  | nil => cases hc
  | cons d s =>
    simp only [isSafeLabel, Bool.and_eq_true] at h
    rw [List.map_cons, writeAscii] at hc
    rcases List.mem_append.mp hc with hc | hc
    · exact hchar h.1 hc
    · obtain ⟨b, hb, hc⟩ := List.mem_flatMap.mp hc
      obtain ⟨d', hd', rfl⟩ := List.mem_map.mp hb
      exact hchar (List.all_eq_true.mp h.2 d' hd') hc

theorem plainChar_of_safeChar {c : Char} (h : safeChar c = true) (hdot : c ≠ '.') : plainChar c = true := by
  have htable : ∀ n < 128, safeChar (Char.ofNat n) = true → Char.ofNat n ≠ '.' → plainChar (Char.ofNat n) = true := by
    decide +kernel
  have hlt : c.toNat < 128 := by
    rw [safeChar, Bool.or_eq_true, beq_iff_eq] at h
    rcases h with h | rfl
    · exact toNat_lt_of_isSafeText h
    · decide
  exact ascii_induction (p := fun c => safeChar c = true → c ≠ '.' → plainChar c = true) htable hlt h hdot

namespace Label

def chars (l : Label) : List Char := l.bytes.map charOf

/-- The label reads as ASCII. -/
def Safe (l : Label) : Prop := isSafeLabel l.chars = true

theorem chars_of_fromAscii {s : List Char} {l : Label} (h : fromAscii s = some l) : l.chars = s ∧ isSafeLabel s = true := by
  unfold fromAscii at h
  split_ifs at h with hs
  obtain rfl := Option.some.inj h
  refine ⟨?_, hs.1⟩
  unfold chars
  rw [List.map_map]
  conv_rhs => rw [← List.map_id s]
  apply List.map_congr_left
  intro c hc
  have hsafe := isSafeText_of_isSafeLabel hs.1 hc
  rw [safeChar, Bool.or_eq_true, beq_iff_eq] at hsafe
  rcases hsafe with hsafe | rfl
  · exact charOf_ofNat (toNat_lt_of_isSafeText hsafe)
  · rfl

theorem safe_of_fromAscii {s : List Char} {l : Label} (h : fromAscii s = some l) : l.Safe := by
  obtain ⟨hs, hsafe⟩ := chars_of_fromAscii h
  unfold Safe
  rwa [hs]

theorem map_chars (l : Label) : (l.chars.map fun c => UInt8.ofNat c.toNat) = l.bytes := by
  unfold chars
  rw [List.map_map]
  conv_rhs => rw [← List.map_id l.bytes]
  apply List.map_congr_left
  intro b _
  have htable : ∀ n < 256, (Char.ofNat n).toNat = n := by decide +kernel
  have hb : (charOf b).toNat = b.toNat := htable b.toNat b.toNat_lt
  show UInt8.ofNat (charOf b).toNat = b
  rw [hb, UInt8.ofNat_toNat]

theorem Safe.fromAscii_chars {l : Label} (h : l.Safe) : fromAscii l.chars = some l := by
  have hlen : l.chars.length ≤ 63 := by
    unfold chars
    rw [List.length_map]
    exact l.short
  unfold fromAscii
  rw [dif_pos ⟨h, hlen⟩]
  exact congrArg some (ext_bytes l.map_chars)

theorem Safe.writeAscii {l : Label} (h : l.Safe) (hdot : '.' ∉ l.chars) : writeAscii l.bytes = l.chars := by
  rw [← l.map_chars]
  exact writeAscii_of_isSafeLabel h hdot

/-- The Unicode text that is written for the label. -/
def unicode (toUnicode : List UInt8 → Option String) (l : Label) : Option String :=
  if IDNA_PREFIX.isPrefixOf l.bytes then toUnicode l.bytes else none

end Label

/-- What the IDNA package says of its conversions: ASCII text is only lowered, STD3 lets letters,
digits, hyphens and dots through, what is in ASCII stays so, and the Unicode text of an `xn--` label
stands for that label. -/
structure Idna (toAscii : List Char → Option (List Char)) (toUnicode : List UInt8 → Option String) : Prop where
  ascii {s a} : toAscii s = some a → ∀ c ∈ a, c.toNat < 128
  std3 {s a} : toAscii s = some a → ∀ c ∈ s, c.toNat < 128 → c.isAlphanum = true ∨ c = '-' ∨ c = '.'
  lower {s a} : toAscii s = some a → (∀ c ∈ s, c.toNat < 128) → a = s.map Char.toLower
  again {s a} : toAscii s = some a → toAscii a = some a
  same {b u} : IDNA_PREFIX.isPrefixOf b = true → (∀ x ∈ b, x.toNat < 128) → toUnicode b = some u →
    toAscii u.toList = toAscii (b.map charOf)
  dots {b u} : IDNA_PREFIX.isPrefixOf b = true → (∀ x ∈ b, x.toNat < 128) → toUnicode b = some u →
    u.toList.count '.' = b.count 46
  kept {b u} : IDNA_PREFIX.isPrefixOf b = true → (∀ x ∈ b, x.toNat < 128) → toUnicode b = some u →
    ∀ c ∈ u.toList, (∃ x ∈ b, c = (charOf x).toLower) ∨ (128 ≤ c.toNat ∧ plainChar c = true)
  encoded {b u} : IDNA_PREFIX.isPrefixOf b = true → (∀ x ∈ b, x.toNat < 128) → toUnicode b = some u →
    ∃ c ∈ u.toList, 128 ≤ c.toNat

section

variable {toAscii : List Char → Option (List Char)} {toUnicode : List UInt8 → Option String}

namespace Label

theorem Safe.bytes_lt {l : Label} (h : l.Safe) : ∀ x ∈ l.bytes, x.toNat < 128 := by
  intro x hx
  rw [← l.map_chars] at hx
  obtain ⟨c, hc, rfl⟩ := List.mem_map.mp hx
  have hsafe := isSafeText_of_isSafeLabel h hc
  rw [safeChar, Bool.or_eq_true, beq_iff_eq] at hsafe
  have hlt : c.toNat < 128 := by
    rcases hsafe with hsafe | rfl
    · exact toNat_lt_of_isSafeText hsafe
    · decide
  rwa [UInt8.toNat_ofNat_of_lt' (by show c.toNat < 256; omega)]

theorem Safe.chars_lt {l : Label} (h : l.Safe) : ∀ c ∈ l.chars, c.toNat < 128 := by
  intro c hc
  have hsafe := isSafeText_of_isSafeLabel h hc
  rw [safeChar, Bool.or_eq_true, beq_iff_eq] at hsafe
  rcases hsafe with hsafe | rfl
  · exact toNat_lt_of_isSafeText hsafe
  · decide

theorem exists_fromAscii {s : List Char} {l : Label} (h : fromUtf8 toAscii s = some l) : ∃ a, fromAscii a = some l := by
  unfold fromUtf8 at h
  split_ifs at h
  · exact ⟨['*'], h⟩
  · exact ⟨s, h⟩
  · obtain ⟨a, -, ha⟩ := Option.bind_eq_some_iff.mp h
    exact ⟨a, ha⟩

theorem safe_of_fromUtf8 {s : List Char} {l : Label} (h : fromUtf8 toAscii s = some l) : l.Safe := by
  obtain ⟨a, ha⟩ := exists_fromAscii h
  exact safe_of_fromAscii ha

/-- A label that was read is read again. -/
theorem fromUtf8_chars (idna : Idna toAscii toUnicode) {s : List Char} {l : Label} (h : fromUtf8 toAscii s = some l) :
    fromUtf8 toAscii l.chars = some l := by
  have hsafe := safe_of_fromUtf8 h
  unfold fromUtf8 at h ⊢
  by_cases hstar : l.chars = ['*']
  · rw [if_pos hstar]
    refine congrArg some (ext_bytes ?_)
    rw [← l.map_chars, hstar]
    rfl
  rw [if_neg hstar]
  by_cases hunder : l.chars.head? = some '_'
  · rw [if_pos hunder]
    exact hsafe.fromAscii_chars
  rw [if_neg hunder]
  split_ifs at h with hs hs'
  · obtain rfl := Option.some.inj h
    exact absurd rfl hstar
  · rw [(chars_of_fromAscii h).1] at hunder
    exact absurd hs' hunder
  · obtain ⟨a, ha, hl⟩ := Option.bind_eq_some_iff.mp h
    rw [(chars_of_fromAscii hl).1, idna.again ha]
    exact hl

/-- Text that does not begin with `_` and is not a `*` goes through IDNA. -/
theorem fromUtf8_of_head {s : List Char} {c : Char} (h : s.head? = some c) (hstar : c ≠ '*') (hunder : c ≠ '_') :
    fromUtf8 toAscii s = (toAscii s).bind fromAscii := by
  have hs : s ≠ ['*'] := by
    rintro rfl
    exact hstar (Option.some.inj h).symm
  unfold fromUtf8
  rw [if_neg hs, h, if_neg (by simpa using hunder)]

theorem fromAscii_none {s : List Char} {c : Char} (hc : c ∈ s) (h : 128 ≤ c.toNat) : fromAscii s = none := by
  by_contra hsome
  obtain ⟨l, hl⟩ := Option.ne_none_iff_exists'.mp hsome
  have hlt := (safe_of_fromAscii hl).chars_lt c ((chars_of_fromAscii hl).1 ▸ hc)
  omega

/-- What the Unicode text of a label is read as. -/
theorem fromUtf8_unicode (idna : Idna toAscii toUnicode) {l : Label} (hsafe : l.Safe) {u : String}
    (h : l.unicode toUnicode = some u) : fromUtf8 toAscii u.toList = fromUtf8 toAscii l.chars := by
  unfold unicode at h
  split_ifs at h with hprefix
  obtain ⟨c, hc, hlt⟩ := idna.encoded hprefix hsafe.bytes_lt h
  have hsame : toAscii u.toList = toAscii l.chars := idna.same hprefix hsafe.bytes_lt h
  have hchars : fromUtf8 toAscii l.chars = (toAscii l.chars).bind fromAscii := by
    obtain ⟨t, ht⟩ := List.isPrefixOf_iff_prefix.mp hprefix
    refine fromUtf8_of_head (c := 'x') ?_ (by decide) (by decide)
    unfold chars
    rw [← ht]
    rfl
  have hstar : u.toList ≠ ['*'] := by
    intro hu
    rw [hu] at hc
    obtain rfl := List.mem_singleton.mp hc
    exact absurd hlt (by decide)
  rw [hchars]
  unfold fromUtf8
  rw [if_neg hstar]
  by_cases hunder : u.toList.head? = some '_'
  · rw [if_pos hunder, fromAscii_none hc hlt]
    cases hto : toAscii l.chars with
    | none => rfl
    | some a =>
      have hmem : '_' ∈ u.toList := List.mem_of_head? hunder
      exact absurd (idna.std3 (hsame.trans hto) '_' hmem (by decide)) (by decide)
  · rw [if_neg hunder, hsame]

theorem labelText_unicode {l : Label} {u : String} (h : l.unicode toUnicode = some u) :
    labelText toUnicode l = u.toList := by
  unfold unicode at h
  unfold labelText
  split_ifs at h with hprefix
  rw [if_pos hprefix, h]

theorem labelText_plain {l : Label} (h : l.unicode toUnicode = none) : labelText toUnicode l = writeAscii l.bytes := by
  unfold unicode at h
  unfold labelText
  by_cases hprefix : IDNA_PREFIX.isPrefixOf l.bytes = true
  · rw [if_pos hprefix] at h ⊢
    rw [h]
  · rw [if_neg hprefix]

/-- Written, a label without a dot is read as the label itself. -/
theorem fromUtf8_labelText (idna : Idna toAscii toUnicode) {l : Label} (hsafe : l.Safe) (hdot : '.' ∉ l.chars) :
    fromUtf8 toAscii (labelText toUnicode l) = fromUtf8 toAscii l.chars := by
  cases h : l.unicode toUnicode with
  | some u => rw [labelText_unicode h, fromUtf8_unicode idna hsafe h]
  | none => rw [labelText_plain h, hsafe.writeAscii hdot]

theorem dot_mem_chars {l : Label} : '.' ∈ l.chars ↔ 46 ∈ l.bytes := by
  have htable : ∀ n < 256, Char.ofNat n = '.' → n = 46 := by decide +kernel
  constructor
  · intro h
    obtain ⟨b, hb, hdot⟩ := List.mem_map.mp h
    have hval := htable b.toNat b.toNat_lt hdot
    have : b = 46 := UInt8.toNat_inj.mp hval
    rwa [this] at hb
  · exact fun h => List.mem_map.mpr ⟨46, h, rfl⟩

theorem Safe.unicode_mem (idna : Idna toAscii toUnicode) {l : Label} (hsafe : l.Safe) {u : String}
    (h : l.unicode toUnicode = some u) {c : Char} (hc : c ∈ u.toList) :
    safeChar c = true ∨ 128 ≤ c.toNat ∧ plainChar c = true := by
  unfold unicode at h
  split_ifs at h with hprefix
  rcases idna.kept hprefix hsafe.bytes_lt h c hc with ⟨x, hx, rfl⟩ | hother
  · left
    have htable : ∀ n < 128, safeChar (Char.ofNat n) = true → safeChar (Char.ofNat n).toLower = true := by decide +kernel
    have hmem : charOf x ∈ l.chars := List.mem_map_of_mem hx
    exact ascii_induction (p := fun c => safeChar c = true → safeChar c.toLower = true) htable
      (hsafe.chars_lt _ hmem) (isSafeText_of_isSafeLabel hsafe hmem)
  · exact .inr hother

theorem Safe.mem_labelText (idna : Idna toAscii toUnicode) {l : Label} (hsafe : l.Safe) {c : Char}
    (hc : c ∈ labelText toUnicode l) : c = '\\' ∨ safeChar c = true ∨ 128 ≤ c.toNat ∧ plainChar c = true := by
  cases h : l.unicode toUnicode with
  | some u =>
    rw [labelText_unicode h] at hc
    exact .inr (hsafe.unicode_mem idna h hc)
  | none =>
    rw [labelText_plain h, ← l.map_chars] at hc
    exact (mem_writeAscii hsafe hc).imp_right .inl

theorem Safe.plain_labelText (idna : Idna toAscii toUnicode) {l : Label} (hsafe : l.Safe) (hdot : '.' ∉ l.chars) :
    (labelText toUnicode l).all plainChar = true := by
  rw [List.all_eq_true]
  intro c hc
  cases h : l.unicode toUnicode with
  | some u =>
    rw [labelText_unicode h] at hc
    rcases hsafe.unicode_mem idna h hc with hc' | ⟨-, hc'⟩
    · refine plainChar_of_safeChar hc' ?_
      rintro rfl
      unfold unicode at h
      split_ifs at h with hprefix
      have hcount := idna.dots hprefix hsafe.bytes_lt h
      have hpos : 0 < u.toList.count '.' := List.count_pos_iff.mpr hc
      rw [hcount, List.count_pos_iff] at hpos
      exact hdot (dot_mem_chars.mpr hpos)
    · exact hc'
  | none =>
    rw [labelText_plain h, hsafe.writeAscii hdot] at hc
    refine plainChar_of_safeChar (isSafeText_of_isSafeLabel hsafe hc) ?_
    rintro rfl
    exact hdot hc

end Label

/-! ### The text of a name -/

namespace Name

/-- A label of the name has a dot in it. -/
def Dotted (n : Name) : Prop := ∃ l ∈ n.labels, '.' ∈ l.chars

/-- IDNA refuses one label, and another is written as Unicode. -/
def Mixed (toAscii : List Char → Option (List Char)) (toUnicode : List UInt8 → Option String) (n : Name) : Prop :=
  (∃ l ∈ n.labels, Label.fromUtf8 toAscii l.chars = none) ∧ ∃ l ∈ n.labels, l.unicode toUnicode ≠ none

/-- How a name is read from a text. -/
inductive ReadFrom (toAscii : List Char → Option (List Char)) (text : List Char) (n : Name) : Prop
  | root (htext : text = ['.']) (h : n = Name.root)
  | utf8 (parts : List (List Char)) (h : NameParts (Label.fromUtf8 toAscii) parts n text)
  | ascii (parts : List (List Char)) (hutf8 : fromEncodedStr (Label.fromUtf8 toAscii) text = none)
      (h : NameParts Label.fromAscii parts n text)

theorem readFrom_of_fromStr {text : List Char} {n : Name} (htext : text ≠ []) (h : fromStr toAscii text = some n) :
    ReadFrom toAscii text n := by
  rcases Option.or_eq_some_iff.mp h with h | ⟨hutf8, h⟩
  · rcases exists_nameParts htext h with ⟨hroot, rfl⟩ | ⟨parts, hparts⟩
    · exact .root hroot rfl
    · exact .utf8 parts hparts
  · rcases exists_nameParts htext h with ⟨hroot, rfl⟩ | ⟨parts, hparts⟩
    · exact .root hroot rfl
    · exact .ascii parts hutf8 hparts

theorem ReadFrom.safe {text : List Char} {n : Name} (h : ReadFrom toAscii text n) {l : Label} (hl : l ∈ n.labels) :
    l.Safe := by
  rcases h with ⟨-, rfl⟩ | ⟨parts, h⟩ | ⟨parts, -, h⟩
  · cases hl
  · obtain ⟨p, -, hp⟩ := exists_part_of_mem h.labels hl
    exact Label.safe_of_fromUtf8 hp
  · obtain ⟨p, -, hp⟩ := exists_part_of_mem h.labels hl
    exact Label.safe_of_fromAscii hp

theorem nameText_eq (toUnicode : List UInt8 → Option String) {n : Name} (h : n.labels ≠ []) :
    nameText toUnicode n = joined '.' (n.labels.map (labelText toUnicode)) ++ if n.isFqdn then ['.'] else [] := by
  obtain ⟨f, labels⟩ := n
  cases labels with
  | nil => exact absurd rfl h
  | cons l ls =>
    rw [List.map_cons, joined, List.flatMap_map]
    rfl

theorem fromUtf8_nil (idna : Idna toAscii toUnicode) : Label.fromUtf8 toAscii [] = none := by
  have hne : ([] : List Char) ≠ ['*'] := by decide
  unfold Label.fromUtf8
  rw [if_neg hne, if_neg (by decide)]
  cases h : toAscii [] with
  | none => rfl
  | some a =>
    rw [idna.lower h (fun c hc => (List.not_mem_nil hc).elim)]
    rfl

theorem labels_ne_nil {toLabel : List Char → Option Label} {parts : List (List Char)} {n : Name} {text : List Char}
    (h : NameParts toLabel parts n text) : n.labels ≠ [] := by
  intro hnil
  have hlabels := h.labels
  rw [hnil] at hlabels
  exact h.ne_nil (List.forall₂_nil_right_iff.mp hlabels)

/-- The labels as they are written are the parts of the text. -/
theorem nameParts_nameText {toLabel : List Char → Option Label} (idna : Idna toAscii toUnicode) {n : Name}
    (hne : n.labels ≠ []) (hsafe : ∀ l ∈ n.labels, l.Safe) (hdot : ¬ n.Dotted)
    (hshort : encodedLen n.labels ≤ MAX_LENGTH)
    (h : ∀ l ∈ n.labels, toLabel (labelText toUnicode l) = some l) :
    NameParts toLabel (n.labels.map (labelText toUnicode)) n (nameText toUnicode n) where
  text_eq := nameText_eq toUnicode hne
  ne_nil := by simpa using hne
  plain p hp := by
    obtain ⟨l, hl, rfl⟩ := List.mem_map.mp hp
    exact (hsafe l hl).plain_labelText idna fun hmem => hdot ⟨l, hl, hmem⟩
  labels := by
    rw [List.forall₂_map_left_iff, List.forall₂_same]
    exact h
  short := hshort

theorem parts_eq_chars {parts : List (List Char)} {n : Name} {text : List Char}
    (h : NameParts Label.fromAscii parts n text) : parts = n.labels.map Label.chars := by
  have hlabels := h.labels
  clear h
  generalize n.labels = labels at hlabels
  induction hlabels with
  | nil => rfl
  | cons hp _ ih => rw [List.map_cons, ← ih, (Label.chars_of_fromAscii hp).1]

/-- Labels that IDNA takes one by one are taken together: of ASCII they keep their length. -/
theorem exists_utf8_of_ascii (idna : Idna toAscii toUnicode) {parts : List (List Char)} {n : Name} {text : List Char}
    (h : NameParts Label.fromAscii parts n text) (htaken : ∀ l ∈ n.labels, Label.fromUtf8 toAscii l.chars ≠ none) :
    fromEncodedStr (Label.fromUtf8 toAscii) text ≠ none := by
  have hlen {l l' : Label} (hsafe : l.Safe) (h : Label.fromUtf8 toAscii l.chars = some l') :
      l'.bytes.length = l.bytes.length := by
    have hchars (l : Label) : l.chars.length = l.bytes.length := List.length_map _
    unfold Label.fromUtf8 at h
    split_ifs at h with hstar
    · obtain rfl := Option.some.inj h
      rw [← hchars l, hstar]
      rfl
    · rw [← hchars l', (Label.chars_of_fromAscii h).1, hchars]
    · obtain ⟨a, ha, hl'⟩ := Option.bind_eq_some_iff.mp h
      rw [← hchars l', (Label.chars_of_fromAscii hl').1, idna.lower ha hsafe.chars_lt, List.length_map, hchars]
  have hlabels (labels : List Label) (htaken : ∀ l ∈ labels, Label.fromUtf8 toAscii l.chars ≠ none)
      (hsafe : ∀ l ∈ labels, l.Safe) : ∃ labels',
        List.Forall₂ (fun p l => Label.fromUtf8 toAscii p = some l) (labels.map Label.chars) labels' ∧
          encodedLen labels' = encodedLen labels := by
    induction labels with
    | nil => exact ⟨[], .nil, rfl⟩
    | cons l ls ih =>
      obtain ⟨ls', hls', hlen'⟩ := ih (fun l hl => htaken l (List.mem_cons_of_mem _ hl))
        fun l hl => hsafe l (List.mem_cons_of_mem _ hl)
      obtain ⟨l', hl'⟩ := Option.ne_none_iff_exists'.mp (htaken l List.mem_cons_self)
      refine ⟨l' :: ls', .cons hl' hls', ?_⟩
      rw [encodedLen_cons, encodedLen_cons, hlen', hlen (hsafe l List.mem_cons_self) hl']
  have hsafe : ∀ l ∈ n.labels, l.Safe := by
    intro l hl
    obtain ⟨p, -, hp⟩ := exists_part_of_mem h.labels hl
    exact Label.safe_of_fromAscii hp
  obtain ⟨labels', hlabels', hshort⟩ := hlabels n.labels htaken hsafe
  rw [← parts_eq_chars h] at hlabels'
  have hparts : NameParts (Label.fromUtf8 toAscii) parts ⟨n.isFqdn, labels'⟩ text :=
    ⟨h.text_eq, h.ne_nil, h.plain, hlabels', hshort ▸ h.short⟩
  rw [hparts.fromEncodedStr_eq (fromUtf8_nil idna)]
  exact Option.some_ne_none _

/-- **The text of a name that was read is read as that name**, if no label has a dot in it and IDNA
takes all labels or none is written as Unicode. -/
theorem fromStr_nameText (idna : Idna toAscii toUnicode) {text : List Char} {n : Name} (h : ReadFrom toAscii text n)
    (hmixed : ¬ n.Mixed toAscii toUnicode) (hdot : ¬ n.Dotted) : fromStr toAscii (nameText toUnicode n) = some n := by
  have hdot' {l : Label} (hl : l ∈ n.labels) : '.' ∉ l.chars := fun hmem => hdot ⟨l, hl, hmem⟩
  have hsafe {l : Label} (hl : l ∈ n.labels) : l.Safe := h.safe hl
  -- Where IDNA takes all labels, each is read again.
  have htaken (hne : n.labels ≠ []) (hshort : encodedLen n.labels ≤ MAX_LENGTH)
      (hall : ∀ l ∈ n.labels, Label.fromUtf8 toAscii l.chars = some l) :
      fromStr toAscii (nameText toUnicode n) = some n := by
    have hparts : NameParts (Label.fromUtf8 toAscii) (n.labels.map (labelText toUnicode)) n (nameText toUnicode n) :=
      nameParts_nameText idna hne (fun l hl => hsafe hl) hdot hshort fun l hl =>
        (Label.fromUtf8_labelText idna (hsafe hl) (hdot' hl)).trans (hall l hl)
    unfold fromStr
    rw [hparts.fromEncodedStr_eq (fromUtf8_nil idna)]
    rfl
  cases h with
  | root _ h =>
    subst h
    rfl
  | utf8 parts hparts =>
    apply htaken (labels_ne_nil hparts) hparts.short
    intro l hl
    obtain ⟨p, -, hp⟩ := exists_part_of_mem hparts.labels hl
    exact Label.fromUtf8_chars idna hp
  | ascii parts hutf8 hparts =>
    have hplain : ∀ l ∈ n.labels, l.unicode toUnicode = none := by
      by_contra hsome
      simp only [not_forall] at hsome
      obtain ⟨l', hl', hunicode⟩ := hsome
      apply exists_utf8_of_ascii idna hparts _ hutf8
      exact fun l hl hrefused => hmixed ⟨⟨l, hl, hrefused⟩, l', hl', hunicode⟩
    have htext : nameText toUnicode n = text := by
      rw [nameText_eq toUnicode (labels_ne_nil hparts), hparts.text_eq, parts_eq_chars hparts]
      congr 2
      apply List.map_congr_left
      intro l hl
      rw [Label.labelText_plain (hplain l hl), (hsafe hl).writeAscii (hdot' hl)]
    unfold fromStr
    rw [htext, hutf8]
    exact hparts.fromEncodedStr_eq rfl

theorem mem_nameText {n : Name} {l : Label} (hl : l ∈ n.labels) {c : Char} (hc : c ∈ labelText toUnicode l) :
    c ∈ nameText toUnicode n := by
  obtain ⟨f, labels⟩ := n
  cases labels with
  | nil => cases hl
  | cons l' ls =>
    apply List.mem_append_left
    rcases List.mem_cons.mp hl with rfl | hl
    · exact List.mem_append_left _ hc
    · exact List.mem_append_right _ (List.mem_flatMap.mpr ⟨l, hl, List.mem_cons_of_mem _ hc⟩)

/-- A label in Unicode has a character that is not ASCII. -/
theorem exists_unicode_char (idna : Idna toAscii toUnicode) {l : Label} (hsafe : l.Safe) {u : String}
    (h : l.unicode toUnicode = some u) : ∃ c ∈ labelText toUnicode l, 128 ≤ c.toNat := by
  rw [Label.labelText_unicode h]
  unfold Label.unicode at h
  split_ifs at h with hprefix
  exact idna.encoded hprefix hsafe.bytes_lt h

theorem labelText_part (idna : Idna toAscii toUnicode) {l : Label} (hsafe : l.Safe) (hdot : '.' ∉ l.chars) :
    labelText toUnicode l ≠ [] ∧ '.' ∉ labelText toUnicode l := by
  refine ⟨?_, not_dot_of_plain (hsafe.plain_labelText idna hdot)⟩
  cases h : l.unicode toUnicode with
  | some u =>
    obtain ⟨c, hc, -⟩ := exists_unicode_char idna hsafe h
    exact List.ne_nil_of_mem hc
  | none =>
    rw [Label.labelText_plain h, hsafe.writeAscii hdot]
    exact fun hnil => l.nonempty (List.map_eq_nil_iff.mp hnil)

/-- Written with Unicode, the text is read by its parts or not at all. -/
theorem exists_parts_nameText (idna : Idna toAscii toUnicode) {n n' : Name} {l : Label} (hl : l ∈ n.labels)
    (hsafe : l.Safe) (hunicode : l.unicode toUnicode ≠ none) {toLabel : List Char → Option Label}
    (h : fromEncodedStr toLabel (nameText toUnicode n) = some n') :
    ∃ parts, NameParts toLabel parts n' (nameText toUnicode n) := by
  obtain ⟨u, hu⟩ := Option.ne_none_iff_exists'.mp hunicode
  obtain ⟨c, hc, hlt⟩ := exists_unicode_char idna hsafe hu
  have hmem := mem_nameText hl hc
  rcases exists_nameParts (List.ne_nil_of_mem hmem) h with ⟨hroot, -⟩ | hparts
  · rw [hroot] at hmem
    obtain rfl := List.mem_singleton.mp hmem
    exact absurd hlt (by decide)
  · exact hparts

/-- **A mixed name is not read back.** -/
theorem Mixed.fromStr_nameText (idna : Idna toAscii toUnicode) {n : Name} (hsafe : ∀ l ∈ n.labels, l.Safe)
    (hmixed : n.Mixed toAscii toUnicode) (hdot : ¬ n.Dotted) : fromStr toAscii (nameText toUnicode n) = none := by
  obtain ⟨⟨l, hl, hrefused⟩, l', hl', hunicode⟩ := hmixed
  have hdot' {l : Label} (hl : l ∈ n.labels) : '.' ∉ l.chars := fun hmem => hdot ⟨l, hl, hmem⟩
  have hparts {toLabel : List Char → Option Label} (hnil : toLabel [] = none)
      (h : fromEncodedStr toLabel (nameText toUnicode n) ≠ none) {l : Label} (hl : l ∈ n.labels) :
      toLabel (labelText toUnicode l) ≠ none := by
    obtain ⟨n', hn'⟩ := Option.ne_none_iff_exists'.mp h
    obtain ⟨parts, hparts⟩ := exists_parts_nameText idna hl' (hsafe l' hl') hunicode hn'
    have htext := (nameText_eq toUnicode (List.ne_nil_of_mem hl)).symm.trans hparts.text_eq
    have hwritten : ∀ g ∈ n.labels.map (labelText toUnicode), g ≠ [] ∧ '.' ∉ g := by
      intro g hg
      obtain ⟨l, hl, rfl⟩ := List.mem_map.mp hg
      exact labelText_part idna (hsafe l hl) (hdot' hl)
    obtain ⟨heq, -⟩ := joined_inj (by simpa using List.ne_nil_of_mem hl) hparts.ne_nil hwritten
      (fun p hp => hparts.part hnil hp) htext
    obtain ⟨l'', -, hl''⟩ := exists_label_of_mem hparts.labels (heq ▸ List.mem_map_of_mem hl)
    rw [hl'']
    exact Option.some_ne_none _
  unfold fromStr
  rw [Option.or_eq_none_iff]
  constructor
  · by_contra hsome
    refine hparts (fromUtf8_nil idna) hsome hl ?_
    rw [Label.fromUtf8_labelText idna (hsafe l hl) (hdot' hl)]
    exact hrefused
  · by_contra hsome
    obtain ⟨u, hu⟩ := Option.ne_none_iff_exists'.mp hunicode
    obtain ⟨c, hc, hlt⟩ := exists_unicode_char idna (hsafe l' hl') hu
    exact hparts rfl hsome hl' (Label.fromAscii_none hc hlt)

theorem backslash_mem_writeAscii {bytes : List UInt8} (h : 46 ∈ bytes) : '\\' ∈ writeAscii bytes := by
  cases bytes with
  | nil => cases h
  | cons b bs =>
    rw [writeAscii]
    rcases List.mem_cons.mp h with rfl | h
    · exact List.mem_append_left _ (by decide)
    · exact List.mem_append_right _ (List.mem_flatMap.mpr ⟨46, h, by decide⟩)

/-- **A dot in a label is written with an escape or tells other labels.** -/
theorem Dotted.unread (idna : Idna toAscii toUnicode) {n : Name} (hsafe : ∀ l ∈ n.labels, l.Safe) (hdot : n.Dotted) :
    '\\' ∈ nameText toUnicode n ∨
      ∀ n', fromStr toAscii (nameText toUnicode n) = some n' → (n' == n) = false := by
  obtain ⟨l, hl, hmem⟩ := hdot
  cases hunicode : l.unicode toUnicode with
  | none =>
    left
    apply mem_nameText hl
    rw [Label.labelText_plain hunicode]
    exact backslash_mem_writeAscii (Label.dot_mem_chars.mp hmem)
  | some u =>
    right
    intro n' hn'
    have hsome : l.unicode toUnicode ≠ none := by rw [hunicode]; exact Option.some_ne_none _
    have hcount {toLabel : List Char → Option Label}
        (h : fromEncodedStr toLabel (nameText toUnicode n) = some n') : (n' == n) = false := by
      obtain ⟨parts, hparts⟩ := exists_parts_nameText idna hl (hsafe l hl) hsome h
      rw [← Bool.not_eq_true, beq_iff]
      rintro ⟨hfqdn, hlowers⟩
      have hlen := labels_length_eq hlowers
      have htext := (nameText_eq toUnicode (List.ne_nil_of_mem hl)).symm.trans hparts.text_eq
      rw [hfqdn] at htext
      have hjoined := List.append_cancel_right htext
      have hwritten := count_joined '.' (n.labels.map (labelText toUnicode))
        (by simpa using List.ne_nil_of_mem hl)
      have hread := count_joined '.' parts hparts.ne_nil
      have hnone : parts.flatten.count '.' = 0 := by
        rw [List.count_eq_zero]
        intro hflat
        obtain ⟨p, hp, hdot⟩ := List.mem_flatten.mp hflat
        exact not_dot_of_plain (hparts.plain p hp) hdot
      have hdots : 0 < (n.labels.map (labelText toUnicode)).flatten.count '.' := by
        rw [List.count_pos_iff]
        refine List.mem_flatten.mpr ⟨_, List.mem_map_of_mem hl, ?_⟩
        rw [Label.labelText_unicode hunicode, ← List.count_pos_iff]
        unfold Label.unicode at hunicode
        split_ifs at hunicode with hprefix
        rw [idna.dots hprefix (hsafe l hl).bytes_lt hunicode, List.count_pos_iff]
        exact Label.dot_mem_chars.mp hmem
      have hsame := hparts.labels.length_eq
      rw [hjoined, List.length_map] at hwritten
      omega
    rcases Option.or_eq_some_iff.mp hn' with h | ⟨-, h⟩
    · exact hcount h
    · exact hcount h

end Name

end

end Dns
end SmartDns
