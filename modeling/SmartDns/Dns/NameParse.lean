/-
# Names from their text

`Name::from_str` of the vendored name type: labels between dots, each taken through IDNA
(a third-party package, the parameter `toAscii`) or, where that fails for one of them,
all as ASCII; a dot at the end makes the name fully qualified.

The escapes of `from_encoded_str` are left out: the configuration's parser of a name
stops at a backslash, so no text with one gets here.

Key definitions: `Label.fromAscii`, `Name.fromStr`, `Name.appendName`.
Key theorem: `Name.appendName_eq`.
-/
import SmartDns.Dns.Name

namespace SmartDns
namespace Dns

/-- `char::is_whitespace`. -/
def isWhitespace (c : Char) : Bool :=
  let n := c.toNat
  (9 ≤ n && n ≤ 13) || n = 0x20 || n = 0x85 || n = 0xa0 || n = 0x1680 || (0x2000 ≤ n && n ≤ 0x200a) ||
    n = 0x2028 || n = 0x2029 || n = 0x202f || n = 0x205f || n = 0x3000

/-- `char::is_control`. -/
def isControl (c : Char) : Bool := c.toNat < 32 || (127 ≤ c.toNat && c.toNat < 160)

/-- `is_safe_ascii` for decoding. -/
def isSafeText (c : Char) (isFirst : Bool) : Bool :=
  c.isAlphanum || (c == '-' && !isFirst) || c == '_' || (c == '*' && isFirst) || c == '.'

def isSafeLabel : List Char → Bool
  | [] => false
  | c :: cs => isSafeText c true && cs.all (isSafeText · false)

namespace Label

/-- `from_ascii`. -/
def fromAscii (s : List Char) : Option Label :=
  if h : isSafeLabel s = true ∧ s.length ≤ 63 then
    some ⟨s.map fun c => UInt8.ofNat c.toNat, by
      rintro hs
      simp [List.map_eq_nil_iff.mp hs, isSafeLabel] at h, by simp [h.2]⟩
  else none

/-- `from_utf8`. -/
def fromUtf8 (toAscii : List Char → Option (List Char)) (s : List Char) : Option Label :=
  if s = ['*'] then some star
  else if s.head? = some '_' then fromAscii s
  else (toAscii s).bind fromAscii

end Label

namespace Name

/-- `MAX_LENGTH`. -/
def MAX_LENGTH : ℕ := 255

/-- The loop of `from_encoded_str`: the labels behind dots, and the label begun last. -/
def readLabels (toLabel : List Char → Option Label) : List Label → List Char → List Char →
    Option (List Label × List Char)
  | labels, label, [] => some (labels, label)
  | labels, label, ch :: text =>
    if ch = '.' then (toLabel label).bind fun l => readLabels toLabel (labels ++ [l]) [] text
    else if ch = '\\' || isControl ch || isWhitespace ch then none
    else readLabels toLabel labels (label ++ [ch]) text

/-- `encoded_len` of a name with these labels. -/
def encodedLen (labels : List Label) : ℕ := labels.length + (labels.flatMap (·.bytes)).length + 1

def fromEncodedStr (toLabel : List Char → Option Label) (text : List Char) : Option Name :=
  if text = ['.'] then some root
  else
    (readLabels toLabel [] [] text).bind fun (labels, label) =>
      (if label.isEmpty then some labels else (toLabel label).map fun l => labels ++ [l]).bind fun labels =>
        if MAX_LENGTH < encodedLen labels then none else some ⟨label.isEmpty && !text.isEmpty, labels⟩

/-- `Name::from_str`, which is `from_str_relaxed`. -/
def fromStr (toAscii : List Char → Option (List Char)) (text : List Char) : Option Name :=
  (fromEncodedStr (Label.fromUtf8 toAscii) text).or (fromEncodedStr Label.fromAscii text)

/-! ### The dot at the end -/

theorem readLabels_dot (toLabel : List Char → Option Label) : ∀ (text : List Char) (labels : List Label) (label : List Char),
    readLabels toLabel labels label (text ++ ['.']) =
      (readLabels toLabel labels label text).bind fun x => (toLabel x.2).map fun l => (x.1 ++ [l], [])
  | [], labels, label => by cases h : toLabel label <;> simp [readLabels, h]
  | ch :: text, labels, label => by
    simp only [List.cons_append, readLabels]
    by_cases hdot : ch = '.'
    · rw [if_pos hdot, if_pos hdot, Option.bind_assoc]
      exact Option.bind_congr fun l _ => readLabels_dot toLabel text (labels ++ [l]) []
    · rw [if_neg hdot, if_neg hdot]
      split_ifs
      · rfl
      · exact readLabels_dot toLabel text labels (label ++ [ch])

/-- A text that does not end with a dot ends with a label begun. -/
theorem readLabels_snd_ne_nil (toLabel : List Char → Option Label) : ∀ {text : List Char} {labels : List Label}
    {label : List Char} {x : List Label × List Char}, (text = [] → label ≠ []) → text.getLast? ≠ some '.' →
    readLabels toLabel labels label text = some x → x.2 ≠ []
  | [], _, _, _, hne, _, h => by
    cases h
    exact hne rfl
  | ch :: text, labels, label, x, _, hlast, h => by
    have hlast' : text.getLast? ≠ some '.' := by
      cases text with
      | nil => simp
      | cons d text => simpa [List.getLast?_cons_cons] using hlast
    simp only [readLabels] at h
    split_ifs at h with hdot
    · obtain ⟨l, -, h⟩ := Option.bind_eq_some_iff.mp h
      refine readLabels_snd_ne_nil toLabel ?_ hlast' h
      rintro rfl
      simp [hdot] at hlast
    · exact readLabels_snd_ne_nil toLabel (by simp) hlast' h

theorem fromEncodedStr_dot (toLabel : List Char → Option Label) {text : List Char} (hne : text ≠ [])
    (hlast : text.getLast? ≠ some '.') :
    fromEncodedStr toLabel (text ++ ['.']) = (fromEncodedStr toLabel text).map (·.setFqdn true) := by
  have hdot : text ++ ['.'] ≠ ['.'] := by simpa using hne
  have ht : text ≠ ['.'] := by
    rintro rfl
    exact hlast rfl
  rw [fromEncodedStr, fromEncodedStr, if_neg hdot, if_neg ht, readLabels_dot]
  cases hread : readLabels toLabel [] [] text with
  | none => rfl
  | some x =>
    have hx : x.2 ≠ [] := readLabels_snd_ne_nil toLabel (fun h => absurd h hne) hlast hread
    cases hl : toLabel x.2 with
    | none => simp [hl, hx]
    | some l =>
      by_cases hlen : MAX_LENGTH < encodedLen (x.1 ++ [l])
      · simp [hl, hx, hlen]
      · simp [hl, hx, hlen, setFqdn]

/-! ### One name behind another -/

/-- `extend_name`. -/
def extendName (n : Name) (label : Label) : Option Name :=
  if MAX_LENGTH < encodedLen n.labels + label.bytes.length + 1 then none
  else some { n with labels := n.labels ++ [label] }

/-- `append_name`. -/
def appendName (n other : Name) : Option Name := (other.labels.foldlM extendName n).map (·.setFqdn other.isFqdn)

/-- `append_domain`. -/
def appendDomain (n domain : Name) : Option Name := (n.appendName domain).map (·.setFqdn true)

theorem encodedLen_append (ls ls' : List Label) :
    encodedLen (ls ++ ls') = encodedLen ls + ls'.length + (ls'.flatMap (·.bytes)).length := by
  simp only [encodedLen, List.length_append, List.flatMap_append]
  omega

theorem foldlM_extendName : ∀ (ls : List Label) (n : Name), ls.foldlM extendName n =
    if ls = [] ∨ encodedLen (n.labels ++ ls) ≤ MAX_LENGTH then some { n with labels := n.labels ++ ls } else none
  | [], n => by simp
  | l :: ls, n => by
    have hlen : encodedLen (n.labels ++ l :: ls) =
        encodedLen n.labels + l.bytes.length + 1 + ls.length + (ls.flatMap (·.bytes)).length := by
      rw [encodedLen_append, List.length_cons, List.flatMap_cons, List.length_append]
      omega
    have hfirst : encodedLen (n.labels ++ [l]) = encodedLen n.labels + l.bytes.length + 1 := by
      simp [encodedLen_append]
      omega
    rw [List.foldlM_cons, extendName]
    by_cases h : MAX_LENGTH < encodedLen n.labels + l.bytes.length + 1
    · rw [if_pos h, if_neg (by simp only [reduceCtorEq, false_or]; omega)]
      rfl
    · rw [if_neg h]
      show ls.foldlM extendName { n with labels := n.labels ++ [l] } = _
      rw [foldlM_extendName ls]
      simp only [List.append_assoc, List.singleton_append]
      cases ls with
      | nil => rw [if_pos (.inl rfl), if_pos (.inr (by omega))]
      | cons l' ls => simp only [reduceCtorEq, false_or]

/-- A name fits behind another if all of it does. -/
theorem appendName_eq (n other : Name) : n.appendName other =
    if other.labels = [] ∨ encodedLen (n.labels ++ other.labels) ≤ MAX_LENGTH then
      some ⟨other.isFqdn, n.labels ++ other.labels⟩ else none := by
  rw [appendName, foldlM_extendName]
  split <;> rfl

theorem encodedLen_congr {n n' : Name} (h : n.lowers = n'.lowers) : encodedLen n.labels = encodedLen n'.labels := by
  have hbytes (n : Name) : (n.labels.flatMap (·.bytes)).length = n.lowers.flatten.length := by
    have hmap : n.lowers.flatten = (n.labels.flatMap (·.bytes)).map toAsciiLowercase := by
      rw [List.map_flatMap, List.flatMap_def]
      rfl
    rw [hmap, List.length_map]
  rw [encodedLen, encodedLen, labels_length_eq h, hbytes, hbytes, h]

/-- What a name becomes with another behind it does not depend on its case, up to case. -/
theorem appendName_congr {n n' : Name} (h : n.lowers = n'.lowers) (other : Name) :
    (n.appendName other).map lowers = (n'.appendName other).map lowers := by
  have hlen : encodedLen (n.labels ++ other.labels) = encodedLen (n'.labels ++ other.labels) := by
    rw [encodedLen_append, encodedLen_append, encodedLen_congr h]
  have hlowers (n : Name) : lowers ⟨other.isFqdn, n.labels ++ other.labels⟩ = n.lowers ++ other.lowers :=
    List.map_append
  rw [appendName_eq, appendName_eq, hlen]
  split
  · rw [Option.map_some, Option.map_some, hlowers, hlowers, h]
  · rfl

end Name
end Dns
end SmartDns
