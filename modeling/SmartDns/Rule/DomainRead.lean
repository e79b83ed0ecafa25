/-
# Domains are read back

The parser of a domain and what it makes (`Domain.Made`), with the text of a name in front of a slash.
A wildcard is taken up to the first dot, whatever stands before it: a slash too. So behind no sign
a name is a name only if no `*` is in front of a dot (`parseWildcardName_cases`, `alone_of_star`).

Key definitions: `WildcardRun`, `TextConversions.Documented`, `Domain.Made`.
Key theorems: `parseWildcardName_cases`, `made_of_parseDomain`, `parseName_nameText`,
`readable_of_parseName`.
-/
import SmartDns.Dns.NameRead
import SmartDns.Lib.Reader
import SmartDns.Rule.PrintedIp

namespace SmartDns
namespace Rule

open Dns
open Lib.Parse

/-! ### Runs of the parsers -/

theorem takeWhile1_iff {B : Type} {ok : B → Bool} {s t rest : List B} :
    takeWhile1 ok s = some (t, rest) ↔ t ≠ [] ∧ (∀ c ∈ t, ok c = true) ∧ NotOk ok rest ∧ s = t ++ rest := by
  constructor
  · intro h
    unfold takeWhile1 at h
    split_ifs at h with hempty
    obtain ⟨rfl, rfl⟩ := Prod.mk.inj (Option.some.inj h)
    refine ⟨by simpa using hempty, fun c hc => List.mem_takeWhile_imp hc, ?_, List.takeWhile_append_dropWhile.symm⟩
    intro c hc
    have := List.head?_dropWhile_not ok s
    rw [hc] at this
    simpa using this
  · rintro ⟨hne, hall, hrest, rfl⟩
    have htake : (t ++ rest).takeWhile ok = t ∧ (t ++ rest).dropWhile ok = rest := by
      rw [List.takeWhile_append_of_pos hall, List.dropWhile_append_of_pos hall]
      cases rest with
      | nil => simp
      | cons c rest =>
        have hc : ¬ ok c = true := by rw [hrest c rfl]; exact Bool.false_ne_true
        rw [List.takeWhile_cons_of_neg hc, List.dropWhile_cons_of_neg hc, List.append_nil]
        exact ⟨rfl, rfl⟩
    unfold takeWhile1
    rw [htake.1, htake.2, if_neg (by simpa using hne)]

theorem mapRes_iff {B A A' : Type} {p : Parser B A} {f : A → Option A'} {s rest : List B} {a' : A'} :
    mapRes p f s = some (a', rest) ↔ ∃ a, p s = some (a, rest) ∧ f a = some a' := by
  constructor
  · intro h
    obtain ⟨⟨a, s'⟩, ha, h⟩ := Option.bind_eq_some_iff.mp h
    obtain ⟨x, hx, h⟩ := Option.map_eq_some_iff.mp h
    obtain ⟨rfl, rfl⟩ := Prod.mk.inj h
    exact ⟨a, ha, hx⟩
  · rintro ⟨a, ha, hf⟩
    show (p s).bind _ = _
    rw [ha]
    show (f a).map _ = _
    rw [hf]
    rfl

theorem tag_one_iff {B : Type} [BEq B] [LawfulBEq B] {c : B} {s rest : List B} {u : Unit} :
    tag (· == ·) [c] s = some (u, rest) ↔ s = c :: rest := by
  constructor
  · exact fun h => eq_of_tag h
  · rintro rfl
    exact tag_append [c] rest

section

variable {conv : TextConversions}

/-- A character of a name. -/
def inName (c : Char) : Bool := !nameStops.contains c

theorem parseName_iff {s rest : List Char} {n : Name} : parseName conv s = some (n, rest) ↔
    ∃ t, t ≠ [] ∧ (∀ c ∈ t, inName c = true) ∧ NotOk inName rest ∧ s = t ++ rest ∧
      Name.fromStr conv.toAscii t = some n := by
  unfold parseName
  rw [mapRes_iff]
  constructor
  · rintro ⟨t, ht, hn⟩
    obtain ⟨hne, hall, hrest, hs⟩ := takeWhile1_iff.mp ht
    exact ⟨t, hne, hall, hrest, hs, hn⟩
  · rintro ⟨t, hne, hall, hrest, hs, hn⟩
    exact ⟨t, takeWhile1_iff.mpr ⟨hne, hall, hrest, hs⟩, hn⟩

/-- A wildcard goes up to the first dot, whatever is in front of it. -/
theorem parseSub_iff {s rest : List Char} {p : WildcardName} : parseSub conv s = some (p, rest) ↔
    ∃ label s' w n, s = label ++ '.' :: s' ∧ '.' ∉ label ∧ '*' ∈ label ∧ conv.wildcard label = some w ∧
      parseName conv s' = some (n, rest) ∧ p = .sub w n := by
  unfold parseSub verify
  constructor
  · intro h
    obtain ⟨⟨label, s₁⟩, hlabel, h₁⟩ := Option.bind_eq_some_iff.mp h
    obtain ⟨⟨u, s₂⟩, hdot, h₂⟩ := Option.bind_eq_some_iff.mp h₁
    obtain ⟨⟨w, s₃⟩, hw, h₃⟩ := Option.bind_eq_some_iff.mp h₂
    obtain ⟨⟨n, s₄⟩, hn, h₄⟩ := Option.bind_eq_some_iff.mp h₃
    obtain ⟨rfl, rfl⟩ := Prod.mk.inj (Option.some.inj h₄)
    obtain ⟨w', hw', heq⟩ := Option.map_eq_some_iff.mp hw
    obtain ⟨rfl, rfl⟩ := Prod.mk.inj heq
    obtain ⟨label', hrun, hverify⟩ := mapRes_iff.mp hlabel
    split_ifs at hverify with hstar
    obtain rfl := Option.some.inj hverify
    obtain ⟨-, hall, -, hs⟩ := takeWhile1_iff.mp hrun
    have hs₁ := tag_one_iff.mp hdot
    subst hs₁
    refine ⟨label', s₂, w', n, hs, ?_, by simpa using hstar, hw', hn, rfl⟩
    exact fun hmem => absurd (hall '.' hmem) (by simp)
  · rintro ⟨label, s', w, n, rfl, hdot, hstar, hw, hn, rfl⟩
    have hrun : takeWhile1 (· ≠ '.') (label ++ '.' :: s') = some (label, '.' :: s') := by
      refine takeWhile1_iff.mpr ⟨List.ne_nil_of_mem hstar, ?_, notOk_cons (by simp), rfl⟩
      intro c hc
      simpa using fun h : c = '.' => hdot (h ▸ hc)
    have hverify : mapRes (takeWhile1 (· ≠ '.')) (fun l => if l.contains '*' then some l else none)
        (label ++ '.' :: s') = some (label, '.' :: s') :=
      mapRes_iff.mpr ⟨label, hrun, if_pos (by simpa using hstar)⟩
    rw [bind_run, hverify]
    show (char '.' >>= fun _ => _) ('.' :: s') = _
    unfold char
    rw [tag_bind_cons, bind_run]
    unfold lift
    rw [hw]
    show (parseName conv s').bind _ = _
    rw [hn]
    rfl

/-- How a pattern is read. -/
inductive WildcardRun (conv : TextConversions) (s : List Char) : WildcardName → List Char → Prop
  | sub {p rest} (h : parseSub conv s = some (p, rest)) : WildcardRun conv s p rest
  | full {s' n rest} (hs : s = '-' :: '.' :: s') (h : parseName conv s' = some (n, rest)) :
      WildcardRun conv s (.full n) rest
  | suffix {s' n rest} (hs : s = '+' :: '.' :: s' ∨ s = '.' :: s') (h : parseName conv s' = some (n, rest)) :
      WildcardRun conv s (.suffix n) rest
  | name {n rest} (hsub : parseSub conv s = none) (h : parseName conv s = some (n, rest)) :
      WildcardRun conv s (patternOfName n) rest
  | plus {s' rest} (hs : s = '+' :: s') (h : s' = rest ∨ s' = '.' :: rest) :
      WildcardRun conv s (.suffix Name.root) rest

theorem parseWildcardName_cases {s rest : List Char} {p : WildcardName}
    (h : parseWildcardName conv s = some (p, rest)) : WildcardRun conv s p rest := by
  unfold parseWildcardName at h
  iterate 4 rw [orElse_run, Option.or_eq_some_iff] at h
  rcases h with h | ⟨hsub, h | ⟨-, h | ⟨-, h | ⟨-, h⟩⟩⟩⟩
  · exact .sub h
  · obtain ⟨⟨u, s₁⟩, h₁, h₂⟩ := Option.bind_eq_some_iff.mp h
    obtain ⟨⟨u', s₂⟩, h₃, h₄⟩ := Option.bind_eq_some_iff.mp h₂
    obtain ⟨⟨n, s₃⟩, hn, h₅⟩ := Option.bind_eq_some_iff.mp h₄
    obtain ⟨rfl, rfl⟩ := Prod.mk.inj (Option.some.inj h₅)
    have hs := tag_one_iff.mp h₁
    have hs' := tag_one_iff.mp h₃
    exact .full (hs.trans (congrArg _ hs')) hn
  · obtain ⟨⟨o, s₁⟩, h₁, h₂⟩ := Option.bind_eq_some_iff.mp h
    obtain ⟨⟨u', s₂⟩, h₃, h₄⟩ := Option.bind_eq_some_iff.mp h₂
    obtain ⟨⟨n, s₃⟩, hn, h₅⟩ := Option.bind_eq_some_iff.mp h₄
    obtain ⟨rfl, rfl⟩ := Prod.mk.inj (Option.some.inj h₅)
    have hs' := tag_one_iff.mp h₃
    refine .suffix ?_ hn
    cases hopt : char '+' s with
    | none =>
      rw [opt_of_none hopt] at h₁
      obtain ⟨-, rfl⟩ := Prod.mk.inj (Option.some.inj h₁)
      exact .inr hs'
    | some x =>
      rw [opt_of_some hopt] at h₁
      obtain ⟨-, rfl⟩ := Prod.mk.inj (Option.some.inj h₁)
      exact .inl ((tag_one_iff.mp hopt).trans (congrArg _ hs'))
  · obtain ⟨⟨n, s₁⟩, hn, h₂⟩ := Option.bind_eq_some_iff.mp h
    obtain ⟨rfl, rfl⟩ := Prod.mk.inj (Option.some.inj h₂)
    exact .name hsub hn
  · obtain ⟨⟨u, s₁⟩, h₁, h₂⟩ := Option.bind_eq_some_iff.mp h
    obtain ⟨⟨o, s₂⟩, h₃, h₄⟩ := Option.bind_eq_some_iff.mp h₂
    obtain ⟨rfl, rfl⟩ := Prod.mk.inj (Option.some.inj h₄)
    refine .plus (tag_one_iff.mp h₁) ?_
    cases hopt : char '.' s₁ with
    | none =>
      rw [opt_of_none hopt] at h₃
      obtain ⟨-, rfl⟩ := Prod.mk.inj (Option.some.inj h₃)
      exact .inl rfl
    | some x =>
      rw [opt_of_some hopt] at h₃
      obtain ⟨-, rfl⟩ := Prod.mk.inj (Option.some.inj h₃)
      exact .inr (tag_one_iff.mp hopt)

/-! ### The reference to a domain set -/

def parseSet : TextParser Domain := do
  tagNoCase "domain-set:"
  (fun set => Domain.set (String.ofList set)) <$> takeWhile1 (· ≠ '/')

theorem parseDomain_eq : parseDomain conv = (parseSet <|> (Domain.name <$> parseWildcardName conv)) := rfl

theorem parseDomain_name {s : List Char} (h : parseSet s = none) :
    parseDomain conv s = (parseWildcardName conv s).map fun x => (.name x.1, x.2) := by
  rw [parseDomain_eq, orElse_run, h]
  show (parseWildcardName conv s).bind _ = _
  cases parseWildcardName conv s <;> rfl

/-- A text without one of the tag's characters in front of a stranger to the tag. -/
theorem tag_missing {B : Type} {same : B → B → Bool} {c x : B} {rest : List B} : ∀ {t p : List B}, x ∈ t →
    (∀ y ∈ t, same c y = false) → (∀ b ∈ p, same b x = false) → tag same t (p ++ c :: rest) = none
  | y :: t, [], _, hc, _ => by
    show (if same c y = true then _ else none) = none
    rw [hc y List.mem_cons_self]
    rfl
  | y :: t, b :: p, hx, hc, hp => by
    show (if same b y = true then tag same t (p ++ c :: rest) else none) = none
    by_cases hb : same b y = true
    · rw [if_pos hb]
      have hx' : x ∈ t := by
        rcases List.mem_cons.mp hx with rfl | hx
        · rw [hp b List.mem_cons_self] at hb
          cases hb
        · exact hx
      exact tag_missing hx' (fun y hy => hc y (List.mem_cons_of_mem _ hy)) fun b hb => hp b (List.mem_cons_of_mem _ hb)
    · rw [if_neg hb]

/-- A stranger to the tag hides what is behind it. -/
theorem tag_mark {B : Type} {same : B → B → Bool} {c : B} : ∀ {t : List B}, (∀ y ∈ t, same c y = false) → ∀ p : List B,
    (∀ rest, tag same t (p ++ c :: rest) = none) ∨ ∃ p', ∀ rest, tag same t (p ++ c :: rest) = some ((), p' ++ c :: rest)
  | [], _, p => .inr ⟨p, fun _ => rfl⟩
  | y :: t, hc, [] => by
    left
    intro rest
    show (if same c y = true then _ else none) = none
    rw [hc y List.mem_cons_self]
    rfl
  | y :: t, hc, b :: p => by
    by_cases hb : same b y = true
    · rcases tag_mark (fun y hy => hc y (List.mem_cons_of_mem _ hy)) p with h | ⟨p', h⟩
      · exact .inl fun rest => (if_pos hb).trans (h rest)
      · exact .inr ⟨p', fun rest => (if_pos hb).trans (h rest)⟩
    · exact .inl fun rest => if_neg hb

theorem toLower_of_not_ascii {c : Char} (h : ¬ c.toNat < 128) : c.toLower = c := by
  have hupper : ¬ (c.val ≥ 'A'.val ∧ c.val ≤ 'Z'.val) := by
    rintro ⟨-, hle⟩
    have : c.toNat ≤ 90 := hle
    omega
  unfold Char.toLower
  rw [dif_neg hupper]

theorem parseSet_none {p : List Char} (h : ':' ∉ p) (rest : List Char) : parseSet (p ++ '/' :: rest) = none := by
  have hlower (c : Char) (hc : c ≠ ':') : (c.toLower == ':'.toLower) = false := by
    rw [beq_eq_false_iff_ne]
    intro heq
    have hcolon : c.toLower = ':' := heq
    by_cases hlt : c.toNat < 128
    · have htable : ∀ n < 128, (Char.ofNat n).toLower = ':' → Char.ofNat n = ':' := by decide +kernel
      exact hc (ascii_induction (p := fun c => c.toLower = ':' → c = ':') htable hlt hcolon)
    · exact hc ((toLower_of_not_ascii hlt).symm.trans hcolon)
  have htag : tagNoCase "domain-set:" (p ++ '/' :: rest) = none := by
    refine tag_missing (x := ':') (by decide) (fun y hy => ?_) fun b hb => hlower b fun h' => h (h' ▸ hb)
    have hall : ("domain-set:".toList.all fun y => ('/'.toLower == y.toLower) = false) = true := by decide +kernel
    simpa using List.all_eq_true.mp hall y hy
  unfold parseSet
  rw [bind_run, htag]
  rfl

theorem parseSet_mark (p : List Char) :
    (∀ rest, parseSet (p ++ '.' :: rest) = none) ∨ ∀ rest, parseSet (p ++ '.' :: rest) ≠ none := by
  have hstranger : ∀ y ∈ "domain-set:".toList, ('.'.toLower == y.toLower) = false := by
    have hall : ("domain-set:".toList.all fun y => ('.'.toLower == y.toLower) = false) = true := by decide +kernel
    intro y hy
    simpa using List.all_eq_true.mp hall y hy
  have hrun (rest : List Char) : parseSet (p ++ '.' :: rest) =
      (tagNoCase "domain-set:" (p ++ '.' :: rest)).bind fun x =>
        (takeWhile1 (· ≠ '/') x.2).map fun y => (Domain.set (String.ofList y.1), y.2) := by
    unfold parseSet
    rw [bind_run]
    apply Option.bind_congr
    intro x _
    show (takeWhile1 _ x.2).bind _ = _
    cases takeWhile1 (fun c => decide (c ≠ '/')) x.2 <;> rfl
  have hmark : (∀ rest, tagNoCase "domain-set:" (p ++ '.' :: rest) = none) ∨
      ∃ p', ∀ rest, tagNoCase "domain-set:" (p ++ '.' :: rest) = some ((), p' ++ '.' :: rest) := tag_mark hstranger p
  rcases hmark with h | ⟨p', h⟩
  · left
    intro rest
    rw [hrun, h rest]
    rfl
  · by_cases hslash : p'.head? = some '/'
    · left
      intro rest
      obtain ⟨p'', rfl⟩ := List.head?_eq_some_iff.mp hslash
      rw [hrun, h rest]
      rfl
    · right
      intro rest
      rw [hrun, h rest]
      obtain ⟨c, s, hs, hc⟩ : ∃ c s, p' ++ '.' :: rest = c :: s ∧ c ≠ '/' := by
        cases p' with
        | nil => exact ⟨'.', rest, rfl, by decide⟩
        | cons c p' => exact ⟨c, p' ++ '.' :: rest, rfl, fun h => hslash (congrArg some h)⟩
      show Option.map _ (takeWhile1 _ (p' ++ '.' :: rest)) ≠ none
      rw [hs]
      unfold takeWhile1
      rw [List.takeWhile_cons_of_pos (by simpa using hc)]
      exact Option.some_ne_none _

/-! ### What the parser makes -/

variable (conv) in
/-- What the packages say of their conversions: the pattern of a wildcard is its text, and a text
without an escape is one. -/
structure TextConversions.Documented : Prop extends Idna conv.toAscii conv.toUnicode where
  pattern {t w} : conv.wildcard t = some w → w.pattern = Lib.utf8 (String.ofList t)
  accepted {t} : '\\' ∉ t → conv.wildcard t ≠ none

variable (conv) in
/-- A name that was read. -/
def ReadName (n : Name) : Prop := ∃ t, Name.ReadFrom conv.toAscii t n

theorem readName_of_parseName {s rest : List Char} {n : Name} (h : parseName conv s = some (n, rest)) :
    ReadName conv n := by
  obtain ⟨t, hne, -, -, -, hn⟩ := parseName_iff.mp h
  exact ⟨t, Name.readFrom_of_fromStr hne hn⟩

theorem inName_ne {t : List Char} (h : ∀ c ∈ t, inName c = true) : '\\' ∉ t :=
  fun hmem => absurd (h '\\' hmem) (by decide)

/-- What is read as a label that begins with `*` begins with `*`. -/
theorem head_of_star (hdoc : conv.Documented) {p : List Char} {l : Label} (hstar : l.chars.head? = some '*')
    (h : Label.fromUtf8 conv.toAscii p = some l ∨ Label.fromAscii p = some l) : '*' ∈ p := by
  have hascii (h : Label.fromAscii p = some l) : '*' ∈ p := by
    rw [← (Label.chars_of_fromAscii h).1]
    exact List.mem_of_head? hstar
  rcases h with h | h
  · unfold Label.fromUtf8 at h
    split_ifs at h with hp hunder
    · rw [hp]
      exact List.mem_cons_self
    · exact hascii h
    · obtain ⟨a, ha, hl⟩ := Option.bind_eq_some_iff.mp h
      rw [(Label.chars_of_fromAscii hl).1] at hstar
      exact absurd (hdoc.std3 (hdoc.again ha) '*' (List.mem_of_head? hstar) (by decide)) (by decide)
  · exact hascii h

/-- In front of a dot a `*` makes a wildcard, if a name is behind it. -/
theorem alone_of_star (hdoc : conv.Documented) {s rest : List Char} {n : Name} (hsub : parseSub conv s = none)
    (h : parseName conv s = some (n, rest)) {l : Label} {ls : List Label} (hlabels : n.labels = l :: ls)
    (hstar : l.chars.head? = some '*') : ls = [] := by
  obtain ⟨t, hne, hall, hrest, rfl, hn⟩ := parseName_iff.mp h
  by_contra hls
  -- The text is a first part, a dot and the text of a name.
  have hsplit {toLabel : List Char → Option Label} {parts : List (List Char)} (hp : NameParts toLabel parts n t)
      (htoLabel : ∀ p, toLabel p = some l → '*' ∈ p) (hnil : toLabel [] = none) :
      ∃ p t', t = p ++ '.' :: t' ∧ '.' ∉ p ∧ '*' ∈ p ∧ t' ≠ [] ∧ Name.fromEncodedStr toLabel t' ≠ none := by
    have hforall := hp.labels
    rw [hlabels] at hforall
    obtain ⟨p, ps, hpl, hps, rfl⟩ := List.forall₂_cons_right_iff.mp hforall
    cases ps with
    | nil => exact absurd (List.forall₂_nil_left_iff.mp hps) hls
    | cons p' ps =>
      obtain ⟨t', ht, htail⟩ := hp.tail
      refine ⟨p, t', ht, (hp.part hnil List.mem_cons_self).2, htoLabel p hpl, ?_, ?_⟩
      · rw [htail.text_eq]
        have := (htail.part hnil List.mem_cons_self).1
        simp [joined, this]
      · rw [htail.fromEncodedStr_eq hnil]
        exact Option.some_ne_none _
  have hread : ∃ p t', t = p ++ '.' :: t' ∧ '.' ∉ p ∧ '*' ∈ p ∧ t' ≠ [] ∧ Name.fromStr conv.toAscii t' ≠ none := by
    cases Name.readFrom_of_fromStr hne hn with
    | root _ hroot =>
      rw [hroot] at hlabels
      cases hlabels
    | utf8 parts hp =>
      obtain ⟨p, t', ht, hdot, hmem, hne', hsome⟩ := hsplit hp (fun p h => head_of_star hdoc hstar (.inl h))
        (Name.fromUtf8_nil hdoc.toIdna)
      exact ⟨p, t', ht, hdot, hmem, hne', fun h => hsome (Option.or_eq_none_iff.mp h).1⟩
    | ascii parts _ hp =>
      obtain ⟨p, t', ht, hdot, hmem, hne', hsome⟩ := hsplit hp (fun p h => head_of_star hdoc hstar (.inr h)) rfl
      exact ⟨p, t', ht, hdot, hmem, hne', fun h => hsome (Option.or_eq_none_iff.mp h).2⟩
  obtain ⟨p, t', rfl, hdot, hmem, hne', hsome⟩ := hread
  obtain ⟨n', hn'⟩ := Option.ne_none_iff_exists'.mp hsome
  obtain ⟨w, hw⟩ := Option.ne_none_iff_exists'.mp
    (hdoc.accepted (inName_ne fun c hc => hall c (List.mem_append_left _ hc)))
  have hname : parseName conv (t' ++ rest) = some (n', rest) := by
    refine parseName_iff.mpr ⟨t', hne', ?_, hrest, rfl, hn'⟩
    exact fun c hc => hall c (List.mem_append_right _ (List.mem_cons_of_mem _ hc))
  have hparse : parseSub conv (p ++ '.' :: t' ++ rest) = some (.sub w n', rest) :=
    parseSub_iff.mpr ⟨p, t' ++ rest, w, n', by rw [List.append_assoc]; rfl, hdot, hmem, hw, hname, rfl⟩
  rw [hparse] at hsub
  cases hsub

variable (conv) in
/-- A domain that the parser makes. -/
inductive Domain.Made : Domain → Prop
  | set {s : List Char} (hne : s ≠ []) (hslash : '/' ∉ s) : Made (.set (String.ofList s))
  | sub {p : List Char} {w : Wildcard} {n : Name} (hdot : '.' ∉ p) (hstar : '*' ∈ p)
      (hw : conv.wildcard p = some w) (hset : ∀ rest, parseSet (p ++ '.' :: rest) = none) (hn : ReadName conv n) :
      Made (.name (.sub w n))
  | star : Made (.name (.sub ⟨[]⟩ Name.root))
  | full {n : Name} (hn : ReadName conv n) : Made (.name (.full n))
  | suffix {n : Name} (hn : ReadName conv n) : Made (.name (.suffix n))
  | default {n : Name} (hn : ReadName conv n) (hkind : patternOfName n = .default n)
      (halone : ∀ l ls, n.labels = l :: ls → l.chars.head? = some '*' → ls = []) : Made (.name (.default n))

theorem readName_root : ReadName conv Name.root := ⟨['.'], .root rfl rfl⟩

theorem made_of_patternOfName (hdoc : conv.Documented) {s rest : List Char} {n : Name}
    (hsub : parseSub conv s = none) (h : parseName conv s = some (n, rest)) :
    Domain.Made conv (.name (patternOfName n)) := by
  have hread := readName_of_parseName h
  have halone (l : Label) (ls : List Label) (hlabels : n.labels = l :: ls) (hstar : l.chars.head? = some '*') :
      ls = [] := alone_of_star hdoc hsub h hlabels hstar
  unfold patternOfName
  by_cases hwild : n.isWildcard = true
  · rw [if_pos hwild]
    obtain ⟨f, labels⟩ := n
    cases labels with
    | nil => cases hwild
    | cons l ls =>
      have hl : l.bytes = [42] := by simpa [Name.isWildcard] using hwild
      obtain rfl := halone l ls rfl (by unfold Label.chars; rw [hl]; rfl)
      rw [Name.baseName_cons]
      exact .star
  rw [if_neg hwild]
  by_cases hroot : n.isRoot = true
  · rw [if_pos hroot]
    exact .suffix hread
  · rw [if_neg hroot]
    refine .default hread ?_ halone
    unfold patternOfName
    rw [if_neg hwild, if_neg hroot]

theorem made_of_parseDomain (hdoc : conv.Documented) {s rest : List Char} {d : Domain}
    (h : parseDomain conv s = some (d, rest)) : Domain.Made conv d := by
  cases hset : parseSet s with
  | some x =>
    rw [parseDomain_eq, orElse_run, hset] at h
    obtain rfl := Option.some.inj h
    obtain ⟨⟨u, s₁⟩, h₁, h₂⟩ := Option.bind_eq_some_iff.mp hset
    obtain ⟨⟨set, s₂⟩, h₃, h₄⟩ := Option.bind_eq_some_iff.mp h₂
    obtain ⟨rfl, rfl⟩ := Prod.mk.inj (Option.some.inj h₄)
    obtain ⟨hne, hall, -, -⟩ := takeWhile1_iff.mp h₃
    exact .set hne fun hmem => absurd (hall '/' hmem) (by simp)
  | none =>
    rw [parseDomain_name hset] at h
    obtain ⟨⟨p, rest'⟩, hrun, heq⟩ := Option.map_eq_some_iff.mp h
    obtain ⟨rfl, rfl⟩ := Prod.mk.inj heq
    cases parseWildcardName_cases hrun with
    | sub hsub =>
      obtain ⟨label, s', w, n, rfl, hdot, hstar, hw, hn, rfl⟩ := parseSub_iff.mp hsub
      refine .sub hdot hstar hw ?_ (readName_of_parseName hn)
      exact (parseSet_mark label).resolve_right fun hall => hall s' hset
    | full _ hn => exact .full (readName_of_parseName hn)
    | suffix _ hn => exact .suffix (readName_of_parseName hn)
    | name hsub hn => exact made_of_patternOfName hdoc hsub hn
    | plus _ _ => exact .suffix readName_root

/-! ### The text of a name -/

theorem inName_of_safeChar {c : Char} (h : safeChar c = true) : inName c = true := by
  have htable : ∀ n < 128, safeChar (Char.ofNat n) = true → inName (Char.ofNat n) = true := by decide +kernel
  have hlt : c.toNat < 128 := by
    rw [safeChar, Bool.or_eq_true, beq_iff_eq] at h
    rcases h with h | rfl
    · exact toNat_lt_of_isSafeText h
    · decide
  exact ascii_induction (p := fun c => safeChar c = true → inName c = true) htable hlt h

theorem inName_of_le {c : Char} (h : 128 ≤ c.toNat) : inName c = true := by
  unfold inName
  rw [Bool.not_eq_true', ← Bool.not_eq_true, List.contains_iff_mem]
  intro hmem
  have hall : nameStops.all (fun c => decide (c.toNat < 128)) = true := by decide
  have := List.all_eq_true.mp hall c hmem
  rw [decide_eq_true_eq] at this
  omega

theorem ReadName.safe {n : Name} (h : ReadName conv n) : ∀ l ∈ n.labels, l.Safe := by
  obtain ⟨t, ht⟩ := h
  exact fun l hl => ht.safe hl

theorem mem_nameText_cases {n : Name} {c : Char} (h : c ∈ nameText conv.toUnicode n) :
    c = '.' ∨ ∃ l ∈ n.labels, c ∈ labelText conv.toUnicode l := by
  obtain ⟨f, labels⟩ := n
  rcases List.mem_append.mp h with h | h
  · cases labels with
    | nil => cases h
    | cons l ls =>
      rcases List.mem_append.mp h with h | h
      · exact .inr ⟨l, List.mem_cons_self, h⟩
      · obtain ⟨l', hl', hc⟩ := List.mem_flatMap.mp h
        rcases List.mem_cons.mp hc with rfl | hc
        · exact .inl rfl
        · exact .inr ⟨l', List.mem_cons_of_mem _ hl', hc⟩
  · cases f with
    | true => exact .inl (List.mem_singleton.mp h)
    | false => cases h

/-- Of the characters that end a name only the backslash is in the text of one. -/
theorem ReadName.mem_text (hdoc : conv.Documented) {n : Name} (hn : ReadName conv n) {c : Char}
    (h : c ∈ nameText conv.toUnicode n) : c = '\\' ∨ inName c = true := by
  rcases mem_nameText_cases h with rfl | ⟨l, hl, hc⟩
  · exact .inr (by decide)
  · rcases (hn.safe l hl).mem_labelText hdoc.toIdna hc with rfl | hc | ⟨hc, -⟩
    · exact .inl rfl
    · exact .inr (inName_of_safeChar hc)
    · exact .inr (inName_of_le hc)

theorem ReadName.not_mem_text (hdoc : conv.Documented) {n : Name} (hn : ReadName conv n) {c : Char}
    (hc : inName c = false) (hback : c ≠ '\\') : c ∉ nameText conv.toUnicode n := by
  intro h
  rcases hn.mem_text hdoc h with h | h
  · exact hback h
  · rw [hc] at h
    cases h

theorem ReadName.text_ne_nil (hdoc : conv.Documented) {n : Name} (hn : ReadName conv n) (hdot : ¬ n.Dotted) :
    nameText conv.toUnicode n ≠ [] := by
  have hsafe := hn.safe
  obtain ⟨f, labels⟩ := n
  cases labels with
  | nil =>
    obtain ⟨t, ht⟩ := hn
    cases ht with
    | root _ h =>
      rw [h]
      exact List.cons_ne_nil _ _
    | utf8 parts h => exact absurd rfl (Name.labels_ne_nil h)
    | ascii parts _ h => exact absurd rfl (Name.labels_ne_nil h)
  | cons l ls =>
    have hne := (Name.labelText_part hdoc.toIdna (hsafe l List.mem_cons_self)
      fun h => hdot ⟨l, List.mem_cons_self, h⟩).1
    obtain ⟨c, s, hc⟩ := List.exists_cons_of_ne_nil hne
    exact List.ne_nil_of_mem (Name.mem_nameText List.mem_cons_self (hc ▸ List.mem_cons_self))

/-- A name is read back in front of a slash. -/
theorem parseName_nameText (hdoc : conv.Documented) {n : Name} (hn : ReadName conv n)
    (hmixed : ¬ n.Mixed conv.toAscii conv.toUnicode) (hdot : ¬ n.Dotted) (rest : List Char) :
    parseName conv (nameText conv.toUnicode n ++ '/' :: rest) = some (n, '/' :: rest) := by
  have hname : ∀ c ∈ nameText conv.toUnicode n, inName c = true := by
    intro c hc
    rcases mem_nameText_cases hc with rfl | ⟨l, hl, hcl⟩
    · decide
    · rcases hn.mem_text hdoc hc with rfl | h
      · have hplain := (hn.safe l hl).plain_labelText hdoc.toIdna fun h => hdot ⟨l, hl, h⟩
        exact absurd (List.all_eq_true.mp hplain _ hcl) (by decide)
      · exact h
  refine parseName_iff.mpr ⟨_, hn.text_ne_nil hdoc hdot, hname, notOk_cons (by decide), rfl, ?_⟩
  obtain ⟨t, ht⟩ := hn
  exact Name.fromStr_nameText hdoc.toIdna ht hmixed hdot

/-- What is read as the name up to the slash is neither mixed nor dotted. -/
theorem readable_of_parseName (hdoc : conv.Documented) {n n' : Name} (hn : ReadName conv n) {rest rest' : List Char}
    (h : parseName conv (nameText conv.toUnicode n ++ '/' :: rest) = some (n', '/' :: rest'))
    (heq : (n' == n) = true) : ¬ n.Mixed conv.toAscii conv.toUnicode ∧ ¬ n.Dotted := by
  obtain ⟨t, -, hall, -, htext, hread⟩ := parseName_iff.mp h
  have ht : '/' ∉ t := fun hmem => absurd (hall '/' hmem) (by decide)
  have hslash := hn.not_mem_text hdoc (c := '/') (by decide) (by decide)
  obtain ⟨rfl, -⟩ := Lib.append_sep_inj hslash ht htext
  have hdot : ¬ n.Dotted := by
    intro hdot
    rcases hdot.unread hdoc.toIdna hn.safe with hback | hother
    · exact absurd (hall '\\' hback) (by decide)
    · rw [hother n' hread] at heq
      cases heq
  refine ⟨fun hmixed => ?_, hdot⟩
  rw [hmixed.fromStr_nameText hdoc.toIdna hn.safe hdot] at hread
  cases hread

/-! ### What stands before the first dot -/

theorem star_of_mem_chars {l : Label} (hsafe : l.Safe) (h : '*' ∈ l.chars) : l.chars.head? = some '*' := by
  have hlabel : isSafeLabel l.chars = true := hsafe
  cases hchars : l.chars with
  | nil => rw [hchars] at h; cases h
  | cons c s =>
    rw [hchars] at h hlabel
    rcases List.mem_cons.mp h with rfl | h
    · rfl
    · simp only [isSafeLabel, Bool.and_eq_true] at hlabel
      exact absurd (List.all_eq_true.mp hlabel.2 '*' h) (by decide)

theorem unicode_of_head {l : Label} {c : Char} (h : l.chars.head? = some c) (hc : c ≠ 'x') :
    l.unicode conv.toUnicode = none := by
  unfold Label.unicode
  refine if_neg fun hprefix => ?_
  obtain ⟨t, ht⟩ := List.isPrefixOf_iff_prefix.mp hprefix
  unfold Label.chars at h
  rw [← ht] at h
  exact hc (Option.some.inj h).symm

theorem star_of_mem_labelText (hdoc : conv.Documented) {l : Label} (hsafe : l.Safe) (hdot : '.' ∉ l.chars)
    (h : '*' ∈ labelText conv.toUnicode l) : l.chars.head? = some '*' := by
  cases hunicode : l.unicode conv.toUnicode with
  | none =>
    rw [Label.labelText_plain hunicode, hsafe.writeAscii hdot] at h
    exact star_of_mem_chars hsafe h
  | some u =>
    rw [Label.labelText_unicode hunicode] at h
    have hprefix : IDNA_PREFIX.isPrefixOf l.bytes = true := by
      by_contra hno
      unfold Label.unicode at hunicode
      rw [if_neg hno] at hunicode
      cases hunicode
    have hu : conv.toUnicode l.bytes = some u := by
      unfold Label.unicode at hunicode
      rwa [if_pos hprefix] at hunicode
    rcases hdoc.kept hprefix hsafe.bytes_lt hu '*' h with ⟨x, hx, hlower⟩ | ⟨hle, -⟩
    · apply star_of_mem_chars hsafe
      have htable : ∀ n < 128, '*' = (Char.ofNat n).toLower → Char.ofNat n = '*' := by decide +kernel
      have hmem : charOf x ∈ l.chars := List.mem_map_of_mem hx
      have hstar : charOf x = '*' := ascii_induction (p := fun c => '*' = c.toLower → c = '*') htable
        (hsafe.chars_lt _ hmem) hlower
      exact hstar ▸ hmem
    · exact absurd hle (by decide)

/-- A name's text begins with its first label, and a dot or its end is behind. -/
theorem nameText_cons (n : Name) {l : Label} {ls : List Label} (h : n.labels = l :: ls) (rest : List Char) :
    ∃ tail, nameText conv.toUnicode n ++ '/' :: rest = labelText conv.toUnicode l ++ tail ∧
      (tail = '/' :: rest ∧ n.isFqdn = false ∧ ls = [] ∨ tail = '.' :: '/' :: rest ∧ n.isFqdn = true ∧ ls = [] ∨
        ls ≠ [] ∧ ∃ tail', tail = '.' :: tail') := by
  obtain ⟨f, labels⟩ := n
  obtain rfl : labels = l :: ls := h
  cases ls with
  | nil =>
    cases f with
    | true => exact ⟨_, by simp [nameText], .inr (.inl ⟨rfl, rfl, rfl⟩)⟩
    | false => exact ⟨_, by simp [nameText], .inl ⟨rfl, rfl, rfl⟩⟩
  | cons l' ls =>
    refine ⟨'.' :: (labelText conv.toUnicode l' ++ (ls.flatMap fun l => '.' :: labelText conv.toUnicode l) ++
      (if f then ['.'] else []) ++ '/' :: rest), ?_, .inr (.inr ⟨by simp, _, rfl⟩)⟩
    simp [nameText]

theorem parseSub_none {a s : List Char} (hdot : '.' ∉ a) (hstar : '*' ∉ a) : parseSub conv (a ++ '.' :: s) = none := by
  cases h : parseSub conv (a ++ '.' :: s) with
  | none => rfl
  | some x =>
    obtain ⟨label, s', w, n, hs, hdot', hstar', -⟩ := parseSub_iff.mp h
    obtain ⟨rfl, -⟩ := Lib.append_sep_inj hdot hdot' hs
    exact absurd hstar' hstar

theorem parseName_none {c : Char} {s : List Char} (h : inName c = false) : parseName conv (c :: s) = none := by
  cases hrun : parseName conv (c :: s) with
  | none => rfl
  | some x =>
    obtain ⟨t, hne, hall, -, ht, -⟩ := parseName_iff.mp hrun
    obtain ⟨d, t, rfl⟩ := List.exists_cons_of_ne_nil hne
    obtain ⟨rfl, -⟩ := List.cons.inj ht
    have := hall c List.mem_cons_self
    rw [h] at this
    cases this

theorem parseWildcardName_full {s rest : List Char} {n : Name} (h : parseName conv s = some (n, rest)) :
    parseWildcardName conv ('-' :: '.' :: s) = some (.full n, rest) := by
  have hsub : parseSub conv ('-' :: '.' :: s) = none :=
    parseSub_none (a := ['-']) (List.not_mem_cons_of_ne_of_not_mem (by decide) List.not_mem_nil) (by simp)
  have hfull : (char '-' >>= fun _ => char '.' >>= fun _ => WildcardName.full <$> parseName conv) ('-' :: '.' :: s) =
      some (.full n, rest) := by
    unfold char
    rw [tag_bind_cons, tag_bind_cons]
    show (parseName conv s).bind _ = _
    rw [h]
    rfl
  rw [parseWildcardName, orElse_run, hsub, Option.none_or, orElse_run, hfull]
  rfl

theorem parseWildcardName_suffix {s rest : List Char} {n : Name} (h : parseName conv s = some (n, rest)) :
    parseWildcardName conv ('+' :: '.' :: s) = some (.suffix n, rest) := by
  have hsub : parseSub conv ('+' :: '.' :: s) = none :=
    parseSub_none (a := ['+']) (List.not_mem_cons_of_ne_of_not_mem (by decide) List.not_mem_nil) (by simp)
  have hfull : (char '-' >>= fun _ => char '.' >>= fun _ => WildcardName.full <$> parseName conv) ('+' :: '.' :: s) =
      none := tag_bind_eq_none (by simp) _
  have hsuffix : (opt (char '+') >>= fun _ => char '.' >>= fun _ => WildcardName.suffix <$> parseName conv)
      ('+' :: '.' :: s) = some (.suffix n, rest) := by
    have hplus : opt (char '+') ('+' :: '.' :: s) = some (some (), '.' :: s) := opt_of_some (tag_append ['+'] _)
    rw [bind_run, hplus]
    show (char '.' >>= fun _ => WildcardName.suffix <$> parseName conv) ('.' :: s) = _
    unfold char
    rw [tag_bind_cons]
    show (parseName conv s).bind _ = _
    rw [h]
    rfl
  rw [parseWildcardName, orElse_run, hsub, Option.none_or, orElse_run, hfull, Option.none_or, orElse_run, hsuffix]
  rfl

/-- Behind no sign the parser takes a name. -/
theorem parseWildcardName_plain {s rest : List Char} {n : Name} (hsub : parseSub conv s = none)
    (hfull : ∀ s', s ≠ '-' :: '.' :: s') (hplus : s.head? ≠ some '+') (hdot : s.head? ≠ some '.')
    (h : parseName conv s = some (n, rest)) : parseWildcardName conv s = some (patternOfName n, rest) := by
  unfold parseWildcardName
  iterate 4 rw [orElse_run]
  have hnone : (char '-' >>= fun _ => char '.' >>= fun _ => WildcardName.full <$> parseName conv) s = none := by
    by_cases hdash : s.head? = some '-'
    · obtain ⟨s', rfl⟩ := List.head?_eq_some_iff.mp hdash
      unfold char
      rw [tag_bind_cons]
      apply tag_bind_eq_none
      intro hhead
      obtain ⟨s'', rfl⟩ := List.head?_eq_some_iff.mp hhead
      exact hfull s'' rfl
    · exact tag_bind_eq_none hdash _
  have hnone' : (opt (char '+') >>= fun _ => char '.' >>= fun _ => WildcardName.suffix <$> parseName conv) s = none := by
    have hopt : char '+' s = none := by
      cases hrun : char '+' s with
      | none => rfl
      | some x =>
        have hs := tag_one_iff.mp hrun
        rw [hs] at hplus
        exact absurd rfl hplus
    rw [bind_run, opt_of_none hopt]
    exact tag_bind_eq_none hdot _
  rw [hsub, hnone, hnone']
  show (((parseName conv s).bind _).or _) = _
  rw [h]
  rfl

end

end Rule
end SmartDns
