/-
# The lines of an address rule

A line stands for an address rule when it is made of blanks, the keyword, blanks and the rule
(`RuleLine`). The three readers of a line differ in what they take for these parts:
* the loader takes a line without its end, wants spaces and tabs for the blanks, and does not mind the
  case of the keyword or what is left behind the rule (`Stands`);
* the recogniser of the requests takes a line with its end and any Unicode blanks, wants the keyword in
  lower case and no more than a comment behind the rule, and sees the dot at the end of a name
  (`Recognised`);
* the listing takes a line without the blanks around it, and then as the loader does, but wants no more
  than a comment behind the rule (`Shows`).

So the recogniser misses a rule with the keyword in capitals, with a rest behind it or with the other
dot (`Missed`), and takes one that the loader does not read for its blanks, or because the end of the
line only keeps a name like `*a` from going on into the address (`Mistaken`).

Key definitions: `RuleLine`, `Stands`, `Recognised`, `Missed`, `Mistaken`, `Shows`.
Key theorems: `lineIsAddressFor_iff`, `isRuleFor_iff`, `readAlike_iff`, `listedRule_iff`.
-/
import SmartDns.Api.AddressFile
import SmartDns.Rule.AddressRound

namespace SmartDns
namespace Api

open Dns Rule
open Lib.Parse

section

variable {conv : TextConversions}

/-! ### The end of a line behind a rule -/

variable (conv) in
/-- What a pattern may be that begins with no wildcard. -/
def parseUnstarred : TextParser WildcardName :=
  (do
    char '-'
    char '.'
    WildcardName.full <$> parseName conv) <|>
  (do
    let _ ← opt (char '+')
    char '.'
    WildcardName.suffix <$> parseName conv) <|>
  (patternOfName <$> parseName conv) <|>
  (do
    char '+'
    (fun _ => WildcardName.suffix Name.root) <$> opt (char '.'))

theorem parseWildcardName_eq : parseWildcardName conv = (parseSub conv <|> parseUnstarred conv) := rfl

/-- No end of a line is part of a name. -/
theorem return_not_mem_of_fromStr {x : List Char} {n : Name} (hne : x ≠ [])
    (h : Name.fromStr conv.toAscii x = some n) : '\r' ∉ x := by
  have hplain {toLabel : List Char → Option Label} {parts : List (List Char)}
      (hparts : NameParts toLabel parts n x) : '\r' ∉ x := by
    intro hmem
    rw [hparts.text_eq] at hmem
    rcases List.mem_append.mp hmem with hmem | hmem
    · rcases mem_joined hmem with hmem | ⟨p, hp, hmem⟩
      · exact absurd hmem (by decide)
      · exact absurd (List.all_eq_true.mp (hparts.plain p hp) '\r' hmem) (by decide)
    · split_ifs at hmem
      · exact absurd hmem (by decide)
      · cases hmem
  cases Name.readFrom_of_fromStr hne h with
  | root htext _ =>
    rw [htext]
    decide
  | utf8 parts h => exact hplain h
  | ascii parts _ h => exact hplain h

theorem parseName_append {s rest : List Char} {n : Name} (h : parseName conv s = some (n, '/' :: rest))
    (t : List Char) : parseName conv (s ++ t) = some (n, '/' :: (rest ++ t)) := by
  obtain ⟨x, hne, hall, -, rfl, hn⟩ := parseName_iff.mp h
  exact parseName_iff.mpr ⟨x, hne, hall, notOk_cons (by decide), by simp, hn⟩

variable {t : List Char} (ht : ∀ c ∈ t, c = '\r' ∨ c = '\n')

include ht

/-- A name ends in front of the end of the line. -/
theorem exists_parseName {s rest : List Char} {n : Name} (h : parseName conv (s ++ t) = some (n, rest)) :
    ∃ rest', parseName conv s = some (n, rest') := by
  obtain ⟨x, hne, hall, hrest, hs, hn⟩ := parseName_iff.mp h
  rcases List.append_eq_append_iff.mp hs with ⟨a, rfl, hta⟩ | ⟨c, rfl, rfl⟩
  · cases a with
    | nil =>
      rw [List.append_nil] at hne hall hn
      exact ⟨[], parseName_iff.mpr ⟨s, hne, hall, notOk_nil, (List.append_nil s).symm, hn⟩⟩
    | cons a as =>
      have hmem : a ∈ s ++ a :: as := by simp
      rcases ht a (hta ▸ by simp) with rfl | rfl
      · exact absurd hmem (return_not_mem_of_fromStr hne hn)
      · exact absurd (hall _ hmem) (by decide)
  · refine ⟨c, parseName_iff.mpr ⟨x, hne, hall, ?_, rfl, hn⟩⟩
    intro b hb
    obtain ⟨c, rfl⟩ := List.head?_eq_some_iff.mp hb
    exact hrest b rfl

/-- What is no wildcard without the end of the line is none with it. -/
theorem parseSub_append_none {s : List Char} (h : parseSub conv s = none) : parseSub conv (s ++ t) = none := by
  have hdot : '.' ∉ t := fun hmem => by rcases ht _ hmem with h | h <;> cases h
  cases hrun : parseSub conv (s ++ t) with
  | none => rfl
  | some x =>
    obtain ⟨label, s', w, n, hs, hlabel, hstar, hw, hname, -⟩ := parseSub_iff.mp hrun
    rcases List.append_eq_append_iff.mp hs with ⟨a, -, hta⟩ | ⟨c, rfl, hc⟩
    · exact absurd (hta ▸ List.mem_append_right _ List.mem_cons_self) hdot
    · cases c with
      | nil =>
        have hta : '.' :: s' = t := hc
        exact absurd (hta ▸ List.mem_cons_self) hdot
      | cons d c =>
        obtain ⟨rfl, rfl⟩ := List.cons.inj hc
        obtain ⟨rest, hrest⟩ := exists_parseName ht hname
        have hsome := parseSub_iff.mpr ⟨label, c, w, n, rfl, hlabel, hstar, hw, hrest, rfl⟩
        rw [h] at hsome
        cases hsome

omit ht in
/-- Where a slash follows, the end of the line is of no account to a pattern without a wildcard. -/
theorem blindTo_unstarred {nl : Char} (hnl : nl = '\r' ∨ nl = '\n') : BlindTo nl '/' (parseUnstarred conv) := by
  have sign (c : Char) (h : '\r' ∉ [c] ∧ '\n' ∉ [c]) : Blind nl (char c) := blind_sign hnl h
  have name : BlindTo nl '/' (parseName conv) := by
    have run : BlindTo nl '/' (takeWhile1 fun c => !nameStops.contains c) := .takeWhile1 (by decide)
    exact run.bind fun _ => .lift _
  have dot {f : Unit → TextParser WildcardName} (h : BlindTo nl '/' (f ())) : BlindTo nl '/' (char '.' >>= f) :=
    BlindTo.after (sign '.' (by decide)) (keeps_tag (by decide)) fun _ => h
  refine BlindTo.orElse ?_ <| BlindTo.orElse ?_ <| BlindTo.orElse ?_ ?_
  · exact .after (sign '-' (by decide)) (keeps_tag (by decide)) fun _ => dot (name.map _)
  · exact .after (sign '+' (by decide)).opt (keeps_tag (by decide)).opt fun _ => dot (name.map _)
  · exact name.map _
  · exact ((sign '+' (by decide)).bind fun _ => (sign '.' (by decide)).opt.map _).blindTo

theorem parseWildcardName_append {s rest : List Char} {p : WildcardName} (hslash : '/' ∈ s)
    (h : parseWildcardName conv s = some (p, '/' :: rest)) :
    parseWildcardName conv (s ++ t) = some (p, '/' :: (rest ++ t)) := by
  rw [parseWildcardName_eq, orElse_run] at h ⊢
  cases hsub : parseSub conv s with
  | some x =>
    rw [hsub] at h
    obtain rfl := Option.some.inj h
    obtain ⟨label, s', w, n, rfl, hdot, hstar, hw, hname, rfl⟩ := parseSub_iff.mp hsub
    have hrun : parseSub conv (label ++ '.' :: s' ++ t) = some (.sub w n, '/' :: (rest ++ t)) :=
      parseSub_iff.mpr ⟨label, s' ++ t, w, n, List.append_assoc _ _ _, hdot, hstar, hw, parseName_append hname t, rfl⟩
    rw [hrun]
    rfl
  | none =>
    rw [hsub] at h
    have hblind : ∀ c ∈ t, BlindTo c '/' (parseUnstarred conv) := fun c hc => blindTo_unstarred (ht c hc)
    have hrest := BlindTo.append hblind hslash
    have hother : parseUnstarred conv s = some (p, '/' :: rest) := h
    rw [parseSub_append_none ht hsub, hrest, hother]
    rfl

theorem parseDomain_append {s rest : List Char} {d : Domain} (h : parseDomain conv s = some (d, '/' :: rest)) :
    parseDomain conv (s ++ t) = some (d, '/' :: (rest ++ t)) := by
  have hslash : '/' ∈ s := ((blindTo_parseDomain conv).left h).subset List.mem_cons_self
  have hset : parseSet (s ++ t) = (parseSet s).map fun x => (x.1, x.2 ++ t) := by
    refine BlindTo.append (fun c hc => ?_) hslash
    have name : BlindTo c '/' ((fun set => Domain.set (String.ofList set)) <$> takeWhile1 (· ≠ '/')) :=
      (BlindTo.takeWhile1 (by decide)).map _
    have sign : Blind c (tagNoCase "domain-set:") := .tag (by rcases ht c hc with rfl | rfl <;> decide +kernel)
    exact .after sign (keeps_tag (by decide +kernel)) fun _ => name
  rw [parseDomain_eq, orElse_run] at h ⊢
  cases hs : parseSet s with
  | some x =>
    rw [hs] at h
    obtain rfl := Option.some.inj h
    rw [hset, hs]
    rfl
  | none =>
    rw [hs] at h
    obtain ⟨⟨p, rest'⟩, hp, hd⟩ := Option.bind_eq_some_iff.mp h
    obtain ⟨rfl, rfl⟩ := Prod.mk.inj (Option.some.inj hd)
    rw [hset, hs]
    show (parseWildcardName conv (s ++ t)).bind _ = _
    rw [parseWildcardName_append ht hslash hp]
    rfl

/-- A rule is read in front of the end of the line as it is read without. -/
theorem parseAddressRule_append {s rest : List Char} {rule : AddressRule}
    (h : parseAddressRule conv s = some (rule, rest)) : parseAddressRule conv (s ++ t) = some (rule, rest ++ t) := by
  obtain ⟨s₁, s₂, rfl, hdomain, hvalue⟩ := parseAddressRule_iff.mp h
  refine parseAddressRule_iff.mpr ⟨s₁ ++ t, s₂ ++ t, rfl, parseDomain_append ht hdomain, ?_⟩
  rw [Blind.append fun c hc => blind_parseAddressRuleValue (ht c hc), hvalue]
  rfl

end

/-! ### The parts of a line -/

/-- What a line with an address rule is made of. -/
structure RuleLine where
  lead : List Char
  keyword : List Char
  gap : List Char
  body : List Char
  rule : AddressRule
  behind : List Char

namespace RuleLine

def text (l : RuleLine) : List Char := l.lead ++ (l.keyword ++ (l.gap ++ l.body))

/-- Blanks, the keyword in any case, blanks again, and a rule. -/
structure Valid (conv : TextConversions) (l : RuleLine) : Prop where
  lead : ∀ c ∈ l.lead, isWhitespace c = true
  keyword : l.keyword.map Char.toLower = "address".toList
  gap_ne_nil : l.gap ≠ []
  gap : ∀ c ∈ l.gap, isWhitespace c = true
  rule : parseAddressRule conv l.body = some (l.rule, l.behind)

/-- The blanks are spaces and tabs. -/
def Spaced (l : RuleLine) : Prop := ∀ c ∈ l.lead ++ l.gap, c = ' ' ∨ c = '\t'

/-- No more than a comment is behind the rule. -/
def Clean (l : RuleLine) : Prop := trim l.behind = [] ∨ (trim l.behind).head? = some '#'

/-- Nothing is behind the rule but a space or a tab and a comment. -/
def Shown (l : RuleLine) : Prop :=
  l.behind = [] ∨ ∃ gap comment, gap ≠ [] ∧ (∀ c ∈ gap, c = ' ' ∨ c = '\t') ∧ l.behind = gap ++ '#' :: comment ∧
    '\r' ∉ comment

/-- The line with `t` behind it. -/
def extend (l : RuleLine) (t : List Char) : RuleLine := { l with body := l.body ++ t, behind := l.behind ++ t }

theorem text_extend (l : RuleLine) (t : List Char) : (l.extend t).text = l.text ++ t := by
  simp [text, extend]

variable {conv : TextConversions} {l l' : RuleLine}

namespace Valid

theorem exists_body (h : l.Valid conv) : ∃ s, l.body = '/' :: s := by
  obtain ⟨s, -, hs, -⟩ := parseAddressRule_iff.mp h.rule
  exact ⟨s, hs⟩

theorem exists_keyword (h : l.Valid conv) : ∃ c cs, l.keyword = c :: cs ∧ isWhitespace c = false ∧ c ≠ '#' := by
  have hkeyword := h.keyword
  cases hl : l.keyword with
  | nil =>
    rw [hl] at hkeyword
    exact absurd hkeyword (by decide +kernel)
  | cons c cs =>
    rw [hl] at hkeyword
    have hc : c.toLower = 'a' := (List.cons.inj hkeyword).1
    refine ⟨c, cs, rfl, ?_⟩
    by_cases hlt : c.toNat < 128
    · have htable : ∀ n < 128, (Char.ofNat n).toLower = 'a' →
          isWhitespace (Char.ofNat n) = false ∧ Char.ofNat n ≠ '#' := by decide +kernel
      exact ascii_induction (p := fun c => c.toLower = 'a' → isWhitespace c = false ∧ c ≠ '#') htable hlt hc
    · rw [toLower_of_not_ascii hlt] at hc
      rw [hc]
      decide

theorem length_keyword (h : l.Valid conv) : l.keyword.length = 7 := by
  rw [← List.length_map Char.toLower, h.keyword]
  rfl

/-- The blanks at the front end at the keyword. -/
theorem span_text (h : l.Valid conv) : l.text.takeWhile isWhitespace = l.lead ∧
    l.text.dropWhile isWhitespace = l.keyword ++ (l.gap ++ l.body) := by
  obtain ⟨c, cs, hkeyword, hc, -⟩ := h.exists_keyword
  unfold text
  rw [List.takeWhile_append_of_pos h.lead, List.dropWhile_append_of_pos h.lead, hkeyword]
  simp [hc]

theorem span_gap (h : l.Valid conv) : (l.gap ++ l.body).takeWhile isWhitespace = l.gap ∧
    (l.gap ++ l.body).dropWhile isWhitespace = l.body := by
  obtain ⟨s, hs⟩ := h.exists_body
  have hslash : isWhitespace '/' = false := by decide
  rw [List.takeWhile_append_of_pos h.gap, List.dropWhile_append_of_pos h.gap, hs]
  simp [hslash]

/-- A text has its parts in one way. -/
theorem eq_of_text (h : l.Valid conv) (h' : l'.Valid conv) (heq : l.text = l'.text) : l = l' := by
  obtain ⟨hlead, hrest⟩ := h.span_text
  obtain ⟨hlead', hrest'⟩ := h'.span_text
  obtain ⟨hgap, hbody⟩ := h.span_gap
  obtain ⟨hgap', hbody'⟩ := h'.span_gap
  rw [heq] at hlead hrest
  have hsplit : l.keyword ++ (l.gap ++ l.body) = l'.keyword ++ (l'.gap ++ l'.body) := hrest.symm.trans hrest'
  obtain ⟨hkeyword, htail⟩ := List.append_inj hsplit (h.length_keyword.trans h'.length_keyword.symm)
  rw [htail] at hgap hbody
  have hsame : l.body = l'.body := hbody.symm.trans hbody'
  have hrule := h.rule
  rw [hsame, h'.rule] at hrule
  obtain ⟨hr, hb⟩ := Prod.mk.inj (Option.some.inj hrule)
  obtain ⟨lead, keyword, gap, body, rule, behind⟩ := l
  obtain ⟨lead', keyword', gap', body', rule', behind'⟩ := l'
  dsimp only at *
  subst hkeyword hsame hr hb
  rw [hlead'] at hlead
  rw [hgap'] at hgap
  subst hlead hgap
  rfl

theorem extend {t : List Char} (h : l.Valid conv) (ht : ∀ c ∈ t, c = '\r' ∨ c = '\n') : (l.extend t).Valid conv where
  lead := h.lead
  keyword := h.keyword
  gap_ne_nil := h.gap_ne_nil
  gap := h.gap
  rule := parseAddressRule_append ht h.rule

end Valid

end RuleLine

/-! ### What the readers take -/

/-- A line without its end, as the loader takes it. -/
def bare (line : List Char) : List Char := (line.reverse.dropWhile fun c => c == '\r' || c == '\n').reverse

theorem exists_lineEnd (line : List Char) : ∃ t, line = bare line ++ t ∧ ∀ c ∈ t, c = '\r' ∨ c = '\n' := by
  refine ⟨(line.reverse.takeWhile fun c => c == '\r' || c == '\n').reverse, ?_, ?_⟩
  · unfold bare
    rw [← List.reverse_append, List.takeWhile_append_dropWhile, List.reverse_reverse]
  · intro c hc
    simpa using List.mem_takeWhile_imp (List.mem_reverse.mp hc)

theorem bare_append {s s' : List Char} (h : bare s' ≠ []) : bare (s ++ s') = s ++ bare s' := by
  unfold bare at h ⊢
  rw [List.reverse_append, List.dropWhile_append, if_neg (by simpa using h), List.reverse_append, List.reverse_reverse]

theorem bare_slash (s : List Char) : bare ('/' :: s) ≠ [] := by
  intro h
  obtain ⟨t, ht, hend⟩ := exists_lineEnd ('/' :: s)
  rw [h, List.nil_append] at ht
  have hmem : '/' ∈ t := ht ▸ List.mem_cons_self
  rcases hend _ hmem with h | h <;> cases h

theorem bare_text {conv : TextConversions} {l : RuleLine} (h : l.Valid conv) :
    bare l.text = l.lead ++ (l.keyword ++ (l.gap ++ bare l.body)) := by
  obtain ⟨s, hs⟩ := h.exists_body
  have hbody : bare l.body ≠ [] := hs ▸ bare_slash s
  have hgap : bare (l.gap ++ l.body) = l.gap ++ bare l.body := bare_append hbody
  have hkeyword : bare (l.keyword ++ (l.gap ++ l.body)) = l.keyword ++ (l.gap ++ bare l.body) := by
    rw [bare_append (by simp [hgap, hbody]), hgap]
  unfold RuleLine.text
  rw [bare_append (by simp [hkeyword, hbody]), hkeyword]

/-- What the loader makes of a line. -/
def isRuleFor (conv : TextConversions) (line : List Char) (domain : Domain) : Bool :=
  (loadedRule conv line).any fun rule => rule.domain.sameRule domain

section

variable (conv : TextConversions) (domain : Domain) (line : List Char)

/-- What the loader takes for a rule of the domain. -/
def Stands : Prop :=
  ∃ l : RuleLine, l.Valid conv ∧ l.text = bare line ∧ l.Spaced ∧ l.rule.domain.sameRule domain = true

/-- What the recogniser takes for a rule of the domain. -/
def Recognised : Prop :=
  ∃ l : RuleLine, l.Valid conv ∧ l.text = line ∧ l.keyword = "address".toList ∧ l.Clean ∧
    (l.rule.domain == domain) = true

/-- A rule of the domain that has the keyword in capitals, more than a comment behind it, or the other dot at the
end of its name. -/
def Missed : Prop :=
  ∃ l : RuleLine, l.Valid conv ∧ l.text = bare line ∧ l.Spaced ∧ l.rule.domain.sameRule domain = true ∧
    (l.keyword ≠ "address".toList ∨ ¬ l.Clean ∨ (l.rule.domain == domain) = false)

/-- No rule for the loader: a blank is neither a space nor a tab, or there is no rule without the end of the line. -/
def Mistaken : Prop :=
  ∃ l : RuleLine, l.Valid conv ∧ l.text = line ∧ l.keyword = "address".toList ∧ l.Clean ∧
    (l.rule.domain == domain) = true ∧ (¬ l.Spaced ∨ parseAddressRule conv (bare l.body) = none)

/-- What a listing takes for the rule. -/
def Shows (rule : AddressRule) : Prop :=
  ∃ l : RuleLine, l.Valid conv ∧ l.text = trim line ∧ l.Spaced ∧ l.Shown ∧ l.rule = rule

end

/-! ### The readers and the parts -/

theorem isWhitespace_of_blank {c : Char} (h : c = ' ' ∨ c = '\t') : isWhitespace c = true := by
  rcases h with rfl | rfl <;> decide

theorem tagNoCase_iff {t : String} {s rest : List Char} {u : Unit} : tagNoCase t s = some (u, rest) ↔
    ∃ front, s = front ++ rest ∧ front.map Char.toLower = t.toList.map Char.toLower := by
  unfold tagNoCase
  induction t.toList generalizing s with
  | nil =>
    constructor
    · intro h
      obtain ⟨-, rfl⟩ := Prod.mk.inj (Option.some.inj h)
      exact ⟨[], rfl, rfl⟩
    · rintro ⟨front, rfl, hfront⟩
      obtain rfl := List.map_eq_nil_iff.mp hfront
      rfl
  | cons x t ih =>
    cases s with
    | nil =>
      constructor
      · intro h
        cases h
      · rintro ⟨front, hs, hfront⟩
        obtain ⟨rfl, -⟩ := List.append_eq_nil_iff.mp hs.symm
        cases hfront
    | cons c s =>
      simp only [tag]
      split_ifs with hc
      · rw [ih]
        constructor
        · rintro ⟨front, rfl, hfront⟩
          exact ⟨c :: front, rfl, by rw [List.map_cons, List.map_cons, beq_iff_eq.mp hc, hfront]⟩
        · rintro ⟨front, hs, hfront⟩
          cases front with
          | nil => cases hfront
          | cons c' front =>
            obtain ⟨-, rfl⟩ := List.cons.inj hs
            exact ⟨front, rfl, (List.cons.inj hfront).2⟩
      · constructor
        · intro h
          cases h
        · rintro ⟨front, hs, hfront⟩
          cases front with
          | nil => cases hfront
          | cons c' front =>
            obtain ⟨rfl, -⟩ := List.cons.inj hs
            exact absurd (beq_iff_eq.mpr (List.cons.inj hfront).1) hc

section

variable {conv : TextConversions} {domain : Domain} {line : List Char}

theorem lower_address : "address".toList.map Char.toLower = "address".toList := by decide +kernel

theorem isPrefixOf?_append (t s : List Char) : t.isPrefixOf? (t ++ s) = some s := by
  induction t with
  | nil => cases s <;> rfl
  | cons c t ih => simp [List.isPrefixOf?, ih]

theorem lineIsAddressFor_iff : lineIsAddressFor conv line domain = true ↔ Recognised conv domain line := by
  rw [lineIsAddressFor_eq]
  constructor
  · intro h
    cases hrest : "address".toList.isPrefixOf? (trimStart line) with
    | none =>
      rw [hrest] at h
      cases h
    | some rest =>
      rw [hrest, Bool.and_eq_true] at h
      obtain ⟨hgap, hfor⟩ := h
      unfold restIsFor at hfor
      cases hrule : parseAddressRule conv (trimStart rest) with
      | none =>
        rw [hrule] at hfor
        cases hfor
      | some x =>
        rw [hrule] at hfor
        simp only [Bool.and_eq_true, Bool.or_eq_true, List.isEmpty_iff, beq_iff_eq] at hfor
        refine ⟨⟨line.takeWhile isWhitespace, "address".toList, rest.takeWhile isWhitespace, trimStart rest, x.1, x.2⟩,
          ⟨fun c hc => List.mem_takeWhile_imp hc, lower_address, ?_, fun c hc => List.mem_takeWhile_imp hc, hrule⟩,
          ?_, rfl, hfor.1, hfor.2⟩
        · cases rest with
          | nil => cases hgap
          | cons c rest =>
            have hc : isWhitespace c = true := hgap
            simp [hc]
        · show line.takeWhile _ ++ ("address".toList ++ (rest.takeWhile isWhitespace ++ trimStart rest)) = line
          unfold trimStart
          rw [List.takeWhile_append_dropWhile, isPrefixOf?_eq_some hrest]
          exact List.takeWhile_append_dropWhile
  · rintro ⟨l, hvalid, rfl, hkeyword, hclean, hdomain⟩
    have hstart : trimStart l.text = "address".toList ++ (l.gap ++ l.body) := hkeyword ▸ hvalid.span_text.2
    have hgap : (l.gap ++ l.body).head?.any isWhitespace = true := by
      obtain ⟨c, cs, hc⟩ := List.exists_cons_of_ne_nil hvalid.gap_ne_nil
      rw [hc]
      exact hvalid.gap c (hc ▸ List.mem_cons_self)
    have hbody : trimStart (l.gap ++ l.body) = l.body := hvalid.span_gap.2
    rw [hstart, isPrefixOf?_append]
    simp only [restIsFor, hbody, hvalid.rule, hgap, Bool.true_and, Bool.and_eq_true, Bool.or_eq_true,
      List.isEmpty_iff, beq_iff_eq]
    exact ⟨hclean, hdomain⟩

theorem addressSetting_iff {s left : List Char} {rule : AddressRule} : addressSetting conv s = some (rule, left) ↔
    ∃ l : RuleLine, l.Valid conv ∧ l.text = s ∧ l.Spaced ∧ l.rule = rule ∧ lineComment l.behind = some ((), left) := by
  have hblank {c : Char} : (c == ' ' || c == '\t') = true ↔ c = ' ' ∨ c = '\t' := by simp
  constructor
  · intro h
    -- the blanks in front are there in any case
    obtain ⟨⟨u, s₂⟩, hkeyword, h₂⟩ := Option.bind_eq_some_iff.mp h
    obtain ⟨⟨gap, s₃⟩, hgap, h₃⟩ := Option.bind_eq_some_iff.mp h₂
    obtain ⟨⟨r, s₄⟩, hrule, h₄⟩ := Option.bind_eq_some_iff.mp h₃
    obtain ⟨⟨u', s₅⟩, hcomment, h₅⟩ := Option.bind_eq_some_iff.mp h₄
    obtain ⟨rfl, rfl⟩ := Prod.mk.inj (Option.some.inj h₅)
    obtain ⟨keyword, hs, hlower⟩ := tagNoCase_iff.mp hkeyword
    obtain ⟨hne, hall, -, rfl⟩ := takeWhile1_iff.mp hgap
    have hlead {c : Char} (hc : c ∈ s.takeWhile fun c => c == ' ' || c == '\t') : c = ' ' ∨ c = '\t' :=
      hblank.mp (List.mem_takeWhile_imp (p := fun c => c == ' ' || c == '\t') hc)
    have hgap {c : Char} (hc : c ∈ gap) : c = ' ' ∨ c = '\t' := hblank.mp (hall c hc)
    refine ⟨⟨_, keyword, gap, s₃, r, s₄⟩, ⟨fun c hc => isWhitespace_of_blank (hlead hc), hlower.trans lower_address,
      hne, fun c hc => isWhitespace_of_blank (hgap hc), hrule⟩, ?_, ?_, rfl, hcomment⟩
    · show s.takeWhile _ ++ (keyword ++ (gap ++ s₃)) = s
      rw [← hs]
      exact List.takeWhile_append_dropWhile
    · intro c hc
      rcases List.mem_append.mp hc with hc | hc
      · exact hlead hc
      · exact hgap hc
  · rintro ⟨l, hvalid, rfl, hspaced, rfl, hcomment⟩
    obtain ⟨k, ks, hkeyword, hk, -⟩ := hvalid.exists_keyword
    obtain ⟨b, hbody⟩ := hvalid.exists_body
    have hlead : space0 l.text = some (l.lead, l.keyword ++ (l.gap ++ l.body)) := by
      have hstop : ¬ (k == ' ' || k == '\t') = true := by
        rw [hblank]
        intro hb
        rw [isWhitespace_of_blank hb] at hk
        cases hk
      have hall : ∀ c ∈ l.lead, (c == ' ' || c == '\t') = true := fun c hc =>
        hblank.mpr (hspaced c (List.mem_append_left _ hc))
      unfold space0 Lib.Parse.takeWhile RuleLine.text
      rw [List.takeWhile_append_of_pos hall, List.dropWhile_append_of_pos hall, hkeyword, List.cons_append,
        List.takeWhile_cons_of_neg (p := fun c => c == ' ' || c == '\t') hstop,
        List.dropWhile_cons_of_neg (p := fun c => c == ' ' || c == '\t') hstop, List.append_nil]
    have htag : tagNoCase "address" (l.keyword ++ (l.gap ++ l.body)) = some ((), l.gap ++ l.body) :=
      tagNoCase_iff.mpr ⟨l.keyword, rfl, hvalid.keyword.trans lower_address.symm⟩
    have hgap : space1 (l.gap ++ l.body) = some (l.gap, l.body) := by
      refine takeWhile1_iff.mpr ⟨hvalid.gap_ne_nil, ?_, ?_, rfl⟩
      · exact fun c hc => hblank.mpr (hspaced c (List.mem_append_right _ hc))
      · rw [hbody]
        exact notOk_cons (by decide)
    unfold addressSetting
    rw [bind_run, hlead, Option.bind_some, bind_run, htag, Option.bind_some, bind_run, hgap, Option.bind_some]
    rw [bind_run, hvalid.rule, Option.bind_some, bind_run, hcomment]
    rfl

/-- Something may be left behind a rule, so that a comment is never missing. -/
theorem exists_lineComment (s : List Char) : ∃ left, lineComment s = some ((), left) := by
  have hsecond (s : List Char) : ∃ left, (do let _ ← space0; pure () : TextParser Unit) s = some ((), left) := ⟨_, rfl⟩
  unfold lineComment
  simp only [orElse_run]
  obtain ⟨left, hleft⟩ := hsecond s
  rw [hleft]
  rcases Option.eq_none_or_eq_some ((do let _ ← space1; char '#'; _ : TextParser Unit) s) with h | ⟨x, h⟩
  · exact ⟨left, by rw [h]; rfl⟩
  · exact ⟨x.2, by rw [h]; rfl⟩

theorem loadedRule_iff {rule : AddressRule} : loadedRule conv line = some rule ↔
    ∃ l : RuleLine, l.Valid conv ∧ l.text = bare line ∧ l.Spaced ∧ l.rule = rule := by
  have hloaded : loadedRule conv line = (addressSetting conv (bare line)).map (·.1) := rfl
  rw [hloaded, Option.map_eq_some_iff]
  constructor
  · rintro ⟨⟨r, left⟩, hrun, rfl⟩
    obtain ⟨l, hvalid, htext, hspaced, hrule, -⟩ := addressSetting_iff.mp hrun
    exact ⟨l, hvalid, htext, hspaced, hrule⟩
  · rintro ⟨l, hvalid, htext, hspaced, hrule⟩
    obtain ⟨left, hleft⟩ := exists_lineComment l.behind
    exact ⟨(rule, left), addressSetting_iff.mpr ⟨l, hvalid, htext, hspaced, hrule, hleft⟩, rfl⟩

theorem isRuleFor_iff : isRuleFor conv line domain = true ↔ Stands conv domain line := by
  unfold isRuleFor
  rw [Option.any_eq_true]
  constructor
  · rintro ⟨rule, hrule, hsame⟩
    obtain ⟨l, hvalid, htext, hspaced, rfl⟩ := loadedRule_iff.mp hrule
    exact ⟨l, hvalid, htext, hspaced, hsame⟩
  · rintro ⟨l, hvalid, htext, hspaced, hsame⟩
    exact ⟨l.rule, loadedRule_iff.mpr ⟨l, hvalid, htext, hspaced, rfl⟩, hsame⟩

theorem clean_extend {t : List Char} (ht : ∀ c ∈ t, c = '\r' ∨ c = '\n') (l : RuleLine) :
    (l.extend t).Clean ↔ l.Clean := by
  have hblank : ∀ c ∈ t, isWhitespace c = true := fun c hc => by rcases ht c hc with rfl | rfl <;> decide
  unfold RuleLine.Clean RuleLine.extend
  dsimp only
  rw [trim_append hblank]

/-- What the recogniser misses stands there for the loader and is not recognised. -/
theorem missed_iff : Missed conv domain line ↔ Stands conv domain line ∧ ¬ Recognised conv domain line := by
  obtain ⟨t, hline, ht⟩ := exists_lineEnd line
  constructor
  · rintro ⟨l, hvalid, htext, hspaced, hsame, hfault⟩
    refine ⟨⟨l, hvalid, htext, hspaced, hsame⟩, ?_⟩
    rintro ⟨l', hvalid', htext', hkeyword, hclean, hdomain⟩
    have hwhole : (l.extend t).text = l'.text := by rw [RuleLine.text_extend, htext, ← hline, htext']
    obtain rfl := (hvalid.extend ht).eq_of_text hvalid' hwhole
    rcases hfault with hfault | hfault | hfault
    · exact hfault hkeyword
    · exact hfault ((clean_extend ht l).mp hclean)
    · exact Bool.false_ne_true (hfault.symm.trans hdomain)
  · rintro ⟨⟨l, hvalid, htext, hspaced, hsame⟩, hrecognised⟩
    refine ⟨l, hvalid, htext, hspaced, hsame, ?_⟩
    by_contra hnone
    rw [not_or, not_or, not_not, not_not, Bool.not_eq_false] at hnone
    obtain ⟨hkeyword, hclean, hdomain⟩ := hnone
    refine hrecognised ⟨l.extend t, hvalid.extend ht, ?_, hkeyword, (clean_extend ht l).mpr hclean, hdomain⟩
    rw [RuleLine.text_extend, htext, ← hline]

/-- What the recogniser takes wrongly is recognised and does not stand there for the loader. -/
theorem mistaken_iff : Mistaken conv domain line ↔ Recognised conv domain line ∧ ¬ Stands conv domain line := by
  constructor
  · rintro ⟨l, hvalid, htext, hkeyword, hclean, hdomain, hfault⟩
    refine ⟨⟨l, hvalid, htext, hkeyword, hclean, hdomain⟩, ?_⟩
    rintro ⟨l', hvalid', htext', hspaced, -⟩
    obtain ⟨t, hline, ht⟩ := exists_lineEnd line
    have hwhole : (l'.extend t).text = l.text := by rw [RuleLine.text_extend, htext', ← hline, htext]
    obtain rfl := (hvalid'.extend ht).eq_of_text hvalid hwhole
    rcases hfault with hfault | hfault
    · exact hfault hspaced
    · have hbare : l'.text = bare (l'.extend t).text := by rw [htext', htext]
      rw [bare_text hvalid] at hbare
      have hbody : l'.body = bare (l'.extend t).body :=
        List.append_cancel_left (List.append_cancel_left (List.append_cancel_left hbare))
      rw [← hbody, hvalid'.rule] at hfault
      cases hfault
  · rintro ⟨⟨l, hvalid, htext, hkeyword, hclean, hdomain⟩, hstands⟩
    refine ⟨l, hvalid, htext, hkeyword, hclean, hdomain, ?_⟩
    by_contra hnone
    rw [not_or, not_not] at hnone
    obtain ⟨hspaced, hread⟩ := hnone
    obtain ⟨⟨rule, behind⟩, hrule⟩ := Option.ne_none_iff_exists'.mp hread
    obtain ⟨t, hbody, ht⟩ := exists_lineEnd l.body
    have hvalid' : (⟨l.lead, l.keyword, l.gap, bare l.body, rule, behind⟩ : RuleLine).Valid conv :=
      ⟨hvalid.lead, hvalid.keyword, hvalid.gap_ne_nil, hvalid.gap, hrule⟩
    -- The rule in front of the end of the line is the rule on the whole line.
    have hsame : rule = l.rule := by
      have hrun := parseAddressRule_append ht hrule
      rw [← hbody, hvalid.rule] at hrun
      exact (Prod.mk.inj (Option.some.inj hrun)).1.symm
    refine hstands ⟨_, hvalid', ?_, hspaced, ?_⟩
    · rw [← htext, bare_text hvalid]
      rfl
    · rw [hsame]
      exact Domain.sameRule_of_beq hdomain

/-- The recogniser and the loader read a line alike where it is neither missed nor mistaken. -/
theorem readAlike_iff : lineIsAddressFor conv line domain = isRuleFor conv line domain ↔
    ¬ Missed conv domain line ∧ ¬ Mistaken conv domain line := by
  rw [Bool.eq_iff_iff, lineIsAddressFor_iff, isRuleFor_iff, missed_iff, mistaken_iff, not_and_not_right,
    not_and_not_right]
  exact ⟨fun h => ⟨h.mpr, h.mp⟩, fun h => ⟨h.2, h.1⟩⟩

end

/-! ### The listing -/

theorem mem_of_mem_trim {s : List Char} {c : Char} (h : c ∈ trim s) : c ∈ s := by
  have hstart : c ∈ trimStart s := List.mem_reverse.mp ((List.dropWhile_suffix _).subset (List.mem_reverse.mp h))
  exact (List.dropWhile_suffix _).subset hstart

/-- What is trimmed does not end with a blank. -/
theorem last_of_trim {s x : List Char} {c : Char} (h : trim s = x ++ [c]) : isWhitespace c = false := by
  have hrev : (trimStart s).reverse.dropWhile isWhitespace = c :: x.reverse := by
    rw [← List.reverse_reverse ((trimStart s).reverse.dropWhile isWhitespace)]
    show (trim s).reverse = _
    rw [h]
    simp
  have hhead := List.head?_dropWhile_not isWhitespace (trimStart s).reverse
  rw [hrev] at hhead
  simpa using hhead

theorem newline_not_mem_trim {line : List Char} (h : Lib.IsLine '\n' line) : '\n' ∉ trim line := by
  obtain ⟨hne, hnot⟩ := h
  intro hmem
  by_cases hlast : line.getLast hne = '\n'
  · rw [← List.dropLast_append_getLast hne, hlast, trim_newline] at hmem
    exact hnot (mem_of_mem_trim hmem)
  · have hline := mem_of_mem_trim hmem
    rw [← List.dropLast_append_getLast hne] at hline
    rcases List.mem_append.mp hline with h | h
    · exact hnot h
    · exact hlast (List.mem_singleton.mp h).symm

theorem eq_nil_of_trim {s : List Char} (h : trim s = []) : ∀ c ∈ s, isWhitespace c = true := by
  intro c hc
  have hnone : (trimStart s).reverse.dropWhile isWhitespace = [] := List.reverse_eq_nil_iff.mp h
  by_contra hblank
  have hstart : c ∈ trimStart s := by
    unfold trimStart
    rw [← List.takeWhile_append_dropWhile (p := isWhitespace) (l := s)] at hc
    rcases List.mem_append.mp hc with hc | hc
    · exact absurd (List.mem_takeWhile_imp hc) hblank
    · exact hc
  have hall : ∀ d ∈ (trimStart s).reverse, isWhitespace d = true := by
    rw [← List.takeWhile_append_dropWhile (p := isWhitespace) (l := (trimStart s).reverse), hnone, List.append_nil]
    exact fun d hd => List.mem_takeWhile_imp hd
  exact hblank (hall c (List.mem_reverse.mpr hstart))

theorem lineComment_comment {gap comment : List Char} (hne : gap ≠ []) (hgap : ∀ c ∈ gap, c = ' ' ∨ c = '\t')
    (hr : '\r' ∉ comment) (hn : '\n' ∉ comment) : lineComment (gap ++ '#' :: comment) = some ((), []) := by
  have hspace : space1 (gap ++ '#' :: comment) = some (gap, '#' :: comment) :=
    takeWhile1_iff.mpr ⟨hne, fun c hc => by simpa using hgap c hc, notOk_cons (by decide), rfl⟩
  have hrest : comment.dropWhile (fun c => c != '\r' && c != '\n') = [] := by
    rw [List.dropWhile_eq_nil_iff]
    intro c hc
    simp only [Bool.and_eq_true, bne_iff_ne]
    exact ⟨fun h => hr (h ▸ hc), fun h => hn (h ▸ hc)⟩
  unfold lineComment
  simp only [orElse_run]
  rw [bind_run, hspace, Option.bind_some]
  show Option.or ((char '#' >>= fun _ => _) ('#' :: comment)) _ = _
  unfold char
  rw [tag_bind_cons, hrest]
  rfl

/-- What is left behind a rule of one line: nothing behind a comment, or all but the blanks. -/
theorem lineComment_cases {s left : List Char} (hn : '\n' ∉ s) (h : lineComment s = some ((), left)) :
    (∃ gap comment, gap ≠ [] ∧ (∀ c ∈ gap, c = ' ' ∨ c = '\t') ∧ s = gap ++ '#' :: comment ∧ '\r' ∉ comment) ∨
      left = s.dropWhile fun c => c == ' ' || c == '\t' := by
  unfold lineComment at h
  simp only [orElse_run] at h
  rcases Option.or_eq_some_iff.mp h with h | ⟨-, h⟩
  · left
    obtain ⟨⟨gap, s₁⟩, hgap, h₁⟩ := Option.bind_eq_some_iff.mp h
    obtain ⟨⟨u, s₂⟩, hsign, h₂⟩ := Option.bind_eq_some_iff.mp h₁
    obtain ⟨hne, hall, -, rfl⟩ := takeWhile1_iff.mp hgap
    obtain rfl := tag_one_iff.mp hsign
    refine ⟨gap, s₂, hne, fun c hc => by simpa using hall c hc, rfl, ?_⟩
    -- a comment with `\r` in it is none, for `\n` does not follow
    intro hr
    have hs₂ : '\n' ∉ s₂ := fun h => hn (List.mem_append_right _ (List.mem_cons_of_mem _ h))
    have hdrop : s₂.dropWhile (fun c => c != '\r' && c != '\n') <:+ s₂ := List.dropWhile_suffix _
    cases hrest : s₂.dropWhile (fun c => c != '\r' && c != '\n') with
    | nil =>
      have hall := List.dropWhile_eq_nil_iff.mp hrest '\r' hr
      exact absurd hall (by decide)
    | cons c rest =>
      rw [hrest] at hdrop
      have hhead := List.head?_dropWhile_not (fun c => c != '\r' && c != '\n') s₂
      rw [hrest] at hhead
      have hc : c = '\r' := by
        have hc' : c = '\r' ∨ c = '\n' := by simpa [or_iff_not_imp_left] using hhead
        exact hc'.resolve_right fun h => hs₂ (hdrop.subset (h ▸ List.mem_cons_self))
      subst hc
      have hnot : ∀ rest', rest ≠ '\n' :: rest' := by
        rintro rest' rfl
        exact hs₂ (hdrop.subset (List.mem_cons_of_mem _ List.mem_cons_self))
      simp only [hrest] at h₂
      cases rest with
      | nil => cases h₂
      | cons d rest =>
        by_cases hd : d = '\n'
        · exact hnot rest (hd ▸ rfl)
        · simp [hd] at h₂
  · right
    obtain ⟨-, rfl⟩ := Prod.mk.inj (Option.some.inj h)
    rfl

section

variable {conv : TextConversions} {line : List Char}

/-- What is behind the rule is the end of the line. -/
theorem RuleLine.Valid.behind_suffix {l : RuleLine} (h : l.Valid conv) : l.behind <:+ l.text := by
  unfold RuleLine.text
  rw [← List.append_assoc, ← List.append_assoc]
  exact ((blind_parseAddressRule conv).left h.rule).trans (List.suffix_append _ _)

/-- A line with a rule is no comment. -/
theorem RuleLine.Valid.exists_first {l : RuleLine} (h : l.Valid conv) (hspaced : l.Spaced) :
    ∃ c cs, l.text = c :: cs ∧ c ≠ '#' := by
  obtain ⟨c, cs, hkeyword, -, hsign⟩ := h.exists_keyword
  unfold RuleLine.text
  cases hlead : l.lead with
  | nil => exact ⟨c, _, by rw [hkeyword]; rfl, hsign⟩
  | cons d ds =>
    refine ⟨d, _, rfl, ?_⟩
    rintro rfl
    have hmem : '#' ∈ l.lead ++ l.gap := by simp [hlead]
    rcases hspaced _ hmem with h | h <;> cases h

/-- Blanks alone are trimmed with the line. -/
theorem eq_nil_of_suffix_trim {s : List Char} (hs : s <:+ trim line) (hblank : ∀ c ∈ s, isWhitespace c = true) :
    s = [] := by
  rcases List.eq_nil_or_concat s with hnil | ⟨x, c, hx⟩
  · exact hnil
  · obtain ⟨front, hfront⟩ := hs
    rw [hx, List.concat_eq_append, ← List.append_assoc] at hfront
    have hc : isWhitespace c = false := last_of_trim hfront.symm
    rw [hblank c (by simp [hx])] at hc
    cases hc

/-- A listing takes from one line what it shows. -/
theorem listedRule_iff (hline : '\n' ∉ trim line) {rule : AddressRule} :
    listedRule conv line = some rule ↔ Shows conv line rule := by
  unfold listedRule
  dsimp only
  constructor
  · intro h
    split_ifs at h
    cases hrun : addressSetting conv (trim line) with
    | none =>
      rw [hrun] at h
      cases h
    | some x =>
      obtain ⟨r, left⟩ := x
      rw [hrun] at h
      dsimp only at h
      split_ifs at h with hleft
      obtain rfl := Option.some.inj h
      obtain ⟨l, hvalid, htext, hspaced, rfl, hcomment⟩ := addressSetting_iff.mp hrun
      have hbehind : l.behind <:+ trim line := htext ▸ hvalid.behind_suffix
      refine ⟨l, hvalid, htext, hspaced, ?_, rfl⟩
      rcases lineComment_cases (fun h => hline (hbehind.subset h)) hcomment with hshown | rfl
      · exact .inr hshown
      · refine .inl (eq_nil_of_suffix_trim hbehind fun c hmem => ?_)
        rw [← List.takeWhile_append_dropWhile (p := fun c => c == ' ' || c == '\t') (l := l.behind)] at hmem
        rcases List.mem_append.mp hmem with hmem | hmem
        · have hblank := List.mem_takeWhile_imp (p := fun c => c == ' ' || c == '\t') hmem
          exact isWhitespace_of_blank (by simpa using hblank)
        · exact eq_nil_of_trim (List.isEmpty_iff.mp hleft) c hmem
  · rintro ⟨l, hvalid, htext, hspaced, hshown, rfl⟩
    obtain ⟨c, cs, hfirst, hsign⟩ := hvalid.exists_first hspaced
    have hleft : lineComment l.behind = some ((), []) := by
      rcases hshown with hnil | ⟨gap, comment, hne, hgap, hbehind, hr⟩
      · rw [hnil]
        rfl
      · rw [hbehind]
        refine lineComment_comment hne hgap hr fun hn => hline (htext ▸ hvalid.behind_suffix.subset ?_)
        rw [hbehind]
        exact List.mem_append_right _ (List.mem_cons_of_mem _ hn)
    rw [addressSetting_iff.mpr ⟨l, hvalid, htext, hspaced, rfl, hleft⟩, if_neg]
    · rfl
    · simp [← htext, hfirst, hsign]

end

/-! ### The line of a rule -/

theorem bare_of_last {x : List Char} {c : Char} (h : c ≠ '\r' ∧ c ≠ '\n') : bare (x ++ [c]) = x ++ [c] := by
  have hc : ¬ (c == '\r' || c == '\n') = true := by simpa using h
  unfold bare
  rw [List.reverse_append, List.reverse_singleton, List.singleton_append,
    List.dropWhile_cons_of_neg (p := fun c => c == '\r' || c == '\n') hc]
  simp

section

variable {conv : TextConversions} {rule : AddressRule}

theorem value_ne_nil (h : Producible conv rule) : addressRuleValueText rule.config ≠ [] := by
  obtain ⟨s, rest, hconfig⟩ := h.config
  have hvalue := parseAddressRuleValue_text (made_of_parse hconfig)
  intro hnil
  rw [hnil] at hvalue
  cases hvalue

/-- The text of a rule ends with its address, which is on the line. -/
theorem bare_addressLine (h : addressRuleValueText rule.config ≠ []) :
    bare (addressLine conv rule) = addressLine conv rule := by
  rcases List.eq_nil_or_concat (addressRuleValueText rule.config) with hnil | ⟨x, c, hx⟩
  · exact absurd hnil h
  · have hc : c ∈ addressRuleValueText rule.config := by simp [hx]
    have hend : c ≠ '\r' ∧ c ≠ '\n' := by
      constructor
      · rintro rfl
        exact absurd (mem_addressRuleValueText hc) (by decide)
      · rintro rfl
        exact absurd (mem_addressRuleValueText hc) (by decide)
    have hline : addressLine conv rule =
        "address ".toList ++ ('/' :: (domainText conv rule.domain ++ '/' :: x)) ++ [c] := by
      rw [addressLine_eq, addressRuleText_eq, hx]
      simp
    rw [hline]
    exact bare_of_last hend

variable (conv rule) in
/-- The parts of the line of a rule that is read as `r`. -/
def lineOf (r : AddressRule) (rest : List Char) : RuleLine :=
  ⟨[], "address".toList, [' '], addressRuleText conv rule, r, rest⟩

theorem text_lineOf (r : AddressRule) (rest : List Char) :
    (lineOf conv rule r rest).text = addressLine conv rule := rfl

theorem valid_lineOf {r : AddressRule} {rest : List Char}
    (h : parseAddressRule conv (addressRuleText conv rule) = some (r, rest)) :
    (lineOf conv rule r rest).Valid conv where
  lead := nofun
  keyword := lower_address
  gap_ne_nil := List.cons_ne_nil _ _
  gap := List.forall_mem_singleton.mpr (by decide)
  rule := h

theorem spaced_lineOf (r : AddressRule) (rest : List Char) : (lineOf conv rule r rest).Spaced :=
  List.forall_mem_singleton.mpr (.inl rfl)

theorem body_of_addressLine {l : RuleLine} (h : l.Valid conv) (htext : l.text = addressLine conv rule) :
    l.body = addressRuleText conv rule := by
  have hword : ∀ s, ("address".toList ++ ([' '] ++ s)).dropWhile isWhitespace = "address".toList ++ ([' '] ++ s) :=
    fun s => rfl
  have hrest := h.span_text.2
  rw [htext] at hrest
  have hsplit : "address".toList ++ ([' '] ++ addressRuleText conv rule) = l.keyword ++ (l.gap ++ l.body) :=
    (hword _).symm.trans hrest
  obtain ⟨-, hgap⟩ := List.append_inj hsplit h.length_keyword.symm
  have hbody := h.span_gap.2
  rw [← hgap, addressRuleText_eq] at hbody
  rw [addressRuleText_eq]
  exact hbody.symm

/-- The loader reads the line of a rule by the rule's text. -/
theorem loadedRule_addressLine (h : addressRuleValueText rule.config ≠ []) {r : AddressRule} :
    loadedRule conv (addressLine conv rule) = some r ↔
      ∃ rest, parseAddressRule conv (addressRuleText conv rule) = some (r, rest) := by
  rw [loadedRule_iff, bare_addressLine h]
  constructor
  · rintro ⟨l, hvalid, htext, -, rfl⟩
    exact ⟨l.behind, body_of_addressLine hvalid htext ▸ hvalid.rule⟩
  · rintro ⟨rest, hrun⟩
    exact ⟨lineOf conv rule r rest, valid_lineOf hrun, text_lineOf r rest, spaced_lineOf r rest, rfl⟩

/-- The recogniser takes the line of a rule that is read back. -/
theorem recognised_addressLine (h : parseAddressRule conv (addressRuleText conv rule) = some (rule, [])) :
    Recognised conv rule.domain (addressLine conv rule) :=
  ⟨lineOf conv rule rule [], valid_lineOf h, text_lineOf rule [], rfl, .inl rfl, rule.domain.beq_self⟩

end

end Api
end SmartDns
