/-
# Address rules are read back

`Display` of an address rule against its parser. A rule is read back as itself but for four kinds:
the default wildcard, which is written `*` and read as the pattern `*`; a name with a dot in a label
or with labels of two kinds (`Name.Dotted`, `Name.Mixed`); and a name like `*abc` in front of a dotted
address, which the parser of wildcards takes up to the first dot, slash and all (`RoundTrips`,
`roundTrips_iff`).

Key definitions: `RoundTrips`, `Starred`, `Swallowed`, `Readable`.
Key theorems: `parseDomain_domainText`, `conditions_of_parseDomain`, `roundTrips_iff`.
-/
import SmartDns.Rule.DomainRead

namespace SmartDns
namespace Rule

open Dns
open Lib.Parse

section

variable {conv : TextConversions}

/-! ### The address behind -/

theorem mem_v4Text {bits : BitVec 32} {c : Char} (h : c ∈ Dns.IpAddr.v4Text bits) : isHexDigit c = true ∨ c = '.' := by
  have hquad := quad_v4Text bits notOk_nil
  have hdigits {g : List Char} (hg : Group Char.isDigit 3 g) (hc : c ∈ g) : isHexDigit c = true ∨ c = '.' :=
    .inl (isHexDigit_of_isDigit (hg.all c hc))
  rw [v4Text_eq] at h
  simp only [quadText, dotted, List.mem_append, List.mem_cons] at h
  rcases h with h | (rfl | h) | (rfl | h) | rfl | h
  · exact hdigits hquad.first.toGroup h
  · exact .inr rfl
  · exact hdigits hquad.second.toGroup h
  · exact .inr rfl
  · exact hdigits hquad.third.toGroup h
  · exact .inr rfl
  · exact hdigits hquad.fourth.toGroup h

theorem mem_ipText {ip : IpAddr} {c : Char} (h : c ∈ ipText ip) : isHexDigit c = true ∨ c = '.' ∨ c = ':' := by
  cases ip with
  | v4 ip => exact (mem_v4Text h).imp_right .inl
  | v6 ip =>
    rcases v6Text_cases ip with ⟨bits, -, htext⟩ | ⟨pre, sep, post, hsegments⟩
    · rw [ipText, htext] at h
      rcases List.mem_append.mp h with h | h
      · have hall : "::ffff:".toList.all (fun c => isHexDigit c || c == ':') = true := by decide +kernel
        have := List.all_eq_true.mp hall c h
        rw [Bool.or_eq_true, beq_iff_eq] at this
        exact this.imp_right .inr
      · exact (mem_v4Text h).imp_right .inl
    · exact (hsegments.mem_text h).imp_right .inr

theorem addressRuleValueText_addr (v4 : Option (List Ipv4Addr)) (v6 : Option (List Ipv6Addr)) :
    addressRuleValueText (.addr v4 v6) =
      joined ',' (((v4.getD []).map IpAddr.v4 ++ (v6.getD []).map IpAddr.v6).map ipText) := by
  rw [joined_eq_intercalate, List.map_append, List.map_map, List.map_map]
  rfl

theorem mem_joined {B : Type} {c b : B} {gs : List (List B)} (h : b ∈ joined c gs) : b = c ∨ ∃ g ∈ gs, b ∈ g := by
  cases gs with
  | nil => cases h
  | cons g gs =>
    rcases List.mem_append.mp h with h | h
    · exact .inr ⟨g, List.mem_cons_self, h⟩
    · obtain ⟨g', hg', h⟩ := List.mem_flatMap.mp h
      rcases List.mem_cons.mp h with rfl | h
      · exact .inl rfl
      · exact .inr ⟨g', List.mem_cons_of_mem _ hg', h⟩

theorem mem_addressRuleValueText {v : AddressRuleValue} {c : Char} (h : c ∈ addressRuleValueText v) :
    isHexDigit c = true ∨ c ∈ ['.', ':', ',', '#', '-'] := by
  have hsign {sign digit : Char} (hs : sign = '#' ∨ sign = '-') (hd : isHexDigit digit = true) (h : c ∈ [sign, digit]) :
      isHexDigit c = true ∨ c ∈ ['.', ':', ',', '#', '-'] := by
    rcases List.mem_cons.mp h with rfl | h
    · rcases hs with rfl | rfl <;> exact .inr (by decide)
    · exact .inl (List.mem_singleton.mp h ▸ hd)
  cases v with
  | addr v4 v6 =>
    rw [addressRuleValueText_addr] at h
    rcases mem_joined h with rfl | ⟨g, hg, h⟩
    · exact .inr (by decide)
    · obtain ⟨ip, -, rfl⟩ := List.mem_map.mp hg
      rcases mem_ipText h with h | rfl | rfl
      · exact .inl h
      · exact .inr (by decide)
      · exact .inr (by decide)
  | soa | ign =>
    obtain rfl := List.mem_singleton.mp h
    exact .inr (by decide)
  | soav4 | soav6 | ignv4 | ignv6 => exact hsign (by decide) (by decide) h

theorem star_not_mem_addressRuleValueText (v : AddressRuleValue) : '*' ∉ addressRuleValueText v :=
  fun h => absurd (mem_addressRuleValueText h) (by decide)

/-- Behind the first dot is the rest of an IPv4 address. -/
structure DotText (s : List Char) (front b c d rest : List Char) : Prop where
  text : s = front ++ '.' :: (b ++ '.' :: (c ++ '.' :: (d ++ rest)))
  front : '.' ∉ front ∧ '\\' ∉ front
  groups : Group Char.isDigit 3 b ∧ Group Char.isDigit 3 c ∧ Group Char.isDigit 3 d
  rest : NotOk inName rest

theorem dotText_of_v4Text (front : List Char) (hfront : '.' ∉ front ∧ '\\' ∉ front) (bits : BitVec 32) {rest : List Char}
    (hrest : NotOk inName rest) : ∃ front' b c d, DotText (front ++ Dns.IpAddr.v4Text bits ++ rest) front' b c d rest := by
  have hquad := quad_v4Text bits notOk_nil
  have hdigit {x : Char} (hx : x.isDigit = false) : x ∉ IpAddr.decimal ((bits.toNat >>> 24) % 256) := by
    intro hmem
    have := hquad.first.all x hmem
    rw [hx] at this
    cases this
  refine ⟨front ++ IpAddr.decimal ((bits.toNat >>> 24) % 256), _, _, _, ?_, ?_,
    ⟨hquad.second.toGroup, hquad.third.toGroup, hquad.fourth.toGroup⟩, hrest⟩
  · rw [v4Text_eq]
    simp [quadText, dotted]
  · rw [List.mem_append, List.mem_append, not_or, not_or]
    exact ⟨⟨hfront.1, hdigit (by decide)⟩, hfront.2, hdigit (by decide)⟩

theorem dotText_of_ipText {ip : IpAddr} (h : '.' ∈ ipText ip) {rest : List Char} (hrest : NotOk inName rest) :
    ∃ front b c d, DotText (ipText ip ++ rest) front b c d rest := by
  cases ip with
  | v4 ip => exact dotText_of_v4Text [] ⟨List.not_mem_nil, List.not_mem_nil⟩ _ hrest
  | v6 ip =>
    rcases v6Text_cases ip with ⟨bits, -, htext⟩ | ⟨pre, sep, post, hsegments⟩
    · rw [ipText, htext]
      exact dotText_of_v4Text "::ffff:".toList (by decide +kernel) bits hrest
    · exact absurd (hsegments.mem_text h) (by decide)

theorem dotText_of_joined : ∀ {ips : List IpAddr}, '.' ∈ joined ',' (ips.map ipText) →
    ∃ front b c d rest, DotText (joined ',' (ips.map ipText)) front b c d rest
  | [], h => by cases h
  | ip :: ips, h => by
    have hmark : NotOk inName ((ips.map ipText).flatMap (',' :: ·)) := by
      cases ips with
      | nil => exact notOk_nil
      | cons ip ips => exact notOk_cons (by decide)
    by_cases hdot : '.' ∈ ipText ip
    · obtain ⟨front, b, c, d, hd⟩ := dotText_of_ipText hdot hmark
      exact ⟨front, b, c, d, _, hd⟩
    · cases ips with
      | nil => exact absurd (by simpa [joined] using h) hdot
      | cons ip' ips =>
        have hcons : joined ',' ((ip :: ip' :: ips).map ipText) =
            ipText ip ++ ',' :: joined ',' ((ip' :: ips).map ipText) := by simp [joined]
        rw [hcons] at h ⊢
        have htail : '.' ∈ joined ',' ((ip' :: ips).map ipText) := by
          rcases List.mem_append.mp h with h | h
          · exact absurd h hdot
          · exact (List.mem_cons.mp h).resolve_left (by decide)
        obtain ⟨front, b, c, d, rest, hd⟩ := dotText_of_joined htail
        refine ⟨ipText ip ++ ',' :: front, b, c, d, rest, ?_, ?_, hd.groups, hd.rest⟩
        · rw [hd.text]
          simp
        · have hback : '\\' ∉ ipText ip := fun h => absurd (mem_ipText h) (by decide)
          simp only [List.mem_append, List.mem_cons, not_or]
          exact ⟨⟨hdot, by decide, hd.front.1⟩, hback, by decide, hd.front.2⟩

theorem exists_dotText {v : AddressRuleValue} (h : '.' ∈ addressRuleValueText v) :
    ∃ front b c d rest, DotText (addressRuleValueText v) front b c d rest := by
  cases v with
  | addr v4 v6 =>
    rw [addressRuleValueText_addr] at h ⊢
    exact dotText_of_joined h
  | soa => exact absurd h (by decide)
  | soav4 => exact absurd h (by decide)
  | soav6 => exact absurd h (by decide)
  | ign => exact absurd h (by decide)
  | ignv4 => exact absurd h (by decide)
  | ignv6 => exact absurd h (by decide)

/-- Three numbers between dots are a name. -/
theorem parseName_digits {b c d rest : List Char} (hb : Group Char.isDigit 3 b) (hc : Group Char.isDigit 3 c)
    (hd : Group Char.isDigit 3 d) (hrest : NotOk inName rest) :
    parseName conv (b ++ '.' :: (c ++ '.' :: (d ++ rest))) ≠ none := by
  have hdigit {x : Char} (hx : x.isDigit = true) : isSafeText x true = true ∧ isSafeText x false = true ∧
      plainChar x = true ∧ inName x = true := by
    have hlt : x.toNat < 128 := toNat_lt_of_isAlphanum (by simp [Char.isAlphanum, hx])
    have htable : ∀ n < 128, (Char.ofNat n).isDigit = true → isSafeText (Char.ofNat n) true = true ∧
        isSafeText (Char.ofNat n) false = true ∧ plainChar (Char.ofNat n) = true ∧ inName (Char.ofNat n) = true := by
      decide +kernel
    exact ascii_induction (p := fun x => x.isDigit = true → isSafeText x true = true ∧ isSafeText x false = true ∧
      plainChar x = true ∧ inName x = true) htable hlt hx
  have hlabel {g : List Char} (hg : Group Char.isDigit 3 g) :
      ∃ l, Label.fromAscii g = some l ∧ l.bytes.length ≤ 3 := by
    have hsafe : isSafeLabel g = true := by
      cases g with
      | nil => exact absurd rfl hg.ne_nil
      | cons x g =>
        simp only [isSafeLabel, Bool.and_eq_true, List.all_eq_true]
        refine ⟨(hdigit (hg.all x List.mem_cons_self)).1, ?_⟩
        exact fun y hy => (hdigit (hg.all y (List.mem_cons_of_mem _ hy))).2.1
    have hlen := hg.length_le
    unfold Label.fromAscii
    rw [dif_pos ⟨hsafe, by omega⟩]
    exact ⟨_, rfl, by simpa using hlen⟩
  obtain ⟨lb, hlb, hb3⟩ := hlabel hb
  obtain ⟨lc, hlc, hc3⟩ := hlabel hc
  obtain ⟨ld, hld, hd3⟩ := hlabel hd
  have hplain {g : List Char} (hg : Group Char.isDigit 3 g) : g.all plainChar = true :=
    List.all_eq_true.mpr fun x hx => (hdigit (hg.all x hx)).2.2.1
  have hparts : NameParts Label.fromAscii [b, c, d] ⟨false, [lb, lc, ld]⟩ (b ++ '.' :: (c ++ '.' :: d)) := by
    refine ⟨by simp [joined], by simp, ?_, .cons hlb (.cons hlc (.cons hld .nil)), ?_⟩
    · intro p hp
      simp only [List.mem_cons, List.not_mem_nil, or_false] at hp
      rcases hp with rfl | rfl | rfl
      · exact hplain hb
      · exact hplain hc
      · exact hplain hd
    · simp only [Name.encodedLen, Name.MAX_LENGTH, List.length_cons, List.length_nil, List.flatMap_cons,
        List.flatMap_nil, List.length_append]
      omega
  have hread : Name.fromStr conv.toAscii (b ++ '.' :: (c ++ '.' :: d)) ≠ none := by
    intro hnone
    have hascii := (Option.or_eq_none_iff.mp hnone).2
    rw [hparts.fromEncodedStr_eq rfl] at hascii
    cases hascii
  obtain ⟨n, hn⟩ := Option.ne_none_iff_exists'.mp hread
  have hname : ∀ x ∈ b ++ '.' :: (c ++ '.' :: d), inName x = true := by
    intro x hx
    simp only [List.mem_append, List.mem_cons] at hx
    rcases hx with hx | rfl | hx | rfl | hx
    · exact (hdigit (hb.all x hx)).2.2.2
    · decide
    · exact (hdigit (hc.all x hx)).2.2.2
    · decide
    · exact (hdigit (hd.all x hx)).2.2.2
  have hrun := parseName_iff.mpr ⟨_, by simp, hname, hrest, rfl, hn⟩
  have htext : b ++ '.' :: (c ++ '.' :: (d ++ rest)) = b ++ '.' :: (c ++ '.' :: d) ++ rest := by simp
  rw [htext, hrun]
  exact Option.some_ne_none _

/-! ### Whole rules -/

theorem parseAddressRule_iff {s rest : List Char} {rule : AddressRule} :
    parseAddressRule conv s = some (rule, rest) ↔ ∃ s₁ s₂, s = '/' :: s₁ ∧
      parseDomain conv s₁ = some (rule.domain, '/' :: s₂) ∧ parseAddressRuleValue s₂ = some (rule.config, rest) := by
  constructor
  · intro h
    obtain ⟨⟨u, s₁⟩, h₁, h₂⟩ := Option.bind_eq_some_iff.mp h
    obtain ⟨⟨domain, s₂⟩, hdomain, h₃⟩ := Option.bind_eq_some_iff.mp h₂
    obtain ⟨⟨u', s₃⟩, h₄, h₅⟩ := Option.bind_eq_some_iff.mp h₃
    obtain ⟨⟨address, s₄⟩, haddress, h₆⟩ := Option.bind_eq_some_iff.mp h₅
    obtain ⟨rfl, rfl⟩ := Prod.mk.inj (Option.some.inj h₆)
    have hs := tag_one_iff.mp h₁
    have hs₂ := tag_one_iff.mp h₄
    subst hs₂
    exact ⟨s₁, s₃, hs, hdomain, haddress⟩
  · rintro ⟨s₁, s₂, rfl, hdomain, haddress⟩
    unfold parseAddressRule char
    rw [tag_bind_cons, bind_run, hdomain]
    show (tag (· == ·) ['/'] >>= fun _ => _) ('/' :: s₂) = _
    rw [tag_bind_cons, bind_run, haddress]
    rfl

variable (conv) in
/-- What the parser makes; and a domain and an address that were read each for itself. -/
structure Producible (rule : AddressRule) : Prop where
  domain : ∃ s rest, parseDomain conv s = some (rule.domain, rest)
  config : ∃ s rest, parseAddressRuleValue s = some (rule.config, rest)

theorem producible_of_parse {s rest : List Char} {rule : AddressRule} (h : parseAddressRule conv s = some (rule, rest)) :
    Producible conv rule := by
  obtain ⟨s₁, s₂, -, hdomain, hconfig⟩ := parseAddressRule_iff.mp h
  exact ⟨⟨_, _, hdomain⟩, _, _, hconfig⟩

variable (conv) in
/-- The text of the rule is read to its end, as an equal rule. -/
def RoundTrips (rule : AddressRule) : Prop :=
  ∃ rule', parseAddressRule conv (addressRuleText conv rule) = some (rule', []) ∧
    (rule'.domain == rule.domain) = true ∧ rule'.config = rule.config

/-- The domain is the default wildcard. -/
def Starred (rule : AddressRule) : Prop := ∃ n, rule.domain = .name (.sub ⟨[]⟩ n)

/-- The domain is one label that begins with `*`, and the address is written with a dot. -/
def Swallowed (rule : AddressRule) : Prop :=
  ∃ l, rule.domain = .name (.default ⟨false, [l]⟩) ∧ l.chars.head? = some '*' ∧
    '.' ∈ addressRuleValueText rule.config

variable (conv) in
/-- No label of the domain's name has a dot in it, and IDNA takes all its labels or none is written as
Unicode. -/
def Readable (d : Domain) : Prop :=
  ∀ p, d = .name p → ¬ p.name.Mixed conv.toAscii conv.toUnicode ∧ ¬ p.name.Dotted

theorem wildcardText_of_pattern (hdoc : conv.Documented) {p : List Char} {w : Wildcard} (hw : conv.wildcard p = some w)
    (hne : p ≠ []) : w.pattern ≠ [] ∧ wildcardText w = p := by
  have hpattern := hdoc.pattern hw
  have hpne : w.pattern ≠ [] := by
    rw [hpattern]
    intro hnil
    have hempty := (Lib.utf8_eq_nil_iff _).mp hnil
    exact hne (by simpa using congrArg String.toList hempty)
  refine ⟨hpne, ?_⟩
  have hread := Lib.fromUtf8_utf8 (String.ofList p)
  unfold Lib.fromUtf8 at hread
  unfold wildcardText
  rw [if_neg (by simpa using hpne), hpattern, hread]
  exact String.toList_ofList

/-- A name whose first label begins with `*`, in front of a slash, is read as a wildcard up to the dot in
the address. -/
theorem parseSub_swallowed (hdoc : conv.Documented) {l : Label} (hsafe : l.Safe) (hstar : l.chars.head? = some '*')
    (hdot : '.' ∉ l.chars) {v : AddressRuleValue} (h : '.' ∈ addressRuleValueText v) :
    parseSub conv (nameText conv.toUnicode ⟨false, [l]⟩ ++ '/' :: addressRuleValueText v) ≠ none := by
  obtain ⟨front, b, c, d, rest, hd⟩ := exists_dotText h
  have htext : nameText conv.toUnicode ⟨false, [l]⟩ = l.chars := by
    have hnone : l.unicode conv.toUnicode = none := unicode_of_head hstar (by decide)
    have hplain := Label.labelText_plain hnone
    simp [nameText, hplain, hsafe.writeAscii hdot]
  have hback : '\\' ∉ l.chars := by
    intro hmem
    exact absurd (isSafeText_of_isSafeLabel hsafe hmem) (by decide)
  have hlabel : '.' ∉ l.chars ++ '/' :: front ∧ '\\' ∉ l.chars ++ '/' :: front := by
    simp only [List.mem_append, List.mem_cons, not_or]
    exact ⟨⟨hdot, by decide, hd.front.1⟩, hback, by decide, hd.front.2⟩
  obtain ⟨w, hw⟩ := Option.ne_none_iff_exists'.mp (hdoc.accepted hlabel.2)
  have hname : parseName conv _ ≠ none := parseName_digits hd.groups.1 hd.groups.2.1 hd.groups.2.2 hd.rest
  obtain ⟨⟨n, s⟩, hn⟩ := Option.ne_none_iff_exists'.mp hname
  have hrun := parseSub_iff.mpr ⟨l.chars ++ '/' :: front, _, w, n, rfl, hlabel.1,
    List.mem_append_left _ (List.mem_of_head? hstar), hw, hn, rfl⟩
  have hs : nameText conv.toUnicode ⟨false, [l]⟩ ++ '/' :: addressRuleValueText v =
      (l.chars ++ '/' :: front) ++ '.' :: (b ++ '.' :: (c ++ '.' :: (d ++ rest))) := by
    rw [htext, hd.text]
    simp
  rw [hs, hrun]
  exact Option.some_ne_none _

/-- Of a name that stands for itself no part is taken as a wildcard. -/
theorem parseSub_default (hdoc : conv.Documented) {n : Name} (hn : ReadName conv n) (hdot : ¬ n.Dotted)
    (hne : n.labels ≠ []) (halone : ∀ l ls, n.labels = l :: ls → l.chars.head? = some '*' → ls = [])
    {v : AddressRuleValue} (hswallowed : ¬ ∃ l, n = ⟨false, [l]⟩ ∧ l.chars.head? = some '*' ∧ '.' ∈ addressRuleValueText v) :
    parseSub conv (nameText conv.toUnicode n ++ '/' :: addressRuleValueText v) = none := by
  obtain ⟨l, ls, hlabels⟩ := List.exists_cons_of_ne_nil hne
  have hl : l ∈ n.labels := hlabels ▸ List.mem_cons_self
  have hsafe := hn.safe l hl
  have hldot : '.' ∉ l.chars := fun h => hdot ⟨l, hl, h⟩
  have hpart := Name.labelText_part hdoc.toIdna hsafe hldot
  obtain ⟨tail, htext, htail⟩ : ∃ tail, nameText conv.toUnicode n ++ _ = _ ∧ _ :=
    nameText_cons n hlabels (addressRuleValueText v)
  rw [htext]
  cases hrun : parseSub conv (labelText conv.toUnicode l ++ tail) with
  | none => rfl
  | some x =>
    obtain ⟨label, s', w, n', hs, hdot', hstar', -, hname, -⟩ := parseSub_iff.mp hrun
    have hstar (h : '*' ∈ labelText conv.toUnicode l) : l.chars.head? = some '*' :=
      star_of_mem_labelText hdoc hsafe hldot h
    rcases htail with ⟨rfl, hfqdn, hls⟩ | ⟨rfl, hfqdn, hls⟩ | ⟨hls, tail', rfl⟩
    · -- The wildcard goes on into the address.
      have hsplit : labelText conv.toUnicode l ++ '/' :: addressRuleValueText v = label ++ '.' :: s' := hs
      have hmem : '.' ∈ labelText conv.toUnicode l ++ '/' :: addressRuleValueText v := by
        rw [hsplit]
        exact List.mem_append_right _ List.mem_cons_self
      have hmem' : '.' ∈ addressRuleValueText v := by
        rcases List.mem_append.mp hmem with h | h
        · exact absurd h hpart.2
        · exact (List.mem_cons.mp h).resolve_left (by decide)
      have hlabel : '*' ∈ labelText conv.toUnicode l ++ '/' :: addressRuleValueText v := by
        rw [hsplit]
        exact List.mem_append_left _ hstar'
      have hstarred : '*' ∈ labelText conv.toUnicode l := by
        rcases List.mem_append.mp hlabel with h | h
        · exact h
        · exact absurd ((List.mem_cons.mp h).resolve_left (by decide)) (star_not_mem_addressRuleValueText v)
      obtain ⟨f, labels⟩ := n
      dsimp only at hlabels hfqdn
      subst hlabels hls hfqdn
      exact absurd ⟨l, rfl, hstar hstarred, hmem'⟩ hswallowed
    · obtain ⟨rfl, rfl⟩ := Lib.append_sep_inj hpart.2 hdot' hs
      rw [parseName_none (by decide)] at hname
      cases hname
    · obtain ⟨rfl, rfl⟩ := Lib.append_sep_inj hpart.2 hdot' hs
      exact absurd (halone l ls hlabels (hstar hstar')) hls

theorem labels_ne_nil_of_default {n : Name} (hn : ReadName conv n) (hkind : patternOfName n = .default n) :
    n.labels ≠ [] := by
  obtain ⟨t, ht⟩ := hn
  cases ht with
  | root _ h =>
    rw [h] at hkind
    cases hkind
  | utf8 parts h => exact Name.labels_ne_nil h
  | ascii parts _ h => exact Name.labels_ne_nil h

/-- The text of a name begins with no sign. -/
theorem head_nameText (hdoc : conv.Documented) {n : Name} (hn : ReadName conv n) (hdot : ¬ n.Dotted)
    (hne : n.labels ≠ []) (rest : List Char) :
    (∀ s', nameText conv.toUnicode n ++ '/' :: rest ≠ '-' :: '.' :: s') ∧
      (nameText conv.toUnicode n ++ '/' :: rest).head? ≠ some '+' ∧
      (nameText conv.toUnicode n ++ '/' :: rest).head? ≠ some '.' := by
  obtain ⟨l, ls, hlabels⟩ := List.exists_cons_of_ne_nil hne
  have hl : l ∈ n.labels := hlabels ▸ List.mem_cons_self
  have hsafe := hn.safe l hl
  have hldot : '.' ∉ l.chars := fun h => hdot ⟨l, hl, h⟩
  obtain ⟨htextne, htextdot⟩ := Name.labelText_part hdoc.toIdna hsafe hldot
  obtain ⟨tail, htext, -⟩ : ∃ tail, nameText conv.toUnicode n ++ _ = _ ∧ _ := nameText_cons n hlabels rest
  rw [htext]
  obtain ⟨c, cs, hc⟩ := List.exists_cons_of_ne_nil htextne
  have hplus : '+' ∉ labelText conv.toUnicode l := fun h =>
    hn.not_mem_text hdoc (c := '+') (by decide) (by decide) (Name.mem_nameText hl h)
  rw [hc] at htextdot hplus ⊢
  refine ⟨?_, fun h => hplus (Option.some.inj h ▸ List.mem_cons_self),
    fun h => htextdot (Option.some.inj h ▸ List.mem_cons_self)⟩
  intro s' hs
  obtain ⟨rfl, hs'⟩ := List.cons.inj hs
  cases cs with
  | cons d cs =>
    obtain ⟨rfl, -⟩ := List.cons.inj hs'
    exact htextdot (List.mem_cons_of_mem _ List.mem_cons_self)
  | nil =>
    -- No label is written as a single dash.
    cases hunicode : l.unicode conv.toUnicode with
    | none =>
      rw [Label.labelText_plain hunicode, hsafe.writeAscii hldot] at hc
      have hdash : isSafeLabel l.chars = true := hsafe
      rw [hc] at hdash
      exact absurd hdash (by decide)
    | some u =>
      obtain ⟨d, hd, hlt⟩ := Name.exists_unicode_char hdoc.toIdna hsafe hunicode
      rw [hc] at hd
      obtain rfl := List.mem_singleton.mp hd
      exact absurd hlt (by decide)

theorem domainText_set (set : List Char) :
    domainText conv (.set (String.ofList set)) = "domain-set:".toList ++ set :=
  congrArg ("domain-set:".toList ++ ·) String.toList_ofList

/-- **The domain of a rule is read back** in front of its address. -/
theorem parseDomain_domainText (hdoc : conv.Documented) {rule : AddressRule} (h : Domain.Made conv rule.domain)
    (hstarred : ¬ Starred rule) (hread : Readable conv rule.domain) (hswallowed : ¬ Swallowed rule) :
    parseDomain conv (domainText conv rule.domain ++ '/' :: addressRuleValueText rule.config) =
      some (rule.domain, '/' :: addressRuleValueText rule.config) := by
  obtain ⟨domain, v⟩ := rule
  dsimp only at h hread ⊢
  have hcolon {n : Name} (hn : ReadName conv n) : ':' ∉ nameText conv.toUnicode n := by
    intro hmem
    rcases mem_nameText_cases hmem with h | ⟨l, hl, hc⟩
    · exact absurd h (by decide)
    · rcases (hn.safe l hl).mem_labelText hdoc.toIdna hc with h | h | ⟨h, -⟩
      · exact absurd h (by decide)
      · exact absurd h (by decide)
      · exact absurd h (by decide)
  cases h with
  | @set set hne hslash =>
    have hrun : takeWhile1 (· ≠ '/') (set ++ '/' :: addressRuleValueText v) = some (set, '/' :: addressRuleValueText v) := by
      refine takeWhile1_iff.mpr ⟨hne, ?_, notOk_cons (by simp), rfl⟩
      intro c hc
      simpa using fun h : c = '/' => hslash (h ▸ hc)
    have hset : parseSet ("domain-set:".toList ++ (set ++ '/' :: addressRuleValueText v)) =
        some (.set (String.ofList set), '/' :: addressRuleValueText v) := by
      unfold parseSet
      rw [bind_run, tagNoCase, tagNoCase_front _ rfl]
      show (takeWhile1 _ _).bind _ = _
      rw [hrun]
      rfl
    rw [domainText_set, List.append_assoc, parseDomain_eq, orElse_run, hset]
    rfl
  | @sub p w n hdot hstar hw hset hn =>
    obtain ⟨hmixed, hdotted⟩ := hread _ rfl
    have hname := parseName_nameText hdoc hn hmixed hdotted (addressRuleValueText v)
    have htext : domainText conv (.name (.sub w n)) ++ '/' :: addressRuleValueText v =
        p ++ '.' :: (nameText conv.toUnicode n ++ '/' :: addressRuleValueText v) := by
      show wildcardText w ++ ['.'] ++ nameText conv.toUnicode n ++ _ = _
      rw [(wildcardText_of_pattern hdoc hw (List.ne_nil_of_mem hstar)).2]
      simp
    have hsub := parseSub_iff.mpr ⟨p, _, w, n, rfl, hdot, hstar, hw, hname, rfl⟩
    rw [htext, parseDomain_name (hset _), parseWildcardName, orElse_run, hsub]
    rfl
  | star => exact absurd ⟨_, rfl⟩ hstarred
  | @full n hn =>
    obtain ⟨hmixed, hdotted⟩ := hread _ rfl
    have hname := parseName_nameText hdoc hn hmixed hdotted (addressRuleValueText v)
    have hset : parseSet ('-' :: '.' :: nameText conv.toUnicode n ++ '/' :: addressRuleValueText v) = none :=
      parseSet_none (by simp [hcolon hn]) _
    show parseDomain conv ('-' :: '.' :: nameText conv.toUnicode n ++ '/' :: addressRuleValueText v) = _
    rw [parseDomain_name hset, List.cons_append, List.cons_append, parseWildcardName_full hname]
    rfl
  | @suffix n hn =>
    obtain ⟨hmixed, hdotted⟩ := hread _ rfl
    have hname := parseName_nameText hdoc hn hmixed hdotted (addressRuleValueText v)
    have hset : parseSet ('+' :: '.' :: nameText conv.toUnicode n ++ '/' :: addressRuleValueText v) = none :=
      parseSet_none (by simp [hcolon hn]) _
    show parseDomain conv ('+' :: '.' :: nameText conv.toUnicode n ++ '/' :: addressRuleValueText v) = _
    rw [parseDomain_name hset, List.cons_append, List.cons_append, parseWildcardName_suffix hname]
    rfl
  | @default n hn hkind halone =>
    obtain ⟨hmixed, hdotted⟩ := hread _ rfl
    have hname := parseName_nameText hdoc hn hmixed hdotted (addressRuleValueText v)
    have hne := labels_ne_nil_of_default hn hkind
    have hsub := parseSub_default hdoc hn hdotted hne halone (v := v) (by
      rintro ⟨l, rfl, hstar, hdot⟩
      exact hswallowed ⟨l, rfl, hstar, hdot⟩)
    obtain ⟨hfull, hplus, hdot⟩ := head_nameText hdoc hn hdotted hne (addressRuleValueText v)
    show parseDomain conv (nameText conv.toUnicode n ++ '/' :: addressRuleValueText v) = _
    rw [parseDomain_name (parseSet_none (hcolon hn) _), parseWildcardName_plain hsub hfull hplus hdot hname, hkind]
    rfl

theorem beq_of_patternOfName {n n' : Name} (h : (patternOfName n' == WildcardName.default n) = true) :
    (n' == n) = true := by
  unfold patternOfName at h
  by_cases hwild : n'.isWildcard = true
  · rw [if_pos hwild] at h
    cases h
  rw [if_neg hwild] at h
  by_cases hroot : n'.isRoot = true
  · rw [if_pos hroot] at h
    cases h
  · rw [if_neg hroot] at h
    exact h

theorem patternOfName_not_full {n n' : Name} : (patternOfName n' == WildcardName.full n) = false := by
  unfold patternOfName
  split_ifs <;> rfl

/-- A name that is no sign's is never a pattern with one. -/
theorem patternOfName_not_sub {n n' : Name} {w : Wildcard} (h : w.pattern ≠ []) :
    (patternOfName n' == WildcardName.sub w n) = false := by
  unfold patternOfName
  split_ifs
  · exact Bool.and_eq_false_imp.mpr fun heq => absurd (beq_iff_eq.mp heq) h.symm
  · rfl
  · rfl

section

variable {p p' : WildcardName} {v : AddressRuleValue} {rest : List Char}

theorem not_starred_of_run (hdoc : conv.Documented) (h : Domain.Made conv (.name p))
    (hrun : WildcardRun conv (wildcardNameText conv p ++ '/' :: addressRuleValueText v) p' ('/' :: rest))
    (heq : (p' == p) = true) (n : Name) : p ≠ .sub ⟨[]⟩ n := by
  rintro rfl
  cases h with
  | @sub label w n hdot hstar hw hset hn =>
    exact absurd rfl (wildcardText_of_pattern hdoc hw (List.ne_nil_of_mem hstar)).1
  | star =>
    have hname : parseName conv ('.' :: '/' :: addressRuleValueText v) = some (Name.root, '/' :: addressRuleValueText v) :=
      parseName_iff.mpr ⟨['.'], by simp, List.forall_mem_singleton.mpr (by decide), notOk_cons (by decide), rfl, rfl⟩
    obtain ⟨w, hw⟩ := Option.ne_none_iff_exists'.mp (hdoc.accepted (t := ['*']) (by decide))
    have hsub : parseSub conv (['*'] ++ '.' :: '.' :: '/' :: addressRuleValueText v) =
        some (.sub w Name.root, '/' :: addressRuleValueText v) :=
      parseSub_iff.mpr ⟨['*'], _, w, Name.root, rfl, by decide, by decide, hw, hname, rfl⟩
    cases hrun with
    | sub hsub' =>
      obtain ⟨rfl, -⟩ := Prod.mk.inj (Option.some.inj (hsub'.symm.trans hsub))
      have hpattern : (w.pattern == ([] : List UInt8) && Name.root == Name.root) = true := heq
      rw [Bool.and_eq_true, beq_iff_eq] at hpattern
      exact (wildcardText_of_pattern hdoc hw (by simp)).1 hpattern.1
    | full _ _ => cases heq
    | suffix _ _ => cases heq
    | name hnone _ =>
      rw [show wildcardNameText conv (.sub ⟨[]⟩ Name.root) ++ '/' :: addressRuleValueText v =
        ['*'] ++ '.' :: '.' :: '/' :: addressRuleValueText v from rfl, hsub] at hnone
      cases hnone
    | plus _ _ => cases heq

/-- The text of a name is not empty, not even that of one with a dot inside a label. -/
theorem ReadName.text_shown (hdoc : conv.Documented) {n : Name} (hn : ReadName conv n) :
    nameText conv.toUnicode n ≠ [] := by
  by_cases hdotted : n.Dotted
  · intro hnil
    obtain ⟨l, hl, hdot⟩ := hdotted
    have hempty : labelText conv.toUnicode l = [] := by
      rw [List.eq_nil_iff_forall_not_mem]
      intro c hc
      have hmem := Name.mem_nameText hl hc
      rw [hnil] at hmem
      cases hmem
    cases hunicode : l.unicode conv.toUnicode with
    | some u =>
      obtain ⟨c, hc, -⟩ := Name.exists_unicode_char hdoc.toIdna (hn.safe l hl) hunicode
      rw [hempty] at hc
      cases hc
    | none =>
      have hback := Name.backslash_mem_writeAscii (Label.dot_mem_chars.mp hdot)
      rw [← Label.labelText_plain hunicode, hempty] at hback
      cases hback
  · exact hn.text_ne_nil hdoc hdotted

theorem readable_of_run (hdoc : conv.Documented) (h : Domain.Made conv (.name p))
    (hrun : WildcardRun conv (wildcardNameText conv p ++ '/' :: addressRuleValueText v) p' ('/' :: rest))
    (heq : (p' == p) = true) : ¬ p.name.Mixed conv.toAscii conv.toUnicode ∧ ¬ p.name.Dotted := by
  cases h with
  | @sub label w n hdot hstar hw hset hn =>
    obtain ⟨hpne, hptext⟩ := wildcardText_of_pattern hdoc hw (List.ne_nil_of_mem hstar)
    have htext : wildcardNameText conv (.sub w n) ++ '/' :: addressRuleValueText v =
        label ++ '.' :: (nameText conv.toUnicode n ++ '/' :: addressRuleValueText v) := by
      show wildcardText w ++ ['.'] ++ nameText conv.toUnicode n ++ _ = _
      rw [hptext]
      simp
    cases hrun with
    | sub hsub =>
      obtain ⟨label', s', w', n', hs, hdot', -, -, hname, rfl⟩ := parseSub_iff.mp hsub
      obtain ⟨-, rfl⟩ := Lib.append_sep_inj hdot hdot' (htext.symm.trans hs)
      have hboth : (w'.pattern == w.pattern && n' == n) = true := heq
      exact readable_of_parseName hdoc hn hname ((Bool.and_eq_true _ _).mp hboth).2
    | full _ _ => cases heq
    | suffix _ _ => cases heq
    | name _ _ =>
      rw [patternOfName_not_sub hpne] at heq
      cases heq
    | plus _ _ => cases heq
  | star =>
    constructor
    · rintro ⟨⟨l, hl, -⟩, -⟩
      cases hl
    · rintro ⟨l, hl, -⟩
      cases hl
  | @full n hn =>
    cases hrun with
    | sub hsub =>
      obtain ⟨_, _, _, _, _, _, _, _, _, rfl⟩ := parseSub_iff.mp hsub
      cases heq
    | full hs hname =>
      obtain ⟨-, hs⟩ := List.cons.inj hs
      obtain ⟨-, rfl⟩ := List.cons.inj hs
      exact readable_of_parseName hdoc hn hname heq
    | suffix _ _ => cases heq
    | name _ _ =>
      rw [patternOfName_not_full] at heq
      cases heq
    | plus _ _ => cases heq
  | @suffix n hn =>
    cases hrun with
    | sub hsub =>
      obtain ⟨_, _, _, _, _, _, _, _, _, rfl⟩ := parseSub_iff.mp hsub
      cases heq
    | full _ _ => cases heq
    | suffix hs hname =>
      rcases hs with hs | hs
      · obtain ⟨-, hs⟩ := List.cons.inj hs
        obtain ⟨-, rfl⟩ := List.cons.inj hs
        exact readable_of_parseName hdoc hn hname heq
      · exact absurd (List.cons.inj hs).1 (by decide)
    | name _ hname =>
      have hnone : parseName conv (wildcardNameText conv (.suffix n) ++ '/' :: addressRuleValueText v) = none :=
        parseName_none (c := '+') (by decide)
      rw [hnone] at hname
      cases hname
    | plus hs hrest =>
      obtain ⟨-, rfl⟩ := List.cons.inj hs
      have hslash := hn.not_mem_text hdoc (c := '/') (by decide) (by decide)
      rcases hrest with hrest | hrest
      · exact absurd (List.cons.inj hrest).1 (by decide)
      · obtain ⟨-, hrest⟩ := List.cons.inj hrest
        have hhead : nameText conv.toUnicode n ++ '/' :: addressRuleValueText v = '/' :: rest := hrest
        cases htext : nameText conv.toUnicode n with
        | nil => exact absurd htext (hn.text_shown hdoc)
        | cons c s =>
          rw [htext] at hhead hslash
          obtain ⟨rfl, -⟩ := List.cons.inj hhead
          exact absurd List.mem_cons_self hslash
  | @default n hn hkind halone =>
    cases hrun with
    | sub hsub =>
      obtain ⟨_, _, _, _, _, _, _, _, _, rfl⟩ := parseSub_iff.mp hsub
      cases heq
    | full _ _ => cases heq
    | suffix _ _ => cases heq
    | name _ hname => exact readable_of_parseName hdoc hn hname (beq_of_patternOfName heq)
    | plus _ _ => cases heq

theorem not_swallowed_of_run (hdoc : conv.Documented) (h : Domain.Made conv (.name p))
    (hrun : WildcardRun conv (wildcardNameText conv p ++ '/' :: addressRuleValueText v) p' ('/' :: rest))
    (heq : (p' == p) = true) (hdotted : ¬ p.name.Dotted) {l : Label} (hp : p = .default ⟨false, [l]⟩)
    (hstar : l.chars.head? = some '*') : '.' ∉ addressRuleValueText v := by
  intro hdot
  subst hp
  cases h with
  | default hn hkind halone =>
    have hsub := parseSub_swallowed hdoc (hn.safe l List.mem_cons_self) hstar
      (fun h => hdotted ⟨l, List.mem_cons_self, h⟩) hdot
    cases hrun with
    | sub hsub =>
      obtain ⟨_, _, _, _, _, _, _, _, _, rfl⟩ := parseSub_iff.mp hsub
      cases heq
    | full _ _ => cases heq
    | suffix _ _ => cases heq
    | name hnone _ => exact hsub hnone
    | plus _ _ => cases heq

end

/-- A domain that is read back is none of the four kinds. -/
theorem conditions_of_parseDomain (hdoc : conv.Documented) {rule : AddressRule} (h : Domain.Made conv rule.domain)
    {d : Domain} {rest : List Char}
    (hrun : parseDomain conv (domainText conv rule.domain ++ '/' :: addressRuleValueText rule.config) =
      some (d, '/' :: rest)) (heq : (d == rule.domain) = true) :
    ¬ Starred rule ∧ Readable conv rule.domain ∧ ¬ Swallowed rule := by
  obtain ⟨domain, v⟩ := rule
  dsimp only at h hrun heq ⊢
  cases domain with
  | set set =>
    refine ⟨?_, ?_, ?_⟩
    · rintro ⟨n, hn⟩
      cases hn
    · intro p hp
      cases hp
    · rintro ⟨l, hl, -⟩
      cases hl
  | name p =>
    have hset : parseSet (domainText conv (.name p) ++ '/' :: addressRuleValueText v) = none := by
      cases hset : parseSet (domainText conv (.name p) ++ '/' :: addressRuleValueText v) with
      | none => rfl
      | some x =>
        rw [parseDomain_eq, orElse_run, hset] at hrun
        obtain rfl := Option.some.inj hrun
        obtain ⟨y, -, hy⟩ := Option.bind_eq_some_iff.mp hset
        obtain ⟨z, -, hz⟩ := Option.bind_eq_some_iff.mp hy
        obtain ⟨rfl, -⟩ := Prod.mk.inj (Option.some.inj hz)
        cases heq
    rw [parseDomain_name hset] at hrun
    obtain ⟨⟨p', rest'⟩, hwild, hp'⟩ := Option.map_eq_some_iff.mp hrun
    obtain ⟨rfl, rfl⟩ := Prod.mk.inj hp'
    have heq' : (p' == p) = true := heq
    have hread := readable_of_run hdoc h (parseWildcardName_cases hwild) heq'
    refine ⟨?_, ?_, ?_⟩
    · rintro ⟨n, hn⟩
      exact not_starred_of_run hdoc h (parseWildcardName_cases hwild) heq' n (Domain.name.inj hn)
    · rintro q hq
      obtain rfl := Domain.name.inj hq
      exact hread
    · rintro ⟨l, hl, hstar, hdot⟩
      exact not_swallowed_of_run hdoc h (parseWildcardName_cases hwild) heq' hread.2 (Domain.name.inj hl) hstar hdot

theorem addressRuleText_eq (rule : AddressRule) : addressRuleText conv rule =
    '/' :: (domainText conv rule.domain ++ '/' :: addressRuleValueText rule.config) := by
  unfold addressRuleText
  simp

/-- The text of a rule that is none of the four kinds is read as the rule. -/
theorem parseAddressRule_text (hdoc : conv.Documented) {rule : AddressRule} (h : Producible conv rule)
    (hread : ¬ Starred rule ∧ Readable conv rule.domain ∧ ¬ Swallowed rule) :
    parseAddressRule conv (addressRuleText conv rule) = some (rule, []) := by
  obtain ⟨s, rest, hdomain⟩ := h.domain
  obtain ⟨s', rest', hconfig⟩ := h.config
  have hmade := made_of_parseDomain hdoc hdomain
  have hvalue := parseAddressRuleValue_text (made_of_parse hconfig)
  exact parseAddressRule_iff.mpr ⟨_, _, addressRuleText_eq rule,
    parseDomain_domainText hdoc hmade hread.1 hread.2.1 hread.2.2, hvalue⟩

/-- A rule whose text is read back, whatever is left of it, is none of the four kinds. -/
theorem conditions_of_parse (hdoc : conv.Documented) {rule rule' : AddressRule} (h : Producible conv rule)
    {rest : List Char} (hrun : parseAddressRule conv (addressRuleText conv rule) = some (rule', rest))
    (heq : (rule'.domain == rule.domain) = true) : ¬ Starred rule ∧ Readable conv rule.domain ∧ ¬ Swallowed rule := by
  obtain ⟨s, rest', hdomain⟩ := h.domain
  obtain ⟨s₁, s₂, hs, hdomain', -⟩ := parseAddressRule_iff.mp hrun
  rw [addressRuleText_eq] at hs
  obtain ⟨-, rfl⟩ := List.cons.inj hs
  exact conditions_of_parseDomain hdoc (made_of_parseDomain hdoc hdomain) hdomain' heq

theorem Domain.beq_self (d : Domain) : (d == d) = true := by
  cases d with
  | name p => exact beq_self_eq_true p
  | set set => exact beq_self_eq_true set

/-- **A rule that the parser makes survives printing** exactly where its domain is not the default
wildcard, its name has no dot in a label and is not written half as Unicode and half as ASCII, and no
dotted address follows a single label like `*abc`. -/
theorem roundTrips_iff (hdoc : conv.Documented) {rule : AddressRule} (h : Producible conv rule) :
    RoundTrips conv rule ↔ ¬ Starred rule ∧ Readable conv rule.domain ∧ ¬ Swallowed rule := by
  constructor
  · rintro ⟨rule', hrun, heq, -⟩
    exact conditions_of_parse hdoc h hrun heq
  · intro hread
    exact ⟨rule, parseAddressRule_text hdoc h hread, rule.domain.beq_self, rfl⟩

/-- Conversions of names in ASCII. -/
def asciiConversions : TextConversions where
  toAscii s := if s.all (fun c => c.isAlphanum || c == '-' || c == '.') then some (s.map Char.toLower) else none
  toUnicode _ := none
  wildcard t := if '\\' ∈ t then none else some ⟨Lib.utf8 (String.ofList t)⟩

theorem documented_asciiConversions : asciiConversions.Documented := by
  have hlower {s a : List Char} (h : asciiConversions.toAscii s = some a) :
      (∀ c ∈ s, (c.isAlphanum || c == '-' || c == '.') = true) ∧ a = s.map Char.toLower := by
    simp only [asciiConversions] at h
    split_ifs at h with hall
    exact ⟨List.all_eq_true.mp hall, (Option.some.inj h).symm⟩
  have hascii {c : Char} (h : (c.isAlphanum || c == '-' || c == '.') = true) : c.toNat < 128 := by
    simp only [Bool.or_eq_true, beq_iff_eq] at h
    rcases h with (h | rfl) | rfl
    · exact toNat_lt_of_isAlphanum h
    · decide
    · decide
  have htable : ∀ n < 128, ((Char.ofNat n).isAlphanum || Char.ofNat n == '-' || Char.ofNat n == '.') = true →
      ((Char.ofNat n).toLower.isAlphanum || (Char.ofNat n).toLower == '-' || (Char.ofNat n).toLower == '.') = true ∧
        (Char.ofNat n).toLower.toLower = (Char.ofNat n).toLower := by decide +kernel
  have hagain {c : Char} (h : (c.isAlphanum || c == '-' || c == '.') = true) :
      (c.toLower.isAlphanum || c.toLower == '-' || c.toLower == '.') = true ∧ c.toLower.toLower = c.toLower :=
    ascii_induction (p := fun c => (c.isAlphanum || c == '-' || c == '.') = true →
      (c.toLower.isAlphanum || c.toLower == '-' || c.toLower == '.') = true ∧ c.toLower.toLower = c.toLower)
      htable (hascii h) h
  refine ⟨⟨?_, ?_, fun h _ => (hlower h).2, ?_, nofun, nofun, nofun, nofun⟩, ?_, ?_⟩
  · intro s a h c hc
    obtain ⟨hall, rfl⟩ := hlower h
    obtain ⟨d, hd, rfl⟩ := List.mem_map.mp hc
    exact hascii (hagain (hall d hd)).1
  · intro s a h c hc _
    have := (hlower h).1 c hc
    simpa [or_assoc] using this
  · intro s a h
    obtain ⟨hall, rfl⟩ := hlower h
    have hmap : (s.map Char.toLower).map Char.toLower = s.map Char.toLower := by
      rw [List.map_map]
      exact List.map_congr_left fun c hc => (hagain (hall c hc)).2
    simp only [asciiConversions]
    rw [if_pos, hmap]
    rw [List.all_map, List.all_eq_true]
    exact fun c hc => (hagain (hall c hc)).1
  · intro t w h
    simp only [asciiConversions] at h
    split_ifs at h
    exact congrArg Wildcard.pattern (Option.some.inj h).symm
  · intro t h
    simp only [asciiConversions]
    rw [if_neg h]
    exact Option.some_ne_none _

/-- A rule for the name `a.b`. -/
def plainRule : AddressRule :=
  ⟨.name (.default ⟨false, [⟨[97], List.cons_ne_nil _ _, Nat.le_add_left 1 62⟩,
    ⟨[98], List.cons_ne_nil _ _, Nat.le_add_left 1 62⟩]⟩), .soa⟩

theorem roundTrips_plainRule : RoundTrips asciiConversions plainRule := by
  have hparse : parseAddressRule asciiConversions "/a.b/#".toList = some (plainRule, []) := rfl
  refine (roundTrips_iff documented_asciiConversions (producible_of_parse hparse)).mpr ⟨?_, ?_, ?_⟩
  · rintro ⟨n, hn⟩
    cases hn
  · intro p hp
    obtain rfl := Domain.name.inj hp
    constructor
    · rintro ⟨-, l, hl, hunicode⟩
      apply hunicode
      unfold Label.unicode
      split_ifs <;> rfl
    · unfold Name.Dotted
      decide
  · rintro ⟨l, hl, -⟩
    cases hl

/-- The rule `/*/#` is written `/*../#`, which is read with the pattern `*`. -/
theorem not_roundTrips_star : ∃ rule, parseAddressRule asciiConversions "/*/#".toList = some (rule, []) ∧
    ¬ RoundTrips asciiConversions rule := by
  refine ⟨⟨.name (.sub ⟨[]⟩ Name.root), .soa⟩, rfl, ?_⟩
  rintro ⟨rule', hrun, heq, -⟩
  have hread : parseAddressRule asciiConversions
      (addressRuleText asciiConversions ⟨.name (.sub ⟨[]⟩ Name.root), .soa⟩) =
        some (⟨.name (.sub ⟨[42]⟩ Name.root), .soa⟩, []) := rfl
  rw [hread] at hrun
  obtain ⟨rfl, -⟩ := Prod.mk.inj (Option.some.inj hrun)
  exact absurd heq (by decide)

end

end Rule
end SmartDns
