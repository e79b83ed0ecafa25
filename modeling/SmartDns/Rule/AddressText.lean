/-
# Address rules in text

An address rule is written `/domain/address`. The parser (`parser/address_rule.rs`,
`domain.rs`, `nom_recipes`) reads a domain pattern or a `domain-set:` and one of the seven
kinds of address; `Display` writes them. IDNA and the patterns of the `wildcard` package
are third-party and parameters here.

A line is read with its end by one reader of the configuration and without it by
another. The parser of a rule is blind to it (`blind_parseAddressRule`), although a part
of it is not: the name of a domain set goes up to the next slash, line end or not.

Key definitions: `parseWildcardName`, `parseDomain`, `parseAddressRule`, `addressRuleText`.
Key theorems: `blind_parseAddressRule`, `newline_not_mem_of_dropLast`.
-/
import SmartDns.Dns.Ip
import SmartDns.Dns.NameParse
import SmartDns.Dns.NameText
import SmartDns.Lib.Parse
import SmartDns.Rule.Settings

namespace SmartDns
namespace Rule

open Dns
open Lib.Parse

abbrev TextParser := Parser Char

/-- The conversions of third-party packages. -/
structure TextConversions where
  toAscii : List Char → Option (List Char)
  toUnicode : List UInt8 → Option String
  /-- `Wildcard::from_str`. -/
  wildcard : List Char → Option Wildcard

/-! ### Equality -/

/-- The derived `PartialEq::eq`. -/
instance : BEq Domain where
  beq
    | .name p, .name p' => p == p'
    | .set s, .set s' => s == s'
    | _, _ => false

namespace Domain

/-- The two domains differ in case and in the root dot at most. -/
def sameRule : Domain → Domain → Bool
  | name p, name p' => p.sameRule p'
  | set s, set s' => s == s'
  | _, _ => false

/-- What two domains have alike that are the same rule. -/
def shape : Domain → (ℕ × List UInt8 × List (List UInt8)) ⊕ String
  | name p => .inl p.shape
  | set s => .inr s

theorem sameRule_iff (d d' : Domain) : d.sameRule d' = true ↔ d.shape = d'.shape := by
  cases d <;> cases d' <;> simp [sameRule, shape, WildcardName.sameRule_iff]

theorem sameRule_of_beq {d d' : Domain} (h : (d == d') = true) : d.sameRule d' = true := by
  rw [sameRule_iff]
  cases d with
  | name p =>
    cases d' with
    | name p' => exact congrArg Sum.inl ((WildcardName.beq_iff p p').mp h).2
    | set s' => cases h
  | set s =>
    cases d' with
    | name p' => cases h
    | set s' => exact congrArg Sum.inr (beq_iff_eq.mp h)

end Domain

/-! ### Reading -/

def char (c : Char) : TextParser Unit := tag (· == ·) [c]

def tagNoCase (t : String) : TextParser Unit := tag (fun a b => a.toLower == b.toLower) t.toList

def space0 : TextParser (List Char) := takeWhile fun c => c == ' ' || c == '\t'

def space1 : TextParser (List Char) := takeWhile1 fun c => c == ' ' || c == '\t'

def digitValue (c : Char) : ℕ :=
  if c.isDigit then c.toNat - 48 else if c.isLower then c.toNat - 87 else c.toNat - 55

def numeral (base : ℕ) (digits : List Char) : ℕ := digits.foldl (fun n c => n * base + digitValue c) 0

/-- `nom_recipes::ipv4`. -/
def parseIpv4 : TextParser Ipv4Addr :=
  let octal := mapRes (takeWhileMN 1 3 Char.isDigit) fun digits =>
    if numeral 10 digits < 256 then some (numeral 10 digits) else none
  do
    let a ← octal
    char '.'
    let b ← octal
    char '.'
    let c ← octal
    char '.'
    let d ← octal
    pure (UInt32.ofNat (((a * 256 + b) * 256 + c) * 256 + d))

def isHexDigit (c : Char) : Bool := c.isDigit || ('a' ≤ c && c ≤ 'f') || ('A' ≤ c && c ≤ 'F')

/-- The eight segments: those behind `::` at the end, zeros between. -/
def ipv6Segments (pre post : List ℕ) : List ℕ :=
  (pre ++ List.replicate (8 - pre.length) 0).take (8 - post.length) ++ post

/-- The second form of `nom_recipes::ipv6`. Eight segments need no `::`; more than eight behind
them make the source panic. -/
def ipv6OfParts (parts : List ℕ × Option Unit × List ℕ) : Option Ipv6Addr :=
  let (pre, sep, post) := parts
  if (pre.length = 8 ∨ (sep.isSome ∧ pre.length + post.length < 8)) ∧ post.length ≤ 8 then
    some (BitVec.ofNat 128 ((ipv6Segments pre post).foldl (fun n s => n * 65536 + s) 0))
  else none

/-- `nom_recipes::ipv6`. -/
def parseIpv6 : TextParser Ipv6Addr :=
  let octal := numeral 16 <$> takeWhileMN 1 4 isHexDigit
  let parts := do
    let pre ← sepList0 (char ':') octal
    let sep ← opt (tag (· == ·) [':', ':'])
    let post ← sepList0 (char ':') octal
    pure (pre, sep, post)
  (do
    tagNoCase "::ffff:"
    (fun ip : Ipv4Addr => IpAddr.mapped ip.toBitVec) <$> parseIpv4) <|>
  mapRes parts ipv6OfParts

/-- `nom_recipes::ip`. -/
def parseIp : TextParser IpAddr := (IpAddr.v4 <$> parseIpv4) <|> (IpAddr.v6 <$> parseIpv6)

def asV4 : IpAddr → Option Ipv4Addr
  | .v4 ip => some ip
  | .v6 _ => none

def asV6 : IpAddr → Option Ipv6Addr
  | .v4 _ => none
  | .v6 ip => some ip

def notEmpty {A : Type} (ips : List A) : Option (List A) := if ips.isEmpty then none else some ips

def parseAddressRuleValue : TextParser AddressRuleValue :=
  let sep := do
    let _ ← space0
    char ','
    let _ ← space0
    pure ()
  let addr := fun ips : List IpAddr => AddressRuleValue.addr (notEmpty (ips.filterMap asV4)) (notEmpty (ips.filterMap asV6))
  ((fun _ => .soav4) <$> tag (· == ·) ['#', '4']) <|> ((fun _ => .soav6) <$> tag (· == ·) ['#', '6']) <|>
    ((fun _ => .soa) <$> char '#') <|> ((fun _ => .ignv4) <$> tag (· == ·) ['-', '4']) <|>
    ((fun _ => .ignv6) <$> tag (· == ·) ['-', '6']) <|> ((fun _ => .ign) <$> char '-') <|>
    (addr <$> sepList1 sep parseIp)

/-- The characters that end a name. -/
def nameStops : List Char := [' ', '\n', '\t', '\\', '/', '|', '"', '#', '\'', ',', '!', '+', '<', '>']

section

variable (conv : TextConversions)

def parseName : TextParser Name := mapRes (takeWhile1 fun c => !nameStops.contains c) (Name.fromStr conv.toAscii)

/-- The pattern a name stands for where no sign says so. -/
def patternOfName (name : Name) : WildcardName :=
  if name.isWildcard then .sub ⟨[]⟩ name.baseName
  else if name.isRoot then .suffix name
  else .default name

/-- The label in front of the first dot, with a `*` in it. -/
def parseSub : TextParser WildcardName := do
  let w ← verify (takeWhile1 (· ≠ '.')) (·.contains '*')
  char '.'
  let w ← lift (conv.wildcard w)
  WildcardName.sub w <$> parseName conv

def parseWildcardName : TextParser WildcardName :=
  parseSub conv <|>
  (do
    char '-'
    char '.'
    WildcardName.full <$> parseName conv) <|>
  (do
    let _ ← opt (char '+')
    char '.'
    WildcardName.suffix <$> parseName conv) <|>
  (patternOfName <$> parseName conv) <|>
  (do
    char '+'
    (fun _ => WildcardName.suffix Name.root) <$> opt (char '.'))

def parseDomain : TextParser Domain :=
  (do
    tagNoCase "domain-set:"
    (fun set => Domain.set (String.ofList set)) <$> takeWhile1 (· ≠ '/')) <|>
  (Domain.name <$> parseWildcardName conv)

def parseAddressRule : TextParser AddressRule := do
  char '/'
  let domain ← parseDomain conv
  char '/'
  let address ← parseAddressRuleValue
  pure ⟨domain, address⟩

/-! ### Writing -/

/-- `Display` of a `Wildcard`. The pattern is the UTF-8 text it was made of. -/
def wildcardText (w : Wildcard) : List Char :=
  if w.pattern.isEmpty then ['*']
  else ((String.fromUTF8? ⟨w.pattern.toArray⟩).map (·.toList)).getD []

def wildcardNameText : WildcardName → List Char
  | .default n => nameText conv.toUnicode n
  | .suffix n => ['+', '.'] ++ nameText conv.toUnicode n
  | .sub w n => wildcardText w ++ ['.'] ++ nameText conv.toUnicode n
  | .full n => ['-', '.'] ++ nameText conv.toUnicode n

def domainText : Domain → List Char
  | .name n => wildcardNameText conv n
  | .set n => "domain-set:".toList ++ n.toList

def addressRuleValueText : AddressRuleValue → List Char
  | .soa => ['#']
  | .soav4 => ['#', '4']
  | .soav6 => ['#', '6']
  | .ign => ['-']
  | .ignv4 => ['-', '4']
  | .ignv6 => ['-', '6']
  | .addr v4 v6 =>
    List.intercalate [','] ((v4.getD []).map (fun ip => IpAddr.v4Text ip.toBitVec) ++ (v6.getD []).map IpAddr.v6Text)

def addressRuleText (rule : AddressRule) : List Char :=
  ['/'] ++ domainText conv rule.domain ++ ['/'] ++ addressRuleValueText rule.config

end

/-! ### The end of the line -/

section

variable {nl : Char} (hnl : nl = '\r' ∨ nl = '\n')

include hnl

theorem blind_sign {t : List Char} (h : '\r' ∉ t ∧ '\n' ∉ t) : Blind nl (tag (· == ·) t) := by
  apply Blind.tag
  rw [List.any_eq_false]
  intro x hx heq
  obtain rfl := beq_iff_eq.mp heq
  rcases hnl with rfl | rfl
  · exact h.1 hx
  · exact h.2 hx

theorem blind_parseIpv4 : Blind nl parseIpv4 := by
  have dot : Blind nl (char '.') := blind_sign hnl (by decide)
  have octal (f : List Char → Option ℕ) : Blind nl (mapRes (takeWhileMN 1 3 Char.isDigit) f) :=
    (Blind.takeWhileMN (by rcases hnl with rfl | rfl <;> decide) 1 3).mapRes f
  unfold parseIpv4
  refine (octal _).bind fun a => dot.bind fun _ => ?_
  refine (octal _).bind fun b => dot.bind fun _ => ?_
  refine (octal _).bind fun c => dot.bind fun _ => ?_
  exact (octal _).bind fun d => .pure _

theorem blind_parseIpv6 : Blind nl parseIpv6 := by
  have octal : Blind nl (numeral 16 <$> takeWhileMN 1 4 isHexDigit) :=
    (Blind.takeWhileMN (by rcases hnl with rfl | rfl <;> decide) 1 4).map _
  have colon : Blind nl (char ':') := blind_sign hnl (by decide)
  have octals := colon.sepList0 octal
  have sep : Blind nl (tag (· == ·) [':', ':']) := blind_sign hnl (by decide)
  have mapped : Blind nl (tagNoCase "::ffff:") := .tag (by rcases hnl with rfl | rfl <;> decide +kernel)
  apply Blind.orElse
  · exact mapped.bind fun _ => (blind_parseIpv4 hnl).map _
  · apply Blind.mapRes
    exact octals.bind fun pre => sep.opt.bind fun s => octals.bind fun post => .pure (pre, s, post)

theorem blind_parseIp : Blind nl parseIp := ((blind_parseIpv4 hnl).map _).orElse ((blind_parseIpv6 hnl).map _)

theorem blind_parseAddressRuleValue : Blind nl parseAddressRuleValue := by
  have sign {A : Type} (t : List Char) (h : '\r' ∉ t ∧ '\n' ∉ t) (v : A) :
      Blind nl ((fun _ => v) <$> tag (· == ·) t) := (blind_sign hnl h).map _
  have comma : Blind nl (char ',') := blind_sign hnl (by decide)
  have space : Blind nl space0 := .takeWhile (by rcases hnl with rfl | rfl <;> rfl)
  refine (sign _ (by decide) _).orElse <| (sign _ (by decide) _).orElse <| (sign _ (by decide) _).orElse <|
    (sign _ (by decide) _).orElse <| (sign _ (by decide) _).orElse <| (sign _ (by decide) _).orElse ?_
  apply Blind.map
  refine Blind.sepList1 ?_ (blind_parseIp hnl)
  exact space.bind fun _ => comma.bind fun _ => space.bind fun _ => .pure ()

end

section

variable (conv : TextConversions)

theorem blind_parseName : Blind '\n' (parseName conv) := (Blind.takeWhile1 (by decide)).mapRes _

/-- The label in front of a dot may be taken up to the end of the line, where no dot follows. -/
theorem blind_parseSub : Blind '\n' (parseSub conv) := by
  have label : BlindTo '\n' '.' (verify (takeWhile1 (· ≠ '.')) (·.contains '*')) :=
    (BlindTo.takeWhile1 (by decide)).verify _
  exact label.mark (by decide) fun w _ => (Blind.lift _).bind fun w => (blind_parseName conv).map _

theorem blind_parseWildcardName : Blind '\n' (parseWildcardName conv) := by
  have sign (c : Char) (h : c ≠ '\n') : Blind '\n' (char c) := .tag (by simpa using h.symm)
  have name := blind_parseName conv
  have dot := sign '.' (by decide)
  refine (blind_parseSub conv).orElse <| Blind.orElse ?_ <| Blind.orElse ?_ <| Blind.orElse ?_ ?_
  · exact (sign '-' (by decide)).bind fun _ => dot.bind fun _ => name.map _
  · exact (sign '+' (by decide)).opt.bind fun _ => dot.bind fun _ => name.map _
  · exact name.map _
  · exact (sign '+' (by decide)).bind fun _ => dot.opt.map _

theorem blindTo_parseDomain : BlindTo '\n' '/' (parseDomain conv) := by
  have set : BlindTo '\n' '/' ((fun set => Domain.set (String.ofList set)) <$> takeWhile1 (· ≠ '/')) :=
    (BlindTo.takeWhile1 (by decide)).map _
  apply BlindTo.orElse
  · exact BlindTo.after (.tag (by decide +kernel)) (keeps_tag (by decide +kernel)) fun _ => set
  · exact ((blind_parseWildcardName conv).map _).blindTo

theorem blind_parseAddressRule : Blind '\n' (parseAddressRule conv) := by
  have slash : Blind '\n' (char '/') := .tag (by decide)
  refine slash.bind fun _ => (blindTo_parseDomain conv).mark (by decide) fun domain _ => ?_
  exact (blind_parseAddressRuleValue (.inr rfl)).bind fun address => .pure _

theorem newline_not_mem_toDigits {base : ℕ} (hb : 1 < base) (hb' : base ≤ 16) (n : ℕ) :
    '\n' ∉ Nat.toDigits base n := by
  have digit : ∀ d < 16, '\n' ≠ d.digitChar := by decide
  induction n using Nat.strongRecOn with
  | ind n ih =>
    by_cases hn : n < base
    · rw [Nat.toDigits_of_lt_base hn, List.mem_singleton]
      exact digit n (by omega)
    · have hlt : n / base < n := Nat.div_lt_self (by omega) hb
      have hmod : n % base < base := Nat.mod_lt n (by omega)
      rw [Nat.toDigits_of_base_le hb (by omega), List.mem_append, List.mem_singleton, not_or]
      exact ⟨ih _ hlt, digit _ (by omega)⟩

theorem newline_not_mem_intercalate {sep : List Char} (hsep : '\n' ∉ sep) : ∀ {parts : List (List Char)},
    (∀ x ∈ parts, '\n' ∉ x) → '\n' ∉ List.intercalate sep parts
  | [], _ => by simp [List.intercalate]
  | [x], h => by simpa using h x
  | x :: y :: parts, h => by
    have hx := h x (by simp)
    have ih : '\n' ∉ List.intercalate sep (y :: parts) :=
      newline_not_mem_intercalate hsep fun z hz => h z (List.mem_cons_of_mem _ hz)
    rw [List.intercalate_cons_cons]
    simp [hx, hsep, ih]

theorem newline_not_mem_v4Text (bits : BitVec 32) : '\n' ∉ Dns.IpAddr.v4Text bits := by
  apply newline_not_mem_intercalate (by decide)
  intro x hx
  obtain ⟨n, -, rfl⟩ := List.mem_map.mp hx
  exact newline_not_mem_toDigits (by decide) (by decide) n

theorem newline_not_mem_segmentsText (segments : List ℕ) : '\n' ∉ Dns.IpAddr.segmentsText segments := by
  apply newline_not_mem_intercalate (by decide)
  intro x hx
  obtain ⟨n, -, rfl⟩ := List.mem_map.mp hx
  exact newline_not_mem_toDigits (by decide) (by decide) n

theorem newline_not_mem_v6Text (bits : BitVec 128) : '\n' ∉ Dns.IpAddr.v6Text bits := by
  unfold Dns.IpAddr.v6Text
  split
  · simp [newline_not_mem_v4Text]
  · dsimp only
    split_ifs
    · simp [newline_not_mem_segmentsText]
    · exact newline_not_mem_segmentsText _

/-- The text of an address is on one line. -/
theorem newline_not_mem_addressRuleValueText (address : AddressRuleValue) : '\n' ∉ addressRuleValueText address := by
  cases address with
  | addr v4 v6 =>
    apply newline_not_mem_intercalate (by decide)
    intro x hx
    rcases List.mem_append.mp hx with hx | hx
    · obtain ⟨ip, -, rfl⟩ := List.mem_map.mp hx
      exact newline_not_mem_v4Text _
    · obtain ⟨ip, -, rfl⟩ := List.mem_map.mp hx
      exact newline_not_mem_v6Text ip
  | _ => simp [addressRuleValueText]

/-- A line break in a rule's text is in front of the slash before the address. -/
theorem newline_not_mem_of_dropLast {rule : AddressRule} (h : '\n' ∉ (addressRuleText conv rule).dropLast) :
    '\n' ∉ addressRuleText conv rule := by
  have hvalue := newline_not_mem_addressRuleValueText rule.config
  have htext : addressRuleText conv rule =
      (['/'] ++ domainText conv rule.domain) ++ ('/' :: addressRuleValueText rule.config) := by
    simp [addressRuleText]
  have hlast : '\n' ∉ '/' :: addressRuleValueText rule.config := by simp [hvalue]
  rw [htext, List.dropLast_append_of_ne_nil (by simp), List.mem_append, not_or] at h
  rw [htext, List.mem_append, not_or]
  exact ⟨h.1, hlast⟩

end

end Rule
end SmartDns
