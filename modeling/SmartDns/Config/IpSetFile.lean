/-
# The lines of an IP set

`parse_ip_set_file` takes the network in front of every line: an address, and a prefix length behind
a slash. Where the slash has no number below 256 behind it the address stands alone, and what is left of
the line is not looked at.

A line gives the network it shows, or none if it shows none, exactly if what is taken ends where the
text of the address or network ends (`fileShows_iff`). `IpNet::from_str` is third-party and a parameter.

Key definitions: `parseIpSetFile`, `Shown`, `FileShows`, `LineReads`.
Key theorems: `ShownAt.run`, `lineShows_iff`, `fileShows_iff`.
-/
import SmartDns.Lib.Lines
import SmartDns.Rule.AddressTaken

namespace SmartDns
namespace Config

open Dns Rule
open Lib Lib.Parse

/-! ### Reading -/

/-- `IpNet::new`. -/
def ipNetNew (address : Dns.IpAddr) (prefixLen : ℕ) : Option IpNet :=
  if h : prefixLen ≤ address.width then some ⟨address, prefixLen, h⟩ else none

/-- The prefix length, if there is one. -/
def prefixLength : TextParser (Option ℕ) :=
  opt (char '/' >>= fun _ => mapRes (takeWhile1 Char.isDigit) fun digits =>
    if numeral 10 digits < 256 then some (numeral 10 digits) else none)

/-- `NomParser for IpNet`; where the parser of addresses panics there is no network. -/
def ipNet : TextParser (Option IpNet) := do
  let address ← ipAddr
  match address with
  | none => pure none
  | some address =>
    let len ← prefixLength
    lift ((ipNetNew address (len.getD address.width)).map some)

/-- The network in front of a text; none is a panic. -/
def readNet (s : List Char) : Option (Option IpNet) :=
  match ipNet s with
  | none => some none
  | some (none, _) => none
  | some (some net, _) => some (some net)

/-- A line of `str::lines`. -/
def withoutEnd (line : List Char) : List Char :=
  match line.reverse with
  | '\n' :: '\r' :: l => l.reverse
  | '\n' :: l => l.reverse
  | _ => line

def lines (text : List Char) : List (List Char) := (splitLines '\n' text).map withoutEnd

def trimStart (line : List Char) : List Char := line.dropWhile isWhitespace

/-- The networks of a file; none is a panic. -/
def parseIpSetFile (text : List Char) : Option (List IpNet) :=
  ((lines text).mapM fun line => readNet (trimStart line)).map fun nets => nets.filterMap id

/-! ### What a line shows -/

def hostNet (ip : Dns.IpAddr) : IpNet := ⟨ip, ip.width, Nat.le_refl _⟩

/-- A character that could belong to the prefix length in front of it. -/
def lengthGoesOn (c : Char) : Bool := c.isDigit || c == '.' || c == ':' || c == '/'

section

variable (netFromStr : List Char → Option IpNet)

/-- What `IpNet::from_str` reads is an address, a slash and the digits of the prefix length. -/
structure NetTexts : Prop where
  form : ∀ s net, netFromStr s = some net → ∃ a l zero, s = a ++ '/' :: l ∧ AddressText a net.address zero ∧
    l ≠ [] ∧ (∀ c ∈ l, c.isDigit = true) ∧ numeral 10 l = net.prefixLen

/-- A text in front of another is an address or a network, and nothing behind it could belong to it. -/
def FrontShows (p r : List Char) (net : IpNet) : Prop :=
  (∃ ip, ipFromStr p = some ip ∧ net = hostNet ip ∧ NotOk (fun c => addressGoesOn ip c || c == '/') r) ∨
    netFromStr p = some net ∧ NotOk lengthGoesOn r

def Shown (s : List Char) (net : IpNet) : Prop := ∃ p r, s = p ++ r ∧ FrontShows netFromStr p r net

/-- The first token, up to white space, is an address or a network. -/
def FirstToken (s : List Char) (net : IpNet) : Prop :=
  (∃ ip, ipFromStr (s.takeWhile fun c => !isWhitespace c) = some ip ∧ net = hostNet ip) ∨
    netFromStr (s.takeWhile fun c => !isWhitespace c) = some net

/-- A line gives a network only if it shows it, and does if its first token is one. -/
structure LineShows (s : List Char) : Prop where
  total : readNet s ≠ none
  only : ∀ net, readNet s = some (some net) → Shown netFromStr s net
  each : ∀ net, FirstToken netFromStr s net → readNet s = some (some net)

/-- Every line gives a network at most, and each the network it shows. -/
structure FileShows (text : List Char) : Prop where
  total : parseIpSetFile text = some ((lines text).filterMap fun line => (readNet (trimStart line)).join)
  each : ∀ line ∈ lines text, LineShows netFromStr (trimStart line)

/-! ### The condition on a line -/

/-- Behind the text taken for an address nothing could belong to it; or a slash and a number below 256, which is
too long for the address or makes a network of it with nothing behind that could belong to it. -/
structure Behind (p : List Char) (ip : Dns.IpAddr) (clean : Bool) (rest : List Char) : Prop where
  alone : rest.head? ≠ some '/' → clean = true ∧ NotOk (addressGoesOn ip) rest
  slash : ∀ tail, rest = '/' :: tail →
    tail.takeWhile Char.isDigit ≠ [] ∧ numeral 10 (tail.takeWhile Char.isDigit) < 256 ∧
      (numeral 10 (tail.takeWhile Char.isDigit) ≤ ip.width →
        (netFromStr (p ++ '/' :: tail.takeWhile Char.isDigit)).isSome = true ∧
          NotOk lengthGoesOn (tail.dropWhile Char.isDigit))

/-- An IPv4 address stands behind a `::`, all zeros from there on, and if a prefix length is behind it that is 128. -/
def ZerosBehind (s : List Char) : Prop := ∃ pre post a b c d r, s = midFront pre post ++ quadText a b c d ++ r ∧
  MidForm pre post a b c d ∧ AllZero post a b c d ∧
  Behind netFromStr (midFront pre post ++ quadText a b c d) (midAddress pre post a b c d) (!zeroLedQuad a b c d) r ∧
  ∀ tail, r = '/' :: tail → numeral 10 (tail.takeWhile Char.isDigit) = 128

/-- The condition on a line: what is taken for an address in front of it ends where the text of the address or
network does, and its first token is not six groups and an IPv4 address. -/
structure LineReads (s : List Char) : Prop where
  total : ¬ Overlong s
  taken : ∀ p ip clean rest, s = p ++ rest → Taken p ip clean rest →
    Behind netFromStr p ip clean rest ∨ ZerosBehind netFromStr s
  sixAlone : ¬ SixForm (s.takeWhile fun c => !isWhitespace c) false
  sixSlash : ∀ a l zero, s.takeWhile (fun c => !isWhitespace c) = a ++ '/' :: l → SixForm a zero →
    netFromStr (s.takeWhile fun c => !isWhitespace c) = none

end

/-! ### What is read -/

/-- The prefix length in front of a text. -/
def lengthAt (rest : List Char) : Option ℕ := (prefixLength rest).bind (·.1)

theorem prefixLength_eq_some (rest : List Char) : ∃ rest', prefixLength rest = some (lengthAt rest, rest') := by
  unfold lengthAt prefixLength opt
  split <;> exact ⟨_, rfl⟩

theorem lengthAt_of_ne {rest : List Char} (h : rest.head? ≠ some '/') : lengthAt rest = none := by
  have hnone : (char '/' >>= fun _ => mapRes (takeWhile1 Char.isDigit) fun digits =>
      if numeral 10 digits < 256 then some (numeral 10 digits) else none) rest = none := tag_bind_eq_none h _
  unfold lengthAt prefixLength
  rw [opt_of_none hnone]
  rfl

theorem lengthAt_slash (tail : List Char) : lengthAt ('/' :: tail) =
    if tail.takeWhile Char.isDigit ≠ [] ∧ numeral 10 (tail.takeWhile Char.isDigit) < 256 then
      some (numeral 10 (tail.takeWhile Char.isDigit)) else none := by
  have hrun : (char '/' >>= fun _ => mapRes (takeWhile1 Char.isDigit) fun digits =>
      if numeral 10 digits < 256 then some (numeral 10 digits) else none) ('/' :: tail) =
      if tail.takeWhile Char.isDigit ≠ [] ∧ numeral 10 (tail.takeWhile Char.isDigit) < 256 then
        some (numeral 10 (tail.takeWhile Char.isDigit), tail.dropWhile Char.isDigit) else none := by
    refine (tag_bind_cons '/' _ tail).trans ?_
    unfold mapRes
    rw [bind_run]
    unfold takeWhile1
    by_cases hnil : tail.takeWhile Char.isDigit = []
    · simp [hnil]
    · by_cases hlt : numeral 10 (tail.takeWhile Char.isDigit) < 256
      · simp [hnil, hlt, lift]
      · simp [hnil, hlt, lift]
  unfold lengthAt prefixLength opt
  rw [hrun]
  split_ifs <;> rfl

section

variable {s rest : List Char} {ip : Dns.IpAddr}

theorem readNet_of_taken (h : ipAddr s = some (some ip, rest)) :
    readNet s = some (ipNetNew ip ((lengthAt rest).getD ip.width)) := by
  obtain ⟨rest', hlen⟩ := prefixLength_eq_some rest
  have hrun : ipNet s = (ipNetNew ip ((lengthAt rest).getD ip.width)).map fun net => (some net, rest') := by
    unfold ipNet
    rw [bind_run, h, Option.bind_some]
    dsimp only
    rw [bind_run, hlen, Option.bind_some]
    unfold lift
    rw [Option.map_map]
    rfl
  unfold readNet
  rw [hrun]
  cases ipNetNew ip ((lengthAt rest).getD ip.width) <;> rfl

theorem readNet_of_none (h : ipAddr s = none) : readNet s = some none := by
  have hrun : ipNet s = none := by
    unfold ipNet
    rw [bind_run, h]
    rfl
  unfold readNet
  rw [hrun]

theorem readNet_of_panic (h : ipAddr s = some (none, rest)) : readNet s = none := by
  have hrun : ipNet s = some (none, rest) := by
    unfold ipNet
    rw [bind_run, h]
    rfl
  unfold readNet
  rw [hrun]

end

theorem ipNetNew_self (net : IpNet) : ipNetNew net.address net.prefixLen = some net := dif_pos net.short

theorem ipNetNew_eq_some_iff {ip : Dns.IpAddr} {n : ℕ} {net : IpNet} :
    ipNetNew ip n = some net ↔ net.address = ip ∧ net.prefixLen = n := by
  constructor
  · intro h
    unfold ipNetNew at h
    split_ifs at h
    cases h
    exact ⟨rfl, rfl⟩
  · rintro ⟨rfl, rfl⟩
    exact ipNetNew_self net

theorem ipNetNew_width (ip : Dns.IpAddr) : ipNetNew ip ip.width = some (hostNet ip) := ipNetNew_self (hostNet ip)

theorem width_le (ip : Dns.IpAddr) : ip.width ≤ 128 := by
  cases ip with
  | v4 bits => exact (by decide : 32 ≤ 128)
  | v6 bits => exact Nat.le_refl 128

/-! ### What a line shows, as a text of an address and what is behind it -/

section

variable {netFromStr : List Char → Option IpNet} {s : List Char} {net : IpNet}

/-- The text of the address that a line shows, and what is behind it. -/
structure ShownAt (netFromStr : List Char → Option IpNet) (s : List Char) (net : IpNet) (p : List Char) (zero : Bool)
    (r : List Char) : Prop where
  text : s = p ++ r
  address : AddressText p net.address zero
  alone : r.head? ≠ some '/' → zero = false ∧ net.prefixLen = net.address.width ∧ NotOk (addressGoesOn net.address) r
  slash : ∀ tail, r = '/' :: tail → tail.takeWhile Char.isDigit ≠ [] ∧
    numeral 10 (tail.takeWhile Char.isDigit) = net.prefixLen ∧
    netFromStr (p ++ '/' :: tail.takeWhile Char.isDigit) = some net ∧ NotOk lengthGoesOn (tail.dropWhile Char.isDigit)

theorem slash_not_goesOn (ip : Dns.IpAddr) : addressGoesOn ip '/' = false := by
  cases ip with
  | v4 bits => exact (by decide : ('/'.isDigit || '/' == '.' || '/' == ':') = false)
  | v6 bits => exact (by decide : (isHexDigit '/' || '/' == '.' || '/' == ':') = false)

theorem ShownAt.stops {p r : List Char} {zero : Bool} (h : ShownAt netFromStr s net p zero r) :
    NotOk (addressGoesOn net.address) r := by
  by_cases hslash : r.head? = some '/'
  · obtain ⟨tail, rfl⟩ := List.head?_eq_some_iff.mp hslash
    exact notOk_cons (slash_not_goesOn _)
  · exact (h.alone hslash).2.2

/-- The digits of a prefix length, and what is behind them. -/
theorem takeWhile_digits {l r : List Char} (hl : ∀ c ∈ l, c.isDigit = true) (hr : NotOk lengthGoesOn r) :
    (l ++ r).takeWhile Char.isDigit = l ∧ (l ++ r).dropWhile Char.isDigit = r := by
  rw [List.takeWhile_append_of_pos hl, List.dropWhile_append_of_pos hl]
  cases r with
  | nil => simp
  | cons c r =>
    have hc : c.isDigit = false := by
      have := hr c rfl
      simp only [lengthGoesOn, Bool.or_eq_false_iff] at this
      exact this.1.1.1
    simp [hc]

theorem digits_no_slash {l : List Char} (hl : ∀ c ∈ l, c.isDigit = true) : '/' ∉ l := fun hmem =>
  absurd (hl _ hmem) (by decide)

/-- The text of a network in front. -/
theorem shownAt_of_net (hnet : NetTexts netFromStr) {p r : List Char} (hs : s = p ++ r)
    (hp : netFromStr p = some net) (hr : NotOk lengthGoesOn r) :
    ∃ a l zero, p = a ++ '/' :: l ∧ ShownAt netFromStr s net a zero ('/' :: (l ++ r)) := by
  obtain ⟨a, l, zero, rfl, haddress, hne, hdigits, hlen⟩ := hnet.form p net hp
  obtain ⟨htake, hdrop⟩ := takeWhile_digits hdigits hr
  refine ⟨a, l, zero, rfl, by rw [hs, List.append_assoc]; rfl, haddress, fun h => absurd rfl h, ?_⟩
  rintro tail htail
  obtain rfl := (List.cons.inj htail).2
  rw [htake, hdrop]
  exact ⟨hne, hlen, hp, hr⟩

/-- The text of an address in front. -/
theorem shownAt_of_address {p r : List Char} {ip : Dns.IpAddr} (hs : s = p ++ r) (hp : ipFromStr p = some ip)
    (hr : NotOk (fun c => addressGoesOn ip c || c == '/') r) : ShownAt netFromStr s (hostNet ip) p false r where
  text := hs
  address := (ipFromStr_eq_some_iff p ip).mp hp
  alone _ := ⟨rfl, rfl, hr.mono fun c hc => by simp [hostNet] at hc; simp [hc]⟩
  slash tail htail := by
    have := hr '/' (by rw [htail]; rfl)
    simp at this

theorem shownAt_of_shown (hnet : NetTexts netFromStr) (h : Shown netFromStr s net) :
    ∃ p zero r, ShownAt netFromStr s net p zero r := by
  obtain ⟨p, r, hs, ⟨ip, hip, rfl, hr⟩ | ⟨hp, hr⟩⟩ := h
  · exact ⟨p, false, r, shownAt_of_address hs hip hr⟩
  · obtain ⟨a, l, zero, -, hat⟩ := shownAt_of_net hnet hs hp hr
    exact ⟨a, zero, _, hat⟩

theorem ShownAt.shown {p r : List Char} {zero : Bool} (h : ShownAt netFromStr s net p zero r) :
    Shown netFromStr s net := by
  by_cases hslash : r.head? = some '/'
  · obtain ⟨tail, rfl⟩ := List.head?_eq_some_iff.mp hslash
    obtain ⟨-, -, hread, hr⟩ := h.slash tail rfl
    refine ⟨p ++ '/' :: tail.takeWhile Char.isDigit, tail.dropWhile Char.isDigit, ?_, .inr ⟨hread, hr⟩⟩
    rw [h.text, List.append_assoc, List.cons_append, List.takeWhile_append_dropWhile]
  · obtain ⟨rfl, hwidth, hr⟩ := h.alone hslash
    refine ⟨p, r, h.text, .inl ⟨net.address, (ipFromStr_eq_some_iff p _).mpr h.address, ?_, ?_⟩⟩
    · have := ipNetNew_self net
      rw [hwidth, ipNetNew_width] at this
      exact (Option.some.inj this).symm
    · intro c hc
      have hne : (c == '/') = false := beq_eq_false_iff_ne.mpr fun h => hslash (h ▸ hc)
      show (addressGoesOn net.address c || c == '/') = false
      rw [hr c hc, hne]
      rfl

/-- White space belongs to nothing. -/
theorem whitespace_goesOn {c : Char} (h : isWhitespace c = true) :
    lengthGoesOn c = false ∧ ∀ ip, (addressGoesOn ip c || c == '/') = false := by
  have hhex : isHexDigit c = false := by
    refine Bool.eq_false_iff.mpr fun hhex => ?_
    have hbounds := isHexDigit_bounds hhex
    simp only [isWhitespace, Bool.or_eq_true, Bool.and_eq_true, decide_eq_true_eq] at h
    omega
  have hdigit : c.isDigit = false := Bool.eq_false_iff.mpr fun hdigit => by
    rw [isHexDigit_of_isDigit hdigit] at hhex
    cases hhex
  have hmark {m : Char} (hm : isWhitespace m = false) : (c == m) = false := by
    refine beq_eq_false_iff_ne.mpr ?_
    rintro rfl
    rw [h] at hm
    cases hm
  have hdot : (c == '.') = false := hmark (by decide)
  have hcolon : (c == ':') = false := hmark (by decide)
  have hslash : (c == '/') = false := hmark (by decide)
  refine ⟨by rw [lengthGoesOn, hdigit, hdot, hcolon, hslash]; rfl, fun ip => ?_⟩
  cases ip with
  | v4 bits => rw [addressGoesOn, hdigit, hdot, hcolon, hslash]; rfl
  | v6 bits => rw [addressGoesOn, hhex, hdot, hcolon, hslash]; rfl

theorem shownAt_of_firstToken (hnet : NetTexts netFromStr) (h : FirstToken netFromStr s net) :
    ∃ p zero r, ShownAt netFromStr s net p zero r ∧
      ((s.takeWhile (fun c => !isWhitespace c) = p ∧ zero = false) ∨
        ∃ l, s.takeWhile (fun c => !isWhitespace c) = p ++ '/' :: l ∧
          netFromStr (s.takeWhile fun c => !isWhitespace c) = some net) := by
  have hs := (List.takeWhile_append_dropWhile (p := fun c => !isWhitespace c) (l := s)).symm
  have hr : ∀ c, (s.dropWhile fun c => !isWhitespace c).head? = some c → isWhitespace c = true := by
    intro c hc
    have := List.head?_dropWhile_not (fun c => !isWhitespace c) s
    rw [hc] at this
    simpa using this
  rcases h with ⟨ip, hip, rfl⟩ | hread
  · refine ⟨_, false, _, shownAt_of_address hs hip fun c hc => ?_, .inl ⟨rfl, rfl⟩⟩
    exact (whitespace_goesOn (hr c hc)).2 ip
  · obtain ⟨a, l, zero, htext, hat⟩ := shownAt_of_net hnet hs hread fun c hc => (whitespace_goesOn (hr c hc)).1
    exact ⟨a, zero, _, hat, .inr ⟨l, htext, hread⟩⟩

/-! ### One line -/

theorem head_octetsBehind (b c d r : List Char) : (octetsBehind b c d r).head? = some '.' := rfl

theorem lengthAt_octetsBehind (b c d r : List Char) : lengthAt (octetsBehind b c d r) = none :=
  lengthAt_of_ne (by rw [head_octetsBehind]; decide)

/-- The prefix length behind the address that a line shows. -/
theorem ShownAt.length {p r : List Char} {zero : Bool} (h : ShownAt netFromStr s net p zero r) :
    (lengthAt r).getD net.address.width = net.prefixLen := by
  by_cases hslash : r.head? = some '/'
  · obtain ⟨tail, rfl⟩ := List.head?_eq_some_iff.mp hslash
    obtain ⟨hne, hlen, -, -⟩ := h.slash tail rfl
    have hlt : numeral 10 (tail.takeWhile Char.isDigit) < 256 := by
      have := net.short
      have := width_le net.address
      omega
    rw [lengthAt_slash, if_pos ⟨hne, hlt⟩, hlen]
    rfl
  · rw [lengthAt_of_ne hslash, (h.alone hslash).2.1]
    rfl

/-- The ways a text is taken in which the line shows a network. -/
theorem ShownAt.run {p r : List Char} {zero : Bool} (h : ShownAt netFromStr s net p zero r) :
    ipAddr s = some (some net.address, r) ∨ (SixForm p zero ∧ ipAddr s = none) ∨
    ∃ pre post a b c d, p = midFront pre post ++ quadText a b c d ∧ MidForm pre post a b c d ∧
      net.address = midAddress pre post a b c d ∧ zero = zeroLedQuad a b c d ∧
      ipAddr s = some (some (midTaken pre post a), octetsBehind b c d r) := by
  have := h.address.run h.stops
  rwa [← h.text] at this

theorem ShownAt.readNet {p r : List Char} {zero : Bool} (h : ShownAt netFromStr s net p zero r)
    (hrun : ipAddr s = some (some net.address, r)) : Config.readNet s = some (some net) := by
  rw [readNet_of_taken hrun, h.length, ipNetNew_self]

theorem not_mappedFront_of_zero {pre post : List (List Char)} {a b c d : List Char} (h : MidForm pre post a b c d)
    (hzero : AllZero post a b c d) : ¬ MappedFront (midFront pre post) := by
  intro hfront
  have hvalue := (mappedFront_midFront h.left h.right hfront).2
  have hmem : 65535 ∈ post.map (numeral 16) := by rw [hvalue]; exact List.mem_singleton_self _
  obtain ⟨g, hg, hg'⟩ := List.mem_map.mp hmem
  rw [hzero.groups g hg] at hg'
  cases hg'

/-- The address in a text of a network is the one that stands in front of the slash. -/
theorem address_of_netFromStr (hnet : NetTexts netFromStr) {p l : List Char} (hl : '/' ∉ l)
    (h : netFromStr (p ++ '/' :: l) = some net) :
    (∃ zero, AddressText p net.address zero) ∧ numeral 10 l = net.prefixLen := by
  obtain ⟨a, l', zero, htext, haddress, -, hdigits, hlen⟩ := hnet.form _ net h
  obtain ⟨rfl, rfl⟩ := append_sep_inj_last hl (digits_no_slash hdigits) htext
  exact ⟨⟨zero, haddress⟩, hlen⟩

theorem net_ext {net net' : IpNet} (ha : net.address = net'.address) (hl : net.prefixLen = net'.prefixLen) :
    net = net' := by
  have := ipNetNew_self net
  rw [ha, hl, ipNetNew_self] at this
  exact (Option.some.inj this).symm

/-- What is taken with nothing behind that could belong to it is shown. -/
theorem Behind.shownAt (hnet : NetTexts netFromStr) {p rest : List Char} {ip : Dns.IpAddr} {clean : Bool}
    (hs : s = p ++ rest) (htaken : Taken p ip clean rest) (h : Behind netFromStr p ip clean rest)
    (hnew : ipNetNew ip ((lengthAt rest).getD ip.width) = some net) :
    ∃ zero, ShownAt netFromStr s net p zero rest := by
  obtain ⟨hip, hlen⟩ := ipNetNew_eq_some_iff.mp hnew
  by_cases hslash : rest.head? = some '/'
  · obtain ⟨tail, rfl⟩ := List.head?_eq_some_iff.mp hslash
    obtain ⟨hne, hlt, hread⟩ := h.slash tail rfl
    rw [lengthAt_slash, if_pos ⟨hne, hlt⟩, Option.getD_some] at hlen
    have hwidth : numeral 10 (tail.takeWhile Char.isDigit) ≤ ip.width := by
      rw [← hlen, ← hip]
      exact net.short
    obtain ⟨hsome, hr⟩ := hread hwidth
    obtain ⟨net', hnet'⟩ := Option.isSome_iff_exists.mp hsome
    have hdigits : '/' ∉ tail.takeWhile Char.isDigit := digits_no_slash fun c hc => List.mem_takeWhile_imp hc
    obtain ⟨⟨zero, haddress⟩, hlen'⟩ := address_of_netFromStr hnet hdigits hnet'
    have hrun := htaken.run
    have hsame : net'.address = ip := by
      have hcases := haddress.run (r := '/' :: tail) (notOk_cons (slash_not_goesOn _))
      rw [hrun] at hcases
      rcases hcases with heq | ⟨-, heq⟩ | ⟨_, _, _, _, _, _, -, -, -, -, heq⟩
      · injection heq with heq
        injection heq with heq
        exact (Option.some.inj heq).symm
      · cases heq
      · injection heq with heq
        injection heq with _ heq
        exact absurd (congrArg List.head? heq) (by rw [head_octetsBehind]; simp)
    obtain rfl : net' = net := net_ext (hsame.trans hip.symm) (hlen'.symm.trans hlen.symm)
    refine ⟨zero, hs, haddress, fun h => absurd rfl h, ?_⟩
    rintro tail' htail
    obtain rfl := (List.cons.inj htail).2
    exact ⟨hne, hlen.symm, hnet', hr⟩
  · obtain ⟨rfl, hr⟩ := h.alone hslash
    have hread := htaken.ipFromStr
    rw [if_pos rfl] at hread
    rw [lengthAt_of_ne hslash, Option.getD_none] at hlen
    refine ⟨false, hs, (ipFromStr_eq_some_iff p _).mp (hip ▸ hread), fun _ => ⟨rfl, hip ▸ hlen, hip ▸ hr⟩, ?_⟩
    rintro tail rfl
    exact absurd rfl hslash

section

variable {pre post : List (List Char)} {a b c d r : List Char}

theorem Behind.stops {p rest : List Char} {ip : Dns.IpAddr} {clean : Bool} (h : Behind netFromStr p ip clean rest) :
    NotOk (addressGoesOn ip) rest := by
  by_cases hslash : rest.head? = some '/'
  · obtain ⟨tail, rfl⟩ := List.head?_eq_some_iff.mp hslash
    exact notOk_cons (slash_not_goesOn _)
  · exact (h.alone hslash).2

theorem notDigit_of_address {ip : Dns.IpAddr} (h : NotOk (addressGoesOn ip) r) : NotOk Char.isDigit r := by
  cases ip with
  | v4 bits => exact notDigit_of_v4 h
  | v6 bits => exact (notHex_of_v6 h).mono fun c hc => isHexDigit_of_isDigit hc

/-- Zeros are read for the address they are. -/
theorem shownAt_of_zeros (hnet : NetTexts netFromStr) (hs : s = midFront pre post ++ quadText a b c d ++ r)
    (h : MidForm pre post a b c d) (hzero : AllZero post a b c d)
    (hbehind : Behind netFromStr (midFront pre post ++ quadText a b c d) (midAddress pre post a b c d)
      (!zeroLedQuad a b c d) r)
    (hlen : ∀ tail, r = '/' :: tail → numeral 10 (tail.takeWhile Char.isDigit) = 128) :
    readNet s = some (some (hostNet (midAddress pre post a b c d))) ∧
      ShownAt netFromStr s (hostNet (midAddress pre post a b c d)) (midFront pre post ++ quadText a b c d)
        (zeroLedQuad a b c d) r := by
  have hrun := h.run (not_mappedFront_of_zero h hzero) r
  rw [(midTaken_eq_iff h).mpr hzero] at hrun
  refine ⟨?_, hs, .mid h.left h.right h.short h.octets, fun hslash => ?_, ?_⟩
  · rw [hs, readNet_of_taken hrun, lengthAt_octetsBehind, Option.getD_none, ipNetNew_width]
  · obtain ⟨hclean, hr⟩ := hbehind.alone hslash
    exact ⟨by simpa using hclean, rfl, hr⟩
  · rintro tail rfl
    obtain ⟨hne, hlt, hread⟩ := hbehind.slash tail rfl
    obtain ⟨hsome, hr⟩ := hread (Nat.le_of_eq (hlen tail rfl))
    obtain ⟨net', hnet'⟩ := Option.isSome_iff_exists.mp hsome
    have hdigits : '/' ∉ tail.takeWhile Char.isDigit := digits_no_slash fun c hc => List.mem_takeWhile_imp hc
    obtain ⟨⟨zero, haddress⟩, hlen'⟩ := address_of_netFromStr hnet hdigits hnet'
    have hsame : net'.address = midAddress pre post a b c d := by
      have hstop : NotOk Char.isDigit ('/' :: tail) := notOk_cons (by decide)
      have hcases := haddress.run (r := '/' :: tail) (notOk_cons (slash_not_goesOn _))
      rw [hrun] at hcases
      rcases hcases with heq | ⟨-, heq⟩ | ⟨_, _, _, _, _, _, htext, hform, hvalue, -, -⟩
      · injection heq with heq
        injection heq with _ heq
        exact absurd (congrArg List.head? heq) (by rw [head_octetsBehind]; simp)
      · cases heq
      · obtain ⟨⟨rfl, rfl⟩, ⟨rfl, rfl, rfl, rfl⟩, -⟩ := h.unique hform hstop hstop (by rw [htext])
        exact hvalue
    have hhost : net' = hostNet (midAddress pre post a b c d) :=
      net_ext hsame (hlen'.symm.trans (hlen tail rfl))
    exact ⟨hne, hlen tail rfl, hhost ▸ hnet', hr⟩

end

/-- The condition is enough for a line. -/
theorem LineReads.shows (hnet : NetTexts netFromStr) (h : LineReads netFromStr s) : LineShows netFromStr s where
  total hnone := by
    cases hrun : ipAddr s with
    | none =>
      rw [readNet_of_none hrun] at hnone
      cases hnone
    | some x =>
      obtain ⟨x, rest⟩ := x
      rcases taken_of_run hrun with ⟨p, ip, clean, -, rfl, -⟩ | ⟨-, hover⟩
      · rw [readNet_of_taken hrun] at hnone
        cases hnone
      · exact h.total hover
  only net hread := by
    cases hrun : ipAddr s with
    | none =>
      rw [readNet_of_none hrun] at hread
      cases hread
    | some x =>
      obtain ⟨x, rest⟩ := x
      rcases taken_of_run hrun with ⟨p, ip, clean, hs, rfl, htaken⟩ | ⟨-, hover⟩
      · rcases h.taken p ip clean rest hs htaken with hbehind | hzeros
        · rw [readNet_of_taken hrun] at hread
          obtain ⟨zero, hat⟩ := hbehind.shownAt hnet hs htaken (Option.some.inj hread)
          exact hat.shown
        · obtain ⟨pre, post, a, b, c, d, r, hs', hform, hzero, hbehind, hlen⟩ := hzeros
          obtain ⟨hread', hat⟩ := shownAt_of_zeros hnet hs' hform hzero hbehind hlen
          rw [hread'] at hread
          cases hread
          exact hat.shown
      · exact absurd hover h.total
  each net htoken := by
    obtain ⟨p, zero, r, hat, htext⟩ := shownAt_of_firstToken hnet htoken
    rcases hat.run with hrun | ⟨hsix, -⟩ | ⟨pre, post, a, b, c, d, hp, hform, haddress, -, hrun⟩
    · exact hat.readNet hrun
    · rcases htext with ⟨htext, rfl⟩ | ⟨l, htext, hread⟩
      · exact absurd (htext ▸ hsix) h.sixAlone
      · rw [h.sixSlash p l zero htext hsix] at hread
        cases hread
    · -- The first octet was taken for a group, so the condition speaks of zeros.
      rcases taken_of_run hrun with ⟨p', ip, clean, hs, hip, htaken⟩ | ⟨hno, -⟩
      · rcases h.taken p' ip clean _ hs htaken with hbehind | hzeros
        · have hgoes := (hbehind.alone (by rw [head_octetsBehind]; decide)).2 '.' (head_octetsBehind b c d r)
          exact absurd hgoes (by cases ip <;> simp [addressGoesOn])
        · obtain ⟨pre', post', a', b', c', d', r', hs', hform', hzero, hbehind, hlen⟩ := hzeros
          obtain ⟨hread, -⟩ := shownAt_of_zeros hnet hs' hform' hzero hbehind hlen
          have hsame : midFront pre post ++ quadText a b c d ++ r =
              midFront pre' post' ++ quadText a' b' c' d' ++ r' := by
            rw [← hs', hat.text, hp]
          obtain ⟨⟨rfl, rfl⟩, ⟨rfl, rfl, rfl, rfl⟩, rfl⟩ := hform.unique hform'
            (notDigit_of_address hat.stops) (notDigit_of_address hbehind.stops) hsame
          have hwidth : net.prefixLen = 128 := by
            by_cases hslash : r.head? = some '/'
            · obtain ⟨tail, rfl⟩ := List.head?_eq_some_iff.mp hslash
              rw [← (hat.slash tail rfl).2.1]
              exact hlen tail rfl
            · rw [(hat.alone hslash).2.1, haddress]
              rfl
          have hhost : net = hostNet (midAddress pre post a b c d) := net_ext haddress hwidth
          rw [hread, hhost]
      · cases hno

/-- The condition is needed for a line. -/
theorem LineShows.reads (hnet : NetTexts netFromStr) (h : LineShows netFromStr s) : LineReads netFromStr s where
  total hover := by
    obtain ⟨rest, hrun⟩ := hover.run
    exact h.total (readNet_of_panic hrun)
  taken p ip clean rest hs htaken := by
    have hrun := htaken.run
    rw [← hs] at hrun
    have hread := readNet_of_taken hrun
    cases hnew : ipNetNew ip ((lengthAt rest).getD ip.width) with
    | none =>
      -- The prefix length is too long, so the line gives nothing.
      have hlong : ¬ (lengthAt rest).getD ip.width ≤ ip.width := by
        intro hle
        unfold ipNetNew at hnew
        rw [dif_pos hle] at hnew
        cases hnew
      by_cases hslash : rest.head? = some '/'
      · obtain ⟨tail, rfl⟩ := List.head?_eq_some_iff.mp hslash
        rw [lengthAt_slash] at hlong
        by_cases hdigits : tail.takeWhile Char.isDigit ≠ [] ∧ numeral 10 (tail.takeWhile Char.isDigit) < 256
        · rw [if_pos hdigits, Option.getD_some] at hlong
          refine .inl ⟨fun h => absurd rfl h, fun tail' htail => ?_⟩
          obtain rfl := (List.cons.inj htail).2
          exact ⟨hdigits.1, hdigits.2, fun hle => absurd hle hlong⟩
        · rw [if_neg hdigits, Option.getD_none] at hlong
          exact absurd (Nat.le_refl _) hlong
      · rw [lengthAt_of_ne hslash, Option.getD_none] at hlong
        exact absurd (Nat.le_refl _) hlong
    | some net =>
      rw [hnew] at hread
      obtain ⟨p', zero, r, hat⟩ := shownAt_of_shown hnet (h.only net hread)
      have hcases := hat.run
      rw [hrun] at hcases
      rcases hcases with heq | ⟨-, heq⟩ | ⟨pre, post, a, b, c, d, hp, hform, haddress, hz, heq⟩
      · injection heq with heq
        injection heq with hip hrest
        injection hip with hip
        subst hip hrest
        obtain rfl : p = p' := List.append_cancel_right (hs.symm.trans hat.text)
        refine .inl ⟨fun hslash => ?_, ?_⟩
        · obtain ⟨rfl, -, hr⟩ := hat.alone hslash
          have hread' := htaken.ipFromStr
          rw [(ipFromStr_eq_some_iff p _).mpr hat.address] at hread'
          cases clean with
          | true => exact ⟨rfl, hr⟩
          | false => cases hread'
        · rintro tail rfl
          obtain ⟨hne, hlen, hnet', hr⟩ := hat.slash tail rfl
          have := net.short
          have := width_le net.address
          exact ⟨hne, by omega, fun _ => ⟨by rw [hnet']; rfl, hr⟩⟩
      · cases heq
      · injection heq with heq
        injection heq with hip hrest
        injection hip with hip
        subst hip hrest
        rw [lengthAt_octetsBehind, Option.getD_none, ipNetNew_width] at hnew
        obtain rfl := Option.some.inj hnew
        have hzero := (midTaken_eq_iff hform).mp haddress
        right
        refine ⟨pre, post, a, b, c, d, r, hp ▸ hat.text, hform, hzero, ⟨fun hslash => ?_, ?_⟩, ?_⟩
        · obtain ⟨hclean, -, hr⟩ := hat.alone hslash
          exact ⟨by rw [← hz, hclean]; rfl, haddress ▸ hr⟩
        · rintro tail rfl
          obtain ⟨hne, hlen, hnet', hr⟩ := hat.slash tail rfl
          have hlen' : numeral 10 (tail.takeWhile Char.isDigit) = 128 := hlen
          exact ⟨hne, by omega, fun _ => ⟨by rw [← hp, hnet']; rfl, hr⟩⟩
        · rintro tail rfl
          exact (hat.slash tail rfl).2.1
  sixAlone hsix := by
    obtain ⟨gs, a, b, c, d, htext, hgs, hlen, hquad, hzero⟩ := hsix
    have hread := (ipFromStr_eq_some_iff _ _).mpr (hzero ▸ AddressText.six hgs hlen hquad)
    rw [← htext] at hread
    have hnet' := h.each _ (.inl ⟨_, hread, rfl⟩)
    have hnone := SixForm.run ⟨gs, a, b, c, d, htext, hgs, hlen, hquad, hzero⟩ (s.dropWhile fun c => !isWhitespace c)
    rw [List.takeWhile_append_dropWhile] at hnone
    rw [readNet_of_none hnone] at hnet'
    cases hnet'
  sixSlash a l zero htext hsix := by
    cases hread : netFromStr (s.takeWhile fun c => !isWhitespace c) with
    | none => rfl
    | some net =>
      have hnet' := h.each net (.inr hread)
      have hnone := hsix.run ('/' :: l ++ s.dropWhile fun c => !isWhitespace c)
      rw [← List.append_assoc, ← htext, List.takeWhile_append_dropWhile] at hnone
      rw [readNet_of_none hnone] at hnet'
      cases hnet'

/-- **A line gives the network it shows exactly under the condition.** -/
theorem lineShows_iff (hnet : NetTexts netFromStr) (s : List Char) :
    LineShows netFromStr s ↔ LineReads netFromStr s :=
  ⟨LineShows.reads hnet, LineReads.shows hnet⟩

end

/-! ### A file -/

theorem parseIpSetFile_eq {text : List Char} (h : ∀ line ∈ lines text, readNet (trimStart line) ≠ none) :
    parseIpSetFile text = some ((lines text).filterMap fun line => (readNet (trimStart line)).join) := by
  have hmap : (lines text).mapM (fun line => readNet (trimStart line)) =
      some ((lines text).map fun line => (readNet (trimStart line)).join) := by
    generalize lines text = ls at h
    induction ls with
    | nil => rfl
    | cons line ls ih =>
      obtain ⟨hline, hls⟩ := List.forall_mem_cons.mp h
      obtain ⟨net, hread⟩ := Option.ne_none_iff_exists'.mp hline
      exact mapM_eq_some_cons.mpr ⟨net, _, hread, ih hls, by rw [List.map_cons, hread]; rfl⟩
  unfold parseIpSetFile
  rw [hmap, Option.map_some, List.filterMap_map]
  rfl

/-- **A file gives the networks its lines show exactly if every line meets the condition.** -/
theorem fileShows_iff (netFromStr : List Char → Option IpNet) (hnet : NetTexts netFromStr) (text : List Char) :
    FileShows netFromStr text ↔ ∀ line ∈ lines text, LineReads netFromStr (trimStart line) := by
  constructor
  · intro h line hline
    exact (lineShows_iff hnet _).mp (h.each line hline)
  · intro h
    have heach : ∀ line ∈ lines text, LineShows netFromStr (trimStart line) := fun line hline =>
      (lineShows_iff hnet _).mpr (h line hline)
    exact ⟨parseIpSetFile_eq fun line hline => (heach line hline).total, heach⟩

/-- An address of the standard library, a slash and up to three digits. -/
def cidrFromStr (s : List Char) : Option IpNet :=
  let a := s.takeWhile (· ≠ '/')
  let l := (s.dropWhile (· ≠ '/')).tail
  if (s.dropWhile (· ≠ '/')).head? = some '/' ∧ l ≠ [] ∧ l.all Char.isDigit ∧ l.length ≤ 3 then
    (ipFromStr a).bind fun ip => ipNetNew ip (numeral 10 l)
  else none

theorem cidrTexts : NetTexts cidrFromStr where
  form s net h := by
    unfold cidrFromStr at h
    dsimp only at h
    split_ifs at h with hcond
    obtain ⟨hslash, hne, hdigits, -⟩ := hcond
    obtain ⟨ip, hip, hnew⟩ := Option.bind_eq_some_iff.mp h
    obtain ⟨rfl, hlen⟩ := ipNetNew_eq_some_iff.mp hnew
    obtain ⟨l, hl⟩ := List.head?_eq_some_iff.mp hslash
    rw [hl, List.tail_cons] at hne hdigits hlen
    refine ⟨_, l, false, ?_, (ipFromStr_eq_some_iff _ _).mp hip, hne, fun c hc => List.all_eq_true.mp hdigits c hc,
      hlen.symm⟩
    rw [← hl, List.takeWhile_append_dropWhile]

/-- The line of the source's test, with letters behind the network. -/
theorem fileShows_letters : FileShows cidrFromStr "2.3.4.5/16qwerty".toList := by
  refine (fileShows_iff cidrFromStr cidrTexts _).mpr fun line hline => ?_
  have hlines : lines "2.3.4.5/16qwerty".toList = ["2.3.4.5/16qwerty".toList] := by decide +kernel
  have htrim : trimStart "2.3.4.5/16qwerty".toList = "2.3.4.5/16qwerty".toList := by decide +kernel
  have hrun : ipAddr "2.3.4.5/16qwerty".toList = some (some (.v4 0x02030405#32), "/16qwerty".toList) := by
    decide +kernel
  have htoken : "2.3.4.5/16qwerty".toList.takeWhile (fun c => !isWhitespace c) = "2.3.4.5/16qwerty".toList := by
    decide +kernel
  rw [hlines, List.mem_singleton] at hline
  rw [hline, htrim]
  constructor
  · intro hover
    obtain ⟨rest, hpanic⟩ := hover.run
    rw [hrun] at hpanic
    cases hpanic
  · intro p ip clean rest hs htaken
    have hrun' := htaken.run
    rw [← hs, hrun] at hrun'
    cases hrun'
    have hsame : p ++ "/16qwerty".toList = "2.3.4.5".toList ++ "/16qwerty".toList := by
      rw [← hs]
      decide
    have hp : p = "2.3.4.5".toList := List.append_cancel_right hsame
    refine .inl ⟨fun h => absurd rfl h, fun tail htail => ?_⟩
    obtain rfl := (List.cons.inj htail).2
    rw [hp]
    exact ⟨by decide +kernel, by decide +kernel, fun _ => ⟨by decide +kernel, notOk_cons (by decide)⟩⟩
  · intro hsix
    have hnone := hsix.run []
    rw [List.append_nil, htoken, hrun] at hnone
    cases hnone
  · intro a l zero htext hsix
    have hnone := hsix.run ('/' :: l)
    rw [← htext, htoken, hrun] at hnone
    cases hnone

/-- Of five octets the first four are read as an address of their own. -/
theorem not_fileShows_five_octets : ¬ ∀ netFromStr : List Char → Option IpNet, NetTexts netFromStr →
    ∀ text, FileShows netFromStr text := by
  intro h
  have hlines : "1.2.3.4.5".toList ∈ lines "1.2.3.4.5".toList := by decide +kernel
  have htrim : trimStart "1.2.3.4.5".toList = "1.2.3.4.5".toList := by decide +kernel
  have hrun : ipAddr "1.2.3.4.5".toList = some (some (.v4 0x01020304#32), ".5".toList) := by decide +kernel
  have hread : readNet "1.2.3.4.5".toList = some (some (hostNet (.v4 0x01020304#32))) := by decide +kernel
  have hline := (h cidrFromStr cidrTexts "1.2.3.4.5".toList).each _ hlines
  rw [htrim] at hline
  obtain ⟨p, zero, r, hat⟩ := shownAt_of_shown cidrTexts (hline.only _ hread)
  have hcases := hat.run
  rw [hrun] at hcases
  rcases hcases with heq | ⟨-, heq⟩ | ⟨_, _, _, _, _, _, -, -, haddress, -, -⟩
  · cases heq
    have hgoes := (hat.alone (by decide)).2.2 '.' rfl
    cases hgoes
  · cases heq
  · cases haddress

end Config
end SmartDns
