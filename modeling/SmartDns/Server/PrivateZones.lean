/-
# Reverse names of private addresses

`LocalPtrZoneProvider` answers the PTR queries for private addresses itself, so that none is sent to an
upstream. A name that lies in the reverse zone of a private network should be answered, whatever stands
in front of the zone; the name of an address outside the private ranges should not.

The provider reads the name as the network of the name itself. So it answers a name in a private zone
exactly where all of the name is octets or nibbles (`WholeLabels`) and the network does not begin with the octet 0, as
it does for all of `0.0.0.0/8` but its first address (`privateStays_iff`). Names of addresses outside the
ranges are always passed on.

Key definitions: `ArpaZone`, `privateRanges`, `PrivateStays`, `WholeLabels`.
Key theorems: `contains_of_parseArpaName`, `documented_iff`, `privateStays_iff`.
-/
import SmartDns.Lib.Digits
import SmartDns.Server.LocalData
import SmartDns.Server.Refresh

namespace SmartDns
namespace Dns

/-! ### Digits of an address -/

section

open Lib

variable {b width : ℕ} {ds es : List ℕ}

theorem arpaBits_lt (hb : 0 < b) (hds : ∀ d ∈ ds, d < b) (hlen : ds.length ≤ width) :
    arpaBits b width ds < b ^ width := by
  have hwidth : b ^ width = b ^ ds.length * b ^ (width - ds.length) := by
    rw [← Nat.pow_add]
    congr 1
    omega
  rw [arpaBits, hwidth]
  exact Nat.mul_lt_mul_of_pos_right (ofDigits_lt hds) (Nat.pow_pos hb)

/-- The digits behind a network's do not lead out of it. -/
theorem arpaBits_append_div (hb : 0 < b) (hes : ∀ e ∈ es, e < b) (hlen : (ds ++ es).length ≤ width) :
    arpaBits b width (ds ++ es) / b ^ (width - ds.length) = arpaBits b width ds / b ^ (width - ds.length) := by
  have hle : ds.length + es.length ≤ width := by
    rwa [← List.length_append]
  have hsplit : b ^ (width - ds.length) = b ^ es.length * b ^ (width - (ds.length + es.length)) := by
    rw [← Nat.pow_add]
    congr 1
    omega
  have hfirst : arpaBits b width ds / b ^ (width - ds.length) = ofDigits b ds := Nat.mul_div_cancel _ (Nat.pow_pos hb)
  rw [hfirst, arpaBits, List.length_append, hsplit, Nat.mul_div_mul_right _ _ (Nat.pow_pos hb)]
  exact ofDigits_append_div hb ds hes

/-- The same for digits of `k` bits. -/
theorem arpaBits_append_shift {k : ℕ} (hes : ∀ e ∈ es, e < 2 ^ k) (hlen : (ds ++ es).length ≤ width) :
    arpaBits (2 ^ k) width (ds ++ es) >>> (k * width - k * ds.length) =
      arpaBits (2 ^ k) width ds >>> (k * width - k * ds.length) := by
  rw [Nat.shiftRight_eq_div_pow, Nat.shiftRight_eq_div_pow, ← Nat.mul_sub, Nat.pow_mul]
  exact arpaBits_append_div (Nat.two_pow_pos k) hes hlen

end

theorem parseOctet_lt (l : List UInt8) (o : ℕ) (h : parseOctet l = some o) : o < 256 := by
  unfold parseOctet at h
  generalize (if l.head? = some 43 then l.tail else l) = digits at h
  dsimp only at h
  split_ifs at h with h1 h2
  exact Option.some.inj h ▸ h2

theorem parseHexDigit_lt (c : UInt8) (d : ℕ) (h : parseHexDigit c = some d) : d < 16 := by
  unfold parseHexDigit at h
  split_ifs at h with h1 h2 h3
  · have := Option.some.inj h
    have hle : c.toNat ≤ 57 := h1.2
    omega
  · have := Option.some.inj h
    have hle : c.toNat ≤ 102 := h2.2
    omega
  · have := Option.some.inj h
    have hle : c.toNat ≤ 70 := h3.2
    omega

theorem parseNibble_lt (l : List UInt8) (d : ℕ) (h : parseNibble l = some d) : d < 16 := by
  unfold parseNibble at h
  split at h
  · exact parseHexDigit_lt _ d h
  · cases h

/-! ### Reverse zones -/

/-- A zone under `in-addr.arpa` or `ip6.arpa`, by the octets or nibbles of its network, the first the most
significant. -/
inductive ArpaZone
  | inAddr (octets : List (Fin 256)) (short : octets.length ≤ 4)
  | ip6 (nibbles : List (Fin 16)) (short : nibbles.length ≤ 32)

/-- `arpa`. -/
def labelArpa : List UInt8 := [97, 114, 112, 97]

/-- `in-addr`. -/
def labelInAddr : List UInt8 := [105, 110, 45, 97, 100, 100, 114]

/-- `ip6`. -/
def labelIp6 : List UInt8 := [105, 112, 54]

def octetLabel (o : Fin 256) : List UInt8 := (Nat.toDigits 10 o).map fun c => UInt8.ofNat c.toNat

def nibbleLabel (d : Fin 16) : List UInt8 := (Nat.toDigits 16 d).map fun c => UInt8.ofNat c.toNat

theorem parseOctet_octetLabel : ∀ o : Fin 256, parseOctet (octetLabel o) = some o := by decide +kernel

theorem parseNibble_nibbleLabel : ∀ d : Fin 16, parseNibble (nibbleLabel d) = some d := by decide +kernel

namespace ArpaZone

/-- The name of the zone, in lower case. -/
def labels : ArpaZone → List (List UInt8)
  | inAddr octets _ => (octets.map octetLabel).reverse ++ [labelInAddr, labelArpa]
  | ip6 nibbles _ => (nibbles.map nibbleLabel).reverse ++ [labelIp6, labelArpa]

def net : ArpaZone → IpNet
  | inAddr octets short =>
    ⟨.v4 (BitVec.ofNat 32 (arpaBits 256 4 (octets.map (·.val)))), 8 * octets.length, by
      simp only [IpAddr.width]
      omega⟩
  | ip6 nibbles short =>
    ⟨.v6 (BitVec.ofNat 128 (arpaBits 16 32 (nibbles.map (·.val)))), 4 * nibbles.length, by
      simp only [IpAddr.width]
      omega⟩

/-- The zone of one address. -/
def IsAddress (zone : ArpaZone) : Prop := zone.net.prefixLen = zone.net.address.width

end ArpaZone

theorem toNat_arpaBits_v4 {ds : List ℕ} (hds : ∀ d ∈ ds, d < 256) (hlen : ds.length ≤ 4) :
    (BitVec.ofNat 32 (arpaBits 256 4 ds)).toNat = arpaBits 256 4 ds := by
  have hlt := arpaBits_lt (by decide) hds hlen
  rw [BitVec.toNat_ofNat]
  exact Nat.mod_eq_of_lt hlt

theorem toNat_arpaBits_v6 {ds : List ℕ} (hds : ∀ d ∈ ds, d < 16) (hlen : ds.length ≤ 32) :
    (BitVec.ofNat 128 (arpaBits 16 32 ds)).toNat = arpaBits 16 32 ds := by
  have hlt := arpaBits_lt (by decide) hds hlen
  rw [BitVec.toNat_ofNat]
  exact Nat.mod_eq_of_lt hlt

/-- All labels in front of `in-addr.arpa` are octets, or all in front of `ip6.arpa` nibbles, and there are no more
than an address has. -/
def WholeLabels (n : Name) : Prop :=
  n.isFqdn = true ∧
    ((∃ ls, n.lowers = ls ++ [labelInAddr, labelArpa] ∧ ls.length ≤ 4 ∧ ∀ l ∈ ls, (parseOctet l).isSome = true) ∨
      ∃ ls, n.lowers = ls ++ [labelIp6, labelArpa] ∧ ls.length ≤ 32 ∧ ∀ l ∈ ls, (parseNibble l).isSome = true)

section

open Lib

theorem parseArpaName_inAddr {n : Name} (hf : n.isFqdn = true) {ls : List (List UInt8)}
    (hn : n.lowers = ls.reverse ++ [labelInAddr, labelArpa]) : n.parseArpaName =
      if ls.length ≤ 4 then
        (ls.mapM parseOctet).map fun octets => (.v4 (BitVec.ofNat 32 (arpaBits 256 4 octets)), 8 * octets.length)
      else none := by
  have hrev : n.lowers.reverse = labelArpa :: labelInAddr :: ls := by simp [hn]
  have harpa : labelArpa = [97, 114, 112, 97] := rfl
  have hinaddr : labelInAddr = [105, 110, 45, 97, 100, 100, 114] := rfl
  unfold Name.parseArpaName
  simp only [hf, hrev]
  rw [if_pos harpa, if_pos hinaddr]

theorem parseArpaName_ip6 {n : Name} (hf : n.isFqdn = true) {ls : List (List UInt8)}
    (hn : n.lowers = ls.reverse ++ [labelIp6, labelArpa]) : n.parseArpaName =
      if ls.length ≤ 32 then
        (ls.mapM parseNibble).map fun nibbles => (.v6 (BitVec.ofNat 128 (arpaBits 16 32 nibbles)), 4 * nibbles.length)
      else none := by
  have hrev : n.lowers.reverse = labelArpa :: labelIp6 :: ls := by simp [hn]
  have harpa : labelArpa = [97, 114, 112, 97] := rfl
  have hinaddr : ¬ labelIp6 = [105, 110, 45, 97, 100, 100, 114] := by decide
  have hip6 : labelIp6 = [105, 112, 54] := rfl
  unfold Name.parseArpaName
  simp only [hf, hrev]
  rw [if_pos harpa, if_neg hinaddr, if_pos hip6]

/-- A name is read exactly if its labels are whole. -/
theorem parseArpaName_isSome_iff (n : Name) : n.parseArpaName.isSome = true ↔ WholeLabels n := by
  constructor
  · intro h
    cases hf : n.isFqdn with
    | false => simp [Name.parseArpaName, hf] at h
    | true =>
      have hback : n.lowers = n.lowers.reverse.reverse := (List.reverse_reverse _).symm
      refine ⟨hf, ?_⟩
      cases hrev : n.lowers.reverse with
      | nil => simp [Name.parseArpaName, hf, hrev] at h
      | cons first rest =>
        cases rest with
        | nil => simp [Name.parseArpaName, hf, hrev] at h
        | cons second ls =>
          have hn : n.lowers = ls.reverse ++ [second, first] := by
            rw [hback, hrev]
            simp
          simp only [Name.parseArpaName, hf, hrev] at h
          split_ifs at h with harpa hinaddr hfour hip6 hall
          · obtain rfl : first = labelArpa := harpa
            obtain rfl : second = labelInAddr := hinaddr
            rw [Option.isSome_map, mapM_isSome_iff] at h
            exact .inl ⟨ls.reverse, hn, by simpa using hfour, by simpa using h⟩
          · cases h
          · obtain rfl : first = labelArpa := harpa
            obtain rfl : second = labelIp6 := hip6
            rw [Option.isSome_map, mapM_isSome_iff] at h
            exact .inr ⟨ls.reverse, hn, by simpa using hall, by simpa using h⟩
          all_goals cases h
  · rintro ⟨hf, ⟨ls, hn, hlen, hall⟩ | ⟨ls, hn, hlen, hall⟩⟩
    · have hrev : n.lowers = ls.reverse.reverse ++ [labelInAddr, labelArpa] := by rw [hn, List.reverse_reverse]
      rw [parseArpaName_inAddr hf hrev, if_pos (by simpa using hlen), Option.isSome_map, mapM_isSome_iff]
      simpa using hall
    · have hrev : n.lowers = ls.reverse.reverse ++ [labelIp6, labelArpa] := by rw [hn, List.reverse_reverse]
      rw [parseArpaName_ip6 hf hrev, if_pos (by simpa using hlen), Option.isSome_map, mapM_isSome_iff]
      simpa using hall

theorem isFqdn_of_parseArpaName {n : Name} {net : IpAddr × ℕ} (h : n.parseArpaName = some net) : n.isFqdn = true :=
  ((parseArpaName_isSome_iff n).mp (Option.isSome_iff_exists.mpr ⟨net, h⟩)).1

/-- The digits of a zone are the first digits of a name under it. -/
theorem mapM_under {w : ℕ} {parse : List UInt8 → Option ℕ} {label : Fin w → List UInt8}
    (hlabel : ∀ d, parse (label d) = some d.val) {front : List (List UInt8)} :
    ∀ {ds : List (Fin w)} {digits : List ℕ}, (ds.map label ++ front).mapM parse = some digits →
      ∃ es, front.mapM parse = some es ∧ digits = ds.map (·.val) ++ es
  | [], digits, h => ⟨digits, h, rfl⟩
  | d :: ds, digits, h => by
    obtain ⟨digit, digits', hdigit, hdigits, rfl⟩ := mapM_eq_some_cons.mp h
    obtain ⟨es, hes, rfl⟩ := mapM_under hlabel hdigits
    obtain rfl : d.val = digit := Option.some.inj ((hlabel d).symm.trans hdigit)
    exact ⟨es, hes, rfl⟩

/-- **A name under a zone stands for a part of the zone's network.** -/
theorem contains_of_parseArpaName {n : Name} {zone : ArpaZone} {net : IpAddr × ℕ} (hzone : zone.labels <:+ n.lowers)
    (h : n.parseArpaName = some net) :
    zone.net.contains net.1 = true ∧ (n.lowers = zone.labels → net.1 = zone.net.address) := by
  have hf := isFqdn_of_parseArpaName h
  obtain ⟨front, hfront⟩ := hzone
  have hnil (heq : n.lowers = zone.labels) : front = [] := by
    have hlength := congrArg List.length (hfront.trans heq)
    rw [List.length_append] at hlength
    exact List.length_eq_zero_iff.mp (by omega)
  cases zone with
  | inAddr octets short =>
    have hn : n.lowers = (octets.map octetLabel ++ front.reverse).reverse ++ [labelInAddr, labelArpa] := by
      rw [← hfront, ArpaZone.labels]
      simp
    rw [parseArpaName_inAddr hf hn] at h
    split_ifs at h with hlen
    obtain ⟨digits, hdigits, rfl⟩ := Option.map_eq_some_iff.mp h
    have hall := forall_mem_of_mapM parseOctet_lt hdigits
    rw [← length_of_mapM hdigits] at hlen
    obtain ⟨es, hes, rfl⟩ := mapM_under parseOctet_octetLabel hdigits
    have hoctets : ∀ d ∈ octets.map (·.val), d < 256 := fun d hd => hall d (List.mem_append_left _ hd)
    refine ⟨?_, fun heq => ?_⟩
    · have hshift := arpaBits_append_shift (k := 8) (fun e he => hall e (List.mem_append_right _ he)) hlen
      rw [List.length_map] at hshift
      simp only [ArpaZone.net, IpNet.contains]
      rw [toNat_arpaBits_v4 hoctets (by simpa using short), toNat_arpaBits_v4 hall hlen]
      exact decide_eq_true hshift.symm
    · rw [hnil heq] at hes
      obtain rfl : [] = es := Option.some.inj hes
      rw [List.append_nil]
      rfl
  | ip6 nibbles short =>
    have hn : n.lowers = (nibbles.map nibbleLabel ++ front.reverse).reverse ++ [labelIp6, labelArpa] := by
      rw [← hfront, ArpaZone.labels]
      simp
    rw [parseArpaName_ip6 hf hn] at h
    split_ifs at h with hlen
    obtain ⟨digits, hdigits, rfl⟩ := Option.map_eq_some_iff.mp h
    have hall := forall_mem_of_mapM parseNibble_lt hdigits
    rw [← length_of_mapM hdigits] at hlen
    obtain ⟨es, hes, rfl⟩ := mapM_under parseNibble_nibbleLabel hdigits
    have hnibbles : ∀ d ∈ nibbles.map (·.val), d < 16 := fun d hd => hall d (List.mem_append_left _ hd)
    refine ⟨?_, fun heq => ?_⟩
    · have hshift := arpaBits_append_shift (k := 4) (fun e he => hall e (List.mem_append_right _ he)) hlen
      rw [List.length_map] at hshift
      simp only [ArpaZone.net, IpNet.contains]
      rw [toNat_arpaBits_v6 hnibbles (by simpa using short), toNat_arpaBits_v6 hall hlen]
      exact decide_eq_true hshift.symm
    · rw [hnil heq] at hes
      obtain rfl : [] = es := Option.some.inj hes
      rw [List.append_nil]
      rfl

end

end Dns

namespace Server

open Dns

/-! ### The private ranges -/

/-- The ranges that are documented as private or special. -/
def privateRanges : IpSet :=
  [⟨.v4 0x0a000000#32, 8, by decide⟩, ⟨.v4 0xac100000#32, 12, by decide⟩, ⟨.v4 0xc0a80000#32, 16, by decide⟩,
    ⟨.v4 0x7f000000#32, 8, by decide⟩, ⟨.v4 0xa9fe0000#32, 16, by decide⟩, ⟨.v4 0x64400000#32, 10, by decide⟩,
    ⟨.v4 0#32, 8, by decide⟩, ⟨.v4 0xffffffff#32, 32, by decide⟩, ⟨.v6 1#128, 128, by decide⟩,
    ⟨.v6 0xfe800000000000000000000000000000#128, 10, by decide⟩,
    ⟨.v6 0xfc000000000000000000000000000000#128, 7, by decide⟩]

/-- An IPv4-mapped address is in the range of the IPv4 address. -/
def documented (ip : IpAddr) : Bool := privateRanges.contains ip.toCanonical

/-- In `0.0.0.0/8`, and not the first address of it. -/
def inZeroNet (ip : IpAddr) : Bool :=
  match ip.toCanonical with
  | .v4 bits => bits.toNat / 2 ^ 24 = 0 && bits.toNat ≠ 0
  | .v6 _ => false

theorem documented_v4_iff (bits : BitVec 32) : privateRanges.contains (.v4 bits) = true ↔
    isPrivateV4 bits = true ∨ (bits.toNat / 2 ^ 24 = 0 ∧ bits.toNat ≠ 0) := by
  have hlt := bits.isLt
  simp only [IpSet.contains, privateRanges, List.any_cons, List.any_nil, IpNet.contains, Nat.shiftRight_eq_div_pow,
    isPrivateV4, Bool.or_eq_true, decide_eq_true_eq, Bool.false_eq_true, or_false, BitVec.toNat_ofNat]
  omega

theorem documented_v6_iff (bits : BitVec 128) : privateRanges.contains (.v6 bits) = true ↔
    bits.toNat = 1 ∨ bits.toNat / 2 ^ 118 = 0x3fa ∨ bits.toNat / 2 ^ 121 = 0x7e := by
  have hlt := bits.isLt
  simp only [IpSet.contains, privateRanges, List.any_cons, List.any_nil, IpNet.contains, Nat.shiftRight_eq_div_pow,
    Bool.or_eq_true, decide_eq_true_eq, Bool.false_eq_true, or_false, false_or, BitVec.toNat_ofNat]
  omega

/-- **The provider knows the documented ranges but `0.0.0.0/8`**, of which it knows the first address. -/
theorem documented_iff (ip : IpAddr) : documented ip = true ↔ isPrivate ip = true ∨ inZeroNet ip = true := by
  have hv4 (bits : BitVec 32) : privateRanges.contains (.v4 bits) = true ↔ isPrivateV4 bits = true ∨
      (decide (bits.toNat / 2 ^ 24 = 0) && decide (bits.toNat ≠ 0)) = true := by
    rw [documented_v4_iff, Bool.and_eq_true, decide_eq_true_eq, decide_eq_true_eq]
  unfold documented inZeroNet
  cases ip with
  | v4 bits => exact hv4 bits
  | v6 bits =>
    cases h : IpAddr.toIpv4Mapped bits with
    | some mapped =>
      have hcanonical : (IpAddr.v6 bits).toCanonical = .v4 mapped := by rw [IpAddr.toCanonical, h]
      have hprivate : isPrivate (.v6 bits) = isPrivateV4 mapped := by rw [isPrivate, h]
      rw [hcanonical, hprivate]
      exact hv4 mapped
    | none =>
      have hcanonical : (IpAddr.v6 bits).toCanonical = .v6 bits := by rw [IpAddr.toCanonical, h]
      have hprivate : isPrivate (.v6 bits) = (decide (bits.toNat = 1) ||
          decide (bits.toNat / 2 ^ 118 = 0x3fa) || decide (bits.toNat / 2 ^ 121 = 0x7e)) := by
        rw [isPrivate, h]
      rw [hcanonical, hprivate, documented_v6_iff]
      simp [or_assoc]

theorem not_isPrivate_of_inZeroNet {ip : IpAddr} (h : inZeroNet ip = true) : isPrivate ip = false := by
  have hv4 (bits : BitVec 32) (h : (decide (bits.toNat / 2 ^ 24 = 0) && decide (bits.toNat ≠ 0)) = true) :
      isPrivateV4 bits = false := by
    have hlt := bits.isLt
    simp only [Bool.and_eq_true, decide_eq_true_eq] at h
    simp only [isPrivateV4, Bool.or_eq_false_iff, decide_eq_false_iff_not]
    omega
  unfold inZeroNet at h
  cases ip with
  | v4 bits => exact hv4 bits h
  | v6 bits =>
    cases hmapped : IpAddr.toIpv4Mapped bits with
    | some mapped =>
      rw [IpAddr.toCanonical, hmapped] at h
      rw [isPrivate, hmapped]
      exact hv4 mapped h
    | none =>
      rw [IpAddr.toCanonical, hmapped] at h
      cases h

/-! ### What is answered -/

/-- `LocalPtrZoneProvider::lookup`. -/
def localPtrLookup (cfg : RuntimeConfig) (now : ℤ) (serial : ℕ) (req : DnsRequest) : Option DnsResponse :=
  (localPtr req).map (localPtrResponse cfg now serial req)

/-- All addresses of the network are private or special. -/
def InsidePrivate (net : IpNet) : Prop := ∀ ip, net.contains ip = true → documented ip = true

/-- A name in the zone of a private network is answered with NXDOMAIN and an SOA record, and the name of an
address outside the private ranges is passed on. -/
structure PrivateStays (cfg : RuntimeConfig) (now : ℤ) (serial : ℕ) (req : DnsRequest) : Prop where
  answered : ∀ zone : ArpaZone, InsidePrivate zone.net → zone.labels <:+ req.query.name.lowers →
    ∃ lookup, localPtrLookup cfg now serial req = some lookup ∧ lookup.message.responseCode = .nxDomain ∧
      ∃ r ∈ lookup.message.authorities, r.recordType = .SOA
  passed : ∀ zone : ArpaZone, zone.IsAddress → documented zone.net.address = false →
    req.query.name.lowers = zone.labels → localPtrLookup cfg now serial req = none

variable {cfg : RuntimeConfig} {now : ℤ} {serial : ℕ} {req : DnsRequest}

theorem toAsciiLowercase_idem : ∀ b : UInt8, toAsciiLowercase (toAsciiLowercase b) = toAsciiLowercase b := by
  intro b
  unfold toAsciiLowercase
  by_cases h : 65 ≤ b ∧ b ≤ 90
  · rw [if_pos h, if_neg]
    intro h'
    have hle := UInt8.le_iff_toNat_le.mp h.1
    have hge := UInt8.le_iff_toNat_le.mp h.2
    have hge' := UInt8.le_iff_toNat_le.mp h'.2
    rw [UInt8.toNat_add] at hge'
    simp only [UInt8.reduceToNat] at *
    omega
  · rw [if_neg h, if_neg h]

theorem lowers_toLowercase (n : Name) : n.toLowercase.lowers = n.lowers := by
  simp [Name.folded, Name.toLowercase, toAsciiLowercase_idem]

/-- The server's own names are in no reverse zone. -/
theorem not_ownName {zone : ArpaZone} (h : zone.labels <:+ req.query.name.lowers) :
    (ownNames.any fun n => n.cmp req.name = .eq) = false := by
  have hlast : req.query.name.lowers.getLast? = some labelArpa := by
    obtain ⟨front, hfront⟩ := h
    rw [← hfront]
    cases zone <;> simp [ArpaZone.labels]
  rw [List.any_eq_false]
  intro n hn heq
  have hlowers := ((Name.cmp_eq_iff n req.name).mp (of_decide_eq_true heq)).2
  have hname : n.lowers = req.query.name.lowers := hlowers.trans (lowers_toLowercase req.query.name)
  have hown : ∀ n ∈ ownNames, n.lowers.getLast? ≠ some labelArpa := by decide
  exact hown n hn (hname ▸ hlast)

/-- Under a reverse zone a PTR query is answered exactly if it is read as a private address. -/
theorem localPtr_under (hptr : req.query.queryType = .PTR) {zone : ArpaZone}
    (h : zone.labels <:+ req.query.name.lowers) :
    localPtr req = if req.name.parseArpaName.any fun net => isPrivate net.1 then some .privateAddress else none := by
  unfold localPtr
  rw [if_pos hptr, not_ownName h]
  rfl

/-- **Private names stay here exactly where the name is read as a whole**, and not in `0.0.0.0/8` behind its first
address. -/
theorem privateStays_iff (hptr : req.query.queryType = .PTR) : PrivateStays cfg now serial req ↔
    ∀ zone : ArpaZone, InsidePrivate zone.net → zone.labels <:+ req.query.name.lowers →
      WholeLabels req.name ∧ ∀ net, req.name.parseArpaName = some net → inZeroNet net.1 = false := by
  have hunder {zone : ArpaZone} (h : zone.labels <:+ req.query.name.lowers) : zone.labels <:+ req.name.lowers :=
    (lowers_toLowercase req.query.name).symm ▸ h
  constructor
  · intro h zone hinside hzone
    obtain ⟨lookup, hlookup, -⟩ := h.answered zone hinside hzone
    obtain ⟨ptr, hlocal, -⟩ := Option.map_eq_some_iff.mp hlookup
    rw [localPtr_under hptr hzone] at hlocal
    split_ifs at hlocal with hany
    obtain ⟨net, hparse, hprivate⟩ := (Option.any_eq_true _ _).mp hany
    refine ⟨(parseArpaName_isSome_iff req.name).mp (Option.isSome_iff_exists.mpr ⟨net, hparse⟩), fun net' hnet' => ?_⟩
    obtain rfl : net = net' := Option.some.inj (hparse.symm.trans hnet')
    rw [Bool.eq_false_iff]
    intro hzero
    rw [not_isPrivate_of_inZeroNet hzero] at hprivate
    cases hprivate
  · intro h
    refine ⟨fun zone hinside hzone => ?_, fun zone haddress houtside hname => ?_⟩
    · obtain ⟨hwhole, hzero⟩ := h zone hinside hzone
      obtain ⟨net, hparse⟩ := Option.isSome_iff_exists.mp ((parseArpaName_isSome_iff req.name).mpr hwhole)
      have hdoc := hinside net.1 (contains_of_parseArpaName (hunder hzone) hparse).1
      have hprivate : isPrivate net.1 = true := by
        rcases (documented_iff net.1).mp hdoc with h | h
        · exact h
        · rw [hzero net hparse] at h
          cases h
      have hlocal : localPtr req = some .privateAddress := by
        rw [localPtr_under hptr hzone, hparse, Option.any_some, hprivate, if_pos rfl]
      rw [localPtrLookup, hlocal]
      exact ⟨_, rfl, rfl, _, List.mem_singleton_self _, rfl⟩
    · have hzone : zone.labels <:+ req.query.name.lowers := hname ▸ List.suffix_refl _
      rw [localPtrLookup, Option.map_eq_none_iff, localPtr_under hptr hzone, if_neg]
      intro hany
      obtain ⟨net, hparse, hprivate⟩ := (Option.any_eq_true _ _).mp hany
      have heq := (contains_of_parseArpaName (hunder hzone) hparse).2
        ((lowers_toLowercase req.query.name).trans hname)
      rw [(documented_iff zone.net.address).mpr (.inl (heq ▸ hprivate))] at houtside
      cases houtside

/-! ### Names that leave -/

theorem insidePrivate_of_full {net : IpNet} (hfull : net.prefixLen = net.address.width)
    (h : documented net.address = true) : InsidePrivate net := by
  have hshift (n : ℕ) : n >>> (32 - 32) = n ∧ n >>> (128 - 128) = n := ⟨rfl, rfl⟩
  obtain ⟨address, len, short⟩ := net
  obtain rfl : len = address.width := hfull
  intro ip hip
  cases address with
  | v4 a =>
    cases ip with
    | v4 b =>
      have hab : a.toNat >>> (32 - 32) = b.toNat >>> (32 - 32) := of_decide_eq_true hip
      rw [(hshift _).1, (hshift _).1] at hab
      exact BitVec.eq_of_toNat_eq hab ▸ h
    | v6 b => cases hip
  | v6 a =>
    cases ip with
    | v4 b => cases hip
    | v6 b =>
      have hab : a.toNat >>> (128 - 128) = b.toNat >>> (128 - 128) := of_decide_eq_true hip
      rw [(hshift _).2, (hshift _).2] at hab
      exact BitVec.eq_of_toNat_eq hab ▸ h

def ptrRequest (labels : List (List UInt8)) : DnsRequest where
  header := { id := 1 }
  queries := [{ name := .ofLabels labels, queryType := .PTR, queryClass := .IN }]
  src := .v4 0x0a000001#32

/-- `0.1.168.192.in-addr.arpa`. -/
def reverseLabels : List (List UInt8) := [[48], [49], [49, 54, 56], [49, 57, 50], labelInAddr, labelArpa]

/-- `lb._dns-sd._udp.0.1.168.192.in-addr.arpa`. -/
def browsingLabels : List (List UInt8) :=
  [108, 98] :: [95, 100, 110, 115, 45, 115, 100] :: [95, 117, 100, 112] :: reverseLabels

theorem privateStays_reverse : PrivateStays plainConfig 0 0 (ptrRequest reverseLabels) ↔
    ∀ zone : ArpaZone, InsidePrivate zone.net → zone.labels <:+ (ptrRequest reverseLabels).query.name.lowers →
      WholeLabels (ptrRequest reverseLabels).name ∧
        ∀ net, (ptrRequest reverseLabels).name.parseArpaName = some net → inZeroNet net.1 = false :=
  privateStays_iff rfl

/-- The browsing domain of a private network is asked for upstream, and so is `0.1.2.3`. -/
theorem not_privateStays_browsing : ¬ PrivateStays plainConfig 0 0 (ptrRequest browsingLabels) ∧
    ¬ PrivateStays plainConfig 0 0 (ptrRequest [[51], [50], [49], [48], labelInAddr, labelArpa]) := by
  constructor
  · intro h
    obtain ⟨lookup, hlookup, -⟩ := h.answered (.inAddr [192, 168, 1, 0] (by decide))
      (insidePrivate_of_full rfl (by decide +kernel)) (by decide +kernel)
    have hnone : localPtr (ptrRequest browsingLabels) = none := by decide +kernel
    rw [localPtrLookup, hnone] at hlookup
    cases hlookup
  · intro h
    obtain ⟨lookup, hlookup, -⟩ := h.answered (.inAddr [0, 1, 2, 3] (by decide))
      (insidePrivate_of_full rfl (by decide +kernel)) (by decide +kernel)
    have hnone : localPtr (ptrRequest [[51], [50], [49], [48], labelInAddr, labelArpa]) = none := by decide +kernel
    rw [localPtrLookup, hnone] at hlookup
    cases hlookup

end Server
end SmartDns
