/-
# DNS URLs

`dns_url.rs`: an upstream server is written as a URL. Its parser takes two bare words for `system` and
`dhcp`, puts `udp://` in front of a text without a scheme, turns a domain that is the text of an address
into the address, and takes the parameter `host` for the host, with the address of the URL as the pinned
one. The query is the parameters and the fragment the options, from which an HTTP URL has its
preferences. `Display` leaves out a port that is the default and empty parameters and options.

The `url` crate is the parameter `UrlCrate`. A `DnsUrl` that is parsed and changed by the setters keeps
what the parser made of the URL (`kept_of_reached`).

Key definitions: `UrlCrate`, `DnsUrl`, `fromStr`, `DnsUrl.text`, `Setter`, `Reached`, `DnsUrl.Kept`.
Key theorems: `v4Text_of_ipFromStr`, `fromStr_eq_ok`, `kept_of_reached`.
-/
import SmartDns.Api.AddressFile
import SmartDns.Dns.Request
import SmartDns.Lib.FormUrlencoded
import SmartDns.Lib.KeyMap
import SmartDns.Rule.AddressGrammar
import SmartDns.Rule.PrintedIp
import Mathlib.Data.List.Infix
import Mathlib.Data.List.Sort

namespace SmartDns

namespace Rule

open Dns
open Lib Lib.Parse

/-! ### The text of an IPv4 address -/

theorem digitChar_digitValue {c : Char} (h : c.isDigit = true) :
    (digitValue c).digitChar = c ∧ digitValue c < 10 := by
  have hval : digitValue c = c.toNat - 48 := by
    unfold digitValue
    rw [if_pos h]
  have hall : ∀ n < 10, ((Char.ofNat (48 + n)).toNat - 48).digitChar = Char.ofNat (48 + n) := by decide
  simp only [Char.isDigit, Bool.and_eq_true, decide_eq_true_eq] at h
  obtain ⟨h1, h2⟩ := h
  have h1' : 48 ≤ c.toNat := h1
  have h2' : c.toNat ≤ 57 := h2
  have hc := hall (c.toNat - 48) (by omega)
  rw [show 48 + (c.toNat - 48) = c.toNat by omega, Char.ofNat_toNat] at hc
  rw [hval]
  exact ⟨hc, by omega⟩

/-- A number without a zero in front is the digits of its value. -/
theorem decimal_numeral (g : List Char) : g ≠ [] → (∀ c ∈ g, c.isDigit = true) → zeroLed g = false →
    IpAddr.decimal (numeral 10 g) = g := by
  induction g using List.reverseRecOn with
  | nil => exact fun h => absurd rfl h
  | append_singleton g c ih =>
    intro _ hdigits hzero
    obtain ⟨hg, hc⟩ := List.forall_mem_append.mp hdigits
    obtain ⟨hchar, hlt⟩ := digitChar_digitValue (hc c (List.mem_singleton_self c))
    unfold IpAddr.decimal at ih ⊢
    rw [numeral_append_singleton]
    by_cases hne : g = []
    · rw [hne]
      show Nat.toDigits 10 (0 * 10 + digitValue c) = [c]
      rw [Nat.zero_mul, Nat.zero_add, Nat.toDigits_of_lt_base hlt, hchar]
    · obtain ⟨d, g', rfl⟩ := List.exists_cons_of_ne_nil hne
      have hhead : d ≠ '0' := by
        rintro rfl
        simp [zeroLed] at hzero
      have hpos : 0 < numeral 10 (d :: g') := by
        refine Nat.pos_of_ne_zero fun h0 => hhead ?_
        have hd := (numeral_eq_zero_iff (by omega) _).mp h0 d List.mem_cons_self
        have := (digitChar_digitValue (hg d List.mem_cons_self)).1
        rw [hd] at this
        exact this.symm
      have hlead : zeroLed (d :: g') = false := by simp [zeroLed, hhead]
      rw [Nat.mul_comm, ← Nat.toDigits_append_toDigits (by omega) hpos hlt, ih hne hg hlead,
        Nat.toDigits_of_lt_base hlt, hchar]

/-- **An IPv4 address that the standard library reads is the text of the address.** -/
theorem v4Text_of_ipFromStr {s : List Char} {bits : BitVec 32} (h : ipFromStr s = some (.v4 bits)) :
    IpAddr.v4Text bits = s := by
  have htext := (ipFromStr_eq_some_iff s _).mp h
  generalize hip : Dns.IpAddr.v4 bits = ip at htext
  generalize hzero : false = zero at htext
  cases htext with
  | @quad a b c d hquad =>
    injection hip with hbits
    have hz := hzero.symm
    unfold zeroLedQuad at hz
    simp only [Bool.or_eq_false_iff] at hz
    obtain ⟨⟨⟨ha, hb⟩, hc⟩, hd⟩ := hz
    have hta := decimal_numeral a hquad.first.ne_nil hquad.first.all ha
    have htb := decimal_numeral b hquad.second.ne_nil hquad.second.all hb
    have htc := decimal_numeral c hquad.third.ne_nil hquad.third.all hc
    have htd := decimal_numeral d hquad.fourth.ne_nil hquad.fourth.all hd
    have hla := hquad.first.lt
    have hlb := hquad.second.lt
    have hlc := hquad.third.lt
    have hld := hquad.fourth.lt
    have hn : bits.toNat = ((numeral 10 a * 256 + numeral 10 b) * 256 + numeral 10 c) * 256 + numeral 10 d := by
      rw [hbits]
      show (quadValue a b c d).toNat = _
      unfold quadValue
      rw [UInt32.toNat_ofNat', Nat.mod_eq_of_lt (by omega)]
    rw [v4Text_eq, hn]
    simp only [Nat.shiftRight_eq_div_pow]
    rw [show _ / 2 ^ 24 % 256 = numeral 10 a by omega, show _ / 2 ^ 16 % 256 = numeral 10 b by omega,
      show _ / 2 ^ 8 % 256 = numeral 10 c by omega, show _ / 2 ^ 0 % 256 = numeral 10 d by omega, hta, htb, htc, htd]
  | full => cases hip
  | short => cases hip
  | six => cases hip
  | mid => cases hip

end Rule

namespace Dns
namespace Protocol

def defaultPort : Protocol → UInt16
  | udp | tcp => 53
  | tls | quic => 853
  | https | h3 => 443

def scheme : Protocol → List Char
  | udp => "udp".toList
  | tcp => "tcp".toList
  | tls => "tls".toList
  | https => "https".toList
  | h3 => "h3".toList
  | quic => "quic".toList

def all : List Protocol := [udp, tcp, tls, https, quic, h3]

def ofScheme (scheme : List Char) : Option Protocol := all.find? fun p => p.scheme == scheme

theorem ofScheme_eq_some {scheme : List Char} {p : Protocol} (h : ofScheme scheme = some p) : scheme = p.scheme := by
  have := List.find?_some h
  exact (eq_of_beq this).symm

theorem ofScheme_scheme (p : Protocol) : ofScheme p.scheme = some p := by
  cases p <;> rfl

end Protocol
end Dns

namespace Upstream

open Dns Lib Rule
open Api (trim)

/-! ### URLs -/

inductive Host
  | domain (d : List Char)
  | ipv4 (bits : BitVec 32)
  | ipv6 (bits : BitVec 128)
deriving DecidableEq

namespace Host

def ip : Host → Option Dns.IpAddr
  | domain _ => none
  | ipv4 bits => some (.v4 bits)
  | ipv6 bits => some (.v6 bits)

def ofIp : Dns.IpAddr → Host
  | .v4 bits => ipv4 bits
  | .v6 bits => ipv6 bits

/-- A domain that is the text of an address is the address. -/
def read : Host → Host
  | domain d => (ipFromStr d).elim (domain d) ofIp
  | host => host

end Host

/-- What the accessors of a URL give. -/
structure Url where
  scheme : List Char
  host : Option Host
  port : Option UInt16
  path : List Char
  query : Option (List Char)
  fragment : Option (List Char)

/-- What the code uses of the `url` crate. -/
structure UrlCrate where
  parse : List Char → Except (List Char) Url
  /-- `Display` of a host. -/
  hostText : Host → List Char
  formParse : List Char → List (List Char × List Char)
  /-- The text of the serializer after `append_key_only` and `append_pair`. -/
  formText : List Form.Piece → List Char

/-! ### Parameters -/

abbrev Params := KeyMap (List Char) (List Char)

/-- The order of the keys. -/
def keyLe : List Char → List Char → Bool
  | [], _ => true
  | _ :: _, [] => false
  | a :: s, b :: t => if a = b then keyLe s t else a.toNat < b.toNat

/-- A value that is empty is not written. -/
def piece (e : List Char × List Char) : Form.Piece := (e.1, if e.2.isEmpty then none else some e.2)

namespace UrlCrate

variable (crate : UrlCrate)

def params (value : List Char) : Params := KeyMap.ofInserts (crate.formParse value)

/-- `Display` of the parameters, in the order of their keys. -/
def paramsText (params : Params) : List Char :=
  if params.isEmpty then []
  else crate.formText ((params.entries.insertionSort fun e e' => keyLe e.1 e'.1 = true).map piece)

end UrlCrate

/-! ### DNS URLs -/

inductive HttpsPrefer
  | auto
  | h2
  | h3
deriving DecidableEq

inductive ProtocolConfig
  | udp
  | tcp
  | tls
  | https (path : List Char) (prefer : HttpsPrefer)
  | quic
  | h3 (path : List Char) (disableGrease : Bool)
  | system
  | dhcp (interface : Option (List Char))
deriving DecidableEq

namespace ProtocolConfig

def toProtocol : ProtocolConfig → Option Protocol
  | udp => some .udp
  | tcp => some .tcp
  | tls => some .tls
  | https _ _ => some .https
  | quic => some .quic
  | h3 _ _ => some .h3
  | _ => none

def toStr : ProtocolConfig → List Char
  | udp => "udp".toList
  | tcp => "tcp".toList
  | tls => "tls".toList
  | https _ _ => "https".toList
  | quic => "quic".toList
  | h3 _ _ => "h3".toList
  | system => "system".toList
  | dhcp _ => "dhcp".toList

def defaultPort (proto : ProtocolConfig) : UInt16 := proto.toProtocol.elim 0 Protocol.defaultPort

/-- The path of an HTTP protocol. -/
def path : ProtocolConfig → Option (List Char)
  | https path _ => some path
  | h3 path _ => some path
  | _ => none

theorem toStr_of_toProtocol {proto : ProtocolConfig} {p : Protocol} (h : proto.toProtocol = some p) :
    proto.toStr = p.scheme := by
  cases proto <;> cases h <;> rfl

end ProtocolConfig

structure DnsUrl where
  name : List Char
  proto : ProtocolConfig
  host : Host
  port : Option UInt16 := none
  params : Params := KeyMap.empty
  options : Params := KeyMap.empty

namespace DnsUrl

/-- `port()`. -/
def getPort (v : DnsUrl) : UInt16 := v.port.getD v.proto.defaultPort

/-- `ip()`: the address of the host, or the pinned one. -/
def ip (v : DnsUrl) : Option Dns.IpAddr := v.host.ip.or ((v.params.get? "ip".toList).bind ipFromStr)

def setParam (v : DnsUrl) (name : String) (value : List Char) : DnsUrl :=
  { v with params := v.params.insert name.toList value }

def setIp (v : DnsUrl) (ip : Dns.IpAddr) : DnsUrl := v.setParam "ip" ip.text

/-- The address of the host is pinned by a host that takes its place. -/
def pinHost (v : DnsUrl) : DnsUrl := v.host.ip.elim v v.setIp

def setHost (v : DnsUrl) (host : List Char) : DnsUrl := { v.pinHost with host := .domain host, name := host }

def boolText (b : Bool) : List Char := if b then "true".toList else "false".toList

def setSniOn (v : DnsUrl) (value : Bool) : DnsUrl := v.setParam "sni" (boolText value)

def setSniOff (v : DnsUrl) (value : Bool) : DnsUrl := v.setParam "sni" (boolText !value)

def setSslVerify (v : DnsUrl) (verify : Bool) : DnsUrl := v.setParam "ssl_verify" (boolText verify)

end DnsUrl

inductive DnsUrlParseErr
  | parseError (err : List Char)
  | protocolNotSupport (scheme : List Char)
  | hostUnspecified

def DEFAULT_DNS_QUERY_PATH : List Char := "/dns-query".toList

/-- There is a scheme in the text. -/
def marked (s : List Char) : Bool := s.tails.any fun t => "://".toList.isPrefixOf t

def endsWithSlash (s : List Char) : Bool := s.getLast? == some '/'

def httpsPrefer (options : Params) : HttpsPrefer :=
  if options.contains "h2".toList then .h2
  else if options.contains "h3".toList then .h3
  else .auto

/-- The protocol with the path of the URL and what the options say. -/
def protocolConfig (proto : Protocol) (path : Option (List Char)) (options : Params) : ProtocolConfig :=
  match proto with
  | .udp => .udp
  | .tcp => .tcp
  | .tls => .tls
  | .https => .https (path.getD DEFAULT_DNS_QUERY_PATH) (httpsPrefer options)
  | .quic => .quic
  | .h3 => .h3 (path.getD DEFAULT_DNS_QUERY_PATH) (options.contains "disable_grease".toList)

section

variable (crate : UrlCrate)

/-- The path of a URL, if it has one. -/
def urlPath (slash : Bool) (url : Url) : Option (List Char) :=
  if url.path = [] ∨ (url.path = ['/'] ∧ slash = false) then none else some url.path

def serverName (host : Host) (params : Params) : List Char :=
  match host with
  | .domain d => d
  | _ => (params.get? "host".toList).getD (crate.hostText host)

/-- What is made of a URL with a protocol and a host. -/
def ofParts (proto : Protocol) (host : Host) (slash : Bool) (url : Url) : DnsUrl :=
  let params := crate.params (url.query.getD [])
  let options := crate.params (url.fragment.getD [])
  let v : DnsUrl :=
    { name := serverName crate host params
      proto := protocolConfig proto (urlPath slash url) options
      host, port := url.port, params, options }
  match params.get? "host".toList with
  | none => v
  | some domain => { { v with params := params.erase "host".toList }.pinHost with host := .domain domain }

def fromUrl (slash : Bool) (url : Url) : Except DnsUrlParseErr DnsUrl :=
  let host := url.host.map Host.read
  if url.scheme = "dhcp".toList then
    .ok { name := url.scheme, proto := .dhcp (host.map crate.hostText), host := .domain url.scheme }
  else
    match Protocol.ofScheme url.scheme with
    | none => .error (.protocolNotSupport url.scheme)
    | some proto => host.elim (.error .hostUnspecified) fun host => .ok (ofParts crate proto host slash url)

def fromUrlText (url : List Char) : Except DnsUrlParseErr DnsUrl :=
  match crate.parse url with
  | .error err => .error (.parseError err)
  | .ok u => fromUrl crate (endsWithSlash url) u

/-- The URL that is parsed for a trimmed text. -/
def withScheme (trimmed : List Char) : List Char := if marked trimmed then trimmed else "udp://".toList ++ trimmed

/-- `DnsUrl::from_str`. -/
def fromStr (s : List Char) : Except DnsUrlParseErr DnsUrl :=
  let trimmed := trim s
  let word := trimmed.map Char.toLower
  if word = "system".toList then .ok { name := word, proto := .system, host := .domain word }
  else if word = "dhcp".toList then .ok { name := word, proto := .dhcp none, host := .domain word }
  else fromUrlText crate (withScheme trimmed)

/-- The text of a URL with these parts. -/
def urlText (scheme host : List Char) (port : Option UInt16) (path : List Char)
    (query fragment : Option (List Char)) : List Char :=
  scheme ++ ("://".toList ++ (host ++ (port.elim [] (fun p => ':' :: IpAddr.decimal p.toNat) ++ (path ++
    (query.elim [] ('?' :: ·) ++ fragment.elim [] ('#' :: ·))))))

def shownParams (params : Params) : Option (List Char) :=
  if params.isEmpty then none else some (crate.paramsText params)

namespace DnsUrl

variable (v : DnsUrl)

/-- The port, unless it is the default. -/
def shownPort : Option UInt16 := v.port.filter (· != v.proto.defaultPort)

/-- `Display` of a DNS URL. -/
def text : List Char :=
  match v.proto with
  | .system => "system".toList
  | .dhcp none => "dhcp".toList
  | .dhcp (some interface) => "dhcp".toList ++ ("://".toList ++ interface)
  | _ => urlText v.proto.toStr (crate.hostText v.host) v.shownPort (v.proto.path.getD []) (shownParams crate v.params)
      (shownParams crate v.options)

end DnsUrl

inductive Setter
  | setIp (ip : Dns.IpAddr)
  | setHost (host : List Char)
  | setSniOn (value : Bool)
  | setSniOff (value : Bool)
  | setSslVerify (verify : Bool)

def Setter.apply (v : DnsUrl) : Setter → DnsUrl
  | setIp ip => v.setIp ip
  | setHost host => v.setHost host
  | setSniOn value => v.setSniOn value
  | setSniOff value => v.setSniOff value
  | setSslVerify verify => v.setSslVerify verify

/-- The values that are parsed from a text and changed by the setters. -/
inductive Reached : DnsUrl → Prop
  | parsed {s : List Char} {v : DnsUrl} (h : fromStr crate s = .ok v) : Reached v
  | set {v : DnsUrl} (h : Reached v) (setter : Setter) : Reached (setter.apply v)

end

/-! ### What is parsed -/

section

variable {crate : UrlCrate}

theorem fromUrl_eq_ok {slash : Bool} {url : Url} {v : DnsUrl} (h : fromUrl crate slash url = .ok v) :
    (url.scheme = "dhcp".toList ∧ v =
      { name := url.scheme
        proto := .dhcp ((url.host.map Host.read).map crate.hostText)
        host := .domain url.scheme }) ∨
    ∃ proto : Protocol, ∃ host, url.scheme = proto.scheme ∧ url.host = some host ∧
      v = ofParts crate proto host.read slash url := by
  unfold fromUrl at h
  dsimp only at h
  by_cases hdhcp : url.scheme = "dhcp".toList
  · rw [if_pos hdhcp] at h
    exact .inl ⟨hdhcp, (Except.ok.inj h).symm⟩
  · rw [if_neg hdhcp] at h
    cases hproto : Protocol.ofScheme url.scheme with
    | none =>
      rw [hproto] at h
      cases h
    | some proto =>
      rw [hproto] at h
      cases hhost : url.host with
      | none =>
        rw [hhost] at h
        cases h
      | some host =>
        rw [hhost] at h
        exact .inr ⟨proto, host, Protocol.ofScheme_eq_some hproto, rfl, (Except.ok.inj h).symm⟩

theorem fromUrl_of_proto {url : Url} {proto : Protocol} {host : Host} (hscheme : url.scheme = proto.scheme)
    (hhost : url.host = some host) (slash : Bool) :
    fromUrl crate slash url = .ok (ofParts crate proto host.read slash url) := by
  have hdhcp : url.scheme ≠ "dhcp".toList := by
    rw [hscheme]
    cases proto <;> decide
  have hproto : Protocol.ofScheme url.scheme = some proto := by rw [hscheme, Protocol.ofScheme_scheme]
  unfold fromUrl
  dsimp only
  rw [if_neg hdhcp, hproto, hhost]
  rfl

theorem fromUrlText_eq_ok {t : List Char} {v : DnsUrl} (h : fromUrlText crate t = .ok v) :
    ∃ url, crate.parse t = .ok url ∧ fromUrl crate (endsWithSlash t) url = .ok v := by
  unfold fromUrlText at h
  cases hparse : crate.parse t with
  | error err =>
    rw [hparse] at h
    cases h
  | ok url =>
    rw [hparse] at h
    exact ⟨url, rfl, h⟩

/-- A parsed value is one of the two words or made of a URL. -/
theorem fromStr_eq_ok {s : List Char} {v : DnsUrl} (h : fromStr crate s = .ok v) :
    v = { name := "system".toList, proto := .system, host := .domain "system".toList } ∨
    v = { name := "dhcp".toList, proto := .dhcp none, host := .domain "dhcp".toList } ∨
    ∃ url, crate.parse (withScheme (trim s)) = .ok url ∧
      fromUrl crate (endsWithSlash (withScheme (trim s))) url = .ok v := by
  unfold fromStr at h
  dsimp only at h
  by_cases hsystem : (trim s).map Char.toLower = "system".toList
  · rw [if_pos hsystem, hsystem] at h
    exact .inl (Except.ok.inj h).symm
  · rw [if_neg hsystem] at h
    by_cases hdhcp : (trim s).map Char.toLower = "dhcp".toList
    · rw [if_pos hdhcp, hdhcp] at h
      exact .inr (.inl (Except.ok.inj h).symm)
    · rw [if_neg hdhcp] at h
      exact .inr (.inr (fromUrlText_eq_ok h))

theorem marked_append (s t : List Char) : marked (s ++ ("://".toList ++ t)) = true := by
  have hsuffix : "://".toList ++ t ∈ (s ++ ("://".toList ++ t)).tails :=
    (List.mem_tails _ _).mpr (List.suffix_append _ _)
  exact List.any_eq_true.mpr ⟨_, hsuffix, List.isPrefixOf_iff_prefix.mpr (List.prefix_append _ _)⟩

/-- A text with a scheme and nothing to trim is parsed as it stands. -/
theorem fromStr_of_marked {s t : List Char} {url : Url}
    (htrim : trim (s ++ ("://".toList ++ t)) = s ++ ("://".toList ++ t))
    (hparse : crate.parse (s ++ ("://".toList ++ t)) = .ok url) :
    fromStr crate (s ++ ("://".toList ++ t)) = fromUrl crate (endsWithSlash (s ++ ("://".toList ++ t))) url := by
  have hcolon : ':' ∈ (s ++ ("://".toList ++ t)).map Char.toLower :=
    List.mem_map.mpr ⟨':', List.mem_append_right _ (List.mem_append_left _ (by decide)), by decide⟩
  have hsystem : (s ++ ("://".toList ++ t)).map Char.toLower ≠ "system".toList := by
    intro h
    rw [h] at hcolon
    exact absurd hcolon (by decide)
  have hdhcp : (s ++ ("://".toList ++ t)).map Char.toLower ≠ "dhcp".toList := by
    intro h
    rw [h] at hcolon
    exact absurd hcolon (by decide)
  unfold fromStr
  dsimp only
  rw [htrim, if_neg hsystem, if_neg hdhcp, withScheme, if_pos (marked_append s t), fromUrlText, hparse]

/-! ### The parts of a parsed value -/

@[simp] theorem DnsUrl.pinHost_proto (v : DnsUrl) : v.pinHost.proto = v.proto := by
  unfold DnsUrl.pinHost
  cases v.host.ip <;> rfl

@[simp] theorem DnsUrl.pinHost_port (v : DnsUrl) : v.pinHost.port = v.port := by
  unfold DnsUrl.pinHost
  cases v.host.ip <;> rfl

@[simp] theorem DnsUrl.pinHost_options (v : DnsUrl) : v.pinHost.options = v.options := by
  unfold DnsUrl.pinHost
  cases v.host.ip <;> rfl

theorem DnsUrl.setParam_host (v : DnsUrl) {name : String} (h : name ≠ "host") (value : List Char) :
    (v.setParam name value).params.get? "host".toList = v.params.get? "host".toList := by
  have hne : ¬ (name.toList == "host".toList) = true := fun heq => h (String.toList_inj.mp (eq_of_beq heq))
  exact KeyMap.get?_insert_of_not_beq _ hne _

theorem DnsUrl.pinHost_host (v : DnsUrl) :
    v.pinHost.params.get? "host".toList = v.params.get? "host".toList := by
  unfold DnsUrl.pinHost
  cases v.host.ip with
  | none => rfl
  | some ip => exact v.setParam_host (by decide) _

variable {proto : Protocol} {host : Host} {slash : Bool} {url : Url}

theorem ofParts_proto : (ofParts crate proto host slash url).proto =
    protocolConfig proto (urlPath slash url) (crate.params (url.fragment.getD [])) := by
  unfold ofParts
  dsimp only
  split
  · rfl
  · exact DnsUrl.pinHost_proto _

theorem ofParts_port : (ofParts crate proto host slash url).port = url.port := by
  unfold ofParts
  dsimp only
  split
  · rfl
  · exact DnsUrl.pinHost_port _

theorem ofParts_options : (ofParts crate proto host slash url).options = crate.params (url.fragment.getD []) := by
  unfold ofParts
  dsimp only
  split
  · rfl
  · exact DnsUrl.pinHost_options _

/-- Without the parameter the host is the one of the URL. -/
theorem ofParts_of_none (h : (crate.params (url.query.getD [])).get? "host".toList = none) :
    (ofParts crate proto host slash url).host = host ∧
      (ofParts crate proto host slash url).params = crate.params (url.query.getD []) := by
  unfold ofParts
  dsimp only
  rw [h]
  exact ⟨rfl, rfl⟩

/-- The parameter does not stay. -/
theorem ofParts_noHost : (ofParts crate proto host slash url).params.get? "host".toList = none := by
  cases h : (crate.params (url.query.getD [])).get? "host".toList with
  | none =>
    rw [(ofParts_of_none h).2]
    exact h
  | some domain =>
    unfold ofParts
    dsimp only
    rw [h]
    exact (DnsUrl.pinHost_host _).trans (KeyMap.get?_erase_of_beq _ BEq.rfl)

theorem toProtocol_protocolConfig (proto : Protocol) (path : Option (List Char)) (options : Params) :
    (protocolConfig proto path options).toProtocol = some proto := by
  cases proto <;> rfl

theorem toProtocol_ofParts : (ofParts crate proto host slash url).proto.toProtocol = some proto := by
  rw [ofParts_proto, toProtocol_protocolConfig]

end

/-! ### What stays -/

namespace UrlCrate

variable (crate : UrlCrate)

/-- Some URL with the scheme has the host. -/
def GivesHost (scheme : List Char) (host : Host) : Prop :=
  ∃ s url, crate.parse s = .ok url ∧ url.scheme = scheme ∧ url.host = some host

/-- Some URL with the scheme and a host has the path. -/
def GivesPath (scheme path : List Char) : Prop :=
  ∃ s url, crate.parse s = .ok url ∧ url.scheme = scheme ∧ url.host.isSome = true ∧ url.path = path

end UrlCrate

/-- The protocol is that of a URL that was parsed, the options are its options, and the parameter `host` is
not there. -/
structure DnsUrl.Kept (crate : UrlCrate) (v : DnsUrl) : Prop where
  noHost : v.params.get? "host".toList = none
  proto : ∀ proto, v.proto.toProtocol = some proto → ∃ path, v.proto = protocolConfig proto path v.options ∧
    ∀ p, path = some p → p ≠ [] ∧ crate.GivesPath proto.scheme p
  noPort : v.proto.toProtocol = none → v.port = none
  interface : ∀ i, v.proto = .dhcp (some i) → ∃ host : Host, crate.GivesHost "dhcp".toList host ∧
    i = crate.hostText host.read

section

variable {crate : UrlCrate}

theorem givesPath_of_urlPath {s : List Char} {url : Url} {scheme : List Char} {slash : Bool}
    (hparse : crate.parse s = .ok url) (hscheme : url.scheme = scheme) (hhost : url.host.isSome = true)
    {p : List Char} (hp : urlPath slash url = some p) : p ≠ [] ∧ crate.GivesPath scheme p := by
  unfold urlPath at hp
  by_cases hnone : url.path = [] ∨ (url.path = ['/'] ∧ slash = false)
  · rw [if_pos hnone] at hp
    cases hp
  · rw [if_neg hnone] at hp
    obtain rfl := Option.some.inj hp
    exact ⟨fun h => hnone (.inl h), s, url, hparse, hscheme, hhost, rfl⟩

theorem kept_of_parsed {s : List Char} {v : DnsUrl} (h : fromStr crate s = .ok v) : v.Kept crate := by
  rcases fromStr_eq_ok h with rfl | rfl | ⟨url, hparse, hurl⟩
  · exact
      { noHost := rfl
        proto := fun _ h => by cases h
        noPort := fun _ => rfl
        interface := fun _ h => by cases h }
  · exact
      { noHost := rfl
        proto := fun _ h => by cases h
        noPort := fun _ => rfl
        interface := fun _ h => by cases h }
  · rcases fromUrl_eq_ok hurl with ⟨hdhcp, rfl⟩ | ⟨proto, host, hscheme, hhost, rfl⟩
    · refine
        { noHost := rfl
          proto := fun _ h => by cases h
          noPort := fun _ => rfl
          interface := fun i hi => ?_ }
      cases hhost : url.host with
      | none =>
        rw [hhost] at hi
        cases hi
      | some host =>
        rw [hhost] at hi
        injection hi with hi
        exact ⟨host, ⟨_, url, hparse, hdhcp, hhost⟩, (Option.some.inj hi).symm⟩
    · refine
        { noHost := ofParts_noHost
          proto := fun proto' hproto' => ?_
          noPort := fun hnone => ?_
          interface := fun i hi => ?_ }
      · rw [toProtocol_ofParts] at hproto'
        obtain rfl := Option.some.inj hproto'
        rw [ofParts_proto, ofParts_options]
        exact ⟨_, rfl, fun p hp => givesPath_of_urlPath hparse hscheme (by rw [hhost]; rfl) hp⟩
      · rw [toProtocol_ofParts] at hnone
        cases hnone
      · have hdhcp := congrArg ProtocolConfig.toProtocol hi
        rw [toProtocol_ofParts] at hdhcp
        cases hdhcp

/-- A setter changes parameters other than `host`, and the host. -/
theorem Setter.frame (v : DnsUrl) (setter : Setter) : (setter.apply v).proto = v.proto ∧
    (setter.apply v).port = v.port ∧ (setter.apply v).options = v.options ∧
    (setter.apply v).params.get? "host".toList = v.params.get? "host".toList := by
  cases setter with
  | setIp ip => exact ⟨rfl, rfl, rfl, v.setParam_host (by decide) _⟩
  | setHost host => exact ⟨v.pinHost_proto, v.pinHost_port, v.pinHost_options, v.pinHost_host⟩
  | setSniOn value => exact ⟨rfl, rfl, rfl, v.setParam_host (by decide) _⟩
  | setSniOff value => exact ⟨rfl, rfl, rfl, v.setParam_host (by decide) _⟩
  | setSslVerify verify => exact ⟨rfl, rfl, rfl, v.setParam_host (by decide) _⟩

theorem DnsUrl.Kept.set {v : DnsUrl} (h : v.Kept crate) (setter : Setter) : (setter.apply v).Kept crate := by
  obtain ⟨hproto, hport, hoptions, hhost⟩ := setter.frame v
  exact
    { noHost := hhost.trans h.noHost
      proto := by
        rw [hproto, hoptions]
        exact h.proto
      noPort := by
        rw [hproto, hport]
        exact h.noPort
      interface := by
        rw [hproto]
        exact h.interface }

/-- **Parsing and the setters keep what was made of the URL.** -/
theorem kept_of_reached {v : DnsUrl} (h : Reached crate v) : v.Kept crate := by
  induction h with
  | parsed h => exact kept_of_parsed h
  | set _ setter ih => exact ih.set setter

end

end Upstream
end SmartDns
