/-
# Answers from local data

The middlewares between DNS64 and the address rules answer from what the server knows by
itself: the hosts files (`dns_mw_hosts.rs`), the lease file (`dns_mw_dnsmasq.rs`), and the
zones (`dns_mw_zone.rs`) of its own names, of private addresses, of its identity and of the
SRV and HTTPS rules. What one of them answers all has one TTL (`LocalSource.ttl`), which
for a hosts entry is a day, whatever the configuration says.

Key definitions: `hostsAnswer`, `leaseAnswer`, `zoneAnswer`, `localAnswer`, `localMiddleware`.
Key theorem: `records_of_localAnswer`.
-/
import SmartDns.Dns.Address
import SmartDns.Dns.Arpa
import SmartDns.Dns.NameText
import SmartDns.Server.Config
import SmartDns.Server.Reply

namespace SmartDns
namespace Server

open Dns Lib

def unlessEmpty {α : Type} (l : List α) : Option (List α) := if l.isEmpty then none else some l

section

variable (cfg : RuntimeConfig) (now : ℤ) (serial : ℕ)

/-! ### Hosts files -/

/-- The addresses of the host, of the type asked. -/
def hostAddresses (name : Name) (queryType : RecordType) : List Record :=
  (cfg.hosts.filter fun e => e.1 == name && decide (e.2.recordType = queryType)).map fun e =>
    ⟨e.1, .IN, MAX_TTL, .ofIpAddr e.2⟩

/-- The hosts that have the address. -/
def hostNames (name : Name) : List Record :=
  match name.parseArpaName with
  | some (ip, _) => ((cfg.hosts.filter (·.2 = ip)).map (·.1)).eraseDups.map fun n => ⟨name, .IN, MAX_TTL, .other .PTR n.wire⟩
  | none => []

def lookupStaticHost (query : Query) : Option (List Record × ℤ) :=
  let name := query.name.setFqdn true
  if query.queryType.isIpAddr then (unlessEmpty (hostAddresses cfg name query.queryType)).map (·, cfg.hostsValidUntil)
  else if query.queryType = .PTR then (unlessEmpty (hostNames cfg name)).map (·, now + fromSecs MAX_TTL)
  else none

/-- The query with the root dot put on or taken off. -/
def toggledQuery (query : Query) : Query :=
  { name := query.name.setFqdn !query.name.isFqdn, queryType := query.queryType, queryClass := .IN }

def hostsAnswer (req : DnsRequest) : Option DnsResponse :=
  let query := req.original
  if query.queryType.isIpAddr || decide (query.queryType = .PTR) && cfg.expandPtrFromAddress then
    ((lookupStaticHost cfg now query).or (lookupStaticHost cfg now (toggledQuery query))).map fun (records, validUntil) =>
      .newWithDeadline query records validUntil
  else none

/-! ### Leases -/

/-- A device that is known, but not by an address of the type asked, has an SOA record for its answer. -/
def leaseAnswer (ctx : ChainContext) (req : DnsRequest) : Option DnsResponse :=
  (cfg.leases req.name req.query.queryType).map fun rdatas =>
    let localTtl := ctx.localTtl cfg
    let records := rdatas.map fun d => ⟨req.original.name, .IN, asU32 localTtl.toNat, d⟩
    let lookup := DnsResponse.newWithDeadline req.original records (now + fromSecs localTtl.toNat)
    if records.isEmpty then lookup.addAuthority ⟨.root, .IN, asU32 localTtl.toNat, .defaultSoa serial⟩ else lookup

/-! ### The server's own names, and private addresses -/

def ownNames : List Name :=
  [.ofLabels [[115, 109, 97, 114, 116, 100, 110, 115]], .ofLabels [[119, 104, 111, 97, 109, 105]]]

def isPrivateV4 (bits : BitVec 32) : Bool :=
  let n := bits.toNat
  n / 2 ^ 24 = 10 || n / 2 ^ 20 = 172 * 16 + 1 || n / 2 ^ 16 = 192 * 256 + 168 ||
    n / 2 ^ 24 = 127 || n / 2 ^ 16 = 169 * 256 + 254 || n = 0 || n = 2 ^ 32 - 1 ||
    -- 100.64.0.0/10
    n / 2 ^ 22 = 100 * 4 + 1

def isPrivate : IpAddr → Bool
  | .v4 bits => isPrivateV4 bits
  | .v6 bits =>
    match IpAddr.toIpv4Mapped bits with
    | some bits => isPrivateV4 bits
    -- `::1`, `fe80::/10` and `fc00::/7`
    | none => bits.toNat = 1 || bits.toNat / 2 ^ 118 = 0x3fa || bits.toNat / 2 ^ 121 = 0x7e

/-- `LocalPtrZoneProvider`: what becomes of a PTR query. -/
inductive LocalPtr
  | ownName
  | privateAddress

def localPtr (req : DnsRequest) : Option LocalPtr :=
  if req.query.queryType = .PTR then
    if ownNames.any fun n => n.cmp req.name = .eq then some .ownName
    else if req.name.parseArpaName.any fun net => isPrivate net.1 then some .privateAddress
    else none
  else none

def localPtrResponse (req : DnsRequest) : LocalPtr → DnsResponse
  | .ownName => .fromRdata now req.original (.other .PTR cfg.serverName.wire)
  | .privateAddress =>
    { message :=
        { responseCode := .nxDomain
          queries := [req.original]
          authorities := [⟨.root, .IN, 3600, .defaultSoa serial⟩] }
      validUntil := now }

/-! ### Identity -/

inductive CanonicalIdentityQuery
  | ServerName
  | ServerVersion
  | ClientIp
  | ClientMac
  | WhoAmIRecords
  | WhoAmIJson
  | ServerRecords
  | ServerJson

def translateQueryName (name : String) : Option CanonicalIdentityQuery :=
  if name = "server-name." ∨ name = "hostname.bind." then some .ServerName
  else if name = "version." ∨ name = "version.bind." then some .ServerVersion
  else if name = "client_ip." ∨ name = "client-ip." then some .ClientIp
  else if name = "client_mac." ∨ name = "client-mac." then some .ClientMac
  else if name = "whoami." then some .WhoAmIRecords
  else if name = "whoami.json." then some .WhoAmIJson
  else if name = "smartdns." ∨ name = "id.server." then some .ServerRecords
  else if name = "smartdns.json." then some .ServerJson
  else none

def normalizeQueryName (name : Name) : String :=
  String.ofList ((nameText cfg.crates.toUnicode (name.setFqdn true)).map Char.toLower)

def trimFqdnDot (text : List Char) : List Char := (text.reverse.dropWhile (· = '.')).reverse

/-- The seconds an identity record may be kept. -/
def IDENTITY_TXT_TTL : ℕ := 60

/-- The texts of the records. -/
def identityTexts (arp : ArpTable) (src : IpAddr) (q : CanonicalIdentityQuery) : List String :=
  let serverName := String.ofList (trimFqdnDot (nameText cfg.crates.toUnicode cfg.serverName))
  let clientIp := String.ofList src.toCanonical.text
  let clientMac := (arp.lookup src.toCanonical).getD "N/A"
  let server := [("server_name", serverName), ("server_version", cfg.crates.buildVersion)]
  let info := server ++ [("client_ip", clientIp), ("client_mac", clientMac)]
  let lines (fields : List (String × String)) := fields.map fun f => f.1 ++ "=" ++ f.2
  match q with
  | .ServerName => [serverName]
  | .ServerVersion => [cfg.crates.buildVersion]
  | .ClientIp => [clientIp]
  | .ClientMac => [clientMac]
  | .WhoAmIRecords => lines info
  | .WhoAmIJson => [cfg.crates.json info]
  | .ServerRecords => lines server
  | .ServerJson => [cfg.crates.json server]

def identityQuery (req : DnsRequest) : Option CanonicalIdentityQuery :=
  if req.query.queryType = .TXT ∧ req.query.queryClass = .CH then translateQueryName (normalizeQueryName cfg req.query.name)
  else none

/-- A text record has the class of the query. -/
def identityResponse (arp : ArpTable) (req : DnsRequest) (q : CanonicalIdentityQuery) : DnsResponse :=
  .newWithMaxTtl now req.original ((identityTexts cfg arp req.src q).map fun text =>
    ⟨req.original.name, req.original.queryClass, IDENTITY_TXT_TTL, .other .TXT (UInt8.ofNat (utf8 text).length :: utf8 text)⟩)

/-! ### SRV and HTTPS rules -/

def srvData (srv : Rule.Srv) : RData :=
  .other .SRV (toBe 2 srv.priority.toNat ++ toBe 2 srv.weight.toNat ++ toBe 2 srv.port.toNat ++ srv.target.wire)

def httpsData (https : Rule.Https) : RData :=
  .other .HTTPS (toBe 2 https.svcPriority.toNat ++ https.targetName.wire ++
    https.svcParams.flatMap fun p => toBe 2 p.1.toNat ++ toBe 2 p.2.length ++ p.2)

/-- What an SRV or HTTPS rule answers by itself. -/
def ruleData (ctx : ChainContext) (req : DnsRequest) : Option RData :=
  if req.query.queryType = .SRV then (ruleGet ctx.domainRule (·.srv)).map srvData
  else if req.query.queryType = .HTTPS then
    match ruleGet ctx.domainRule (·.https) with
    | some .soa => some (.defaultSoa serial)
    | some (.recordData https) => some (httpsData https)
    | _ => none
  else none

/-- The address hints are the parameters 4 and 6. -/
def dropHints (noIpv4Hint noIpv6Hint : Bool) (https : Rule.Https) : Rule.Https :=
  { https with svcParams := https.svcParams.filter fun p =>
      if p.1 = 4 then !noIpv4Hint else if p.1 = 6 then !noIpv6Hint else true }

def withoutHints (noIpv4Hint noIpv6Hint : Bool) (r : Record) : Record :=
  match r.data with
  | .other .HTTPS value =>
    { r with data := ((cfg.crates.readHttps value).map fun https =>
        httpsData (dropHints noIpv4Hint noIpv6Hint https)).getD r.data }
  | _ => r

/-- What an HTTPS rule takes away from what the rest of the chain answers. -/
def hintsFiltered (ctx : ChainContext) (req : DnsRequest) (lookup : DnsResponse) : DnsResponse :=
  match req.query.queryType, ruleGet ctx.domainRule (·.https) with
  | .HTTPS, some (.filter noIpv4Hint noIpv6Hint) =>
    { lookup with message := { lookup.message with
        answers := lookup.message.answers.map (withoutHints cfg noIpv4Hint noIpv6Hint) } }
  | _, _ => lookup

/-! ### The middlewares -/

/-- Where a local answer is from. -/
inductive LocalSource
  | hosts
  | lease
  | ptr (ptr : LocalPtr)
  | identity
  | rule

/-- `DnsZoneMiddleware`, as far as it asks nobody. -/
def zoneAnswer (arp : ArpTable) (ctx : ChainContext) (req : DnsRequest) : Option (LocalSource × DnsResponse) :=
  ((localPtr req).map fun ptr => (.ptr ptr, localPtrResponse cfg now serial req ptr)) <|>
    ((identityQuery cfg req).map fun q => (.identity, identityResponse cfg now arp req q)) <|>
    (ruleData serial ctx req).map fun data => (.rule, .fromRdata now req.original data)

/-- The hosts files come first, then the leases, then the zones. -/
def localAnswer (arp : ArpTable) (ctx : ChainContext) (req : DnsRequest) : Option (LocalSource × DnsResponse) :=
  (hostsAnswer cfg now req).map (.hosts, ·) <|>
    (leaseAnswer cfg now serial ctx req).map (.lease, ·) <|>
    zoneAnswer cfg now serial arp ctx req

def localMiddleware {S : Type} (arp : ArpTable) (next : Next S) : Next S := fun ctx req s =>
  match localAnswer cfg now serial arp ctx req with
  | some (_, lookup) => (.ok lookup, s)
  | none =>
    let (res, s) := next ctx req s
    (res.map (hintsFiltered cfg ctx req), s)

end

/-! ### What they answer -/

/-- The TTL of all that the source answers. -/
def LocalSource.ttl (cfg : RuntimeConfig) (ctx : ChainContext) : LocalSource → ℕ
  | .hosts => MAX_TTL
  | .lease => asU32 (ctx.localTtl cfg).toNat
  | .ptr .ownName => MAX_TTL
  | .ptr .privateAddress => 3600
  | .identity => IDENTITY_TXT_TTL
  | .rule => MAX_TTL

/-- Some records, of one TTL, for the question asked. -/
structure OneTtl (req : DnsRequest) (ttl : ℕ) (lookup : DnsResponse) : Prop where
  queries : lookup.message.queries = [req.original]
  notTruncated : lookup.message.truncated = false
  unmarked : lookup.aaaaSuppressed = false
  nonempty : lookup.message.records ≠ []
  ttl : ∀ r ∈ lookup.message.records, r.ttl = ttl

section

variable {cfg : RuntimeConfig} {now : ℤ} {serial : ℕ} {arp : ArpTable} {ctx : ChainContext} {req : DnsRequest}

theorem unlessEmpty_eq_some {α : Type} {l l' : List α} (h : unlessEmpty l = some l') : l' = l ∧ l' ≠ [] := by
  unfold unlessEmpty at h
  split at h
  · cases h
  · rename_i hne
    obtain rfl := Option.some.inj h
    exact ⟨rfl, by simpa using hne⟩

/-- A response with answers only. -/
theorem OneTtl.ofAnswers {ttl : ℕ} {records : List Record} {validUntil : ℤ} (hne : records ≠ [])
    (h : ∀ r ∈ records, r.ttl = ttl) : OneTtl req ttl (.newWithDeadline req.original records validUntil) where
  queries := rfl
  notTruncated := rfl
  unmarked := rfl
  nonempty := by simpa [DnsResponse.newWithDeadline, Message.records] using hne
  ttl := by simpa [DnsResponse.newWithDeadline, Message.records] using h

theorem lookupStaticHost_ttl {query : Query} {records : List Record} {validUntil : ℤ}
    (h : lookupStaticHost cfg now query = some (records, validUntil)) :
    records ≠ [] ∧ ∀ r ∈ records, r.ttl = MAX_TTL := by
  unfold lookupStaticHost at h
  split at h
  · obtain ⟨l, hl, hp⟩ := Option.map_eq_some_iff.mp h
    obtain ⟨rfl, hne⟩ := unlessEmpty_eq_some hl
    obtain ⟨rfl, -⟩ := Prod.mk.inj hp
    refine ⟨hne, fun r hr => ?_⟩
    obtain ⟨e, -, rfl⟩ := List.mem_map.mp hr
    rfl
  · split at h
    · obtain ⟨l, hl, hp⟩ := Option.map_eq_some_iff.mp h
      obtain ⟨rfl, hne⟩ := unlessEmpty_eq_some hl
      obtain ⟨rfl, -⟩ := Prod.mk.inj hp
      refine ⟨hne, fun r hr => ?_⟩
      unfold hostNames at hr
      split at hr
      · obtain ⟨n, -, rfl⟩ := List.mem_map.mp hr
        rfl
      · cases hr
    · cases h

theorem hostsAnswer_oneTtl {lookup : DnsResponse} (h : hostsAnswer cfg now req = some lookup) :
    OneTtl req MAX_TTL lookup := by
  unfold hostsAnswer at h
  dsimp only at h
  split at h
  · obtain ⟨⟨records, validUntil⟩, hr, rfl⟩ := Option.map_eq_some_iff.mp h
    have hfound : ∃ query, lookupStaticHost cfg now query = some (records, validUntil) := by
      rcases Option.or_eq_some_iff.mp hr with h1 | ⟨-, h2⟩
      · exact ⟨_, h1⟩
      · exact ⟨_, h2⟩
    obtain ⟨query, hq⟩ := hfound
    have ⟨hne, httl⟩ := lookupStaticHost_ttl hq
    exact .ofAnswers hne httl
  · cases h

theorem leaseAnswer_oneTtl {lookup : DnsResponse} (h : leaseAnswer cfg now serial ctx req = some lookup) :
    OneTtl req (asU32 (ctx.localTtl cfg).toNat) lookup := by
  obtain ⟨rdatas, -, rfl⟩ := Option.map_eq_some_iff.mp h
  cases rdatas with
  | nil => exact ⟨rfl, rfl, rfl, by simp [DnsResponse.newWithDeadline, DnsResponse.addAuthority, Message.records],
      by simp [DnsResponse.newWithDeadline, DnsResponse.addAuthority, Message.records]⟩
  | cons d ds =>
    refine .ofAnswers (by simp) fun r hr => ?_
    obtain ⟨d, -, rfl⟩ := List.mem_map.mp hr
    rfl

theorem localPtrResponse_oneTtl (ptr : LocalPtr) :
    OneTtl req ((LocalSource.ptr ptr).ttl cfg ctx) (localPtrResponse cfg now serial req ptr) := by
  cases ptr with
  | ownName => exact ⟨rfl, rfl, rfl, by simp [localPtrResponse, DnsResponse.fromRdata, DnsResponse.newWithMaxTtl, Message.records],
      by simp [localPtrResponse, DnsResponse.fromRdata, DnsResponse.newWithMaxTtl, Message.records, LocalSource.ttl]⟩
  | privateAddress => exact ⟨rfl, rfl, rfl, by simp [localPtrResponse, Message.records],
      by simp [localPtrResponse, Message.records, LocalSource.ttl]⟩

theorem identityTexts_ne_nil (src : IpAddr) (q : CanonicalIdentityQuery) : identityTexts cfg arp src q ≠ [] := by
  cases q <;> simp [identityTexts]

theorem identityResponse_oneTtl (q : CanonicalIdentityQuery) :
    OneTtl req IDENTITY_TXT_TTL (identityResponse cfg now arp req q) := by
  refine .ofAnswers (by simpa using identityTexts_ne_nil req.src q) fun r hr => ?_
  obtain ⟨text, -, rfl⟩ := List.mem_map.mp hr
  rfl

theorem fromRdata_oneTtl (data : RData) : OneTtl req MAX_TTL (.fromRdata now req.original data) :=
  .ofAnswers (by simp) (by simp)

theorem orElse_eq_some {α : Type} {a b : Option α} {x : α} (h : (a <|> b) = some x) : a = some x ∨ b = some x := by
  cases a with
  | none => exact .inr h
  | some y => exact .inl h

/-- **What is answered from local data has the TTL of its source.** -/
theorem records_of_localAnswer {source : LocalSource} {lookup : DnsResponse}
    (h : localAnswer cfg now serial arp ctx req = some (source, lookup)) : OneTtl req (source.ttl cfg ctx) lookup := by
  rcases orElse_eq_some h with h | h
  · obtain ⟨l, hl, hp⟩ := Option.map_eq_some_iff.mp h
    obtain ⟨rfl, rfl⟩ := Prod.mk.inj hp
    exact hostsAnswer_oneTtl hl
  rcases orElse_eq_some h with h | h
  · obtain ⟨l, hl, hp⟩ := Option.map_eq_some_iff.mp h
    obtain ⟨rfl, rfl⟩ := Prod.mk.inj hp
    exact leaseAnswer_oneTtl hl
  rcases orElse_eq_some h with h | h
  · obtain ⟨ptr, -, hp⟩ := Option.map_eq_some_iff.mp h
    obtain ⟨rfl, rfl⟩ := Prod.mk.inj hp
    exact localPtrResponse_oneTtl ptr
  rcases orElse_eq_some h with h | h
  · obtain ⟨q, -, hp⟩ := Option.map_eq_some_iff.mp h
    obtain ⟨rfl, rfl⟩ := Prod.mk.inj hp
    exact identityResponse_oneTtl q
  · obtain ⟨data, -, hp⟩ := Option.map_eq_some_iff.mp h
    obtain ⟨rfl, rfl⟩ := Prod.mk.inj hp
    exact fromRdata_oneTtl data

/-- An HTTPS rule that takes hints away changes the data of the answers only. -/
theorem hintsFiltered_eq (lookup : DnsResponse) : ∃ f : Record → Record, (∀ r, (f r).ttl = r.ttl) ∧
    hintsFiltered cfg ctx req lookup =
      { lookup with message := { lookup.message with answers := lookup.message.answers.map f } } := by
  unfold hintsFiltered
  split
  · refine ⟨_, fun r => ?_, rfl⟩
    unfold withoutHints
    split <;> rfl
  · exact ⟨id, fun r => rfl, by rw [List.map_id]⟩

end

end Server
end SmartDns
