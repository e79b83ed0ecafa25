/-
# Aliases and DNS64

The three middlewares that rebuild what the rest of the chain answers: `force-no-CNAME`
(`dns_mw_force_no_cname.rs`), the CNAME rules (`dns_mw_cname.rs`) and DNS64
(`dns_mw_dns64.rs`). All of them stand before the address middleware, so that what they
add is not brought within `rr-ttl-reply-max`.

Key definitions: `flattenCname`, `stripCname`, `cnameMiddleware`, `toDns64`,
`dns64Middleware`.
-/
import SmartDns.Dns.Address
import SmartDns.Dns.Arpa
import SmartDns.Dns.NameText
import SmartDns.Server.Config
import SmartDns.Server.Reply

namespace SmartDns
namespace Server

open Dns Lib

/-! ### Answers without aliases -/

def isTarget (queryType : RecordType) (r : Record) : Bool := r.recordType = queryType

/-- The least TTL of the answers. -/
def realMinTtl (lookup : DnsResponse) : ℕ := ((lookup.message.answers.map (·.ttl)).min?).getD 60

/-- The record under the name asked; a name that is the same up to case stays as it is. -/
def ownedBy (name : Name) (ttl : ℕ) (r : Record) : Record := { r with name := if r.name == name then r.name else name, ttl }

/-- `flatten_cname` of the cache middleware. -/
def flattenCname (query : Query) (lookup : DnsResponse) : DnsResponse :=
  if query.queryType.isIpAddr && lookup.message.answers.any (isTarget query.queryType) then
    { lookup with message := { lookup.message with
        answers := (lookup.message.answers.filter (isTarget query.queryType)).map (ownedBy query.name (realMinTtl lookup)) } }
  else lookup

/-- Aliases are taken out of an answer that would not become empty. -/
def stripCname (query : Query) (lookup : DnsResponse) : DnsResponse :=
  if !lookup.message.answers.any (isTarget .CNAME) then lookup
  else if query.queryType.isIpAddr then
    if !lookup.message.answers.any (isTarget query.queryType) then lookup
    else
      { lookup with message := { lookup.message with
          answers := (lookup.message.answers.filter (isTarget query.queryType)).map
            (ownedBy query.name (realMinTtl lookup)) } }
  else if (lookup.message.answers.filter fun r => !isTarget .CNAME r).isEmpty then lookup
  else
    { lookup with message := { lookup.message with
        answers := lookup.message.answers.filter fun r => !isTarget .CNAME r } }

/-- For addresses the two middlewares do the same to an answer with an alias. -/
theorem stripCname_eq (query : Query) (lookup : DnsResponse) : stripCname query lookup =
    if !lookup.message.answers.any (isTarget .CNAME) then lookup
    else if query.queryType.isIpAddr then flattenCname query lookup
    else if (lookup.message.answers.filter fun r => !isTarget .CNAME r).isEmpty then lookup
    else
      { lookup with message := { lookup.message with
          answers := lookup.message.answers.filter fun r => !isTarget .CNAME r } } := by
  unfold stripCname flattenCname
  by_cases hip : query.queryType.isIpAddr = true
  · cases hany : lookup.message.answers.any (isTarget query.queryType) <;> simp [hip]
  · simp only [hip, Bool.false_eq_true, if_false]

section

variable (cfg : RuntimeConfig) (now : ℤ)

def forceNoCnameMiddleware {S : Type} (next : Next S) : Next S := fun ctx req s =>
  let (res, s) := next ctx req s
  (res.map fun lookup => if ctx.forceNoCname cfg then stripCname req.original lookup else lookup, s)

/-! ### CNAME rules -/

/-- The name that a CNAME rule puts in the place of the one asked. -/
def cnameOf (ctx : ChainContext) : Option Name :=
  (ruleGet ctx.domainRule fun rule =>
    match rule.cname with
    | some (.value cname) => some cname
    | _ => none).map (·.setFqdn true)

def cnameRecord (ctx : ChainContext) (query : Query) (cname : Name) : Record :=
  ⟨query.name, .IN, asU32 (ctx.localTtl cfg).toNat, .other .CNAME cname.wire⟩

/-- The question asked, and the alias before the other answers. -/
def withCnameRecord (ctx : ChainContext) (query : Query) (cname : Name) (lookup : DnsResponse) : DnsResponse :=
  { lookup with message := { lookup.message with
      queries := [query]
      answers := cnameRecord cfg ctx query cname :: lookup.message.answers } }

def cnameMiddleware {S : Type} (next : Next S) : Next S := fun ctx req s =>
  match cnameOf ctx with
  | some cname =>
    if req.query.queryType = .CNAME then
      (.ok (.newWithDeadline req.original [cnameRecord cfg ctx req.original cname]
        (now + fromSecs (ctx.localTtl cfg).toNat)), s)
    else
      let (res, s) := next (.new cfg cname ctx.serverOpts) (req.withCname cname) s
      (res.map (withCnameRecord cfg ctx req.original cname), s)
  | none => next ctx req s

/-! ### DNS64 -/

/-- The address behind the prefix, around the byte that must be zero. -/
def toDns64 (net : Ipv6Net) (ipv4 : BitVec 32) : Option (BitVec 128) :=
  let p := toBe 16 net.addr.toNat
  let v4 := toBe 4 ipv4.toNat
  let octets :=
    match net.prefixLen with
    | 32 => some (p.take 4 ++ v4 ++ [0] ++ p.drop 9)
    | 40 => some (p.take 5 ++ v4.take 3 ++ [0] ++ v4.drop 3 ++ p.drop 10)
    | 48 => some (p.take 6 ++ v4.take 2 ++ [0] ++ v4.drop 2 ++ p.drop 11)
    | 56 => some (p.take 7 ++ [0, 0] ++ v4 ++ p.drop 13)
    | 64 => some (p.take 8 ++ [0] ++ v4 ++ p.drop 13)
    | 96 => some (p.take 12 ++ v4)
    | _ => none
  octets.map fun octets => BitVec.ofNat 128 (ofBe octets)

/-- `2001:db8::/32` and `192.0.2.33`. -/
example : toDns64 ⟨0x20010db8000000000000000000000000#128, 32, by decide⟩ 0xc0000221#32 =
    some 0x20010db8c00002210000000000000000#128 := by decide +kernel

def isIpv4onlyArpa (req : DnsRequest) : Bool :=
  (nameText cfg.crates.toUnicode req.name).map Char.toLower = "ipv4only.arpa.".toList

/-- `192.0.0.170` and `192.0.0.171`. -/
def ipv4onlyAddrs : List (BitVec 32) := [0xc00000aa#32, 0xc00000ab#32]

/-- The answer for `ipv4only.arpa.`, by which a client finds out whether it is behind a translator. -/
def ipv4onlyResponse (ctx : ChainContext) (query : Query) (addrs : List IpAddr) : DnsResponse where
  message :=
    { queries := [query]
      answers := addrs.map fun ip => ⟨query.name, .IN, asU32 (ctx.localTtl cfg).toNat, .ofIpAddr ip⟩ }
  validUntil := now

def ipv4onlyAnswer (net : Ipv6Net) (ctx : ChainContext) (req : DnsRequest) : Option DnsResponse :=
  if isIpv4onlyArpa cfg req then
    match req.query.queryType with
    | .A => some (ipv4onlyResponse cfg now ctx req.original (ipv4onlyAddrs.map .v4))
    | .AAAA => some (ipv4onlyResponse cfg now ctx req.original ((ipv4onlyAddrs.filterMap (toDns64 net)).map .v6))
    | _ => none
  else none

/-- There are no AAAA records, and not on purpose. -/
def fallbackNeeded : LookupResult → Bool
  | .ok lookup => !lookup.aaaaSuppressed && !lookup.message.answers.any (isTarget .AAAA)
  | .error _ => true

/-- The request for the A records; it is made anew from the message, so that the address a proxy gave is not in it. -/
def aRequest (req : DnsRequest) : Option DnsRequest :=
  match req.queries with
  | [] => none
  | q :: qs => some { req with
      queries := { q with queryType := .A } :: qs
      query := { q with queryType := .A }
      forwardedClient := none }

def synthesized (net : Ipv6Net) (r : Record) : Record :=
  match r.data.ipAddr with
  | some (.v4 ipv4) =>
    match toDns64 net ipv4 with
    | some ipv6 => ⟨r.name, .IN, r.ttl, .ofIpAddr (.v6 ipv6)⟩
    | none => r
  | _ => r

/-- The answer to the request for A records as one for AAAA records. -/
def dns64Response (net : Ipv6Net) (lookup : DnsResponse) : DnsResponse :=
  { lookup with message := { lookup.message with
      queries := lookup.message.queries.modifyHead fun q => { q with queryType := .AAAA }
      answers := lookup.message.answers.map (synthesized net) } }

/-- The AAAA records made from the A records, if these could be got. -/
def synthesizedOr (net : Ipv6Net) (res aRes : LookupResult) : LookupResult :=
  match aRes with
  | .ok lookup => .ok (dns64Response net lookup)
  | .error _ => res

/-- What came for the AAAA records is handed on, or the A records are asked for. -/
def dns64Fallback {S : Type} (net : Ipv6Net) (next : Next S) (ctx : ChainContext) (req : DnsRequest) :
    LookupResult × S → LookupResult × S
  | (res, s) =>
    match fallbackNeeded res, aRequest req with
    | true, some aReq =>
      let (aRes, s) := next ctx aReq s
      (synthesizedOr net res aRes, s)
    | _, _ => (res, s)

def dns64Middleware {S : Type} (next : Next S) : Next S := fun ctx req s =>
  match ctx.dns64Prefix cfg with
  | none => next ctx req s
  | some net =>
    match ipv4onlyAnswer cfg now net ctx req with
    | some lookup => (.ok lookup, s)
    | none =>
      if req.query.queryType = .AAAA then dns64Fallback net next ctx req (next ctx req s)
      else next ctx req s

/-! ### DNS64 as one choice -/

/-- What DNS64 answers by itself. -/
def dns64Answer (ctx : ChainContext) (req : DnsRequest) : Option DnsResponse :=
  (ctx.dns64Prefix cfg).bind fun net => ipv4onlyAnswer cfg now net ctx req

/-- The prefix and the request for A records, where what came for the AAAA records makes them needed. -/
def fallback (ctx : ChainContext) (req : DnsRequest) (res : LookupResult) : Option (Ipv6Net × DnsRequest) :=
  if req.query.queryType = .AAAA ∧ fallbackNeeded res = true then
    (ctx.dns64Prefix cfg).bind fun net => (aRequest req).map (net, ·)
  else none

end

section

variable {cfg : RuntimeConfig} {now : ℤ} {S : Type} {next : Next S} {ctx : ChainContext} {req : DnsRequest} {s : S}

theorem dns64Middleware_of_answer {lookup : DnsResponse} (h : dns64Answer cfg now ctx req = some lookup) :
    dns64Middleware cfg now next ctx req s = (.ok lookup, s) := by
  obtain ⟨net, hnet, ha⟩ := Option.bind_eq_some_iff.mp h
  unfold dns64Middleware
  simp only [hnet, ha]

theorem dns64Middleware_of_fallback {net : Ipv6Net} {aReq : DnsRequest} (h : dns64Answer cfg now ctx req = none)
    (hf : fallback cfg ctx req (next ctx req s).1 = some (net, aReq)) :
    dns64Middleware cfg now next ctx req s =
      (synthesizedOr net (next ctx req s).1 (next ctx aReq (next ctx req s).2).1,
        (next ctx aReq (next ctx req s).2).2) := by
  unfold fallback at hf
  split at hf
  · rename_i hcase
    obtain ⟨net', hnet, hreq⟩ := Option.bind_eq_some_iff.mp hf
    obtain ⟨aReq', haReq, heq⟩ := Option.map_eq_some_iff.mp hreq
    obtain ⟨rfl, rfl⟩ := Prod.mk.inj heq
    have ha : ipv4onlyAnswer cfg now net' ctx req = none := by
      rwa [dns64Answer, hnet, Option.bind_some] at h
    unfold dns64Middleware dns64Fallback
    simp only [hnet, ha, if_pos hcase.1, hcase.2, haReq]
  · cases hf

theorem dns64Middleware_of_none (h : dns64Answer cfg now ctx req = none)
    (hf : fallback cfg ctx req (next ctx req s).1 = none) :
    dns64Middleware cfg now next ctx req s = next ctx req s := by
  unfold dns64Middleware
  cases hnet : ctx.dns64Prefix cfg with
  | none => rfl
  | some net =>
    have ha : ipv4onlyAnswer cfg now net ctx req = none := by
      rwa [dns64Answer, hnet, Option.bind_some] at h
    simp only [ha]
    by_cases hq : req.query.queryType = .AAAA
    · rw [if_pos hq]
      unfold dns64Fallback
      cases hn : fallbackNeeded (next ctx req s).1 with
      | false => simp only [hn]
      | true =>
        have hreq : aRequest req = none := by
          rw [fallback, if_pos ⟨hq, hn⟩, hnet, Option.bind_some] at hf
          simpa using hf
        simp only [hn, hreq]
    · rw [if_neg hq]

/-- The request for A records. -/
theorem aRequest_query {aReq : DnsRequest} (h : aRequest req = some aReq) : aReq.query.queryType = .A := by
  unfold aRequest at h
  split at h
  · cases h
  · obtain rfl := Option.some.inj h
    rfl

theorem fallback_eq_some {res : LookupResult} {net : Ipv6Net} {aReq : DnsRequest}
    (h : fallback cfg ctx req res = some (net, aReq)) :
    req.query.queryType = .AAAA ∧ fallbackNeeded res = true ∧ ctx.dns64Prefix cfg = some net ∧ aRequest req = some aReq := by
  unfold fallback at h
  split at h
  · rename_i hcase
    obtain ⟨net', hnet, hreq⟩ := Option.bind_eq_some_iff.mp h
    obtain ⟨aReq', haReq, heq⟩ := Option.map_eq_some_iff.mp hreq
    obtain ⟨rfl, rfl⟩ := Prod.mk.inj heq
    exact ⟨hcase.1, hcase.2, hnet, haReq⟩
  · cases h

end

end Server
end SmartDns
