/-
# Address rules

`AddressMiddleware` (`dns_mw_addr.rs`): an address rule, or an option that forces an SOA
record, answers a query here; what the rest of the chain answers is cut to the number of
addresses a client gets. Both are brought within `rr-ttl-reply-max`, in all three
sections.

Key definitions: `handleRuleAddr`, `clampReplyTtl`, `addressMiddleware`.
Key theorem: `ttl_le_of_addressMiddleware`.
-/
import SmartDns.Dns.Address
import SmartDns.Server.Config
import SmartDns.Server.Reply

namespace SmartDns
namespace Server

open Dns

/-! ### The rule of a name -/

/-- What one address rule says to a query. -/
inductive AddressStep
  | answer (rdatas : List RData)
  | ignore
  /-- Nothing: the rule of the zone above is asked. -/
  | parent

def addressData (queryType : RecordType) (v4 : Option (List Rule.Ipv4Addr)) (v6 : Option (List Rule.Ipv6Addr)) :
    Option (List RData) :=
  if queryType = .A then v4.map fun ips => ips.map fun ip => .ofIpAddr (.v4 ip.toBitVec)
  else
    (v6.map fun ips => ips.map fun ip => .ofIpAddr (.v6 ip)).or
      (v4.map fun ips => ips.map fun ip => .ofIpAddr (.v6 (IpAddr.mapped ip.toBitVec)))

/-- One turn of the loop of `handle_rule_addr`. -/
def addressStep (serial : ℕ) (noRuleSoa : Bool) (queryType : RecordType) : Rule.AddressRuleValue → AddressStep
  | .addr v4 v6 =>
    match addressData queryType v4 v6 with
    | some rdatas => .answer rdatas
    | none => if noRuleSoa then .parent else .answer [.defaultSoa serial]
  | .soa => if noRuleSoa then .parent else .answer [.defaultSoa serial]
  | .soav4 => if !noRuleSoa && decide (queryType = .A) then .answer [.defaultSoa serial] else .parent
  | .soav6 => if !noRuleSoa && decide (queryType = .AAAA) then .answer [.defaultSoa serial] else .parent
  | .ign => .ignore
  | .ignv4 => if queryType = .A then .ignore else .parent
  | .ignv6 => if queryType = .AAAA then .ignore else .parent

/-- The loop, over the rules from the name's up. -/
def addressWalk (serial : ℕ) (noRuleSoa : Bool) (queryType : RecordType) :
    List Rule.DomainRule → Option (List RData)
  | [] => none
  | rule :: zones =>
    match rule.address.map (addressStep serial noRuleSoa queryType) with
    | some (.answer rdatas) => some rdatas
    | some .ignore => none
    | some .parent => addressWalk serial noRuleSoa queryType zones
    | none => addressWalk serial noRuleSoa queryType zones

section

variable (cfg : RuntimeConfig) (now : ℤ) (serial : ℕ)

/-- The options that answer a type with an SOA record. -/
def forcesSoa (ctx : ChainContext) (queryType : RecordType) : Bool :=
  decide (queryType = .AAAA) && ctx.forceAaaaSoa cfg ||
    decide (queryType = .HTTPS) && (ctx.serverOpts.forceHttpsSoa.getD false || cfg.forceHttpsSoa) ||
    decide (queryType ∈ cfg.forceQtypeSoa)

def handleRuleAddr (queryType : RecordType) (ctx : ChainContext) : Option (List RData) :=
  let noRuleSoa := ctx.serverOpts.noRuleSoa.getD false
  if !noRuleSoa && forcesSoa cfg ctx queryType then some [.defaultSoa serial]
  else if ctx.serverOpts.noRuleAddr.getD false || !queryType.isIpAddr then none
  else addressWalk serial noRuleSoa queryType (((ctx.domainRule.map (·.chain)).getD []).map (·.rule))

/-! ### The middleware -/

def clampRecord (replyMax : ℕ) (r : Record) : Record := if replyMax < r.ttl then r.setTtl replyMax else r

/-- `clamp_reply_ttl`. -/
def clampReplyTtl (replyMax : ℕ) (lookup : DnsResponse) : DnsResponse :=
  { lookup with message :=
    { lookup.message with
      answers := lookup.message.answers.map (clampRecord replyMax)
      authorities := lookup.message.authorities.map (clampRecord replyMax)
      additionals := lookup.message.additionals.map (clampRecord replyMax) } }

/-- `rr-ttl-reply-max`, where it is set. -/
def clampWithin (ctx : ChainContext) (lookup : DnsResponse) : DnsResponse :=
  match ctx.rrTtlReplyMax cfg with
  | some replyMax => clampReplyTtl (asU32 replyMax.toNat) lookup
  | none => lookup

/-- The TTL of an SOA record that stands for an answer: `rr-ttl`, else `rr-ttl-min`. -/
def interceptSoaTtl (ctx : ChainContext) : ℕ :=
  let rrTtl := (ruleGet ctx.domainRule (·.rrTtl)).or (ctx.rrTtl cfg)
  let rrTtlMin := (ruleGet ctx.domainRule (·.rrTtlMin)).getD ((ctx.rrTtlMin cfg).getD 300)
  asU32 (rrTtl.getD rrTtlMin).toNat

def addressResponse (ctx : ChainContext) (query : Query) (rdatas : List RData) : DnsResponse :=
  let localTtl := asU32 (ctx.localTtl cfg).toNat
  let answers := (rdatas.filter (·.recordType ≠ .SOA)).map fun d => ⟨query.name, .IN, localTtl, d⟩
  let authorities := (rdatas.filter (·.recordType = .SOA)).map fun _ =>
    (forgeSoaRecord serial query.name (interceptSoaTtl cfg ctx)).toRecord
  { message := { queries := [query], answers, authorities }
    validUntil := now + fromSecs localTtl
    -- no AAAA records on purpose
    aaaaSuppressed := decide (query.queryType = .AAAA) && !authorities.isEmpty && answers.isEmpty }

/-- The answer of an address rule. -/
def addressAnswer (ctx : ChainContext) (req : DnsRequest) : Option DnsResponse :=
  (handleRuleAddr cfg serial req.query.queryType ctx).map fun rdatas =>
    clampWithin cfg ctx (addressResponse cfg now serial ctx req.original rdatas)

def isAddress : RData → Bool
  | .other t _ => t.isIpAddr
  | _ => false

/-- The records up to the `n`th address, for a positive `n`. -/
def upToAddress : ℕ → List Record → List Record
  | _, [] => []
  | n, r :: rs =>
    if isAddress r.data then (if n = 1 then [r] else r :: upToAddress (n - 1) rs) else r :: upToAddress n rs

/-- `max-reply-ip-num`. -/
def limitIps (ctx : ChainContext) (queryType : RecordType) (lookup : DnsResponse) : DnsResponse :=
  match ctx.maxReplyIpNum cfg with
  | some n =>
    if queryType.isIpAddr && decide (0 < n) then
      { lookup with message := { lookup.message with answers := upToAddress n.toNat lookup.message.answers } }
    else lookup
  | none => lookup

def addressMiddleware {S : Type} (next : Next S) : Next S := fun ctx req s =>
  match addressAnswer cfg now serial ctx req with
  | some lookup => (.ok lookup, s)
  | none =>
    let (res, s) := next ctx req s
    (res.map fun lookup => clampWithin cfg ctx (limitIps cfg ctx req.query.queryType lookup), s)

end

/-! ### What a client gets -/

theorem clampRecord_ttl (replyMax : ℕ) (r : Record) : (clampRecord replyMax r).ttl ≤ replyMax := by
  unfold clampRecord
  split
  · exact le_refl replyMax
  · rename_i h
    exact Nat.le_of_not_lt h

theorem ttl_le_of_mem_clampReplyTtl {replyMax : ℕ} {lookup : DnsResponse} {r : Record}
    (h : r ∈ (clampReplyTtl replyMax lookup).message.records) : r.ttl ≤ replyMax := by
  simp only [clampReplyTtl, Message.records, List.mem_append, List.mem_map] at h
  rcases h with (⟨x, _, rfl⟩ | ⟨x, _, rfl⟩) | ⟨x, _, rfl⟩ <;> exact clampRecord_ttl replyMax x

section

variable {cfg : RuntimeConfig} {now : ℤ} {serial : ℕ} {ctx : ChainContext} {req : DnsRequest}

theorem ttl_le_of_mem_clampWithin {replyMax : UInt64} {lookup : DnsResponse} {r : Record}
    (hmax : ctx.rrTtlReplyMax cfg = some replyMax) (h : r ∈ (clampWithin cfg ctx lookup).message.records) :
    r.ttl ≤ asU32 replyMax.toNat := by
  rw [clampWithin, hmax] at h
  exact ttl_le_of_mem_clampReplyTtl h

/-- **Behind the address middleware no record outlives `rr-ttl-reply-max`.** -/
theorem ttl_le_of_addressMiddleware {S : Type} {next : Next S} {s s' : S} {lookup : DnsResponse}
    {replyMax : UInt64} (hmax : ctx.rrTtlReplyMax cfg = some replyMax)
    (h : addressMiddleware cfg now serial next ctx req s = (.ok lookup, s')) :
    ∀ r ∈ lookup.message.records, r.ttl ≤ asU32 replyMax.toNat := by
  intro r hr
  unfold addressMiddleware at h
  cases ha : addressAnswer cfg now serial ctx req with
  | some answer =>
    rw [ha] at h
    obtain ⟨rdatas, -, rfl⟩ := Option.map_eq_some_iff.mp ha
    obtain rfl := Except.ok.inj (Prod.mk.inj h).1
    exact ttl_le_of_mem_clampWithin hmax hr
  | none =>
    rw [ha] at h
    obtain ⟨hres, -⟩ := Prod.mk.inj h
    cases hn : (next ctx req s).1 with
    | error e =>
      rw [hn] at hres
      cases hres
    | ok inner =>
      rw [hn] at hres
      obtain rfl := Except.ok.inj hres
      exact ttl_le_of_mem_clampWithin hmax hr

@[simp] theorem clampWithin_queries (lookup : DnsResponse) :
    (clampWithin cfg ctx lookup).message.queries = lookup.message.queries := by
  unfold clampWithin
  split <;> rfl

@[simp] theorem clampWithin_aaaaSuppressed (lookup : DnsResponse) :
    (clampWithin cfg ctx lookup).aaaaSuppressed = lookup.aaaaSuppressed := by
  unfold clampWithin
  split <;> rfl

@[simp] theorem limitIps_queries (queryType : RecordType) (lookup : DnsResponse) :
    (limitIps cfg ctx queryType lookup).message.queries = lookup.message.queries := by
  unfold limitIps
  split
  · split <;> rfl
  · rfl

@[simp] theorem limitIps_aaaaSuppressed (queryType : RecordType) (lookup : DnsResponse) :
    (limitIps cfg ctx queryType lookup).aaaaSuppressed = lookup.aaaaSuppressed := by
  unfold limitIps
  split
  · split <;> rfl
  · rfl

end

end Server
end SmartDns
