/-
# The configuration of the chain

What the middlewares read of `RuntimeConfig` (`dns_conf.rs`) and of a query's context
(`DnsContext` of `dns.rs`). A parameter that a rule group sets stands over the
configuration's own. The rule of a name is looked for in its rule group and then in the
default group.

Key definitions: `GroupParams`, `RuntimeConfig`, `ChainContext`, `ChainContext.new`.
-/
import SmartDns.Rule.Tree
import SmartDns.Server.Search

namespace SmartDns
namespace Server

open Dns

structure Ipv6Net where
  addr : BitVec 128
  prefixLen : ℕ
  short : prefixLen ≤ 128
deriving DecidableEq

/-- What both a rule group and the configuration itself can set. -/
structure GroupParams where
  forceNoCname : Option Bool := none
  forceAaaaSoa : Option Bool := none
  rrTtl : Option UInt64 := none
  rrTtlMin : Option UInt64 := none
  rrTtlReplyMax : Option UInt64 := none
  localTtl : Option UInt64 := none
  maxReplyIpNum : Option UInt8 := none
  dualstackIpSelection : Option Bool := none
  dualstackIpSelectionThreshold : Option UInt64 := none
  dualstackIpAllowForceAaaa : Option Bool := none
  speedCheckMode : Option Rule.SpeedCheckModeList := none
  dns64Prefix : Option Ipv6Net := none
  ipsetTimeout : Option Bool := none
  nftsetTimeout : Option Bool := none
  rrTtlMax : Option UInt64 := none
  responseMode : Option Rule.ResponseMode := none
  serveExpired : Option Bool := none
  serveExpiredReplyTtl : Option UInt64 := none
  prefetchDomain : Option Bool := none
  ednsClientSubnet : Option IpNet := none

/-- What is not in the sources: functions of other crates and the version of the build. -/
structure Crates where
  /-- The matcher of one-level patterns. -/
  crateMatch : List UInt8 → List UInt8 → Bool
  /-- IDNA, for the text of a name. -/
  toUnicode : List UInt8 → Option String
  /-- `ClientSubnet::from_str`. -/
  parseSubnet : String → Option ClientSubnet
  /-- The data of an HTTPS record from its wire value. -/
  readHttps : List UInt8 → Option Rule.Https
  /-- The text of a JSON object of strings. -/
  json : List (String × String) → String
  buildVersion : String

structure RuntimeConfig where
  crates : Crates
  maxQueryLimit : ℕ := 0
  aclEnable : Bool := false
  clientRules : List ClientRule := []
  params : GroupParams := {}
  ruleGroups : String → Option GroupParams := fun _ => none
  domainRuleGroups : String → Option Rule.DomainRuleMap := fun _ => none
  forceHttpsSoa : Bool := false
  forceQtypeSoa : List RecordType := []
  serverName : Name := .root
  expandPtrFromAddress : Bool := false
  /-- The entries of the hosts files, if these are read; their names are in lower case and have the root dot. -/
  hosts : List (Name × IpAddr) := []
  /-- A day after the hosts files were read. -/
  hostsValidUntil : ℤ := 0
  /-- The lookup of the lease file's clients, if there is one: the device's records of the type, if it knows it. -/
  leases : Name → RecordType → Option (List RData) := fun _ _ => none
  bogusNxdomain : IpSet := []

namespace RuntimeConfig

def defaultGroup : String := "default"

/-- The empty name is the default group's. -/
def normalizeRuleGroupName (group : String) : String := if group.isEmpty then defaultGroup else group

variable (cfg : RuntimeConfig)

def groupParams (group : String) : GroupParams := (cfg.ruleGroups (normalizeRuleGroupName group)).getD {}

def forceNoCnameInGroup (group : String) : Bool :=
  (cfg.groupParams group).forceNoCname.getD (cfg.params.forceNoCname.getD false)

def forceAaaaSoaInGroup (group : String) : Bool :=
  (cfg.groupParams group).forceAaaaSoa.getD (cfg.params.forceAaaaSoa.getD false)

def rrTtlInGroup (group : String) : Option UInt64 := (cfg.groupParams group).rrTtl.or cfg.params.rrTtl

def rrTtlMin : Option UInt64 := cfg.params.rrTtlMin.or cfg.params.rrTtl

/-- Within a group, `rr-ttl` comes first. -/
def rrTtlMinInGroup (group : String) : Option UInt64 :=
  match (cfg.groupParams group).rrTtl with
  | some ttl => some ttl
  | none => (cfg.groupParams group).rrTtlMin.or cfg.rrTtlMin

def rrTtlReplyMaxInGroup (group : String) : Option UInt64 :=
  (cfg.groupParams group).rrTtlReplyMax.or cfg.params.rrTtlReplyMax

def localTtl : UInt64 := (cfg.params.localTtl.or cfg.rrTtlMin).getD 60

def localTtlInGroup (group : String) : UInt64 := (cfg.groupParams group).localTtl.getD cfg.localTtl

def maxReplyIpNumInGroup (group : String) : Option UInt8 :=
  (cfg.groupParams group).maxReplyIpNum.or cfg.params.maxReplyIpNum

def dualstackIpAllowForceAaaaInGroup (group : String) : Bool :=
  (cfg.groupParams group).dualstackIpAllowForceAaaa.getD (cfg.params.dualstackIpAllowForceAaaa.getD false)

/-- In milliseconds. -/
def dualstackIpSelectionThresholdInGroup (group : String) : UInt64 :=
  (cfg.groupParams group).dualstackIpSelectionThreshold.getD (cfg.params.dualstackIpSelectionThreshold.getD 10)

def speedCheckModeInGroup (group : String) : Option Rule.SpeedCheckModeList :=
  (cfg.groupParams group).speedCheckMode.or cfg.params.speedCheckMode

def rrTtlMax : Option UInt64 := cfg.params.rrTtlMax.or cfg.params.rrTtl

def rrTtlMaxInGroup (group : String) : Option UInt64 :=
  match (cfg.groupParams group).rrTtl with
  | some ttl => some ttl
  | none => (cfg.groupParams group).rrTtlMax.or cfg.rrTtlMax

def ipsetTimeoutInGroup (group : String) : Bool :=
  (cfg.groupParams group).ipsetTimeout.getD (cfg.params.ipsetTimeout.getD false)

def nftsetTimeoutInGroup (group : String) : Bool :=
  (cfg.groupParams group).nftsetTimeout.getD (cfg.params.nftsetTimeout.getD false)

def dualstackIpSelectionInGroup (group : String) : Bool :=
  (cfg.groupParams group).dualstackIpSelection.getD (cfg.params.dualstackIpSelection.getD true)

def responseModeInGroup (group : String) : Rule.ResponseMode :=
  (cfg.groupParams group).responseMode.getD (cfg.params.responseMode.getD .firstPing)

def serveExpiredInGroup (group : String) : Bool :=
  (cfg.groupParams group).serveExpired.getD (cfg.params.serveExpired.getD true)

def serveExpiredReplyTtlInGroup (group : String) : UInt64 :=
  (cfg.groupParams group).serveExpiredReplyTtl.getD (cfg.params.serveExpiredReplyTtl.getD 5)

def prefetchDomainInGroup (group : String) : Bool :=
  (cfg.groupParams group).prefetchDomain.getD (cfg.params.prefetchDomain.getD false)

def dns64PrefixInGroup (group : String) : Option Ipv6Net := (cfg.groupParams group).dns64Prefix.or cfg.params.dns64Prefix

def domainRuleGroup (name : String) : Rule.DomainRuleMap :=
  (cfg.domainRuleGroups (normalizeRuleGroupName name)).getD .empty

def findDomainRule (domain : Name) (group : String) : Option Rule.DomainRuleTreeNode :=
  ((cfg.domainRuleGroup group).find cfg.crates.crateMatch domain).or
    ((cfg.domainRuleGroup defaultGroup).find cfg.crates.crateMatch domain)

/-- The part of the configuration that `search` reads. -/
def searchConfig : SearchConfig Rule.DomainRuleTreeNode where
  maxQueryLimit := cfg.maxQueryLimit
  aclEnable := cfg.aclEnable
  clientRules := cfg.clientRules
  findDomainRule group domain := cfg.findDomainRule domain group

end RuntimeConfig

/-- `noCache` is worked out when the context is made, and kept. -/
structure ChainContext extends DnsContext Rule.DomainRuleTreeNode where
  noCache : Bool

/-- `domain_rule.get`. -/
def ruleGet {α : Type} (rule : Option Rule.DomainRuleTreeNode) (f : Rule.DomainRule → Option α) : Option α :=
  rule.bind (·.get fun node => f node.rule)

namespace ChainContext

/-- `DnsContext::new` works out `no_cache` too. -/
def ofNew (ctx : DnsContext Rule.DomainRuleTreeNode) : ChainContext :=
  { ctx with noCache := (ruleGet ctx.domainRule (·.noCache)).getD false }

def new (cfg : RuntimeConfig) (name : Name) (opts : ServerOpts) : ChainContext :=
  ofNew (DnsContext.new (cfg.findDomainRule name) opts)

variable (cfg : RuntimeConfig) (ctx : ChainContext)

def effectiveRuleGroup : String := ctx.serverOpts.ruleGroup.getD ""

/-- The listener's setting, then the group's. -/
def forceNoCname : Bool := ctx.serverOpts.forceNoCname.getD (cfg.forceNoCnameInGroup ctx.effectiveRuleGroup)

def forceAaaaSoa : Bool := ctx.serverOpts.forceAaaaSoa.getD (cfg.forceAaaaSoaInGroup ctx.effectiveRuleGroup)

def rrTtl : Option UInt64 := cfg.rrTtlInGroup ctx.effectiveRuleGroup

def rrTtlMin : Option UInt64 := cfg.rrTtlMinInGroup ctx.effectiveRuleGroup

def rrTtlReplyMax : Option UInt64 := cfg.rrTtlReplyMaxInGroup ctx.effectiveRuleGroup

def localTtl : UInt64 := cfg.localTtlInGroup ctx.effectiveRuleGroup

def maxReplyIpNum : Option UInt8 := cfg.maxReplyIpNumInGroup ctx.effectiveRuleGroup

def dualstackIpAllowForceAaaa : Bool := cfg.dualstackIpAllowForceAaaaInGroup ctx.effectiveRuleGroup

def dualstackIpSelectionThreshold : UInt64 := cfg.dualstackIpSelectionThresholdInGroup ctx.effectiveRuleGroup

def speedCheckMode : Option Rule.SpeedCheckModeList := cfg.speedCheckModeInGroup ctx.effectiveRuleGroup

def dns64Prefix : Option Ipv6Net := cfg.dns64PrefixInGroup ctx.effectiveRuleGroup

/-- `server_group_name`: the upstream group. -/
def serverGroupName : String :=
  match ctx.serverOpts.group with
  | some name => name
  | none => (ruleGet ctx.domainRule (·.nameserver)).getD RuntimeConfig.defaultGroup

end ChainContext

/-- The rest of the chain as a middleware sees it; `S` is all that the rest may change. -/
abbrev Next (S : Type) : Type := ChainContext → DnsRequest → S → LookupResult × S

end Server
end SmartDns
