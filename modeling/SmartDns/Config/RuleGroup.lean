/-
# Rule groups

`RuleGroup` and `GroupParams` of `config/rule_group.rs`: a group's rules and the
parameters it sets. A group that takes over another one appends its rules and fills in
the parameters it has not set itself. `RuleTrees` is what `RuntimeConfigBuilder::build`
makes the rule trees of: the groups, the domain sets, and the set rules, which are no
group's and go into every tree.

Key definitions: `RuleGroup`, `RuleGroup.merge`, `RuleTrees`, `RuleTrees.ruleSet`,
`RuleTrees.findDomainRule`.
Key theorem: `merge_default_left`.
-/
import SmartDns.Rule.SetRules
import SmartDns.Server.Config

namespace SmartDns
namespace Config

open Dns Lib Rule Server

/-! ### Parameters -/

/-- `inherit_from`: what the group itself does not say. -/
def inheritFrom (self other : GroupParams) : GroupParams where
  forceNoCname := self.forceNoCname.or other.forceNoCname
  forceAaaaSoa := self.forceAaaaSoa.or other.forceAaaaSoa
  ipsetTimeout := self.ipsetTimeout.or other.ipsetTimeout
  nftsetTimeout := self.nftsetTimeout.or other.nftsetTimeout
  rrTtlMin := self.rrTtlMin.or other.rrTtlMin
  rrTtlMax := self.rrTtlMax.or other.rrTtlMax
  rrTtlReplyMax := self.rrTtlReplyMax.or other.rrTtlReplyMax
  localTtl := self.localTtl.or other.localTtl
  dualstackIpAllowForceAaaa := self.dualstackIpAllowForceAaaa.or other.dualstackIpAllowForceAaaa
  dualstackIpSelectionThreshold := self.dualstackIpSelectionThreshold.or other.dualstackIpSelectionThreshold
  maxReplyIpNum := self.maxReplyIpNum.or other.maxReplyIpNum
  rrTtl := self.rrTtl.or other.rrTtl
  responseMode := self.responseMode.or other.responseMode
  speedCheckMode := self.speedCheckMode.or other.speedCheckMode
  serveExpired := self.serveExpired.or other.serveExpired
  serveExpiredReplyTtl := self.serveExpiredReplyTtl.or other.serveExpiredReplyTtl
  prefetchDomain := self.prefetchDomain.or other.prefetchDomain
  dns64Prefix := self.dns64Prefix.or other.dns64Prefix
  ednsClientSubnet := self.ednsClientSubnet.or other.ednsClientSubnet
  dualstackIpSelection := self.dualstackIpSelection.or other.dualstackIpSelection

@[simp] theorem inheritFrom_default (p : GroupParams) : inheritFrom p {} = p := by
  unfold inheritFrom
  simp only [Option.or_none]

@[simp] theorem default_inheritFrom (p : GroupParams) : inheritFrom {} p = p := by
  unfold inheritFrom
  simp only [Option.none_or]

/-! ### Rules -/

structure RuleGroup where
  forwardRules : List ForwardRule := []
  addressRules : List AddressRule := []
  domainRules : List (ConfigForDomain DomainRule) := []
  cnames : List (ConfigForDomain CNameRule) := []
  srvRecords : List (ConfigForDomain Srv) := []
  httpsRecords : List (ConfigForDomain HttpsRecordRule) := []
  params : GroupParams := {}

namespace RuleGroup

def merge (self other : RuleGroup) : RuleGroup where
  forwardRules := self.forwardRules ++ other.forwardRules
  addressRules := self.addressRules ++ other.addressRules
  domainRules := self.domainRules ++ other.domainRules
  cnames := self.cnames ++ other.cnames
  srvRecords := self.srvRecords ++ other.srvRecords
  httpsRecords := self.httpsRecords ++ other.httpsRecords
  params := inheritFrom self.params other.params

@[simp] theorem merge_default (g : RuleGroup) : g.merge {} = g := by
  unfold merge
  simp only [List.append_nil, inheritFrom_default]

@[simp] theorem merge_default_left (g : RuleGroup) : merge {} g = g := by
  unfold merge
  simp only [List.nil_append, default_inheritFrom]

end RuleGroup

/-! ### The trees -/

/-- `Vec::dedup_by`: of neighbours that are the same the first stays. -/
def dedupBy {α : Type} (same : α → α → Bool) : List α → List α
  | [] => []
  | a :: as => a :: go a as
where
  go (last : α) : List α → List α
    | [] => []
    | a :: as => if same a last then go last as else a :: go a as

def sameDomain : Domain → Domain → Bool
  | .name a, .name b => a == b
  | .set a, .set b => a == b
  | _, _ => false

/-- What the rule trees are made of. -/
structure RuleTrees where
  groups : String → Option RuleGroup := fun _ => none
  domainSets : KeyMap String (List WildcardName) := KeyMap.empty
  nftsets : List (ConfigForDomain (List (ConfigForIP NFTsetConfig))) := []
  ipsets : List (ConfigForDomain (List (ConfigForIP IpsetConfig))) := []

namespace RuleTrees

variable (rt : RuleTrees)

/-- The arguments of `DomainRuleMap::create` for a group; the set rules are the same for all. -/
def ruleSetOf (g : RuleGroup) : RuleSet where
  domainRules := g.domainRules
  addressRules := g.addressRules
  forwardRules := g.forwardRules
  domainSets := rt.domainSets
  cnames := dedupBy (fun a b => sameDomain a.domain b.domain) g.cnames
  srvRecords := g.srvRecords
  httpsRecords := g.httpsRecords
  nftsets := rt.nftsets
  ipsets := rt.ipsets

/-- A group that is not there has no rules, and no tree. -/
def ruleSet (name : String) : RuleSet := ((rt.groups name).map rt.ruleSetOf).getD {}

/-- `domain_rule_group_map`. -/
def trees (crateMatch : List UInt8 → List UInt8 → Bool) (name : String) : Option DomainRuleMap :=
  (rt.groups name).map fun g => DomainRuleMap.create crateMatch (rt.ruleSetOf g)

end RuleTrees

/-- The configuration with these rules. -/
def withTrees (cfg : RuntimeConfig) (rt : RuleTrees) : RuntimeConfig :=
  { cfg with
    domainRuleGroups := rt.trees cfg.crates.crateMatch
    ruleGroups := fun name => (rt.groups name).map (·.params) }

section

variable (cfg : RuntimeConfig) (rt : RuleTrees)

theorem domainRuleGroup_withTrees (group : String) :
    (withTrees cfg rt).domainRuleGroup group = DomainRuleMap.create cfg.crates.crateMatch
      (rt.ruleSet (RuntimeConfig.normalizeRuleGroupName group)) := by
  unfold RuntimeConfig.domainRuleGroup RuleTrees.ruleSet
  show ((rt.trees cfg.crates.crateMatch (RuntimeConfig.normalizeRuleGroupName group)).getD .empty) = _
  unfold RuleTrees.trees
  cases rt.groups (RuntimeConfig.normalizeRuleGroupName group) <;> rfl

end

/-- Nothing is configured, and the crates know nothing. -/
def bareConfig : RuntimeConfig where
  crates :=
    { crateMatch := fun _ _ => false
      toUnicode := fun _ => none
      parseSubnet := fun _ => none
      readHttps := fun _ => none
      json := fun _ => ""
      buildVersion := "" }

end Config
end SmartDns
