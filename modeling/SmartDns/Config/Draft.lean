/-
# Reading a configuration line

What a line of a configuration file does to the configuration that is being built
(`config_at`, `config_unchecked` and `group_begin` of `dns_conf.rs`), but for the loading
of the files that a `conf-file` line names. The rule groups that are open stand on a
stack; the group `default` is put there by the first line that finds it empty, so that a
line is in a group's block if more than one is open.

`Grammar` is the parser of lines and what the items do that a rule group knows nothing of.

Key definitions: `ConfigItem`, `Draft`, `Draft.configUnchecked`, `Draft.configLine`.
-/
import SmartDns.Config.Files
import SmartDns.Config.RuleGroup

namespace SmartDns
namespace Config

open Dns Lib Rule Server

/-! ### Items -/

/-- The items that are rules of a group. -/
inductive RuleItem
  | cname (v : ConfigForDomain CNameRule)
  | httpsRecord (v : ConfigForDomain HttpsRecordRule)
  | srvRecord (v : ConfigForDomain Srv)
  | domainRule (v : ConfigForDomain DomainRule)
  | forwardRule (v : ForwardRule)
  | address (v : AddressRule)

def RuleGroup.push (g : RuleGroup) : RuleItem → RuleGroup
  | .cname v => { g with cnames := g.cnames ++ [v] }
  | .httpsRecord v => { g with httpsRecords := g.httpsRecords ++ [v] }
  | .srvRecord v => { g with srvRecords := g.srvRecords ++ [v] }
  | .domainRule v => { g with domainRules := g.domainRules ++ [v] }
  | .forwardRule v => { g with forwardRules := g.forwardRules ++ [v] }
  | .address v => { g with addressRules := g.addressRules ++ [v] }

namespace RuleGroup

def Has (g : RuleGroup) : RuleItem → Prop
  | .cname v => v ∈ g.cnames
  | .httpsRecord v => v ∈ g.httpsRecords
  | .srvRecord v => v ∈ g.srvRecords
  | .domainRule v => v ∈ g.domainRules
  | .forwardRule v => v ∈ g.forwardRules
  | .address v => v ∈ g.addressRules

theorem not_has_default (r : RuleItem) : ¬ ({} : RuleGroup).Has r := by
  cases r <;> exact List.not_mem_nil

theorem has_merge (g g' : RuleGroup) (r : RuleItem) : (g.merge g').Has r ↔ g.Has r ∨ g'.Has r := by
  cases r <;> exact List.mem_append

theorem has_push (g : RuleGroup) (r r' : RuleItem) : (g.push r').Has r ↔ g.Has r ∨ r = r' := by
  cases r <;> cases r' <;> simp [Has, push]

end RuleGroup

/-- The items that a group and the configuration itself can set. -/
inductive ParamItem
  | forceNoCname (v : Bool)
  | forceAaaaSoa (v : Bool)
  | ipSetTimeout (v : Bool)
  | nftSetTimeout (v : Bool)
  | rrTtl (v : UInt64)
  | rrTtlMin (v : UInt64)
  | rrTtlMax (v : UInt64)
  | rrTtlReplyMax (v : UInt64)
  | localTtl (v : UInt64)
  | maxReplyIpNum (v : UInt8)
  | speedMode (v : Option SpeedCheckModeList)
  | responseMode (v : Rule.ResponseMode)
  | dualstackIpSelection (v : Bool)
  | dualstackIpAllowForceAaaa (v : Bool)
  | dualstackIpSelectionThreshold (v : UInt64)
  | dns64 (v : Ipv6Net)
  | serveExpired (v : Bool)
  | serveExpiredReplyTtl (v : UInt64)
  | prefetchDomain (v : Bool)
  | ednsClientSubnet (v : IpNet)

/-- The value as `route!` writes it; `speed-check-mode` has an optional value of its own. -/
def ParamItem.set (p : GroupParams) : ParamItem → GroupParams
  | .forceNoCname v => { p with forceNoCname := some v }
  | .forceAaaaSoa v => { p with forceAaaaSoa := some v }
  | .ipSetTimeout v => { p with ipsetTimeout := some v }
  | .nftSetTimeout v => { p with nftsetTimeout := some v }
  | .rrTtl v => { p with rrTtl := some v }
  | .rrTtlMin v => { p with rrTtlMin := some v }
  | .rrTtlMax v => { p with rrTtlMax := some v }
  | .rrTtlReplyMax v => { p with rrTtlReplyMax := some v }
  | .localTtl v => { p with localTtl := some v }
  | .maxReplyIpNum v => { p with maxReplyIpNum := some v }
  | .speedMode v => { p with speedCheckMode := v }
  | .responseMode v => { p with responseMode := some v }
  | .dualstackIpSelection v => { p with dualstackIpSelection := some v }
  | .dualstackIpAllowForceAaaa v => { p with dualstackIpAllowForceAaaa := some v }
  | .dualstackIpSelectionThreshold v => { p with dualstackIpSelectionThreshold := some v }
  | .dns64 v => { p with dns64Prefix := some v }
  | .serveExpired v => { p with serveExpired := some v }
  | .serveExpiredReplyTtl v => { p with serveExpiredReplyTtl := some v }
  | .prefetchDomain v => { p with prefetchDomain := some v }
  | .ednsClientSubnet v => { p with ednsClientSubnet := some v }

/-- Only these prefix lengths can carry an IPv4 address. -/
def ParamItem.refusal : ParamItem → Option String
  | .dns64 v =>
    if v.prefixLen ∈ [32, 40, 48, 56, 64, 96] then none
    else some ("dns64 prefix /" ++ toString v.prefixLen ++
      " is not valid: RFC 6052 only allows /32, /40, /48, /56, /64 or /96")
  | _ => none

structure ConfFileItem where
  path : Path
  group : Option String := none

structure GroupBegin where
  name : String
  inherit : Option String := none

/-- The domains of a `group-match` line are only complained of. -/
structure GroupMatch where
  group : Option String := none
  clients : List Client := []

/-- An item of a line; `S` has those that a rule group knows nothing of. -/
inductive ConfigItem (S : Type)
  | rule (r : RuleItem)
  | param (p : ParamItem)
  | confFile (v : ConfFileItem)
  | groupBegin (v : GroupBegin)
  | groupEnd
  | groupMatch (v : GroupMatch)
  | clientRule (v : ClientRule)
  | nftSet (v : ConfigForDomain (List (ConfigForIP NFTsetConfig)))
  | ipSet (v : ConfigForDomain (List (ConfigForIP IpsetConfig)))
  | serveExpiredTtl (v : UInt64)
  | serveExpiredPrefetchTime (v : UInt64)
  /-- `server`, `proxy-server`, `domain-set` and `ip-set`: in a group's block too, and no group's. -/
  | shared (v : S)
  | other (v : S)

namespace ConfigItem

variable {S : Type}

def notSupportedInRuleGroupByDesign : ConfigItem S → Option String
  | .serveExpiredTtl _ => some "serve-expired-ttl"
  | .serveExpiredPrefetchTime _ => some "serve-expired-prefetch-time"
  | _ => none

def allowedInRuleGroup : ConfigItem S → Bool
  | .rule _ | .param _ | .groupBegin _ | .groupEnd | .groupMatch _ | .clientRule _ | .confFile _ | .shared _ => true
  | .nftSet _ | .ipSet _ | .serveExpiredTtl _ | .serveExpiredPrefetchTime _ | .other _ => false

end ConfigItem

/-- The parser of lines, and the settings `G` that its other items write. -/
structure Grammar (S G : Type) where
  /-- `parse_config` on the text of the bytes. -/
  parseConfig : List UInt8 → Option (ConfigItem S)
  detectBrokenProxyCredential : List UInt8 → Option String
  /-- What an item writes; paths in it are looked for by the function. -/
  assign : S → (Path → Path) → G → G

/-! ### What has been configured -/

structure Draft (G : Type) where
  settings : G
  params : GroupParams := {}
  serveExpiredTtl : Option UInt64 := none
  serveExpiredPrefetchTime : Option UInt64 := none
  nftsets : List (ConfigForDomain (List (ConfigForIP NFTsetConfig))) := []
  ipsets : List (ConfigForDomain (List (ConfigForIP IpsetConfig))) := []
  clientRules : List ClientRule := []
  ruleGroups : KeyMap String RuleGroup := KeyMap.empty
  /-- The innermost group comes first. -/
  ruleGroupStack : List (String × RuleGroup) := []
  fatalErrors : List String := []

namespace Draft

variable {S G : Type} (d : Draft G)

def defaultGroup : String := "default"

def inRuleGroup (stack : List (String × RuleGroup)) : Bool := decide (1 < stack.length)

/-- The group `default` is open from the first line on. -/
def openDefault : Draft G :=
  match d.ruleGroupStack with
  | [] => { d with ruleGroupStack := [(defaultGroup, {})] }
  | _ :: _ => d

def pushGroup (name : String) (g : RuleGroup) : Draft G := { d with ruleGroupStack := (name, g) :: d.ruleGroupStack }

/-- `rule_groups.entry(name).or_default().merge(rule_group)`. -/
def mergeGroup (name : String) (g : RuleGroup) : Draft G :=
  { d with ruleGroups := d.ruleGroups.update name fun entry => (entry.getD {}).merge g }

/-- The innermost group is closed, whichever it is. -/
def popGroup : Draft G :=
  match d.ruleGroupStack with
  | [] => d
  | (name, g) :: stack => { d with ruleGroupStack := stack }.mergeGroup name g

/-- The innermost group is changed. -/
def mapTop (f : RuleGroup → RuleGroup) : Draft G :=
  match d.ruleGroupStack with
  | [] => d
  | (name, g) :: stack => { d with ruleGroupStack := (name, f g) :: stack }

def currentGroup : String := (d.ruleGroupStack.head?.map (·.1)).getD defaultGroup

/-- What a new group takes over. -/
def inherited (group : GroupBegin) : Option RuleGroup :=
  match group.inherit.or (if 1 < d.ruleGroupStack.length then some "parent" else none) with
  | none => none
  | some "none" => none
  | some "parent" => d.ruleGroupStack.head?.map (·.2)
  | some "default" =>
    (d.ruleGroups.get? defaultGroup).or
      ((d.ruleGroupStack.reverse.find? (·.1 == defaultGroup)).map (·.2))
  | some name => d.ruleGroups.get? name

def groupBegin (group : GroupBegin) : Draft G :=
  d.pushGroup group.name (((d.inherited group).map fun g => RuleGroup.merge {} g).getD {})

def pushFatal (lineno : Option ℕ) (detail : String) : Draft G :=
  { d with fatalErrors := d.fatalErrors ++ [match lineno with
    | some no => "configuration file line " ++ toString no ++ ": " ++ detail
    | none => detail] }

/-- In a group's block the parameter is the group's. -/
def setParam (inGroup : Bool) (lineno : Option ℕ) (p : ParamItem) : Draft G :=
  match p.refusal with
  | some detail => d.pushFatal lineno detail
  | none =>
    if inGroup then d.mapTop fun g => { g with params := p.set g.params }
    else { d with params := p.set d.params }

def pushClientRule (r : ClientRule) : Draft G := { d with clientRules := d.clientRules ++ [r] }

variable (gr : Grammar S G) (resolve : Path → Path)

/-- The match of `config_unchecked`. The files of a `conf-file` line are loaded by the builder. -/
def applyItem (inGroup : Bool) (lineno : Option ℕ) : ConfigItem S → Draft G
  | .rule r => d.mapTop fun g => g.push r
  | .param p => d.setParam inGroup lineno p
  | .confFile _ => d
  | .groupBegin v => d.groupBegin v
  | .groupEnd => d.popGroup
  | .groupMatch v =>
    let group := v.group.getD d.currentGroup
    v.clients.foldl (fun d client => d.pushClientRule ⟨client, group⟩) d
  | .clientRule r => d.pushClientRule (if r.group.isEmpty then { r with group := d.currentGroup } else r)
  | .nftSet v => { d with nftsets := d.nftsets ++ [v] }
  | .ipSet v => { d with ipsets := d.ipsets ++ [v] }
  | .serveExpiredTtl v => { d with serveExpiredTtl := some v }
  | .serveExpiredPrefetchTime v => { d with serveExpiredPrefetchTime := some v }
  | .shared v | .other v => { d with settings := gr.assign v resolve d.settings }

def configUnchecked (line : List UInt8) (lineno : Option ℕ) : Draft G :=
  let inGroup := inRuleGroup d.ruleGroupStack
  match gr.parseConfig line with
  | some item =>
    if inGroup && item.notSupportedInRuleGroupByDesign.isSome then d
    else if inGroup && !item.allowedInRuleGroup then d
    else d.openDefault.applyItem gr resolve inGroup lineno item
  | none => d.openDefault

/-- `config_at`. -/
def configLine (line : List UInt8) (lineno : Option ℕ) : Draft G :=
  let d :=
    match gr.detectBrokenProxyCredential line with
    | some detail => d.pushFatal lineno detail
    | none => d
  d.configUnchecked gr resolve line lineno

end Draft
end Config
end SmartDns
