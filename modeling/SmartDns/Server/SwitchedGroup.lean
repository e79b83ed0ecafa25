/-
# A group that is switched

`DnsContext::new` works out of the rule group the rule of the name, and of the rule whether the
answer is kept out of the cache. `ClientRuleMiddleware`, when it puts a client into another
group, replaces the group and the rule. What is said about the cache stays as the old group
has it (`switch_leaves_no_cache`), and the rule is looked for under the name as it was
spelled, not in lower case.

Key definitions: `switchedTo`, `SameLookup`, `SameNoCache`.
Key theorem: `switched_coherent_iff`.
-/
import SmartDns.Server.Chain
import SmartDns.Server.Refresh

namespace SmartDns
namespace Server

open Dns Rule

/-- The group that `ClientRuleMiddleware` puts the client into, if it is another one. -/
def switchedTo (rules : List ClientRule) (arp : ArpTable) (req : DnsRequest) (opts : ServerOpts) : Option String :=
  match rules.find? (matchesAsSpelled arp req) with
  | some r => if !opts.isBackground && decide (opts.ruleGroup ≠ some r.group) then some r.group else none
  | none => none

section

variable (cfg : RuntimeConfig) (req : DnsRequest)

/-- The name has the same rule in the group as it was spelled and in lower case. -/
def SameLookup (group : String) : Prop :=
  cfg.findDomainRule req.original.name group = cfg.findDomainRule req.name group

/-- `no-cache` of the rule that the name has in the group. -/
def noCacheIn (name : Name) (group : String) : Bool :=
  (ruleGet (cfg.findDomainRule name group) (·.noCache)).getD false

/-- Both groups say the same about caching the name. -/
def SameNoCache (group group' : String) : Prop := noCacheIn cfg req.name group = noCacheIn cfg req.name group'

/-- In the group and in the default group, the one-level patterns over the parent of the name take it as it was
spelled as they take it in lower case. -/
def TakenAlike (group : String) : Prop :=
  ∀ name ∈ [group, RuntimeConfig.defaultGroup], DomainMap.Alike cfg.crates.crateMatch (cfg.domainRuleGroup name)
    (asked req.original.name).baseName (asked req.original.name) (asked req.name)

end

section

variable {cfg : RuntimeConfig} {arp : ArpTable} {req : DnsRequest} {opts : ServerOpts} {group : String}

/-- What the middleware changes when it switches. -/
theorem clientRule_of_switchedTo (ctx : ChainContext)
    (h : switchedTo cfg.clientRules arp req ctx.serverOpts = some group) :
    clientRule cfg arp req ctx =
      { ctx with
        serverOpts := { ctx.serverOpts with ruleGroup := some group }
        domainRule := cfg.findDomainRule req.original.name group } := by
  unfold switchedTo at h
  unfold clientRule clientRuleMiddleware
  cases hr : cfg.clientRules.find? (matchesAsSpelled arp req) with
  | none =>
    rw [hr] at h
    cases h
  | some r =>
    rw [hr] at h
    dsimp only at h ⊢
    by_cases hswitch : (!ctx.serverOpts.isBackground && decide (ctx.serverOpts.ruleGroup ≠ some r.group)) = true
    · rw [if_pos hswitch] at h ⊢
      obtain rfl := Option.some.inj h
      rfl
    · rw [if_neg hswitch] at h
      cases h

/-- A context is made of the options, the rule and the cache decision. -/
theorem chainContext_ext {ctx ctx' : ChainContext} : ctx = ctx' ↔
    ctx.serverOpts = ctx'.serverOpts ∧ ctx.domainRule = ctx'.domainRule ∧ ctx.noCache = ctx'.noCache := by
  constructor
  · rintro rfl
    exact ⟨rfl, rfl, rfl⟩
  · obtain ⟨⟨opts, rule⟩, noCache⟩ := ctx
    obtain ⟨⟨opts', rule'⟩, noCache'⟩ := ctx'
    rintro ⟨rfl, rfl, rfl⟩
    rfl

theorem toLowercase_beq (n : Name) : (n == n.toLowercase) = true := by
  have hidem (x : UInt8) : toAsciiLowercase (toAsciiLowercase x) = toAsciiLowercase x := by
    unfold toAsciiLowercase
    split
    · rename_i hx
      have hle := UInt8.le_iff_toNat_le.mp hx.1
      have hge := UInt8.le_iff_toNat_le.mp hx.2
      rw [if_neg]
      rintro ⟨-, hx'⟩
      have hsum := UInt8.le_iff_toNat_le.mp hx'
      rw [UInt8.toNat_add] at hsum
      simp only [UInt8.reduceToNat] at *
      omega
    · rfl
  rw [Name.beq_iff]
  refine ⟨rfl, ?_⟩
  simp [Name.folded, Name.toLowercase, hidem]

theorem sameLookup_of_takenAlike (h : TakenAlike cfg req group) : SameLookup cfg req group := by
  have hname : (req.original.name == req.name) = true := toLowercase_beq req.original.name
  unfold SameLookup RuntimeConfig.findDomainRule
  rw [DomainMap.find_congr hname (h group List.mem_cons_self),
    DomainMap.find_congr hname (h RuntimeConfig.defaultGroup (List.mem_cons_of_mem _ List.mem_cons_self))]

/-- **When a switch leaves a coherent context**: the one that would be made for the request in its new group. -/
theorem switched_coherent_iff (h : switchedTo cfg.clientRules arp req opts = some group) :
    (clientRule cfg arp req (.new cfg req.name opts) = .new cfg req.name { opts with ruleGroup := some group } ↔
      SameLookup cfg req group ∧ SameNoCache cfg req (opts.ruleGroup.getD "") group) ∧
    (TakenAlike cfg req group → SameLookup cfg req group) := by
  refine ⟨?_, sameLookup_of_takenAlike⟩
  rw [clientRule_of_switchedTo (.new cfg req.name opts) h, chainContext_ext]
  constructor
  · rintro ⟨-, hrule, hcache⟩
    exact ⟨hrule, hcache⟩
  · rintro ⟨hrule, hcache⟩
    exact ⟨rfl, hrule, hcache⟩

end

/-! ### A group that keeps a name out of the cache -/

/-- `domain-rules /example.com/ -no-cache` in the group `trusted`, which a laptop is in by its MAC address; by its
address it is in `lan`. -/
def trustedConfig : RuntimeConfig where
  crates := plainCrates
  clientRules := laptopRules
  domainRuleGroups group :=
    if group = "trusted" then
      some (DomainRuleMap.create plainCrates.crateMatch
        { domainRules := [⟨.name (.default exampleCom), { noCache := some true }⟩] })
    else none

/-- The laptop asks for `example.com`. -/
def exampleRequest : DnsRequest where
  header := { id := 1 }
  queries := [{ name := exampleCom.setFqdn true, queryType := .A, queryClass := .IN }]
  src := .v4 0xc0a80105#32

/-- The laptop's group keeps the name out of the cache, and its answers are cached. -/
theorem switch_leaves_no_cache : ¬ ∀ (cfg : RuntimeConfig) (arp : ArpTable) (req : DnsRequest) (opts : ServerOpts)
    (group : String), switchedTo cfg.clientRules arp req opts = some group →
    clientRule cfg arp req (.new cfg req.name opts) = .new cfg req.name { opts with ruleGroup := some group } := by
  intro h
  have hstale : false = true := congrArg ChainContext.noCache
    (h trustedConfig laptopArp exampleRequest { ruleGroup := some "lan" } "trusted" (by decide +kernel))
  cases hstale

/-- Without rules in either group the context is the one that would be made. -/
theorem switched_coherent_iff_plain :
    clientRule { plainConfig with clientRules := laptopRules } laptopArp exampleRequest
      (.new plainConfig exampleRequest.name { ruleGroup := some "lan" }) =
        .new plainConfig exampleRequest.name { ruleGroup := some "trusted" } := by
  let cfg : RuntimeConfig := { plainConfig with clientRules := laptopRules }
  have hswitch : switchedTo cfg.clientRules laptopArp exampleRequest { ruleGroup := some "lan" } = some "trusted" := by
    decide +kernel
  exact (switched_coherent_iff hswitch).1.mpr ⟨rfl, rfl⟩

end Server
end SmartDns
