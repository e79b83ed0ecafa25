/-
# The middleware chain

The middlewares in the order `build_middleware` (`app.rs`) puts them, down to the cache:
the client rules, `force-no-CNAME`, the CNAME rules, DNS64, local data, the address rules.
The audit log and the IP sets hand everything on. What stands below is a parameter, `next`.

Key definitions: `clientRule`, `chain`, `execute`.
-/
import SmartDns.Server.AddressRule
import SmartDns.Server.LocalData
import SmartDns.Server.Rewrite

namespace SmartDns
namespace Server

open Dns

section

variable (cfg : RuntimeConfig) (arp : ArpTable) (now : ℤ) (serial : ℕ)

/-- `ClientRuleMiddleware`; what the context says about caching stays. -/
def clientRule (req : DnsRequest) (ctx : ChainContext) : ChainContext :=
  { clientRuleMiddleware cfg.clientRules arp (cfg.findDomainRule req.original.name) req ctx.toDnsContext with
    noCache := ctx.noCache }

/-- From DNS64 down. -/
def fromDns64 {S : Type} (next : Next S) : Next S :=
  dns64Middleware cfg now (localMiddleware cfg now serial arp (addressMiddleware cfg now serial next))

/-- The chain behind the client rules. -/
def chain {S : Type} (next : Next S) : Next S :=
  forceNoCnameMiddleware cfg (cnameMiddleware cfg now (fromDns64 cfg arp now serial next))

/-- `host.execute`. -/
def execute {S : Type} (next : Next S) (ctx : DnsContext Rule.DomainRuleTreeNode) (req : DnsRequest) (s : S) :
    LookupResult × S :=
  chain cfg arp now serial next (clientRule cfg arp req (.ofNew ctx)) req s

/-- The context behind the client rules. -/
def clientContext (req : DnsRequest) (opts : ServerOpts) : ChainContext :=
  clientRule cfg arp req (.ofNew (searchContext cfg.searchConfig req opts))

end

/-- A background request is in nobody's group. -/
theorem clientRule_of_isBackground {cfg : RuntimeConfig} {arp : ArpTable} {req : DnsRequest} {ctx : ChainContext}
    (h : ctx.serverOpts.isBackground = true) : clientRule cfg arp req ctx = ctx := by
  unfold clientRule clientRuleMiddleware
  cases cfg.clientRules.find? (matchesAsSpelled arp req) with
  | none => rfl
  | some r => simp only [h, Bool.not_true, Bool.false_and, Bool.false_eq_true, if_false]

end Server
end SmartDns
