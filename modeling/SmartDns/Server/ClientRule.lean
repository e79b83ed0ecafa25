/-
# The rule group of a client

Client rules give a client, by its network or its MAC address, a rule group. Three
pieces of code look for it: `resolve_rule_group` by address only, `search` by address
and then by MAC (to admit the client), and `ClientRuleMiddleware` in list order.

They agree on the first rule that matches (`groups_agree_iff`) unless a MAC rule of
another group comes before the client's address rules, the client's IPv4 address is
spelled as IPv6 address and a network of IPv6 addresses has a rule for it, or the listener
names a group: the middleware sees no mapped address as an IPv4 one and replaces a group
that was named.

Key definitions: `ClientRule`, `resolveRuleGroup`, `matchedRule`, `clientRuleMiddleware`,
`firstGroup`, `GroupsAgree`, `GroupsAgreeWhen`.
Key theorem: `groups_agree_iff`.
-/
import SmartDns.Dns.Request
import SmartDns.Server.Options

namespace SmartDns
namespace Server

open Dns

inductive Client
  | mac (mac : String)
  | ipAddr (net : IpNet)
deriving DecidableEq

structure ClientRule where
  client : Client
  group : String
deriving DecidableEq

def isAsciiHexdigit (c : Char) : Bool := c.isDigit || ('a' ≤ c && c ≤ 'f') || ('A' ≤ c && c ≤ 'F')

/-- Twelve hexadecimal digits with separators, as lower-case digits. -/
def normalizeMac (s : String) : Option (List Char) :=
  if s.toList.all fun c => isAsciiHexdigit c || c == ':' || c == '-' || c == '.' then
    let hex := s.toList.filter isAsciiHexdigit
    if hex.length = 12 then some (hex.map Char.toLower) else none
  else none

def macMatches (rule actual : String) : Bool :=
  match normalizeMac rule, normalizeMac actual with
  | some rule, some actual => rule == actual
  | _, _ => rule.toList.map Char.toLower == actual.toList.map Char.toLower

namespace ClientRule

def matchIp (r : ClientRule) (ip : IpAddr) : Bool :=
  match r.client with
  | .mac _ => false
  | .ipAddr net => net.contains ip

def matchMac (r : ClientRule) (mac : String) : Bool :=
  match r.client with
  | .mac rule => macMatches rule mac
  | .ipAddr _ => false

def isMac (r : ClientRule) : Bool :=
  match r.client with
  | .mac _ => true
  | .ipAddr _ => false

end ClientRule

/-- The neighbour table of the moment: IPv4 addresses and their MAC addresses. -/
abbrev ArpTable : Type := BitVec 32 → Option String

/-- `ArpResolver::lookup`. -/
def ArpTable.lookup (arp : ArpTable) : IpAddr → Option String
  | .v4 bits => if (IpAddr.v4 bits).isLoopback then none else arp bits
  | .v6 _ => none

/-- The address a client is grouped by; a trusted proxy may have given it. -/
def groupingIp (req : DnsRequest) : IpAddr := req.forwardedClient.getD req.src

def resolveRuleGroup (rules : List ClientRule) (req : DnsRequest) (opts : ServerOpts) : Option String :=
  match opts.ruleGroup with
  | some g => some g
  | none =>
    if opts.isBackground then none
    else (rules.find? (·.matchIp (groupingIp req).toCanonical)).map (·.group)

/-- `matched_rule` of `search`: by the peer's address, else by its MAC address. -/
def matchedRule (rules : List ClientRule) (arp : ArpTable) (src : IpAddr) : Option ClientRule :=
  match rules.find? (·.matchIp src.toCanonical) with
  | some r => some r
  | none =>
    if rules.any (·.isMac) then
      match arp.lookup src.toCanonical with
      | some mac => rules.find? (·.matchMac mac)
      | none => none
    else none

/-- What is known of a request on its way through the chain; `domainRule` is the rule of its name in
its rule group. -/
structure DnsContext (R : Type) where
  serverOpts : ServerOpts
  domainRule : Option R

/-- `DnsContext::new`; `findDomainRule` is the configuration's, for the name asked. -/
def DnsContext.new {R : Type} (findDomainRule : String → Option R) (opts : ServerOpts) : DnsContext R where
  serverOpts := opts
  domainRule := findDomainRule (opts.ruleGroup.getD "")

/-- A rule matches as `ClientRuleMiddleware` looks at it: addresses as they are spelled. -/
def matchesAsSpelled (arp : ArpTable) (req : DnsRequest) (r : ClientRule) : Bool :=
  match r.client with
  | .ipAddr net => net.contains (groupingIp req)
  | .mac rule =>
    match arp.lookup req.src with
    | some mac => macMatches rule mac
    | none => false

/-- The context that `ClientRuleMiddleware` hands on; `findSpelled` finds the rule for the name as it was spelled. -/
def clientRuleMiddleware {R : Type} (rules : List ClientRule) (arp : ArpTable) (findSpelled : String → Option R)
    (req : DnsRequest) (ctx : DnsContext R) : DnsContext R :=
  match rules.find? (matchesAsSpelled arp req) with
  | some r =>
    if !ctx.serverOpts.isBackground && decide (ctx.serverOpts.ruleGroup ≠ some r.group) then
      { serverOpts := { ctx.serverOpts with ruleGroup := some r.group }, domainRule := findSpelled r.group }
    else ctx
  | none => ctx

/-- The options as `search` puts them into the context. -/
def groupedOpts (rules : List ClientRule) (req : DnsRequest) (opts : ServerOpts) : ServerOpts :=
  if opts.ruleGroup.isNone && !opts.isBackground then
    { opts with ruleGroup := resolveRuleGroup rules req opts }
  else opts

/-- The context behind `ClientRuleMiddleware`, the first of the chain. -/
def groupedContext {R : Type} (rules : List ClientRule) (arp : ArpTable) (findDomainRule findSpelled : String → Option R)
    (req : DnsRequest) (opts : ServerOpts) : DnsContext R :=
  clientRuleMiddleware rules arp findSpelled req (DnsContext.new findDomainRule (groupedOpts rules req opts))

/-! ### One group -/

/-- A rule matches the client: its address, as IPv4 address if it is one, or its MAC address. -/
def matchesClient (arp : ArpTable) (req : DnsRequest) (r : ClientRule) : Bool :=
  r.matchIp (groupingIp req).toCanonical ||
    match arp.lookup req.src.toCanonical with
    | some mac => r.matchMac mac
    | none => false

/-- The group of the first rule that matches the client. -/
def firstGroup (rules : List ClientRule) (arp : ArpTable) (req : DnsRequest) : Option String :=
  (rules.find? (matchesClient arp req)).map (·.group)

/-- All that look for the group find one: the group that is named, else that of the first rule to match. -/
structure GroupsAgree {R : Type} (rules : List ClientRule) (arp : ArpTable)
    (findDomainRule findSpelled : String → Option R) (req : DnsRequest) (opts : ServerOpts) : Prop where
  resolved : resolveRuleGroup rules req opts = opts.ruleGroup.or (firstGroup rules arp req)
  context : (groupedContext rules arp findDomainRule findSpelled req opts).serverOpts.ruleGroup =
    opts.ruleGroup.or (firstGroup rules arp req)
  domainRule : (groupedContext rules arp findDomainRule findSpelled req opts).domainRule =
    findDomainRule ((opts.ruleGroup.or (firstGroup rules arp req)).getD "")
  admitted : opts.ruleGroup = none → req.forwardedClient = none →
    (matchedRule rules arp req.src).map (·.group) = firstGroup rules arp req

/-- `r` is the first of the rules with `p`. -/
def FirstOf (p : ClientRule → Bool) (rules : List ClientRule) (r : ClientRule) : Prop :=
  p r = true ∧ ∃ pre post, rules = pre ++ r :: post ∧ ∀ q ∈ pre, p q = false

/-- The condition on the order and the groups of the rules, and on how the client's address is spelled. -/
structure GroupsAgreeWhen (rules : List ClientRule) (arp : ArpTable) (req : DnsRequest) (opts : ServerOpts) : Prop where
  /-- Where a group is named, the first rule for the client as it is spelled is of that group. -/
  named : ∀ g, opts.ruleGroup = some g → ∀ r, FirstOf (matchesAsSpelled arp req) rules r → r.group = g
  /-- Where none is, a MAC rule that comes first of the client's rules is of the group of its first address rule. -/
  mac : opts.ruleGroup = none → ∀ m, FirstOf (matchesClient arp req) rules m → m.isMac = true →
    ∃ a, FirstOf (·.matchIp (groupingIp req).toCanonical) rules a ∧ a.group = m.group
  /-- And if its IPv4 address is spelled as IPv6 address, the first rule for it as it is spelled is of the group
  of the client's first rule. -/
  spelled : opts.ruleGroup = none → (groupingIp req).toCanonical ≠ groupingIp req →
    ∀ r, FirstOf (matchesAsSpelled arp req) rules r → ∃ c, FirstOf (matchesClient arp req) rules c ∧ c.group = r.group

theorem firstOf_iff {p : ClientRule → Bool} {rules : List ClientRule} {r : ClientRule} :
    FirstOf p rules r ↔ rules.find? p = some r := by
  rw [List.find?_eq_some_iff_append]
  simp [FirstOf]

theorem resolveRuleGroup_eq {rules : List ClientRule} {req : DnsRequest} {opts : ServerOpts}
    (hbg : opts.isBackground = false) : resolveRuleGroup rules req opts =
      opts.ruleGroup.or ((rules.find? (·.matchIp (groupingIp req).toCanonical)).map (·.group)) := by
  unfold resolveRuleGroup
  cases opts.ruleGroup with
  | some g => rfl
  | none => rw [hbg]; rfl

theorem groupedOpts_ruleGroup {rules : List ClientRule} {req : DnsRequest} {opts : ServerOpts}
    (hbg : opts.isBackground = false) : (groupedOpts rules req opts).ruleGroup =
      opts.ruleGroup.or ((rules.find? (·.matchIp (groupingIp req).toCanonical)).map (·.group)) := by
  rw [← resolveRuleGroup_eq hbg]
  unfold groupedOpts
  cases h : opts.ruleGroup with
  | some g => simp [resolveRuleGroup, h]
  | none => simp [hbg]

theorem groupedOpts_isBackground (rules : List ClientRule) (req : DnsRequest) (opts : ServerOpts) :
    (groupedOpts rules req opts).isBackground = opts.isBackground := by
  unfold groupedOpts
  split <;> rfl

section

variable {R : Type} {rules : List ClientRule} {arp : ArpTable} {findDomainRule findSpelled : String → Option R}
  {req : DnsRequest} {opts : ServerOpts}

/-- A rule that matches as spelled has the last word. -/
theorem groupedContext_ruleGroup (hbg : opts.isBackground = false) :
    (groupedContext rules arp findDomainRule findSpelled req opts).serverOpts.ruleGroup =
      ((rules.find? (matchesAsSpelled arp req)).map (·.group)).or
        (opts.ruleGroup.or ((rules.find? (·.matchIp (groupingIp req).toCanonical)).map (·.group))) := by
  rw [← groupedOpts_ruleGroup hbg]
  have hbg' := (groupedOpts_isBackground rules req opts).trans hbg
  unfold groupedContext clientRuleMiddleware
  cases hr : rules.find? (matchesAsSpelled arp req) with
  | none => rfl
  | some r =>
    by_cases hg : (groupedOpts rules req opts).ruleGroup = some r.group
    · simp [DnsContext.new, hbg', hg]
    · simp [DnsContext.new, hbg', hg]

/-- Where `ClientRuleMiddleware` keeps the group, the domain rule is that of the group. -/
theorem groupedContext_domainRule
    (h : (groupedContext rules arp findDomainRule findSpelled req opts).serverOpts.ruleGroup =
      (groupedOpts rules req opts).ruleGroup) :
    (groupedContext rules arp findDomainRule findSpelled req opts).domainRule =
      findDomainRule ((groupedOpts rules req opts).ruleGroup.getD "") := by
  unfold groupedContext clientRuleMiddleware at h ⊢
  cases hr : rules.find? (matchesAsSpelled arp req) with
  | none => rfl
  | some r =>
    rw [hr] at h
    by_cases hg : (groupedOpts rules req opts).ruleGroup = some r.group
    · simp [DnsContext.new, hg]
    · cases hbg : (groupedOpts rules req opts).isBackground with
      | true => simp [DnsContext.new, hbg]
      | false =>
        have hswitched : some r.group = (groupedOpts rules req opts).ruleGroup := by
          rw [← h]
          simp [DnsContext.new, hg, hbg]
        exact absurd hswitched.symm hg

/-- A client that no rule matches by address is admitted by the first rule for its MAC address. -/
theorem matchedRule_group (hforward : req.forwardedClient = none)
    (h : (rules.find? (·.matchIp (groupingIp req).toCanonical)).map (·.group) = firstGroup rules arp req) :
    (matchedRule rules arp req.src).map (·.group) = firstGroup rules arp req := by
  have hip : groupingIp req = req.src := by rw [groupingIp, hforward, Option.getD_none]
  rw [hip] at h
  unfold matchedRule
  cases haddr : rules.find? (·.matchIp req.src.toCanonical) with
  | some r =>
    rw [haddr] at h
    exact h
  | none =>
    rw [haddr] at h
    -- nothing matches the client at all, so no MAC rule does
    have hfirst : rules.find? (matchesClient arp req) = none := Option.map_eq_none_iff.mp h.symm
    have hnone : ∀ mac, arp.lookup req.src.toCanonical = some mac → rules.find? (·.matchMac mac) = none := by
      intro mac hmac
      rw [List.find?_eq_none] at hfirst ⊢
      intro r hr hm
      apply hfirst r hr
      rw [matchesClient, hmac]
      simp [hm]
    rw [← h]
    by_cases hmac : rules.any (·.isMac) = true
    · rw [if_pos hmac]
      cases hl : arp.lookup req.src.toCanonical with
      | none => rfl
      | some mac => simp only [hnone mac hl]
    · rw [if_neg hmac]

/-- Addresses that are no IPv4 addresses in disguise are looked up as they are. -/
theorem matchesAsSpelled_eq (arp : ArpTable) {req : DnsRequest} (hsrc : req.src.toCanonical = req.src)
    (hip : (groupingIp req).toCanonical = groupingIp req) : matchesAsSpelled arp req = matchesClient arp req := by
  funext r
  obtain ⟨client, group⟩ := r
  cases client with
  | ipAddr net =>
    rw [matchesClient, hsrc, hip]
    cases arp.lookup req.src <;> simp [matchesAsSpelled, ClientRule.matchIp, ClientRule.matchMac]
  | mac mac =>
    rw [matchesClient, hsrc]
    simp [matchesAsSpelled, ClientRule.matchIp, ClientRule.matchMac]

/-- A client's rule that is no MAC rule is one for its address. -/
theorem matchIp_of_matchesClient {r : ClientRule} (h : matchesClient arp req r = true) (hmac : r.isMac = false) :
    r.matchIp (groupingIp req).toCanonical = true := by
  obtain ⟨client, group⟩ := r
  cases client with
  | mac mac => cases hmac
  | ipAddr net =>
    unfold matchesClient at h
    cases hl : arp.lookup req.src.toCanonical with
    | none => simpa [hl] using h
    | some mac => simpa [hl, ClientRule.matchMac] using h

/-- The first rule to match by address has the group of the first to match, unless a MAC rule of another comes first. -/
theorem addressGroup_iff : (rules.find? (·.matchIp (groupingIp req).toCanonical)).map (·.group) = firstGroup rules arp req ↔
    ∀ m, FirstOf (matchesClient arp req) rules m → m.isMac = true →
      ∃ a, FirstOf (·.matchIp (groupingIp req).toCanonical) rules a ∧ a.group = m.group := by
  constructor
  · intro h m hm _
    rw [firstGroup, firstOf_iff.mp hm, Option.map_some] at h
    obtain ⟨a, ha, hgroup⟩ := Option.map_eq_some_iff.mp h
    exact ⟨a, firstOf_iff.mpr ha, hgroup⟩
  · intro h
    have hclient {r : ClientRule} (hr : r.matchIp (groupingIp req).toCanonical = true) : matchesClient arp req r = true := by
      rw [matchesClient, hr, Bool.true_or]
    unfold firstGroup
    cases hm : rules.find? (matchesClient arp req) with
    | none =>
      have hnone : rules.find? (·.matchIp (groupingIp req).toCanonical) = none := by
        rw [List.find?_eq_none] at hm ⊢
        exact fun r hr hip => hm r hr (hclient hip)
      rw [hnone]
    | some m =>
      by_cases hmac : m.isMac = true
      · obtain ⟨a, ha, hgroup⟩ := h m (firstOf_iff.mpr hm) hmac
        rw [firstOf_iff.mp ha, Option.map_some, Option.map_some, hgroup]
      · -- the first rule is one for the address, and no rule before it is
        obtain ⟨hmatch, pre, post, hrules, hpre⟩ := firstOf_iff.mpr hm
        have haddr : FirstOf (·.matchIp (groupingIp req).toCanonical) rules m := by
          refine ⟨matchIp_of_matchesClient hmatch (Bool.not_eq_true _ ▸ hmac), pre, post, hrules, fun q hq => ?_⟩
          by_contra hip
          have := hclient (Bool.not_eq_false _ ▸ hip)
          rw [hpre q hq] at this
          cases this
        rw [firstOf_iff.mp haddr]

/-- Where the grouping address is spelled plainly, a rule that matches as spelled is the client's first or its first
for the address. -/
theorem find?_matchesAsSpelled (hip : (groupingIp req).toCanonical = groupingIp req) :
    rules.find? (matchesAsSpelled arp req) = rules.find? (matchesClient arp req) ∨
      rules.find? (matchesAsSpelled arp req) = rules.find? (·.matchIp (groupingIp req).toCanonical) := by
  by_cases hsrc : req.src.toCanonical = req.src
  · exact .inl (by rw [matchesAsSpelled_eq arp hsrc hip])
  · right
    have hlookup : arp.lookup req.src = none := by
      cases hs : req.src with
      | v4 bits => exact absurd (by rw [hs]; rfl) hsrc
      | v6 bits => rfl
    congr 1
    funext r
    obtain ⟨client, group⟩ := r
    cases client with
    | mac mac => simp only [matchesAsSpelled, hlookup, ClientRule.matchIp]
    | ipAddr net => rw [hip]; rfl

end

/-- One client, its addresses spelled one way or the other. -/
def SameClient (req req' : DnsRequest) : Prop :=
  req.src.toCanonical = req'.src.toCanonical ∧ (groupingIp req).toCanonical = (groupingIp req').toCanonical

theorem firstGroup_congr (rules : List ClientRule) (arp : ArpTable) {req req' : DnsRequest} (h : SameClient req req') :
    firstGroup rules arp req = firstGroup rules arp req' := by
  have : matchesClient arp req = matchesClient arp req' := by
    funext r
    rw [matchesClient, matchesClient, h.1, h.2]
  rw [firstGroup, firstGroup, this]

section

variable {R : Type} (rules : List ClientRule) (arp : ArpTable) (findDomainRule findSpelled : String → Option R)
  (req : DnsRequest) {opts : ServerOpts}

/-- A group that is named is left where no rule puts another in its place. -/
theorem groupsAgree_iff_of_named (hbg : opts.isBackground = false) {g : String} (hg : opts.ruleGroup = some g) :
    GroupsAgree rules arp findDomainRule findSpelled req opts ↔ GroupsAgreeWhen rules arp req opts := by
  have hctx : (groupedContext rules arp findDomainRule findSpelled req opts).serverOpts.ruleGroup = _ :=
    groupedContext_ruleGroup hbg
  have hres : resolveRuleGroup rules req opts = _ := resolveRuleGroup_eq hbg
  have hopts : (groupedOpts rules req opts).ruleGroup = _ := groupedOpts_ruleGroup hbg
  rw [hg, Option.some_or] at hctx hres hopts
  constructor
  · intro h
    refine ⟨fun g' hg' r hr => ?_, fun hnone => ?_, fun hnone => ?_⟩
    · have hc := h.context
      rw [hctx, firstOf_iff.mp hr, hg] at hc
      exact (Option.some.inj hc).trans (Option.some.inj (hg.symm.trans hg'))
    · rw [hg] at hnone
      cases hnone
    · rw [hg] at hnone
      cases hnone
  · intro h
    have hc : (groupedContext rules arp findDomainRule findSpelled req opts).serverOpts.ruleGroup = some g := by
      rw [hctx]
      cases hr : rules.find? (matchesAsSpelled arp req) with
      | none => rfl
      | some r => exact congrArg some (h.named g hg r (firstOf_iff.mpr hr))
    refine ⟨?_, ?_, ?_, fun hnone => ?_⟩
    · rw [hres, hg, Option.some_or]
    · rw [hc, hg, Option.some_or]
    · rw [groupedContext_domainRule (hc.trans hopts.symm), hopts, hg, Option.some_or]
    · rw [hg] at hnone
      cases hnone

/-- Under the condition the rule that matches as spelled gives the client's group. -/
theorem firstGroup_of_spelled (h : GroupsAgreeWhen rules arp req opts) (hg : opts.ruleGroup = none) {r : ClientRule}
    (hr : rules.find? (matchesAsSpelled arp req) = some r) : firstGroup rules arp req = some r.group := by
  by_cases hip : (groupingIp req).toCanonical = groupingIp req
  · have hfind : rules.find? (matchesAsSpelled arp req) = rules.find? (matchesClient arp req) ∨
        rules.find? (matchesAsSpelled arp req) = rules.find? (·.matchIp (groupingIp req).toCanonical) :=
      find?_matchesAsSpelled hip
    rcases hfind with heq | heq
    · rw [firstGroup, ← heq, hr, Option.map_some]
    · rw [← addressGroup_iff.mpr (h.mac hg), ← heq, hr, Option.map_some]
  · obtain ⟨c, hc, hgroup⟩ := h.spelled hg hip r (firstOf_iff.mpr hr)
    rw [firstGroup, firstOf_iff.mp hc, Option.map_some, hgroup]

/-- Where none is named the rule for the address and the rule that matches as spelled have to be of the group of
the client's first. -/
theorem groupsAgree_iff_of_unnamed (hbg : opts.isBackground = false) (hg : opts.ruleGroup = none) :
    GroupsAgree rules arp findDomainRule findSpelled req opts ↔ GroupsAgreeWhen rules arp req opts := by
  have hctx : (groupedContext rules arp findDomainRule findSpelled req opts).serverOpts.ruleGroup = _ :=
    groupedContext_ruleGroup hbg
  have hres : resolveRuleGroup rules req opts = _ := resolveRuleGroup_eq hbg
  have hopts : (groupedOpts rules req opts).ruleGroup = _ := groupedOpts_ruleGroup hbg
  rw [hg, Option.none_or] at hctx hres hopts
  constructor
  · intro h
    have hr := h.resolved
    have hc := h.context
    rw [hres, hg, Option.none_or] at hr
    refine ⟨fun g hg' => ?_, fun _ => addressGroup_iff.mp hr, fun _ _ r hfind => ?_⟩
    · rw [hg] at hg'
      cases hg'
    · rw [hctx, firstOf_iff.mp hfind, hg, Option.none_or] at hc
      obtain ⟨c, hc, hgroup⟩ := Option.map_eq_some_iff.mp hc.symm
      exact ⟨c, firstOf_iff.mpr hc, hgroup⟩
  · intro h
    have haddr := addressGroup_iff.mpr (h.mac hg)
    have hc : (groupedContext rules arp findDomainRule findSpelled req opts).serverOpts.ruleGroup =
        firstGroup rules arp req := by
      rw [hctx, haddr]
      cases hr : rules.find? (matchesAsSpelled arp req) with
      | none => rfl
      | some r => exact (firstGroup_of_spelled rules arp req h hg hr).symm
    refine ⟨?_, ?_, ?_, fun _ hforward => matchedRule_group hforward haddr⟩
    · rw [hres, haddr, hg, Option.none_or]
    · rw [hc, hg, Option.none_or]
    · rw [groupedContext_domainRule (hc.trans (hopts.trans haddr).symm), hopts, haddr, hg, Option.none_or]

end

/-- **All that look for a client's group find one**, exactly under the condition; it is the same for the
two spellings of an address. -/
theorem groups_agree_iff {R : Type} (rules : List ClientRule) (arp : ArpTable)
    (findDomainRule findSpelled : String → Option R) (req : DnsRequest) (opts : ServerOpts)
    (hbg : opts.isBackground = false) :
    (GroupsAgree rules arp findDomainRule findSpelled req opts ↔ GroupsAgreeWhen rules arp req opts) ∧
      ∀ req', SameClient req req' → firstGroup rules arp req = firstGroup rules arp req' := by
  refine ⟨?_, fun req' h => firstGroup_congr rules arp h⟩
  cases hg : opts.ruleGroup with
  | some g => exact groupsAgree_iff_of_named rules arp findDomainRule findSpelled req hbg hg
  | none => exact groupsAgree_iff_of_unnamed rules arp findDomainRule findSpelled req hbg hg

/-- A laptop with a rule for its MAC address, in a network with a rule. -/
def laptopRules : List ClientRule :=
  [⟨.mac "01:23:45:67:89:ab", "trusted"⟩, ⟨.ipAddr ⟨.v4 0xc0a80100#32, 24, by decide⟩, "lan"⟩]

def laptopArp : ArpTable := fun bits => if bits = 0xc0a80105#32 then some "01:23:45:67:89:ab" else none

def laptopRequest : DnsRequest where
  header := { id := 1 }
  queries := [default]
  src := .v4 0xc0a80105#32

/-- Its reply settings are those of the network, its rules those of its own group. -/
theorem laptop_has_two_groups : ¬ ∀ (rules : List ClientRule) (arp : ArpTable)
    (findDomainRule findSpelled : String → Option Unit) (req : DnsRequest) (opts : ServerOpts), opts.isBackground = false →
    GroupsAgree rules arp findDomainRule findSpelled req opts := by
  intro h
  have := (h laptopRules laptopArp (fun _ => none) (fun _ => none) laptopRequest {} rfl).resolved
  revert this
  decide +kernel

theorem groups_agree_iff_laptop :
    (GroupsAgree laptopRules laptopArp (fun _ => (none : Option Unit)) (fun _ => none) laptopRequest {} ↔
      GroupsAgreeWhen laptopRules laptopArp laptopRequest {}) ∧
    ∀ req', SameClient laptopRequest req' →
      firstGroup laptopRules laptopArp laptopRequest = firstGroup laptopRules laptopArp req' :=
  groups_agree_iff laptopRules laptopArp (fun _ => none) (fun _ => none) laptopRequest {} rfl

end Server
end SmartDns
