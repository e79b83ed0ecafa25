/-
# The key a request has in the cache

`DnsCacheMiddleware::handle` computes a key from a request and its context: the question
as it is asked there, the upstream group, the client subnet and the options that change
answers. A refresh goes the other way: `prefetch_query_for` and `to_server_opts` make a
request and its options from a key.

Key definitions: `cacheKey`, `visitedKey`, `prefetchRequest`, `toServerOpts`.
-/
import SmartDns.Cache.Entry
import SmartDns.Server.Config

namespace SmartDns
namespace Server

open Dns Cache

/-- `from_server_opts`. -/
def fromServerOpts (opts : ServerOpts) : AnswerAffectingOpts where
  ruleGroup := opts.ruleGroup
  noSpeedCheck := opts.noSpeedCheck.getD false
  noDualstackSelection := opts.noDualstackSelection.getD false
  forceAaaaSoa := opts.forceAaaaSoa.getD false
  -- whether the listener says anything: it can only turn the option on
  forceNoCname := opts.forceNoCname.isSome
  forceHttpsSoa := opts.forceHttpsSoa.getD false
  noRuleAddr := opts.noRuleAddr.getD false
  noRuleNameserver := opts.noRuleNameserver.getD false
  noRuleSoa := opts.noRuleSoa.getD false

/-- `to_server_opts`. -/
def toServerOpts (opts : AnswerAffectingOpts) (group : String) : ServerOpts where
  isBackground := true
  group := some group
  ruleGroup := opts.ruleGroup
  noSpeedCheck := some opts.noSpeedCheck
  noDualstackSelection := some opts.noDualstackSelection
  forceAaaaSoa := some opts.forceAaaaSoa
  forceNoCname := if opts.forceNoCname then some true else none
  forceHttpsSoa := some opts.forceHttpsSoa
  noRuleAddr := some opts.noRuleAddr
  noRuleNameserver := some opts.noRuleNameserver
  noRuleSoa := some opts.noRuleSoa

/-- The options survive the loop. -/
@[simp] theorem fromServerOpts_toServerOpts (opts : AnswerAffectingOpts) (group : String) :
    fromServerOpts (toServerOpts opts group) = opts := by
  obtain ⟨ruleGroup, a, b, c, forceNoCname, d, e, f, g⟩ := opts
  cases forceNoCname <;> rfl

def subnetOfRule (subnet : Rule.ClientSubnet) : ClientSubnet where
  address :=
    match subnet.address with
    | .v4 a => .v4 a.toBitVec
    | .v6 a => .v6 a
  sourcePrefix := subnet.sourcePrefix
  scopePrefix := subnet.scopePrefix

/-- The subnet that the rule of the name sets. -/
def ruleSubnet (ctx : ChainContext) : Option ClientSubnet := (ruleGet ctx.domainRule (·.subnet)).map subnetOfRule

/-- The client's subnet, else the rule's. -/
def requestSubnet (ctx : ChainContext) (req : DnsRequest) : Option ClientSubnet := req.subnet.or (ruleSubnet ctx)

/-- `addr/source_prefix`. -/
def subnetText (subnet : ClientSubnet) : String := String.ofList subnet.text

def cacheKey (ctx : ChainContext) (req : DnsRequest) : CacheKey where
  query := req.original
  group := ctx.serverGroupName
  ecs := (requestSubnet ctx req).map subnetText
  opts := fromServerOpts ctx.serverOpts

/-- The listener or the rule of the name turns the cache off. -/
def bypassesCache (ctx : ChainContext) : Bool := ctx.serverOpts.noCache.getD false || ctx.noCache

/-- The key under which the request comes to the cache. -/
def visitedKey (ctx : ChainContext) (req : DnsRequest) : Option CacheKey :=
  if bypassesCache ctx then none else some (cacheKey ctx req)

/-- `prefetch_query_for`, and the request that comes of its message: from the program itself, over UDP. -/
def prefetchRequest (crates : Crates) (key : CacheKey) : DnsRequest where
  header := { id := 0 }
  queries := [key.query]
  src := .v4 0x7f000001#32
  subnet := key.ecs.bind crates.parseSubnet
  maxPayload := (key.ecs.bind crates.parseSubnet).map fun _ => 512

@[simp] theorem prefetchRequest_query (crates : Crates) (key : CacheKey) :
    (prefetchRequest crates key).query = key.query := rfl

/-- The subnet of a key is read back from its text. `ipnet` reads an address and a prefix no longer than the
address, and no message or rule has a longer one. -/
def ReadsBack (crates : Crates) (key : CacheKey) : Prop :=
  ∀ text, key.ecs = some text → ∃ subnet : ClientSubnet, subnetText subnet = text ∧
    crates.parseSubnet text = some { subnet with scopePrefix := 0 }

/-- The text does not show the scope. -/
theorem subnetText_scope (subnet : ClientSubnet) (scope : UInt8) :
    subnetText { subnet with scopePrefix := scope } = subnetText subnet := rfl

/-- The subnet of the refresh has the text it was made from. -/
theorem prefetchRequest_subnet {crates : Crates} {key : CacheKey} (h : ReadsBack crates key) :
    (prefetchRequest crates key).subnet.map subnetText = key.ecs := by
  show (key.ecs.bind crates.parseSubnet).map subnetText = key.ecs
  cases hecs : key.ecs with
  | none => rfl
  | some text =>
    obtain ⟨subnet, htext, hparse⟩ := h text hecs
    rw [Option.bind_some, hparse, Option.map_some, subnetText_scope, htext]

end Server
end SmartDns
