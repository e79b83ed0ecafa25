/-
# Keys and entries of the answer cache

`dns_mw_cache.rs`. A key is the question, the upstream group, the client subnet
and the listener options that change answers; an entry is a response with its
deadline, its hit count, the mark of a refresh that is under way, and the subnet
and options its key has (they are kept so that the key can be rebuilt from a file).

Key definitions: `AnswerAffectingOpts`, `CacheKey`, `DnsCacheEntry`.
-/
import SmartDns.Dns.Response

namespace SmartDns
namespace Cache

open Dns

structure AnswerAffectingOpts where
  ruleGroup : Option String := none
  noSpeedCheck : Bool := false
  noDualstackSelection : Bool := false
  forceAaaaSoa : Bool := false
  forceNoCname : Bool := false
  forceHttpsSoa : Bool := false
  noRuleAddr : Bool := false
  noRuleNameserver : Bool := false
  noRuleSoa : Bool := false
deriving DecidableEq, Inhabited

structure CacheKey where
  query : Query
  group : String
  ecs : Option String
  opts : AnswerAffectingOpts

namespace CacheKey

instance : BEq CacheKey where
  beq a b := a.query == b.query && decide (a.group = b.group) && decide (a.ecs = b.ecs) &&
    decide (a.opts = b.opts)

theorem beq_iff {a b : CacheKey} : (a == b) = true ↔ (a.query == b.query) = true ∧
    a.group = b.group ∧ a.ecs = b.ecs ∧ a.opts = b.opts := by
  show (_ && _ && _ && _) = true ↔ _
  simp [and_assoc]

instance : EquivBEq CacheKey where
  rfl := by simp [beq_iff]
  symm h := by
    obtain ⟨h1, h2, h3, h4⟩ := beq_iff.mp h
    exact beq_iff.mpr ⟨BEq.symm h1, h2.symm, h3.symm, h4.symm⟩
  trans h h' := by
    obtain ⟨h1, h2, h3, h4⟩ := beq_iff.mp h
    obtain ⟨h1', h2', h3', h4'⟩ := beq_iff.mp h'
    exact beq_iff.mpr ⟨BEq.trans h1 h1', h2.trans h2', h3.trans h3', h4.trans h4'⟩

end CacheKey

structure DnsCacheStats where
  hits : ℕ := 0

structure DnsCacheEntry where
  data : DnsResponse
  validUntil : ℤ
  isInPrefetching : Bool := false
  stats : DnsCacheStats := {}
  ecs : Option String
  opts : AnswerAffectingOpts

namespace DnsCacheEntry

def setValidUntil (e : DnsCacheEntry) (validUntil : ℤ) : DnsCacheEntry := { e with validUntil }

def isCurrent (e : DnsCacheEntry) (now : ℤ) : Bool := now ≤ e.validUntil

def ttl (e : DnsCacheEntry) (now : ℤ) : ℕ := durationSince e.validUntil now

/-- `stats.hit()`. -/
def hit (e : DnsCacheEntry) : DnsCacheEntry := { e with stats := { e.stats with hits := e.stats.hits + 1 } }

end DnsCacheEntry
end Cache
end SmartDns
