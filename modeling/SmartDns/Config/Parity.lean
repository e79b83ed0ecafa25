/-
# Parameters in a group's block and at top level

The same assignments, once in the block of a group with nothing at top level
(`inBlock`) and once at top level with nothing in the block (`atTop`). A query of the
group sees the same value of nearly every parameter (`sameSingles`). The chains of three
are written otherwise for a group: `rr-ttl` comes there before `rr-ttl-min` and
`rr-ttl-max`, at top level after them, and a group that does not set `local-ttl` takes
the configuration's, whatever its own `rr-ttl-min` is.

Key definitions: `inBlock`, `atTop`, `SameParameters`.
Key theorem: `group_block_parity`.
-/
import SmartDns.Config.RuleGroup

namespace SmartDns
namespace Config

open Server RuntimeConfig

section

variable (cfg : RuntimeConfig) (group : String) (p : GroupParams)

/-- The configuration with these parameters at top level and those in the group's block. -/
def withParams (top block : GroupParams) : RuntimeConfig :=
  { cfg with
    params := top
    ruleGroups := fun name => if name == normalizeRuleGroupName group then some block else cfg.ruleGroups name }

def inBlock : RuntimeConfig := withParams cfg group {} p

def atTop : RuntimeConfig := withParams cfg group p {}

@[simp] theorem groupParams_withParams (top block : GroupParams) :
    (withParams cfg group top block).groupParams group = block := by
  show (if normalizeRuleGroupName group == normalizeRuleGroupName group then some block else _).getD {} = block
  rw [if_pos (beq_self_eq_true _)]
  rfl

@[simp] theorem params_withParams (top block : GroupParams) : (withParams cfg group top block).params = top := rfl

end

/-- A query of the group sees the same value of each parameter that stands for itself. -/
structure SameSingles (cfg cfg' : RuntimeConfig) (group : String) : Prop where
  rrTtl : cfg.rrTtlInGroup group = cfg'.rrTtlInGroup group
  rrTtlReplyMax : cfg.rrTtlReplyMaxInGroup group = cfg'.rrTtlReplyMaxInGroup group
  maxReplyIpNum : cfg.maxReplyIpNumInGroup group = cfg'.maxReplyIpNumInGroup group
  dualstackIpSelection : cfg.dualstackIpSelectionInGroup group = cfg'.dualstackIpSelectionInGroup group
  dualstackIpAllowForceAaaa : cfg.dualstackIpAllowForceAaaaInGroup group = cfg'.dualstackIpAllowForceAaaaInGroup group
  dualstackIpSelectionThreshold :
    cfg.dualstackIpSelectionThresholdInGroup group = cfg'.dualstackIpSelectionThresholdInGroup group
  serveExpired : cfg.serveExpiredInGroup group = cfg'.serveExpiredInGroup group
  serveExpiredReplyTtl : cfg.serveExpiredReplyTtlInGroup group = cfg'.serveExpiredReplyTtlInGroup group
  prefetchDomain : cfg.prefetchDomainInGroup group = cfg'.prefetchDomainInGroup group
  ipsetTimeout : cfg.ipsetTimeoutInGroup group = cfg'.ipsetTimeoutInGroup group
  nftsetTimeout : cfg.nftsetTimeoutInGroup group = cfg'.nftsetTimeoutInGroup group
  dns64Prefix : cfg.dns64PrefixInGroup group = cfg'.dns64PrefixInGroup group
  responseMode : cfg.responseModeInGroup group = cfg'.responseModeInGroup group
  speedCheckMode : cfg.speedCheckModeInGroup group = cfg'.speedCheckModeInGroup group
  forceAaaaSoa : cfg.forceAaaaSoaInGroup group = cfg'.forceAaaaSoaInGroup group
  forceNoCname : cfg.forceNoCnameInGroup group = cfg'.forceNoCnameInGroup group

/-- And of those that others stand in for. -/
structure SameParameters (cfg cfg' : RuntimeConfig) (group : String) : Prop extends SameSingles cfg cfg' group where
  rrTtlMin : cfg.rrTtlMinInGroup group = cfg'.rrTtlMinInGroup group
  rrTtlMax : cfg.rrTtlMaxInGroup group = cfg'.rrTtlMaxInGroup group
  localTtl : cfg.localTtlInGroup group = cfg'.localTtlInGroup group

/-! ### Parameters that stand for themselves -/

section

variable (cfg : RuntimeConfig) (group : String) (p : GroupParams)

theorem sameSingles : SameSingles (inBlock cfg group p) (atTop cfg group p) group := by
  unfold inBlock atTop
  constructor <;>
    simp [rrTtlInGroup, rrTtlReplyMaxInGroup, maxReplyIpNumInGroup, dualstackIpSelectionInGroup,
      dualstackIpAllowForceAaaaInGroup, dualstackIpSelectionThresholdInGroup, serveExpiredInGroup,
      serveExpiredReplyTtlInGroup, prefetchDomainInGroup, ipsetTimeoutInGroup, nftsetTimeoutInGroup,
      dns64PrefixInGroup, responseModeInGroup, speedCheckModeInGroup, forceAaaaSoaInGroup, forceNoCnameInGroup]

/-! ### Parameters that others stand in for -/

/-- In the block `rr-ttl` comes first; at top level, `rr-ttl-min`. -/
theorem rrTtlMinInGroup_inBlock :
    (inBlock cfg group p).rrTtlMinInGroup group = p.rrTtl.or ((atTop cfg group p).rrTtlMinInGroup group) := by
  unfold inBlock atTop
  simp only [rrTtlMinInGroup, rrTtlMin, groupParams_withParams, params_withParams]
  cases p.rrTtl <;> simp

theorem rrTtlMaxInGroup_inBlock :
    (inBlock cfg group p).rrTtlMaxInGroup group = p.rrTtl.or ((atTop cfg group p).rrTtlMaxInGroup group) := by
  unfold inBlock atTop
  simp only [rrTtlMaxInGroup, rrTtlMax, groupParams_withParams, params_withParams]
  cases p.rrTtl <;> simp

theorem localTtlInGroup_inBlock : (inBlock cfg group p).localTtlInGroup group = p.localTtl.getD 60 := by
  unfold inBlock
  simp only [localTtlInGroup, localTtl, rrTtlMin, groupParams_withParams, params_withParams]
  rfl

theorem localTtlInGroup_atTop :
    (atTop cfg group p).localTtlInGroup group = p.localTtl.getD ((p.rrTtlMin.or p.rrTtl).getD 60) := by
  unfold atTop
  simp only [localTtlInGroup, localTtl, rrTtlMin, groupParams_withParams, params_withParams]
  cases p.localTtl <;> rfl

/-- **A group's block says what it says at top level**, but for three parameters that others
stand in for: there the group has an order of its own. -/
theorem group_block_parity :
    SameSingles (inBlock cfg group p) (atTop cfg group p) group ∧
    (inBlock cfg group p).rrTtlMinInGroup group = p.rrTtl.or ((atTop cfg group p).rrTtlMinInGroup group) ∧
    (inBlock cfg group p).rrTtlMaxInGroup group = p.rrTtl.or ((atTop cfg group p).rrTtlMaxInGroup group) ∧
    (inBlock cfg group p).localTtlInGroup group = p.localTtl.getD 60 ∧
    (p.localTtl.isSome ∨ p.rrTtlMin = none ∧ p.rrTtl = none →
      (inBlock cfg group p).localTtlInGroup group = (atTop cfg group p).localTtlInGroup group) := by
  refine ⟨sameSingles cfg group p, rrTtlMinInGroup_inBlock cfg group p, rrTtlMaxInGroup_inBlock cfg group p,
    localTtlInGroup_inBlock cfg group p, fun h => ?_⟩
  rw [localTtlInGroup_inBlock, localTtlInGroup_atTop]
  rcases h with hset | ⟨hmin, httl⟩
  · obtain ⟨ttl, httl⟩ := Option.isSome_iff_exists.mp hset
    rw [httl]
    rfl
  · rw [hmin, httl]
    rfl

end

/-- `rr-ttl 111` and `rr-ttl-min 500`. -/
def ttlAndMin : GroupParams := { rrTtl := some 111, rrTtlMin := some 500 }

/-- **In the block 111 is the least TTL, at top level 500.** -/
theorem rr_ttl_first_in_block :
    ¬ SameParameters (inBlock bareConfig "office" ttlAndMin) (atTop bareConfig "office" ttlAndMin) "office" := by
  intro h
  have hmin : (some 111 : Option UInt64) = some 500 := h.rrTtlMin
  revert hmin
  decide

end Config
end SmartDns
