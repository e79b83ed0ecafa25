/-
# What the projection of the options loses

`AnswerAffectingOpts::from_server_opts` makes two values of an option that may be
unset: what is not said of `force-AAAA-SOA` is `false`, and what is said of
`force-no-CNAME`, whatever it is, is `true`. Those who decide ask the option itself,
since what a listener leaves unset is up to the rule group and the configuration.
Listeners with one projection decide alike exactly where they leave the same flag
unset, or where group and configuration do not force the SOA either
(`sameDecisions_iff`); a refresh, whose options say `false` for what was unset, does
so where the listener said something or there is nothing to force
(`refresh_decides_alike_iff`).
-/
import SmartDns.Server.Suppression

namespace SmartDns
namespace Server
namespace Projection

open Dns Cache

/-- `-no-rule-nameserver`: no group is picked for the query. -/
def skipsNameserverRule (ctx : ChainContext) : Bool := ctx.serverOpts.noRuleNameserver.getD false

def speedCheckOff (ctx : ChainContext) : Bool := ctx.serverOpts.noSpeedCheck.getD false

/-- An HTTPS query is answered with an SOA record. -/
def forcesHttpsSoa (cfg : RuntimeConfig) (ctx : ChainContext) : Bool :=
  ctx.serverOpts.forceHttpsSoa.getD false || cfg.forceHttpsSoa

/-- Every decision that shapes an answer is the same. -/
structure SameDecisions (cfg : RuntimeConfig) (serial : ℕ) (ctx ctx' : ChainContext) : Prop where
  forceAaaaSoa : ctx.forceAaaaSoa cfg = ctx'.forceAaaaSoa cfg
  forceNoCname : ctx.forceNoCname cfg = ctx'.forceNoCname cfg
  forcesHttpsSoa : forcesHttpsSoa cfg ctx = forcesHttpsSoa cfg ctx'
  handleRuleAddr : ∀ queryType, handleRuleAddr cfg serial queryType ctx = handleRuleAddr cfg serial queryType ctx'
  speedCheckOff : speedCheckOff ctx = speedCheckOff ctx'
  skipsSpeedRace : shouldSkipSpeedRace cfg ctx = shouldSkipSpeedRace cfg ctx'
  dualstackEnabled : dualstackEnabled cfg ctx = dualstackEnabled cfg ctx'
  skipsNameserverRule : skipsNameserverRule ctx = skipsNameserverRule ctx'

section

variable {cfg : RuntimeConfig} {name : Name} {o o' : ServerOpts}

theorem ruleGroup_eq (h : fromServerOpts o = fromServerOpts o') : o.ruleGroup = o'.ruleGroup :=
  congrArg AnswerAffectingOpts.ruleGroup h

theorem effectiveRuleGroup_eq (h : fromServerOpts o = fromServerOpts o') :
    (ChainContext.new cfg name o).effectiveRuleGroup = (ChainContext.new cfg name o').effectiveRuleGroup := by
  show o.ruleGroup.getD "" = o'.ruleGroup.getD ""
  rw [ruleGroup_eq h]

theorem domainRule_eq (h : fromServerOpts o = fromServerOpts o') :
    (ChainContext.new cfg name o).domainRule = (ChainContext.new cfg name o').domainRule := by
  show cfg.findDomainRule name (o.ruleGroup.getD "") = cfg.findDomainRule name (o'.ruleGroup.getD "")
  rw [ruleGroup_eq h]

/-- What the group, or the configuration, says where the listener says nothing. -/
def deferredAaaaSoa (cfg : RuntimeConfig) (o : ServerOpts) : Bool := cfg.forceAaaaSoaInGroup (o.ruleGroup.getD "")

/-- **What is lost of `force-AAAA-SOA`**: whether the listener says no or nothing. -/
theorem forceAaaaSoa_eq_iff (h : fromServerOpts o = fromServerOpts o') :
    (ChainContext.new cfg name o).forceAaaaSoa cfg = (ChainContext.new cfg name o').forceAaaaSoa cfg ↔
      (o.forceAaaaSoa = o'.forceAaaaSoa ∨ deferredAaaaSoa cfg o = false) := by
  have hproj : o.forceAaaaSoa.getD false = o'.forceAaaaSoa.getD false := congrArg AnswerAffectingOpts.forceAaaaSoa h
  have hgroup : o'.ruleGroup = o.ruleGroup := (ruleGroup_eq h).symm
  show o.forceAaaaSoa.getD (deferredAaaaSoa cfg o) =
    o'.forceAaaaSoa.getD (cfg.forceAaaaSoaInGroup (o'.ruleGroup.getD "")) ↔ _
  rw [hgroup]
  show o.forceAaaaSoa.getD (deferredAaaaSoa cfg o) = o'.forceAaaaSoa.getD (deferredAaaaSoa cfg o) ↔ _
  generalize deferredAaaaSoa cfg o = deferred
  generalize o.forceAaaaSoa = x at hproj ⊢
  generalize o'.forceAaaaSoa = y at hproj ⊢
  rcases x with _ | _ | _ <;> rcases y with _ | _ | _ <;> simp_all [eq_comm]

/-- **What is lost of `force-no-CNAME`**: whether it is yes or no that the listener says. -/
theorem forceNoCname_eq_iff (h : fromServerOpts o = fromServerOpts o') :
    (ChainContext.new cfg name o).forceNoCname cfg = (ChainContext.new cfg name o').forceNoCname cfg ↔
      o.forceNoCname = o'.forceNoCname := by
  have hproj : o.forceNoCname.isSome = o'.forceNoCname.isSome := congrArg AnswerAffectingOpts.forceNoCname h
  show o.forceNoCname.getD (cfg.forceNoCnameInGroup (o.ruleGroup.getD "")) =
    o'.forceNoCname.getD (cfg.forceNoCnameInGroup (o'.ruleGroup.getD "")) ↔ _
  rw [ruleGroup_eq h]
  generalize cfg.forceNoCnameInGroup (o'.ruleGroup.getD "") = deferred
  generalize o.forceNoCname = x at hproj ⊢
  generalize o'.forceNoCname = y at hproj ⊢
  rcases x with _ | _ | _ <;> rcases y with _ | _ | _ <;> simp_all

/-- Of the forced SOA records only that for AAAA depends on what is lost. -/
theorem handleRuleAddr_eq {serial : ℕ} (h : fromServerOpts o = fromServerOpts o')
    (hsoa : (ChainContext.new cfg name o).forceAaaaSoa cfg = (ChainContext.new cfg name o').forceAaaaSoa cfg)
    (queryType : RecordType) :
    handleRuleAddr cfg serial queryType (.new cfg name o) = handleRuleAddr cfg serial queryType (.new cfg name o') := by
  have hnoRuleSoa : o.noRuleSoa.getD false = o'.noRuleSoa.getD false := congrArg AnswerAffectingOpts.noRuleSoa h
  have hnoRuleAddr : o.noRuleAddr.getD false = o'.noRuleAddr.getD false := congrArg AnswerAffectingOpts.noRuleAddr h
  have hhttps : o.forceHttpsSoa.getD false = o'.forceHttpsSoa.getD false :=
    congrArg AnswerAffectingOpts.forceHttpsSoa h
  have hforces : forcesSoa cfg (.new cfg name o) queryType = forcesSoa cfg (.new cfg name o') queryType := by
    unfold forcesSoa
    rw [hsoa]
    show (_ || decide (queryType = .HTTPS) && (o.forceHttpsSoa.getD false || cfg.forceHttpsSoa) || _) =
      (_ || decide (queryType = .HTTPS) && (o'.forceHttpsSoa.getD false || cfg.forceHttpsSoa) || _)
    rw [hhttps]
  unfold handleRuleAddr
  rw [hforces, domainRule_eq h]
  show (if !o.noRuleSoa.getD false && _ then _ else if o.noRuleAddr.getD false || _ then _
      else addressWalk serial (o.noRuleSoa.getD false) queryType _) =
    (if !o'.noRuleSoa.getD false && _ then _ else if o'.noRuleAddr.getD false || _ then _
      else addressWalk serial (o'.noRuleSoa.getD false) queryType _)
  rw [hnoRuleSoa, hnoRuleAddr]

theorem shouldSkipSpeedRace_eq (h : fromServerOpts o = fromServerOpts o') :
    shouldSkipSpeedRace cfg (.new cfg name o) = shouldSkipSpeedRace cfg (.new cfg name o') := by
  have hspeed : o.noSpeedCheck.getD false = o'.noSpeedCheck.getD false := congrArg AnswerAffectingOpts.noSpeedCheck h
  unfold shouldSkipSpeedRace speedCheckModes ChainContext.speedCheckMode
  rw [domainRule_eq h, effectiveRuleGroup_eq h]
  show (o.noSpeedCheck.getD false || _) = (o'.noSpeedCheck.getD false || _)
  rw [hspeed]

theorem dualstackEnabled_eq (h : fromServerOpts o = fromServerOpts o') :
    dualstackEnabled cfg (.new cfg name o) = dualstackEnabled cfg (.new cfg name o') := by
  have hdual : o.noDualstackSelection.getD false = o'.noDualstackSelection.getD false :=
    congrArg AnswerAffectingOpts.noDualstackSelection h
  unfold dualstackEnabled
  rw [domainRule_eq h, effectiveRuleGroup_eq h]
  show (!o.noDualstackSelection.getD false && _) = (!o'.noDualstackSelection.getD false && _)
  rw [hdual]

/-- **All the others are kept by the projection.** -/
theorem sameDecisions_of {serial : ℕ} (h : fromServerOpts o = fromServerOpts o')
    (hsoa : (ChainContext.new cfg name o).forceAaaaSoa cfg = (ChainContext.new cfg name o').forceAaaaSoa cfg)
    (hcname : (ChainContext.new cfg name o).forceNoCname cfg = (ChainContext.new cfg name o').forceNoCname cfg) :
    SameDecisions cfg serial (.new cfg name o) (.new cfg name o') where
  forceAaaaSoa := hsoa
  forceNoCname := hcname
  forcesHttpsSoa := by
    show (o.forceHttpsSoa.getD false || _) = (o'.forceHttpsSoa.getD false || _)
    rw [show o.forceHttpsSoa.getD false = o'.forceHttpsSoa.getD false from
      congrArg AnswerAffectingOpts.forceHttpsSoa h]
  handleRuleAddr := handleRuleAddr_eq h hsoa
  speedCheckOff := congrArg AnswerAffectingOpts.noSpeedCheck h
  skipsSpeedRace := shouldSkipSpeedRace_eq h
  dualstackEnabled := dualstackEnabled_eq h
  skipsNameserverRule := congrArg AnswerAffectingOpts.noRuleNameserver h

theorem sameDecisions_iff_flags (cfg : RuntimeConfig) (serial : ℕ) (name : Name) (o o' : ServerOpts)
    (h : fromServerOpts o = fromServerOpts o') :
    SameDecisions cfg serial (.new cfg name o) (.new cfg name o') ↔
      (o.forceAaaaSoa = o'.forceAaaaSoa ∨ deferredAaaaSoa cfg o = false) ∧ o.forceNoCname = o'.forceNoCname := by
  have hsoa := @forceAaaaSoa_eq_iff cfg name o o' h
  have hcname := @forceNoCname_eq_iff cfg name o o' h
  rw [← hsoa, ← hcname]
  exact ⟨fun hsame => ⟨hsame.forceAaaaSoa, hsame.forceNoCname⟩, fun ⟨hsoa, hcname⟩ => sameDecisions_of h hsoa hcname⟩

/-- The options of a refresh. -/
def refreshOpts (o : ServerOpts) (group : String) : ServerOpts := toServerOpts (fromServerOpts o) group

theorem fromServerOpts_refreshOpts (o : ServerOpts) (group : String) :
    fromServerOpts o = fromServerOpts (refreshOpts o group) :=
  (fromServerOpts_toServerOpts (fromServerOpts o) group).symm

/-- A refresh says of the flags what was said, but `false` for nothing, and `true` for `false`. -/
theorem refreshOpts_forceAaaaSoa (o : ServerOpts) (group : String) :
    o.forceAaaaSoa = (refreshOpts o group).forceAaaaSoa ↔ o.forceAaaaSoa ≠ none := by
  show o.forceAaaaSoa = some (o.forceAaaaSoa.getD false) ↔ _
  cases o.forceAaaaSoa <;> simp

theorem refreshOpts_forceNoCname (o : ServerOpts) (group : String) :
    o.forceNoCname = (refreshOpts o group).forceNoCname ↔ o.forceNoCname ≠ some false := by
  show o.forceNoCname = (if o.forceNoCname.isSome = true then some true else none) ↔ _
  rcases o.forceNoCname with _ | _ | _ <;> simp

end

/-- **Two listeners with one projection decide alike exactly where they say the same of the flags, or unset is as
good as no**; and a refresh decides as its listener exactly where that said something, or nothing is forced. -/
theorem sameDecisions_iff (cfg : RuntimeConfig) (serial : ℕ) (name : Name) :
    (∀ o o' : ServerOpts, o.group = o'.group → fromServerOpts o = fromServerOpts o' →
      (SameDecisions cfg serial (.new cfg name o) (.new cfg name o') ↔
        (o.forceAaaaSoa = o'.forceAaaaSoa ∨ deferredAaaaSoa cfg o = false) ∧ o.forceNoCname = o'.forceNoCname)) ∧
    ∀ (o : ServerOpts) (group : String),
      (SameDecisions cfg serial (.new cfg name o) (.new cfg name (refreshOpts o group)) ↔
        (o.forceAaaaSoa ≠ none ∨ deferredAaaaSoa cfg o = false) ∧ o.forceNoCname ≠ some false) := by
  refine ⟨fun o o' _ h => sameDecisions_iff_flags cfg serial name o o' h, fun o group => ?_⟩
  rw [sameDecisions_iff_flags cfg serial name o _ (fromServerOpts_refreshOpts o group), refreshOpts_forceAaaaSoa,
    refreshOpts_forceNoCname]

open Rule (wwwExampleCom)

/-- `force-AAAA-SOA yes`. -/
def aaaaSoaConfig : RuntimeConfig := { plainConfig with params := { forceAaaaSoa := some true } }

/-- A listener without options, and the refresh of what it stored. -/
theorem refresh_drops_force : ¬ ∀ (cfg : RuntimeConfig) (serial : ℕ) (name : Name) (o o' : ServerOpts),
    o.group = o'.group → fromServerOpts o = fromServerOpts o' →
      SameDecisions cfg serial (.new cfg name o) (.new cfg name o') := by
  intro h
  have hsame := (h aaaaSoaConfig 0 wwwExampleCom { group := some "default" } (toServerOpts {} "default") rfl
    rfl).forceAaaaSoa
  revert hsame
  decide +kernel

/-- Where nothing is forced, unset is as good as no. -/
theorem sameDecisions_plain : SameDecisions plainConfig 0 (.new plainConfig wwwExampleCom {})
    (.new plainConfig wwwExampleCom { forceAaaaSoa := some false }) :=
  ((sameDecisions_iff plainConfig 0 wwwExampleCom).1 {} { forceAaaaSoa := some false } rfl rfl).mpr
    ⟨.inr rfl, rfl⟩

end Projection
end Server
end SmartDns
