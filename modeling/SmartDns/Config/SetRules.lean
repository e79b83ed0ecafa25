/-
# Set rules and the other settings of a query

`find_domain_rule` asks the tree of the query's group, and the default group's tree
where the first has nothing. The set rules are nodes of every tree, so a set rule can
answer in a group that has nothing to say about a name: then the default group is not
asked (`officeTree_starves`).

`RuleTrees.ordinaryWalk` is what a query meets, up from its name, of patterns with
other rules, each with the tree it is in. As long as the set rules leave this walk, they
leave every other setting; and where they change it, some choice of settings under these
patterns shows it (`unchanged_iff_sameWalk`).

Key definitions: `RuleTrees.ordinaryWalk`, `Unchanged`, `RuleTrees.filled`.
Key theorem: `unchanged_iff_sameWalk`.
-/
import SmartDns.Config.RuleGroup
import SmartDns.Rule.Sound

namespace SmartDns
namespace Config

open Dns Lib Rule Server

namespace RuleTrees

variable (rt : RuleTrees)

/-- Other set rules, for instance some more. -/
def withSets (nftsets : List (ConfigForDomain (List (ConfigForIP NFTsetConfig))))
    (ipsets : List (ConfigForDomain (List (ConfigForIP IpsetConfig)))) : RuleTrees :=
  { rt with nftsets := nftsets, ipsets := ipsets }

/-- Other settings under the patterns of the rules that are not set rules. -/
def filled (content : String → WildcardName → DomainRule) : RuleTrees :=
  { rt with groups := fun name => (rt.groups name).map fun g =>
      { domainRules := ((rt.ruleSetOf g).filled (content name)).domainRules } }

variable (crateMatch : List UInt8 → List UInt8 → Bool)

/-- The tree that answers: the group's own where it has anything for the name. -/
def answering (group : String) (q : Name) : String :=
  if (zoneChain crateMatch (rt.ruleSet (RuntimeConfig.normalizeRuleGroupName group)).ruleItems q).isEmpty then
    RuntimeConfig.defaultGroup
  else RuntimeConfig.normalizeRuleGroupName group

/-- The patterns with other rules that a query of the group meets, with the tree they are in. -/
def ordinaryWalk (group : String) (q : Name) : List (String × WildcardName) :=
  let name := rt.answering crateMatch group q
  ((rt.ruleSet name).ordinaryWalk crateMatch q).map fun p => (name, p)

end RuleTrees

/-- Every setting other than the sets is the same for this query. -/
def Unchanged (cfg : RuntimeConfig) (rt rt' : RuleTrees) (group : String) (q : Name) : Prop :=
  ∀ {α : Type} (f : OtherReader α),
    ruleGet ((withTrees cfg rt').findDomainRule q group) f.read =
      ruleGet ((withTrees cfg rt).findDomainRule q group) f.read

/-! ### What a query reads -/

section

variable (cfg : RuntimeConfig) (rt : RuleTrees) (group : String) (q : Name)

theorem normalize_defaultGroup :
    RuntimeConfig.normalizeRuleGroupName RuntimeConfig.defaultGroup = RuntimeConfig.defaultGroup := rfl

/-- One tree answers. -/
theorem findDomainRule_withTrees : (withTrees cfg rt).findDomainRule q group =
    (DomainRuleMap.create cfg.crates.crateMatch (rt.ruleSet (rt.answering cfg.crates.crateMatch group q))).find
      cfg.crates.crateMatch q := by
  unfold RuntimeConfig.findDomainRule RuleTrees.answering
  rw [domainRuleGroup_withTrees, domainRuleGroup_withTrees, normalize_defaultGroup]
  show Option.or (DomainMap.find cfg.crates.crateMatch _ q) (DomainMap.find cfg.crates.crateMatch _ q) = _
  have hnone := RuleSet.find_create_eq_none_iff
    (rt.ruleSet (RuntimeConfig.normalizeRuleGroupName group)) cfg.crates.crateMatch q
  by_cases hempty : zoneChain cfg.crates.crateMatch
      (rt.ruleSet (RuntimeConfig.normalizeRuleGroupName group)).ruleItems q = []
  · rw [hnone.mpr hempty, Option.none_or, hempty, List.isEmpty_nil, if_pos rfl]
  · rw [if_neg (mt List.isEmpty_iff.mp hempty)]
    apply Option.or_of_isSome
    exact Option.isSome_iff_ne_none.mpr (mt hnone.mp hempty)

/-- **A query reads its other settings off its walk.** -/
theorem ruleGet_eq_findSome?_walk {α : Type} (f : OtherReader α) :
    ruleGet ((withTrees cfg rt).findDomainRule q group) f.read =
      (rt.ordinaryWalk cfg.crates.crateMatch group q).findSome? fun e =>
        f.read (RuleSet.ruleUnder (rt.ruleSet e.1).ordinaryMap e.2) := by
  rw [findDomainRule_withTrees, RuleTrees.ordinaryWalk, List.findSome?_map]
  exact RuleSet.getAt_eq_findSome?_ordinaryWalk _ _ f q

end

/-! ### The walk alone -/

section

variable (rt : RuleTrees) (content : String → WildcardName → DomainRule)
variable (crateMatch : List UInt8 → List UInt8 → Bool) (group : String) (q : Name)

theorem ruleSet_filled (name : String) : (rt.filled content).ruleSet name = (rt.ruleSet name).filled (content name) := by
  unfold RuleTrees.ruleSet RuleTrees.filled
  dsimp only
  cases rt.groups name with
  | none => rfl
  | some g => rfl

theorem answering_filled : (rt.filled content).answering crateMatch group q = rt.answering crateMatch group q := by
  have hwalk := RuleSet.walkPatterns_filled (rt.ruleSet (RuntimeConfig.normalizeRuleGroupName group))
    (content (RuntimeConfig.normalizeRuleGroupName group)) crateMatch q
  have hempty := congrArg List.isEmpty hwalk
  rw [List.isEmpty_map, List.isEmpty_map] at hempty
  rw [RuleTrees.answering, RuleTrees.answering, ruleSet_filled, hempty]

/-- **The walk does not depend on the settings under the patterns.** -/
theorem ordinaryWalk_filled :
    (rt.filled content).ordinaryWalk crateMatch group q = rt.ordinaryWalk crateMatch group q := by
  rw [RuleTrees.ordinaryWalk, RuleTrees.ordinaryWalk, answering_filled, ruleSet_filled, RuleSet.ordinaryWalk_filled]

/-- The other rules under a pattern do not depend on the set rules. -/
theorem ordinaryMap_withSets (nftsets : List (ConfigForDomain (List (ConfigForIP NFTsetConfig))))
    (ipsets : List (ConfigForDomain (List (ConfigForIP IpsetConfig)))) (name : String) :
    ((rt.withSets nftsets ipsets).ruleSet name).ordinaryMap = (rt.ruleSet name).ordinaryMap := by
  unfold RuleTrees.ruleSet RuleTrees.withSets
  dsimp only
  cases rt.groups name with
  | none => rfl
  | some g => rfl

theorem filled_withSets (nftsets : List (ConfigForDomain (List (ConfigForIP NFTsetConfig))))
    (ipsets : List (ConfigForDomain (List (ConfigForIP IpsetConfig)))) :
    (rt.withSets nftsets ipsets).filled content = (rt.filled content).withSets nftsets ipsets := rfl

theorem fst_of_mem_walk {e : String × WildcardName} (h : e ∈ rt.ordinaryWalk crateMatch group q) :
    e.1 = rt.answering crateMatch group q ∧ e.2 ∈ (rt.ruleSet e.1).ordinaryPatterns := by
  obtain ⟨p, hp, rfl⟩ := List.mem_map.mp h
  exact ⟨rfl, RuleSet.mem_ordinaryPatterns_of_walk _ crateMatch hp⟩

/-- Later patterns first. -/
def Above (a b : String × WildcardName) : Prop := b.2.cmp a.2 = .lt

instance : Std.Irrefl Above where
  irrefl a h := by
    have hself : a.2.cmp a.2 = .eq := Std.ReflCmp.compare_self
    rw [Above, hself] at h
    cases h

instance : Std.Antisymm Above where
  antisymm a b h h' := by
    have hswap := WildcardName.cmp_swap a.2 b.2
    rw [show b.2.cmp a.2 = .lt from h, show a.2.cmp b.2 = .lt from h'] at hswap
    cases hswap

theorem ordinaryWalk_pairwise : (rt.ordinaryWalk crateMatch group q).Pairwise Above :=
  List.pairwise_map.mpr (RuleSet.ordinaryWalk_pairwise _ crateMatch q)

end

/-! ### When set rules change nothing else -/

section

variable (cfg : RuntimeConfig) (rt : RuleTrees) (group : String) (q : Name)

/-- Only the rule under one pattern of one tree says anything. -/
def markAt (e : String × WildcardName) : String → WildcardName → DomainRule :=
  fun name p => if (name == e.1 && p == e.2) = true then { noCache := some true } else {}

/-- A mark under a pattern of the rules is seen by the queries that meet it. -/
theorem isSome_ruleGet_markAt {e : String × WildcardName} (he : e.2 ∈ (rt.ruleSet e.1).ordinaryPatterns) :
    (ruleGet ((withTrees cfg (rt.filled (markAt e))).findDomainRule q group) OtherReader.noCache.read).isSome ↔
      e ∈ rt.ordinaryWalk cfg.crates.crateMatch group q := by
  rw [ruleGet_eq_findSome?_walk, ordinaryWalk_filled, List.findSome?_isSome_iff]
  have hread : ∀ e' ∈ rt.ordinaryWalk cfg.crates.crateMatch group q,
      OtherReader.noCache.read (RuleSet.ruleUnder ((rt.filled (markAt e)).ruleSet e'.1).ordinaryMap e'.2) =
        (markAt e e'.1 e'.2).noCache := by
    intro e' he'
    rw [ruleSet_filled, RuleSet.ruleUnder_filled _ _ (fst_of_mem_walk _ _ _ _ he').2]
    rfl
  constructor
  · rintro ⟨e', he', hsome⟩
    rw [hread e' he', markAt] at hsome
    by_cases hmark : (e'.1 == e.1 && e'.2 == e.2) = true
    · obtain ⟨hname, hpattern⟩ := Bool.and_eq_true_iff.mp hmark
      have hname : e'.1 = e.1 := eq_of_beq hname
      have hpattern : e'.2 = e.2 := RuleSet.eq_of_beq_of_mem _ (hname ▸ (fst_of_mem_walk _ _ _ _ he').2) he hpattern
      exact Prod.ext hname hpattern ▸ he'
    · rw [if_neg hmark] at hsome
      cases hsome
  · intro hmem
    refine ⟨e, hmem, ?_⟩
    rw [hread e hmem, markAt, if_pos (by simp)]
    rfl

variable (nftsets : List (ConfigForDomain (List (ConfigForIP NFTsetConfig))))
variable (ipsets : List (ConfigForDomain (List (ConfigForIP IpsetConfig))))

/-- Up from the name, a query meets the same patterns with other rules, in the same tree. -/
def SameWalk (crateMatch : List UInt8 → List UInt8 → Bool) : Prop :=
  (rt.withSets nftsets ipsets).ordinaryWalk crateMatch group q = rt.ordinaryWalk crateMatch group q

theorem unchanged_of_sameWalk (h : SameWalk rt group q nftsets ipsets cfg.crates.crateMatch) :
    Unchanged cfg rt (rt.withSets nftsets ipsets) group q := by
  intro α f
  rw [ruleGet_eq_findSome?_walk, ruleGet_eq_findSome?_walk, h]
  simp only [ordinaryMap_withSets]

theorem sameWalk_of_unchanged (h : ∀ content, Unchanged cfg (rt.filled content)
    ((rt.filled content).withSets nftsets ipsets) group q) :
    SameWalk rt group q nftsets ipsets cfg.crates.crateMatch := by
  have hpatterns : ∀ name, ((rt.withSets nftsets ipsets).ruleSet name).ordinaryPatterns =
      (rt.ruleSet name).ordinaryPatterns := fun name => congrArg KeyMap.keys (ordinaryMap_withSets rt nftsets ipsets name)
  -- A pattern that one of the walks meets is marked, and the mark is seen on both.
  have hseen : ∀ e : String × WildcardName, e.2 ∈ (rt.ruleSet e.1).ordinaryPatterns →
      (e ∈ (rt.withSets nftsets ipsets).ordinaryWalk cfg.crates.crateMatch group q ↔
        e ∈ rt.ordinaryWalk cfg.crates.crateMatch group q) := by
    intro e he
    rw [← isSome_ruleGet_markAt cfg rt group q he,
      ← isSome_ruleGet_markAt cfg (rt.withSets nftsets ipsets) group q ((hpatterns e.1).symm ▸ he),
      filled_withSets, h (markAt e) OtherReader.noCache]
  apply (ordinaryWalk_pairwise (rt.withSets nftsets ipsets) _ group q).eq_of_mem_iff
    (ordinaryWalk_pairwise rt _ group q)
  intro e
  constructor
  · intro hmem
    exact (hseen e (hpatterns e.1 ▸ (fst_of_mem_walk _ _ _ _ hmem).2)).mp hmem
  · intro hmem
    exact (hseen e (fst_of_mem_walk _ _ _ _ hmem).2).mpr hmem

/-- **Set rules change nothing else as long as the walk stays**, and only then whatever the settings are. -/
theorem unchanged_iff_sameWalk :
    (SameWalk rt group q nftsets ipsets cfg.crates.crateMatch →
      Unchanged cfg rt (rt.withSets nftsets ipsets) group q) ∧
    ((∀ content, Unchanged cfg (rt.filled content) ((rt.filled content).withSets nftsets ipsets) group q) ↔
      SameWalk rt group q nftsets ipsets cfg.crates.crateMatch) := by
  refine ⟨unchanged_of_sameWalk cfg rt group q nftsets ipsets, sameWalk_of_unchanged cfg rt group q nftsets ipsets,
    fun h content => ?_⟩
  rw [← filled_withSets]
  apply unchanged_of_sameWalk cfg (rt.filled content) group q nftsets ipsets
  rw [SameWalk, ← filled_withSets, ordinaryWalk_filled, ordinaryWalk_filled, h]

end

/-! ### A set rule that hides the default group's rules -/

/-- `force-AAAA-SOA` as an address rule for `www.example.com` in the default group; the group `office` has no rules. -/
def officeTrees : RuleTrees where
  groups name :=
    if name == "default" then some { addressRules := [⟨.name (.default wwwExampleCom), .soav6⟩] }
    else if name == "office" then some {}
    else none

/-- `nftset /www.example.com/#4:inet#fw4#office`. -/
def officeSet : ConfigForDomain (List (ConfigForIP NFTsetConfig)) where
  domain := .name (.default wwwExampleCom)
  config := [.v4 ⟨"inet", "fw4", "office"⟩]

/-- **The set rule takes the address rule from `office`.** -/
theorem set_rule_hides_address :
    ¬ Unchanged bareConfig officeTrees (officeTrees.withSets [officeSet] []) "office" wwwExampleCom := by
  intro h
  have haddress : none = some AddressRuleValue.soav6 := h OtherReader.address
  cases haddress

end Config
end SmartDns
