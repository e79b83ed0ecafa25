/-
# Set rules in a rule tree

`nftset` and `ipset` rules are gathered last, under patterns of their own or under
those of other rules. They write nothing but the sets, and a reader of any other
setting sees on the walk up from a name only the patterns that carry other rules
(`getAt_eq_findSome?_ordinaryWalk`). What set rules can change is which of these the
walk meets: their patterns are nodes as good as any, and a lookup that finds one of
them does not find what it found before.

`filled` keeps the patterns and puts settings of one's choice under them; the walk is
the same (`ordinaryWalk_filled`).

Key definitions: `OtherReader`, `RuleSet.ordinaryMap`, `RuleSet.ordinaryWalk`,
`RuleSet.filled`.
Key theorem: `RuleSet.getAt_eq_findSome?_ordinaryWalk`.
-/
import SmartDns.Rule.Chain

namespace SmartDns
namespace Rule

open Dns Lib

universe u

/-! ### Readers of other settings -/

def DomainRule.withoutSets (r : DomainRule) : DomainRule := { r with nftset := none, ipset := none }

/-- A reader of the settings other than the sets. -/
structure OtherReader (α : Type) where
  read : DomainRule → Option α
  read_default : read {} = none
  read_withoutSets : ∀ r : DomainRule, read r.withoutSets = read r

namespace OtherReader

/-- Any one of the settings is read so, where it is not one of the sets. -/
def ofSetting {α : Type} (s : Setting α) (h : ∀ r : DomainRule, s.get r.withoutSets = s.get r) : OtherReader α :=
  ⟨s.get, s.get_default, h⟩

def noCache : OtherReader Bool := ofSetting Setting.noCache fun _ => rfl

def address : OtherReader AddressRuleValue := ofSetting Setting.address fun _ => rfl

variable {α : Type} (f : OtherReader α)

theorem read_congr {r r' : DomainRule} (h : r.withoutSets = r'.withoutSets) : f.read r = f.read r' := by
  rw [← f.read_withoutSets r, h, f.read_withoutSets]

end OtherReader

/-! ### The patterns of a rule set -/

namespace RuleSet

variable (rs : RuleSet)

/-- `name_rule_map` after the loops over the rules other than set rules. -/
def ordinaryMap : KeyMap WildcardName DomainRule :=
  let m := rs.append DomainRule.addAssign rs.domainRules KeyMap.empty
  let m := rs.append appendAddress rs.addressRules m
  let m := rs.append setNameserver rs.forwardRules m
  let m := rs.append setCname rs.cnames m
  let m := rs.append setSrv rs.srvRecords m
  rs.append setHttps rs.httpsRecords m

theorem nameRuleMap_eq : rs.nameRuleMap =
    rs.append extendIpset rs.ipsets (rs.append extendNftset rs.nftsets rs.ordinaryMap) := rfl

theorem append_eq_foldl_expandRules {α : Type} (write : DomainRule → α → DomainRule)
    (rules : List (ConfigForDomain α)) (m : KeyMap WildcardName DomainRule) :
    rs.append write rules m =
      (rs.expandRules rules).foldl (fun m e => m.update e.1 fun entry => write (entry.getD {}) e.2) m := by
  unfold append expandRules
  rw [List.foldl_flatMap]
  simp only [List.foldl_map]

/-- A loop adds the patterns of its rules that are not there yet. -/
theorem keys_append {α : Type} (write : DomainRule → α → DomainRule) (rules : List (ConfigForDomain α))
    (m : KeyMap WildcardName DomainRule) :
    (rs.append write rules m).keys = ((rs.expandRules rules).map (·.1)).foldl KeyMap.pushKey m.keys := by
  rw [append_eq_foldl_expandRules]
  induction rs.expandRules rules generalizing m with
  | nil => rfl
  | cons e es ih => rw [List.foldl_cons, ih, KeyMap.keys_update, List.map_cons, List.foldl_cons]

/-- The rule under a pattern, if it has one. -/
def ruleUnder (m : KeyMap WildcardName DomainRule) (p : WildcardName) : DomainRule := (m.get? p).getD {}

/-- A loop that writes sets leaves the rest of every rule. -/
theorem ruleUnder_append {α : Type} {write : DomainRule → α → DomainRule}
    (hwrite : ∀ r c, (write r c).withoutSets = r.withoutSets) (rules : List (ConfigForDomain α))
    (m : KeyMap WildcardName DomainRule) (p : WildcardName) :
    (ruleUnder (rs.append write rules m) p).withoutSets = (ruleUnder m p).withoutSets := by
  rw [append_eq_foldl_expandRules]
  induction rs.expandRules rules generalizing m with
  | nil => rfl
  | cons e es ih =>
    rw [List.foldl_cons, ih, ruleUnder, KeyMap.get?_update]
    by_cases hp : (e.1 == p) = true
    · rw [if_pos hp, Option.getD_some, hwrite, ← KeyMap.get?_congr m hp]
      rw [KeyMap.get?_congr m hp]
      rfl
    · rw [if_neg hp]
      rfl

/-- **Set rules write nothing but sets.** -/
theorem ruleUnder_nameRuleMap (p : WildcardName) :
    (ruleUnder rs.nameRuleMap p).withoutSets = (ruleUnder rs.ordinaryMap p).withoutSets := by
  have hnft : ∀ r c, (extendNftset r c).withoutSets = r.withoutSets := fun _ _ => rfl
  have hip : ∀ r c, (extendIpset r c).withoutSets = r.withoutSets := fun _ _ => rfl
  rw [nameRuleMap_eq, rs.ruleUnder_append hip, rs.ruleUnder_append hnft]

theorem mem_ruleItems {e : WildcardName × DomainRule} : e ∈ rs.ruleItems ↔ e ∈ rs.nameRuleMap.entries := by
  unfold ruleItems
  exact List.mem_insertionSort _

theorem read_of_mem_ruleItems {α : Type} (f : OtherReader α) {e : WildcardName × DomainRule}
    (h : e ∈ rs.ruleItems) : f.read e.2 = f.read (ruleUnder rs.ordinaryMap e.1) := by
  apply f.read_congr
  rw [← rs.ruleUnder_nameRuleMap, ruleUnder, KeyMap.get?_of_mem (rs.mem_ruleItems.mp h)]
  rfl

/-! ### The walk, as other readers see it -/

variable (crateMatch : List UInt8 → List UInt8 → Bool)

/-- The patterns with other rules that the walk up from `q` meets. -/
def ordinaryWalk (q : Name) : List WildcardName :=
  ((zoneChain crateMatch rs.ruleItems q).map (·.1)).filter rs.ordinaryMap.contains

theorem findSome?_filter_of_none {α β : Type} {g : α → Option β} {p : α → Bool} :
    ∀ {l : List α}, (∀ a ∈ l, p a = false → g a = none) → (l.filter p).findSome? g = l.findSome? g
  | [], _ => rfl
  | a :: l, h => by
    have ih := findSome?_filter_of_none fun b hb => h b (List.mem_cons_of_mem a hb)
    cases hp : p a with
    | true => rw [List.filter_cons_of_pos hp, List.findSome?_cons, List.findSome?_cons, ih]
    | false =>
      rw [List.filter_cons_of_neg (by simp [hp]), List.findSome?_cons, h a List.mem_cons_self hp, ih]

/-- **Another setting is read off the walk over the patterns with other rules.** -/
theorem getAt_eq_findSome?_ordinaryWalk {α : Type} (f : OtherReader α) (q : Name) :
    (DomainRuleMap.create crateMatch rs).getAt crateMatch q (fun node => f.read node.rule) =
      (rs.ordinaryWalk crateMatch q).findSome? fun p => f.read (ruleUnder rs.ordinaryMap p) := by
  have hitems : ((DomainRuleMap.create crateMatch rs).chainAt crateMatch q).findSome? (fun node => f.read node.rule) =
      (zoneChain crateMatch rs.ruleItems q).findSome? fun e => f.read e.2 := by
    rw [DomainRuleMap.create, ← chainAt_buildTree crateMatch rs.ruleItems q (ruleItems_sorted rs),
      List.findSome?_map]
    rfl
  have hrules : (zoneChain crateMatch rs.ruleItems q).findSome? (fun e => f.read e.2) =
      ((zoneChain crateMatch rs.ruleItems q).map (·.1)).findSome? fun p => f.read (ruleUnder rs.ordinaryMap p) := by
    rw [List.findSome?_map]
    exact findSome?_congr fun e he =>
      rs.read_of_mem_ruleItems f (zoneChain_subset crateMatch rs.ruleItems q e he)
  rw [DomainRuleMap.getAt_eq, hitems, hrules, ordinaryWalk, findSome?_filter_of_none]
  intro p _ hp
  have hnone : rs.ordinaryMap.get? p = none := Option.isNone_iff_eq_none.mp (by simpa [KeyMap.contains] using hp)
  rw [ruleUnder, hnone]
  exact f.read_default

/-- The tree has nothing for `q` where the walk is empty. -/
theorem find_create_eq_none_iff (q : Name) :
    (DomainRuleMap.create crateMatch rs).find crateMatch q = none ↔ zoneChain crateMatch rs.ruleItems q = [] := by
  rw [DomainRuleMap.create, ← chainAt_buildTree crateMatch rs.ruleItems q (ruleItems_sorted rs), List.map_eq_nil_iff,
    DomainRuleMap.chainAt]
  cases (buildTree crateMatch rs.ruleItems).find crateMatch q with
  | none => simp
  | some node =>
    obtain ⟨n, r, z⟩ := node
    rw [Option.map_some, Option.getD_some, DomainRuleTreeNode.chain_mk]
    simp

/-- The walk goes from later patterns to earlier ones. -/
theorem ordinaryWalk_pairwise (q : Name) :
    (rs.ordinaryWalk crateMatch q).Pairwise fun a b => b.cmp a = .lt :=
  (List.pairwise_map.mpr (zoneChain_descending crateMatch rs.ruleItems q)).filter _

/-! ### Other settings under the same patterns -/

/-- The patterns of the rules other than set rules. -/
def ordinaryPatterns : List WildcardName := rs.ordinaryMap.keys

/-- The patterns as they are, with the settings `content` under those that have other rules. -/
def filled (content : WildcardName → DomainRule) : RuleSet where
  domainRules := rs.ordinaryPatterns.map fun p => ⟨.name p, content p⟩
  domainSets := rs.domainSets
  nftsets := rs.nftsets
  ipsets := rs.ipsets

end RuleSet

theorem mergeOption_none_left {α : Type} (combine : α → α → α) (r : Option α) : mergeOption combine none r = r := by
  cases r <;> rfl

theorem DomainRule.default_addAssign (r : DomainRule) : ({} : DomainRule).addAssign r = r := by
  unfold DomainRule.addAssign overwrite
  simp only [mergeOption_none_left]

namespace RuleSet

variable (rs : RuleSet) (content : WildcardName → DomainRule) (crateMatch : List UInt8 → List UInt8 → Bool)

/-- Rules under patterns that are all different are gathered as they stand. -/
theorem entries_foldl_addRule (content : WildcardName → DomainRule) : ∀ (ps : List WildcardName)
    (m : KeyMap WildcardName DomainRule), (∀ p ∈ ps, m.entries.any (·.1 == p) = false) →
    ps.Pairwise (fun a b => (a == b) = false) →
    (ps.foldl (fun m p => m.update p fun entry => (entry.getD {}).addAssign (content p)) m).entries =
      m.entries ++ ps.map fun p => (p, content p)
  | [], m, _, _ => by simp
  | p :: ps, m, hnew, hdistinct => by
    obtain ⟨hp, hps⟩ := List.pairwise_cons.mp hdistinct
    have hentries : (m.update p fun entry => (entry.getD {}).addAssign (content p)).entries =
        m.entries ++ [(p, content p)] := by
      refine (KeyMap.updateEntries_of_not_any _ (hnew p List.mem_cons_self)).trans ?_
      simp only [Option.getD_none, DomainRule.default_addAssign]
    rw [List.foldl_cons, entries_foldl_addRule content ps _ ?_ hps, hentries, List.append_assoc]
    · rfl
    · intro p' hp'
      rw [hentries, List.any_append, hnew p' (List.mem_cons_of_mem p hp')]
      simpa using hp p' hp'

theorem ordinaryPatterns_pairwise : rs.ordinaryPatterns.Pairwise fun a b => (a == b) = false :=
  List.pairwise_map.mpr rs.ordinaryMap.distinct

theorem entries_filled : (rs.filled content).ordinaryMap.entries =
    rs.ordinaryPatterns.map fun p => (p, content p) := by
  have hloops : (rs.filled content).ordinaryMap =
      (rs.filled content).append DomainRule.addAssign (rs.filled content).domainRules KeyMap.empty := rfl
  have hexpand : (rs.filled content).expandRules (rs.filled content).domainRules =
      rs.ordinaryPatterns.map fun p => (p, content p) := by
    unfold expandRules filled
    rw [List.flatMap_map]
    exact List.flatMap_pure_eq_map _ _
  rw [hloops, append_eq_foldl_expandRules, hexpand, List.foldl_map]
  exact entries_foldl_addRule content rs.ordinaryPatterns KeyMap.empty (fun _ _ => rfl) rs.ordinaryPatterns_pairwise

theorem ordinaryPatterns_filled : (rs.filled content).ordinaryPatterns = rs.ordinaryPatterns := by
  show (rs.filled content).ordinaryMap.entries.map (·.1) = _
  rw [entries_filled, List.map_map]
  exact List.map_id _

theorem contains_filled : (rs.filled content).ordinaryMap.contains = rs.ordinaryMap.contains := by
  funext p
  rw [KeyMap.contains_eq_any, KeyMap.contains_eq_any]
  exact congrArg (fun ks => ks.any (· == p)) (rs.ordinaryPatterns_filled content)

theorem ruleUnder_filled {p : WildcardName} (h : p ∈ rs.ordinaryPatterns) :
    ruleUnder (rs.filled content).ordinaryMap p = content p := by
  have hmem : (p, content p) ∈ (rs.filled content).ordinaryMap.entries := by
    rw [entries_filled]
    exact List.mem_map_of_mem h
  rw [ruleUnder, KeyMap.get?_of_mem hmem]
  rfl

theorem keys_nameRuleMap_filled : (rs.filled content).nameRuleMap.keys = rs.nameRuleMap.keys := by
  rw [nameRuleMap_eq, nameRuleMap_eq, keys_append, keys_append, keys_append, keys_append]
  show List.foldl _ (List.foldl _ (rs.filled content).ordinaryPatterns _) _ = _
  rw [ordinaryPatterns_filled]
  rfl

/-- The patterns in order do not depend on the settings under them. -/
theorem map_fst_ruleItems : rs.ruleItems.map (·.1) =
    rs.nameRuleMap.keys.insertionSort fun a b => (a.cmp b).isLE := by
  unfold ruleItems
  exact List.map_insertionSort _ _ _ _ fun _ _ _ _ => Iff.rfl

end RuleSet

section

variable {T : Type u} {T' : Type u} (crateMatch : List UInt8 → List UInt8 → Bool)

theorem before_map (g : WildcardName × T → T') (items : List (WildcardName × T)) (p : WildcardName) :
    before (items.map fun e => (e.1, g e)) p = (before items p).map fun e => (e.1, g e) := by
  unfold before
  rw [List.filter_map]
  rfl

/-- Which patterns the walk meets does not depend on the values. -/
theorem zoneChain_map (g : WildcardName × T → T') (items : List (WildcardName × T)) (q : Name) :
    zoneChain crateMatch (items.map fun e => (e.1, g e)) q =
      (zoneChain crateMatch items q).map fun e => (e.1, g e) := by
  induction items, q using zoneChain.induct crateMatch with
  | case1 items q h =>
    have hnone : nearest crateMatch (items.map fun e => (e.1, g e)) q = none := by
      rw [nearest_map, h]
      rfl
    rw [zoneChain_none crateMatch h, zoneChain_none crateMatch hnone]
    rfl
  | case2 items q e h ih =>
    have hsome : nearest crateMatch (items.map fun e => (e.1, g e)) q = some (e.1, g e) := by
      rw [nearest_map, h]
      rfl
    rw [zoneChain_some crateMatch h, zoneChain_some crateMatch hsome, before_map, ih]
    rfl

theorem map_fst_zoneChain_congr {items : List (WildcardName × T)} {items' : List (WildcardName × T)} (q : Name)
    (h : items.map (·.1) = items'.map (·.1)) :
    (zoneChain crateMatch items q).map (·.1) = (zoneChain crateMatch items' q).map (·.1) := by
  have hunit : (items.map fun e => (e.1, (PUnit.unit : PUnit.{u + 1}))) =
      items'.map fun e => (e.1, (PUnit.unit : PUnit.{u + 1})) := by
    have := congrArg (List.map fun p => (p, (PUnit.unit : PUnit.{u + 1}))) h
    simpa only [List.map_map, Function.comp_def] using this
  have hpatterns : ∀ l : List (WildcardName × T),
      (zoneChain crateMatch l q).map (·.1) =
        (zoneChain crateMatch (l.map fun e => (e.1, (PUnit.unit : PUnit.{u + 1}))) q).map (·.1) := by
    intro l
    rw [zoneChain_map, List.map_map]
    rfl
  rw [hpatterns, hunit, ← hpatterns]

end

namespace RuleSet

variable (rs : RuleSet) (content : WildcardName → DomainRule) (crateMatch : List UInt8 → List UInt8 → Bool)

theorem walkPatterns_filled (q : Name) :
    (zoneChain crateMatch (rs.filled content).ruleItems q).map (·.1) =
      (zoneChain crateMatch rs.ruleItems q).map (·.1) := by
  apply map_fst_zoneChain_congr
  rw [map_fst_ruleItems, map_fst_ruleItems, keys_nameRuleMap_filled]

/-- **The walk is the patterns' own.** -/
theorem ordinaryWalk_filled (q : Name) :
    (rs.filled content).ordinaryWalk crateMatch q = rs.ordinaryWalk crateMatch q := by
  rw [ordinaryWalk, ordinaryWalk, walkPatterns_filled, contains_filled]

/-- A key that was pushed is not one of those that were there. -/
theorem mem_foldl_pushKey {k : WildcardName} : ∀ (ps ks : List WildcardName),
    k ∈ ps.foldl KeyMap.pushKey ks → k ∈ ks ∨ ks.any (· == k) = false
  | [], _, h => .inl h
  | p :: ps, ks, h => by
    rcases mem_foldl_pushKey ps _ h with h | h
    · unfold KeyMap.pushKey at h
      by_cases hp : ks.any (· == p) = true
      · rw [if_pos hp] at h
        exact .inl h
      · rw [if_neg hp, List.mem_append, List.mem_singleton] at h
        rcases h with h | rfl
        · exact .inl h
        · exact .inr (Bool.eq_false_iff.mpr hp)
    · unfold KeyMap.pushKey at h
      by_cases hp : ks.any (· == p) = true
      · rw [if_pos hp] at h
        exact .inr h
      · rw [if_neg hp, List.any_append, Bool.or_eq_false_iff] at h
        exact .inr h.1

/-- The walk meets the patterns as the other rules spell them. -/
theorem mem_ordinaryPatterns_of_walk {q : Name} {p : WildcardName} (h : p ∈ rs.ordinaryWalk crateMatch q) :
    p ∈ rs.ordinaryPatterns := by
  obtain ⟨hmem, hcontains⟩ := List.mem_filter.mp h
  obtain ⟨e, he, rfl⟩ := List.mem_map.mp hmem
  have hkey : e.1 ∈ rs.nameRuleMap.keys :=
    List.mem_map_of_mem (rs.mem_ruleItems.mp (zoneChain_subset crateMatch _ _ e he))
  rw [nameRuleMap_eq, keys_append, keys_append, ← List.foldl_append] at hkey
  rw [KeyMap.contains_eq_any] at hcontains
  rcases mem_foldl_pushKey _ _ hkey with hold | hnew
  · exact hold
  · rw [hnew] at hcontains
    cases hcontains

/-- Patterns that are the same are spelled alike. -/
theorem eq_of_beq_of_mem {p p' : WildcardName} (hp : p ∈ rs.ordinaryPatterns) (hp' : p' ∈ rs.ordinaryPatterns)
    (h : (p == p') = true) : p = p' := by
  have : Std.Symm fun a b : WildcardName => (a == b) = false := ⟨fun a b h => by rw [BEq.comm, h]⟩
  by_contra hne
  rw [rs.ordinaryPatterns_pairwise.forall hp hp' hne] at h
  cases h

end RuleSet
end Rule
end SmartDns
