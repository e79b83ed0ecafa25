/-
# Which rules a walk meets

The patterns a walk meets hang on the patterns that are written and not on what the rules
say (`patternsUp_congr`). One more address rule is one more pattern, or one more rule under a
pattern that is there (`addressOf_inserted`); in the first case the lookup can miss rules
that it met before. `WalkKept` says that it does not.

`readdressed` keeps every pattern with an address rule and gives it a value of one's choice.

Key definitions: `patternsUp`, `addressOf`, `WalkKept`, `inserted`, `readdressed`.
Key theorems: `forall₂_patternsUp`, `addressOf_readdressed`.
-/
import SmartDns.Rule.Families
import SmartDns.Rule.SetRules

namespace SmartDns
namespace Rule

open Dns Lib AddressRuleValue

section

variable (crateMatch : List UInt8 → List UInt8 → Bool)

/-- The patterns that the walk up from `q` meets. -/
def patternsUp (rs : RuleSet) (q : Name) : List WildcardName := (zoneChain crateMatch rs.ruleItems q).map (·.1)

/-- The address rule of a pattern, after the merge. -/
def addressOf (rs : RuleSet) (p : WildcardName) : Option AddressRuleValue := (sumOf rs.written p).address

def addressesUp (rs : RuleSet) (q : Name) : List (Option AddressRuleValue) :=
  (patternsUp crateMatch rs q).map (addressOf rs)

variable (rs : RuleSet) (q : Name)

/-- A pattern is met in one of its spellings. -/
def Meets (p : WildcardName) : Prop := ∃ p' ∈ patternsUp crateMatch rs q, (p' == p) = true

/-- For `q` the lookup meets the patterns with an address rule that it met before, and no other of them. -/
def WalkKept (rs' : RuleSet) : Prop :=
  ∀ p, addressOf rs p ≠ none → (Meets crateMatch rs' q p ↔ Meets crateMatch rs q p)

end

theorem addressOf_congr (rs : RuleSet) {p p' : WildcardName} (h : (p == p') = true) :
    addressOf rs p = addressOf rs p' := congrArg DomainRule.address (RuleSet.sumOf_congr rs.written h)

theorem cmp_congr_left {a b c : WildcardName} (h : (a == b) = true) (hlt : b.cmp c = .lt) : a.cmp c = .lt :=
  Std.TransCmp.lt_of_eq_of_lt ((WildcardName.cmp_eq_iff a b).mpr h) hlt

theorem not_beq_of_cmp_lt {a b : WildcardName} (h : a.cmp b = .lt) : ¬ (a == b) = true := by
  intro heq
  rw [(WildcardName.cmp_eq_iff a b).mpr heq] at h
  cases h

/-- Patterns in order that are the same up to their spelling are the same one by one. -/
theorem forall₂_of_descending : ∀ {l l' : List WildcardName}, l.Pairwise (fun a b => b.cmp a = .lt) →
    l'.Pairwise (fun a b => b.cmp a = .lt) → (∀ p, (∃ a ∈ l', (a == p) = true) ↔ ∃ a ∈ l, (a == p) = true) →
    List.Forall₂ (fun a b => (a == b) = true) l l'
  | [], [], _, _, _ => .nil
  | [], b :: l', _, _, h => by
    obtain ⟨a, ha, -⟩ := (h b).mp ⟨b, List.mem_cons_self, BEq.rfl⟩
    cases ha
  | a :: l, [], _, _, h => by
    obtain ⟨b, hb, -⟩ := (h a).mpr ⟨a, List.mem_cons_self, BEq.rfl⟩
    cases hb
  | a :: l, b :: l', hl, hl', h => by
    obtain ⟨ha, hl⟩ := List.pairwise_cons.mp hl
    obtain ⟨hb, hl'⟩ := List.pairwise_cons.mp hl'
    obtain ⟨b', hb', hba⟩ := (h a).mpr ⟨a, List.mem_cons_self, BEq.rfl⟩
    obtain ⟨a', ha', hab⟩ := (h b).mp ⟨b, List.mem_cons_self, BEq.rfl⟩
    have hhead : (a == b) = true := by
      rcases List.mem_cons.mp hb' with rfl | hb'
      · exact BEq.symm hba
      · rcases List.mem_cons.mp ha' with rfl | ha'
        · exact hab
        · -- the first of one list would be below the first of the other, both ways
          have hlt := Std.TransCmp.lt_trans (cmp_congr_left (BEq.symm hba) (hb b' hb'))
            (cmp_congr_left (BEq.symm hab) (ha a' ha'))
          exact absurd BEq.rfl (not_beq_of_cmp_lt hlt)
    refine .cons hhead (forall₂_of_descending hl hl' fun p => ?_)
    constructor
    · rintro ⟨x, hx, hxp⟩
      obtain ⟨y, hy, hyp⟩ := (h p).mp ⟨x, List.mem_cons_of_mem b hx, hxp⟩
      rcases List.mem_cons.mp hy with rfl | hy
      · exact absurd (BEq.trans (BEq.trans hxp (BEq.symm hyp)) hhead) (not_beq_of_cmp_lt (hb x hx))
      · exact ⟨y, hy, hyp⟩
    · rintro ⟨x, hx, hxp⟩
      obtain ⟨y, hy, hyp⟩ := (h p).mpr ⟨x, List.mem_cons_of_mem a hx, hxp⟩
      rcases List.mem_cons.mp hy with rfl | hy
      · exact absurd (BEq.trans (BEq.trans hxp (BEq.symm hyp)) (BEq.symm hhead)) (not_beq_of_cmp_lt (ha x hx))
      · exact ⟨y, hy, hyp⟩

/-! ### One more address rule -/

section

variable (crateMatch : List UInt8 → List UInt8 → Bool) (rs : RuleSet) (pre post : List AddressRule) (rule : AddressRule)

/-- The rules without the one that is inserted. -/
abbrev without : RuleSet := rs.withAddressRules (pre ++ post)

/-- The rules with it. -/
abbrev inserted : RuleSet := rs.withAddressRules (pre ++ rule :: post)

theorem addressOf_without (p : WildcardName) : addressOf (without rs pre post) p =
    folded (rs.domainAddresses p ++ rs.addressesIn pre p ++ rs.addressesIn post p) := by
  rw [addressOf, RuleSet.address_sumOf, RuleSet.addressesIn_append, List.append_assoc]

variable {crateMatch rs pre post rule}

theorem addressOf_inserted (hw : rule.config.isAddr = false) (p : WildcardName) :
    addressOf (inserted rs pre post rule) p =
      if rs.covers p rule.domain then folded (rule.config :: rs.addressesIn post p)
      else addressOf (without rs pre post) p := RuleSet.address_insert rs pre post hw p

/-- The patterns with an address rule are met one by one as before. -/
theorem forall₂_patternsUp {rs rs' : RuleSet} {q : Name} (h : WalkKept crateMatch rs q rs') :
    List.Forall₂ (fun a b => (a == b) = true) ((patternsUp crateMatch rs q).filter fun p => (addressOf rs p).isSome)
      ((patternsUp crateMatch rs' q).filter fun p => (addressOf rs p).isSome) := by
  have hdescending (rs' : RuleSet) : (patternsUp crateMatch rs' q).Pairwise fun a b => b.cmp a = .lt :=
    List.pairwise_map.mpr (zoneChain_descending crateMatch rs'.ruleItems q)
  have hmeets (rs' : RuleSet) (p : WildcardName) :
      (∃ a ∈ (patternsUp crateMatch rs' q).filter fun p => (addressOf rs p).isSome, (a == p) = true) ↔
        addressOf rs p ≠ none ∧ Meets crateMatch rs' q p := by
    rw [← Option.isSome_iff_ne_none]
    constructor
    · rintro ⟨a, ha, hap⟩
      obtain ⟨hmem, hsome⟩ := List.mem_filter.mp ha
      exact ⟨addressOf_congr rs hap ▸ hsome, a, hmem, hap⟩
    · rintro ⟨hsome, a, hmem, hap⟩
      exact ⟨a, List.mem_filter.mpr ⟨hmem, addressOf_congr rs hap ▸ hsome⟩, hap⟩
  apply forall₂_of_descending ((hdescending rs).filter _) ((hdescending rs').filter _)
  intro p
  rw [hmeets, hmeets]
  constructor
  · rintro ⟨hsome, hmet⟩
    exact ⟨hsome, (h p hsome).mp hmet⟩
  · rintro ⟨hsome, hmet⟩
    exact ⟨hsome, (h p hsome).mpr hmet⟩

theorem walkKept_of_patternsUp {rs rs' : RuleSet} {q : Name}
    (h : patternsUp crateMatch rs' q = patternsUp crateMatch rs q) : WalkKept crateMatch rs q rs' := by
  intro p _
  unfold Meets
  rw [h]

end

/-! ### Other addresses under the same patterns -/

/-- The address rules of a list with the values of one's choice. -/
def readdress (rs : RuleSet) (value : WildcardName → AddressRuleValue) (l : List AddressRule) : List AddressRule :=
  toRules ((rs.expandRules l).map fun e => (e.1, value e.1))

/-- The `domain-rules` that give an address give another one. -/
def readdressed (rs : RuleSet) (value : WildcardName → AddressRuleValue) : RuleSet :=
  { rs with domainRules := toRules ((rs.expandRules rs.domainRules).map fun e =>
      (e.1, { e.2 with address := e.2.address.map fun _ => value e.1 })) }

section

variable (crateMatch : List UInt8 → List UInt8 → Bool) {rs : RuleSet} {value : WildcardName → AddressRuleValue}

theorem keys_nameRuleMap (rs : RuleSet) :
    rs.nameRuleMap.keys = (rs.written.map (·.1)).foldl KeyMap.pushKey [] := by
  have hkeys : ∀ (l : List (WildcardName × DomainRule)) (m : KeyMap WildcardName DomainRule),
      (l.foldl RuleSet.addRule m).keys = (l.map (·.1)).foldl KeyMap.pushKey m.keys := by
    intro l
    induction l with
    | nil => exact fun _ => rfl
    | cons e l ih =>
      intro m
      rw [List.foldl_cons, ih, RuleSet.addRule, KeyMap.keys_update, List.map_cons, List.foldl_cons]
  rw [RuleSet.nameRuleMap_eq_foldl_written, hkeys]
  rfl

/-- The walk hangs on the patterns that are written. -/
theorem patternsUp_congr {rs rs' : RuleSet} (h : rs'.written.map (·.1) = rs.written.map (·.1)) (q : Name) :
    patternsUp crateMatch rs' q = patternsUp crateMatch rs q := by
  apply map_fst_zoneChain_congr
  rw [RuleSet.map_fst_ruleItems, RuleSet.map_fst_ruleItems, keys_nameRuleMap, keys_nameRuleMap, h]

theorem map_fst_written (rs : RuleSet) : rs.written.map (·.1) =
    (rs.expandRules rs.domainRules).map (·.1) ++ (rs.expandRules rs.addressRules).map (·.1) ++
    (rs.expandRules rs.forwardRules).map (·.1) ++ (rs.expandRules rs.cnames).map (·.1) ++
    (rs.expandRules rs.srvRecords).map (·.1) ++ (rs.expandRules rs.httpsRecords).map (·.1) ++
    (rs.expandRules rs.nftsets).map (·.1) ++ (rs.expandRules rs.ipsets).map (·.1) := by
  have hlist {α : Type} (contribution : α → DomainRule) (l : List (ConfigForDomain α)) :
      (rs.writtenOf contribution l).map (·.1) = (rs.expandRules l).map (·.1) := by
    rw [RuleSet.writtenOf, List.map_map]
    rfl
  simp only [RuleSet.written, List.map_append, hlist]

theorem expandRules_append {α : Type} (rs : RuleSet) (l l' : List (ConfigForDomain α)) :
    rs.expandRules (l ++ l') = rs.expandRules l ++ rs.expandRules l' := List.flatMap_append

/-- The patterns are as they were. -/
theorem map_fst_written_readdressed (pre middle post : List AddressRule) :
    ((readdressed rs value).withAddressRules
      (readdress rs value pre ++ (middle ++ readdress rs value post))).written.map (·.1) = (rs.withAddressRules (pre ++ (middle ++ post))).written.map (·.1) := by
  have hmap {α : Type} (f : WildcardName × α → α) (l : List (WildcardName × α)) :
      (rs.expandRules (toRules (l.map fun e => (e.1, f e)))).map (·.1) = l.map (·.1) := by
    rw [expandRules_toRules, List.map_map]
    rfl
  have hexpand {α : Type} (l : List (ConfigForDomain α)) :
      ((readdressed rs value).withAddressRules
        (readdress rs value pre ++ (middle ++ readdress rs value post))).expandRules l = rs.expandRules l := rfl
  rw [map_fst_written, map_fst_written]
  simp only [hexpand]
  have hrules : (rs.expandRules (readdress rs value pre ++ (middle ++ readdress rs value post))).map (·.1) =
      (rs.expandRules (pre ++ (middle ++ post))).map (·.1) := by
    simp only [expandRules_append, List.map_append, readdress, hmap]
  have hdomains : (rs.expandRules (readdressed rs value).domainRules).map (·.1) =
      (rs.expandRules rs.domainRules).map (·.1) := hmap _ _
  show (rs.expandRules (readdressed rs value).domainRules).map _ ++
    (rs.expandRules (readdress rs value pre ++ _)).map _ ++ _ ++ _ ++ _ ++ _ ++ _ ++ _ = _
  rw [hdomains, hrules]
  rfl

/-- A value that two spellings of a pattern share. -/
def Shared (value : WildcardName → AddressRuleValue) : Prop := ∀ p p', (p == p') = true → value p = value p'

theorem addressesIn_readdress (hshared : Shared value) (l : List AddressRule) (p : WildcardName) :
    (readdressed rs value).addressesIn (readdress rs value l) p = (rs.addressesIn l p).map fun _ => value p := by
  have hexpand : (readdressed rs value).expandRules (readdress rs value l) =
      (rs.expandRules l).map fun e => (e.1, value e.1) := expandRules_toRules _ _
  rw [RuleSet.addressesIn, hexpand, List.filter_map, List.map_map, RuleSet.addressesIn, List.map_map]
  apply List.map_congr_left
  intro e he
  exact hshared e.1 p (List.mem_filter.mp he).2

theorem domainAddresses_readdressed (hshared : Shared value) (p : WildcardName) :
    (readdressed rs value).domainAddresses p = (rs.domainAddresses p).map fun _ => value p := by
  have hexpand : (readdressed rs value).expandRules (readdressed rs value).domainRules =
      (rs.expandRules rs.domainRules).map fun e => (e.1, { e.2 with address := e.2.address.map fun _ => value e.1 }) :=
    expandRules_toRules _ _
  rw [RuleSet.domainAddresses, hexpand, List.filter_map, List.filterMap_map, RuleSet.domainAddresses,
    List.map_filterMap]
  apply List.filterMap_congr
  intro e he
  have hvalue : value e.1 = value p := hshared e.1 p (List.mem_filter.mp he).2
  show e.2.address.map (fun _ => value e.1) = e.2.address.map fun _ => value p
  rw [hvalue]

theorem addressOf_readdressed (hshared : Shared value) (hmerge : ∀ p, (value p).merge (value p) = value p)
    (pre post : List AddressRule) (p : WildcardName) :
    addressOf (without (readdressed rs value) (readdress rs value pre) (readdress rs value post)) p =
      (addressOf (without rs pre post) p).map fun _ => value p := by
  rw [addressOf_without, addressOf_without, domainAddresses_readdressed hshared, addressesIn_readdress hshared,
    addressesIn_readdress hshared, ← List.map_append, ← List.map_append]
  by_cases hnil : rs.domainAddresses p ++ rs.addressesIn pre p ++ rs.addressesIn post p = []
  · rw [hnil]
    rfl
  · rw [folded_map_const (hmerge p) hnil]
    obtain ⟨v, hv⟩ := Option.ne_none_iff_exists'.mp (mt folded_eq_none_iff.mp hnil)
    rw [hv]
    rfl

end

section

variable {crateMatch : List UInt8 → List UInt8 → Bool} {rs : RuleSet} {pre post : List AddressRule} {rule : AddressRule}
  {q : Name}

theorem meets_readdressed (value : WildcardName → AddressRuleValue) (middle : List AddressRule) (p : WildcardName) :
    Meets crateMatch ((readdressed rs value).withAddressRules
        (readdress rs value pre ++ (middle ++ readdress rs value post))) q p ↔
      Meets crateMatch (rs.withAddressRules (pre ++ (middle ++ post))) q p := by
  unfold Meets
  rw [patternsUp_congr crateMatch (map_fst_written_readdressed pre middle post)]

/-- A pattern without an address rule stays without one. -/
theorem addressOf_readdressed_eq_none (value : WildcardName → AddressRuleValue) {p : WildcardName}
    (h : addressOf (without rs pre post) p = none) :
    addressOf (without (readdressed rs value) (readdress rs value pre) (readdress rs value post)) p = none ∧
      (readdressed rs value).addressesIn (readdress rs value post) p = [] := by
  have hrules (l : List AddressRule) (hl : rs.addressesIn l p = []) :
      (readdressed rs value).addressesIn (readdress rs value l) p = [] := by
    have hexpand : (readdressed rs value).expandRules (readdress rs value l) =
        (rs.expandRules l).map fun e => (e.1, value e.1) := expandRules_toRules _ _
    rw [RuleSet.addressesIn, List.map_eq_nil_iff] at hl ⊢
    rw [hexpand, List.filter_map]
    exact List.map_eq_nil_iff.mpr hl
  have hdomains (hl : rs.domainAddresses p = []) : (readdressed rs value).domainAddresses p = [] := by
    have hexpand : (readdressed rs value).expandRules (readdressed rs value).domainRules =
        (rs.expandRules rs.domainRules).map fun e => (e.1, { e.2 with address := e.2.address.map fun _ => value e.1 }) :=
      expandRules_toRules _ _
    rw [RuleSet.domainAddresses, List.filterMap_eq_nil_iff] at hl ⊢
    rw [hexpand, List.filter_map]
    intro e he
    obtain ⟨e', he', rfl⟩ := List.mem_map.mp he
    exact Option.map_eq_none_iff.mpr (hl e' he')
  rw [addressOf_without, folded_eq_none_iff, List.append_eq_nil_iff, List.append_eq_nil_iff] at h
  rw [addressOf_without, hdomains h.1.1, hrules pre h.1.2, hrules post h.2]
  exact ⟨rfl, rfl⟩

theorem walkKept_readdressed (value : WildcardName → AddressRuleValue)
    (h : WalkKept crateMatch (without rs pre post) q (inserted rs pre post rule)) :
    WalkKept crateMatch (without (readdressed rs value) (readdress rs value pre) (readdress rs value post)) q
      (inserted (readdressed rs value) (readdress rs value pre) (readdress rs value post) rule) := by
  intro p hp
  have hold : addressOf (without rs pre post) p ≠ none := fun hnone => hp (addressOf_readdressed_eq_none value hnone).1
  exact (meets_readdressed value [rule] p).trans ((h p hold).trans (meets_readdressed value [] p).symm)

end

end Rule
end SmartDns
