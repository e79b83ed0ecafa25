/-
# The value that stands under a pattern

Of the spellings of a pattern that are written, the one with the root dot is stored last, so
the tree has its rule and not the other's (`valueAt_eq`). A setting that later rules overwrite
has there the value of the last rule written for this spelling (`valueAt_eq_getLast?`).

`standing` is the value of the last of some lines that cover a pattern.

Key definitions: `RuleSet.valueAt`, `RuleSet.spelling`, `standing`.
Key theorems: `RuleSet.valueAt_eq`, `RuleSet.valueAt_eq_getLast?`.
-/
import SmartDns.Rule.Spelling

namespace SmartDns
namespace Rule

open Dns Lib

variable {α : Type}

/-! ### What the tree has under a pattern -/

namespace RuleSet

variable (rs : RuleSet)

/-- The value of the setting at the node of the pattern. -/
def valueAt (crateMatch : List UInt8 → List UInt8 → Bool) (s : Setting α) (p : WildcardName) : Option α :=
  ((DomainRuleMap.create crateMatch rs).map.get? (p.setFqdn true)).bind fun node => s.get node.rule

/-- The spelling that counts: with the root dot if any rule is written so. -/
def spelling (p : WildcardName) : WildcardName :=
  p.setFqdn (rs.written.any fun e => e.1 == p.setFqdn true)

variable {rs}

theorem beq_setFqdn_iff {q p : WildcardName} {b : Bool} :
    (q == p.setFqdn b) = true ↔ q.name.isFqdn = b ∧ q.shape = p.shape := by
  rw [WildcardName.beq_iff, WildcardName.name_setFqdn, WildcardName.shape_setFqdn]
  rfl

/-- The rule that is stored last is that of the spelling that counts. -/
theorem beq_spelling {p : WildcardName} {e : WildcardName × DomainRule} (h : spelled rs.ruleItems p = some e) :
    (e.1 == rs.spelling p) = true := by
  obtain ⟨hmem, hshape⟩ := spelled_some h
  obtain ⟨w, hw, hwe⟩ := ruleItems_fst rs hmem
  unfold spelling
  rw [beq_setFqdn_iff]
  refine ⟨?_, hshape⟩
  cases hdot : e.1.name.isFqdn with
  | true =>
    symm
    rw [List.any_eq_true]
    exact ⟨w, hw, beq_setFqdn_iff.mpr ⟨hwe ▸ hdot, hwe ▸ hshape⟩⟩
  | false =>
    symm
    rw [List.any_eq_false]
    intro w' hw' hdotted
    obtain ⟨item, hitem, hitem'⟩ := exists_ruleItem rs hw'
    obtain ⟨hfqdn, hshape'⟩ := beq_setFqdn_iff.mp (BEq.trans hitem' hdotted)
    rcases cmp_of_spelled (ruleItems_sorted rs) h hitem hshape' with rfl | hlt
    · rw [hdot] at hfqdn
      cases hfqdn
    · rw [WildcardName.isFqdn_of_cmp_lt hlt hdot] at hfqdn
      cases hfqdn

theorem sumOf_congr (l : List (WildcardName × DomainRule)) {p p' : WildcardName} (h : (p == p') = true) :
    sumOf l p = sumOf l p' := by
  have hsame : (fun e : WildcardName × DomainRule => e.1 == p) = fun e => e.1 == p' := by
    funext e
    exact BEq.congr_right h
  unfold sumOf
  rw [hsame]

theorem sumOf_eq_default {l : List (WildcardName × DomainRule)} {p : WildcardName} (h : ∀ e ∈ l, ¬ (e.1 == p) = true) :
    sumOf l p = {} := by
  unfold sumOf
  rw [List.filter_eq_nil_iff.mpr h]
  rfl

variable (rs)

/-- **The node of a pattern has the rules written for the spelling that counts.** -/
theorem valueAt_eq (crateMatch : List UInt8 → List UInt8 → Bool) (s : Setting α) (p : WildcardName) :
    rs.valueAt crateMatch s p = s.get (sumOf rs.written (rs.spelling p)) := by
  unfold valueAt DomainRuleMap.create
  rw [buildTree_eq_ofList, (DomainMap.holds_ofList _).get? (p.setFqdn true) (by simp),
    treeNodes_eq_map crateMatch (ruleItems_sorted rs), spelled_map,
    spelled_congr _ (WildcardName.shape_setFqdn true p)]
  cases hspelled : spelled rs.ruleItems p with
  | some e =>
    show s.get e.2 = _
    rw [ruleItems_rule rs (spelled_some hspelled).1, sumOf_congr _ (beq_spelling hspelled)]
  | none =>
    show none = _
    rw [sumOf_eq_default, s.get_default]
    intro e he hkey
    obtain ⟨item, hitem, hitem'⟩ := exists_ruleItem rs he
    exact spelled_ne_none hitem (beq_setFqdn_iff.mp (BEq.trans hitem' hkey)).2 hspelled

end RuleSet

/-! ### Settings that later rules overwrite -/

/-- The value of the last of the lines that cover a pattern. -/
def standing (covers : Domain → Bool) (l : List (ConfigForDomain α)) : Option α :=
  ((l.filter fun c => covers c.domain).map (·.config)).getLast?

theorem standing_concat_of_not_covers {covers : Domain → Bool} (l : List (ConfigForDomain α)) {c : ConfigForDomain α}
    (h : covers c.domain = false) : standing covers (l ++ [c]) = standing covers l := by
  simp [standing, h]

theorem standing_concat_of_covers {covers : Domain → Bool} (l : List (ConfigForDomain α)) {c : ConfigForDomain α}
    (h : covers c.domain = true) : standing covers (l ++ [c]) = some c.config := by
  simp [standing, h]

/-- Of the rules put together the last one that gives the setting stands. -/
theorem Setting.get_foldl_addAssign {s : Setting α} (hover : ∀ l r, s.combine l r = r)
    (l : List (WildcardName × DomainRule)) :
    s.get (l.foldl (fun r e => r.addAssign e.2) {}) = (l.filterMap fun e => s.get e.2).getLast? := by
  induction l using List.reverseRecOn with
  | nil => exact s.get_default
  | append_singleton l e ih =>
    rw [List.foldl_concat, s.get_addAssign, ih, List.filterMap_append, List.getLast?_append]
    cases he : s.get e.2 with
    | none =>
      rw [List.filterMap_cons_none (f := fun e : WildcardName × DomainRule => s.get e.2) he]
      cases (l.filterMap fun e => s.get e.2).getLast? <;> rfl
    | some v =>
      rw [List.filterMap_cons_some (f := fun e : WildcardName × DomainRule => s.get e.2) he]
      cases (l.filterMap fun e => s.get e.2).getLast? with
      | none => rfl
      | some v' => exact congrArg some (hover v' v)

namespace RuleSet

variable (rs : RuleSet)

/-- The domain names the pattern, or a set with it. -/
def covers (p : WildcardName) (domain : Domain) : Bool := (rs.expandDomain domain).any (· == p)

theorem getLast?_expandRules (p : WildcardName) (l : List (ConfigForDomain α)) :
    (((rs.expandRules l).filter fun e => e.1 == p).map (·.2)).getLast? = standing (rs.covers p) l := by
  induction l using List.reverseRecOn with
  | nil => rfl
  | append_singleton l c ih =>
    unfold expandRules at ih ⊢
    rw [List.flatMap_append, List.filter_append, List.map_append, List.getLast?_append, ih, List.flatMap_singleton,
      List.filter_map, List.map_map]
    by_cases hcovers : rs.covers p c.domain = true
    · rw [standing_concat_of_covers l hcovers]
      obtain ⟨q, hq, hqp⟩ := List.any_eq_true.mp hcovers
      have hne : (rs.expandDomain c.domain).filter (fun q => q == p) ≠ [] :=
        List.ne_nil_of_mem (List.mem_filter.mpr ⟨hq, hqp⟩)
      have hlength : ((rs.expandDomain c.domain).filter fun q => q == p).length ≠ 0 := by simpa using hne
      have hmap : ((rs.expandDomain c.domain).filter fun q => q == p).map (fun _ => c.config) =
          List.replicate ((rs.expandDomain c.domain).filter fun q => q == p).length c.config := List.map_const' ..
      show Option.or (List.getLast? (((rs.expandDomain c.domain).filter fun q => q == p).map fun _ => c.config)) _ = _
      rw [hmap, List.getLast?_replicate, if_neg hlength]
      rfl
    · have hcovers : rs.covers p c.domain = false := by simpa using hcovers
      rw [standing_concat_of_not_covers l hcovers]
      have hnil : (rs.expandDomain c.domain).filter (fun q => q == p) = [] :=
        List.filter_eq_nil_iff.mpr (List.any_eq_false.mp hcovers)
      simp [Function.comp_def, hnil]

/-- The lines that give the setting, each with its value. -/
def giving (s : Setting α) (l : List (ConfigForDomain DomainRule)) : List (ConfigForDomain α) :=
  l.filterMap fun c => (s.get c.config).map (⟨c.domain, ·⟩)

theorem filterMap_expandRules (s : Setting α) (l : List (ConfigForDomain DomainRule)) :
    (rs.expandRules l).filterMap (fun e => (s.get e.2).map (e.1, ·)) = rs.expandRules (giving s l) := by
  induction l with
  | nil => rfl
  | cons c l ih =>
    unfold expandRules giving at ih ⊢
    rw [List.flatMap_cons, List.filterMap_append, ih]
    cases hc : s.get c.config with
    | none =>
      rw [List.filterMap_cons_none (by simp [hc])]
      simp [hc]
    | some v =>
      rw [List.filterMap_cons_some (by rw [hc]; rfl)]
      simp [hc]

/-- **What stands under a pattern**: the last of the values written for the spelling that counts. -/
theorem valueAt_eq_getLast? (crateMatch : List UInt8 → List UInt8 → Bool) {s : Setting α}
    (hover : ∀ l r, s.combine l r = r) (p : WildcardName) :
    rs.valueAt crateMatch s p = (((rs.written.filterMap fun e => (s.get e.2).map (e.1, ·)).filter
      fun e => e.1 == rs.spelling p).map (·.2)).getLast? := by
  rw [valueAt_eq, sumOf, Setting.get_foldl_addAssign hover]
  congr 1
  induction rs.written with
  | nil => rfl
  | cons e l ih =>
    rw [List.filter_cons]
    cases he : s.get e.2 with
    | none =>
      rw [List.filterMap_cons_none (by rw [he]; rfl), ← ih]
      split
      · exact List.filterMap_cons_none (f := fun e : WildcardName × DomainRule => s.get e.2) he
      · rfl
    | some v =>
      rw [List.filterMap_cons_some (by rw [he]; rfl), List.filter_cons]
      split
      · rw [List.filterMap_cons_some (f := fun e : WildcardName × DomainRule => s.get e.2) he, List.map_cons, ← ih]
      · exact ih

end RuleSet
end Rule
end SmartDns
