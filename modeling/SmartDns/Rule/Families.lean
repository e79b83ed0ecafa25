/-
# Address rules on one domain

The address rules of a domain are merged in order. Address rules proper gather their
addresses, family by family; any other rule, and an address rule over any other, takes
the place of all that was there before (`folded_append_of_exists`). So what stands in the
end comes from the last rule that is no list of addresses and from those after it, and a
rule for one family puts away the addresses of the other (`keeps_fixed_iff`).

Key definitions: `folded`, `gathered`, `addressRun`, `RuleSet.given`.
Key theorems: `folded_append_of_exists`, `folded_append_of_forall`, `RuleSet.address_sumOf`.
-/
import Mathlib.Data.List.DropRight
import SmartDns.Rule.Standing

namespace SmartDns
namespace Rule

open Dns Lib

namespace AddressRuleValue

def isAddr : AddressRuleValue → Bool
  | addr _ _ => true
  | _ => false

def v4 : AddressRuleValue → Option (List Ipv4Addr)
  | addr v4 _ => v4
  | _ => none

def v6 : AddressRuleValue → Option (List Ipv6Addr)
  | addr _ v6 => v6
  | _ => none

theorem eq_addr_of_isAddr {v : AddressRuleValue} (h : v.isAddr = true) : v = addr v.v4 v.v6 := by
  cases v with
  | addr v4 v6 => rfl
  | _ => cases h

theorem merge_of_not_isAddr (v : AddressRuleValue) {w : AddressRuleValue} (h : w.isAddr = false) : v.merge w = w := by
  cases w with
  | addr v4 v6 => cases h
  | _ => cases v <;> rfl

end AddressRuleValue

open AddressRuleValue

section

variable {α : Type} [DecidableEq α]

/-- The rules of a domain, merged in order. -/
def folded (vs : List AddressRuleValue) : Option AddressRuleValue :=
  vs.foldl (fun v w => mergeOption merge v (some w)) none

/-- The addresses of one more rule, after those that are there. -/
def gather (l r : Option (List α)) : Option (List α) :=
  match r with
  | some r => some (pushNew (l.getD []) r)
  | none => l

/-- The addresses of one family that some address rules give, each once. -/
def gathered (family : AddressRuleValue → Option (List α)) : List AddressRuleValue → Option (List α)
  | [] => none
  | v :: vs => vs.foldl (fun l w => gather l (family w)) (family v)

/-- The address rules that stand after the last other rule. -/
def addressRun (vs : List AddressRuleValue) : List AddressRuleValue := vs.rtakeWhile isAddr

/-! ### What stands on a domain -/

@[simp] theorem folded_concat (vs : List AddressRuleValue) (w : AddressRuleValue) :
    folded (vs ++ [w]) = mergeOption merge (folded vs) (some w) := by
  simp [folded]

theorem merge_addr (v w : AddressRuleValue) (hv : v.isAddr = true) (hw : w.isAddr = true) :
    v.merge w = addr (gather v.v4 w.v4) (gather v.v6 w.v6) := by
  rw [eq_addr_of_isAddr hv, eq_addr_of_isAddr hw]
  cases hw4 : w.v4 <;> cases hw6 : w.v6 <;> rfl

theorem mergeOption_of_not_isAddr (v : Option AddressRuleValue) {w : AddressRuleValue} (h : w.isAddr = false) :
    mergeOption merge v (some w) = some w := by
  cases v with
  | none => rfl
  | some v => exact congrArg some (merge_of_not_isAddr v h)

/-- A rule that is no list of addresses stands in the place of those before it. -/
theorem folded_append_cons (vs us : List AddressRuleValue) {w : AddressRuleValue} (h : w.isAddr = false) :
    folded (vs ++ w :: us) = folded (w :: us) := by
  unfold folded
  rw [List.foldl_append, List.foldl_cons, List.foldl_cons, mergeOption_of_not_isAddr _ h, mergeOption_of_not_isAddr _ h]

theorem folded_append_of_exists (vs : List AddressRuleValue) {us : List AddressRuleValue}
    (h : ∃ u ∈ us, u.isAddr = false) : folded (vs ++ us) = folded us := by
  obtain ⟨u, hu, haddr⟩ := h
  obtain ⟨front, back, rfl⟩ := List.append_of_mem hu
  rw [← List.append_assoc, folded_append_cons _ _ haddr, folded_append_cons _ _ haddr]

/-- Address rules gather their addresses. -/
theorem folded_of_forall : ∀ {vs : List AddressRuleValue}, vs ≠ [] → (∀ v ∈ vs, v.isAddr = true) →
    folded vs = some (addr (gathered v4 vs) (gathered v6 vs)) := by
  intro vs
  induction vs using List.reverseRecOn with
  | nil => exact fun h => absurd rfl h
  | append_singleton vs w ih =>
    intro _ haddr
    have hw : w.isAddr = true := haddr w (by simp)
    have hvs : ∀ v ∈ vs, v.isAddr = true := fun v hv => haddr v (by simp [hv])
    rw [folded_concat]
    cases vs with
    | nil => exact congrArg some (eq_addr_of_isAddr hw)
    | cons v vs =>
      rw [ih (by simp) hvs]
      show some (merge _ w) = _
      rw [merge_addr _ w rfl hw]
      simp [gathered, AddressRuleValue.v4, AddressRuleValue.v6, List.foldl_append]

theorem addressRun_isAddr {vs : List AddressRuleValue} {v : AddressRuleValue} (h : v ∈ addressRun vs) :
    v.isAddr = true :=
  List.mem_rtakeWhile_imp h

/-- What stands before the run of address rules ends in another rule. -/
theorem exists_addressRun (vs : List AddressRuleValue) :
    addressRun vs = vs ∨ ∃ front w, w.isAddr = false ∧ vs = front ++ w :: addressRun vs := by
  have hsplit : vs.rdropWhile isAddr ++ vs.rtakeWhile isAddr = vs := by
    unfold List.rdropWhile List.rtakeWhile
    rw [← List.reverse_append, List.takeWhile_append_dropWhile, List.reverse_reverse]
  by_cases hnil : vs.rdropWhile isAddr = []
  · left
    rwa [hnil, List.nil_append] at hsplit
  · right
    refine ⟨(vs.rdropWhile isAddr).dropLast, (vs.rdropWhile isAddr).getLast hnil, ?_, ?_⟩
    · simpa using List.rdropWhile_last_not isAddr vs hnil
    · conv_lhs => rw [← hsplit, ← List.dropLast_append_getLast hnil]
      simp [addressRun]

/-- Over another rule, address rules start anew. -/
theorem folded_cons_of_forall {w : AddressRuleValue} (hw : w.isAddr = false) : ∀ {us : List AddressRuleValue}, us ≠ [] →
    (∀ u ∈ us, u.isAddr = true) → folded (w :: us) = folded us
  | [], h, _ => absurd rfl h
  | u :: us, _, _ => by
    have hmerge : w.merge u = u := by
      cases w with
      | addr v4 v6 => cases hw
      | _ => rfl
    show List.foldl _ (some (w.merge u)) us = List.foldl _ (some u) us
    rw [hmerge]

/-- **What is gathered in the end**: the addresses since the last other rule. -/
theorem folded_append_of_forall (vs : List AddressRuleValue) {us : List AddressRuleValue} (hne : us ≠ [])
    (haddr : ∀ u ∈ us, u.isAddr = true) : folded (vs ++ us) =
      some (addr (gathered v4 (addressRun vs ++ us)) (gathered v6 (addressRun vs ++ us))) := by
  have hall : ∀ u ∈ addressRun vs ++ us, u.isAddr = true := by
    intro u hu
    rcases List.mem_append.mp hu with hrun | hus
    · exact addressRun_isAddr hrun
    · exact haddr u hus
  rw [← folded_of_forall (by simp [hne]) hall]
  rcases exists_addressRun vs with hrun | ⟨front, w, hw, hsplit⟩
  · rw [hrun]
  · calc folded (vs ++ us) = folded (front ++ w :: (addressRun vs ++ us)) := by
          conv_lhs => rw [hsplit]
          simp
      _ = folded (w :: (addressRun vs ++ us)) := folded_append_cons _ _ hw
      _ = folded (addressRun vs ++ us) := folded_cons_of_forall hw (by simp [hne]) hall

/-- The last of the rules stands, or the address rules at the end. -/
theorem folded_eq (vs : List AddressRuleValue) : folded vs =
    if addressRun vs = [] then vs.getLast?
    else some (addr (gathered v4 (addressRun vs)) (gathered v6 (addressRun vs))) := by
  rcases exists_addressRun vs with hrun | ⟨front, w, hw, hsplit⟩
  · by_cases hnil : addressRun vs = []
    · rw [if_pos hnil]
      rw [hrun] at hnil
      rw [hnil]
      rfl
    · rw [if_neg hnil]
      have hfolded := folded_of_forall hnil fun v => addressRun_isAddr
      rwa [hrun] at hfolded ⊢
  · by_cases hnil : addressRun vs = []
    · rw [if_pos hnil]
      rw [hnil] at hsplit
      rw [hsplit, folded_append_cons _ _ hw]
      simp [folded, mergeOption]
    · rw [if_neg hnil]
      calc folded vs = folded (front ++ w :: addressRun vs) := congrArg folded hsplit
        _ = folded (w :: addressRun vs) := folded_append_cons _ _ hw
        _ = folded (addressRun vs) := folded_cons_of_forall hw hnil fun v => addressRun_isAddr
        _ = _ := folded_of_forall hnil fun v => addressRun_isAddr

end

theorem addressRun_eq_nil_iff {vs : List AddressRuleValue} :
    addressRun vs = [] ↔ ∀ v, vs.getLast? = some v → v.isAddr = false := by
  rw [addressRun, List.rtakeWhile_eq_nil_iff]
  constructor
  · intro h v hv
    have hne : vs ≠ [] := by
      rintro rfl
      cases hv
    rw [List.getLast?_eq_some_getLast hne] at hv
    rw [← Option.some.inj hv]
    simpa using h hne
  · intro h hne
    simp [h _ (List.getLast?_eq_some_getLast hne)]

theorem gathered_eq_none_iff {α : Type} [DecidableEq α] {family : AddressRuleValue → Option (List α)}
    {vs : List AddressRuleValue} : gathered family vs = none ↔ ∀ v ∈ vs, family v = none := by
  induction vs using List.reverseRecOn with
  | nil => simp [gathered]
  | append_singleton vs w ih =>
    cases vs with
    | nil => simp [gathered]
    | cons v vs =>
      have hstep : gathered family (v :: vs ++ [w]) = gather (gathered family (v :: vs)) (family w) := by
        simp [gathered, List.foldl_append]
      have hnone : gather (gathered family (v :: vs)) (family w) = none ↔
          gathered family (v :: vs) = none ∧ family w = none := by
        cases family w <;> simp [gather]
      rw [hstep, hnone, ih]
      simp [or_imp, forall_and, and_assoc]

theorem folded_eq_none_iff {vs : List AddressRuleValue} : folded vs = none ↔ vs = [] := by
  induction vs using List.reverseRecOn with
  | nil => simp [folded]
  | append_singleton vs w ih =>
    rw [folded_concat]
    cases folded vs <;> simp [mergeOption]

/-- Rules that are all the same come to the one rule. -/
theorem folded_map_const {v : AddressRuleValue} (hv : v.merge v = v) {vs : List AddressRuleValue} (hne : vs ≠ []) :
    folded (vs.map fun _ => v) = some v := by
  induction vs using List.reverseRecOn with
  | nil => exact absurd rfl hne
  | append_singleton vs w ih =>
    rw [List.map_append, List.map_singleton, folded_concat]
    by_cases hnil : vs = []
    · subst hnil
      rfl
    · rw [ih hnil]
      exact congrArg some hv

/-! ### A rule for one family over the addresses of the other -/

/-- The rule is about one family alone: the other one's addresses are not its own. -/
theorem keeps_fixed_iff {α : Type} {family : AddressRuleValue → Option (List α)}
    (hadd : ∀ v w : AddressRuleValue, v.isAddr = true → w.isAddr = true →
      ∀ ip ∈ (family v).getD [], ip ∈ (family (v.merge w)).getD [])
    (hnone : ∀ w : AddressRuleValue, w.isAddr = false → family w = none) (v w : AddressRuleValue) :
    (∀ ip ∈ (family v).getD [], ip ∈ (family (v.merge w)).getD []) ↔
      w.isAddr = true ∨ (family v).getD [] = [] := by
  cases hw : w.isAddr with
  | true =>
    simp only [true_or, iff_true]
    cases hv : v.isAddr with
    | true => exact hadd v w hv hw
    | false =>
      rw [hnone v hv]
      simp
  | false =>
    rw [merge_of_not_isAddr v hw, hnone w hw]
    simp [List.eq_nil_iff_forall_not_mem]

theorem mem_pushNew {α : Type} [DecidableEq α] {x : α} : ∀ {r l : List α}, x ∈ l → x ∈ pushNew l r
  | [], _, h => h
  | ip :: r, l, h => by
    have hone : x ∈ if ip ∈ l then l else l ++ [ip] := by
      by_cases hip : ip ∈ l
      · rwa [if_pos hip]
      · rw [if_neg hip]
        exact List.mem_append_left _ h
    exact mem_pushNew (r := r) hone

theorem mem_gather {α : Type} [DecidableEq α] {x : α} {l r : Option (List α)} (h : x ∈ l.getD []) :
    x ∈ (gather l r).getD [] := by
  cases r with
  | none => exact h
  | some r => exact mem_pushNew h

/-- The addresses fixed for a family by some rules on a domain. -/
def fixedFor {α : Type} (family : AddressRuleValue → Option (List α)) (vs : List AddressRuleValue) : List α :=
  ((folded vs).bind family).getD []

theorem fixedFor_iff {α : Type} [DecidableEq α] {family : AddressRuleValue → Option (List α)}
    (hgather : ∀ v w : AddressRuleValue, v.isAddr = true → w.isAddr = true →
      family (v.merge w) = gather (family v) (family w))
    (hnone : ∀ v : AddressRuleValue, v.isAddr = false → family v = none) (vs : List AddressRuleValue)
    (w : AddressRuleValue) :
    (∀ ip ∈ fixedFor family vs, ip ∈ fixedFor family (vs ++ [w])) ↔ w.isAddr = true ∨ fixedFor family vs = [] := by
  unfold fixedFor
  rw [folded_concat]
  cases folded vs with
  | none => simp
  | some v =>
    show (∀ ip ∈ (family v).getD [], ip ∈ (family (v.merge w)).getD []) ↔ _
    rw [keeps_fixed_iff ?_ hnone]
    · rfl
    · intro v w hv hw ip hip
      rw [hgather v w hv hw]
      exact mem_gather hip

/-! ### The rules of a configuration -/

namespace RuleSet

variable (rs : RuleSet)

def withAddressRules (l : List AddressRule) : RuleSet := { rs with addressRules := l }

/-- The addresses that the `domain-rules` of a pattern give it. -/
def domainAddresses (p : WildcardName) : List AddressRuleValue :=
  ((rs.expandRules rs.domainRules).filter fun e => e.1 == p).filterMap fun e => e.2.address

/-- The address rules of a list on a pattern. -/
def addressesIn (l : List AddressRule) (p : WildcardName) : List AddressRuleValue :=
  ((rs.expandRules l).filter fun e => e.1 == p).map (·.2)

theorem address_foldl_addAssign (l : List (WildcardName × DomainRule)) :
    (l.foldl (fun r e => r.addAssign e.2) ({} : DomainRule)).address = folded (l.filterMap fun e => e.2.address) := by
  induction l using List.reverseRecOn with
  | nil => rfl
  | append_singleton l e ih =>
    rw [List.foldl_concat, List.filterMap_append]
    show mergeOption merge _ e.2.address = _
    rw [ih]
    cases he : e.2.address with
    | none =>
      rw [List.filterMap_cons_none (by exact he), List.filterMap_nil, List.append_nil]
      cases folded (l.filterMap fun e => e.2.address) <;> rfl
    | some v => rw [List.filterMap_cons_some (by exact he), List.filterMap_nil, folded_concat]

theorem filterMap_address_writtenOf {α : Type} {contribution : α → DomainRule} {p : WildcardName}
    (h : ∀ c, (contribution c).address = none) (l : List (ConfigForDomain α)) :
    ((rs.writtenOf contribution l).filter fun e => e.1 == p).filterMap (fun e => e.2.address) = [] := by
  rw [List.filterMap_eq_nil_iff]
  intro e he
  obtain ⟨e', -, rfl⟩ := List.mem_map.mp (List.mem_filter.mp he).1
  exact h e'.2

/-- **The rules of a pattern**: those of its `domain-rules`, then the address rules on it. -/
theorem address_sumOf (l : List AddressRule) (p : WildcardName) :
    (sumOf (rs.withAddressRules l).written p).address = folded (rs.domainAddresses p ++ rs.addressesIn l p) := by
  unfold sumOf written
  rw [address_foldl_addAssign]
  simp only [List.filter_append, List.filterMap_append]
  have hothers {α : Type} {contribution : α → DomainRule} (h : ∀ c, (contribution c).address = none)
      (l' : List (ConfigForDomain α)) :
      (((rs.withAddressRules l).writtenOf contribution l').filter fun e => e.1 == p).filterMap
        (fun e => e.2.address) = [] := filterMap_address_writtenOf _ h l'
  rw [hothers ?_ (rs.withAddressRules l).forwardRules, hothers ?_ (rs.withAddressRules l).cnames,
    hothers ?_ (rs.withAddressRules l).srvRecords, hothers ?_ (rs.withAddressRules l).httpsRecords,
    hothers ?_ (rs.withAddressRules l).nftsets, hothers ?_ (rs.withAddressRules l).ipsets]
  · simp only [List.append_nil]
    congr 2
    · unfold writtenOf
      rw [Prod.map_id, List.map_id]
      rfl
    · unfold writtenOf
      rw [List.filter_map, List.filterMap_map]
      exact congrFun List.filterMap_eq_map _
  all_goals exact fun _ => rfl

theorem addressesIn_append (l l' : List AddressRule) (p : WildcardName) :
    rs.addressesIn (l ++ l') p = rs.addressesIn l p ++ rs.addressesIn l' p := by
  simp [addressesIn, expandRules, List.flatMap_append]

/-- A rule stands under a pattern as often as its domain has it. -/
theorem addressesIn_cons (rule : AddressRule) (l : List AddressRule) (p : WildcardName) :
    rs.addressesIn (rule :: l) p =
      List.replicate ((rs.expandDomain rule.domain).countP (· == p)) rule.config ++ rs.addressesIn l p := by
  unfold addressesIn expandRules
  rw [List.flatMap_cons, List.filter_append, List.map_append, List.filter_map, List.map_map,
    List.countP_eq_length_filter]
  congr 1
  exact List.map_const' ..

/-- **One more rule that is no list of addresses**: where it is put, what stood before it is gone. -/
theorem address_insert (pre post : List AddressRule) {rule : AddressRule} (h : rule.config.isAddr = false)
    (p : WildcardName) :
    (sumOf (rs.withAddressRules (pre ++ rule :: post)).written p).address =
      if rs.covers p rule.domain then folded (rule.config :: rs.addressesIn post p)
      else (sumOf (rs.withAddressRules (pre ++ post)).written p).address := by
  rw [address_sumOf, address_sumOf, addressesIn_append, addressesIn_append, addressesIn_cons]
  by_cases hcovers : rs.covers p rule.domain = true
  · rw [if_pos hcovers]
    obtain ⟨q, hq, hqp⟩ := List.any_eq_true.mp hcovers
    obtain ⟨n, hn⟩ : ∃ n, (rs.expandDomain rule.domain).countP (· == p) = n + 1 :=
      Nat.exists_eq_succ_of_ne_zero (Nat.ne_of_gt (List.countP_pos_iff.mpr ⟨q, hq, hqp⟩))
    rw [hn, List.replicate_succ']
    calc folded (rs.domainAddresses p ++ (rs.addressesIn pre p ++
            (List.replicate n rule.config ++ [rule.config] ++ rs.addressesIn post p)))
        = folded ((rs.domainAddresses p ++ rs.addressesIn pre p ++ List.replicate n rule.config) ++
            rule.config :: rs.addressesIn post p) := by simp
      _ = folded (rule.config :: rs.addressesIn post p) := folded_append_cons _ _ h
  · rw [if_neg hcovers]
    have hcount : (rs.expandDomain rule.domain).countP (· == p) = 0 := by
      rw [List.countP_eq_zero]
      intro q hq hqp
      exact hcovers (List.any_eq_true.mpr ⟨q, hq, hqp⟩)
    rw [hcount, List.replicate_zero, List.nil_append]

end RuleSet

end Rule
end SmartDns
