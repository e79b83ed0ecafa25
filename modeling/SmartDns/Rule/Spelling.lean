/-
# The same rules, written another way

`Rewritten rs rs'`: `rs'` has the rules of `rs`, list by list, with the trailing
dot of any domain written or left out (the root has no other spelling) and rules
on different domains in any order. A rule on a domain-set counts as one rule on
each of its members.

The lemmas here say what the gathered rules keep of the written ones: the
patterns are those written, and a pattern's rule is the sum of the rules written
under an equal pattern, in order.

Key definitions: `spell`, `SameRules`, `Rewritten`.
Key theorems: `exists_rewritten`, `ruleItems_rule`, `Rewritten.written`.
-/
import SmartDns.Rule.Chain

namespace SmartDns
namespace Rule

open Dns Lib

variable {α : Type}

/-- The pattern with its trailing dot or without; the root is always `.`. -/
def spell (dotted : Bool) (p : WildcardName) : WildcardName :=
  if p.name.labels = [] then p else p.setFqdn dotted

/-- The rules of a list, the `i`-th spelled with the dot where `dotted i` says so. -/
def spellAll (dotted : ℕ → Bool) (l : List (WildcardName × α)) : List (WildcardName × α) :=
  l.mapIdx fun i e => (spell (dotted i) e.1, e.2)

/-- `l'` has the rules of `l`, spelled in some way, with the order kept among rules on one domain. -/
def SameRules (l l' : List (WildcardName × α)) : Prop :=
  ∃ dotted : ℕ → Bool, ∀ p : WildcardName,
    (spellAll dotted l).filter (fun e => e.1.sameRule p) = l'.filter fun e => e.1.sameRule p

/-- The same rules written another way, list by list. -/
structure Rewritten (rs rs' : RuleSet) : Prop where
  domainRules : SameRules (rs.expandRules rs.domainRules) (rs'.expandRules rs'.domainRules)
  addressRules : SameRules (rs.expandRules rs.addressRules) (rs'.expandRules rs'.addressRules)
  forwardRules : SameRules (rs.expandRules rs.forwardRules) (rs'.expandRules rs'.forwardRules)
  cnames : SameRules (rs.expandRules rs.cnames) (rs'.expandRules rs'.cnames)
  srvRecords : SameRules (rs.expandRules rs.srvRecords) (rs'.expandRules rs'.srvRecords)
  httpsRecords : SameRules (rs.expandRules rs.httpsRecords) (rs'.expandRules rs'.httpsRecords)
  nftsets : SameRules (rs.expandRules rs.nftsets) (rs'.expandRules rs'.nftsets)
  ipsets : SameRules (rs.expandRules rs.ipsets) (rs'.expandRules rs'.ipsets)

/-! ### Spelling changes nothing but the dot -/

@[simp] theorem spell_shape (b : Bool) (p : WildcardName) : (spell b p).shape = p.shape := by
  unfold spell
  split <;> simp

@[simp] theorem spell_labels (b : Bool) (p : WildcardName) : (spell b p).name.labels = p.name.labels := by
  unfold spell
  split <;> simp

@[simp] theorem spell_isMatch (crateMatch : List UInt8 → List UInt8 → Bool) (b : Bool) (p : WildcardName)
    (n : Name) : (spell b p).isMatch crateMatch n = p.isMatch crateMatch n := by
  unfold spell
  split <;> simp

@[simp] theorem spell_askedAt (crateMatch : List UInt8 → List UInt8 → Bool) (b : Bool) (p : WildcardName)
    (a : Name) : askedAt crateMatch a (spell b p) = askedAt crateMatch a p := by
  unfold spell
  split
  · rfl
  · cases p <;> rfl

theorem spellAll_append (dotted : ℕ → Bool) (l l' : List (WildcardName × α)) :
    spellAll dotted (l ++ l') = spellAll dotted l ++ spellAll (fun i => dotted (i + l.length)) l' := by
  simp [spellAll, List.mapIdx_append]

theorem spellAll_map {β : Type} (dotted : ℕ → Bool) (g : α → β) (l : List (WildcardName × α)) :
    spellAll dotted (l.map (Prod.map id g)) = (spellAll dotted l).map (Prod.map id g) := by
  refine List.ext_getElem (by simp [spellAll]) fun i _ _ => ?_
  simp [spellAll]

theorem SameRules.append {k k' l l' : List (WildcardName × α)} (h : SameRules k k') (h' : SameRules l l') :
    SameRules (k ++ l) (k' ++ l') := by
  obtain ⟨d, hd⟩ := h
  obtain ⟨d', hd'⟩ := h'
  refine ⟨fun i => if i < k.length then d i else d' (i - k.length), fun p => ?_⟩
  have h1 : spellAll (fun i => if i < k.length then d i else d' (i - k.length)) k = spellAll d k := by
    refine List.ext_getElem (by simp [spellAll]) fun i hi _ => ?_
    have : i < k.length := by simpa [spellAll] using hi
    simp [spellAll, this]
  rw [spellAll_append, h1, List.filter_append, List.filter_append, hd p, ← hd' p]
  simp only [Nat.add_sub_cancel, Nat.not_lt.mpr (Nat.le_add_left k.length _), ite_false]

theorem SameRules.map {β : Type} {l l' : List (WildcardName × α)} (h : SameRules l l') (g : α → β) :
    SameRules (l.map (Prod.map id g)) (l'.map (Prod.map id g)) := by
  obtain ⟨d, hd⟩ := h
  refine ⟨d, fun p => ?_⟩
  rw [spellAll_map, List.filter_map, List.filter_map]
  exact congrArg (List.map (Prod.map id g)) (hd p)

/-! ### What the other writing has of a list -/

theorem mem_spellAll {dotted : ℕ → Bool} {l : List (WildcardName × α)} {e' : WildcardName × α} :
    e' ∈ spellAll dotted l ↔ ∃ i, ∃ h : i < l.length, e' = (spell (dotted i) l[i].1, l[i].2) := by
  simp only [spellAll, List.mem_mapIdx, eq_comm]

theorem SameRules.of_mem {l l' : List (WildcardName × α)} (h : SameRules l l') {e' : WildcardName × α}
    (he : e' ∈ l') : ∃ e ∈ l, ∃ b, e' = (spell b e.1, e.2) := by
  obtain ⟨d, hd⟩ := h
  have hmem : e' ∈ l'.filter fun e => e.1.sameRule e'.1 :=
    List.mem_filter.mpr ⟨he, (WildcardName.sameRule_iff _ _).mpr rfl⟩
  rw [← hd e'.1] at hmem
  obtain ⟨i, hi, heq⟩ := mem_spellAll.mp (List.mem_filter.mp hmem).1
  exact ⟨l[i], List.getElem_mem hi, d i, heq⟩

theorem SameRules.exists_mem {l l' : List (WildcardName × α)} (h : SameRules l l') {e : WildcardName × α}
    (he : e ∈ l) : ∃ b, (spell b e.1, e.2) ∈ l' := by
  obtain ⟨d, hd⟩ := h
  obtain ⟨i, hi, rfl⟩ := List.getElem_of_mem he
  refine ⟨d i, ?_⟩
  have hmem : (spell (d i) l[i].1, l[i].2) ∈ (spellAll d l).filter fun e => e.1.sameRule l[i].1 :=
    List.mem_filter.mpr ⟨mem_spellAll.mpr ⟨i, hi, rfl⟩, (WildcardName.sameRule_iff _ _).mpr (spell_shape _ _)⟩
  rw [hd] at hmem
  exact (List.mem_filter.mp hmem).1

theorem length_filter_spellAll (dotted : ℕ → Bool) (l : List (WildcardName × α)) (p : WildcardName) :
    ((spellAll dotted l).filter fun e => e.1.sameRule p).length =
      (l.filter fun e => e.1.sameRule p).length := by
  have hshape : (spellAll dotted l).map (·.1.shape) = l.map (·.1.shape) :=
    List.ext_getElem (by simp [spellAll]) fun i _ _ => by simp [spellAll]
  have hcount : ∀ k : List (WildcardName × α), (k.filter fun e => e.1.sameRule p).length =
      (k.map (·.1.shape)).countP (· = p.shape) := fun k => by
    rw [List.countP_map, ← List.countP_eq_length_filter]
    refine List.countP_congr fun e _ => ?_
    simp [WildcardName.sameRule_iff]
  rw [hcount, hcount, hshape]

theorem SameRules.length_filter {l l' : List (WildcardName × α)} (h : SameRules l l') (p : WildcardName) :
    (l'.filter fun e => e.1.sameRule p).length = (l.filter fun e => e.1.sameRule p).length := by
  obtain ⟨d, hd⟩ := h
  rw [← hd p, length_filter_spellAll]

theorem SameRules.refl (l : List (WildcardName × α)) : SameRules l l := by
  refine ⟨fun i => (l[i]?.map fun e => e.1.name.isFqdn).getD true, fun p => ?_⟩
  congr 1
  refine List.ext_getElem (by simp [spellAll]) fun i hi hi' => ?_
  have hself : ∀ q : WildcardName, spell q.name.isFqdn q = q := fun q => by
    unfold spell
    split
    · rfl
    · cases q <;> rfl
  simp [spellAll, hi', hself]

theorem Rewritten.refl (rs : RuleSet) : Rewritten rs rs :=
  ⟨.refl _, .refl _, .refl _, .refl _, .refl _, .refl _, .refl _, .refl _⟩

theorem Rewritten.written {rs rs' : RuleSet} (h : Rewritten rs rs') :
    SameRules rs.written rs'.written := by
  unfold RuleSet.written RuleSet.writtenOf
  refine SameRules.append ?_ (h.ipsets.map _)
  refine SameRules.append ?_ (h.nftsets.map _)
  refine SameRules.append ?_ (h.httpsRecords.map _)
  refine SameRules.append ?_ (h.srvRecords.map _)
  refine SameRules.append ?_ (h.cnames.map _)
  refine SameRules.append ?_ (h.forwardRules.map _)
  exact (h.domainRules.map _).append (h.addressRules.map _)

/-- A list of rules on names. -/
def toRules (l : List (WildcardName × α)) : List (ConfigForDomain α) := l.map fun e => ⟨.name e.1, e.2⟩

theorem expandRules_toRules (rs : RuleSet) (l : List (WildcardName × α)) : rs.expandRules (toRules l) = l := by
  simp [RuleSet.expandRules, toRules, RuleSet.expandDomain, List.flatMap_map]

theorem sameRules_toRules (rs rs' : RuleSet) (dotted : ℕ → Bool) (rules : List (ConfigForDomain α)) :
    SameRules (rs.expandRules rules)
      (rs'.expandRules (toRules (spellAll dotted (rs.expandRules rules)))) :=
  ⟨dotted, fun _ => by rw [expandRules_toRules]⟩

/-- Any spelling of the written rules is the spelling of a rule set. -/
theorem exists_rewritten (rs : RuleSet) (dotted : ℕ → Bool) :
    ∃ rs', Rewritten rs rs' ∧ rs'.written = spellAll dotted rs.written := by
  let d := rs.expandRules rs.domainRules
  let a := rs.expandRules rs.addressRules
  let f := rs.expandRules rs.forwardRules
  let c := rs.expandRules rs.cnames
  let s := rs.expandRules rs.srvRecords
  let h := rs.expandRules rs.httpsRecords
  let n := rs.expandRules rs.nftsets
  let from' (k i : ℕ) : Bool := dotted (i + k)
  refine ⟨{
    domainRules := toRules (spellAll (from' 0) d)
    addressRules := toRules (spellAll (from' d.length) a)
    forwardRules := toRules (spellAll (from' (d.length + a.length)) f)
    cnames := toRules (spellAll (from' (d.length + a.length + f.length)) c)
    srvRecords := toRules (spellAll (from' (d.length + a.length + f.length + c.length)) s)
    httpsRecords := toRules (spellAll (from' (d.length + a.length + f.length + c.length + s.length)) h)
    nftsets := toRules
      (spellAll (from' (d.length + a.length + f.length + c.length + s.length + h.length)) n)
    ipsets := toRules
      (spellAll (from' (d.length + a.length + f.length + c.length + s.length + h.length + n.length))
        (rs.expandRules rs.ipsets)) }, ?_, ?_⟩
  · exact ⟨sameRules_toRules _ _ _ _, sameRules_toRules _ _ _ _, sameRules_toRules _ _ _ _,
      sameRules_toRules _ _ _ _, sameRules_toRules _ _ _ _, sameRules_toRules _ _ _ _,
      sameRules_toRules _ _ _ _, sameRules_toRules _ _ _ _⟩
  · unfold RuleSet.written RuleSet.writtenOf
    simp only [expandRules_toRules, spellAll_append, spellAll_map, List.length_append, List.length_map]
    rfl

/-! ### What the gathered rules keep of the written ones -/

/-- The rules written under a pattern equal to `p`, put together. -/
def sumOf (l : List (WildcardName × DomainRule)) (p : WildcardName) : DomainRule :=
  (l.filter fun e => e.1 == p).foldl (fun r e => r.addAssign e.2) {}

theorem foldl_addRule_get? (p : WildcardName) : ∀ l : List (WildcardName × DomainRule),
    (l.foldl RuleSet.addRule KeyMap.empty).get? p =
      if l.any (fun e => e.1 == p) then some (sumOf l p) else none := by
  intro l
  induction l using List.reverseRecOn with
  | nil => rfl
  | append_singleton l e ih =>
    rw [List.foldl_append, List.foldl_cons, List.foldl_nil, RuleSet.addRule]
    by_cases he : (e.1 == p) = true
    · rw [KeyMap.get?_update_of_beq _ he, ih]
      have hsum : sumOf (l ++ [e]) p = (sumOf l p).addAssign e.2 := by
        simp [sumOf, List.filter_append, he]
      by_cases hl : l.any (fun e => e.1 == p) = true
      · simp [hl, he, hsum]
      · have hnil : l.filter (fun e => e.1 == p) = [] := by
          simpa [List.filter_eq_nil_iff] using hl
        simp only [List.any_append, hl, he, List.any_cons, hsum, Bool.false_eq_true, ite_false]
        simp [sumOf, hnil]
    · rw [KeyMap.get?_update_of_not_beq _ he, ih]
      simp only [sumOf, List.filter_append, List.any_append, List.any_cons, List.any_nil, he,
        List.filter_cons, List.filter_nil, List.append_nil, Bool.or_false, Bool.false_eq_true, ite_false]

theorem foldl_addRule_fst (l : List (WildcardName × DomainRule)) :
    ∀ item ∈ (l.foldl RuleSet.addRule KeyMap.empty).entries, ∃ e ∈ l, e.1 = item.1 := by
  induction l using List.reverseRecOn with
  | nil => simp [KeyMap.empty]
  | append_singleton l e ih =>
    rw [List.foldl_append, List.foldl_cons, List.foldl_nil, RuleSet.addRule]
    intro item hitem
    rcases KeyMap.mem_keys_update _ _ _ item hitem with ⟨item', h', heq⟩ | heq
    · obtain ⟨e', he', hp⟩ := ih item' h'
      exact ⟨e', List.mem_append_left _ he', hp.trans heq⟩
    · exact ⟨e, by simp, heq.symm⟩

variable (rs : RuleSet)

theorem mem_ruleItems {item : WildcardName × DomainRule} :
    item ∈ rs.ruleItems ↔ item ∈ rs.nameRuleMap.entries :=
  List.mem_insertionSort _

/-- Every configured pattern is a written one. -/
theorem ruleItems_fst {item : WildcardName × DomainRule} (h : item ∈ rs.ruleItems) :
    ∃ e ∈ rs.written, e.1 = item.1 := by
  rw [mem_ruleItems, RuleSet.nameRuleMap_eq_foldl_written] at h
  exact foldl_addRule_fst rs.written item h

/-- Every written pattern is configured. -/
theorem exists_ruleItem {e : WildcardName × DomainRule} (h : e ∈ rs.written) :
    ∃ item ∈ rs.ruleItems, (item.1 == e.1) = true := by
  have hany : rs.written.any (fun w => w.1 == e.1) = true := List.any_eq_true.mpr ⟨e, h, BEq.rfl⟩
  have hget := foldl_addRule_get? e.1 rs.written
  rw [if_pos hany, ← RuleSet.nameRuleMap_eq_foldl_written, KeyMap.get?_eq_some_iff] at hget
  obtain ⟨k, hk, hm⟩ := hget
  exact ⟨_, (mem_ruleItems rs).mpr hm, hk⟩

/-- The rule of a configured pattern is the sum of the rules written under it. -/
theorem ruleItems_rule {item : WildcardName × DomainRule} (h : item ∈ rs.ruleItems) :
    item.2 = sumOf rs.written item.1 := by
  obtain ⟨e, he, heq⟩ := ruleItems_fst rs h
  have hget : rs.nameRuleMap.get? item.1 = some item.2 :=
    (KeyMap.get?_eq_some_iff _ _ _).mpr ⟨item.1, BEq.rfl, (mem_ruleItems rs).mp h⟩
  have hany : rs.written.any (fun w => w.1 == item.1) = true :=
    List.any_eq_true.mpr ⟨e, he, heq ▸ BEq.rfl⟩
  rw [RuleSet.nameRuleMap_eq_foldl_written, foldl_addRule_get?, if_pos hany] at hget
  exact (Option.some.inj hget).symm

end Rule
end SmartDns
