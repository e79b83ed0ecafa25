/-
# The walk up the rule tree, from the patterns alone

`create` inserts the patterns in order, so the map a node's parent was looked up
in holds the patterns that sort before the node's own (`before`), and the walk
`get` makes from `find(q)` is read off the sorted patterns: the one in force at
`q`, then the one in force at its base name among those before it, and so on
(`zoneChain`, `chainAt_buildTree`). `Met` is the same walk as a relation.

Key definitions: `before`, `zoneChain`, `Met`.
Key theorems: `chainAt_buildTree`, `mem_zoneChain_iff_met`, `ruleItems_sorted`.
-/
import Mathlib.Data.List.Sort
import SmartDns.Rule.Nearest
import SmartDns.Rule.Tree

namespace SmartDns
namespace Rule

open Dns Lib

universe u

variable {T : Type u} (crateMatch : List UInt8 → List UInt8 → Bool)

/-- The items whose pattern sorts before `p`. -/
def before (items : List (WildcardName × T)) (p : WildcardName) : List (WildcardName × T) :=
  items.filter fun e => e.1.cmp p == .lt

abbrev Sorted (items : List (WildcardName × T)) : Prop := items.Pairwise fun a b => a.1.cmp b.1 = .lt

theorem mem_before {items : List (WildcardName × T)} {p : WildcardName} {e : WildcardName × T} :
    e ∈ before items p ↔ e ∈ items ∧ e.1.cmp p = .lt := by
  simp [before]

theorem before_before (items : List (WildcardName × T)) {p p' : WildcardName} (h : p'.cmp p = .lt) :
    before (before items p) p' = before items p' := by
  unfold before
  rw [List.filter_filter]
  refine List.filter_congr fun e _ => ?_
  rw [Bool.eq_iff_iff, Bool.and_eq_true, beq_iff_eq, beq_iff_eq]
  exact ⟨fun h' => h'.1, fun h' => ⟨h', Std.TransCmp.lt_trans h' h⟩⟩

theorem cmp_self_ne_lt (p : WildcardName) : p.cmp p ≠ .lt := by
  rw [(WildcardName.cmp_eq_iff p p).mpr BEq.rfl]
  decide

/-- Of the spellings of a pattern in a sorted list the greatest is stored last. -/
theorem cmp_of_spelled {items : List (WildcardName × T)} {p : WildcardName} {e e' : WildcardName × T}
    (hsorted : Sorted items) (h : spelled items p = some e) (he' : e' ∈ items) (hshape : e'.1.shape = p.shape) :
    e' = e ∨ e'.1.cmp e.1 = .lt := by
  unfold spelled at h
  obtain ⟨-, later, earlier, hsplit, hlater⟩ := List.find?_eq_some_iff_append.mp h
  have hmem : e' ∈ items.reverse := List.mem_reverse.mpr he'
  have hpairs : items.reverse.Pairwise fun a b => b.1.cmp a.1 = .lt := List.pairwise_reverse.mpr hsorted
  rw [hsplit] at hmem hpairs
  rcases List.mem_append.mp hmem with hlate | hmem
  · have hnot := hlater e' hlate
    rw [Bool.not_eq_true', ← Bool.not_eq_true, WildcardName.sameRule_iff] at hnot
    exact absurd hshape hnot
  · rcases List.mem_cons.mp hmem with heq | hearly
    · exact .inl heq
    · exact .inr ((List.pairwise_cons.mp (List.pairwise_append.mp hpairs).2.1).1 e' hearly)

theorem length_before_lt {items : List (WildcardName × T)} {e : WildcardName × T} (h : e ∈ items) :
    (before items e.1).length < items.length := by
  unfold before
  rw [List.length_filter_lt_length_iff_exists]
  exact ⟨e, h, by simpa using cmp_self_ne_lt e.1⟩

theorem nearest_mem {items : List (WildcardName × T)} {q : Name} {e : WildcardName × T}
    (h : nearest crateMatch items q = some e) : e ∈ items := by
  obtain ⟨k, hf, -⟩ := nearest_some h
  exact (spelled_some hf.1).1

/-- The items met on the way up from `q`: the one in force, then those in force at the base name
among the patterns before it. -/
def zoneChain (items : List (WildcardName × T)) (q : Name) : List (WildcardName × T) :=
  match _h : nearest crateMatch items q with
  | none => []
  | some e => e :: zoneChain (before items e.1) e.1.name.baseName
termination_by items.length
decreasing_by exact length_before_lt (nearest_mem crateMatch _h)

theorem zoneChain_none {items : List (WildcardName × T)} {q : Name}
    (h : nearest crateMatch items q = none) : zoneChain crateMatch items q = [] := by
  rw [zoneChain]
  split
  · rfl
  · simp_all

theorem zoneChain_some {items : List (WildcardName × T)} {q : Name} {e : WildcardName × T}
    (h : nearest crateMatch items q = some e) :
    zoneChain crateMatch items q = e :: zoneChain crateMatch (before items e.1) e.1.name.baseName := by
  rw [zoneChain]
  split
  · simp_all
  · rename_i e' h'
    obtain rfl : e' = e := Option.some.inj (h'.symm.trans h)
    rfl

/-- The walk up from `q` meets the item. -/
inductive Met (items : List (WildcardName × T)) (q : Name) : WildcardName × T → Prop
  | first {e : WildcardName × T} : nearest crateMatch items q = some e → Met items q e
  | next {e e' : WildcardName × T} : Met items q e →
      nearest crateMatch (before items e.1) e.1.name.baseName = some e' → Met items q e'

theorem zoneChain_subset (items : List (WildcardName × T)) (q : Name) :
    ∀ e ∈ zoneChain crateMatch items q, e ∈ items := by
  induction items, q using zoneChain.induct crateMatch with
  | case1 items q h => simp [zoneChain_none crateMatch h]
  | case2 items q e₁ h ih =>
    rw [zoneChain_some crateMatch h]
    intro e he
    rcases List.mem_cons.mp he with rfl | he
    · exact nearest_mem crateMatch h
    · exact (mem_before.mp (ih e he)).1

/-- What holds of an item in force and of all that the walk meets after it holds along the walk. -/
theorem pairwise_zoneChain {R : WildcardName × T → WildcardName × T → Prop}
    (h : ∀ items q e, nearest crateMatch items q = some e →
      ∀ e' ∈ zoneChain crateMatch (before items e.1) e.1.name.baseName, R e e')
    (items : List (WildcardName × T)) (q : Name) : (zoneChain crateMatch items q).Pairwise R := by
  induction items, q using zoneChain.induct crateMatch with
  | case1 items q hnone =>
    rw [zoneChain_none crateMatch hnone]
    exact List.Pairwise.nil
  | case2 items q e hsome ih =>
    rw [zoneChain_some crateMatch hsome]
    exact List.pairwise_cons.mpr ⟨h items q e hsome, ih⟩

/-- The walk goes from later patterns to earlier ones. -/
theorem zoneChain_descending (items : List (WildcardName × T)) (q : Name) :
    (zoneChain crateMatch items q).Pairwise fun a b => b.1.cmp a.1 = .lt := by
  apply pairwise_zoneChain crateMatch
  intro items q e _ b hb
  exact (mem_before.mp (zoneChain_subset crateMatch _ _ b hb)).2

/-- The walk goes on from each of its items. -/
theorem zoneChain_closed (items : List (WildcardName × T)) (q : Name) :
    ∀ e ∈ zoneChain crateMatch items q, ∀ e',
      nearest crateMatch (before items e.1) e.1.name.baseName = some e' →
      e' ∈ zoneChain crateMatch items q := by
  induction items, q using zoneChain.induct crateMatch with
  | case1 items q h => simp [zoneChain_none crateMatch h]
  | case2 items q e₁ h ih =>
    rw [zoneChain_some crateMatch h]
    intro e he e' h'
    rcases List.mem_cons.mp he with rfl | he
    · rw [zoneChain_some crateMatch h']
      exact List.mem_cons_of_mem _ List.mem_cons_self
    · have hlt := (mem_before.mp (zoneChain_subset crateMatch _ _ e he)).2
      rw [← before_before items hlt] at h'
      exact List.mem_cons_of_mem _ (ih e he e' h')

/-- What the walk from a met item on meets is met. -/
theorem met_of_mem_zoneChain (items₀ : List (WildcardName × T)) (q₀ : Name)
    (items : List (WildcardName × T)) (q : Name)
    (hm : ∀ e, nearest crateMatch items q = some e → Met crateMatch items₀ q₀ e ∧
      before items e.1 = before items₀ e.1) :
    ∀ e ∈ zoneChain crateMatch items q, Met crateMatch items₀ q₀ e := by
  induction items, q using zoneChain.induct crateMatch with
  | case1 items q h => simp [zoneChain_none crateMatch h]
  | case2 items q e₁ h ih =>
    obtain ⟨hm₁, hb⟩ := hm e₁ h
    rw [zoneChain_some crateMatch h]
    intro e he
    rcases List.mem_cons.mp he with rfl | he
    · exact hm₁
    · refine ih (fun e' h' => ?_) e he
      rw [hb] at h' ⊢
      exact ⟨hm₁.next h', before_before items₀ (mem_before.mp (nearest_mem crateMatch h')).2⟩

/-- The walk as a list and as a relation are the same. -/
theorem mem_zoneChain_iff_met (items : List (WildcardName × T)) (q : Name) (e : WildcardName × T) :
    e ∈ zoneChain crateMatch items q ↔ Met crateMatch items q e := by
  constructor
  · exact met_of_mem_zoneChain crateMatch items q items q (fun e h => ⟨.first h, rfl⟩) e
  · intro hm
    induction hm with
    | first h =>
      rw [zoneChain_some crateMatch h]
      exact List.mem_cons_self
    | next _ h ih => exact zoneChain_closed crateMatch items q _ ih _ h

/-! ### The tree that is built -/

/-- The nodes `buildTree` makes, with the patterns they are inserted under. -/
def treeNodes (items : List (WildcardName × DomainRule)) : List (WildcardName × DomainRuleTreeNode) :=
  items.foldl (fun nodes e => nodes ++
    [(e.1, .mk e.1 e.2 ((DomainMap.ofList nodes).find crateMatch e.1.name.baseName))]) []

/-- The node of an item: its parent is looked up among the items before it. -/
def nodeOf (items : List (WildcardName × DomainRule)) (e : WildcardName × DomainRule) :
    DomainRuleTreeNode :=
  .mk e.1 e.2 ((DomainMap.ofList (treeNodes crateMatch (before items e.1))).find crateMatch e.1.name.baseName)

theorem buildTree_eq_ofList (items : List (WildcardName × DomainRule)) :
    buildTree crateMatch items = DomainMap.ofList (treeNodes crateMatch items) := by
  induction items using List.reverseRecOn with
  | nil => rfl
  | append_singleton items e ih =>
    unfold buildTree treeNodes at *
    rw [List.foldl_append, List.foldl_append, ih]
    simp only [List.foldl_cons, List.foldl_nil, DomainMap.ofList_concat]

theorem before_concat {items : List (WildcardName × DomainRule)} {e : WildcardName × DomainRule}
    (h : Sorted (items ++ [e])) :
    before (items ++ [e]) e.1 = items ∧ ∀ e' ∈ items, before (items ++ [e]) e'.1 = before items e'.1 := by
  obtain ⟨-, -, hlt⟩ := List.pairwise_append.mp h
  have hlt (e' : WildcardName × DomainRule) (he' : e' ∈ items) : e'.1.cmp e.1 = .lt :=
    hlt e' he' e (List.mem_singleton_self e)
  constructor
  · unfold before
    rw [List.filter_append, List.filter_eq_self.mpr (by simpa using fun a b hab => hlt (a, b) hab)]
    simpa using cmp_self_ne_lt e.1
  · intro e' he'
    unfold before
    have : (e.1.cmp e'.1 == .lt) = false := by
      simpa using fun h' => cmp_self_ne_lt e.1 (Std.TransCmp.lt_trans h' (hlt e' he'))
    rw [List.filter_append, List.filter_singleton, this, cond_false, List.append_nil]

/-- The parent of each node is looked up among the items that sort before it. -/
theorem treeNodes_eq_map {items : List (WildcardName × DomainRule)} (h : Sorted items) :
    treeNodes crateMatch items = items.map fun e => (e.1, nodeOf crateMatch items e) := by
  induction items using List.reverseRecOn with
  | nil => rfl
  | append_singleton items e ih =>
    obtain ⟨hlast, hinit⟩ := before_concat h
    have hnodes : treeNodes crateMatch (items ++ [e]) = treeNodes crateMatch items ++
        [(e.1, .mk e.1 e.2 ((DomainMap.ofList (treeNodes crateMatch items)).find crateMatch
          e.1.name.baseName))] := by
      simp [treeNodes]
    rw [hnodes, ih (List.pairwise_append.mp h).1, List.map_append, List.map_singleton]
    congr 1
    · refine List.map_congr_left fun e' he' => ?_
      rw [nodeOf, nodeOf, hinit e' he']
    · rw [nodeOf, hlast, ih (List.pairwise_append.mp h).1]

theorem spelled_map {T' : Type u} (g : WildcardName × T → T') (items : List (WildcardName × T))
    (p : WildcardName) :
    spelled (items.map fun e => (e.1, g e)) p = (spelled items p).map fun e => (e.1, g e) := by
  rw [spelled, spelled, ← List.map_reverse, List.find?_map]
  rfl

theorem visitItems_map {T' : Type u} (g : WildcardName × T → T') (items : List (WildcardName × T))
    (lvl : ℕ) (last n : Name) :
    visitItems crateMatch (items.map fun e => (e.1, g e)) lvl last n =
      (visitItems crateMatch items lvl last n).map fun e => (e.1, g e) := by
  have subs : (subsOver (items.map fun e => (e.1, g e)) n).findSome? (fun e =>
        if e.1.isMatch crateMatch last then spelled (items.map fun e => (e.1, g e)) e.1 else none) =
      ((subsOver items n).findSome? fun e =>
        if e.1.isMatch crateMatch last then spelled items e.1 else none).map fun e => (e.1, g e) := by
    rw [subsOver, List.filter_map, List.findSome?_map, List.map_findSome?]
    congr 1
    funext e
    simp only [Function.comp_apply, spelled_map, apply_ite (Option.map fun e => (e.1, g e)),
      Option.map_none]
  unfold visitItems
  rw [subs]
  simp only [spelled_map, Option.map_or, apply_ite (Option.map fun e => (e.1, g e)), Option.map_none]

theorem climbItems_map {T' : Type u} (g : WildcardName × T → T') (items : List (WildcardName × T)) :
    ∀ (ls : List Label) (lvl : ℕ) (last : Name),
    climbItems crateMatch (items.map fun e => (e.1, g e)) lvl last ls =
      (climbItems crateMatch items lvl last ls).map fun e => (e.1, g e)
  | [], _, _ => visitItems_map crateMatch g items _ _ _
  | l :: ls, lvl, last => by
    rw [climbItems, climbItems, visitItems_map, climbItems_map g items ls, Option.map_or]

/-- Which pattern is in force does not depend on the values. -/
theorem nearest_map {T' : Type u} (g : WildcardName × T → T') (items : List (WildcardName × T)) (q : Name) :
    nearest crateMatch (items.map fun e => (e.1, g e)) q =
      (nearest crateMatch items q).map fun e => (e.1, g e) :=
  climbItems_map crateMatch g items _ _ _

/-- The nodes on the walk from `find(q)` are the items of `zoneChain`, in order. -/
theorem chainAt_buildTree (items : List (WildcardName × DomainRule)) (q : Name) (h : Sorted items) :
    ((buildTree crateMatch items).chainAt crateMatch q).map DomainRuleTreeNode.item =
      zoneChain crateMatch items q := by
  induction items, q using zoneChain.induct crateMatch with
  | case1 items q hn =>
    rw [zoneChain_none crateMatch hn, buildTree_eq_ofList, DomainRuleMap.chainAt, DomainMap.find_ofList,
      treeNodes_eq_map crateMatch h, nearest_map, hn]
    rfl
  | case2 items q e hn ih =>
    have hchain : (buildTree crateMatch items).chainAt crateMatch q = (nodeOf crateMatch items e).chain := by
      rw [buildTree_eq_ofList, DomainRuleMap.chainAt, DomainMap.find_ofList,
        treeNodes_eq_map crateMatch h, nearest_map, hn]
      rfl
    have hzone : (nodeOf crateMatch items e).chain = nodeOf crateMatch items e ::
        (buildTree crateMatch (before items e.1)).chainAt crateMatch e.1.name.baseName := by
      rw [nodeOf, DomainRuleTreeNode.chain_mk, buildTree_eq_ofList]
      rfl
    rw [zoneChain_some crateMatch hn, hchain, hzone, List.map_cons, ih (h.filter _)]
    rfl

/-- The patterns `create` inserts are sorted, no two the same. -/
theorem ruleItems_sorted (rs : RuleSet) : Sorted rs.ruleItems := by
  let le (a b : WildcardName × DomainRule) : Prop := (a.1.cmp b.1).isLE = true
  have : Std.Total le := ⟨fun a b => by
    change (a.1.cmp b.1).isLE = true ∨ (b.1.cmp a.1).isLE = true
    rw [WildcardName.cmp_swap a.1 b.1]
    cases a.1.cmp b.1 <;> simp⟩
  have : IsTrans _ le := ⟨fun _ _ _ => Std.TransCmp.isLE_trans⟩
  have hle : rs.ruleItems.Pairwise le := List.pairwise_insertionSort le _
  have hne : rs.ruleItems.Pairwise fun a b => (a.1 == b.1) = false := by
    refine (List.Perm.pairwise_iff ?_ (List.perm_insertionSort le _)).mpr rs.nameRuleMap.distinct
    intro a b h
    rw [BEq.comm, h]
  refine (hle.and hne).imp fun {a b} h => ?_
  obtain ⟨h1, h2⟩ := h
  cases hc : a.1.cmp b.1 with
  | lt => rfl
  | eq => simp [(WildcardName.cmp_eq_iff _ _).mp hc] at h2
  | gt =>
    change (a.1.cmp b.1).isLE = true at h1
    simp [hc] at h1

end Rule
end SmartDns
