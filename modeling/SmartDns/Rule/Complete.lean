/-
# When inheritance is complete

Every rule whose pattern covers a name should be found on the walk from that
name, the more specific first, so that a setting only it gives is returned; and
this should not hang on how the rules are spelled or in which order those on
different domains stand.

A node has one parent, looked up among the patterns that sort before it, and the
lookup returns one pattern of each base name. So of two patterns over one base
name at most one is on the walk; and as a pattern without the trailing dot sorts
before every pattern with it, a node spelled without the dot never inherits from
one spelled with it. What is left is `LoneMatch`: at most one written rule
covers the name, and the lookup of the name asks for its pattern before any
other written one (`inherits_completely_iff`).

Key definitions: `Complete`, `InheritsCompletely`, `LoneMatch`.
Key theorems: `inherits_completely_iff`.
-/
import SmartDns.Rule.Sound
import SmartDns.Rule.Spelling

namespace SmartDns
namespace Rule

open Dns Lib

universe u

variable {T : Type u} (crateMatch : List UInt8 → List UInt8 → Bool)

/-- `a` is at least as specific as `b`: a longer base name, or the same and a narrower kind. -/
def WildcardName.specific (a b : WildcardName) : Prop :=
  b.name.labels.length < a.name.labels.length ∨
    a.name.labels.length = b.name.labels.length ∧ a.ord ≤ b.ord

/-- The walk from `q` has every written pattern that covers `q`, from the most to the least
specific, and a setting that one covering rule alone gives is returned. -/
structure Complete (rs : RuleSet) (q : Name) : Prop where
  occurs : ∀ e ∈ rs.written, e.1.isMatch crateMatch q = true →
    ∃ node ∈ (DomainRuleMap.create crateMatch rs).chainAt crateMatch q, (node.name == e.1) = true
  ordered : (((DomainRuleMap.create crateMatch rs).chainAt crateMatch q).filter
    fun node => node.name.isMatch crateMatch q).Pairwise fun a b => a.name.specific b.name
  settings : ∀ {α : Type} (s : Setting α) (l l' : List (WildcardName × DomainRule))
    (e : WildcardName × DomainRule) (v : α), rs.written = l ++ e :: l' →
    e.1.isMatch crateMatch q = true → s.get e.2 = some v →
    (∀ e' ∈ l ++ l', e'.1.isMatch crateMatch q = true → s.get e'.2 = none) →
    (DomainRuleMap.create crateMatch rs).getAt crateMatch q (fun node => s.get node.rule) = some v

/-- Inheritance is complete for `q` however the rules are spelled and ordered. -/
def InheritsCompletely (rs : RuleSet) (q : Name) : Prop :=
  ∀ rs', Rewritten rs rs' → Complete crateMatch rs' q

/-- No rule covers `q`; or one does, no other rule is written on its pattern (the root's apart, which
has one spelling only), and of all written patterns the lookup of `q` asks for it first. -/
def LoneMatch (rs : RuleSet) (q : Name) : Prop :=
  (∀ e ∈ rs.written, e.1.isMatch crateMatch q = false) ∨
  ∃ r ∈ rs.written, r.1.isMatch crateMatch q = true ∧
    (r.1.name.labels ≠ [] → (rs.written.filter fun e => e.1.sameRule r.1).length = 1) ∧
    ∃ k, askedAt crateMatch (asked q) r.1 = some k ∧
      ∀ e ∈ rs.written, e.1.shape ≠ r.1.shape → e.1.isMatch crateMatch q = false ∧
        ∀ k', askedAt crateMatch (asked q) e.1 = some k' → k < k'

/-- The root is written `.` (the parser gives no other name without labels). -/
def RootsDotted (rs : RuleSet) : Prop :=
  ∀ e ∈ rs.written, e.1.name.labels = [] → e.1.name.isFqdn = true

/-! ### The order of the walk -/

/-- What holds of an item of the walk and a later one. -/
structure Above (a b : WildcardName × T) : Prop where
  lt : b.1.cmp a.1 = .lt
  shorter : b.1.name.labels.length ≤ a.1.name.labels.length - 1
  overRoot : a.1.name.labels = [] → (∃ n, b.1 = .full n) ∨ ∃ n, b.1 = .default n

theorem length_le_of_mem_zoneChain {items : List (WildcardName × T)} {q : Name}
    {e : WildcardName × T} (h : e ∈ zoneChain crateMatch items q) :
    e.1.name.labels.length ≤ q.labels.length := by
  simpa using ((mem_zoneChain_iff_met crateMatch items q e).mp h).suffix.length_le

theorem kind_of_mem_zoneChain_root {items : List (WildcardName × T)} {q : Name} (hq : q.labels = [])
    {e : WildcardName × T} (h : e ∈ zoneChain crateMatch items q) :
    (∃ n, e.1 = .full n) ∨ ∃ n, e.1 = .default n := by
  have found {view : List (WildcardName × T)} {n : Name} {e : WildcardName × T} (hn : n.labels = [])
      (h : nearest crateMatch view n = some e) : (∃ n, e.1 = .full n) ∨ ∃ n, e.1 = .default n := by
    obtain ⟨k, hf, -⟩ := nearest_some h
    have ha : (asked n).labels = [] := by simp [asked_labels, hn]
    rcases hf.kind with ⟨-, m, he, -⟩ | ⟨-, ha', -⟩ | ⟨lvl, hlvl, -, h1, -⟩ | ⟨lvl, -, -, m, he, -⟩
    · exact .inl ⟨m, he⟩
    · exact absurd ha ha'
    · rw [ha, List.length_nil] at hlvl
      omega
    · exact .inr ⟨m, he⟩
  rw [mem_zoneChain_iff_met] at h
  cases h with
  | first h => exact found hq h
  | next h h' =>
    refine found ?_ h'
    have := h.suffix.length_le
    simp only [Name.folded_length, hq, List.length_nil] at this
    rw [Name.baseName_labels, List.length_eq_zero_iff.mp (Nat.le_zero.mp this)]
    rfl

theorem zoneChain_pairwise (items : List (WildcardName × T)) (q : Name) :
    (zoneChain crateMatch items q).Pairwise Above := by
  apply pairwise_zoneChain crateMatch
  intro items q e _ b hb
  have hlen := length_le_of_mem_zoneChain crateMatch hb
  rw [Name.baseName_labels, List.length_tail] at hlen
  refine ⟨(mem_before.mp (zoneChain_subset crateMatch _ _ b hb)).2, hlen, fun hr => ?_⟩
  exact kind_of_mem_zoneChain_root crateMatch (by rw [Name.baseName_labels, hr]; rfl) hb

/-- Of two items of the walk that are not the same one comes first. -/
theorem above_or_above {items : List (WildcardName × T)} {q : Name} {a b : WildcardName × T}
    (ha : a ∈ zoneChain crateMatch items q) (hb : b ∈ zoneChain crateMatch items q) (hab : a ≠ b) :
    Above a b ∨ Above b a := by
  have hsub := zoneChain_pairwise crateMatch items q
  rw [List.pairwise_iff_getElem] at hsub
  obtain ⟨i, hi, rfl⟩ := List.getElem_of_mem ha
  obtain ⟨j, hj, rfl⟩ := List.getElem_of_mem hb
  rcases Nat.lt_trichotomy i j with h | rfl | h
  · exact .inl (hsub i j hi hj h)
  · exact absurd rfl hab
  · exact .inr (hsub j i hj hi h)

theorem Above.isFqdn {a b : WildcardName × T} (h : Above a b) (ha : a.1.name.isFqdn = false) :
    b.1.name.isFqdn = false :=
  WildcardName.isFqdn_of_cmp_lt h.lt ha

/-! ### A lone match is found, however it is written -/

theorem RootsDotted.rewritten {rs rs' : RuleSet} (hr : RootsDotted rs) (h : Rewritten rs rs') :
    RootsDotted rs' := by
  intro e' he' hroot
  obtain ⟨e, he, b, rfl⟩ := h.written.of_mem he'
  rw [spell_labels] at hroot
  simpa [spell, hroot] using hr e he hroot

theorem LoneMatch.rewritten {rs rs' : RuleSet} {q : Name} (hl : LoneMatch crateMatch rs q)
    (h : Rewritten rs rs') : LoneMatch crateMatch rs' q := by
  rcases hl with hno | ⟨r, hr, hm, hlone, k, hk, hfirst⟩
  · refine .inl fun e' he' => ?_
    obtain ⟨e, he, b, rfl⟩ := h.written.of_mem he'
    rw [spell_isMatch, hno e he]
  · obtain ⟨b, hr'⟩ := h.written.exists_mem hr
    refine .inr ⟨_, hr', by rwa [spell_isMatch], fun hroot => ?_, k, by rwa [spell_askedAt], ?_⟩
    · rw [spell_labels] at hroot
      have hsame : (fun e : WildcardName × DomainRule => e.1.sameRule (spell b r.1)) =
          fun e => e.1.sameRule r.1 := by
        funext e
        rw [Bool.eq_iff_iff, WildcardName.sameRule_iff, WildcardName.sameRule_iff, spell_shape]
      rw [hsame, h.written.length_filter, hlone hroot]
    · intro e' he' hne
      obtain ⟨e, he, b', rfl⟩ := h.written.of_mem he'
      rw [spell_shape, spell_shape] at hne
      rw [spell_isMatch, spell_askedAt]
      exact hfirst e he hne

/-- The only rule on its pattern. -/
theorem eq_of_length_filter {l : List (WildcardName × T)} {p : WildcardName}
    (h : (l.filter fun e => e.1.sameRule p).length = 1) {a b : WildcardName × T} (ha : a ∈ l) (hb : b ∈ l)
    (hap : a.1.shape = p.shape) (hbp : b.1.shape = p.shape) : a = b := by
  obtain ⟨x, hx⟩ := List.length_eq_one_iff.mp h
  have ha' : a ∈ l.filter fun e => e.1.sameRule p :=
    List.mem_filter.mpr ⟨ha, (WildcardName.sameRule_iff _ _).mpr hap⟩
  have hb' : b ∈ l.filter fun e => e.1.sameRule p :=
    List.mem_filter.mpr ⟨hb, (WildcardName.sameRule_iff _ _).mpr hbp⟩
  rw [hx, List.mem_singleton] at ha' hb'
  rw [ha', hb']

/-- Two patterns of the root that are the same up to case are the same up to the dot. -/
theorem isMatch_congr_root {p p' : WildcardName} (hs : p.shape = p'.shape) (hp : p.name.labels = [])
    (a : Name) : p.isMatch crateMatch a = p'.isMatch crateMatch a := by
  have hp' : p'.name.labels = [] :=
    List.length_eq_zero_iff.mp (by rw [← WildcardName.shape_length hs, hp]; rfl)
  exact WildcardName.isMatch_congr crateMatch hs (hp.trans hp'.symm) a

/-- A sum of rules of which one alone gives the setting gives it. -/
theorem foldl_addAssign_get {α : Type} (s : Setting α) {v : α} :
    ∀ (l : List (WildcardName × DomainRule)) (r : DomainRule), s.get r = some v →
    (∀ e ∈ l, s.get e.2 = none) → s.get (l.foldl (fun r e => r.addAssign e.2) r) = some v
  | [], _, hr, _ => hr
  | e :: l, r, hr, hl => by
    refine foldl_addAssign_get s l _ ?_ fun e' he' => hl e' (List.mem_cons_of_mem _ he')
    rw [s.get_addAssign_of_none r (hl e List.mem_cons_self), hr]

theorem foldl_addAssign_get_none {α : Type} (s : Setting α) :
    ∀ (l : List (WildcardName × DomainRule)) (r : DomainRule), s.get r = none →
    (∀ e ∈ l, s.get e.2 = none) → s.get (l.foldl (fun r e => r.addAssign e.2) r) = none
  | [], _, hr, _ => hr
  | e :: l, r, hr, hl => by
    refine foldl_addAssign_get_none s l _ ?_ fun e' he' => hl e' (List.mem_cons_of_mem _ he')
    rw [s.get_addAssign_of_none r (hl e List.mem_cons_self), hr]

theorem sumOf_get {α : Type} (s : Setting α) {p : WildcardName} {l l' : List (WildcardName × DomainRule)}
    {e : WildcardName × DomainRule} {v : α} (hp : (e.1 == p) = true) (hv : s.get e.2 = some v)
    (hno : ∀ e' ∈ l ++ l', (e'.1 == p) = true → s.get e'.2 = none) :
    s.get (sumOf (l ++ e :: l') p) = some v := by
  rw [sumOf, List.filter_append, List.filter_cons, if_pos hp, List.foldl_append, List.foldl_cons]
  refine foldl_addAssign_get s _ _ ?_ fun e' he' => ?_
  · rw [s.get_addAssign_of_none_left, hv]
    refine foldl_addAssign_get_none s _ _ s.get_default fun e' he' => ?_
    obtain ⟨hm, hb⟩ := List.mem_filter.mp he'
    exact hno e' (List.mem_append_left _ hm) hb
  · obtain ⟨hm, hb⟩ := List.mem_filter.mp he'
    exact hno e' (List.mem_append_right _ hm) hb

theorem askedAt_congr {p p' : WildcardName} {a : Name} (hs : p.shape = p'.shape)
    (hm : p.isMatch crateMatch a = p'.isMatch crateMatch a) :
    askedAt crateMatch a p = askedAt crateMatch a p' := by
  refine Option.ext fun k => ?_
  rw [askedAt_eq_some, askedAt_eq_some, hs, hm, WildcardName.isSub_eq_of_shape hs]

theorem mem_items_of_mem_zoneChain {rs : RuleSet} {q : Name} {e : WildcardName × DomainRule}
    (h : e ∈ zoneChain crateMatch rs.ruleItems q) : ∃ w ∈ rs.written, w.1 = e.1 :=
  ruleItems_fst rs (zoneChain_subset crateMatch _ _ e h)

theorem complete_of_no_match {rs : RuleSet} {q : Name}
    (h : ∀ e ∈ rs.written, e.1.isMatch crateMatch q = false) : Complete crateMatch rs q where
  occurs e he hm := by
    rw [h e he] at hm
    cases hm
  ordered := by
    have hnone : ∀ node ∈ (DomainRuleMap.create crateMatch rs).chainAt crateMatch q,
        node.name.isMatch crateMatch q = false := by
      rw [forall_chainAt_create_iff crateMatch rs q fun p => p.isMatch crateMatch q = false]
      intro e he
      obtain ⟨w, hw, heq⟩ := mem_items_of_mem_zoneChain crateMatch ((mem_zoneChain_iff_met _ _ _ _).mpr he)
      rw [← heq, h w hw]
    rw [List.filter_eq_nil_iff.mpr fun node hnode => by simp [hnone node hnode]]
    exact List.Pairwise.nil
  settings s l l' e v hw hm := by
    rw [h e (hw ▸ List.mem_append_right _ List.mem_cons_self)] at hm
    cases hm

/-- A rule that is the only one to cover the name, and is asked for first, is found first. -/
theorem complete_of_lone_match {rs : RuleSet} {q : Name} (hroots : RootsDotted rs)
    {r : WildcardName × DomainRule} (hr : r ∈ rs.written) (hm : r.1.isMatch crateMatch q = true)
    (hlone : r.1.name.labels ≠ [] → (rs.written.filter fun e => e.1.sameRule r.1).length = 1)
    {k : ℕ} (hk : askedAt crateMatch (asked q) r.1 = some k)
    (hfirst : ∀ e ∈ rs.written, e.1.shape ≠ r.1.shape → e.1.isMatch crateMatch q = false ∧
      ∀ k', askedAt crateMatch (asked q) e.1 = some k' → k < k') : Complete crateMatch rs q := by
  have root_of {p : WildcardName} (hs : p.shape = r.1.shape) (h : r.1.name.labels = []) : p.name.labels = [] :=
    List.length_eq_zero_iff.mp (by rw [WildcardName.shape_length hs, h]; rfl)
  have hsame (w : WildcardName × DomainRule) (hw : w ∈ rs.written) (hs : w.1.shape = r.1.shape) :
      (w.1 == r.1) = true ∧ ∀ a, w.1.isMatch crateMatch a = r.1.isMatch crateMatch a := by
    by_cases hroot : r.1.name.labels = []
    · refine ⟨(WildcardName.beq_iff _ _).mpr ⟨?_, hs⟩, fun a => isMatch_congr_root crateMatch hs (root_of hs hroot) a⟩
      rw [hroots w hw (root_of hs hroot), hroots r hr hroot]
    · obtain rfl : w = r := eq_of_length_filter (hlone hroot) hw hr hs rfl
      exact ⟨BEq.rfl, fun _ => rfl⟩
  have hshape (w : WildcardName × DomainRule) (hw : w ∈ rs.written) (hwm : w.1.isMatch crateMatch q = true) :
      w.1.shape = r.1.shape := by
    by_contra hne
    rw [(hfirst w hw hne).1] at hwm
    cases hwm
  obtain ⟨x, hx, hxr⟩ := exists_ruleItem rs hr
  have hxs := ((WildcardName.beq_iff _ _).mp hxr).2
  obtain ⟨wx, hwx, hwxe⟩ := ruleItems_fst rs hx
  have hxk : askedAt crateMatch (asked q) x.1 = some k := by
    rw [← hk]
    refine askedAt_congr crateMatch hxs ?_
    rw [← hwxe, (hsame wx hwx (hwxe ▸ hxs)).2]
  obtain ⟨e, he⟩ : ∃ e, nearest crateMatch rs.ruleItems q = some e := by
    cases hn : nearest crateMatch rs.ruleItems q with
    | none =>
      rw [nearest_none hn hx] at hxk
      cases hxk
    | some e => exact ⟨e, rfl⟩
  have hes : e.1.shape = r.1.shape := by
    obtain ⟨ke, ⟨-, e', he', hse, hke⟩, hle⟩ := nearest_some he
    have hle := hle x hx k hxk
    obtain ⟨w, hw, hwe⟩ := ruleItems_fst rs he'
    by_contra hne
    have := (hfirst w hw (by rw [hwe, hse]; exact hne)).2 ke (by rw [hwe, hke])
    omega
  obtain ⟨we, hwe, hwee⟩ := ruleItems_fst rs (nearest_mem crateMatch he)
  have her : (e.1 == r.1) = true := hwee ▸ (hsame we hwe (hwee ▸ hes)).1
  have hchain := chainAt_buildTree crateMatch rs.ruleItems q (ruleItems_sorted rs)
  rw [zoneChain_some crateMatch he] at hchain
  obtain ⟨node, rest, hnodes, hnode, hrest⟩ := List.map_eq_cons_iff.mp hchain
  refine ⟨fun w hw hwm => ⟨node, ?_, ?_⟩, ?_, fun s l l' w v hw hwm hv hno => ?_⟩
  · rw [DomainRuleMap.create, hnodes]
    exact List.mem_cons_self
  · rw [show node.name = e.1 from congrArg Prod.fst hnode]
    exact BEq.trans her (BEq.symm (hsame w hw (hshape w hw hwm)).1)
  · have hnone : ∀ b ∈ rest, b.name.isMatch crateMatch q = false := by
      intro b hb
      have hmem : b.item ∈ zoneChain crateMatch (before rs.ruleItems e.1) e.1.name.baseName :=
        hrest ▸ List.mem_map_of_mem hb
      obtain ⟨hbi, hlt⟩ := mem_before.mp (zoneChain_subset crateMatch _ _ _ hmem)
      obtain ⟨w, hw, hwb⟩ := ruleItems_fst rs hbi
      rw [Bool.eq_false_iff]
      intro hbm
      have hbw : b.name.isMatch crateMatch q = w.1.isMatch crateMatch q := by rw [hwb]; rfl
      have hbr := (hsame w hw (hshape w hw (hbw ▸ hbm))).1
      rw [hwb] at hbr
      rw [(WildcardName.cmp_eq_iff _ _).mpr (BEq.trans hbr (BEq.symm her))] at hlt
      cases hlt
    rw [DomainRuleMap.create, hnodes, List.filter_cons,
      List.filter_eq_nil_iff.mpr fun b hb => by simp [hnone b hb]]
    split
    · exact List.pairwise_singleton _ _
    · exact List.Pairwise.nil
  · have hwmem : w ∈ rs.written := hw ▸ List.mem_append_right _ List.mem_cons_self
    have hwe : (w.1 == e.1) = true := BEq.trans (hsame w hwmem (hshape w hwmem hwm)).1 (BEq.symm her)
    have hsum : s.get e.2 = some v := by
      rw [ruleItems_rule rs (nearest_mem crateMatch he), hw]
      refine sumOf_get s hwe hv fun w' hw' hb => hno w' hw' ?_
      have hmem' : w' ∈ rs.written := by
        rw [hw]
        rcases List.mem_append.mp hw' with h | h
        · exact List.mem_append_left _ h
        · exact List.mem_append_right _ (List.mem_cons_of_mem _ h)
      rw [(hsame w' hmem' (((WildcardName.beq_iff _ _).mp hb).2.trans hes)).2, hm]
    rw [DomainRuleMap.getAt_eq, DomainRuleMap.create, hnodes, List.findSome?_cons,
      show node.rule = e.2 from congrArg Prod.snd hnode, hsum]

theorem inherits_completely_of_lone {rs : RuleSet} (hroots : RootsDotted rs) {q : Name}
    (h : LoneMatch crateMatch rs q) : InheritsCompletely crateMatch rs q := by
  intro rs' hrs
  rcases h.rewritten crateMatch hrs with hno | ⟨r, hr, hm, hlone, k, hk, hfirst⟩
  · exact complete_of_no_match crateMatch hno
  · exact complete_of_lone_match crateMatch (hroots.rewritten hrs) hr hm hlone hk hfirst

/-! ### A second match is lost in some spelling -/

/-- No one-level pattern is written in two cases. -/
def OneCase (rs : RuleSet) : Prop :=
  ∀ e ∈ rs.written, ∀ e' ∈ rs.written, e.1.isSub = true → e.1.shape = e'.1.shape →
    e.1.name.labels = e'.1.name.labels

theorem askedAt_congr_of_not_sub {p p' : WildcardName} {a : Name} (hs : p.shape = p'.shape)
    (hp : p.isSub = false) : askedAt crateMatch a p = askedAt crateMatch a p' := by
  refine Option.ext fun k => ?_
  have hp' := (WildcardName.isSub_eq_of_shape hs).symm.trans hp
  rw [askedAt_eq_some, askedAt_eq_some, hs, hp, hp']
  simp

theorem askedAt_sub {p : WildcardName} {a : Name} {k : ℕ} (hp : p.isSub = true)
    (h : askedAt crateMatch a p = some k) : k = 5 ∧ a.labels ≠ [] ∧ p.isMatch crateMatch a = true := by
  rcases (askedAt_eq_some crateMatch a p k).mp h with ⟨-, hf⟩ | ⟨hk, ha, -, hm⟩ | ⟨_, _, _, _, hf⟩ | ⟨_, _, _, hf⟩
  · obtain ⟨m, rfl, -⟩ := WildcardName.shape_eq_full.mp hf
    cases hp
  · exact ⟨hk, ha, hm⟩
  · obtain ⟨m, rfl, -⟩ := WildcardName.shape_eq_suffix.mp hf
    cases hp
  · obtain ⟨m, rfl, -⟩ := WildcardName.shape_eq_default.mp hf
    cases hp

/-- A pattern has one place, however it is spelled. -/
theorem askedAt_unique {p p' : WildcardName} {a : Name} {k k' : ℕ} (hs : p.shape = p'.shape)
    (h : askedAt crateMatch a p = some k) (h' : askedAt crateMatch a p' = some k') : k = k' := by
  cases hp : p.isSub with
  | false =>
    rw [askedAt_congr_of_not_sub crateMatch hs hp, h'] at h
    exact (Option.some.inj h).symm
  | true =>
    have hp' := (WildcardName.isSub_eq_of_shape hs).symm.trans hp
    rw [(askedAt_sub crateMatch hp h).1, (askedAt_sub crateMatch hp' h').1]

/-- Only one-level patterns share a place. -/
theorem shape_eq_of_askedAt_eq {p p' : WildcardName} {a : Name} {k : ℕ}
    (h : askedAt crateMatch a p = some k) (h' : askedAt crateMatch a p' = some k) :
    p.shape = p'.shape ∨ k = 5 ∧ a.labels ≠ [] ∧ p.isSub = true ∧ p.isMatch crateMatch a = true ∧
      p'.isSub = true ∧ p'.isMatch crateMatch a = true := by
  rcases (askedAt_eq_some crateMatch a p k).mp h with ⟨hk, hf⟩ | ⟨hk, ha, hs, hm⟩ | ⟨l, _, hk, _, hf⟩ | ⟨l, _, hk, hf⟩ <;>
    rcases (askedAt_eq_some crateMatch a p' k).mp h' with
      ⟨hk', hf'⟩ | ⟨hk', ha', hs', hm'⟩ | ⟨l', _, hk', _, hf'⟩ | ⟨l', _, hk', hf'⟩
  case inl.inl => exact .inl (hf.trans hf'.symm)
  case inr.inl.inr.inl => exact .inr ⟨hk, ha, hs, hm, hs', hm'⟩
  case inr.inr.inl.inr.inr.inl =>
    obtain rfl : l = l' := by omega
    exact .inl (hf.trans hf'.symm)
  case inr.inr.inr.inr.inr.inr =>
    obtain rfl : l = l' := by omega
    exact .inl (hf.trans hf'.symm)
  all_goals omega

/-- What is met was found from a name no longer than the one asked. -/
theorem Met.found {items : List (WildcardName × T)} {q : Name} {e : WildcardName × T}
    (h : Met crateMatch items q e) : ∃ (view : List (WildcardName × T)) (a : Name) (k : ℕ),
      FoundAt crateMatch view a e k ∧ a.labels.length ≤ (asked q).labels.length := by
  induction h with
  | first h =>
    obtain ⟨k, hf, -⟩ := nearest_some h
    exact ⟨_, _, k, hf, Nat.le_refl _⟩
  | next _ h ih =>
    rename_i c e _
    obtain ⟨_, a, _, hc, hle⟩ := ih
    obtain ⟨k, hf, -⟩ := nearest_some h
    refine ⟨_, _, k, hf, ?_⟩
    have h1 : c.1.name.labels.length ≤ a.labels.length := by simpa using hc.suffix.length_le
    have h2 := asked_length_le c.1.name.baseName
    rw [Name.baseName_labels, List.length_tail] at h2
    omega

theorem fqdn_of_beq_spell {rs : RuleSet} (hroots : RootsDotted rs) {w : WildcardName × DomainRule}
    (hw : w ∈ rs.written) {b : Bool} {p : WildcardName} (h : (p == spell b w.1) = true) :
    p.shape = w.1.shape ∧ p.name.isFqdn = if w.1.name.labels = [] then true else b := by
  obtain ⟨hf, hs⟩ := (WildcardName.beq_iff _ _).mp h
  refine ⟨hs.trans (spell_shape b w.1), ?_⟩
  rw [hf]
  unfold spell
  split
  · exact hroots w hw ‹_›
  · simp

/-- In every spelling the covering patterns are on the walk. -/
theorem InheritsCompletely.on_walk {rs : RuleSet} {q : Name} (h : InheritsCompletely crateMatch rs q)
    (hroots : RootsDotted rs) (dotted : ℕ → Bool) :
    ∃ rs', rs'.written = spellAll dotted rs.written ∧ RootsDotted rs' ∧
      ∀ i, ∀ hi : i < rs.written.length, rs.written[i].1.isMatch crateMatch q = true →
        ∃ x ∈ zoneChain crateMatch rs'.ruleItems q, x.1.shape = rs.written[i].1.shape ∧
          x.1.name.isFqdn = if rs.written[i].1.name.labels = [] then true else dotted i := by
  obtain ⟨rs', hrs, hw⟩ := exists_rewritten rs dotted
  refine ⟨rs', hw, hroots.rewritten hrs, fun i hi hm => ?_⟩
  have hmem : (spell (dotted i) rs.written[i].1, rs.written[i].2) ∈ rs'.written := by
    rw [hw]
    exact mem_spellAll.mpr ⟨i, hi, rfl⟩
  obtain ⟨node, hnode, hbeq⟩ := (h rs' hrs).occurs _ hmem (by rwa [spell_isMatch])
  have hchain := chainAt_buildTree crateMatch rs'.ruleItems q (ruleItems_sorted rs')
  refine ⟨node.item, hchain ▸ List.mem_map_of_mem hnode, ?_⟩
  exact fqdn_of_beq_spell hroots (List.getElem_mem hi) hbeq

/-- A written pattern of `rs'` is a written pattern of `rs`, spelled as `dotted` says. -/
theorem exists_index {rs rs' : RuleSet} {dotted : ℕ → Bool} (hw : rs'.written = spellAll dotted rs.written)
    (hroots : RootsDotted rs) {e : WildcardName × DomainRule} (he : e ∈ rs'.ruleItems) :
    ∃ i, ∃ hi : i < rs.written.length, e.1 = spell (dotted i) rs.written[i].1 ∧
      e.1.shape = rs.written[i].1.shape ∧
      e.1.name.isFqdn = if rs.written[i].1.name.labels = [] then true else dotted i := by
  obtain ⟨w, hwm, hwe⟩ := ruleItems_fst rs' he
  rw [hw] at hwm
  obtain ⟨i, hi, rfl⟩ := mem_spellAll.mp hwm
  refine ⟨i, hi, hwe.symm, ?_⟩
  exact fqdn_of_beq_spell hroots (List.getElem_mem hi) (hwe ▸ BEq.rfl)

theorem isFqdn_of_root {rs : RuleSet} (hroots : RootsDotted rs) {e : WildcardName × DomainRule}
    (he : e ∈ rs.ruleItems) (h : e.1.name.labels = []) : e.1.name.isFqdn = true := by
  obtain ⟨w, hw, heq⟩ := ruleItems_fst rs he
  rw [← heq] at h ⊢
  exact hroots w hw h

theorem cmp_root {rs : RuleSet} (hroots : RootsDotted rs) {a b : WildcardName × DomainRule}
    (ha : a ∈ rs.ruleItems) (hb : b ∈ rs.ruleItems) (ha' : a.1.name.labels = [])
    (hb' : b.1.name.labels = []) : a.1.name.cmp b.1.name = .eq := by
  rw [Name.cmp_eq_iff, isFqdn_of_root hroots ha ha', isFqdn_of_root hroots hb hb']
  exact ⟨rfl, Name.lowers_eq_of_labels_eq (ha'.trans hb'.symm)⟩

/-- Above a pattern of the root the walk meets the exact pattern of the root at most. -/
theorem full_of_above_root {rs : RuleSet} (hroots : RootsDotted rs) {x y : WildcardName × DomainRule}
    (hx : x ∈ rs.ruleItems) (hy : y ∈ rs.ruleItems) (h : Above x y) (hx' : x.1.name.labels = []) :
    y.1.name.labels = [] ∧ ∃ n, y.1 = .full n := by
  have hy' : y.1.name.labels = [] := by
    have := h.shorter
    rw [hx', List.length_nil] at this
    exact List.length_eq_zero_iff.mp (Nat.le_zero.mp this)
  refine ⟨hy', ?_⟩
  rcases h.overRoot hx' with hn | ⟨n, hn⟩
  · exact hn
  · have hcmp := cmp_root hroots hy hx hy' hx'
    have hord := WildcardName.ord_le_of_cmp_lt h.lt hcmp
    have hlt := h.lt
    cases hxp : x.1 with
    | default m =>
      rw [hxp, hn] at hlt hcmp
      simp only [WildcardName.name_default] at hcmp
      simp [WildcardName.cmp, hcmp, WildcardName.ord] at hlt
    | _ => simp [hxp, hn, WildcardName.ord] at hord

/-- Of two patterns of the root that cover `q` the walk does not meet both. -/
theorem not_above_root {rs : RuleSet} (hroots : RootsDotted rs) {q : Name} {x y : WildcardName × DomainRule}
    (hx : x ∈ zoneChain crateMatch rs.ruleItems q) (hy : y ∈ zoneChain crateMatch rs.ruleItems q)
    (h : Above x y) (hx' : x.1.name.labels = []) (hm : y.1.isMatch crateMatch q = true) : False := by
  have hyi := zoneChain_subset crateMatch _ _ y hy
  obtain ⟨hy', n, hn⟩ := full_of_above_root hroots (zoneChain_subset crateMatch _ _ x hx) hyi h hx'
  have hq : q.labels = [] := by
    rw [hn] at hm hy'
    rw [← (Name.eqIgnoreRootCase_iff n q).mp hm]
    exact hy'
  have ha : (asked q).labels = [] := by simp [asked_labels, hq]
  have hys : y.1.shape = (WildcardName.full (asked q)).shape := by
    refine WildcardName.shape_eq_full.mpr ⟨n, hn, Name.lowers_eq_of_labels_eq ?_⟩
    rw [hn] at hy'
    exact hy'.trans ha.symm
  have hy0 := (askedAt_eq_some crateMatch (asked q) y.1 0).mpr (.inl ⟨rfl, hys⟩)
  cases hh : nearest crateMatch rs.ruleItems q with
  | none =>
    rw [nearest_none hh hyi] at hy0
    cases hy0
  | some e =>
    obtain ⟨k, hf, hle⟩ := nearest_some hh
    obtain rfl : k = 0 := Nat.le_zero.mp (hle y hyi 0 hy0)
    have hes : e.1.shape = y.1.shape := by
      rcases hf.kind with ⟨-, m, hm, hl⟩ | ⟨h5, -⟩ | ⟨_, _, h2, _⟩ | ⟨_, _, h3, _⟩
      · rw [hys]
        exact WildcardName.shape_eq_full.mpr ⟨m, hm, hl⟩
      all_goals omega
    have he' : e.1.name.labels = [] :=
      List.length_eq_zero_iff.mp (by rw [WildcardName.shape_length hes, hy']; rfl)
    have hey : (e.1 == y.1) = true := by
      rw [WildcardName.beq_iff, isFqdn_of_root hroots (nearest_mem crateMatch hh) he',
        isFqdn_of_root hroots hyi hy']
      exact ⟨rfl, hes⟩
    have hye : y.1.cmp e.1 = .eq := (WildcardName.cmp_eq_iff _ _).mpr (BEq.symm hey)
    rw [zoneChain_some crateMatch hh] at hy
    rcases List.mem_cons.mp hy with rfl | hy
    · -- `y` is met first, so nothing is above it.
      rw [zoneChain_some crateMatch hh] at hx
      rcases List.mem_cons.mp hx with rfl | hx
      · exact cmp_self_ne_lt _ h.lt
      · have := (mem_before.mp (zoneChain_subset crateMatch _ _ x hx)).2
        exact cmp_self_ne_lt _ (Std.TransCmp.lt_trans h.lt this)
    · rw [(mem_before.mp (zoneChain_subset crateMatch _ _ y hy)).2] at hye
      cases hye

/-- Two patterns that cover the name are one pattern. -/
theorem shape_eq_of_inheritsCompletely {rs : RuleSet} {q : Name} (h : InheritsCompletely crateMatch rs q)
    (hroots : RootsDotted rs) {i j : ℕ} (hi : i < rs.written.length) (hj : j < rs.written.length)
    (hmi : rs.written[i].1.isMatch crateMatch q = true) (hmj : rs.written[j].1.isMatch crateMatch q = true) :
    rs.written[i].1.shape = rs.written[j].1.shape := by
  -- A longer pattern without the dot does not inherit from a shorter one with it.
  have not_shorter {i j : ℕ} (hi : i < rs.written.length) (hj : j < rs.written.length)
      (hmi : rs.written[i].1.isMatch crateMatch q = true) (hmj : rs.written[j].1.isMatch crateMatch q = true)
      (hlt : rs.written[j].1.name.labels.length < rs.written[i].1.name.labels.length) : False := by
    obtain ⟨rs', hw, hroots', hwalk⟩ := h.on_walk crateMatch hroots fun n =>
      rs.written[n]?.any fun w => w.1.name.labels.length < rs.written[i].1.name.labels.length
    obtain ⟨x, hx, hxs, hxf⟩ := hwalk i hi hmi
    obtain ⟨y, hy, hys, hyf⟩ := hwalk j hj hmj
    have hxl := WildcardName.shape_length hxs
    have hyl := WildcardName.shape_length hys
    have hne : rs.written[i].1.name.labels ≠ [] := fun h0 => by simp [h0] at hlt
    rw [if_neg hne, List.getElem?_eq_getElem hi] at hxf
    rw [List.getElem?_eq_getElem hj] at hyf
    replace hxf : x.1.name.isFqdn = false := by simpa using hxf
    replace hyf : y.1.name.isFqdn = true := by simpa [hlt] using hyf
    have hxy : x ≠ y := fun hxy => by simp [hxy, hyf] at hxf
    rcases above_or_above crateMatch hx hy hxy with hab | hab
    · have := hab.isFqdn hxf
      simp [hyf] at this
    · have := hab.shorter
      omega
  by_contra hne
  rcases Nat.lt_trichotomy rs.written[i].1.name.labels.length rs.written[j].1.name.labels.length with hlt | heq | hlt
  · exact not_shorter hj hi hmj hmi hlt
  · obtain ⟨rs', hw, hroots', hwalk⟩ := h.on_walk crateMatch hroots fun _ => true
    obtain ⟨x, hx, hxs, -⟩ := hwalk i hi hmi
    obtain ⟨y, hy, hys, -⟩ := hwalk j hj hmj
    have hxl := WildcardName.shape_length hxs
    have hyl := WildcardName.shape_length hys
    have covers {i : ℕ} (hi : i < rs.written.length) (hm : rs.written[i].1.isMatch crateMatch q = true)
        {x : WildcardName × DomainRule} (hs : x.1.shape = rs.written[i].1.shape)
        (h0 : x.1.name.labels = []) : x.1.isMatch crateMatch q = true := by
      rw [isMatch_congr_root crateMatch hs h0, hm]
    have hxy : x ≠ y := fun hxy => hne (hxs.symm.trans (hxy ▸ hys))
    rcases above_or_above crateMatch hx hy hxy with hab | hab
    · have hs := hab.shorter
      have hx0 : x.1.name.labels = [] := List.length_eq_zero_iff.mp (by omega)
      have hy0 : y.1.name.labels = [] := List.length_eq_zero_iff.mp (by omega)
      exact not_above_root crateMatch hroots' hx hy hab hx0 (covers hj hmj hys hy0)
    · have hs := hab.shorter
      have hx0 : x.1.name.labels = [] := List.length_eq_zero_iff.mp (by omega)
      have hy0 : y.1.name.labels = [] := List.length_eq_zero_iff.mp (by omega)
      exact not_above_root crateMatch hroots' hy hx hab hy0 (covers hi hmi hxs hx0)
  · exact not_shorter hi hj hmi hmj hlt

theorem length_filter_eq_one {f : WildcardName × T → Bool} : ∀ {l : List (WildcardName × T)} {i : ℕ}
    (hi : i < l.length), f l[i] = true → (∀ j, ∀ hj : j < l.length, f l[j] = true → j = i) →
    (l.filter f).length = 1
  | [], _, hi, _, _ => by simp at hi
  | x :: l, 0, _, hf, h => by
    have hnil : l.filter f = [] := List.filter_eq_nil_iff.mpr fun y hy hfy => by
      obtain ⟨j, hj, rfl⟩ := List.getElem_of_mem hy
      have := h (j + 1) (by simpa using hj) (by simpa using hfy)
      omega
    have hx : f x = true := hf
    rw [List.filter_cons, if_pos hx, hnil]
    rfl
  | x :: l, i + 1, hi, hf, h => by
    have hx : ¬ f x = true := fun hx => by
      have := h 0 (by simp) hx
      omega
    rw [List.filter_cons, if_neg hx]
    refine length_filter_eq_one (by simpa using hi) (by simpa using hf) fun j hj hfj => ?_
    have := h (j + 1) (by simpa using hj) (by simpa using hfj)
    omega

/-- A rule that covers the name is the only one on its pattern: of two, one spelled without the dot
and the other, like all the rest, with it, the first is lost. -/
theorem only_of_inheritsCompletely {rs : RuleSet} {q : Name} (h : InheritsCompletely crateMatch rs q)
    (hroots : RootsDotted rs) {i j : ℕ} (hi : i < rs.written.length) (hj : j < rs.written.length)
    (hm : rs.written[i].1.isMatch crateMatch q = true) (hne : rs.written[i].1.name.labels ≠ [])
    (hs : rs.written[j].1.shape = rs.written[i].1.shape) : j = i := by
  by_contra hij
  obtain ⟨rs', hw, hroots', hwalk⟩ := h.on_walk crateMatch hroots fun n => decide (n ≠ i)
  obtain ⟨x, hx, hxs, hxf⟩ := hwalk i hi hm
  have hxl := WildcardName.shape_length hxs
  replace hxf : x.1.name.isFqdn = false := by simpa [hne] using hxf
  have hne' : rs.written[j].1.name.labels ≠ [] := fun h0 => by
    have := WildcardName.shape_length hs
    rw [h0] at this
    exact hne (List.length_eq_zero_iff.mp this.symm)
  -- The twin with the dot.
  have hmem : (spell (decide (j ≠ i)) rs.written[j].1, rs.written[j].2) ∈ rs'.written := by
    rw [hw]
    exact mem_spellAll.mpr ⟨j, hj, rfl⟩
  obtain ⟨y, hy, hyb⟩ := exists_ruleItem rs' hmem
  obtain ⟨hys, hyf⟩ := fqdn_of_beq_spell hroots (List.getElem_mem hj) hyb
  replace hyf : y.1.name.isFqdn = true := by simpa [hne', hij] using hyf
  have hyx : y.1.shape = x.1.shape := hys.trans (hs.trans hxs.symm)
  have twin_after {view : List (WildcardName × DomainRule)} (hv : Sorted view) (hyv : y ∈ view)
      (hsp : spelled view x.1 = some x) : False := by
    rcases cmp_of_spelled hv hsp hyv hyx with rfl | hlt
    · simp [hyf] at hxf
    · have := WildcardName.isFqdn_of_cmp_lt hlt hxf
      simp [hyf] at this
  have hsorted := ruleItems_sorted rs'
  rw [mem_zoneChain_iff_met] at hx
  cases hx with
  | first hn =>
    obtain ⟨k, hf, -⟩ := nearest_some hn
    exact twin_after hsorted hy hf.1
  | next hc hn =>
    rename_i c
    obtain ⟨k, hf, -⟩ := nearest_some hn
    have hsuf : x.1.name.lowers <:+ c.1.name.lowers := by
      refine (nearest_suffix crateMatch hn).trans ?_
      rw [Name.baseName_lowers]
      exact List.tail_suffix _
    have hlen : x.1.name.labels.length < c.1.name.labels.length := by
      have h1 := asked_length_le c.1.name.baseName
      have h2 : x.1.name.labels.length ≤ (asked c.1.name.baseName).labels.length := by
        simpa using hf.suffix.length_le
      have h3 := List.length_pos_of_ne_nil hne
      rw [Name.baseName_labels, List.length_tail] at h1
      omega
    have hci := zoneChain_subset crateMatch _ _ c ((mem_zoneChain_iff_met _ _ _ _).mpr hc)
    obtain ⟨m, hm', -, hcs, hcf⟩ := exists_index hw hroots hci
    have hcl := WildcardName.shape_length hcs
    have hmi : m ≠ i := fun h0 => by
      subst h0
      omega
    replace hcf : c.1.name.isFqdn = true := by simpa [hmi] using hcf
    refine twin_after (hsorted.filter _) (mem_before.mpr ⟨hy, WildcardName.cmp_lt_name ?_⟩) hf.1
    refine Name.cmp_lt_of_suffix (hyf.trans hcf.symm) ?_ ?_
    · rw [WildcardName.shape_lowers hyx]
      exact hsuf
    · rw [WildcardName.shape_length hyx]
      exact hlen

/-- A rule that covers the name is asked for: what is not asked for is met by no walk. -/
theorem asked_of_inheritsCompletely {rs : RuleSet} {q : Name} (h : InheritsCompletely crateMatch rs q)
    (hroots : RootsDotted rs) {i : ℕ} (hi : i < rs.written.length)
    (hm : rs.written[i].1.isMatch crateMatch q = true) :
    ∃ k, askedAt crateMatch (asked q) rs.written[i].1 = some k := by
  obtain ⟨rs', hw, hroots', hwalk⟩ := h.on_walk crateMatch hroots fun _ => true
  obtain ⟨x, hx, hxs, -⟩ := hwalk i hi hm
  obtain ⟨view, a, k, hf, hle⟩ := ((mem_zoneChain_iff_met _ _ _ _).mp hx).found
  have hlen := WildcardName.shape_length hxs
  have hsuf {n : Name} (hz : n.lowers <:+ q.lowers) (hl : n.labels.length ≤ (asked q).labels.length) :
      n.lowers <:+ (asked q).lowers := by
    refine List.suffix_of_suffix_length_le hz (asked_suffix q) ?_
    simpa using hl
  have ha := asked_labels q
  cases hp : rs.written[i].1 with
  | full n =>
    rw [hp] at hm hxs hlen
    obtain ⟨m, hxm, hml⟩ := WildcardName.shape_eq_full.mp hxs
    have hn : n.labels = q.labels := (Name.eqIgnoreRootCase_iff _ _).mp hm
    have hmlen : m.labels.length ≤ a.labels.length := by
      simpa [hxm] using hf.suffix.length_le
    rw [hxm] at hlen
    simp only [WildcardName.name_full] at hlen
    cases hwild : q.isWildcard with
    | true =>
      rw [hwild, if_pos rfl] at ha
      have hpos := length_pos_of_isWildcard hwild
      rw [ha, List.length_tail] at hle
      rw [hn] at hlen
      omega
    | false =>
      rw [hwild, if_neg (by decide)] at ha
      exact ⟨0, (askedAt_eq_some _ _ _ _).mpr (.inl ⟨rfl, WildcardName.shape_eq_full.mpr
        ⟨n, rfl, Name.lowers_eq_of_labels_eq (hn.trans ha.symm)⟩⟩)⟩
  | sub w n =>
    rw [hp] at hm hxs hlen
    obtain ⟨m, hxm, hml⟩ := WildcardName.shape_eq_sub.mp hxs
    simp only [WildcardName.isMatch, Bool.and_eq_true, Name.eqIgnoreRootCase_iff, Name.baseName_labels] at hm
    rw [hxm] at hlen
    simp only [WildcardName.name_sub] at hlen
    have hxk : m.labels.length = a.labels.length - 1 ∧ a.labels ≠ [] := by
      rcases hf.kind with ⟨-, n', hn', -⟩ | ⟨-, ha', w', n', hn', hl', -⟩ | ⟨_, _, _, _, n', hn', _⟩ | ⟨_, _, _, n', hn', _⟩
      · simp [hxm] at hn'
      · rw [hxm] at hn'
        obtain ⟨rfl, rfl⟩ := WildcardName.sub.inj hn'
        refine ⟨?_, ha'⟩
        rw [Name.labels_length_eq hl', Name.baseName_labels, List.length_tail]
      · simp [hxm] at hn'
      · simp [hxm] at hn'
    have hpos := List.length_pos_of_ne_nil hxk.2
    have hnl : n.labels.length = q.labels.length - 1 := by rw [hm.1, List.length_tail]
    cases hwild : q.isWildcard with
    | true =>
      rw [hwild, if_pos rfl] at ha
      rw [ha, List.length_tail] at hle
      omega
    | false =>
      rw [hwild, if_neg (by decide)] at ha
      have hne : (asked q).labels ≠ [] := fun h0 => by
        rw [h0, List.length_nil] at hle
        omega
      refine ⟨5, (askedAt_eq_some _ _ _ _).mpr (.inr (.inl ⟨rfl, hne, rfl, ?_⟩))⟩
      simp only [WildcardName.isMatch, Bool.and_eq_true, Name.eqIgnoreRootCase_iff, Name.baseName_labels, ha]
      exact hm
  | suffix n =>
    rw [hp] at hm hxs hlen
    obtain ⟨m, hxm, hml⟩ := WildcardName.shape_eq_suffix.mp hxs
    simp only [WildcardName.isMatch, Bool.and_eq_true, Name.zoneOf_iff] at hm
    rw [hxm] at hlen
    simp only [WildcardName.name_suffix] at hlen
    have hlt : n.labels.length < (asked q).labels.length := by
      rcases hf.kind with ⟨-, n', hn', -⟩ | ⟨-, _, w', n', hn', _⟩ | ⟨lvl, hl, _, h1, n', hn', hl'⟩ | ⟨_, _, _, n', hn', _⟩
      · simp [hxm] at hn'
      · simp [hxm] at hn'
      · rw [hxm] at hn'
        obtain rfl := WildcardName.suffix.inj hn'
        have := Name.labels_length_eq hl'
        rw [up_length] at this
        omega
      · simp [hxm] at hn'
    exact ⟨_, if_pos ⟨(Name.zoneOf_iff _ _).mpr (hsuf hm.2 (Nat.le_of_lt hlt)), hlt⟩⟩
  | default n =>
    rw [hp] at hm hxs hlen
    obtain ⟨m, hxm, hml⟩ := WildcardName.shape_eq_default.mp hxs
    have hmlen : m.labels.length ≤ a.labels.length := by
      simpa [hxm] using hf.suffix.length_le
    rw [hxm] at hlen
    simp only [WildcardName.name_default] at hlen
    exact ⟨_, if_pos ((Name.zoneOf_iff _ _).mpr (hsuf ((Name.zoneOf_iff _ _).mp hm) (by omega)))⟩

/-- The written pattern's place is the place of what it is gathered under. -/
theorem askedAt_of_oneCase {rs rs' : RuleSet} {dotted : ℕ → Bool} {q : Name}
    (hw : rs'.written = spellAll dotted rs.written) (hcase : q.isWildcard = false ∨ OneCase rs)
    {j : ℕ} (hj : j < rs.written.length) (hm : rs.written[j].1.isMatch crateMatch q = false) {k : ℕ}
    (hk : askedAt crateMatch (asked q) rs.written[j].1 = some k) :
    ∃ y ∈ rs'.ruleItems, y.1.shape = rs.written[j].1.shape ∧ askedAt crateMatch (asked q) y.1 = some k := by
  have hmem : (spell (dotted j) rs.written[j].1, rs.written[j].2) ∈ rs'.written := by
    rw [hw]
    exact mem_spellAll.mpr ⟨j, hj, rfl⟩
  obtain ⟨y, hy, hyb⟩ := exists_ruleItem rs' hmem
  have hys : y.1.shape = rs.written[j].1.shape := by
    rw [((WildcardName.beq_iff _ _).mp hyb).2]
    exact spell_shape _ _
  refine ⟨y, hy, hys, ?_⟩
  cases hsub : rs.written[j].1.isSub with
  | false => rw [← askedAt_congr_of_not_sub crateMatch hys.symm hsub, hk]
  | true =>
    have hma := (askedAt_sub crateMatch hsub hk).2.2
    rcases hcase with hwild | hcase
    · -- Without a leading `*` the name asked is the name: the pattern would cover it.
      have ha : (asked q).labels = q.labels := by simp [asked_labels, hwild]
      rw [WildcardName.isMatch_congr_right crateMatch _ ha, hm] at hma
      cases hma
    · obtain ⟨w, hwm, hwy⟩ := ruleItems_fst rs' hy
      rw [hw] at hwm
      obtain ⟨m, hm', rfl⟩ := mem_spellAll.mp hwm
      rw [← hwy, spell_shape] at hys
      rw [← hwy, spell_askedAt, ← hk]
      have hlab := hcase _ (List.getElem_mem hj) _ (List.getElem_mem hm') hsub hys.symm
      exact askedAt_congr crateMatch hys (WildcardName.isMatch_congr crateMatch hys hlab.symm _)

/-- No other pattern is asked for before one that covers the name: spelled without the dot, with the
dot on what is no longer than the covering pattern, it would end the walk. -/
theorem first_of_inheritsCompletely {rs : RuleSet} {q : Name} (h : InheritsCompletely crateMatch rs q)
    (hroots : RootsDotted rs) (hcase : q.isWildcard = false ∨ OneCase rs)
    {i j : ℕ} (hi : i < rs.written.length) (hj : j < rs.written.length)
    (hmi : rs.written[i].1.isMatch crateMatch q = true) (hmj : rs.written[j].1.isMatch crateMatch q = false)
    (hne : rs.written[j].1.shape ≠ rs.written[i].1.shape) {k k' : ℕ}
    (hk : askedAt crateMatch (asked q) rs.written[i].1 = some k)
    (hk' : askedAt crateMatch (asked q) rs.written[j].1 = some k') : k < k' := by
  by_contra hle
  obtain ⟨rs', hw, hroots', hwalk⟩ := h.on_walk crateMatch hroots fun n =>
    rs.written[n]?.any fun w => w.1.name.labels.length ≤ rs.written[i].1.name.labels.length
  obtain ⟨x, hx, hxs, hxf⟩ := hwalk i hi hmi
  replace hxf : x.1.name.isFqdn = true := by
    rw [hxf]
    split
    · rfl
    · simp [List.getElem?_eq_getElem hi]
  have hxl := WildcardName.shape_length hxs
  obtain ⟨y, hy, hys, hyk⟩ := askedAt_of_oneCase crateMatch hw hcase hj hmj hk'
  cases hn : nearest crateMatch rs'.ruleItems q with
  | none =>
    rw [nearest_none hn hy] at hyk
    cases hyk
  | some e =>
    obtain ⟨ke, hf, hmin⟩ := nearest_some hn
    have hke := hmin y hy k' hyk
    have hei := nearest_mem crateMatch hn
    obtain ⟨m, hm, hes, hesh, hef⟩ := exists_index hw hroots hei
    have hel := WildcardName.shape_length hesh
    -- What is met first is not the covering pattern.
    have hex : e.1.shape ≠ rs.written[i].1.shape := by
      intro heq
      obtain ⟨-, e', -, hs', hke'⟩ := hf
      obtain rfl := askedAt_unique crateMatch (hs'.trans heq) hke' hk
      obtain rfl : k' = ke := by omega
      rcases shape_eq_of_askedAt_eq crateMatch hk hk' with hs | ⟨-, ha, hsi, hai, hsj, haj⟩
      · exact hne hs.symm
      · have length_of {p : WildcardName} {n : Name} (hs : p.isSub = true) (hm : p.isMatch crateMatch n = true) :
            p.name.labels.length = n.labels.length - 1 := by
          cases p with
          | sub w n' =>
            simp only [WildcardName.isMatch, Bool.and_eq_true, Name.eqIgnoreRootCase_iff, Name.baseName_labels] at hm
            rw [WildcardName.name_sub, hm.1, List.length_tail]
          | _ => cases hs
        have h1 := length_of hsi hmi
        have h2 := length_of hsi hai
        have hpos := List.length_pos_of_ne_nil ha
        have hal := asked_labels q
        cases hwild : q.isWildcard with
        | true =>
          rw [hwild, if_pos rfl] at hal
          rw [hal, List.length_tail] at h2 hpos
          omega
        | false =>
          rw [hwild, if_neg (by decide)] at hal
          rw [WildcardName.isMatch_congr_right crateMatch _ hal, hmj] at haj
          cases haj
    have hem : e.1.isMatch crateMatch q = false := by
      rw [Bool.eq_false_iff]
      intro hem
      rw [hes, spell_isMatch] at hem
      exact hex (hesh.trans (shape_eq_of_inheritsCompletely crateMatch h hroots hm hi hem hmi))
    have hxe : Above e x := by
      rw [zoneChain_some crateMatch hn] at hx
      have hpw := zoneChain_pairwise crateMatch rs'.ruleItems q
      rw [zoneChain_some crateMatch hn] at hpw
      rcases List.mem_cons.mp hx with rfl | hx
      · exact absurd hxs hex
      · exact (List.pairwise_cons.mp hpw).1 x hx
    have hshort := hxe.shorter
    by_cases he0 : e.1.name.labels = []
    · obtain ⟨hx0, n, hxn⟩ := full_of_above_root hroots' hei (zoneChain_subset crateMatch _ _ x hx) hxe he0
      have hmx : x.1.isMatch crateMatch q = true := by rw [isMatch_congr_root crateMatch hxs hx0, hmi]
      rw [hxn] at hmx hx0
      have hq : q.labels = [] := by
        rw [← (Name.eqIgnoreRootCase_iff n q).mp hmx]
        exact hx0
      rw [isMatch_of_met_root crateMatch (.first hn) hq] at hem
      cases hem
    · have hpos := List.length_pos_of_ne_nil he0
      have he0' : rs.written[m].1.name.labels ≠ [] := fun h0 => by
        rw [h0, List.length_nil] at hel
        omega
      rw [if_neg he0', List.getElem?_eq_getElem hm] at hef
      have hefalse : e.1.name.isFqdn = false := by
        rw [hef]
        simp only [Option.any_some, decide_eq_false_iff_not]
        omega
      have := hxe.isFqdn hefalse
      simp [hxf] at this

/-- **Inheritance is complete however the rules are written when at most one of them covers the name
and is asked for first;** and only then, for every name without a leading `*`, and for every rule set
in which no one-level pattern is written in two cases. -/
theorem inherits_completely_iff (rs : RuleSet) (hroots : RootsDotted rs) (q : Name) :
    (LoneMatch crateMatch rs q → InheritsCompletely crateMatch rs q) ∧
    (q.isWildcard = false ∨ OneCase rs →
      (InheritsCompletely crateMatch rs q ↔ LoneMatch crateMatch rs q)) := by
  refine ⟨inherits_completely_of_lone crateMatch hroots, fun hcase =>
    ⟨fun h => ?_, inherits_completely_of_lone crateMatch hroots⟩⟩
  by_cases hno : ∀ e ∈ rs.written, e.1.isMatch crateMatch q = false
  · exact .inl hno
  · simp only [not_forall, Bool.not_eq_false] at hno
    obtain ⟨r, hr, hm⟩ := hno
    obtain ⟨i, hi, rfl⟩ := List.getElem_of_mem hr
    obtain ⟨k, hk⟩ := asked_of_inheritsCompletely crateMatch h hroots hi hm
    refine .inr ⟨_, hr, hm, fun hne => ?_, k, hk, fun e he hshape => ?_⟩
    · refine length_filter_eq_one hi ((WildcardName.sameRule_iff _ _).mpr rfl) fun j hj hs => ?_
      exact only_of_inheritsCompletely crateMatch h hroots hi hj hm hne ((WildcardName.sameRule_iff _ _).mp hs)
    · obtain ⟨j, hj, rfl⟩ := List.getElem_of_mem he
      have hmj : rs.written[j].1.isMatch crateMatch q = false := by
        rw [Bool.eq_false_iff]
        intro hmj
        exact hshape (shape_eq_of_inheritsCompletely crateMatch h hroots hj hi hmj hm)
      exact ⟨hmj, fun k' hk' => first_of_inheritsCompletely crateMatch h hroots hcase hi hj hm hmj hshape hk hk'⟩

/-- An address rule for `www.example.com` alone. -/
def loneRule : RuleSet where
  addressRules := [⟨.name (.default wwwExampleCom), .soav6⟩]

theorem lone_rule_inherits_completely :
    InheritsCompletely (fun _ _ => false) loneRule wwwExampleCom := by
  have hroots : RootsDotted loneRule := by
    unfold RootsDotted
    decide
  refine (inherits_completely_iff (fun _ _ => false) loneRule hroots wwwExampleCom).1 (.inr ?_)
  refine ⟨(.default wwwExampleCom, { address := some .soav6 }), List.mem_cons_self, by decide, fun _ => by decide,
    3, by decide, fun e he hne => ?_⟩
  exact absurd (by rw [List.mem_singleton.mp he]; rfl) hne

/-- The domain rule `-no-cache` for `example.com.`, with its dot, and an address rule for
`www.example.com`, without. -/
def dottedParent : RuleSet where
  domainRules := [⟨.name (.default (exampleCom.setFqdn true)), { noCache := some true }⟩]
  addressRules := [⟨.name (.default wwwExampleCom), .soav6⟩]

/-- The rule on `www.example.com` does not inherit from `example.com.`. -/
theorem loses_dotted_parent : ¬ InheritsCompletely (fun _ _ => false) dottedParent wwwExampleCom := by
  intro h
  have hoccurs := (h dottedParent (.refl _)).occurs
    (.default (exampleCom.setFqdn true), { noCache := some true }) List.mem_cons_self (by decide)
  revert hoccurs
  decide

/-- The setting of `example.com.` is not returned. -/
example (crateMatch : List UInt8 → List UInt8 → Bool) :
    (DomainRuleMap.create crateMatch dottedParent).getAt crateMatch wwwExampleCom (·.rule.noCache) = none := rfl

end Rule
end SmartDns
