/-
# When inheritance is sound

A node should inherit only from patterns that cover the name. The parent of a
node is looked up as if its base name were queried, and that lookup also finds
the exact pattern of the base name (`-.example.com` for a rule on
`www.example.com`) and the one-level patterns over the name above: patterns that
do not cover what lies below the base name.

`inherits_soundly_iff`: every pattern on the walk from `q` covers `q` exactly
when `q` is the root, or no pattern the walk meets has such a pattern take over
at its base name, and the pattern in force at `q` itself, where it is exact or
one-level, is written with the case of `q` and `q` has no leading `*`.

Key definitions: `TakesOver`, `InheritsSoundly`.
Key theorems: `inherits_soundly_iff`.
-/
import SmartDns.Rule.Chain

namespace SmartDns
namespace Rule

open Dns

universe u

variable {T : Type u} (crateMatch : List UInt8 → List UInt8 → Bool)

/-- `Full` or `Sub`: the pattern covers names of one length only. -/
def WildcardName.isNarrow : WildcardName → Bool
  | .full _ => true
  | .sub _ _ => true
  | _ => false

/-- A lookup from `a` ends at a narrow pattern: the exact pattern of `a` is there, or a one-level
pattern that matches `a` is and the pattern of the whole domain `a` is not. -/
def TakesOver (items : List (WildcardName × T)) (a : Name) : Prop :=
  (∃ e ∈ items, e.1.shape = (WildcardName.full a).shape) ∨
  (a.labels ≠ [] ∧ (∃ e ∈ items, e.1.isSub ∧ e.1.isMatch crateMatch a) ∧
    ∀ e ∈ items, e.1.shape ≠ (WildcardName.default a).shape)

/-- What `askedAt_eq_some` says of an item that is found. -/
theorem FoundAt.kind {items : List (WildcardName × T)} {a : Name} {e : WildcardName × T} {k : ℕ}
    (h : FoundAt crateMatch items a e k) :
    (k = 0 ∧ ∃ n, e.1 = .full n ∧ n.lowers = a.lowers) ∨
    (k = 5 ∧ a.labels ≠ [] ∧ ∃ w n, e.1 = .sub w n ∧ n.lowers = a.baseName.lowers ∧
      ∀ x ∈ a.labels.head?, w.isMatch crateMatch x.bytes) ∨
    (∃ lvl ≤ a.labels.length, k = 4 * lvl + 2 ∧ 1 ≤ lvl ∧
      ∃ n, e.1 = .suffix n ∧ n.lowers = (up a lvl).lowers) ∨
    (∃ lvl ≤ a.labels.length, k = 4 * lvl + 3 ∧ ∃ n, e.1 = .default n ∧ n.lowers = (up a lvl).lowers) := by
  obtain ⟨-, e', -, hs, hk⟩ := h
  rcases (askedAt_eq_some crateMatch a e'.1 k).mp hk with
    ⟨hk, h⟩ | ⟨hk, ha, hsub, hm⟩ | ⟨lvl, hl, hk, h1, h⟩ | ⟨lvl, hl, hk, h⟩
  · exact .inl ⟨hk, WildcardName.shape_eq_full.mp (hs ▸ h)⟩
  · refine .inr (.inl ⟨hk, ha, ?_⟩)
    cases hp : e'.1 with
    | sub w m =>
      rw [hp] at hm hs
      obtain ⟨n, hn, hl⟩ := WildcardName.shape_eq_sub.mp hs.symm
      simp only [WildcardName.isMatch, Bool.and_eq_true, Name.eqIgnoreRootCase_iff] at hm
      refine ⟨w, n, hn, hl.trans (Name.lowers_eq_of_labels_eq hm.1), fun x hx => ?_⟩
      cases hla : a.labels with
      | nil => exact absurd hla ha
      | cons y ys =>
        rw [hla] at hx
        obtain rfl : y = x := by simpa using hx
        simpa [hla] using hm.2
    | _ => simp [hp, WildcardName.isSub] at hsub
  · exact .inr (.inr (.inl ⟨lvl, hl, hk, h1, WildcardName.shape_eq_suffix.mp (hs ▸ h)⟩))
  · exact .inr (.inr (.inr ⟨lvl, hl, hk, WildcardName.shape_eq_default.mp (hs ▸ h)⟩))

/-- The pattern in force is narrow exactly when one takes over. -/
theorem takesOver_iff_isNarrow {items : List (WildcardName × T)} {q : Name} {e : WildcardName × T}
    (h : nearest crateMatch items q = some e) :
    TakesOver crateMatch items (asked q) ↔ e.1.isNarrow = true := by
  obtain ⟨k, hf, hle⟩ := nearest_some h
  constructor
  · have narrow_of (hk : k = 0 ∨ k = 5) : e.1.isNarrow = true := by
      rcases hf.kind with ⟨-, n, hn, -⟩ | ⟨-, -, w, n, hn, -⟩ | ⟨_, _, h2, _⟩ | ⟨_, _, h3, _⟩
      · rw [hn]
        rfl
      · rw [hn]
        rfl
      · omega
      · omega
    rintro (⟨e₀, he₀, hs⟩ | ⟨ha, ⟨e₅, he₅, hsub, hm⟩, hno⟩)
    · have := hle e₀ he₀ 0 ((askedAt_eq_some crateMatch _ _ 0).mpr (.inl ⟨rfl, hs⟩))
      exact narrow_of (.inl (by omega))
    · have := hle e₅ he₅ 5 ((askedAt_eq_some crateMatch _ _ 5).mpr (.inr (.inl ⟨rfl, ha, hsub, hm⟩)))
      rcases hf.kind with ⟨hk, -⟩ | ⟨hk, -⟩ | ⟨_, _, _, _⟩ | ⟨lvl, _, hk, n, hn, hl⟩
      · exact narrow_of (.inl hk)
      · exact narrow_of (.inr hk)
      · omega
      · obtain rfl : lvl = 0 := by omega
        exact absurd (WildcardName.shape_eq_default.mpr ⟨n, hn, hl⟩) (hno e (nearest_mem crateMatch h))
  · intro hn
    rcases hf.kind with ⟨-, n, he, hl⟩ | ⟨hk, ha, -⟩ | ⟨_, _, _, _, n, he, _⟩ | ⟨_, _, _, n, he, _⟩
    · exact .inl ⟨e, nearest_mem crateMatch h, WildcardName.shape_eq_full.mpr ⟨n, he, hl⟩⟩
    · obtain ⟨-, e', he', -, hk'⟩ := hf
      rcases (askedAt_eq_some crateMatch _ e'.1 k).mp hk' with ⟨h0, _⟩ | ⟨-, -, hsub, hm⟩ | ⟨_, _, h2, _⟩ | ⟨_, _, h3, _⟩
      · omega
      · refine .inr ⟨ha, ⟨e', he', hsub, hm⟩, fun e₃ he₃ hs => ?_⟩
        have := hle e₃ he₃ 3 ((askedAt_eq_some crateMatch _ _ 3).mpr (.inr (.inr (.inr ⟨0, Nat.zero_le _, rfl, hs⟩))))
        omega
      · omega
      · omega
    · simp [he, WildcardName.isNarrow] at hn
    · simp [he, WildcardName.isNarrow] at hn

theorem not_takesOver_of_nearest_none {items : List (WildcardName × T)} {q : Name}
    (h : nearest crateMatch items q = none) : ¬ TakesOver crateMatch items (asked q) := by
  rintro (⟨e, he, hs⟩ | ⟨ha, ⟨e, he, hsub, hm⟩, -⟩)
  · have := nearest_none h he
    rw [(askedAt_eq_some crateMatch _ _ 0).mpr (.inl ⟨rfl, hs⟩)] at this
    cases this
  · have := nearest_none h he
    rw [(askedAt_eq_some crateMatch _ _ 5).mpr (.inr (.inl ⟨rfl, ha, hsub, hm⟩))] at this
    cases this

/-! ### The names on the walk -/

theorem asked_labels (q : Name) :
    (asked q).labels = if q.isWildcard then q.labels.tail else q.labels := by
  unfold asked
  split <;> simp

theorem asked_suffix (q : Name) : (asked q).lowers <:+ q.lowers := by
  have : (asked q).lowers = if q.isWildcard then q.lowers.tail else q.lowers := by
    unfold asked
    split <;> simp [Name.baseName_folded]
  rw [this]
  split
  · exact List.tail_suffix _
  · exact List.suffix_rfl

theorem asked_length_le (q : Name) : (asked q).labels.length ≤ q.labels.length := by
  simpa using (asked_suffix q).length_le

theorem length_pos_of_isWildcard {q : Name} (h : q.isWildcard = true) : 0 < q.labels.length := by
  unfold Name.isWildcard at h
  split at h <;> simp_all

/-- A pattern that is found stands on the name asked or above it. -/
theorem FoundAt.suffix {items : List (WildcardName × T)} {a : Name} {e : WildcardName × T} {k : ℕ}
    (h : FoundAt crateMatch items a e k) : e.1.name.lowers <:+ a.lowers := by
  rcases h.kind with ⟨-, n, he, hl⟩ | ⟨-, -, w, n, he, hl, -⟩ | ⟨lvl, -, -, -, n, he, hl⟩ | ⟨lvl, -, -, n, he, hl⟩
  · rw [he]
    exact hl ▸ List.suffix_rfl
  · rw [he]
    exact hl ▸ Name.baseName_lowers a ▸ List.tail_suffix _
  · rw [he]
    exact hl ▸ suffix_up a lvl
  · rw [he]
    exact hl ▸ suffix_up a lvl

theorem nearest_suffix {items : List (WildcardName × T)} {q : Name} {e : WildcardName × T}
    (h : nearest crateMatch items q = some e) : e.1.name.lowers <:+ q.lowers := by
  obtain ⟨k, hf, -⟩ := nearest_some h
  exact hf.suffix.trans (asked_suffix q)

theorem Met.suffix {items : List (WildcardName × T)} {q : Name} {e : WildcardName × T}
    (h : Met crateMatch items q e) : e.1.name.lowers <:+ q.lowers := by
  induction h with
  | first h => exact nearest_suffix crateMatch h
  | next _ h ih =>
    refine (nearest_suffix crateMatch h).trans (List.IsSuffix.trans ?_ ih)
    rw [Name.baseName_lowers]
    exact List.tail_suffix _

/-- The lookup for a parent starts below the length of `q`. -/
theorem Met.base_length_lt {items : List (WildcardName × T)} {q : Name} {e : WildcardName × T}
    (h : Met crateMatch items q e) (hq : q.labels ≠ []) :
    (asked e.1.name.baseName).labels.length < q.labels.length := by
  have h1 : e.1.name.labels.length ≤ q.labels.length := by simpa using h.suffix.length_le
  have h2 := asked_length_le e.1.name.baseName
  have h3 := List.length_pos_of_ne_nil hq
  rw [Name.baseName_labels, List.length_tail] at h2
  omega

/-! ### Which patterns on the walk cover the name -/

theorem not_eqIgnoreRootCase {a b : Name} (h : a.labels.length ≠ b.labels.length) :
    a.eqIgnoreRootCase b = false := by
  rw [Bool.eq_false_iff, ne_eq, Name.eqIgnoreRootCase_iff]
  exact fun h' => h (congrArg List.length h')

theorem suffix_isMatch {n q : Name} (hl : n.labels.length < q.labels.length) (hs : n.lowers <:+ q.lowers) :
    (WildcardName.suffix n).isMatch crateMatch q = true := by
  rw [WildcardName.isMatch, not_eqIgnoreRootCase (by omega)]
  simpa [Name.zoneOf_iff] using hs

theorem default_isMatch {n q : Name} (hs : n.lowers <:+ q.lowers) :
    (WildcardName.default n).isMatch crateMatch q = true := by
  rwa [WildcardName.isMatch, Name.zoneOf_iff]

/-- A pattern found from a name shorter than `q` covers `q` exactly when it is not narrow. -/
theorem FoundAt.isMatch_iff_of_lt {items : List (WildcardName × T)} {a q : Name} {e : WildcardName × T}
    {k : ℕ} (h : FoundAt crateMatch items a e k) (hs : a.lowers <:+ q.lowers)
    (hlt : a.labels.length < q.labels.length) : e.1.isMatch crateMatch q = true ↔ e.1.isNarrow = false := by
  have hlen : e.1.name.labels.length ≤ a.labels.length := by simpa using h.suffix.length_le
  have hsq := h.suffix.trans hs
  rcases h.kind with ⟨-, n, he, hl⟩ | ⟨-, ha, w, n, he, hl, -⟩ | ⟨lvl, -, -, -, n, he, hl⟩ | ⟨lvl, -, -, n, he, hl⟩
  · rw [he] at hlen ⊢
    rw [WildcardName.isMatch, not_eqIgnoreRootCase (show n.labels.length ≠ _ from fun hn => by
      simp only [WildcardName.name] at hlen
      omega)]
    simp [WildcardName.isNarrow]
  · have hn : n.labels.length = a.labels.length - 1 := by
      rw [Name.labels_length_eq hl, Name.baseName_labels, List.length_tail]
    have := List.length_pos_of_ne_nil ha
    rw [he, WildcardName.isMatch, not_eqIgnoreRootCase (by simp; omega)]
    simp [WildcardName.isNarrow]
  · rw [he] at hlen hsq ⊢
    simpa [WildcardName.isNarrow] using suffix_isMatch crateMatch (Nat.lt_of_le_of_lt hlen hlt) hsq
  · rw [he] at hsq ⊢
    simpa [WildcardName.isNarrow] using default_isMatch crateMatch hsq

/-- The pattern in force at `q` covers `q` exactly when it is not narrow, or it is written with the
case of `q` and `q` has no leading `*`. -/
theorem isMatch_nearest_iff {items : List (WildcardName × T)} {q : Name} {e : WildcardName × T}
    (h : nearest crateMatch items q = some e) (hq : q.labels ≠ []) :
    e.1.isMatch crateMatch q = true ↔ e.1.isNarrow = false ∨ (q.isWildcard = false ∧
      e.1.name.eqIgnoreRootCase (if e.1.isSub then q.baseName else q) = true) := by
  obtain ⟨k, hf, -⟩ := nearest_some h
  have ha := asked_labels q
  cases hw : q.isWildcard with
  | true =>
    rw [hw, if_pos rfl] at ha
    have hlt : (asked q).labels.length < q.labels.length := by
      have := length_pos_of_isWildcard hw
      rw [ha, List.length_tail]
      omega
    simpa using hf.isMatch_iff_of_lt crateMatch (asked_suffix q) hlt
  | false =>
    rw [hw, if_neg (by decide)] at ha
    have hsq := hf.suffix.trans (asked_suffix q)
    rcases hf.kind with ⟨-, n, he, hl⟩ | ⟨-, -, w, n, he, hl, hx⟩ | ⟨lvl, hlvl, -, h1, n, he, hl⟩ | ⟨lvl, -, -, n, he, hl⟩
    · simp [he, WildcardName.isMatch, WildcardName.isNarrow, WildcardName.isSub, WildcardName.name]
    · have hx : (q.labels.head?.map fun x => w.isMatch crateMatch x.bytes).getD true = true := by
        rw [ha] at hx
        cases hql : q.labels with
        | nil => rfl
        | cons x xs => exact hx x (by simp [hql])
      simp only [he, WildcardName.isMatch, WildcardName.isNarrow, WildcardName.isSub, WildcardName.name_sub,
        Bool.and_eq_true, hx, and_true, Bool.true_eq_false, false_or, true_and, ite_true]
    · have hlt : n.labels.length < q.labels.length := by
        rw [Name.labels_length_eq hl, up_length, ha]
        have := List.length_pos_of_ne_nil hq
        omega
      rw [he] at hsq ⊢
      simpa [WildcardName.isNarrow] using suffix_isMatch crateMatch hlt hsq
    · rw [he] at hsq ⊢
      simpa [WildcardName.isNarrow] using default_isMatch crateMatch hsq

/-- From a name without labels the walk meets only patterns that cover it. -/
theorem isMatch_of_met_root {items : List (WildcardName × T)} {q : Name} {e : WildcardName × T}
    (h : Met crateMatch items q e) (hq : q.labels = []) : e.1.isMatch crateMatch q = true := by
  have found {view : List (WildcardName × T)} {n : Name} {e : WildcardName × T} (hn : n.labels = [])
      (h : nearest crateMatch view n = some e) : e.1.isMatch crateMatch q = true := by
    obtain ⟨k, hf, -⟩ := nearest_some h
    have ha : (asked n).labels = [] := by simp [asked_labels, hn]
    have hs : ∀ m : Name, m.lowers <:+ (asked n).lowers → m.labels = [] := fun m hm => by
      have := hm.length_le
      simp only [Name.folded_length, ha, List.length_nil] at this
      exact List.length_eq_zero_iff.mp (Nat.le_zero.mp this)
    rcases hf.kind with ⟨-, n, he, hl⟩ | ⟨-, ha', -⟩ | ⟨lvl, hlvl, -, h1, -⟩ | ⟨lvl, -, -, n, he, hl⟩
    · rw [he, WildcardName.isMatch, Name.eqIgnoreRootCase_iff, hq, hs n (hl ▸ List.suffix_rfl)]
    · exact absurd ha ha'
    · rw [ha, List.length_nil] at hlvl
      omega
    · rw [he]
      have hlow := Name.lowers_eq_of_labels_eq ((hs n (hl ▸ suffix_up _ lvl)).trans hq.symm)
      exact default_isMatch crateMatch (hlow ▸ List.suffix_rfl)
  cases h with
  | first h => exact found hq h
  | next h h' =>
    refine found ?_ h'
    have := h.suffix.length_le
    simp only [Name.folded_length, hq, List.length_nil] at this
    rw [Name.baseName_labels, List.length_eq_zero_iff.mp (Nat.le_zero.mp this)]
    rfl

/-! ### The tree of a rule set -/

/-- No narrow pattern takes over above a pattern the walk from `q` meets, and one that is in force
at `q` itself is written with the case of `q`, which has no leading `*`. -/
def InheritsSoundly (rs : RuleSet) (q : Name) : Prop :=
  q.labels = [] ∨
  ((TakesOver crateMatch rs.ruleItems (asked q) → q.isWildcard = false ∧
      ∀ e, nearest crateMatch rs.ruleItems q = some e →
        e.1.name.eqIgnoreRootCase (if e.1.isSub then q.baseName else q) = true) ∧
    ∀ e, Met crateMatch rs.ruleItems q e →
      ¬ TakesOver crateMatch (before rs.ruleItems e.1) (asked e.1.name.baseName))

/-- The patterns on the walk from `find(q)` are those `Met` relates to `q`. -/
theorem forall_chainAt_create_iff (rs : RuleSet) (q : Name) (P : WildcardName → Prop) :
    (∀ node ∈ (DomainRuleMap.create crateMatch rs).chainAt crateMatch q, P node.name) ↔
      ∀ e, Met crateMatch rs.ruleItems q e → P e.1 := by
  have hchain := chainAt_buildTree crateMatch rs.ruleItems q (ruleItems_sorted rs)
  constructor
  · intro h e he
    rw [← mem_zoneChain_iff_met, ← hchain] at he
    obtain ⟨node, hnode, rfl⟩ := List.mem_map.mp he
    exact h node hnode
  · intro h node hnode
    refine h node.item ?_
    rw [← mem_zoneChain_iff_met, ← hchain]
    exact List.mem_map_of_mem hnode

/-- **Inheritance is sound exactly when no narrow pattern takes over on the way up.** -/
theorem inherits_soundly_iff (rs : RuleSet) (q : Name) :
    (∀ node ∈ (DomainRuleMap.create crateMatch rs).chainAt crateMatch q,
      node.name.isMatch crateMatch q = true) ↔ InheritsSoundly crateMatch rs q := by
  rw [forall_chainAt_create_iff crateMatch rs q fun p => p.isMatch crateMatch q = true]
  by_cases hq : q.labels = []
  · exact ⟨fun _ => .inl hq, fun _ e he => isMatch_of_met_root crateMatch he hq⟩
  have above {e e' : WildcardName × DomainRule} (hm : Met crateMatch rs.ruleItems q e)
      (h : nearest crateMatch (before rs.ruleItems e.1) e.1.name.baseName = some e') :
      e'.1.isMatch crateMatch q = true ↔ e'.1.isNarrow = false := by
    obtain ⟨k, hf, -⟩ := nearest_some h
    refine hf.isMatch_iff_of_lt crateMatch (List.IsSuffix.trans (asked_suffix _) ?_) (hm.base_length_lt crateMatch hq)
    rw [Name.baseName_lowers]
    exact (List.tail_suffix _).trans hm.suffix
  constructor
  · intro h
    refine .inr ⟨fun ht => ?_, fun e hm ht => ?_⟩
    · cases hn : nearest crateMatch rs.ruleItems q with
      | none => exact absurd ht (not_takesOver_of_nearest_none crateMatch hn)
      | some e =>
        have hnarrow := (takesOver_iff_isNarrow crateMatch hn).mp ht
        rcases (isMatch_nearest_iff crateMatch hn hq).mp (h e (.first hn)) with h' | ⟨hw, hc⟩
        · rw [hnarrow] at h'
          cases h'
        · exact ⟨hw, fun e' he' => Option.some.inj he' ▸ hc⟩
    · cases hn : nearest crateMatch (before rs.ruleItems e.1) e.1.name.baseName with
      | none => exact absurd ht (not_takesOver_of_nearest_none crateMatch hn)
      | some e' =>
        have hnarrow := (takesOver_iff_isNarrow crateMatch hn).mp ht
        rw [(above hm hn).mp (h e' (hm.next hn))] at hnarrow
        cases hnarrow
  · rintro (h | ⟨hfirst, hup⟩) e he
    · exact absurd h hq
    · cases he with
      | first hn =>
        refine (isMatch_nearest_iff crateMatch hn hq).mpr ?_
        cases hnarrow : e.1.isNarrow with
        | false => exact .inl rfl
        | true =>
          obtain ⟨hw, hc⟩ := hfirst ((takesOver_iff_isNarrow crateMatch hn).mpr hnarrow)
          exact .inr ⟨hw, hc e hn⟩
      | next hm hn =>
        refine (above hm hn).mpr ?_
        rw [Bool.eq_false_iff, ne_eq, ← takesOver_iff_isNarrow crateMatch hn]
        exact hup _ hm

/-! ### A name that inherits from a pattern that does not cover it -/

def labelWww : Label := ⟨[119, 119, 119], by decide, by decide⟩

def labelExample : Label := ⟨[101, 120, 97, 109, 112, 108, 101], by decide, by decide⟩

def labelCom : Label := ⟨[99, 111, 109], by decide, by decide⟩

def exampleCom : Name := ⟨false, [labelExample, labelCom]⟩

def wwwExampleCom : Name := ⟨false, [labelWww, labelExample, labelCom]⟩

/-- The group `office` for `-.example.com`, and an address rule for `www.example.com`. -/
def exactAboveChild : RuleSet where
  forwardRules := [⟨.name (.full exampleCom), "office"⟩]
  addressRules := [⟨.name (.default wwwExampleCom), .soav6⟩]

/-- The rule on `www.example.com` inherits from `-.example.com`. -/
theorem inherits_from_exact_pattern :
    ¬ ∀ node ∈ (DomainRuleMap.create (fun _ _ => false) exactAboveChild).chainAt (fun _ _ => false)
      wwwExampleCom, node.name.isMatch (fun _ _ => false) wwwExampleCom = true := by
  decide

/-- A query for `www.example.com` is sent to the group set for `-.example.com`. -/
example (crateMatch : List UInt8 → List UInt8 → Bool) :
    (DomainRuleMap.create crateMatch exactAboveChild).getAt crateMatch wwwExampleCom
      (·.rule.nameserver) = some "office" := rfl

end Rule
end SmartDns
