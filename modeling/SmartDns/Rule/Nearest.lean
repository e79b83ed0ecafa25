/-
# Which pattern is in force

`askedAt a p` is the place of the pattern `p` in the order in which a lookup
that starts at `a` asks for patterns: at `a` itself the exact pattern and then
the pattern of the whole domain; one label up the one-level patterns that match
`a`, then `Suffix`, then `Default`; further up `Suffix` and `Default` only. A
pattern the lookup never asks for has no place.

`nearest_minimal`: what the climb returns is the last spelling of a pattern with
the least place, and it returns nothing only if no pattern has a place.

Key definitions: `askedAt`, `up`.
Key theorems: `nearest_some`, `nearest_none`, `askedAt_eq_some`.
-/
import SmartDns.Rule.DomainMap

namespace SmartDns
namespace Rule

open Dns

universe u

variable {T : Type u} (crateMatch : List UInt8 → List UInt8 → Bool)

/-- The name `i` labels above `a`. -/
def up (a : Name) (i : ℕ) : Name := ⟨true, a.labels.drop i⟩

/-- The place of `p` among the patterns a lookup from `a` asks for, `a` with its root dot and
without a leading `*`. -/
def askedAt (a : Name) (p : WildcardName) : Option ℕ :=
  let lvl := a.labels.length - p.name.labels.length
  match p with
  | .full n => if n.lowers = a.lowers then some 0 else none
  | .sub w n => if a.labels ≠ [] ∧ (WildcardName.sub w n).isMatch crateMatch a then some 5 else none
  | .suffix n => if n.zoneOf a ∧ n.labels.length < a.labels.length then some (4 * lvl + 2) else none
  | .default n => if n.zoneOf a then some (4 * lvl + 3) else none

/-! ### The places, kind by kind -/

theorem up_lowers (a : Name) (i : ℕ) : (up a i).lowers = a.lowers.drop i := by
  simp [up, Name.folded, List.map_drop]

theorem up_length (a : Name) (i : ℕ) : (up a i).labels.length = a.labels.length - i := by
  simp [up]

theorem lowers_eq_up {a n : Name} (h : n.lowers <:+ a.lowers) :
    n.lowers = (up a (a.labels.length - n.labels.length)).lowers := by
  obtain ⟨t, ht⟩ := h
  have hl : t.length + n.labels.length = a.labels.length := by
    simpa using congrArg List.length ht
  rw [up_lowers, show a.labels.length - n.labels.length = t.length by omega, ← ht]
  simp

theorem suffix_up (a : Name) (i : ℕ) : (up a i).lowers <:+ a.lowers := by
  rw [up_lowers]
  exact List.drop_suffix i a.lowers

/-- The places of a pattern and of the other spellings of it. -/
theorem askedAt_eq_some (a : Name) (p : WildcardName) (k : ℕ) : askedAt crateMatch a p = some k ↔
    (k = 0 ∧ p.shape = (WildcardName.full a).shape) ∨
    (k = 5 ∧ a.labels ≠ [] ∧ p.isSub ∧ p.isMatch crateMatch a) ∨
    (∃ lvl ≤ a.labels.length, k = 4 * lvl + 2 ∧ 1 ≤ lvl ∧ p.shape = (WildcardName.suffix (up a lvl)).shape) ∨
    (∃ lvl ≤ a.labels.length, k = 4 * lvl + 3 ∧ p.shape = (WildcardName.default (up a lvl)).shape) := by
  have length_of {n : Name} {lvl : ℕ} (hl : lvl ≤ a.labels.length) (h : n.lowers = (up a lvl).lowers) :
      a.labels.length - n.labels.length = lvl := by
    have := Name.labels_length_eq h
    rw [up_length] at this
    omega
  cases p with
  | full n =>
    simp only [askedAt, WildcardName.shape, WildcardName.ord, WildcardName.subPattern, WildcardName.name,
      WildcardName.isSub]
    simp
    exact ⟨fun h => ⟨h.2.symm, h.1⟩, fun h => ⟨h.2, h.1.symm⟩⟩
  | sub w n =>
    simp only [askedAt, WildcardName.shape, WildcardName.ord, WildcardName.subPattern, WildcardName.name,
      WildcardName.isSub]
    simp
    exact ⟨fun h => ⟨h.2.symm, h.1⟩, fun h => ⟨h.2, h.1.symm⟩⟩
  | suffix n =>
    simp only [askedAt, WildcardName.shape, WildcardName.ord, WildcardName.subPattern, WildcardName.name,
      WildcardName.isSub, Name.zoneOf_iff]
    constructor
    · intro h
      split at h
      · rename_i hn
        refine .inr (.inr (.inl ⟨_, Nat.sub_le _ _, (Option.some.inj h).symm, by omega, ?_⟩))
        rw [lowers_eq_up hn.1]
      · cases h
    · rintro (⟨_, h⟩ | ⟨_, _, h, _⟩ | ⟨lvl, hl, rfl, h1, h⟩ | ⟨_, _, _, h⟩)
      · simp at h
      · simp at h
      · simp only [Prod.mk.injEq, true_and] at h
        have hlen := Name.labels_length_eq h
        rw [up_length] at hlen
        rw [if_pos ⟨h ▸ suffix_up a lvl, by omega⟩, length_of hl h]
      · simp at h
  | default n =>
    simp only [askedAt, WildcardName.shape, WildcardName.ord, WildcardName.subPattern, WildcardName.name,
      WildcardName.isSub, Name.zoneOf_iff]
    constructor
    · intro h
      split at h
      · rename_i hn
        refine .inr (.inr (.inr ⟨_, Nat.sub_le _ _, (Option.some.inj h).symm, ?_⟩))
        rw [lowers_eq_up hn]
      · cases h
    · rintro (⟨_, h⟩ | ⟨_, _, h, _⟩ | ⟨_, _, _, _, h⟩ | ⟨lvl, hl, rfl, h⟩)
      · simp at h
      · simp at h
      · simp at h
      · simp only [Prod.mk.injEq, true_and] at h
        rw [if_pos (h ▸ suffix_up a lvl), length_of hl h]

/-! ### The last spelling of a pattern -/

variable {items : List (WildcardName × T)}

theorem spelled_some {p : WildcardName} {e : WildcardName × T} (h : spelled items p = some e) :
    e ∈ items ∧ e.1.shape = p.shape := by
  refine ⟨List.mem_reverse.mp (List.mem_of_find?_eq_some h), ?_⟩
  rw [← WildcardName.sameRule_iff]
  simpa using List.find?_some h

theorem spelled_ne_none {p : WildcardName} {e : WildcardName × T} (he : e ∈ items)
    (h : e.1.shape = p.shape) : spelled items p ≠ none := by
  intro hn
  have := List.find?_eq_none.mp hn e (List.mem_reverse.mpr he)
  simp [WildcardName.sameRule_iff, h] at this

theorem spelled_self {p : WildcardName} {e : WildcardName × T} (h : spelled items p = some e) :
    spelled items e.1 = some e := by
  rw [spelled_congr items (spelled_some h).2, h]

/-! ### What the climb returns -/

/-- `e` is the last spelling of a pattern that is asked for at `k`. -/
def FoundAt (items : List (WildcardName × T)) (a : Name) (e : WildcardName × T) (k : ℕ) : Prop :=
  spelled items e.1 = some e ∧ ∃ e' ∈ items, e'.1.shape = e.1.shape ∧ askedAt crateMatch a e'.1 = some k

theorem foundAt_of_spelled {a : Name} {p : WildcardName} {e : WildcardName × T} {k : ℕ}
    (h : spelled items p = some e)
    (hk : ∀ p' : WildcardName, p'.shape = p.shape → askedAt crateMatch a p' = some k) :
    FoundAt crateMatch items a e k :=
  ⟨spelled_self h, e, (spelled_some h).1, rfl, hk e.1 (spelled_some h).2⟩

theorem subs_some {a : Name} (ha : a.labels ≠ []) {e : WildcardName × T} {n last : Name}
    (hlast : last.labels = a.labels)
    (h : ((subsOver items n).findSome? fun e =>
      if e.1.isMatch crateMatch last then spelled items e.1 else none) = some e) :
    FoundAt crateMatch items a e 5 := by
  obtain ⟨e', he', h⟩ := List.exists_of_findSome?_eq_some h
  obtain ⟨hi, hs⟩ := List.mem_filter.mp he'
  rw [Bool.and_eq_true] at hs
  split at h
  · rename_i hm
    refine ⟨spelled_self h, e', hi, (spelled_some h).2.symm, ?_⟩
    refine (askedAt_eq_some crateMatch a e'.1 5).mpr (.inr (.inl ⟨rfl, ha, hs.1, ?_⟩))
    cases hp : e'.1 with
    | sub w m => simpa [hp, WildcardName.isMatch, Name.eqIgnoreRootCase_iff, hlast] using hm
    | _ => simp [hp, WildcardName.isSub] at hs
  · cases h

theorem subs_none {a : Name} {n last : Name} (hlast : last.labels = a.labels)
    (hn : n.lowers = a.baseName.lowers)
    (h : ((subsOver items n).findSome? fun e =>
      if e.1.isMatch crateMatch last then spelled items e.1 else none) = none)
    {e : WildcardName × T} (he : e ∈ items) : askedAt crateMatch a e.1 ≠ some 5 := by
  intro hk
  obtain ⟨hk, _⟩ | ⟨-, -, hs, hm⟩ | ⟨_, _, hk, _⟩ | ⟨_, _, hk, _⟩ :=
    (askedAt_eq_some crateMatch a e.1 5).mp hk
  · omega
  · cases hp : e.1 with
    | sub w m =>
      simp only [hp, WildcardName.isMatch, Bool.and_eq_true, Name.eqIgnoreRootCase_iff] at hm
      have hmem : e ∈ subsOver items n := by
        refine List.mem_filter.mpr ⟨he, ?_⟩
        simp [hp, WildcardName.isSub, WildcardName.name, hn, Name.lowers_eq_of_labels_eq hm.1]
      have := List.findSome?_eq_none_iff.mp h e hmem
      rw [if_pos] at this
      · exact spelled_ne_none he rfl this
      · simpa [hp, WildcardName.isMatch, Name.eqIgnoreRootCase_iff, hlast] using hm
    | _ => simp [hp, WildcardName.isSub] at hs
  · omega
  · omega

/-- Of the patterns with a place from `lo` on and below `hi`, `o` is the first. -/
structure Covers (items : List (WildcardName × T)) (a : Name) (lo hi : ℕ)
    (o : Option (WildcardName × T)) : Prop where
  found : ∀ e, o = some e → ∃ k, FoundAt crateMatch items a e k ∧ lo ≤ k ∧ k < hi ∧
    ∀ e' ∈ items, ∀ k', askedAt crateMatch a e'.1 = some k' → lo ≤ k' → k ≤ k'
  missed : o = none → ∀ e' ∈ items, ∀ k', askedAt crateMatch a e'.1 = some k' → lo ≤ k' → hi ≤ k'

variable {crateMatch}

theorem Covers.single {a : Name} {k : ℕ} {o : Option (WildcardName × T)}
    (hs : ∀ e, o = some e → FoundAt crateMatch items a e k)
    (hn : o = none → ∀ e ∈ items, askedAt crateMatch a e.1 ≠ some k) :
    Covers crateMatch items a k (k + 1) o where
  found e he := ⟨k, hs e he, Nat.le_refl k, Nat.lt_succ_self k, fun _ _ _ _ h => h⟩
  missed ho e he k' hk' hle := by
    have : k' ≠ k := fun h => hn ho e he (h ▸ hk')
    omega

theorem Covers.or {a : Name} {lo mid hi : ℕ} {o o' : Option (WildcardName × T)}
    (h : Covers crateMatch items a lo mid o) (h' : Covers crateMatch items a mid hi o')
    (hlm : lo ≤ mid) (hmh : mid ≤ hi) : Covers crateMatch items a lo hi (o.or o') where
  found e he := by
    rcases Option.or_eq_some_iff.mp he with he | ⟨hn, he⟩
    · obtain ⟨k, hf, h1, h2, h3⟩ := h.found e he
      exact ⟨k, hf, h1, by omega, h3⟩
    · obtain ⟨k, hf, h1, h2, h3⟩ := h'.found e he
      refine ⟨k, hf, by omega, h2, fun e' he' k' hk' hle => ?_⟩
      exact h3 e' he' k' hk' (h.missed hn e' he' k' hk' hle)
  missed hn e' he' k' hk' hle := by
    obtain ⟨h1, h2⟩ := Option.or_eq_none_iff.mp hn
    exact h'.missed h2 e' he' k' hk' (h.missed h1 e' he' k' hk' hle)

/-- A lookup of one pattern: the spellings of `p` are what is asked for at `k`. -/
theorem Covers.spelled {a : Name} {p : WildcardName} {k : ℕ}
    (hk : ∀ p' : WildcardName, askedAt crateMatch a p' = some k ↔ p'.shape = p.shape) :
    Covers crateMatch items a k (k + 1) (spelled items p) :=
  Covers.single (fun _ he => foundAt_of_spelled crateMatch he fun p' hp => (hk p').mpr hp)
    fun hn _ he h => spelled_ne_none he ((hk _).mp h) hn

/-- Nothing is looked up where no pattern has the place. -/
theorem Covers.nothing {a : Name} {k : ℕ} (hk : ∀ p, askedAt crateMatch a p ≠ some k) :
    Covers crateMatch items a k (k + 1) none :=
  Covers.single (fun _ he => nomatch he) fun _ _ _ => hk _

variable (crateMatch items)

/-- A visit asks for the patterns of its level, in order. -/
theorem covers_visitItems {a : Name} {lvl : ℕ} (hl : lvl ≤ a.labels.length) {last : Name}
    (hlast : lvl = 1 → last.labels = a.labels) :
    Covers crateMatch items a (4 * lvl) (4 * (lvl + 1)) (visitItems crateMatch items lvl last (up a lvl)) := by
  have full : Covers crateMatch items a (4 * lvl) (4 * lvl + 1)
      (if lvl = 0 then spelled items (.full (up a lvl)) else none) := by
    split
    · subst lvl
      refine Covers.spelled fun p => ?_
      rw [askedAt_eq_some, show (WildcardName.full (up a 0)).shape = (WildcardName.full a).shape from rfl]
      constructor
      · rintro (⟨_, h⟩ | ⟨h, _⟩ | ⟨_, _, h, _⟩ | ⟨_, _, h, _⟩)
        · exact h
        all_goals omega
      · exact fun h => .inl ⟨rfl, h⟩
    · refine Covers.nothing fun p hp => ?_
      rcases (askedAt_eq_some crateMatch a p _).mp hp with ⟨h, _⟩ | ⟨h, _⟩ | ⟨_, _, h, _⟩ | ⟨_, _, h, _⟩ <;> omega
  have subs : Covers crateMatch items a (4 * lvl + 1) (4 * lvl + 1 + 1)
      (if lvl = 1 then (subsOver items (up a lvl)).findSome? fun e =>
        if e.1.isMatch crateMatch last then spelled items e.1 else none else none) := by
    split
    · subst lvl
      have hne : a.labels ≠ [] := fun h => by simp [h] at hl
      refine Covers.single (fun e he => subs_some crateMatch hne (hlast rfl) he) fun hn e he => ?_
      refine subs_none crateMatch (hlast rfl) ?_ hn he
      rw [up_lowers, Name.baseName_lowers, List.drop_one]
    · refine Covers.nothing fun p hp => ?_
      rcases (askedAt_eq_some crateMatch a p _).mp hp with ⟨h, _⟩ | ⟨h, _⟩ | ⟨_, _, h, _⟩ | ⟨_, _, h, _⟩ <;> omega
  have suffix : Covers crateMatch items a (4 * lvl + 2) (4 * lvl + 2 + 1)
      (if lvl ≥ 1 then spelled items (.suffix (up a lvl)) else none) := by
    split
    · refine Covers.spelled fun p => ?_
      rw [askedAt_eq_some]
      constructor
      · rintro (⟨h, _⟩ | ⟨h, _⟩ | ⟨lvl', _, h, _, hp⟩ | ⟨_, _, h, _⟩)
        · omega
        · omega
        · rw [hp, show lvl' = lvl by omega]
        · omega
      · exact fun h => .inr (.inr (.inl ⟨lvl, hl, rfl, by omega, h⟩))
    · refine Covers.nothing fun p hp => ?_
      rcases (askedAt_eq_some crateMatch a p _).mp hp with ⟨h, _⟩ | ⟨h, _⟩ | ⟨_, _, h, h1, _⟩ | ⟨_, _, h, _⟩ <;>
        omega
  have default : Covers crateMatch items a (4 * lvl + 3) (4 * lvl + 3 + 1)
      (spelled items (.default (up a lvl))) := by
    refine Covers.spelled fun p => ?_
    rw [askedAt_eq_some]
    constructor
    · rintro (⟨h, _⟩ | ⟨h, _⟩ | ⟨_, _, h, _⟩ | ⟨lvl', _, h, hp⟩)
      · omega
      · omega
      · omega
      · rw [hp, show lvl' = lvl by omega]
    · exact fun h => .inr (.inr (.inr ⟨lvl, hl, rfl, h⟩))
  exact full.or (subs.or (suffix.or default (by omega) (by omega)) (by omega) (by omega)) (by omega) (by omega)

/-- The climb asks for the patterns from its level up to the root. -/
theorem covers_climbItems {a : Name} : ∀ (ls : List Label) (lvl : ℕ) (last : Name),
    lvl ≤ a.labels.length → a.labels.drop lvl = ls → (lvl = 1 → last.labels = a.labels) →
    Covers crateMatch items a (4 * lvl) (4 * (a.labels.length + 1)) (climbItems crateMatch items lvl last ls)
  | [], lvl, last, hl, hd, hlast => by
    have hlen : lvl = a.labels.length := by
      have := congrArg List.length hd
      simp at this
      omega
    have := covers_visitItems crateMatch items hl hlast
    rw [up, hd] at this
    rwa [climbItems, ← hlen]
  | l :: ls, lvl, last, hl, hd, hlast => by
    have hlt : lvl < a.labels.length := by
      have := congrArg List.length hd
      simp at this
      omega
    have htail : a.labels.drop (lvl + 1) = ls := by
      rw [← List.tail_drop, hd, List.tail_cons]
    have first := covers_visitItems crateMatch items hl hlast
    rw [up, hd] at first
    have rest := covers_climbItems ls (lvl + 1) ⟨true, l :: ls⟩ hlt htail fun h1 => by
      obtain rfl : lvl = 0 := by omega
      simpa using hd.symm
    exact first.or rest (by omega) (by omega)

theorem covers_nearest (q : Name) :
    Covers crateMatch items (asked q) 0 (4 * ((asked q).labels.length + 1)) (nearest crateMatch items q) :=
  covers_climbItems crateMatch items (asked q).labels 0 (asked q) (Nat.zero_le _) rfl fun h => nomatch h

variable {crateMatch items}

/-- The item in force is the last spelling of a pattern with the least place. -/
theorem nearest_some {q : Name} {e : WildcardName × T} (h : nearest crateMatch items q = some e) :
    ∃ k, FoundAt crateMatch items (asked q) e k ∧
      ∀ e' ∈ items, ∀ k', askedAt crateMatch (asked q) e'.1 = some k' → k ≤ k' := by
  obtain ⟨k, hf, -, -, hle⟩ := (covers_nearest crateMatch items q).found e h
  exact ⟨k, hf, fun e' he' k' hk' => hle e' he' k' hk' (Nat.zero_le k')⟩

/-- No item is in force only if no pattern has a place. -/
theorem nearest_none {q : Name} (h : nearest crateMatch items q = none) {e : WildcardName × T}
    (he : e ∈ items) : askedAt crateMatch (asked q) e.1 = none := by
  cases hk : askedAt crateMatch (asked q) e.1 with
  | none => rfl
  | some k =>
    have hle := (covers_nearest crateMatch items q).missed h e he k hk (Nat.zero_le k)
    obtain ⟨hk, _⟩ | ⟨hk, ha, _⟩ | ⟨lvl, hl, hk, _⟩ | ⟨lvl, hl, hk, _⟩ :=
      (askedAt_eq_some crateMatch (asked q) e.1 k).mp hk
    · omega
    · have := List.length_pos_of_ne_nil ha
      omega
    · omega
    · omega

end Rule
end SmartDns
