/-
# Domain patterns

`config/domain.rs`: a rule names its domains by a `WildcardName`, one of four
kinds of pattern over a name. `is_match` says which names the pattern covers;
`Ord` sorts patterns by name first (a zone before what lies under it), then
`Full` before `Sub` before `Suffix` before `Default`.

The matcher of a non-empty one-level wildcard is the third-party `wildcard`
crate; it is the parameter `crateMatch` (pattern, label).

A pattern up to case and the root dot is its `shape`; `sameRule` is the equality
the domain map's keys have after `set_fqdn(true)`.

Key definitions: `WildcardName`, `WildcardName.isMatch`, `WildcardName.cmp`,
`WildcardName.shape`, `WildcardName.sameRule`.
Key theorems: `WildcardName.beq_iff`, `WildcardName.cmp_eq_iff`.
-/
import SmartDns.Dns.Name

namespace SmartDns
namespace Rule

open Dns

/-- A one-level pattern; the empty pattern is `*`. -/
structure Wildcard where
  pattern : List UInt8
deriving DecidableEq

/-- `Wildcard::is_match`; `crateMatch` is the third-party matcher. -/
def Wildcard.isMatch (crateMatch : List UInt8 → List UInt8 → Bool) (w : Wildcard)
    (input : List UInt8) : Bool :=
  if w.pattern.isEmpty then true else crateMatch w.pattern input

inductive WildcardName
  /-- The name and everything under it. -/
  | default (n : Name)
  /-- Everything under the name, without the name. -/
  | suffix (n : Name)
  /-- One label, matched by the wildcard, in front of the name. -/
  | sub (w : Wildcard) (n : Name)
  /-- The name alone. -/
  | full (n : Name)

namespace WildcardName

/-- `Deref`. -/
def name : WildcardName → Name
  | default n => n
  | suffix n => n
  | sub _ n => n
  | full n => n

@[simp] theorem name_default (n : Name) : (default n).name = n := rfl

@[simp] theorem name_suffix (n : Name) : (suffix n).name = n := rfl

@[simp] theorem name_sub (w : Wildcard) (n : Name) : (sub w n).name = n := rfl

@[simp] theorem name_full (n : Name) : (full n).name = n := rfl

/-- `set_fqdn` through `DerefMut`. -/
def setFqdn (b : Bool) : WildcardName → WildcardName
  | default n => default (n.setFqdn b)
  | suffix n => suffix (n.setFqdn b)
  | sub w n => sub w (n.setFqdn b)
  | full n => full (n.setFqdn b)

def isSub : WildcardName → Bool
  | sub _ _ => true
  | _ => false

def isMatch (crateMatch : List UInt8 → List UInt8 → Bool) : WildcardName → Name → Bool
  | default n, name => n.zoneOf name
  | suffix n, name => !n.eqIgnoreRootCase name && n.zoneOf name
  | sub w n, name =>
    n.eqIgnoreRootCase name.baseName &&
      (name.labels.head?.map fun x => w.isMatch crateMatch x.bytes).getD true
  | full n, name => n.eqIgnoreRootCase name

/-- The rank of a kind in `Ord`. -/
def ord : WildcardName → ℕ
  | default _ => 3
  | suffix _ => 2
  | sub _ _ => 1
  | full _ => 0

/-- `Ord::cmp`. -/
def cmp (a b : WildcardName) : Ordering :=
  match a.name.cmp b.name with
  | .lt => .lt
  | .gt => .gt
  | .eq =>
    match compare a.ord b.ord with
    | .eq =>
      match a, b with
      | sub w₁ _, sub w₂ _ => compare w₁.pattern w₂.pattern
      | _, _ => .eq
    | other => other

/-- The derived `PartialEq::eq`. -/
def eq : WildcardName → WildcardName → Bool
  | default a, default b => a == b
  | suffix a, suffix b => a == b
  | sub v a, sub w b => v.pattern == w.pattern && a == b
  | full a, full b => a == b
  | _, _ => false

instance : BEq WildcardName := ⟨eq⟩

/-! ### A pattern up to case and the root dot -/

/-- The bytes of the one-level wildcard, none for the other kinds. -/
def subPattern : WildcardName → List UInt8
  | sub w _ => w.pattern
  | _ => []

/-- The kind, the one-level wildcard and the name up to case. -/
def shape (p : WildcardName) : ℕ × List UInt8 × List (List UInt8) :=
  (p.ord, p.subPattern, p.name.lowers)

/-- The two patterns differ in case and in the root dot at most. -/
def sameRule (p p' : WildcardName) : Bool := p.setFqdn true == p'.setFqdn true

@[simp] theorem name_setFqdn (b : Bool) (p : WildcardName) :
    (p.setFqdn b).name = p.name.setFqdn b := by cases p <;> rfl

@[simp] theorem shape_setFqdn (b : Bool) (p : WildcardName) : (p.setFqdn b).shape = p.shape := by
  cases p <;> rfl

@[simp] theorem isSub_setFqdn (b : Bool) (p : WildcardName) : (p.setFqdn b).isSub = p.isSub := by
  cases p <;> rfl

@[simp] theorem isMatch_setFqdn (crateMatch : List UInt8 → List UInt8 → Bool) (b : Bool)
    (p : WildcardName) (n : Name) : (p.setFqdn b).isMatch crateMatch n = p.isMatch crateMatch n := by
  cases p <;> rfl

theorem beq_iff (p p' : WildcardName) :
    (p == p') = true ↔ p.name.isFqdn = p'.name.isFqdn ∧ p.shape = p'.shape := by
  rw [show (p == p') = p.eq p' from rfl]
  rcases p with a | a | ⟨v, a⟩ | a <;> rcases p' with b | b | ⟨w, b⟩ | b <;>
    simp [eq, shape, ord, subPattern, name, Name.beq_iff, and_left_comm]

theorem sameRule_iff (p p' : WildcardName) : p.sameRule p' = true ↔ p.shape = p'.shape := by
  simp [sameRule, beq_iff]

instance : EquivBEq WildcardName where
  rfl := by simp [beq_iff]
  symm h := by
    rw [beq_iff] at h ⊢
    exact ⟨h.1.symm, h.2.symm⟩
  trans h h' := by
    rw [beq_iff] at h h' ⊢
    exact ⟨h.1.trans h'.1, h.2.trans h'.2⟩

theorem isSub_eq_of_shape {p p' : WildcardName} (h : p.shape = p'.shape) : p.isSub = p'.isSub := by
  have : p.ord = p'.ord := congrArg Prod.fst h
  cases p <;> cases p' <;> simp_all [ord, isSub]

theorem shape_lowers {p p' : WildcardName} (h : p.shape = p'.shape) :
    p.name.lowers = p'.name.lowers := by
  simp only [shape, Prod.mk.injEq] at h
  exact h.2.2

theorem shape_length {p p' : WildcardName} (h : p.shape = p'.shape) :
    p.name.labels.length = p'.name.labels.length :=
  Name.labels_length_eq (shape_lowers h)

theorem shape_eq_full {p : WildcardName} {n : Name} :
    p.shape = (full n).shape ↔ ∃ m, p = full m ∧ m.lowers = n.lowers := by
  cases p <;> simp [shape, ord, subPattern, name]

theorem shape_eq_sub {p : WildcardName} {w : Wildcard} {n : Name} :
    p.shape = (sub w n).shape ↔ ∃ m, p = sub w m ∧ m.lowers = n.lowers := by
  cases p with
  | sub v m =>
    obtain ⟨v⟩ := v
    obtain ⟨w⟩ := w
    simp [shape, ord, subPattern, name]
  | _ => simp [shape, ord, subPattern, name]

theorem shape_eq_suffix {p : WildcardName} {n : Name} :
    p.shape = (suffix n).shape ↔ ∃ m, p = suffix m ∧ m.lowers = n.lowers := by
  cases p <;> simp [shape, ord, subPattern, name]

theorem shape_eq_default {p : WildcardName} {n : Name} :
    p.shape = (default n).shape ↔ ∃ m, p = default m ∧ m.lowers = n.lowers := by
  cases p <;> simp [shape, ord, subPattern, name]

/-- What a pattern covers depends on its labels, not on its root dot. -/
theorem isMatch_congr (crateMatch : List UInt8 → List UInt8 → Bool) {p p' : WildcardName}
    (hs : p.shape = p'.shape) (hl : p.name.labels = p'.name.labels) (a : Name) :
    p.isMatch crateMatch a = p'.isMatch crateMatch a := by
  cases p' with
  | default n =>
    obtain ⟨m, rfl, hm⟩ := shape_eq_default.mp hs
    exact Name.zoneOf_congr hm a
  | suffix n =>
    obtain ⟨m, rfl, hm⟩ := shape_eq_suffix.mp hs
    simp only [name_suffix] at hl
    simp only [isMatch, Name.zoneOf_congr hm, Name.eqIgnoreRootCase_congr hl]
  | sub w n =>
    obtain ⟨m, rfl, hm⟩ := shape_eq_sub.mp hs
    simp only [name_sub] at hl
    simp only [isMatch, Name.eqIgnoreRootCase_congr hl]
  | full n =>
    obtain ⟨m, rfl, hm⟩ := shape_eq_full.mp hs
    exact Name.eqIgnoreRootCase_congr hl a

theorem isMatch_congr_right (crateMatch : List UInt8 → List UInt8 → Bool) (p : WildcardName)
    {a b : Name} (h : a.labels = b.labels) : p.isMatch crateMatch a = p.isMatch crateMatch b := by
  have hbase : a.baseName.labels = b.baseName.labels := by simp [h]
  cases p with
  | default n => exact Name.zoneOf_congr_right n h
  | suffix n => simp only [isMatch, Name.zoneOf_congr_right n h, Name.eqIgnoreRootCase_congr_right n h]
  | sub w n => simp only [isMatch, Name.eqIgnoreRootCase_congr_right n hbase, h]
  | full n => exact Name.eqIgnoreRootCase_congr_right n h

/-! ### The order of patterns -/

theorem cmp_eq_compareLex : cmp = compareLex (fun a b => a.name.cmp b.name)
    (compareLex (compareOn ord) (compareOn subPattern)) := by
  funext a b
  simp only [cmp, compareLex, compareOn]
  cases a.name.cmp b.name with
  | lt => rfl
  | gt => rfl
  | eq =>
    rcases a with a | a | ⟨v, a⟩ | a <;> rcases b with b | b | ⟨w, b⟩ | b <;>
      simp [ord, subPattern, Ordering.then]

instance : Std.TransCmp fun a b : WildcardName => a.name.cmp b.name :=
  have h : Std.TransCmp Name.cmp := inferInstance
  { eq_swap := h.eq_swap, isLE_trans := h.isLE_trans }

instance : Std.TransCmp cmp := by
  rw [cmp_eq_compareLex]
  infer_instance

/-- Patterns compare equal exactly when they are the same key. -/
theorem cmp_eq_iff (p p' : WildcardName) : p.cmp p' = .eq ↔ (p == p') = true := by
  rw [beq_iff, cmp_eq_compareLex, compareLex_eq_eq, compareLex_eq_eq, Name.cmp_eq_iff]
  simp [shape, compareOn, and_assoc, and_left_comm, and_comm]

theorem cmp_swap (p p' : WildcardName) : p'.cmp p = (p.cmp p').swap := Std.OrientedCmp.eq_swap

/-- Patterns without the root dot come first. -/
theorem isFqdn_of_cmp_lt {p p' : WildcardName} (h : p.cmp p' = .lt) (hp : p'.name.isFqdn = false) :
    p.name.isFqdn = false := by
  unfold cmp at h
  cases hn : p.name.cmp p'.name with
  | lt => exact Name.isFqdn_of_cmp_lt hn hp
  | eq => exact ((Name.cmp_eq_iff _ _).mp hn).1.trans hp
  | gt => simp [hn] at h

/-- Over one name the order is by kind. -/
theorem ord_le_of_cmp_lt {p p' : WildcardName} (h : p.cmp p' = .lt) (hn : p.name.cmp p'.name = .eq) :
    p.ord ≤ p'.ord := by
  rw [cmp_eq_compareLex, compareLex, hn] at h
  simp only [Ordering.eq_then, compareLex, compareOn] at h
  cases ho : compare p.ord p'.ord with
  | lt => exact Nat.le_of_lt (Nat.compare_eq_lt.mp ho)
  | eq => exact Nat.le_of_eq (Nat.compare_eq_eq.mp ho)
  | gt => simp [ho] at h

theorem cmp_lt_name {p p' : WildcardName} (h : p.name.cmp p'.name = .lt) : p.cmp p' = .lt := by
  simp [cmp, h]

end WildcardName
end Rule
end SmartDns
