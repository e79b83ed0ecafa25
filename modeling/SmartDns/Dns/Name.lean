/-
# Domain names

The name type of the vendored `hickory-dns` (`proto/src/rr/domain/name.rs`,
`label.rs`): a list of labels of 1 to 63 bytes and a mark that says whether the
name ends in the root dot. Comparison, equality and hashing fold ASCII case and
see the mark; `eq_ignore_root_case` folds neither and does not see it;
`zone_of` folds case and does not see it.

What a name is up to case is `Name.lowers`; the lemmas say what each operation
of the source does to it, so that nothing above this file unfolds a comparison.

Key definitions: `Label`, `Name`, `Name.cmp`, `Name.baseName`, `Name.zoneOf`,
`Name.eqIgnoreRootCase`.
Key theorems: `Name.beq_iff`, `Name.zoneOf_iff`, `Name.cmp_eq_iff`.
-/
import Mathlib.Data.List.Basic

namespace SmartDns
namespace Dns

/-- A label: 1 to 63 bytes. -/
structure Label where
  bytes : List UInt8
  nonempty : bytes ≠ []
  short : bytes.length ≤ 63
deriving DecidableEq

theorem Label.ext_bytes {a b : Label} (h : a.bytes = b.bytes) : a = b := by
  cases a
  cases b
  simpa using h

structure Name where
  isFqdn : Bool
  labels : List Label

/-- `u8::to_ascii_lowercase`. -/
def toAsciiLowercase (b : UInt8) : UInt8 := if 65 ≤ b ∧ b ≤ 90 then b + 32 else b

/-- The label `*`. -/
def Label.star : Label := ⟨[42], by simp, by simp⟩

namespace Name

def root : Name := ⟨true, []⟩

def setFqdn (n : Name) (val : Bool) : Name := { n with isFqdn := val }

def isRoot (n : Name) : Bool := n.labels.isEmpty && n.isFqdn

/-- `trim_to(num_labels)`: the last labels. `from_labels` makes the result fully qualified. -/
def trimTo (n : Name) (numLabels : ℕ) : Name :=
  if numLabels > n.labels.length then n
  else ⟨true, n.labels.drop (n.labels.length - numLabels)⟩

def baseName (n : Name) : Name :=
  if n.labels.length > 0 then n.trimTo (n.labels.length - 1) else n

def isWildcard (n : Name) : Bool :=
  match n.labels with
  | [] => false
  | l :: _ => l.bytes == [42]

/-- The labels with every byte folded by `f`. -/
def folded (f : UInt8 → UInt8) (n : Name) : List (List UInt8) := n.labels.map (·.bytes.map f)

/-- The name up to ASCII case and the root dot. -/
abbrev lowers (n : Name) : List (List UInt8) := n.folded toAsciiLowercase

/-- `cmp_labels`: from the root to the local labels, bytes folded by `f`; of two names one of
which ends the other, the shorter is less. -/
def cmpLabels (f : UInt8 → UInt8) (a b : Name) : Ordering :=
  List.compareLex (List.compareLex (compareOn f)) (a.labels.map (·.bytes)).reverse
    (b.labels.map (·.bytes)).reverse

/-- `cmp_with_f`: a name without the root dot is less than any name with it. -/
def cmpWithF (f : UInt8 → UInt8) (a b : Name) : Ordering :=
  match a.isFqdn, b.isFqdn with
  | false, true => .lt
  | true, false => .gt
  | _, _ => cmpLabels f a b

/-- `Ord::cmp`, case insensitive. -/
def cmp (a b : Name) : Ordering := cmpWithF toAsciiLowercase a b

/-- `PartialEq::eq`. -/
instance : BEq Name where
  beq a b :=
    match a.isFqdn == b.isFqdn with
    | true => cmpWithF toAsciiLowercase a b == .eq
    | false => false

def eqIgnoreRootCase (a b : Name) : Bool := cmpLabels id a b == .eq

def zoneOfCase (a b : Name) : Bool :=
  if a.labels.length = 0 then true
  else if b.labels.length = 0 then false
  else if a.labels.length > b.labels.length then false
  else (a.labels.reverse.zip b.labels.reverse).all fun p => p.1.bytes == p.2.bytes

def toLowercase (n : Name) : Name :=
  { n with labels := n.labels.map fun l => ⟨l.bytes.map toAsciiLowercase, by simp [l.nonempty],
      by simp [l.short]⟩ }

def zoneOf (a b : Name) : Bool := zoneOfCase a.toLowercase b.toLowercase

/-! ### What the operations do to a name up to case -/

@[simp] theorem setFqdn_labels (n : Name) (b : Bool) : (n.setFqdn b).labels = n.labels := rfl

@[simp] theorem setFqdn_isFqdn (n : Name) (b : Bool) : (n.setFqdn b).isFqdn = b := rfl

@[simp] theorem setFqdn_folded (f : UInt8 → UInt8) (n : Name) (b : Bool) :
    (n.setFqdn b).folded f = n.folded f := rfl

@[simp] theorem folded_length (f : UInt8 → UInt8) (n : Name) :
    (n.folded f).length = n.labels.length := by simp [folded]

theorem labels_length_eq {a b : Name} (h : a.lowers = b.lowers) :
    a.labels.length = b.labels.length := by
  simpa using congrArg List.length h

theorem baseName_cons (f : Bool) (l : Label) (ls : List Label) :
    baseName ⟨f, l :: ls⟩ = ⟨true, ls⟩ := by
  simp [baseName, trimTo, show ¬ ls.length + 1 < ls.length by omega]

@[simp] theorem baseName_labels (n : Name) : n.baseName.labels = n.labels.tail := by
  rcases n with ⟨f, _ | ⟨l, ls⟩⟩
  · rfl
  · rw [baseName_cons, List.tail_cons]

theorem baseName_folded (f : UInt8 → UInt8) (n : Name) :
    n.baseName.folded f = (n.folded f).tail := by
  simp [folded, baseName_labels]

theorem baseName_lowers (n : Name) : n.baseName.lowers = n.lowers.tail :=
  baseName_folded toAsciiLowercase n

theorem compareLex_eq_iff {α β : Type} {cmp : α → α → Ordering} {g : α → β}
    (h : ∀ x y, cmp x y = .eq ↔ g x = g y) : ∀ a b : List α,
    List.compareLex cmp a b = .eq ↔ a.map g = b.map g
  | [], [] => by simp [List.compareLex_nil_nil]
  | [], _ :: _ => by simp [List.compareLex_nil_cons]
  | _ :: _, [] => by simp [List.compareLex_cons_nil]
  | x :: xs, y :: ys => by
    simp [List.compareLex_cons_cons, Ordering.then_eq_eq, h, compareLex_eq_iff h xs ys]

theorem cmpLabels_eq_iff (f : UInt8 → UInt8) (a b : Name) :
    cmpLabels f a b = .eq ↔ a.folded f = b.folded f := by
  have bytes : ∀ x y : UInt8, compareOn f x y = .eq ↔ f x = f y := fun x y => by simp [compareOn]
  rw [cmpLabels, compareLex_eq_iff (compareLex_eq_iff bytes), List.map_reverse, List.map_reverse,
    List.reverse_inj]
  simp [folded, Function.comp_def]

theorem cmp_eq_iff (a b : Name) : a.cmp b = .eq ↔ a.isFqdn = b.isFqdn ∧ a.lowers = b.lowers := by
  unfold cmp cmpWithF
  cases ha : a.isFqdn <;> cases hb : b.isFqdn <;> simp [cmpLabels_eq_iff]

theorem beq_iff (a b : Name) : (a == b) = true ↔ a.isFqdn = b.isFqdn ∧ a.lowers = b.lowers := by
  have : (a == b) = (match a.isFqdn == b.isFqdn with
    | true => cmpWithF toAsciiLowercase a b == .eq
    | false => false) := rfl
  rw [this]
  cases h : a.isFqdn == b.isFqdn
  · simp at h
    simp [h]
  · simp at h
    simpa [h, cmp] using (cmp_eq_iff a b)

instance : EquivBEq Name where
  rfl := by simp [beq_iff]
  symm h := by
    rw [beq_iff] at h ⊢
    exact ⟨h.1.symm, h.2.symm⟩
  trans h h' := by
    rw [beq_iff] at h h' ⊢
    exact ⟨h.1.trans h'.1, h.2.trans h'.2⟩

theorem eqIgnoreRootCase_iff (a b : Name) : a.eqIgnoreRootCase b = true ↔ a.labels = b.labels := by
  rw [eqIgnoreRootCase, beq_iff_eq, cmpLabels_eq_iff]
  simp only [folded, List.map_id_fun, id_eq]
  constructor
  · intro h
    exact List.map_injective_iff.mpr (fun _ _ => Label.ext_bytes) h
  · intro h
    rw [h]

theorem lowers_eq_of_labels_eq {a b : Name} (h : a.labels = b.labels) : a.lowers = b.lowers := by
  simp [lowers, folded, h]

theorem zoneOfCase_iff (a b : Name) :
    a.zoneOfCase b = true ↔ a.labels.map (·.bytes) <:+ b.labels.map (·.bytes) := by
  have key : ∀ x y : List Label, x.length ≤ y.length →
      ((x.zip y).all (fun p => p.1.bytes == p.2.bytes) = true ↔
        x.map (·.bytes) <+: y.map (·.bytes)) := by
    intro x
    induction x with
    | nil => simp
    | cons x xs ih =>
      intro y hy
      cases y with
      | nil => simp at hy
      | cons y ys => simp [List.cons_prefix_cons, ← ih ys (by simpa using hy)]
  unfold zoneOfCase
  split
  · rename_i h
    simp [List.length_eq_zero_iff.mp h]
  · split
    · rename_i h0 h
      simp only [Bool.false_eq_true, false_iff]
      intro hs
      have := hs.length_le
      simp only [List.length_map] at this
      omega
    · split
      · rename_i h
        simp only [Bool.false_eq_true, false_iff]
        intro hs
        have := hs.length_le
        simp only [List.length_map] at this
        omega
      · rename_i h
        rw [key _ _ (by simp only [List.length_reverse]; omega), List.map_reverse, List.map_reverse,
          List.reverse_prefix]

theorem toLowercase_bytes (n : Name) : n.toLowercase.labels.map (·.bytes) = n.lowers := by
  simp [toLowercase, lowers, folded]

/-- A zone contains the names whose last labels are its labels, up to case. -/
theorem zoneOf_iff (a b : Name) : a.zoneOf b = true ↔ a.lowers <:+ b.lowers := by
  rw [zoneOf, zoneOfCase_iff, toLowercase_bytes, toLowercase_bytes]

theorem zoneOf_congr {a a' : Name} (h : a.lowers = a'.lowers) (b : Name) : a.zoneOf b = a'.zoneOf b := by
  rw [Bool.eq_iff_iff, zoneOf_iff, zoneOf_iff, h]

theorem zoneOf_congr_right (a : Name) {b b' : Name} (h : b.labels = b'.labels) :
    a.zoneOf b = a.zoneOf b' := by
  rw [Bool.eq_iff_iff, zoneOf_iff, zoneOf_iff, lowers_eq_of_labels_eq h]

theorem eqIgnoreRootCase_congr_right (a : Name) {b b' : Name} (h : b.labels = b'.labels) :
    a.eqIgnoreRootCase b = a.eqIgnoreRootCase b' := by
  rw [eqIgnoreRootCase, eqIgnoreRootCase, cmpLabels, cmpLabels, h]

theorem eqIgnoreRootCase_congr {a a' : Name} (h : a.labels = a'.labels) (b : Name) :
    a.eqIgnoreRootCase b = a'.eqIgnoreRootCase b := by
  rw [eqIgnoreRootCase, eqIgnoreRootCase, cmpLabels, cmpLabels, h]

/-! ### The order of names -/

theorem cmp_eq_compareLex : cmp = compareLex (compareOn isFqdn) (cmpLabels toAsciiLowercase) := by
  funext a b
  unfold cmp cmpWithF compareLex compareOn
  cases a.isFqdn <;> cases b.isFqdn <;> rfl

instance (f : UInt8 → UInt8) : Std.TransCmp (cmpLabels f) :=
  have h : Std.TransCmp (List.compareLex (List.compareLex (compareOn f))) := inferInstance
  { eq_swap := h.eq_swap, isLE_trans := h.isLE_trans }

instance : Std.TransCmp cmp := by
  rw [cmp_eq_compareLex]
  infer_instance

theorem compareLex_lt_of_prefix {α β : Type} {cmp : α → α → Ordering} {g : α → β}
    (h : ∀ x y, cmp x y = .eq ↔ g x = g y) : ∀ a b : List α, a.map g <+: b.map g → a.length < b.length →
    List.compareLex cmp a b = .lt
  | [], [], _, hl => by simp at hl
  | [], _ :: _, _, _ => List.compareLex_nil_cons
  | _ :: _, [], _, hl => by simp at hl
  | x :: xs, y :: ys, hp, hl => by
    obtain ⟨hxy, hp⟩ := List.cons_prefix_cons.mp hp
    rw [List.compareLex_cons_cons, (h x y).mpr hxy]
    exact compareLex_lt_of_prefix h xs ys hp (by simpa using hl)

/-- A zone comes before the names under it. -/
theorem cmp_lt_of_suffix {a b : Name} (hf : a.isFqdn = b.isFqdn) (hs : a.lowers <:+ b.lowers)
    (hl : a.labels.length < b.labels.length) : a.cmp b = .lt := by
  have hbytes : ∀ x y : UInt8, compareOn toAsciiLowercase x y = .eq ↔
      toAsciiLowercase x = toAsciiLowercase y := fun x y => by simp [compareOn]
  have hcmp : cmpLabels toAsciiLowercase a b = .lt := by
    refine compareLex_lt_of_prefix (compareLex_eq_iff hbytes) _ _ ?_ (by simpa using hl)
    rw [List.map_reverse, List.map_reverse, List.reverse_prefix]
    simpa [folded, Function.comp_def] using hs
  rw [cmp_eq_compareLex, compareLex, hcmp]
  simp [compareOn, hf]

/-- Names without the root dot come first. -/
theorem isFqdn_of_cmp_lt {a b : Name} (h : a.cmp b = .lt) (hb : b.isFqdn = false) :
    a.isFqdn = false := by
  unfold cmp cmpWithF at h
  rw [hb] at h
  cases ha : a.isFqdn
  · rfl
  · simp [ha] at h

end Name
end Dns
end SmartDns
