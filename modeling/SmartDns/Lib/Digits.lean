/-
# Numbers from digits

A number from its digits in some base, the most significant first; and the reading of a list item by
item, where each item has to be readable. What stands behind the leading digits does not change the
number's leading part (`ofDigits_append_div`).

Key definition: `ofDigits`.
Key theorems: `ofDigits_lt`, `ofDigits_append_div`, `ofDigits_inj`, `mapM_isSome_iff`.
-/
import Mathlib.Algebra.Group.Nat.Defs
import Mathlib.Algebra.Ring.Nat
import Mathlib.Data.List.Basic

namespace SmartDns
namespace Lib

/-- The first digit is the most significant. -/
def ofDigits (b : ℕ) (ds : List ℕ) : ℕ := ds.foldl (fun v d => v * b + d) 0

theorem foldl_digits (b : ℕ) (es : List ℕ) : ∀ v : ℕ,
    es.foldl (fun v d => v * b + d) v = v * b ^ es.length + ofDigits b es := by
  induction es with
  | nil => simp [ofDigits]
  | cons e es ih =>
    intro v
    rw [ofDigits, List.foldl_cons, List.foldl_cons, ih, ih (0 * b + e), List.length_cons, Nat.pow_succ, Nat.zero_mul,
      Nat.zero_add, Nat.add_mul, Nat.add_assoc, Nat.mul_assoc, Nat.mul_comm b]

theorem ofDigits_append (b : ℕ) (ds es : List ℕ) :
    ofDigits b (ds ++ es) = ofDigits b ds * b ^ es.length + ofDigits b es := by
  rw [ofDigits, List.foldl_append, foldl_digits]
  rfl

theorem ofDigits_cons (b d : ℕ) (ds : List ℕ) : ofDigits b (d :: ds) = d * b ^ ds.length + ofDigits b ds := by
  rw [ofDigits, List.foldl_cons, foldl_digits, Nat.zero_mul, Nat.zero_add]

theorem ofDigits_lt {b : ℕ} : ∀ {ds : List ℕ}, (∀ d ∈ ds, d < b) → ofDigits b ds < b ^ ds.length
  | [], _ => Nat.one_pos
  | d :: ds, h => by
    obtain ⟨hd, hds⟩ := List.forall_mem_cons.mp h
    have ih := ofDigits_lt hds
    rw [ofDigits_cons, List.length_cons, Nat.pow_succ, Nat.mul_comm _ b]
    calc d * b ^ ds.length + ofDigits b ds < d * b ^ ds.length + b ^ ds.length := Nat.add_lt_add_left ih _
      _ = (d + 1) * b ^ ds.length := (Nat.succ_mul d _).symm
      _ ≤ b * b ^ ds.length := Nat.mul_le_mul_right _ hd

/-- The digits behind the first ones are less than one of the last of these. -/
theorem ofDigits_append_div {b : ℕ} (hb : 0 < b) (ds : List ℕ) {es : List ℕ} (hes : ∀ e ∈ es, e < b) :
    ofDigits b (ds ++ es) / b ^ es.length = ofDigits b ds := by
  rw [ofDigits_append, Nat.mul_comm, Nat.mul_add_div (Nat.pow_pos hb), Nat.div_eq_of_lt (ofDigits_lt hes),
    Nat.add_zero]

/-- Numbers with as many digits are equal only if the digits are. -/
theorem ofDigits_inj {b : ℕ} : ∀ {ds es : List ℕ}, ds.length = es.length → (∀ d ∈ ds, d < b) → (∀ e ∈ es, e < b) →
    ofDigits b ds = ofDigits b es → ds = es
  | [], [], _, _, _, _ => rfl
  | [], _ :: _, hlen, _, _, _ => by cases hlen
  | _ :: _, [], hlen, _, _, _ => by cases hlen
  | d :: ds, e :: es, hlen, hds, hes, h => by
    obtain ⟨hd, hds'⟩ := List.forall_mem_cons.mp hds
    obtain ⟨he, hes'⟩ := List.forall_mem_cons.mp hes
    have hlen' : ds.length = es.length := Nat.succ.inj hlen
    have hlt := ofDigits_lt hds'
    have hlt' := ofDigits_lt hes'
    rw [ofDigits_cons, ofDigits_cons, ← hlen'] at h
    rw [← hlen'] at hlt'
    have hpos : 0 < b ^ ds.length := Nat.pow_pos (Nat.zero_lt_of_lt hd)
    have hfirst : d = e := by
      have := congrArg (· / b ^ ds.length) h
      simpa only [Nat.mul_comm _ (b ^ ds.length), Nat.mul_add_div hpos, Nat.div_eq_of_lt hlt, Nat.div_eq_of_lt hlt',
        Nat.add_zero] using this
    rw [hfirst] at h ⊢
    rw [ofDigits_inj hlen' hds' hes' (Nat.add_left_cancel h)]

/-! ### Reading item by item -/

section

universe u v

variable {A : Type u} {B : Type v} {f : A → Option B}

theorem mapM_eq_some_cons {a : A} {as : List A} {bs : List B} :
    (a :: as).mapM f = some bs ↔ ∃ b bs', f a = some b ∧ as.mapM f = some bs' ∧ bs = b :: bs' := by
  rw [List.mapM_cons]
  cases f a with
  | none => simp
  | some b => cases as.mapM f <;> simp [eq_comm]

theorem forall_mem_of_mapM {P : B → Prop} (hf : ∀ a b, f a = some b → P b) :
    ∀ {as : List A} {bs : List B}, as.mapM f = some bs → ∀ b ∈ bs, P b
  | [], bs, h => by
    obtain rfl : [] = bs := Option.some.inj h
    simp
  | a :: as, bs, h => by
    obtain ⟨b, bs', hb, hbs, rfl⟩ := mapM_eq_some_cons.mp h
    exact List.forall_mem_cons.mpr ⟨hf a b hb, forall_mem_of_mapM hf hbs⟩

theorem length_of_mapM : ∀ {as : List A} {bs : List B}, as.mapM f = some bs →
    bs.length = as.length
  | [], bs, h => by
    obtain rfl : [] = bs := Option.some.inj h
    rfl
  | a :: as, bs, h => by
    obtain ⟨b, bs', -, hbs, rfl⟩ := mapM_eq_some_cons.mp h
    rw [List.length_cons, List.length_cons, length_of_mapM hbs]

theorem mapM_isSome_iff : ∀ {as : List A},
    (as.mapM f).isSome = true ↔ ∀ a ∈ as, (f a).isSome = true
  | [] => by simp
  | a :: as => by
    rw [List.mapM_cons, List.forall_mem_cons, ← mapM_isSome_iff]
    cases f a with
    | none => simp
    | some b => cases as.mapM f <;> simp

end

end Lib
end SmartDns
