/-
# Readers, and files of records without separators

A reader takes a value off the front of its input or fails. Bytes frame a value
for a reader when the reader takes exactly these bytes whatever follows them, and
fails on every proper beginning of them (`Frames`); framing composes along the
steps of a reader (`Frames.bind`), so a format that reads each field in turn is
self-delimiting as a whole.

`readAll` reads records that stand back to back until one fails. A file that is
cut at some byte consists of whole records and the beginning of at most one more
(`cutAt`, `take_flatMap`): what `readAll` makes of it is what it makes of that
beginning, behind the whole records.

Key definitions: `Reader`, `Frames`, `readAll`, `cutAt`, `toBe`, `utf8`.
Key theorems: `Frames.bind`, `readAll_append`, `take_flatMap`, `frames_readBe`.
-/
import Mathlib.Data.List.Basic
import Mathlib.Tactic.Ring

namespace SmartDns
namespace Lib

universe u

abbrev Reader (B E A : Type) := StateT (List B) (Except E) A

section

variable {B E A A' : Type}

/-- The next `n` elements. -/
def readSlice (short : E) (n : ℕ) : Reader B E (List B) := fun d =>
  if n > d.length then .error short else .ok (d.take n, d.drop n)

/-- Fails with `bad` unless `ok`. -/
def verify (bad : E) (ok : Bool) : Reader B E Unit := fun d => if ok then .ok ((), d) else .error bad

/-- `r` takes exactly `bs` for `a`, whatever follows, and fails on every proper beginning of it. -/
structure Frames (r : Reader B E A) (bs : List B) (a : A) : Prop where
  whole : ∀ rest, r (bs ++ rest) = .ok (a, rest)
  cut : ∀ k < bs.length, ∃ e, r (bs.take k) = .error e

theorem Frames.pure (a : A) : Frames (Pure.pure a : Reader B E A) [] a :=
  ⟨fun _ => rfl, fun _ h => absurd h (Nat.not_lt_zero _)⟩

theorem Frames.bind {r : Reader B E A} {f : A → Reader B E A'} {bs bs' : List B} {a : A} {a' : A'}
    (h : Frames r bs a) (h' : Frames (f a) bs' a') : Frames (r >>= f) (bs ++ bs') a' := by
  have run (d : List B) : (r >>= f) d = (r d).bind fun p => f p.1 p.2 := rfl
  constructor
  · intro rest
    rw [run, List.append_assoc, h.whole]
    exact h'.whole rest
  · intro k hk
    rw [run]
    by_cases hlt : k < bs.length
    · obtain ⟨e, he⟩ := h.cut k hlt
      rw [List.take_append_of_le_length hlt.le, he]
      exact ⟨e, rfl⟩
    · obtain ⟨e, he⟩ := h'.cut (k - bs.length) (by simp at hk; omega)
      rw [List.take_append, List.take_of_length_le (by omega), h.whole]
      exact ⟨e, he⟩

theorem Frames.map {r : Reader B E A} {bs : List B} {a : A} (h : Frames r bs a) (g : A → A') :
    Frames (r >>= fun a => Pure.pure (g a)) bs (g a) := by
  have : Frames (r >>= fun a => Pure.pure (g a)) (bs ++ []) (g a) := h.bind (.pure (g a))
  rwa [List.append_nil] at this

theorem bind_eq_ok_iff {r : Reader B E A} {f : A → Reader B E A'} {d rest : List B} {a' : A'} :
    (r >>= f) d = .ok (a', rest) ↔ ∃ a d', r d = .ok (a, d') ∧ f a d' = .ok (a', rest) := by
  have run : (r >>= f) d = (r d).bind fun p => f p.1 p.2 := rfl
  rw [run]
  cases r d with
  | error e => simp [Except.bind]
  | ok p =>
    constructor
    · intro h
      exact ⟨p.1, p.2, rfl, h⟩
    · rintro ⟨a, d', h, h'⟩
      cases h
      exact h'

theorem readSlice_eq_ok_iff {short : E} {n : ℕ} {d bs rest : List B} :
    readSlice short n d = .ok (bs, rest) ↔ d = bs ++ rest ∧ bs.length = n := by
  constructor
  · intro h
    unfold readSlice at h
    split at h
    · cases h
    · cases h
      exact ⟨(List.take_append_drop n d).symm, by rw [List.length_take]; omega⟩
  · rintro ⟨rfl, rfl⟩
    simp [readSlice]

theorem frames_readSlice (short : E) (bs : List B) : Frames (readSlice short bs.length) bs bs := by
  constructor
  · intro rest
    simp [readSlice]
  · intro k hk
    refine ⟨short, ?_⟩
    rw [readSlice, if_pos]
    simpa using hk

theorem frames_verify {ok : Bool} (bad : E) (h : ok = true) : Frames (verify (B := B) bad ok) [] () :=
  ⟨fun rest => by simp [verify, h], fun _ h => absurd h (Nat.not_lt_zero _)⟩

/-! ### Records back to back -/

/-- Reads records until the input is used up or one fails. A reader that takes nothing stops the
loop with `stuck`. -/
def readMany (stuck : E) (r : Reader B E A) : ℕ → List B → List A × Option E
  | 0, _ => ([], none)
  | n + 1, d =>
    if d.isEmpty then ([], none)
    else match r d with
      | .error e => ([], some e)
      | .ok (a, rest) =>
        if d.length ≤ rest.length then ([], some stuck)
        else (a :: (readMany stuck r n rest).1, (readMany stuck r n rest).2)

def readAll (stuck : E) (r : Reader B E A) (d : List B) : List A × Option E :=
  readMany stuck r d.length d

variable (stuck : E) (r : Reader B E A)

/-- More rounds than there is input change nothing. -/
theorem readMany_congr : ∀ (n n' : ℕ) (d : List B), d.length ≤ n → d.length ≤ n' →
    readMany stuck r n d = readMany stuck r n' d
  | _, _, [], _, _ => by
    have nil (n : ℕ) : readMany stuck r n [] = ([], none) := by cases n <;> rfl
    rw [nil, nil]
  | n + 1, n' + 1, b :: d, h, h' => by
    unfold readMany
    cases r (b :: d) with
    | error e => rfl
    | ok p =>
      by_cases hle : (b :: d).length ≤ p.2.length
      · simp only [hle, ↓reduceIte]
      · have ih := readMany_congr n n' p.2 (by simp at h hle; omega) (by simp at h' hle; omega)
        simp only [hle, ↓reduceIte, ih]

@[simp] theorem readAll_nil : readAll stuck r [] = ([], none) := rfl

theorem readAll_of_ok {d rest : List B} {a : A} (h : r d = .ok (a, rest)) (hlt : rest.length < d.length) :
    readAll stuck r d = (a :: (readAll stuck r rest).1, (readAll stuck r rest).2) := by
  cases d with
  | nil => simp at hlt
  | cons b d =>
    have := readMany_congr stuck r d.length rest.length rest (by simp at hlt; omega) le_rfl
    rw [readAll, List.length_cons, readMany]
    simp only [List.isEmpty_cons, Bool.false_eq_true, ↓reduceIte, h, Nat.not_le.mpr hlt]
    rw [this, readAll]

theorem readAll_of_error {d : List B} {e : E} (h : r d = .error e) (hd : d ≠ []) :
    readAll stuck r d = ([], some e) := by
  cases d with
  | nil => exact absurd rfl hd
  | cons b d =>
    rw [readAll, List.length_cons, readMany]
    simp only [List.isEmpty_cons, Bool.false_eq_true, ↓reduceIte, h]

/-- Each of the records was read somewhere. -/
theorem exists_of_mem_readMany : ∀ {n : ℕ} {d : List B} {a : A}, a ∈ (readMany stuck r n d).1 →
    ∃ d' rest, r d' = .ok (a, rest)
  | 0, _, _, h => by cases h
  | n + 1, d, a, h => by
    unfold readMany at h
    split at h
    · cases h
    · split at h
      · cases h
      · rename_i a' rest hr
        split at h
        · cases h
        · rcases List.mem_cons.mp h with rfl | h
          · exact ⟨d, rest, hr⟩
          · exact exists_of_mem_readMany h

/-- Whole records, each read as `g` of what was written, and then what follows them. -/
theorem readAll_flatMap_append {W : Type} (f : W → List B) (g : W → A) (tail : List B) :
    ∀ ws : List W, (∀ w ∈ ws, f w ≠ []) → (∀ w ∈ ws, ∀ rest, r (f w ++ rest) = .ok (g w, rest)) →
      readAll stuck r (ws.flatMap f ++ tail) =
        (ws.map g ++ (readAll stuck r tail).1, (readAll stuck r tail).2)
  | [], _, _ => by simp
  | w :: ws, hne, h => by
    have ih := readAll_flatMap_append f g tail ws (fun w hw => hne w (List.mem_cons_of_mem _ hw))
      fun w hw => h w (List.mem_cons_of_mem _ hw)
    have hw := List.length_pos_of_ne_nil (hne w List.mem_cons_self)
    rw [List.flatMap_cons, List.append_assoc,
      readAll_of_ok stuck r (h w List.mem_cons_self _) (by simp only [List.length_append]; omega), ih]
    rfl

/-! ### Where a cut falls -/

/-- The records that lie wholly before a cut after `k` elements, and the record the cut goes
through, if it goes through one, with the number of its elements before the cut. -/
def cutAt {W : Type} (f : W → List B) : List W → ℕ → List W × Option (W × ℕ)
  | [], _ => ([], none)
  | w :: ws, k =>
    if (f w).length ≤ k then
      (w :: (cutAt f ws (k - (f w).length)).1, (cutAt f ws (k - (f w).length)).2)
    else ([], if k = 0 then none else some (w, k))

/-- The elements of the record the cut goes through that stand before the cut. -/
def beginning {W : Type} (f : W → List B) : Option (W × ℕ) → List B
  | none => []
  | some (w, j) => (f w).take j

theorem take_flatMap {W : Type} (f : W → List B) : ∀ (ws : List W) (k : ℕ),
    (ws.flatMap f).take k = (cutAt f ws k).1.flatMap f ++ beginning f (cutAt f ws k).2
  | [], _ => by simp [cutAt, beginning]
  | w :: ws, k => by
    unfold cutAt
    by_cases h : (f w).length ≤ k
    · simp only [h, ↓reduceIte, List.flatMap_cons, List.append_assoc]
      rw [← take_flatMap f ws, List.take_append, List.take_of_length_le h]
    · rw [List.flatMap_cons, List.take_append_of_le_length (by omega)]
      simp only [h, ↓reduceIte, List.flatMap_nil, List.nil_append]
      by_cases h0 : k = 0
      · simp [h0, beginning]
      · simp [h0, beginning]

theorem mem_of_mem_cutAt {W : Type} (f : W → List B) : ∀ (ws : List W) (k : ℕ) (w : W),
    w ∈ (cutAt f ws k).1 → w ∈ ws
  | [], _, _, h => by simp [cutAt] at h
  | w' :: ws, k, w, h => by
    unfold cutAt at h
    split at h
    · rcases List.mem_cons.mp h with rfl | h
      · exact List.mem_cons_self
      · exact List.mem_cons_of_mem _ (mem_of_mem_cutAt f ws _ w h)
    · simp at h

/-- The cut goes through a record of the file, behind its first element and before its end. -/
theorem cutAt_eq_some {W : Type} (f : W → List B) : ∀ {ws : List W} {k j : ℕ} {w : W},
    (cutAt f ws k).2 = some (w, j) → w ∈ ws ∧ 0 < j ∧ j < (f w).length
  | [], _, _, _, h => by simp [cutAt] at h
  | w' :: ws, k, j, w, h => by
    unfold cutAt at h
    by_cases hle : (f w').length ≤ k
    · simp only [hle, ↓reduceIte] at h
      obtain ⟨h1, h2⟩ := cutAt_eq_some f h
      exact ⟨List.mem_cons_of_mem _ h1, h2⟩
    · simp only [hle, ↓reduceIte] at h
      by_cases h0 : k = 0
      · simp [h0] at h
      · simp only [h0, ↓reduceIte, Option.some.injEq, Prod.mk.injEq] at h
        obtain ⟨rfl, rfl⟩ := h
        exact ⟨List.mem_cons_self, by omega, by omega⟩

/-- The cut goes through no record exactly when it is at the end of one, or at the start. -/
theorem cutAt_eq_none_iff {W : Type} (f : W → List B) : ∀ {ws : List W} {k : ℕ},
    (∀ w ∈ ws, f w ≠ []) → k ≤ (ws.flatMap f).length →
    ((cutAt f ws k).2 = none ↔ ∃ i ≤ ws.length, ((ws.take i).flatMap f).length = k)
  | [], k, _, hk => by
    simp only [List.flatMap_nil, List.length_nil, Nat.le_zero] at hk
    simp [cutAt, hk]
  | w :: ws, k, hne, hk => by
    have ih := @cutAt_eq_none_iff W f ws (k - (f w).length) (fun w hw => hne w (List.mem_cons_of_mem _ hw))
      (by simp only [List.flatMap_cons, List.length_append] at hk; omega)
    have hpos := List.length_pos_of_ne_nil (hne w List.mem_cons_self)
    unfold cutAt
    by_cases hle : (f w).length ≤ k
    · simp only [hle, ↓reduceIte, ih]
      constructor
      · rintro ⟨i, hi, h⟩
        refine ⟨i + 1, by simpa using hi, ?_⟩
        simp only [List.take_succ_cons, List.flatMap_cons, List.length_append]
        omega
      · rintro ⟨_ | i, hi, h⟩
        · simp only [List.take_zero, List.flatMap_nil, List.length_nil] at h
          omega
        · refine ⟨i, by simpa using hi, ?_⟩
          simp only [List.take_succ_cons, List.flatMap_cons, List.length_append] at h
          omega
    · simp only [hle, ↓reduceIte]
      by_cases h0 : k = 0
      · simp only [h0, ↓reduceIte, true_iff]
        exact ⟨0, Nat.zero_le _, rfl⟩
      · simp only [h0, ↓reduceIte, reduceCtorEq, false_iff]
        rintro ⟨_ | i, hi, h⟩
        · exact h0 h.symm
        · simp only [List.take_succ_cons, List.flatMap_cons, List.length_append] at h
          omega

end

/-! ### Bytes -/

/-- The last `n` bytes of a number, the most significant first. -/
def toBe : ℕ → ℕ → List UInt8
  | 0, _ => []
  | n + 1, v => toBe n (v / 256) ++ [UInt8.ofNat v]

def ofBe (bs : List UInt8) : ℕ := bs.foldl (fun v b => v * 256 + b.toNat) 0

@[simp] theorem toBe_length : ∀ n v : ℕ, (toBe n v).length = n
  | 0, _ => rfl
  | n + 1, v => by simp [toBe, toBe_length n]

theorem ofBe_toBe : ∀ n v : ℕ, ofBe (toBe n v) = v % 256 ^ n
  | 0, v => by simp [toBe, ofBe, Nat.mod_one]
  | n + 1, v => by
    have ih := ofBe_toBe n (v / 256)
    have hv : (UInt8.ofNat v).toNat = v % 256 := by simp [UInt8.toNat_ofNat']
    unfold ofBe at ih ⊢
    rw [toBe, List.foldl_append, ih, List.foldl_cons, List.foldl_nil, hv, Nat.pow_succ',
      Nat.mod_mul, Nat.add_comm, Nat.mul_comm]

theorem toBe_ofBe : ∀ {n : ℕ} {bs : List UInt8}, bs.length = n → toBe n (ofBe bs) = bs
  | 0, bs, h => by rw [List.length_eq_zero_iff.mp h]; rfl
  | n + 1, bs, h => by
    obtain ⟨front, b, rfl⟩ : ∃ front b, bs = front ++ [b] :=
      ⟨bs.dropLast, bs.getLast (by rintro rfl; simp at h), (List.dropLast_append_getLast _).symm⟩
    have hlen : front.length = n := by simpa using h
    have hb : b.toNat < 256 := b.toNat_lt
    have hv : ofBe (front ++ [b]) = ofBe front * 256 + b.toNat := by
      rw [ofBe, List.foldl_append]
      rfl
    have hdiv : (ofBe front * 256 + b.toNat) / 256 = ofBe front := by omega
    have hlow : UInt8.ofNat (ofBe front * 256 + b.toNat) = b := by
      apply UInt8.toNat_inj.mp
      rw [UInt8.toNat_ofNat']
      omega
    rw [toBe, hv, hdiv, hlow, toBe_ofBe hlen]

theorem ofBe_lt : ∀ bs : List UInt8, ofBe bs < 256 ^ bs.length := by
  intro bs
  have h := ofBe_toBe bs.length (ofBe bs)
  rw [toBe_ofBe rfl] at h
  rw [h]
  exact Nat.mod_lt _ (Nat.pow_pos (by omega))

/-- The first bytes are the number without its last ones. -/
theorem take_toBe : ∀ (n k v : ℕ), (toBe (n + k) v).take n = toBe n (v / 256 ^ k)
  | n, 0, v => by rw [Nat.add_zero, List.take_of_length_le (by rw [toBe_length]), Nat.pow_zero, Nat.div_one]
  | n, k + 1, v => by
    have ih := take_toBe n k (v / 256)
    rw [← Nat.add_assoc, toBe, List.take_append_of_le_length (by rw [toBe_length]; omega), ih,
      Nat.div_div_eq_div_mul, ← Nat.pow_succ']

variable {E A : Type}

/-- A number of `n` bytes, the most significant first. -/
def readBe (short : E) (n : ℕ) : Reader UInt8 E ℕ := do
  let bs ← readSlice short n
  return ofBe bs

theorem frames_readBe (short : E) (n v : ℕ) :
    Frames (readBe short n) (toBe n v) (v % 256 ^ n) := by
  have h := frames_readSlice short (toBe n v)
  rw [toBe_length] at h
  have := h.map ofBe
  rwa [ofBe_toBe] at this

/-- The UTF-8 bytes of a string. -/
def utf8 (s : String) : List UInt8 := s.toByteArray.data.toList

/-- `String::from_utf8(bytes).ok()`. -/
def fromUtf8 (bs : List UInt8) : Option String := String.fromUTF8? ⟨bs.toArray⟩

@[simp] theorem fromUtf8_utf8 (s : String) : fromUtf8 (utf8 s) = some s := by
  have : (⟨(utf8 s).toArray⟩ : ByteArray) = s.toByteArray := by simp [utf8]
  rw [fromUtf8, this, String.fromUTF8?, dif_pos s.isValidUTF8]
  rfl

theorem utf8_of_fromUtf8 {bs : List UInt8} {s : String} (h : fromUtf8 bs = some s) : utf8 s = bs := by
  unfold fromUtf8 String.fromUTF8? at h
  split_ifs at h with hvalid
  obtain rfl := Option.some.inj h
  rfl

theorem utf8_eq_nil_iff (s : String) : utf8 s = [] ↔ s = "" := by
  constructor
  · intro h
    have : fromUtf8 (utf8 s) = fromUtf8 (utf8 "") := by rw [h]; rfl
    simpa using this
  · rintro rfl
    rfl

end Lib
end SmartDns
