/-
# Buffers that are written back into

A writer puts one item behind the other, leaves places free whose content it does not
know yet and fills them in later, takes back what does not fit, and lets an item point
back at what stands before it. A reader looks at any position of the whole buffer.

`Agrees H n d b` says that the buffer `d` has what `b` has at every position below `n`
but for the open places `H`. A `Medium` is a kind of writer with its invariant: what it
relies on when it points back must hold whatever is put into the open places.
`Sends M w r v` says that what `w` writes is read back as `v` by `r`, off every buffer
that agrees with what was written, so whatever is written afterwards. Writers compose
along their steps (`Sends.bind`), around a place that is left free and filled in when
its content is known (`Sends.patched`), and over lists that are cut off where the buffer
is full (`sendMany_reads`), and not before (`filled_of_sendMany`).

`Yields r P` says that every value `r` reads has `P`, whatever stands in the buffer.

Key definitions: `Scan`, `Moves`, `Yields`, `Takes`, `Agrees`, `Medium`, `Sends`, `Puts`, `Opens`, `Fills`,
`sendMany`.
Key theorems: `Sends.bind`, `Puts.scanned`, `Sends.patched`, `sendMany_reads`.
-/
import SmartDns.Lib.Reader

namespace SmartDns
namespace Lib

variable {S B E E' A A' V V' : Type}

/-- A reader that may look anywhere: the whole buffer and the position. -/
abbrev Scan (B E A : Type) := ReaderT (List B) (StateT ℕ (Except E)) A

theorem Scan.bind_of_ok {r : Scan B E A} {f : A → Scan B E A'} {d : List B} {i j : ℕ} {a : A}
    (h : r d i = .ok (a, j)) : (r >>= f) d i = f a d j := by
  have run : (r >>= f) d i = (r d i).bind fun p => f p.1 d p.2 := rfl
  rw [run, h]
  rfl

theorem Scan.bind_ok {r : Scan B E A} {f : A → Scan B E A'} {d : List B} {i j k : ℕ} {a : A} {a' : A'}
    (h : r d i = .ok (a, j)) (h' : f a d j = .ok (a', k)) : (r >>= f) d i = .ok (a', k) :=
  (Scan.bind_of_ok h).trans h'

theorem Scan.bind_eq_ok_iff {r : Scan B E A} {f : A → Scan B E A'} {d : List B} {i k : ℕ} {a' : A'} :
    (r >>= f) d i = .ok (a', k) ↔ ∃ a j, r d i = .ok (a, j) ∧ f a d j = .ok (a', k) := by
  have run : (r >>= f) d i = (r d i).bind fun p => f p.1 d p.2 := rfl
  constructor
  · rw [run]
    cases h : r d i with
    | error e => intro h; cases h
    | ok p => intro h'; exact ⟨p.1, p.2, rfl, h'⟩
  · rintro ⟨a, j, h, h'⟩
    exact Scan.bind_ok h h'

/-- A reader of what is left of the input, at a position. -/
def ofReader (r : Reader B E A) : Scan B E A := fun d i =>
  (r (d.drop i)).map fun p => (p.1, i + ((d.drop i).length - p.2.length))

theorem ofReader_eq_ok {r : Reader B E A} {d rest : List B} {i : ℕ} {a : A}
    (h : r (d.drop i) = .ok (a, rest)) :
    ofReader r d i = .ok (a, i + ((d.drop i).length - rest.length)) := by
  unfold ofReader
  rw [h]
  rfl

/-- The reader `n` times. -/
def scanMany (r : Scan B E A) : ℕ → Scan B E (List A)
  | 0 => pure []
  | n + 1 => do
    let a ← r
    let as ← scanMany r n
    return a :: as

/-- A loop that goes on as long as it stands before `last`, for a number of rounds. -/
def scanUntil (step : V → Scan B E V) (last : ℕ) : ℕ → V → Scan B E V
  | 0, st => pure st
  | n + 1, st => fun d i => if i < last then (step st >>= scanUntil step last n) d i else .ok (st, i)

/-- One value after the other until `last`. -/
def scanAll (r : Scan B E V) (last rounds : ℕ) : Scan B E (List V) :=
  scanUntil (fun vs => do
    let v ← r
    return vs ++ [v]) last rounds []

theorem scanUntil_of_le {step : V → Scan B E V} {last : ℕ} (n : ℕ) (st : V) {d : List B} {i : ℕ} (h : last ≤ i) :
    scanUntil step last n st d i = .ok (st, i) := by
  cases n with
  | zero => rfl
  | succ n => exact if_neg (Nat.not_lt.mpr h)

theorem scanUntil_of_lt {step : V → Scan B E V} {last n : ℕ} {st st' : V} {d : List B} {i i' : ℕ} (h : i < last)
    (hstep : step st d i = .ok (st', i')) :
    scanUntil step last (n + 1) st d i = scanUntil step last n st' d i' := by
  show (if i < last then (step st >>= scanUntil step last n) d i else .ok (st, i)) = _
  rw [if_pos h, Scan.bind_of_ok hstep]

/-- The reader goes on by at least `k`. -/
structure Moves (r : Scan B E A) (k : ℕ) : Prop where
  moves : ∀ {d i a j}, r d i = .ok (a, j) → i + k ≤ j

theorem Moves.pure (a : A) : Moves (pure a : Scan B E A) 0 where
  moves h := by
    cases h
    exact le_refl _

theorem Moves.bind {r : Scan B E A} {f : A → Scan B E A'} {k k' : ℕ} (h : Moves r k) (h' : ∀ a, Moves (f a) k') :
    Moves (r >>= f) (k + k') where
  moves hr := by
    obtain ⟨a, j, hr, hf⟩ := Scan.bind_eq_ok_iff.mp hr
    have := h.moves hr
    have := (h' a).moves hf
    omega

theorem Moves.mono {r : Scan B E A} {k k' : ℕ} (h : Moves r k) (hk : k' ≤ k) : Moves r k' where
  moves hr := by
    have := h.moves hr
    omega

theorem Moves.throw (e : E) (k : ℕ) : Moves (throw e : Scan B E A) k where
  moves h := by cases h

/-- The first reader goes on, and the rest does not go back. -/
theorem Moves.first {r : Scan B E A} {f : A → Scan B E A'} {k : ℕ} (h : Moves r k) (h' : ∀ a, Moves (f a) 0) :
    Moves (r >>= f) k := h.bind h'

theorem Moves.zero {r : Scan B E A} {k : ℕ} (h : Moves r k) : Moves r 0 := h.mono (Nat.zero_le k)

theorem Moves.get : Moves (get : Scan B E ℕ) 0 where
  moves h := by
    cases h
    exact le_refl _

theorem Moves.ite {p : Prop} [Decidable p] {r r' : Scan B E A} {k : ℕ} (h : Moves r k) (h' : Moves r' k) :
    Moves (if p then r else r') k := by
  split_ifs
  · exact h
  · exact h'

theorem moves_ofReader (r : Reader B E A) : Moves (ofReader r) 0 where
  moves {d i a j} h := by
    unfold ofReader at h
    cases hr : r (d.drop i) with
    | error e =>
      rw [hr] at h
      cases h
    | ok p =>
      rw [hr] at h
      cases h
      exact Nat.le_add_right _ _

theorem moves_scanUntil {step : V → Scan B E V} (h : ∀ st, Moves (step st) 0) (last : ℕ) :
    ∀ (n : ℕ) (st : V), Moves (scanUntil step last n st) 0
  | 0, st => .pure st
  | n + 1, st => ⟨fun {d i a j} hr => by
    unfold scanUntil at hr
    split_ifs at hr
    · exact ((h st).first (moves_scanUntil h last n)).moves hr
    · cases hr
      exact le_refl _⟩

/-- As many values as were read, as many steps the reader has gone on. -/
theorem scanMany_moves {r : Scan B E A} (h : Moves r 1) : ∀ {n : ℕ} {d : List B} {i j : ℕ} {as : List A},
    scanMany r n d i = .ok (as, j) → i + n ≤ j ∧ as.length = n
  | 0, d, i, j, as, hr => by
    cases hr
    exact ⟨le_refl _, rfl⟩
  | n + 1, d, i, j, as, hr => by
    obtain ⟨a, k, ha, hr⟩ := Scan.bind_eq_ok_iff.mp hr
    obtain ⟨as', k', has, hr⟩ := Scan.bind_eq_ok_iff.mp hr
    cases hr
    obtain ⟨hmove, hlen⟩ := scanMany_moves h has
    have := h.moves ha
    exact ⟨by omega, congrArg Nat.succ hlen⟩

/-! ### What readers give -/

/-- Every value that is read is such. -/
structure Yields (r : Scan B E A) (P : A → Prop) : Prop where
  yields : ∀ {d i a j}, r d i = .ok (a, j) → P a

namespace Yields

theorem any (r : Scan B E A) : Yields r fun _ => True := ⟨fun _ => trivial⟩

theorem pure {P : A → Prop} {a : A} (h : P a) : Yields (pure a : Scan B E A) P where
  yields hr := by
    cases hr
    exact h

theorem throw (e : E) (P : A → Prop) : Yields (throw e : Scan B E A) P where
  yields hr := by cases hr

theorem bind {r : Scan B E A} {f : A → Scan B E A'} {P : A → Prop} {Q : A' → Prop} (h : Yields r P)
    (h' : ∀ a, P a → Yields (f a) Q) : Yields (r >>= f) Q where
  yields hr := by
    obtain ⟨a, j, hr, hf⟩ := Scan.bind_eq_ok_iff.mp hr
    exact (h' a (h.yields hr)).yields hf

/-- Whatever was read before. -/
theorem next {r : Scan B E A} {f : A → Scan B E A'} {Q : A' → Prop} (h : ∀ a, Yields (f a) Q) : Yields (r >>= f) Q :=
  (any r).bind fun a _ => h a

theorem mono {r : Scan B E A} {P Q : A → Prop} (h : Yields r P) (h' : ∀ a, P a → Q a) : Yields r Q where
  yields hr := h' _ (h.yields hr)

theorem ite {p : Prop} [Decidable p] {r r' : Scan B E A} {P : A → Prop} (h : p → Yields r P)
    (h' : ¬ p → Yields r' P) : Yields (if p then r else r') P := by
  split_ifs with hp
  · exact h hp
  · exact h' hp

theorem many {r : Scan B E A} {P : A → Prop} (h : Yields r P) :
    ∀ n, Yields (scanMany r n) fun as => as.length = n ∧ ∀ a ∈ as, P a
  | 0 => .pure ⟨rfl, fun _ ha => absurd ha List.not_mem_nil⟩
  | n + 1 => h.bind fun _ ha => (h.many n).bind fun _ has =>
    .pure ⟨congrArg Nat.succ has.1, List.forall_mem_cons.mpr ⟨ha, has.2⟩⟩

/-- What every round keeps. -/
theorem loop {step : V → Scan B E V} {P : V → Prop} (h : ∀ st, P st → Yields (step st) P) (last : ℕ) :
    ∀ (n : ℕ) (st : V), P st → Yields (scanUntil step last n st) P
  | 0, _, hst => .pure hst
  | n + 1, st, hst => ⟨fun {d i a j} hr => by
    unfold scanUntil at hr
    split_ifs at hr
    · exact ((h st hst).bind fun st' hst' => loop h last n st' hst').yields hr
    · cases hr
      exact hst⟩

theorem all {r : Scan B E V} {P : V → Prop} (h : Yields r P) (last rounds : ℕ) :
    Yields (scanAll r last rounds) fun vs => ∀ v ∈ vs, P v := by
  refine loop (fun vs hvs => h.bind fun v hv => .pure fun v' hv' => ?_) last rounds []
    fun _ hv => absurd hv List.not_mem_nil
  rcases List.mem_append.mp hv' with hv' | hv'
  · exact hvs v' hv'
  · rwa [List.mem_singleton.mp hv']

end Yields

/-- Where there is room for one value, one is read. -/
theorem scanAll_ne_nil {r : Scan B E V} {last rounds : ℕ} {d : List B} {i j : ℕ} {vs : List V} (hlast : i < last)
    (hrounds : rounds ≠ 0) (h : scanAll r last rounds d i = .ok (vs, j)) : vs ≠ [] := by
  obtain ⟨n, rfl⟩ := Nat.exists_eq_succ_of_ne_zero hrounds
  have hrun : scanAll r last (n + 1) d i = _ := if_pos hlast
  rw [hrun] at h
  obtain ⟨vs', k, hfirst, hrest⟩ := Scan.bind_eq_ok_iff.mp h
  obtain ⟨v, k', -, hv⟩ := Scan.bind_eq_ok_iff.mp hfirst
  cases hv
  refine (Yields.loop (P := fun vs => vs ≠ []) (fun vs hvs => .next fun v => .pure ?_) last n _ ?_).yields hrest
  · exact fun h => hvs (List.append_eq_nil_iff.mp h).1
  · exact List.cons_ne_nil v []

/-! ### What stands in a buffer -/

/-- The run of elements stands at position `i`. -/
def Stands (d : List B) (i : ℕ) (bs : List B) : Prop := ∀ j < bs.length, d[i + j]? = bs[j]?

theorem stands_self (bs : List B) : Stands bs 0 bs := fun j _ => by rw [Nat.zero_add]

theorem stands_append {d bs bs' : List B} {i : ℕ} :
    Stands d i (bs ++ bs') ↔ Stands d i bs ∧ Stands d (i + bs.length) bs' := by
  constructor
  · intro h
    refine ⟨fun j hj => ?_, fun j hj => ?_⟩
    · rw [h j (by rw [List.length_append]; omega), List.getElem?_append_left hj]
    · have := h (bs.length + j) (by rw [List.length_append]; omega)
      rw [List.getElem?_append_right (Nat.le_add_right _ _), Nat.add_sub_cancel_left] at this
      rw [← this, Nat.add_assoc]
  · rintro ⟨h, h'⟩ j hj
    by_cases hlt : j < bs.length
    · rw [h j hlt, List.getElem?_append_left hlt]
    · rw [List.getElem?_append_right (by omega), ← h' (j - bs.length) (by rw [List.length_append] at hj; omega)]
      congr 1
      omega

/-- Where a run stands, the rest of the buffer begins with it. -/
theorem Stands.drop_eq {d bs : List B} {i : ℕ} (h : Stands d i bs) : d.drop i = bs ++ d.drop (i + bs.length) := by
  apply List.ext_getElem?
  intro j
  rw [List.getElem?_drop]
  by_cases hj : j < bs.length
  · rw [List.getElem?_append_left hj, h j hj]
  · rw [List.getElem?_append_right (by omega), List.getElem?_drop]
    congr 1
    omega

/-- The reader takes `bs` for `v` wherever it stands. -/
structure Takes (r : Scan B E V) (bs : List B) (v : V) : Prop where
  takes : ∀ {d i}, Stands d i bs → r d i = .ok (v, i + bs.length)

theorem Takes.pure (v : V) : Takes (pure v : Scan B E V) [] v := ⟨fun _ => rfl⟩

theorem Takes.bind {r : Scan B E V} {f : V → Scan B E V'} {bs bs' : List B} {v : V} {v' : V'} (h : Takes r bs v)
    (h' : Takes (f v) bs' v') : Takes (r >>= f) (bs ++ bs') v' where
  takes hd := by
    obtain ⟨hbs, hbs'⟩ := stands_append.mp hd
    rw [List.length_append, ← Nat.add_assoc]
    exact Scan.bind_ok (h.takes hbs) (h'.takes hbs')

theorem Takes.map {r : Scan B E V} {bs : List B} {v : V} (h : Takes r bs v) (g : V → V') :
    Takes (r >>= fun v => Pure.pure (g v)) bs (g v) := by
  have := h.bind (f := fun v => Pure.pure (g v)) (.pure (g v))
  rwa [List.append_nil] at this

/-- A reader of what is left of the input that takes `bs` off its front. -/
theorem Takes.ofReader {r : Reader B E V} {bs : List B} {v : V} (hr : ∀ rest, r (bs ++ rest) = .ok (v, rest)) :
    Takes (ofReader r) bs v where
  takes {d i} hd := by
    have hdrop := hd.drop_eq
    have hread : r (d.drop i) = .ok (v, d.drop (i + bs.length)) := by
      rw [hdrop]
      exact hr _
    have hlen := congrArg List.length hdrop
    rw [List.length_append] at hlen
    rw [ofReader_eq_ok hread]
    congr 2
    omega

theorem takes_scanMany {r : Scan B E V} {f : A → List B} {g : A → V} :
    ∀ xs : List A, (∀ x ∈ xs, Takes r (f x) (g x)) → Takes (scanMany r xs.length) (xs.flatMap f) (xs.map g)
  | [], _ => .pure _
  | x :: xs, h =>
    (h x List.mem_cons_self).bind ((takes_scanMany xs fun y hy => h y (List.mem_cons_of_mem _ hy)).map _)

/-- Where values stand up to `last`, they are read, however many rounds there are left. -/
theorem scanUntil_push {r : Scan B E V} {f : A → List B} {g : A → V} {d : List B} {last : ℕ}
    (hpos : ∀ x, 0 < (f x).length) : ∀ (xs : List A) (vs : List V) {i rounds : ℕ}, (∀ x ∈ xs, Takes r (f x) (g x)) →
      Stands d i (xs.flatMap f) → last = i + (xs.flatMap f).length → (xs.flatMap f).length ≤ rounds →
      scanUntil (fun vs => do
        let v ← r
        return vs ++ [v]) last rounds vs d i = .ok (vs ++ xs.map g, last)
  | [], vs, i, rounds, _, _, hlast, _ => by
    rw [hlast, List.map_nil, List.append_nil]
    exact scanUntil_of_le _ _ (le_refl _)
  | x :: xs, vs, i, rounds, h, hd, hlast, hrounds => by
    have := hpos x
    rw [List.flatMap_cons] at hd hlast hrounds
    rw [List.length_append] at hlast hrounds
    obtain ⟨hx, hxs⟩ := stands_append.mp hd
    obtain ⟨more, rfl⟩ : ∃ more, rounds = more + 1 := ⟨rounds - 1, by omega⟩
    have hread : (do
        let v ← r
        return vs ++ [v] : Scan B E (List V)) d i = .ok (vs ++ [g x], i + (f x).length) :=
      Scan.bind_ok ((h x List.mem_cons_self).takes hx) rfl
    rw [scanUntil_of_lt (by omega) hread, scanUntil_push hpos xs _ (fun y hy => h y (List.mem_cons_of_mem _ hy)) hxs
      (by omega) (by omega), List.map_cons, List.append_assoc, List.singleton_append]

theorem takes_scanAll {r : Scan B E V} {f : A → List B} {g : A → V} {xs : List A} (hpos : ∀ x, 0 < (f x).length)
    (h : ∀ x ∈ xs, Takes r (f x) (g x)) {d : List B} {i : ℕ} (hd : Stands d i (xs.flatMap f)) :
    scanAll r (i + (xs.flatMap f).length) (xs.flatMap f).length d i = .ok (xs.map g, i + (xs.flatMap f).length) :=
  scanUntil_push hpos xs [] h hd rfl (le_refl _)

/-! ### Buffers that agree -/

/-- `d` has what `b` has below `n`, but for the open places. -/
def Agrees (H : ℕ → Prop) (n : ℕ) (d b : List B) : Prop := ∀ i < n, ¬ H i → d[i]? = b[i]?

theorem Agrees.refl (H : ℕ → Prop) (n : ℕ) (b : List B) : Agrees H n b b := fun _ _ _ => rfl

/-- `d` put into `b` at position `off`. -/
def overwrite (b : List B) (off : ℕ) (d : List B) : List B := b.take off ++ d ++ b.drop (off + d.length)

theorem getElem?_overwrite_of_lt {b d : List B} {off i : ℕ} (hoff : off ≤ b.length) (h : i < off) :
    (overwrite b off d)[i]? = b[i]? := by
  unfold overwrite
  rw [List.append_assoc, List.getElem?_append_left (by rw [List.length_take]; omega), List.getElem?_take_of_lt h]

theorem getElem?_overwrite_add {b d : List B} {off i : ℕ} (hoff : off ≤ b.length) (h : i < d.length) :
    (overwrite b off d)[off + i]? = d[i]? := by
  have htake : (b.take off).length = off := by rw [List.length_take]; omega
  unfold overwrite
  rw [List.append_assoc, List.getElem?_append_right (by omega), htake, Nat.add_sub_cancel_left,
    List.getElem?_append_left h]

theorem getElem?_overwrite_of_le {b d : List B} {off i : ℕ} (hoff : off ≤ b.length) (h : off + d.length ≤ i) :
    (overwrite b off d)[i]? = b[i]? := by
  have htake : (b.take off).length = off := by rw [List.length_take]; omega
  unfold overwrite
  rw [List.getElem?_append_right (by rw [List.length_append, htake]; omega), List.getElem?_drop]
  congr 1
  rw [List.length_append, htake]
  omega

theorem length_overwrite {b d : List B} {off : ℕ} (hoff : off ≤ b.length) :
    (overwrite b off d).length = max b.length (off + d.length) := by
  unfold overwrite
  rw [List.length_append, List.length_append, List.length_take, List.length_drop]
  omega

/-- Two runs put in one behind the other are one run. -/
theorem overwrite_overwrite {b d d' : List B} {off : ℕ} (hoff : off ≤ b.length) :
    overwrite (overwrite b off d) (off + d.length) d' = overwrite b off (d ++ d') := by
  have hlen : off + d.length ≤ (overwrite b off d).length := by
    rw [length_overwrite hoff]
    exact le_max_right _ _
  apply List.ext_getElem?
  intro i
  by_cases h₁ : i < off
  · rw [getElem?_overwrite_of_lt hlen (by omega), getElem?_overwrite_of_lt hoff h₁, getElem?_overwrite_of_lt hoff h₁]
  obtain ⟨j, rfl⟩ := Nat.exists_eq_add_of_le (Nat.not_lt.mp h₁)
  by_cases h₂ : j < d.length
  · rw [getElem?_overwrite_of_lt hlen (by omega), getElem?_overwrite_add hoff h₂,
      getElem?_overwrite_add hoff (by rw [List.length_append]; omega), List.getElem?_append_left h₂]
  obtain ⟨k, rfl⟩ := Nat.exists_eq_add_of_le (Nat.not_lt.mp h₂)
  by_cases h₃ : k < d'.length
  · rw [← Nat.add_assoc, getElem?_overwrite_add hlen h₃, Nat.add_assoc,
      getElem?_overwrite_add hoff (by rw [List.length_append]; omega),
      List.getElem?_append_right (Nat.le_add_right _ _), Nat.add_sub_cancel_left]
  · rw [getElem?_overwrite_of_le hlen (by omega), getElem?_overwrite_of_le hoff (by omega),
      getElem?_overwrite_of_le hoff (by rw [List.length_append]; omega)]

/-! ### Writers -/

/-- The state after a step, whether it succeeded or not. -/
def stateOf : EStateM.Result E S A → S
  | .ok _ s => s
  | .error _ s => s

theorem get_bind (f : S → EStateM E S A') (s : S) : (get >>= f : EStateM E S A') s = f s s := rfl

theorem write_bind_eq_ok_iff {w : EStateM E S A} {f : A → EStateM E S A'} {s s' : S} {a' : A'} :
    (w >>= f) s = .ok a' s' ↔ ∃ a s₁, w s = .ok a s₁ ∧ f a s₁ = .ok a' s' := by
  have run : (w >>= f) s = EStateM.bind w f s := rfl
  rw [run, EStateM.bind]
  cases w s with
  | ok a s₁ => simp
  | error e s₁ => simp

theorem write_bind_eq_error_iff {w : EStateM E S A} {f : A → EStateM E S A'} {s s' : S} {e : E} :
    (w >>= f) s = .error e s' ↔ w s = .error e s' ∨ ∃ a s₁, w s = .ok a s₁ ∧ f a s₁ = .error e s' := by
  have run : (w >>= f) s = EStateM.bind w f s := rfl
  rw [run, EStateM.bind]
  cases w s with
  | ok a s₁ => simp
  | error e s₁ => simp

theorem stateOf_bind (w : EStateM E S A) (f : A → EStateM E S A') (s : S) :
    stateOf ((w >>= f) s) = stateOf (w s) ∨ ∃ a s₁, w s = .ok a s₁ ∧ stateOf ((w >>= f) s) = stateOf (f a s₁) := by
  have run : (w >>= f) s = EStateM.bind w f s := rfl
  rw [run, EStateM.bind]
  cases w s with
  | ok a s₁ => exact .inr ⟨a, s₁, rfl, rfl⟩
  | error e s₁ => exact .inl rfl

/-- A kind of writer: its buffer, where it writes next, the invariant it keeps whatever is put into
the open places, and what a step that may have failed leaves as it was. -/
structure Medium (S B : Type) where
  buffer : S → List B
  offset : S → ℕ
  Coherent : (ℕ → Prop) → S → Prop
  Kept : S → S → Prop
  kept_refl : ∀ s, Kept s s
  kept_trans : ∀ {s s' s''}, Kept s s' → Kept s' s'' → Kept s s''
  open_lt : ∀ {H s i}, Coherent H s → H i → i < offset s
  offset_le : ∀ {H s s'}, Coherent H s → Kept s s' → offset s ≤ offset s'
  buffer_eq : ∀ {H s s'}, Coherent H s → Kept s s' → ∀ i < offset s, (buffer s')[i]? = (buffer s)[i]?

variable (M : Medium S B)

/-- The step keeps what stands, and the invariant where it succeeds. -/
structure Safe (w : EStateM E S A) : Prop where
  kept : ∀ {H s}, M.Coherent H s → M.Kept s (stateOf (w s))
  coherent : ∀ {H s s' a}, M.Coherent H s → w s = .ok a s' → M.Coherent H s'

/-- What the step writes is read as `v`, whatever is written afterwards. The reader may know how much
was written. -/
structure Sends (w : EStateM E S A) (r : ℕ → Scan B E' V) (v : V) : Prop extends Safe M w where
  reads : ∀ {H s s' a d}, M.Coherent H s → w s = .ok a s' → Agrees H (M.offset s') d (M.buffer s') →
    r (M.offset s' - M.offset s) d (M.offset s) = .ok (v, M.offset s')

/-- The step writes just these elements. -/
structure Puts (w : EStateM E S A) (bs : List B) : Prop extends Safe M w where
  offset_eq : ∀ {H s s' a}, M.Coherent H s → w s = .ok a s' → M.offset s' = M.offset s + bs.length
  bytes : ∀ {H s s' a}, M.Coherent H s → w s = .ok a s' →
    ∀ j < bs.length, (M.buffer s')[M.offset s + j]? = bs[j]?

variable {M}

theorem Safe.kept_of_ok {w : EStateM E S A} (h : Safe M w) {H : ℕ → Prop} {s s' : S} {a : A}
    (hco : M.Coherent H s) (hw : w s = .ok a s') : M.Kept s s' := by
  have := h.kept hco
  rwa [hw] at this

theorem Safe.pure (a : A) : Safe M (pure a : EStateM E S A) where
  kept _ := M.kept_refl _
  coherent hco hw := by
    cases hw
    exact hco

theorem Safe.throw (e : E) : Safe M (throw e : EStateM E S A) where
  kept _ := M.kept_refl _
  coherent _ hw := by cases hw

theorem Safe.bind {w : EStateM E S A} {f : A → EStateM E S A'} (h : Safe M w) (h' : ∀ a, Safe M (f a)) :
    Safe M (w >>= f) where
  kept {H s} hco := by
    rcases stateOf_bind w f s with heq | ⟨a, s₁, hw, heq⟩
    · rw [heq]
      exact h.kept hco
    · rw [heq]
      exact M.kept_trans (h.kept_of_ok hco hw) ((h' a).kept (h.coherent hco hw))
  coherent hco hw := by
    obtain ⟨a, s₁, hw, hf⟩ := write_bind_eq_ok_iff.mp hw
    exact (h' a).coherent (h.coherent hco hw) hf

/-- What agrees with the buffer after a later step agrees with the buffer before it. -/
theorem Medium.agrees_of_kept {H : ℕ → Prop} {s s' : S} {d : List B} (hco : M.Coherent H s) (hk : M.Kept s s')
    (h : Agrees H (M.offset s') d (M.buffer s')) : Agrees H (M.offset s) d (M.buffer s) := fun i hi hopen =>
  (h i (Nat.lt_of_lt_of_le hi (M.offset_le hco hk)) hopen).trans (M.buffer_eq hco hk i hi)

/-- One item behind the other. -/
theorem Sends.bind {w : EStateM E S A} {f : A → EStateM E S A'} {r : Scan B E' V} {g : V → Scan B E' V'} {v : V}
    {v' : V'} (h : Sends M w (fun _ => r) v) (h' : ∀ a, Sends M (f a) (fun _ => g v) v') :
    Sends M (w >>= f) (fun _ => r >>= g) v' where
  toSafe := h.toSafe.bind fun a => (h' a).toSafe
  reads hco hw hd := by
    obtain ⟨a, s₁, hw, hf⟩ := write_bind_eq_ok_iff.mp hw
    have hco₁ := h.coherent hco hw
    have hd₁ := M.agrees_of_kept hco₁ ((h' a).kept_of_ok hco₁ hf) hd
    exact Scan.bind_ok (h.reads hco hw hd₁) ((h' a).reads hco₁ hf hd)

theorem Sends.map {w : EStateM E S A} {r : ℕ → Scan B E' V} {v : V} (h : Sends M w r v) (g : V → V') :
    Sends M w (fun n => r n >>= fun v => Pure.pure (g v)) (g v) where
  toSafe := h.toSafe
  reads hco hw hd := Scan.bind_ok (h.reads hco hw hd) rfl

theorem Puts.pure (a : A) : Puts M (pure a : EStateM E S A) [] where
  toSafe := .pure a
  offset_eq _ hw := by
    cases hw
    rfl
  bytes _ _ j hj := absurd hj (Nat.not_lt_zero j)

theorem Puts.bind {w : EStateM E S A} {f : A → EStateM E S A'} {bs bs' : List B} (h : Puts M w bs)
    (h' : ∀ a, Puts M (f a) bs') : Puts M (w >>= f) (bs ++ bs') where
  toSafe := h.toSafe.bind fun a => (h' a).toSafe
  offset_eq hco hw := by
    obtain ⟨a, s₁, hw, hf⟩ := write_bind_eq_ok_iff.mp hw
    rw [(h' a).offset_eq (h.coherent hco hw) hf, h.offset_eq hco hw, List.length_append, Nat.add_assoc]
  bytes hco hw j hj := by
    obtain ⟨a, s₁, hw, hf⟩ := write_bind_eq_ok_iff.mp hw
    have hoff := h.offset_eq hco hw
    have hco₁ := h.coherent hco hw
    by_cases hlt : j < bs.length
    · rw [M.buffer_eq hco₁ ((h' a).kept_of_ok hco₁ hf) _ (by omega), h.bytes hco hw j hlt,
        List.getElem?_append_left hlt]
    · have := (h' a).bytes hco₁ hf (j - bs.length) (by rw [List.length_append] at hj; omega)
      rw [List.getElem?_append_right (by omega), ← this]
      congr 1
      omega

theorem Sends.throw (e : E) (r : ℕ → Scan B E' V) (v : V) : Sends M (throw e : EStateM E S A) r v where
  toSafe := .throw e
  reads _ hw := by cases hw

theorem Puts.throw (e : E) (bs : List B) : Puts M (throw e : EStateM E S A) bs where
  toSafe := .throw e
  offset_eq _ hw := by cases hw
  bytes _ hw := by cases hw

/-- What was written stands in every buffer that agrees with it. -/
theorem Puts.stands {w : EStateM E S A} {bs : List B} (h : Puts M w bs) {H : ℕ → Prop} {s s' : S} {a : A} {d : List B}
    (hco : M.Coherent H s) (hw : w s = .ok a s') (hd : Agrees H (M.offset s') d (M.buffer s')) :
    Stands d (M.offset s) bs := by
  intro j hj
  have hoff := h.offset_eq hco hw
  have hclosed : ¬ H (M.offset s + j) := fun hopen => by
    have := M.open_lt hco hopen
    omega
  rw [hd _ (by omega) hclosed, h.bytes hco hw j hj]

/-- Where just `bs` is written, a reader that takes `bs` for `v` reads `v`. -/
theorem Puts.scanned {w : EStateM E S A} {bs : List B} {r : ℕ → Scan B E' V} {v : V} (h : Puts M w bs)
    (hr : Takes (r bs.length) bs v) : Sends M w r v where
  toSafe := h.toSafe
  reads hco hw hd := by
    rw [h.offset_eq hco hw, Nat.add_sub_cancel_left]
    exact hr.takes (h.stands hco hw hd)

/-- The same for each item of a list. -/
theorem Puts.forM {w : A → EStateM E S PUnit} {f : A → List B} (h : ∀ x, Puts M (w x) (f x)) :
    ∀ xs : List A, Puts M (xs.forM w) (xs.flatMap f)
  | [] => .pure _
  | x :: xs => (h x).bind fun _ => Puts.forM h xs

theorem forM_eq_ok {w : A → EStateM E S PUnit} : ∀ {xs : List A} {s s' : S} {u : PUnit}, xs.forM w s = .ok u s' →
    ∀ x ∈ xs, ∃ s₁ s₂ u, w x s₁ = .ok u s₂
  | [], _, _, _, _, x, hx => absurd hx List.not_mem_nil
  | y :: ys, s, s', u, h, x, hx => by
    obtain ⟨v, s₁, hy, hys⟩ := write_bind_eq_ok_iff.mp h
    rcases List.mem_cons.mp hx with rfl | hx
    · exact ⟨_, _, _, hy⟩
    · exact forM_eq_ok hys x hx

/-! ### Places that are filled in later -/

/-- The place of `n` elements from `p`. -/
def Place (p n i : ℕ) : Prop := p ≤ i ∧ i < p + n

variable (M)

theorem getElem?_overwrite_of_not_place {b d : List B} {off i : ℕ} (hoff : off ≤ b.length)
    (h : ¬ Place off d.length i) : (overwrite b off d)[i]? = b[i]? := by
  unfold Place at h
  by_cases hlt : i < off
  · exact getElem?_overwrite_of_lt hoff hlt
  · exact getElem?_overwrite_of_le hoff (by omega)

/-- The step leaves a place of `n` elements free and returns where it begins. -/
structure Opens (w : EStateM E S ℕ) (n : ℕ) : Prop where
  kept : ∀ {H s}, M.Coherent H s → M.Kept s (stateOf (w s))
  position : ∀ {H s s' p}, M.Coherent H s → w s = .ok p s' → p = M.offset s ∧ M.offset s' = p + n
  coherent : ∀ {H s s' p}, M.Coherent H s → w s = .ok p s' → M.Coherent (fun i => H i ∨ Place p n i) s'

/-- The step puts `bs` into the place that begins at `p`. -/
structure Fills (w : EStateM E S A) (p : ℕ) (bs : List B) : Prop where
  kept : ∀ {H s₀ s}, M.Coherent H s₀ → M.Kept s₀ s → M.offset s₀ ≤ p → p + bs.length ≤ M.offset s →
    M.Kept s₀ (stateOf (w s))
  offset_eq : ∀ {H s s' a}, M.Coherent H s → p + bs.length ≤ M.offset s → w s = .ok a s' → M.offset s' = M.offset s
  coherent : ∀ {H s s' a}, M.Coherent (fun i => H i ∨ Place p bs.length i) s → p + bs.length ≤ M.offset s →
    (∀ i, H i → ¬ Place p bs.length i) → w s = .ok a s' → M.Coherent H s'
  bytes : ∀ {H s s' a}, M.Coherent H s → p + bs.length ≤ M.offset s → w s = .ok a s' →
    ∀ j < bs.length, (M.buffer s')[p + j]? = bs[j]?
  buffer_eq : ∀ {H s s' a}, M.Coherent H s → p + bs.length ≤ M.offset s → w s = .ok a s' →
    ∀ i, ¬ Place p bs.length i → (M.buffer s')[i]? = (M.buffer s)[i]?

variable {M}

theorem Opens.kept_of_ok {w : EStateM E S ℕ} {n : ℕ} (h : Opens M w n) {H : ℕ → Prop} {s s' : S} {p : ℕ}
    (hco : M.Coherent H s) (hw : w s = .ok p s') : M.Kept s s' := by
  have := h.kept hco
  rwa [hw] at this

/-- What agrees with the buffer when the place is filled agrees with it but for the place before. -/
theorem Fills.agrees {w : EStateM E S A} {p : ℕ} {bs : List B} (h : Fills M w p bs) {H H' : ℕ → Prop} {s s' : S}
    {a : A} {d : List B} (hco : M.Coherent H' s) (hp : p + bs.length ≤ M.offset s) (hw : w s = .ok a s')
    (hd : Agrees H (M.offset s') d (M.buffer s')) :
    Agrees (fun i => H i ∨ Place p bs.length i) (M.offset s) d (M.buffer s) := by
  intro i hi hopen
  rw [not_or] at hopen
  rw [hd i (by rw [h.offset_eq hco hp hw]; exact hi) hopen.1, h.buffer_eq hco hp hw i hopen.2]

/-- And it has the content of the place there. -/
theorem Fills.stands {w : EStateM E S A} {p : ℕ} {bs : List B} (h : Fills M w p bs) {H H' : ℕ → Prop} {s s' : S}
    {a : A} {d : List B} (hco : M.Coherent H' s) (hp : p + bs.length ≤ M.offset s) (hw : w s = .ok a s')
    (hH : ∀ i, H i → ¬ Place p bs.length i) (hd : Agrees H (M.offset s') d (M.buffer s')) :
    Stands d p bs := by
  intro j hj
  rw [hd (p + j) (by rw [h.offset_eq hco hp hw]; omega) fun hopen => hH _ hopen ⟨by omega, by omega⟩]
  exact h.bytes hco hp hw j hj

/-- Leaves a place of `n` elements, writes the body and fills the place in with how much that was. -/
def patched (M : Medium S B) (place : EStateM E S ℕ) (n : ℕ) (body : EStateM E S A)
    (fill : ℕ → ℕ → EStateM E S Unit) : EStateM E S Unit := do
  let p ← place
  let _ ← body
  let s ← get
  fill p (M.offset s - p - n)

section

variable {place : EStateM E S ℕ} {n : ℕ} {body : EStateM E S A} {fill : ℕ → ℕ → EStateM E S Unit}
  {bytes : ℕ → List B}

theorem patched_eq_ok {s s' : S} {u : Unit} (h : patched M place n body fill s = .ok u s') :
    ∃ p s₁ a s₂, place s = .ok p s₁ ∧ body s₁ = .ok a s₂ ∧ fill p (M.offset s₂ - p - n) s₂ = .ok u s' := by
  obtain ⟨p, s₁, hp, h⟩ := write_bind_eq_ok_iff.mp h
  obtain ⟨a, s₂, hb, h⟩ := write_bind_eq_ok_iff.mp h
  obtain ⟨_, s₃, hget, h⟩ := write_bind_eq_ok_iff.mp h
  cases hget
  exact ⟨p, s₁, a, s₂, hp, hb, h⟩

theorem Safe.patched (hplace : Opens M place n) (hbody : Safe M body) (hlen : ∀ k, (bytes k).length = n)
    (hfill : ∀ p k, Fills M (fill p k) p (bytes k)) : Safe M (patched M place n body fill) where
  kept {H s} hco := by
    unfold Lib.patched
    rcases stateOf_bind place _ s with heq | ⟨p, s₁, hp, heq⟩
    · rw [heq]
      exact hplace.kept hco
    · have hk₁ := hplace.kept_of_ok hco hp
      have hco₁ := hplace.coherent hco hp
      obtain ⟨rfl, hoff₁⟩ := hplace.position hco hp
      rw [heq]
      rcases stateOf_bind body _ s₁ with heq | ⟨a, s₂, hb, heq⟩
      · rw [heq]
        exact M.kept_trans hk₁ (hbody.kept hco₁)
      · have hk₂ := hbody.kept_of_ok hco₁ hb
        have hoff₂ := M.offset_le hco₁ hk₂
        rw [heq]
        exact (hfill _ _).kept hco (M.kept_trans hk₁ hk₂) (le_refl _) (by rw [hlen]; omega)
  coherent {H s s' u} hco hw := by
    obtain ⟨p, s₁, a, s₂, hp, hb, hf⟩ := patched_eq_ok hw
    have hco₁ := hplace.coherent hco hp
    obtain ⟨rfl, hoff₁⟩ := hplace.position hco hp
    have hoff₂ := M.offset_le hco₁ (hbody.kept_of_ok hco₁ hb)
    have hco₂ := hbody.coherent hco₁ hb
    refine (hfill _ _).coherent ?_ (by rw [hlen]; omega) ?_ hf
    · rwa [hlen]
    · intro i hi hplace
      have := M.open_lt hco hi
      have := hplace.1
      omega

/-- **A body with its length in front.** The reader takes the length first and then knows it. -/
theorem Sends.patched {rn : Scan B E' ℕ} {r : ℕ → Scan B E' V} {v : V}
    (hplace : Opens M place n) (hbody : Sends M body r v) (hlen : ∀ k, (bytes k).length = n)
    (hfill : ∀ p k, Fills M (fill p k) p (bytes k))
    (hrn : ∀ H s s' a, M.Coherent H s → body s = .ok a s' →
      Takes rn (bytes (M.offset s' - M.offset s)) (M.offset s' - M.offset s)) :
    Sends M (patched M place n body fill) (fun _ => rn >>= r) v where
  toSafe := .patched hplace hbody.toSafe hlen hfill
  reads {H s s' u d} hco hw hd := by
    obtain ⟨p, s₁, a, s₂, hp, hb, hf⟩ := patched_eq_ok hw
    have hco₁ := hplace.coherent hco hp
    obtain ⟨rfl, hoff₁⟩ := hplace.position hco hp
    have hoff₂ := M.offset_le hco₁ (hbody.kept_of_ok hco₁ hb)
    have hco₂ := hbody.coherent hco₁ hb
    have hle : M.offset s + (bytes (M.offset s₂ - M.offset s - n)).length ≤ M.offset s₂ := by
      rw [hlen]
      omega
    have hapart : ∀ i, H i → ¬ Place (M.offset s) (bytes (M.offset s₂ - M.offset s - n)).length i := by
      intro i hi hplace
      have := M.open_lt hco hi
      have := hplace.1
      omega
    have hlength : M.offset s₂ - M.offset s - n = M.offset s₂ - M.offset s₁ := by omega
    -- the length in front
    have hfront := (hfill _ _).stands hco₂ hle hf hapart hd
    rw [hlength] at hfront
    have hscan : rn d (M.offset s) = .ok (M.offset s₂ - M.offset s₁, M.offset s₁) := by
      have := (hrn _ _ _ _ hco₁ hb).takes hfront
      rwa [hlen, ← hoff₁] at this
    -- the body, off what agrees with it but for the place
    have hagrees := (hfill _ _).agrees hco₂ hle hf hd
    rw [hlen] at hagrees
    have hbodyread := hbody.reads hco₁ hb hagrees
    rw [(hfill _ _).offset_eq hco₂ hle hf]
    exact Scan.bind_ok hscan hbodyread

/-- The length and the body, where the body is known. -/
theorem Puts.patched {bs : List B} (hplace : Opens M place n) (hbody : Puts M body bs)
    (hlen : ∀ k, (bytes k).length = n) (hfill : ∀ p k, Fills M (fill p k) p (bytes k)) :
    Puts M (patched M place n body fill) (bytes bs.length ++ bs) where
  toSafe := .patched hplace hbody.toSafe hlen hfill
  offset_eq {H s s' u} hco hw := by
    obtain ⟨p, s₁, a, s₂, hp, hb, hf⟩ := patched_eq_ok hw
    have hco₁ := hplace.coherent hco hp
    obtain ⟨rfl, hoff₁⟩ := hplace.position hco hp
    have hoff₂ := hbody.offset_eq hco₁ hb
    rw [(hfill _ _).offset_eq (hbody.coherent hco₁ hb) (by rw [hlen]; omega) hf, List.length_append, hlen]
    omega
  bytes {H s s' u} hco hw j hj := by
    obtain ⟨p, s₁, a, s₂, hp, hb, hf⟩ := patched_eq_ok hw
    have hco₁ := hplace.coherent hco hp
    obtain ⟨rfl, hoff₁⟩ := hplace.position hco hp
    have hoff₂ := hbody.offset_eq hco₁ hb
    have hco₂ := hbody.coherent hco₁ hb
    have hlength : M.offset s₂ - M.offset s - n = bs.length := by omega
    rw [hlength] at hf
    have hle : M.offset s + (bytes bs.length).length ≤ M.offset s₂ := by
      rw [hlen]
      omega
    by_cases hfront : j < (bytes bs.length).length
    · rw [(hfill _ _).bytes hco₂ hle hf j hfront, List.getElem?_append_left hfront]
    · have hnot : ¬ Place (M.offset s) (bytes bs.length).length (M.offset s + j) := fun hplace => by
        have := hplace.2
        omega
      rw [List.length_append] at hj
      rw [(hfill _ _).buffer_eq hco₂ hle hf _ hnot, List.getElem?_append_right (by omega),
        ← hbody.bytes hco₁ hb (j - (bytes bs.length).length) (by omega)]
      congr 1
      rw [hlen] at hfront ⊢
      omega

end

/-! ### Lists that are cut off where the buffer is full -/

/-- Writes one item after the other. The first for which there is no room left is taken back, and with
it the list ends: the number of items written, and whether there was one too many. -/
def sendMany (full : E → Bool) (back : S → S → S) (w : V → EStateM E S Unit) : List V → EStateM E S (ℕ × Bool)
  | [] => pure (0, false)
  | x :: xs => fun s =>
    match w x s with
    | .ok _ s₁ =>
      match sendMany full back w xs s₁ with
      | .ok (count, cut) s₂ => .ok (count + 1, cut) s₂
      | .error e s₂ => .error e s₂
    | .error e s₁ => if full e then .ok (0, true) (back s s₁) else .error e s₁

/-- The items go in one behind the other from the first state on, so many of them and no more: all, or up to one
for which there is no room behind them. -/
inductive Filled (full : E → Bool) (back : S → S → S) (w : V → EStateM E S Unit) : S → List V → ℕ → S → Prop
  | all (s : S) : Filled full back w s [] 0 s
  | next {x : V} {xs : List V} {n : ℕ} {s s₁ s₂ : S} (here : w x s = .ok () s₁)
      (rest : Filled full back w s₁ xs n s₂) : Filled full back w s (x :: xs) (n + 1) s₂
  | noRoom {x : V} {xs : List V} {s s₁ : S} {e : E} (here : w x s = .error e s₁) (hfull : full e = true) :
      Filled full back w s (x :: xs) 0 (back s s₁)

/-- What can be written is written. -/
theorem filled_of_sendMany {full : E → Bool} {back : S → S → S} {w : V → EStateM E S Unit} :
    ∀ {xs : List V} {s s' : S} {count : ℕ} {cut : Bool}, sendMany full back w xs s = .ok (count, cut) s' →
      Filled full back w s xs count s'
  | [], s, s', count, cut, hw => by
    cases hw
    exact .all s
  | x :: xs, s, s', count, cut, hw => by
    unfold sendMany at hw
    cases hwx : w x s with
    | ok u s₁ =>
      rw [hwx] at hw
      dsimp only at hw
      cases hrest : sendMany full back w xs s₁ with
      | ok p s₂ =>
        rw [hrest] at hw
        cases hw
        exact .next hwx (filled_of_sendMany hrest)
      | error e s₂ =>
        rw [hrest] at hw
        cases hw
    | error e s₁ =>
      rw [hwx] at hw
      dsimp only at hw
      by_cases hfull : full e = true
      · rw [if_pos hfull] at hw
        cases hw
        exact .noRoom hwx hfull
      · rw [if_neg hfull] at hw
        cases hw

/-- Between the two states the items were written. -/
structure Sent (M : Medium S B) (r : Scan B E' V) (H : ℕ → Prop) (s s' : S) (vs : List V) : Prop where
  coherent : M.Coherent H s'
  kept : M.Kept s s'
  reads : ∀ {d}, Agrees H (M.offset s') d (M.buffer s') →
    scanMany r vs.length d (M.offset s) = .ok (vs, M.offset s')

theorem Sent.cons {r : Scan B E' V} {w : EStateM E S A} {H : ℕ → Prop} {s s₁ s₂ : S} {a : A} {v : V} {vs : List V}
    (hco : M.Coherent H s) (h : Sends M w (fun _ => r) v) (hw : w s = .ok a s₁) (h' : Sent M r H s₁ s₂ vs) :
    Sent M r H s s₂ (v :: vs) where
  coherent := h'.coherent
  kept := M.kept_trans (h.kept_of_ok hco hw) h'.kept
  reads hd := by
    have hco₁ := h.coherent hco hw
    have hv := h.reads hco hw (M.agrees_of_kept hco₁ h'.kept hd)
    exact Scan.bind_ok hv (Scan.bind_ok (h'.reads hd) rfl)

/-- **The items written are the first ones, as many as the count says**, and the list was cut just where that
is not all of them. -/
theorem sendMany_reads {full : E → Bool} {back : S → S → S} {w : V → EStateM E S Unit} {r : Scan B E' V'}
    {g : V → V'}
    (hback : ∀ {H s s'}, M.Coherent H s → M.Kept s s' →
      M.Coherent H (back s s') ∧ M.Kept s (back s s') ∧ M.offset (back s s') = M.offset s) :
    ∀ (xs : List V), (∀ x ∈ xs, Sends M (w x) (fun _ => r) (g x)) → ∀ {H s s' count cut}, M.Coherent H s →
      sendMany full back w xs s = .ok (count, cut) s' →
      count ≤ xs.length ∧ cut = decide (count < xs.length) ∧ Sent M r H s s' ((xs.take count).map g)
  | [], _, H, s, s', count, cut, hco, hw => by
    cases hw
    exact ⟨le_refl _, rfl, hco, M.kept_refl s, fun _ => rfl⟩
  | x :: xs, hsends, H, s, s', count, cut, hco, hw => by
    have hx := hsends x List.mem_cons_self
    unfold sendMany at hw
    cases hwx : w x s with
    | ok u s₁ =>
      have hco₁ := hx.coherent hco hwx
      rw [hwx] at hw
      dsimp only at hw
      cases hrest : sendMany full back w xs s₁ with
      | ok p s₂ =>
        rw [hrest] at hw
        cases hw
        obtain ⟨hle, hall, hsent⟩ :=
          sendMany_reads hback xs (fun x h => hsends x (List.mem_cons_of_mem _ h)) hco₁ hrest
        refine ⟨Nat.succ_le_succ hle, hall.trans (by simp), ?_⟩
        rw [List.take_succ_cons, List.map_cons]
        exact .cons hco hx hwx hsent
      | error e s₂ =>
        rw [hrest] at hw
        cases hw
    | error e s₁ =>
      rw [hwx] at hw
      dsimp only at hw
      by_cases hfull : full e = true
      · rw [if_pos hfull] at hw
        cases hw
        have hk : M.Kept s s₁ := by
          have := hx.kept hco
          rwa [hwx] at this
        obtain ⟨hco', hk', hoff⟩ := hback hco hk
        refine ⟨Nat.zero_le _, by simp, hco', hk', fun _ => ?_⟩
        rw [hoff]
        rfl
      · rw [if_neg hfull] at hw
        cases hw

end Lib
end SmartDns
