/-
# Least-recently-used maps

A map of bounded size whose entries stand in the order of their last use, the last
used first. A read for writing (`modify`) and an insert (`put`) move the entry to
the front; an insert under a new key into a full map drops the last entry. A walk
over the map (`mapValues`) moves nothing. As in `KeyMap`, keys are compared by
their own equality, and an entry keeps the key it was first inserted under.

Each operation is described by what a lookup finds afterwards. An insert may lose
any other key, so a lookup after it finds what it found before or nothing
(`get?_put_of_not_beq`); while there is room it loses none (`putAll_entries`).

Key definitions: `Lru`, `Lru.modify`, `Lru.put`, `Lru.pop`, `Lru.mapValues`, `Lru.walk`.
Key theorems: `Lru.get?_modify`, `Lru.get?_put_of_beq`, `Lru.get?_put_of_not_beq`,
`Lru.putAll_entries`.
-/
import SmartDns.Lib.KeyMap

namespace SmartDns
namespace Lib

universe u v

structure Lru (K : Type u) (V : Type v) [BEq K] extends KeyMap K V where
  cap : ℕ
  capPos : 0 < cap
  bounded : entries.length ≤ cap

namespace Lru

variable {K : Type u} {V : Type v} [BEq K]

def new (cap : ℕ) (h : 0 < cap) : Lru K V where
  toKeyMap := KeyMap.empty
  cap
  capPos := h
  bounded := Nat.zero_le _

@[simp] theorem new_cap (cap : ℕ) (h : 0 < cap) : (new cap h : Lru K V).cap = cap := rfl

/-- The entries with `f` applied to the value under `k`, which comes first. -/
def modifyEntries (k : K) (f : V → V) (es : List (K × V)) : List (K × V) :=
  match es.find? (·.1 == k) with
  | some e => (e.1, f e.2) :: es.filter fun e => !(e.1 == k)
  | none => es

def putEntries (cap : ℕ) (k : K) (v : V) (es : List (K × V)) : List (K × V) :=
  match es.find? (·.1 == k) with
  | some e => (e.1, v) :: es.filter fun e => !(e.1 == k)
  | none => (k, v) :: if es.length < cap then es else es.dropLast

theorem length_filter_lt {k : K} {e : K × V} {es : List (K × V)} (h : es.find? (·.1 == k) = some e) :
    (es.filter fun e => !(e.1 == k)).length < es.length := by
  refine List.length_filter_lt_length_iff_exists.mpr ⟨e, List.mem_of_find?_eq_some h, ?_⟩
  have : (e.1 == k) = true := by simpa using List.find?_some h
  simp [this]

theorem beq_of_find? {k : K} {e : K × V} {es : List (K × V)} (h : es.find? (·.1 == k) = some e) :
    (e.1 == k) = true := by simpa using List.find?_some h

variable [EquivBEq K]

theorem distinct_front {k k₀ : K} (h : (k₀ == k) = true) (v : V) {es : List (K × V)}
    (hd : es.Pairwise fun a b => (a.1 == b.1) = false) :
    ((k₀, v) :: es.filter fun e => !(e.1 == k)).Pairwise fun a b => (a.1 == b.1) = false := by
  refine List.pairwise_cons.mpr ⟨fun e he => ?_, hd.filter _⟩
  rw [Bool.eq_false_iff]
  intro hke
  have := (List.mem_filter.mp he).2
  rw [BEq.trans (BEq.symm hke) h] at this
  cases this

theorem not_beq_of_find?_none {k : K} {es : List (K × V)} (h : es.find? (·.1 == k) = none) :
    ∀ e ∈ es, (k == e.1) = false := fun e he => by
  have := List.find?_eq_none.mp h e he
  rw [Bool.eq_false_iff]
  exact fun h' => this (by simpa using BEq.symm h')

/-- `get_mut` and a write through it. -/
def modify (c : Lru K V) (k : K) (f : V → V) : Lru K V where
  entries := modifyEntries k f c.entries
  distinct := by
    unfold modifyEntries
    split
    · exact distinct_front (beq_of_find? ‹_›) _ c.distinct
    · exact c.distinct
  cap := c.cap
  capPos := c.capPos
  bounded := by
    have := c.bounded
    unfold modifyEntries
    split
    · have := length_filter_lt ‹_›
      simp only [List.length_cons]
      omega
    · exact this

def put (c : Lru K V) (k : K) (v : V) : Lru K V where
  entries := putEntries c.cap k v c.entries
  distinct := by
    unfold putEntries
    split
    · exact distinct_front (beq_of_find? ‹_›) _ c.distinct
    · rename_i h
      have hne := not_beq_of_find?_none h
      split
      · exact List.pairwise_cons.mpr ⟨hne, c.distinct⟩
      · exact List.pairwise_cons.mpr ⟨fun e he => hne e (List.dropLast_subset _ he),
          c.distinct.sublist (List.dropLast_sublist _)⟩
  cap := c.cap
  capPos := c.capPos
  bounded := by
    have := c.bounded
    have := c.capPos
    unfold putEntries
    split
    · have := length_filter_lt ‹_›
      simp only [List.length_cons]
      omega
    · split
      · simp only [List.length_cons]
        omega
      · simp only [List.length_cons, List.length_dropLast]
        omega

def pop (c : Lru K V) (k : K) : Lru K V where
  toKeyMap := c.toKeyMap.erase k
  cap := c.cap
  capPos := c.capPos
  bounded := Nat.le_trans (List.length_filter_le _ _) c.bounded

/-- `iter_mut` and a write to each entry. -/
def mapValues (c : Lru K V) (f : K → V → V) : Lru K V where
  entries := c.entries.map fun e => (e.1, f e.1 e.2)
  distinct := by
    rw [List.pairwise_map]
    exact c.distinct
  cap := c.cap
  capPos := c.capPos
  bounded := by
    rw [List.length_map]
    exact c.bounded

/-- The entries and what a loop over them keeps, when `f` writes each and goes on with its first result. -/
def walkEntries {S : Type*} (f : S → K → V → S × V) : S → List (K × V) → S × List (K × V)
  | s, [] => (s, [])
  | s, (k, v) :: es =>
    let r := walkEntries f (f s k v).1 es
    (r.1, (k, (f s k v).2) :: r.2)

omit [BEq K] [EquivBEq K] in
theorem walkEntries_keys {S : Type*} (f : S → K → V → S × V) : ∀ (s : S) (es : List (K × V)),
    (walkEntries f s es).2.map (·.1) = es.map (·.1)
  | _, [] => rfl
  | s, (k, v) :: es => congrArg (k :: ·) (walkEntries_keys f (f s k v).1 es)

/-- `iter_mut`, where what is written to an entry may depend on the entries before it. -/
def walk {S : Type*} (c : Lru K V) (f : S → K → V → S × V) (s : S) : S × Lru K V :=
  ((walkEntries f s c.entries).1,
    { entries := (walkEntries f s c.entries).2
      distinct := by
        have h : (c.entries.map (·.1)).Pairwise fun a b => (a == b) = false := List.pairwise_map.mpr c.distinct
        rw [← walkEntries_keys f s] at h
        exact List.pairwise_map.mp h
      cap := c.cap
      capPos := c.capPos
      bounded := by
        have h := congrArg List.length (walkEntries_keys f s c.entries)
        rw [List.length_map, List.length_map] at h
        exact h ▸ c.bounded })

@[simp] theorem modify_cap (c : Lru K V) (k : K) (f : V → V) : (c.modify k f).cap = c.cap := rfl

@[simp] theorem put_cap (c : Lru K V) (k : K) (v : V) : (c.put k v).cap = c.cap := rfl

omit [EquivBEq K] in
@[simp] theorem mapValues_cap (c : Lru K V) (f : K → V → V) : (c.mapValues f).cap = c.cap := rfl

omit [EquivBEq K] in
theorem mapValues_keys (c : Lru K V) (f : K → V → V) :
    (c.mapValues f).entries.map (·.1) = c.entries.map (·.1) := List.map_map

omit [EquivBEq K] in
@[simp] theorem walk_cap {S : Type*} (c : Lru K V) (f : S → K → V → S × V) (s : S) : (c.walk f s).2.cap = c.cap := rfl

omit [BEq K] [EquivBEq K] in
theorem walkEntries_eq {S : Type*} {f : S → K → V → S × V} {g : K → V → V} (h : ∀ s k v, (f s k v).2 = g k v) :
    ∀ (es : List (K × V)) (s : S), walkEntries f s es =
      (es.foldl (fun s e => (f s e.1 e.2).1) s, es.map fun e => (e.1, g e.1 e.2))
  | [], _ => rfl
  | (k, v) :: es, s => by
    rw [walkEntries, walkEntries_eq h es, h]
    rfl

omit [EquivBEq K] in
/-- A walk whose writes do not depend on what it keeps. -/
theorem walk_eq {S : Type*} (c : Lru K V) {f : S → K → V → S × V} {g : K → V → V}
    (h : ∀ s k v, (f s k v).2 = g k v) (s : S) :
    c.walk f s = (c.entries.foldl (fun s e => (f s e.1 e.2).1) s, c.mapValues g) := by
  unfold walk mapValues
  simp only [walkEntries_eq h]

/-! ### The keys afterwards -/

omit [EquivBEq K] in
theorem key_of_mem_walk {S : Type*} (c : Lru K V) (f : S → K → V → S × V) (s : S) :
    ∀ e ∈ (c.walk f s).2.entries, ∃ e' ∈ c.entries, e'.1 = e.1 := by
  intro e he
  have hkey : e.1 ∈ (walkEntries f s c.entries).2.map (·.1) := List.mem_map_of_mem he
  rw [walkEntries_keys] at hkey
  exact List.mem_map.mp hkey

theorem key_of_mem_modify (c : Lru K V) (k : K) (f : V → V) :
    ∀ e ∈ (c.modify k f).entries, ∃ e' ∈ c.entries, e'.1 = e.1 := by
  intro e he
  have he : e ∈ modifyEntries k f c.entries := he
  unfold modifyEntries at he
  split at he
  · rename_i e₀ h
    rcases List.mem_cons.mp he with rfl | he
    · exact ⟨e₀, List.mem_of_find?_eq_some h, rfl⟩
    · exact ⟨e, (List.mem_filter.mp he).1, rfl⟩
  · exact ⟨e, he, rfl⟩

theorem key_of_mem_put (c : Lru K V) (k : K) (v : V) :
    ∀ e ∈ (c.put k v).entries, (∃ e' ∈ c.entries, e'.1 = e.1) ∨ e.1 = k := by
  intro e he
  have he : e ∈ putEntries c.cap k v c.entries := he
  unfold putEntries at he
  split at he
  · rename_i e₀ h
    rcases List.mem_cons.mp he with rfl | he
    · exact .inl ⟨e₀, List.mem_of_find?_eq_some h, rfl⟩
    · exact .inl ⟨e, (List.mem_filter.mp he).1, rfl⟩
  · rcases List.mem_cons.mp he with rfl | he
    · exact .inr rfl
    · split at he
      · exact .inl ⟨e, he, rfl⟩
      · exact .inl ⟨e, List.dropLast_subset _ he, rfl⟩

omit [EquivBEq K] in
theorem mem_of_mem_foldl_pop : ∀ (ks : List K) (c : Lru K V),
    ∀ e ∈ (ks.foldl pop c).entries, e ∈ c.entries
  | [], _, _, he => he
  | k :: ks, c, e, he => (List.mem_filter.mp (mem_of_mem_foldl_pop ks (c.pop k) e he)).1

omit [EquivBEq K] in
theorem cap_foldl_pop : ∀ (ks : List K) (c : Lru K V), (ks.foldl pop c).cap = c.cap
  | [], _ => rfl
  | k :: ks, c => cap_foldl_pop ks (c.pop k)

/-! ### What a lookup finds afterwards -/

omit [EquivBEq K] in
theorem get?_eq (c : Lru K V) (k : K) : c.get? k = (c.entries.find? (·.1 == k)).map (·.2) := rfl

theorem find?_front {k k₀ k' : K} (h : (k₀ == k) = true) (v : V) (es : List (K × V)) :
    (((k₀, v) :: es.filter fun e => !(e.1 == k)).find? (·.1 == k')).map (·.2) =
      if k == k' then some v else (es.find? (·.1 == k')).map (·.2) := by
  by_cases hk : (k == k') = true
  · simp [hk, show (k₀ == k') = true from BEq.trans h hk]
  · have h0 : ¬ (k₀ == k') = true := fun h' => hk (BEq.trans (BEq.symm h) h')
    have : (fun e : K × V => decide ((!(e.1 == k)) = true ∧ (e.1 == k') = true)) = (·.1 == k') := by
      funext e
      by_cases he : (e.1 == k') = true
      · have : ¬ (e.1 == k) = true := fun h' => hk (BEq.trans (BEq.symm h') he)
        simp [this]
      · simp [he]
    rw [List.find?_cons_of_neg (by simpa using h0), List.find?_filter, this, if_neg hk]

theorem find?_congr {k k' : K} (h : (k == k') = true) (es : List (K × V)) :
    es.find? (·.1 == k) = es.find? (·.1 == k') := by
  have : (fun e : K × V => e.1 == k) = fun e => e.1 == k' := funext fun e => BEq.congr_right h
  rw [this]

theorem get?_modify (c : Lru K V) (k k' : K) (f : V → V) :
    (c.modify k f).get? k' = if k == k' then (c.get? k').map f else c.get? k' := by
  rw [get?_eq, get?_eq]
  show ((modifyEntries k f c.entries).find? _).map _ = _
  unfold modifyEntries
  cases h : c.entries.find? (·.1 == k) with
  | some e =>
    rw [find?_front (beq_of_find? h)]
    by_cases hk : (k == k') = true
    · rw [if_pos hk, if_pos hk, ← find?_congr hk, h]
      rfl
    · rw [if_neg hk, if_neg hk]
  | none =>
    by_cases hk : (k == k') = true
    · rw [if_pos hk, ← find?_congr hk, h]
      rfl
    · rw [if_neg hk]

theorem get?_put_of_beq (c : Lru K V) {k k' : K} (hk : (k == k') = true) (v : V) :
    (c.put k v).get? k' = some v := by
  rw [get?_eq]
  show ((putEntries c.cap k v c.entries).find? _).map _ = _
  unfold putEntries
  split
  · rw [find?_front (beq_of_find? ‹_›), if_pos hk]
  · rw [List.find?_cons_of_pos (by simpa using hk)]
    rfl

/-- Under another key there is what was there, or nothing. -/
theorem get?_put_of_not_beq (c : Lru K V) {k k' : K} (hk : ¬ (k == k') = true) (v : V) {w : V}
    (h : (c.put k v).get? k' = some w) : c.get? k' = some w := by
  rw [get?_eq] at h ⊢
  have h : ((putEntries c.cap k v c.entries).find? (·.1 == k')).map (·.2) = some w := h
  unfold putEntries at h
  split at h
  · rwa [find?_front (beq_of_find? ‹_›), if_neg hk] at h
  · rw [List.find?_cons_of_neg (by simpa using hk)] at h
    split at h
    · exact h
    · -- the entry found is not the last one
      obtain ⟨e, he, rfl⟩ := Option.map_eq_some_iff.mp h
      exact (KeyMap.get?_eq_some_iff c.toKeyMap k' e.2).mpr
        ⟨e.1, beq_of_find? he, List.dropLast_subset _ (List.mem_of_find?_eq_some he)⟩

theorem get?_pop (c : Lru K V) (k k' : K) :
    (c.pop k).get? k' = if k == k' then none else c.get? k' := by
  by_cases hk : (k == k') = true
  · rw [if_pos hk]
    exact KeyMap.get?_erase_of_beq _ hk
  · rw [if_neg hk]
    exact KeyMap.get?_erase_of_not_beq _ hk

theorem get?_foldl_pop (k : K) : ∀ (ks : List K) (c : Lru K V),
    (ks.foldl pop c).get? k = if ks.any (· == k) then none else c.get? k
  | [], _ => rfl
  | k' :: ks, c => by
    rw [List.foldl_cons, get?_foldl_pop k ks, get?_pop, List.any_cons]
    by_cases hk : (k' == k) = true
    · simp [hk]
    · simp [hk]

omit [EquivBEq K] in
theorem get?_mapValues (c : Lru K V) {f : K → V → V} (hf : ∀ a b v, (a == b) = true → f a v = f b v) (k : K) :
    (c.mapValues f).get? k = (c.get? k).map (f k) := by
  rw [get?_eq, get?_eq]
  show ((c.entries.map fun e => (e.1, f e.1 e.2)).find? _).map _ = _
  rw [List.find?_map, Option.map_map, Option.map_map]
  cases h : c.entries.find? (·.1 == k) with
  | none =>
    have h : c.entries.find? ((fun e => e.1 == k) ∘ fun e : K × V => (e.1, f e.1 e.2)) = none := h
    rw [h]
    rfl
  | some e =>
    have h' : c.entries.find? ((fun e => e.1 == k) ∘ fun e : K × V => (e.1, f e.1 e.2)) = some e := h
    rw [h']
    exact congrArg some (hf _ _ _ (beq_of_find? h))

/-! ### Inserts while there is room -/

theorem put_entries_of_absent (c : Lru K V) {k : K} (v : V) (h : ∀ e ∈ c.entries, (e.1 == k) = false)
    (hlen : c.entries.length < c.cap) : (c.put k v).entries = (k, v) :: c.entries := by
  show putEntries c.cap k v c.entries = _
  have : c.entries.find? (·.1 == k) = none := List.find?_eq_none.mpr fun e he => by simp [h e he]
  rw [putEntries, this]
  exact if_pos hlen ▸ rfl

/-- Inserts of new keys, as many as there is room for, lose nothing. -/
theorem putAll_entries : ∀ (l : List (K × V)) (c : Lru K V),
    (l.Pairwise fun a b => (a.1 == b.1) = false) → (∀ a ∈ l, ∀ e ∈ c.entries, (e.1 == a.1) = false) →
    c.entries.length + l.length ≤ c.cap →
    (l.foldl (fun c e => c.put e.1 e.2) c).entries = l.reverse ++ c.entries
  | [], _, _, _, _ => rfl
  | a :: l, c, hl, hc, hlen => by
    obtain ⟨h1, h2⟩ := List.pairwise_cons.mp hl
    simp only [List.length_cons] at hlen
    have hput := c.put_entries_of_absent a.2 (hc a List.mem_cons_self) (by omega)
    rw [List.foldl_cons, putAll_entries l (c.put a.1 a.2) h2, hput, List.reverse_cons, List.append_assoc]
    · rfl
    · intro b hb e he
      rw [hput] at he
      rcases List.mem_cons.mp he with rfl | he
      · exact h1 b hb
      · exact hc b (List.mem_cons_of_mem _ hb) e he
    · rw [hput, put_cap, List.length_cons]
      omega

end Lru
end Lib
end SmartDns
