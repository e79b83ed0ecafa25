/-
# Hash maps keyed up to an equality

A hash map compares its keys by the key type's own equality, which need not be
identity: two names that differ in case are one key. `KeyMap` is such a map as
the list of its entries in the order their keys were first inserted. An insert
under a key that is already there (`entry`, `insert`) replaces the value and
keeps the key that stands; a reader that iterates over the map sees that first
key (`mem_update_entries`).

Key definitions: `KeyMap`, `KeyMap.get?`, `KeyMap.update`, `KeyMap.insert`,
`KeyMap.erase`, `KeyMap.retain`, `KeyMap.ofInserts`.
Key theorems: `KeyMap.get?_update_of_beq`, `KeyMap.get?_update_of_not_beq`,
`KeyMap.get?_eq_some_iff`, `KeyMap.get?_ofInserts`, `KeyMap.mem_keys_ofInserts`.
-/
import Mathlib.Data.List.Basic
import Mathlib.Data.List.Induction
import Mathlib.Data.List.Nodup
import Mathlib.Data.List.Pairwise

namespace SmartDns
namespace Lib

universe u v

/-- The entries of a hash map, in the order of first insertion: no two keys are equal. -/
structure KeyMap (K : Type u) (V : Type v) [BEq K] where
  entries : List (K × V)
  distinct : entries.Pairwise fun a b => (a.1 == b.1) = false

namespace KeyMap

variable {K : Type u} {V : Type v} [BEq K]

def empty : KeyMap K V := ⟨[], List.Pairwise.nil⟩

def get? (m : KeyMap K V) (k : K) : Option V := (m.entries.find? (·.1 == k)).map (·.2)

def contains (m : KeyMap K V) (k : K) : Bool := (m.get? k).isSome

def isEmpty (m : KeyMap K V) : Bool := m.entries.isEmpty

/-- The entries with `f` applied to the value under `k`, or with a new last entry for `k`. -/
def updateEntries (k : K) (f : Option V → V) : List (K × V) → List (K × V)
  | [] => [(k, f none)]
  | (k', v) :: es => if k' == k then (k', f (some v)) :: es else (k', v) :: updateEntries k f es

theorem mem_updateEntries_fst {k : K} {f : Option V → V} : ∀ {es : List (K × V)} {e : K × V},
    e ∈ updateEntries k f es → (∃ e' ∈ es, e'.1 = e.1) ∨ e.1 = k
  | [], e, h => by
    simp only [updateEntries, List.mem_singleton] at h
    exact .inr (by rw [h])
  | (k', v) :: es, e, h => by
    unfold updateEntries at h
    split at h
    · rcases List.mem_cons.mp h with rfl | h
      · exact .inl ⟨_, List.mem_cons_self, rfl⟩
      · exact .inl ⟨e, List.mem_cons_of_mem _ h, rfl⟩
    · rcases List.mem_cons.mp h with rfl | h
      · exact .inl ⟨_, List.mem_cons_self, rfl⟩
      · rcases mem_updateEntries_fst h with ⟨e', he', h'⟩ | h'
        · exact .inl ⟨e', List.mem_cons_of_mem _ he', h'⟩
        · exact .inr h'

theorem distinct_updateEntries (k : K) (f : Option V → V) : ∀ (es : List (K × V)),
    es.Pairwise (fun a b => (a.1 == b.1) = false) →
    (updateEntries k f es).Pairwise fun a b => (a.1 == b.1) = false
  | [], _ => by simp [updateEntries]
  | (k', v) :: es, h => by
    obtain ⟨h1, h2⟩ := List.pairwise_cons.mp h
    unfold updateEntries
    split
    · exact List.pairwise_cons.mpr ⟨h1, h2⟩
    · rename_i hk
      refine List.pairwise_cons.mpr ⟨fun e he => ?_, distinct_updateEntries k f es h2⟩
      rcases mem_updateEntries_fst he with ⟨e', he', h'⟩ | h'
      · rw [← h']
        exact h1 e' he'
      · rw [h']
        simpa using hk

/-- `map.entry(k)` followed by a write of the value: an equal key that is there is kept. -/
def update (m : KeyMap K V) (k : K) (f : Option V → V) : KeyMap K V :=
  ⟨updateEntries k f m.entries, distinct_updateEntries k f m.entries m.distinct⟩

/-- `map.insert(k, v)`: the value is replaced, an equal key that is there is kept. -/
def insert (m : KeyMap K V) (k : K) (v : V) : KeyMap K V := m.update k fun _ => v

/-- `map.remove(k)`. -/
def erase (m : KeyMap K V) (k : K) : KeyMap K V :=
  ⟨m.entries.filter (fun e => !(e.1 == k)), m.distinct.filter _⟩

/-- `map.retain(..)`: the entries whose value the predicate keeps. -/
def retain (m : KeyMap K V) (keep : V → Bool) : KeyMap K V :=
  ⟨m.entries.filter (fun e => keep e.2), m.distinct.filter _⟩

@[simp] theorem get?_empty (k : K) : (empty : KeyMap K V).get? k = none := rfl

theorem get?_congr [EquivBEq K] (m : KeyMap K V) {k k' : K} (h : k == k') :
    m.get? k = m.get? k' := by
  have : (fun e : K × V => e.1 == k) = fun e => e.1 == k' := funext fun e => BEq.congr_right h
  rw [get?, get?, this]

theorem find?_updateEntries_of_beq [EquivBEq K] {k k' : K} (h : k == k') (f : Option V → V) :
    ∀ es : List (K × V), ((updateEntries k f es).find? (·.1 == k')).map (·.2) =
      some (f ((es.find? (·.1 == k')).map (·.2)))
  | [] => by simp [updateEntries, h]
  | (a, v) :: es => by
    unfold updateEntries
    by_cases ha : (a == k) = true
    · have ha' : (a == k') = true := BEq.trans ha h
      simp [ha, ha']
    · have ha' : ¬ (a == k') = true := fun h' => ha (BEq.trans h' (BEq.symm h))
      simpa [ha, ha'] using find?_updateEntries_of_beq h f es

theorem find?_updateEntries_of_not_beq [EquivBEq K] {k k' : K} (h : ¬ k == k') (f : Option V → V) :
    ∀ es : List (K × V), ((updateEntries k f es).find? (·.1 == k')).map (·.2) =
      (es.find? (·.1 == k')).map (·.2)
  | [] => by simp [updateEntries, h]
  | (a, v) :: es => by
    unfold updateEntries
    by_cases ha : (a == k) = true
    · have ha' : ¬ (a == k') = true := fun h' => h (BEq.trans (BEq.symm ha) h')
      simp [ha, ha']
    · by_cases ha' : (a == k') = true
      · simp [ha, ha']
      · simpa [ha, ha'] using find?_updateEntries_of_not_beq h f es

theorem get?_update_of_beq [EquivBEq K] (m : KeyMap K V) {k k' : K} (h : k == k') (f : Option V → V) :
    (m.update k f).get? k' = some (f (m.get? k')) :=
  find?_updateEntries_of_beq h f m.entries

theorem get?_update_of_not_beq [EquivBEq K] (m : KeyMap K V) {k k' : K} (h : ¬ k == k')
    (f : Option V → V) : (m.update k f).get? k' = m.get? k' :=
  find?_updateEntries_of_not_beq h f m.entries

theorem get?_update [EquivBEq K] (m : KeyMap K V) (k k' : K) (f : Option V → V) :
    (m.update k f).get? k' = if k == k' then some (f (m.get? k')) else m.get? k' := by
  split
  · exact get?_update_of_beq m ‹_› f
  · exact get?_update_of_not_beq m ‹_› f

theorem get?_insert_of_beq [EquivBEq K] (m : KeyMap K V) {k k' : K} (h : k == k') (v : V) :
    (m.insert k v).get? k' = some v :=
  get?_update_of_beq m h _

theorem get?_insert_of_not_beq [EquivBEq K] (m : KeyMap K V) {k k' : K} (h : ¬ k == k') (v : V) :
    (m.insert k v).get? k' = m.get? k' :=
  get?_update_of_not_beq m h _

theorem get?_insert [EquivBEq K] (m : KeyMap K V) (k k' : K) (v : V) :
    (m.insert k v).get? k' = if k == k' then some v else m.get? k' := by
  split
  · exact get?_insert_of_beq m ‹_› v
  · exact get?_insert_of_not_beq m ‹_› v

theorem get?_erase_of_beq [EquivBEq K] (m : KeyMap K V) {k k' : K} (h : k == k') :
    (m.erase k).get? k' = none := by
  have : ((m.erase k).entries.find? (·.1 == k')) = none := by
    refine List.find?_eq_none.mpr fun e he hk => ?_
    have := (List.mem_filter.mp he).2
    have hk' : (e.1 == k) = true := BEq.trans hk (BEq.symm h)
    simp [hk'] at this
  simp [get?, this]

theorem get?_erase_of_not_beq [EquivBEq K] (m : KeyMap K V) {k k' : K} (h : ¬ k == k') :
    (m.erase k).get? k' = m.get? k' := by
  have : (fun e : K × V => decide ((!(e.1 == k)) = true ∧ (e.1 == k') = true)) = (·.1 == k') := by
    funext e
    by_cases he : (e.1 == k') = true
    · have : ¬ (e.1 == k) = true := fun h' => h (BEq.trans (BEq.symm h') he)
      simp [this]
    · simp [he]
  rw [get?, get?, erase, List.find?_filter, this]

theorem get?_erase [EquivBEq K] (m : KeyMap K V) (k k' : K) :
    (m.erase k).get? k' = if k == k' then none else m.get? k' := by
  split
  · exact get?_erase_of_beq m ‹_›
  · exact get?_erase_of_not_beq m ‹_›

/-- A map that finds nothing is empty. -/
theorem eq_empty_of_get? [ReflBEq K] {m : KeyMap K V} (h : ∀ k, m.get? k = none) : m = empty := by
  obtain ⟨es, distinct⟩ := m
  cases es with
  | nil => rfl
  | cons e es =>
    have := h e.1
    simp [get?] at this

/-- A value found under `k` is the value of an entry whose key equals `k`, and the converse. -/
theorem get?_eq_some_iff [EquivBEq K] (m : KeyMap K V) (k : K) (v : V) :
    m.get? k = some v ↔ ∃ k', (k' == k) = true ∧ (k', v) ∈ m.entries := by
  constructor
  · intro h
    obtain ⟨e, he, rfl⟩ := Option.map_eq_some_iff.mp h
    exact ⟨e.1, by simpa using List.find?_some he, List.mem_of_find?_eq_some he⟩
  · rintro ⟨k', hk, hm⟩
    obtain ⟨es, ds⟩ := m
    induction es with
    | nil => simp at hm
    | cons e es ih =>
      obtain ⟨h1, h2⟩ := List.pairwise_cons.mp ds
      rcases List.mem_cons.mp hm with rfl | hm
      · simp [get?, hk]
      · have he : ¬ (e.1 == k) = true := fun h => by
          have h' : (e.1 == k') = true := BEq.trans h (BEq.symm hk)
          simp [h1 _ hm] at h'
        have := ih h2 hm
        simpa [get?, he] using this

theorem get?_retain [EquivBEq K] (m : KeyMap K V) (keep : V → Bool) (k : K) :
    (m.retain keep).get? k = (m.get? k).filter keep := by
  ext v
  rw [get?_eq_some_iff, Option.filter_eq_some_iff, get?_eq_some_iff]
  constructor
  · rintro ⟨k', hk, he⟩
    obtain ⟨he, hkeep⟩ := List.mem_filter.mp he
    exact ⟨⟨k', hk, he⟩, hkeep⟩
  · rintro ⟨⟨k', hk, he⟩, hkeep⟩
    exact ⟨k', hk, List.mem_filter.mpr ⟨he, hkeep⟩⟩

theorem retain_eq_self {m : KeyMap K V} {keep : V → Bool} (h : ∀ e ∈ m.entries, keep e.2 = true) :
    m.retain keep = m := by
  obtain ⟨es, distinct⟩ := m
  unfold retain
  congr 1
  exact List.filter_eq_self.mpr h

theorem mem_keys_update [EquivBEq K] (m : KeyMap K V) (k : K) (f : Option V → V) :
    ∀ e ∈ (m.update k f).entries, (∃ e' ∈ m.entries, e'.1 = e.1) ∨ e.1 = k :=
  fun _ he => mem_updateEntries_fst he

/-! ### The keys -/

def keys (m : KeyMap K V) : List K := m.entries.map (·.1)

/-- A key behind those there are, unless one is equal to it. -/
def pushKey (ks : List K) (k : K) : List K := if ks.any (· == k) then ks else ks ++ [k]

theorem keys_updateEntries (k : K) (f : Option V → V) : ∀ es : List (K × V),
    (updateEntries k f es).map (·.1) = pushKey (es.map (·.1)) k
  | [] => rfl
  | (k', v) :: es => by
    have ih := keys_updateEntries k f es
    unfold updateEntries
    unfold pushKey at ih ⊢
    by_cases hk : (k' == k) = true
    · simp [hk]
    · have hk' : (k' == k) = false := Bool.eq_false_iff.mpr hk
      rw [if_neg hk, List.map_cons, ih, List.map_cons, List.any_cons, hk', Bool.false_or]
      split <;> rfl

@[simp] theorem keys_update (m : KeyMap K V) (k : K) (f : Option V → V) : (m.update k f).keys = pushKey m.keys k :=
  keys_updateEntries k f m.entries

theorem contains_eq_any (m : KeyMap K V) (k : K) : m.contains k = m.keys.any (· == k) := by
  unfold contains get? keys
  rw [Option.isSome_map, List.any_map, Bool.eq_iff_iff, List.find?_isSome, List.any_eq_true]
  rfl

/-- A key that is not there goes last. -/
theorem updateEntries_of_not_any {k : K} (f : Option V → V) : ∀ {es : List (K × V)},
    es.any (·.1 == k) = false → updateEntries k f es = es ++ [(k, f none)]
  | [], _ => rfl
  | (k', v) :: es, h => by
    rw [List.any_cons, Bool.or_eq_false_iff] at h
    rw [updateEntries, if_neg (by simpa using h.1), updateEntries_of_not_any f h.2, List.cons_append]

/-! ### Keys whose equality is identity -/

theorem contains_update [LawfulBEq K] (m : KeyMap K V) (k k' : K) (f : Option V → V) :
    (m.update k f).contains k' = true ↔ k' = k ∨ m.contains k' = true := by
  unfold contains
  rw [get?_update]
  by_cases h : k = k'
  · simp [h]
  · simp [h, Ne.symm h]

theorem contains_insert [LawfulBEq K] (m : KeyMap K V) (k k' : K) (v : V) :
    (m.insert k v).contains k' = true ↔ k' = k ∨ m.contains k' = true :=
  contains_update m k k' _

theorem contains_erase [LawfulBEq K] (m : KeyMap K V) (k k' : K) :
    (m.erase k).contains k' = true ↔ k' ≠ k ∧ m.contains k' = true := by
  unfold contains
  rw [get?_erase]
  by_cases h : k = k'
  · simp [h]
  · simp [h, Ne.symm h]

theorem mem_keys_iff [LawfulBEq K] (m : KeyMap K V) (k : K) : k ∈ m.keys ↔ m.contains k = true := by
  rw [contains_eq_any, List.any_eq_true]
  simp

theorem get?_of_mem [EquivBEq K] {m : KeyMap K V} {e : K × V} (h : e ∈ m.entries) : m.get? e.1 = some e.2 :=
  (get?_eq_some_iff m e.1 e.2).mpr ⟨e.1, BEq.rfl, h⟩

theorem nodup_keys [LawfulBEq K] (m : KeyMap K V) : m.keys.Nodup := by
  refine List.pairwise_map.mpr (m.distinct.imp fun h => ?_)
  simpa using h

theorem length_updateEntries_le (k : K) (f : Option V → V) : ∀ es : List (K × V),
    (updateEntries k f es).length ≤ es.length + 1
  | [] => Nat.le_refl 1
  | (k', v) :: es => by
    unfold updateEntries
    split
    · exact Nat.le_succ _
    · exact Nat.succ_le_succ (length_updateEntries_le k f es)

theorem length_erase_lt [EquivBEq K] {m : KeyMap K V} {e : K × V} (h : e ∈ m.entries) :
    (m.erase e.1).entries.length < m.entries.length :=
  List.length_filter_lt_length_iff_exists.mpr ⟨e, h, by simp⟩

/-! ### Inserting a list -/

/-- The map of the entries inserted in order. -/
def ofInserts (es : List (K × V)) : KeyMap K V := es.foldl (fun m e => m.insert e.1 e.2) empty

theorem ofInserts_concat (es : List (K × V)) (e : K × V) : ofInserts (es ++ [e]) = (ofInserts es).insert e.1 e.2 := by
  rw [ofInserts, List.foldl_append]
  rfl

/-- The value inserted last stands. -/
theorem get?_ofInserts [EquivBEq K] (es : List (K × V)) (k : K) :
    (ofInserts es).get? k = (es.reverse.find? (·.1 == k)).map (·.2) := by
  induction es using List.reverseRecOn with
  | nil => rfl
  | append_singleton es e ih =>
    rw [ofInserts_concat, get?_insert, List.reverse_append, List.reverse_singleton, List.singleton_append,
      List.find?_cons]
    by_cases h : (e.1 == k) = true
    · rw [if_pos h, h]
      rfl
    · rw [if_neg h, Bool.eq_false_iff.mpr h, ih]

/-- A list with a key once is its map. -/
theorem get?_ofInserts_eq_some_iff [LawfulBEq K] {es : List (K × V)} (h : (es.map (·.1)).Nodup) (k : K) (v : V) :
    (ofInserts es).get? k = some v ↔ (k, v) ∈ es := by
  rw [get?_ofInserts]
  constructor
  · intro hget
    obtain ⟨e, hfind, rfl⟩ := Option.map_eq_some_iff.mp hget
    have hkey : e.1 = k := by simpa using List.find?_some hfind
    have hmem := List.mem_reverse.mp (List.mem_of_find?_eq_some hfind)
    rwa [← hkey]
  · intro hmem
    have hsome : (es.reverse.find? (·.1 == k)).isSome = true :=
      List.find?_isSome.mpr ⟨(k, v), List.mem_reverse.mpr hmem, BEq.rfl⟩
    obtain ⟨e, hfind⟩ := Option.isSome_iff_exists.mp hsome
    have hkey : e.1 = k := by simpa using List.find?_some hfind
    have hmem' := List.mem_reverse.mp (List.mem_of_find?_eq_some hfind)
    rw [hfind, List.inj_on_of_nodup_map h hmem' hmem hkey]
    rfl

/-- The key inserted first is kept. -/
theorem mem_keys_ofInserts [EquivBEq K] (es : List (K × V)) (k : K) :
    k ∈ (ofInserts es).keys ↔ (es.find? (·.1 == k)).map (·.1) = some k := by
  induction es using List.reverseRecOn with
  | nil => simp [ofInserts, keys, empty]
  | append_singleton es e ih =>
    have hany : (ofInserts es).keys.any (· == e.1) = es.any (·.1 == e.1) := by
      rw [← contains_eq_any, contains, get?_ofInserts, Option.isSome_map, Bool.eq_iff_iff, List.find?_isSome,
        List.any_eq_true]
      simp
    rw [ofInserts_concat, insert, keys_update, pushKey, hany, List.find?_append]
    by_cases h : es.any (·.1 == e.1) = true
    · rw [if_pos h, ih]
      cases hfind : es.find? (·.1 == k) with
      | some x => simp
      | none =>
        have hne : (e.1 == k) = false := by
          obtain ⟨x, hx, hxe⟩ := List.any_eq_true.mp h
          have hxk := List.find?_eq_none.mp hfind x hx
          exact Bool.eq_false_iff.mpr fun hek => hxk (BEq.trans hxe hek)
        simp [hne]
    · rw [if_neg h, List.mem_append, ih]
      cases hfind : es.find? (·.1 == k) with
      | some x =>
        have hxk : (x.1 == k) = true := by simpa using List.find?_some hfind
        have hne : e.1 ≠ k := by
          rintro rfl
          exact h (List.any_eq_true.mpr ⟨x, List.mem_of_find?_eq_some hfind, hxk⟩)
        simp [Ne.symm hne]
      | none =>
        by_cases hek : e.1 = k
        · simp [hek]
        · by_cases hbeq : (e.1 == k) = true
          · simp [hbeq, hek, Ne.symm hek]
          · simp [hbeq, Ne.symm hek]

end KeyMap
end Lib
end SmartDns
