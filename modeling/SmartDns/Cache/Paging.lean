/-
# The cached records, page by page

`DnsCache::cached_records_paginated` counts the entries shard by shard and then walks the shards
again for one page: it passes over the entries before the offset, takes as many as the limit says
and stops. Where the two numbers leave nothing to give it does not walk at all.

A page is the entries of all shards, in the order of the walk, from the offset on and up to the limit
(`cachedRecordsPaginated_eq`). So pages of one size that follow each other until an empty one
give every entry once (`pagesGiveAll`).

When an entry was last used is not kept in the model of the cache: it is the parameter `lastAccess`.

Key definitions: `CachedQueryRecord`, `PageScan`, `DnsCache.cachedRecordsPaginated`,
`CachedQueryRecord.Shows`, `DnsCache.PagesGiveAll`.
Key theorems: `records_scanShards`, `cachedRecordsPaginated_eq`, `pagesGiveAll`.
-/
import SmartDns.Cache.Persist
import SmartDns.Cache.Ttl
import Mathlib.Data.List.Forall2

namespace SmartDns
namespace Cache

open Dns Lib

structure CachedQueryRecord where
  name : Name
  hits : ℕ
  lastAccess : ℤ
  queryType : RecordType
  queryClass : DNSClass
  records : List Record

section

variable (lastAccess : CacheKey → ℤ)

def CachedQueryRecord.ofEntry (e : CacheKey × DnsCacheEntry) : CachedQueryRecord where
  name := e.1.query.name
  hits := e.2.stats.hits
  lastAccess := lastAccess e.1
  queryType := e.1.query.queryType
  queryClass := e.1.query.queryClass
  records := e.2.data.message.answers

/-- What a record tells of an entry. -/
structure CachedQueryRecord.Shows (e : CacheKey × DnsCacheEntry) (r : CachedQueryRecord) : Prop where
  name : r.name = e.1.query.name
  hits : r.hits = e.2.stats.hits
  lastAccess : r.lastAccess = lastAccess e.1
  queryType : r.queryType = e.1.query.queryType
  queryClass : r.queryClass = e.1.query.queryClass
  records : r.records = e.2.data.message.answers

theorem CachedQueryRecord.shows_ofEntry (e : CacheKey × DnsCacheEntry) : Shows lastAccess e (ofEntry lastAccess e) :=
  ⟨rfl, rfl, rfl, rfl, rfl, rfl⟩

/-- What the second walk has collected. -/
structure PageScan where
  records : List CachedQueryRecord := []
  currentOffset : ℕ := 0
  done : Bool := false

/-- The loop over the entries of a shard. -/
def scanShard (offset limit : ℕ) : List (CacheKey × DnsCacheEntry) → PageScan → PageScan
  | [], s => s
  | e :: es, s =>
    if s.currentOffset < offset then scanShard offset limit es { s with currentOffset := s.currentOffset + 1 }
    else if limit ≤ s.records.length then { s with done := true }
    else
      scanShard offset limit es
        { s with
          records := s.records ++ [.ofEntry lastAccess e]
          currentOffset := s.currentOffset + 1 }

/-- The loop over the shards. -/
def scanShards (offset limit : ℕ) : List (List (CacheKey × DnsCacheEntry)) → PageScan → PageScan
  | [], s => s
  | es :: shards, s => if s.done then s else scanShards offset limit shards (scanShard lastAccess offset limit es s)

/-- The number of entries, and the page. -/
def DnsCache.cachedRecordsPaginated {H : KeyHash} (c : DnsCache H) (offset limit : ℕ) : ℕ × List CachedQueryRecord :=
  if c.totalLen ≤ offset ∨ limit = 0 then (c.totalLen, [])
  else
    (c.totalLen,
      (scanShards lastAccess offset limit ((List.finRange SHARD_COUNT).map fun i => (c.shards i).entries) {}).records)

/-! ### What a walk collects -/

variable (offset limit : ℕ)

/-- A walk over a shard adds the entries from the offset on, up to the limit; it is done only if the page is
full, and otherwise it has passed over the shard. -/
theorem scanShard_spec : ∀ (es : List (CacheKey × DnsCacheEntry)) (s : PageScan), s.done = false →
    (scanShard lastAccess offset limit es s).records = s.records ++
        ((es.drop (offset - s.currentOffset)).take (limit - s.records.length)).map (.ofEntry lastAccess) ∧
      (if (scanShard lastAccess offset limit es s).done then
        limit ≤ (scanShard lastAccess offset limit es s).records.length
      else offset - (scanShard lastAccess offset limit es s).currentOffset = offset - s.currentOffset - es.length)
  | [], s, hs => by
    simp [scanShard, hs]
  | e :: es, s, hs => by
    rw [scanShard]
    by_cases hbefore : s.currentOffset < offset
    · rw [if_pos hbefore]
      obtain ⟨hrecords, hdone⟩ := scanShard_spec es { s with currentOffset := s.currentOffset + 1 } hs
      dsimp only at hrecords hdone
      have hskip : offset - s.currentOffset = offset - (s.currentOffset + 1) + 1 := by omega
      refine ⟨?_, ?_⟩
      · rw [hrecords, hskip, List.drop_succ_cons]
      · split at hdone
        · rwa [if_pos ‹_›]
        · rw [if_neg ‹_›, hdone, List.length_cons]
          omega
    · rw [if_neg hbefore]
      have hnone : offset - s.currentOffset = 0 := by omega
      rw [hnone, List.drop_zero]
      by_cases hfull : limit ≤ s.records.length
      · rw [if_pos hfull, Nat.sub_eq_zero_of_le hfull]
        simp [hfull]
      · rw [if_neg hfull]
        obtain ⟨hrecords, hdone⟩ := scanShard_spec es
          { s with
            records := s.records ++ [.ofEntry lastAccess e]
            currentOffset := s.currentOffset + 1 } hs
        dsimp only at hrecords hdone
        have htake : limit - s.records.length = limit - (s.records.length + 1) + 1 := by omega
        have hnone' : offset - (s.currentOffset + 1) = 0 := by omega
        refine ⟨?_, ?_⟩
        · rw [hrecords, hnone', List.drop_zero, List.length_append, List.length_singleton, htake, List.take_succ_cons,
            List.map_cons, List.append_assoc, List.singleton_append]
        · split at hdone
          · rwa [if_pos ‹_›]
          · rw [if_neg ‹_›, hdone]
            omega

/-- A walk over the shards adds what one over all their entries would. -/
theorem records_scanShards : ∀ (shards : List (List (CacheKey × DnsCacheEntry))) (s : PageScan),
    (s.done = true → limit ≤ s.records.length) →
    (scanShards lastAccess offset limit shards s).records = s.records ++
      ((shards.flatten.drop (offset - s.currentOffset)).take (limit - s.records.length)).map (.ofEntry lastAccess)
  | [], s, _ => by simp [scanShards]
  | es :: shards, s, hfull => by
    rw [scanShards]
    by_cases hdone : s.done = true
    · rw [if_pos hdone, Nat.sub_eq_zero_of_le (hfull hdone)]
      simp
    · rw [if_neg hdone]
      obtain ⟨hrecords, hafter⟩ := scanShard_spec lastAccess offset limit es s (Bool.eq_false_iff.mpr hdone)
      have hlen : limit - (scanShard lastAccess offset limit es s).records.length =
          limit - s.records.length - (es.length - (offset - s.currentOffset)) := by
        rw [hrecords, List.length_append, List.length_map, List.length_take, List.length_drop]
        omega
      rw [records_scanShards shards _ ?_, List.flatten_cons, List.drop_append, List.take_append, List.map_append,
        List.length_drop, ← List.append_assoc, ← hrecords, hlen]
      · congr 2
        by_cases hd : (scanShard lastAccess offset limit es s).done = true
        · rw [if_pos hd] at hafter
          rw [← hlen, Nat.sub_eq_zero_of_le hafter, List.take_zero, List.take_zero]
        · rw [if_neg hd] at hafter
          rw [hafter]
      · intro hd
        rwa [if_pos hd] at hafter

end

namespace DnsCache

variable {H : KeyHash} (lastAccess : CacheKey → ℤ) (c : DnsCache H)

theorem totalLen_eq : c.totalLen = c.entries.length := by
  rw [totalLen, entries, List.length_flatMap]

/-- **A page is the entries from the offset on, up to the limit.** -/
theorem cachedRecordsPaginated_eq (offset limit : ℕ) : c.cachedRecordsPaginated lastAccess offset limit =
    (c.entries.length, ((c.entries.drop offset).take limit).map (.ofEntry lastAccess)) := by
  have hflat : ((List.finRange SHARD_COUNT).map fun i => (c.shards i).entries).flatten = c.entries :=
    List.flatMap_def.symm
  unfold cachedRecordsPaginated
  rw [totalLen_eq]
  split
  · rename_i h
    rcases h with h | rfl
    · rw [List.drop_eq_nil_of_le h, List.take_nil, List.map_nil]
    · rw [List.take_zero, List.map_nil]
  · rw [records_scanShards lastAccess offset limit _ {} (fun h => nomatch h), hflat]
    rfl

/-- Page after page gives the entries up to where the last page ends. -/
theorem flatMap_pages (n : ℕ) : ∀ k : ℕ,
    ((List.range k).flatMap fun j => (c.cachedRecordsPaginated lastAccess (j * n) n).2) =
      (c.entries.take (k * n)).map (.ofEntry lastAccess)
  | 0 => by simp
  | k + 1 => by
    have hpage : (c.cachedRecordsPaginated lastAccess (k * n) n).2 =
        ((c.entries.drop (k * n)).take n).map (.ofEntry lastAccess) :=
      congrArg Prod.snd (cachedRecordsPaginated_eq lastAccess c (k * n) n)
    rw [List.range_succ, List.flatMap_append, flatMap_pages n k, List.flatMap_singleton, hpage, ← List.map_append,
      ← List.take_add, Nat.succ_mul]

theorem page_eq_nil_iff {n : ℕ} (hn : 0 < n) (offset : ℕ) :
    (c.cachedRecordsPaginated lastAccess offset n).2 = [] ↔ c.entries.length ≤ offset := by
  rw [cachedRecordsPaginated_eq, List.map_eq_nil_iff, List.take_eq_nil_iff, List.drop_eq_nil_iff]
  constructor
  · rintro (h | h)
    · omega
    · exact h
  · exact .inr

/-- The pages up to the first empty one show the entries in the order of the walk, each page tells how many
there are, and the entries are what a lookup finds, each key once. -/
structure PagesGiveAll (n : ℕ) : Prop where
  pages : ∃ k, (∀ j < k, (c.cachedRecordsPaginated lastAccess (j * n) n).2 ≠ []) ∧
    (c.cachedRecordsPaginated lastAccess (k * n) n).2 = [] ∧
    List.Forall₂ (CachedQueryRecord.Shows lastAccess) c.entries
      ((List.range k).flatMap fun j => (c.cachedRecordsPaginated lastAccess (j * n) n).2) ∧
    ∀ j, (c.cachedRecordsPaginated lastAccess (j * n) n).1 =
      ((List.range k).flatMap fun j => (c.cachedRecordsPaginated lastAccess (j * n) n).2).length
  once : c.entries.Pairwise fun a b => (a.1 == b.1) = false
  mem_iff : ∀ key e, c.lookup key = some e ↔ ∃ k, (k == key) = true ∧ (k, e) ∈ c.entries

/-- **Pages of one size, one after another until an empty one, give every entry once.** -/
theorem pagesGiveAll {n : ℕ} (hn : 0 < n) : c.PagesGiveAll lastAccess n := by
  refine ⟨?_, entries_pairwise c, fun key e => ⟨mem_entries_of_lookup, ?_⟩⟩
  · -- the first page that begins behind the last entry
    have hle : ∃ k, c.entries.length ≤ k * n := ⟨c.entries.length, Nat.le_mul_of_pos_right _ hn⟩
    have hall : ((List.range (Nat.find hle)).flatMap fun j => (c.cachedRecordsPaginated lastAccess (j * n) n).2) =
        c.entries.map (.ofEntry lastAccess) := by
      rw [flatMap_pages, List.take_of_length_le (Nat.find_spec hle)]
    refine ⟨Nat.find hle, fun j hj => ?_, ?_, ?_, fun j => ?_⟩
    · rw [ne_eq, page_eq_nil_iff lastAccess c hn]
      exact Nat.find_min hle hj
    · rw [page_eq_nil_iff lastAccess c hn]
      exact Nat.find_spec hle
    · rw [hall, List.forall₂_map_right_iff, List.forall₂_same]
      exact fun e _ => CachedQueryRecord.shows_ofEntry lastAccess e
    · rw [hall, cachedRecordsPaginated_eq, List.length_map]
  · rintro ⟨k, hk, hmem⟩
    obtain ⟨i, -, hi⟩ := List.mem_flatMap.mp hmem
    have hplace : H.shardOf key = i := (H.shardOf_congr hk).symm.trans (c.placed i _ hi)
    rw [lookup, hplace]
    exact (KeyMap.get?_eq_some_iff _ _ _).mpr ⟨k, hk, hi⟩

/-- A cache with the answers to three questions for the root. -/
def threeEntries : DnsCache oneShard :=
  [RecordType.A, .AAAA, .TXT].foldl
    (fun c t => (c.insertFullResponse { rootKey with query := { (default : Query) with queryType := t } }
      ⟨{}, 0, none, false⟩ 0 false).1)
    (new oneShard ⟨true, 0, 0⟩ 1024)

theorem pagesGiveAll_threeEntries : threeEntries.entries.length = 3 ∧ threeEntries.PagesGiveAll (fun _ => 0) 2 :=
  ⟨by decide +kernel, pagesGiveAll _ _ (by decide)⟩

end DnsCache
end Cache
end SmartDns
