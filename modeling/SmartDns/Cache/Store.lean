/-
# The answer cache

`DnsCache` of `dns_mw_cache.rs`: 64 shards, each a least-recently-used map, and the
shard of a key given by its hash. The hash is a parameter that respects the
equality of keys; that an entry stands in the shard of its key is part of the type.

Every operation is described by what `lookup` finds after it, so that runs of the
cache are reasoned about without shards or recency. An insert is the only operation
that may lose entries under other keys. The sweeps over all shards are there for one
shard, too, since others may come between the shards.

Key definitions: `DnsCache`, `DnsCache.lookup`, `insertionTtl`,
`DnsCache.insertFullResponse`, `DnsCache.get`, `DnsCache.markPrefetching`,
`DnsCache.setValidUntilForPrefetch`, `DnsCache.purgeDeadRecords`,
`DnsCache.getExpired`.
Key theorems: `lookup_insertFullResponse`, `lookup_get`, `lookup_markPrefetching`,
`lookup_purgeDeadRecords`, `lookup_getExpired`.
-/
import Mathlib.Algebra.GroupWithZero.Nat
import Mathlib.Data.Fintype.Basic
import Mathlib.Data.List.FinRange
import Mathlib.Data.List.Sort
import SmartDns.Lib.Lru
import SmartDns.Cache.Entry

namespace SmartDns
namespace Cache

open Dns Lib

def SHARD_COUNT : ℕ := 64

def effectiveCacheSize (configured : ℕ) : ℕ :=
  max ((configured + SHARD_COUNT - 1) / SHARD_COUNT) 1 * SHARD_COUNT

/-- The hash of a key: equal keys have one hash. -/
structure KeyHash where
  hash : CacheKey → ℕ
  congr : ∀ a b : CacheKey, (a == b) = true → hash a = hash b

def KeyHash.shardOf (H : KeyHash) (key : CacheKey) : Fin SHARD_COUNT :=
  ⟨H.hash key % SHARD_COUNT, Nat.mod_lt _ (by decide)⟩

theorem KeyHash.shardOf_congr (H : KeyHash) {a b : CacheKey} (h : (a == b) = true) :
    H.shardOf a = H.shardOf b := by
  rw [shardOf, shardOf, Fin.mk.injEq, H.congr a b h]

/-- The settings of the cache that change at run time; times in seconds. -/
structure CachePolicy where
  serveExpired : Bool
  expiredTtl : ℕ
  expiredPrefetchTime : ℕ

structure DnsCache (H : KeyHash) where
  policy : CachePolicy
  shardSize : ℕ
  shards : Fin SHARD_COUNT → Lru CacheKey DnsCacheEntry
  sized : ∀ i, (shards i).cap = shardSize
  placed : ∀ i, ∀ e ∈ (shards i).entries, H.shardOf e.1 = i

inductive CacheStatus
  | valid
  | expired
deriving DecidableEq

namespace DnsCache

variable {H : KeyHash}

def new (H : KeyHash) (policy : CachePolicy) (cacheSize : ℕ) : DnsCache H where
  policy
  shardSize := effectiveCacheSize cacheSize / SHARD_COUNT
  shards _ := Lru.new (effectiveCacheSize cacheSize / SHARD_COUNT) (by
    unfold effectiveCacheSize
    rw [Nat.mul_div_cancel _ (by decide)]
    omega)
  sized _ := rfl
  placed _ _ he := by cases he

def lookup (c : DnsCache H) (key : CacheKey) : Option DnsCacheEntry := (c.shards (H.shardOf key)).get? key

/-- An operation on the shard of `key`. -/
def onShard (c : DnsCache H) (key : CacheKey) (g : Lru CacheKey DnsCacheEntry → Lru CacheKey DnsCacheEntry)
    (hcap : ∀ l, (g l).cap = l.cap)
    (hg : ∀ l, ∀ e ∈ (g l).entries, (∃ e' ∈ l.entries, e'.1 = e.1) ∨ e.1 = key) : DnsCache H where
  policy := c.policy
  shardSize := c.shardSize
  shards := Function.update c.shards (H.shardOf key) (g (c.shards (H.shardOf key)))
  sized i := by
    by_cases hi : i = H.shardOf key
    · rw [hi, Function.update_self, hcap, c.sized]
    · rw [Function.update_of_ne hi, c.sized]
  placed i e he := by
    by_cases hi : i = H.shardOf key
    · subst hi
      rw [Function.update_self] at he
      rcases hg _ e he with ⟨e', he', h⟩ | h
      · exact h ▸ c.placed _ e' he'
      · rw [h]
    · rw [Function.update_of_ne hi] at he
      exact c.placed i e he

/-- An operation on every shard. -/
def onShards (c : DnsCache H) (g : Lru CacheKey DnsCacheEntry → Lru CacheKey DnsCacheEntry)
    (hcap : ∀ l, (g l).cap = l.cap)
    (hg : ∀ l, ∀ e ∈ (g l).entries, ∃ e' ∈ l.entries, e'.1 = e.1) : DnsCache H where
  policy := c.policy
  shardSize := c.shardSize
  shards i := g (c.shards i)
  sized i := (hcap _).trans (c.sized i)
  placed i e he := by
    obtain ⟨e', he', h⟩ := hg _ e he
    exact h ▸ c.placed i e' he'

/-- `cache.get_mut(key)` and a write to the entry, if there is one. -/
def modify (c : DnsCache H) (key : CacheKey) (f : DnsCacheEntry → DnsCacheEntry) : DnsCache H :=
  c.onShard key (·.modify key f) (fun l => l.modify_cap key f) fun l e he => .inl (l.key_of_mem_modify key f e he)

def put (c : DnsCache H) (key : CacheKey) (e : DnsCacheEntry) : DnsCache H :=
  c.onShard key (·.put key e) (fun l => l.put_cap key e) fun l => l.key_of_mem_put key e

/-- `cache.clear()` on every shard. -/
def clear (c : DnsCache H) : DnsCache H :=
  c.onShards (fun l => Lru.new l.cap l.capPos) (fun _ => rfl) fun _ _ he => by cases he

end DnsCache

/-! ### The operations -/

/-- The TTL an insert gives to all records: `min_ttl` of `insert_full_response`. -/
def insertionTtl (response : DnsResponse) : ℕ :=
  let m := response.message
  let minTtl :=
    if !m.answers.isEmpty then
      min MAX_TTL (((m.answers.map (·.ttl)).min?).getD 60)
    else
      match (m.authorities.find? (·.recordType = .SOA)).or (m.answers.find? (·.recordType = .SOA)) with
      | some soa =>
        min MAX_TTL
          (match soa.data with
            | .soa minimum _ => min soa.ttl minimum
            | _ => soa.ttl)
      | none => 5
  min minTtl MAX_TTL

theorem insertionTtl_le (response : DnsResponse) : insertionTtl response ≤ MAX_TTL := Nat.min_le_right _ _

namespace DnsCache

variable {H : KeyHash}

/-- The response as it is stored and returned by an insert. -/
def cacheResponse (key : CacheKey) (response : DnsResponse) (now : ℤ) : DnsResponse :=
  (((response.withNameServerGroup key.group).withValidUntil (now + fromSecs (insertionTtl response)))).setNewTtl
    (insertionTtl response)

/-- The write to an entry that is there already. -/
def refreshEntry (key : CacheKey) (response : DnsResponse) (now : ℤ) (fromPrefetch : Bool)
    (e : DnsCacheEntry) : DnsCacheEntry :=
  { e with
    data := cacheResponse key response now
    validUntil := now + fromSecs (insertionTtl response)
    isInPrefetching := false
    stats := if fromPrefetch then { hits := 1 } else e.stats }

def newEntry (key : CacheKey) (response : DnsResponse) (now : ℤ) : DnsCacheEntry where
  data := cacheResponse key response now
  validUntil := now + fromSecs (insertionTtl response)
  ecs := key.ecs
  opts := key.opts

def insertFullResponse (c : DnsCache H) (key : CacheKey) (response : DnsResponse) (now : ℤ)
    (fromPrefetch : Bool) : DnsCache H × DnsResponse :=
  (if (c.lookup key).isSome then c.modify key (refreshEntry key response now fromPrefetch)
    else c.put key (newEntry key response now),
    cacheResponse key response now)

def get (c : DnsCache H) (key : CacheKey) (now : ℤ) : DnsCache H × Option (DnsResponse × CacheStatus) :=
  (c.modify key (·.hit), (c.lookup key).map fun e =>
    if e.isCurrent now then (e.data.setNewTtl (ceilSecs (e.ttl now)), .valid) else (e.data, .expired))

def markPrefetching (c : DnsCache H) (key : CacheKey) : DnsCache H × Bool :=
  (c.modify key ({ · with isInPrefetching := true }), !((c.lookup key).map (·.isInPrefetching)).getD false)

def setValidUntilForPrefetch (c : DnsCache H) (key : CacheKey) (newValidUntil : ℤ) : DnsCache H :=
  c.modify key fun e => if e.validUntil < newValidUntil then { e with validUntil := newValidUntil } else e

/-- How long an expired entry is kept. -/
def gracePeriod (c : DnsCache H) : ℕ := if c.policy.serveExpired then fromSecs c.policy.expiredTtl else 0

/-- The keys of a shard that a purge removes. -/
def deadKeys (grace : ℕ) (now : ℤ) (l : Lru CacheKey DnsCacheEntry) : List CacheKey :=
  (l.entries.filter fun e => now > e.2.validUntil + grace).map (·.1)

def purgeDeadRecords (c : DnsCache H) (now : ℤ) : DnsCache H × ℕ :=
  (c.onShards (fun l => (deadKeys c.gracePeriod now l).foldl Lru.pop l)
      (fun l => Lru.cap_foldl_pop _ l) fun l e he => ⟨e, Lru.mem_of_mem_foldl_pop _ l e he, rfl⟩,
    ((List.finRange SHARD_COUNT).map fun i => (deadKeys c.gracePeriod now (c.shards i)).length).sum)

/-- `get_expired` takes this entry to be refreshed: no refresh is under way, it holds addresses, it
is expired (or about to, where expired answers are not served), and it was asked for twice. -/
def wantsPrefetch (c : DnsCache H) (now : ℤ) (aheadSecs : ℕ) (key : CacheKey) (e : DnsCacheEntry) : Bool :=
  !e.isInPrefetching && key.query.queryType.isIpAddr &&
    (if c.policy.serveExpired then
      !e.isCurrent now &&
        (c.policy.expiredPrefetchTime = 0 || !(asSecs (durationSince now e.validUntil) < c.policy.expiredPrefetchTime))
    else !e.isCurrent (now + fromSecs aheadSecs)) &&
    decide (2 ≤ e.stats.hits)

def markExpired (e : DnsCacheEntry) : DnsCacheEntry :=
  { e with isInPrefetching := true, stats := { hits := e.stats.hits - 1 } }

/-- `get_expired` looks at this entry only to know when it will run out. -/
def stillCurrent (c : DnsCache H) (now : ℤ) (aheadSecs : ℕ) (key : CacheKey) (e : DnsCacheEntry) : Bool :=
  !e.isInPrefetching && key.query.queryType.isIpAddr &&
    e.isCurrent (if c.policy.serveExpired then now else now + fromSecs aheadSecs)

def entries (c : DnsCache H) : List (CacheKey × DnsCacheEntry) :=
  (List.finRange SHARD_COUNT).flatMap fun i => (c.shards i).entries

/-- The keys to refresh, those with most hits first, and the time until the next entry runs out. -/
def getExpired (c : DnsCache H) (now : ℤ) (secondsAhead : Option ℕ) :
    DnsCache H × List CacheKey × ℕ :=
  let ahead := secondsAhead.getD 5
  (c.onShards (·.mapValues fun key e => if c.wantsPrefetch now ahead key e then markExpired e else e)
      (fun l => l.mapValues_cap _) (fun l e he => by
        obtain ⟨e', he', rfl⟩ := List.mem_map.mp he
        exact ⟨e', he', rfl⟩),
    ((c.entries.filter fun e => c.wantsPrefetch now ahead e.1 e.2).insertionSort
        fun a b => b.2.stats.hits ≤ a.2.stats.hits).map (·.1),
    ((c.entries.filter fun e => c.stillCurrent now ahead e.1 e.2).map (·.2.ttl now)).foldl min (fromSecs MAX_TTL))

/-- The drop of a `PrefetchGuard`. -/
def dropPrefetchGuard (c : DnsCache H) (key : CacheKey) : DnsCache H :=
  c.modify key ({ · with isInPrefetching := false })

/-! ### What a lookup finds afterwards -/

theorem lookup_congr (c : DnsCache H) {key k' : CacheKey} (h : (key == k') = true) :
    c.lookup key = c.lookup k' := by
  rw [lookup, lookup, H.shardOf_congr h]
  exact KeyMap.get?_congr _ h

@[simp] theorem lookup_new (policy : CachePolicy) (cacheSize : ℕ) (key : CacheKey) :
    (new H policy cacheSize).lookup key = none := rfl

theorem lookup_onShard (c : DnsCache H) (key k' : CacheKey) (g : Lru CacheKey DnsCacheEntry → Lru CacheKey DnsCacheEntry)
    (hcap : ∀ l, (g l).cap = l.cap)
    (hg : ∀ l, ∀ e ∈ (g l).entries, (∃ e' ∈ l.entries, e'.1 = e.1) ∨ e.1 = key) :
    (c.onShard key g hcap hg).lookup k' =
      if H.shardOf k' = H.shardOf key then (g (c.shards (H.shardOf key))).get? k' else c.lookup k' := by
  show (Function.update c.shards (H.shardOf key) _ (H.shardOf k')).get? k' = _
  by_cases h : H.shardOf k' = H.shardOf key
  · rw [if_pos h, h, Function.update_self]
  · rw [if_neg h, Function.update_of_ne h]
    rfl

theorem lookup_modify (c : DnsCache H) (key k' : CacheKey) (f : DnsCacheEntry → DnsCacheEntry) :
    (c.modify key f).lookup k' = if key == k' then (c.lookup k').map f else c.lookup k' := by
  rw [modify, lookup_onShard]
  by_cases h : H.shardOf k' = H.shardOf key
  · rw [if_pos h, Lru.get?_modify, lookup, h]
  · have hk : ¬ (key == k') = true := fun hk => h (H.shardOf_congr hk).symm
    rw [if_neg h, if_neg hk]

theorem lookup_put_of_beq (c : DnsCache H) {key k' : CacheKey} (hk : (key == k') = true) (e : DnsCacheEntry) :
    (c.put key e).lookup k' = some e := by
  rw [put, lookup_onShard, if_pos (H.shardOf_congr hk).symm]
  exact Lru.get?_put_of_beq _ hk e

theorem lookup_put_of_not_beq (c : DnsCache H) {key k' : CacheKey} (hk : ¬ (key == k') = true)
    (e : DnsCacheEntry) {w : DnsCacheEntry} (h : (c.put key e).lookup k' = some w) : c.lookup k' = some w := by
  rw [put, lookup_onShard] at h
  by_cases hs : H.shardOf k' = H.shardOf key
  · rw [if_pos hs] at h
    rw [lookup, hs]
    exact Lru.get?_put_of_not_beq _ hk e h
  · rwa [if_neg hs] at h

/-- The entry an insert leaves under its key. -/
def insertedEntry (c : DnsCache H) (key : CacheKey) (response : DnsResponse) (now : ℤ) (fromPrefetch : Bool) :
    DnsCacheEntry :=
  ((c.lookup key).map (refreshEntry key response now fromPrefetch)).getD (newEntry key response now)

theorem lookup_insertFullResponse_of_beq (c : DnsCache H) {key k' : CacheKey} (hk : (key == k') = true)
    (response : DnsResponse) (now : ℤ) (fromPrefetch : Bool) :
    (c.insertFullResponse key response now fromPrefetch).1.lookup k' =
      some (c.insertedEntry key response now fromPrefetch) := by
  unfold insertFullResponse insertedEntry
  cases h : c.lookup key with
  | none => exact c.lookup_put_of_beq hk _
  | some e =>
    show (c.modify key _).lookup k' = _
    rw [lookup_modify, if_pos hk, ← c.lookup_congr hk, h]
    rfl

theorem lookup_insertFullResponse_of_not_beq (c : DnsCache H) {key k' : CacheKey} (hk : ¬ (key == k') = true)
    (response : DnsResponse) (now : ℤ) (fromPrefetch : Bool) {w : DnsCacheEntry}
    (h : (c.insertFullResponse key response now fromPrefetch).1.lookup k' = some w) : c.lookup k' = some w := by
  unfold insertFullResponse at h
  cases hl : c.lookup key with
  | none =>
    rw [hl] at h
    exact c.lookup_put_of_not_beq hk _ h
  | some e =>
    rw [hl] at h
    have h : (c.modify key _).lookup k' = some w := h
    rwa [lookup_modify, if_neg hk] at h

theorem lookup_get (c : DnsCache H) (key k' : CacheKey) (now : ℤ) :
    (c.get key now).1.lookup k' = if key == k' then (c.lookup k').map (·.hit) else c.lookup k' :=
  c.lookup_modify key k' _

theorem lookup_markPrefetching (c : DnsCache H) (key k' : CacheKey) :
    (c.markPrefetching key).1.lookup k' =
      if key == k' then (c.lookup k').map ({ · with isInPrefetching := true }) else c.lookup k' :=
  c.lookup_modify key k' _

theorem lookup_dropPrefetchGuard (c : DnsCache H) (key k' : CacheKey) :
    (c.dropPrefetchGuard key).lookup k' =
      if key == k' then (c.lookup k').map ({ · with isInPrefetching := false }) else c.lookup k' :=
  c.lookup_modify key k' _

theorem lookup_purgeDeadRecords (c : DnsCache H) (now : ℤ) (k' : CacheKey) :
    (c.purgeDeadRecords now).1.lookup k' =
      (c.lookup k').filter fun e => !(now > e.validUntil + c.gracePeriod) := by
  show ((deadKeys c.gracePeriod now (c.shards (H.shardOf k'))).foldl Lru.pop (c.shards (H.shardOf k'))).get? k' =
    ((c.shards (H.shardOf k')).get? k').filter _
  rw [Lru.get?_foldl_pop]
  cases h : (c.shards (H.shardOf k')).get? k' with
  | none => simp
  | some e =>
    obtain ⟨k₀, hk₀, hmem⟩ := (KeyMap.get?_eq_some_iff _ _ _).mp h
    have hdead : (deadKeys c.gracePeriod now (c.shards (H.shardOf k'))).any (· == k') = true ↔
        now > e.validUntil + c.gracePeriod := by
      constructor
      · intro hany
        obtain ⟨k₁, hk₁, hkk⟩ := List.any_eq_true.mp hany
        obtain ⟨x, hx, rfl⟩ := List.mem_map.mp hk₁
        obtain ⟨hxm, hxd⟩ := List.mem_filter.mp hx
        have hx2 : (c.shards (H.shardOf k')).get? k' = some x.2 :=
          (KeyMap.get?_eq_some_iff _ _ _).mpr ⟨x.1, hkk, hxm⟩
        obtain rfl : x.2 = e := Option.some.inj (hx2.symm.trans h)
        simpa using hxd
      · intro hd
        exact List.any_eq_true.mpr ⟨k₀, List.mem_map.mpr ⟨(k₀, e), List.mem_filter.mpr ⟨hmem, by simpa using hd⟩, rfl⟩, hk₀⟩
    by_cases hd : now > e.validUntil + c.gracePeriod
    · rw [if_pos (hdead.mpr hd), Option.filter_some_neg (by simpa using hd)]
    · rw [if_neg (fun h => hd (hdead.mp h)), Option.filter_some_pos (by simpa using hd)]

theorem wantsPrefetch_congr (c : DnsCache H) (now : ℤ) (ahead : ℕ) {a b : CacheKey} (h : (a == b) = true)
    (e : DnsCacheEntry) : c.wantsPrefetch now ahead a e = c.wantsPrefetch now ahead b e := by
  have := (Query.beq_iff.mp (CacheKey.beq_iff.mp h).1).2.1
  rw [wantsPrefetch, wantsPrefetch, this]

theorem lookup_getExpired (c : DnsCache H) (now : ℤ) (ahead : Option ℕ) (k' : CacheKey) :
    (c.getExpired now ahead).1.lookup k' = (c.lookup k').map fun e =>
      if c.wantsPrefetch now (ahead.getD 5) k' e then markExpired e else e := by
  refine Lru.get?_mapValues _ (fun a b e h => ?_) k'
  rw [c.wantsPrefetch_congr now _ h]

theorem lookup_of_mem_entries (c : DnsCache H) {e : CacheKey × DnsCacheEntry} (h : e ∈ c.entries) :
    c.lookup e.1 = some e.2 := by
  obtain ⟨i, -, he⟩ := List.mem_flatMap.mp h
  rw [lookup, c.placed i e he]
  exact (KeyMap.get?_eq_some_iff _ _ _).mpr ⟨e.1, BEq.rfl, he⟩

/-! ### Sweeps of one shard -/

/-- An operation on shard `i`. -/
def atShard (c : DnsCache H) (i : Fin SHARD_COUNT) (g : Lru CacheKey DnsCacheEntry → Lru CacheKey DnsCacheEntry)
    (hcap : ∀ l, (g l).cap = l.cap)
    (hg : ∀ l, ∀ e ∈ (g l).entries, ∃ e' ∈ l.entries, e'.1 = e.1) : DnsCache H where
  policy := c.policy
  shardSize := c.shardSize
  shards := Function.update c.shards i (g (c.shards i))
  sized j := by
    by_cases hj : j = i
    · rw [hj, Function.update_self, hcap, c.sized]
    · rw [Function.update_of_ne hj, c.sized]
  placed j e he := by
    by_cases hj : j = i
    · subst hj
      rw [Function.update_self] at he
      obtain ⟨e', he', h⟩ := hg _ e he
      exact h ▸ c.placed _ e' he'
    · rw [Function.update_of_ne hj] at he
      exact c.placed j e he

theorem lookup_atShard (c : DnsCache H) (i : Fin SHARD_COUNT) (key : CacheKey)
    (g : Lru CacheKey DnsCacheEntry → Lru CacheKey DnsCacheEntry) (hcap : ∀ l, (g l).cap = l.cap)
    (hg : ∀ l, ∀ e ∈ (g l).entries, ∃ e' ∈ l.entries, e'.1 = e.1) :
    (c.atShard i g hcap hg).lookup key = if H.shardOf key = i then (g (c.shards i)).get? key else c.lookup key := by
  show (Function.update c.shards i _ (H.shardOf key)).get? key = _
  by_cases h : H.shardOf key = i
  · rw [if_pos h, h, Function.update_self]
  · rw [if_neg h, Function.update_of_ne h]
    rfl

/-- The keys of shard `i` that `get_expired` takes. -/
def expiredKeys (c : DnsCache H) (i : Fin SHARD_COUNT) (now : ℤ) (secondsAhead : Option ℕ) : List CacheKey :=
  ((c.shards i).entries.filter fun e => c.wantsPrefetch now (secondsAhead.getD 5) e.1 e.2).map (·.1)

/-- `get_expired` on shard `i`. -/
def getExpiredShard (c : DnsCache H) (i : Fin SHARD_COUNT) (now : ℤ) (secondsAhead : Option ℕ) : DnsCache H :=
  c.atShard i (·.mapValues fun key e => if c.wantsPrefetch now (secondsAhead.getD 5) key e then markExpired e else e)
    (fun l => l.mapValues_cap _) fun l e he => by
      obtain ⟨e', he', rfl⟩ := List.mem_map.mp he
      exact ⟨e', he', rfl⟩

/-- `purge_dead_records` on shard `i`. -/
def purgeShard (c : DnsCache H) (i : Fin SHARD_COUNT) (now : ℤ) : DnsCache H :=
  c.atShard i (fun l => (deadKeys c.gracePeriod now l).foldl Lru.pop l) (fun l => Lru.cap_foldl_pop _ l)
    fun l e he => ⟨e, Lru.mem_of_mem_foldl_pop _ l e he, rfl⟩

/-- `clear` on shard `i`. -/
def clearShard (c : DnsCache H) (i : Fin SHARD_COUNT) : DnsCache H :=
  c.atShard i (fun l => Lru.new l.cap l.capPos) (fun l => Lru.new_cap l.cap l.capPos) fun _ _ he => by cases he

/-- A shard is left as the sweep of all shards leaves it. -/
theorem lookup_getExpiredShard (c : DnsCache H) (i : Fin SHARD_COUNT) (now : ℤ) (ahead : Option ℕ) (key : CacheKey) :
    (c.getExpiredShard i now ahead).lookup key =
      if H.shardOf key = i then (c.getExpired now ahead).1.lookup key else c.lookup key := by
  rw [getExpiredShard, lookup_atShard]
  by_cases h : H.shardOf key = i
  · rw [if_pos h, if_pos h, ← h]
    rfl
  · rw [if_neg h, if_neg h]

theorem lookup_purgeShard (c : DnsCache H) (i : Fin SHARD_COUNT) (now : ℤ) (key : CacheKey) :
    (c.purgeShard i now).lookup key =
      if H.shardOf key = i then (c.purgeDeadRecords now).1.lookup key else c.lookup key := by
  rw [purgeShard, lookup_atShard]
  by_cases h : H.shardOf key = i
  · rw [if_pos h, if_pos h, ← h]
    rfl
  · rw [if_neg h, if_neg h]

theorem lookup_clearShard (c : DnsCache H) (i : Fin SHARD_COUNT) (key : CacheKey) :
    (c.clearShard i).lookup key = if H.shardOf key = i then none else c.lookup key := by
  rw [clearShard, lookup_atShard]
  rfl

/-- A taken key is that of an entry that wants a refresh. -/
theorem mem_expiredKeys {c : DnsCache H} {i : Fin SHARD_COUNT} {now : ℤ} {ahead : Option ℕ} {key : CacheKey}
    (h : key ∈ c.expiredKeys i now ahead) :
    H.shardOf key = i ∧ ∃ e, c.lookup key = some e ∧ c.wantsPrefetch now (ahead.getD 5) key e = true := by
  obtain ⟨⟨k, e⟩, he, rfl⟩ := List.mem_map.mp h
  obtain ⟨hmem, hw⟩ := List.mem_filter.mp he
  have hi := c.placed i _ hmem
  refine ⟨hi, e, ?_, hw⟩
  rw [lookup, hi]
  exact (KeyMap.get?_eq_some_iff _ _ _).mpr ⟨k, BEq.rfl, hmem⟩

theorem exists_mem_expiredKeys {c : DnsCache H} {i : Fin SHARD_COUNT} {now : ℤ} {ahead : Option ℕ}
    {key : CacheKey} {e : DnsCacheEntry} (hi : H.shardOf key = i) (he : c.lookup key = some e)
    (hw : c.wantsPrefetch now (ahead.getD 5) key e = true) :
    ∃ k ∈ c.expiredKeys i now ahead, (k == key) = true := by
  rw [lookup, hi] at he
  obtain ⟨k, hk, hmem⟩ := (KeyMap.get?_eq_some_iff _ _ _).mp he
  rw [← c.wantsPrefetch_congr now _ hk] at hw
  exact ⟨k, List.mem_map.mpr ⟨(k, e), List.mem_filter.mpr ⟨hmem, hw⟩, rfl⟩, hk⟩

theorem expiredKeys_distinct (c : DnsCache H) (i : Fin SHARD_COUNT) (now : ℤ) (ahead : Option ℕ) :
    (c.expiredKeys i now ahead).Pairwise fun a b => (a == b) = false :=
  List.pairwise_map.mpr ((c.shards i).distinct.filter _)

end DnsCache
end Cache
end SmartDns
