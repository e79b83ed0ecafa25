/-
# The selection of the prefetch task

`DnsCache::get_expired` walks the shards, one lock at a time. It marks each entry
that is to be refreshed, takes one from its hits, and keeps its key in a hash map
with the hits it had; the keys of the map go out with the highest hits first, in
the order the map happens to have among equals. Left alone, the loop is the closed
form `getExpired` of the store (`getExpired_eq_sweepExpired`). It selects the entries
the policy names and touches no other, and a key it took is not taken again as long
as its refresh is under way (`getExpired_selects`), also when clients and other
tasks come in between and between the shards.

Key definitions: `ExpiredSweep`, `ExpiredSweep.visit`, `DnsCache.sweepExpired`,
`rankByHits`, `Selected`, `NoCompletion`, `PrefetchSelection`.
Key theorems: `getExpired_eq_sweepExpired`, `toPrefetch_collect`, `getExpired_selects`.
-/
import SmartDns.Cache.Prefetch

namespace SmartDns
namespace Cache

open Dns Lib

/-! ### The loop -/

/-- What `get_expired` keeps while it walks: `most_recent` and `to_prefetch`. -/
structure ExpiredSweep where
  mostRecent : ℕ := fromSecs MAX_TTL
  toPrefetch : KeyMap CacheKey ℕ := KeyMap.empty

namespace ExpiredSweep

/-- `to_prefetch` with a key that is to be refreshed, under the higher of its hits. -/
def keep (toPrefetch : KeyMap CacheKey ℕ) (key : CacheKey) (hitsForOrdering : ℕ) : KeyMap CacheKey ℕ :=
  toPrefetch.insert key (max ((toPrefetch.get? key).getD 0) hitsForOrdering)

def take (s : ExpiredSweep) (key : CacheKey) (entry : DnsCacheEntry) : ExpiredSweep × DnsCacheEntry :=
  ({ s with toPrefetch := keep s.toPrefetch key entry.stats.hits }, DnsCache.markExpired entry)

def passOver (s : ExpiredSweep) (now : ℤ) (entry : DnsCacheEntry) : ExpiredSweep × DnsCacheEntry :=
  ({ s with mostRecent := min s.mostRecent (entry.ttl now) }, entry)

/-- What is done with one entry. -/
def visit (policy : CachePolicy) (now : ℤ) (aheadSecs : ℕ) (s : ExpiredSweep) (key : CacheKey)
    (entry : DnsCacheEntry) : ExpiredSweep × DnsCacheEntry :=
  if entry.isInPrefetching then (s, entry)
  else if !key.query.queryType.isIpAddr then (s, entry)
  else
    let isFrequent := decide (2 ≤ entry.stats.hits)
    if policy.serveExpired then
      if entry.isCurrent now then s.passOver now entry
      else if 0 < policy.expiredPrefetchTime then
        if asSecs (durationSince now entry.validUntil) < policy.expiredPrefetchTime then (s, entry)
        else if !isFrequent then (s, entry)
        else s.take key entry
      else if !isFrequent then (s, entry)
      else s.take key entry
    else if entry.isCurrent (now + fromSecs aheadSecs) then s.passOver now entry
    else if !isFrequent then (s, entry)
    else s.take key entry

end ExpiredSweep

variable {H : KeyHash}

namespace DnsCache

/-- The loop over shard `i`. -/
def sweepShard (c : DnsCache H) (i : Fin SHARD_COUNT) (now : ℤ) (secondsAhead : Option ℕ) (s : ExpiredSweep) :
    DnsCache H × ExpiredSweep :=
  (c.atShard i (fun l => (l.walk (ExpiredSweep.visit c.policy now (secondsAhead.getD 5)) s).2)
      (fun l => l.walk_cap _ s) fun l => l.key_of_mem_walk _ s,
    ((c.shards i).walk (ExpiredSweep.visit c.policy now (secondsAhead.getD 5)) s).1)

/-- The loop over all shards, with nothing between them. -/
def sweepExpired (c : DnsCache H) (now : ℤ) (secondsAhead : Option ℕ) : DnsCache H × ExpiredSweep :=
  (List.finRange SHARD_COUNT).foldl (fun r i => r.1.sweepShard i now secondsAhead r.2) (c, {})

/-- What the loop keeps where it finds the cache as `seen i` when it locks shard `i`. -/
def collect (seen : Fin SHARD_COUNT → DnsCache H) (now : ℤ) (secondsAhead : Option ℕ) : ExpiredSweep :=
  (List.finRange SHARD_COUNT).foldl (fun s i => ((seen i).sweepShard i now secondsAhead s).2) {}

end DnsCache

/-- The keys of `to_prefetch`, which comes as `expired` out of the map, with most hits first. -/
def rankByHits (expired : List (CacheKey × ℕ)) : List CacheKey :=
  (expired.insertionSort fun a b => b.2 ≤ a.2).map (·.1)

/-! ### One entry -/

namespace ExpiredSweep

/-- **What is done with one entry**: it is taken, passed over, or left. -/
theorem visit_eq (c : DnsCache H) (now : ℤ) (aheadSecs : ℕ) (s : ExpiredSweep) (key : CacheKey)
    (entry : DnsCacheEntry) : visit c.policy now aheadSecs s key entry =
      if c.wantsPrefetch now aheadSecs key entry then s.take key entry
      else if c.stillCurrent now aheadSecs key entry then s.passOver now entry
      else (s, entry) := by
  unfold visit DnsCache.wantsPrefetch DnsCache.stillCurrent
  by_cases hmark : entry.isInPrefetching = true
  · simp [hmark]
  · by_cases hip : key.query.queryType.isIpAddr = true
    · by_cases hserve : c.policy.serveExpired = true
      · by_cases hcur : entry.isCurrent now = true
        · simp [hmark, hip, hserve, hcur]
        · by_cases htime : c.policy.expiredPrefetchTime = 0
          · by_cases hfreq : 2 ≤ entry.stats.hits <;> simp [hmark, hip, hserve, hcur, htime, hfreq]
          · have hpos : 0 < c.policy.expiredPrefetchTime := Nat.pos_of_ne_zero htime
            by_cases hlong : asSecs (durationSince now entry.validUntil) < c.policy.expiredPrefetchTime
            · simp [hmark, hip, hserve, hcur, htime, hpos, hlong]
            · by_cases hfreq : 2 ≤ entry.stats.hits <;>
                simp [hmark, hip, hserve, hcur, htime, hpos, hlong, hfreq]
      · by_cases hcur : entry.isCurrent (now + fromSecs aheadSecs) = true
        · simp [hmark, hip, hserve, hcur]
        · by_cases hfreq : 2 ≤ entry.stats.hits <;> simp [hmark, hip, hserve, hcur, hfreq]
    · simp [hmark, hip]

theorem wantsPrefetch_of_stillCurrent {c : DnsCache H} {now : ℤ} {aheadSecs : ℕ} {key : CacheKey}
    {entry : DnsCacheEntry} (h : c.stillCurrent now aheadSecs key entry = true) :
    c.wantsPrefetch now aheadSecs key entry = false := by
  unfold DnsCache.stillCurrent at h
  unfold DnsCache.wantsPrefetch
  by_cases hserve : c.policy.serveExpired = true
  · have hcur : entry.isCurrent now = true := by simp_all
    simp [hserve, hcur]
  · have hcur : entry.isCurrent (now + fromSecs aheadSecs) = true := by simp_all
    simp [hserve, hcur]

theorem visit_snd (c : DnsCache H) (now : ℤ) (aheadSecs : ℕ) (s : ExpiredSweep) (key : CacheKey)
    (entry : DnsCacheEntry) : (visit c.policy now aheadSecs s key entry).2 =
      if c.wantsPrefetch now aheadSecs key entry then DnsCache.markExpired entry else entry := by
  rw [visit_eq]
  by_cases hw : c.wantsPrefetch now aheadSecs key entry = true
  · rw [if_pos hw, if_pos hw]
    rfl
  · rw [if_neg hw, if_neg hw]
    split <;> rfl

/-- The keys to refresh among `es`, with their hits. -/
def wanted (c : DnsCache H) (now : ℤ) (aheadSecs : ℕ) (es : List (CacheKey × DnsCacheEntry)) :
    List (CacheKey × ℕ) :=
  (es.filter fun e => c.wantsPrefetch now aheadSecs e.1 e.2).map fun e => (e.1, e.2.stats.hits)

/-- How long the entries among `es` that are passed over will last. -/
def lasting (c : DnsCache H) (now : ℤ) (aheadSecs : ℕ) (es : List (CacheKey × DnsCacheEntry)) : List ℕ :=
  (es.filter fun e => c.stillCurrent now aheadSecs e.1 e.2).map (·.2.ttl now)

theorem wanted_cons (c : DnsCache H) (now : ℤ) (aheadSecs : ℕ) (e : CacheKey × DnsCacheEntry)
    (es : List (CacheKey × DnsCacheEntry)) : wanted c now aheadSecs (e :: es) =
      if c.wantsPrefetch now aheadSecs e.1 e.2 then (e.1, e.2.stats.hits) :: wanted c now aheadSecs es
      else wanted c now aheadSecs es := by
  unfold wanted
  rw [List.filter_cons]
  split <;> rfl

theorem lasting_cons (c : DnsCache H) (now : ℤ) (aheadSecs : ℕ) (e : CacheKey × DnsCacheEntry)
    (es : List (CacheKey × DnsCacheEntry)) : lasting c now aheadSecs (e :: es) =
      if c.stillCurrent now aheadSecs e.1 e.2 then e.2.ttl now :: lasting c now aheadSecs es
      else lasting c now aheadSecs es := by
  unfold lasting
  rw [List.filter_cons]
  split <;> rfl

def keepAll (toPrefetch : KeyMap CacheKey ℕ) (ks : List (CacheKey × ℕ)) : KeyMap CacheKey ℕ :=
  ks.foldl (fun m e => keep m e.1 e.2) toPrefetch

/-- What the loop keeps of the entries `es`. -/
theorem foldl_visit (c : DnsCache H) (now : ℤ) (aheadSecs : ℕ) : ∀ (es : List (CacheKey × DnsCacheEntry))
    (s : ExpiredSweep), es.foldl (fun s e => (visit c.policy now aheadSecs s e.1 e.2).1) s =
      { mostRecent := (lasting c now aheadSecs es).foldl min s.mostRecent
        toPrefetch := keepAll s.toPrefetch (wanted c now aheadSecs es) }
  | [], _ => rfl
  | (key, entry) :: es, s => by
    rw [List.foldl_cons, foldl_visit c now aheadSecs es, visit_eq, wanted_cons, lasting_cons]
    by_cases hw : c.wantsPrefetch now aheadSecs key entry = true
    · have hs : ¬ c.stillCurrent now aheadSecs key entry = true := fun hs => by
        rw [wantsPrefetch_of_stillCurrent hs] at hw
        cases hw
      rw [if_pos hw, if_pos hw, if_neg hs]
      rfl
    · rw [if_neg hw, if_neg hw]
      by_cases hs : c.stillCurrent now aheadSecs key entry = true
      · rw [if_pos hs, if_pos hs]
        rfl
      · rw [if_neg hs, if_neg hs]

/-- Keys that are not there yet, and differ from each other, go into the map one behind another. -/
theorem keepAll_entries : ∀ (ks : List (CacheKey × ℕ)) (m : KeyMap CacheKey ℕ),
    (m.entries ++ ks).Pairwise (fun a b => (a.1 == b.1) = false) → (keepAll m ks).entries = m.entries ++ ks
  | [], m, _ => (List.append_nil m.entries).symm
  | (key, hits) :: ks, m, h => by
    have hnew : ∀ e ∈ m.entries, (e.1 == key) = false :=
      fun e he => (List.pairwise_append.mp h).2.2 e he (key, hits) List.mem_cons_self
    have hany : m.entries.any (·.1 == key) = false := List.any_eq_false.mpr fun e he => by simp [hnew e he]
    have hfind : m.get? key = none := by
      rw [KeyMap.get?, List.find?_eq_none.mpr fun e he => by simp [hnew e he]]
      rfl
    have hput : (keep m key hits).entries = m.entries ++ [(key, hits)] := by
      show KeyMap.updateEntries key _ m.entries = _
      rw [KeyMap.updateEntries_of_not_any _ hany, hfind, Option.getD_none, Nat.zero_max]
    show (keepAll (keep m key hits) ks).entries = _
    rw [keepAll_entries ks, hput, List.append_assoc]
    · rfl
    · rw [hput, List.append_assoc]
      exact h

end ExpiredSweep

/-! ### All shards -/

namespace DnsCache

open ExpiredSweep

theorem sweepShard_eq (c : DnsCache H) (i : Fin SHARD_COUNT) (now : ℤ) (secondsAhead : Option ℕ) (s : ExpiredSweep) :
    c.sweepShard i now secondsAhead s = (c.getExpiredShard i now secondsAhead,
      { mostRecent := (lasting c now (secondsAhead.getD 5) (c.shards i).entries).foldl min s.mostRecent
        toPrefetch := keepAll s.toPrefetch (wanted c now (secondsAhead.getD 5) (c.shards i).entries) }) := by
  have hwalk (l : Lru CacheKey DnsCacheEntry) :=
    l.walk_eq (visit_snd c now (secondsAhead.getD 5)) s
  unfold sweepShard getExpiredShard
  simp only [hwalk, foldl_visit]

theorem ext_of_shards {c c' : DnsCache H} (hpolicy : c.policy = c'.policy) (hsize : c.shardSize = c'.shardSize)
    (hshards : c.shards = c'.shards) : c = c' := by
  cases c
  cases c'
  simp_all

/-- Shard `i` alone decides what its loop keeps. -/
theorem sweepShard_snd_congr {c c' : DnsCache H} {i : Fin SHARD_COUNT} (hpolicy : c'.policy = c.policy)
    (hshard : c'.shards i = c.shards i) (now : ℤ) (secondsAhead : Option ℕ) (s : ExpiredSweep) :
    (c'.sweepShard i now secondsAhead s).2 = (c.sweepShard i now secondsAhead s).2 := by
  show ((c'.shards i).walk (visit c'.policy now (secondsAhead.getD 5)) s).1 = _
  rw [hpolicy, hshard]
  rfl

theorem getExpiredShard_shards {c c' : DnsCache H} {i : Fin SHARD_COUNT} (hpolicy : c'.policy = c.policy)
    (hshard : c'.shards i = c.shards i) (now : ℤ) (secondsAhead : Option ℕ) (j : Fin SHARD_COUNT) :
    (c'.getExpiredShard i now secondsAhead).shards j =
      if j = i then (c.getExpired now secondsAhead).1.shards j else c'.shards j := by
  show Function.update c'.shards i _ j = _
  by_cases hj : j = i
  · subst hj
    rw [if_pos rfl, Function.update_self, hshard]
    show (c.shards j).mapValues (fun key e =>
      if c'.wantsPrefetch now (secondsAhead.getD 5) key e then markExpired e else e) = _
    unfold wantsPrefetch
    rw [hpolicy]
    rfl
  · rw [if_neg hj, Function.update_of_ne hj]

/-- The loop over shards that stand as in `c`, whatever became of the others. -/
theorem foldl_sweepShard (c : DnsCache H) (now : ℤ) (secondsAhead : Option ℕ) :
    ∀ (is : List (Fin SHARD_COUNT)) (c' : DnsCache H) (s : ExpiredSweep), is.Nodup → c'.policy = c.policy →
      (∀ i ∈ is, c'.shards i = c.shards i) →
      let r := is.foldl (fun r i => r.1.sweepShard i now secondsAhead r.2) (c', s)
      r.2 = is.foldl (fun s i => (c.sweepShard i now secondsAhead s).2) s ∧
        r.1.policy = c.policy ∧ r.1.shardSize = c'.shardSize ∧
        ∀ j, r.1.shards j = if j ∈ is then (c.getExpired now secondsAhead).1.shards j else c'.shards j
  | [], c', s, _, hpolicy, _ => ⟨rfl, hpolicy, rfl, fun j => rfl⟩
  | i :: is, c', s, hnodup, hpolicy, hsame => by
    obtain ⟨hi, hnodup⟩ := List.nodup_cons.mp hnodup
    have hshard := hsame i List.mem_cons_self
    have hfst : (c'.sweepShard i now secondsAhead s).1 = c'.getExpiredShard i now secondsAhead := by
      rw [sweepShard_eq]
    have hnext := fun j => getExpiredShard_shards hpolicy hshard now secondsAhead j
    have hsame' : ∀ j ∈ is, (c'.getExpiredShard i now secondsAhead).shards j = c.shards j := by
      intro j hj
      have hne : j ≠ i := fun h => hi (h ▸ hj)
      rw [hnext, if_neg hne]
      exact hsame j (List.mem_cons_of_mem _ hj)
    obtain ⟨hsnd, hpol, hsize, hshards⟩ := foldl_sweepShard c now secondsAhead is
      (c'.sweepShard i now secondsAhead s).1 (c'.sweepShard i now secondsAhead s).2 hnodup hpolicy (hfst ▸ hsame')
    refine ⟨?_, hpol, hsize, fun j => ?_⟩
    · rw [List.foldl_cons, List.foldl_cons, ← sweepShard_snd_congr hpolicy hshard]
      exact hsnd
    · rw [List.foldl_cons, hshards, hfst, hnext]
      by_cases hj : j = i
      · simp [hj]
      · by_cases hjs : j ∈ is <;> simp [hj, hjs]

theorem foldl_collect (seen : Fin SHARD_COUNT → DnsCache H) (now : ℤ) (secondsAhead : Option ℕ) :
    ∀ (is : List (Fin SHARD_COUNT)) (s : ExpiredSweep),
      is.foldl (fun s i => ((seen i).sweepShard i now secondsAhead s).2) s =
        { mostRecent := (is.flatMap fun i =>
            lasting (seen i) now (secondsAhead.getD 5) ((seen i).shards i).entries).foldl min s.mostRecent
          toPrefetch := keepAll s.toPrefetch (is.flatMap fun i =>
            wanted (seen i) now (secondsAhead.getD 5) ((seen i).shards i).entries) }
  | [], _ => rfl
  | i :: is, s => by
    rw [List.foldl_cons, foldl_collect seen now secondsAhead is, sweepShard_eq, List.flatMap_cons, List.flatMap_cons,
      List.foldl_append]
    unfold keepAll
    rw [List.foldl_append]

/-- The keys that are taken, with the hits they have when their shard is locked. -/
def taken (seen : Fin SHARD_COUNT → DnsCache H) (now : ℤ) (secondsAhead : Option ℕ) : List (CacheKey × ℕ) :=
  (List.finRange SHARD_COUNT).flatMap fun i =>
    wanted (seen i) now (secondsAhead.getD 5) ((seen i).shards i).entries

theorem mem_wanted {c : DnsCache H} {i : Fin SHARD_COUNT} {now : ℤ} {aheadSecs : ℕ} {k : CacheKey × ℕ}
    (hk : k ∈ wanted c now aheadSecs (c.shards i).entries) :
    H.shardOf k.1 = i ∧
      ∃ e, c.lookup k.1 = some e ∧ c.wantsPrefetch now aheadSecs k.1 e = true ∧ k.2 = e.stats.hits := by
  obtain ⟨⟨key, e⟩, he, rfl⟩ := List.mem_map.mp hk
  obtain ⟨hmem, hw⟩ := List.mem_filter.mp he
  have hi : H.shardOf key = i := c.placed i _ hmem
  refine ⟨hi, e, ?_, hw, rfl⟩
  rw [lookup, hi]
  exact (KeyMap.get?_eq_some_iff _ _ _).mpr ⟨key, BEq.rfl, hmem⟩

/-- No key is taken twice: a shard has it once, and no other shard has it. -/
theorem taken_distinct (seen : Fin SHARD_COUNT → DnsCache H) (now : ℤ) (secondsAhead : Option ℕ) :
    (taken seen now secondsAhead).Pairwise fun a b => (a.1 == b.1) = false := by
  unfold taken
  refine List.pairwise_flatMap.mpr ⟨fun i _ => ?_, ?_⟩
  · exact List.pairwise_map.mpr (((seen i).shards i).distinct.filter _)
  · refine (List.nodup_finRange SHARD_COUNT).imp fun hij a ha b hb => ?_
    rw [Bool.eq_false_iff]
    intro hab
    exact hij ((mem_wanted ha).1.symm.trans ((H.shardOf_congr hab).trans (mem_wanted hb).1))

/-- **What the loop puts into `to_prefetch`**, whatever happens between the shards. -/
theorem toPrefetch_collect (seen : Fin SHARD_COUNT → DnsCache H) (now : ℤ) (secondsAhead : Option ℕ) :
    (collect seen now secondsAhead).toPrefetch.entries = taken seen now secondsAhead := by
  unfold collect
  rw [foldl_collect]
  exact keepAll_entries _ KeyMap.empty (taken_distinct seen now secondsAhead)

theorem taken_const (c : DnsCache H) (now : ℤ) (secondsAhead : Option ℕ) :
    taken (fun _ => c) now secondsAhead = wanted c now (secondsAhead.getD 5) c.entries := by
  unfold taken wanted entries
  rw [List.filter_flatMap, List.map_flatMap]

theorem sweepExpired_snd (c : DnsCache H) (now : ℤ) (secondsAhead : Option ℕ) :
    (c.sweepExpired now secondsAhead).2 = collect (fun _ => c) now secondsAhead :=
  (c.foldl_sweepShard now secondsAhead (List.finRange SHARD_COUNT) c {} (List.nodup_finRange SHARD_COUNT) rfl
    fun _ _ => rfl).1

theorem sweepExpired_fst (c : DnsCache H) (now : ℤ) (secondsAhead : Option ℕ) :
    (c.sweepExpired now secondsAhead).1 = (c.getExpired now secondsAhead).1 := by
  obtain ⟨-, hpolicy, hsize, hshards⟩ := c.foldl_sweepShard now secondsAhead (List.finRange SHARD_COUNT) c {}
    (List.nodup_finRange SHARD_COUNT) rfl fun _ _ => rfl
  refine ext_of_shards hpolicy hsize (funext fun j => ?_)
  have hj := hshards j
  rwa [if_pos (List.mem_finRange j)] at hj

/-- **The loop, left alone, computes `getExpired`.** -/
theorem getExpired_eq_sweepExpired (c : DnsCache H) (now : ℤ) (secondsAhead : Option ℕ) :
    c.getExpired now secondsAhead = ((c.sweepExpired now secondsAhead).1,
      rankByHits (c.sweepExpired now secondsAhead).2.toPrefetch.entries,
      (c.sweepExpired now secondsAhead).2.mostRecent) := by
  have hkeys : (c.getExpired now secondsAhead).2.1 =
      rankByHits (c.sweepExpired now secondsAhead).2.toPrefetch.entries := by
    rw [sweepExpired_snd, toPrefetch_collect, taken_const]
    unfold rankByHits wanted
    rw [← List.map_insertionSort (fun a b => b.2.stats.hits ≤ a.2.stats.hits) _ _ _ fun _ _ _ _ => Iff.rfl,
      List.map_map]
    rfl
  have hrecent : (c.getExpired now secondsAhead).2.2 = (c.sweepExpired now secondsAhead).2.mostRecent := by
    rw [sweepExpired_snd]
    unfold collect
    rw [foldl_collect]
    show _ = ((List.finRange SHARD_COUNT).flatMap fun i =>
      lasting c now (secondsAhead.getD 5) (c.shards i).entries).foldl min (fromSecs MAX_TTL)
    unfold lasting
    rw [← List.map_flatMap, ← List.filter_flatMap]
    rfl
  rw [sweepExpired_fst, ← hkeys, ← hrecent]

end DnsCache

/-! ### The selection -/

/-- By the policy the entry is to be refreshed at `now`. -/
def Due (policy : CachePolicy) (now : ℤ) (aheadSecs : ℕ) (entry : DnsCacheEntry) : Prop :=
  if policy.serveExpired then
    if policy.expiredPrefetchTime = 0 then entry.validUntil < now
    else entry.validUntil + fromSecs policy.expiredPrefetchTime ≤ now
  else entry.validUntil < now + fromSecs aheadSecs

/-- The entries the prefetch task is to refresh. -/
structure Selected (policy : CachePolicy) (now : ℤ) (aheadSecs : ℕ) (key : CacheKey)
    (entry : DnsCacheEntry) : Prop where
  unmarked : entry.isInPrefetching = false
  address : key.query.queryType = .A ∨ key.query.queryType = .AAAA
  frequent : 2 ≤ entry.stats.hits
  due : Due policy now aheadSecs entry

/-- The hits of the entry under `key`. -/
def DnsCache.hitsOf (c : DnsCache H) (key : CacheKey) : ℕ := ((c.lookup key).map (·.stats.hits)).getD 0

/-- The event stores no answer under `key` and ends no refresh of it. -/
def NoCompletion (key : CacheKey) (s : DnsCacheMiddleware H) (_ : ℤ) : CacheEvent → Prop
  | .insertFullResponse k _ _ => (k == key) = false
  | .dropGuard n => ∀ g, s.guards[n]? = some g → (g.key == key) = false
  | _ => True

/-- What a call of `get_expired` owes: from `c` it makes `c'` and gives out `keys`. -/
structure PrefetchSelection (c : DnsCache H) (now : ℤ) (secondsAhead : Option ℕ) (c' : DnsCache H)
    (keys : List CacheKey) : Prop where
  selected : ∀ key, (∃ k ∈ keys, (k == key) = true) ↔
    ∃ e, c.lookup key = some e ∧ Selected c.policy now (secondsAhead.getD 5) key e
  once : keys.Pairwise fun a b => (a == b) = false
  ranked : keys.Pairwise fun a b => c.hitsOf b ≤ c.hitsOf a
  marked : ∀ key e, c.lookup key = some e → Selected c.policy now (secondsAhead.getD 5) key e →
    c'.lookup key = some { e with isInPrefetching := true, stats := { e.stats with hits := e.stats.hits - 1 } }
  kept : ∀ key, (∀ e, c.lookup key = some e → ¬ Selected c.policy now (secondsAhead.getD 5) key e) →
    c'.lookup key = c.lookup key
  places : ∀ i, (c'.shards i).entries.map (·.1) = (c.shards i).entries.map (·.1)
  /-- A later call that has seen no completion of the refresh, whenever it comes to each shard. -/
  notAgain : ∀ key ∈ keys, ∀ s : DnsCacheMiddleware H, s.cache = c' →
    ∀ es : Fin SHARD_COUNT → List (ℤ × CacheEvent),
      (∀ i, Meets DnsCacheMiddleware.step (NoCompletion key) s (es i)) →
      ∀ now' secondsAhead' expired', expired'.Perm (DnsCache.collect
          (fun i => (run DnsCacheMiddleware.step s (es i)).cache) now' secondsAhead').toPrefetch.entries →
        ∀ k ∈ rankByHits expired', (k == key) = false

theorem selected_iff {c : DnsCache H} {now : ℤ} {aheadSecs : ℕ} {key : CacheKey} {e : DnsCacheEntry} :
    Selected c.policy now aheadSecs key e ↔ c.wantsPrefetch now aheadSecs key e = true := by
  have haddress : key.query.queryType.isIpAddr = true ↔ key.query.queryType = .A ∨ key.query.queryType = .AAAA := by
    cases key.query.queryType <;> simp [RecordType.isIpAddr]
  have hdue : Due c.policy now aheadSecs e ↔
      (if c.policy.serveExpired then !e.isCurrent now && (c.policy.expiredPrefetchTime = 0 ||
        !(asSecs (durationSince now e.validUntil) < c.policy.expiredPrefetchTime))
      else !e.isCurrent (now + fromSecs aheadSecs)) = true := by
    unfold Due DnsCacheEntry.isCurrent
    by_cases hserve : c.policy.serveExpired = true
    · rw [if_pos hserve, if_pos hserve]
      by_cases htime : c.policy.expiredPrefetchTime = 0
      · simp [htime]
      · rw [if_neg htime]
        simp only [htime, decide_false, Bool.false_or, Bool.and_eq_true, Bool.not_eq_true', decide_eq_false_iff_not,
          not_le, not_lt]
        unfold asSecs durationSince fromSecs
        omega
    · rw [if_neg hserve, if_neg hserve]
      simp
  unfold DnsCache.wantsPrefetch
  rw [Bool.and_eq_true, Bool.and_eq_true, Bool.and_eq_true, ← hdue, haddress, Bool.not_eq_true', decide_eq_true_iff]
  exact ⟨fun h => ⟨⟨⟨h.unmarked, h.address⟩, h.due⟩, h.frequent⟩, fun h => ⟨h.1.1.1, h.1.1.2, h.2, h.1.2⟩⟩

/-! ### The keys that go out -/

theorem mem_rankByHits {expired : List (CacheKey × ℕ)} {k : CacheKey} :
    k ∈ rankByHits expired ↔ ∃ hits, (k, hits) ∈ expired := by
  unfold rankByHits
  constructor
  · intro h
    obtain ⟨⟨key, hits⟩, hmem, rfl⟩ := List.mem_map.mp h
    exact ⟨hits, (List.mem_insertionSort _).mp hmem⟩
  · rintro ⟨hits, hmem⟩
    exact List.mem_map.mpr ⟨(k, hits), (List.mem_insertionSort _).mpr hmem, rfl⟩

section Keys

variable {seen : Fin SHARD_COUNT → DnsCache H} {now : ℤ} {secondsAhead : Option ℕ} {expired : List (CacheKey × ℕ)}
  (hexpired : expired.Perm (DnsCache.collect seen now secondsAhead).toPrefetch.entries)

include hexpired

/-- A key with its hits is that of an entry its shard had when it was locked. -/
theorem lookup_of_mem_expired {k : CacheKey} {hits : ℕ} (hk : (k, hits) ∈ expired) :
    ∃ e, (seen (H.shardOf k)).lookup k = some e ∧
      (seen (H.shardOf k)).wantsPrefetch now (secondsAhead.getD 5) k e = true ∧ hits = e.stats.hits := by
  rw [DnsCache.toPrefetch_collect] at hexpired
  obtain ⟨i, -, hi⟩ := List.mem_flatMap.mp (hexpired.mem_iff.mp hk)
  obtain ⟨rfl, e, he⟩ := DnsCache.mem_wanted hi
  exact ⟨e, he⟩

/-- **The keys that go out are those of the entries that are to be refreshed**, each as its shard
was locked. -/
theorem mem_rankByHits_iff (key : CacheKey) : (∃ k ∈ rankByHits expired, (k == key) = true) ↔
    ∃ e, (seen (H.shardOf key)).lookup key = some e ∧
      Selected (seen (H.shardOf key)).policy now (secondsAhead.getD 5) key e := by
  constructor
  · rintro ⟨k, hk, hkk⟩
    obtain ⟨hits, hk⟩ := mem_rankByHits.mp hk
    obtain ⟨e, he, hw, -⟩ := lookup_of_mem_expired hexpired hk
    rw [H.shardOf_congr hkk] at he hw
    refine ⟨e, ?_, selected_iff.mpr ?_⟩
    · rw [← he, DnsCache.lookup_congr _ hkk]
    · rw [← hw, DnsCache.wantsPrefetch_congr _ now _ hkk]
  · rintro ⟨e, he, hsel⟩
    obtain ⟨k, hk, hkk⟩ := DnsCache.exists_mem_expiredKeys rfl he (selected_iff.mp hsel)
    obtain ⟨⟨k, e'⟩, hmem, rfl⟩ := List.mem_map.mp hk
    refine ⟨k, mem_rankByHits.mpr ⟨e'.stats.hits, ?_⟩, hkk⟩
    rw [hexpired.mem_iff, DnsCache.toPrefetch_collect]
    exact List.mem_flatMap.mpr ⟨H.shardOf key, List.mem_finRange _, List.mem_map.mpr ⟨(k, e'), hmem, rfl⟩⟩

theorem rankByHits_distinct : (rankByHits expired).Pairwise fun a b => (a == b) = false := by
  have hdistinct : expired.Pairwise fun a b => (a.1 == b.1) = false := by
    rw [DnsCache.toPrefetch_collect] at hexpired
    exact (hexpired.pairwise_iff fun {a b} hab => by rwa [BEq.comm]).mpr
      (DnsCache.taken_distinct seen now secondsAhead)
  have hsorted := (List.perm_insertionSort (fun a b : CacheKey × ℕ => b.2 ≤ a.2) expired).pairwise_iff
    (R := fun a b => (a.1 == b.1) = false) fun {a b} hab => by rwa [BEq.comm]
  exact List.pairwise_map.mpr (hsorted.mpr hdistinct)

theorem rankByHits_descending : (rankByHits expired).Pairwise fun a b =>
    (seen (H.shardOf b)).hitsOf b ≤ (seen (H.shardOf a)).hitsOf a := by
  have hhits : ∀ e ∈ expired.insertionSort fun a b => b.2 ≤ a.2, (seen (H.shardOf e.1)).hitsOf e.1 = e.2 := by
    intro e he
    obtain ⟨entry, hentry, -, hhits⟩ := lookup_of_mem_expired hexpired ((List.mem_insertionSort _).mp he)
    unfold DnsCache.hitsOf
    rw [hentry, hhits]
    rfl
  have : Std.Total fun a b : CacheKey × ℕ => b.2 ≤ a.2 := ⟨fun a b => Nat.le_total b.2 a.2⟩
  have : IsTrans (CacheKey × ℕ) fun a b => b.2 ≤ a.2 := ⟨fun _ _ _ hab hbc => Nat.le_trans hbc hab⟩
  have hsorted := List.pairwise_insertionSort (fun a b : CacheKey × ℕ => b.2 ≤ a.2) expired
  refine List.pairwise_map.mpr (hsorted.imp_of_mem fun {a b} ha hb hab => ?_)
  rw [hhits a ha, hhits b hb]
  exact hab

end Keys

/-! ### While the refresh is under way -/

/-- The entry under `key` is marked, if there is one. -/
def MarkedFor (key : CacheKey) (s : DnsCacheMiddleware H) : Prop :=
  ∀ e, s.cache.lookup key = some e → e.isInPrefetching = true

theorem MarkedFor.step {key : CacheKey} {s : DnsCacheMiddleware H} {t : ℤ} {ev : CacheEvent} (h : MarkedFor key s)
    (hok : NoCompletion key s t ev) : MarkedFor key (s.step t ev) := by
  have marking {ev : CacheEvent} (m : Marking s (s.step t ev) (ev.newMarks s.cache)) :
      MarkedFor key (s.step t ev) := by
    intro e' he'
    by_cases hk : ∃ k ∈ ev.newMarks s.cache, (k == key) = true
    · obtain ⟨k, hk, hkk⟩ := hk
      exact m.mark k hk key e' hkk he'
    · obtain ⟨e, he, heq⟩ := m.keep key e' (fun k hkm => by simpa using fun hkk => hk ⟨k, hkm, hkk⟩) he'
      rw [heq]
      exact h e he
  cases ev with
  | insertFullResponse k response fromPrefetch =>
    have hk : ¬ (k == key) = true := Bool.eq_false_iff.mp hok
    exact fun e he => h e ((releasing_insert s.cache t k response fromPrefetch).keep key e hk he)
  | dropGuard n =>
    have hok : ∀ g, s.guards[n]? = some g → (g.key == key) = false := hok
    cases hg : s.guards[n]? with
    | none =>
      rw [DnsCacheMiddleware.step, hg]
      exact h
    | some g =>
      rw [DnsCacheMiddleware.step, hg]
      have hk : ¬ (g.key == key) = true := Bool.eq_false_iff.mp (hok g hg)
      exact fun e he => h e ((releasing_drop s.cache g.key).keep key e hk he)
  | _ => exact marking (marking_step s t (by simp) (by simp))

/-- **A marked entry is not taken again** before its refresh is complete. -/
theorem MarkedFor.not_taken {key : CacheKey} {s : DnsCacheMiddleware H} (h : MarkedFor key s)
    {es : Fin SHARD_COUNT → List (ℤ × CacheEvent)}
    (hes : ∀ i, Meets DnsCacheMiddleware.step (NoCompletion key) s (es i)) {now : ℤ} {secondsAhead : Option ℕ}
    {expired : List (CacheKey × ℕ)} (hexpired : expired.Perm (DnsCache.collect
      (fun i => (run DnsCacheMiddleware.step s (es i)).cache) now secondsAhead).toPrefetch.entries) :
    ∀ k ∈ rankByHits expired, (k == key) = false := by
  intro k hk
  by_contra hkk
  have hkk : (k == key) = true := by simpa using hkk
  obtain ⟨e, he, hsel⟩ := (mem_rankByHits_iff hexpired key).mp ⟨k, hk, hkk⟩
  have hmarked := run_invariant_of_meets DnsCacheMiddleware.step (fun _ _ _ h hok => h.step hok) _ s h
    (hes (H.shardOf key)) e he
  rw [hsel.unmarked] at hmarked
  cases hmarked

/-! ### One call -/

/-- **`get_expired` selects the right prefetch set**, in whatever order the map gives its keys out. -/
theorem getExpired_selects (c : DnsCache H) (now : ℤ) (secondsAhead : Option ℕ) (expired : List (CacheKey × ℕ))
    (hexpired : expired.Perm (c.sweepExpired now secondsAhead).2.toPrefetch.entries) :
    PrefetchSelection c now secondsAhead (c.sweepExpired now secondsAhead).1 (rankByHits expired) := by
  rw [DnsCache.sweepExpired_snd] at hexpired
  have hmarked : ∀ key e, c.lookup key = some e → Selected c.policy now (secondsAhead.getD 5) key e →
      (c.sweepExpired now secondsAhead).1.lookup key = some (DnsCache.markExpired e) := by
    intro key e he hsel
    rw [DnsCache.sweepExpired_fst, DnsCache.lookup_getExpired, he, Option.map_some, if_pos (selected_iff.mp hsel)]
  refine ⟨fun key => mem_rankByHits_iff hexpired key, rankByHits_distinct hexpired, rankByHits_descending hexpired,
    hmarked, fun key hkey => ?_, fun i => ?_, fun key hkey s hs es hes now' secondsAhead' expired' hexpired' => ?_⟩
  · rw [DnsCache.sweepExpired_fst, DnsCache.lookup_getExpired]
    cases he : c.lookup key with
    | none => rfl
    | some e => rw [Option.map_some, if_neg fun hw => hkey e he (selected_iff.mpr hw)]
  · rw [DnsCache.sweepExpired_fst]
    exact (c.shards i).mapValues_keys _
  · obtain ⟨e, he, hsel⟩ := (mem_rankByHits_iff hexpired key).mp ⟨key, hkey, BEq.rfl⟩
    refine MarkedFor.not_taken (fun e' he' => ?_) hes hexpired'
    rw [hs, hmarked key e he hsel] at he'
    cases he'
    rfl

/-- Both addresses of the root, for a second; the AAAA was asked for three times and the A twice. -/
def askedOften : DnsCache oneShard :=
  (run DnsCacheMiddleware.step (DnsCacheMiddleware.new oneShard ⟨true, 86400, 0⟩ 128 0)
    [(0, .insertFullResponse rootKey (secondLived .A) false),
      (0, .insertFullResponse aaaaKey (secondLived .AAAA) false),
      (0, .get rootKey), (0, .get rootKey), (0, .get aaaaKey), (0, .get aaaaKey), (0, .get aaaaKey)]).cache

theorem getExpired_selects_askedOften :
    (rankByHits (askedOften.sweepExpired 5000000000 none).2.toPrefetch.entries).map (·.query.queryType) =
        [.AAAA, .A] ∧
      PrefetchSelection askedOften 5000000000 none (askedOften.sweepExpired 5000000000 none).1
        (rankByHits (askedOften.sweepExpired 5000000000 none).2.toPrefetch.entries) :=
  ⟨by decide +kernel, getExpired_selects _ _ _ _ (List.Perm.refl _)⟩

end Cache
end SmartDns
