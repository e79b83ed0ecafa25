/-
# The cache under its clients and its background tasks

`DnsCacheMiddleware` as a machine: the cache, the `PrefetchGuard`s that are alive
and the moment of the last clean-up of each shard. A client's query, a round of the
prefetch task, the upstream's answer, the end of a refresh and the clean-up are
sequences of events; an event is what happens under one shard lock, so any
interleaving of them is a run of the machine. The sweeps of `get_expired`,
`purge_dead_records` and `clear` visit one shard at a time and read the clock before
the first.

Key definitions: `DnsCacheMiddleware`, `CacheEvent`, `DnsCacheMiddleware.step`,
`answerFromCache`.
Key theorem: `entry_of_step`, what becomes of an entry in one step.
-/
import SmartDns.Lib.Runs
import SmartDns.Cache.Store

namespace SmartDns
namespace Cache

open Dns Lib

/-! ### The machine -/

/-- A live guard of a refresh. The code's guard is its key; `overtaken` records that an insert under
the key has come since the guard was made. -/
structure PrefetchGuard where
  key : CacheKey
  overtaken : Bool := false

def PrefetchGuard.overtake (key : CacheKey) (g : PrefetchGuard) : PrefetchGuard :=
  if g.key == key then { g with overtaken := true } else g

theorem PrefetchGuard.overtake_key (key : CacheKey) (g : PrefetchGuard) : (g.overtake key).key = g.key := by
  unfold overtake
  split <;> rfl

structure DnsCacheMiddleware (H : KeyHash) where
  cache : DnsCache H
  guards : List PrefetchGuard
  lastPurge : Fin SHARD_COUNT → ℤ

inductive CacheEvent
  /-- A client asks the cache. -/
  | get (key : CacheKey)
  /-- An answer of the upstream is stored. -/
  | insertFullResponse (key : CacheKey) (response : DnsResponse) (fromPrefetch : Bool)
  /-- A client that found an expired entry wants it refreshed; if nobody else does, it makes a guard. -/
  | markPrefetching (key : CacheKey)
  /-- It then moves the deadline to `replyTtl` seconds after its hit. -/
  | setValidUntilForPrefetch (key : CacheKey) (hit : ℤ) (replyTtl : ℕ)
  /-- The prefetch task takes the entries of shard `i`, and makes a guard for each. -/
  | getExpired (i : Fin SHARD_COUNT) (now : ℤ) (secondsAhead : Option ℕ)
  /-- The refresh of the `n`th guard ends, with or without an answer. -/
  | dropGuard (n : ℕ)
  | purgeDeadRecords (i : Fin SHARD_COUNT) (now : ℤ)
  | clear (i : Fin SHARD_COUNT)

namespace DnsCacheMiddleware

variable {H : KeyHash}

/-- The background tasks are started at `start`; the clean-up's first tick is at once. -/
def new (H : KeyHash) (policy : CachePolicy) (cacheSize : ℕ) (start : ℤ) : DnsCacheMiddleware H where
  cache := DnsCache.new H policy cacheSize
  guards := []
  lastPurge _ := start

def step (s : DnsCacheMiddleware H) (t : ℤ) : CacheEvent → DnsCacheMiddleware H
  | .get key => { s with cache := (s.cache.get key t).1 }
  | .insertFullResponse key response fromPrefetch =>
    { s with
      cache := (s.cache.insertFullResponse key response t fromPrefetch).1
      guards := s.guards.map (·.overtake key) }
  | .markPrefetching key =>
    { s with
      cache := (s.cache.markPrefetching key).1
      guards := if (s.cache.markPrefetching key).2 then { key } :: s.guards else s.guards }
  | .setValidUntilForPrefetch key hit replyTtl =>
    { s with cache := s.cache.setValidUntilForPrefetch key (hit + fromSecs replyTtl) }
  | .getExpired i now secondsAhead =>
    { s with
      cache := s.cache.getExpiredShard i now secondsAhead
      guards := (s.cache.expiredKeys i now secondsAhead).map ({ key := · }) ++ s.guards }
  | .dropGuard n =>
    match s.guards[n]? with
    | some g => { s with cache := s.cache.dropPrefetchGuard g.key, guards := s.guards.eraseIdx n }
    | none => s
  | .purgeDeadRecords i now =>
    { s with cache := s.cache.purgeShard i now, lastPurge := Function.update s.lastPurge i now }
  | .clear i => { s with cache := s.cache.clearShard i }

end DnsCacheMiddleware

/-- What `handle` answers from the cache for what `get` found. `serveExpired` and `noServeExpired` are
the settings for this client and name, `ttl` is what is left of the moved deadline or the reply TTL. -/
def answerFromCache (serveExpired noServeExpired : Bool) (ttl : ℕ) : Option (DnsResponse × CacheStatus) → Option DnsResponse
  | some (res, .valid) => some res
  | some (res, .expired) => if serveExpired && !noServeExpired then some (res.setNewTtl ttl) else none
  | none => none

namespace DnsCacheMiddleware

variable {H : KeyHash}

@[simp] theorem step_policy (s : DnsCacheMiddleware H) (t : ℤ) (ev : CacheEvent) :
    (s.step t ev).cache.policy = s.cache.policy := by
  cases ev with
  | insertFullResponse key response fromPrefetch =>
    show (DnsCache.insertFullResponse ..).1.policy = _
    unfold DnsCache.insertFullResponse
    cases (s.cache.lookup key).isSome <;> rfl
  | dropGuard n =>
    show (match s.guards[n]? with | some g => _ | none => s : DnsCacheMiddleware H).cache.policy = _
    cases s.guards[n]? <;> rfl
  | _ => rfl

/-- What one step makes of the entry under `key`: the answer it holds and its deadline. -/
inductive EntryStep (s : DnsCacheMiddleware H) (t : ℤ) (key : CacheKey) (e' : DnsCacheEntry) : CacheEvent → Prop
  | kept {ev : CacheEvent} (e : DnsCacheEntry) (found : s.cache.lookup key = some e) (data : e'.data = e.data)
      (validUntil : e'.validUntil = e.validUntil) (purge : ∀ now, ev = .purgeDeadRecords (H.shardOf key) now →
        now ≤ e.validUntil + s.cache.gracePeriod) : EntryStep s t key e' ev
  | inserted (k : CacheKey) (response : DnsResponse) (fromPrefetch : Bool) (same : (k == key) = true)
      (data : e'.data = DnsCache.cacheResponse k response t)
      (validUntil : e'.validUntil = t + fromSecs (insertionTtl response)) :
      EntryStep s t key e' (.insertFullResponse k response fromPrefetch)
  | moved (k : CacheKey) (hit : ℤ) (replyTtl : ℕ) (same : (k == key) = true) (e : DnsCacheEntry)
      (found : s.cache.lookup key = some e) (data : e'.data = e.data) (later : e.validUntil < e'.validUntil)
      (validUntil : e'.validUntil = hit + fromSecs replyTtl) :
      EntryStep s t key e' (.setValidUntilForPrefetch k hit replyTtl)

theorem entry_of_step {s : DnsCacheMiddleware H} {t : ℤ} {ev : CacheEvent} {key : CacheKey} {e' : DnsCacheEntry}
    (h : (s.step t ev).cache.lookup key = some e') : EntryStep s t key e' ev := by
  -- an event under another key or shard leaves the entry
  have same {ev : CacheEvent} (he : s.cache.lookup key = some e')
      (hev : ∀ now, ev ≠ .purgeDeadRecords (H.shardOf key) now) : EntryStep s t key e' ev :=
    .kept e' he rfl rfl fun now h => absurd h (hev now)
  cases ev with
  | get k =>
    have h : (s.cache.get k t).1.lookup key = some e' := h
    rw [DnsCache.lookup_get] at h
    by_cases hk : (k == key) = true
    · rw [if_pos hk] at h
      obtain ⟨e, he, rfl⟩ := Option.map_eq_some_iff.mp h
      exact .kept e he rfl rfl (by simp)
    · rw [if_neg hk] at h
      exact same h (by simp)
  | insertFullResponse k response fromPrefetch =>
    have h : (s.cache.insertFullResponse k response t fromPrefetch).1.lookup key = some e' := h
    by_cases hk : (k == key) = true
    · rw [s.cache.lookup_insertFullResponse_of_beq hk] at h
      cases h
      unfold DnsCache.insertedEntry
      cases s.cache.lookup k <;> exact .inserted k response fromPrefetch hk rfl rfl
    · exact same (s.cache.lookup_insertFullResponse_of_not_beq hk response t fromPrefetch h) (by simp)
  | markPrefetching k =>
    have h : (s.cache.markPrefetching k).1.lookup key = some e' := h
    rw [DnsCache.lookup_markPrefetching] at h
    by_cases hk : (k == key) = true
    · rw [if_pos hk] at h
      obtain ⟨e, he, rfl⟩ := Option.map_eq_some_iff.mp h
      exact .kept e he rfl rfl (by simp)
    · rw [if_neg hk] at h
      exact same h (by simp)
  | setValidUntilForPrefetch k hit replyTtl =>
    have h : (s.cache.modify k _).lookup key = some e' := h
    rw [DnsCache.lookup_modify] at h
    by_cases hk : (k == key) = true
    · rw [if_pos hk] at h
      obtain ⟨e, he, rfl⟩ := Option.map_eq_some_iff.mp h
      by_cases hlt : e.validUntil < hit + fromSecs replyTtl
      · rw [if_pos hlt]
        exact .moved k hit replyTtl hk e he rfl hlt rfl
      · rw [if_neg hlt]
        exact .kept e he rfl rfl (by simp)
    · rw [if_neg hk] at h
      exact same h (by simp)
  | getExpired i now ahead =>
    have h : (s.cache.getExpiredShard i now ahead).lookup key = some e' := h
    rw [DnsCache.lookup_getExpiredShard] at h
    by_cases hi : H.shardOf key = i
    · rw [if_pos hi, DnsCache.lookup_getExpired] at h
      obtain ⟨e, he, rfl⟩ := Option.map_eq_some_iff.mp h
      refine .kept e he ?_ ?_ (by simp) <;> split <;> rfl
    · rw [if_neg hi] at h
      exact same h (by simp)
  | dropGuard n =>
    have h : (match s.guards[n]? with | some g => _ | none => s : DnsCacheMiddleware H).cache.lookup key = some e' := h
    cases hg : s.guards[n]? with
    | none =>
      rw [hg] at h
      exact same h (by simp)
    | some g =>
      rw [hg] at h
      have h : (s.cache.dropPrefetchGuard g.key).lookup key = some e' := h
      rw [DnsCache.lookup_dropPrefetchGuard] at h
      by_cases hk : (g.key == key) = true
      · rw [if_pos hk] at h
        obtain ⟨e, he, rfl⟩ := Option.map_eq_some_iff.mp h
        exact .kept e he rfl rfl (by simp)
      · rw [if_neg hk] at h
        exact same h (by simp)
  | purgeDeadRecords i now =>
    have h : (s.cache.purgeShard i now).lookup key = some e' := h
    rw [DnsCache.lookup_purgeShard] at h
    by_cases hi : H.shardOf key = i
    · rw [if_pos hi, DnsCache.lookup_purgeDeadRecords] at h
      obtain ⟨he, hlive⟩ := Option.filter_eq_some_iff.mp h
      refine .kept e' he rfl rfl fun now' h' => ?_
      obtain ⟨-, rfl⟩ := CacheEvent.purgeDeadRecords.inj h'
      simpa using hlive
    · rw [if_neg hi] at h
      refine same h fun now' h' => hi ?_
      exact (CacheEvent.purgeDeadRecords.inj h').1.symm
  | clear i =>
    have h : (s.cache.clearShard i).lookup key = some e' := h
    rw [DnsCache.lookup_clearShard] at h
    by_cases hi : H.shardOf key = i
    · rw [if_pos hi] at h
      cases h
    · rw [if_neg hi] at h
      exact same h (by simp)

end DnsCacheMiddleware
end Cache
end SmartDns
