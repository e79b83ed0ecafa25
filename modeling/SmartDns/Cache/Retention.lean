/-
# How long an answer is served

`serve-expired-ttl` is how long the clean-up keeps an entry past its deadline. It runs
every 900 seconds and no read looks at that setting, so an entry is served up to 900
seconds longer (`served_beyond_expired_ttl`).

The clean-up counts from the deadline the entry has then, which a client's hit on an
expired entry moves to its own moment plus the reply TTL. `served_until` is about
answers whose deadline no hit has moved since their insert (`MovedSince`).

What the entry under a key owes to the run so far (`Retained`) goes by the history
rule; a read after the run is then bounded by the last clean-up.

Key definitions: `Inserted`, `MovedSince`, `Retained`.
Key theorems: `served_until`, `served_beyond_expired_ttl`.
-/
import SmartDns.Cache.Prefetch

namespace SmartDns
namespace Cache

open Dns Lib

variable {H : KeyHash}

/-- The time between two rounds of the clean-up, in seconds. -/
def GC_INTERVAL : ℕ := 900

/-- An insert under `key` left this answer; `data.validUntil` is when its upstream TTL runs out. -/
def Inserted (es : List (ℤ × CacheEvent)) (key : CacheKey) (data : DnsResponse) : Prop :=
  ∃ t k response fromPrefetch, (t, CacheEvent.insertFullResponse k response fromPrefetch) ∈ es ∧
    (k == key) = true ∧ data = DnsCache.cacheResponse k response t

/-- Behind an insert of this answer, a hit moved a deadline under `key` beyond the one it had. -/
def MovedSince (es : List (ℤ × CacheEvent)) (key : CacheKey) (data : DnsResponse) : Prop :=
  ∃ es₁ es₂, es = es₁ ++ es₂ ∧ Inserted es₁ key data ∧
    ∃ t k hit replyTtl, (t, CacheEvent.setValidUntilForPrefetch k hit replyTtl) ∈ es₂ ∧ (k == key) = true ∧
      data.validUntil < hit + fromSecs replyTtl

/-- A sweep reads the clock before its first shard. -/
def ReadsClock : ℤ × CacheEvent → Prop
  | (t, .purgeDeadRecords _ now) => now ≤ t
  | _ => True

theorem Inserted.mono {es : List (ℤ × CacheEvent)} {key : CacheKey} {data : DnsResponse}
    (h : Inserted es key data) (fs : List (ℤ × CacheEvent)) : Inserted (es ++ fs) key data := by
  obtain ⟨t, k, response, fromPrefetch, hmem, h⟩ := h
  exact ⟨t, k, response, fromPrefetch, List.mem_append_left _ hmem, h⟩

theorem MovedSince.mono {es : List (ℤ × CacheEvent)} {key : CacheKey} {data : DnsResponse}
    (h : MovedSince es key data) (fs : List (ℤ × CacheEvent)) : MovedSince (es ++ fs) key data := by
  obtain ⟨es₁, es₂, rfl, hins, t, k, hit, replyTtl, hmem, h⟩ := h
  exact ⟨es₁, es₂ ++ fs, List.append_assoc _ _ _, hins, t, k, hit, replyTtl, List.mem_append_left _ hmem, h⟩

/-- An entry holds an inserted answer, its deadline is that answer's unless a hit moved it on since,
and the last clean-up of its shard found it within `grace` of it. -/
structure Retained (grace : ℕ) (es : List (ℤ × CacheEvent)) (key : CacheKey) (lastPurge : ℤ) (e : DnsCacheEntry) : Prop where
  inserted : Inserted es key e.data
  le_validUntil : e.data.validUntil ≤ e.validUntil
  deadline : e.validUntil = e.data.validUntil ∨ MovedSince es key e.data
  purged : lastPurge ≤ e.validUntil + grace

/-- What the machine owes to the run so far. -/
structure Retaining (grace : ℕ) (start : ℤ) (es : List (ℤ × CacheEvent)) (s : DnsCacheMiddleware H) : Prop where
  policy : s.cache.gracePeriod = grace
  lastPurge : ∀ i, s.lastPurge i ≤ endTime start es
  entry : ∀ key e, s.cache.lookup key = some e → Retained grace es key (s.lastPurge (H.shardOf key)) e

/-- A step leaves the last clean-up of a shard alone, or is a clean-up of it. -/
theorem lastPurge_step (s : DnsCacheMiddleware H) (t : ℤ) (ev : CacheEvent) (i : Fin SHARD_COUNT) :
    (s.step t ev).lastPurge i = s.lastPurge i ∨ ev = .purgeDeadRecords i ((s.step t ev).lastPurge i) := by
  cases ev with
  | purgeDeadRecords j now =>
    by_cases hi : i = j
    · subst hi
      right
      show _ = CacheEvent.purgeDeadRecords i (Function.update s.lastPurge i now i)
      rw [Function.update_self]
    · left
      exact Function.update_of_ne hi _ _
  | dropGuard n =>
    left
    cases hg : s.guards[n]? <;> rw [DnsCacheMiddleware.step, hg]
  | _ => exact .inl rfl

theorem retaining_step {grace : ℕ} {start : ℤ} {es : List (ℤ × CacheEvent)} {e : ℤ × CacheEvent}
    {s : DnsCacheMiddleware H} (ht : endTime start es ≤ e.1) (hclock : ReadsClock e)
    (h : Retaining grace start es s) : Retaining grace start (es ++ [e]) (s.step e.1 e.2) := by
  obtain ⟨t, ev⟩ := e
  have hlast (i : Fin SHARD_COUNT) : (s.step t ev).lastPurge i ≤ t := by
    rcases lastPurge_step s t ev i with hi | hi
    · exact hi ▸ (h.lastPurge i).trans ht
    · have hclock : ReadsClock (t, ev) := hclock
      rw [hi] at hclock
      exact hclock
  refine ⟨?_, fun i => ?_, fun key e' he' => ?_⟩
  · rw [← h.policy, DnsCache.gracePeriod, DnsCache.gracePeriod, s.step_policy]
  · rw [endTime_append]
    exact hlast i
  · -- the last clean-up of the shard left the entry, or this step put it there at a later moment
    cases DnsCacheMiddleware.entry_of_step he' with
    | kept e found data validUntil purge =>
      have hr := h.entry key e found
      refine ⟨data ▸ hr.inserted.mono _, ?_, ?_, ?_⟩
      · rw [data, validUntil]
        exact hr.le_validUntil
      · rw [data, validUntil]
        exact hr.deadline.imp_right fun hm => hm.mono _
      · rw [validUntil]
        rcases lastPurge_step s t ev (H.shardOf key) with hi | hi
        · rw [hi]
          exact hr.purged
        · rw [← h.policy]
          exact purge _ hi
    | inserted k response fromPrefetch same data validUntil =>
      have hdata : e'.data.validUntil = t + fromSecs (insertionTtl response) := by
        rw [data]
        rfl
      refine ⟨⟨t, k, response, fromPrefetch, List.mem_append_right _ (List.mem_singleton_self _), same, data⟩,
        by rw [validUntil, hdata], .inl (by rw [validUntil, hdata]), ?_⟩
      rw [validUntil]
      calc _ ≤ t := hlast (H.shardOf key)
        _ ≤ t + fromSecs (insertionTtl response) + grace := by omega
    | moved k hit replyTtl same e found data later validUntil =>
      have hr := h.entry key e found
      have hlater : e'.data.validUntil < e'.validUntil := by
        rw [data]
        exact lt_of_le_of_lt hr.le_validUntil later
      refine ⟨data ▸ hr.inserted.mono _, hlater.le, .inr ⟨es, _, rfl, data ▸ hr.inserted, t, k, hit, replyTtl,
        List.mem_singleton_self _, same, validUntil ▸ hlater⟩, ?_⟩
      · have hp : s.lastPurge (H.shardOf key) ≤ e.validUntil + grace := hr.purged
        show s.lastPurge (H.shardOf key) ≤ e'.validUntil + grace
        omega

theorem retaining_run (policy : CachePolicy) (cacheSize : ℕ) (start : ℤ) (es : List (ℤ × CacheEvent))
    (hord : InOrder start es) (hclock : ∀ e ∈ es, ReadsClock e) :
    Retaining (DnsCache.new H policy cacheSize).gracePeriod start es
      (run DnsCacheMiddleware.step (DnsCacheMiddleware.new H policy cacheSize start) es) := by
  refine run_history DnsCacheMiddleware.step ?_ (fun es e s ht hclock h => retaining_step ht hclock h) es hord hclock
  exact ⟨rfl, fun _ => le_rfl, fun _ _ he => by cases he⟩

/-- What is served from the cache is the answer the entry holds, with another TTL. -/
theorem entry_of_answer {c : DnsCache H} {key : CacheKey} {t : ℤ} {serveExpired noServeExpired : Bool} {ttl : ℕ}
    {res : DnsResponse}
    (h : answerFromCache serveExpired noServeExpired ttl (c.get key t).2 = some res) :
    ∃ e, c.lookup key = some e ∧ ∃ ttl', res = e.data.setNewTtl ttl' := by
  cases he : c.lookup key with
  | none =>
    rw [DnsCache.get, he] at h
    cases h
  | some e =>
    refine ⟨e, rfl, ?_⟩
    rw [DnsCache.get, he] at h
    by_cases hc : e.isCurrent t = true
    · rw [Option.map_some, if_pos hc] at h
      exact ⟨_, (Option.some.inj h).symm⟩
    · rw [Option.map_some, if_neg hc] at h
      have h : (if (serveExpired && !noServeExpired) = true then some (e.data.setNewTtl ttl) else none) = some res := h
      split at h
      · exact ⟨ttl, (Option.some.inj h).symm⟩
      · cases h

/-- **How late an answer can be served.** With the clean-up on time, an answer whose deadline no hit has
moved is served at most `serve-expired-ttl` and a clean-up's interval after its TTL ran out. -/
theorem served_until (policy : CachePolicy) (hserve : policy.serveExpired = true) (cacheSize : ℕ) (start : ℤ)
    (es : List (ℤ × CacheEvent)) (hord : InOrder start es) (hclock : ∀ e ∈ es, ReadsClock e) (key : CacheKey) (t : ℤ)
    (hgc : t ≤ (run DnsCacheMiddleware.step (DnsCacheMiddleware.new H policy cacheSize start) es).lastPurge
      (H.shardOf key) + fromSecs GC_INTERVAL)
    (serveExpired noServeExpired : Bool) (ttl : ℕ) (res : DnsResponse)
    (hres : answerFromCache serveExpired noServeExpired ttl
      ((run DnsCacheMiddleware.step (DnsCacheMiddleware.new H policy cacheSize start) es).cache.get key t).2 = some res) :
    ∃ data, Inserted es key data ∧ (∃ ttl', res = data.setNewTtl ttl') ∧
      (¬ MovedSince es key data → t ≤ data.validUntil + fromSecs (policy.expiredTtl + GC_INTERVAL)) := by
  obtain ⟨e, he, hdata⟩ := entry_of_answer hres
  have hr := (retaining_run policy cacheSize start es hord hclock).entry key e he
  have hgrace : (DnsCache.new H policy cacheSize).gracePeriod = fromSecs policy.expiredTtl := if_pos hserve
  rw [hgrace] at hr
  have hsum : fromSecs (policy.expiredTtl + GC_INTERVAL) = fromSecs policy.expiredTtl + fromSecs GC_INTERVAL :=
    Nat.add_mul _ _ _
  refine ⟨e.data, hr.inserted, hdata, fun hmoved => ?_⟩
  have hv := hr.deadline.resolve_right hmoved
  have hpurged := hr.purged
  rw [hsum, ← hv]
  push_cast
  omega

/-! ### Between two clean-ups -/

/-- An answer with a TTL of one second. -/
def insertedOnce : List (ℤ × CacheEvent) := [(0, .insertFullResponse rootKey (secondLived .A) false)]

/-- The machine behind it, with a `serve-expired-ttl` of one second. -/
def afterInsert : DnsCacheMiddleware oneShard :=
  run DnsCacheMiddleware.step (DnsCacheMiddleware.new oneShard ⟨true, 1, 0⟩ 64 0) insertedOnce

/-- Before the first clean-up the answer is served 800 s after its insert: no read looks at the setting. -/
theorem served_beyond_expired_ttl :
    ¬ ∀ res, answerFromCache true false 5 (afterInsert.cache.get rootKey 800000000000).2 = some res →
      ∃ data, Inserted insertedOnce rootKey data ∧ (800000000000 : ℤ) ≤ data.validUntil + fromSecs 1 := by
  intro hall
  obtain ⟨data, ⟨t, k, response, fromPrefetch, hmem, -, rfl⟩, hle⟩ :=
    hall ((DnsCache.cacheResponse rootKey (secondLived .A) 0).setNewTtl 5) rfl
  simp [insertedOnce] at hmem
  obtain ⟨rfl, rfl, rfl, -⟩ := hmem
  have hv : (DnsCache.cacheResponse rootKey (secondLived .A) 0).validUntil = 1000000000 := rfl
  rw [hv] at hle
  unfold fromSecs at hle
  omega

theorem not_movedSince_insertedOnce (data : DnsResponse) : ¬ MovedSince insertedOnce rootKey data := by
  rintro ⟨es₁, es₂, heq, -, t, k, hit, replyTtl, hmem, -⟩
  have hmem' : (t, CacheEvent.setValidUntilForPrefetch k hit replyTtl) ∈ insertedOnce :=
    heq ▸ List.mem_append_right es₁ hmem
  cases List.mem_singleton.mp hmem'

/-- The bound for that read. -/
theorem served_until_insertedOnce : ∃ data, Inserted insertedOnce rootKey data ∧
    (∃ ttl', (DnsCache.cacheResponse rootKey (secondLived .A) 0).setNewTtl 5 = data.setNewTtl ttl') ∧
      800000000000 ≤ data.validUntil + fromSecs (1 + GC_INTERVAL) := by
  obtain ⟨data, hins, httl, hle⟩ := served_until (H := oneShard) ⟨true, 1, 0⟩ rfl 64 0 insertedOnce
    (by simp [insertedOnce, InOrder]) (by simp [insertedOnce, ReadsClock]) rootKey 800000000000 (by decide +kernel)
    true false 5 ((DnsCache.cacheResponse rootKey (secondLived .A) 0).setNewTtl 5) rfl
  exact ⟨data, hins, httl, hle (not_movedSince_insertedOnce data)⟩

end Cache
end SmartDns
