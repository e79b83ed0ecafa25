/-
# The hint of how long to wait

Beside the keys to refresh `get_expired` reports how long the prefetch task may wait: the least time that
an entry it passes over still lasts. An entry it leaves for another reason has no say in it. Under
serve-expired such an entry is expired and becomes due at a given time after that; without it an entry
becomes due some seconds ahead of its end, and the hint is the end. So the hint is in time exactly when
an entry that waits is not the one to be waited for: something else that is passed over runs out by then.

Key definitions: `dueAt`, `Waits`, `HintInTime`, `Foreseen`.
Key theorem: `hintInTime_iff`.
-/
import SmartDns.Cache.GetExpired

namespace SmartDns
namespace Cache

open Dns Lib

variable {H : KeyHash}

/-- The first moment the policy asks for a refresh. -/
def dueAt (policy : CachePolicy) (aheadSecs : ℕ) (entry : DnsCacheEntry) : ℤ :=
  if policy.serveExpired then
    if policy.expiredPrefetchTime = 0 then entry.validUntil + 1
    else entry.validUntil + fromSecs policy.expiredPrefetchTime
  else entry.validUntil - fromSecs aheadSecs + 1

theorem due_iff (policy : CachePolicy) (u : ℤ) (aheadSecs : ℕ) (entry : DnsCacheEntry) :
    Due policy u aheadSecs entry ↔ dueAt policy aheadSecs entry ≤ u := by
  unfold Due dueAt
  by_cases hserve : policy.serveExpired = true
  · rw [if_pos hserve, if_pos hserve]
    by_cases htime : policy.expiredPrefetchTime = 0
    · rw [if_pos htime, if_pos htime]
      omega
    · rw [if_neg htime, if_neg htime]
  · rw [if_neg hserve, if_neg hserve]
    omega

/-- An entry that could be taken, and is not due yet. -/
structure Waits (c : DnsCache H) (now : ℤ) (aheadSecs : ℕ) (key : CacheKey) (entry : DnsCacheEntry) : Prop where
  lookup : c.lookup key = some entry
  unmarked : entry.isInPrefetching = false
  address : key.query.queryType = .A ∨ key.query.queryType = .AAAA
  frequent : 2 ≤ entry.stats.hits
  later : ¬ Due c.policy now aheadSecs entry

/-- Whatever can be taken after the call and becomes due later, does not before the reported time is over. -/
def HintInTime (c : DnsCache H) (now : ℤ) (secondsAhead : Option ℕ) : Prop :=
  ∀ key entry, (c.sweepExpired now secondsAhead).1.lookup key = some entry → entry.isInPrefetching = false →
    (key.query.queryType = .A ∨ key.query.queryType = .AAAA) → 2 ≤ entry.stats.hits →
    ∀ u, now < u → Due c.policy u (secondsAhead.getD 5) entry →
      ((c.sweepExpired now secondsAhead).2.mostRecent : ℤ) ≤ u - now

/-- Served expired it has not run out, or it waits for as long as anything may, or something else runs out first. -/
def Foreseen (c : DnsCache H) (now : ℤ) (aheadSecs : ℕ) (entry : DnsCacheEntry) : Prop :=
  (c.policy.serveExpired = true ∧ entry.isCurrent now = true) ∨
    now + fromSecs MAX_TTL ≤ dueAt c.policy aheadSecs entry ∨
    ∃ key other, c.lookup key = some other ∧ c.stillCurrent now aheadSecs key other = true ∧
      other.validUntil ≤ dueAt c.policy aheadSecs entry

/-! ### The hint -/

theorem foldl_min_le_iff {n : ℕ} : ∀ {l : List ℕ} {a : ℕ}, l.foldl min a ≤ n ↔ a ≤ n ∨ ∃ x ∈ l, x ≤ n
  | [], a => by simp
  | x :: l, a => by
    rw [List.foldl_cons, foldl_min_le_iff, List.exists_mem_cons_iff, min_le_iff, or_assoc]

theorem stillCurrent_congr (c : DnsCache H) (now : ℤ) (aheadSecs : ℕ) {a b : CacheKey} (h : (a == b) = true)
    (entry : DnsCacheEntry) : c.stillCurrent now aheadSecs a entry = c.stillCurrent now aheadSecs b entry := by
  have htype := (Query.beq_iff.mp (CacheKey.beq_iff.mp h).1).2.1
  rw [DnsCache.stillCurrent, DnsCache.stillCurrent, htype]

theorem mem_lasting_iff (c : DnsCache H) (now : ℤ) (aheadSecs : ℕ) {x : ℕ} :
    x ∈ ExpiredSweep.lasting c now aheadSecs c.entries ↔
      ∃ key other, c.lookup key = some other ∧ c.stillCurrent now aheadSecs key other = true ∧ other.ttl now = x := by
  constructor
  · intro hx
    obtain ⟨⟨key, other⟩, hmem, heq⟩ := List.mem_map.mp hx
    obtain ⟨hentry, hcurrent⟩ := List.mem_filter.mp hmem
    exact ⟨key, other, c.lookup_of_mem_entries (e := (key, other)) hentry, hcurrent, heq⟩
  · rintro ⟨key, other, hlookup, hcurrent, heq⟩
    obtain ⟨k, hk, hmem⟩ := (KeyMap.get?_eq_some_iff _ _ _).mp hlookup
    rw [← stillCurrent_congr c now _ hk] at hcurrent
    have hentry : (k, other) ∈ c.entries := List.mem_flatMap.mpr ⟨H.shardOf key, List.mem_finRange _, hmem⟩
    exact List.mem_map.mpr ⟨(k, other), List.mem_filter.mpr ⟨hentry, hcurrent⟩, heq⟩

/-- The hint is the least of the times that the entries passed over still last. -/
theorem mostRecent_le_iff (c : DnsCache H) (now : ℤ) (secondsAhead : Option ℕ) {n : ℕ} :
    (c.sweepExpired now secondsAhead).2.mostRecent ≤ n ↔
      fromSecs MAX_TTL ≤ n ∨ ∃ key other, c.lookup key = some other ∧
        c.stillCurrent now (secondsAhead.getD 5) key other = true ∧ other.ttl now ≤ n := by
  have hrecent : (c.sweepExpired now secondsAhead).2.mostRecent =
      (ExpiredSweep.lasting c now (secondsAhead.getD 5) c.entries).foldl min (fromSecs MAX_TTL) := by
    have h := congrArg (fun r => r.2.2) (c.getExpired_eq_sweepExpired now secondsAhead)
    exact h.symm
  rw [hrecent, foldl_min_le_iff]
  apply or_congr_right
  constructor
  · rintro ⟨x, hx, hle⟩
    obtain ⟨key, other, hlookup, hcurrent, rfl⟩ := (mem_lasting_iff c now _).mp hx
    exact ⟨key, other, hlookup, hcurrent, hle⟩
  · rintro ⟨key, other, hlookup, hcurrent, hle⟩
    exact ⟨other.ttl now, (mem_lasting_iff c now _).mpr ⟨key, other, hlookup, hcurrent, rfl⟩, hle⟩

/-- What can be taken after the call is what waited before it. -/
theorem waits_iff {c : DnsCache H} {now : ℤ} {secondsAhead : Option ℕ} {key : CacheKey} {entry : DnsCacheEntry} :
    Waits c now (secondsAhead.getD 5) key entry ↔
      (c.sweepExpired now secondsAhead).1.lookup key = some entry ∧ entry.isInPrefetching = false ∧
        (key.query.queryType = .A ∨ key.query.queryType = .AAAA) ∧ 2 ≤ entry.stats.hits := by
  rw [DnsCache.sweepExpired_fst, DnsCache.lookup_getExpired]
  constructor
  · rintro ⟨hlookup, hmark, haddress, hfrequent, hlater⟩
    have hleft : ¬ c.wantsPrefetch now (secondsAhead.getD 5) key entry = true :=
      fun hw => hlater (selected_iff.mpr hw).due
    rw [hlookup, Option.map_some, if_neg hleft]
    exact ⟨rfl, hmark, haddress, hfrequent⟩
  · rintro ⟨hlookup, hmark, haddress, hfrequent⟩
    obtain ⟨before, hbefore, heq⟩ := Option.map_eq_some_iff.mp hlookup
    by_cases hw : c.wantsPrefetch now (secondsAhead.getD 5) key before = true
    · rw [if_pos hw] at heq
      rw [← heq] at hmark
      cases hmark
    · rw [if_neg hw] at heq
      rw [heq] at hbefore hw
      have hlater : ¬ Due c.policy now (secondsAhead.getD 5) entry :=
        fun hdue => hw (selected_iff.mp ⟨hmark, haddress, hfrequent, hdue⟩)
      exact ⟨hbefore, hmark, haddress, hfrequent, hlater⟩

theorem validUntil_lt_dueAt {policy : CachePolicy} (hserve : policy.serveExpired = true) (aheadSecs : ℕ)
    (entry : DnsCacheEntry) : entry.validUntil < dueAt policy aheadSecs entry := by
  unfold dueAt
  rw [if_pos hserve]
  by_cases htime : policy.expiredPrefetchTime = 0
  · rw [if_pos htime]
    omega
  · rw [if_neg htime]
    unfold fromSecs
    omega

/-- **The hint is in time exactly when every entry that waits is foreseen.** -/
theorem hintInTime_iff (c : DnsCache H) (now : ℤ) (secondsAhead : Option ℕ) :
    HintInTime c now secondsAhead ↔
      ∀ key entry, Waits c now (secondsAhead.getD 5) key entry → Foreseen c now (secondsAhead.getD 5) entry := by
  constructor
  · intro h key entry hw
    obtain ⟨hlookup, hmark, haddress, hfrequent⟩ := waits_iff.mp hw
    have hlater := hw.later
    rw [due_iff] at hlater
    -- the moment it becomes due
    have hhint := h key entry hlookup hmark haddress hfrequent (dueAt c.policy (secondsAhead.getD 5) entry) (by omega)
      ((due_iff _ _ _ _).mpr (Int.le_refl _))
    have hle : (c.sweepExpired now secondsAhead).2.mostRecent ≤
        (dueAt c.policy (secondsAhead.getD 5) entry - now).toNat := by omega
    rcases (mostRecent_le_iff c now secondsAhead).mp hle with hmax | ⟨k, other, hother, hcurrent, httl⟩
    · exact .inr (.inl (by omega))
    · refine .inr (.inr ⟨k, other, hother, hcurrent, ?_⟩)
      unfold DnsCacheEntry.ttl durationSince at httl
      omega
  · intro h key entry hlookup hmark haddress hfrequent u hu hdue
    have hw := waits_iff.mpr ⟨hlookup, hmark, haddress, hfrequent⟩
    have hlater := hw.later
    rw [due_iff] at hlater hdue
    have hle : (c.sweepExpired now secondsAhead).2.mostRecent ≤ (u - now).toNat := by
      rw [mostRecent_le_iff]
      rcases h key entry hw with ⟨hserve, hcurrent⟩ | hmax | ⟨k, other, hother, hcurrent, hend⟩
      · -- served expired, it is passed over itself
        have hstill : c.stillCurrent now (secondsAhead.getD 5) key entry = true := by
          have hip : key.query.queryType.isIpAddr = true := by
            rcases haddress with htype | htype <;> rw [htype] <;> rfl
          unfold DnsCache.stillCurrent
          rw [if_pos hserve, hmark, hip, hcurrent]
          rfl
        have hlt := validUntil_lt_dueAt hserve (secondsAhead.getD 5) entry
        refine .inr ⟨key, entry, hw.lookup, hstill, ?_⟩
        unfold DnsCacheEntry.ttl durationSince
        omega
      · exact .inl (by omega)
      · refine .inr ⟨k, other, hother, hcurrent, ?_⟩
        unfold DnsCacheEntry.ttl durationSince
        omega
    omega

/-- The address of the root, valid for a second, to be refreshed a hundred seconds after that. -/
def heldBack : DnsCache oneShard :=
  (run DnsCacheMiddleware.step (DnsCacheMiddleware.new oneShard ⟨true, 86400, 100⟩ 128 0)
    [(0, .insertFullResponse rootKey (secondLived .A) false), (0, .get rootKey), (0, .get rootKey)]).cache

/-- Asked after five seconds the hint is a day. -/
theorem not_hintInTime_heldBack : ¬ HintInTime heldBack 5000000000 none := by
  intro h
  have hhint := h rootKey (((heldBack.sweepExpired 5000000000 none).1.lookup rootKey).get (by decide +kernel))
    (Option.some_get _).symm (by decide +kernel) (.inl rfl) (by decide +kernel) 101000000000 (by decide)
    ((due_iff _ _ _ _).mpr (by decide +kernel))
  exact absurd hhint (by decide +kernel)

end Cache
end SmartDns
