/-
# The mark of a refresh that is under way

An entry is marked when a client or the prefetch task decides to refresh it, and
the refresh runs under a `PrefetchGuard` whose drop takes the mark away. A mark
never outlives its guard, in any run (`marks_are_guarded`). But the mark is not the
guard's: an insert takes it away too, and a key without an entry has nowhere to put
it, so `mark_prefetching` then lets a second refresh start beside the first. The runs
where no key ever has two guards are exactly those in which a key is marked under a
live guard only while its entry is in the cache and no insert under the key has
come since the guard was made (`marks_track_guards_iff`).

A step either marks keys and makes a guard for each (`Marking`), or takes the mark
of one key away (`Releasing`); the invariants are derived from these two.

Key definitions: `MarksTrackGuards`, `MarksInTurn`, `Tracked`.
Key theorems: `marks_are_guarded`, `marks_track_guards_iff`.
-/
import Mathlib.Data.List.Perm.Basic
import SmartDns.Cache.Middleware
import SmartDns.Cache.Ttl

namespace SmartDns
namespace Cache

open Dns Lib

variable {H : KeyHash}

/-- A marked entry has a live guard. -/
def Guarded (s : DnsCacheMiddleware H) : Prop :=
  ∀ key e, s.cache.lookup key = some e → e.isInPrefetching = true → ∃ g ∈ s.guards, (g.key == key) = true

/-- What the marks and the guards owe each other. -/
structure MarksTrackGuards (s : DnsCacheMiddleware H) : Prop where
  guarded : Guarded s
  single : s.guards.Pairwise fun a b => (a.key == b.key) = false
  released : s.guards = [] → ∀ key e, s.cache.lookup key = some e → e.isInPrefetching = false

/-- The keys an event comes to mark. -/
def CacheEvent.marks (c : DnsCache H) : CacheEvent → List CacheKey
  | .markPrefetching key => [key]
  | .getExpired i now secondsAhead => c.expiredKeys i now secondsAhead
  | _ => []

/-- A key is marked under a live guard only while its entry is there and nothing was inserted under
it since the guard was made. -/
def MarksInTurn (s : DnsCacheMiddleware H) (_ : ℤ) (ev : CacheEvent) : Prop :=
  ∀ key ∈ ev.marks s.cache, ∀ g ∈ s.guards, (g.key == key) = true →
    (s.cache.lookup key).isSome = true ∧ g.overtaken = false

/-! ### What a step does to the marks -/

/-- From `s` to `s'` the keys `ks` are marked, with a guard each, and the other marks stay. -/
structure Marking (s s' : DnsCacheMiddleware H) (ks : List CacheKey) : Prop where
  guards : s'.guards = ks.map ({ key := · }) ++ s.guards
  mark : ∀ k ∈ ks, ∀ key e, (k == key) = true → s'.cache.lookup key = some e → e.isInPrefetching = true
  keep : ∀ key e', (∀ k ∈ ks, (k == key) = false) → s'.cache.lookup key = some e' →
    ∃ e, s.cache.lookup key = some e ∧ e'.isInPrefetching = e.isInPrefetching

/-- From `c` to `c'` the mark of `key` is taken away, and the other entries stay. -/
structure Releasing (c c' : DnsCache H) (key : CacheKey) : Prop where
  release : ∀ k e, (key == k) = true → c'.lookup k = some e → e.isInPrefetching = false
  keep : ∀ k e, ¬ (key == k) = true → c'.lookup k = some e → c.lookup k = some e

theorem Marking.of_quiet {s s' : DnsCacheMiddleware H} (hguards : s'.guards = s.guards)
    (hkeep : ∀ key e', s'.cache.lookup key = some e' →
      ∃ e, s.cache.lookup key = some e ∧ e'.isInPrefetching = e.isInPrefetching) : Marking s s' [] :=
  ⟨hguards, (fun _ hk => by cases hk), fun key e' _ => hkeep key e'⟩

/-- The keys an event marks. -/
def CacheEvent.newMarks (c : DnsCache H) : CacheEvent → List CacheKey
  | .markPrefetching key => if (c.markPrefetching key).2 then [key] else []
  | .getExpired i now secondsAhead => c.expiredKeys i now secondsAhead
  | _ => []

theorem CacheEvent.newMarks_subset {c : DnsCache H} {ev : CacheEvent} {k : CacheKey} (hk : k ∈ ev.newMarks c) :
    k ∈ ev.marks c := by
  cases ev with
  | markPrefetching key =>
    by_cases hnew : (c.markPrefetching key).2 = true
    · have hk : k ∈ if (c.markPrefetching key).2 = true then [key] else [] := hk
      rwa [if_pos hnew] at hk
    · have hk : k ∈ if (c.markPrefetching key).2 = true then [key] else [] := hk
      rw [if_neg hnew] at hk
      cases hk
  | getExpired i now ahead => exact hk
  | _ => cases hk

/-- A key that is marked had no mark. -/
theorem CacheEvent.unmarked_of_mem_newMarks {c : DnsCache H} {ev : CacheEvent} {k : CacheKey} {e : DnsCacheEntry}
    (hk : k ∈ ev.newMarks c) (he : c.lookup k = some e) : e.isInPrefetching = false := by
  cases ev with
  | markPrefetching key =>
    have hk : k ∈ if (c.markPrefetching key).2 = true then [key] else [] := hk
    by_cases hnew : (c.markPrefetching key).2 = true
    · rw [if_pos hnew, List.mem_singleton] at hk
      have hnew : (!((c.lookup key).map (·.isInPrefetching)).getD false) = true := hnew
      rw [← hk, he] at hnew
      simpa using hnew
    · rw [if_neg hnew] at hk
      cases hk
  | getExpired i now ahead =>
    obtain ⟨-, e₀, he₀, hw⟩ := DnsCache.mem_expiredKeys hk
    obtain rfl : e₀ = e := Option.some.inj (he₀.symm.trans he)
    simp only [DnsCache.wantsPrefetch, Bool.and_eq_true, Bool.not_eq_true'] at hw
    exact hw.1.1.1
  | _ => cases hk

theorem CacheEvent.newMarks_distinct (c : DnsCache H) (ev : CacheEvent) :
    (ev.newMarks c).Pairwise fun a b => (a == b) = false := by
  cases ev with
  | markPrefetching key =>
    show (if (c.markPrefetching key).2 = true then [key] else []).Pairwise _
    split
    · exact List.pairwise_singleton _ _
    · exact List.Pairwise.nil
  | getExpired i now ahead => exact c.expiredKeys_distinct i now ahead
  | _ => exact List.Pairwise.nil

theorem marking_markPrefetching (s : DnsCacheMiddleware H) (t : ℤ) (key : CacheKey) :
    Marking s (s.step t (.markPrefetching key)) (CacheEvent.newMarks s.cache (.markPrefetching key)) := by
  have found (k : CacheKey) : (s.step t (.markPrefetching key)).cache.lookup k =
      if key == k then (s.cache.lookup k).map ({ · with isInPrefetching := true }) else s.cache.lookup k :=
    s.cache.lookup_markPrefetching key k
  have keep {k : CacheKey} {e' : DnsCacheEntry} (hk : ¬ (key == k) = true)
      (he' : (s.step t (.markPrefetching key)).cache.lookup k = some e') :
      ∃ e, s.cache.lookup k = some e ∧ e'.isInPrefetching = e.isInPrefetching := by
    rw [found, if_neg hk] at he'
    exact ⟨e', he', rfl⟩
  by_cases hnew : (s.cache.markPrefetching key).2 = true
  · have hmarks : CacheEvent.newMarks s.cache (.markPrefetching key) = [key] := if_pos hnew
    rw [hmarks]
    refine ⟨if_pos hnew, fun k hk k' e' hkk he' => ?_, fun k e' hk he' => ?_⟩
    · obtain rfl := List.mem_singleton.mp hk
      rw [found, if_pos hkk] at he'
      obtain ⟨e, -, rfl⟩ := Option.map_eq_some_iff.mp he'
      rfl
    · exact keep (by simp [hk key (List.mem_singleton_self key)]) he'
  · -- the entry is there and has its mark already
    have hmarks : CacheEvent.newMarks s.cache (.markPrefetching key) = [] := if_neg hnew
    rw [hmarks]
    refine Marking.of_quiet (if_neg hnew) fun k e' he' => ?_
    by_cases hk : (key == k) = true
    · rw [found, if_pos hk] at he'
      obtain ⟨e, he, rfl⟩ := Option.map_eq_some_iff.mp he'
      have hold : ¬ (!((s.cache.lookup key).map (·.isInPrefetching)).getD false) = true := hnew
      rw [s.cache.lookup_congr hk, he, Option.map_some, Option.getD_some] at hold
      have hm : e.isInPrefetching = true := by simpa using hold
      exact ⟨e, he, hm.symm⟩
    · exact keep hk he'

theorem marking_getExpired (s : DnsCacheMiddleware H) (t : ℤ) (i : Fin SHARD_COUNT) (now : ℤ) (ahead : Option ℕ) :
    Marking s (s.step t (.getExpired i now ahead)) (s.cache.expiredKeys i now ahead) := by
  have found (k : CacheKey) : (s.step t (.getExpired i now ahead)).cache.lookup k =
      if H.shardOf k = i then (s.cache.getExpired now ahead).1.lookup k else s.cache.lookup k :=
    s.cache.lookup_getExpiredShard i now ahead k
  refine ⟨rfl, fun k hk key e' hkk he' => ?_, fun key e' hk he' => ?_⟩
  · obtain ⟨hi, e, he, hw⟩ := DnsCache.mem_expiredKeys hk
    rw [found, ← H.shardOf_congr hkk, if_pos hi, DnsCache.lookup_getExpired, ← s.cache.lookup_congr hkk, he,
      Option.map_some, ← s.cache.wantsPrefetch_congr now _ hkk, if_pos hw, Option.some.injEq] at he'
    rw [← he']
    rfl
  · rw [found] at he'
    by_cases hi : H.shardOf key = i
    · rw [if_pos hi, DnsCache.lookup_getExpired] at he'
      obtain ⟨e, he, rfl⟩ := Option.map_eq_some_iff.mp he'
      refine ⟨e, he, ?_⟩
      rw [if_neg fun hw => ?_]
      obtain ⟨k, hkm, hkk⟩ := DnsCache.exists_mem_expiredKeys hi he hw
      rw [hk k hkm] at hkk
      cases hkk
    · rw [if_neg hi] at he'
      exact ⟨e', he', rfl⟩

theorem releasing_insert (c : DnsCache H) (t : ℤ) (key : CacheKey) (response : DnsResponse) (fromPrefetch : Bool) :
    Releasing c (c.insertFullResponse key response t fromPrefetch).1 key := by
  refine ⟨fun k e hk he => ?_, fun k e hk he => c.lookup_insertFullResponse_of_not_beq hk response t fromPrefetch he⟩
  rw [c.lookup_insertFullResponse_of_beq hk] at he
  cases he
  unfold DnsCache.insertedEntry
  cases c.lookup key <;> rfl

theorem releasing_drop (c : DnsCache H) (key : CacheKey) : Releasing c (c.dropPrefetchGuard key) key := by
  refine ⟨fun k e hk he => ?_, fun k e hk he => ?_⟩
  · rw [DnsCache.lookup_dropPrefetchGuard, if_pos hk] at he
    obtain ⟨e, -, rfl⟩ := Option.map_eq_some_iff.mp he
    rfl
  · rwa [DnsCache.lookup_dropPrefetchGuard, if_neg hk] at he

/-- A step that neither inserts nor ends a refresh takes no mark away. -/
theorem marking_step (s : DnsCacheMiddleware H) (t : ℤ) {ev : CacheEvent}
    (hinsert : ∀ key response fromPrefetch, ev ≠ .insertFullResponse key response fromPrefetch)
    (hdrop : ∀ n, ev ≠ .dropGuard n) : Marking s (s.step t ev) (ev.newMarks s.cache) := by
  cases ev with
  | insertFullResponse key response fromPrefetch => exact absurd rfl (hinsert key response fromPrefetch)
  | dropGuard n => exact absurd rfl (hdrop n)
  | markPrefetching key => exact marking_markPrefetching s t key
  | getExpired i now ahead => exact marking_getExpired s t i now ahead
  | get key =>
    refine Marking.of_quiet rfl fun k e' he' => ?_
    have he' : (s.cache.get key t).1.lookup k = some e' := he'
    rw [DnsCache.lookup_get] at he'
    by_cases hk : (key == k) = true
    · rw [if_pos hk] at he'
      obtain ⟨e, he, rfl⟩ := Option.map_eq_some_iff.mp he'
      exact ⟨e, he, rfl⟩
    · rw [if_neg hk] at he'
      exact ⟨e', he', rfl⟩
  | setValidUntilForPrefetch key hit replyTtl =>
    refine Marking.of_quiet rfl fun k e' he' => ?_
    have he' : (s.cache.modify key _).lookup k = some e' := he'
    rw [DnsCache.lookup_modify] at he'
    by_cases hk : (key == k) = true
    · rw [if_pos hk] at he'
      obtain ⟨e, he, rfl⟩ := Option.map_eq_some_iff.mp he'
      refine ⟨e, he, ?_⟩
      split <;> rfl
    · rw [if_neg hk] at he'
      exact ⟨e', he', rfl⟩
  | purgeDeadRecords i now =>
    refine Marking.of_quiet rfl fun k e' he' => ?_
    have he' : (s.cache.purgeShard i now).lookup k = some e' := he'
    rw [DnsCache.lookup_purgeShard] at he'
    by_cases hi : H.shardOf k = i
    · rw [if_pos hi, DnsCache.lookup_purgeDeadRecords] at he'
      exact ⟨e', Option.eq_some_of_filter_eq_some he', rfl⟩
    · rw [if_neg hi] at he'
      exact ⟨e', he', rfl⟩
  | clear i =>
    refine Marking.of_quiet rfl fun k e' he' => ?_
    have he' : (s.cache.clearShard i).lookup k = some e' := he'
    rw [DnsCache.lookup_clearShard] at he'
    by_cases hi : H.shardOf k = i
    · rw [if_pos hi] at he'
      cases he'
    · rw [if_neg hi] at he'
      exact ⟨e', he', rfl⟩

/-- **What a step does to marks and guards.** -/
inductive MarkStep (s s' : DnsCacheMiddleware H) (ks : List CacheKey) : Prop
  | marking (marking : Marking s s' ks)
  | insert (key : CacheKey) (none : ks = []) (guards : s'.guards = s.guards.map (·.overtake key))
      (releasing : Releasing s.cache s'.cache key)
  | drop (n : ℕ) (hn : n < s.guards.length) (none : ks = []) (guards : s'.guards = s.guards.eraseIdx n)
      (releasing : Releasing s.cache s'.cache s.guards[n].key)

theorem markStep (s : DnsCacheMiddleware H) (t : ℤ) (ev : CacheEvent) :
    MarkStep s (s.step t ev) (ev.newMarks s.cache) := by
  cases ev with
  | insertFullResponse key response fromPrefetch =>
    exact .insert key rfl rfl (releasing_insert s.cache t key response fromPrefetch)
  | dropGuard n =>
    cases hg : s.guards[n]? with
    | none =>
      rw [DnsCacheMiddleware.step, hg]
      exact .marking (Marking.of_quiet rfl fun _ e' he' => ⟨e', he', rfl⟩)
    | some g =>
      rw [DnsCacheMiddleware.step, hg]
      obtain ⟨hn, rfl⟩ := List.getElem?_eq_some_iff.mp hg
      exact .drop n hn rfl rfl (releasing_drop s.cache _)
  | _ => exact .marking (marking_step s t (by simp) (by simp))

/-! ### No mark outlives its guard -/

theorem Guarded.step {s : DnsCacheMiddleware H} (h : Guarded s) (t : ℤ) (ev : CacheEvent) :
    Guarded (s.step t ev) := by
  intro key e' he' hm
  rcases markStep s t ev with m | ⟨k, -, hguards, hrel⟩ | ⟨n, hn, -, hguards, hrel⟩
  · rw [m.guards]
    by_cases hk : ∃ k ∈ ev.newMarks s.cache, (k == key) = true
    · obtain ⟨k, hk, hkk⟩ := hk
      exact ⟨{ key := k }, List.mem_append_left _ (List.mem_map_of_mem hk), hkk⟩
    · obtain ⟨e, he, heq⟩ := m.keep key e' (fun k hkm => by simpa using fun hkk => hk ⟨k, hkm, hkk⟩) he'
      obtain ⟨g, hg, hgk⟩ := h key e he (heq ▸ hm)
      exact ⟨g, List.mem_append_right _ hg, hgk⟩
  · by_cases hk : (k == key) = true
    · rw [hrel.release key e' hk he'] at hm
      cases hm
    · obtain ⟨g, hg, hgk⟩ := h key e' (hrel.keep key e' hk he') hm
      rw [hguards]
      exact ⟨g.overtake k, List.mem_map_of_mem hg, by rw [g.overtake_key]; exact hgk⟩
  · by_cases hk : (s.guards[n].key == key) = true
    · rw [hrel.release key e' hk he'] at hm
      cases hm
    · obtain ⟨g, hg, hgk⟩ := h key e' (hrel.keep key e' hk he') hm
      rw [hguards]
      -- the guard that goes is that of another key
      rcases List.mem_cons.mp ((List.getElem_cons_eraseIdx_perm hn).mem_iff.mpr hg) with rfl | hg
      · exact absurd hgk hk
      · exact ⟨g, hg, hgk⟩

theorem guarded_new (policy : CachePolicy) (cacheSize : ℕ) (start : ℤ) :
    Guarded (DnsCacheMiddleware.new H policy cacheSize start) := fun _ _ he => by cases he

/-- **In any run a marked entry has a live guard.** -/
theorem marks_are_guarded (policy : CachePolicy) (cacheSize : ℕ) (start : ℤ) (es : List (ℤ × CacheEvent)) :
    Guarded (run DnsCacheMiddleware.step (DnsCacheMiddleware.new H policy cacheSize start) es) :=
  run_invariant_of_mem (P := fun _ => True) DnsCacheMiddleware.step (fun _ t ev h _ => h.step t ev) es _
    (guarded_new policy cacheSize start) fun _ _ => trivial

/-! ### One guard for a key -/

/-- The invariant: an entry is marked exactly while its one guard is alive and no insert came. -/
structure Tracked (s : DnsCacheMiddleware H) : Prop where
  guarded : Guarded s
  single : s.guards.Pairwise fun a b => (a.key == b.key) = false
  marked : ∀ g ∈ s.guards, ∀ e, s.cache.lookup g.key = some e → e.isInPrefetching = !g.overtaken

theorem Tracked.marksTrackGuards {s : DnsCacheMiddleware H} (h : Tracked s) : MarksTrackGuards s where
  guarded := h.guarded
  single := h.single
  released hnil key e he := by
    by_contra hm
    obtain ⟨g, hg, -⟩ := h.guarded key e he (by simpa using hm)
    rw [hnil] at hg
    cases hg

theorem tracked_new (policy : CachePolicy) (cacheSize : ℕ) (start : ℤ) :
    Tracked (DnsCacheMiddleware.new H policy cacheSize start) where
  guarded := guarded_new policy cacheSize start
  single := List.Pairwise.nil
  marked _ hg := by cases hg

/-- A key that is marked in turn has no live guard: one would have left its mark. -/
theorem Tracked.no_guard {s : DnsCacheMiddleware H} {t : ℤ} {ev : CacheEvent} (h : Tracked s)
    (hok : MarksInTurn s t ev) {k : CacheKey} (hk : k ∈ ev.newMarks s.cache) {g : PrefetchGuard}
    (hg : g ∈ s.guards) : (k == g.key) = false := by
  by_contra hgk
  have hgk : (k == g.key) = true := by simpa using hgk
  obtain ⟨hsome, hover⟩ := hok k (CacheEvent.newMarks_subset hk) g hg (BEq.symm hgk)
  obtain ⟨e, he⟩ := Option.isSome_iff_exists.mp hsome
  have hm := h.marked g hg e (by rw [← s.cache.lookup_congr hgk, he])
  rw [CacheEvent.unmarked_of_mem_newMarks hk he, hover] at hm
  cases hm

theorem tracked_step {s : DnsCacheMiddleware H} {t : ℤ} {ev : CacheEvent} (h : Tracked s)
    (hok : MarksInTurn s t ev) : Tracked (s.step t ev) := by
  rcases markStep s t ev with m | ⟨k, -, hguards, hrel⟩ | ⟨n, hn, -, hguards, hrel⟩
  · refine ⟨h.guarded.step t ev, ?_, fun g hg e' he' => ?_⟩
    · rw [m.guards]
      refine List.pairwise_append.mpr ⟨List.pairwise_map.mpr (CacheEvent.newMarks_distinct _ _), h.single, ?_⟩
      intro a ha g hg
      obtain ⟨k, hk, rfl⟩ := List.mem_map.mp ha
      exact h.no_guard hok hk hg
    · rw [m.guards] at hg
      rcases List.mem_append.mp hg with hg | hg
      · obtain ⟨k, hk, rfl⟩ := List.mem_map.mp hg
        exact m.mark k hk k e' BEq.rfl he'
      · obtain ⟨e, he, heq⟩ := m.keep g.key e' (fun k hk => h.no_guard hok hk hg) he'
        rw [heq]
        exact h.marked g hg e he
  · refine ⟨h.guarded.step t ev, ?_, fun g' hg' e he => ?_⟩
    · rw [hguards]
      refine List.pairwise_map.mpr (h.single.imp fun hab => ?_)
      rwa [PrefetchGuard.overtake_key, PrefetchGuard.overtake_key]
    · rw [hguards] at hg'
      obtain ⟨g, hg, rfl⟩ := List.mem_map.mp hg'
      rw [g.overtake_key] at he
      by_cases hk : (k == g.key) = true
      · rw [hrel.release _ e hk he, PrefetchGuard.overtake, if_pos (BEq.symm hk)]
        rfl
      · have hk' : ¬ (g.key == k) = true := fun hk' => hk (BEq.symm hk')
        rw [PrefetchGuard.overtake, if_neg hk']
        exact h.marked g hg e (hrel.keep _ e hk he)
  · have hperm := List.getElem_cons_eraseIdx_perm hn
    have hsingle : (s.guards[n] :: s.guards.eraseIdx n).Pairwise fun a b => (a.key == b.key) = false :=
      (hperm.pairwise_iff fun {a b} hab => by rwa [BEq.comm]).mpr h.single
    obtain ⟨hother, hrest⟩ := List.pairwise_cons.mp hsingle
    refine ⟨h.guarded.step t ev, hguards ▸ hrest, fun g hg e he => ?_⟩
    rw [hguards] at hg
    have hk : ¬ (s.guards[n].key == g.key) = true := by simp [hother g hg]
    exact h.marked g (List.mem_of_mem_eraseIdx hg) e (hrel.keep _ e hk he)

/-- A step out of turn gives some key a second guard. -/
theorem marksInTurn_of_single {s : DnsCacheMiddleware H} {t : ℤ} {ev : CacheEvent} (h : Tracked s)
    (hstep : (s.step t ev).guards.Pairwise fun a b => (a.key == b.key) = false) : MarksInTurn s t ev := by
  intro key hkey g hg hgk
  have unmarked (hnew : key ∈ ev.newMarks s.cache) (m : Marking s (s.step t ev) (ev.newMarks s.cache)) : False := by
    rw [m.guards] at hstep
    have hne : (key == g.key) = false :=
      (List.pairwise_append.mp hstep).2.2 { key } (List.mem_map_of_mem hnew) g hg
    rw [BEq.symm hgk] at hne
    cases hne
  cases ev with
  | markPrefetching k =>
    obtain rfl := List.mem_singleton.mp hkey
    by_cases hnew : (s.cache.markPrefetching key).2 = true
    · have hmarks : CacheEvent.newMarks s.cache (.markPrefetching key) = [key] := if_pos hnew
      exact (unmarked (by rw [hmarks]; exact hkey) (marking_markPrefetching s t key)).elim
    · have hold : ¬ (!((s.cache.lookup key).map (·.isInPrefetching)).getD false) = true := hnew
      cases he : s.cache.lookup key with
      | none => simp [he] at hold
      | some e =>
        refine ⟨rfl, ?_⟩
        have hm := h.marked g hg e (by rw [s.cache.lookup_congr hgk, he])
        simpa [he, hm] using hold
  | getExpired i now ahead => exact (unmarked hkey (marking_getExpired s t i now ahead)).elim
  | _ => cases hkey

/-- **The marks track the guards in every state of a run exactly when it marks in turn.** -/
theorem marks_track_guards_iff (H : KeyHash) (policy : CachePolicy) (cacheSize : ℕ) (start : ℤ)
    (es : List (ℤ × CacheEvent)) :
    Throughout DnsCacheMiddleware.step MarksTrackGuards (DnsCacheMiddleware.new H policy cacheSize start) es ↔
      Meets DnsCacheMiddleware.step MarksInTurn (DnsCacheMiddleware.new H policy cacheSize start) es :=
  throughout_iff_meets DnsCacheMiddleware.step (fun _ h => h.marksTrackGuards) (fun _ _ _ h hok => tracked_step h hok)
    (fun _ _ _ h hstep => marksInTurn_of_single h hstep.single) es _ (tracked_new policy cacheSize start)

/-! ### Two refreshes of one key -/

def aaaaKey : CacheKey := { rootKey with query := { (default : Query) with queryType := .AAAA } }

/-- An address record for the root with a TTL of one second. -/
def secondLived (type : RecordType) : DnsResponse where
  message :=
    { queries := [{ (default : Query) with queryType := type }]
      answers := [⟨Name.root, .IN, 1, .other type [192, 0, 2, 1]⟩] }
  validUntil := 0

/-- A client finds the A entry expired and the AAAA entry missing, and makes a guard for both. The
refresh is slow: meanwhile another client brings an AAAA answer, which runs out, and a third client
finds it so. -/
def slowRefresh : List (ℤ × CacheEvent) :=
  [(0, .insertFullResponse rootKey (secondLived .A) false),
    (2000000000, .get rootKey),
    (2000000000, .markPrefetching rootKey),
    (2000000000, .setValidUntilForPrefetch rootKey 2000000000 5),
    (2000000000, .markPrefetching aaaaKey),
    (2000000000, .setValidUntilForPrefetch aaaaKey 2000000000 5),
    (3000000000, .get aaaaKey),
    (3000000000, .insertFullResponse aaaaKey (secondLived .AAAA) false),
    (5000000000, .get aaaaKey),
    (5000000000, .markPrefetching aaaaKey)]

/-- The AAAA key has two live guards. -/
theorem slowRefresh_doubles_guard : ¬ MarksTrackGuards
    (run DnsCacheMiddleware.step (DnsCacheMiddleware.new oneShard ⟨true, 86400, 0⟩ 64 0) slowRefresh) := by
  intro h
  have := h.single
  revert this
  decide +kernel

end Cache
end SmartDns
