/-
# The TTLs that are served

After an insert, reads, purges and inserts under other keys leave the entry's data
and deadline alone, or lose the entry (`Undisturbed`). A read that finds it valid
gives every record the time that is left, in whole seconds rounded up. So the TTLs
only fall, and stay within what the insert gave: the least TTL of the answers, or
for a response without answers that of its SOA record and the SOA's minimum, or
5 seconds; at most a day.

The records of the other two sections get the same TTL, so one that came with a
smaller TTL is served with a larger one (`authority_outlives_its_ttl`).

Key definitions: `CacheOp`, `DnsCache.step`, `LifetimeBound`.
Key theorems: `served_ttl_bounds`, `lifetimeBound_insertionTtl`.
-/
import SmartDns.Lib.Runs
import SmartDns.Cache.Store

namespace SmartDns
namespace Cache

open Dns Lib

/-- What a client or the clean-up does to the cache. -/
inductive CacheOp
  | insertFullResponse (key : CacheKey) (response : DnsResponse) (fromPrefetch : Bool)
  | get (key : CacheKey)
  | purgeDeadRecords

variable {H : KeyHash}

def DnsCache.step (c : DnsCache H) (now : ℤ) : CacheOp → DnsCache H
  | .insertFullResponse key response fromPrefetch => (c.insertFullResponse key response now fromPrefetch).1
  | .get key => (c.get key now).1
  | .purgeDeadRecords => (c.purgeDeadRecords now).1

/-- An insert under `key`. -/
def CacheOp.Refreshes (key : CacheKey) : CacheOp → Prop
  | .insertFullResponse key' _ _ => (key' == key) = true
  | _ => False

/-- The entry under `key`, if it is still there, has this response and this deadline. -/
def Undisturbed (key : CacheKey) (data : DnsResponse) (validUntil : ℤ) (c : DnsCache H) : Prop :=
  ∀ e, c.lookup key = some e → e.data = data ∧ e.validUntil = validUntil

theorem undisturbed_step {key : CacheKey} {data : DnsResponse} {validUntil : ℤ} (c : DnsCache H) (now : ℤ)
    (op : CacheOp) (h : Undisturbed key data validUntil c) (hop : ¬ op.Refreshes key) :
    Undisturbed key data validUntil (c.step now op) := by
  intro e he
  cases op with
  | insertFullResponse key' response fromPrefetch =>
    exact h e (c.lookup_insertFullResponse_of_not_beq hop response now fromPrefetch he)
  | get key' =>
    have he : (c.get key' now).1.lookup key = some e := he
    rw [DnsCache.lookup_get] at he
    by_cases hk : (key' == key) = true
    · rw [if_pos hk] at he
      obtain ⟨e', he', rfl⟩ := Option.map_eq_some_iff.mp he
      exact h e' he'
    · rw [if_neg hk] at he
      exact h e he
  | purgeDeadRecords =>
    have he : (c.purgeDeadRecords now).1.lookup key = some e := he
    rw [DnsCache.lookup_purgeDeadRecords] at he
    exact h e (Option.eq_some_of_filter_eq_some he)

theorem undisturbed_run {key : CacheKey} {data : DnsResponse} {validUntil : ℤ} {c : DnsCache H}
    {es : List (ℤ × CacheOp)} (h : Undisturbed key data validUntil c) (hes : ∀ e ∈ es, ¬ e.2.Refreshes key) :
    Undisturbed key data validUntil (run DnsCache.step c es) :=
  run_invariant_of_mem DnsCache.step (fun c t op h hop => undisturbed_step c t op h hop) es c h hes

/-- A TTL within what an insert of `response` may give. -/
structure LifetimeBound (response : DnsResponse) (ttl : ℕ) : Prop where
  day : ttl ≤ MAX_TTL
  answers : ∀ a ∈ response.message.answers, ttl ≤ a.ttl
  soa : ∀ r, response.message.answers = [] → response.message.authorities.find? (·.recordType = .SOA) = some r →
    ttl ≤ r.ttl ∧ ∀ minimum rest, r.data = .soa minimum rest → ttl ≤ minimum
  bare : response.message.answers = [] → response.message.authorities.find? (·.recordType = .SOA) = none → ttl ≤ 5

theorem insertionTtl_le_of_mem_answers {response : DnsResponse} {a : Record}
    (ha : a ∈ response.message.answers) : insertionTtl response ≤ a.ttl := by
  have hne : (!response.message.answers.isEmpty) = true := by
    cases h : response.message.answers with
    | nil => simp [h] at ha
    | cons x xs => rfl
  have hmin : ((response.message.answers.map (·.ttl)).min?).getD 60 ≤ a.ttl :=
    List.min?_getD_le_of_mem (List.mem_map_of_mem ha)
  unfold insertionTtl
  simp only [hne, ↓reduceIte]
  omega

theorem insertionTtl_le_of_soa {response : DnsResponse} {r : Record} (ha : response.message.answers = [])
    (hr : response.message.authorities.find? (·.recordType = .SOA) = some r) :
    insertionTtl response ≤ r.ttl ∧ ∀ minimum rest, r.data = .soa minimum rest → insertionTtl response ≤ minimum := by
  unfold insertionTtl
  simp only [ha, hr, List.isEmpty_nil, Bool.not_true, Bool.false_eq_true, ↓reduceIte, Option.some_or]
  constructor
  · split <;> omega
  · rintro minimum rest hd
    simp only [hd]
    omega

theorem insertionTtl_le_of_bare {response : DnsResponse} (ha : response.message.answers = [])
    (hr : response.message.authorities.find? (·.recordType = .SOA) = none) : insertionTtl response ≤ 5 := by
  unfold insertionTtl
  simp only [ha, hr, List.isEmpty_nil, Bool.not_true, Bool.false_eq_true, ↓reduceIte, List.find?_nil,
    Option.or_none]
  omega

theorem lifetimeBound_insertionTtl (response : DnsResponse) : LifetimeBound response (insertionTtl response) where
  day := insertionTtl_le response
  answers _ := insertionTtl_le_of_mem_answers
  soa _ := insertionTtl_le_of_soa
  bare := insertionTtl_le_of_bare

theorem LifetimeBound.mono {response : DnsResponse} {s t : ℕ} (h : LifetimeBound response t) (hst : s ≤ t) :
    LifetimeBound response s where
  day := hst.trans h.day
  answers a ha := hst.trans (h.answers a ha)
  soa r ha hr := ⟨hst.trans (h.soa r ha hr).1, fun m rest hd => hst.trans ((h.soa r ha hr).2 m rest hd)⟩
  bare ha hr := hst.trans (h.bare ha hr)

/-- A valid read gives every record the time that is left of the deadline. -/
theorem ttl_of_get_valid {c : DnsCache H} {key : CacheKey} {data res : DnsResponse} {validUntil now : ℤ}
    (h : Undisturbed key data validUntil c) (hget : (c.get key now).2 = some (res, .valid)) :
    now ≤ validUntil ∧ ∀ x ∈ res.message.records, x.ttl = ceilSecs (durationSince validUntil now) := by
  obtain ⟨e, he, hres⟩ := Option.map_eq_some_iff.mp hget
  obtain ⟨hdata, hv⟩ := h e he
  by_cases hc : e.isCurrent now = true
  · rw [if_pos hc, Prod.mk.injEq] at hres
    obtain ⟨rfl, -⟩ := hres
    have hle : now ≤ validUntil := by simpa [DnsCacheEntry.isCurrent, hv] using hc
    refine ⟨hle, fun x hx => ?_⟩
    rw [DnsResponse.ttl_of_mem_setNewTtl hx, DnsCacheEntry.ttl, hv]
  · rw [if_neg hc] at hres
    cases hres

theorem undisturbed_insert (c : DnsCache H) (key : CacheKey) (response : DnsResponse) (now : ℤ)
    (fromPrefetch : Bool) : Undisturbed key (DnsCache.cacheResponse key response now)
      (now + fromSecs (insertionTtl response)) (c.insertFullResponse key response now fromPrefetch).1 := by
  intro e he
  rw [c.lookup_insertFullResponse_of_beq BEq.rfl] at he
  cases he
  unfold DnsCache.insertedEntry
  cases c.lookup key <;> exact ⟨rfl, rfl⟩

/-- The time that is left of an insert's deadline, in whole seconds. -/
theorem ceilSecs_left_le {t₀ t : ℤ} {ttl : ℕ} (h : t₀ ≤ t) (httl : ttl ≤ MAX_TTL) :
    ceilSecs (durationSince (t₀ + fromSecs ttl) t) ≤ ttl := by
  have hle : durationSince (t₀ + fromSecs ttl) t ≤ fromSecs ttl := by
    unfold durationSince
    omega
  refine (ceilSecs_le_iff ?_).mpr hle
  unfold asSecs fromSecs MAX_TTL at *
  omega

/-- **Served TTLs only fall.** After an insert at `t₀` and any run without another insert under the
key, a valid read at `t₁`, another such run and a valid read at `t₂`. -/
theorem served_ttl_bounds (c : DnsCache H) (key : CacheKey) (response : DnsResponse) (fromPrefetch : Bool)
    (t₀ t₁ t₂ : ℤ) (es₁ es₂ : List (ℤ × CacheOp)) (res₁ res₂ : DnsResponse)
    (h₀₁ : t₀ ≤ t₁) (h₁₂ : t₁ ≤ t₂) (hes₁ : ∀ e ∈ es₁, ¬ e.2.Refreshes key) (hes₂ : ∀ e ∈ es₂, ¬ e.2.Refreshes key)
    (hget₁ : ((run DnsCache.step (c.insertFullResponse key response t₀ fromPrefetch).1 es₁).get key t₁).2 =
      some (res₁, .valid))
    (hget₂ : ((run DnsCache.step ((run DnsCache.step (c.insertFullResponse key response t₀ fromPrefetch).1 es₁).get
      key t₁).1 es₂).get key t₂).2 = some (res₂, .valid)) :
    (∀ x₁ ∈ res₁.message.records, ∀ x₂ ∈ res₂.message.records, x₂.ttl ≤ x₁.ttl) ∧
    (∀ x ∈ res₁.message.records ++ res₂.message.records, LifetimeBound response x.ttl) ∧
    t₁ ≤ t₀ + fromSecs (insertionTtl response) ∧ t₂ ≤ t₀ + fromSecs (insertionTtl response) := by
  have hu₁ := undisturbed_run (undisturbed_insert c key response t₀ fromPrefetch) hes₁
  have hu₂ := undisturbed_run (undisturbed_step _ t₁ (.get key) hu₁ fun h => h) hes₂
  obtain ⟨hv₁, httl₁⟩ := ttl_of_get_valid hu₁ hget₁
  obtain ⟨hv₂, httl₂⟩ := ttl_of_get_valid hu₂ hget₂
  have hday := insertionTtl_le response
  have hb₁ := ceilSecs_left_le h₀₁ hday
  have hb₂ := ceilSecs_left_le (h₀₁.trans h₁₂) hday
  refine ⟨fun x₁ hx₁ x₂ hx₂ => ?_, fun x hx => ?_, hv₁, hv₂⟩
  · rw [httl₁ x₁ hx₁, httl₂ x₂ hx₂]
    refine ceilSecs_mono ?_ ?_
    · unfold durationSince
      omega
    · unfold durationSince asSecs
      unfold fromSecs at *
      unfold MAX_TTL at hday
      omega
  · rcases List.mem_append.mp hx with hx | hx
    · exact httl₁ x hx ▸ (lifetimeBound_insertionTtl response).mono hb₁
    · exact httl₂ x hx ▸ (lifetimeBound_insertionTtl response).mono hb₂

/-! ### An authority record that is served beyond its TTL -/

/-- Some key hash. -/
def oneShard : KeyHash := ⟨fun _ => 0, fun _ _ _ => rfl⟩

def rootKey : CacheKey := ⟨default, "default", none, default⟩

/-- An address for the root with a TTL of 300 s, and a name server record with one of 10 s. -/
def shortAuthority : DnsResponse where
  message :=
    { queries := [default]
      answers := [⟨Name.root, .IN, 300, .other .A [192, 0, 2, 1]⟩]
      authorities := [⟨Name.root, .IN, 10, .other .NS [0]⟩] }
  validUntil := 0

/-- What a read at once after the insert gives. -/
def servedAtOnce : Option (DnsResponse × CacheStatus) :=
  (((DnsCache.new oneShard ⟨false, 0, 0⟩ 64).insertFullResponse rootKey shortAuthority 0 false).1.get rootKey 0).2

/-- The name server record is served with 300 s, more than the least TTL of the response. -/
theorem authority_outlives_its_ttl : ¬ ∀ res, servedAtOnce = some (res, .valid) →
    ∀ x ∈ res.message.records, ∀ y ∈ shortAuthority.message.records, x.ttl ≤ y.ttl := by
  intro h
  have hserved : servedAtOnce = some ((DnsCache.cacheResponse rootKey shortAuthority 0).setNewTtl 300, .valid) := by
    rfl
  have := h _ hserved
  revert this
  decide

/-- A read at once and one a second later. -/
theorem served_ttl_bounds_a_second_later :
    (∀ x₁ ∈ (shortAuthority.setNewTtl 300).message.records,
      ∀ x₂ ∈ (shortAuthority.setNewTtl 299).message.records, x₂.ttl ≤ x₁.ttl) ∧
    (∀ x ∈ (shortAuthority.setNewTtl 300).message.records ++ (shortAuthority.setNewTtl 299).message.records,
      LifetimeBound shortAuthority x.ttl) ∧
    0 ≤ (0 : ℤ) + fromSecs (insertionTtl shortAuthority) ∧
    1000000000 ≤ (0 : ℤ) + fromSecs (insertionTtl shortAuthority) :=
  served_ttl_bounds (DnsCache.new oneShard ⟨false, 0, 0⟩ 64) rootKey shortAuthority false 0 0 1000000000 []
    [(0, .purgeDeadRecords)] ((DnsCache.cacheResponse rootKey shortAuthority 0).setNewTtl 300)
    ((DnsCache.cacheResponse rootKey shortAuthority 0).setNewTtl 299) (by decide) (by decide) (by simp)
    (by simp [CacheOp.Refreshes]) rfl rfl

end Cache
end SmartDns
