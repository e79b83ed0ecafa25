/-
# Saving the cache and loading it again

`persist_cache` writes a header and the entries shard by shard; `load_cache` reads
them back, takes the time the program was off from every deadline, and rebuilds each
key from the entry: the question of the message, the upstream group, the subnet and
the options.

Every cache that inserts, reads and purges lead to holds only entries that carry their
key, as long as each insert brings a response to the question of its key (`Filed`). So
the key that is rebuilt is the key the entry stood under (`fileKey_restore`), no two
keys become one, and a lookup after the load finds what it found before, as the file
keeps it (`persist_load`). The file does not keep the mark that AAAA answers were
withheld: it comes back cleared (`load_clears_mark`).

Key definitions: `DnsCache.persistCache`, `DnsCache.loadCache`, `fileKey`, `Filed`,
`Survives`.
Key theorems: `persist_load`, `lookup_loadCache`, `filed_run`.
-/
import SmartDns.Cache.Ttl
import SmartDns.Cache.Truncate

namespace SmartDns
namespace Cache

open Dns Lib

/-- `b"SMCACHE\0"`. -/
def CACHE_MAGIC : List UInt8 := [83, 77, 67, 65, 67, 72, 69, 0]

def CACHE_FORMAT_VERSION : ℕ := 3

def CACHE_HEADER_LEN : ℕ := 14

/-- The numbers of the header have their least significant byte first. -/
def emitCacheHeader (entryCount : ℕ) : List UInt8 :=
  CACHE_MAGIC ++ ((toBe 2 CACHE_FORMAT_VERSION).reverse ++ (toBe 4 entryCount).reverse)

/-- The version and the number of entries of the header, if there is one. -/
def parseCacheHeader (data : List UInt8) : Option (ℕ × ℕ) :=
  if data.length < CACHE_HEADER_LEN ∨ data.take 8 ≠ CACHE_MAGIC then none
  else some (ofBe ((data.drop 8).take 2).reverse, ofBe ((data.drop 10).take 4).reverse)

/-- The time the program was off is taken from what is left of the lifetime. -/
def ageEntry (now : ℤ) (offline : ℕ) (e : DnsCacheEntry) : DnsCacheEntry :=
  if e.validUntil > now then
    if (e.validUntil - now).toNat > offline then e.setValidUntil (e.validUntil - offline)
    else e.setValidUntil (now - (offline - (e.validUntil - now).toNat : ℕ))
  else e.setValidUntil (e.validUntil - offline)

/-- The key that is rebuilt for an entry of the file. -/
def fileKey (e : DnsCacheEntry) : CacheKey where
  query := e.data.query
  group := e.data.nameServerGroup.getD "default"
  ecs := e.ecs
  opts := e.opts

namespace DnsCache

variable {H : KeyHash}

def totalLen (c : DnsCache H) : ℕ := ((List.finRange SHARD_COUNT).map fun i => (c.shards i).entries.length).sum

def persistCache (c : DnsCache H) (cdc : Codec) (now : ℤ) : List UInt8 :=
  emitCacheHeader c.totalLen ++ (List.finRange SHARD_COUNT).flatMap fun i =>
    serializeMany cdc now ((c.shards i).entries.map (·.2))

/-- The loop over the entries that were read. -/
def storeEntries (c : DnsCache H) (onlyMissing : Bool) (entries : List DnsCacheEntry) : DnsCache H :=
  entries.foldl (fun c e =>
    if onlyMissing && (c.lookup (fileKey e)).isSome then c else c.put (fileKey e) e) c

/-- A file with a header of another version is left alone; one without a header is read whole. -/
def loadCacheImpl (c : DnsCache H) (cdc : Codec) (now : ℤ) (offline : ℕ) (data : List UInt8)
    (onlyMissing : Bool) : DnsCache H :=
  let store (payload : List UInt8) : DnsCache H :=
    c.storeEntries onlyMissing ((deserializeBestEffort cdc now payload).1.map (ageEntry now offline))
  match parseCacheHeader data with
  | some (version, _) => if version ≠ CACHE_FORMAT_VERSION then c else store (data.drop CACHE_HEADER_LEN)
  | none => store data

def loadCache (c : DnsCache H) (cdc : Codec) (now : ℤ) (offline : ℕ) (data : List UInt8) : DnsCache H :=
  c.loadCacheImpl cdc now offline data false

end DnsCache

/-! ### The header and the deadline -/

theorem emitCacheHeader_length (n : ℕ) : (emitCacheHeader n).length = CACHE_HEADER_LEN := by
  simp [emitCacheHeader, CACHE_MAGIC, CACHE_HEADER_LEN]

theorem parseCacheHeader_emit (n : ℕ) (payload : List UInt8) :
    parseCacheHeader (emitCacheHeader n ++ payload) = some (CACHE_FORMAT_VERSION, n % 2 ^ 32) := by
  have h8 : CACHE_MAGIC.length = 8 := rfl
  have h2 : ((toBe 2 CACHE_FORMAT_VERSION).reverse).length = 2 := by simp
  have h4 : ((toBe 4 n).reverse).length = 4 := by simp
  have hlen : ¬ ((emitCacheHeader n ++ payload).length < CACHE_HEADER_LEN) := by
    rw [List.length_append, emitCacheHeader_length]
    omega
  have hmagic : (emitCacheHeader n ++ payload).take 8 = CACHE_MAGIC := by
    rw [emitCacheHeader, List.append_assoc]
    exact List.take_left' h8
  have hversion : ((emitCacheHeader n ++ payload).drop 8).take 2 = (toBe 2 CACHE_FORMAT_VERSION).reverse := by
    rw [emitCacheHeader, List.append_assoc, List.drop_left' h8, List.append_assoc]
    exact List.take_left' h2
  have hcount : ((emitCacheHeader n ++ payload).drop 10).take 4 = (toBe 4 n).reverse := by
    rw [emitCacheHeader, show 10 = 8 + 2 from rfl, ← List.drop_drop, List.append_assoc, List.drop_left' h8,
      List.append_assoc, List.drop_left' h2]
    exact List.take_left' h4
  rw [parseCacheHeader, if_neg (not_or.mpr ⟨hlen, not_not.mpr hmagic⟩), hversion, hcount, List.reverse_reverse,
    List.reverse_reverse, ofBe_toBe, ofBe_toBe]
  rfl

/-- Either way the deadline moves by the time the program was off. -/
theorem ageEntry_eq (now : ℤ) (offline : ℕ) (e : DnsCacheEntry) :
    ageEntry now offline e = e.setValidUntil (e.validUntil - offline) := by
  unfold ageEntry
  by_cases h : e.validUntil > now
  · rw [if_pos h]
    by_cases h' : (e.validUntil - now).toNat > offline
    · rw [if_pos h']
    · rw [if_neg h']
      congr 1
      omega
  · rw [if_neg h]

/-! ### Entries that carry their key -/

structure Filed (t : ℤ) (key : CacheKey) (e : DnsCacheEntry) : Prop where
  question : (e.data.query == key.query) = true
  group : e.data.nameServerGroup = some key.group
  ecs : e.ecs = key.ecs
  opts : e.opts = key.opts
  group_ne : key.group ≠ ""
  ecs_ne : key.ecs ≠ some ""
  deadline : e.validUntil ≤ t + fromSecs MAX_TTL

theorem Filed.congr {t : ℤ} {key k' : CacheKey} {e : DnsCacheEntry} (h : Filed t key e)
    (hk : (key == k') = true) : Filed t k' e := by
  obtain ⟨h1, h2, h3, h4⟩ := CacheKey.beq_iff.mp hk
  exact ⟨BEq.trans h.question h1, h2 ▸ h.group, h3 ▸ h.ecs, h4 ▸ h.opts, h2 ▸ h.group_ne, h3 ▸ h.ecs_ne, h.deadline⟩

variable {H : KeyHash}

def AllFiled (t : ℤ) (c : DnsCache H) : Prop := ∀ key e, c.lookup key = some e → Filed t key e

/-- An insert brings a response to the question of its key; group and subnet are not empty. -/
def CacheOp.AnswersItsKey : CacheOp → Prop
  | .insertFullResponse key response _ =>
    (response.query == key.query) = true ∧ key.group ≠ "" ∧ key.ecs ≠ some ""
  | _ => True

theorem filed_insertedEntry {t now : ℤ} {c : DnsCache H} {key : CacheKey} {response : DnsResponse}
    (h : AllFiled t c) (hnow : now ≤ t) (hq : (response.query == key.query) = true) (hg : key.group ≠ "")
    (hecs : key.ecs ≠ some "") (fromPrefetch : Bool) :
    Filed t key (c.insertedEntry key response now fromPrefetch) := by
  have hday : now + (fromSecs (insertionTtl response) : ℤ) ≤ t + fromSecs MAX_TTL := by
    have := insertionTtl_le response
    unfold fromSecs
    omega
  unfold DnsCache.insertedEntry
  cases hl : c.lookup key with
  | none => exact ⟨hq, rfl, rfl, rfl, hg, hecs, hday⟩
  | some e => exact ⟨hq, rfl, (h key e hl).ecs, (h key e hl).opts, hg, hecs, hday⟩

theorem filed_step {t : ℤ} (c : DnsCache H) {now : ℤ} (op : CacheOp) (h : AllFiled t c) (hnow : now ≤ t)
    (hop : op.AnswersItsKey) : AllFiled t (c.step now op) := by
  intro key e he
  cases op with
  | insertFullResponse key' response fromPrefetch =>
    have he : (c.insertFullResponse key' response now fromPrefetch).1.lookup key = some e := he
    by_cases hk : (key' == key) = true
    · rw [c.lookup_insertFullResponse_of_beq hk] at he
      cases he
      exact (filed_insertedEntry h hnow hop.1 hop.2.1 hop.2.2 fromPrefetch).congr hk
    · exact h key e (c.lookup_insertFullResponse_of_not_beq hk response now fromPrefetch he)
  | get key' =>
    have he : (c.get key' now).1.lookup key = some e := he
    rw [DnsCache.lookup_get] at he
    by_cases hk : (key' == key) = true
    · rw [if_pos hk] at he
      obtain ⟨e', he', rfl⟩ := Option.map_eq_some_iff.mp he
      have := h key e' he'
      exact ⟨this.question, this.group, this.ecs, this.opts, this.group_ne, this.ecs_ne, this.deadline⟩
    · rw [if_neg hk] at he
      exact h key e he
  | purgeDeadRecords =>
    have he : (c.purgeDeadRecords now).1.lookup key = some e := he
    rw [DnsCache.lookup_purgeDeadRecords] at he
    exact h key e (Option.eq_some_of_filter_eq_some he)

theorem filed_run {t : ℤ} {c : DnsCache H} (h : AllFiled t c) {es : List (ℤ × CacheOp)}
    (hes : ∀ e ∈ es, e.1 ≤ t ∧ e.2.AnswersItsKey) : AllFiled t (run DnsCache.step c es) := by
  induction es generalizing c with
  | nil => exact h
  | cons e es ih =>
    obtain ⟨h1, h2⟩ := hes e List.mem_cons_self
    exact ih (filed_step c e.2 h h1 h2) fun e' he' => hes e' (List.mem_cons_of_mem _ he')

theorem shardSize_run (c : DnsCache H) : ∀ es : List (ℤ × CacheOp),
    (run DnsCache.step c es).shardSize = c.shardSize := fun es => by
  induction es generalizing c with
  | nil => rfl
  | cons e es ih =>
    rw [run_cons, ih]
    cases e.2 with
    | insertFullResponse key response fromPrefetch =>
      show (c.insertFullResponse key response e.1 fromPrefetch).1.shardSize = _
      unfold DnsCache.insertFullResponse
      split <;> rfl
    | get key => rfl
    | purgeDeadRecords => rfl

/-! ### Storing entries under new keys -/

theorem shards_put (c : DnsCache H) (key : CacheKey) (e : DnsCacheEntry) (i : Fin SHARD_COUNT) :
    (c.put key e).shards i = if H.shardOf key = i then (c.shards i).put key e else c.shards i := by
  show Function.update c.shards (H.shardOf key) _ i = _
  by_cases h : H.shardOf key = i
  · subst h
    rw [Function.update_self, if_pos rfl]
  · rw [Function.update_of_ne (Ne.symm h), if_neg h]

theorem shards_storeEntries (i : Fin SHARD_COUNT) : ∀ (l : List DnsCacheEntry) (c : DnsCache H),
    (c.storeEntries false l).shards i =
      ((l.filter fun e => H.shardOf (fileKey e) = i).map fun e => (fileKey e, e)).foldl
        (fun s e => s.put e.1 e.2) (c.shards i)
  | [], _ => rfl
  | e :: l, c => by
    have hstep : c.storeEntries false (e :: l) = (c.put (fileKey e) e).storeEntries false l := rfl
    rw [hstep, shards_storeEntries i l, shards_put, List.filter_cons]
    by_cases h : H.shardOf (fileKey e) = i
    · simp [h]
    · simp [h]

/-- Entries with distinct keys, no more for a shard than it holds, are all found again. -/
theorem lookup_storeEntries {policy : CachePolicy} {cacheSize : ℕ} {l : List DnsCacheEntry}
    (hl : l.Pairwise fun a b => (fileKey a == fileKey b) = false)
    (hsize : ∀ i, (l.filter fun e => H.shardOf (fileKey e) = i).length ≤ (DnsCache.new H policy cacheSize).shardSize)
    (key : CacheKey) (e : DnsCacheEntry) :
    ((DnsCache.new H policy cacheSize).storeEntries false l).lookup key = some e ↔
      e ∈ l ∧ (fileKey e == key) = true := by
  have hput := Lru.putAll_entries
    ((l.filter fun e => H.shardOf (fileKey e) = H.shardOf key).map fun e => (fileKey e, e))
    ((DnsCache.new H policy cacheSize).shards (H.shardOf key)) (by
      rw [List.pairwise_map]
      exact hl.filter _) (fun _ _ _ he => by cases he) (by
      rw [List.length_map]
      simpa [DnsCache.new, Lru.new, KeyMap.empty] using hsize (H.shardOf key))
  rw [← shards_storeEntries] at hput
  rw [DnsCache.lookup, KeyMap.get?_eq_some_iff, hput]
  constructor
  · rintro ⟨k', hk', hmem⟩
    rcases List.mem_append.mp hmem with h | h
    · obtain ⟨x, hx, hxe⟩ := List.mem_map.mp (List.mem_reverse.mp h)
      cases hxe
      exact ⟨(List.mem_filter.mp hx).1, hk'⟩
    · cases h
  · rintro ⟨he, hk⟩
    refine ⟨fileKey e, hk, List.mem_append_left _ (List.mem_reverse.mpr (List.mem_map.mpr ⟨e, ?_, rfl⟩))⟩
    exact List.mem_filter.mpr ⟨he, by simpa using H.shardOf_congr hk⟩

/-! ### The entries of a file -/

/-- The entries that are stored for what stands in a file, whatever that is. -/
def fileEntries (cdc : Codec) (now : ℤ) (offline : ℕ) (data : List UInt8) : List DnsCacheEntry :=
  let entries (payload : List UInt8) := (deserializeBestEffort cdc now payload).1.map (ageEntry now offline)
  match parseCacheHeader data with
  | some (version, _) => if version ≠ CACHE_FORMAT_VERSION then [] else entries (data.drop CACHE_HEADER_LEN)
  | none => entries data

theorem loadCacheImpl_eq (c : DnsCache H) (cdc : Codec) (now : ℤ) (offline : ℕ) (data : List UInt8)
    (onlyMissing : Bool) :
    c.loadCacheImpl cdc now offline data onlyMissing = c.storeEntries onlyMissing (fileEntries cdc now offline data) := by
  unfold DnsCache.loadCacheImpl fileEntries
  dsimp only
  cases parseCacheHeader data with
  | none => rfl
  | some p =>
    by_cases h : p.1 ≠ CACHE_FORMAT_VERSION
    · simp only [if_pos h]
      rfl
    · simp only [if_neg h]

/-- What is found after the load was there before it, or is an entry of the file under its own key. -/
theorem found_of_storeEntries {onlyMissing : Bool} {key : CacheKey} {e : DnsCacheEntry} :
    ∀ {l : List DnsCacheEntry} {c : DnsCache H}, (c.storeEntries onlyMissing l).lookup key = some e →
      c.lookup key = some e ∨ e ∈ l ∧ (fileKey e == key) = true
  | [], _, h => .inl h
  | x :: l, c, h => by
    rcases found_of_storeEntries (l := l) h with h | ⟨hmem, hkey⟩
    · dsimp only at h
      split at h
      · exact .inl h
      · by_cases hk : (fileKey x == key) = true
        · rw [c.lookup_put_of_beq hk] at h
          obtain rfl := Option.some.inj h
          exact .inr ⟨List.mem_cons_self, hk⟩
        · exact .inl (c.lookup_put_of_not_beq hk x h)
    · exact .inr ⟨List.mem_cons_of_mem x hmem, hkey⟩

/-- An entry that is read has no mark: the file has no place for it. -/
theorem unmarked_of_read {cdc : Codec} {now : ℤ} {d rest : List UInt8} {e : DnsCacheEntry}
    (h : DnsCacheEntry.read cdc now d = .ok (e, rest)) : e.data.aaaaSuppressed = false := by
  obtain ⟨p, d₁, -, h⟩ := bind_eq_ok_iff.mp h
  obtain ⟨ecs, d₂, -, h⟩ := bind_eq_ok_iff.mp h
  obtain ⟨opts, d₃, -, h⟩ := bind_eq_ok_iff.mp h
  obtain ⟨rfl, -⟩ := Prod.mk.inj (Except.ok.inj h)
  unfold buildEntry
  cases p.2.2.1 <;> rfl

theorem unmarked_of_mem_fileEntries {cdc : Codec} {now : ℤ} {offline : ℕ} {data : List UInt8} {e : DnsCacheEntry}
    (h : e ∈ fileEntries cdc now offline data) : e.data.aaaaSuppressed = false := by
  have read {payload : List UInt8}
      (h : e ∈ (deserializeBestEffort cdc now payload).1.map (ageEntry now offline)) : e.data.aaaaSuppressed = false := by
    obtain ⟨x, hx, rfl⟩ := List.mem_map.mp h
    obtain ⟨d, rest, hr⟩ := exists_of_mem_readMany _ _ hx
    have hx := unmarked_of_read hr
    rwa [ageEntry_eq]
  unfold fileEntries at h
  dsimp only at h
  split at h
  · split at h
    · cases h
    · exact read h
  · exact read h

/-! ### What the file gives back -/

/-- The entry that is stored at `t'` for an entry saved at `t`. -/
def restore (cdc : Codec) (t t' : ℤ) (e : DnsCacheEntry) : DnsCacheEntry :=
  ageEntry t' (t' - t).toNat (cdc.readBack t t' e)

theorem restore_data (cdc : Codec) (t t' : ℤ) (e : DnsCacheEntry) :
    (restore cdc t t' e).data.message = cdc.storedMessage e.data.message ∧
    (restore cdc t t' e).data.nameServerGroup = storedText e.data.nameServerGroup ∧
    (restore cdc t t' e).data.aaaaSuppressed = false := by
  rw [restore, ageEntry_eq, Codec.readBack, buildEntry]
  cases storedText e.data.nameServerGroup <;> exact ⟨rfl, rfl, rfl⟩

/-- The key that is rebuilt is the key the entry stood under. -/
theorem fileKey_restore {cdc : Codec} {t t' : ℤ} {key : CacheKey} {e : DnsCacheEntry} (h : Filed t key e)
    (hm : cdc.storedMessage e.data.message = e.data.message) : (fileKey (restore cdc t t' e) == key) = true := by
  obtain ⟨hmessage, hgroup, -⟩ := restore_data cdc t t' e
  have hecs : (restore cdc t t' e).ecs = storedText e.ecs := by
    rw [restore, ageEntry_eq]
    rfl
  have hopts : (restore cdc t t' e).opts = e.opts := by
    rw [restore, ageEntry_eq]
    rfl
  refine CacheKey.beq_iff.mpr ⟨?_, ?_, ?_, ?_⟩
  · show (DnsResponse.query _ == key.query) = true
    rw [DnsResponse.query, hmessage, hm]
    exact h.question
  · show (Option.getD _ _) = _
    rw [hgroup, h.group, storedText_eq_self_iff.mpr (by simpa using h.group_ne), Option.getD_some]
  · show (restore cdc t t' e).ecs = _
    rw [hecs, h.ecs, storedText_eq_self_iff.mpr h.ecs_ne]
  · show (restore cdc t t' e).opts = _
    rw [hopts, h.opts]

theorem entries_pairwise (c : DnsCache H) : c.entries.Pairwise fun a b => (a.1 == b.1) = false := by
  refine List.pairwise_flatMap.mpr ⟨fun i _ => (c.shards i).distinct, ?_⟩
  refine (List.nodup_finRange SHARD_COUNT).imp fun {i j} hij x hx y hy => ?_
  rw [Bool.eq_false_iff]
  intro h
  have := H.shardOf_congr h
  rw [c.placed i x hx, c.placed j y hy] at this
  exact hij this

theorem flatMap_eq_of_unique {A B : Type} {f : A → List B} {i : A} : ∀ {l : List A}, l.Nodup → i ∈ l →
    (∀ j ∈ l, j ≠ i → f j = []) → l.flatMap f = f i
  | [], _, hi, _ => by cases hi
  | j :: l, hl, hi, h => by
    obtain ⟨hj, hl⟩ := List.nodup_cons.mp hl
    have hrest : ∀ j' ∈ l, j' ≠ i → f j' = [] := fun j' hj' => h j' (List.mem_cons_of_mem _ hj')
    by_cases hji : j = i
    · subst hji
      have : l.flatMap f = [] := List.flatMap_eq_nil_iff.mpr fun j' hj' => hrest j' hj' fun he => hj (he ▸ hj')
      rw [List.flatMap_cons, this, List.append_nil]
    · have hi : i ∈ l := (List.mem_cons.mp hi).resolve_left fun he => hji he.symm
      rw [List.flatMap_cons, h j List.mem_cons_self hji, List.nil_append, flatMap_eq_of_unique hl hi hrest]

theorem entries_filter_shard (c : DnsCache H) (i : Fin SHARD_COUNT) :
    (c.entries.filter fun x => H.shardOf x.1 = i) = (c.shards i).entries := by
  rw [DnsCache.entries, List.filter_flatMap,
    flatMap_eq_of_unique (i := i) (List.nodup_finRange SHARD_COUNT) (List.mem_finRange i)]
  · exact List.filter_eq_self.mpr fun x hx => by simpa using c.placed i x hx
  · refine fun j _ hj => List.filter_eq_nil_iff.mpr fun x hx => ?_
    rw [c.placed j x hx]
    simpa using hj

theorem mem_entries_of_lookup {c : DnsCache H} {key : CacheKey} {e : DnsCacheEntry} (h : c.lookup key = some e) :
    ∃ k, (k == key) = true ∧ (k, e) ∈ c.entries := by
  obtain ⟨k, hk, hmem⟩ := (KeyMap.get?_eq_some_iff _ _ _).mp h
  exact ⟨k, hk, List.mem_flatMap.mpr ⟨H.shardOf key, List.mem_finRange _, hmem⟩⟩

/-- What the entries rely on to be saved: the codecs, and that they are kept as written. -/
structure Persistable (cdc : Codec) (t : ℤ) (e : DnsCacheEntry) : Prop where
  lawful : cdc.Lawful e
  message : cdc.storedMessage e.data.message = e.data.message
  hits : e.stats.hits < 2 ^ 32
  recent : t - e.validUntil < fromSecs (2 ^ 32)

theorem serializeMany_entries (cdc : Codec) (c : DnsCache H) (t : ℤ) :
    ((List.finRange SHARD_COUNT).flatMap fun i => serializeMany cdc t ((c.shards i).entries.map (·.2))) =
      serializeMany cdc t (c.entries.map (·.2)) := by
  unfold serializeMany DnsCache.entries
  rw [List.map_flatMap, List.flatMap_assoc]

/-- A file that was saved is read to its end. -/
theorem load_persist_eq (cdc : Codec) {c : DnsCache H} {t t' : ℤ} {c₀ : DnsCache H}
    (hc : ∀ x ∈ c.entries, cdc.Lawful x.2) :
    c₀.loadCache cdc t' (t' - t).toNat (c.persistCache cdc t) = c₀.storeEntries false
      ((c.entries.filter fun x => (x.2.emit cdc t).isSome).map fun x => restore cdc t t' x.2) := by
  have hwritten : written cdc t (c.entries.map (·.2)) =
      (c.entries.filter fun x => (x.2.emit cdc t).isSome).map (·.2) := List.filter_map
  have hread : (deserializeBestEffort cdc t' (serializeMany cdc t (c.entries.map (·.2)))).1 =
      (written cdc t (c.entries.map (·.2))).map (cdc.readBack t t') := by
    have := readAll_flatMap_append .insufficientBytes (DnsCacheEntry.read cdc t') (DnsCacheEntry.bytes cdc t)
      (cdc.readBack t t') [] (written cdc t (c.entries.map (·.2))) (fun e he => bytes_ne_nil he) (fun e he => by
        obtain ⟨x, hx, rfl⟩ := List.mem_map.mp (mem_written he).1
        exact read_emit t t' (hc x hx) (mem_written he).2)
    rw [List.append_nil, readAll_nil, List.append_nil] at this
    rw [deserializeBestEffort, serializeMany_eq, this]
  rw [DnsCache.loadCache, DnsCache.loadCacheImpl, DnsCache.persistCache, parseCacheHeader_emit]
  simp only [ne_eq, not_true_eq_false, ↓reduceIte]
  rw [List.drop_left' (emitCacheHeader_length _), serializeMany_entries, hread, hwritten, List.map_map, List.map_map]
  rfl

theorem lookup_loadCache (cdc : Codec) {c : DnsCache H} {t : ℤ} (t' : ℤ) (policy : CachePolicy) {cacheSize : ℕ}
    (hfiled : AllFiled t c) (hsize : c.shardSize = (DnsCache.new H policy cacheSize).shardSize)
    (hp : ∀ key e, c.lookup key = some e → Persistable cdc t e) (key : CacheKey) :
    ((DnsCache.new H policy cacheSize).loadCache cdc t' (t' - t).toNat (c.persistCache cdc t)).lookup key =
      ((c.lookup key).filter fun e => (e.emit cdc t).isSome).map (restore cdc t t') := by
  have hlookup {x : CacheKey × DnsCacheEntry} (hx : x ∈ c.entries) : c.lookup x.1 = some x.2 :=
    c.lookup_of_mem_entries hx
  have hkey {x : CacheKey × DnsCacheEntry} (hx : x ∈ c.entries) :
      (fileKey (restore cdc t t' x.2) == x.1) = true :=
    fileKey_restore (hfiled x.1 x.2 (hlookup hx)) (hp x.1 x.2 (hlookup hx)).message
  rw [load_persist_eq cdc fun x hx => (hp x.1 x.2 (hlookup hx)).lawful]
  have hdistinct : ((c.entries.filter fun x => (x.2.emit cdc t).isSome).map fun x => restore cdc t t' x.2).Pairwise
      fun a b => (fileKey a == fileKey b) = false := by
    rw [List.pairwise_map]
    refine ((entries_pairwise c).filter _).imp_of_mem fun {x y} hx hy hxy => ?_
    have hx := hkey (List.mem_filter.mp hx).1
    have hy := hkey (List.mem_filter.mp hy).1
    rw [Bool.eq_false_iff]
    exact fun h => Bool.eq_false_iff.mp hxy (BEq.trans (BEq.symm hx) (BEq.trans h hy))
  have hroom (i : Fin SHARD_COUNT) : (((c.entries.filter fun x => (x.2.emit cdc t).isSome).map fun x =>
      restore cdc t t' x.2).filter fun e => H.shardOf (fileKey e) = i).length ≤
        (DnsCache.new H policy cacheSize).shardSize := by
    have hsame : ((c.entries.filter fun x => (x.2.emit cdc t).isSome).filter fun x =>
        H.shardOf (fileKey (restore cdc t t' x.2)) = i) =
        (c.entries.filter fun x => H.shardOf x.1 = i).filter fun x => (x.2.emit cdc t).isSome := by
      rw [List.filter_comm]
      congr 1
      refine List.filter_congr fun x hx => ?_
      rw [H.shardOf_congr (hkey hx)]
    rw [List.filter_map, List.length_map]
    refine le_trans (le_of_eq (congrArg List.length hsame)) ?_
    rw [entries_filter_shard, ← hsize, ← c.sized i]
    exact (List.length_filter_le _ _).trans (c.shards i).bounded
  refine Option.ext fun e' => ?_
  rw [lookup_storeEntries hdistinct hroom, Option.map_eq_some_iff, List.mem_map]
  constructor
  · rintro ⟨⟨x, hx, rfl⟩, hk⟩
    obtain ⟨hx, hfits⟩ := List.mem_filter.mp hx
    refine ⟨x.2, Option.filter_eq_some_iff.mpr ⟨?_, hfits⟩, rfl⟩
    rw [← hlookup hx]
    exact (c.lookup_congr (BEq.trans (BEq.symm (hkey hx)) hk)).symm
  · rintro ⟨e, he, rfl⟩
    obtain ⟨he, hfits⟩ := Option.filter_eq_some_iff.mp he
    obtain ⟨k, hk, hmem⟩ := mem_entries_of_lookup he
    have hrestored := hkey (x := (k, e)) hmem
    exact ⟨⟨(k, e), List.mem_filter.mpr ⟨hmem, hfits⟩, rfl⟩, BEq.trans hrestored hk⟩

/-! ### The whole round -/

/-- A lifetime as the file keeps it: in whole seconds, a day at most either way. -/
def wholeSeconds (d : ℤ) : ℤ :=
  if d > 0 then fromSecs (min (asSecs d.toNat) MAX_TTL) else -fromSecs (min (asSecs (-d).toNat) MAX_TTL)

/-- What `e`, saved at `t`, is when it has been loaded at `t'`. -/
structure Survives (t t' : ℤ) (e e' : DnsCacheEntry) : Prop where
  message : e'.data.message = e.data.message
  group : e'.data.nameServerGroup = e.data.nameServerGroup
  hits : e'.stats.hits = e.stats.hits
  mark : e'.data.aaaaSuppressed = false
  lifetime : e'.validUntil - t' = wholeSeconds (e.validUntil - t) - (t' - t)
  expired : e.validUntil < t → t < t' ∨ fromSecs 1 ≤ t - e.validUntil → e'.validUntil < t'

/-- What is found after the load for what was found before the save; an entry that does not fit the
encoder's buffer is lost. -/
inductive Restored (cdc : Codec) (t t' : ℤ) : Option DnsCacheEntry → Option DnsCacheEntry → Prop
  | absent : Restored cdc t t' none none
  | kept (e e' : DnsCacheEntry) (fits : e.emit cdc t ≠ none) (h : Survives t t' e e') :
    Restored cdc t t' (some e) (some e')
  | tooLarge (e : DnsCacheEntry) (h : e.emit cdc t = none) : Restored cdc t t' (some e) none

theorem clampFileDuration_mod {n : ℕ} (h : n < 2 ^ 32) : clampFileDuration (n % 2 ^ 32) = min n MAX_TTL := by
  rw [Nat.mod_eq_of_lt h, clampFileDuration]
  split <;> omega

/-- The deadline in the file is the lifetime in whole seconds. -/
theorem fileDeadline_eq {t t' validUntil : ℤ} (hlive : validUntil ≤ t + fromSecs MAX_TTL)
    (hdead : t - validUntil < fromSecs (2 ^ 32)) :
    fileDeadline t t' validUntil = t' + wholeSeconds (validUntil - t) := by
  unfold fileDeadline wholeSeconds
  unfold fromSecs MAX_TTL at hlive
  unfold fromSecs at hdead
  by_cases h : validUntil > t
  · have hlt : asSecs (validUntil - t).toNat < 2 ^ 32 := by
      unfold asSecs
      omega
    rw [if_pos h, if_pos (by omega), clampFileDuration_mod hlt]
  · have hlt : asSecs (t - validUntil).toNat < 2 ^ 32 := by
      unfold asSecs
      omega
    rw [if_neg h, if_neg (by omega), clampFileDuration_mod hlt, show -(validUntil - t) = t - validUntil by omega]
    omega

theorem survives_restore {cdc : Codec} {t t' : ℤ} {key : CacheKey} {e : DnsCacheEntry} (ht : t ≤ t')
    (h : Filed t key e) (hp : Persistable cdc t e) : Survives t t' e (restore cdc t t' e) := by
  obtain ⟨hmessage, hgroup, hmark⟩ := restore_data cdc t t' e
  have hdeadline : (restore cdc t t' e).validUntil = t' + wholeSeconds (e.validUntil - t) - (t' - t) := by
    rw [restore, ageEntry_eq, ← fileDeadline_eq h.deadline hp.recent]
    show fileDeadline t t' e.validUntil - _ = _
    omega
  constructor
  · rw [hmessage, hp.message]
  · rw [hgroup, storedText_eq_self_iff, h.group]
    simpa using h.group_ne
  · rw [restore, ageEntry_eq]
    exact Nat.mod_eq_of_lt hp.hits
  · exact hmark
  · rw [hdeadline]
    omega
  · intro hexp hlong
    rw [hdeadline, wholeSeconds, if_neg (by omega)]
    unfold fromSecs asSecs MAX_TTL at *
    omega

/-- **A saved cache is found again.** After any inserts, reads and purges up to `t`, a save at `t` and a
load at `t'` into a new cache of the same size, every lookup finds what it found before, as the file
keeps it, but for entries that do not fit the encoder's buffer. -/
theorem persist_load (cdc : Codec) (policy policy' : CachePolicy) (cacheSize : ℕ) (es : List (ℤ × CacheOp))
    (t t' : ℤ) (ht : t ≤ t') (hes : ∀ e ∈ es, e.1 ≤ t ∧ e.2.AnswersItsKey)
    (hp : ∀ key e, (run DnsCache.step (DnsCache.new H policy cacheSize) es).lookup key = some e →
      Persistable cdc t e) (key : CacheKey) :
    let c := run DnsCache.step (DnsCache.new H policy cacheSize) es
    let c' := (DnsCache.new H policy' cacheSize).loadCache cdc t' (t' - t).toNat (c.persistCache cdc t)
    Restored cdc t t' (c.lookup key) (c'.lookup key) := by
  intro c c'
  have hfiled : AllFiled t c := filed_run (fun _ _ h => by cases h) hes
  have hsize : c.shardSize = (DnsCache.new H policy' cacheSize).shardSize := shardSize_run _ es
  have hload : c'.lookup key = _ := lookup_loadCache cdc t' policy' hfiled hsize hp key
  rw [hload]
  cases hc : c.lookup key with
  | none => exact .absent
  | some e =>
    cases hfits : e.emit cdc t with
    | none =>
      rw [Option.filter_some, hfits, if_neg (by simp), Option.map_none]
      exact .tooLarge e hfits
    | some bs =>
      rw [Option.filter_some, hfits, if_pos (by rfl), Option.map_some]
      exact .kept e _ (by simp [hfits]) (survives_restore ht (hfiled key e hc) (hp key e hc))

/-! ### A mark that is lost -/

/-- A response without records, with the mark that AAAA answers were withheld. -/
def markedResponse : DnsResponse where
  message := rootMessage
  validUntil := 0
  aaaaSuppressed := true

def markedCache : DnsCache oneShard :=
  run DnsCache.step (DnsCache.new oneShard ⟨false, 0, 0⟩ 64) [(0, .insertFullResponse rootKey markedResponse false)]

/-- The mark is set before the save and cleared after the load. -/
theorem load_clears_mark :
    (markedCache.lookup rootKey).map (·.data.aaaaSuppressed) = some true ∧
    (((DnsCache.new oneShard ⟨false, 0, 0⟩ 64).loadCache rootCodec 0 0 (markedCache.persistCache rootCodec 0)).lookup
      rootKey).map (·.data.aaaaSuppressed) = some false := by
  constructor <;> decide +kernel

theorem persistable_markedCache (key : CacheKey) (e : DnsCacheEntry)
    (h : (run DnsCache.step (DnsCache.new oneShard ⟨false, 0, 0⟩ 64)
      [(0, .insertFullResponse rootKey markedResponse false)]).lookup key = some e) :
    Persistable rootCodec 0 e := by
  have h : ((DnsCache.new oneShard ⟨false, 0, 0⟩ 64).insertFullResponse rootKey markedResponse 0 false).1.lookup key =
    some e := h
  by_cases hk : (rootKey == key) = true
  · rw [DnsCache.lookup_insertFullResponse_of_beq _ hk] at h
    cases h
    exact ⟨rootCodec_lawful rfl, rfl, by decide, by decide⟩
  · cases DnsCache.lookup_insertFullResponse_of_not_beq _ hk _ _ _ h

/-- Saved at once and loaded two seconds later. -/
theorem persist_load_markedCache :
    let c := run DnsCache.step (DnsCache.new oneShard ⟨false, 0, 0⟩ 64)
      [(0, .insertFullResponse rootKey markedResponse false)]
    let c' := (DnsCache.new oneShard ⟨false, 0, 0⟩ 64).loadCache rootCodec 2000000000 (2000000000 - 0 : ℤ).toNat
      (c.persistCache rootCodec 0)
    Restored rootCodec 0 2000000000 (c.lookup rootKey) (c'.lookup rootKey) := by
  have hes : ∀ e ∈ [((0 : ℤ), CacheOp.insertFullResponse rootKey markedResponse false)],
      e.1 ≤ 0 ∧ e.2.AnswersItsKey := by
    intro e he
    obtain rfl := List.mem_singleton.mp he
    exact ⟨le_rfl, BEq.rfl, by decide, by decide⟩
  exact persist_load rootCodec ⟨false, 0, 0⟩ ⟨false, 0, 0⟩ 64
    [(0, .insertFullResponse rootKey markedResponse false)] 0 2000000000 (by omega) hes persistable_markedCache rootKey

end Cache
end SmartDns
