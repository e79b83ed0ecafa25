/-
# Where an answer from the cache comes from

The cache, the lookups under way and what stands below them, at work together: lookups
come to answers, answers are stored, shared with those who wait, read again when they are
valid or expired, and a file of a former run can be loaded. In any order of these steps
what the cache middleware hands up (`HandsUp`) stems from one lookup under an equal key,
or from an entry of a file (`stems_of_handsUp`): it is that lookup's answer but for the
TTLs, and bears the mark of that lookup's decision.

Key definitions: `IsLookup`, `CacheServer`, `CacheStep`, `HandsUp`, `Stems`.
Key theorems: `stems_of_handsUp`, `mark_of_stems`.
-/
import SmartDns.Cache.Flight
import SmartDns.Cache.Persist
import SmartDns.Cache.Retention
import SmartDns.Server.CacheKey
import SmartDns.Server.DualStack
import SmartDns.Server.Rewrite

namespace SmartDns
namespace Server

open Dns Lib Cache

/-! ### What a response keeps -/

/-- The message without its TTLs, and the mark. -/
def content (r : DnsResponse) : Message × Bool := ((r.setNewTtl 0).message, r.aaaaSuppressed)

@[simp] theorem content_setNewTtl (r : DnsResponse) (ttl : ℕ) : content (r.setNewTtl ttl) = content r := by
  unfold content
  rw [DnsResponse.setNewTtl_setNewTtl]
  rfl

@[simp] theorem content_cacheResponse (key : CacheKey) (r : DnsResponse) (now : ℤ) :
    content (DnsCache.cacheResponse key r now) = content r := content_setNewTtl _ _

variable {r r' : DnsResponse}

theorem aaaaSuppressed_of_content (h : content r = content r') : r.aaaaSuppressed = r'.aaaaSuppressed :=
  (Prod.mk.inj h).2

theorem queries_of_content (h : content r = content r') : r.message.queries = r'.message.queries := by
  show (r.setNewTtl 0).message.queries = (r'.setNewTtl 0).message.queries
  rw [(Prod.mk.inj h).1]

@[simp] theorem flattenCname_aaaaSuppressed (query : Query) (r : DnsResponse) :
    (flattenCname query r).aaaaSuppressed = r.aaaaSuppressed := by
  unfold flattenCname
  split <;> rfl

@[simp] theorem flattenCname_queries (query : Query) (r : DnsResponse) :
    (flattenCname query r).message.queries = r.message.queries := by
  unfold flattenCname
  split <;> rfl

/-! ### Lookups -/

/-- What a lookup below the cache came to: an answer, the key it is for, and whether the lookup decided that
AAAA is withheld. -/
structure Lookup where
  key : CacheKey
  response : DnsResponse
  decided : Bool

section

variable {S : Type} (upstream : Next S)

/-- A lookup is made for some request, under some configuration, and the speed checks come out somehow. -/
inductive IsLookup : Lookup → Prop
  /-- The answer that was asked for. -/
  | asked (cfg : RuntimeConfig) (race : Race) (now : ℤ) (serial : ℕ) (ctx : ChainContext) (req : DnsRequest) (s s' : S)
      (lookup : DnsResponse) (extra : List (Query × DnsResponse))
      (came : dualstackMiddleware cfg race now serial upstream ctx req s = (.ok lookup, extra, s')) :
      IsLookup ⟨cacheKey ctx req, flattenCname req.original lookup, decision cfg race now upstream ctx req s⟩
  /-- The answer of the other family. -/
  | beside (cfg : RuntimeConfig) (race : Race) (now : ℤ) (serial : ℕ) (ctx : ChainContext) (req : DnsRequest) (s s' : S)
      (lookup : DnsResponse) (extra : List (Query × DnsResponse))
      (came : dualstackMiddleware cfg race now serial upstream ctx req s = (.ok lookup, extra, s'))
      (query : Query) (response : DnsResponse) (stored : (query, response) ∈ extra) :
      IsLookup ⟨{ cacheKey ctx req with query }, flattenCname query response,
        decision cfg race now upstream ctx req s⟩
  /-- Without a cache middleware nothing takes the aliases out. -/
  | uncached (cfg : RuntimeConfig) (race : Race) (now : ℤ) (serial : ℕ) (ctx : ChainContext) (req : DnsRequest) (s s' : S)
      (lookup : DnsResponse) (extra : List (Query × DnsResponse))
      (came : dualstackMiddleware cfg race now serial upstream ctx req s = (.ok lookup, extra, s')) :
      IsLookup ⟨cacheKey ctx req, lookup, decision cfg race now upstream ctx req s⟩

/-- **The mark of an answer is the decision of its lookup.** -/
theorem IsLookup.mark {upstream : Next S} (hunmarked : Unmarked upstream) {l : Lookup} (h : IsLookup upstream l) :
    l.response.aaaaSuppressed = l.decided := by
  cases h with
  | asked cfg race now serial ctx req s s' lookup extra came =>
    rw [flattenCname_aaaaSuppressed]
    exact (marked_with_decision hunmarked came).1
  | beside cfg race now serial ctx req s s' lookup extra came query response stored =>
    rw [flattenCname_aaaaSuppressed]
    exact (marked_with_decision hunmarked came).2 _ stored
  | uncached cfg race now serial ctx req s s' lookup extra came => exact (marked_with_decision hunmarked came).1

/-! ### The cache and its surroundings -/

/-- The cache and the lookups under way. What has been looked up and what has been loaded is recorded. -/
structure CacheServer (H : KeyHash) where
  machine : DnsCacheMiddleware H
  flight : CacheFlight
  lookups : List Lookup
  loaded : List DnsCacheEntry

variable {H : KeyHash}

def CacheServer.new (H : KeyHash) (policy : CachePolicy) (cacheSize : ℕ) (start : ℤ) : CacheServer H where
  machine := .new H policy cacheSize start
  flight := SingleFlight.start
  lookups := []
  loaded := []

namespace CacheServer

/-- The response is what a lookup for the key came to. -/
def Found (s : CacheServer H) (key : CacheKey) (response : DnsResponse) : Prop :=
  ∃ l ∈ s.lookups, l.key = key ∧ l.response = response

end CacheServer

/-- What can happen next, whoever does it. -/
inductive CacheStep (s : CacheServer H) : CacheServer H → Prop
  | lookup (l : Lookup) (isLookup : IsLookup upstream l) : CacheStep s { s with lookups := l :: s.lookups }
  /-- The cache is read, written or swept; what is stored is what was looked up. -/
  | event (t : ℤ) (ev : CacheEvent)
      (found : ∀ key response fromPrefetch, ev = .insertFullResponse key response fromPrefetch → s.Found key response) :
      CacheStep s { s with machine := s.machine.step t ev }
  /-- A request joins, waits, hears or leads; a leader ends with what it looked up. -/
  | flight (flight : CacheFlight) (moves : FlightStep s.flight flight)
      (found : ∀ r key response, flight.phase r = .ended key (some (.ok response)) →
        s.flight.phase r = .ended key (some (.ok response)) ∨ s.Found key response) :
      CacheStep s { s with flight }
  /-- A file is loaded, whatever stands in it. -/
  | load (cdc : Codec) (now : ℤ) (offline : ℕ) (data : List UInt8) (onlyMissing : Bool) :
      CacheStep s { s with
        machine := { s.machine with cache := s.machine.cache.loadCacheImpl cdc now offline data onlyMissing }
        loaded := fileEntries cdc now offline data ++ s.loaded }

/-- The states that a new server can come to. -/
def Reachable (s : CacheServer H) : Prop :=
  ∃ policy cacheSize start, Relation.ReflTransGen (CacheStep upstream) (CacheServer.new H policy cacheSize start) s

/-- What the cache middleware hands up for a request with the key: what it looked up for it, what it found in the
cache, or what the leader it waited for came to. -/
inductive HandsUp (s : CacheServer H) (key : CacheKey) : DnsResponse → Prop
  | fresh (l : Lookup) (made : l ∈ s.lookups) (same : l.key = key) : HandsUp s key l.response
  | cached (t : ℤ) (serveExpired noServeExpired : Bool) (ttl : ℕ) (response : DnsResponse)
      (hit : answerFromCache serveExpired noServeExpired ttl (s.machine.cache.get key t).2 = some response) :
      HandsUp s key response
  | shared (r leader : ℕ) (response : DnsResponse) (heard : s.flight.phase r = .received key leader (.ok response)) :
      HandsUp s key response

/-- The response is, but for its TTLs, the answer of a lookup under an equal key, or an entry of a file. -/
inductive Stems (s : CacheServer H) (key : CacheKey) (response : DnsResponse) : Prop
  | lookup (l : Lookup) (made : l ∈ s.lookups) (same : (l.key == key) = true)
      (content : content response = content l.response)
  | loaded (e : DnsCacheEntry) (read : e ∈ s.loaded) (same : (fileKey e == key) = true)
      (content : content response = content e.data)

end

/-! ### The invariant -/

section

variable {S : Type} {upstream : Next S} {H : KeyHash} {s s' : CacheServer H} {key k : CacheKey}
  {response response' : DnsResponse}

theorem Stems.congr (h : Stems s key response) (hk : (key == k) = true) (hc : content response' = content response) :
    Stems s k response' := by
  cases h with
  | lookup l made same content => exact .lookup l made (BEq.trans same hk) (hc.trans content)
  | loaded e read same content => exact .loaded e read (BEq.trans same hk) (hc.trans content)

/-- The records of the past only grow. -/
theorem Stems.mono {t : CacheServer H} (h : Stems s key response) (hlookups : s.lookups ⊆ t.lookups)
    (hloaded : s.loaded ⊆ t.loaded) : Stems t key response := by
  cases h with
  | lookup l made same content => exact .lookup l (hlookups made) same content
  | loaded e read same content => exact .loaded e (hloaded read) same content

theorem Stems.step (h : Stems s key response) (hs : CacheStep upstream s s') : Stems s' key response := by
  cases hs with
  | lookup l isLookup => exact h.mono (List.subset_cons_self _ _) (List.Subset.refl _)
  | event t ev found => exact h.mono (List.Subset.refl _) (List.Subset.refl _)
  | flight flight moves found => exact h.mono (List.Subset.refl _) (List.Subset.refl _)
  | load cdc now offline data onlyMissing => exact h.mono (List.Subset.refl _) (List.subset_append_right _ _)

/-- Where a response stems from is not forgotten. -/
theorem Stems.run (h : Stems s key response) (hrun : Relation.ReflTransGen (CacheStep upstream) s s') :
    Stems s' key response := by
  induction hrun with
  | refl => exact h
  | tail _ hstep ih => exact ih.step hstep

theorem CacheServer.Found.stems (h : s.Found key response) : Stems s key response := by
  obtain ⟨l, made, rfl, rfl⟩ := h
  exact .lookup l made BEq.rfl rfl

structure Inv (upstream : Next S) (s : CacheServer H) : Prop where
  flight : SingleFlight.Inv noConnections s.flight
  lookups : ∀ l ∈ s.lookups, IsLookup upstream l
  loaded : ∀ e ∈ s.loaded, e.data.aaaaSuppressed = false
  entries : ∀ key e, s.machine.cache.lookup key = some e → Stems s key e.data
  ended : ∀ r key response, s.flight.phase r = .ended key (some (.ok response)) → Stems s key response

theorem inv_new (policy : CachePolicy) (cacheSize : ℕ) (start : ℤ) :
    Inv upstream (CacheServer.new H policy cacheSize start) where
  flight := SingleFlight.inv_start noConnections
  lookups _ h := by cases h
  loaded _ h := by cases h
  entries _ _ h := by cases h
  ended _ _ _ h := by cases h

/-- An event of the cache. -/
theorem Inv.event (h : Inv upstream s) {t : ℤ} {ev : CacheEvent}
    (found : ∀ key response fromPrefetch, ev = .insertFullResponse key response fromPrefetch → s.Found key response) :
    Inv upstream { s with machine := s.machine.step t ev } := by
  have hstep : CacheStep upstream s { s with machine := s.machine.step t ev } := .event t ev found
  have mono {key : CacheKey} {response : DnsResponse} (hst : Stems s key response) := hst.step hstep
  refine ⟨h.flight, h.lookups, h.loaded, fun key e he => mono ?_, fun r key response hr => mono (h.ended r key response hr)⟩
  have old {e₀ : DnsCacheEntry} (hfound : s.machine.cache.lookup key = some e₀) (hdata : e.data = e₀.data) :
      Stems s key e.data := (h.entries key e₀ hfound).congr BEq.rfl (by rw [hdata])
  cases DnsCacheMiddleware.entry_of_step he with
  | kept e₀ hfound hdata => exact old hfound hdata
  | moved k hit replyTtl same e₀ hfound hdata => exact old hfound hdata
  | inserted k response fromPrefetch same hdata =>
    exact (found k response fromPrefetch rfl).stems.congr same (by rw [hdata, content_cacheResponse])

theorem Inv.load (h : Inv upstream s) (cdc : Codec) (now : ℤ) (offline : ℕ) (data : List UInt8) (onlyMissing : Bool) :
    Inv upstream { s with
      machine := { s.machine with cache := s.machine.cache.loadCacheImpl cdc now offline data onlyMissing }
      loaded := fileEntries cdc now offline data ++ s.loaded } := by
  have hstep : CacheStep upstream s _ := .load cdc now offline data onlyMissing
  have mono {key : CacheKey} {response : DnsResponse} (hst : Stems s key response) := hst.step hstep
  refine ⟨h.flight, h.lookups, fun e he => ?_, fun key e he => ?_, fun r key response hr => mono (h.ended r key response hr)⟩
  · rcases List.mem_append.mp he with he | he
    · exact unmarked_of_mem_fileEntries he
    · exact h.loaded e he
  · have he : (s.machine.cache.loadCacheImpl cdc now offline data onlyMissing).lookup key = some e := he
    rw [loadCacheImpl_eq] at he
    rcases found_of_storeEntries he with hold | ⟨hmem, hkey⟩
    · exact mono (h.entries key e hold)
    · exact .loaded e (List.mem_append_left _ hmem) hkey rfl

theorem Inv.step (h : Inv upstream s) (hs : CacheStep upstream s s') : Inv upstream s' := by
  have mono {key : CacheKey} {response : DnsResponse} (hst : Stems s key response) := hst.step hs
  cases hs with
  | lookup l isLookup =>
    refine ⟨h.flight, fun l' hl' => ?_, h.loaded, fun key e he => mono (h.entries key e he),
      fun r key response hr => mono (h.ended r key response hr)⟩
    rcases List.mem_cons.mp hl' with rfl | hl'
    · exact isLookup
    · exact h.lookups l' hl'
  | event t ev found => exact h.event found
  | flight flight moves found =>
    refine ⟨h.flight.step moves.step, h.lookups, h.loaded, fun key e he => mono (h.entries key e he),
      fun r key response hr => ?_⟩
    rcases found r key response hr with hold | hfound
    · exact mono (h.ended r key response hold)
    · exact mono hfound.stems
  | load cdc now offline data onlyMissing => exact h.load cdc now offline data onlyMissing

theorem inv_reachable (h : Reachable upstream s) : Inv upstream s := by
  obtain ⟨policy, cacheSize, start, hrun⟩ := h
  induction hrun with
  | refl => exact inv_new policy cacheSize start
  | tail _ hstep ih => exact ih.step hstep

/-- **What is handed up stems from a lookup or from a file.** -/
theorem stems_of_handsUp (hs : Reachable upstream s) (h : HandsUp s key response) : Stems s key response := by
  have hinv := inv_reachable hs
  cases h with
  | fresh l made same => exact .lookup l made (same ▸ BEq.rfl) rfl
  | cached t serveExpired noServeExpired ttl response hit =>
    obtain ⟨e, he, ttl', rfl⟩ := entry_of_answer hit
    exact (hinv.entries key e he).congr BEq.rfl (content_setNewTtl e.data ttl')
  | shared r leader response heard =>
    obtain ⟨k, outcome, hk, hended, hres⟩ := hinv.flight.received heard
    cases outcome with
    | none => cases hres
    | some outcome =>
      obtain rfl : .ok response = outcome := hres
      exact (hinv.ended leader k response hended).congr hk rfl

/-- **The mark says what the lookup decided**; what comes from a file has none. -/
theorem mark_of_stems (hunmarked : Unmarked upstream) (hs : Reachable upstream s) (h : Stems s key response) :
    (∃ l ∈ s.lookups, (l.key == key) = true ∧ content response = content l.response ∧
      response.aaaaSuppressed = l.decided) ∨
    (∃ e ∈ s.loaded, (fileKey e == key) = true ∧ content response = content e.data ∧
      response.aaaaSuppressed = false) := by
  have hinv := inv_reachable hs
  cases h with
  | lookup l made same hc =>
    refine .inl ⟨l, made, same, hc, ?_⟩
    rw [aaaaSuppressed_of_content hc, (hinv.lookups l made).mark hunmarked]
  | loaded e read same hc =>
    refine .inr ⟨e, read, same, hc, ?_⟩
    rw [aaaaSuppressed_of_content hc, hinv.loaded e read]

end

end Server
end SmartDns
