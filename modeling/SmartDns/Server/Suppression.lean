/-
# Withheld AAAA records and DNS64

The dual-stack middleware withholds the AAAA records of a name whose A records won the
race. DNS64, further up, must not make up for that. The decision is a mark on both
answers of the lookup; the cache stores it with them, a leader shares it with those who
wait, and whatever bears it DNS64 hands on as it is. An answer without AAAA records that
bears no mark, and a failure, is completed from the A records (`suppression_wins`). The
middleware decides so of an AAAA answer, too, that came empty from the upstream, where an
A record answers a speed check (`decision_no_address`): then DNS64 hands on the empty one.

A cache file does not keep the mark. What is loaded from one is completed, whatever the
lookup had decided (`reload_loses_decision`).

Key definitions: `HandedOn`, `Completed`.
Key theorem: `suppression_wins`.
-/
import SmartDns.Rule.Sound
import SmartDns.Server.CacheVisit
import SmartDns.Server.Chain
import SmartDns.Server.Refresh

namespace SmartDns
namespace Server

open Dns Lib Cache

section

variable {T : Type} (cfg : RuntimeConfig) (arp : ArpTable) (now : ℤ) (serial : ℕ) (next : Next T) (ctx : ChainContext)
  (req : DnsRequest)

/-- What stands between DNS64 and the cache makes of a response. -/
def adjusted (r : DnsResponse) : DnsResponse :=
  hintsFiltered cfg ctx req (clampWithin cfg ctx (limitIps cfg ctx req.query.queryType r))

/-- Below DNS64. -/
def belowDns64 : Next T := localMiddleware cfg now serial arp (addressMiddleware cfg now serial next)

/-- DNS64 leaves the response alone, and asks for nothing more. -/
def HandedOn (st : T) (r : DnsResponse) : Prop :=
  fromDns64 cfg arp now serial next ctx req st = (.ok (adjusted cfg ctx req r), (next ctx req st).2)

/-- Where there is a prefix DNS64 asks for the A records and makes AAAA records of them, if it gets them; `came` is
what came up for the AAAA records. -/
def Completed (st : T) (came : LookupResult × T) : Prop :=
  ∀ net aReq, ctx.dns64Prefix cfg = some net → aRequest req = some aReq →
    fromDns64 cfg arp now serial next ctx req st =
      (synthesizedOr net came.1 (belowDns64 cfg arp now serial next ctx aReq came.2).1,
        (belowDns64 cfg arp now serial next ctx aReq came.2).2)

def hasAaaa (r : DnsResponse) : Bool := r.message.answers.any (isTarget .AAAA)

end

/-! ### What is adjusted -/

section

variable {T : Type} {cfg : RuntimeConfig} {arp : ArpTable} {now : ℤ} {serial : ℕ} {next : Next T} {ctx : ChainContext}
  {req : DnsRequest} {r : DnsResponse} {st : T} {came : LookupResult × T}

@[simp] theorem hintsFiltered_aaaaSuppressed : (hintsFiltered cfg ctx req r).aaaaSuppressed = r.aaaaSuppressed := by
  obtain ⟨f, -, hf⟩ := @hintsFiltered_eq cfg ctx req r
  rw [hf]

@[simp] theorem adjusted_aaaaSuppressed : (adjusted cfg ctx req r).aaaaSuppressed = r.aaaaSuppressed := by
  rw [adjusted, hintsFiltered_aaaaSuppressed, clampWithin_aaaaSuppressed, limitIps_aaaaSuppressed]

theorem hintsFiltered_of_aaaa (hq : req.query.queryType = .AAAA) : hintsFiltered cfg ctx req r = r := by
  unfold hintsFiltered
  rw [hq]

theorem upToAddress_subset : ∀ (n : ℕ) (l : List Record), upToAddress n l ⊆ l
  | _, [] => List.Subset.refl _
  | n, x :: l => by
    unfold upToAddress
    split
    · split
      · exact List.cons_subset_cons x (List.nil_subset l)
      · exact List.cons_subset_cons x (upToAddress_subset (n - 1) l)
    · exact List.cons_subset_cons x (upToAddress_subset n l)

theorem hasAaaa_limitIps (queryType : RecordType) (h : hasAaaa r = false) :
    hasAaaa (limitIps cfg ctx queryType r) = false := by
  unfold limitIps
  split
  · split
    · rw [hasAaaa, List.any_eq_false] at h ⊢
      exact fun x hx => h x (upToAddress_subset _ _ hx)
    · exact h
  · exact h

theorem clampRecord_isTarget (t : RecordType) (replyMax : ℕ) (x : Record) :
    isTarget t (clampRecord replyMax x) = isTarget t x := by
  unfold clampRecord
  split <;> rfl

theorem hasAaaa_clampWithin (h : hasAaaa r = false) : hasAaaa (clampWithin cfg ctx r) = false := by
  unfold clampWithin
  split
  · rw [hasAaaa, List.any_eq_false] at h ⊢
    intro x hx
    obtain ⟨y, hy, rfl⟩ := List.mem_map.mp hx
    rw [clampRecord_isTarget]
    exact h y hy
  · exact h

/-- No AAAA record comes in on the way to DNS64. -/
theorem hasAaaa_adjusted (hq : req.query.queryType = .AAAA) (h : hasAaaa r = false) :
    hasAaaa (adjusted cfg ctx req r) = false := by
  rw [adjusted, hintsFiltered_of_aaaa hq]
  exact hasAaaa_clampWithin (hasAaaa_limitIps _ h)

/-! ### What DNS64 does -/

/-- Where nothing before the cache answers, what comes up is adjusted. -/
theorem belowDns64_of_not_answersHere (h : answersHere cfg arp now serial ctx req = false) :
    belowDns64 cfg arp now serial next ctx req st =
      ((next ctx req st).1.map (adjusted cfg ctx req), (next ctx req st).2) := by
  rw [answersHere, Bool.or_eq_false_iff, Bool.or_eq_false_iff, Option.isSome_eq_false_iff, Option.isSome_eq_false_iff,
    Option.isSome_eq_false_iff, Option.isNone_iff_eq_none, Option.isNone_iff_eq_none, Option.isNone_iff_eq_none] at h
  obtain ⟨⟨-, hlocal⟩, haddress⟩ := h
  unfold belowDns64 localMiddleware
  rw [hlocal]
  unfold addressMiddleware
  rw [haddress]
  rcases next ctx req st with ⟨_ | _, st'⟩ <;> rfl

theorem dns64Answer_of_not_answersHere (h : answersHere cfg arp now serial ctx req = false) :
    dns64Answer cfg now ctx req = none := by
  rw [answersHere, Bool.or_eq_false_iff, Bool.or_eq_false_iff] at h
  exact Option.isNone_iff_eq_none.mp (Option.isSome_eq_false_iff.mp h.1.1)

/-- **A marked response is handed on.** -/
theorem handedOn_of_suppressed (hans : answersHere cfg arp now serial ctx req = false)
    (hres : (next ctx req st).1 = .ok r) (hmark : r.aaaaSuppressed = true) :
    HandedOn cfg arp now serial next ctx req st r := by
  have hbelow := @belowDns64_of_not_answersHere T cfg arp now serial next ctx req st hans
  have hnone : fallback cfg ctx req (belowDns64 cfg arp now serial next ctx req st).1 = none := by
    have hneeded : fallbackNeeded (.ok (adjusted cfg ctx req r)) = false := by
      rw [fallbackNeeded, adjusted_aaaaSuppressed, hmark]
      rfl
    rw [hbelow, hres]
    exact if_neg fun h => by simp [hneeded, Except.map] at h
  have hrun := dns64Middleware_of_none (dns64Answer_of_not_answersHere hans) hnone
  rw [hbelow, hres] at hrun
  exact hrun

/-- **A failure, and a response without AAAA records that is not marked, is completed.** -/
theorem completed_of_needed (hq : req.query.queryType = .AAAA) (hans : dns64Answer cfg now ctx req = none)
    (hbelow : belowDns64 cfg arp now serial next ctx req st = came) (hneeded : fallbackNeeded came.1 = true) :
    Completed cfg arp now serial next ctx req st came := by
  intro net aReq hnet haReq
  have hsome : fallback cfg ctx req (belowDns64 cfg arp now serial next ctx req st).1 = some (net, aReq) := by
    rw [hbelow, fallback, if_pos ⟨hq, hneeded⟩, hnet, Option.bind_some, haReq, Option.map_some]
  have hrun := dns64Middleware_of_fallback hans hsome
  rw [hbelow] at hrun
  exact hrun

theorem completed_of_unmarked (hq : req.query.queryType = .AAAA)
    (hans : answersHere cfg arp now serial ctx req = false) (hres : (next ctx req st).1 = .ok r)
    (hmark : r.aaaaSuppressed = false) (hnone : hasAaaa r = false) :
    Completed cfg arp now serial next ctx req st (.ok (adjusted cfg ctx req r), (next ctx req st).2) := by
  have hbelow := @belowDns64_of_not_answersHere T cfg arp now serial next ctx req st hans
  rw [hres] at hbelow
  refine completed_of_needed hq (dns64Answer_of_not_answersHere hans) hbelow ?_
  show (!(adjusted cfg ctx req r).aaaaSuppressed && !hasAaaa (adjusted cfg ctx req r)) = true
  rw [adjusted_aaaaSuppressed, hmark, hasAaaa_adjusted hq hnone]
  rfl

theorem completed_of_error (hq : req.query.queryType = .AAAA)
    (hans : answersHere cfg arp now serial ctx req = false) {e : DnsError} (hres : (next ctx req st).1 = .error e) :
    Completed cfg arp now serial next ctx req st (.error e, (next ctx req st).2) := by
  have hbelow := @belowDns64_of_not_answersHere T cfg arp now serial next ctx req st hans
  rw [hres] at hbelow
  exact completed_of_needed hq (dns64Answer_of_not_answersHere hans) hbelow rfl

/-- Local data has no mark. -/
theorem completed_of_localAnswer (hq : req.query.queryType = .AAAA) (hans : dns64Answer cfg now ctx req = none)
    {source : LocalSource} (hlocal : localAnswer cfg now serial arp ctx req = some (source, r))
    (hnone : hasAaaa r = false) : Completed cfg arp now serial next ctx req st (.ok r, st) := by
  have hbelow : belowDns64 cfg arp now serial next ctx req st = (.ok r, st) := by
    unfold belowDns64 localMiddleware
    rw [hlocal]
  refine completed_of_needed hq hans hbelow ?_
  show (!r.aaaaSuppressed && !hasAaaa r) = true
  rw [(records_of_localAnswer hlocal).unmarked, hnone]
  rfl

end

/-! ### The decision of a lookup -/

/-- **Suppression wins over DNS64.** What the cache middleware hands up for an AAAA query, in any state that a server
can come to, is an answer of one lookup under an equal key, and DNS64 hands it on where that lookup decided that AAAA
is withheld; or it is an entry of a file. Where the lookup did not decide so, or the entry is from a file, and the
response has no AAAA records, it is completed; so is a failure, and a local answer without AAAA records. A lookup can
decide so of an answer that has no AAAA records to withhold (`decision_no_address`). -/
theorem suppression_wins {S T : Type} {H : KeyHash} (upstream : Next S) (hunmarked : Unmarked upstream)
    (s : CacheServer H) (hs : Reachable upstream s) (cfg : RuntimeConfig) (arp : ArpTable) (now : ℤ) (serial : ℕ)
    (next : Next T) (ctx : ChainContext) (req : DnsRequest) (st : T) (hq : req.query.queryType = .AAAA)
    (hup : ∀ r, (next ctx req st).1 = .ok r → HandsUp s (cacheKey ctx req) r) :
    (answersHere cfg arp now serial ctx req = false →
      match (next ctx req st).1 with
      | .ok r =>
        (∃ l ∈ s.lookups, (l.key == cacheKey ctx req) = true ∧ content r = content l.response ∧
          (l.decided = true → HandedOn cfg arp now serial next ctx req st r) ∧
          (l.decided = false → hasAaaa r = false →
            Completed cfg arp now serial next ctx req st (.ok (adjusted cfg ctx req r), (next ctx req st).2))) ∨
        (∃ e ∈ s.loaded, (fileKey e == cacheKey ctx req) = true ∧ content r = content e.data ∧
          (hasAaaa r = false →
            Completed cfg arp now serial next ctx req st (.ok (adjusted cfg ctx req r), (next ctx req st).2)))
      | .error e => Completed cfg arp now serial next ctx req st (.error e, (next ctx req st).2)) ∧
    (∀ source r, dns64Answer cfg now ctx req = none → localAnswer cfg now serial arp ctx req = some (source, r) →
      hasAaaa r = false → Completed cfg arp now serial next ctx req st (.ok r, st)) := by
  refine ⟨fun hans => ?_, fun source r hans hlocal hnone => completed_of_localAnswer hq hans hlocal hnone⟩
  cases hres : (next ctx req st).1 with
  | error e => exact completed_of_error hq hans hres
  | ok r =>
    have hstems := stems_of_handsUp hs (hup r hres)
    rcases mark_of_stems hunmarked hs hstems with ⟨l, hl, hkey, hc, hmark⟩ | ⟨e, he, hkey, hc, hmark⟩
    · refine .inl ⟨l, hl, hkey, hc, fun hd => ?_, fun hd hnone => ?_⟩
      · exact handedOn_of_suppressed hans hres (hmark.trans hd)
      · exact completed_of_unmarked hq hans hres (hmark.trans hd) hnone
    · exact .inr ⟨e, he, hkey, hc, fun hnone => completed_of_unmarked hq hans hres hmark hnone⟩

/-! ### A decision that is lost -/

open Rule (wwwExampleCom)

/-- `64:ff9b::/96`. -/
def dns64Config : RuntimeConfig :=
  { plainConfig with params := { dns64Prefix := some ⟨0x0064ff9b000000000000000000000000#128, 96, by decide⟩ } }

def wwwQuery (queryType : RecordType) : Query := { name := wwwExampleCom.setFqdn true, queryType, queryClass := .IN }

def wwwAaaaRequest : DnsRequest where
  header := { id := 1 }
  queries := [wwwQuery .AAAA]
  src := .v4 0x0a000001#32

def wwwContext : ChainContext := .new dns64Config wwwAaaaRequest.name {}

/-- `192.0.2.1` and `2001:db8::1`, for five minutes. -/
def wwwAddress (queryType : RecordType) : IpAddr :=
  if queryType = .AAAA then .v6 0x20010db8000000000000000000000001#128 else .v4 0xc0000201#32

def wwwAnswer (query : Query) : DnsResponse :=
  .newWithDeadline query [⟨query.name, .IN, 300, .ofIpAddr (wwwAddress query.queryType)⟩] 0

/-- The upstream has both. -/
def bothFamilies : Next Unit := fun _ req s => (.ok (wwwAnswer req.original), s)

/-- The IPv4 address answers at once, the other after 50 ms. -/
def ipv4Wins : Race where
  ping _ ips := ⟨if wwwAddress .AAAA ∈ ips then 50 else 0, true⟩
  aaaaFirst _ := false

/-- The AAAA records are withheld. -/
def withheldAaaa : DnsResponse where
  message := { queries := [wwwQuery .AAAA], authorities := [(forgeSoaRecord 0 (wwwQuery .AAAA).name 300).toRecord] }
  validUntil := 0
  aaaaSuppressed := true

def withheldLookup : Lookup := ⟨cacheKey wwwContext wwwAaaaRequest, withheldAaaa, true⟩

/-- The lookup is made and its answer stored. -/
def withheldServer : CacheServer oneShard where
  machine := (DnsCacheMiddleware.new oneShard ⟨false, 0, 0⟩ 64 0).step 0
    (.insertFullResponse withheldLookup.key withheldAaaa false)
  flight := SingleFlight.start
  lookups := [withheldLookup]
  loaded := []

theorem bothFamilies_unmarked : Unmarked bothFamilies := by
  intro ctx req s r hr
  obtain rfl := Except.ok.inj hr
  rfl

theorem reachable_withheldServer : Reachable bothFamilies withheldServer := by
  have hlookup : IsLookup bothFamilies withheldLookup :=
    .asked dns64Config ipv4Wins 0 0 wwwContext wwwAaaaRequest () () withheldAaaa
      [(wwwQuery .A, { wwwAnswer (wwwQuery .A) with aaaaSuppressed := true })] rfl
  refine ⟨⟨false, 0, 0⟩, 64, 0, (Relation.ReflTransGen.refl.tail (.lookup withheldLookup hlookup)).tail
    (.event 0 (.insertFullResponse withheldLookup.key withheldAaaa false) fun key response fromPrefetch h => ?_)⟩
  obtain ⟨rfl, rfl, -⟩ := CacheEvent.insertFullResponse.inj h
  exact ⟨withheldLookup, List.mem_cons_self, rfl, rfl⟩

/-- The response that is read from the cache at once: the group is noted in it. -/
def withheldHit : DnsResponse := { withheldAaaa with validUntil := 300000000000, nameServerGroup := some "default" }

/-- The cache gives the one for AAAA, the other comes from the upstream. -/
def cacheGives (r : DnsResponse) : Next Unit := fun _ req s =>
  (.ok (if req.query.queryType = .AAAA then r else wwwAnswer req.original), s)

theorem suppression_wins_withheldHit :
    HandedOn dns64Config (fun _ => none) 0 0 (cacheGives withheldHit) wwwContext wwwAaaaRequest () withheldHit := by
  have hhit : HandsUp withheldServer (cacheKey wwwContext wwwAaaaRequest) withheldHit := .cached 0 false false 0 _ rfl
  obtain ⟨h, -⟩ := suppression_wins bothFamilies bothFamilies_unmarked withheldServer reachable_withheldServer
    dns64Config (fun _ => none) 0 0 (cacheGives withheldHit) wwwContext wwwAaaaRequest () rfl fun r hr => by
      obtain rfl : withheldHit = r := Except.ok.inj hr
      exact hhit
  rcases h (by decide +kernel) with ⟨l, hl, -, -, hon, -⟩ | ⟨e, he, -⟩
  · obtain rfl := List.mem_singleton.mp hl
    exact hon rfl
  · cases he

/-- The question, and a pointer to its name for the owner of the SOA record. -/
def withheldBytes : List UInt8 :=
  [0, 0, 129, 128, 0, 1, 0, 0, 0, 1, 0, 0] ++ (wwwQuery .AAAA).name.wire ++ [0, 28, 0, 1] ++
    [192, 12, 0, 6, 0, 1] ++ toBe 4 300 ++
      (toBe 2 ((soaRest ["a", "root-servers", "net"] ["admin", "smartdns", "local"] 0 1800 900 259200).length + 4) ++
        soaRest ["a", "root-servers", "net"] ["admin", "smartdns", "local"] 0 1800 900 259200 ++ toBe 4 300)

/-- What the codecs do on this message and the default options. -/
def withheldCodec : Codec where
  emitMessage _ := some withheldBytes
  readMessage := do
    let bs ← readSlice .insufficientBytes withheldBytes.length
    verify .insufficientBytes (bs == withheldBytes)
    return withheldAaaa.message
  optsToVec _ := some defaultOptsJson
  optsFromSlice bs := if bs = defaultOptsJson then some default else none

/-- A new server that has loaded the file of the one before. -/
def reloaded (cdc : Codec) (s : CacheServer oneShard) : CacheServer oneShard :=
  { CacheServer.new oneShard ⟨false, 0, 0⟩ 64 0 with
    machine := { DnsCacheMiddleware.new oneShard ⟨false, 0, 0⟩ 64 0 with
      cache := (DnsCache.new oneShard ⟨false, 0, 0⟩ 64).loadCache cdc 0 0 (s.machine.cache.persistCache cdc 0) } }

set_option maxRecDepth 20000 in
/-- The response comes out of the file without its mark, and AAAA records are made after all. -/
theorem reload_loses_decision : ¬ ∀ (upstream : Next Unit) (s : CacheServer oneShard), Unmarked upstream →
    Reachable upstream s → ∀ l ∈ s.lookups, l.decided = true → ∀ (cdc : Codec) (r : DnsResponse),
    HandsUp (reloaded cdc s) l.key r → r.message = l.response.message →
    ∀ (cfg : RuntimeConfig) (next : Next Unit) (ctx : ChainContext) (req : DnsRequest), cacheKey ctx req = l.key →
    answersHere cfg (fun _ => none) 0 0 ctx req = false → (next ctx req ()).1 = .ok r →
    HandedOn cfg (fun _ => none) 0 0 next ctx req () r := by
  intro h
  have hhit : HandsUp (reloaded withheldCodec withheldServer) withheldLookup.key
      { withheldHit with aaaaSuppressed := false } := .cached 0 false false 0 _ (by rfl)
  have hon := h bothFamilies withheldServer bothFamilies_unmarked reachable_withheldServer withheldLookup
    List.mem_cons_self rfl withheldCodec _ hhit rfl dns64Config
    (cacheGives { withheldHit with aaaaSuppressed := false }) wwwContext wwwAaaaRequest rfl (by decide +kernel) rfl
  have hsynthesized : (fromDns64 dns64Config (fun _ => none) 0 0
      (cacheGives { withheldHit with aaaaSuppressed := false }) wwwContext wwwAaaaRequest ()).1.map hasAaaa =
      .ok true := by rfl
  rw [hon] at hsynthesized
  cases hsynthesized

end Server
end SmartDns
