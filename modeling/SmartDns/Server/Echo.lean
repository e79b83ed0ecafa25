/-
# What a reply echoes

A client knows the reply to its request by the message id and the question. Every reply
that is made for a request echoes both. What the cache hands up keeps the question it came
with: the client who asked first, or the upstream, has spelled it. So a reply echoes its
request exactly where the question of the stored answer is the request's, letter by
letter, and all that is made here echoes a request of one question (`echoes_iff`).

Around `process_inner` stand the queue and the guard against panics (`server/mod.rs`,
`app.rs`); what they answer by themselves echoes all questions of a message that can be
read, and the id of one that cannot, but for a message that the full queue turns away.

Key definitions: `Incoming`, `send`, `Origin`, `QuestionKept`.
Key theorem: `echoes_iff`.
-/
import SmartDns.Server.ReplyTtl
import SmartDns.Server.Suppression

namespace SmartDns
namespace Server

open Dns Lib Cache

/-! ### What came -/

/-- A request as it is read: its query is the first question of the message. The other sections are sent back by a
server that is overloaded. -/
structure ClientRequest extends DnsRequest where
  answers : List Record := []
  authorities : List Record := []
  additionals : List Record := []
  first : query = queries.head?.getD default

/-- A message that cannot be read to its end. `header` is there if it is long enough for one; `formError` says that
the error brings the header along. `queries` are the questions it begins with: nobody reads them. -/
structure Malformed where
  header : Option Header
  formError : Bool := false
  protocol : Protocol := .udp
  queries : List Query := []

inductive Incoming
  | request (req : ClientRequest)
  | malformed (m : Malformed)

namespace Incoming

def protocol : Incoming → Protocol
  | request req => req.protocol
  | malformed m => m.protocol

def header : Incoming → Option Header
  | request req => some req.header
  | malformed m => m.header

def queries : Incoming → List Query
  | request req => req.queries
  | malformed m => m.queries

/-- `DnsRequest::try_from`. -/
def parsed : Incoming → Except (Option Header) DnsRequest
  | request req => .ok req.toDnsRequest
  | malformed m => .error (if m.formError then m.header else none)

end Incoming

/-! ### What is sent -/

/-- `response_material`. -/
def responseMaterial : Incoming → Option (Header × List Query)
  | .request req => some (req.header, req.queries)
  | .malformed m => m.header.map (·, [])

def stubResponse (code : ResponseCode) : Header × List Query → Reply
  | (header, queries) => { header := { header.responseFromRequest with responseCode := code }, queries }

/-- `servfail_stub`. -/
def servfailStub (m : Incoming) : Option Reply := (responseMaterial m).map (stubResponse .servFail)

/-- `Message::query().to_response()`, refused; the id is drawn at random. -/
def strayResponse (fresh : UInt16) : Reply where
  header := { id := fresh, messageType := .response, responseCode := .refused }

/-- What the full queue answers. -/
def overloadResponse (fresh : UInt16) : Incoming → Reply
  | .request req =>
    { header := { req.header with messageType := .response, responseCode := .refused }
      queries := req.queries
      answers := req.answers
      authorities := req.authorities
      additionals := req.additionals }
  | .malformed _ => strayResponse fresh

/-- What is answered for a request that nobody has answered. -/
def droppedResponse (fresh : UInt16) (m : Incoming) : Reply :=
  ((responseMaterial m).map (stubResponse .refused)).getD (strayResponse fresh)

/-- What becomes of a message. -/
inductive Fate
  /-- There is no place in the queue, or no queue. -/
  | full
  /-- It is let go without an answer. -/
  | dropped
  | panicked
  | handled
deriving DecidableEq

section

variable (now : ℤ) (serial : ℕ) (h : Handler)

/-- `process`, and nothing where it does not come to that. -/
def process (fate : Fate) (m : Incoming) : Option Reply :=
  match fate with
  | .full => none
  | .dropped => none
  | .panicked => servfailStub m
  | .handled => processInner now serial h m.parsed

/-- `DnsHandle::send`. Over UDP there is silence where another client is refused. -/
def send (fresh : UInt16) (fate : Fate) (m : Incoming) : Option Reply :=
  match process now serial h fate m with
  | some reply => some reply
  | none =>
    if m.protocol = .udp then none
    else if fate = .full then some (overloadResponse fresh m)
    else some (droppedResponse fresh m)

end

/-- The reply has the id and the question section of the message. -/
structure Echoes (m : Incoming) (reply : Reply) : Prop where
  id : ∀ header ∈ m.header, reply.header.id = header.id
  queries : reply.queries = m.queries

/-! ### Where a response is from -/

/-- Where the message of a response was made. -/
inductive Origin
  /-- Above the cache, or from an error, for the query of the request. -/
  | made
  /-- It is what the cache handed up under the key. -/
  | handedUp (key : CacheKey) (r : DnsResponse)
  /-- It is made of what the cache handed up for the A records. -/
  | aRecords (key : CacheKey) (r : DnsResponse)

namespace Origin

def ofHandedUp (make : DnsResponse → Origin) : Option DnsResponse → Origin
  | some r => make r
  | none => made

/-- The questions that come with a response, for a query. -/
def queries (original : Query) : Origin → List Query
  | made => [original]
  | handedUp _ r => r.message.queries
  | aRecords _ r => r.message.queries.modifyHead fun q => { q with queryType := .AAAA }

end Origin

section

variable {S : Type} (cfg : RuntimeConfig) (arp : ArpTable) (now : ℤ) (serial : ℕ) (next : Next S) (ctx : ChainContext)
  (req : DnsRequest)

/-- What the cache hands up, where neither local data nor an address rule answers. -/
def handedUp (s : S) : Option DnsResponse :=
  if (localAnswer cfg now serial arp ctx req).isSome || (addressAnswer cfg now serial ctx req).isSome then none
  else (next ctx req s).1.toOption

/-- From DNS64 down. -/
def origin (s : S) : Origin :=
  let own : Origin := .ofHandedUp (.handedUp (cacheKey ctx req)) (handedUp cfg arp now serial next ctx req s)
  match dns64Answer cfg now ctx req with
  | some _ => .made
  | none =>
    match fallback cfg ctx req (belowDns64 cfg arp now serial next ctx req s).1 with
    | none => own
    | some (_, aReq) =>
      let s := (belowDns64 cfg arp now serial next ctx req s).2
      match (belowDns64 cfg arp now serial next ctx aReq s).1 with
      | .ok _ => .ofHandedUp (.aRecords (cacheKey ctx aReq)) (handedUp cfg arp now serial next ctx aReq s)
      | .error _ => own

end

section

variable {S : Type} (cfg : RuntimeConfig) (arp : ArpTable) (now : ℤ) (serial : ℕ) (next : Next (SearchState S))
  (opts : ServerOpts)

/-- An alias is put before an answer together with the question that was asked. -/
def replyOrigin (req : DnsRequest) (s : SearchState S) : Origin :=
  let ctx := clientContext cfg arp req opts
  let entered : SearchState S := ⟨s.inFlight + 1, s.chain⟩
  if isAdmitted cfg.searchConfig arp req opts s.inFlight then
    match (chain cfg arp now serial next ctx req entered).1, cnameOf ctx with
    | .ok _, none => origin cfg arp now serial next ctx req entered
    | _, _ => .made
  else .made

end

/-! ### The question of a response -/

section

variable {S : Type} {cfg : RuntimeConfig} {arp : ArpTable} {now : ℤ} {serial : ℕ} {next : Next S} {ctx : ChainContext}
  {req : DnsRequest} {s : S} {r : DnsResponse}

@[simp] theorem hintsFiltered_queries : (hintsFiltered cfg ctx req r).message.queries = r.message.queries := by
  obtain ⟨f, -, hf⟩ := @hintsFiltered_eq cfg ctx req r
  rw [hf]

@[simp] theorem adjusted_queries : (adjusted cfg ctx req r).message.queries = r.message.queries := by
  rw [adjusted, hintsFiltered_queries, clampWithin_queries, limitIps_queries]

@[simp] theorem stripCname_queries (query : Query) : (stripCname query r).message.queries = r.message.queries := by
  rw [stripCname_eq]
  split
  · rfl
  split
  · exact flattenCname_queries query r
  split <;> rfl

theorem addressAnswer_queries (h : addressAnswer cfg now serial ctx req = some r) :
    r.message.queries = [req.original] := by
  obtain ⟨rdatas, -, rfl⟩ := Option.map_eq_some_iff.mp h
  exact clampWithin_queries _

theorem dns64Answer_queries (h : dns64Answer cfg now ctx req = some r) : r.message.queries = [req.original] := by
  obtain ⟨net, -, ha⟩ := Option.bind_eq_some_iff.mp h
  unfold ipv4onlyAnswer at ha
  split at ha
  · split at ha
    · obtain rfl := Option.some.inj ha
      rfl
    · obtain rfl := Option.some.inj ha
      rfl
    · cases ha
  · cases ha

/-- Below DNS64. -/
theorem queries_belowDns64 (h : (belowDns64 cfg arp now serial next ctx req s).1 = .ok r) :
    r.message.queries =
      ((handedUp cfg arp now serial next ctx req s).map (·.message.queries)).getD [req.original] := by
  unfold belowDns64 localMiddleware at h
  unfold handedUp
  cases hlocal : localAnswer cfg now serial arp ctx req with
  | some p =>
    rw [hlocal] at h
    obtain rfl := Except.ok.inj h
    exact (records_of_localAnswer hlocal).queries
  | none =>
    rw [hlocal] at h
    unfold addressMiddleware at h
    cases haddress : addressAnswer cfg now serial ctx req with
    | some lookup =>
      simp only [haddress] at h
      obtain rfl := Except.ok.inj h
      rw [hintsFiltered_queries]
      exact addressAnswer_queries haddress
    | none =>
      simp only [haddress] at h
      cases hres : (next ctx req s).1 with
      | error e =>
        simp only [hres] at h
        cases h
      | ok up =>
        simp only [hres] at h
        obtain rfl := Except.ok.inj h
        show (adjusted cfg ctx req up).message.queries = up.message.queries
        rw [adjusted_queries]

theorem aRequest_original {aReq : DnsRequest} (hfirst : req.query = req.queries.head?.getD default)
    (hq : req.query.queryType = .AAAA) (h : aRequest req = some aReq) :
    { aReq.original with queryType := .AAAA } = req.original := by
  unfold aRequest at h
  split at h
  · cases h
  · rename_i q qs hqs
    obtain rfl := Option.some.inj h
    rw [hqs] at hfirst
    have hfirst : req.query = q := hfirst
    show { { q with queryType := .A } with queryType := .AAAA } = req.query
    rw [hfirst] at hq ⊢
    rw [← hq]

/-- From DNS64 down. -/
theorem queries_fromDns64 (hfirst : req.query = req.queries.head?.getD default)
    (h : (fromDns64 cfg arp now serial next ctx req s).1 = .ok r) :
    r.message.queries = (origin cfg arp now serial next ctx req s).queries req.original := by
  have own {r : DnsResponse} (hr : (belowDns64 cfg arp now serial next ctx req s).1 = .ok r) : r.message.queries =
      (Origin.ofHandedUp (.handedUp (cacheKey ctx req)) (handedUp cfg arp now serial next ctx req s)).queries
        req.original := by
    rw [queries_belowDns64 hr]
    cases handedUp cfg arp now serial next ctx req s <;> rfl
  have h : (dns64Middleware cfg now (belowDns64 cfg arp now serial next) ctx req s).1 = .ok r := h
  unfold origin
  dsimp only
  cases ha : dns64Answer cfg now ctx req with
  | some lookup =>
    rw [dns64Middleware_of_answer ha] at h
    obtain rfl := Except.ok.inj h
    exact dns64Answer_queries ha
  | none =>
    dsimp only
    cases hf : fallback cfg ctx req (belowDns64 cfg arp now serial next ctx req s).1 with
    | none =>
      rw [dns64Middleware_of_none ha hf] at h
      exact own h
    | some p =>
      obtain ⟨net, aReq⟩ := p
      rw [dns64Middleware_of_fallback ha hf] at h
      obtain ⟨hq, -, -, haReq⟩ := fallback_eq_some hf
      dsimp only at h ⊢
      cases hA : (belowDns64 cfg arp now serial next ctx aReq (belowDns64 cfg arp now serial next ctx req s).2).1 with
      | error e =>
        rw [hA] at h
        exact own h
      | ok lookup =>
        rw [hA] at h
        obtain rfl := Except.ok.inj h
        show lookup.message.queries.modifyHead (fun q => { q with queryType := .AAAA }) = _
        rw [queries_belowDns64 hA]
        cases handedUp cfg arp now serial next ctx aReq (belowDns64 cfg arp now serial next ctx req s).2 with
        | none => exact congrArg ([·]) (aRequest_original hfirst hq haReq)
        | some up => rfl

end

/-! ### The question of a reply -/

section

variable {S : Type} {cfg : RuntimeConfig} {arp : ArpTable} {now : ℤ} {serial : ℕ} {opts : ServerOpts} {req : DnsRequest}

theorem queries_chain {next : Next S} {ctx : ChainContext} {s : S} {r : DnsResponse}
    (hfirst : req.query = req.queries.head?.getD default) (h : (chain cfg arp now serial next ctx req s).1 = .ok r) :
    r.message.queries =
      (match cnameOf ctx with
        | none => origin cfg arp now serial next ctx req s
        | some _ => .made).queries req.original := by
  rw [chain_eq] at h
  cases hmid : (cnameMiddleware cfg now (fromDns64 cfg arp now serial next) ctx req s).1 with
  | error e =>
    rw [hmid] at h
    cases h
  | ok mid =>
    rw [hmid] at h
    have hr : r.message.queries = mid.message.queries := by
      obtain rfl := Except.ok.inj h
      split
      · exact stripCname_queries req.original
      · rfl
    rw [hr]
    unfold cnameMiddleware at hmid
    cases hcname : cnameOf ctx with
    | none =>
      simp only [hcname] at hmid
      exact queries_fromDns64 hfirst hmid
    | some cname =>
      simp only [hcname] at hmid
      by_cases hq : req.query.queryType = .CNAME
      · rw [if_pos hq] at hmid
        obtain rfl := Except.ok.inj hmid
        rfl
      · rw [if_neg hq] at hmid
        cases hin : (fromDns64 cfg arp now serial next (.new cfg cname ctx.serverOpts) (req.withCname cname) s).1 with
        | error e =>
          simp only [hin] at hmid
          cases hmid
        | ok inner =>
          simp only [hin] at hmid
          obtain rfl := Except.ok.inj hmid
          rfl

/-- A reply to an error has the question asked. -/
theorem queries_of_error {settings : ReplySettings} {original : Query} (e : DnsError) :
    (processQuery now serial settings original (.error e)).2.message.queries = [original] := by
  cases e with
  | nameExists => rfl
  | proto err => rfl
  | io message => rfl
  | responseCode code => rfl
  | noRecordsFound soa code =>
    cases soa with
    | none => cases code <;> rfl
    | some soa => cases code <;> rfl

@[simp] theorem truncateUdp_queries (size : Reply → Option ℕ) (r : Reply) : (truncateUdp size req r).queries = r.queries := by
  unfold truncateUdp
  split
  · split <;> rfl
  · rfl

@[simp] theorem truncateUdp_id (size : Reply → Option ℕ) (r : Reply) : (truncateUdp size req r).header.id = r.header.id := by
  unfold truncateUdp
  split
  · split <;> rfl
  · rfl

theorem queries_fullReply {next : Next (SearchState S)} {size : Reply → Option ℕ} {s : SearchState S}
    (hfirst : req.query = req.queries.head?.getD default) :
    (fullReply now serial (serverHandler cfg arp now serial next opts size s) req).queries =
      (replyOrigin cfg arp now serial next opts req s).queries req.original := by
  show (processQuery now serial (replySettings cfg opts req) req.original
    ((serverHandler cfg arp now serial next opts size s).search req)).2.message.queries = _
  unfold replyOrigin
  dsimp only
  cases hadm : isAdmitted cfg.searchConfig arp req opts s.inFlight with
  | false =>
    rw [search_of_not_isAdmitted hadm]
    exact queries_of_error _
  | true =>
    rw [search_of_isAdmitted hadm, if_pos rfl]
    cases hres : (chain cfg arp now serial next (clientContext cfg arp req opts) req ⟨s.inFlight + 1, s.chain⟩).1 with
    | error e => exact queries_of_error e
    | ok r =>
      refine (queries_chain hfirst hres).trans ?_
      cases cnameOf (clientContext cfg arp req opts) <;> rfl

end

/-! ### The question of a stored answer -/

section

variable {C : Type} {upstream : Next C} {H : KeyHash} {before s : CacheServer H} {key : CacheKey} {r : DnsResponse}
  {queries : List Query}

/-- It was handed up in some state on the way to this one. -/
def HandedUpBefore (upstream : Next C) (s : CacheServer H) (key : CacheKey) (r : DnsResponse) : Prop :=
  ∃ before, Reachable upstream before ∧ Relation.ReflTransGen (CacheStep upstream) before s ∧ HandsUp before key r

/-- The response stems from an answer with this question section: of a lookup under an equal key, or of a file. -/
def StoredQuestion (s : CacheServer H) (key : CacheKey) (r : DnsResponse) (queries : List Query) : Prop :=
  (∃ l ∈ s.lookups, (l.key == key) = true ∧ content r = content l.response ∧ l.response.message.queries = queries) ∨
    ∃ e ∈ s.loaded, (fileKey e == key) = true ∧ content r = content e.data ∧ e.data.message.queries = queries

/-- **A stored answer keeps its question.** -/
theorem storedQuestion_iff (h : HandedUpBefore upstream s key r) :
    StoredQuestion s key r queries ↔ r.message.queries = queries := by
  obtain ⟨before, hreach, hrun, hup⟩ := h
  constructor
  · rintro (⟨l, -, -, hc, hq⟩ | ⟨e, -, -, hc, hq⟩)
    · exact (queries_of_content hc).trans hq
    · exact (queries_of_content hc).trans hq
  · intro hq
    cases (stems_of_handsUp hreach hup).run hrun with
    | lookup l made same hc => exact .inl ⟨l, made, same, hc, (queries_of_content hc).symm.trans hq⟩
    | loaded e read same hc => exact .inr ⟨e, read, same, hc, (queries_of_content hc).symm.trans hq⟩

end

/-! ### The condition -/

/-- What was handed up has some property. -/
def Origin.From (p : CacheKey → DnsResponse → Prop) : Origin → Prop
  | made => True
  | handedUp key r => p key r
  | aRecords key r => p key r

section

variable {S : Type} {cfg : RuntimeConfig} {arp : ArpTable} {now : ℤ} {serial : ℕ} {p : CacheKey → DnsResponse → Prop}

theorem next_of_handedUp {next : Next S} {ctx : ChainContext} {req : DnsRequest} {s : S} {r : DnsResponse}
    (h : handedUp cfg arp now serial next ctx req s = some r) : (next ctx req s).1 = .ok r := by
  unfold handedUp at h
  split at h
  · cases h
  · cases hres : (next ctx req s).1 with
    | error e =>
      rw [hres] at h
      cases h
    | ok up =>
      rw [hres] at h
      exact congrArg Except.ok (Option.some.inj h)

theorem from_ofHandedUp {make : DnsResponse → Origin} {up : Option DnsResponse}
    (h : ∀ r, up = some r → (make r).From p) : (Origin.ofHandedUp make up).From p := by
  cases up with
  | none => trivial
  | some r => exact h r rfl

theorem origin_from {next : Next S} (hup : ∀ ctx req s r, (next ctx req s).1 = .ok r → p (cacheKey ctx req) r)
    (ctx : ChainContext) (req : DnsRequest) (s : S) : (origin cfg arp now serial next ctx req s).From p := by
  have own : (Origin.ofHandedUp (.handedUp (cacheKey ctx req)) (handedUp cfg arp now serial next ctx req s)).From p := by
    apply from_ofHandedUp
    exact fun r hr => hup ctx req s r (next_of_handedUp hr)
  unfold origin
  dsimp only
  split
  · trivial
  split
  · exact own
  split
  · apply from_ofHandedUp
    exact fun r hr => hup ctx _ _ r (next_of_handedUp hr)
  · exact own

theorem replyOrigin_from {next : Next (SearchState S)} {opts : ServerOpts}
    (hup : ∀ ctx req s r, (next ctx req s).1 = .ok r → p (cacheKey ctx req) r) (req : DnsRequest) (s : SearchState S) :
    (replyOrigin cfg arp now serial next opts req s).From p := by
  unfold replyOrigin
  dsimp only
  split
  · split
    · exact origin_from hup _ _ _
    · trivial
  · trivial

end

/-- The condition on a response: what is made here is made for one question; a stored answer has its own, in which
DNS64 changes the type. -/
def QuestionKept {H : KeyHash} (server : CacheServer H) (queries : List Query) : Origin → Prop
  | .made => queries.length = 1
  | .handedUp key r => StoredQuestion server key r queries
  | .aRecords key r => ∃ stored, StoredQuestion server key r stored ∧
      stored.modifyHead (fun q => { q with queryType := .AAAA }) = queries

theorem made_iff {req : DnsRequest} (hfirst : req.query = req.queries.head?.getD default) :
    [req.original] = req.queries ↔ req.queries.length = 1 := by
  show [req.query] = req.queries ↔ _
  rw [List.length_eq_one_iff, hfirst]
  constructor
  · intro h
    exact ⟨_, h.symm⟩
  · rintro ⟨q, hq⟩
    rw [hq]
    rfl

theorem questionKept_iff {C : Type} {upstream : Next C} {H : KeyHash} {server : CacheServer H} {req : DnsRequest}
    {o : Origin} (hfirst : req.query = req.queries.head?.getD default) (ho : o.From (HandedUpBefore upstream server)) :
    o.queries req.original = req.queries ↔ QuestionKept server req.queries o := by
  cases o with
  | made => exact made_iff hfirst
  | handedUp key r => exact (storedQuestion_iff ho).symm
  | aRecords key r =>
    have hstored (stored : List Query) : StoredQuestion server key r stored ↔ r.message.queries = stored :=
      storedQuestion_iff ho
    constructor
    · intro h
      exact ⟨r.message.queries, (hstored _).mpr rfl, h⟩
    · rintro ⟨stored, hs, h⟩
      rw [← (hstored stored).mp hs] at h
      exact h

section

variable {S : Type} {H : KeyHash} (server : CacheServer H) (cfg : RuntimeConfig) (arp : ArpTable) (now : ℤ) (serial : ℕ)
  (next : Next (SearchState S)) (opts : ServerOpts)

/-- The condition on a message and what becomes of it. -/
def EchoesWhen (s : SearchState S) (fresh : UInt16) (fate : Fate) : Incoming → Prop
  | .request req => fate = .handled → req.header.messageType = .query → req.header.opCode = .query →
      QuestionKept server req.queries (replyOrigin cfg arp now serial next opts req.toDnsRequest s)
  | .malformed m => m.queries = [] ∧ (fate = .full → ∀ header ∈ m.header, fresh = header.id)

end

/-! ### The reply -/

section

variable {now : ℤ} {serial : ℕ} {h : Handler} {fresh : UInt16} {fate : Fate} {reply : Reply}

theorem send_eq_some {m : Incoming} (hsend : send now serial h fresh fate m = some reply) :
    process now serial h fate m = some reply ∨ fate = .full ∧ reply = overloadResponse fresh m ∨
      fate ≠ .full ∧ process now serial h fate m = none ∧ reply = droppedResponse fresh m := by
  unfold send at hsend
  cases hp : process now serial h fate m with
  | some r =>
    rw [hp] at hsend
    exact .inl hsend
  | none =>
    rw [hp] at hsend
    dsimp only at hsend
    split at hsend
    · cases hsend
    split at hsend
    · rename_i hfull
      exact .inr (.inl ⟨hfull, (Option.some.inj hsend).symm⟩)
    · rename_i hfull
      exact .inr (.inr ⟨hfull, rfl, (Option.some.inj hsend).symm⟩)

theorem malformed_stub {code : ResponseCode} {m : Malformed}
    (hstub : (responseMaterial (.malformed m)).map (stubResponse code) = some reply) :
    reply.queries = [] ∧ ∀ header ∈ m.header, reply.header.id = header.id := by
  obtain ⟨material, hmaterial, rfl⟩ := Option.map_eq_some_iff.mp hstub
  obtain ⟨header, hheader, rfl⟩ := Option.map_eq_some_iff.mp hmaterial
  refine ⟨rfl, fun header' hh => ?_⟩
  obtain rfl := Option.some.inj (hheader.symm.trans hh)
  rfl

theorem malformed_processInner {m : Malformed} (hp : processInner now serial h (Incoming.malformed m).parsed = some reply) :
    reply.queries = [] ∧ ∀ header ∈ m.header, reply.header.id = header.id := by
  unfold Incoming.parsed at hp
  cases hheader : (if m.formError then m.header else none) with
  | none =>
    simp only [hheader] at hp
    cases hp
  | some header =>
    simp only [hheader] at hp
    obtain rfl := Option.some.inj hp
    refine ⟨rfl, fun header' hh => ?_⟩
    split at hheader
    · obtain rfl := Option.some.inj (hheader.symm.trans hh)
      rfl
    · cases hheader

theorem malformed_dropped (m : Malformed) : (droppedResponse fresh (.malformed m)).queries = [] ∧
    ∀ header ∈ m.header, (droppedResponse fresh (.malformed m)).header.id = header.id := by
  unfold droppedResponse
  cases hstub : (responseMaterial (.malformed m)).map (stubResponse .refused) with
  | some reply => exact malformed_stub hstub
  | none =>
    refine ⟨rfl, fun header hh => ?_⟩
    have hnone : m.header = none := Option.map_eq_none_iff.mp (Option.map_eq_none_iff.mp hstub)
    rw [hnone] at hh
    cases hh

/-- Of a message that cannot be read the id is sent back, if it can be, and no question. -/
theorem malformed_reply {m : Malformed} (hsend : send now serial h fresh fate (.malformed m) = some reply) :
    reply.queries = [] ∧ ∀ header ∈ m.header, reply.header.id = if fate = .full then fresh else header.id := by
  have kept (hfull : fate ≠ .full) (hr : reply.queries = [] ∧ ∀ header ∈ m.header, reply.header.id = header.id) :
      reply.queries = [] ∧ ∀ header ∈ m.header, reply.header.id = if fate = .full then fresh else header.id := by
    refine ⟨hr.1, fun header hh => ?_⟩
    rw [if_neg hfull]
    exact hr.2 header hh
  rcases send_eq_some hsend with hp | ⟨rfl, rfl⟩ | ⟨hfull, -, rfl⟩
  · cases fate with
    | full => cases hp
    | dropped => cases hp
    | panicked => exact kept (by decide) (malformed_stub hp)
    | handled => exact kept (by decide) (malformed_processInner hp)
  · exact ⟨rfl, fun header hh => rfl⟩
  · exact kept hfull (malformed_dropped m)

theorem echoes_malformed {m : Malformed} (hsend : send now serial h fresh fate (.malformed m) = some reply) :
    Echoes (.malformed m) reply ↔ m.queries = [] ∧ (fate = .full → ∀ header ∈ m.header, fresh = header.id) := by
  obtain ⟨hqueries, hid⟩ := malformed_reply hsend
  constructor
  · rintro ⟨hi, hq⟩
    refine ⟨hq.symm.trans hqueries, fun hfull header hh => ?_⟩
    have hfresh := hid header hh
    rw [if_pos hfull] at hfresh
    exact hfresh.symm.trans (hi header hh)
  · rintro ⟨hq, hfull⟩
    refine ⟨fun header hh => ?_, hqueries.trans hq.symm⟩
    rw [hid header hh]
    split
    · rename_i hf
      exact hfull hf header hh
    · rfl

/-- All but the reply of the chain echoes a request. -/
theorem echoes_request {req : ClientRequest} (hsend : send now serial h fresh fate (.request req) = some reply) :
    Echoes (.request req) reply ∨ fate = .handled ∧ req.header.messageType = .query ∧ req.header.opCode = .query ∧
      reply = truncateUdp h.size req.toDnsRequest (fullReply now serial h req.toDnsRequest) := by
  have echoed {reply : Reply} (hid : reply.header.id = req.header.id) (hq : reply.queries = req.queries) :
      Echoes (.request req) reply := ⟨fun header hh => hid.trans (congrArg Header.id (Option.some.inj hh)), hq⟩
  rcases send_eq_some hsend with hp | ⟨-, rfl⟩ | ⟨-, -, rfl⟩
  · cases fate with
    | full => cases hp
    | dropped => cases hp
    | panicked =>
      obtain rfl := Option.some.inj hp
      exact .inl (echoed rfl rfl)
    | handled =>
      unfold process Incoming.parsed processInner at hp
      cases hm : req.header.messageType with
      | response =>
        simp only [hm] at hp
        cases hp
      | query =>
        simp only [hm] at hp
        by_cases ho : req.header.opCode = .query
        · simp only [ho] at hp
          exact .inr ⟨rfl, rfl, ho, (Option.some.inj hp).symm⟩
        · have hp : some (notImpResponse req.toDnsRequest) = some reply := by
            split at hp
            · rename_i hcode
              exact absurd hcode ho
            · exact hp
          obtain rfl := Option.some.inj hp
          exact .inl (echoed rfl rfl)
  · exact .inl (echoed rfl rfl)
  · exact .inl (echoed rfl rfl)

end

/-- **A reply echoes its message exactly where the stored answer it is made of has the question of the request**, letter
by letter; all other replies to a request of one question echo it, and so do those that the chain has no part in. -/
theorem echoes_iff {S C : Type} {H : KeyHash} (upstream : Next C) (server : CacheServer H) (cfg : RuntimeConfig)
    (arp : ArpTable) (now : ℤ) (serial : ℕ) (next : Next (SearchState S))
    (hup : ∀ ctx req s r, (next ctx req s).1 = .ok r → HandedUpBefore upstream server (cacheKey ctx req) r)
    (opts : ServerOpts) (size : Reply → Option ℕ) (s : SearchState S) (fresh : UInt16) (fate : Fate) (m : Incoming)
    (reply : Reply)
    (hsend : send now serial (serverHandler cfg arp now serial next opts size s) fresh fate m = some reply) :
    Echoes m reply ↔ EchoesWhen server cfg arp now serial next opts s fresh fate m := by
  cases m with
  | malformed m => exact echoes_malformed hsend
  | request req =>
    have hkept := questionKept_iff (o := replyOrigin cfg arp now serial next opts req.toDnsRequest s) req.first
      (replyOrigin_from hup _ _)
    by_cases hchain : fate = .handled ∧ req.header.messageType = .query ∧ req.header.opCode = .query
    · obtain ⟨rfl, hm, ho⟩ := hchain
      have hreply : reply = truncateUdp size req.toDnsRequest
          (fullReply now serial (serverHandler cfg arp now serial next opts size s) req.toDnsRequest) := by
        unfold send process Incoming.parsed processInner at hsend
        simp only [hm, ho] at hsend
        exact (Option.some.inj hsend).symm
      have hqueries : reply.queries =
          (replyOrigin cfg arp now serial next opts req.toDnsRequest s).queries req.original := by
        rw [hreply, truncateUdp_queries]
        exact queries_fullReply req.first
      constructor
      · rintro ⟨-, hq⟩ - - -
        exact hkept.mp (hqueries.symm.trans hq)
      · intro hcond
        refine ⟨fun header hh => ?_, hqueries.trans (hkept.mpr (hcond rfl hm ho))⟩
        obtain rfl := Option.some.inj hh
        rw [hreply, truncateUdp_id]
        rfl
    · rcases echoes_request hsend with hecho | ⟨hf, hm, ho, -⟩
      · exact iff_of_true hecho fun hf hm ho => absurd ⟨hf, hm, ho⟩ hchain
      · exact absurd ⟨hf, hm, ho⟩ hchain

/-! ### Another spelling -/

open Rule (wwwExampleCom labelExample labelCom)

/-- `www.example.com TXT`, or the name in some other spelling. -/
def textRequest (id : UInt16) (name : Name) : ClientRequest where
  header := { id }
  queries := [{ name, queryType := .TXT, queryClass := .IN }]
  src := .v4 0x0a000001#32
  first := rfl

def lowRequest : ClientRequest := textRequest 1 (wwwExampleCom.setFqdn true)

/-- `WWW.example.com`. -/
def loudRequest : ClientRequest :=
  textRequest 2 ⟨true, [⟨[87, 87, 87], by decide, by decide⟩, labelExample, labelCom]⟩

/-- The upstream has one text, and sends the question back as it got it. -/
def textUpstream : Next Unit := fun _ req s =>
  (.ok (.newWithDeadline req.original [⟨req.original.name, .IN, 300, .other .TXT [2, 104, 105]⟩] 0), s)

def textLookup : Lookup where
  key := cacheKey (.new plainConfig lowRequest.name {}) lowRequest.toDnsRequest
  response := .newWithDeadline lowRequest.original [⟨lowRequest.original.name, .IN, 300, .other .TXT [2, 104, 105]⟩] 0
  decided := false

/-- The text is looked up for the first client, and stored. -/
def textServer : CacheServer oneShard where
  machine := (DnsCacheMiddleware.new oneShard ⟨false, 0, 0⟩ 64 0).step 0
    (.insertFullResponse textLookup.key textLookup.response false)
  flight := SingleFlight.start
  lookups := [textLookup]
  loaded := []

theorem reachable_textServer : Reachable textUpstream textServer := by
  have hlookup : IsLookup textUpstream textLookup :=
    .asked plainConfig ipv4Wins 0 0 (.new plainConfig lowRequest.name {}) lowRequest.toDnsRequest () () textLookup.response
      [] rfl
  refine ⟨⟨false, 0, 0⟩, 64, 0, (Relation.ReflTransGen.refl.tail (.lookup textLookup hlookup)).tail
    (.event 0 (.insertFullResponse textLookup.key textLookup.response false) fun key response fromPrefetch h => ?_)⟩
  obtain ⟨rfl, rfl, -⟩ := CacheEvent.insertFullResponse.inj h
  exact ⟨textLookup, List.mem_cons_self, rfl, rfl⟩

/-- The cache middleware, at some moment, where nothing below it answers. -/
def onlyCached {H : KeyHash} (server : CacheServer H) (t : ℤ) : Next (SearchState Unit) := fun ctx req s =>
  match answerFromCache false false 0 (server.machine.cache.get (cacheKey ctx req) t).2 with
  | some r => (.ok r, s)
  | none => (.error (.io ""), s)

theorem handedUp_onlyCached {C : Type} {upstream : Next C} {H : KeyHash} {server : CacheServer H}
    (hs : Reachable upstream server) (t : ℤ) (ctx : ChainContext) (req : DnsRequest) (s : SearchState Unit)
    (r : DnsResponse) (h : (onlyCached server t ctx req s).1 = .ok r) :
    HandedUpBefore upstream server (cacheKey ctx req) r := by
  unfold onlyCached at h
  cases hit : answerFromCache false false 0 (server.machine.cache.get (cacheKey ctx req) t).2 with
  | none =>
    rw [hit] at h
    cases h
  | some up =>
    rw [hit] at h
    obtain rfl := Except.ok.inj h
    exact ⟨server, hs, .refl, .cached t false false 0 up hit⟩

/-- The server, with nothing set, and this cache. -/
def cachedHandler (server : CacheServer oneShard) : Handler :=
  serverHandler plainConfig (fun _ => none) 0 0 (onlyCached server 0) {} (fun _ => none) ⟨0, ()⟩

/-- The second client gets the question in the spelling of the first. -/
theorem spelling_of_another : ¬ ∀ server, Reachable textUpstream server → ∀ (m : Incoming) (reply : Reply),
    send 0 0 (cachedHandler server) 0 .handled m = some reply → Echoes m reply := by
  intro h
  have hecho := h textServer reachable_textServer (.request loudRequest) _ rfl
  have hspelled : lowRequest.queries.map (·.name.labels) = loudRequest.queries.map (·.name.labels) :=
    congrArg (List.map (·.name.labels)) hecho.queries
  revert hspelled
  decide +kernel

theorem echoes_iff_lowRequest : ∃ reply,
    send 0 0 (cachedHandler textServer) 0 .handled (.request lowRequest) = some reply ∧
      (Echoes (.request lowRequest) reply ↔
        EchoesWhen textServer plainConfig (fun _ => none) 0 0 (onlyCached textServer 0) {} ⟨0, ()⟩ 0 .handled
          (.request lowRequest)) :=
  ⟨_, rfl, echoes_iff textUpstream textServer plainConfig (fun _ => none) 0 0 (onlyCached textServer 0)
    (handedUp_onlyCached reachable_textServer 0) {} (fun _ => none) ⟨0, ()⟩ 0 .handled (.request lowRequest) _ rfl⟩

end Server
end SmartDns
