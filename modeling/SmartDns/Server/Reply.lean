/-
# The reply to a client

`process_inner` of `app.rs`: a query goes through the middleware chain, and what comes
out becomes the reply. The header is made from the request's, so that a response's own
code is dropped; the code of the reply is NOERROR unless the chain gave an error that
is not a negative answer. Over UDP a reply that is too long is cut.

The reply is truthful (`Truthful`) about every error but a bare NOERROR or NXDOMAIN
code, and about every response but an empty one of a failure code and an NXDOMAIN one
without an SOA record (`truthful_iff`).

Key definitions: `processQuery`, `processInner`, `Truthful`.
Key theorem: `truthful_iff`.
-/
import SmartDns.Dns.Error
import SmartDns.Dns.Request

namespace SmartDns
namespace Server

open Dns

/-- What a rule group says of the TTL of a negative answer; the values are 64 bits wide. -/
structure ReplySettings where
  rrTtl : Option ℕ := none
  rrTtlReplyMax : Option ℕ := none

/-- `as u32`. -/
def asU32 (n : ℕ) : ℕ := n % 2 ^ 32

/-- The TTL of an SOA record made for an NXDOMAIN without one. -/
def ReplySettings.soaTtl (s : ReplySettings) : ℕ :=
  min ((s.rrTtl.map asU32).getD 60) ((s.rrTtlReplyMax.map asU32).getD (2 ^ 32 - 1))

/-- A message as it is sent. -/
structure Reply where
  header : Header
  queries : List Query := []
  answers : List Record := []
  authorities : List Record := []
  additionals : List Record := []

namespace Reply

def records (r : Reply) : List Record := r.answers ++ r.authorities ++ r.additionals

def hasSoa (r : Reply) : Bool := r.records.any (·.recordType = .SOA)

/-- `update_header_counts`. -/
def updateHeaderCounts (header : Header) (truncated : Bool) (r : Reply) : Header :=
  { header with
    truncation := truncated
    queryCount := r.queries.length
    answerCount := r.answers.length
    authorityCount := r.authorities.length
    additionalCount := r.additionals.length }

end Reply

/-- `into_message(Some(header))`. -/
def intoMessage (header : Header) (r : DnsResponse) : Reply :=
  let reply : Reply :=
    { header
      queries := r.message.queries
      answers := r.message.answers
      authorities := r.message.authorities
      additionals := r.message.additionals }
  { reply with header := reply.updateHeaderCounts header r.message.truncated }

section

variable (now : ℤ) (serial : ℕ) (settings : ReplySettings)

/-- A response with the question only. -/
def emptyResponse (original : Query) : DnsResponse where
  message := { queries := [original] }
  validUntil := now

/-- The code and the response for what the chain gave. -/
def processQuery (original : Query) : LookupResult → ResponseCode × DnsResponse
  | .ok lookup => (.noError, lookup)
  | .error e =>
    match e.explicitResponseCode, e.asSoa now original with
    | _, some soa => (.noError, soa)
    | some code, none => (code, emptyResponse now original)
    | none, none =>
      if e.isNxDomain then
        (.noError, (emptyResponse now original).addAuthority
          (forgeSoaRecord serial original.name settings.soaTtl).toRecord)
      else (.servFail, emptyResponse now original)

end

/-- The most bytes of a UDP reply. -/
def maxPayload (req : DnsRequest) : ℕ := max 512 (min ((req.maxPayload.map (·.toNat)).getD 512) 4096)

/-- Whether a reply is too long; `size` is the length of its encoding, if it has one. -/
def tooLong (size : Reply → Option ℕ) (req : DnsRequest) (r : Reply) : Bool :=
  (size r).any fun n => maxPayload req < n

/-- Marked as cut; only the answers are left. -/
def Reply.onlyAnswers (r : Reply) : Reply :=
  { r with header := { r.header with truncation := true }, authorities := [], additionals := [] }

def Reply.withoutAnswers (r : Reply) : Reply := { r with answers := [] }

def Reply.syncHeader (r : Reply) : Reply := { r with header := r.updateHeaderCounts r.header r.header.truncation }

/-- What is sent over UDP. -/
def truncateUdp (size : Reply → Option ℕ) (req : DnsRequest) (r : Reply) : Reply :=
  if req.protocol = .udp && tooLong size req r then
    if tooLong size req r.onlyAnswers then r.onlyAnswers.withoutAnswers.syncHeader else r.onlyAnswers.syncHeader
  else r

/-- The parts of a request's handling that are not `process_inner`'s: the chain, the settings of the
request's rule group and the lengths of encoded messages. -/
structure Handler where
  search : DnsRequest → LookupResult
  settings : DnsRequest → ReplySettings
  size : Reply → Option ℕ

/-- The header before the code is known. -/
def responseHeader (req : DnsRequest) : Header :=
  { req.header.responseFromRequest with recursionAvailable := true, authoritative := false }

/-- The reply to a query before it is cut. -/
def fullReply (now : ℤ) (serial : ℕ) (h : Handler) (req : DnsRequest) : Reply :=
  let (code, response) := processQuery now serial (h.settings req) req.original (h.search req)
  intoMessage { responseHeader req with responseCode := code } response

def notImpResponse (req : DnsRequest) : Reply where
  header := { req.header.responseFromRequest with responseCode := .notImp }
  queries := req.queries

def formErrResponse (header : Header) : Reply where
  header := { header.responseFromRequest with responseCode := .formErr }

/-- `process_inner`, on a request or, where it cannot be parsed, on its header if that can; without a
reply the message is dropped. -/
def processInner (now : ℤ) (serial : ℕ) (h : Handler) : Except (Option Header) DnsRequest → Option Reply
  | .ok req =>
    match req.header.messageType with
    | .query =>
      match req.header.opCode with
      | .query => some (truncateUdp h.size req (fullReply now serial h req))
      | _ => some (notImpResponse req)
    | .response => none
  | .error (some header) => some (formErrResponse header)
  | .error none => none

/-! ### What a reply tells -/

/-- The result has records to give. -/
def holdsAnswers : LookupResult → Bool
  | .ok r => !r.message.answers.isEmpty
  | .error _ => false

/-- The name is said not to exist. -/
def statesNxDomain : LookupResult → Bool
  | .ok r => r.message.responseCode = .nxDomain
  | .error e => e.isNxDomain

/-- The name, or its records of the asked type, are said not to exist. -/
def statesNegative : LookupResult → Bool
  | .ok r => r.message.responseCode = .noError || r.message.responseCode = .nxDomain
  | .error (.noRecordsFound _ code) => code = .noError || code = .nxDomain
  | .error e => e.isNxDomain

def isFailureCode : ResponseCode → Bool
  | .noError => false
  | .nxDomain => false
  | .other _ => true

/-- Nothing was found out: an empty response of a failure code, or an error that is no negative. -/
def isFailure : LookupResult → Bool
  | .ok r => isFailureCode r.message.responseCode && r.message.answers.isEmpty
  | .error (.noRecordsFound _ code) => isFailureCode code
  | .error (.responseCode code) => isFailureCode code
  | .error _ => true

/-- What a client may conclude from the reply is what the result says. -/
structure Truthful (res : LookupResult) (reply : Reply) : Prop where
  noError : reply.header.responseCode = .noError → holdsAnswers res = true ∨ statesNegative res = true
  failure : isFailure res = true → reply.header.responseCode ≠ .noError
  refused : res = .error (.responseCode .refused) → reply.header.responseCode = .refused
  noNxDomain : reply.header.responseCode ≠ .nxDomain
  /-- A cut reply is asked for again. -/
  nxDomain : statesNxDomain res = true →
    reply.header.responseCode = .noError ∧ (reply.hasSoa = true ∨ reply.header.truncation = true)

/-- The reply made from a response is too long for the request. -/
def isCut (h : Handler) (req : DnsRequest) (r : DnsResponse) : Bool :=
  req.protocol = .udp && tooLong h.size req (intoMessage (responseHeader req) r)

/-- The condition on the result. -/
def TruthfulResult (h : Handler) (req : DnsRequest) : LookupResult → Prop
  | .ok r => (isFailureCode r.message.responseCode = true → r.message.answers ≠ []) ∧
      (r.message.responseCode = .nxDomain →
        r.message.records.any (·.recordType = .SOA) = true ∨ r.message.truncated = true ∨ isCut h req r = true)
  | .error (.responseCode code) => isFailureCode code = true
  | .error _ => True

@[simp] theorem truncateUdp_responseCode (size : Reply → Option ℕ) (req : DnsRequest) (r : Reply) :
    (truncateUdp size req r).header.responseCode = r.header.responseCode := by
  unfold truncateUdp
  split
  · split <;> rfl
  · rfl

/-- Cutting a reply marks it, and leaves every other as it is. -/
theorem truncateUdp_soa (size : Reply → Option ℕ) (req : DnsRequest) (r : Reply) :
    (truncateUdp size req r).hasSoa = true ∨ (truncateUdp size req r).header.truncation = true ↔
      r.hasSoa = true ∨ r.header.truncation = true ∨ (req.protocol = .udp && tooLong size req r) = true := by
  unfold truncateUdp
  by_cases h : (req.protocol = .udp && tooLong size req r) = true
  · rw [if_pos h]
    refine ⟨fun _ => .inr (.inr h), fun _ => .inr ?_⟩
    split <;> rfl
  · rw [if_neg h]
    simp only [h, Bool.false_eq_true, or_false]

theorem fullReply_ok {now : ℤ} {serial : ℕ} {h : Handler} {req : DnsRequest} {r : DnsResponse}
    (hr : h.search req = .ok r) : fullReply now serial h req = intoMessage (responseHeader req) r := by
  unfold fullReply
  rw [hr]
  rfl

theorem hasSoa_intoMessage (header : Header) (r : DnsResponse) :
    (intoMessage header r).hasSoa = r.message.records.any (·.recordType = .SOA) := rfl

theorem truthful_ok {now : ℤ} {serial : ℕ} {h : Handler} {req : DnsRequest} {r : DnsResponse}
    (hr : h.search req = .ok r) :
    Truthful (.ok r) (truncateUdp h.size req (fullReply now serial h req)) ↔ TruthfulResult h req (.ok r) := by
  have hcode : (fullReply now serial h req).header.responseCode = .noError := by
    rw [fullReply_ok hr]
    rfl
  have hsoa := truncateUdp_soa h.size req (fullReply now serial h req)
  rw [fullReply_ok hr, hasSoa_intoMessage] at hsoa
  refine ⟨fun ht => ⟨fun hf hans => ?_, fun hnx => ?_⟩, fun hcond => ⟨fun _ => ?_, fun hf => ?_, ?_, ?_, fun hnx => ⟨?_, ?_⟩⟩⟩
  · refine ht.failure ?_ (by rw [truncateUdp_responseCode, hcode])
    rw [isFailure, hf, hans]
    rfl
  · have := (ht.nxDomain (by rw [statesNxDomain]; exact decide_eq_true hnx)).2
    rw [fullReply_ok hr] at this
    exact hsoa.mp this
  · cases hc : r.message.responseCode with
    | noError => exact .inr (by simp [statesNegative, hc])
    | nxDomain => exact .inr (by simp [statesNegative, hc])
    | other code => exact .inl (by simpa [holdsAnswers] using hcond.1 (by rw [hc]; rfl))
  · rw [isFailure, Bool.and_eq_true, List.isEmpty_iff] at hf
    exact absurd hf.2 (hcond.1 hf.1)
  · intro hres
    cases hres
  · rw [truncateUdp_responseCode, hcode]
    decide
  · rw [truncateUdp_responseCode, hcode]
  · rw [fullReply_ok hr]
    exact hsoa.mpr (hcond.2 (by simpa [statesNxDomain] using hnx))

/-- The reply to an error. -/
theorem fullReply_error {now : ℤ} {serial : ℕ} {h : Handler} {req : DnsRequest} {e : DnsError}
    (hr : h.search req = .error e) {code : ResponseCode} {r : DnsResponse}
    (hp : processQuery now serial (h.settings req) req.original (.error e) = (code, r)) :
    fullReply now serial h req = intoMessage { responseHeader req with responseCode := code } r := by
  unfold fullReply
  rw [hr, hp]

/-- A failure code is truthful about what is no NXDOMAIN. -/
theorem truthful_of_failureCode {res : LookupResult} {reply : Reply}
    (hcode : isFailureCode reply.header.responseCode = true) (hnx : statesNxDomain res = false)
    (hrefused : res = .error (.responseCode .refused) → reply.header.responseCode = .refused) : Truthful res reply := by
  refine ⟨fun h => ?_, fun _ h => ?_, hrefused, fun h => ?_, fun h => ?_⟩
  · rw [h] at hcode
    cases hcode
  · rw [h] at hcode
    cases hcode
  · rw [h] at hcode
    cases hcode
  · rw [hnx] at h
    cases h

/-- NOERROR with an SOA record is truthful about a negative. -/
theorem truthful_of_negative {res : LookupResult} {reply : Reply} (hcode : reply.header.responseCode = .noError)
    (hneg : statesNegative res = true) (hfail : isFailure res = false)
    (hrefused : res ≠ .error (.responseCode .refused))
    (hsoa : reply.hasSoa = true ∨ reply.header.truncation = true) : Truthful res reply := by
  refine ⟨fun _ => .inr hneg, fun h => ?_, fun h => absurd h hrefused, ?_, fun _ => ⟨hcode, hsoa⟩⟩
  · rw [hfail] at h
    cases h
  · rw [hcode]
    decide

section

variable {now : ℤ} {serial : ℕ} {h : Handler} {req : DnsRequest} {e : DnsError}

/-- An error that becomes SERVFAIL. -/
theorem truthful_servFail (hr : h.search req = .error e)
    (hp : processQuery now serial (h.settings req) req.original (.error e) =
      (.servFail, emptyResponse now req.original))
    (hnx : statesNxDomain (.error e) = false) (hrefused : e ≠ .responseCode .refused) :
    Truthful (.error e) (truncateUdp h.size req (fullReply now serial h req)) := by
  refine truthful_of_failureCode ?_ hnx fun h => absurd (Except.error.inj h) hrefused
  rw [truncateUdp_responseCode, fullReply_error hr hp]
  rfl

/-- An error that becomes NOERROR with an SOA record. -/
theorem truthful_soa (hr : h.search req = .error e) {r : DnsResponse}
    (hp : processQuery now serial (h.settings req) req.original (.error e) = (.noError, r))
    (hsoa : r.message.records.any (·.recordType = .SOA) = true)
    (hneg : statesNegative (.error e) = true) (hfail : isFailure (.error e) = false)
    (hrefused : e ≠ .responseCode .refused) :
    Truthful (.error e) (truncateUdp h.size req (fullReply now serial h req)) := by
  refine truthful_of_negative ?_ hneg hfail (fun h => absurd (Except.error.inj h) hrefused) ?_
  · rw [truncateUdp_responseCode, fullReply_error hr hp]
    rfl
  · apply (truncateUdp_soa _ _ _).mpr
    rw [fullReply_error hr hp]
    exact .inl hsoa

theorem truthful_error (hr : h.search req = .error e) :
    Truthful (.error e) (truncateUdp h.size req (fullReply now serial h req)) ↔ TruthfulResult h req (.error e) := by
  cases e with
  | nameExists => exact iff_of_true (truthful_servFail hr rfl rfl (by simp)) trivial
  | proto err => exact iff_of_true (truthful_servFail hr rfl rfl (by simp)) trivial
  | io message => exact iff_of_true (truthful_servFail hr rfl rfl (by simp)) trivial
  | responseCode code =>
    have hcode : (truncateUdp h.size req (fullReply now serial h req)).header.responseCode = code := by
      rw [truncateUdp_responseCode, fullReply_error hr rfl]
      rfl
    constructor
    · intro ht
      cases code with
      | noError => exact (ht.noError hcode).elim nofun nofun
      | nxDomain => exact absurd hcode ht.noNxDomain
      | other code => rfl
    · intro hfail
      have hfail : isFailureCode code = true := hfail
      refine truthful_of_failureCode (by rwa [hcode]) ?_ fun h => ?_
      · cases code with
        | nxDomain => cases hfail
        | noError => rfl
        | other code => rfl
      · rw [hcode]
        exact DnsError.responseCode.inj (Except.error.inj h)
  | noRecordsFound soa code =>
    refine iff_of_true ?_ trivial
    -- with an SOA record and no failure code it is a negative, and so is an NXDOMAIN without one
    cases code with
    | noError =>
      cases soa with
      | some soa => exact truthful_soa hr rfl rfl rfl rfl (by simp)
      | none => exact truthful_servFail hr rfl rfl (by simp)
    | nxDomain =>
      cases soa with
      | some soa => exact truthful_soa hr rfl rfl rfl rfl (by simp)
      | none => exact truthful_soa hr rfl rfl rfl rfl (by simp)
    | other code =>
      cases soa with
      | some soa => exact truthful_servFail hr rfl rfl (by simp)
      | none => exact truthful_servFail hr rfl rfl (by simp)

end

/-- **A reply is truthful exactly where the result is no empty response of a failure code**, no NXDOMAIN
response without an SOA record (unless the reply is cut) and no bare NOERROR or NXDOMAIN code. -/
theorem truthful_iff (now : ℤ) (serial : ℕ) (h : Handler) (req : DnsRequest)
    (hm : req.header.messageType = .query) (ho : req.header.opCode = .query) :
    ∃ reply, processInner now serial h (.ok req) = some reply ∧
      (Truthful (h.search req) reply ↔ TruthfulResult h req (h.search req)) := by
  refine ⟨truncateUdp h.size req (fullReply now serial h req), by simp only [processInner, hm, ho], ?_⟩
  cases hr : h.search req with
  | ok r => exact truthful_ok hr
  | error e => exact truthful_error hr

/-- A query for `TXT` of the root. -/
def textQuery : DnsRequest where
  header := { id := 1 }
  queries := [{ (default : Query) with queryType := .TXT }]
  src := .v4 0x7f000001#32

/-- The chain has one response for all, of an unassigned code and empty. -/
def unassignedCode : Handler where
  search _ := .ok { message := { responseCode := .other 12, queries := textQuery.queries }, validUntil := 0 }
  settings _ := {}
  size _ := some 40

/-- It reaches the client as an empty NOERROR. -/
theorem failure_reaches_client : ¬ ∀ (now : ℤ) (serial : ℕ) (h : Handler) (req : DnsRequest) (reply : Reply),
    processInner now serial h (.ok req) = some reply → Truthful (h.search req) reply := by
  intro h
  have ht := h 0 0 unassignedCode textQuery _ rfl
  exact absurd rfl (ht.failure rfl)

theorem truthful_iff_textQuery : ∃ reply, processInner 0 0 unassignedCode (.ok textQuery) = some reply ∧
    (Truthful (unassignedCode.search textQuery) reply ↔
      TruthfulResult unassignedCode textQuery (unassignedCode.search textQuery)) :=
  truthful_iff 0 0 unassignedCode textQuery rfl rfl

end Server
end SmartDns
