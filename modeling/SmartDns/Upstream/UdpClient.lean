/-
# A request over UDP

`UdpClientStream::send_message` and `send_serial_message_inner` of `proto/src/udp/udp_client_stream.rs`: the message
goes out in one datagram, and the datagrams that come in are passed over until one answers it: it comes from the
address that was asked, can be read, is a response with the id of the message, and asks nothing that was not asked.
Anyone can send datagrams; those of others make no difference (`forged_makes_no_difference`).

A wait for more datagrams ends by the timeout around it, which is not part of the loop. Nothing is signed here.

Key definitions: `sendSerialMessageInner`, `verdict`, `Forged`.
Key theorems: `answer_is_to_the_question`, `forged_makes_no_difference`.
-/
import SmartDns.Upstream.Multiplexer

namespace SmartDns

open Dns Lib

namespace Upstream

open Wire

inductive UdpError
  | message (text : String)
  | kind (e : ProtoErrorKind)
  | queryCaseMismatch
  | socket (code : ℕ)

def MAX_RECEIVE_BUFFER_SIZE : ℕ := 4096

/-- What `recv_from` gives: a datagram, or an error of the socket. -/
inductive Received
  | datagram (bytes : List UInt8) (src : SocketAddr)
  | failed (code : ℕ)

/-- What a request waits for, and how it reads what comes. -/
structure Awaited where
  bytes : List UInt8
  addr : SocketAddr
  msgId : UInt16
  recvBufSize : ℕ
  caseRandomization : Bool := false
  originalQuery : Option Query := none

/-- `eq_case` of `Name`. -/
def eqCase (a b : Name) : Bool := a.cmpWithF id b == .eq

variable {D : Type} (formats : MoreData D)

/-- `max_payload`. -/
def maxPayload (m : Wire.Message D) : ℕ := max 512 (m.edns.elim 512 fun edns => edns.maxPayload.toNat)

/-- The question of a response that is one of the original one, as it was asked first. -/
def Awaited.restore (w : Awaited) (queries : List Query) : List Query :=
  match w.caseRandomization, w.originalQuery with
  | true, some original => queries.map fun q => if q == original then original else q
  | _, _ => queries

/-- What a response to the request is held to, whose questions are these. -/
def Awaited.check (w : Awaited) (requestQueries : List Query) (response : Wire.Message D) :
    Option (Except UdpError (Wire.Message D)) :=
  let questionMatches := response.queries.all fun q => requestQueries.contains q
  if w.caseRandomization && questionMatches &&
      !response.queries.all fun q => requestQueries.any fun asked => asked == q && eqCase asked.name q.name then
    some (.error .queryCaseMismatch)
  else if !questionMatches then none
  else some (.ok { response with queries := w.restore response.queries })

/-- What a round of the loop comes to; nothing, if it goes round again. -/
def Awaited.verdict (w : Awaited) : Received → Option (Except UdpError (Wire.Message D))
  | .failed code => some (.error (.socket code))
  | .datagram bytes src =>
    if src.ip ≠ w.addr.ip ∨ src.port ≠ w.addr.port then none
    else match fromBuffer formats (bytes.take w.recvBufSize) with
      | none => none
      | some response =>
        if w.msgId ≠ response.header.id then none
        else match fromVec formats w.bytes with
          | .error e => some (.error (.kind e))
          | .ok request => w.check request.queries response

/-- The loop, over what comes; with nothing more it still waits. -/
def Awaited.receiveLoop (w : Awaited) : List Received → Option (Except UdpError (Wire.Message D))
  | [] => none
  | received :: rest =>
    match w.verdict formats received with
    | none => Awaited.receiveLoop w rest
    | some outcome => some outcome

/-- `send_serial_message_inner`, when the socket has sent so many bytes. -/
def Awaited.sendSerialMessageInner (w : Awaited) (lenSent : Except ℕ ℕ) (arrivals : List Received) :
    Option (Except UdpError (Wire.Message D)) :=
  match lenSent with
  | .error code => some (.error (.socket code))
  | .ok len =>
    if w.bytes.length ≠ len then
      some (.error (.message s!"Not all bytes of message sent, {len} of {w.bytes.length}"))
    else w.receiveLoop formats arrivals

structure UdpClientStream where
  nameServer : SocketAddr
  isShutdown : Bool := false

/-- What is awaited for a request whose message is these bytes. -/
def UdpClientStream.awaits (c : UdpClientStream) (request : Wire.Message D) (caseRandomization : Bool)
    (originalQuery : Option Query) (bytes : List UInt8) : Awaited where
  bytes
  addr := c.nameServer
  msgId := request.header.id
  recvBufSize := min MAX_RECEIVE_BUFFER_SIZE (maxPayload request)
  caseRandomization
  originalQuery

/-- `send_message`. -/
def UdpClientStream.sendMessage (c : UdpClientStream) (request : Wire.Message D) (caseRandomization : Bool)
    (originalQuery : Option Query) (now : Option ℕ) (lenSent : Except ℕ ℕ) (arrivals : List Received) :
    Option (Except UdpError (Wire.Message D)) :=
  if c.isShutdown then some (.error (.message "can not send messages after stream is shutdown"))
  else if now.isNone then some (.error (.message "Current time is before the Unix epoch."))
  else match toVec formats 65535 request with
    | .error e => some (.error (.kind e))
    | .ok bytes =>
      (c.awaits request caseRandomization originalQuery bytes).sendSerialMessageInner formats lenSent arrivals

/-! ### Which datagram is taken -/

variable {formats}

namespace Awaited

variable {w : Awaited}

/-- **The outcome is that of the first datagram that has one.** -/
theorem receiveLoop_eq : ∀ arrivals : List Received,
    w.receiveLoop formats arrivals = arrivals.findSome? (w.verdict formats)
  | [] => rfl
  | received :: rest => by
    rw [receiveLoop, List.findSome?_cons, receiveLoop_eq rest]
    cases w.verdict formats received <;> rfl

/-- A response that is taken. -/
structure Answers (w : Awaited) (formats : MoreData D) (asked : List Query) (bytes : List UInt8)
    (response : Wire.Message D) : Prop where
  reads : fromVec formats (bytes.take w.recvBufSize) = .ok response
  isResponse : response.header.messageType = .response
  id : response.header.id = w.msgId
  queries : ∀ q ∈ response.queries, ∃ q' ∈ asked, (q' == q) = true

theorem check_eq_ok {asked : List Query} {response r : Wire.Message D} (h : w.check asked response = some (.ok r)) :
    (∀ q ∈ response.queries, ∃ q' ∈ asked, (q' == q) = true) ∧
      r = { response with queries := w.restore response.queries } := by
  unfold check at h
  dsimp only at h
  by_cases hmatches : (response.queries.all fun q => asked.contains q) = true
  · refine ⟨fun q hq => ?_, ?_⟩
    · obtain ⟨q', hq', heq⟩ := List.contains_iff_exists_mem_beq.mp (List.all_eq_true.mp hmatches q hq)
      exact ⟨q', hq', BEq.symm heq⟩
    · rw [hmatches] at h
      by_cases hcase : (w.caseRandomization && true && !response.queries.all fun q =>
          asked.any fun asked => asked == q && eqCase asked.name q.name) = true
      · rw [if_pos hcase] at h
        cases h
      · rw [if_neg hcase] at h
        exact (Except.ok.inj (Option.some.inj h)).symm
  · rw [Bool.eq_false_iff.mpr hmatches, Bool.and_false, Bool.false_and] at h
    cases h

theorem verdict_eq_ok {received : Received} {request r : Wire.Message D}
    (hrequest : fromVec formats w.bytes = .ok request) (h : w.verdict formats received = some (.ok r)) :
    ∃ bytes response, received = .datagram bytes w.addr ∧ w.Answers formats request.queries bytes response ∧
      r = { response with queries := w.restore response.queries } := by
  cases received with
  | failed code => cases h
  | datagram bytes src =>
    unfold verdict at h
    dsimp only at h
    split_ifs at h with hsrc
    obtain ⟨hip, hport⟩ : src.ip = w.addr.ip ∧ src.port = w.addr.port := by
      simpa [not_or] using hsrc
    cases hbuffer : fromBuffer formats (bytes.take w.recvBufSize) with
    | none =>
      rw [hbuffer] at h
      cases h
    | some response =>
      rw [hbuffer] at h
      dsimp only at h
      split_ifs at h with hid
      rw [hrequest] at h
      obtain ⟨hqueries, rfl⟩ := check_eq_ok h
      obtain ⟨hread, hresponse⟩ := fromBuffer_eq_some_iff.mp hbuffer
      refine ⟨bytes, response, ?_, ⟨hread, hresponse, (not_not.mp hid).symm, hqueries⟩, rfl⟩
      obtain ⟨ip, port⟩ := src
      obtain rfl : ip = w.addr.ip := hip
      obtain rfl : port = w.addr.port := hport
      rfl

/-- A datagram of somebody who was not asked, or does not know the id. -/
def forged (formats : MoreData D) (w : Awaited) : Received → Bool
  | .failed _ => false
  | .datagram bytes src =>
    decide (src ≠ w.addr) || (fromBuffer formats (bytes.take w.recvBufSize)).all fun response =>
      decide (response.header.id ≠ w.msgId)

theorem verdict_of_forged {received : Received} (h : w.forged formats received = true) :
    w.verdict formats received = none := by
  cases received with
  | failed code => cases h
  | datagram bytes src =>
    unfold verdict
    dsimp only
    by_cases hsrc : src.ip ≠ w.addr.ip ∨ src.port ≠ w.addr.port
    · exact if_pos hsrc
    rw [if_neg hsrc]
    have hsame : src = w.addr := by
      obtain ⟨hip, hport⟩ : src.ip = w.addr.ip ∧ src.port = w.addr.port := by simpa [not_or] using hsrc
      obtain ⟨ip, port⟩ := src
      obtain rfl : ip = w.addr.ip := hip
      obtain rfl : port = w.addr.port := hport
      rfl
    rw [forged, hsame, decide_eq_false (not_not.mpr rfl), Bool.false_or] at h
    cases hbuffer : fromBuffer formats (bytes.take w.recvBufSize) with
    | none => rfl
    | some response =>
      rw [hbuffer] at h
      exact if_pos (Ne.symm (of_decide_eq_true h))

/-- **Forged datagrams make no difference**: the loop comes to the same without them, wherever they stand. -/
theorem forged_makes_no_difference (w : Awaited) (arrivals : List Received) :
    w.receiveLoop formats (arrivals.filter fun d => !w.forged formats d) = w.receiveLoop formats arrivals := by
  rw [receiveLoop_eq, receiveLoop_eq]
  induction arrivals with
  | nil => rfl
  | cons d arrivals ih =>
    by_cases h : w.forged formats d = true
    · rw [List.filter_cons_of_neg (by simp [h]), ih, List.findSome?_cons, verdict_of_forged h]
    · rw [List.filter_cons_of_pos (by simp [h]), List.findSome?_cons, List.findSome?_cons, ih]

end Awaited

/-- **An answer is one to the question.** It came from the server that was asked, is a response with the id of the
request, and asks nothing that the request did not; what came before it was passed over. -/
theorem answer_is_to_the_question {c : UdpClientStream} {request r : Wire.Message D} {caseRandomization : Bool}
    {originalQuery : Option Query} {now : Option ℕ} {lenSent : Except ℕ ℕ} {arrivals : List Received}
    (hrequest : request.WellFormed formats)
    (h : c.sendMessage formats request caseRandomization originalQuery now lenSent arrivals = some (.ok r)) :
    ∃ bytes before data after response, toVec formats 65535 request = .ok bytes ∧
      arrivals = before ++ .datagram data c.nameServer :: after ∧
      (∀ d ∈ before, (c.awaits request caseRandomization originalQuery bytes).verdict formats d = none) ∧
      (c.awaits request caseRandomization originalQuery bytes).Answers formats (request.queries.map Query.received)
        data response ∧
      r = { response with
        queries := (c.awaits request caseRandomization originalQuery bytes).restore response.queries } := by
  unfold UdpClientStream.sendMessage at h
  split_ifs at h
  · cases h
  · cases h
  cases hbytes : toVec formats 65535 request with
  | error e =>
    rw [hbytes] at h
    cases h
  | ok bytes =>
    rw [hbytes] at h
    have hloop : (c.awaits request caseRandomization originalQuery bytes).receiveLoop formats arrivals =
        some (.ok r) := by
      unfold Awaited.sendSerialMessageInner at h
      cases lenSent with
      | error code => cases h
      | ok len =>
        dsimp only at h
        split_ifs at h
        · cases h
        · exact h
    rw [Awaited.receiveLoop_eq] at hloop
    obtain ⟨before, received, after, harrivals, hverdict, hbefore⟩ := List.findSome?_eq_some_iff.mp hloop
    -- the questions of the request, as they come off its own bytes
    obtain ⟨s, hemit, hs⟩ := toVec_eq_ok hbytes
    obtain ⟨w, -, -, -, -, hreads⟩ := Message.emit_reads hrequest (coherent_new (Nat.le_refl _)) hemit
    have hself : fromVec formats bytes = .ok (request.received w) :=
      fromVec_of_reads (hs ▸ hreads (Agrees.refl _ _ _))
    obtain ⟨data, response, rfl, hanswers, hr⟩ := Awaited.verdict_eq_ok
      (w := c.awaits request caseRandomization originalQuery bytes) hself hverdict
    exact ⟨bytes, before, data, after, response, rfl, harrivals, hbefore, hanswers, hr⟩

/-- The question that `cutBytes` answers. -/
def forAddresses : Wire.Message Empty where
  header := { id := 7 }
  queries := twoAddresses.queries

theorem wellFormed_forAddresses : forAddresses.WellFormed noMore where
  opCode := wellFormed_twoAddresses.opCode
  queries := wellFormed_twoAddresses.queries
  answers r hr := absurd hr List.not_mem_nil
  authorities r hr := absurd hr List.not_mem_nil
  additionals r hr := absurd hr List.not_mem_nil
  options edns hedns := by cases hedns

def server : UdpClientStream := ⟨⟨.v4 0x01010101#32, 53⟩, false⟩

/-- Two datagrams that are not to be taken, and the answer. -/
def datagrams : List Received :=
  [.datagram [] ⟨.v4 0x01010101#32, 53⟩, .datagram cutBytes ⟨.v4 0x01010101#32, 54⟩,
    .datagram cutBytes ⟨.v4 0x01010101#32, 53⟩]

theorem exists_of_bind_isSome {E A : Type} {x : Option (Except E A)} (h : (x.bind Except.toOption).isSome = true) :
    ∃ a, x = some (.ok a) := by
  obtain ⟨a, ha⟩ := Option.isSome_iff_exists.mp h
  obtain ⟨y, rfl, hy⟩ := Option.bind_eq_some_iff.mp ha
  exact ⟨a, congrArg some (eq_ok_of_toOption hy)⟩

theorem answer_is_to_the_question_third : ∃ bytes before data after response,
    toVec noMore 65535 forAddresses = .ok bytes ∧ datagrams = before ++ .datagram data server.nameServer :: after ∧
      (server.awaits forAddresses false none bytes).Answers noMore (forAddresses.queries.map Query.received) data
        response := by
  obtain ⟨r, h⟩ : ∃ r, server.sendMessage noMore forAddresses false none (some 0) (.ok 19) datagrams = some (.ok r) :=
    exists_of_bind_isSome (by decide +kernel)
  obtain ⟨bytes, before, data, after, response, hbytes, harrivals, -, hanswers, -⟩ :=
    answer_is_to_the_question wellFormed_forAddresses h
  exact ⟨bytes, before, data, after, response, hbytes, harrivals, hanswers⟩

end Upstream
end SmartDns
