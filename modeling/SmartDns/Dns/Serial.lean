/-
# Messages on the wire

`Header::read` and the part of `Message::read` that the header decides (`proto/src/op`),
and `SerialMessage` of `dns.rs`: a message as it goes through the server, parsed or as
the bytes that came, with the address and the protocol it came by.

The questions and records behind a header are read by code too large to stand here
(`BodyReader`); a message that can be read has the header its bytes begin with, but for
the response code, which its EDNS record extends (`SerialMessage.parse_header`).

Key definitions: `Header.read`, `OpMessage`, `SerialMessage`, `SerialMessage.parse`,
`SerialMessage.header?`.
Key theorems: `Header.read_eq_ok_iff`, `SerialMessage.parse_header`.
-/
import SmartDns.Dns.Request
import SmartDns.Lib.Reader

namespace SmartDns
namespace Dns

open Lib

/-- `from_u8`. -/
def OpCode.fromU8 (value : UInt8) : OpCode :=
  if value = 0 then .query
  else if value = 2 then .status
  else if value = 4 then .notify
  else if value = 5 then .update
  else .unknown value

namespace ResponseCode

/-- `From<u16>`. -/
def ofCode (code : UInt16) : ResponseCode :=
  if code = 0 then .noError else if code = 3 then .nxDomain else .other code

def toCode : ResponseCode → UInt16
  | .noError => 0
  | .nxDomain => 3
  | .other code => code

def fromLow (low : UInt8) : ResponseCode := ofCode (low.toUInt16 &&& 0x000F)

/-- The four bits that stand in the header. -/
def low (code : ResponseCode) : UInt8 := (code.toCode &&& 0x000F).toUInt8

/-- The code of the high bits of an EDNS record and the low ones of the header. -/
def fromParts (high low : UInt8) : ResponseCode := ofCode (high.toUInt16 <<< 4 ||| low.toUInt16 &&& 0x000F)

end ResponseCode

/-- `read_u16`. -/
def readU16 : Reader UInt8 ProtoError UInt16 := do
  let value ← readBe .insufficientBytes 2
  return UInt16.ofNat value

/-- The next byte. -/
def pop : Reader UInt8 ProtoError UInt8 := do
  let value ← readBe .insufficientBytes 1
  return UInt8.ofNat value

def Header.read : Reader UInt8 ProtoError Header := do
  let id ← readU16
  let qOpcdATR ← pop
  let rZAdCdRcod ← pop
  let queryCount ← readU16
  let answerCount ← readU16
  let authorityCount ← readU16
  let additionalCount ← readU16
  return {
    id
    messageType := if 0b10000000 &&& qOpcdATR = 0b10000000 then .response else .query
    opCode := .fromU8 ((0b01111000 &&& qOpcdATR) >>> 3)
    authoritative := 0b00000100 &&& qOpcdATR = 0b00000100
    truncation := 0b00000010 &&& qOpcdATR = 0b00000010
    recursionDesired := 0b00000001 &&& qOpcdATR = 0b00000001
    recursionAvailable := 0b10000000 &&& rZAdCdRcod = 0b10000000
    authenticData := 0b00100000 &&& rZAdCdRcod = 0b00100000
    checkingDisabled := 0b00010000 &&& rZAdCdRcod = 0b00010000
    responseCode := .fromLow (0b00001111 &&& rZAdCdRcod)
    queryCount := queryCount.toNat
    answerCount := answerCount.toNat
    authorityCount := authorityCount.toNat
    additionalCount := additionalCount.toNat }

/-- The reader takes `n` bytes from every input that has them, and fails on every other. -/
def Takes {A : Type} (r : Reader UInt8 ProtoError A) (n : ℕ) : Prop :=
  ∀ d, (n ≤ d.length → ∃ a, r d = .ok (a, d.drop n)) ∧ (d.length < n → ∃ e, r d = .error e)

theorem Takes.bind {A A' : Type} {r : Reader UInt8 ProtoError A} {f : A → Reader UInt8 ProtoError A'} {n k : ℕ}
    (h : Takes r n) (h' : ∀ a, Takes (f a) k) : Takes (r >>= f) (n + k) := by
  intro d
  have run : (r >>= f) d = (r d).bind fun p => f p.1 p.2 := rfl
  constructor
  · intro hd
    obtain ⟨a, ha⟩ := (h d).1 (by omega)
    obtain ⟨a', ha'⟩ := (h' a (d.drop n)).1 (by rw [List.length_drop]; omega)
    refine ⟨a', ?_⟩
    rw [run, ha, ← List.drop_drop]
    exact ha'
  · intro hd
    rw [run]
    by_cases hn : n ≤ d.length
    · obtain ⟨a, ha⟩ := (h d).1 hn
      rw [ha]
      exact (h' a (d.drop n)).2 (by rw [List.length_drop]; omega)
    · obtain ⟨e, he⟩ := (h d).2 (by omega)
      rw [he]
      exact ⟨e, rfl⟩

theorem takes_pure {A : Type} (a : A) : Takes (pure a) 0 :=
  fun _ => ⟨fun _ => ⟨a, rfl⟩, fun h => absurd h (Nat.not_lt_zero _)⟩

theorem takes_readSlice (n : ℕ) : Takes (readSlice .insufficientBytes n) n := by
  intro d
  unfold readSlice
  constructor
  · intro h
    rw [if_neg (by omega)]
    exact ⟨_, rfl⟩
  · intro h
    rw [if_pos (by omega)]
    exact ⟨_, rfl⟩

theorem takes_readU16 : Takes readU16 2 :=
  ((takes_readSlice 2).bind fun _ => takes_pure _).bind fun _ => takes_pure _

theorem takes_pop : Takes pop 1 :=
  ((takes_readSlice 1).bind fun _ => takes_pure _).bind fun _ => takes_pure _

theorem Header.takes_read : Takes Header.read 12 :=
  takes_readU16.bind fun _ => takes_pop.bind fun _ => takes_pop.bind fun _ => takes_readU16.bind fun _ =>
    takes_readU16.bind fun _ => takes_readU16.bind fun _ => takes_readU16.bind fun _ => takes_pure _

/-- **A header can be read off exactly the inputs of twelve bytes or more.** -/
theorem Header.read_eq_ok_iff (d : List UInt8) : (∃ p, Header.read d = .ok p) ↔ 12 ≤ d.length := by
  constructor
  · rintro ⟨p, hp⟩
    by_contra h
    obtain ⟨e, he⟩ := (Header.takes_read d).2 (by omega)
    rw [he] at hp
    cases hp
  · intro h
    obtain ⟨a, ha⟩ := (Header.takes_read d).1 h
    exact ⟨_, ha⟩

/-- An EDNS record. -/
structure Edns where
  rcodeHigh : UInt8 := 0
  dnssecOk : Bool := false
  maxPayload : UInt16 := 512
  subnet : Option ClientSubnet := none

inductive MessageSignature
  | unsigned
  | sig0 (record : Record)
  | tsig (record : Record)

/-- `op::Message`, whole. -/
structure OpMessage where
  header : Header
  queries : List Query := []
  answers : List Record := []
  authorities : List Record := []
  additionals : List Record := []
  signature : MessageSignature := .unsigned
  edns : Option Edns := none

namespace OpMessage

/-- `Message::query`, with the id that is drawn for it. -/
def query (drawn : UInt16) : OpMessage where
  header := { id := drawn }

def toResponse (m : OpMessage) : OpMessage :=
  { m with header := { m.header with messageType := .response } }

def setResponseCode (m : OpMessage) (code : ResponseCode) : OpMessage :=
  { m with header := { m.header with responseCode := code } }

def setHeader (m : OpMessage) (header : Header) : OpMessage := { m with header }

def setCheckingDisabled (m : OpMessage) (checkingDisabled : Bool) : OpMessage :=
  { m with header := { m.header with checkingDisabled } }

def setEdns (m : OpMessage) (edns : Edns) : OpMessage := { m with edns := some edns }

def addQuery (m : OpMessage) (query : Query) : OpMessage := { m with queries := m.queries ++ [query] }

/-- Each question is added in turn. -/
def addQueries (m : OpMessage) (queries : List Query) : OpMessage := queries.foldl addQuery m

theorem addQueries_eq (m : OpMessage) (queries : List Query) :
    m.addQueries queries = { m with queries := m.queries ++ queries } := by
  induction queries generalizing m with
  | nil => rw [List.append_nil]; rfl
  | cons q qs ih =>
    have step : m.addQueries (q :: qs) = (m.addQuery q).addQueries qs := rfl
    rw [step, ih, addQuery, List.append_assoc, List.singleton_append]

end OpMessage

/-- What stands behind the header of a message. -/
structure Body where
  queries : List Query := []
  answers : List Record := []
  authorities : List Record := []
  additionals : List Record := []
  signature : MessageSignature := .unsigned
  edns : Option Edns := none

/-- The reader of what stands behind a header; names may point back into the whole message. -/
abbrev BodyReader : Type := List UInt8 → Header → Option Body

/-- `merge_response_code`. -/
def Header.mergeResponseCode (header : Header) (high : UInt8) : Header :=
  { header with responseCode := .fromParts high header.responseCode.low }

/-- `Message::from_vec`; what it fails with is not looked at. -/
def OpMessage.fromVec (readBody : BodyReader) (bytes : List UInt8) : Option OpMessage :=
  match Header.read bytes with
  | .error _ => none
  | .ok (header, _) =>
    (readBody bytes header).map fun body =>
      { header := match body.edns with
          | some edns => header.mergeResponseCode edns.rcodeHigh
          | none => header
        queries := body.queries
        answers := body.answers
        authorities := body.authorities
        additionals := body.additionals
        signature := body.signature
        edns := body.edns }

structure SocketAddr where
  ip : IpAddr
  port : UInt16
deriving DecidableEq

/-- A message with the address and the protocol it came by, and the client that a trusted proxy
names. -/
inductive SerialMessage
  | raw (message : OpMessage) (addr : SocketAddr) (protocol : Protocol) (grouping : Option SocketAddr := none)
  | bytes (data : List UInt8) (addr : SocketAddr) (protocol : Protocol) (grouping : Option SocketAddr := none)

namespace SerialMessage

def binary (data : List UInt8) (addr : SocketAddr) (protocol : Protocol) : SerialMessage :=
  .bytes data addr protocol

def addr : SerialMessage → SocketAddr
  | raw _ addr _ _ => addr
  | bytes _ addr _ _ => addr

def protocol : SerialMessage → Protocol
  | raw _ _ protocol _ => protocol
  | bytes _ _ protocol _ => protocol

def groupingAddr : SerialMessage → Option SocketAddr
  | raw _ _ _ grouping => grouping
  | bytes _ _ _ grouping => grouping

def withGroupingAddr (grouping : SocketAddr) : SerialMessage → SerialMessage
  | raw message addr protocol _ => .raw message addr protocol (some grouping)
  | bytes data addr protocol _ => .bytes data addr protocol (some grouping)

/-- `TryFrom<SerialMessage> for Message`. -/
def parse (readBody : BodyReader) : SerialMessage → Option OpMessage
  | raw message _ _ _ => some message
  | bytes data _ _ _ => OpMessage.fromVec readBody data

/-- The header, where it can be read. -/
def header? : SerialMessage → Option Header
  | raw message _ _ _ => some message.header
  | bytes data _ _ _ =>
    match Header.read data with
    | .ok (header, _) => some header
    | .error _ => none

/-- A message that can be parsed has the header it begins with, but for the response code. -/
theorem parse_header {readBody : BodyReader} {m : SerialMessage} {parsed : OpMessage}
    (h : m.parse readBody = some parsed) :
    ∃ header, m.header? = some header ∧ parsed.header.id = header.id ∧
      parsed.header.messageType = header.messageType ∧ parsed.header.opCode = header.opCode := by
  cases m with
  | raw message a p g =>
    cases h
    exact ⟨parsed.header, rfl, rfl, rfl, rfl⟩
  | bytes data a p g =>
    have h : OpMessage.fromVec readBody data = some parsed := h
    cases hread : Header.read data with
    | error e =>
      rw [OpMessage.fromVec, hread] at h
      cases h
    | ok p =>
      rw [OpMessage.fromVec, hread] at h
      obtain ⟨body, -, rfl⟩ := Option.map_eq_some_iff.mp h
      refine ⟨p.1, by rw [header?, hread], ?_⟩
      cases body.edns <;> exact ⟨rfl, rfl, rfl⟩

end SerialMessage

/-- `DnsRequest::new`, with the client that a proxy names. -/
def DnsRequest.ofMessage (message : OpMessage) (src : SocketAddr) (protocol : Protocol)
    (forwardedClient : Option IpAddr) : DnsRequest where
  header := message.header
  queries := message.queries
  src := src.ip
  protocol
  forwardedClient
  maxPayload := message.edns.map (·.maxPayload)
  subnet := message.edns.bind (·.subnet)

/-- `TryFrom<SerialMessage> for DnsRequest`. -/
def DnsRequest.tryFrom (readBody : BodyReader) (m : SerialMessage) : Option DnsRequest :=
  (m.parse readBody).map fun message => .ofMessage message m.addr m.protocol (m.groupingAddr.map (·.ip))

end Dns
end SmartDns
