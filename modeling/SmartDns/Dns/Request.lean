/-
# Headers and requests

The header of a message (`proto/src/op/header.rs`) and `DnsRequest` of `dns.rs`: the
message that came, the address it came from, the address a trusted proxy says it came
from, and the EDNS data the code looks at.

Key definitions: `Header`, `DnsRequest`.
-/
import SmartDns.Dns.Ip
import SmartDns.Dns.Message

namespace SmartDns
namespace Dns

inductive MessageType
  | query
  | response
deriving DecidableEq

inductive OpCode
  | query
  | status
  | notify
  | update
  | unknown (code : UInt8)
deriving DecidableEq

inductive Protocol
  | udp
  | tcp
  | tls
  | https
  | h3
  | quic
deriving DecidableEq

namespace ResponseCode

def formErr : ResponseCode := .other 1

def servFail : ResponseCode := .other 2

def notImp : ResponseCode := .other 4

def refused : ResponseCode := .other 5

end ResponseCode

structure Header where
  id : UInt16
  messageType : MessageType := .query
  opCode : OpCode := .query
  authoritative : Bool := false
  truncation : Bool := false
  recursionDesired : Bool := false
  recursionAvailable : Bool := false
  authenticData : Bool := false
  checkingDisabled : Bool := false
  responseCode : ResponseCode := .noError
  queryCount : ℕ := 0
  answerCount : ℕ := 0
  authorityCount : ℕ := 0
  additionalCount : ℕ := 0
deriving DecidableEq

/-- `response_from_request`. -/
def Header.responseFromRequest (header : Header) : Header where
  id := header.id
  messageType := .response
  opCode := header.opCode
  recursionDesired := header.recursionDesired
  checkingDisabled := header.checkingDisabled

/-- A request; its query is the first question of its message, until a CNAME rule puts another in its place. -/
structure DnsRequest where
  header : Header
  queries : List Query
  query : Query := queries.head?.getD default
  src : IpAddr
  protocol : Protocol := .udp
  forwardedClient : Option IpAddr := none
  maxPayload : Option UInt16 := none
  subnet : Option ClientSubnet := none

namespace DnsRequest

/-- The query, as it was spelled. -/
def original (req : DnsRequest) : Query := req.query

/-- The name of the query in lower case: a `LowerQuery` keeps both. -/
def name (req : DnsRequest) : Name := req.query.name.toLowercase

/-- `with_cname`: the message stays. -/
def withCname (req : DnsRequest) (name : Name) : DnsRequest :=
  { req with query := { name, queryType := req.original.queryType, queryClass := .IN } }

def setQueryType (req : DnsRequest) (queryType : RecordType) : DnsRequest :=
  { req with query := { req.query with queryType } }

end DnsRequest

end Dns
end SmartDns
