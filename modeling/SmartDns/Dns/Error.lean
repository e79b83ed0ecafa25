/-
# Lookup errors

`LookupError` of `dns_error.rs`. The resolver library wraps an upstream response
without answers into `NoRecordsFound`, with the response's code and its SOA record
if it has one; `as_soa` turns those that are definite negatives back into responses.

Key definitions: `DnsError`, `LookupResult`, `DnsError.asSoa`.
-/
import SmartDns.Dns.Response
import SmartDns.Lib.Reader

namespace SmartDns
namespace Dns

open Lib

/-- A name on the wire: each label behind its length, and an empty one. -/
def wireName (labels : List String) : List UInt8 :=
  labels.flatMap (fun l => UInt8.ofNat (utf8 l).length :: utf8 l) ++ [0]

/-- A record of type SOA. -/
structure SoaRecord where
  name : Name
  dnsClass : DNSClass
  ttl : ℕ
  minimum : ℕ
  rest : List UInt8

def SoaRecord.toRecord (r : SoaRecord) : Record := ⟨r.name, r.dnsClass, r.ttl, .soa r.minimum r.rest⟩

@[simp] theorem SoaRecord.toRecord_recordType (r : SoaRecord) : r.toRecord.recordType = .SOA := rfl

/-- The serial number is the build's; the rest of the wire value follows it. -/
def soaRest (mname rname : List String) (serial refresh retry expire : ℕ) : List UInt8 :=
  wireName mname ++ wireName rname ++ toBe 4 serial ++ toBe 4 refresh ++ toBe 4 retry ++ toBe 4 expire

/-- `forge_soa_record`: the SOA record of a negative answer made here; its minimum is its TTL. -/
def forgeSoaRecord (serial : ℕ) (name : Name) (ttl : ℕ) : SoaRecord where
  name
  dnsClass := .IN
  ttl
  minimum := ttl
  rest := soaRest ["a", "root-servers", "net"] ["admin", "smartdns", "local"] serial 1800 900 259200

/-- `DefaultSOA::default_soa`. -/
def defaultSoa (serial : ℕ) (name : Name) (ttl : ℕ) : SoaRecord where
  name
  dnsClass := .IN
  ttl
  minimum := 86400
  rest := soaRest ["a", "gtld-servers", "net"] ["nstld", "verisign-grs", "com"] serial 1800 900 604800

/-- `RData::default_soa`. -/
def RData.defaultSoa (serial : ℕ) : RData := (Dns.defaultSoa serial .root 0).toRecord.data

/-- `noRecordsFound` is the `Proto` error of that kind; the other kinds are under `proto`. -/
inductive DnsError
  | nameExists
  | responseCode (code : ResponseCode)
  | noRecordsFound (soa : Option SoaRecord) (code : ResponseCode)
  | proto (e : ProtoError)
  | io (message : String)

namespace DnsError

def isNxDomain : DnsError → Bool
  | .responseCode code => code = .nxDomain
  | .noRecordsFound _ code => code = .nxDomain
  | _ => false

/-- A code that was given on purpose, such as the refusal of an access list. -/
def explicitResponseCode : DnsError → Option ResponseCode
  | .responseCode code => some code
  | _ => none

/-- `no_records_found`: what a chain without an answer gives. -/
def noRecordsFoundFor (serial : ℕ) (query : Query) (ttl : ℕ) : DnsError :=
  .noRecordsFound (some (defaultSoa serial query.name ttl)) .noError

end DnsError

/-- What a lookup gives. -/
abbrev LookupResult : Type := Except DnsError DnsResponse

def DnsResponse.newWithDeadline (query : Query) (records : List Record) (validUntil : ℤ) : DnsResponse where
  message := { queries := [query], answers := records }
  validUntil

/-- `new_with_max_ttl`. -/
def DnsResponse.newWithMaxTtl (now : ℤ) (query : Query) (records : List Record) : DnsResponse where
  message := { queries := [query], answers := records }
  validUntil := now + fromSecs MAX_TTL

/-- `from_rdata`. -/
def DnsResponse.fromRdata (now : ℤ) (query : Query) (data : RData) : DnsResponse :=
  newWithMaxTtl now query [⟨query.name, .IN, MAX_TTL, data⟩]

def DnsResponse.addAuthority (r : DnsResponse) (record : Record) : DnsResponse :=
  { r with message := { r.message with authorities := r.message.authorities ++ [record] } }

def DnsResponse.setResponseCode (r : DnsResponse) (code : ResponseCode) : DnsResponse :=
  { r with message := { r.message with responseCode := code } }

/-- The response that was wrapped, where its code is NOERROR or NXDOMAIN and it had an SOA record. -/
def DnsError.asSoa (now : ℤ) (query : Query) : DnsError → Option DnsResponse
  | .noRecordsFound (some record) code =>
    if code = .noError ∨ code = .nxDomain then
      some (((DnsResponse.newWithMaxTtl now query []).addAuthority record.toRecord).setResponseCode code)
    else none
  | _ => none

end Dns
end SmartDns
