/-
# Codes and bits of the wire

The numbers that stand for record types, classes, operations and response codes
(`proto/src/rr/record_type.rs`, `dns_class.rs`, `proto/src/op/op_code.rs`, `response_code.rs`) and the two
bytes of flags of a header. Every number is the code of what it is read as; what is read back from its code
is `Canonical`.

Key definitions: `RecordType.ofCode`, `RecordType.toCode`, `DNSClass.ofCode`, `DNSClass.toCode`, `Header.flagBytes`.
Key theorems: `RecordType.toCode_ofCode`, `DNSClass.toCode_ofCode`, `ResponseCode.fromParts_high_low`.
-/
import SmartDns.Dns.Serial

namespace SmartDns
namespace Dns

open Lib

/-! ### Record types -/

namespace RecordType

/-- `From<u16>`. -/
def ofCode (value : UInt16) : RecordType :=
  match value.toNat with
  | 1 => A
  | 28 => AAAA
  | 65280 => ANAME
  | 255 => ANY
  | 251 => IXFR
  | 252 => AXFR
  | 257 => CAA
  | 59 => CDS
  | 60 => CDNSKEY
  | 37 => CERT
  | 5 => CNAME
  | 62 => CSYNC
  | 48 => DNSKEY
  | 43 => DS
  | 13 => HINFO
  | 65 => HTTPS
  | 25 => KEY
  | 15 => MX
  | 35 => NAPTR
  | 2 => NS
  | 47 => NSEC
  | 50 => NSEC3
  | 51 => NSEC3PARAM
  | 10 => NULL
  | 61 => OPENPGPKEY
  | 41 => OPT
  | 12 => PTR
  | 46 => RRSIG
  | 24 => SIG
  | 6 => SOA
  | 33 => SRV
  | 44 => SSHFP
  | 64 => SVCB
  | 52 => TLSA
  | 250 => TSIG
  | 16 => TXT
  | 0 => ZERO
  | _ => unknown value

/-- `From<RecordType> for u16`. -/
def toCode : RecordType → UInt16
  | A => 1
  | AAAA => 28
  | ANAME => 65280
  | ANY => 255
  | AXFR => 252
  | CAA => 257
  | CDNSKEY => 60
  | CERT => 37
  | CDS => 59
  | CNAME => 5
  | CSYNC => 62
  | DNSKEY => 48
  | DS => 43
  | HINFO => 13
  | HTTPS => 65
  | KEY => 25
  | IXFR => 251
  | MX => 15
  | NAPTR => 35
  | NS => 2
  | NSEC => 47
  | NSEC3 => 50
  | NSEC3PARAM => 51
  | NULL => 10
  | OPENPGPKEY => 61
  | OPT => 41
  | PTR => 12
  | RRSIG => 46
  | SIG => 24
  | SOA => 6
  | SRV => 33
  | SSHFP => 44
  | SVCB => 64
  | TLSA => 52
  | TSIG => 250
  | TXT => 16
  | ZERO => 0
  | unknown code => code

/-- The type is what its code is read as. -/
def Canonical (t : RecordType) : Prop := ofCode t.toCode = t

instance (t : RecordType) : Decidable t.Canonical := inferInstanceAs (Decidable (_ = _))

theorem toCode_ofCode (value : UInt16) : (ofCode value).toCode = value := by
  unfold ofCode
  split <;> first | rfl | (rename_i h; exact UInt16.toNat_inj.mp h.symm)

theorem canonical_ofCode (value : UInt16) : (ofCode value).Canonical := congrArg ofCode (toCode_ofCode value)

end RecordType

/-! ### Classes -/

namespace DNSClass

/-- `From<u16>`. -/
def ofCode (value : UInt16) : DNSClass :=
  match value.toNat with
  | 1 => IN
  | 3 => CH
  | 4 => HS
  | 254 => NONE
  | 255 => ANY
  | _ => unknown value

/-- `value.max(512)`. -/
def atLeast512 (value : UInt16) : UInt16 := if value < 512 then 512 else value

/-- `From<DNSClass> for u16`. -/
def toCode : DNSClass → UInt16
  | IN => 1
  | CH => 3
  | HS => 4
  | NONE => 254
  | ANY => 255
  | OPT maxPayload => atLeast512 maxPayload
  | unknown code => code

def forOpt (value : UInt16) : DNSClass := OPT (atLeast512 value)

theorem atLeast512_atLeast512 (value : UInt16) : atLeast512 (atLeast512 value) = atLeast512 value := by
  by_cases h : value < 512 <;> simp [atLeast512, h]

theorem forOpt_toCode_forOpt (value : UInt16) : forOpt (forOpt value).toCode = forOpt value :=
  congrArg OPT ((atLeast512_atLeast512 _).trans (atLeast512_atLeast512 _))

/-- The class is what its code is read as. -/
def Canonical (c : DNSClass) : Prop := ofCode c.toCode = c

instance (c : DNSClass) : Decidable c.Canonical := inferInstanceAs (Decidable (_ = _))

theorem toCode_ofCode (value : UInt16) : (ofCode value).toCode = value := by
  unfold ofCode
  split <;> first | rfl | (rename_i h; exact UInt16.toNat_inj.mp h.symm)

theorem canonical_ofCode (value : UInt16) : (ofCode value).Canonical := congrArg ofCode (toCode_ofCode value)

end DNSClass

/-! ### Operations and response codes -/

/-- `From<OpCode> for u8`. -/
def OpCode.toCode : OpCode → UInt8
  | .query => 0
  | .status => 2
  | .notify => 4
  | .update => 5
  | .unknown opcode => opcode

/-- The operation is what its code is read as, and the code has four bits. -/
def OpCode.Canonical (o : OpCode) : Prop := o.toCode < 16 ∧ OpCode.fromU8 o.toCode = o

namespace ResponseCode

/-- The eight bits above the four of the header. -/
def high (code : ResponseCode) : UInt8 := ((code.toCode &&& 0x0FF0) >>> 4).toUInt8

/-- What is left of a code whose upper bits do not go over the wire. -/
def masked (code : ResponseCode) (mask : UInt16) : ResponseCode := ofCode (code.toCode &&& mask)

theorem toCode_ofCode (code : UInt16) : (ofCode code).toCode = code := by
  unfold ofCode
  split_ifs with hzero hthree
  · exact hzero.symm
  · exact hthree.symm
  · rfl

theorem toNat_low (code : ResponseCode) : code.low.toNat = code.toCode.toNat % 16 := by
  have hmask : code.toCode.toNat &&& 0x000F = code.toCode.toNat % 2 ^ 4 := Nat.and_two_pow_sub_one_eq_mod _ 4
  unfold low
  rw [UInt16.toNat_toUInt8, UInt16.toNat_and]
  show (code.toCode.toNat &&& 0x000F) % 256 = _
  rw [hmask]
  omega

theorem fromLow_low (code : ResponseCode) : fromLow code.low = code.masked 0x000F := by
  unfold fromLow masked
  congr 1
  apply UInt16.toNat_inj.mp
  rw [UInt16.toNat_and, UInt16.toNat_and, UInt8.toNat_toUInt16, toNat_low]
  show code.toCode.toNat % 16 &&& 2 ^ 4 - 1 = code.toCode.toNat &&& 2 ^ 4 - 1
  rw [Nat.and_two_pow_sub_one_eq_mod, Nat.and_two_pow_sub_one_eq_mod]
  omega

theorem toNat_high (code : ResponseCode) : code.high.toNat = code.toCode.toNat / 16 % 256 := by
  unfold high
  rw [UInt16.toNat_toUInt8, UInt16.toNat_shiftRight, UInt16.toNat_and]
  show (code.toCode.toNat &&& 0x0FF0) >>> 4 % 256 = _
  rw [Nat.shiftRight_and_distrib, Nat.shiftRight_eq_div_pow]
  have hmask : code.toCode.toNat / 2 ^ 4 &&& 0x0FF0 >>> 4 = code.toCode.toNat / 2 ^ 4 % 2 ^ 8 :=
    Nat.and_two_pow_sub_one_eq_mod _ 8
  rw [hmask]
  omega

theorem toNat_fromParts (high low : UInt8) :
    (fromParts high low).toCode.toNat = high.toNat * 16 + low.toNat % 16 := by
  have hhigh := high.toNat_lt
  unfold fromParts
  rw [toCode_ofCode, UInt16.toNat_or, UInt16.toNat_shiftLeft, UInt16.toNat_and, UInt8.toNat_toUInt16,
    UInt8.toNat_toUInt16]
  show high.toNat <<< 4 % 2 ^ 16 ||| low.toNat &&& 2 ^ 4 - 1 = _
  rw [Nat.and_two_pow_sub_one_eq_mod, Nat.mod_eq_of_lt (by rw [Nat.shiftLeft_eq]; omega),
    ← Nat.shiftLeft_add_eq_or_of_lt (by omega), Nat.shiftLeft_eq]

/-- **The header and the EDNS record carry the low twelve bits of a response code.** -/
theorem fromParts_high_low (code : ResponseCode) : fromParts code.high code.low = code.masked 0x0FFF := by
  have hcode : (fromParts code.high code.low).toCode = code.toCode &&& 0x0FFF := by
    apply UInt16.toNat_inj.mp
    rw [toNat_fromParts, toNat_high, toNat_low, UInt16.toNat_and]
    show _ = code.toCode.toNat &&& 2 ^ 12 - 1
    rw [Nat.and_two_pow_sub_one_eq_mod]
    omega
  unfold fromParts at hcode ⊢
  rw [toCode_ofCode] at hcode
  rw [hcode]
  rfl

theorem high_fromParts (high low : UInt8) : (fromParts high low).high = high := by
  have := high.toNat_lt
  apply UInt8.toNat_inj.mp
  rw [toNat_high, toNat_fromParts]
  omega

/-- A code of these parts has no bit that does not go over the wire. -/
theorem masked_fromParts (high low : UInt8) : (fromParts high low).masked 0x0FFF = fromParts high low := by
  have := high.toNat_lt
  have hcode : (fromParts high low).toCode &&& 0x0FFF = (fromParts high low).toCode := by
    apply UInt16.toNat_inj.mp
    rw [UInt16.toNat_and, toNat_fromParts]
    refine (Nat.and_two_pow_sub_one_eq_mod _ 12).trans (Nat.mod_eq_of_lt ?_)
    omega
  unfold masked
  rw [hcode]
  unfold fromParts
  rw [toCode_ofCode]

end ResponseCode

/-! ### The header -/

namespace Header

/-- The bit where the flag is set. -/
def flag (set : Bool) (bit : UInt8) : UInt8 := if set then bit else 0

/-- The byte with the type, the operation and three flags. -/
def qOpcdATR (h : Header) : UInt8 :=
  flag (h.messageType = .response) 0x80 ||| h.opCode.toCode <<< 3 ||| flag h.authoritative 0x4 |||
    flag h.truncation 0x2 ||| flag h.recursionDesired 0x1

/-- The byte with three more flags and the low bits of the response code. -/
def rZAdCdRcod (h : Header) : UInt8 :=
  flag h.recursionAvailable 0b10000000 ||| flag h.authenticData 0b00100000 |||
    flag h.checkingDisabled 0b00010000 ||| h.responseCode.low

/-- The twelve bytes of a header. -/
def bytes (h : Header) : List UInt8 :=
  toBe 2 h.id.toNat ++ ([h.qOpcdATR] ++ ([h.rZAdCdRcod] ++ (toBe 2 h.queryCount ++ (toBe 2 h.answerCount ++
    (toBe 2 h.authorityCount ++ toBe 2 h.additionalCount)))))

/-- The counts are numbers of two bytes. -/
structure Counted (h : Header) : Prop where
  queries : h.queryCount < 65536
  answers : h.answerCount < 65536
  authorities : h.authorityCount < 65536
  additionals : h.additionalCount < 65536

theorem frames_readU16 (v : ℕ) : Frames readU16 (toBe 2 v) (UInt16.ofNat v) := by
  have := (frames_readBe ProtoError.insufficientBytes 2 v).map UInt16.ofNat
  have hv : UInt16.ofNat (v % 256 ^ 2) = UInt16.ofNat v := by
    apply UInt16.toNat_inj.mp
    simp
  rwa [hv] at this

theorem frames_pop (b : UInt8) : Frames pop [b] b := by
  have hb : toBe 1 b.toNat = [b] := by
    simp [toBe]
  have := (frames_readBe ProtoError.insufficientBytes 1 b.toNat).map UInt8.ofNat
  rw [hb] at this
  have hv : UInt8.ofNat (b.toNat % 256 ^ 1) = b := by
    rw [Nat.mod_eq_of_lt (by simpa using b.toNat_lt)]
    simp
  rwa [hv] at this

/-- The flags of the third byte, whatever the operation is. -/
theorem flags_of_lt {o : UInt8} (ho : o < 16) (q a t r : Bool) (b : UInt8)
    (hb : b = flag q 0x80 ||| o <<< 3 ||| flag a 0x4 ||| flag t 0x2 ||| flag r 0x1) :
    decide (0b10000000 &&& b = 0b10000000) = q ∧ (0b01111000 &&& b) >>> 3 = o ∧
      decide (0b00000100 &&& b = 0b00000100) = a ∧ decide (0b00000010 &&& b = 0b00000010) = t ∧
        decide (0b00000001 &&& b = 0b00000001) = r := by
  have hall : ∀ n : Fin 16, ∀ q a t r : Bool,
      let b := flag q 0x80 ||| UInt8.ofNat n <<< 3 ||| flag a 0x4 ||| flag t 0x2 ||| flag r 0x1
      decide (0b10000000 &&& b = 0b10000000) = q ∧ (0b01111000 &&& b) >>> 3 = UInt8.ofNat n ∧
        decide (0b00000100 &&& b = 0b00000100) = a ∧ decide (0b00000010 &&& b = 0b00000010) = t ∧
          decide (0b00000001 &&& b = 0b00000001) = r := by
    decide +kernel
  have := hall ⟨o.toNat, ho⟩ q a t r
  rw [UInt8.ofNat_toNat, ← hb] at this
  exact this

/-- The flags of the fourth byte, whatever the code is. -/
theorem flags_of_low {c : UInt8} (hc : c < 16) (a d k : Bool) (b : UInt8)
    (hb : b = flag a 0b10000000 ||| flag d 0b00100000 ||| flag k 0b00010000 ||| c) :
    decide (0b10000000 &&& b = 0b10000000) = a ∧ decide (0b00100000 &&& b = 0b00100000) = d ∧
      decide (0b00010000 &&& b = 0b00010000) = k ∧ 0b00001111 &&& b = c := by
  have hall : ∀ n : Fin 16, ∀ a d k : Bool,
      let b := flag a 0b10000000 ||| flag d 0b00100000 ||| flag k 0b00010000 ||| UInt8.ofNat n
      decide (0b10000000 &&& b = 0b10000000) = a ∧ decide (0b00100000 &&& b = 0b00100000) = d ∧
        decide (0b00010000 &&& b = 0b00010000) = k ∧ 0b00001111 &&& b = UInt8.ofNat n := by
    decide +kernel
  have := hall ⟨c.toNat, hc⟩ a d k
  rw [UInt8.ofNat_toNat, ← hb] at this
  exact this

theorem low_lt (code : ResponseCode) : code.low < 16 := by
  show code.low.toNat < 16
  rw [ResponseCode.toNat_low]
  omega

/-- **A header is read back** with the low four bits of its response code. -/
theorem frames_read {h : Header} (ho : h.opCode.Canonical) (hc : h.Counted) :
    Frames Header.read h.bytes { h with responseCode := h.responseCode.masked 0x000F } := by
  obtain ⟨hq, hop, ha, ht, hr⟩ := flags_of_lt ho.1 (decide (h.messageType = .response)) h.authoritative h.truncation
    h.recursionDesired h.qOpcdATR rfl
  obtain ⟨hra, had, hcd, hlow⟩ := flags_of_low (low_lt h.responseCode) h.recursionAvailable h.authenticData
    h.checkingDisabled h.rZAdCdRcod rfl
  have hread : Frames Header.read h.bytes _ :=
    (frames_readU16 h.id.toNat).bind <| (frames_pop h.qOpcdATR).bind <| (frames_pop h.rZAdCdRcod).bind <|
      (frames_readU16 h.queryCount).bind <| (frames_readU16 h.answerCount).bind <|
        (frames_readU16 h.authorityCount).bind <| (frames_readU16 h.additionalCount).map _
  have htype : (if 0b10000000 &&& h.qOpcdATR = 0b10000000 then MessageType.response else .query) = h.messageType := by
    have hq := decide_eq_decide.mp hq
    simp only [hq]
    cases h.messageType <;> rfl
  have count {n : ℕ} (hn : n < 65536) : (UInt16.ofNat n).toNat = n := by
    rw [UInt16.toNat_ofNat']
    exact Nat.mod_eq_of_lt hn
  convert hread using 1
  rw [hop, ho.2, hlow, ha, ht, hr, hra, had, hcd, count hc.queries, count hc.answers, count hc.authorities,
    count hc.additionals, UInt16.ofNat_toNat, ResponseCode.fromLow_low, htype]

end Header

end Dns
end SmartDns
