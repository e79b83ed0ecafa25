/-
# Questions, records and the EDNS record

`Query` and `Record` of `proto/src/op/query.rs` and `proto/src/rr/resource.rs` on the wire, and `Edns` of
`proto/src/op/edns.rs`, which travels as a record: its time to live holds the upper bits of the response
code, the version and the flags, and its class the payload that can be taken.

The top bit of a class is a flag of multicast DNS. The data of a record has its length in front; data that
writes nothing is read as data of an update.

Key definitions: `Query.emit`, `Query.read`, `Record.emit`, `Record.read`, `Edns.toRecord`, `Edns.ofRecord`.
Key theorems: `Query.sends_emit`, `Record.sends_emit`, `Edns.ofRecord_received`.
-/
import SmartDns.Wire.RecordData

namespace SmartDns

open Dns Lib

namespace Wire

open BinEncoder

/-! ### Classes with a flag -/

/-- `MDNS_UNICAST_RESPONSE` and `MDNS_ENABLE_CACHE_FLUSH`. -/
def MDNS_FLAG : UInt16 := 0x8000

def flagged (dnsClass : DNSClass) (set : Bool) : UInt16 :=
  if set then dnsClass.toCode ||| MDNS_FLAG else dnsClass.toCode

def classOf (value : UInt16) : DNSClass × Bool :=
  if value &&& MDNS_FLAG > 0 then (.ofCode (value &&& ~~~MDNS_FLAG), true) else (.ofCode value, false)

def readClass : Decode (DNSClass × Bool) := do
  let value ← readUInt16
  return classOf value

/-- The class is read back from its code, which leaves the top bit to the flag. -/
structure Plain (dnsClass : DNSClass) : Prop where
  canonical : dnsClass.Canonical
  code_lt : dnsClass.toCode.toNat < 32768

theorem and_flag {code : UInt16} (h : code.toNat < 32768) : code.toNat &&& MDNS_FLAG.toNat = 0 := by
  have hlow := Nat.and_two_pow_sub_one_eq_mod code.toNat 15
  rw [Nat.mod_eq_of_lt h] at hlow
  rw [← hlow, Nat.and_assoc]
  exact Nat.and_zero _

theorem classOf_flagged {dnsClass : DNSClass} (h : Plain dnsClass) (set : Bool) :
    classOf (flagged dnsClass set) = (dnsClass, set) := by
  have hclear := and_flag h.code_lt
  unfold flagged classOf
  cases set with
  | false =>
    have hnone : ¬ dnsClass.toCode &&& MDNS_FLAG > 0 := by
      rw [gt_iff_lt, UInt16.lt_iff_toNat_lt, UInt16.toNat_and, hclear]
      exact Nat.lt_irrefl 0
    rw [if_neg Bool.false_ne_true, if_neg hnone, h.canonical]
  | true =>
    have hsome : (dnsClass.toCode ||| MDNS_FLAG) &&& MDNS_FLAG > 0 := by
      rw [gt_iff_lt, UInt16.lt_iff_toNat_lt, UInt16.toNat_and, UInt16.toNat_or, Nat.and_or_distrib_right, hclear]
      decide
    have hcode : (dnsClass.toCode ||| MDNS_FLAG) &&& ~~~MDNS_FLAG = dnsClass.toCode := by
      have hlow := Nat.and_two_pow_sub_one_eq_mod dnsClass.toCode.toNat 15
      rw [Nat.mod_eq_of_lt h.code_lt] at hlow
      apply UInt16.toNat_inj.mp
      rw [UInt16.toNat_and, UInt16.toNat_or, Nat.and_or_distrib_right]
      exact (Nat.or_zero _).trans hlow
    rw [if_pos rfl, if_pos hsome, hcode, h.canonical]

theorem sends_class {dnsClass : DNSClass} (h : Plain dnsClass) (set : Bool) :
    Sends medium (emitU16 (flagged dnsClass set)) (fun _ => readClass) (dnsClass, set) := by
  have hsends := (sends_emitU16 (flagged dnsClass set)).map classOf
  rwa [classOf_flagged h] at hsends

theorem moves_readClass : Moves readClass 0 := moves_readUInt16.zero.first fun _ => .pure _

/-! ### Questions -/

namespace Query

def emit (q : Query) : Emit Unit := do
  emitName q.name
  emitU16 q.queryType.toCode
  emitU16 (flagged q.queryClass q.mdnsUnicastResponse)

def read : Decode Query := do
  let name ← readName
  let code ← readUInt16
  let dnsClass ← readClass
  return { name, queryType := .ofCode code, queryClass := dnsClass.1, mdnsUnicastResponse := dnsClass.2 }

/-- A question that can be read at all. -/
structure WellFormed (q : Query) : Prop where
  short : q.name.encodedSize ≤ 255
  type_canonical : q.queryType.Canonical
  plain : Plain q.queryClass

def received (q : Query) : Query := { q with name := q.name.setFqdn true }

/-- **A question is read back.** -/
theorem sends_emit {q : Query} (h : WellFormed q) : Sends medium (emit q) (fun _ => read) (received q) := by
  have hcode : RecordType.ofCode q.queryType.toCode = q.queryType := h.type_canonical
  refine (sends_emitName h.short).bind fun _ => (sends_emitU16 q.queryType.toCode).bind fun _ => ?_
  have hclass := (sends_class h.plain q.mdnsUnicastResponse).map fun p =>
    { name := q.name.setFqdn true, queryType := .ofCode q.queryType.toCode, queryClass := p.1,
      mdnsUnicastResponse := p.2 : Query }
  convert hclass using 1
  rw [hcode]
  rfl

theorem moves_read : Moves read 1 :=
  moves_readName.first fun _ => moves_readUInt16.zero.first fun _ =>
    moves_readClass.first fun _ => .pure _

end Query

/-! ### Records -/

structure Record (D : Type) where
  nameLabels : Name
  dnsClass : DNSClass
  ttl : UInt32
  rdata : RData D
  mdnsCacheFlush : Bool := false

variable {D : Type} (formats : MoreData D)

namespace Record

def recordType (r : Record D) : RecordType := r.rdata.recordType formats

def emit (r : Record D) : Emit Unit := do
  emitName r.nameLabels
  emitU16 (r.recordType formats).toCode
  emitU16 (flagged r.dnsClass r.mdnsCacheFlush)
  emitU32 r.ttl
  withLength (if r.rdata.isUpdate then pure () else r.rdata.emit formats)

/-- The class of an `OPT` record is a payload, and its name is the root. -/
def readDnsClass (recordType : RecordType) (nameLabels : Name) : Decode (DNSClass × Bool) :=
  if recordType = .OPT then
    if nameLabels.isRoot then do
      let value ← readUInt16
      return (.forOpt value, false)
    else throw (.ednsNameNotRoot nameLabels)
  else readClass

def read : Decode (Record D) := do
  let nameLabels ← readName
  let code ← readUInt16
  let dnsClass ← readDnsClass (.ofCode code) nameLabels
  let ttl ← readUInt32
  let length ← readU16
  verifyRemaining (fun need remain =>
    s!"rdata length too large for remaining bytes, need: {need} remain: {remain}") length
  let rdata ← readSized formats (.ofCode code) length
  return { nameLabels, dnsClass := dnsClass.1, ttl, rdata, mdnsCacheFlush := dnsClass.2 }

/-- What comes of a record on its way. -/
def received (r : Record D) : Record D :=
  { r with nameLabels := r.nameLabels.setFqdn true, rdata := r.rdata.received }

/-- A record that can be read at all, and is not that of EDNS. -/
structure WellFormed (r : Record D) : Prop where
  short : r.nameLabels.encodedSize ≤ 255
  type_canonical : (r.recordType formats).Canonical
  not_opt : r.recordType formats ≠ .OPT
  plain : Plain r.dnsClass
  data : r.rdata.WellFormed formats

variable {formats}

/-- Data of an update writes nothing either way. -/
theorem emit_of_isUpdate (rdata : RData D) :
    (if rdata.isUpdate then pure () else rdata.emit formats) = rdata.emit formats := by
  cases rdata <;> rfl

/-- What can be read back but for the class is read back. -/
theorem sends_emit_of_class {r : Record D} (hshort : r.nameLabels.encodedSize ≤ 255)
    (htype : (r.recordType formats).Canonical) (h : r.rdata.WellFormed formats)
    (hclass : Sends medium (emitU16 (flagged r.dnsClass r.mdnsCacheFlush))
      (fun _ => readDnsClass (r.recordType formats) (r.nameLabels.setFqdn true)) (r.dnsClass, r.mdnsCacheFlush)) :
    Sends medium (r.emit formats) (fun _ => read formats) r.received := by
  have hcode : RecordType.ofCode (r.recordType formats).toCode = r.recordType formats := htype
  have hdata := (sends_rdata h).map fun rdata =>
    ({ r with nameLabels := r.nameLabels.setFqdn true, rdata := rdata } : Record D)
  refine (sends_emitName hshort).bind fun _ => (sends_emitU16 (r.recordType formats).toCode).bind fun _ => ?_
  simp only [hcode, emit_of_isUpdate]
  exact hclass.bind fun _ => (sends_emitU32 r.ttl).bind fun _ => sends_withLength (sends_verified _ hdata)

/-- **A record is read back.** -/
theorem sends_emit {r : Record D} (h : r.WellFormed formats) :
    Sends medium (r.emit formats) (fun _ => read formats) r.received := by
  refine sends_emit_of_class h.short h.type_canonical h.data ?_
  unfold readDnsClass
  rw [if_neg h.not_opt]
  exact sends_class h.plain r.mdnsCacheFlush

/-- **So is a record of EDNS**, with the payload in the place of the class. -/
theorem sends_opt {r : Record D} {maxPayload : UInt16} (hroot : r.nameLabels = Name.root)
    (hopt : r.recordType formats = .OPT) (hclass : r.dnsClass = .forOpt maxPayload) (hflag : r.mdnsCacheFlush = false)
    (h : r.rdata.WellFormed formats) : Sends medium (r.emit formats) (fun _ => read formats) r.received := by
  refine sends_emit_of_class ?_ ?_ h ?_
  · rw [hroot]
    decide
  · rw [hopt]
    decide
  · have hpayload := (sends_emitU16 (flagged (.forOpt maxPayload) false)).map fun value =>
      (DNSClass.forOpt value, false)
    have hsame : DNSClass.forOpt (flagged (.forOpt maxPayload) false) = .forOpt maxPayload :=
      DNSClass.forOpt_toCode_forOpt maxPayload
    rw [hsame] at hpayload
    rw [hopt, hroot, hclass, hflag]
    exact hpayload

/-- What is read as data lies ahead, whatever its format is. -/
theorem moves_readSized (recordType : RecordType) (length : ℕ) : Moves (readSized formats recordType length) 0 where
  moves {d i a j} h := by
    unfold readSized at h
    split_ifs at h with hzero
    · cases h
      exact le_refl _
    · unfold readRData at h
      cases hread : readKind formats recordType length d i with
      | error e =>
        rw [hread] at h
        cases h
      | ok p =>
        rw [hread] at h
        dsimp only at h
        split_ifs at h with hlen
        cases h
        omega

theorem moves_readDnsClass (recordType : RecordType) (nameLabels : Name) :
    Moves (readDnsClass recordType nameLabels) 0 :=
  .ite (.ite (moves_readUInt16.zero.first fun _ => .pure _) (.throw _ _)) moves_readClass

theorem moves_read : Moves (read formats) 1 :=
  moves_readName.first fun _ => moves_readUInt16.zero.first fun _ => (moves_readDnsClass _ _).first fun _ =>
    moves_readUInt32.first fun _ => moves_readU16.zero.first fun _ => (moves_verifyRemaining _ _).first fun _ =>
      (moves_readSized _ _).first fun _ => .pure _

end Record

/-! ### EDNS -/

structure Edns where
  rcodeHigh : UInt8 := 0
  version : UInt8 := 0
  dnssecOk : Bool := false
  z : UInt16 := 0
  maxPayload : UInt16 := 512
  options : List (EdnsCode × EdnsOption) := []

namespace Edns

/-- `From<EdnsFlags> for u16`. -/
def flags (e : Edns) : UInt16 := if e.dnssecOk then 0x8000 ||| e.z else 0x7FFF &&& e.z

/-- `From<&Edns> for Record`. -/
def toRecord (e : Edns) : Record D where
  nameLabels := Name.root
  dnsClass := .forOpt e.maxPayload
  ttl := e.rcodeHigh.toUInt32 <<< 24 ||| e.version.toUInt32 <<< 16 ||| e.flags.toUInt32
  rdata := .OPT e.options

/-- The low bits of the time to live. -/
def flagsOf (ttl : UInt32) : UInt16 := (ttl &&& 0x0000FFFF).toUInt16

/-- The options of a record of EDNS; data of an update has none, and no other is read under its type. -/
def optionsOf : RData D → List (EdnsCode × EdnsOption)
  | .OPT options => options
  | _ => []

/-- `From<&Record>`. -/
def ofRecord (r : Record D) : Edns where
  rcodeHigh := ((r.ttl &&& 0xFF000000) >>> 24).toUInt8
  version := ((r.ttl &&& 0x00FF0000) >>> 16).toUInt8
  dnssecOk := flagsOf r.ttl &&& 0x8000 = 0x8000
  z := flagsOf r.ttl &&& 0x7FFF
  maxPayload := r.dnsClass.toCode
  options := optionsOf r.rdata

/-- What comes of it on its way. -/
def received (e : Edns) : Edns :=
  { e with z := e.z &&& 0x7FFF, maxPayload := DNSClass.atLeast512 e.maxPayload, options := OPT.received e.options }

theorem or_bit {n : ℕ} (h : n < 65536) : 32768 ||| n = 32768 + n % 32768 := by
  have hlow : 32768 ||| n % 32768 = 32768 + n % 32768 :=
    (Nat.shiftLeft_add_eq_or_of_lt (i := 15) (Nat.mod_lt n (by decide)) 1).symm
  by_cases hn : n < 32768
  · rwa [Nat.mod_eq_of_lt hn] at hlow ⊢
  · have hsplit : n = 32768 ||| n % 32768 := by omega
    calc 32768 ||| n = 32768 ||| (32768 ||| n % 32768) := by rw [← hsplit]
      _ = 32768 + n % 32768 := by rw [← Nat.or_assoc, Nat.or_self, hlow]

theorem toNat_flags (e : Edns) : e.flags.toNat = (if e.dnssecOk then 32768 else 0) + e.z.toNat % 32768 := by
  unfold flags
  split_ifs
  · rw [UInt16.toNat_or]
    exact or_bit e.z.toNat_lt
  · rw [UInt16.toNat_and, Nat.and_comm, Nat.zero_add]
    exact Nat.and_two_pow_sub_one_eq_mod _ 15

/-- The three fields of a time to live. -/
theorem toNat_ttl (e : Edns) : (e.toRecord : Record D).ttl.toNat =
    e.rcodeHigh.toNat * 2 ^ 24 + e.version.toNat * 2 ^ 16 + e.flags.toNat := by
  have hhigh := e.rcodeHigh.toNat_lt
  have hversion := e.version.toNat_lt
  have hflags := e.flags.toNat_lt
  have hshift {b : UInt8} {i : ℕ} (hi : i ≤ 24) : b.toNat <<< i % 2 ^ 32 = b.toNat <<< i := by
    have hb := b.toNat_lt
    apply Nat.mod_eq_of_lt
    rw [Nat.shiftLeft_eq]
    calc b.toNat * 2 ^ i ≤ 255 * 2 ^ 24 := Nat.mul_le_mul (by omega) (Nat.pow_le_pow_right (by decide) hi)
      _ < 2 ^ 32 := by decide
  have hlow : e.version.toNat <<< 16 ||| e.flags.toNat = e.version.toNat * 2 ^ 16 + e.flags.toNat := by
    rw [← Nat.shiftLeft_add_eq_or_of_lt hflags, Nat.shiftLeft_eq]
  show (e.rcodeHigh.toUInt32 <<< 24 ||| e.version.toUInt32 <<< 16 ||| e.flags.toUInt32).toNat = _
  rw [UInt32.toNat_or, UInt32.toNat_or, UInt32.toNat_shiftLeft, UInt32.toNat_shiftLeft]
  show e.rcodeHigh.toNat <<< 24 % 2 ^ 32 ||| e.version.toNat <<< 16 % 2 ^ 32 ||| e.flags.toNat = _
  rw [hshift (by decide), hshift (by decide), Nat.or_assoc, hlow, ← Nat.shiftLeft_add_eq_or_of_lt (by omega),
    Nat.shiftLeft_eq, Nat.add_assoc]

/-- A byte of a time to live that is cut out with a mask. -/
theorem toNat_byte (ttl mask : UInt32) {i : ℕ} (hmask : mask.toNat = (2 ^ 8 - 1) <<< i) (hi : i < 32) :
    ((ttl &&& mask) >>> UInt32.ofNat i).toUInt8.toNat = ttl.toNat / 2 ^ i % 2 ^ 8 := by
  rw [UInt32.toNat_toUInt8, UInt32.toNat_shiftRight, UInt32.toNat_and, hmask, UInt32.toNat_ofNat',
    Nat.mod_eq_of_lt (by omega : i < 2 ^ 32), Nat.mod_eq_of_lt hi, Nat.shiftRight_and_distrib,
    Nat.shiftLeft_shiftRight, Nat.and_two_pow_sub_one_eq_mod, Nat.shiftRight_eq_div_pow, Nat.mod_mod]

/-- The bit and the rest of the flags. -/
theorem flagsOf_fields {ttl : UInt32} {set : Bool} {z : ℕ} (hz : z < 32768)
    (h : (flagsOf ttl).toNat = (if set then 32768 else 0) + z) :
    decide (flagsOf ttl &&& 0x8000 = 0x8000) = set ∧ (flagsOf ttl &&& 0x7FFF).toNat = z := by
  have hor : (if set then 32768 else 0) + z = (if set then 32768 else 0) ||| z := by
    cases set with
    | true => exact Nat.shiftLeft_add_eq_or_of_lt (i := 15) hz 1
    | false => exact (Nat.zero_add z).trans (Nat.zero_or z).symm
  have hbit : z &&& 32768 = 0 := by
    have := @and_flag (UInt16.ofNat z)
    rw [UInt16.toNat_ofNat', Nat.mod_eq_of_lt (by omega)] at this
    exact this hz
  constructor
  · have hand : flagsOf ttl &&& 0x8000 = if set then 0x8000 else 0 := by
      apply UInt16.toNat_inj.mp
      rw [UInt16.toNat_and, h, hor, Nat.and_or_distrib_right]
      show _ ||| z &&& 32768 = _
      rw [hbit, Nat.or_zero]
      cases set <;> decide
    rw [hand]
    cases set <;> decide
  · rw [UInt16.toNat_and, h]
    refine (Nat.and_two_pow_sub_one_eq_mod _ 15).trans ?_
    cases set <;> simp <;> omega

/-- **What a record of EDNS says is what was put into it.** -/
theorem ofRecord_received (e : Edns) : ofRecord (e.toRecord : Record D).received = e.received := by
  have hhigh := e.rcodeHigh.toNat_lt
  have hversion := e.version.toNat_lt
  have hflags := e.flags.toNat_lt
  have hnum := e.toNat_ttl (D := D)
  have hflagsOf : (flagsOf (e.toRecord : Record D).ttl).toNat =
      (if e.dnssecOk then 32768 else 0) + e.z.toNat % 32768 := by
    have hmask := Nat.and_two_pow_sub_one_eq_mod (e.toRecord : Record D).ttl.toNat 16
    rw [← toNat_flags]
    unfold flagsOf
    rw [UInt32.toNat_toUInt16, UInt32.toNat_and]
    show ((e.toRecord : Record D).ttl.toNat &&& 2 ^ 16 - 1) % 2 ^ 16 = _
    rw [hmask, hnum]
    omega
  obtain ⟨hok, hrest⟩ := flagsOf_fields (Nat.mod_lt _ (by decide)) hflagsOf
  have hz : flagsOf (e.toRecord : Record D).ttl &&& 0x7FFF = e.z &&& 0x7FFF := by
    apply UInt16.toNat_inj.mp
    rw [hrest, UInt16.toNat_and]
    exact (Nat.and_two_pow_sub_one_eq_mod _ 15).symm
  have hrcode : (((e.toRecord : Record D).ttl &&& 0xFF000000) >>> 24).toUInt8 = e.rcodeHigh := by
    apply UInt8.toNat_inj.mp
    refine (toNat_byte _ 0xFF000000 (i := 24) (by decide) (by decide)).trans ?_
    rw [hnum]
    omega
  have hver : (((e.toRecord : Record D).ttl &&& 0x00FF0000) >>> 16).toUInt8 = e.version := by
    apply UInt8.toNat_inj.mp
    refine (toNat_byte _ 0x00FF0000 (i := 16) (by decide) (by decide)).trans ?_
    rw [hnum]
    omega
  have hoptions : optionsOf (e.toRecord : Record D).received.rdata = OPT.received e.options := by
    show optionsOf (RData.orUpdate .OPT e.options (.OPT (OPT.received e.options))) = _
    cases e.options <;> rfl
  have hpayload : (e.toRecord : Record D).received.dnsClass.toCode = DNSClass.atLeast512 e.maxPayload :=
    DNSClass.atLeast512_atLeast512 _
  have httl : (e.toRecord : Record D).received.ttl = (e.toRecord : Record D).ttl := rfl
  unfold ofRecord received
  simp only [httl, hrcode, hver, hok, hz, hpayload, hoptions]

end Edns

end Wire
end SmartDns
