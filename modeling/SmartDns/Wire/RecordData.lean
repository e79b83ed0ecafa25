/-
# Record data on the wire

`RData` of `proto/src/rr/record_data.rs` with the formats of `rr/rdata`: what each type of data writes and
how it is read off as many bytes as stand before it. Data that writes nothing is read as data of an update,
which has a type and nothing else; names come back fully qualified, and of a client subnet the octets its
prefix does not need come back as zeros. All else is read back as it was (`sends_rdata`).

The formats of `CAA`, `CERT`, `CSYNC`, `SSHFP` and `TLSA` are a parameter (`MoreData`).

Key definitions: `RData`, `RData.emit`, `readRData`, `RData.received`, `RData.WellFormed`.
Key theorem: `sends_rdata`.
-/
import SmartDns.Wire.Codes
import SmartDns.Wire.EdnsOptions
import SmartDns.Wire.Svcb

namespace SmartDns

open Dns Lib

namespace Wire

open BinEncoder

inductive RData (D : Type)
  | A (address : BitVec 32)
  | AAAA (address : BitVec 128)
  | ANAME (name : Name)
  | CNAME (name : Name)
  | HINFO (cpu os : List UInt8)
  | HTTPS (svcb : SVCB)
  | MX (preference : UInt16) (exchange : Name)
  | NAPTR (order preference : UInt16) (flags services regexp : List UInt8) (replacement : Name)
  | NULL (anything : List UInt8)
  | NS (name : Name)
  | OPENPGPKEY (publicKey : List UInt8)
  | OPT (options : List (EdnsCode × EdnsOption))
  | PTR (name : Name)
  | SOA (mname rname : Name) (serial : UInt32) (refresh retry expire : Int32) (minimum : UInt32)
  | SRV (priority weight port : UInt16) (target : Name)
  | SVCB (svcb : SVCB)
  | TXT (txtData : List (List UInt8))
  | more (data : D)
  | unknown (code : RecordType) (rdata : List UInt8)
  | update0 (recordType : RecordType)
  | ZERO

/-- The formats of `CAA`, `CERT`, `CSYNC`, `SSHFP` and `TLSA`. -/
structure MoreData (D : Type) where
  recordType : D → RecordType
  emit : D → Emit Unit
  readData : RecordType → ℕ → Decode D

/-- The types whose formats are a parameter. -/
def isMore : RecordType → Bool
  | .CAA => true
  | .CERT => true
  | .CSYNC => true
  | .SSHFP => true
  | .TLSA => true
  | _ => false

variable {D : Type} (formats : MoreData D)

namespace RData

def recordType : RData D → RecordType
  | A _ => .A
  | AAAA _ => .AAAA
  | ANAME _ => .ANAME
  | CNAME _ => .CNAME
  | HINFO _ _ => .HINFO
  | HTTPS _ => .HTTPS
  | MX _ _ => .MX
  | NAPTR _ _ _ _ _ _ => .NAPTR
  | NULL _ => .NULL
  | NS _ => .NS
  | OPENPGPKEY _ => .OPENPGPKEY
  | OPT _ => .OPT
  | PTR _ => .PTR
  | SOA _ _ _ _ _ _ _ => .SOA
  | SRV _ _ _ _ => .SRV
  | SVCB _ => .SVCB
  | TXT _ => .TXT
  | more data => formats.recordType data
  | unknown code _ => code
  | update0 recordType => recordType
  | ZERO => .ZERO

def isUpdate : RData D → Bool
  | update0 _ => true
  | _ => false

/-- Data that is one name. -/
def emitNameData (encoding : RDataEncoding) (name : Name) : Emit Unit := withRdataBehavior encoding (emitName name)

def emitI32 (data : Int32) : Emit Unit := emitU32 data.toUInt32

def emit : RData D → Emit Unit
  | A address => A.emit address
  | AAAA address => AAAA.emit address
  | ANAME name => emitNameData .other name
  | CNAME name => emitNameData .standardRecord name
  | HINFO cpu os => do
    emitCharacterData cpu
    emitCharacterData os
  | HTTPS svcb => svcb.emit
  | MX preference exchange =>
    withRdataBehavior .standardRecord do
      emitU16 preference
      emitName exchange
  | NAPTR order preference flags services regexp replacement =>
    withRdataBehavior .canonical do
      emitU16 order
      emitU16 preference
      emitCharacterData flags
      emitCharacterData services
      emitCharacterData regexp
      emitName replacement
  | NULL anything => anything.forM emitU8
  | NS name => emitNameData .standardRecord name
  | OPENPGPKEY publicKey => emitVec publicKey
  | OPT options => OPT.emit options
  | PTR name => emitNameData .standardRecord name
  | SOA mname rname serial refresh retry expire minimum =>
    withRdataBehavior .standardRecord do
      emitName mname
      emitName rname
      emitU32 serial
      emitI32 refresh
      emitI32 retry
      emitI32 expire
      emitU32 minimum
  | SRV priority weight port target =>
    withRdataBehavior .canonical do
      emitU16 priority
      emitU16 weight
      emitU16 port
      emitName target
  | SVCB svcb => svcb.emit
  | TXT txtData => txtData.forM emitCharacterData
  | more data => formats.emit data
  | unknown _ rdata => rdata.forM emitU8
  | update0 _ => pure ()
  | ZERO => pure ()

end RData

/-! ### Reading -/

def readI32 : Decode Int32 := do
  let value ← readUInt32
  return ⟨value⟩

/-- `verify_flags`. -/
def verifyFlags (flags : List UInt8) : Bool :=
  flags.all fun c => (48 ≤ c && c ≤ 57) || (97 ≤ c && c ≤ 122) || (65 ≤ c && c ≤ 90)

def readFlags : Decode (List UInt8) := do
  let flags ← readCharacterData
  if verifyFlags flags then return flags else throw (.message "flags are not within range [a-zA-Z0-9]")

/-- The strings of a `TXT`; each takes a byte at least. -/
def readTxt (rdataLength : ℕ) : Decode (List (List UInt8)) := do
  let start ← get
  scanAll readCharacterData (start + rdataLength) rdataLength

/-- Data of the type, off the given number of bytes. -/
def readKind (recordType : RecordType) (length : ℕ) : Decode (RData D) :=
  match recordType with
  | .A => do
    let address ← A.read
    return .A address
  | .AAAA => do
    let address ← AAAA.read
    return .AAAA address
  | .ANAME => do
    let name ← readName
    return .ANAME name
  | .ANY => throw (.unknownRecordTypeValue RecordType.ANY.toCode)
  | .AXFR => throw (.unknownRecordTypeValue RecordType.AXFR.toCode)
  | .IXFR => throw (.unknownRecordTypeValue RecordType.IXFR.toCode)
  | .CNAME => do
    let name ← readName
    return .CNAME name
  | .HINFO => do
    let cpu ← readCharacterData
    let os ← readCharacterData
    return .HINFO cpu os
  | .HTTPS => do
    let svcb ← SVCB.readData length
    return .HTTPS svcb
  | .ZERO => return .ZERO
  | .MX => do
    let preference ← readUInt16
    let exchange ← readName
    return .MX preference exchange
  | .NAPTR => do
    let order ← readUInt16
    let preference ← readUInt16
    let flags ← readFlags
    let services ← readCharacterData
    let regexp ← readCharacterData
    let replacement ← readName
    return .NAPTR order preference flags services regexp replacement
  | .NULL => do
    let anything ← readSlice length
    return .NULL anything
  | .NS => do
    let name ← readName
    return .NS name
  | .OPENPGPKEY => do
    let publicKey ← readSlice length
    return .OPENPGPKEY publicKey
  | .OPT => do
    let options ← OPT.readData length
    return .OPT options
  | .PTR => do
    let name ← readName
    return .PTR name
  | .SOA => do
    let mname ← readName
    let rname ← readName
    let serial ← readUInt32
    let refresh ← readI32
    let retry ← readI32
    let expire ← readI32
    let minimum ← readUInt32
    return .SOA mname rname serial refresh retry expire minimum
  | .SRV => do
    let priority ← readUInt16
    let weight ← readUInt16
    let port ← readUInt16
    let target ← readName
    return .SRV priority weight port target
  | .SVCB => do
    let svcb ← SVCB.readData length
    return .SVCB svcb
  | .TXT => do
    let txtData ← readTxt length
    return .TXT txtData
  | recordType =>
    if isMore recordType then do
      let data ← formats.readData recordType length
      return .more data
    else do
      let rdata ← readSlice length
      return .unknown recordType rdata

/-- `RData::read`: just as many bytes as the length says have to be read. -/
def readRData (recordType : RecordType) (length : ℕ) : Decode (RData D) := fun d i =>
  match readKind formats recordType length d i with
  | .error e => .error e
  | .ok (rdata, j) =>
    if j - i = length then .ok (rdata, j) else .error (.incorrectRDataLengthRead (j - i) length)

/-- What `Record::read` makes of the length. -/
def readSized (recordType : RecordType) (length : ℕ) : Decode (RData D) :=
  if length = 0 then return .update0 recordType else readRData formats recordType length

/-! ### Record data is read back -/

/-- The format reads back what it writes, and reads something. -/
structure MoreData.Lawful (data : D) : Prop where
  kind : isMore (formats.recordType data) = true
  sends : Sends medium (formats.emit data) (formats.readData (formats.recordType data)) data
  moves : ∀ n, Moves (formats.readData (formats.recordType data) n) 1

/-- The types without a format of their own. -/
def isOther : RecordType → Bool
  | .CDS => true
  | .CDNSKEY => true
  | .DNSKEY => true
  | .DS => true
  | .KEY => true
  | .NSEC => true
  | .NSEC3 => true
  | .NSEC3PARAM => true
  | .RRSIG => true
  | .SIG => true
  | .TSIG => true
  | .unknown _ => true
  | _ => false

namespace RData

/-- Data that can be read at all: names that are not too long, flags and options of the right form, and no
data of unknown format under the type of a known one. -/
def WellFormed : RData D → Prop
  | ANAME name => name.encodedSize ≤ 255
  | CNAME name => name.encodedSize ≤ 255
  | HTTPS svcb => svcb.WellFormed
  | MX _ exchange => exchange.encodedSize ≤ 255
  | NAPTR _ _ flags _ _ replacement => verifyFlags flags = true ∧ replacement.encodedSize ≤ 255
  | NS name => name.encodedSize ≤ 255
  | OPT options => ∀ option ∈ options, OPT.WellFormed option
  | PTR name => name.encodedSize ≤ 255
  | SOA mname rname _ _ _ _ _ => mname.encodedSize ≤ 255 ∧ rname.encodedSize ≤ 255
  | SRV _ _ _ target => target.encodedSize ≤ 255
  | SVCB svcb => svcb.WellFormed
  | more data => formats.Lawful data
  | unknown code _ => isOther code = true
  | _ => True

/-- Data of the list, or of an update where the list is empty. -/
def orUpdate {A : Type} (recordType : RecordType) (items : List A) (data : RData D) : RData D :=
  if items.isEmpty then .update0 recordType else data

/-- What comes of data on its way. -/
def received : RData D → RData D
  | A address => A address
  | AAAA address => AAAA address
  | ANAME name => ANAME (name.setFqdn true)
  | CNAME name => CNAME (name.setFqdn true)
  | HINFO cpu os => HINFO cpu os
  | HTTPS svcb => HTTPS svcb.received
  | MX preference exchange => MX preference (exchange.setFqdn true)
  | NAPTR order preference flags services regexp replacement =>
    NAPTR order preference flags services regexp (replacement.setFqdn true)
  | NULL anything => orUpdate .NULL anything (NULL anything)
  | NS name => NS (name.setFqdn true)
  | OPENPGPKEY publicKey => orUpdate .OPENPGPKEY publicKey (OPENPGPKEY publicKey)
  | OPT options => orUpdate .OPT options (OPT (OPT.received options))
  | PTR name => PTR (name.setFqdn true)
  | SOA mname rname serial refresh retry expire minimum =>
    SOA (mname.setFqdn true) (rname.setFqdn true) serial refresh retry expire minimum
  | SRV priority weight port target => SRV priority weight port (target.setFqdn true)
  | SVCB svcb => SVCB svcb.received
  | TXT txtData => orUpdate .TXT txtData (TXT txtData)
  | more data => more data
  | unknown code rdata => orUpdate code rdata (unknown code rdata)
  | update0 recordType => update0 recordType
  | ZERO => update0 .ZERO

end RData

variable {formats}

/-- Where something is read, the length is not zero and has been taken just so. -/
theorem sends_readSized {A : Type} {w : Emit A} {recordType : RecordType} {v : RData D}
    (h : Sends medium w (readKind formats recordType) v) (hmoves : ∀ n, Moves (readKind formats recordType n) 1) :
    Sends medium w (readSized formats recordType) v where
  toSafe := h.toSafe
  reads {H s s' a d} hco hw hd := by
    have hread := h.reads hco hw hd
    have hmove := (hmoves _).moves hread
    have hpos : medium.offset s' - medium.offset s ≠ 0 := by omega
    unfold readSized readRData
    rw [if_neg hpos, hread]
    exact if_pos rfl

/-- Data that is known byte for byte. -/
theorem sends_items {A B : Type} {w : Emit A} {bs : List UInt8} {recordType : RecordType} {items : List B}
    {v : RData D} (h : Puts medium w bs) (hempty : items = [] ↔ bs = [])
    (hr : ∀ s s' a, w s = .ok a s' → bs.length ≤ 65535 → Takes (readKind formats recordType bs.length) bs v) :
    Sends medium w (readSized formats recordType) (.orUpdate recordType items v) := by
  refine sends_of_puts h fun s s' a hw hlen => ?_
  unfold readSized RData.orUpdate
  by_cases hnil : bs = []
  · rw [hempty.mpr hnil, hnil]
    exact .pure _
  · have hitems : items.isEmpty = false := by
      rw [List.isEmpty_eq_false_iff]
      exact fun h => hnil (hempty.mp h)
    have hpos : bs.length ≠ 0 := fun h => hnil (List.length_eq_zero_iff.mp h)
    rw [if_neg hpos, hitems]
    refine ⟨fun hd => ?_⟩
    unfold readRData
    rw [(hr s s' a hw hlen).takes hd]
    exact if_pos (Nat.add_sub_cancel_left _ _)

theorem sends_nameData {encoding : RDataEncoding} {name : Name} (h : name.encodedSize ≤ 255) :
    Sends medium (RData.emitNameData encoding name) (fun _ => readName) (name.setFqdn true) :=
  sends_withRdataBehavior encoding (sends_emitName h)

theorem sends_emitI32 (value : Int32) : Sends medium (RData.emitI32 value) (fun _ => readI32) value :=
  (sends_emitU32 value.toUInt32).map fun value => (⟨value⟩ : Int32)

theorem sends_flags {flags : List UInt8} (h : verifyFlags flags = true) :
    Sends medium (emitCharacterData flags) (fun _ => readFlags) flags where
  toSafe := (sends_emitCharacterData flags).toSafe
  reads hco hw hd := by
    refine Scan.bind_ok ((sends_emitCharacterData flags).reads hco hw hd) ?_
    rw [if_pos h]
    rfl

theorem puts_bytes (bytes : List UInt8) : Puts medium (bytes.forM emitU8) bytes := by
  have := Puts.forM puts_emitU8 bytes
  rwa [Subnet.flatMap_singleton] at this

theorem takes_readTxt {txtData : List (List UInt8)} (h : ∀ text ∈ txtData, text.length ≤ 255) :
    Takes (readTxt (txtData.flatMap fun text => UInt8.ofNat text.length :: text).length)
      (txtData.flatMap fun text => UInt8.ofNat text.length :: text) txtData where
  takes {_ i} hd := by
    have := takes_scanAll (g := id) (fun text => by simp) (fun text ht => takes_readCharacterData (h text ht)) hd
    rw [List.map_id] at this
    exact Scan.bind_ok (a := i) rfl this

theorem readKind_of_isOther {recordType : RecordType} (h : isOther recordType = true) (n : ℕ) :
    readKind formats recordType n = (do
      let rdata ← readSlice n
      return .unknown recordType rdata) := by
  cases recordType <;> first | rfl | exact absurd h Bool.false_ne_true

theorem readKind_of_isMore {recordType : RecordType} (h : isMore recordType = true) (n : ℕ) :
    readKind formats recordType n = (do
      let data ← formats.readData recordType n
      return .more data) := by
  cases recordType <;> first | rfl | exact absurd h Bool.false_ne_true

theorem moves_readI32 : Moves readI32 0 := moves_readUInt32.first fun _ => .pure _

theorem moves_readFlags : Moves readFlags 1 := moves_readCharacterData.first fun _ => .ite (.pure _) (.throw _ _)

theorem moves_A : Moves A.read 1 :=
  .first ⟨fun h => Nat.le_trans (by omega) (scanMany_moves moves_pop h).1⟩ fun _ => .pure _

theorem moves_AAAA : Moves AAAA.read 1 :=
  .first ⟨fun h => Nat.le_trans (by omega) (scanMany_moves (moves_readUInt16.mono (by decide)) h).1⟩ fun _ => .pure _

/-- Data of one reader. -/
theorem sends_kind {A B : Type} {w : Emit A} {recordType : RecordType} {r : ℕ → Decode B} {v : B} (g : B → RData D)
    (h : Sends medium w r v) (hkind : ∀ n, readKind formats recordType n = r n >>= fun v => pure (g v))
    (hmoves : ∀ n, Moves (r n) 1) : Sends medium w (readSized formats recordType) (g v) := by
  have hsends := h.map g
  have hreader : readKind formats recordType = fun n => r n >>= fun v => pure (g v) := funext hkind
  rw [← hreader] at hsends
  refine sends_readSized hsends fun n => ?_
  rw [hkind]
  exact (hmoves n).first fun _ => .pure _

/-- What writes nothing is read as data of an update. -/
theorem sends_nothing (recordType : RecordType) : Sends medium (pure () : Emit Unit) (readSized formats recordType)
    (.update0 recordType) where
  toSafe := .pure ()
  reads {H s s' u d} hco hw hd := by
    cases hw
    unfold readSized
    rw [if_pos (Nat.sub_self _)]
    rfl

theorem sends_TXT (txtData : List (List UInt8)) : Sends medium (txtData.forM emitCharacterData)
    (readSized formats .TXT) (.orUpdate .TXT txtData (.TXT txtData)) := by
  refine sends_items (.forM puts_emitCharacterData txtData) ?_ fun s s' a hw _ => ?_
  · cases txtData <;> simp
  · refine (takes_readTxt fun text ht => ?_).map RData.TXT
    obtain ⟨_, _, _, htext⟩ := forM_eq_ok hw text ht
    exact length_le_of_emitCharacterData htext

theorem sends_OPT {options : List (EdnsCode × EdnsOption)} (h : ∀ option ∈ options, OPT.WellFormed option) :
    Sends medium (OPT.emit options) (readSized formats .OPT)
      (.orUpdate .OPT options (.OPT (OPT.received options))) := by
  refine sends_withRdataBehavior .other (sends_items (.forM OPT.puts_emitOption options) ?_ fun _ _ _ _ hlen => ?_)
  · cases options with
    | nil => simp
    | cons option options => simp [OPT.optionBytes, toBe]
  · exact (OPT.takes_readData h hlen).map RData.OPT

/-- **Record data is read back** off as many bytes as it was written to. -/
theorem sends_rdata {rdata : RData D} (h : rdata.WellFormed formats) :
    Sends medium (rdata.emit formats) (readSized formats (rdata.recordType formats)) rdata.received := by
  have two : Moves readUInt16 1 := moves_readUInt16.mono (by decide)
  cases rdata with
  | A address => exact sends_kind RData.A (sends_A address) (fun _ => rfl) fun _ => moves_A
  | AAAA address => exact sends_kind RData.AAAA (sends_AAAA address) (fun _ => rfl) fun _ => moves_AAAA
  | ANAME name => exact sends_kind RData.ANAME (sends_nameData h) (fun _ => rfl) fun _ => moves_readName
  | CNAME name => exact sends_kind RData.CNAME (sends_nameData h) (fun _ => rfl) fun _ => moves_readName
  | NS name => exact sends_kind RData.NS (sends_nameData h) (fun _ => rfl) fun _ => moves_readName
  | PTR name => exact sends_kind RData.PTR (sends_nameData h) (fun _ => rfl) fun _ => moves_readName
  | HTTPS svcb => exact sends_kind RData.HTTPS (SVCB.sends_emit h) (fun _ => rfl) SVCB.moves_readData
  | SVCB svcb => exact sends_kind RData.SVCB (SVCB.sends_emit h) (fun _ => rfl) SVCB.moves_readData
  | HINFO cpu os =>
    refine sends_readSized ?_ fun _ => ?_
    · exact (sends_emitCharacterData cpu).bind fun _ => (sends_emitCharacterData os).map _
    · exact moves_readCharacterData.first fun _ => moves_readCharacterData.zero.first fun _ => .pure _
  | MX preference exchange =>
    refine sends_readSized (sends_withRdataBehavior _ ?_) fun _ => ?_
    · exact (sends_emitU16 _).bind fun _ => (sends_emitName h).map _
    · exact two.first fun _ => moves_readName.zero.first fun _ => .pure _
  | NAPTR order preference flags services regexp replacement =>
    refine sends_readSized (sends_withRdataBehavior _ ?_) fun _ => ?_
    · exact (sends_emitU16 _).bind fun _ => (sends_emitU16 _).bind fun _ => (sends_flags h.1).bind fun _ =>
        (sends_emitCharacterData _).bind fun _ => (sends_emitCharacterData _).bind fun _ => (sends_emitName h.2).map _
    · exact two.first fun _ => two.zero.first fun _ => moves_readFlags.zero.first fun _ =>
        moves_readCharacterData.zero.first fun _ => moves_readCharacterData.zero.first fun _ =>
          moves_readName.zero.first fun _ => .pure _
  | SOA mname rname serial refresh retry expire minimum =>
    refine sends_readSized (sends_withRdataBehavior _ ?_) fun _ => ?_
    · exact (sends_emitName h.1).bind fun _ => (sends_emitName h.2).bind fun _ => (sends_emitU32 _).bind fun _ =>
        (sends_emitI32 _).bind fun _ => (sends_emitI32 _).bind fun _ => (sends_emitI32 _).bind fun _ =>
          (sends_emitU32 _).map _
    · exact moves_readName.first fun _ => moves_readName.zero.first fun _ => moves_readUInt32.first fun _ =>
        moves_readI32.first fun _ => moves_readI32.first fun _ => moves_readI32.first fun _ =>
          moves_readUInt32.first fun _ => .pure _
  | SRV priority weight port target =>
    refine sends_readSized (sends_withRdataBehavior _ ?_) fun _ => ?_
    · exact (sends_emitU16 _).bind fun _ => (sends_emitU16 _).bind fun _ => (sends_emitU16 _).bind fun _ =>
        (sends_emitName h).map _
    · exact two.first fun _ => two.zero.first fun _ => two.zero.first fun _ =>
        moves_readName.zero.first fun _ => .pure _
  | NULL anything =>
    exact sends_items (puts_bytes anything) Iff.rfl fun _ _ _ _ _ => (takes_slice anything).map RData.NULL
  | OPENPGPKEY publicKey =>
    exact sends_items (puts_emitVec publicKey) Iff.rfl fun _ _ _ _ _ =>
      (takes_slice publicKey).map RData.OPENPGPKEY
  | OPT options => exact sends_OPT h
  | TXT txtData => exact sends_TXT txtData
  | more data =>
    exact sends_kind RData.more h.sends (readKind_of_isMore h.kind) h.moves
  | unknown code rdata =>
    refine sends_items (puts_bytes rdata) Iff.rfl fun _ _ _ _ _ => ?_
    exact (readKind_of_isOther h _).symm ▸ (takes_slice rdata).map (RData.unknown code)
  | update0 recordType => exact sends_nothing recordType
  | ZERO => exact sends_nothing .ZERO

end Wire
end SmartDns
