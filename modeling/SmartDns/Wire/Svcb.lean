/-
# Addresses and service bindings

The record data of `A` and `AAAA` (`proto/src/rr/rdata/a.rs`, `aaaa.rs`) and of `SVCB`, which is also that of
`HTTPS` (`svcb.rs`, `https.rs`): a priority, a target and parameters in the order of their keys. Each
parameter has its length in front; its value is read off just these bytes, to their end.

Key definitions: `A.emit`, `AAAA.emit`, `SvcParamKey`, `SvcParamValue`, `SVCB.emit`, `SVCB.readData`.
Key theorems: `sends_A`, `sends_AAAA`, `SVCB.sends_emit`.
-/
import SmartDns.Wire.NameOnWire
import SmartDns.Dns.Ip

namespace SmartDns

open Dns Lib

namespace Wire

open BinEncoder

/-! ### Addresses -/

namespace A

def emit (address : BitVec 32) : Emit Unit := (IpAddr.octets address).forM fun octet => emitU8 (UInt8.ofNat octet)

def read : Decode (BitVec 32) := do
  let octets ← scanMany pop 4
  return BitVec.ofNat 32 (ofBe octets)

end A

namespace AAAA

def emit (address : BitVec 128) : Emit Unit :=
  (IpAddr.segments address).forM fun segment => emitU16 (UInt16.ofNat segment)

def read : Decode (BitVec 128) := do
  let segments ← scanMany readUInt16 8
  return BitVec.ofNat 128 (segments.foldl (fun bits segment => bits * 65536 + segment.toNat) 0)

end AAAA

theorem ofNat_congr {x y : ℕ} (h : x % 256 = y % 256) : UInt8.ofNat x = UInt8.ofNat y := by
  apply UInt8.toNat_inj.mp
  rw [UInt8.toNat_ofNat', UInt8.toNat_ofNat']
  exact h

theorem octets_bytes (address : BitVec 32) :
    (IpAddr.octets address).flatMap (fun octet => [UInt8.ofNat octet]) = toBe 4 address.toNat := by
  simp only [IpAddr.octets, toBe, Nat.shiftRight_eq_div_pow, Nat.div_div_eq_div_mul, List.map_cons, List.map_nil,
    List.flatMap_cons, List.flatMap_nil, List.cons_append, List.nil_append, List.cons.injEq, and_true]
  and_intros <;> (apply ofNat_congr; omega)

/-- The octets in pairs are the segments. -/
theorem segments_bytes (address : BitVec 128) :
    (IpAddr.segments address).flatMap (fun segment => toBe 2 (UInt16.ofNat segment).toNat) =
      toBe 16 address.toNat := by
  simp only [IpAddr.segments, toBe, Nat.shiftRight_eq_div_pow, Nat.div_div_eq_div_mul, List.map_cons, List.map_nil,
    List.flatMap_cons, List.flatMap_nil, List.cons_append, List.nil_append, List.cons.injEq, and_true,
    UInt16.toNat_ofNat']
  and_intros <;> (apply ofNat_congr; omega)

theorem puts_A (address : BitVec 32) : Puts medium (A.emit address) (toBe 4 address.toNat) := by
  have := Puts.forM (fun octet => puts_emitU8 (UInt8.ofNat octet)) (IpAddr.octets address)
  rwa [octets_bytes] at this

theorem puts_AAAA (address : BitVec 128) : Puts medium (AAAA.emit address) (toBe 16 address.toNat) := by
  have := Puts.forM (fun segment => puts_emitU16 (UInt16.ofNat segment)) (IpAddr.segments address)
  rwa [segments_bytes] at this

theorem takes_A (address : BitVec 32) : Takes A.read (toBe 4 address.toNat) address := by
  have hpops := takes_scanMany (IpAddr.octets address) fun octet _ => takes_byte (UInt8.ofNat octet)
  rw [octets_bytes] at hpops
  have hread := hpops.map fun octets => BitVec.ofNat 32 (ofBe octets)
  have hvalue : (IpAddr.octets address).map UInt8.ofNat = toBe 4 address.toNat := by
    rw [← octets_bytes, List.map_eq_flatMap]
  have haddress : BitVec.ofNat 32 (ofBe (toBe 4 address.toNat)) = address := by
    rw [ofBe_toBe, Nat.mod_eq_of_lt (by simpa using address.isLt), BitVec.ofNat_toNat, BitVec.setWidth_eq]
  rw [hvalue, haddress] at hread
  exact hread

/-- Segments one behind the other are the number that their octets are. -/
theorem foldl_segments : ∀ (segments : List UInt16) (front : List UInt8),
    segments.foldl (fun bits segment => bits * 65536 + segment.toNat) (ofBe front) =
      ofBe (front ++ segments.flatMap fun segment => toBe 2 segment.toNat)
  | [], front => by rw [List.flatMap_nil, List.append_nil, List.foldl_nil]
  | segment :: segments, front => by
    have hnext : ofBe front * 65536 + segment.toNat = ofBe (front ++ toBe 2 segment.toNat) := by
      have := segment.toNat_lt
      simp only [ofBe, toBe, List.nil_append, List.cons_append, List.foldl_append, List.foldl_cons, List.foldl_nil,
        UInt8.toNat_ofNat']
      omega
    rw [List.foldl_cons, hnext, foldl_segments segments, List.append_assoc, List.flatMap_cons]

theorem takes_AAAA (address : BitVec 128) : Takes AAAA.read (toBe 16 address.toNat) address := by
  have hreads := takes_scanMany (IpAddr.segments address) fun segment _ => takes_readUInt16 (UInt16.ofNat segment)
  rw [segments_bytes] at hreads
  have hread := hreads.map fun segments =>
    BitVec.ofNat 128 (segments.foldl (fun bits segment => bits * 65536 + segment.toNat) 0)
  have hvalue := foldl_segments ((IpAddr.segments address).map UInt16.ofNat) []
  rw [List.flatMap_map, segments_bytes, List.nil_append, ofBe_toBe] at hvalue
  have haddress : BitVec.ofNat 128 (address.toNat % 256 ^ 16) = address := by
    rw [Nat.mod_eq_of_lt (by simpa using address.isLt), BitVec.ofNat_toNat, BitVec.setWidth_eq]
  rw [show (0 : ℕ) = ofBe [] from rfl, hvalue, haddress] at hread
  exact hread

theorem sends_A (address : BitVec 32) : Sends medium (A.emit address) (fun _ => A.read) address :=
  (puts_A address).scanned (takes_A address)

theorem sends_AAAA (address : BitVec 128) : Sends medium (AAAA.emit address) (fun _ => AAAA.read) address :=
  (puts_AAAA address).scanned (takes_AAAA address)

/-! ### Parameters of a service -/

inductive SvcParamKey
  | mandatory
  | alpn
  | noDefaultAlpn
  | port
  | ipv4Hint
  | echConfigList
  | ipv6Hint
  | key (code : UInt16)
  | key65535
  | unknown (code : UInt16)
deriving DecidableEq

namespace SvcParamKey

/-- `From<u16>`. -/
def ofCode (val : UInt16) : SvcParamKey :=
  match val.toNat with
  | 0 => mandatory
  | 1 => alpn
  | 2 => noDefaultAlpn
  | 3 => port
  | 4 => ipv4Hint
  | 5 => echConfigList
  | 6 => ipv6Hint
  | 65535 => key65535
  | code => if 65280 ≤ code ∧ code ≤ 65534 then key val else unknown val

/-- `From<SvcParamKey> for u16`; keys are compared by it. -/
def toCode : SvcParamKey → UInt16
  | mandatory => 0
  | alpn => 1
  | noDefaultAlpn => 2
  | port => 3
  | ipv4Hint => 4
  | echConfigList => 5
  | ipv6Hint => 6
  | key val => val
  | key65535 => 65535
  | unknown val => val

/-- The value of such a key is not looked into. -/
def isUnknown : SvcParamKey → Bool
  | key _ => true
  | key65535 => true
  | unknown _ => true
  | _ => false

/-- The key is what its code is read as. -/
def Canonical (k : SvcParamKey) : Prop := ofCode k.toCode = k

instance (k : SvcParamKey) : Decidable k.Canonical := inferInstanceAs (Decidable (_ = _))

end SvcParamKey

inductive SvcParamValue
  | mandatory (keys : List SvcParamKey)
  | alpn (protocols : List String)
  | noDefaultAlpn
  | port (value : UInt16)
  | ipv4Hint (addresses : List (BitVec 32))
  | echConfigList (data : List UInt8)
  | ipv6Hint (addresses : List (BitVec 128))
  | unknown (data : List UInt8)

namespace SvcParamValue

def emitKey (key : SvcParamKey) : Emit Unit := emitU16 key.toCode

def emitProtocol (protocol : String) : Emit Unit := emitCharacterData (utf8 protocol)

/-- What is written behind the length. -/
def emitContent : SvcParamValue → Emit Unit
  | mandatory keys =>
    if keys.isEmpty then throw (.message "Alpn expects at least one value")
    else keys.forM emitKey
  | alpn protocols =>
    if protocols.isEmpty then throw (.message "Alpn expects at least one value")
    else protocols.forM emitProtocol
  | noDefaultAlpn => pure ()
  | port value => emitU16 value
  | ipv4Hint addresses => addresses.forM A.emit
  | echConfigList data => emitVec data
  | ipv6Hint addresses => addresses.forM AAAA.emit
  | unknown data => emitVec data

def emit (value : SvcParamValue) : Emit Unit := withLength value.emitContent

def readKey : Decode SvcParamKey := do
  let code ← readUInt16
  return .ofCode code

/-- `String::from_utf8`. -/
def stringOf (bytes : List UInt8) : Decode String :=
  match fromUtf8 bytes with
  | some text => pure text
  | none => throw .utf8

def readProtocol : Decode String := readCharacterData >>= stringOf

/-- What the value's own bytes are read as, up to their end. -/
def readContent (key : SvcParamKey) (len : ℕ) : Decode SvcParamValue :=
  match key with
  | .mandatory => do
    let keys ← scanAll readKey len len
    if keys.isEmpty then throw (.message "Mandatory expects at least one value") else return .mandatory keys
  | .alpn => do
    let protocols ← scanAll readProtocol len len
    if protocols.isEmpty then throw (.message "Alpn expects at least one value") else return .alpn protocols
  | .noDefaultAlpn => if len > 0 then throw (.message "Alpn expects at least one value") else return .noDefaultAlpn
  | .port => do
    let port ← readUInt16
    return .port port
  | .ipv4Hint => do
    let addresses ← scanAll A.read len len
    return .ipv4Hint addresses
  | .echConfigList => do
    let data ← readSlice len
    return .echConfigList data
  | .ipv6Hint => do
    let addresses ← scanAll AAAA.read len len
    return .ipv6Hint addresses
  | .key _ | .key65535 | .unknown _ => do
    let data ← readSlice len
    return .unknown data

/-- The bytes of the value are read by a decoder of their own, from its position 0. -/
def read (key : SvcParamKey) : Decode SvcParamValue := do
  let len ← readU16
  verifyRemaining (fun len remain => s!"length of SvcParamValue ({len}) exceeds remainder in RDATA ({remain})") len
  let data ← readSlice len
  fun _ i => (readContent key len data 0).map fun p => (p.1, i)

/-- The bytes behind the length. -/
def content : SvcParamValue → List UInt8
  | mandatory keys => keys.flatMap fun key => toBe 2 key.toCode.toNat
  | alpn protocols => protocols.flatMap fun protocol => UInt8.ofNat (utf8 protocol).length :: utf8 protocol
  | noDefaultAlpn => []
  | port value => toBe 2 value.toNat
  | ipv4Hint addresses => addresses.flatMap fun address => toBe 4 address.toNat
  | echConfigList data => data
  | ipv6Hint addresses => addresses.flatMap fun address => toBe 16 address.toNat
  | unknown data => data

/-- The value is of the kind that its key says, and the keys it names are canonical. -/
def Fits (key : SvcParamKey) : SvcParamValue → Prop
  | mandatory keys => key = .mandatory ∧ ∀ k ∈ keys, k.Canonical
  | alpn _ => key = .alpn
  | noDefaultAlpn => key = .noDefaultAlpn
  | port _ => key = .port
  | ipv4Hint _ => key = .ipv4Hint
  | echConfigList _ => key = .echConfigList
  | ipv6Hint _ => key = .ipv6Hint
  | unknown _ => key.isUnknown = true

theorem takes_readKey {k : SvcParamKey} (h : k.Canonical) : Takes readKey (toBe 2 k.toCode.toNat) k := by
  have := (takes_readUInt16 k.toCode).map SvcParamKey.ofCode
  rwa [show SvcParamKey.ofCode k.toCode = k from h] at this

theorem takes_readProtocol {protocol : String} (h : (utf8 protocol).length ≤ 255) :
    Takes readProtocol (UInt8.ofNat (utf8 protocol).length :: utf8 protocol) protocol := by
  have hstring : Takes (stringOf (utf8 protocol)) [] protocol := by
    unfold stringOf
    rw [fromUtf8_utf8]
    exact .pure protocol
  have := (takes_readCharacterData h).bind hstring
  rwa [List.append_nil] at this

theorem puts_emitKey (key : SvcParamKey) : Puts medium (emitKey key) (toBe 2 key.toCode.toNat) := puts_emitU16 _

theorem puts_emitProtocol (protocol : String) :
    Puts medium (emitProtocol protocol) (UInt8.ofNat (utf8 protocol).length :: utf8 protocol) :=
  puts_emitCharacterData _

theorem puts_emitContent (value : SvcParamValue) : Puts medium value.emitContent value.content := by
  cases value with
  | mandatory keys =>
    simp only [emitContent]
    split_ifs
    · exact .throw _ _
    · exact .forM puts_emitKey keys
  | alpn protocols =>
    simp only [emitContent]
    split_ifs
    · exact .throw _ _
    · exact .forM puts_emitProtocol protocols
  | noDefaultAlpn => exact .pure _
  | port value => exact puts_emitU16 value
  | ipv4Hint addresses => exact .forM puts_A addresses
  | echConfigList data => exact puts_emitVec data
  | ipv6Hint addresses => exact .forM puts_AAAA addresses
  | unknown data => exact puts_emitVec data

/-- Values one behind the other are read to the end of the bytes they are written as. -/
theorem scanAll_whole {V : Type} {r : Decode V} {f : V → List UInt8} {vs : List V} (hpos : ∀ v, 0 < (f v).length)
    (h : ∀ v ∈ vs, Takes r (f v) v) :
    scanAll r (vs.flatMap f).length (vs.flatMap f).length (vs.flatMap f) 0 = .ok (vs, (vs.flatMap f).length) := by
  have := takes_scanAll (g := id) hpos h (stands_self (vs.flatMap f))
  rwa [Nat.zero_add, List.map_id] at this

theorem readSlice_whole (data : List UInt8) : readSlice data.length data 0 = .ok (data, data.length) := by
  have := (takes_slice data).takes (stands_self data)
  rwa [Nat.zero_add] at this

/-- A value that could be written is read back off its own bytes. -/
theorem readContent_content {key : SvcParamKey} {value : SvcParamValue} (h : value.Fits key) {s s' : BinEncoder}
    {u : Unit} (hw : value.emitContent s = .ok u s') :
    readContent key value.content.length value.content 0 = .ok (value, value.content.length) := by
  cases value with
  | mandatory keys =>
    obtain ⟨rfl, hkeys⟩ := h
    simp only [emitContent] at hw
    split_ifs at hw with hempty
    · cases hw
    refine Scan.bind_ok (scanAll_whole (fun k => by simp) fun k hk => takes_readKey (hkeys k hk)) ?_
    rw [if_neg hempty]
    rfl
  | alpn protocols =>
    obtain rfl := h
    simp only [emitContent] at hw
    split_ifs at hw with hempty
    · cases hw
    have hshort : ∀ p ∈ protocols, (utf8 p).length ≤ 255 := fun p hp => by
      obtain ⟨s₁, s₂, u, hp⟩ := forM_eq_ok hw p hp
      exact length_le_of_emitCharacterData hp
    refine Scan.bind_ok (scanAll_whole (fun p => by simp) fun p hp => takes_readProtocol (hshort p hp)) ?_
    rw [if_neg hempty]
    rfl
  | noDefaultAlpn =>
    obtain rfl := h
    rfl
  | port value =>
    obtain rfl := h
    have hread := (takes_readUInt16 value).takes (stands_self (toBe 2 value.toNat))
    exact Scan.bind_ok hread (by rw [Nat.zero_add]; rfl)
  | ipv4Hint addresses =>
    obtain rfl := h
    exact Scan.bind_ok (scanAll_whole (fun a => by simp) fun a _ => takes_A a) rfl
  | echConfigList data =>
    obtain rfl := h
    exact Scan.bind_ok (readSlice_whole data) rfl
  | ipv6Hint addresses =>
    obtain rfl := h
    exact Scan.bind_ok (scanAll_whole (fun a => by simp) fun a _ => takes_AAAA a) rfl
  | unknown data =>
    have h : key.isUnknown = true := h
    cases key with
    | key code => exact Scan.bind_ok (readSlice_whole data) rfl
    | key65535 => exact Scan.bind_ok (readSlice_whole data) rfl
    | unknown code => exact Scan.bind_ok (readSlice_whole data) rfl
    | _ => cases h

/-- The value with its length in front. -/
def bytes (value : SvcParamValue) : List UInt8 := lengthBytes value.content.length ++ value.content

theorem puts_emit (value : SvcParamValue) : Puts medium value.emit value.bytes :=
  puts_withLength value.puts_emitContent

theorem takes_read {key : SvcParamKey} {value : SvcParamValue} (h : value.Fits key)
    (hlen : value.content.length ≤ 65535) {s s' : BinEncoder} {u : Unit} (hw : value.emitContent s = .ok u s') :
    Takes (read key) value.bytes value where
  takes {d i} hd := by
    obtain ⟨hfront, hcontent⟩ := stands_append.mp hd
    rw [length_lengthBytes] at hcontent
    have hread : readU16 d i = .ok (value.content.length, i + 2) := (takes_lengthBytes hlen).takes hfront
    have hroom : value.content.length ≤ d.length - (i + 2) := by
      have := congrArg List.length hcontent.drop_eq
      rw [List.length_append, List.length_drop, List.length_drop] at this
      omega
    refine Scan.bind_ok hread (Scan.bind_ok (if_pos hroom) (Scan.bind_ok ((takes_slice _).takes hcontent) ?_))
    rw [readContent_content h hw]
    simp [Except.map, bytes, lengthBytes, Nat.add_assoc]

theorem content_fits {value : SvcParamValue} {s s' : BinEncoder} {u : Unit} {H : ℕ → Prop} (hco : Coherent H s)
    (hw : value.emit s = .ok u s') : value.content.length ≤ 65535 ∧ ∃ s₁ s₂ u, value.emitContent s₁ = .ok u s₂ := by
  have hco' : Coherent H s' := value.puts_emit.coherent hco hw
  have hoff : s'.offset = s.offset + value.bytes.length := value.puts_emit.offset_eq hco hw
  have hle := hco'.offset_le_max
  have hmax := hco'.max_le
  have hlen : value.bytes.length = 2 + value.content.length := by
    rw [bytes, List.length_append, length_lengthBytes]
  exact ⟨by omega, body_of_withLength hw⟩

end SvcParamValue

/-! ### Service bindings -/

structure SVCB where
  svcPriority : UInt16
  targetName : Name
  svcParams : List (SvcParamKey × SvcParamValue)

namespace SVCB

open SvcParamValue (emitKey readKey)

/-- The key does not come behind the last one. -/
def outOfOrder (lastKey : Option SvcParamKey) (key : SvcParamKey) : Bool :=
  match lastKey with
  | some last => key.toCode ≤ last.toCode
  | none => false

def emitParams : Option SvcParamKey → List (SvcParamKey × SvcParamValue) → Emit Unit
  | _, [] => pure ()
  | lastKey, param :: params =>
    if outOfOrder lastKey param.1 then throw (.message "SvcParams out of order")
    else do
      emitKey param.1
      param.2.emit
      emitParams (some param.1) params

def emit (svcb : SVCB) : Emit Unit :=
  withRdataBehavior .other do
    emitU16 svcb.svcPriority
    emitName svcb.targetName
    emitParams none svcb.svcParams

def badLength (consumed : ℕ) : ProtoErrorKind := .message s!"Bad length for RDATA of SVCB: {consumed}"

/-- One parameter more; `last` is where the record data ends. -/
def readParam (start last : ℕ) (params : List (SvcParamKey × SvcParamValue)) :
    Decode (List (SvcParamKey × SvcParamValue)) := do
  let key ← readKey
  let value ← SvcParamValue.read key
  if outOfOrder (params.getLast?.map (·.1)) key then throw (.message "SvcParams out of order")
  else do
    let index ← get
    if index > last then throw (badLength (index - start)) else return params ++ [(key, value)]

/-- `read_data`; there are parameters as long as four bytes are left for a key and a length. -/
def readData (rdataLength : ℕ) : Decode SVCB := do
  let start ← get
  let svcPriority ← readUInt16
  let targetName ← readName
  let index ← get
  if index - start > rdataLength then throw (badLength (index - start))
  else do
    let last := start + rdataLength
    let svcParams ← scanUntil (readParam start last) (last - 3) rdataLength []
    return { svcPriority, targetName, svcParams }

/-- The target does not exceed what a name may be, and each value is of the kind of its key. -/
structure WellFormed (svcb : SVCB) : Prop where
  short : svcb.targetName.encodedSize ≤ 255
  keys : ∀ param ∈ svcb.svcParams, param.1.Canonical
  values : ∀ param ∈ svcb.svcParams, param.2.Fits param.1

def received (svcb : SVCB) : SVCB := { svcb with targetName := svcb.targetName.setFqdn true }

def paramBytes (param : SvcParamKey × SvcParamValue) : List UInt8 := toBe 2 param.1.toCode.toNat ++ param.2.bytes

theorem length_paramBytes (param : SvcParamKey × SvcParamValue) :
    (paramBytes param).length = 4 + param.2.content.length := by
  unfold paramBytes SvcParamValue.bytes
  rw [List.length_append, List.length_append, toBe_length, length_lengthBytes]
  omega

theorem puts_emitParams : ∀ (lastKey : Option SvcParamKey) (params : List (SvcParamKey × SvcParamValue)),
    Puts medium (emitParams lastKey params) (params.flatMap paramBytes)
  | _, [] => .pure _
  | lastKey, param :: params => by
    unfold emitParams
    split_ifs
    · exact .throw _ _
    · have := (SvcParamValue.puts_emitKey param.1).bind fun _ => param.2.puts_emit.bind fun _ =>
        puts_emitParams (some param.1) params
      rwa [← List.append_assoc] at this

/-- What holds of parameters that were written: they are in order, and each could be written. -/
inductive Written : Option SvcParamKey → List (SvcParamKey × SvcParamValue) → Prop
  | nil {lastKey : Option SvcParamKey} : Written lastKey []
  | cons {lastKey : Option SvcParamKey} {param : SvcParamKey × SvcParamValue}
      {params : List (SvcParamKey × SvcParamValue)} : outOfOrder lastKey param.1 = false →
      param.2.content.length ≤ 65535 → (∃ s s' u, param.2.emitContent s = .ok u s') → Written (some param.1) params →
      Written lastKey (param :: params)

theorem written_of_emitParams {H : ℕ → Prop} : ∀ {params : List (SvcParamKey × SvcParamValue)}
    {lastKey : Option SvcParamKey} {s s' : BinEncoder} {u : Unit}, Coherent H s →
    emitParams lastKey params s = .ok u s' → Written lastKey params
  | [], _, _, _, _, _, _ => .nil
  | param :: params, lastKey, s, s', u, hco, hw => by
    unfold emitParams at hw
    split_ifs at hw with horder
    · cases hw
    obtain ⟨u₁, s₁, hkey, hw⟩ := write_bind_eq_ok_iff.mp hw
    obtain ⟨u₂, s₂, hvalue, hw⟩ := write_bind_eq_ok_iff.mp hw
    have hco₁ : Coherent H s₁ := (SvcParamValue.puts_emitKey param.1).coherent hco hkey
    have hco₂ : Coherent H s₂ := param.2.puts_emit.coherent hco₁ hvalue
    obtain ⟨hlen, hcontent⟩ := SvcParamValue.content_fits hco₁ hvalue
    exact .cons (Bool.eq_false_iff.mpr horder) hlen hcontent (written_of_emitParams hco₂ hw)

/-- The loop reads the parameters that stand there, to their end. -/
theorem scanUntil_params {d : List UInt8} {start last : ℕ} : ∀ (params acc : List (SvcParamKey × SvcParamValue))
    {i rounds : ℕ}, Written (acc.getLast?.map (·.1)) params → (∀ param ∈ params, param.1.Canonical) →
    (∀ param ∈ params, param.2.Fits param.1) → Stands d i (params.flatMap paramBytes) →
    last = i + (params.flatMap paramBytes).length → (params.flatMap paramBytes).length ≤ rounds →
    scanUntil (readParam start last) (last - 3) rounds acc d i = .ok (acc ++ params, last)
  | [], acc, i, rounds, _, _, _, _, hlast, _ => by
    rw [hlast, List.append_nil]
    exact scanUntil_of_le _ _ (Nat.sub_le _ _)
  | param :: params, acc, i, rounds, hwritten, hkeys, hvalues, hd, hlast, hrounds => by
    obtain - | ⟨horder, hlen, ⟨s, s', u, hw⟩, hrest⟩ := hwritten
    have hparam := length_paramBytes param
    rw [List.flatMap_cons] at hd hlast hrounds
    rw [List.length_append] at hlast hrounds
    obtain ⟨hd, hds⟩ := stands_append.mp hd
    obtain ⟨hkey, hvalue⟩ := stands_append.mp hd
    obtain ⟨more, rfl⟩ : ∃ more, rounds = more + 1 := ⟨rounds - 1, by omega⟩
    have hreadKey := (SvcParamValue.takes_readKey (hkeys param List.mem_cons_self)).takes hkey
    have hreadValue := (SvcParamValue.takes_read (hvalues param List.mem_cons_self) hlen hw).takes hvalue
    have hend : i + (toBe 2 param.1.toCode.toNat).length + param.2.bytes.length = i + (paramBytes param).length := by
      rw [paramBytes, List.length_append, Nat.add_assoc]
    rw [hend] at hreadValue
    have hstep : readParam start last acc d i = .ok (acc ++ [param], i + (paramBytes param).length) := by
      refine Scan.bind_ok hreadKey (Scan.bind_ok hreadValue ?_)
      rw [if_neg (by simp [horder])]
      refine Scan.bind_ok (a := i + (paramBytes param).length) rfl ?_
      rw [if_neg (by omega)]
      rfl
    rw [scanUntil_of_lt (by omega) hstep, scanUntil_params params (acc ++ [param]) (by simpa using hrest)
      (fun p hp => hkeys p (List.mem_cons_of_mem _ hp)) (fun p hp => hvalues p (List.mem_cons_of_mem _ hp)) hds
      (by omega) (by omega), List.append_assoc, List.singleton_append]

/-- **A service binding is read back.** -/
theorem sends_emit {svcb : SVCB} (h : svcb.WellFormed) : Sends medium svcb.emit readData svcb.received := by
  have hname := sends_emitName h.short
  have hparams := puts_emitParams none svcb.svcParams
  have hsafe := (puts_emitU16 svcb.svcPriority).toSafe.bind fun _ => hname.toSafe.bind fun _ => hparams.toSafe
  refine sends_withRdataBehavior .other ⟨hsafe, fun {H s s' u d} hco hw hd => ?_⟩
  obtain ⟨u₁, s₁, hpriority, hw⟩ := write_bind_eq_ok_iff.mp hw
  obtain ⟨u₂, s₂, htarget, hw⟩ := write_bind_eq_ok_iff.mp hw
  have hco₁ : Coherent H s₁ := (puts_emitU16 _).coherent hco hpriority
  have hco₂ : Coherent H s₂ := hname.coherent hco₁ htarget
  have hd₂ := medium.agrees_of_kept hco₂ (hparams.kept_of_ok hco₂ hw) hd
  have hd₁ := medium.agrees_of_kept hco₁ (hname.kept_of_ok hco₁ htarget) hd₂
  have hoff₁ : s₁.offset = s.offset + 2 := (puts_emitU16 _).offset_eq hco hpriority
  have hoff₂ : s₁.offset ≤ s₂.offset := medium.offset_le hco₁ (hname.kept_of_ok hco₁ htarget)
  have hoff : s'.offset = s₂.offset + (svcb.svcParams.flatMap paramBytes).length := hparams.offset_eq hco₂ hw
  obtain ⟨n, hn⟩ : ∃ n, n = medium.offset s' - medium.offset s := ⟨_, rfl⟩
  have hlast : s.offset + n = s'.offset := by
    rw [hn]
    show s.offset + (s'.offset - s.offset) = s'.offset
    omega
  rw [← hn]
  refine Scan.bind_ok (a := s.offset) rfl ?_
  refine Scan.bind_ok ((sends_emitU16 _).reads hco hpriority hd₁) ?_
  refine Scan.bind_ok (hname.reads hco₁ htarget hd₂) ?_
  refine Scan.bind_ok (a := s₂.offset) rfl ?_
  rw [if_neg (by omega)]
  refine Scan.bind_ok (j := s'.offset) (a := svcb.svcParams) ?_ rfl
  rw [hlast]
  exact scanUntil_params svcb.svcParams [] (written_of_emitParams hco₂ hw) h.keys h.values
    (hparams.stands hco₂ hw hd) hoff (by omega)

theorem moves_readValue (key : SvcParamKey) : Moves (SvcParamValue.read key) 0 := by
  have hcontent (len : ℕ) (data : List UInt8) :
      Moves (fun _ i => (SvcParamValue.readContent key len data 0).map fun p => (p.1, i) : Decode SvcParamValue)
        0 := by
    refine ⟨fun {d i a j} h => ?_⟩
    cases hread : SvcParamValue.readContent key len data 0 with
    | error e =>
      simp only [hread] at h
      cases h
    | ok p =>
      simp only [hread] at h
      cases h
      exact le_refl _
  refine moves_readU16.zero.first fun len => (moves_verifyRemaining _ len).first fun _ => ?_
  exact (moves_readSlice len).zero.first fun data => hcontent len data

theorem moves_readParam (start last : ℕ) (params : List (SvcParamKey × SvcParamValue)) :
    Moves (readParam start last params) 0 := by
  refine .first (moves_readUInt16.zero.first fun _ => .pure _) fun key => (moves_readValue key).first fun value => ?_
  exact .ite (.throw _ _) (Moves.get.first fun _ => .ite (.throw _ _) (.pure _))

theorem moves_readData (rdataLength : ℕ) : Moves (readData rdataLength) 1 := by
  refine .mono (Moves.get.bind fun start => moves_readUInt16.first fun _ => ?_) (by decide)
  refine moves_readName.zero.first fun _ => Moves.get.first fun _ => .ite (.throw _ _) ?_
  exact .first (moves_scanUntil (moves_readParam _ _) _ _ _) fun _ => .pure _

end SVCB

end Wire
end SmartDns
