/-
# Messages for the sets of nftables

An element message names the table and the set and holds one element: the key, a timeout in
milliseconds if there is one, and, for a set of intervals, a second element that ends the first.
The elements of a batch stand between a message that begins it and one that ends it. A query for the
flags of a set names the table and the set, and keeps the length that its header was given first.

Key definitions: `appendSetElem`, `batchPacket`, `encodeGetset`.
Key theorems: `appendSetElem_eq`, `batchPacket_eq`.
-/
import SmartDns.Dns.Ip
import SmartDns.Lib.Netlink

namespace SmartDns
namespace Ffi

open Lib Lib.Netlink

def nfnlSubsysNftables : UInt16 := 10
def nfnlMsgBatchBegin : UInt16 := 0x10
def nfnlMsgBatchEnd : UInt16 := 0x11
def nftMsgNewsetelem : UInt16 := 12
def nftMsgDelsetelem : UInt16 := 14
def nftMsgGetset : UInt16 := 10

def nftaSetElemListTable : ℕ := 1
def nftaSetElemListSet : ℕ := 2
def nftaSetElemListElements : ℕ := 3
def nftaListElem : ℕ := 1
def nftaSetElemKey : ℕ := 1
def nftaSetElemFlags : ℕ := 3
def nftaSetElemTimeout : ℕ := 4
def nftaDataValue : ℕ := 1
def nftSetElemIntervalEnd : ℕ := 1

def nlmFRequest : UInt16 := 0x01
def nlmFAck : UInt16 := 0x04
def nlmFCreate : UInt16 := 0x400

/-- `nfnl_subsys << 8 | msg_type`. -/
def subsysType (msgType : UInt16) : UInt16 := nfnlSubsysNftables <<< 8 ||| msgType

/-- `nffamily_from_str`. -/
def nffamilyFromStr (family : String) : UInt8 :=
  if family = "inet" then 1
  else if family = "ip" then 2
  else if family = "ip6" then 10
  else if family = "arp" then 3
  else if family = "netdev" then 5
  else if family = "bridge" then 7
  else if family = "decnet" then 12
  else 0

/-- `addr_to_bytes`. -/
def addrToBytes : Dns.IpAddr → List UInt8
  | .v4 bits => toBe 4 bits.toNat
  | .v6 bits => toBe 16 bits.toNat

theorem addrToBytes_length_le (a : Dns.IpAddr) : (addrToBytes a).length ≤ 16 := by
  cases a with
  | v4 bits => rw [addrToBytes, toBe_length]; omega
  | v6 bits => rw [addrToBytes, toBe_length]

/-- The octets of an address. -/
abbrev Octets := {bs : List UInt8 // bs.length ≤ 16}

/-- The arguments of `append_set_elem`. -/
structure SetElem where
  msgType : UInt16
  family : UInt8
  table : String
  setName : String
  addr : Octets
  intervalEnd : Option Octets
  timeoutSecs : UInt64
deriving DecidableEq

section

variable (big : Bool)

def pushAttrString (buf : List UInt8) (ty : ℕ) (s : String) : List UInt8 := pushAttr big buf ty (utf8 s ++ [0])

/-- The length is that of a message without attributes, until it is written over. -/
def nlmsgHeader (buf : List UInt8) (header : Header) (resId : UInt16) : List UInt8 :=
  buf ++ headerBytes big 20 header (toNe big 2 resId.toNat)

def encodeBatchBegin (seq : UInt32) : List UInt8 :=
  nlmsgHeader big [] ⟨nfnlMsgBatchBegin, nlmFRequest, seq, 0⟩ nfnlSubsysNftables

def encodeBatchEnd (seq : UInt32) : List UInt8 :=
  nlmsgHeader big [] ⟨nfnlMsgBatchEnd, nlmFRequest ||| nlmFAck, seq, 0⟩ nfnlSubsysNftables

/-- `timeout_secs.saturating_mul(1000)`. -/
def millis (timeoutSecs : UInt64) : ℕ := min (timeoutSecs.toNat * 1000) (2 ^ 64 - 1)

/-- The key of `append_set_elem`: a value in a nest. -/
def pushKey (buf addr : List UInt8) : List UInt8 :=
  closeNested big (pushAttr big (openNested big buf nftaSetElemKey) nftaDataValue addr) buf.length

/-- The element of `append_set_elem`. -/
def pushListElem (buf addr : List UInt8) (timeoutSecs : UInt64) : List UInt8 :=
  let elem := buf.length
  let buf := openNested big buf nftaListElem
  let buf := pushKey big buf addr
  let buf := if 0 < timeoutSecs.toNat then pushAttr big buf nftaSetElemTimeout (toBe 8 (millis timeoutSecs)) else buf
  closeNested big buf elem

/-- The element of `append_set_elem` that ends an interval. -/
def pushIntervalEnd (buf : List UInt8) : Option Octets → List UInt8
  | none => buf
  | some ⟨endAddr, _⟩ =>
    let intervalElem := buf.length
    let buf := openNested big buf nftaListElem
    let buf := pushAttr big buf nftaSetElemFlags (toBe 4 nftSetElemIntervalEnd)
    let buf := pushKey big buf endAddr
    closeNested big buf intervalElem

def setElemHeader (e : SetElem) (seq : UInt32) : Header :=
  ⟨subsysType e.msgType, nlmFRequest ||| nlmFCreate, seq, e.family⟩

def appendSetElem (seq : UInt32) (buf : List UInt8) (e : SetElem) : List UInt8 :=
  let msgStart := buf.length
  let buf := nlmsgHeader big buf (setElemHeader e seq) 0
  let buf := pushAttrString big buf nftaSetElemListTable e.table
  let buf := pushAttrString big buf nftaSetElemListSet e.setName
  let list := buf.length
  let buf := openNested big buf nftaSetElemListElements
  let buf := pushListElem big buf e.addr.1 e.timeoutSecs
  let buf := pushIntervalEnd big buf e.intervalEnd
  let buf := closeNested big buf list
  patch buf msgStart (toNe big 4 (buf.length - msgStart))

/-- What `add` and `add_batch` send: the elements between the two ends of a batch. -/
def batchPacket (seq : UInt32) (elems : List SetElem) : List UInt8 :=
  elems.foldl (appendSetElem big seq) (encodeBatchBegin big seq) ++ encodeBatchEnd big seq

def encodeGetset (family : UInt8) (table setName : String) (seq : UInt32) : List UInt8 :=
  let buf := nlmsgHeader big [] ⟨subsysType nftMsgGetset, nlmFRequest ||| nlmFAck, seq, family⟩ nfnlSubsysNftables
  let buf := pushAttrString big buf nftaSetElemListTable table
  pushAttrString big buf nftaSetElemListSet setName

/-! ### The bytes of a message -/

def keyBytes (addr : List UInt8) : List UInt8 := attrBytes big nftaSetElemKey (attrBytes big nftaDataValue addr)

def timeoutBytes (timeoutSecs : UInt64) : List UInt8 :=
  if 0 < timeoutSecs.toNat then attrBytes big nftaSetElemTimeout (toBe 8 (millis timeoutSecs)) else []

def listElemBytes (addr : List UInt8) (timeoutSecs : UInt64) : List UInt8 :=
  attrBytes big nftaListElem (keyBytes big addr ++ timeoutBytes big timeoutSecs)

def intervalEndBytes : Option Octets → List UInt8
  | none => []
  | some ⟨endAddr, _⟩ =>
    attrBytes big nftaListElem (attrBytes big nftaSetElemFlags (toBe 4 nftSetElemIntervalEnd) ++ keyBytes big endAddr)

def bodyBytes (e : SetElem) : List UInt8 :=
  attrBytes big nftaSetElemListTable (utf8 e.table ++ [0]) ++
    (attrBytes big nftaSetElemListSet (utf8 e.setName ++ [0]) ++
      attrBytes big nftaSetElemListElements
        (listElemBytes big e.addr.1 e.timeoutSecs ++ intervalEndBytes big e.intervalEnd))

def setElemBytes (seq : UInt32) (e : SetElem) : List UInt8 :=
  headerBytes big (20 + (bodyBytes big e).length) (setElemHeader e seq) (toNe big 2 0) ++ bodyBytes big e

theorem dvd_keyBytes_length (addr : List UInt8) : 4 ∣ (keyBytes big addr).length := dvd_attrBytes_length big _ _

theorem dvd_timeoutBytes_length (timeoutSecs : UInt64) : 4 ∣ (timeoutBytes big timeoutSecs).length := by
  unfold timeoutBytes
  split_ifs with h
  · exact dvd_attrBytes_length big _ _
  · exact dvd_zero 4

theorem dvd_intervalEndBytes_length (intervalEnd : Option Octets) :
    4 ∣ (intervalEndBytes big intervalEnd).length := by
  cases intervalEnd with
  | none => exact dvd_zero 4
  | some endAddr => exact dvd_attrBytes_length big _ _

theorem dvd_bodyBytes_length (e : SetElem) : 4 ∣ (bodyBytes big e).length :=
  dvd_length_append (dvd_attrBytes_length big _ _)
    (dvd_length_append (dvd_attrBytes_length big _ _) (dvd_attrBytes_length big _ _))

theorem pushKey_eq {buf : List UInt8} (h : 4 ∣ buf.length) (addr : List UInt8) :
    pushKey big buf addr = buf ++ keyBytes big addr := by
  unfold pushKey keyBytes
  rw [pushAttr_eq big (dvd_openNested_length big h _), closeNested_openNested big h (dvd_attrBytes_length big _ _)]

theorem pushListElem_eq {buf : List UInt8} (h : 4 ∣ buf.length) (addr : List UInt8) (timeoutSecs : UInt64) :
    pushListElem big buf addr timeoutSecs = buf ++ listElemBytes big addr timeoutSecs := by
  have hopen := dvd_openNested_length big h nftaListElem
  have hkey := dvd_length_append hopen (dvd_keyBytes_length big addr)
  have htimeout : (if 0 < timeoutSecs.toNat then
      pushAttr big (openNested big buf nftaListElem ++ keyBytes big addr) nftaSetElemTimeout
        (toBe 8 (millis timeoutSecs))
      else openNested big buf nftaListElem ++ keyBytes big addr) =
        openNested big buf nftaListElem ++ (keyBytes big addr ++ timeoutBytes big timeoutSecs) := by
    unfold timeoutBytes
    split_ifs with ht
    · rw [pushAttr_eq big hkey, List.append_assoc]
    · rw [List.append_nil]
  show closeNested big (if 0 < timeoutSecs.toNat then _ else _) buf.length = _
  rw [pushKey_eq big hopen, htimeout]
  exact closeNested_openNested big h
    (dvd_length_append (dvd_keyBytes_length big addr) (dvd_timeoutBytes_length big timeoutSecs)) nftaListElem

theorem pushIntervalEnd_eq {buf : List UInt8} (h : 4 ∣ buf.length) (intervalEnd : Option Octets) :
    pushIntervalEnd big buf intervalEnd = buf ++ intervalEndBytes big intervalEnd := by
  cases intervalEnd with
  | none => exact (List.append_nil buf).symm
  | some endAddr =>
    have hopen := dvd_openNested_length big h nftaListElem
    have hflags := dvd_attrBytes_length big nftaSetElemFlags (toBe 4 nftSetElemIntervalEnd)
    show closeNested big (pushKey big (pushAttr big _ _ _) endAddr.1) buf.length = _
    rw [pushAttr_eq big hopen, pushKey_eq big (dvd_length_append hopen hflags), List.append_assoc]
    exact closeNested_openNested big h (dvd_length_append hflags (dvd_keyBytes_length big endAddr.1)) nftaListElem

/-- Behind an aligned buffer the bytes of the message are appended. -/
theorem appendSetElem_eq (seq : UInt32) {buf : List UInt8} (h : 4 ∣ buf.length) (e : SetElem) :
    appendSetElem big seq buf e = buf ++ setElemBytes big seq e := by
  have hres : (toNe big 2 (0 : UInt16).toNat).length = 2 := toNe_length big 2 _
  have hhead : 4 ∣ (nlmsgHeader big buf (setElemHeader e seq) 0).length := by
    refine dvd_length_append h ?_
    rw [headerBytes_length big 20 _ hres]
    decide
  have htable := dvd_length_append hhead (dvd_attrBytes_length big nftaSetElemListTable (utf8 e.table ++ [0]))
  have hset := dvd_length_append htable (dvd_attrBytes_length big nftaSetElemListSet (utf8 e.setName ++ [0]))
  have hlist := dvd_openNested_length big hset nftaSetElemListElements
  have helem : 4 ∣ (listElemBytes big e.addr.1 e.timeoutSecs).length := dvd_attrBytes_length big _ _
  -- everything up to the closing of the list
  have hbuf : closeNested big (pushIntervalEnd big (pushListElem big (openNested big (pushAttrString big
      (pushAttrString big (nlmsgHeader big buf (setElemHeader e seq) 0) nftaSetElemListTable e.table)
        nftaSetElemListSet e.setName) nftaSetElemListElements) e.addr.1 e.timeoutSecs) e.intervalEnd)
      (pushAttrString big (pushAttrString big (nlmsgHeader big buf (setElemHeader e seq) 0)
        nftaSetElemListTable e.table) nftaSetElemListSet e.setName).length =
      nlmsgHeader big buf (setElemHeader e seq) 0 ++ bodyBytes big e := by
    unfold pushAttrString
    rw [pushAttr_eq big hhead, pushAttr_eq big htable, pushListElem_eq big hlist,
      pushIntervalEnd_eq big (dvd_length_append hlist helem), List.append_assoc,
      closeNested_openNested big hset (dvd_length_append helem (dvd_intervalEndBytes_length big _))]
    simp only [bodyBytes, List.append_assoc]
  have htotal : (nlmsgHeader big buf (setElemHeader e seq) 0 ++ bodyBytes big e).length - buf.length =
      20 + (bodyBytes big e).length := by
    unfold nlmsgHeader
    rw [List.length_append, List.length_append, headerBytes_length big 20 _ hres]
    omega
  show patch (closeNested big _ _) buf.length (toNe big 4 ((closeNested big _ _).length - buf.length)) = _
  rw [hbuf, htotal]
  unfold nlmsgHeader
  rw [List.append_assoc, patch_headerBytes]
  rfl

theorem dvd_setElemBytes_length (seq : UInt32) (e : SetElem) : 4 ∣ (setElemBytes big seq e).length := by
  refine dvd_length_append ?_ (dvd_bodyBytes_length big e)
  rw [headerBytes_length big _ _ (toNe_length big 2 0)]
  decide

theorem foldl_appendSetElem (seq : UInt32) : ∀ (elems : List SetElem) {buf : List UInt8}, 4 ∣ buf.length →
    elems.foldl (appendSetElem big seq) buf = buf ++ elems.flatMap (setElemBytes big seq)
  | [], buf, _ => (List.append_nil buf).symm
  | e :: elems, buf, h => by
    rw [List.foldl_cons, appendSetElem_eq big seq h,
      foldl_appendSetElem seq elems (dvd_length_append h (dvd_setElemBytes_length big seq e)), List.append_assoc,
      List.flatMap_cons]

theorem batchPacket_eq (seq : UInt32) (elems : List SetElem) :
    batchPacket big seq elems =
      encodeBatchBegin big seq ++ (elems.flatMap (setElemBytes big seq) ++ encodeBatchEnd big seq) := by
  have hbegin : 4 ∣ (encodeBatchBegin big seq).length := by
    show 4 ∣ (headerBytes big 20 _ _).length
    rw [headerBytes_length big 20 _ (toNe_length big 2 _)]
    decide
  unfold batchPacket
  rw [foldl_appendSetElem big seq elems hbegin, List.append_assoc]

end

end Ffi
end SmartDns
