/-
# Well-formed messages

A strict reader of what the two encoders write: the length of every header is that of its message, the
attributes of a message are walked to its very end, a nest holds its attributes and nothing else, and
no attribute stands where it does not belong. An element is read back if and only if its two names are
free of zeros and fit the sixteen bits of their lengths. The query for a set is never read back: its
header says the length of a message without attributes. What is sent for an ipset is read back if and
only if the name is free of zeros and the timeout cut to 32 bits is the largest that fits.

Key definitions: `readBatch`, `readQuery`, `readAdd`, `Request.ReadsBack`, `Request.Fits`.
Key theorems: `readBatch_batchPacket`, `readQuery_encodeGetset`, `readAdd_iff`, `readsBack_iff`.
-/
import SmartDns.Ffi.Ipset

namespace SmartDns
namespace Ffi

open Lib Lib.Netlink

/-- The number, or the largest of so many bits. -/
def clamped (bits v : ℕ) : ℕ := min v (2 ^ bits - 1)

/-- What an element message says. -/
structure SetEntry where
  table : String
  setName : String
  key : List UInt8
  intervalEnd : Option (List UInt8)
  millis : Option ℕ
deriving DecidableEq

inductive Entry
  | batchBegin (seq : UInt32)
  | setElem (msgType : UInt16) (family : UInt8) (seq : UInt32) (e : SetEntry)
  | batchEnd (seq : UInt32)
deriving DecidableEq

/-- What the message of an element is to say. -/
def SetElem.entry (e : SetElem) : SetEntry where
  table := e.table
  setName := e.setName
  key := e.addr.1
  intervalEnd := e.intervalEnd.map Subtype.val
  millis := if 0 < e.timeoutSecs.toNat then some (clamped 64 (e.timeoutSecs.toNat * 1000)) else none

def readName (content : List UInt8) : Option String := (cString content).bind fromUtf8

/-- A name that a string attribute can hold. -/
def NameFits (name : String) : Prop := 0 ∉ utf8 name ∧ (utf8 name).length ≤ 65530

theorem readName_utf8 {name : String} (h : 0 ∉ utf8 name) : readName (utf8 name ++ [0]) = some name := by
  unfold readName
  rw [cString_append h]
  exact fromUtf8_utf8 name

theorem nameFits_of_readName {content : List UInt8} {name : String} (h : readName content = some name)
    (hlen : content.length + 4 < 65536) : NameFits name := by
  obtain ⟨bytes, hbytes, hname⟩ := Option.bind_eq_some_iff.mp h
  obtain ⟨hzero, hlt⟩ := of_cString hbytes
  rw [← utf8_of_fromUtf8 hname] at hzero hlt
  exact ⟨hzero, by omega⟩

section

variable (big : Bool)

/-! ### Reading elements -/

def readKey (content : List UInt8) : Option (List UInt8) :=
  match readAttrs big content with
  | some [(ty, value)] => if ty = nftaDataValue then some value else none
  | _ => none

def readListElem (content : List UInt8) : Option (List UInt8 × Option ℕ) :=
  match readAttrs big content with
  | some [(k, key)] => if k = nftaSetElemKey then (readKey big key).map fun key => (key, none) else none
  | some [(k, key), (t, timeout)] =>
    if k = nftaSetElemKey ∧ t = nftaSetElemTimeout ∧ timeout.length = 8 then
      (readKey big key).map fun key => (key, some (ofBe timeout)) else none
  | _ => none

def readIntervalEnd (content : List UInt8) : Option (List UInt8) :=
  match readAttrs big content with
  | some [(f, flags), (k, key)] =>
    if f = nftaSetElemFlags ∧ flags.length = 4 ∧ ofBe flags = nftSetElemIntervalEnd ∧ k = nftaSetElemKey then
      readKey big key else none
  | _ => none

def readElements (content : List UInt8) : Option ((List UInt8 × Option ℕ) × Option (List UInt8)) :=
  match readAttrs big content with
  | some [(a, elem)] => if a = nftaListElem then (readListElem big elem).map fun e => (e, none) else none
  | some [(a, elem), (b, intervalEnd)] =>
    if a = nftaListElem ∧ b = nftaListElem then
      (readListElem big elem).bind fun e => (readIntervalEnd big intervalEnd).map fun endKey => (e, some endKey)
    else none
  | _ => none

def readSetElem (m : Message) : Option SetEntry :=
  match m.attrs with
  | [(t, table), (s, setName), (l, list)] =>
    if t = nftaSetElemListTable ∧ s = nftaSetElemListSet ∧ l = nftaSetElemListElements then
      (readName table).bind fun table => (readName setName).bind fun setName =>
        (readElements big list).map fun r => ⟨table, setName, r.1.1, r.2, r.1.2⟩
    else none
  | _ => none

def readEntry (m : Message) : Option Entry :=
  if m.header.msgType = nfnlMsgBatchBegin ∧ m.attrs = [] then some (.batchBegin m.header.seq)
  else if m.header.msgType = nfnlMsgBatchEnd ∧ m.attrs = [] then some (.batchEnd m.header.seq)
  else (readSetElem big m).map (.setElem m.header.msgType m.header.family m.header.seq)

/-- The entries of a packet, up to its very end. -/
def readBatch (packet : List UInt8) : Option (List Entry) :=
  walk (readFurther (readMessage big) (readEntry big)) packet

theorem readKey_attrBytes {addr : List UInt8} (h : addr.length ≤ 16) :
    readKey big (attrBytes big nftaDataValue addr) = some addr := by
  unfold readKey
  rw [readAttrs_of_one big (by decide) (by omega)]
  rfl

theorem keyBytes_length_le {addr : List UInt8} (h : addr.length ≤ 16) : (keyBytes big addr).length ≤ 30 := by
  have h₁ := attrBytes_length_le big nftaSetElemKey (attrBytes big nftaDataValue addr)
  have h₂ := attrBytes_length_le big nftaDataValue addr
  unfold keyBytes
  omega

theorem timeoutBytes_length_le (timeoutSecs : UInt64) : (timeoutBytes big timeoutSecs).length ≤ 15 := by
  unfold timeoutBytes
  split_ifs with h
  · have hlen := attrBytes_length_le big nftaSetElemTimeout (toBe 8 (millis timeoutSecs))
    rwa [toBe_length] at hlen
  · exact Nat.zero_le 15

theorem readAttrs_keyBytes {addr : List UInt8} (h : addr.length ≤ 16) (rest : List UInt8) :
    readAttrs big (keyBytes big addr ++ rest) =
      (readAttrs big rest).map fun attrs => (nftaSetElemKey, attrBytes big nftaDataValue addr) :: attrs := by
  have hlen := attrBytes_length_le big nftaDataValue addr
  exact readAttrs_attrBytes big (by decide) (by omega) rest

/-- The element without its timeout, and with it. -/
theorem readListElem_bytes {addr : List UInt8} (h : addr.length ≤ 16) (timeoutSecs : UInt64) :
    readListElem big (keyBytes big addr ++ timeoutBytes big timeoutSecs) =
      some (addr, if 0 < timeoutSecs.toNat then some (clamped 64 (timeoutSecs.toNat * 1000)) else none) := by
  have hkey := readKey_attrBytes big h
  unfold readListElem timeoutBytes
  rw [readAttrs_keyBytes big h]
  by_cases ht : 0 < timeoutSecs.toNat
  · rw [if_pos ht, if_pos ht, readAttrs_of_one big (by decide) (by rw [toBe_length]; decide)]
    have hlen : (toBe 8 (millis timeoutSecs)).length = 8 := toBe_length 8 _
    have hvalue : ofBe (toBe 8 (millis timeoutSecs)) = clamped 64 (timeoutSecs.toNat * 1000) := by
      rw [ofBe_toBe]
      unfold millis clamped
      omega
    show (if _ ∧ _ ∧ (toBe 8 (millis timeoutSecs)).length = 8 then _ else none) = _
    rw [if_pos ⟨rfl, rfl, hlen⟩, hkey, hvalue]
    rfl
  · rw [if_neg ht, if_neg ht]
    show (if _ then (readKey big (attrBytes big nftaDataValue addr)).map _ else none) = _
    rw [if_pos rfl, hkey]
    rfl

theorem readIntervalEnd_bytes {addr : List UInt8} (h : addr.length ≤ 16) :
    readIntervalEnd big (attrBytes big nftaSetElemFlags (toBe 4 nftSetElemIntervalEnd) ++ keyBytes big addr) =
      some addr := by
  unfold readIntervalEnd
  rw [readAttrs_attrBytes big (by decide) (by rw [toBe_length]; decide), ← List.append_nil (keyBytes big addr),
    readAttrs_keyBytes big h]
  have hflags : (toBe 4 nftSetElemIntervalEnd).length = 4 := toBe_length 4 _
  have hvalue : ofBe (toBe 4 nftSetElemIntervalEnd) = nftSetElemIntervalEnd := ofBe_toBe 4 1
  show (if _ ∧ (toBe 4 nftSetElemIntervalEnd).length = 4 ∧ ofBe (toBe 4 nftSetElemIntervalEnd) = _ ∧ _ then _
    else none) = _
  rw [if_pos ⟨rfl, hflags, hvalue, rfl⟩]
  exact readKey_attrBytes big h

theorem readElements_bytes (e : SetElem) :
    readElements big (listElemBytes big e.addr.1 e.timeoutSecs ++ intervalEndBytes big e.intervalEnd) =
      some ((e.addr.1, e.entry.millis), e.intervalEnd.map Subtype.val) := by
  have helem := readListElem_bytes big e.addr.2 e.timeoutSecs
  have hkey := keyBytes_length_le big e.addr.2
  have htimeout := timeoutBytes_length_le big e.timeoutSecs
  have hlen : (keyBytes big e.addr.1 ++ timeoutBytes big e.timeoutSecs).length + 4 < 65536 := by
    rw [List.length_append]
    omega
  unfold readElements
  cases hend : e.intervalEnd with
  | none =>
    have hlist : readAttrs big (listElemBytes big e.addr.1 e.timeoutSecs ++ intervalEndBytes big none) =
        some [(nftaListElem, keyBytes big e.addr.1 ++ timeoutBytes big e.timeoutSecs)] := by
      rw [intervalEndBytes, List.append_nil]
      exact readAttrs_of_one big (by decide) hlen
    rw [hlist]
    show (if _ then (readListElem big _).map _ else none) = _
    rw [if_pos rfl, helem]
    rfl
  | some endAddr =>
    have haddr : endAddr.1.length ≤ 16 := endAddr.2
    have hendKey := keyBytes_length_le big haddr
    have hflags := attrBytes_length_le big nftaSetElemFlags (toBe 4 nftSetElemIntervalEnd)
    have hlist : readAttrs big (listElemBytes big e.addr.1 e.timeoutSecs ++ intervalEndBytes big (some endAddr)) =
        some [(nftaListElem, keyBytes big e.addr.1 ++ timeoutBytes big e.timeoutSecs),
          (nftaListElem,
            attrBytes big nftaSetElemFlags (toBe 4 nftSetElemIntervalEnd) ++ keyBytes big endAddr.1)] := by
      unfold listElemBytes intervalEndBytes
      rw [readAttrs_attrBytes big (by decide) hlen, readAttrs_of_one big (by decide)]
      · rfl
      · rw [toBe_length] at hflags
        rw [List.length_append]
        omega
    rw [hlist]
    show (if _ ∧ _ then (readListElem big _).bind _ else none) = _
    rw [if_pos ⟨rfl, rfl⟩, helem]
    show (readIntervalEnd big _).map _ = _
    rw [readIntervalEnd_bytes big haddr]
    rfl

theorem listElements_length_le (e : SetElem) :
    (listElemBytes big e.addr.1 e.timeoutSecs ++ intervalEndBytes big e.intervalEnd).length ≤ 120 := by
  have hkey := keyBytes_length_le big e.addr.2
  have htimeout := timeoutBytes_length_le big e.timeoutSecs
  have helem := attrBytes_length_le big nftaListElem (keyBytes big e.addr.1 ++ timeoutBytes big e.timeoutSecs)
  have hend : (intervalEndBytes big e.intervalEnd).length ≤ 60 := by
    cases h : e.intervalEnd with
    | none => exact Nat.zero_le 60
    | some endAddr =>
      have hendKey := keyBytes_length_le big endAddr.2
      have hflags := attrBytes_length_le big nftaSetElemFlags (toBe 4 nftSetElemIntervalEnd)
      have hattr := attrBytes_length_le big nftaListElem
        (attrBytes big nftaSetElemFlags (toBe 4 nftSetElemIntervalEnd) ++ keyBytes big endAddr.1)
      rw [toBe_length] at hflags
      rw [List.length_append] at hattr
      show (attrBytes big nftaListElem _).length ≤ 60
      omega
  rw [List.length_append] at helem ⊢
  unfold listElemBytes
  omega

/-- The attributes of an element message. -/
def setElemAttrs (e : SetElem) : List (ℕ × List UInt8) :=
  [(nftaSetElemListTable, utf8 e.table ++ [0]), (nftaSetElemListSet, utf8 e.setName ++ [0]),
    (nftaSetElemListElements, listElemBytes big e.addr.1 e.timeoutSecs ++ intervalEndBytes big e.intervalEnd)]

theorem readAttrs_bodyBytes {e : SetElem} (ht : (utf8 e.table).length ≤ 65530)
    (hs : (utf8 e.setName).length ≤ 65530) : readAttrs big (bodyBytes big e) = some (setElemAttrs big e) := by
  have hlist := listElements_length_le big e
  unfold bodyBytes
  rw [readAttrs_attrBytes big (by decide) (by rw [List.length_append, List.length_singleton]; omega),
    readAttrs_attrBytes big (by decide) (by rw [List.length_append, List.length_singleton]; omega),
    readAttrs_of_one big (by decide) (by omega)]
  rfl

theorem readEntry_setElem {e : SetElem} (ht : NameFits e.table) (hs : NameFits e.setName) (seq : UInt32) :
    readEntry big ⟨setElemHeader e seq, setElemAttrs big e⟩ =
      some (.setElem (subsysType e.msgType) e.family seq e.entry) := by
  have hne : setElemAttrs big e ≠ [] := nofun
  unfold readEntry
  rw [if_neg (fun h => hne h.2), if_neg (fun h => hne h.2)]
  have hread : readSetElem big ⟨setElemHeader e seq, setElemAttrs big e⟩ = some e.entry := by
    show (if nftaSetElemListTable = nftaSetElemListTable ∧ nftaSetElemListSet = nftaSetElemListSet ∧
      nftaSetElemListElements = nftaSetElemListElements then (readName (utf8 e.table ++ [0])).bind _ else none) = _
    rw [if_pos ⟨rfl, rfl, rfl⟩, readName_utf8 ht.1]
    show (readName (utf8 e.setName ++ [0])).bind _ = _
    rw [readName_utf8 hs.1]
    show (readElements big _).map _ = _
    rw [readElements_bytes big e]
    rfl
  rw [hread]
  rfl

/-- The names of an element that is read. -/
theorem nameFits_of_readSetElem {m : Message} {e : SetEntry} (h : readSetElem big m = some e)
    (hlen : ∀ a ∈ m.attrs, a.2.length + 4 < 65536) : NameFits e.table ∧ NameFits e.setName := by
  unfold readSetElem at h
  split at h
  · rename_i t table s setName l list hattrs
    split_ifs at h with htypes
    obtain ⟨tableName, htable, h⟩ := Option.bind_eq_some_iff.mp h
    obtain ⟨name, hname, h⟩ := Option.bind_eq_some_iff.mp h
    obtain ⟨r, -, rfl⟩ := Option.map_eq_some_iff.mp h
    rw [hattrs] at hlen
    exact ⟨nameFits_of_readName htable (hlen (t, table) List.mem_cons_self),
      nameFits_of_readName hname (hlen (s, setName) (List.mem_cons_of_mem _ List.mem_cons_self))⟩
  · cases h

theorem nameFits_of_readEntry {m : Message} {msgType : UInt16} {family : UInt8} {seq : UInt32} {e : SetEntry}
    (h : readEntry big m = some (.setElem msgType family seq e)) (hlen : ∀ a ∈ m.attrs, a.2.length + 4 < 65536) :
    NameFits e.table ∧ NameFits e.setName := by
  unfold readEntry at h
  split_ifs at h with hbegin hend
  · cases h
  · cases h
  · obtain ⟨e', he, heq⟩ := Option.map_eq_some_iff.mp h
    obtain ⟨-, -, -, rfl⟩ := Entry.setElem.inj heq
    exact nameFits_of_readSetElem big he hlen

/-- A message without attributes. -/
theorem readMessage_nlmsgHeader (header : Header) (resId : UInt16) (rest : List UInt8) :
    readMessage big (nlmsgHeader big [] header resId ++ rest) = some (⟨header, []⟩, rest) := by
  have hnil : 4 ∣ ([] : List UInt8).length := dvd_zero 4
  have h := readMessage_headerBytes big header (toNe_length big 2 resId.toNat) hnil (by decide) rest
  rw [List.append_nil] at h
  exact h

theorem readFurther_begin (seq : UInt32) (rest : List UInt8) :
    readFurther (readMessage big) (readEntry big) (encodeBatchBegin big seq ++ rest) =
      some (.batchBegin seq, rest) := by
  apply readFurther_eq_some_iff.mpr
  exact ⟨_, readMessage_nlmsgHeader big _ _ rest, if_pos ⟨rfl, rfl⟩⟩

theorem readFurther_end (seq : UInt32) (rest : List UInt8) :
    readFurther (readMessage big) (readEntry big) (encodeBatchEnd big seq ++ rest) = some (.batchEnd seq, rest) := by
  apply readFurther_eq_some_iff.mpr
  refine ⟨_, readMessage_nlmsgHeader big _ _ rest, ?_⟩
  have hne : nfnlMsgBatchEnd ≠ nfnlMsgBatchBegin := by decide
  unfold readEntry
  rw [if_neg (fun h => hne h.1)]
  exact if_pos ⟨rfl, rfl⟩

theorem readFurther_setElem {e : SetElem} (ht : NameFits e.table) (hs : NameFits e.setName) (seq : UInt32)
    (rest : List UInt8) :
    readFurther (readMessage big) (readEntry big) (setElemBytes big seq e ++ rest) =
      some (.setElem (subsysType e.msgType) e.family seq e.entry, rest) := by
  have hlen : 20 + (bodyBytes big e).length < 2 ^ 32 := by
    have hlist := listElements_length_le big e
    have h₁ := attrBytes_length_le big nftaSetElemListTable (utf8 e.table ++ [0])
    have h₂ := attrBytes_length_le big nftaSetElemListSet (utf8 e.setName ++ [0])
    have h₃ := attrBytes_length_le big nftaSetElemListElements
      (listElemBytes big e.addr.1 e.timeoutSecs ++ intervalEndBytes big e.intervalEnd)
    have htable := ht.2
    have hset := hs.2
    unfold bodyBytes
    rw [List.length_append, List.length_singleton] at h₁ h₂
    rw [List.length_append, List.length_append]
    omega
  apply readFurther_eq_some_iff.mpr
  refine ⟨⟨setElemHeader e seq, setElemAttrs big e⟩, ?_, readEntry_setElem big ht hs seq⟩
  unfold setElemBytes
  rw [readMessage_headerBytes big _ (toNe_length big 2 0) (dvd_bodyBytes_length big e) hlen,
    readAttrs_bodyBytes big ht.2 hs.2]
  rfl

def SetElem.Fits (e : SetElem) : Prop := NameFits e.table ∧ NameFits e.setName

/-- What a batch is to say. -/
def batchEntries (seq : UInt32) (elems : List SetElem) : List Entry :=
  .batchBegin seq :: (elems.map fun e => .setElem (subsysType e.msgType) e.family seq e.entry) ++ [.batchEnd seq]

theorem readBatch_setElems (seq : UInt32) : ∀ {elems : List SetElem}, (∀ e ∈ elems, e.Fits) →
    readBatch big (elems.flatMap (setElemBytes big seq) ++ encodeBatchEnd big seq) =
      some ((elems.map fun e => .setElem (subsysType e.msgType) e.family seq e.entry) ++ [.batchEnd seq])
  | [], _ => by
    have hend := readFurther_end big seq []
    rw [List.append_nil] at hend
    exact walk_of_some ((shrinks_readMessage big).readFurther _) hend
  | e :: elems, h => by
    obtain ⟨ht, hs⟩ := h e List.mem_cons_self
    have hrest := readBatch_setElems seq fun e' he' => h e' (List.mem_cons_of_mem _ he')
    unfold readBatch at hrest ⊢
    rw [List.flatMap_cons, List.append_assoc,
      walk_of_some ((shrinks_readMessage big).readFurther _) (readFurther_setElem big ht hs seq _), hrest]
    rfl

/-- A batch is read back exactly when the names of its elements fit. -/
theorem readBatch_batchPacket (seq : UInt32) (elems : List SetElem) :
    readBatch big (batchPacket big seq elems) = some (batchEntries seq elems) ↔ ∀ e ∈ elems, e.Fits := by
  constructor
  · intro h e he
    have hmem : Entry.setElem (subsysType e.msgType) e.family seq e.entry ∈ batchEntries seq elems :=
      List.mem_append_left _ (List.mem_cons_of_mem _ (List.mem_map_of_mem he))
    obtain ⟨t, rest, hread⟩ := exists_of_mem_walk h _ hmem
    obtain ⟨m, hm, hentry⟩ := readFurther_eq_some_iff.mp hread
    exact nameFits_of_readEntry big hentry (length_lt_of_readMessage big hm)
  · intro h
    have hrest := readBatch_setElems big seq h
    unfold readBatch at hrest ⊢
    rw [batchPacket_eq, walk_of_some ((shrinks_readMessage big).readFurther _) (readFurther_begin big seq _), hrest]
    rfl

/-! ### Reading a query -/

def readQuery (packet : List UInt8) : Option (UInt8 × UInt32 × String × String) :=
  (readMessage big packet).bind fun r =>
    match r.1.attrs with
    | [(t, table), (s, setName)] =>
      if r.2 = [] ∧ r.1.header.msgType = subsysType nftMsgGetset ∧ t = nftaSetElemListTable ∧
          s = nftaSetElemListSet then
        (readName table).bind fun table => (readName setName).map fun setName =>
          (r.1.header.family, r.1.header.seq, table, setName)
      else none
    | _ => none

/-- The header of a query leaves its attributes out. -/
theorem readMessage_encodeGetset (family : UInt8) (table setName : String) (seq : UInt32) :
    readMessage big (encodeGetset big family table setName seq) =
      some (⟨⟨subsysType nftMsgGetset, nlmFRequest ||| nlmFAck, seq, family⟩, []⟩,
        attrBytes big nftaSetElemListTable (utf8 table ++ [0]) ++
          attrBytes big nftaSetElemListSet (utf8 setName ++ [0])) := by
  let header : Header := ⟨subsysType nftMsgGetset, nlmFRequest ||| nlmFAck, seq, family⟩
  have hhead : 4 ∣ (nlmsgHeader big [] header nfnlSubsysNftables).length := by
    show 4 ∣ (headerBytes big 20 _ _).length
    rw [headerBytes_length big 20 _ (toNe_length big 2 _)]
    decide
  have htable := dvd_length_append hhead (dvd_attrBytes_length big nftaSetElemListTable (utf8 table ++ [0]))
  have hbytes : encodeGetset big family table setName seq = nlmsgHeader big [] header nfnlSubsysNftables ++
      (attrBytes big nftaSetElemListTable (utf8 table ++ [0]) ++
        attrBytes big nftaSetElemListSet (utf8 setName ++ [0])) := by
    show pushAttr big (pushAttr big _ _ _) _ _ = _
    rw [pushAttr_eq big hhead, pushAttr_eq big htable, List.append_assoc]
  rw [hbytes, readMessage_nlmsgHeader]

theorem readQuery_encodeGetset (family : UInt8) (table setName : String) (seq : UInt32) :
    readQuery big (encodeGetset big family table setName seq) = none := by
  unfold readQuery
  rw [readMessage_encodeGetset]
  rfl

/-! ### Reading what is sent for an ipset -/

/-- The address of an attribute of one of the two types. -/
def ipOf (ty : ℕ) (octets : List UInt8) : Option Dns.IpAddr :=
  if ty = ipsetAttrIpaddrIpv4 ||| nlaFNetByteorder ∧ octets.length = 4 then
    some (.v4 (BitVec.ofNat 32 (ofBe octets)))
  else if ty = ipsetAttrIpaddrIpv6 ||| nlaFNetByteorder ∧ octets.length = 16 then
    some (.v6 (BitVec.ofNat 128 (ofBe octets)))
  else none

theorem ipOf_addrToBytes (addr : Dns.IpAddr) :
    ipOf (addrAttrType addr ||| nlaFNetByteorder) (addrToBytes addr) = some addr := by
  unfold ipOf
  cases addr with
  | v4 bits =>
    have hnat : ofBe (toBe 4 bits.toNat) = bits.toNat := (ofBe_toBe 4 _).trans (Nat.mod_eq_of_lt bits.isLt)
    simp only [addrAttrType, addrToBytes, toBe_length, and_self, if_true, hnat, BitVec.ofNat_toNat, BitVec.setWidth_eq]
  | v6 bits =>
    have hnat : ofBe (toBe 16 bits.toNat) = bits.toNat := (ofBe_toBe 16 _).trans (Nat.mod_eq_of_lt bits.isLt)
    have hne : ¬ (ipsetAttrIpaddrIpv6 ||| nlaFNetByteorder = ipsetAttrIpaddrIpv4 ||| nlaFNetByteorder ∧ 16 = 4) :=
      fun h => absurd h.2 (by decide)
    simp only [addrAttrType, addrToBytes, toBe_length, if_neg hne, and_self, if_true, hnat, BitVec.ofNat_toNat,
      BitVec.setWidth_eq]

def readIp (content : List UInt8) : Option Dns.IpAddr :=
  match readAttrs big content with
  | some [(ty, octets)] => ipOf ty octets
  | _ => none

def readData (content : List UInt8) : Option (Dns.IpAddr × Option ℕ) :=
  match readAttrs big content with
  | some [(i, ip)] => if i = nlaFNested ||| ipsetAttrIp then (readIp big ip).map fun addr => (addr, none) else none
  | some [(i, ip), (t, timeout)] =>
    if i = nlaFNested ||| ipsetAttrIp ∧ t = ipsetAttrTimeout ||| nlaFNetByteorder ∧ timeout.length = 4 then
      (readIp big ip).map fun addr => (addr, some (ofBe timeout)) else none
  | _ => none

def readAddBody (attrs : List (ℕ × List UInt8)) : Option (String × Dns.IpAddr × Option ℕ) :=
  match attrs with
  | [(p, protocol), (n, setname), (d, data)] =>
    if p = ipsetAttrProtocol ∧ protocol = [ipsetProtocol] ∧ n = ipsetAttrSetname ∧
        d = nlaFNested ||| ipsetAttrData then
      (readName setname).bind fun setname => (readData big data).map fun r => (setname, r.1, r.2)
    else none
  | _ => none

/-- The one message of a packet. -/
def readAdd (packet : List UInt8) : Option (UInt32 × String × Dns.IpAddr × Option ℕ) :=
  (readMessage big packet).bind fun r => (readAddBody big r.1.attrs).bind fun b =>
    if r.2 = [] ∧ r.1.header.msgType = ipsetCmdAdd ||| nfnlSubsysIpset <<< 8 ∧ r.1.header.family = af b.2.1 then
      some (r.1.header.seq, b) else none

theorem readIp_attrBytes (addr : Dns.IpAddr) :
    readIp big (attrBytes big (addrAttrType addr ||| nlaFNetByteorder) (addrToBytes addr)) = some addr := by
  have hlen := addrToBytes_length_le addr
  have hty : addrAttrType addr ||| nlaFNetByteorder < 65536 := by
    have h₁ : ipsetAttrIpaddrIpv4 ||| nlaFNetByteorder < 65536 := by decide
    have h₂ : ipsetAttrIpaddrIpv6 ||| nlaFNetByteorder < 65536 := by decide
    cases addr with
    | v4 bits => exact h₁
    | v6 bits => exact h₂
  unfold readIp
  rw [readAttrs_of_one big hty (by omega)]
  exact ipOf_addrToBytes addr

theorem readData_bytes (addr : Dns.IpAddr) (timeout : UInt64) :
    readData big (ipBytes big addr ++ expireBytes big timeout) =
      some (addr, if 0 < timeout.toNat then some (timeout.toNat % 2 ^ 32) else none) := by
  have hlen := addrToBytes_length_le addr
  have hattr := attrBytes_length_le big (addrAttrType addr ||| nlaFNetByteorder) (addrToBytes addr)
  have hread : ∀ rest, readAttrs big (ipBytes big addr ++ rest) = (readAttrs big rest).map fun attrs =>
      (nlaFNested ||| ipsetAttrIp,
        attrBytes big (addrAttrType addr ||| nlaFNetByteorder) (addrToBytes addr)) :: attrs :=
    readAttrs_attrBytes big (by decide) (by omega)
  unfold readData expireBytes
  rw [hread]
  by_cases ht : 0 < timeout.toNat
  · have hfour : (toBe 4 timeout.toUInt32.toNat).length = 4 := toBe_length 4 _
    have hvalue : ofBe (toBe 4 timeout.toUInt32.toNat) = timeout.toNat % 2 ^ 32 := by
      rw [ofBe_toBe, UInt64.toNat_toUInt32]
      omega
    rw [if_pos ht, if_pos ht, readAttrs_of_one big (by decide) (by rw [hfour]; decide)]
    show (if _ ∧ _ ∧ (toBe 4 timeout.toUInt32.toNat).length = 4 then (readIp big _).map _ else none) = _
    rw [if_pos ⟨rfl, rfl, hfour⟩, readIp_attrBytes, hvalue]
    rfl
  · rw [if_neg ht, if_neg ht]
    show (if _ then (readIp big _).map _ else none) = _
    rw [if_pos rfl, readIp_attrBytes]
    rfl

/-- The attributes of the message that adds an address. -/
def addAttrs (setname : String) (addr : Dns.IpAddr) (timeout : UInt64) : List (ℕ × List UInt8) :=
  [(ipsetAttrProtocol, [ipsetProtocol]), (ipsetAttrSetname, utf8 setname ++ [0]),
    (nlaFNested ||| ipsetAttrData, ipBytes big addr ++ expireBytes big timeout)]

theorem addBody_length_le {setname : String} (hname : (utf8 setname).length + 1 ≤ ipsetMaxnamelen)
    (addr : Dns.IpAddr) (timeout : UInt64) : (ipBytes big addr ++ expireBytes big timeout).length ≤ 60 ∧
      (addBody big setname addr timeout).length ≤ 120 := by
  have hlen := addrToBytes_length_le addr
  have h₁ := attrBytes_length_le big (addrAttrType addr ||| nlaFNetByteorder) (addrToBytes addr)
  have h₂ : (ipBytes big addr).length ≤ _ := attrBytes_length_le big (nlaFNested ||| ipsetAttrIp)
    (attrBytes big (addrAttrType addr ||| nlaFNetByteorder) (addrToBytes addr))
  have h₃ : (expireBytes big timeout).length ≤ 11 := by
    unfold expireBytes
    split_ifs with ht
    · have h := attrBytes_length_le big (ipsetAttrTimeout ||| nlaFNetByteorder) (toBe 4 timeout.toUInt32.toNat)
      rwa [toBe_length] at h
    · exact Nat.zero_le 11
  have hdata : (ipBytes big addr ++ expireBytes big timeout).length ≤ 60 := by
    rw [List.length_append]
    omega
  have h₄ := attrBytes_length_le big (nlaFNested ||| ipsetAttrData) (ipBytes big addr ++ expireBytes big timeout)
  have h₅ := attrBytes_length_le big ipsetAttrProtocol [ipsetProtocol]
  have h₆ := attrBytes_length_le big ipsetAttrSetname (utf8 setname ++ [0])
  have hmax : ipsetMaxnamelen = 32 := rfl
  refine ⟨hdata, ?_⟩
  unfold addBody
  rw [List.length_singleton] at h₅
  rw [List.length_append, List.length_singleton] at h₆
  rw [List.length_append, List.length_append]
  omega

theorem length_le_of_encodeAdd {setname : String} {addr : Dns.IpAddr} {timeout : UInt64} {seq : UInt32}
    {packet : List UInt8} (h : encodeAdd big setname addr timeout seq = .ok packet) :
    (utf8 setname).length + 1 ≤ ipsetMaxnamelen := by
  by_contra hlong
  unfold encodeAdd at h
  rw [if_pos (by omega)] at h
  cases h

/-- A message is read with its name, if that is free of zeros, and with the timeout as it was cut. -/
theorem readAdd_encodeAdd {setname : String} {addr : Dns.IpAddr} {timeout : UInt64} {seq : UInt32}
    {packet : List UInt8} (h : encodeAdd big setname addr timeout seq = .ok packet) :
    readAdd big packet = (readName (utf8 setname ++ [0])).map fun name =>
      (seq, name, addr, if 0 < timeout.toNat then some (timeout.toNat % 2 ^ 32) else none) := by
  have hname := length_le_of_encodeAdd big h
  obtain ⟨hdata, hbody⟩ := addBody_length_le big hname addr timeout
  have hmax : ipsetMaxnamelen = 32 := rfl
  have hattrs : readAttrs big (addBody big setname addr timeout) = some (addAttrs big setname addr timeout) := by
    unfold addBody
    rw [readAttrs_attrBytes big (by decide) (by decide),
      readAttrs_attrBytes big (by decide) (by rw [List.length_append, List.length_singleton]; omega),
      readAttrs_of_one big (by decide) (by omega)]
    rfl
  have hmessage := readMessage_headerBytes big (addHeader addr seq) (toBe_length 2 nfnlSubsysIpset.toNat)
    (dvd_addBody_length big setname addr timeout) (by omega) []
  rw [List.append_nil, hattrs] at hmessage
  rw [encodeAdd_eq big hname] at h
  obtain rfl := Except.ok.inj h
  have hread : readAddBody big (addAttrs big setname addr timeout) = (readName (utf8 setname ++ [0])).map fun name =>
      (name, addr, if 0 < timeout.toNat then some (timeout.toNat % 2 ^ 32) else none) := by
    show (if ipsetAttrProtocol = ipsetAttrProtocol ∧ [ipsetProtocol] = [ipsetProtocol] ∧
      ipsetAttrSetname = ipsetAttrSetname ∧ nlaFNested ||| ipsetAttrData = nlaFNested ||| ipsetAttrData then
        (readName (utf8 setname ++ [0])).bind _ else none) = _
    rw [if_pos ⟨rfl, rfl, rfl, rfl⟩, readData_bytes]
    cases readName (utf8 setname ++ [0]) with
    | none => rfl
    | some name => rfl
  unfold readAdd
  rw [hmessage]
  show (readAddBody big (addAttrs big setname addr timeout)).bind _ = _
  rw [hread]
  cases readName (utf8 setname ++ [0]) with
  | none => rfl
  | some name => exact if_pos ⟨rfl, rfl, rfl⟩

/-- The low bits of a timeout are the timeout, cut to the largest that fits. -/
theorem low_eq_clamped_iff (n : ℕ) : n % 2 ^ 32 = clamped 32 n ↔ n < 2 ^ 32 ∨ n % 2 ^ 32 = 2 ^ 32 - 1 := by
  unfold clamped
  omega

/-- What was sent for an ipset is read back exactly when the name is free of zeros and the timeout fits,
or has the largest that fits for its low bits. -/
theorem readAdd_iff {setname : String} {addr : Dns.IpAddr} {timeout : UInt64} {seq : UInt32} {packet : List UInt8}
    (h : encodeAdd big setname addr timeout seq = .ok packet) :
    readAdd big packet =
        some (seq, setname, addr, if 0 < timeout.toNat then some (clamped 32 timeout.toNat) else none) ↔
      0 ∉ utf8 setname ∧ (timeout.toNat < 2 ^ 32 ∨ timeout.toNat % 2 ^ 32 = 2 ^ 32 - 1) := by
  rw [readAdd_encodeAdd big h, ← low_eq_clamped_iff]
  constructor
  · intro hread
    obtain ⟨name, hname, heq⟩ := Option.map_eq_some_iff.mp hread
    obtain ⟨-, hrest⟩ := Prod.mk.inj heq
    obtain ⟨rfl, hrest⟩ := Prod.mk.inj hrest
    obtain ⟨-, htimeout⟩ := Prod.mk.inj hrest
    obtain ⟨bytes, hbytes, hname⟩ := Option.bind_eq_some_iff.mp hname
    obtain ⟨hzero, -⟩ := of_cString hbytes
    rw [← utf8_of_fromUtf8 hname] at hzero
    refine ⟨hzero, ?_⟩
    by_cases ht : 0 < timeout.toNat
    · rw [if_pos ht, if_pos ht] at htimeout
      exact Option.some.inj (Prod.mk.inj htimeout).2
    · have h0 : timeout.toNat = 0 := by omega
      rw [h0]
      rfl
  · rintro ⟨hzero, htimeout⟩
    rw [readName_utf8 hzero, htimeout]
    rfl

/-! ### What is sent -/

inductive Request
  | batch (seq : UInt32) (elems : List SetElem)
  | query (family : UInt8) (table setName : String) (seq : UInt32)
  | ipset (setname : String) (addr : Dns.IpAddr) (timeout : UInt64) (seq : UInt32)

/-- The packet is read to its end, and says what it was made from. A name that is refused makes none. -/
def Request.ReadsBack : Request → Prop
  | .batch seq elems => readBatch big (batchPacket big seq elems) = some (batchEntries seq elems)
  | .query family table setName seq =>
    readQuery big (encodeGetset big family table setName seq) = some (family, seq, table, setName)
  | .ipset setname addr timeout seq => ∀ packet, encodeAdd big setname addr timeout seq = .ok packet →
    readAdd big packet =
      some (seq, setname, addr, if 0 < timeout.toNat then some (clamped 32 timeout.toNat) else none)

def Request.Fits : Request → Prop
  | .batch _ elems => ∀ e ∈ elems, e.Fits
  | .query .. => False
  | .ipset setname _ timeout _ => (utf8 setname).length + 1 ≤ ipsetMaxnamelen →
    0 ∉ utf8 setname ∧ (timeout.toNat < 2 ^ 32 ∨ timeout.toNat % 2 ^ 32 = 2 ^ 32 - 1)

/-- What is sent is well formed exactly when it is no query, its names are free of zeros and fit, and the
timeout for an ipset fits or has the largest that fits for its low bits. -/
theorem readsBack_iff (r : Request) : r.ReadsBack big ↔ r.Fits := by
  cases r with
  | batch seq elems => exact readBatch_batchPacket big seq elems
  | query family table setName seq =>
    constructor
    · intro h
      have hnone := readQuery_encodeGetset big family table setName seq
      exact Option.some_ne_none _ (h.symm.trans hnone)
    · exact False.elim
  | ipset setname addr timeout seq =>
    constructor
    · intro h hname
      have hpacket := encodeAdd_eq big hname addr timeout seq
      exact (readAdd_iff big hpacket).mp (h _ hpacket)
    · intro h packet hpacket
      apply (readAdd_iff big hpacket).mpr
      exact h (length_le_of_encodeAdd big hpacket)

/-- Three times a lifetime of 1431655766 seconds, which is cut to two seconds. -/
theorem not_readsBack_ipset : ¬ (Request.ipset "dns4" (.v4 0x0a141e28#32) 4294967298 1).ReadsBack false := by
  intro h
  have hname : (utf8 "dns4").length + 1 ≤ ipsetMaxnamelen := by decide
  have hpacket := encodeAdd_eq false hname (.v4 0x0a141e28#32) 4294967298 1
  have hcut := ((readAdd_iff false hpacket).mp (h _ hpacket)).2
  exact absurd hcut (by decide)

end

end Ffi
end SmartDns
