/-
# Messages on the wire

`Message` of `proto/src/op/message.rs`, written by `emit_message_parts` and read by `Message::read`. The
header is written last, into the place left free for it, when it is known how many records of each section
there was room for. Records that do not fit are taken back and the truncation flag says so; a question that
does not fit is an error. The record of EDNS goes behind the additional ones and carries the upper bits of
the response code.

A message is never signed here (`__dnssec` is off), so nothing comes behind that record. How the data of
`CAA`, `CERT`, `CSYNC`, `SSHFP` and `TLSA` records is written and read is a parameter (`formats`).

Key definitions: `Message.emit`, `Message.read`, `toVec`, `fromVec`, `Message.received`, `Message.WellFormed`.
Key theorems: `fromVec_toVec`, `whole_of_not_truncated`.
-/
import SmartDns.Wire.Record

namespace SmartDns

open Dns Lib

namespace Wire

open BinEncoder

/-! ### The header -/

def emitHeader (h : Header) : Emit Unit := do
  emitU16 h.id
  emitU8 h.qOpcdATR
  emitU8 h.rZAdCdRcod
  emitU16 (UInt16.ofNat h.queryCount)
  emitU16 (UInt16.ofNat h.answerCount)
  emitU16 (UInt16.ofNat h.authorityCount)
  emitU16 (UInt16.ofNat h.additionalCount)

def readHeader : Decode Header := ofReader fun d => (Header.read d).mapError fun _ => .insufficientBytes

theorem writes_count {n : ℕ} (h : n < 65536) : Writes (emitU16 (UInt16.ofNat n)) (toBe 2 n) := by
  have hcode : (UInt16.ofNat n).toNat = n := by
    rw [UInt16.toNat_ofNat']
    exact Nat.mod_eq_of_lt h
  have hwrites : Writes (emitU16 (UInt16.ofNat n)) (toBe 2 (UInt16.ofNat n).toNat) := writes_writeSlice _
  rwa [hcode] at hwrites

theorem writes_header {h : Header} (hc : h.Counted) : Writes (emitHeader h) h.bytes :=
  (writes_writeSlice _).bind <| (writes_writeSlice _).bind <| (writes_writeSlice _).bind <|
    (writes_count hc.queries).bind <| (writes_count hc.answers).bind <| (writes_count hc.authorities).bind <|
      writes_count hc.additionals

theorem takes_readHeader {h : Header} (ho : h.opCode.Canonical) (hc : h.Counted) :
    Takes readHeader h.bytes { h with responseCode := h.responseCode.masked 0x000F } := by
  refine .ofReader fun rest => ?_
  rw [(Header.frames_read ho hc).whole rest]
  rfl

theorem length_headerBytes (h : Header) : h.bytes.length = 12 := rfl

/-! ### Writing -/

structure Message (D : Type) where
  header : Header
  queries : List Query := []
  answers : List (Record D) := []
  authorities : List (Record D) := []
  additionals : List (Record D) := []
  edns : Option Edns := none

variable {D : Type} (formats : MoreData D)

/-- Where the questions do not fit, nothing goes. -/
def emitQueries (queries : List Query) : Emit ℕ := do
  let count ← emitIter Query.emit queries
  if count.2 then throw (.notAllRecordsWritten count.1) else return count.1

structure HeaderCounts where
  queryCount : ℕ
  answerCount : ℕ
  authorityCount : ℕ
  additionalCount : ℕ

def updateHeaderCounts (header : Header) (isTruncated : Bool) (counts : HeaderCounts) : Header :=
  { header with
    queryCount := counts.queryCount
    answerCount := counts.answerCount
    authorityCount := counts.authorityCount
    additionalCount := counts.additionalCount
    truncation := isTruncated }

namespace Message

/-- The record of EDNS, with the upper bits of the response code. -/
def ednsRecord (m : Message D) (edns : Edns) : Record D :=
  Edns.toRecord { edns with rcodeHigh := m.header.responseCode.high }

def emitEdns (m : Message D) : Emit (ℕ × Bool) :=
  match m.edns with
  | some edns => emitIter (Record.emit formats) [m.ednsRecord edns]
  | none => pure (0, false)

/-- What `emit_message_parts` writes behind the header: whether anything was left out, and the counts. -/
def emitSections (m : Message D) : Emit (Bool × HeaderCounts) := do
  let queryCount ← emitQueries m.queries
  let answers ← emitIter (Record.emit formats) m.answers
  let authorities ← emitIter (Record.emit formats) m.authorities
  let additionals ← emitIter (Record.emit formats) m.additionals
  let edns ← m.emitEdns formats
  let counts : HeaderCounts :=
    { queryCount, answerCount := answers.1, authorityCount := authorities.1,
      additionalCount := additionals.1 + edns.1 }
  return (answers.2 || authorities.2 || (additionals.2 || edns.2), counts)

/-- `emit_message_parts`. -/
def emit (m : Message D) : Emit Unit := do
  let p ← place 12
  let sections ← m.emitSections formats
  emitAt p (emitHeader (updateHeaderCounts m.header (m.header.truncation || sections.1) sections.2))

end Message

/-- `to_vec`, with room for so many bytes. -/
def toVec (maxSize : ℕ) (m : Message D) : Except ProtoErrorKind (List UInt8) :=
  match m.emit formats { maxSize } with
  | .ok _ s => .ok s.buffer
  | .error e _ => .error e

/-! ### Reading -/

/-- Records of these types stand in the additional section only. -/
def additionalOnly (recordType : RecordType) : Bool :=
  match recordType with
  | .OPT => true
  | .SIG => true
  | .TSIG => true
  | _ => false

/-- `read_records`: the records, and the record of EDNS. -/
def readRecords (isAdditional : Bool) :
    ℕ → List (Record D) → Option Edns → Decode (List (Record D) × Option Edns)
  | 0, records, edns => return (records, edns)
  | count + 1, records, edns => do
    let record ← Record.read formats
    let recordType := record.recordType formats
    if !isAdditional && additionalOnly recordType then
      throw (.message s!"record type {recordType.toStr} only allowed in additional section")
    else if !isAdditional then readRecords isAdditional count (records ++ [record]) edns
    else if recordType = .OPT then
      if edns.isSome then throw (.message "more than one edns record present")
      else readRecords isAdditional count records (some (.ofRecord record))
    else readRecords isAdditional count (records ++ [record]) edns

def mergeEdns (header : Header) : Option Edns → Header
  | some edns => header.mergeResponseCode edns.rcodeHigh
  | none => header

namespace Message

/-- What `read` does behind the header. -/
def readSections (header : Header) : Decode (Message D) := do
  let queries ← scanMany Query.read header.queryCount
  let answers ← readRecords formats false header.answerCount [] none
  let authorities ← readRecords formats false header.authorityCount [] none
  let additionals ← readRecords formats true header.additionalCount [] none
  return {
    header := mergeEdns header additionals.2
    queries
    answers := answers.1
    authorities := authorities.1
    additionals := additionals.1
    edns := additionals.2 }

def read : Decode (Message D) := do
  let header ← readHeader
  readSections formats header

end Message

/-- `from_vec`. -/
def fromVec (buffer : List UInt8) : Except ProtoErrorKind (Message D) :=
  (Message.read formats buffer 0).map (·.1)

/-! ### Messages are read back -/

/-- How much of a message was written. -/
structure Written where
  answers : ℕ
  authorities : ℕ
  additionals : ℕ
  edns : Bool

namespace Message

/-- The parts that may go into a message. -/
structure WellFormed (m : Message D) : Prop where
  opCode : m.header.opCode.Canonical
  queries : ∀ q ∈ m.queries, Query.WellFormed q
  answers : ∀ r ∈ m.answers, r.WellFormed formats ∧ additionalOnly (r.recordType formats) = false
  authorities : ∀ r ∈ m.authorities, r.WellFormed formats ∧ additionalOnly (r.recordType formats) = false
  additionals : ∀ r ∈ m.additionals, r.WellFormed formats
  options : ∀ edns, m.edns = some edns → ∀ option ∈ edns.options, OPT.WellFormed option

/-- No more than there is. -/
structure Holds (m : Message D) (w : Written) : Prop where
  answers : w.answers ≤ m.answers.length
  authorities : w.authorities ≤ m.authorities.length
  additionals : w.additionals ≤ m.additionals.length
  edns : w.edns = true → m.edns.isSome = true

/-- From the encoder's state on there is room for the header, all questions and, one section behind the other,
for so many of its records and no more. -/
def Fits (m : Message D) (w : Written) (s : BinEncoder) : Prop :=
  ∃ s₀ s₁ s₂ s₃ s₄ s₅, place 12 s = .ok s.offset s₀ ∧
    Filled isFull rollback Query.emit s₀ m.queries m.queries.length s₁ ∧
    Filled isFull rollback (Record.emit formats) s₁ m.answers w.answers s₂ ∧
    Filled isFull rollback (Record.emit formats) s₂ m.authorities w.authorities s₃ ∧
    Filled isFull rollback (Record.emit formats) s₃ m.additionals w.additionals s₄ ∧
    Filled isFull rollback (Record.emit formats) s₄ (m.edns.toList.map m.ednsRecord) w.edns.toNat s₅

/-- Something was left out. -/
def cut (m : Message D) (w : Written) : Bool :=
  w.answers < m.answers.length || w.authorities < m.authorities.length ||
    (w.additionals < m.additionals.length || (m.edns.isSome && !w.edns))

/-- All of a message. -/
def whole (m : Message D) : Written where
  answers := m.answers.length
  authorities := m.authorities.length
  additionals := m.additionals.length
  edns := m.edns.isSome

def counts (m : Message D) (w : Written) : HeaderCounts where
  queryCount := m.queries.length
  answerCount := w.answers
  authorityCount := w.authorities
  additionalCount := w.additionals + w.edns.toNat

/-- The record of EDNS as it comes back. -/
def ednsReceived (m : Message D) (w : Written) : Option Edns :=
  if w.edns then m.edns.map fun edns => { edns with rcodeHigh := m.header.responseCode.high }.received else none

/-- What comes of a message of which so much was written, under the header it comes with. -/
def receivedUnder (m : Message D) (w : Written) (header : Header) : Message D where
  header
  queries := m.queries.map Query.received
  answers := (m.answers.take w.answers).map Record.received
  authorities := (m.authorities.take w.authorities).map Record.received
  additionals := (m.additionals.take w.additionals).map Record.received
  edns := m.ednsReceived w

/-- What comes of a message of which so much was written. -/
def received (m : Message D) (w : Written) : Message D :=
  m.receivedUnder w
    { updateHeaderCounts m.header (m.header.truncation || m.cut w) (m.counts w) with
      responseCode := m.header.responseCode.masked (if w.edns then 0x0FFF else 0x000F) }

end Message

variable {formats}

theorem recordType_orUpdate {A : Type} {recordType : RecordType} (items : List A) {rdata : RData D}
    (h : rdata.recordType formats = recordType) :
    (RData.orUpdate recordType items rdata).recordType formats = recordType := by
  unfold RData.orUpdate
  split_ifs
  · rfl
  · exact h

/-- Record data stays under its type. -/
theorem recordType_received (r : Record D) : r.received.recordType formats = r.recordType formats := by
  show r.rdata.received.recordType formats = r.rdata.recordType formats
  cases r.rdata with
  | NULL anything => exact recordType_orUpdate anything rfl
  | OPENPGPKEY publicKey => exact recordType_orUpdate publicKey rfl
  | OPT options => exact recordType_orUpdate options rfl
  | TXT txtData => exact recordType_orUpdate txtData rfl
  | unknown code rdata => exact recordType_orUpdate rdata rfl
  | _ => rfl

/-- Records of other types than that of EDNS are taken as they come. -/
theorem readRecords_of_scanMany {isAdditional : Bool} (k : ℕ) (edns : Option Edns) {d : List UInt8} :
    ∀ {n : ℕ} (acc : List (Record D)) {rs : List (Record D)} {i j : ℕ},
      scanMany (Record.read formats) n d i = .ok (rs, j) →
      (∀ r ∈ rs, r.recordType formats ≠ .OPT ∧
        (isAdditional = false → additionalOnly (r.recordType formats) = false)) →
      readRecords formats isAdditional (n + k) acc edns d i = readRecords formats isAdditional k (acc ++ rs) edns d j
  | 0, acc, rs, i, j, hread, hplain => by
    cases hread
    rw [Nat.zero_add, List.append_nil]
  | n + 1, acc, rs, i, j, hread, hplain => by
    obtain ⟨r, i₁, hr, hread⟩ := Scan.bind_eq_ok_iff.mp hread
    obtain ⟨rs', j', hrs, hread⟩ := Scan.bind_eq_ok_iff.mp hread
    cases hread
    obtain ⟨hopt, honly⟩ := hplain r List.mem_cons_self
    have hrest := readRecords_of_scanMany k edns (acc ++ [r]) hrs fun x hx => hplain x (List.mem_cons_of_mem _ hx)
    rw [List.append_assoc, List.singleton_append] at hrest
    rw [← hrest, Nat.succ_add]
    refine (Scan.bind_of_ok hr).trans ?_
    cases isAdditional with
    | true => exact congrFun (congrFun (if_neg hopt) d) i₁
    | false => simp only [honly rfl, Bool.not_false, Bool.and_false, Bool.false_eq_true, if_false, if_true]

/-- The record of EDNS is not one of the records. -/
theorem readRecords_edns {d : List UInt8} {record : Record D} {acc : List (Record D)} {i j : ℕ}
    (hread : Record.read formats d i = .ok (record, j)) (hopt : record.recordType formats = .OPT) :
    readRecords formats true 1 acc none d i = .ok ((acc, some (.ofRecord record)), j) := by
  refine Scan.bind_ok hread ?_
  simp only [hopt]
  rfl

theorem emitQueries_eq_ok {queries : List Query} {count : ℕ} {s s' : BinEncoder}
    (h : emitQueries queries s = .ok count s') : emitIter Query.emit queries s = .ok (count, false) s' := by
  obtain ⟨written, s₁, hiter, h⟩ := write_bind_eq_ok_iff.mp h
  obtain ⟨n, isCut⟩ := written
  cases isCut with
  | true => cases h
  | false =>
    cases h
    exact hiter

/-- What is written of a section, and how it is read. -/
theorem scanned_of_sent {V W : Type} {r : Decode W} {g : V → W} {xs : List V} {count : ℕ} {H : ℕ → Prop}
    {s s' : BinEncoder} (h : Sent medium r H s s' ((xs.take count).map g)) (hle : count ≤ xs.length) {d : List UInt8}
    (hd : Agrees H s'.offset d s'.buffer) :
    scanMany r count d s.offset = .ok ((xs.take count).map g, s'.offset) := by
  have hread := h.reads hd
  rw [List.length_map, List.length_take, Nat.min_eq_left hle] at hread
  exact hread

/-- As many bytes as records, so no count is too large for the header. -/
theorem count_le_of_sent {V W : Type} {r : Decode W} {g : V → W} {xs : List V} {count : ℕ} {H : ℕ → Prop}
    {s s' : BinEncoder} (h : Sent medium r H s s' ((xs.take count).map g)) (hle : count ≤ xs.length)
    (hmoves : Moves r 1) : s.offset + count ≤ s'.offset :=
  (scanMany_moves hmoves (scanned_of_sent h hle (Agrees.refl H _ _))).1

/-- A section as it was written, and what stands behind it. -/
theorem readRecords_of_sent (isAdditional : Bool) (k : ℕ) {xs : List (Record D)} {count : ℕ} {H : ℕ → Prop}
    {s s' : BinEncoder} (h : Sent medium (Record.read formats) H s s' ((xs.take count).map Record.received))
    (hle : count ≤ xs.length)
    (hplain : ∀ r ∈ xs, r.recordType formats ≠ .OPT ∧
      (isAdditional = false → additionalOnly (r.recordType formats) = false)) {d : List UInt8}
    (hd : Agrees H s'.offset d s'.buffer) :
    readRecords formats isAdditional (count + k) [] none d s.offset =
      readRecords formats isAdditional k ((xs.take count).map Record.received) none d s'.offset := by
  refine readRecords_of_scanMany k none [] (scanned_of_sent h hle hd) fun r hr => ?_
  obtain ⟨x, hx, rfl⟩ := List.mem_map.mp hr
  rw [recordType_received]
  exact hplain x (List.mem_of_mem_take hx)

namespace Message

/-- The record of EDNS, if there is room for it. -/
theorem emitEdns_reads {m : Message D} (h : m.WellFormed formats) {H : ℕ → Prop} {s s' : BinEncoder} {p : ℕ × Bool}
    (hco : Coherent H s) (hw : m.emitEdns formats s = .ok p s') :
    ∃ written : Bool, p = (written.toNat, m.edns.isSome && !written) ∧ (written = true → m.edns.isSome = true) ∧
      Filled isFull rollback (Record.emit formats) s (m.edns.toList.map m.ednsRecord) written.toNat s' ∧
      Coherent H s' ∧ Kept s s' ∧ ∀ {d acc}, Agrees H s'.offset d s'.buffer →
        readRecords formats true written.toNat acc none d s.offset =
          .ok ((acc, if written then m.edns.map fun edns =>
            { edns with rcodeHigh := m.header.responseCode.high }.received else none), s'.offset) := by
  unfold emitEdns at hw
  cases hedns : m.edns with
  | none =>
    rw [hedns] at hw
    cases hw
    exact ⟨false, rfl, fun h => (Bool.noConfusion h : _), .all s, hco, Kept.refl s, fun _ => rfl⟩
  | some edns =>
    rw [hedns] at hw
    have hsends : ∀ r ∈ [m.ednsRecord edns],
        Sends medium (r.emit formats) (fun _ => Record.read formats) r.received := by
      intro r hr
      rw [List.mem_singleton.mp hr]
      exact Record.sends_opt rfl rfl rfl rfl (h.options edns hedns)
    obtain ⟨count, isCut⟩ := p
    obtain ⟨hle, hcut, hsent⟩ := sendMany_reads (g := Record.received) coherent_rollback _ hsends hco hw
    have hfilled := filled_of_sendMany hw
    have hcount : count = 0 ∨ count = 1 := by
      have hle : count ≤ 1 := hle
      omega
    rcases hcount with rfl | rfl
    · refine ⟨false, by rw [hcut]; rfl, fun h => (Bool.noConfusion h : _), hfilled, hsent.coherent, hsent.kept,
        fun hd => ?_⟩
      have hread := scanned_of_sent hsent hle hd
      have hoff : s.offset = s'.offset := congrArg Prod.snd (Except.ok.inj hread)
      rw [← hoff]
      rfl
    · refine ⟨true, by rw [hcut]; rfl, fun _ => rfl, hfilled, hsent.coherent, hsent.kept, fun hd => ?_⟩
      obtain ⟨r, i, hr, hread⟩ := Scan.bind_eq_ok_iff.mp (scanned_of_sent hsent hle hd)
      have hsame := Except.ok.inj hread
      obtain rfl : r = (m.ednsRecord edns).received := (List.cons.inj (congrArg Prod.fst hsame)).1
      obtain rfl : i = s'.offset := congrArg Prod.snd hsame
      refine (readRecords_edns hr (recordType_received _)).trans ?_
      unfold ednsRecord
      rw [Edns.ofRecord_received]
      rfl

/-- **The sections are read back as far as they were written**, under any header with their counts. -/
theorem emitSections_reads {m : Message D} (h : m.WellFormed formats) {H : ℕ → Prop} {s s' : BinEncoder}
    {p : Bool × HeaderCounts} (hco : Coherent H s) (hw : m.emitSections formats s = .ok p s') :
    ∃ w, m.Holds w ∧ (∀ s₀, place 12 s₀ = .ok s₀.offset s → m.Fits formats w s₀) ∧
      p = (m.cut w, m.counts w) ∧ Coherent H s' ∧ Kept s s' ∧
      s.offset + (m.queries.length + w.answers + w.authorities + w.additionals) ≤ s'.offset ∧
        ∀ header isTruncated {d}, Agrees H s'.offset d s'.buffer →
          readSections formats (updateHeaderCounts header isTruncated (m.counts w)) d s.offset =
            .ok (m.receivedUnder w
              (mergeEdns (updateHeaderCounts header isTruncated (m.counts w)) (m.ednsReceived w)), s'.offset) := by
  obtain ⟨queryCount, s₁, hqueries, hw⟩ := write_bind_eq_ok_iff.mp hw
  obtain ⟨⟨answers, answersCut⟩, s₂, hanswers, hw⟩ := write_bind_eq_ok_iff.mp hw
  obtain ⟨⟨authorities, authoritiesCut⟩, s₃, hauthorities, hw⟩ := write_bind_eq_ok_iff.mp hw
  obtain ⟨⟨additionals, additionalsCut⟩, s₄, hadditionals, hw⟩ := write_bind_eq_ok_iff.mp hw
  obtain ⟨edns, s₅, hedns, hw⟩ := write_bind_eq_ok_iff.mp hw
  cases hw
  -- what each step wrote
  obtain ⟨hqle, hqcut, hq⟩ := sendMany_reads coherent_rollback m.queries
    (fun q hq => Query.sends_emit (h.queries q hq)) hco (emitQueries_eq_ok hqueries)
  obtain ⟨hale, rfl, ha⟩ := sendMany_reads coherent_rollback m.answers
    (fun r hr => Record.sends_emit (h.answers r hr).1) hq.coherent hanswers
  obtain ⟨hnle, rfl, hn⟩ := sendMany_reads coherent_rollback m.authorities
    (fun r hr => Record.sends_emit (h.authorities r hr).1) ha.coherent hauthorities
  obtain ⟨hdle, rfl, hd⟩ := sendMany_reads coherent_rollback m.additionals
    (fun r hr => Record.sends_emit (h.additionals r hr)) hn.coherent hadditionals
  obtain ⟨written, rfl, hsome, hednsfilled, hco₅, hk₅, hednsread⟩ := emitEdns_reads h hd.coherent hedns
  obtain rfl : queryCount = m.queries.length := by
    have := of_decide_eq_false hqcut.symm
    omega
  refine ⟨⟨answers, authorities, additionals, written⟩, ⟨hale, hnle, hdle, hsome⟩, fun s₀ hplace => ?_, rfl, hco₅,
    ?_, ?_, ?_⟩
  · exact ⟨s, s₁, s₂, s₃, s₄, s', hplace, filled_of_sendMany (emitQueries_eq_ok hqueries), filled_of_sendMany hanswers,
      filled_of_sendMany hauthorities, filled_of_sendMany hadditionals, hednsfilled⟩
  · exact ((((hq.kept.trans ha.kept).trans hn.kept).trans hd.kept).trans hk₅)
  · have := count_le_of_sent hq hqle Query.moves_read
    have := count_le_of_sent ha hale Record.moves_read
    have := count_le_of_sent hn hnle Record.moves_read
    have := count_le_of_sent hd hdle Record.moves_read
    have := hk₅.offset_le
    dsimp only
    omega
  · intro header isTruncated d hd₅
    have hd₄ := medium.agrees_of_kept hd.coherent hk₅ hd₅
    have hd₃ := medium.agrees_of_kept hn.coherent hd.kept hd₄
    have hd₂ := medium.agrees_of_kept ha.coherent hn.kept hd₃
    have hd₁ := medium.agrees_of_kept hq.coherent ha.kept hd₂
    have hqread := scanned_of_sent hq hqle hd₁
    rw [List.take_length] at hqread
    have haread := readRecords_of_sent false 0 ha hale
      (fun r hr => ⟨(h.answers r hr).1.not_opt, fun _ => (h.answers r hr).2⟩) hd₂
    have hnread := readRecords_of_sent false 0 hn hnle
      (fun r hr => ⟨(h.authorities r hr).1.not_opt, fun _ => (h.authorities r hr).2⟩) hd₃
    have hdread := readRecords_of_sent true written.toNat hd hdle
      (fun r hr => ⟨(h.additionals r hr).not_opt, fun h => (Bool.noConfusion h : _)⟩) hd₄
    rw [hednsread hd₅] at hdread
    exact Scan.bind_ok hqread (Scan.bind_ok haread (Scan.bind_ok hnread (Scan.bind_ok hdread rfl)))

/-- The low bits of the response code are in the header, the others in the record of EDNS. -/
theorem mergeEdns_eq {m : Message D} {w : Written} (h : m.Holds w) (header : Header) :
    mergeEdns { header with responseCode := m.header.responseCode.masked 0x000F } (m.ednsReceived w) =
      { header with responseCode := m.header.responseCode.masked (if w.edns then 0x0FFF else 0x000F) } := by
  have hlow : (m.header.responseCode.masked 0x000F).low = m.header.responseCode.low := by
    unfold ResponseCode.masked ResponseCode.low
    rw [ResponseCode.toCode_ofCode, UInt16.and_assoc, UInt16.and_self]
  unfold ednsReceived
  cases hwritten : w.edns with
  | false => rfl
  | true =>
    obtain ⟨edns, hedns⟩ := Option.isSome_iff_exists.mp (h.edns hwritten)
    rw [hedns]
    show Header.mergeResponseCode _ m.header.responseCode.high = _
    unfold Header.mergeResponseCode
    simp only [hlow, ResponseCode.fromParts_high_low]
    rfl

/-- **A message is read back as far as it was written.** -/
theorem emit_reads {m : Message D} (h : m.WellFormed formats) {H : ℕ → Prop} {s s' : BinEncoder} {u : Unit}
    (hco : Coherent H s) (hw : m.emit formats s = .ok u s') :
    ∃ w, m.Holds w ∧ m.Fits formats w s ∧ Coherent H s' ∧ Kept s s' ∧ ∀ {d}, Agrees H s'.offset d s'.buffer →
      read formats d s.offset = .ok (m.received w, s'.offset) := by
  obtain ⟨p, s₁, hplace, hw⟩ := write_bind_eq_ok_iff.mp hw
  obtain ⟨_, s₂, hsections, hfill⟩ := write_bind_eq_ok_iff.mp hw
  have hco₁ := (opens_place 12).coherent hco hplace
  have hk₁ := (opens_place 12).kept_of_ok hco hplace
  obtain ⟨rfl, hoff₁⟩ := (opens_place 12).position hco hplace
  obtain ⟨w, hholds, hfits, rfl, hco₂, hk₂, hroom, hreads⟩ := emitSections_reads h hco₁ hsections
  have hoff₁ : s₁.offset = s.offset + 12 := hoff₁
  have hfill : emitAt s.offset
      (emitHeader (updateHeaderCounts m.header (m.header.truncation || m.cut w) (m.counts w))) s₂ = .ok u s' := hfill
  have hcounted : (updateHeaderCounts m.header (m.header.truncation || m.cut w) (m.counts w)).Counted := by
    have := hco₂.offset_le_max
    have := hco₂.max_le
    have := Bool.toNat_le w.edns
    constructor <;> dsimp only [updateHeaderCounts, counts] <;> omega
  -- the header goes into its place
  have hfills := fills_emitAt (p := s.offset) (writes_header hcounted)
  have hpast : s.offset + 12 ≤ s₂.offset := by omega
  have hapart : ∀ i, H i → ¬ Place s.offset 12 i := fun i hi hplace => by
    have hlt : i < s.offset := hco.open_lt hi
    have hle : s.offset ≤ i := hplace.1
    omega
  refine ⟨w, hholds, hfits s hplace, hfills.coherent hco₂ hpast hapart hfill, ?_, fun {d} hd => ?_⟩
  · have hkept := hfills.kept hco (hk₁.trans hk₂) (le_refl s.offset) hpast
    rw [hfill] at hkept
    exact hkept
  · have hopCode : (updateHeaderCounts m.header (m.header.truncation || m.cut w) (m.counts w)).opCode.Canonical :=
      h.opCode
    have hheader := (takes_readHeader hopCode hcounted).takes (hfills.stands hco₂ hpast hfill hapart hd)
    have hbody := hreads { m.header with responseCode := m.header.responseCode.masked 0x000F }
      (m.header.truncation || m.cut w) (hfills.agrees hco₂ hpast hfill hd)
    have hoff : s'.offset = s₂.offset := hfills.offset_eq hco₂ hpast hfill
    rw [length_headerBytes, ← hoff₁] at hheader
    rw [hoff]
    refine (Scan.bind_ok hheader hbody).trans ?_
    exact congrArg (fun header => Except.ok (m.receivedUnder w header, s₂.offset))
      (mergeEdns_eq hholds (updateHeaderCounts m.header (m.header.truncation || m.cut w) (m.counts w)))

end Message

/-- An encoder that has written nothing. -/
theorem coherent_new {maxSize : ℕ} (h : maxSize ≤ 65535) : Coherent (fun _ => False) { maxSize } where
  open_lt := False.elim
  offset_le := le_refl 0
  length_le := Nat.zero_le _
  max_le := h
  plain := rfl
  cased h := by cases h
  points _ hp := absurd hp List.not_mem_nil

theorem toVec_eq_ok {m : Message D} {maxSize : ℕ} {bytes : List UInt8} (h : toVec formats maxSize m = .ok bytes) :
    ∃ s, m.emit formats { maxSize } = .ok () s ∧ s.buffer = bytes := by
  unfold toVec at h
  cases hemit : m.emit formats { maxSize } with
  | error e s =>
    rw [hemit] at h
    cases h
  | ok u s =>
    rw [hemit] at h
    cases h
    exact ⟨s, rfl, rfl⟩

theorem fromVec_of_reads {m : Message D} {bytes : List UInt8} {j : ℕ}
    (h : Message.read formats bytes 0 = .ok (m, j)) : fromVec formats bytes = .ok m := by
  unfold fromVec
  rw [h]
  rfl

/-- No formats but those modelled. -/
def noMore : MoreData Empty where
  recordType := Empty.elim
  emit := Empty.elim
  readData _ _ := throw .insufficientBytes

theorem labelA_nonempty : ([97] : List UInt8) ≠ [] := List.cons_ne_nil _ _

theorem labelA_short : ([97] : List UInt8).length ≤ 63 := Nat.le_add_left 1 62

def labelA : Label := ⟨[97], labelA_nonempty, labelA_short⟩

/-- An answer of two addresses, with EDNS. -/
def twoAddresses : Message Empty where
  header := { id := 7, messageType := .response }
  queries := [⟨⟨true, [labelA]⟩, .A, .IN, false⟩]
  answers := [⟨⟨true, [labelA]⟩, .IN, 60, .A 0x01020304#32, false⟩,
    ⟨⟨true, [labelA]⟩, .IN, 60, .A 0x01020305#32, false⟩]
  edns := some { maxPayload := 1232 }

theorem wellFormed_twoAddresses : twoAddresses.WellFormed noMore where
  opCode := ⟨by decide, rfl⟩
  queries q hq := by
    obtain rfl := List.mem_singleton.mp hq
    exact ⟨by decide, rfl, rfl, by decide⟩
  answers r hr := by
    simp only [twoAddresses, List.mem_cons, List.not_mem_nil, or_false] at hr
    rcases hr with rfl | rfl
    all_goals exact ⟨⟨by decide, by decide, by decide, ⟨rfl, by decide⟩, trivial⟩, rfl⟩
  authorities r hr := absurd hr List.not_mem_nil
  additionals r hr := absurd hr List.not_mem_nil
  options edns hedns := by
    obtain rfl := Option.some.inj hedns
    exact fun option ho => absurd ho List.not_mem_nil

theorem eq_ok_of_toOption {E A : Type} {x : Except E A} {a : A} (h : x.toOption = some a) : x = .ok a := by
  cases x with
  | error e => cases h
  | ok a' => rw [Option.some.inj h]

theorem exists_of_isSome {E A : Type} {x : Except E A} (h : x.toOption.isSome = true) : ∃ a, x = .ok a := by
  obtain ⟨a, ha⟩ := Option.isSome_iff_exists.mp h
  exact ⟨a, eq_ok_of_toOption ha⟩

/-- What of it has room in fifty bytes: one of the addresses, and the truncation flag. -/
def cutBytes : List UInt8 :=
  [0, 7, 130, 0, 0, 1, 0, 1, 0, 0, 0, 1, 1, 97, 0, 0, 1, 0, 1, 192, 12, 0, 1, 0, 1, 0, 0, 0, 60, 0, 4, 1, 2, 3, 4,
    0, 0, 41, 4, 208, 0, 0, 0, 0, 0, 0]

theorem toVec_cut : toVec noMore 50 twoAddresses = .ok cutBytes := eq_ok_of_toOption (by decide +kernel)

/-- **A message that was written is read back as far as there was room**, and is no longer than it may be. How far
is said by `Fits`: a record is left out only where there is no room for it behind what was written. -/
theorem fromVec_toVec {m : Message D} (h : m.WellFormed formats) {maxSize : ℕ} (hmax : maxSize ≤ 65535)
    {bytes : List UInt8} (hbytes : toVec formats maxSize m = .ok bytes) :
    bytes.length ≤ maxSize ∧
      ∃ w, m.Holds w ∧ m.Fits formats w { maxSize } ∧ fromVec formats bytes = .ok (m.received w) := by
  obtain ⟨s, hemit, rfl⟩ := toVec_eq_ok hbytes
  obtain ⟨w, hholds, hfits, hco, hk, hreads⟩ := Message.emit_reads h (coherent_new hmax) hemit
  refine ⟨?_, w, hholds, hfits, fromVec_of_reads (hreads (Agrees.refl _ _ _))⟩
  have hle := hco.length_le
  rwa [hk.max_eq] at hle

theorem fromVec_toVec_cut : ∃ bytes, toVec noMore 50 twoAddresses = .ok bytes ∧ bytes.length ≤ 50 ∧
    ∃ w, twoAddresses.Holds w ∧ twoAddresses.Fits noMore w { maxSize := 50 } ∧ w.answers = 1 ∧
      fromVec noMore bytes = .ok (twoAddresses.received w) := by
  obtain ⟨hlen, w, hholds, hfits, hread⟩ := fromVec_toVec wellFormed_twoAddresses (by decide) toVec_cut
  have hone : (fromVec noMore cutBytes).toOption.map (·.answers.length) = some 1 := by decide +kernel
  rw [hread] at hone
  have hanswers : ((twoAddresses.answers.take w.answers).map Record.received).length = 1 := Option.some.inj hone
  rw [List.length_map, List.length_take, Nat.min_eq_left hholds.answers] at hanswers
  exact ⟨cutBytes, toVec_cut, hlen, w, hholds, hfits, hanswers, hread⟩

/-- Where nothing was cut, all was written. -/
theorem Message.Holds.eq_of_cut {m : Message D} {w : Written} (h : m.Holds w) (hcut : m.cut w = false) :
    w = m.whole := by
  have ha := h.answers
  have hn := h.authorities
  have hd := h.additionals
  have he := h.edns
  obtain ⟨answers, authorities, additionals, edns⟩ := w
  simp only [Message.cut, Bool.or_eq_false_iff, decide_eq_false_iff_not, not_lt] at hcut
  obtain ⟨⟨ha', hn'⟩, hd', he'⟩ := hcut
  have hedns : edns = m.edns.isSome := by
    cases edns with
    | true => exact (he rfl).symm
    | false => exact ((Bool.and_true _).symm.trans he').symm
  simp only [Message.whole, Written.mk.injEq]
  exact ⟨Nat.le_antisymm ha ha', Nat.le_antisymm hn hn', Nat.le_antisymm hd hd', hedns⟩

/-- **Nothing is lost in silence**: a message without the truncation flag has all that was put into it. -/
theorem whole_of_not_truncated {m m' : Message D} (h : m.WellFormed formats) {maxSize : ℕ} (hmax : maxSize ≤ 65535)
    {bytes : List UInt8} (hbytes : toVec formats maxSize m = .ok bytes) (hread : fromVec formats bytes = .ok m')
    (hflag : m'.header.truncation = false) :
    m'.queries = m.queries.map Query.received ∧ m'.answers = m.answers.map Record.received ∧
      m'.authorities = m.authorities.map Record.received ∧ m'.additionals = m.additionals.map Record.received ∧
        m'.edns = m.edns.map fun edns => { edns with rcodeHigh := m.header.responseCode.high }.received := by
  obtain ⟨s, hemit, rfl⟩ := toVec_eq_ok hbytes
  obtain ⟨w, hholds, -, -, -, hreads⟩ := Message.emit_reads h (coherent_new hmax) hemit
  obtain rfl : m' = m.received w := Except.ok.inj (hread.symm.trans (fromVec_of_reads (hreads (Agrees.refl _ _ _))))
  obtain rfl := hholds.eq_of_cut (Bool.or_eq_false_iff.mp hflag).2
  refine ⟨rfl, ?_, ?_, ?_, ?_⟩
  · exact congrArg _ (List.take_length)
  · exact congrArg _ (List.take_length)
  · exact congrArg _ (List.take_length)
  · show (if m.edns.isSome then _ else _) = _
    cases m.edns <;> rfl

theorem whole_of_not_truncated_fits : ∃ bytes m', toVec noMore 512 twoAddresses = .ok bytes ∧
    fromVec noMore bytes = .ok m' ∧ m'.answers = twoAddresses.answers.map Record.received := by
  obtain ⟨bytes, hbytes⟩ : ∃ bytes, toVec noMore 512 twoAddresses = .ok bytes := exists_of_isSome (by decide +kernel)
  have hflag : ((toVec noMore 512 twoAddresses).toOption.bind fun bytes =>
      (fromVec noMore bytes).toOption.map fun m => m.header.truncation) = some false := by decide +kernel
  rw [hbytes] at hflag
  obtain ⟨m', hread, hflag⟩ := Option.map_eq_some_iff.mp hflag
  have hread := eq_ok_of_toOption hread
  exact ⟨bytes, m', hbytes, hread,
    (whole_of_not_truncated wellFormed_twoAddresses (by decide) hbytes hread hflag).2.1⟩

end Wire
end SmartDns
