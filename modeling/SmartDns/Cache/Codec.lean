/-
# The cache file

An entry is written as tagged fields: 1 message, 2 or 5 seconds left or expired, 3
upstream group, 4 hits, 6 client subnet, 7 listener options. The group, the subnet
and the options carry their length in two bytes. Entries stand back to back. An
entry that does not fit the encoder's 64 KiB is left out of the file.

The message codec and the JSON text of the options are code outside this file
(`Codec`); `Codec.Frames` says what is relied on. The reader takes the subnet if it
can be read and the options if the next byte is 7: `readEcs` cannot fail, and only
`readOpts` can after the hit count.

`read_emit`: what an entry reads back as, whatever follows it. It is the entry
written, but for the hit count modulo `2^32`, an empty group or subnet, which is
read as none, and a message the codec shortened (`readBack`).

Key definitions: `Codec`, `DnsCacheEntry.emit`, `DnsCacheEntry.read`,
`serializeMany`, `deserializeBestEffort`, `Codec.readBack`.
Key theorems: `read_emit`, `frames_readUntilHits`.
-/
import SmartDns.Lib.Reader
import SmartDns.Cache.Entry

namespace SmartDns
namespace Cache

open Dns Lib

/-- The codecs that the cache file uses for a message and for the options. -/
structure Codec where
  emitMessage : Message → Option (List UInt8)
  readMessage : Reader UInt8 ProtoError Message
  optsToVec : AnswerAffectingOpts → Option (List UInt8)
  optsFromSlice : List UInt8 → Option AnswerAffectingOpts

/-- The largest buffer of `BinEncoder::new`. -/
def maxSize : ℕ := 65535

/-- A field with its length in two bytes; nothing is written as length 0. -/
def emitText (text : Option String) : List UInt8 :=
  toBe 2 (utf8 (text.getD "")).length ++ utf8 (text.getD "")

def emitDeadline (now validUntil : ℤ) : List UInt8 :=
  if validUntil > now then 2 :: toBe 4 (asSecs (validUntil - now).toNat)
  else 5 :: toBe 4 (asSecs (now - validUntil).toNat)

/-- `serde_json::to_vec(&opts).unwrap_or_else(|_| b"{}".to_vec())`. -/
def Codec.optBytes (c : Codec) (opts : AnswerAffectingOpts) : List UInt8 :=
  (c.optsToVec opts).getD (utf8 "\x7b\x7d")

namespace DnsCacheEntry

/-- The fields up to the hit count, behind the message. -/
def headBytes (e : DnsCacheEntry) (now : ℤ) : List UInt8 :=
  emitDeadline now e.validUntil ++ 3 :: (emitText e.data.nameServerGroup ++ 4 :: toBe 4 e.stats.hits)

def ecsBytes (e : DnsCacheEntry) : List UInt8 := 6 :: emitText e.ecs

def optsBytes (c : Codec) (e : DnsCacheEntry) : List UInt8 :=
  7 :: (toBe 2 (c.optBytes e.opts).length ++ c.optBytes e.opts)

/-- `BinEncodable::emit`: a write past the end of the buffer is an error. -/
def emit (c : Codec) (now : ℤ) (e : DnsCacheEntry) : Option (List UInt8) := do
  let message ← c.emitMessage e.data.message
  let bytes := 1 :: (message ++ e.headBytes now) ++ (e.ecsBytes ++ e.optsBytes c)
  if bytes.length ≤ maxSize then some bytes else none

end DnsCacheEntry

/-- `DnsCacheEntry::serialize_many`: an entry that cannot be written is left out. -/
def serializeMany (c : Codec) (now : ℤ) (entries : List DnsCacheEntry) : List UInt8 :=
  entries.flatMap fun e => (e.emit c now).getD []

abbrev Decode (A : Type) := Reader UInt8 ProtoError A

/-- `BinDecoder::pop`. -/
def readU8 : Decode UInt8 := fun d =>
  match d with
  | [] => .error .insufficientBytes
  | b :: rest => .ok (b, rest)

def readU16 : Decode ℕ := readBe .insufficientBytes 2

def readU32 : Decode ℕ := readBe .insufficientBytes 4

/-- `if !decoder.read_u8()?.verify(|v| *v == tag).is_valid() { return Err(..) }` -/
def expectTag (tag : UInt8) : Decode Unit := do
  let v ← readU8
  verify .insufficientBytes (v == tag)

def clampFileDuration (secs : ℕ) : ℕ := if secs ≤ MAX_TTL then secs else MAX_TTL

def readDeadline (now : ℤ) : Decode ℤ := do
  let tag ← readU8
  if tag == 2 then
    let secs ← readU32
    return now + fromSecs (clampFileDuration secs)
  else if tag == 5 then
    let secs ← readU32
    return now - fromSecs (clampFileDuration secs)
  else throw .insufficientBytes

def readGroup : Decode (Option String) := do
  let len ← readU16
  if len > 0 then
    let bytes ← readSlice .insufficientBytes len
    return fromUtf8 bytes
  else return none

/-- The message, the deadline, the group and the hit count. -/
def readUntilHits (c : Codec) (now : ℤ) : Decode (Message × ℤ × Option String × ℕ) := do
  expectTag 1
  let message ← c.readMessage
  let validUntil ← readDeadline now
  expectTag 3
  let group ← readGroup
  expectTag 4
  let hits ← readU32
  return (message, validUntil, group, hits)

/-- The subnet, if all of it is there: a read that fails leaves the decoder where it was. -/
def readEcs : Decode (Option String) := fun d =>
  match readU8 d with
  | .error _ => .ok (none, d)
  | .ok (tag, d₁) =>
    if tag == 6 then
      match readU16 d₁ with
      | .error _ => .ok (none, d₁)
      | .ok (len, d₂) =>
        if len > 0 then
          match readSlice ProtoError.insufficientBytes len d₂ with
          | .error _ => .ok (none, d₂)
          | .ok (bytes, d₃) => .ok (fromUtf8 bytes, d₃)
        else .ok (none, d₂)
    else .ok (none, d₁)

/-- `serde_json::from_slice(bytes).map_err(..)?`. -/
def Codec.parseOpts (c : Codec) (bytes : List UInt8) : Decode AnswerAffectingOpts := fun d =>
  match c.optsFromSlice bytes with
  | some opts => .ok (opts, d)
  | none => .error .insufficientBytes

/-- The options behind tag 7. -/
def readOptsField (c : Codec) : Decode AnswerAffectingOpts := do
  let _ ← readU8
  let len ← readU16
  let bytes ← readSlice .insufficientBytes len
  c.parseOpts bytes

/-- `decoder.peek()` decides whether the entry has options. -/
def readOpts (c : Codec) : Decode AnswerAffectingOpts := fun d =>
  if d.head? == some 7 then readOptsField c d else .ok (default, d)

/-- `message.into()` and what is put into the response and the entry afterwards. -/
def buildEntry (now : ℤ) (p : Message × ℤ × Option String × ℕ) (ecs : Option String)
    (opts : AnswerAffectingOpts) : DnsCacheEntry :=
  let res := (DnsResponse.ofMessage now p.1).withValidUntil p.2.1
  { data := (p.2.2.1.map res.withNameServerGroup).getD res
    validUntil := p.2.1
    stats := { hits := p.2.2.2 }
    ecs
    opts }

/-- `BinDecodable::read`. -/
def DnsCacheEntry.read (c : Codec) (now : ℤ) : Decode DnsCacheEntry := do
  let p ← readUntilHits c now
  let ecs ← readEcs
  let opts ← readOpts c
  return buildEntry now p ecs opts

/-- The entries before the first one that cannot be read, and why that one cannot. -/
def deserializeBestEffort (c : Codec) (now : ℤ) (data : List UInt8) :
    List DnsCacheEntry × Option ProtoError :=
  readAll .insufficientBytes (DnsCacheEntry.read c now) data

/-! ### What is written is read back -/

/-- The message that is read from what is written for `m`. -/
def Codec.storedMessage (c : Codec) (m : Message) : Message :=
  match c.emitMessage m with
  | none => m
  | some bs =>
    match c.readMessage bs with
    | .ok (m', _) => m'
    | .error _ => m

/-- What an entry's round trip relies on: the bytes of its message are the bytes of some message,
and its options are read from their JSON text. -/
structure Codec.Lawful (c : Codec) (e : DnsCacheEntry) : Prop where
  message : ∀ bs, c.emitMessage e.data.message = some bs → ∃ m, Frames c.readMessage bs m
  opts : ∃ bs, c.optsToVec e.opts = some bs ∧ c.optsFromSlice bs = some e.opts

/-- The deadline that is read at `now'` from what was written at `now`. -/
def fileDeadline (now now' validUntil : ℤ) : ℤ :=
  if validUntil > now then now' + fromSecs (clampFileDuration (asSecs (validUntil - now).toNat % 2 ^ 32))
  else now' - fromSecs (clampFileDuration (asSecs (now - validUntil).toNat % 2 ^ 32))

/-- An empty text is read as none. -/
def storedText (text : Option String) : Option String := text.filter (· ≠ "")

/-- The entry that is read at `now'` from what was written for `e` at `now`. -/
def Codec.readBack (c : Codec) (now now' : ℤ) (e : DnsCacheEntry) : DnsCacheEntry :=
  buildEntry now' (c.storedMessage e.data.message, fileDeadline now now' e.validUntil,
    storedText e.data.nameServerGroup, e.stats.hits % 2 ^ 32) (storedText e.ecs) e.opts

theorem Codec.Lawful.frames {c : Codec} {e : DnsCacheEntry} (h : c.Lawful e) {bs : List UInt8}
    (hbs : c.emitMessage e.data.message = some bs) :
    Frames c.readMessage bs (c.storedMessage e.data.message) := by
  obtain ⟨m, hm⟩ := h.message bs hbs
  have := hm.whole []
  rw [List.append_nil] at this
  have hm' : c.storedMessage e.data.message = m := by simp only [storedMessage, hbs, this]
  rwa [hm']

theorem frames_readU8 (b : UInt8) : Frames readU8 [b] b := by
  refine ⟨fun _ => rfl, fun k hk => ⟨.insufficientBytes, ?_⟩⟩
  obtain rfl : k = 0 := by simpa using hk
  rfl

theorem frames_expectTag (tag : UInt8) : Frames (expectTag tag) [tag] () :=
  (frames_readU8 tag).bind (frames_verify ProtoError.insufficientBytes (by simp))

theorem frames_readDeadline (now now' validUntil : ℤ) :
    Frames (readDeadline now') (emitDeadline now validUntil) (fileDeadline now now' validUntil) := by
  unfold emitDeadline fileDeadline
  split
  · exact (frames_readU8 2).bind ((frames_readBe ProtoError.insufficientBytes 4 _).map _)
  · exact (frames_readU8 5).bind ((frames_readBe ProtoError.insufficientBytes 4 _).map _)

theorem emitText_length (text : Option String) :
    (emitText text).length = 2 + (utf8 (text.getD "")).length := by simp [emitText]

theorem utf8_ne_nil {text : Option String} (h : 0 < (utf8 (text.getD "")).length) :
    text = some (text.getD "") ∧ storedText text = some (text.getD "") := by
  have hne : text.getD "" ≠ "" := fun h0 => by
    rw [(utf8_eq_nil_iff _).mpr h0] at h
    simp at h
  cases text with
  | none => exact absurd rfl hne
  | some s => exact ⟨rfl, Option.filter_some_pos (by simpa using hne)⟩

theorem storedText_of_length_zero {text : Option String} (h : (utf8 (text.getD "")).length = 0) :
    storedText text = none := by
  have := (utf8_eq_nil_iff _).mp (List.length_eq_zero_iff.mp h)
  cases text with
  | none => rfl
  | some s => exact Option.filter_some_neg (by simpa using this)

theorem frames_readGroup {text : Option String} (h : (emitText text).length ≤ maxSize) :
    Frames readGroup (emitText text) (storedText text) := by
  have hlen : (utf8 (text.getD "")).length % 256 ^ 2 = (utf8 (text.getD "")).length := by
    rw [emitText_length] at h
    unfold maxSize at h
    omega
  have hframe := frames_readBe ProtoError.insufficientBytes 2 (utf8 (text.getD "")).length
  rw [hlen] at hframe
  by_cases h0 : 0 < (utf8 (text.getD "")).length
  · rw [(utf8_ne_nil h0).2, ← fromUtf8_utf8]
    refine hframe.bind ?_
    rw [if_pos h0]
    exact (frames_readSlice _ _).map _
  · have h0 : (utf8 (text.getD "")).length = 0 := by omega
    rw [storedText_of_length_zero h0]
    refine hframe.bind ?_
    rw [if_neg (by omega), List.length_eq_zero_iff.mp h0]
    exact .pure _

/-- The bytes of an entry up to and with the hit count. -/
def DnsCacheEntry.untilHits (e : DnsCacheEntry) (now : ℤ) (message : List UInt8) : List UInt8 :=
  1 :: (message ++ e.headBytes now)

theorem DnsCacheEntry.emit_eq_some_iff {c : Codec} {now : ℤ} {e : DnsCacheEntry} {bs : List UInt8} :
    e.emit c now = some bs ↔ ∃ message, c.emitMessage e.data.message = some message ∧
      bs = e.untilHits now message ++ (e.ecsBytes ++ e.optsBytes c) ∧ bs.length ≤ maxSize := by
  unfold DnsCacheEntry.emit
  cases c.emitMessage e.data.message with
  | none => simp
  | some message =>
    simp only [Option.bind_eq_bind, Option.bind_some, Option.some.injEq, exists_eq_left']
    constructor
    · intro h
      split at h
      · cases h
        exact ⟨rfl, ‹_›⟩
      · cases h
    · rintro ⟨rfl, h⟩
      exact if_pos h

/-- Up to the hit count an entry is self-delimiting. -/
theorem frames_readUntilHits {c : Codec} (now now' : ℤ) {e : DnsCacheEntry} {message : List UInt8}
    (hc : c.Lawful e) (hm : c.emitMessage e.data.message = some message)
    (hlen : (e.untilHits now message).length ≤ maxSize) :
    Frames (readUntilHits c now') (e.untilHits now message) (c.storedMessage e.data.message,
      fileDeadline now now' e.validUntil, storedText e.data.nameServerGroup, e.stats.hits % 2 ^ 32) := by
  have hg : (emitText e.data.nameServerGroup).length ≤ maxSize := by
    simp only [DnsCacheEntry.untilHits, DnsCacheEntry.headBytes, List.length_cons,
      List.length_append] at hlen
    omega
  exact (frames_expectTag 1).bind ((hc.frames hm).bind ((frames_readDeadline now now' e.validUntil).bind
    ((frames_expectTag 3).bind ((frames_readGroup hg).bind ((frames_expectTag 4).bind
      ((frames_readBe ProtoError.insufficientBytes 4 e.stats.hits).map _))))))

theorem frames_readOptsField {c : Codec} {e : DnsCacheEntry} (hc : c.Lawful e)
    (hlen : (e.optsBytes c).length ≤ maxSize) : Frames (readOptsField c) (e.optsBytes c) e.opts := by
  obtain ⟨json, hv, hs⟩ := hc.opts
  have hj : c.optBytes e.opts = json := by rw [Codec.optBytes, hv, Option.getD_some]
  have hlen : json.length % 256 ^ 2 = json.length := by
    simp only [DnsCacheEntry.optsBytes, hj, List.length_cons, List.length_append] at hlen
    unfold maxSize at hlen
    omega
  have hframe := frames_readBe ProtoError.insufficientBytes 2 json.length
  rw [hlen] at hframe
  rw [DnsCacheEntry.optsBytes, hj]
  refine (frames_readU8 7).bind (hframe.bind ?_)
  have hparse : Frames (c.parseOpts json) [] e.opts :=
    ⟨fun rest => by simp only [Codec.parseOpts, hs, List.nil_append], fun k hk => absurd hk (Nat.not_lt_zero k)⟩
  have := (frames_readSlice ProtoError.insufficientBytes json).bind hparse
  rwa [List.append_nil] at this

theorem readOpts_optsBytes {c : Codec} {e : DnsCacheEntry} (hc : c.Lawful e)
    (hlen : (e.optsBytes c).length ≤ maxSize) (rest : List UInt8) :
    readOpts c (e.optsBytes c ++ rest) = .ok (e.opts, rest) := by
  rw [readOpts, if_pos (by rfl)]
  exact (frames_readOptsField hc hlen).whole rest

theorem readEcs_ecsBytes {e : DnsCacheEntry} (hlen : e.ecsBytes.length ≤ maxSize) (rest : List UInt8) :
    readEcs (e.ecsBytes ++ rest) = .ok (storedText e.ecs, rest) := by
  have hlen : (utf8 (e.ecs.getD "")).length % 256 ^ 2 = (utf8 (e.ecs.getD "")).length := by
    rw [DnsCacheEntry.ecsBytes, List.length_cons, emitText_length] at hlen
    unfold maxSize at hlen
    omega
  have h16 : readU16 (toBe 2 (utf8 (e.ecs.getD "")).length ++ (utf8 (e.ecs.getD "") ++ rest)) =
      .ok ((utf8 (e.ecs.getD "")).length, utf8 (e.ecs.getD "") ++ rest) := by
    have := (frames_readBe ProtoError.insufficientBytes 2 (utf8 (e.ecs.getD "")).length).whole
      (utf8 (e.ecs.getD "") ++ rest)
    rwa [hlen] at this
  rw [DnsCacheEntry.ecsBytes, List.cons_append, emitText, List.append_assoc, readEcs]
  simp only [readU8, beq_self_eq_true, ↓reduceIte, h16]
  by_cases h0 : 0 < (utf8 (e.ecs.getD "")).length
  · rw [if_pos h0, (frames_readSlice ProtoError.insufficientBytes _).whole rest]
    simp only [fromUtf8_utf8, (utf8_ne_nil h0).2]
  · have h0 : (utf8 (e.ecs.getD "")).length = 0 := by omega
    rw [if_neg (by omega), storedText_of_length_zero h0, List.length_eq_zero_iff.mp h0, List.nil_append]

/-- **An entry reads back as `readBack` of it, whatever follows it.** -/
theorem read_emit {c : Codec} (now now' : ℤ) {e : DnsCacheEntry} {bs : List UInt8} (hc : c.Lawful e)
    (h : e.emit c now = some bs) (rest : List UInt8) :
    DnsCacheEntry.read c now' (bs ++ rest) = .ok (c.readBack now now' e, rest) := by
  obtain ⟨message, hm, rfl, hlen⟩ := DnsCacheEntry.emit_eq_some_iff.mp h
  simp only [List.length_append] at hlen
  have h1 := (frames_readUntilHits now now' hc hm (by omega)).whole (e.ecsBytes ++ (e.optsBytes c ++ rest))
  have h2 : readEcs (e.ecsBytes ++ (e.optsBytes c ++ rest)) = _ := readEcs_ecsBytes (by omega) _
  have h3 := readOpts_optsBytes hc (by omega) rest
  rw [List.append_assoc, List.append_assoc]
  refine bind_eq_ok_iff.mpr ⟨_, _, h1, ?_⟩
  refine bind_eq_ok_iff.mpr ⟨_, _, h2, ?_⟩
  refine bind_eq_ok_iff.mpr ⟨_, _, h3, ?_⟩
  rfl

end Cache
end SmartDns
