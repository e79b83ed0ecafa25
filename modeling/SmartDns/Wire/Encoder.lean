/-
# The encoder

`BinEncoder` of the vendored `hickory-dns` (`proto/src/serialize/binary/encoder.rs`): a buffer of
limited size that is written at an offset, the names written so far with the places they stand at,
places that are left free and filled in later, and the rollback of what did not fit.

`medium` is what holds of it at any time: it is coherent when each name it remembers stands where it
says, in a chain of labels that ends before the offset and keeps clear of the open places, so that
whatever is written later the name is there to be pointed at.

Outside of the DNSSEC canonical form, which this program never asks for, names are written as they are.

Key definitions: `BinEncoder`, `Emit`, `Coherent`, `Kept`, `medium`.
Key theorems: `puts_writeSlice`, `opens_place`, `fills_emitAt`, `coherent_rollback`.
-/
import SmartDns.Wire.Decoder

namespace SmartDns

open Dns Lib

namespace Wire

/-- How names are encoded. -/
inductive NameEncoding
  | compressed
  | uncompressed
  | uncompressedLowercase
deriving DecidableEq

/-- How names inside record data are encoded, by the kind of the record type. -/
inductive RDataEncoding
  | standardRecord
  | canonical
  | other
deriving DecidableEq

/-- `MaximalBuf` and the encoder around it. -/
structure BinEncoder where
  offset : ℕ := 0
  maxSize : ℕ := 65535
  buffer : List UInt8 := []
  namePointers : List (ℕ × List UInt8) := []
  canonicalForm : Bool := false
  nameEncoding : NameEncoding := .compressed

/-- What writes a message. -/
abbrev Emit (A : Type) := EStateM ProtoErrorKind BinEncoder A

namespace BinEncoder

/-- `Vec::resize` with zeros. -/
def resize (buffer : List UInt8) (len : ℕ) : List UInt8 :=
  buffer.take len ++ List.replicate (len - buffer.length) 0

/-- `MaximalBuf::write`. -/
def write (maxSize : ℕ) (buffer : List UInt8) (offset : ℕ) (data : List UInt8) : Except ProtoErrorKind (List UInt8) :=
  if offset + data.length > maxSize then .error (.maxBufferSizeExceeded maxSize)
  else if offset = buffer.length then .ok (buffer ++ data)
  else
    let last := offset + data.length
    let buffer := if last > buffer.length then resize buffer last else buffer
    .ok (buffer.take offset ++ data ++ buffer.drop last)

def setOffset (offset : ℕ) : Emit Unit := modify fun s => { s with offset }

/-- Cuts the buffer at the offset and forgets the names from there on. -/
def trim : Emit Unit := modify fun s =>
  { s with buffer := s.buffer.take s.offset, namePointers := s.namePointers.filter (·.1 < s.offset) }

def sliceOf (s : BinEncoder) (start last : ℕ) : List UInt8 := (s.buffer.drop start).take (last - start)

/-- Remembers the name from `start` to `last`, if a pointer can reach it. -/
def storeLabelPointer (start last : ℕ) : Emit Unit := modify fun s =>
  if s.offset < 0x3FFF then { s with namePointers := s.namePointers ++ [(start, s.sliceOf start last)] } else s

/-- The first place at which the same name stands. -/
def getLabelPointer (s : BinEncoder) (start last : ℕ) : Option UInt16 :=
  (s.namePointers.find? (·.2 == s.sliceOf start last)).map fun p => UInt16.ofNat p.1

def writeSlice (data : List UInt8) : Emit Unit := fun s =>
  match write s.maxSize s.buffer s.offset data with
  | .error e => .error e s
  | .ok buffer => .ok () { s with buffer, offset := s.offset + data.length }

/-- `emit`, `emit_u8`. -/
def emitU8 (b : UInt8) : Emit Unit := writeSlice [b]

def emitU16 (v : UInt16) : Emit Unit := writeSlice (toBe 2 v.toNat)

def emitU32 (v : UInt32) : Emit Unit := writeSlice (toBe 4 v.toNat)

def emitVec (data : List UInt8) : Emit Unit := writeSlice data

/-- At most 255 bytes with their number in front. -/
def emitCharacterData (data : List UInt8) : Emit Unit :=
  if data.length > 255 then throw (.characterDataTooLong 255 data.length)
  else do
    emitU8 (UInt8.ofNat data.length)
    writeSlice data

/-- Leaves `len` bytes free; `MaximalBuf::reserve` cuts the buffer behind them. -/
def place (len : ℕ) : Emit ℕ := fun s =>
  if s.offset + len > s.maxSize then .error (.maxBufferSizeExceeded s.maxSize) s
  else .ok s.offset { s with buffer := resize s.buffer (s.offset + len), offset := s.offset + len }

/-- Writes at a place that was left free. -/
def emitAt (p : ℕ) (emit : Emit Unit) : Emit Unit := fun s =>
  match emit { s with offset := p } with
  | .ok _ s' => .ok () { s' with offset := s.offset }
  | .error e s' => .error e { s' with offset := s.offset }

/-- Leaves two bytes free, writes the body and puts its length (`len_since_place`) there. -/
def withLength {A : Type} (body : Emit A) : Emit Unit := do
  let p ← place 2
  let _ ← body
  let s ← get
  emitAt p (emitU16 (UInt16.ofNat (s.offset - p - 2)))

/-- Back to where the encoder was in state `s`. -/
def rollback (s s' : BinEncoder) : BinEncoder :=
  { s' with offset := s.offset, namePointers := s'.namePointers.take s.namePointers.length }

/-- With another encoding of names, as long as `emit` goes on. -/
def withNameEncoding {A : Type} (encoding : NameEncoding) (emit : Emit A) : Emit A := fun s =>
  match emit { s with nameEncoding := encoding } with
  | .ok a s' => .ok a { s' with nameEncoding := s.nameEncoding }
  | .error e s' => .error e { s' with nameEncoding := s.nameEncoding }

def withRdataBehavior {A : Type} (encoding : RDataEncoding) (emit : Emit A) : Emit A := fun s =>
  withNameEncoding (match encoding, s.canonicalForm with
    | .standardRecord, true => .uncompressedLowercase
    | .canonical, true => .uncompressedLowercase
    | .standardRecord, false => s.nameEncoding
    | .canonical, false => .uncompressed
    | .other, _ => .uncompressed) emit s

/-- The buffer is full. -/
def isFull : ProtoErrorKind → Bool
  | .maxBufferSizeExceeded _ => true
  | _ => false

/-- `emit_iter` as `count_was_truncated` takes it apart: how many of the items were written, and whether the
next one did not fit any more. -/
def emitIter {A : Type} (emit : A → Emit Unit) (items : List A) : Emit (ℕ × Bool) :=
  sendMany isFull rollback emit items

/-! ### What holds of an encoder at any time -/

/-- What stands below the offset, but for the open places. -/
def Shows (H : ℕ → Prop) (s : BinEncoder) (i : ℕ) (b : UInt8) : Prop :=
  i < s.offset ∧ ¬ H i ∧ s.buffer[i]? = some b

/-- Labels on the wire, without their end. -/
def labelBytes : List Label → List UInt8
  | [] => []
  | l :: ls => UInt8.ofNat l.bytes.length :: (l.bytes ++ labelBytes ls)

/-- The name that is remembered stands at its place. -/
def Points (H : ℕ → Prop) (s : BinEncoder) (p : ℕ × List UInt8) : Prop :=
  p.1 < 0x3FFF ∧ ∃ ls e, ls ≠ [] ∧ p.2 = labelBytes ls ∧ NameAt (Shows H s) p.1 s.offset p.1 ls e

structure Coherent (H : ℕ → Prop) (s : BinEncoder) : Prop where
  open_lt : ∀ {i}, H i → i < s.offset
  offset_le : s.offset ≤ s.buffer.length
  length_le : s.buffer.length ≤ s.maxSize
  max_le : s.maxSize ≤ 65535
  plain : s.canonicalForm = false
  cased : s.nameEncoding ≠ .uncompressedLowercase
  points : ∀ p ∈ s.namePointers, Points H s p

theorem Coherent.offset_le_max {H : ℕ → Prop} {s : BinEncoder} (h : Coherent H s) : s.offset ≤ s.maxSize :=
  Nat.le_trans h.offset_le h.length_le

/-- What a step leaves as it was, also one that failed. -/
structure Kept (s s' : BinEncoder) : Prop where
  offset_le : s.offset ≤ s'.offset
  filled : s.offset ≤ s.buffer.length → s'.offset ≤ s'.buffer.length
  fits : s.buffer.length ≤ s.maxSize → s'.buffer.length ≤ s'.maxSize
  buffer_eq : ∀ i < s.offset, s'.buffer[i]? = s.buffer[i]?
  pointers : s.namePointers <+: s'.namePointers
  max_eq : s'.maxSize = s.maxSize
  form_eq : s'.canonicalForm = s.canonicalForm
  encoding_eq : s'.nameEncoding = s.nameEncoding

theorem Kept.refl (s : BinEncoder) : Kept s s :=
  ⟨le_refl _, id, id, fun _ _ => rfl, List.prefix_refl _, rfl, rfl, rfl⟩

theorem Kept.trans {s s' s'' : BinEncoder} (h : Kept s s') (h' : Kept s' s'') : Kept s s'' where
  offset_le := Nat.le_trans h.offset_le h'.offset_le
  filled hs := h'.filled (h.filled hs)
  fits hs := h'.fits (h.fits hs)
  buffer_eq i hi := (h'.buffer_eq i (Nat.lt_of_lt_of_le hi h.offset_le)).trans (h.buffer_eq i hi)
  pointers := h.pointers.trans h'.pointers
  max_eq := h'.max_eq.trans h.max_eq
  form_eq := h'.form_eq.trans h.form_eq
  encoding_eq := h'.encoding_eq.trans h.encoding_eq

/-- The encoder as a writer whose names point back. -/
def medium : Medium BinEncoder UInt8 where
  buffer := buffer
  offset := offset
  Coherent := Coherent
  Kept := Kept
  kept_refl := Kept.refl
  kept_trans := Kept.trans
  open_lt h := h.open_lt
  offset_le _ h := h.offset_le
  buffer_eq _ h := h.buffer_eq

/-- What stands below the offset stands there after a step that keeps it. -/
theorem Shows.mono {H H' : ℕ → Prop} {s s' : BinEncoder} (hoff : s.offset ≤ s'.offset)
    (hbuf : ∀ i < s.offset, ¬ H i → s'.buffer[i]? = s.buffer[i]?) (hH : ∀ i < s.offset, H' i → H i) {i : ℕ}
    {b : UInt8} (h : Shows H s i b) : Shows H' s' i b := by
  obtain ⟨hlt, hopen, hb⟩ := h
  exact ⟨Nat.lt_of_lt_of_le hlt hoff, fun h => hopen (hH i hlt h), (hbuf i hlt hopen).trans hb⟩

theorem Points.mono {H H' : ℕ → Prop} {s s' : BinEncoder} (hoff : s.offset ≤ s'.offset)
    (hbuf : ∀ i < s.offset, ¬ H i → s'.buffer[i]? = s.buffer[i]?) (hH : ∀ i < s.offset, H' i → H i)
    {p : ℕ × List UInt8} (h : Points H s p) : Points H' s' p := by
  obtain ⟨hp, ls, e, hne, hbytes, hat⟩ := h
  exact ⟨hp, ls, e, hne, hbytes, hat.mono (fun i b h => h.mono hoff hbuf hH) hoff⟩

/-- What the encoder shows stands in every buffer that agrees with it. -/
theorem Shows.has {H : ℕ → Prop} {s : BinEncoder} {d : List UInt8} (hd : Agrees H s.offset d s.buffer) {i : ℕ}
    {b : UInt8} (h : Shows H s i b) : Has d i b :=
  (hd i h.1 h.2.1).trans h.2.2

/-- A state that differs behind the offset only is as coherent, if it remembers nothing new. -/
theorem Coherent.of_kept {H : ℕ → Prop} {s s' : BinEncoder} (h : Coherent H s) (hk : Kept s s')
    (hpoints : ∀ p ∈ s'.namePointers, p ∉ s.namePointers → Points H s' p) :
    Coherent H s' where
  open_lt hi := Nat.lt_of_lt_of_le (h.open_lt hi) hk.offset_le
  offset_le := hk.filled h.offset_le
  length_le := hk.fits h.length_le
  max_le := by rw [hk.max_eq]; exact h.max_le
  plain := by rw [hk.form_eq]; exact h.plain
  cased := by rw [hk.encoding_eq]; exact h.cased
  points p hp := by
    by_cases hold : p ∈ s.namePointers
    · exact (h.points p hold).mono hk.offset_le (fun i hi _ => hk.buffer_eq i hi) fun _ _ h => h
    · exact hpoints p hp hold

/-! ### Writing -/

theorem length_resize (buffer : List UInt8) (len : ℕ) : (resize buffer len).length = len := by
  simp [resize]
  omega

theorem getElem?_resize {buffer : List UInt8} {len i : ℕ} (hi : i < len) (hb : i < buffer.length) :
    (resize buffer len)[i]? = buffer[i]? := by
  rw [resize, List.getElem?_append_left (by rw [List.length_take]; omega), List.getElem?_take_of_lt hi]

/-- What is written stands at the offset, over what was there. -/
theorem write_eq_ok {maxSize offset : ℕ} {buffer data buffer' : List UInt8} (hoff : offset ≤ buffer.length)
    (h : write maxSize buffer offset data = .ok buffer') :
    buffer' = overwrite buffer offset data ∧ offset + data.length ≤ maxSize := by
  unfold write at h
  split_ifs at h with hmax heq
  · cases h
    refine ⟨?_, Nat.not_lt.mp hmax⟩
    simp [overwrite, heq]
  · cases h
    refine ⟨?_, Nat.not_lt.mp hmax⟩
    unfold overwrite
    by_cases hlast : offset + data.length > buffer.length
    · rw [if_pos hlast, List.drop_of_length_le (by rw [length_resize]), List.drop_of_length_le (Nat.le_of_lt hlast)]
      congr 2
      rw [resize, List.take_append_of_le_length (by rw [List.length_take]; omega), List.take_take]
      congr 1
      omega
    · rw [if_neg hlast]

/-- The state after a write. -/
def written (s : BinEncoder) (data : List UInt8) : BinEncoder :=
  { s with buffer := overwrite s.buffer s.offset data, offset := s.offset + data.length }

theorem writeSlice_eq_ok {s s' : BinEncoder} {u : Unit} {data : List UInt8} (hoff : s.offset ≤ s.buffer.length)
    (h : writeSlice data s = .ok u s') : s' = s.written data ∧ s.offset + data.length ≤ s.maxSize := by
  unfold writeSlice at h
  cases hw : write s.maxSize s.buffer s.offset data with
  | error e =>
    rw [hw] at h
    cases h
  | ok buffer =>
    rw [hw] at h
    cases h
    obtain ⟨rfl, hmax⟩ := write_eq_ok hoff hw
    exact ⟨rfl, hmax⟩

/-- What does not fit is not written at all. -/
theorem writeSlice_eq_error {s s' : BinEncoder} {e : ProtoErrorKind} {data : List UInt8}
    (h : writeSlice data s = .error e s') : s' = s ∧ s.maxSize < s.offset + data.length := by
  unfold writeSlice at h
  cases hw : write s.maxSize s.buffer s.offset data with
  | error e =>
    rw [hw] at h
    cases h
    unfold write at hw
    split_ifs at hw with hmax
    exact ⟨rfl, hmax⟩
  | ok buffer =>
    rw [hw] at h
    cases h

theorem kept_written {s : BinEncoder} {data : List UInt8} (hoff : s.offset ≤ s.buffer.length)
    (hmax : s.offset + data.length ≤ s.maxSize) : Kept s (s.written data) where
  offset_le := Nat.le_add_right _ _
  filled _ := by
    show s.offset + data.length ≤ (overwrite s.buffer s.offset data).length
    rw [length_overwrite hoff]
    exact le_max_right _ _
  fits hs := by
    show (overwrite s.buffer s.offset data).length ≤ s.maxSize
    rw [length_overwrite hoff]
    exact max_le hs hmax
  buffer_eq i hi := getElem?_overwrite_of_lt hoff hi
  pointers := List.prefix_refl _
  max_eq := rfl
  form_eq := rfl
  encoding_eq := rfl

/-- **Bytes are written as they are.** -/
theorem puts_writeSlice (data : List UInt8) : Puts medium (writeSlice data) data where
  kept {H s} hco := by
    cases hw : writeSlice data s with
    | ok u s' =>
      obtain ⟨rfl, hmax⟩ := writeSlice_eq_ok hco.offset_le hw
      exact kept_written hco.offset_le hmax
    | error e s' =>
      obtain ⟨rfl, -⟩ := writeSlice_eq_error hw
      exact Kept.refl _
  coherent {H s s' a} hco hw := by
    obtain ⟨rfl, hmax⟩ := writeSlice_eq_ok hco.offset_le hw
    exact hco.of_kept (kept_written hco.offset_le hmax) fun p hp hnew => absurd hp hnew
  offset_eq {H s s' a} hco hw := by
    obtain ⟨rfl, -⟩ := writeSlice_eq_ok hco.offset_le hw
    rfl
  bytes {H s s' a} hco hw j hj := by
    obtain ⟨rfl, -⟩ := writeSlice_eq_ok hco.offset_le hw
    exact getElem?_overwrite_add hco.offset_le hj

theorem puts_emitU8 (b : UInt8) : Puts medium (emitU8 b) [b] := puts_writeSlice [b]

theorem puts_emitU16 (v : UInt16) : Puts medium (emitU16 v) (toBe 2 v.toNat) := puts_writeSlice _

theorem puts_emitU32 (v : UInt32) : Puts medium (emitU32 v) (toBe 4 v.toNat) := puts_writeSlice _

theorem puts_emitVec (data : List UInt8) : Puts medium (emitVec data) data := puts_writeSlice data

theorem puts_emitCharacterData (data : List UInt8) :
    Puts medium (emitCharacterData data) (UInt8.ofNat data.length :: data) := by
  unfold emitCharacterData
  split_ifs with hlong
  · exact .throw _ _
  · exact (puts_emitU8 _).bind fun _ => puts_writeSlice data

/-! ### Numbers and texts are read back -/

theorem takes_readBe {n v : ℕ} (hv : v < 256 ^ n) :
    Takes (ofReader (readBe ProtoErrorKind.insufficientBytes n)) (toBe n v) v := by
  refine .ofReader fun rest => ?_
  have := (frames_readBe ProtoErrorKind.insufficientBytes n v).whole rest
  rwa [Nat.mod_eq_of_lt hv] at this

theorem takes_readUInt16 (v : UInt16) : Takes readUInt16 (toBe 2 v.toNat) v := by
  have h : Takes readU16 (toBe 2 v.toNat) v.toNat := takes_readBe v.toNat_lt
  have := h.map UInt16.ofNat
  rwa [UInt16.ofNat_toNat] at this

theorem takes_readUInt32 (v : UInt32) : Takes readUInt32 (toBe 4 v.toNat) v := by
  have h : Takes readU32 (toBe 4 v.toNat) v.toNat := takes_readBe v.toNat_lt
  have := h.map UInt32.ofNat
  rwa [UInt32.ofNat_toNat] at this

theorem takes_byte (b : UInt8) : Takes pop [b] b := ⟨fun hd => pop_eq_ok_iff.mpr ⟨hd 0 (by simp), rfl⟩⟩

theorem takes_slice (data : List UInt8) : Takes (readSlice data.length) data data :=
  ⟨fun hd => readSlice_eq_ok_iff.mpr ⟨rfl, rfl, drop_eq_append_iff.mpr hd⟩⟩

theorem takes_readCharacterData {data : List UInt8} (h : data.length ≤ 255) :
    Takes readCharacterData (UInt8.ofNat data.length :: data) data := by
  have hlen : (UInt8.ofNat data.length).toNat = data.length := by
    rw [UInt8.toNat_ofNat']
    exact Nat.mod_eq_of_lt (by omega)
  have hrest : Takes (readSlice (UInt8.ofNat data.length).toNat) data data := by
    rw [hlen]
    exact takes_slice data
  exact (takes_byte _).bind hrest

/-- Nothing longer than a message can be is ever written. -/
theorem sends_of_puts {A V : Type} {w : Emit A} {bs : List UInt8} {r : ℕ → Decode V} {v : V} (h : Puts medium w bs)
    (hr : ∀ s s' a, w s = .ok a s' → bs.length ≤ 65535 → Takes (r bs.length) bs v) : Sends medium w r v where
  toSafe := h.toSafe
  reads {H s s' a d} hco hw hd := by
    have hco' : Coherent H s' := h.coherent hco hw
    have hoff : s'.offset = s.offset + bs.length := h.offset_eq hco hw
    have hle := hco'.offset_le_max
    have hmax := hco'.max_le
    exact (h.scanned (hr _ _ _ hw (by omega))).reads hco hw hd

theorem length_le_of_emitCharacterData {data : List UInt8} {s s' : BinEncoder} {u : Unit}
    (h : emitCharacterData data s = .ok u s') : data.length ≤ 255 := by
  unfold emitCharacterData at h
  by_cases hlong : data.length > 255
  · rw [if_pos hlong] at h
    cases h
  · exact Nat.not_lt.mp hlong

theorem sends_emitU16 (v : UInt16) : Sends medium (emitU16 v) (fun _ => readUInt16) v :=
  (puts_emitU16 v).scanned (takes_readUInt16 v)

theorem sends_emitU32 (v : UInt32) : Sends medium (emitU32 v) (fun _ => readUInt32) v :=
  (puts_emitU32 v).scanned (takes_readUInt32 v)

theorem sends_emitCharacterData (data : List UInt8) :
    Sends medium (emitCharacterData data) (fun _ => readCharacterData) data := by
  by_cases hlong : data.length > 255
  · unfold emitCharacterData
    rw [if_pos hlong]
    exact .throw _ _ _
  · exact (puts_emitCharacterData data).scanned (takes_readCharacterData (by omega))

/-! ### Places and rollbacks -/

/-- What is behind a length fits in what is left of the message. -/
theorem sends_verified {A V : Type} {w : Emit A} {r : ℕ → Decode V} {v : V} (text : ℕ → ℕ → String)
    (h : Sends medium w r v) : Sends medium w (fun n => verifyRemaining text n >>= fun _ => r n) v where
  toSafe := h.toSafe
  reads {H s s' a d} hco hw hd := by
    have hco' : Coherent H s' := h.coherent hco hw
    have hread := h.reads hco hw hd
    refine Scan.bind_ok (if_pos ?_) hread
    show s'.offset - s.offset ≤ d.length - s.offset
    by_cases hnone : s'.offset ≤ s.offset
    · omega
    have hopen : ¬ H (s'.offset - 1) := fun hopen => by
      have := hco.open_lt hopen
      omega
    have hlast := hd (s'.offset - 1) (by show s'.offset - 1 < s'.offset; omega) hopen
    have hfilled := hco'.offset_le
    have hsome : (s'.buffer)[s'.offset - 1]? = some s'.buffer[s'.offset - 1] := List.getElem?_eq_getElem (by omega)
    have := (List.getElem?_eq_some_iff.mp (hlast.trans hsome)).1
    omega

theorem opens_place (len : ℕ) : Opens medium (place len) len where
  kept {H s} hco := by
    unfold place
    split_ifs with hmax
    · exact Kept.refl s
    · refine ⟨Nat.le_add_right _ _, fun _ => ?_, fun _ => ?_, fun i hi => ?_, List.prefix_refl _, rfl, rfl, rfl⟩
      · exact le_of_eq (length_resize _ _).symm
      · exact le_trans (le_of_eq (length_resize _ _)) (Nat.not_lt.mp hmax)
      · have := hco.offset_le
        exact getElem?_resize (by omega) (by omega)
  position {H s s' p} hco hw := by
    unfold place at hw
    split_ifs at hw
    cases hw
    exact ⟨rfl, rfl⟩
  coherent {H s s' p} hco hw := by
    unfold place at hw
    split_ifs at hw with hmax
    cases hw
    have hle := hco.offset_le
    refine ⟨?_, le_of_eq (length_resize _ _).symm, le_trans (le_of_eq (length_resize _ _)) (Nat.not_lt.mp hmax),
      hco.max_le, hco.plain, hco.cased, ?_⟩
    · rintro i (hi | hi)
      · exact Nat.lt_of_lt_of_le (hco.open_lt hi) (Nat.le_add_right _ _)
      · exact hi.2
    · intro p hp
      refine (hco.points p hp).mono (Nat.le_add_right _ _) (fun i hi _ => getElem?_resize (by omega) (by omega)) ?_
      rintro i hi (hopen | hopen)
      · exact hopen
      · exact absurd hi (Nat.not_lt.mpr hopen.1)

/-- The step writes the bytes wherever there is room for them. -/
def Writes (emit : Emit Unit) (bs : List UInt8) : Prop :=
  ∀ s : BinEncoder, s.offset ≤ s.buffer.length → s.offset + bs.length ≤ s.maxSize → emit s = .ok () (s.written bs)

theorem writes_writeSlice (bs : List UInt8) : Writes (writeSlice bs) bs := by
  intro s hoff hmax
  cases hw : writeSlice bs s with
  | ok u s' =>
    obtain ⟨rfl, -⟩ := writeSlice_eq_ok hoff hw
    rfl
  | error e s' =>
    obtain ⟨-, hfull⟩ := writeSlice_eq_error hw
    omega

theorem written_written (s : BinEncoder) {bs bs' : List UInt8} (hoff : s.offset ≤ s.buffer.length) :
    (s.written bs).written bs' = s.written (bs ++ bs') := by
  unfold written
  dsimp only
  rw [overwrite_overwrite hoff, List.length_append, Nat.add_assoc]

theorem Writes.bind {emit emit' : Emit Unit} {bs bs' : List UInt8} (h : Writes emit bs) (h' : Writes emit' bs') :
    Writes (emit >>= fun _ => emit') (bs ++ bs') := by
  intro s hoff hmax
  rw [List.length_append] at hmax
  have hk : Kept s (s.written bs) := kept_written hoff (by omega)
  have hfirst := h s hoff (by omega)
  have hsecond := h' (s.written bs) (hk.filled hoff) (by show s.offset + bs.length + bs'.length ≤ s.maxSize; omega)
  rw [written_written s hoff] at hsecond
  exact write_bind_eq_ok_iff.mpr ⟨(), _, hfirst, hsecond⟩

/-- The state after a place has been filled in. -/
def patchedAt (s : BinEncoder) (p : ℕ) (bs : List UInt8) : BinEncoder := { s with buffer := overwrite s.buffer p bs }

theorem emitAt_eq {emit : Emit Unit} {bs : List UInt8} (h : Writes emit bs) {s : BinEncoder} {p : ℕ}
    (hp : p ≤ s.buffer.length) (hmax : p + bs.length ≤ s.maxSize) : emitAt p emit s = .ok () (s.patchedAt p bs) := by
  have := h { s with offset := p } hp hmax
  unfold emitAt
  rw [this]
  rfl

/-- **A place is filled in** by what writes just as many bytes. -/
theorem fills_emitAt {emit : Emit Unit} {p : ℕ} {bs : List UInt8} (h : Writes emit bs) :
    Fills medium (emitAt p emit) p bs where
  kept {H s₀ s} hco hk hp hle := by
    have hle' : p + bs.length ≤ s.offset := hle
    have hfilled := hk.filled hco.offset_le
    have hfits := hk.fits hco.length_le
    rw [emitAt_eq h (by omega) (by omega)]
    refine ⟨hk.offset_le, fun hs => ?_, fun hs => ?_, fun i hi => ?_, hk.pointers, hk.max_eq, hk.form_eq,
      hk.encoding_eq⟩
    · show s.offset ≤ (overwrite s.buffer p bs).length
      rw [length_overwrite (by omega)]
      exact le_trans (hk.filled hs) (le_max_left _ _)
    · show (overwrite s.buffer p bs).length ≤ s.maxSize
      rw [length_overwrite (by omega)]
      exact max_le (hk.fits hs) (by omega)
    · have hlt : i < p := Nat.lt_of_lt_of_le hi hp
      exact (getElem?_overwrite_of_lt (by omega) hlt).trans (hk.buffer_eq i hi)
  offset_eq {H s s' a} hco hle hw := by
    have hle' : p + bs.length ≤ s.offset := hle
    have := hco.offset_le
    have := hco.offset_le_max
    rw [emitAt_eq h (by omega) (by omega)] at hw
    cases hw
    rfl
  coherent {H s s' a} hco hle hapart hw := by
    have hle' : p + bs.length ≤ s.offset := hle
    have hlen := hco.offset_le
    have hmax := hco.length_le
    rw [emitAt_eq h (by omega) (by omega)] at hw
    cases hw
    refine ⟨fun hi => hco.open_lt (.inl hi), ?_, ?_, hco.max_le, hco.plain, hco.cased, fun q hq => ?_⟩
    · show s.offset ≤ (overwrite s.buffer p bs).length
      rw [length_overwrite (by omega)]
      exact le_trans hlen (le_max_left _ _)
    · show (overwrite s.buffer p bs).length ≤ s.maxSize
      rw [length_overwrite (by omega)]
      exact max_le hmax (by omega)
    · have hoff : s.offset ≤ (s.patchedAt p bs).offset := le_refl _
      refine (hco.points q hq).mono hoff (fun i hi hopen => ?_) fun i hi hopen => .inl hopen
      rw [not_or] at hopen
      exact getElem?_overwrite_of_not_place (by omega) hopen.2
  bytes {H s s' a} hco hle hw j hj := by
    have hle' : p + bs.length ≤ s.offset := hle
    have := hco.offset_le
    have := hco.offset_le_max
    rw [emitAt_eq h (by omega) (by omega)] at hw
    cases hw
    exact getElem?_overwrite_add (by omega) hj
  buffer_eq {H s s' a} hco hle hw i hi := by
    have hle' : p + bs.length ≤ s.offset := hle
    have := hco.offset_le
    have := hco.offset_le_max
    rw [emitAt_eq h (by omega) (by omega)] at hw
    cases hw
    exact getElem?_overwrite_of_not_place (by omega) hi

/-- The two bytes of a length. -/
def lengthBytes (k : ℕ) : List UInt8 := toBe 2 (UInt16.ofNat k).toNat

theorem length_lengthBytes (k : ℕ) : (lengthBytes k).length = 2 := toBe_length 2 _

theorem fills_length (p k : ℕ) : Fills medium (emitAt p (emitU16 (UInt16.ofNat k))) p (lengthBytes k) :=
  fills_emitAt (writes_writeSlice _)

theorem takes_lengthBytes {k : ℕ} (h : k ≤ 65535) : Takes readU16 (lengthBytes k) k := by
  have hcode : (UInt16.ofNat k).toNat = k := by
    rw [UInt16.toNat_ofNat']
    exact Nat.mod_eq_of_lt (by omega)
  unfold lengthBytes
  rw [hcode]
  exact takes_readBe (by omega)

theorem body_of_withLength {A : Type} {body : Emit A} {s s' : BinEncoder} {u : Unit}
    (h : withLength body s = .ok u s') : ∃ s₁ s₂ a, body s₁ = .ok a s₂ := by
  obtain ⟨p, s₁, -, h⟩ := write_bind_eq_ok_iff.mp h
  obtain ⟨a, s₂, hbody, -⟩ := write_bind_eq_ok_iff.mp h
  exact ⟨s₁, s₂, a, hbody⟩

theorem puts_withLength {A : Type} {body : Emit A} {bs : List UInt8} (h : Puts medium body bs) :
    Puts medium (withLength body) (lengthBytes bs.length ++ bs) :=
  .patched (opens_place 2) h length_lengthBytes fills_length

/-- **A body with its length in front is read back** by a reader that takes the length first. -/
theorem sends_withLength {A V : Type} {body : Emit A} {r : ℕ → Decode V} {v : V} (h : Sends medium body r v) :
    Sends medium (withLength body) (fun _ => readU16 >>= r) v := by
  refine .patched (opens_place 2) h length_lengthBytes fills_length fun H s s' a hco hw => takes_lengthBytes ?_
  have hco' : Coherent H s' := h.coherent hco hw
  have hle := hco'.offset_le_max
  have hmax := hco'.max_le
  show s'.offset - s.offset ≤ 65535
  omega

/-- **What does not fit is taken back**: the encoder is as coherent as before it was tried. -/
theorem coherent_rollback {H : ℕ → Prop} {s s' : BinEncoder} (hco : Coherent H s) (hk : Kept s s') :
    Coherent H (rollback s s') ∧ Kept s (rollback s s') ∧ (rollback s s').offset = s.offset := by
  have hpointers : s'.namePointers.take s.namePointers.length = s.namePointers :=
    (List.prefix_iff_eq_take.mp hk.pointers).symm
  have hkept : Kept s (rollback s s') := by
    refine ⟨le_refl _, fun hs => le_trans hk.offset_le (hk.filled hs), hk.fits, hk.buffer_eq, ?_, hk.max_eq,
      hk.form_eq, hk.encoding_eq⟩
    show s.namePointers <+: s'.namePointers.take s.namePointers.length
    exact hpointers.symm ▸ List.prefix_refl _
  refine ⟨hco.of_kept hkept fun p hp hnew => ?_, hkept, rfl⟩
  have hp : p ∈ s'.namePointers.take s.namePointers.length := hp
  rw [hpointers] at hp
  exact absurd hp hnew

/-- Another encoding of names changes nothing but how names are written. -/
theorem sends_withNameEncoding {A V : Type} {emit : Emit A} {r : ℕ → Decode V} {v : V} {encoding : NameEncoding}
    (hcased : encoding ≠ .uncompressedLowercase) (h : Sends medium emit r v) :
    Sends medium (withNameEncoding encoding emit) r v := by
  have hstart {H : ℕ → Prop} {s : BinEncoder} (hco : Coherent H s) :
      Coherent H { s with nameEncoding := encoding } :=
    ⟨hco.open_lt, hco.offset_le, hco.length_le, hco.max_le, hco.plain, hcased, hco.points⟩
  have hend {H : ℕ → Prop} {s s' : BinEncoder} (hco : Coherent H s) (hco' : Coherent H s') :
      Coherent H { s' with nameEncoding := s.nameEncoding } :=
    ⟨hco'.open_lt, hco'.offset_le, hco'.length_le, hco'.max_le, hco'.plain, hco.cased, hco'.points⟩
  have hback {s s' : BinEncoder} (hk : Kept { s with nameEncoding := encoding } s') :
      Kept s { s' with nameEncoding := s.nameEncoding } :=
    ⟨hk.offset_le, hk.filled, hk.fits, hk.buffer_eq, hk.pointers, hk.max_eq, hk.form_eq, rfl⟩
  have run {s s' : BinEncoder} {a : A} (hw : withNameEncoding encoding emit s = .ok a s') :
      ∃ s₁, emit { s with nameEncoding := encoding } = .ok a s₁ ∧
        s' = { s₁ with nameEncoding := s.nameEncoding } := by
    unfold withNameEncoding at hw
    cases he : emit { s with nameEncoding := encoding } with
    | ok b s₁ =>
      rw [he] at hw
      cases hw
      exact ⟨s₁, rfl, rfl⟩
    | error e s₁ =>
      rw [he] at hw
      cases hw
  refine ⟨⟨fun {H s} hco => ?_, fun {H s s' a} hco hw => ?_⟩, fun {H s s' a d} hco hw hd => ?_⟩
  · have hk := h.kept (hstart hco)
    unfold withNameEncoding
    cases he : emit { s with nameEncoding := encoding } with
    | ok b s₁ =>
      rw [he] at hk
      exact hback hk
    | error e s₁ =>
      rw [he] at hk
      exact hback hk
  · obtain ⟨s₁, he, rfl⟩ := run hw
    exact hend hco (h.coherent (hstart hco) he)
  · obtain ⟨s₁, he, rfl⟩ := run hw
    have := h.reads (hstart hco) he hd
    exact this

/-- Out of the canonical form names in record data are not put in lower case. -/
theorem sends_withRdataBehavior {A V : Type} {emit : Emit A} {r : ℕ → Decode V} {v : V} (encoding : RDataEncoding)
    (h : Sends medium emit r v) : Sends medium (withRdataBehavior encoding emit) r v := by
  have run {H : ℕ → Prop} {s : BinEncoder} (hco : Coherent H s) : ∃ e : NameEncoding, e ≠ .uncompressedLowercase ∧
      withRdataBehavior encoding emit s = withNameEncoding e emit s := by
    unfold withRdataBehavior
    rw [hco.plain]
    cases encoding with
    | standardRecord => exact ⟨s.nameEncoding, hco.cased, rfl⟩
    | canonical => exact ⟨.uncompressed, by decide, rfl⟩
    | other => exact ⟨.uncompressed, by decide, rfl⟩
  refine ⟨⟨fun {H s} hco => ?_, fun {H s s' a} hco hw => ?_⟩, fun {H s s' a d} hco hw hd => ?_⟩
  · obtain ⟨e, he, heq⟩ := run hco
    rw [heq]
    exact (sends_withNameEncoding he h).kept hco
  · obtain ⟨e, he, heq⟩ := run hco
    rw [heq] at hw
    exact (sends_withNameEncoding he h).coherent hco hw
  · obtain ⟨e, he, heq⟩ := run hco
    rw [heq] at hw
    exact (sends_withNameEncoding he h).reads hco hw hd

end BinEncoder

end Wire
end SmartDns
