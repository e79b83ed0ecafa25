/-
# Names are read off the wire

`BinDecoder` and `Name::read` of the vendored `hickory-dns` (`proto/src/serialize/binary/decoder.rs`,
`proto/src/rr/domain/name.rs`): a name is a chain of labels that ends in a zero byte or in a pointer to an
earlier place of the message, where it goes on. The loop is the state machine of the source, which jumps
along pointers where it once called itself.

What a chain of labels says is `NameAt`: the labels from a position on, each pointer to a place before the
stretch it stands in, each stretch ending before the one that points at it. The loop ends on every input
(`readLoop_isSome`) and reads just the names that stand there and have at most 255 bytes
(`readInner_eq_ok_iff`).

Key definitions: `readInner`, `NameAt`, `NameDecoder.step`.
Key theorems: `readInner_eq_ok_iff`, `NameAt.mono`.
-/
import SmartDns.Dns.NameParse
import SmartDns.Lib.Backpatch

namespace SmartDns

open Dns Lib

namespace Wire

/-- `ProtoErrorKind`, so far as reading and writing messages gives it. -/
inductive ProtoErrorKind
  | insufficientBytes
  | pointerNotPriorToLabel (idx ptr : ℕ)
  | labelOverlapsWithOther (label other : ℕ)
  | labelBytesTooLong (len : ℕ)
  | unrecognizedLabelCode (code : UInt8)
  | domainNameTooLong (len : ℕ)
  | characterDataTooLong (max len : ℕ)
  | maxBufferSizeExceeded (max : ℕ)
  | notAllRecordsWritten (count : ℕ)
  | ednsNameNotRoot (name : Name)
  | incorrectRDataLengthRead (read len : ℕ)
  | unknownRecordTypeValue (code : UInt16)
  | utf8
  | message (text : String)

/-- What is read off a message. -/
abbrev Decode (A : Type) := Scan UInt8 ProtoErrorKind A

def pop : Decode UInt8 := fun d i =>
  match d[i]? with
  | some b => .ok (b, i + 1)
  | none => .error .insufficientBytes

def readSlice (len : ℕ) : Decode (List UInt8) := ofReader (Lib.readSlice .insufficientBytes len)

def readU16 : Decode ℕ := ofReader (readBe .insufficientBytes 2)

def readU32 : Decode ℕ := ofReader (readBe .insufficientBytes 4)

def readUInt16 : Decode UInt16 := do
  let value ← readU16
  return UInt16.ofNat value

def readUInt32 : Decode UInt32 := do
  let value ← readU32
  return UInt32.ofNat value

/-- There are that many bytes left. -/
def verifyRemaining (text : ℕ → ℕ → String) (len : ℕ) : Decode Unit := fun d i =>
  if len ≤ d.length - i then .ok ((), i) else .error (.message (text len (d.length - i)))

/-- A length byte and that many bytes. -/
def readCharacterData : Decode (List UInt8) := do
  let length ← pop
  readSlice length.toNat

end Wire

namespace Dns.Name

def labelData (n : Name) : List UInt8 := n.labels.flatMap (·.bytes)

def len (n : Name) : ℕ := (if n.labels.isEmpty then 1 else n.labels.length) + n.labelData.length

/-- `encoded_len`: the length without compression, the root label at the end included. -/
def encodedSize (n : Name) : ℕ := n.labels.length + n.labelData.length + 1

@[simp] theorem encodedSize_snoc (n : Name) (l : Label) :
    ({ n with labels := n.labels ++ [l] } : Name).encodedSize = n.encodedSize + l.bytes.length + 1 := by
  simp [encodedSize, labelData]
  omega

end Dns.Name

namespace Wire

/-- What the loop expects next. -/
inductive LabelParseState
  | labelLengthOrPointer
  | label
  | pointer
deriving DecidableEq

/-- The locals of `read_inner`. The decoder handed in stays behind the first pointer, at `left`, while
the one at hand goes on from `index`. -/
structure NameDecoder where
  state : LabelParseState := .labelLengthOrPointer
  ptrMaxIdx : Option ℕ := none
  index : ℕ
  left : Option ℕ := none
  nameStart : ℕ
  name : Name := ⟨false, []⟩

/-- What one round of the loop comes to. -/
inductive Round
  | next (st : NameDecoder)
  | done (name : Name) (index : ℕ)
  | fail (e : ProtoErrorKind)

/-- The two bytes of a pointer without their marks. -/
def pointerTarget (value : ℕ) : ℕ := value &&& 0x3FFF

namespace NameDecoder

/-- What stands where a label or a pointer is expected. -/
def labelLengthOrPointer (d : List UInt8) (st : NameDecoder) : Round :=
  match d[st.index]? with
  | none => .fail .insufficientBytes
  | some byte =>
    if byte = 0 then .done (st.name.setFqdn true) (st.left.getD (st.index + 1))
    else if byte &&& 0b11000000 = 0b11000000 then .next { st with state := .pointer }
    else if byte &&& 0b11000000 = 0 then .next { st with state := .label }
    else .fail (.unrecognizedLabelCode byte)

def label (d : List UInt8) (st : NameDecoder) : Round :=
  match readCharacterData d st.index with
  | .error e => .fail e
  | .ok (bytes, index) =>
    if hshort : bytes.length ≤ 63 then
      -- the length byte has been looked at and is not zero
      if hne : bytes ≠ [] then
        match st.name.extendName ⟨bytes, hne, hshort⟩ with
        | none => .fail (.domainNameTooLong bytes.length)
        | some name => .next { st with state := .labelLengthOrPointer, index, name }
      else .next { st with state := .labelLengthOrPointer, index }
    else .fail (.labelBytesTooLong bytes.length)

def pointer (d : List UInt8) (st : NameDecoder) : Round :=
  match readU16 d st.index with
  | .error e => .fail e
  | .ok (value, index) =>
    if pointerTarget value < st.nameStart then
      .next { st with
        state := .labelLengthOrPointer
        ptrMaxIdx := some st.nameStart
        index := pointerTarget value
        left := some (st.left.getD index)
        nameStart := pointerTarget value }
    else .fail (.pointerNotPriorToLabel st.index (pointerTarget value))

def overlaps (st : NameDecoder) : Option ProtoErrorKind :=
  match st.ptrMaxIdx with
  | some maxIdx => if st.index ≥ maxIdx then some (.labelOverlapsWithOther st.nameStart maxIdx) else none
  | none => none

/-- The early end of a round: the name is too long already. -/
def tooLong : Round → Round
  | .next st => if st.name.labelData.length ≥ 255 then .fail (.domainNameTooLong st.name.len) else .next st
  | round => round

/-- One round of the loop. -/
def step (d : List UInt8) (st : NameDecoder) : Round :=
  match st.overlaps with
  | some e => .fail e
  | none =>
    tooLong <| match st.state with
      | .labelLengthOrPointer => st.labelLengthOrPointer d
      | .label => st.label d
      | .pointer => st.pointer d

end NameDecoder

/-- The loop, for a number of rounds. -/
def readLoop (d : List UInt8) : ℕ → NameDecoder → Option (Except ProtoErrorKind (Name × ℕ))
  | 0, _ => none
  | rounds + 1, st =>
    match st.step d with
    | .next st => readLoop d rounds st
    | .done name index => some (.ok (name, index))
    | .fail e => some (.error e)

/-- How many rounds the loop has at most. -/
def NameDecoder.rounds (st : NameDecoder) : ℕ :=
  2 * (st.nameStart + (256 - st.name.labelData.length)) + if st.state = .labelLengthOrPointer then 1 else 0

/-- `read_inner`, from a position. -/
def readInner : Decode Name := fun d i =>
  let st : NameDecoder := { index := i, nameStart := i }
  match readLoop d (st.rounds + 1) st with
  | none => .error .insufficientBytes
  | some (.error e) => .error e
  | some (.ok (name, index)) => if name.len ≥ 255 then .error (.domainNameTooLong name.len) else .ok (name, index)

/-- `Name::read`. -/
def readName : Decode Name := readInner

/-! ### What the readers take -/

theorem pop_eq_ok_iff {d : List UInt8} {i j : ℕ} {b : UInt8} : pop d i = .ok (b, j) ↔ d[i]? = some b ∧ j = i + 1 := by
  unfold pop
  cases d[i]? with
  | none => simp
  | some b' =>
    constructor
    · intro h
      cases h
      exact ⟨rfl, rfl⟩
    · rintro ⟨h, rfl⟩
      cases h
      rfl

theorem readSlice_eq_ok_iff {d bs : List UInt8} {n i j : ℕ} :
    readSlice n d i = .ok (bs, j) ↔ bs.length = n ∧ j = i + n ∧ ∃ rest, d.drop i = bs ++ rest := by
  unfold readSlice ofReader
  constructor
  · intro h
    cases hr : Lib.readSlice (E := ProtoErrorKind) .insufficientBytes n (d.drop i) with
    | error e =>
      rw [hr] at h
      cases h
    | ok p =>
      obtain ⟨hd, hlen⟩ := Lib.readSlice_eq_ok_iff.mp hr
      rw [hr] at h
      cases h
      refine ⟨hlen, ?_, p.2, hd⟩
      rw [hd, List.length_append]
      omega
  · rintro ⟨hlen, rfl, rest, hd⟩
    rw [Lib.readSlice_eq_ok_iff.mpr ⟨hd, hlen⟩, hd, List.length_append, hlen]
    simp only [Except.map]
    congr 2
    omega

/-- A run of bytes that stands at a position. -/
theorem drop_eq_append_iff {d bs : List UInt8} {i : ℕ} : (∃ rest, d.drop i = bs ++ rest) ↔ Stands d i bs := by
  constructor
  · rintro ⟨rest, h⟩ j hj
    rw [← List.getElem?_drop, h, List.getElem?_append_left hj]
  · intro h
    exact ⟨_, h.drop_eq⟩

theorem readU16_eq_ok_iff {d : List UInt8} {i j v : ℕ} :
    readU16 d i = .ok (v, j) ↔
      ∃ hi lo : UInt8, d[i]? = some hi ∧ d[i + 1]? = some lo ∧ v = hi.toNat * 256 + lo.toNat ∧ j = i + 2 := by
  have hrun : readU16 d i = (readSlice 2 d i).map fun p => (ofBe p.1, p.2) := by
    unfold readU16 readSlice ofReader readBe
    have bind (x : List UInt8) : (do
        let bs ← Lib.readSlice (E := ProtoErrorKind) .insufficientBytes 2
        return ofBe bs : Reader UInt8 ProtoErrorKind ℕ) x =
          (Lib.readSlice (E := ProtoErrorKind) .insufficientBytes 2 x).map fun p => (ofBe p.1, p.2) := by
      show ((Lib.readSlice (E := ProtoErrorKind) .insufficientBytes 2 x).bind fun p => .ok (ofBe p.1, p.2)) = _
      cases Lib.readSlice (E := ProtoErrorKind) .insufficientBytes 2 x <;> rfl
    rw [bind]
    cases Lib.readSlice (E := ProtoErrorKind) .insufficientBytes 2 (d.drop i) <;> rfl
  rw [hrun]
  constructor
  · intro h
    cases hr : readSlice 2 d i with
    | error e =>
      rw [hr] at h
      cases h
    | ok p =>
      obtain ⟨bs, k⟩ := p
      rw [hr] at h
      cases h
      obtain ⟨hlen, rfl, hrest⟩ := readSlice_eq_ok_iff.mp hr
      obtain ⟨hi, lo, rfl⟩ := List.length_eq_two.mp hlen
      have hbytes := drop_eq_append_iff.mp hrest
      exact ⟨hi, lo, hbytes 0 (by simp), hbytes 1 (by simp), by simp [ofBe], rfl⟩
  · rintro ⟨hi, lo, hhi, hlo, rfl, rfl⟩
    have hread : readSlice 2 d i = .ok ([hi, lo], i + 2) := by
      refine readSlice_eq_ok_iff.mpr ⟨rfl, rfl, drop_eq_append_iff.mpr ?_⟩
      intro j hj
      rcases j with _ | _ | j
      · exact hhi
      · exact hlo
      · exact absurd hj (by simp)
    rw [hread]
    simp [Except.map, ofBe]

theorem readCharacterData_eq_ok_iff {d bs : List UInt8} {i j : ℕ} :
    readCharacterData d i = .ok (bs, j) ↔
      (∃ b : UInt8, d[i]? = some b ∧ b.toNat = bs.length) ∧ j = i + 1 + bs.length ∧
        ∀ k < bs.length, d[i + 1 + k]? = bs[k]? := by
  unfold readCharacterData
  rw [Scan.bind_eq_ok_iff]
  constructor
  · rintro ⟨b, k, hpop, hs⟩
    obtain ⟨hb, rfl⟩ := pop_eq_ok_iff.mp hpop
    obtain ⟨hlen, rfl, hrest⟩ := readSlice_eq_ok_iff.mp hs
    exact ⟨⟨b, hb, hlen.symm⟩, by rw [hlen], drop_eq_append_iff.mp hrest⟩
  · rintro ⟨⟨b, hb, hlen⟩, rfl, hbytes⟩
    exact ⟨b, i + 1, pop_eq_ok_iff.mpr ⟨hb, rfl⟩,
      readSlice_eq_ok_iff.mpr ⟨hlen.symm, by rw [hlen], drop_eq_append_iff.mpr hbytes⟩⟩

theorem pointerTarget_eq (hi lo : UInt8) :
    pointerTarget (hi.toNat * 256 + lo.toNat) = hi.toNat % 64 * 256 + lo.toNat := by
  have hlo := lo.toNat_lt
  have hmask : pointerTarget (hi.toNat * 256 + lo.toNat) = (hi.toNat * 256 + lo.toNat) % 2 ^ 14 :=
    Nat.and_two_pow_sub_one_eq_mod _ 14
  rw [hmask]
  omega

/-! ### What a chain of labels says -/

/-- The labels from `i` on, in a stretch that begins at `start` and has to end before `bound`, and where what
comes after them begins. A pointer leads to a place before the stretch, to a stretch that ends before it. -/
inductive NameAt (shows : ℕ → UInt8 → Prop) : ℕ → ℕ → ℕ → List Label → ℕ → Prop
  | root {start bound i : ℕ} : i < bound → shows i 0 → NameAt shows start bound i [] (i + 1)
  | label {start bound i e : ℕ} {l : Label} {ls : List Label} : i < bound →
      shows i (UInt8.ofNat l.bytes.length) → (∀ j, (h : j < l.bytes.length) → shows (i + 1 + j) l.bytes[j]) →
      NameAt shows start bound (i + 1 + l.bytes.length) ls e → NameAt shows start bound i (l :: ls) e
  | pointer {start bound i e : ℕ} {hi lo : UInt8} {ls : List Label} : i < bound → shows i hi →
      hi &&& 0b11000000 = 0b11000000 → shows (i + 1) lo → hi.toNat % 64 * 256 + lo.toNat < start →
      NameAt shows (hi.toNat % 64 * 256 + lo.toNat) start (hi.toNat % 64 * 256 + lo.toNat) ls e →
      NameAt shows start bound i ls (i + 2)

/-- More bytes and a later bound change nothing. -/
theorem NameAt.mono {shows shows' : ℕ → UInt8 → Prop} {start bound i e : ℕ} {ls : List Label}
    (h : NameAt shows start bound i ls e) (hs : ∀ i b, shows i b → shows' i b) :
    ∀ {bound'}, bound ≤ bound' → NameAt shows' start bound' i ls e := by
  induction h with
  | root hlt h0 =>
    intro bound' hb
    exact .root (Nat.lt_of_lt_of_le hlt hb) (hs _ _ h0)
  | label hlt hlen hbytes _ ih =>
    intro bound' hb
    exact .label (Nat.lt_of_lt_of_le hlt hb) (hs _ _ hlen) (fun j hj => hs _ _ (hbytes j hj)) (ih hb)
  | pointer hlt hhi hmark hlo htarget _ ih =>
    intro bound' hb
    exact .pointer (Nat.lt_of_lt_of_le hlt hb) (hs _ _ hhi) hmark (hs _ _ hlo) htarget (ih (le_refl _))

/-- What stands in a buffer. -/
def Has (d : List UInt8) (i : ℕ) (b : UInt8) : Prop := d[i]? = some b

/-- The length of the labels on the wire, without the root. -/
def wireLen : List Label → ℕ
  | [] => 0
  | l :: ls => l.bytes.length + 1 + wireLen ls

@[simp] theorem wireLen_cons (l : Label) (ls : List Label) :
    wireLen (l :: ls) = l.bytes.length + 1 + wireLen ls := rfl

theorem wireLen_append (ls ls' : List Label) : wireLen (ls ++ ls') = wireLen ls + wireLen ls' := by
  induction ls with
  | nil => simp [wireLen]
  | cons l ls ih =>
    simp only [List.cons_append, wireLen, ih]
    omega

theorem encodedSize_eq (n : Name) : n.encodedSize = wireLen n.labels + 1 := by
  obtain ⟨f, ls⟩ := n
  unfold Name.encodedSize Name.labelData
  induction ls with
  | nil => rfl
  | cons l ls ih =>
    simp only [List.flatMap_cons, List.length_append, List.length_cons, wireLen] at ih ⊢
    omega

theorem labelData_le (n : Name) : n.labelData.length + n.labels.length + 1 = n.encodedSize := by
  unfold Name.encodedSize
  omega

theorem extendName_eq_some_iff {n n' : Name} {l : Label} :
    n.extendName l = some n' ↔ n' = { n with labels := n.labels ++ [l] } ∧ n'.encodedSize ≤ 255 := by
  unfold Name.extendName
  constructor
  · intro h
    split_ifs at h with hlen
    obtain rfl := Option.some.inj h
    refine ⟨rfl, ?_⟩
    rw [Name.encodedSize_snoc]
    exact Nat.not_lt.mp hlen
  · rintro ⟨rfl, hlen⟩
    rw [Name.encodedSize_snoc] at hlen
    exact if_neg (Nat.not_lt.mpr hlen)

namespace NameDecoder

/-- Where a label or a pointer is expected, its first byte has been looked at. -/
structure Looked (d : List UInt8) (st : NameDecoder) : Prop where
  label : st.state = .label → ∃ b, d[st.index]? = some b ∧ b ≠ 0
  pointer : st.state = .pointer → ∃ b, d[st.index]? = some b ∧ b &&& 0b11000000 = 0b11000000

/-- The bound of the stretch at hand. -/
def bound (d : List UInt8) (st : NameDecoder) : ℕ := st.ptrMaxIdx.getD d.length

/-- What one round that goes on does. -/
inductive Steps (d : List UInt8) (st : NameDecoder) : NameDecoder → Prop
  | toLabel {b : UInt8} : st.state = .labelLengthOrPointer → d[st.index]? = some b → b ≠ 0 →
      b &&& 0b11000000 = 0 → Steps d st { st with state := .label }
  | toPointer {b : UInt8} : st.state = .labelLengthOrPointer → d[st.index]? = some b →
      b &&& 0b11000000 = 0b11000000 → Steps d st { st with state := .pointer }
  | label {l : Label} {b : UInt8} : st.state = .label → d[st.index]? = some b → b.toNat = l.bytes.length →
      (∀ k < l.bytes.length, d[st.index + 1 + k]? = l.bytes[k]?) →
      ({ st.name with labels := st.name.labels ++ [l] } : Name).encodedSize ≤ 255 →
      Steps d st { st with
        state := .labelLengthOrPointer
        index := st.index + 1 + l.bytes.length
        name := { st.name with labels := st.name.labels ++ [l] } }
  | pointer {hi lo : UInt8} : st.state = .pointer → d[st.index]? = some hi → d[st.index + 1]? = some lo →
      hi.toNat % 64 * 256 + lo.toNat < st.nameStart →
      Steps d st { st with
        state := .labelLengthOrPointer
        ptrMaxIdx := some st.nameStart
        index := hi.toNat % 64 * 256 + lo.toNat
        left := some (st.left.getD (st.index + 2))
        nameStart := hi.toNat % 64 * 256 + lo.toNat }

theorem overlaps_eq_none_iff {st : NameDecoder} :
    st.overlaps = none ↔ ∀ maxIdx, st.ptrMaxIdx = some maxIdx → st.index < maxIdx := by
  unfold overlaps
  cases st.ptrMaxIdx with
  | none => simp
  | some maxIdx => simp

theorem tooLong_next (st : NameDecoder) : tooLong (.next st) =
    if st.name.labelData.length ≥ 255 then .fail (.domainNameTooLong st.name.len) else .next st := rfl

theorem tooLong_eq_next_iff {round : Round} {st : NameDecoder} :
    tooLong round = .next st ↔ round = .next st ∧ st.name.labelData.length < 255 := by
  cases round with
  | next st' =>
    rw [tooLong_next]
    constructor
    · intro h
      split_ifs at h with hlen
      cases h
      exact ⟨rfl, Nat.not_le.mp hlen⟩
    · rintro ⟨h, hlen⟩
      cases h
      exact if_neg (Nat.not_le.mpr hlen)
  | done name index => simp [tooLong]
  | fail e => simp [tooLong]

theorem tooLong_eq_done_iff {round : Round} {name : Name} {index : ℕ} :
    tooLong round = .done name index ↔ round = .done name index := by
  cases round with
  | next st' =>
    rw [tooLong_next]
    split_ifs <;> simp
  | done name index => simp [tooLong]
  | fail e => simp [tooLong]

theorem labelLengthOrPointer_eq_next_iff {d : List UInt8} {st st' : NameDecoder} :
    st.labelLengthOrPointer d = .next st' ↔ ∃ b, d[st.index]? = some b ∧ b ≠ 0 ∧
      ((b &&& 0b11000000 = 0b11000000 ∧ st' = { st with state := .pointer }) ∨
        (b &&& 0b11000000 = 0 ∧ st' = { st with state := .label })) := by
  unfold labelLengthOrPointer
  cases d[st.index]? with
  | none => simp
  | some b =>
    by_cases h0 : b = 0
    · simp [h0]
    · by_cases hp : b &&& 0b11000000 = 0b11000000
      · have hl : ¬ b &&& 0b11000000 = 0 := by
          rw [hp]
          decide
        simp [h0, hp, eq_comm]
      · by_cases hl : b &&& 0b11000000 = 0
        · simp [h0, hl, eq_comm]
        · simp [h0, hp, hl]

theorem label_eq_next_iff {d : List UInt8} {st st' : NameDecoder} (hl : ∃ b, d[st.index]? = some b ∧ b ≠ 0) :
    st.label d = .next st' ↔ ∃ (l : Label) (b : UInt8), d[st.index]? = some b ∧ b.toNat = l.bytes.length ∧
      (∀ k < l.bytes.length, d[st.index + 1 + k]? = l.bytes[k]?) ∧
      ({ st.name with labels := st.name.labels ++ [l] } : Name).encodedSize ≤ 255 ∧
      st' = { st with
        state := .labelLengthOrPointer
        index := st.index + 1 + l.bytes.length
        name := { st.name with labels := st.name.labels ++ [l] } } := by
  unfold label
  constructor
  · intro h
    cases hread : readCharacterData d st.index with
    | error e =>
      rw [hread] at h
      cases h
    | ok p =>
      obtain ⟨bytes, index⟩ := p
      obtain ⟨⟨b, hb, hlen⟩, rfl, hbytes⟩ := readCharacterData_eq_ok_iff.mp hread
      rw [hread] at h
      dsimp only at h
      split_ifs at h with hshort hne
      · cases hext : st.name.extendName ⟨bytes, hne, hshort⟩ with
        | none =>
          rw [hext] at h
          cases h
        | some name =>
          rw [hext] at h
          cases h
          obtain ⟨rfl, hle⟩ := extendName_eq_some_iff.mp hext
          exact ⟨⟨bytes, hne, hshort⟩, b, hb, hlen, hbytes, hle, rfl⟩
      · -- the length byte is not zero
        obtain ⟨b', hb', hb0⟩ := hl
        rw [hb] at hb'
        cases hb'
        rw [not_not] at hne
        rw [hne] at hlen
        exact absurd (UInt8.toNat_inj.mp hlen) hb0
  · rintro ⟨l, b, hb, hlen, hbytes, hle, rfl⟩
    rw [readCharacterData_eq_ok_iff.mpr ⟨⟨b, hb, hlen⟩, rfl, hbytes⟩]
    dsimp only
    rw [dif_pos l.short, dif_pos l.nonempty, extendName_eq_some_iff.mpr ⟨rfl, hle⟩]

theorem pointer_eq_next_iff {d : List UInt8} {st st' : NameDecoder} :
    st.pointer d = .next st' ↔ ∃ hi lo : UInt8, d[st.index]? = some hi ∧ d[st.index + 1]? = some lo ∧
      hi.toNat % 64 * 256 + lo.toNat < st.nameStart ∧
      st' = { st with
        state := .labelLengthOrPointer
        ptrMaxIdx := some st.nameStart
        index := hi.toNat % 64 * 256 + lo.toNat
        left := some (st.left.getD (st.index + 2))
        nameStart := hi.toNat % 64 * 256 + lo.toNat } := by
  unfold pointer
  constructor
  · intro h
    cases hread : readU16 d st.index with
    | error e =>
      rw [hread] at h
      cases h
    | ok p =>
      obtain ⟨value, index⟩ := p
      obtain ⟨hi, lo, hhi, hlo, rfl, rfl⟩ := readU16_eq_ok_iff.mp hread
      rw [hread] at h
      dsimp only at h
      rw [pointerTarget_eq] at h
      split_ifs at h with hlt
      cases h
      exact ⟨hi, lo, hhi, hlo, hlt, rfl⟩
  · rintro ⟨hi, lo, hhi, hlo, hlt, rfl⟩
    rw [readU16_eq_ok_iff.mpr ⟨hi, lo, hhi, hlo, rfl, rfl⟩]
    dsimp only
    rw [pointerTarget_eq, if_pos hlt]

/-- A round that goes on is one of these steps, and the name stays short of the limit. -/
theorem step_eq_next_iff {d : List UInt8} {st st' : NameDecoder} (hl : st.Looked d) :
    st.step d = .next st' ↔ st.overlaps = none ∧ Steps d st st' ∧ st'.name.labelData.length < 255 := by
  unfold step
  cases hover : st.overlaps with
  | some e => simp
  | none =>
    dsimp only
    rw [tooLong_eq_next_iff]
    constructor
    · rintro ⟨h, hdata⟩
      refine ⟨rfl, ?_, hdata⟩
      cases hstate : st.state with
      | labelLengthOrPointer =>
        rw [hstate] at h
        obtain ⟨b, hb, h0, ⟨hp, rfl⟩ | ⟨hlabel, rfl⟩⟩ := labelLengthOrPointer_eq_next_iff.mp h
        · exact .toPointer hstate hb hp
        · exact .toLabel hstate hb h0 hlabel
      | label =>
        rw [hstate] at h
        obtain ⟨l, b, hb, hlen, hbytes, hle, rfl⟩ := (label_eq_next_iff (hl.label hstate)).mp h
        exact .label hstate hb hlen hbytes hle
      | pointer =>
        rw [hstate] at h
        obtain ⟨hi, lo, hhi, hlo, hlt, rfl⟩ := pointer_eq_next_iff.mp h
        exact .pointer hstate hhi hlo hlt
    · rintro ⟨-, h, hdata⟩
      refine ⟨?_, hdata⟩
      cases h with
      | toLabel hstate hb h0 hlabel =>
        rw [hstate]
        exact labelLengthOrPointer_eq_next_iff.mpr ⟨_, hb, h0, .inr ⟨hlabel, rfl⟩⟩
      | toPointer hstate hb hp =>
        rw [hstate]
        refine labelLengthOrPointer_eq_next_iff.mpr ⟨_, hb, ?_, .inl ⟨hp, rfl⟩⟩
        rintro rfl
        exact absurd hp (by decide)
      | label hstate hb hlen hbytes hle =>
        rw [hstate]
        exact (label_eq_next_iff (hl.label hstate)).mpr ⟨_, _, hb, hlen, hbytes, hle, rfl⟩
      | pointer hstate hhi hlo hlt =>
        rw [hstate]
        exact pointer_eq_next_iff.mpr ⟨_, _, hhi, hlo, hlt, rfl⟩

/-- The loop is over where the root stands. -/
theorem step_eq_done_iff {d : List UInt8} {st : NameDecoder} {name : Name} {index : ℕ} :
    st.step d = .done name index ↔ st.overlaps = none ∧ st.state = .labelLengthOrPointer ∧
      d[st.index]? = some 0 ∧ name = st.name.setFqdn true ∧ index = st.left.getD (st.index + 1) := by
  unfold step
  cases hover : st.overlaps with
  | some e => simp
  | none =>
    dsimp only
    rw [tooLong_eq_done_iff]
    cases hstate : st.state with
    | labelLengthOrPointer =>
      dsimp only
      unfold labelLengthOrPointer
      cases d[st.index]? with
      | none => simp
      | some b =>
        dsimp only
        split_ifs with h0 hp hl
        · simp [h0, eq_comm]
        all_goals simp [h0]
    | label =>
      dsimp only
      unfold label
      cases readCharacterData d st.index with
      | error e => simp
      | ok p =>
        dsimp only
        split_ifs with hshort hne
        · cases st.name.extendName ⟨p.1, hne, hshort⟩ <;> simp
        all_goals simp
    | pointer =>
      dsimp only
      unfold pointer
      cases readU16 d st.index with
      | error e => simp
      | ok p =>
        dsimp only
        split_ifs <;> simp

/-! ### The loop ends -/

theorem Steps.looked {d : List UInt8} {st st' : NameDecoder} (h : Steps d st st') : st'.Looked d := by
  cases h with
  | toLabel _ hb h0 _ => exact ⟨fun _ => ⟨_, hb, h0⟩, fun h => (by cases h)⟩
  | toPointer _ hb hp => exact ⟨fun h => (by cases h), fun _ => ⟨_, hb, hp⟩⟩
  | label => exact ⟨fun h => (by cases h), fun h => (by cases h)⟩
  | pointer => exact ⟨fun h => (by cases h), fun h => (by cases h)⟩

theorem looked_of_start {d : List UInt8} {st : NameDecoder} (h : st.state = .labelLengthOrPointer) : st.Looked d :=
  ⟨fun h' => absurd (h.symm.trans h') (by decide), fun h' => absurd (h.symm.trans h') (by decide)⟩

theorem index_lt_bound {d : List UInt8} {st : NameDecoder} {b : UInt8} (h : st.overlaps = none)
    (hb : d[st.index]? = some b) : st.index < st.bound d := by
  unfold bound
  cases hmax : st.ptrMaxIdx with
  | none => exact (List.getElem?_eq_some_iff.mp hb).1
  | some maxIdx => exact overlaps_eq_none_iff.mp h maxIdx hmax

theorem overlaps_eq_none_of_lt {d : List UInt8} {st : NameDecoder} (h : st.index < st.bound d) :
    st.overlaps = none := by
  rw [overlaps_eq_none_iff]
  intro maxIdx hmax
  unfold bound at h
  rwa [hmax] at h

theorem Steps.rounds_lt {d : List UInt8} {st st' : NameDecoder} (h : Steps d st st')
    (hlen : st'.name.labelData.length < 255) : st'.rounds < st.rounds := by
  unfold rounds
  cases h with
  | toLabel hstate => simp [hstate]
  | toPointer hstate => simp [hstate]
  | @label l _ hstate =>
    have hpos := List.length_pos_of_ne_nil l.nonempty
    have hdata : ({ st.name with labels := st.name.labels ++ [l] } : Name).labelData.length =
        st.name.labelData.length + l.bytes.length := by simp [Name.labelData]
    simp only [hdata] at hlen
    simp only [hstate, hdata, reduceCtorEq, if_false, if_true]
    omega
  | pointer hstate _ _ hlt =>
    simp only [hstate, reduceCtorEq, if_false, if_true]
    omega

end NameDecoder

/-- **The loop ends on every input.** -/
theorem readLoop_isSome (d : List UInt8) : ∀ (rounds : ℕ) (st : NameDecoder), st.Looked d → st.rounds < rounds →
    (readLoop d rounds st).isSome
  | 0, _, _, h => absurd h (Nat.not_lt_zero _)
  | rounds + 1, st, hl, h => by
    unfold readLoop
    cases hstep : st.step d with
    | next st' =>
      obtain ⟨-, hsteps, hlen⟩ := (NameDecoder.step_eq_next_iff hl).mp hstep
      have := hsteps.rounds_lt hlen
      exact readLoop_isSome d rounds st' hsteps.looked (by omega)
    | done name index => rfl
    | fail e => rfl

/-! ### What is read stands there -/

theorem ofNat_of_toNat_eq {b : UInt8} {n : ℕ} (h : b.toNat = n) : UInt8.ofNat n = b := by
  rw [← h]
  exact UInt8.ofNat_toNat

/-- The length byte of a label is neither the root nor the mark of a pointer. -/
theorem lengthByte {n : ℕ} (hpos : 0 < n) (hle : n ≤ 63) :
    UInt8.ofNat n ≠ 0 ∧ UInt8.ofNat n &&& 0b11000000 = 0 ∧ (UInt8.ofNat n).toNat = n := by
  have htable : ∀ n < 64, 0 < n →
      UInt8.ofNat n ≠ 0 ∧ UInt8.ofNat n &&& 0b11000000 = 0 ∧ (UInt8.ofNat n).toNat = n := by decide +kernel
  exact htable n (by omega) hpos

/-- What the loop returns is what stands from its position on, behind the labels it has. -/
theorem readLoop_sound (d : List UInt8) : ∀ (rounds : ℕ) (st : NameDecoder) {name : Name} {j : ℕ}, st.Looked d →
    readLoop d rounds st = some (.ok (name, j)) →
    ∃ ls e, NameAt (Has d) st.nameStart (st.bound d) st.index ls e ∧ name = ⟨true, st.name.labels ++ ls⟩ ∧
      j = st.left.getD e
  | 0, _, _, _, _, h => by cases h
  | rounds + 1, st, name, j, hl, h => by
    unfold readLoop at h
    cases hstep : st.step d with
    | fail e =>
      rw [hstep] at h
      cases h
    | done name' index =>
      rw [hstep] at h
      cases h
      obtain ⟨hover, -, hb, rfl, rfl⟩ := NameDecoder.step_eq_done_iff.mp hstep
      refine ⟨[], st.index + 1, .root (NameDecoder.index_lt_bound hover hb) hb, ?_, rfl⟩
      rw [List.append_nil]
      rfl
    | next st' =>
      rw [hstep] at h
      obtain ⟨hover, hsteps, -⟩ := (NameDecoder.step_eq_next_iff hl).mp hstep
      obtain ⟨ls, e, hat, hname, hj⟩ := readLoop_sound d rounds st' hsteps.looked h
      cases hsteps with
      | toLabel => exact ⟨ls, e, hat, hname, hj⟩
      | toPointer => exact ⟨ls, e, hat, hname, hj⟩
      | @label l b _ hb hlen hbytes _ =>
        refine ⟨l :: ls, e, ?_, ?_, hj⟩
        · refine .label (NameDecoder.index_lt_bound hover hb) ?_ ?_ hat
          · rw [ofNat_of_toNat_eq hlen]
            exact hb
          · intro k hk
            exact (hbytes k hk).trans (List.getElem?_eq_getElem hk)
        · rw [hname, List.append_assoc, List.singleton_append]
      | @pointer hi lo hstate hhi hlo hlt =>
        obtain ⟨b, hb, hmark⟩ := hl.pointer hstate
        rw [hhi] at hb
        cases hb
        exact ⟨ls, _, .pointer (NameDecoder.index_lt_bound hover hhi) hhi hmark hlo hlt hat, hname, hj⟩

theorem readLoop_of_next {d : List UInt8} {rounds : ℕ} {st st' : NameDecoder} (h : st.step d = .next st') :
    readLoop d (rounds + 1) st = readLoop d rounds st' := by
  rw [readLoop, h]

/-- A step that the source can take and that leaves the name short enough is taken. -/
theorem NameDecoder.Steps.run {d : List UInt8} {rounds : ℕ} {st st' : NameDecoder} (h : Steps d st st')
    (hl : st.Looked d) (hlt : st.index < st.bound d) (hlen : st'.name.labelData.length < 255)
    (hr : st.rounds < rounds) :
    ∃ rounds', st'.rounds < rounds' ∧ readLoop d rounds st = readLoop d rounds' st' := by
  obtain ⟨rounds', rfl⟩ : ∃ n, rounds = n + 1 := ⟨rounds - 1, by omega⟩
  have := h.rounds_lt hlen
  exact ⟨rounds', by omega,
    readLoop_of_next ((step_eq_next_iff hl).mpr ⟨overlaps_eq_none_of_lt hlt, h, hlen⟩)⟩

/-- What stands there is returned, if it is short enough. -/
theorem readLoop_complete {d : List UInt8} {start bound i e : ℕ} {ls : List Label}
    (h : NameAt (Has d) start bound i ls e) :
    ∀ (st : NameDecoder) (rounds : ℕ), st.state = .labelLengthOrPointer → st.nameStart = start →
      st.bound d = bound → st.index = i → (⟨true, st.name.labels ++ ls⟩ : Name).encodedSize ≤ 255 →
      st.rounds < rounds →
      readLoop d rounds st = some (.ok (⟨true, st.name.labels ++ ls⟩, st.left.getD e)) := by
  induction h with
  | root hlt h0 =>
    rintro st rounds hstate rfl rfl rfl hlen hr
    obtain ⟨rounds', rfl⟩ : ∃ n, rounds = n + 1 := ⟨rounds - 1, by omega⟩
    have hdone := NameDecoder.step_eq_done_iff.mpr
      ⟨NameDecoder.overlaps_eq_none_of_lt hlt, hstate, h0, rfl, rfl⟩
    rw [readLoop, hdone, List.append_nil]
    rfl
  | @label _ _ _ e l ls hlt hbyte hbytes _ ih =>
    rintro st rounds hstate rfl rfl rfl hlen hr
    obtain ⟨hne, hmark, htoNat⟩ := lengthByte (List.length_pos_of_ne_nil l.nonempty) l.short
    have hshort : st.name.labelData.length < 255 := by
      rw [encodedSize_eq, wireLen_append] at hlen
      have := labelData_le st.name
      rw [encodedSize_eq] at this
      rw [wireLen_cons] at hlen
      omega
    have hext : ({ st.name with labels := st.name.labels ++ [l] } : Name).encodedSize ≤ 255 := by
      rw [encodedSize_eq, wireLen_append] at hlen ⊢
      simp only [wireLen] at hlen ⊢
      omega
    have hext' : ({ st.name with labels := st.name.labels ++ [l] } : Name).labelData.length < 255 := by
      have := labelData_le ({ st.name with labels := st.name.labels ++ [l] } : Name)
      omega
    -- the length byte, then the label
    obtain ⟨rounds₁, hr₁, heq₁⟩ := (NameDecoder.Steps.toLabel hstate hbyte hne hmark).run
      (NameDecoder.looked_of_start hstate) hlt hshort hr
    let st₂ : NameDecoder := { st with
      state := .labelLengthOrPointer
      index := st.index + 1 + l.bytes.length
      name := { st.name with labels := st.name.labels ++ [l] } }
    have hsecond : NameDecoder.Steps d { st with state := .label } st₂ :=
      .label rfl hbyte htoNat (fun k hk => (hbytes k hk).trans (List.getElem?_eq_getElem hk).symm) hext
    obtain ⟨rounds₂, hr₂, heq₂⟩ := hsecond.run ⟨fun _ => ⟨_, hbyte, hne⟩, fun h => (by cases h)⟩ hlt
      hext' hr₁
    have hsame : st.name.labels ++ [l] ++ ls = st.name.labels ++ l :: ls := by
      rw [List.append_assoc, List.singleton_append]
    refine (heq₁.trans heq₂).trans ((ih st₂ rounds₂ rfl rfl rfl rfl ?_ hr₂).trans ?_)
    · exact hsame.symm ▸ hlen
    · exact congrArg (fun ls => some (Except.ok ((⟨true, ls⟩ : Name), st.left.getD e))) hsame
  | @pointer _ _ _ e hi lo ls hlt hhi hmark hlo htarget _ ih =>
    rintro st rounds hstate rfl rfl rfl hlen hr
    have hshort : st.name.labelData.length < 255 := by
      rw [encodedSize_eq, wireLen_append] at hlen
      have := labelData_le st.name
      rw [encodedSize_eq] at this
      omega
    obtain ⟨rounds₁, hr₁, heq₁⟩ := (NameDecoder.Steps.toPointer hstate hhi hmark).run
      (NameDecoder.looked_of_start hstate) hlt hshort hr
    let st₂ : NameDecoder := { st with
      state := .labelLengthOrPointer
      ptrMaxIdx := some st.nameStart
      index := hi.toNat % 64 * 256 + lo.toNat
      left := some (st.left.getD (st.index + 2))
      nameStart := hi.toNat % 64 * 256 + lo.toNat }
    have hsecond : NameDecoder.Steps d { st with state := .pointer } st₂ := .pointer rfl hhi hlo htarget
    obtain ⟨rounds₂, hr₂, heq₂⟩ := hsecond.run ⟨fun h => (by cases h), fun _ => ⟨_, hhi, hmark⟩⟩ hlt hshort hr₁
    exact (heq₁.trans heq₂).trans (ih st₂ rounds₂ rfl rfl rfl rfl hlen hr₂)

/-- **A name is read exactly where one stands that has at most 255 bytes**, and behind it goes on what
comes after its first pointer or its end. -/
theorem readInner_eq_ok_iff {d : List UInt8} {i j : ℕ} {name : Name} :
    readInner d i = .ok (name, j) ↔
      name.isFqdn = true ∧ NameAt (Has d) i d.length i name.labels j ∧ name.encodedSize ≤ 255 := by
  have hlen (name : Name) : name.len < 255 ↔ name.encodedSize ≤ 255 := by
    obtain ⟨f, ls⟩ := name
    unfold Name.len Name.encodedSize
    cases ls with
    | nil => simp [Name.labelData]
    | cons l ls =>
      simp only [List.isEmpty_cons, Bool.false_eq_true, if_false]
      omega
  unfold readInner
  dsimp only
  have hlooked : ({ index := i, nameStart := i } : NameDecoder).Looked d := NameDecoder.looked_of_start rfl
  constructor
  · intro h
    cases hloop : readLoop d (({ index := i, nameStart := i } : NameDecoder).rounds + 1)
        { index := i, nameStart := i } with
    | none =>
      rw [hloop] at h
      cases h
    | some result =>
      rw [hloop] at h
      cases result with
      | error e => cases h
      | ok p =>
        dsimp only at h
        split_ifs at h with hlong
        cases h
        obtain ⟨ls, e, hat, hname, rfl⟩ := readLoop_sound d _ _ hlooked hloop
        refine ⟨by rw [hname], ?_, (hlen _).mp (Nat.not_le.mp hlong)⟩
        rw [hname]
        exact hat
  · rintro ⟨hf, hat, hle⟩
    obtain ⟨f, ls⟩ := name
    obtain rfl : f = true := hf
    have hloop := readLoop_complete hat { index := i, nameStart := i } _ rfl rfl rfl rfl hle (Nat.lt_succ_self _)
    rw [hloop]
    exact if_neg (Nat.not_le.mpr ((hlen _).mpr hle))

/-- **Reading a name ends on every buffer**, in less rounds than twice the bytes that lie before it and may belong to
it, and gives just what stands there. -/
theorem reading_a_name (d : List UInt8) (i : ℕ) :
    (readLoop d (2 * (i + 256) + 2) { index := i, nameStart := i }).isSome = true ∧
      ∀ name j, readInner d i = .ok (name, j) ↔
        name.isFqdn = true ∧ NameAt (Has d) i d.length i name.labels j ∧ name.encodedSize ≤ 255 :=
  ⟨readLoop_isSome d _ _ (NameDecoder.looked_of_start rfl) (Nat.lt_succ_self _), fun _ _ => readInner_eq_ok_iff⟩

/-! ### How far the readers go on -/

theorem moves_pop : Moves pop 1 := ⟨fun h => le_of_eq (pop_eq_ok_iff.mp h).2.symm⟩

theorem moves_readSlice (n : ℕ) : Moves (readSlice n) n := ⟨fun h => le_of_eq (readSlice_eq_ok_iff.mp h).2.1.symm⟩

theorem moves_readU16 : Moves readU16 2 where
  moves h := by
    obtain ⟨_, _, _, _, _, rfl⟩ := readU16_eq_ok_iff.mp h
    exact le_refl _

theorem moves_readUInt16 : Moves readUInt16 2 := moves_readU16.bind fun _ => .pure _

theorem moves_readUInt32 : Moves readUInt32 0 := (moves_ofReader _).first fun _ => .pure _

theorem moves_verifyRemaining (text : ℕ → ℕ → String) (len : ℕ) : Moves (verifyRemaining text len) 0 where
  moves h := by
    unfold verifyRemaining at h
    split_ifs at h
    cases h
    exact le_refl _

theorem moves_readCharacterData : Moves readCharacterData 1 where
  moves h := by
    obtain ⟨-, rfl, -⟩ := readCharacterData_eq_ok_iff.mp h
    omega

/-- A chain of labels takes a byte at least. -/
theorem NameAt.lt {shows : ℕ → UInt8 → Prop} {start bound i e : ℕ} {ls : List Label}
    (h : NameAt shows start bound i ls e) : i < e := by
  induction h with
  | root => omega
  | label _ _ _ _ ih => omega
  | pointer => omega

theorem moves_readName : Moves readName 1 where
  moves h := by
    obtain ⟨-, hat, -⟩ := readInner_eq_ok_iff.mp h
    exact hat.lt

end Wire
end SmartDns
