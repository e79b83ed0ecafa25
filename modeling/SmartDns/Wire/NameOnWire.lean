/-
# Names go over the wire

`Name::emit` (`proto/src/rr/domain/name.rs`): the labels are written, and then each label in turn is
looked for among the names written so far; from the first on that stands somewhere already, the labels
are taken back and a pointer is put in their place.

A name is read back from where it was written whatever is written later (`sends_emitName`): a pointer
leads to a name that was whole before this one began, so before the stretch it stands in, and the
stretch there ends before this one; and of the names remembered on the way none is as short as the one
looked for, so that no pointer leads into the name itself.

Key definitions: `emitName`.
Key theorem: `sends_emitName`.
-/
import SmartDns.Wire.Encoder

namespace SmartDns

open Dns Lib

namespace Wire
namespace BinEncoder

/-- Writes the labels: where each of them begins. -/
def emitLabels : List Label → Emit (List ℕ)
  | [] => pure []
  | l :: ls => do
    let s ← get
    emitCharacterData l.bytes
    let rest ← emitLabels ls
    return s.offset :: rest

/-- Looks for the labels from each index on, and puts a pointer in the place of the first that are
found; whether one was put. -/
def pointLabels (compression : Bool) (lastIndex : ℕ) : List ℕ → Emit Bool
  | [] => pure false
  | labelIdx :: rest => do
    let s ← get
    match s.getLabelPointer labelIdx lastIndex with
    | none => do
      storeLabelPointer labelIdx lastIndex
      pointLabels compression lastIndex rest
    | some loc =>
      if compression then
        if loc &&& 0xC000 = 0 then do
          setOffset labelIdx
          trim
          emitU16 (0xC000 ||| loc)
          return true
        else do
          storeLabelPointer labelIdx lastIndex
          pointLabels compression lastIndex rest
      else pointLabels compression lastIndex rest

/-- `Name::emit`. -/
def emitName (name : Name) : Emit Unit := do
  let s ← get
  let name := if s.nameEncoding = .uncompressedLowercase then name.toLowercase else name
  let labelsWritten ← emitLabels name.labels
  let last ← get
  let pointed ← pointLabels (s.nameEncoding = .compressed) last.offset labelsWritten
  if pointed then return
  else
    emitU8 0
    let after ← get
    let length := after.buffer.length - s.buffer.length
    if length > 255 then throw (.domainNameTooLong length)

/-! ### Labels as bytes -/

@[simp] theorem length_labelBytes (ls : List Label) : (labelBytes ls).length = wireLen ls := by
  induction ls with
  | nil => rfl
  | cons l ls ih =>
    simp only [labelBytes, List.length_cons, List.length_append, ih, wireLen_cons]
    omega

theorem labelBytes_append (ls ls' : List Label) : labelBytes (ls ++ ls') = labelBytes ls ++ labelBytes ls' := by
  induction ls with
  | nil => rfl
  | cons l ls ih => simp [labelBytes, ih]

/-- The bytes tell the labels apart. -/
theorem labelBytes_inj : ∀ {ls ls' : List Label}, labelBytes ls = labelBytes ls' → ls = ls'
  | [], [], _ => rfl
  | [], _ :: _, h => by simp [labelBytes] at h
  | _ :: _, [], h => by simp [labelBytes] at h
  | l :: ls, l' :: ls', h => by
    obtain ⟨hlen, hrest⟩ := List.cons.inj h
    have hlength : l.bytes.length = l'.bytes.length := by
      have h₁ := (lengthByte (List.length_pos_of_ne_nil l.nonempty) l.short).2.2
      have h₂ := (lengthByte (List.length_pos_of_ne_nil l'.nonempty) l'.short).2.2
      rw [← h₁, ← h₂, hlen]
    obtain ⟨hbytes, htail⟩ := List.append_inj hrest hlength
    rw [Label.ext_bytes hbytes, labelBytes_inj htail]

theorem wireLen_pos {ls : List Label} (h : ls ≠ []) : 0 < wireLen ls := by
  cases ls with
  | nil => exact absurd rfl h
  | cons l ls =>
    rw [wireLen_cons]
    omega

/-- Where the labels begin that are written from an offset on. -/
def startsOf (offset : ℕ) : List Label → List ℕ
  | [] => []
  | l :: ls => offset :: startsOf (offset + (l.bytes.length + 1)) ls

theorem emitCharacterData_eq_ok {s s' : BinEncoder} {u : Unit} {data : List UInt8} (hoff : s.offset ≤ s.buffer.length)
    (h : emitCharacterData data s = .ok u s') :
    s' = s.written (UInt8.ofNat data.length :: data) ∧ s.offset + (data.length + 1) ≤ s.maxSize := by
  unfold emitCharacterData at h
  split_ifs at h with hlong
  · cases h
  · obtain ⟨u₁, s₁, h₁, h₂⟩ := write_bind_eq_ok_iff.mp h
    obtain ⟨rfl, hmax₁⟩ := writeSlice_eq_ok hoff h₁
    obtain ⟨rfl, hmax₂⟩ := writeSlice_eq_ok ((kept_written hoff hmax₁).filled hoff) h₂
    refine ⟨written_written s hoff, ?_⟩
    have hmax₂ : s.offset + 1 + data.length ≤ s.maxSize := hmax₂
    omega

/-- The labels stand one behind the other. -/
theorem emitLabels_eq_ok : ∀ {ls : List Label} {s s' : BinEncoder} {starts : List ℕ}, s.offset ≤ s.buffer.length →
    s.offset ≤ s.maxSize → emitLabels ls s = .ok starts s' →
    s' = s.written (labelBytes ls) ∧ starts = startsOf s.offset ls ∧ s.offset + wireLen ls ≤ s.maxSize
  | [], s, s', starts, hoff, hmax, h => by
    cases h
    refine ⟨?_, rfl, hmax⟩
    unfold written overwrite labelBytes
    rw [List.append_nil, List.length_nil, Nat.add_zero, List.take_append_drop]
  | l :: ls, s, s', starts, hoff, hmax, h => by
    obtain ⟨_, _, hget, h⟩ := write_bind_eq_ok_iff.mp h
    cases hget
    obtain ⟨u, s₁, hl, h⟩ := write_bind_eq_ok_iff.mp h
    obtain ⟨rest, s₂, hls, h⟩ := write_bind_eq_ok_iff.mp h
    cases h
    obtain ⟨rfl, hmax₁⟩ := emitCharacterData_eq_ok hoff hl
    have hk : Kept s (s.written (UInt8.ofNat l.bytes.length :: l.bytes)) := kept_written hoff hmax₁
    obtain ⟨rfl, rfl, hmax₂⟩ := emitLabels_eq_ok (hk.filled hoff) hmax₁ hls
    refine ⟨?_, rfl, ?_⟩
    · rw [written_written s hoff]
      rfl
    · have hmax₂ : s.offset + (l.bytes.length + 1) + wireLen ls ≤ s.maxSize := hmax₂
      rw [wireLen_cons]
      omega

theorem puts_get : Puts medium (get : Emit BinEncoder) [] where
  kept _ := Kept.refl _
  coherent hco hw := by
    cases hw
    exact hco
  offset_eq _ hw := by
    cases hw
    rfl
  bytes _ _ j hj := absurd hj (Nat.not_lt_zero j)

theorem puts_emitLabels : ∀ ls : List Label, Puts medium (emitLabels ls) (labelBytes ls)
  | [] => .pure _
  | l :: ls => by
    have h := puts_get.bind fun s => (puts_emitCharacterData l.bytes).bind fun _ =>
      (puts_emitLabels ls).bind fun rest => Puts.pure (M := medium) (E := ProtoErrorKind) (s.offset :: rest)
    simp only [List.nil_append, List.append_nil, List.cons_append] at h
    exact h

/-! ### The search for a name that stands already -/

/-- The labels `pre ++ rest` have been written from `s` on, and of the names that begin with a label of `pre`
some are remembered. -/
structure Midway (s : BinEncoder) (pre rest : List Label) (t : BinEncoder) : Prop where
  eq_written : { t with namePointers := s.namePointers } = s.written (labelBytes (pre ++ rest))
  pointers : ∃ new, t.namePointers = s.namePointers ++ new ∧ ∀ q ∈ new, ∃ before after, pre = before ++ after ∧
    after ≠ [] ∧ q = (s.offset + wireLen before, labelBytes (after ++ rest)) ∧ q.1 < 0x3FFF

section

variable {H : ℕ → Prop} {s t : BinEncoder} {pre rest : List Label}

theorem Midway.offset_eq (h : Midway s pre rest t) : t.offset = s.offset + (wireLen pre + wireLen rest) := by
  have := congrArg offset h.eq_written
  rw [← wireLen_append, ← length_labelBytes]
  exact this

theorem Midway.buffer_eq (h : Midway s pre rest t) :
    t.buffer = overwrite s.buffer s.offset (labelBytes (pre ++ rest)) := congrArg buffer h.eq_written

theorem Midway.max_eq (h : Midway s pre rest t) : t.maxSize = s.maxSize := by
  have := congrArg maxSize h.eq_written
  exact this

theorem Midway.kept (h : Midway s pre rest t) (hoff : s.offset ≤ s.buffer.length)
    (hmax : s.offset + (wireLen pre + wireLen rest) ≤ s.maxSize) : Kept s t where
  offset_le := by
    rw [h.offset_eq]
    exact Nat.le_add_right _ _
  filled _ := by
    rw [h.offset_eq, h.buffer_eq, length_overwrite hoff, length_labelBytes, wireLen_append]
    exact le_max_right _ _
  fits hs := by
    rw [h.buffer_eq, h.max_eq, length_overwrite hoff, length_labelBytes, wireLen_append]
    exact max_le hs hmax
  buffer_eq i hi := by
    rw [h.buffer_eq]
    exact getElem?_overwrite_of_lt hoff hi
  pointers := by
    obtain ⟨new, hnew, -⟩ := h.pointers
    rw [hnew]
    exact List.prefix_append _ _
  max_eq := h.max_eq
  form_eq := by
    have := congrArg canonicalForm h.eq_written
    exact this
  encoding_eq := by
    have := congrArg nameEncoding h.eq_written
    exact this

/-- What stands from the next label on. -/
theorem Midway.sliceOf (h : Midway s pre rest t) (hoff : s.offset ≤ s.buffer.length) :
    t.sliceOf (s.offset + wireLen pre) t.offset = labelBytes rest := by
  unfold BinEncoder.sliceOf
  apply List.ext_getElem?
  intro i
  rw [h.offset_eq, h.buffer_eq, List.getElem?_take, List.getElem?_drop]
  split_ifs with hi
  · rw [Nat.add_assoc, getElem?_overwrite_add hoff (by rw [length_labelBytes, wireLen_append]; omega),
      labelBytes_append, List.getElem?_append_right (by rw [length_labelBytes]; omega), length_labelBytes,
      Nat.add_sub_cancel_left]
  · rw [List.getElem?_eq_none]
    rw [length_labelBytes]
    omega

/-- The next label has been looked at, and the name is remembered or not. -/
theorem Midway.next {l : Label} (h : Midway s pre (l :: rest) t) {t' : BinEncoder} (hoff : s.offset ≤ s.buffer.length)
    (ht : t' = t ∨ t.offset < 0x3FFF ∧
      t' = { t with namePointers := t.namePointers ++
        [(s.offset + wireLen pre, t.sliceOf (s.offset + wireLen pre) t.offset)] }) :
    Midway s (pre ++ [l]) rest t' := by
  have happend : pre ++ [l] ++ rest = pre ++ l :: rest := by rw [List.append_assoc, List.singleton_append]
  obtain ⟨new, hnew, hpoints⟩ := h.pointers
  have hold : ∀ q ∈ new, ∃ before after, pre ++ [l] = before ++ after ∧ after ≠ [] ∧
      q = (s.offset + wireLen before, labelBytes (after ++ rest)) ∧ q.1 < 0x3FFF := by
    intro q hq
    obtain ⟨before, after, rfl, hne, rfl, hlt⟩ := hpoints q hq
    refine ⟨before, after ++ [l], by rw [List.append_assoc], by simp, ?_, hlt⟩
    rw [List.append_assoc, List.singleton_append]
  rcases ht with rfl | ⟨hlt, rfl⟩
  · exact ⟨by rw [happend]; exact h.eq_written, new, hnew, hold⟩
  · refine ⟨by rw [happend]; exact h.eq_written,
      new ++ [(s.offset + wireLen pre, t.sliceOf (s.offset + wireLen pre) t.offset)], ?_, ?_⟩
    · show t.namePointers ++ _ = _
      rw [hnew, List.append_assoc]
    · intro q hq
      rcases List.mem_append.mp hq with hq | hq
      · exact hold q hq
      · rw [List.mem_singleton] at hq
        refine ⟨pre, [l], rfl, by simp, ?_, ?_⟩
        · rw [hq, h.sliceOf hoff]
          rfl
        · have := h.offset_eq
          rw [hq]
          show s.offset + wireLen pre < 0x3FFF
          omega

/-- What is found stood before the name was begun. -/
theorem Midway.found (h : Midway s pre rest t) (hco : Coherent H s) {loc : UInt16}
    (hfind : t.getLabelPointer (s.offset + wireLen pre) t.offset = some loc) :
    ∃ p e, loc = UInt16.ofNat p ∧ p < 0x3FFF ∧ NameAt (Shows H s) p s.offset p rest e := by
  unfold getLabelPointer at hfind
  obtain ⟨⟨p, m⟩, hq, rfl⟩ := Option.map_eq_some_iff.mp hfind
  have hm : m = labelBytes rest := by
    have := List.find?_some hq
    rw [h.sliceOf hco.offset_le] at this
    simpa using this
  obtain ⟨new, hnew, hpoints⟩ := h.pointers
  have hmem := List.mem_of_find?_eq_some hq
  rw [hnew, List.mem_append] at hmem
  rcases hmem with hmem | hmem
  · obtain ⟨hp, ls, e, -, hls, hat⟩ := hco.points _ hmem
    have hls : m = labelBytes ls := hls
    rw [hm] at hls
    obtain rfl := labelBytes_inj hls
    exact ⟨p, e, rfl, hp, hat⟩
  · -- a name that was remembered on the way is longer than the one looked for
    obtain ⟨before, after, -, hne, heq, -⟩ := hpoints _ hmem
    have hafter : m = labelBytes (after ++ rest) := congrArg Prod.snd heq
    rw [hm] at hafter
    have hlen := congrArg List.length hafter
    rw [length_labelBytes, length_labelBytes, wireLen_append] at hlen
    have := wireLen_pos hne
    omega

end

/-- The two bytes of a pointer. -/
def pointerBytes (p : ℕ) : List UInt8 := [UInt8.ofNat (192 + p / 256), UInt8.ofNat p]

theorem and_mark_eq_zero {p : ℕ} (hp : p < 0x3FFF) : UInt16.ofNat p &&& 0xC000 = 0 := by
  apply UInt16.toNat_inj.mp
  rw [UInt16.toNat_and, UInt16.toNat_ofNat_of_lt' (by show p < 65536; omega)]
  show p &&& 2 ^ 14 * 3 = 0
  apply Nat.eq_of_testBit_eq
  intro i
  rw [Nat.testBit_and, Nat.zero_testBit, Nat.testBit_two_pow_mul]
  by_cases hi : i ≥ 14
  · rw [Nat.testBit_lt_two_pow (Nat.lt_of_lt_of_le (by omega : p < 2 ^ 14) (Nat.pow_le_pow_right (by omega) hi)),
      Bool.false_and]
  · rw [decide_eq_false hi, Bool.false_and, Bool.and_false]

theorem toBe_pointer {p : ℕ} (hp : p < 0x3FFF) : toBe 2 (0xC000 ||| UInt16.ofNat p).toNat = pointerBytes p := by
  have hor : (0xC000 ||| UInt16.ofNat p).toNat = 0xC000 + p := by
    rw [UInt16.toNat_or, UInt16.toNat_ofNat_of_lt' (by show p < 65536; omega)]
    exact (Nat.two_pow_add_eq_or_of_lt (by omega : p < 2 ^ 14) 3).symm
  rw [hor]
  show [UInt8.ofNat ((0xC000 + p) / 256), UInt8.ofNat (0xC000 + p)] = _
  unfold pointerBytes
  have hhi : (0xC000 + p) / 256 = 192 + p / 256 := by omega
  have hlo : UInt8.ofNat (0xC000 + p) = UInt8.ofNat p := by
    apply UInt8.toNat_inj.mp
    rw [UInt8.toNat_ofNat', UInt8.toNat_ofNat']
    omega
  rw [hhi, hlo]

/-- They have the mark of a pointer and lead where they say. -/
theorem pointerBytes_spec {p : ℕ} (hp : p < 0x3FFF) :
    UInt8.ofNat (192 + p / 256) &&& 0b11000000 = 0b11000000 ∧
      (UInt8.ofNat (192 + p / 256)).toNat % 64 * 256 + (UInt8.ofNat p).toNat = p := by
  have htable : ∀ n < 64, UInt8.ofNat (192 + n) &&& 0b11000000 = 0b11000000 := by decide +kernel
  refine ⟨htable (p / 256) (by omega), ?_⟩
  rw [UInt8.toNat_ofNat', UInt8.toNat_ofNat']
  omega

/-! ### How the search ends -/

/-- The state in which the labels of `rest` have been taken back. -/
def cutBack (s t : BinEncoder) (pre : List Label) : BinEncoder :=
  { t with
    offset := s.offset + wireLen pre
    buffer := t.buffer.take (s.offset + wireLen pre)
    namePointers := t.namePointers.filter (·.1 < s.offset + wireLen pre) }

section

variable {H : ℕ → Prop} {s t : BinEncoder} {pre rest : List Label}

/-- All that is remembered stands before the labels that are taken back. -/
theorem Midway.cutBack_eq (h : Midway s pre rest t) (hco : Coherent H s) :
    cutBack s t pre = { s.written (labelBytes pre) with
      buffer := t.buffer.take (s.offset + wireLen pre), namePointers := t.namePointers } := by
  have hall : t.namePointers.filter (·.1 < s.offset + wireLen pre) = t.namePointers := by
    rw [List.filter_eq_self]
    intro q hq
    obtain ⟨new, hnew, hpoints⟩ := h.pointers
    rw [hnew, List.mem_append] at hq
    apply decide_eq_true
    rcases hq with hq | hq
    · obtain ⟨-, ls, e, hne, -, hat⟩ := hco.points q hq
      have hlt : q.1 < s.offset := by
        cases hat with
        | root hlt => exact hlt
        | label hlt => exact hlt
        | pointer hlt => exact hlt
      omega
    · obtain ⟨before, after, rfl, hne, rfl, -⟩ := hpoints q hq
      have := wireLen_pos hne
      show s.offset + wireLen before < _
      rw [wireLen_append]
      omega
  have hrest := h.eq_written
  unfold cutBack
  rw [hall]
  obtain ⟨offset, maxSize, buffer, namePointers, canonicalForm, nameEncoding⟩ := t
  simp only [written, BinEncoder.mk.injEq] at hrest ⊢
  simp [hrest]

theorem Midway.kept_cutBack (h : Midway s pre rest t) (hco : Coherent H s)
    (hmax : s.offset + (wireLen pre + wireLen rest) ≤ s.maxSize) : Kept s (cutBack s t pre) := by
  have hk := h.kept hco.offset_le hmax
  have hfilled := hk.filled hco.offset_le
  rw [h.offset_eq] at hfilled
  rw [h.cutBack_eq hco]
  refine ⟨Nat.le_add_right _ _, fun _ => ?_, fun _ => ?_, fun i hi => ?_, hk.pointers, rfl, rfl, rfl⟩
  · show s.offset + (labelBytes pre).length ≤ (t.buffer.take (s.offset + wireLen pre)).length
    rw [length_labelBytes, List.length_take]
    omega
  · show (t.buffer.take (s.offset + wireLen pre)).length ≤ s.maxSize
    rw [List.length_take]
    omega
  · show (t.buffer.take (s.offset + wireLen pre))[i]? = _
    rw [List.getElem?_take_of_lt (by omega)]
    exact hk.buffer_eq i hi

/-- The name has been written to its end: the labels of `mid`, and behind them what says the others. -/
structure Ends (H : ℕ → Prop) (s : BinEncoder) (mid rest : List Label) (t : BinEncoder) : Prop where
  kept : Kept s t
  labels : ∀ i < wireLen mid, t.buffer[s.offset + i]? = (labelBytes mid)[i]?
  offset_lt : s.offset + wireLen mid < t.offset
  tail : ∀ start, s.offset ≤ start → NameAt (Shows H t) start t.offset (s.offset + wireLen mid) rest t.offset
  pointers : ∃ new, t.namePointers = s.namePointers ++ new ∧ ∀ q ∈ new, ∃ before after, mid = before ++ after ∧
    after ≠ [] ∧ q = (s.offset + wireLen before, labelBytes (after ++ rest)) ∧ q.1 < 0x3FFF

/-- Labels that stand in front of a name make it longer. -/
theorem nameAt_append {shows : ℕ → UInt8 → Prop} {start bound e : ℕ} {rest : List Label} :
    ∀ {ls : List Label} {base : ℕ}, (∀ i b, (labelBytes ls)[i]? = some b → shows (base + i) b) →
      base + wireLen ls ≤ bound → NameAt shows start bound (base + wireLen ls) rest e →
      NameAt shows start bound base (ls ++ rest) e
  | [], _, _, _, h => h
  | l :: ls, base, hshows, hbound, h => by
    rw [wireLen_cons] at hbound h
    have hnext : base + 1 + l.bytes.length + wireLen ls = base + (l.bytes.length + 1 + wireLen ls) := by omega
    refine .label (by omega) (hshows 0 _ rfl) (fun j hj => ?_) (nameAt_append (fun i b hi => ?_) (by omega) ?_)
    · have := hshows (j + 1) l.bytes[j] (by
        rw [labelBytes, List.getElem?_cons_succ, List.getElem?_append_left hj, List.getElem?_eq_getElem hj])
      rwa [show base + 1 + j = base + (j + 1) by omega]
    · have := hshows (1 + l.bytes.length + i) b (by
        rw [labelBytes, show 1 + l.bytes.length + i = l.bytes.length + i + 1 by omega, List.getElem?_cons_succ,
          List.getElem?_append_right (Nat.le_add_right _ _), Nat.add_sub_cancel_left]
        exact hi)
      rwa [show base + 1 + l.bytes.length + i = base + (1 + l.bytes.length + i) by omega]
    · rw [hnext]
      exact h

/-- From each of the labels on the name stands there. -/
theorem Ends.nameAt {mid : List Label} (h : Ends H s mid rest t) (hco : Coherent H s) {before after : List Label}
    (hmid : mid = before ++ after) {start : ℕ} (hstart : s.offset ≤ start) :
    NameAt (Shows H t) start t.offset (s.offset + wireLen before) (after ++ rest) t.offset := by
  have hlen : wireLen mid = wireLen before + wireLen after := by rw [hmid, wireLen_append]
  have hlt := h.offset_lt
  refine nameAt_append (fun i b hi => ?_) (by omega) ?_
  · have hib : i < wireLen after := by
      rw [← length_labelBytes]
      exact (List.getElem?_eq_some_iff.mp hi).1
    refine ⟨by omega, fun hopen => ?_, ?_⟩
    · have := hco.open_lt hopen
      omega
    · rw [Nat.add_assoc, h.labels _ (by omega), hmid, labelBytes_append,
        List.getElem?_append_right (by rw [length_labelBytes]; omega), length_labelBytes, Nat.add_sub_cancel_left]
      exact hi
  · rw [Nat.add_assoc, ← hlen]
    exact h.tail start hstart

theorem Ends.coherent {mid : List Label} (h : Ends H s mid rest t) (hco : Coherent H s) : Coherent H t := by
  refine hco.of_kept h.kept fun q hq hnew => ?_
  obtain ⟨new, hpointers, hpoints⟩ := h.pointers
  rw [hpointers, List.mem_append] at hq
  obtain ⟨before, after, hmid, hne, rfl, hlt⟩ := hpoints q (hq.resolve_left hnew)
  exact ⟨hlt, after ++ rest, t.offset, by simp [hne], rfl, h.nameAt hco hmid (Nat.le_add_right _ _)⟩

/-- The name is read off every buffer that agrees. -/
theorem Ends.reads {mid : List Label} (h : Ends H s mid rest t) (hco : Coherent H s) {d : List UInt8}
    (hd : Agrees H t.offset d t.buffer) (hlen : (⟨true, mid ++ rest⟩ : Name).encodedSize ≤ 255) :
    readName d s.offset = .ok (⟨true, mid ++ rest⟩, t.offset) := by
  have hco' := h.coherent hco
  have hat := h.nameAt hco (List.nil_append mid).symm (le_refl s.offset)
  -- the last byte of the name is not open
  have hlast : t.offset ≤ d.length := by
    have hlt := h.offset_lt
    have hopen : ¬ H (t.offset - 1) := fun hopen => by
      have := hco.open_lt hopen
      omega
    have hbyte := hd (t.offset - 1) (by omega) hopen
    have hbuf := hco'.offset_le
    rw [List.getElem?_eq_getElem (l := t.buffer) (by omega)] at hbyte
    have := (List.getElem?_eq_some_iff.mp hbyte).1
    omega
  exact readInner_eq_ok_iff.mpr ⟨rfl, hat.mono (fun i b hi => hi.has hd) hlast, hlen⟩

/-- The labels that are left have been replaced by a pointer. -/
theorem Midway.ends_pointer (h : Midway s pre rest t) (hco : Coherent H s)
    (hmax : s.offset + (wireLen pre + wireLen rest) ≤ s.maxSize) {p e : ℕ} (hp : p < 0x3FFF)
    (hat : NameAt (Shows H s) p s.offset p rest e) {u : Unit} {t' : BinEncoder}
    (hw : writeSlice (pointerBytes p) (cutBack s t pre) = .ok u t') : Ends H s pre rest t' := by
  have hk := h.kept_cutBack hco hmax
  have hfit := hk.filled hco.offset_le
  obtain ⟨rfl, hroom⟩ := writeSlice_eq_ok hfit hw
  have hk' := hk.trans (kept_written hfit hroom)
  have hoff : ((cutBack s t pre).written (pointerBytes p)).offset = s.offset + wireLen pre + 2 := rfl
  have hbuf (i : ℕ) (hi : i < wireLen pre) : ((cutBack s t pre).written (pointerBytes p)).buffer[s.offset + i]? =
      (labelBytes pre)[i]? := by
    have hlt : s.offset + i < s.offset + wireLen pre := by omega
    refine (getElem?_overwrite_of_lt hfit hlt).trans ?_
    show (t.buffer.take (s.offset + wireLen pre))[s.offset + i]? = _
    rw [List.getElem?_take_of_lt hlt, h.buffer_eq,
      getElem?_overwrite_add hco.offset_le (by rw [length_labelBytes, wireLen_append]; omega), labelBytes_append,
      List.getElem?_append_left (by rw [length_labelBytes]; exact hi)]
  have hbytes (i : ℕ) (hi : i < 2) :
      ((cutBack s t pre).written (pointerBytes p)).buffer[s.offset + wireLen pre + i]? = (pointerBytes p)[i]? :=
    getElem?_overwrite_add (d := pointerBytes p) hfit hi
  have hopen (i : ℕ) : ¬ H (s.offset + wireLen pre + i) := fun hopen => by
    have := hco.open_lt hopen
    omega
  obtain ⟨hmark, htarget⟩ := pointerBytes_spec hp
  refine ⟨hk', hbuf, by rw [hoff]; omega, fun start hstart => ?_, ?_⟩
  · have hstand : NameAt (Shows H ((cutBack s t pre).written (pointerBytes p)))
        ((UInt8.ofNat (192 + p / 256)).toNat % 64 * 256 + (UInt8.ofNat p).toNat) start
        ((UInt8.ofNat (192 + p / 256)).toNat % 64 * 256 + (UInt8.ofNat p).toNat) rest e := by
      rw [htarget]
      exact hat.mono (fun i b hi => hi.mono hk'.offset_le (fun i hi _ => hk'.buffer_eq i hi) fun _ _ h => h) hstart
    have hlt : p < s.offset := by
      cases hat with
      | root hlt => exact hlt
      | label hlt => exact hlt
      | pointer hlt => exact hlt
    rw [hoff]
    refine .pointer (by omega) ⟨by rw [hoff]; omega, hopen 0, hbytes 0 (by omega)⟩ hmark
      ⟨by rw [hoff]; omega, hopen 1, hbytes 1 (by omega)⟩ (by rw [htarget]; omega) hstand
  · obtain ⟨new, hnew, hpoints⟩ := h.pointers
    refine ⟨new, ?_, hpoints⟩
    have := congrArg namePointers (h.cutBack_eq hco)
    exact this.trans hnew

/-- No label is left, and the root ends the name. -/
theorem Midway.ends_root (h : Midway s pre [] t) (hco : Coherent H s)
    (hmax : s.offset + (wireLen pre + wireLen []) ≤ s.maxSize) {u : Unit} {t' : BinEncoder}
    (hw : emitU8 0 t = .ok u t') : Ends H s pre [] t' := by
  have hk := h.kept hco.offset_le hmax
  have hfit := hk.filled hco.offset_le
  obtain ⟨rfl, hroom⟩ := writeSlice_eq_ok hfit hw
  have hk' := hk.trans (kept_written hfit hroom)
  have hoff₀ : t.offset = s.offset + wireLen pre := by
    rw [h.offset_eq]
    rfl
  have hoff : (t.written [0]).offset = s.offset + wireLen pre + 1 := by
    rw [← hoff₀]
    rfl
  refine ⟨hk', fun i hi => ?_, by rw [hoff]; omega, fun start _ => ?_, ?_⟩
  · refine (getElem?_overwrite_of_lt hfit (by rw [hoff₀]; omega)).trans ?_
    rw [h.buffer_eq, List.append_nil]
    exact getElem?_overwrite_add hco.offset_le (by rw [length_labelBytes]; exact hi)
  · rw [hoff]
    refine .root (by omega) ⟨by rw [hoff]; omega, fun hopen => ?_, ?_⟩
    · have := hco.open_lt hopen
      omega
    · rw [← hoff₀]
      exact getElem?_overwrite_add (d := [0]) (i := 0) hfit (by decide)
  · exact h.pointers

/-- The state after the name from `start` on has been looked at and, if a pointer can reach it, remembered. -/
def stored (t : BinEncoder) (start last : ℕ) : BinEncoder :=
  if t.offset < 0x3FFF then { t with namePointers := t.namePointers ++ [(start, t.sliceOf start last)] } else t

theorem pointLabels_of_none {compression : Bool} {last start : ℕ} {starts : List ℕ} {t : BinEncoder}
    (h : t.getLabelPointer start last = none) :
    pointLabels compression last (start :: starts) t = pointLabels compression last starts (t.stored start last) := by
  rw [pointLabels, get_bind, h]
  rfl

theorem pointLabels_of_some {compression : Bool} {last start : ℕ} {starts : List ℕ} {t : BinEncoder} {loc : UInt16}
    (h : t.getLabelPointer start last = some loc) :
    pointLabels compression last (start :: starts) t =
      if compression then
        if loc &&& 0xC000 = 0 then
          (do
            emitU16 (0xC000 ||| loc)
            return true : Emit Bool) { t with
              offset := start, buffer := t.buffer.take start, namePointers := t.namePointers.filter (·.1 < start) }
        else pointLabels compression last starts (t.stored start last)
      else pointLabels compression last starts t := by
  rw [pointLabels, get_bind, h]
  dsimp only
  split_ifs <;> rfl

theorem Midway.stored {l : Label} (h : Midway s pre (l :: rest) t) (hoff : s.offset ≤ s.buffer.length) :
    Midway s (pre ++ [l]) rest (t.stored (s.offset + wireLen pre) t.offset) := by
  refine h.next hoff ?_
  unfold BinEncoder.stored
  split_ifs with hlt
  · exact .inr ⟨hlt, rfl⟩
  · exact .inl rfl

theorem stored_offset (t : BinEncoder) (start last : ℕ) : (t.stored start last).offset = t.offset := by
  unfold BinEncoder.stored
  split_ifs <;> rfl

/-- Either a pointer is put or all labels stay; what fails leaves what stood before. -/
theorem pointLabels_spec (hco : Coherent H s) (compression : Bool) {last : ℕ} :
    ∀ (rest pre : List Label) (t : BinEncoder), Midway s pre rest t → t.offset = last → last ≤ s.maxSize →
      (∀ t', pointLabels compression last (startsOf (s.offset + wireLen pre) rest) t = .ok true t' →
        ∃ mid rest', pre ++ rest = mid ++ rest' ∧ Ends H s mid rest' t') ∧
      (∀ t', pointLabels compression last (startsOf (s.offset + wireLen pre) rest) t = .ok false t' →
        Midway s (pre ++ rest) [] t') ∧
      ∀ e t', pointLabels compression last (startsOf (s.offset + wireLen pre) rest) t = .error e t' → Kept s t'
  | [], pre, t, h, _, _ => by
    refine ⟨fun t' hw => (by cases hw), fun t' hw => ?_, fun e t' hw => (by cases hw)⟩
    cases hw
    rwa [List.append_nil]
  | l :: rest, pre, t, h, hlast, hmax => by
    have hroom : s.offset + (wireLen pre + wireLen (l :: rest)) ≤ s.maxSize := by
      rw [← h.offset_eq, hlast]
      exact hmax
    have hstart : s.offset + wireLen pre + (l.bytes.length + 1) = s.offset + wireLen (pre ++ [l]) := by
      rw [wireLen_append]
      show _ = s.offset + (wireLen pre + (l.bytes.length + 1 + 0))
      omega
    have happend : pre ++ l :: rest = pre ++ [l] ++ rest := by rw [List.append_assoc, List.singleton_append]
    have hstored := pointLabels_spec hco compression rest (pre ++ [l]) _ (h.stored hco.offset_le)
      ((stored_offset _ _ _).trans hlast) hmax
    have hskipped := pointLabels_spec hco compression rest (pre ++ [l]) t (h.next hco.offset_le (.inl rfl)) hlast hmax
    rw [startsOf, ← hlast, happend]
    rw [← hlast] at hstored hskipped
    cases hfind : t.getLabelPointer (s.offset + wireLen pre) t.offset with
    | none =>
      rw [pointLabels_of_none hfind, hstart]
      exact hstored
    | some loc =>
      obtain ⟨p, e, rfl, hp, hat⟩ := h.found hco hfind
      rw [pointLabels_of_some hfind, if_pos (and_mark_eq_zero hp), hstart]
      cases compression with
      | false => exact hskipped
      | true =>
        rw [if_pos rfl]
        have hcut : emitU16 (0xC000 ||| UInt16.ofNat p) = writeSlice (pointerBytes p) := by
          unfold emitU16
          rw [toBe_pointer hp]
        rw [hcut]
        refine ⟨fun t' hw => ?_, fun t' hw => ?_, fun e t' hw => ?_⟩
        · obtain ⟨u, t₁, hw, hpure⟩ := write_bind_eq_ok_iff.mp hw
          cases hpure
          exact ⟨pre, l :: rest, happend.symm, h.ends_pointer hco hroom hp hat hw⟩
        · obtain ⟨u, t₁, hw, hpure⟩ := write_bind_eq_ok_iff.mp hw
          cases hpure
        · rcases write_bind_eq_error_iff.mp hw with hw | ⟨u, t₁, -, hpure⟩
          · obtain ⟨rfl, -⟩ := writeSlice_eq_error hw
            exact h.kept_cutBack hco hroom
          · cases hpure

/-- Where a name begins. -/
theorem midway_start (s : BinEncoder) (ls : List Label) : Midway s [] ls (s.written (labelBytes ls)) :=
  ⟨rfl, [], (List.append_nil _).symm, fun _ hq => absurd hq List.not_mem_nil⟩

/-- What comes of a name: it is written to its end, or what stood before is left as it was. -/
theorem emitName_outcome (hco : Coherent H s) (name : Name) :
    (∀ u t', emitName name s = .ok u t' → ∃ mid rest, name.labels = mid ++ rest ∧ Ends H s mid rest t') ∧
    ∀ e t', emitName name s = .error e t' → Kept s t' := by
  have hname : (if s.nameEncoding = .uncompressedLowercase then name.toLowercase else name) = name :=
    if_neg hco.cased
  have hoff := hco.offset_le
  have hspec := pointLabels_spec hco (decide (s.nameEncoding = .compressed)) name.labels [] _
    (midway_start s name.labels) rfl
  have hlast : (s.written (labelBytes name.labels)).offset = s.offset + wireLen name.labels :=
    congrArg (s.offset + ·) (length_labelBytes _)
  rw [hlast] at hspec
  constructor
  · intro u t' hw
    obtain ⟨_, _, hget, hw⟩ := write_bind_eq_ok_iff.mp hw
    cases hget
    rw [hname] at hw
    obtain ⟨starts, s₁, hlabels, hw⟩ := write_bind_eq_ok_iff.mp hw
    obtain ⟨_, _, hget, hw⟩ := write_bind_eq_ok_iff.mp hw
    cases hget
    obtain ⟨rfl, rfl, hmax⟩ := emitLabels_eq_ok hoff hco.offset_le_max hlabels
    obtain ⟨hpointed, hwhole, -⟩ := hspec hmax
    obtain ⟨pointed, s₂, hpoint, hw⟩ := write_bind_eq_ok_iff.mp hw
    rw [hlast] at hpoint
    cases pointed with
    | true =>
      rw [if_pos rfl] at hw
      cases hw
      obtain ⟨mid, rest, heq, hends⟩ := hpointed _ hpoint
      exact ⟨mid, rest, heq, hends⟩
    | false =>
      rw [if_neg Bool.false_ne_true] at hw
      obtain ⟨u₁, s₃, hzero, hw⟩ := write_bind_eq_ok_iff.mp hw
      have hends := (hwhole _ hpoint).ends_root hco hmax hzero
      obtain ⟨_, _, hget, hw⟩ := write_bind_eq_ok_iff.mp hw
      cases hget
      split_ifs at hw
      · cases hw
      · cases hw
        exact ⟨name.labels, [], (List.append_nil _).symm, hends⟩
  · intro e t' hw
    rcases write_bind_eq_error_iff.mp hw with hget | ⟨_, _, hget, hw⟩
    · cases hget
    cases hget
    rw [hname] at hw
    rcases write_bind_eq_error_iff.mp hw with hlabels | ⟨starts, s₁, hlabels, hw⟩
    · have := (puts_emitLabels name.labels).kept hco
      rwa [hlabels] at this
    rcases write_bind_eq_error_iff.mp hw with hget | ⟨_, _, hget, hw⟩
    · cases hget
    cases hget
    obtain ⟨rfl, rfl, hmax⟩ := emitLabels_eq_ok hoff hco.offset_le_max hlabels
    obtain ⟨-, hwhole, hfailed⟩ := hspec hmax
    rcases write_bind_eq_error_iff.mp hw with hpoint | ⟨pointed, s₂, hpoint, hw⟩
    · rw [hlast] at hpoint
      exact hfailed _ _ hpoint
    rw [hlast] at hpoint
    cases pointed with
    | true =>
      rw [if_pos rfl] at hw
      cases hw
    | false =>
      rw [if_neg Bool.false_ne_true] at hw
      rcases write_bind_eq_error_iff.mp hw with hzero | ⟨u₁, s₃, hzero, hw⟩
      · obtain ⟨rfl, -⟩ := writeSlice_eq_error hzero
        exact (hwhole _ hpoint).kept hoff hmax
      have hends := (hwhole _ hpoint).ends_root hco hmax hzero
      rcases write_bind_eq_error_iff.mp hw with hget | ⟨_, _, hget, hw⟩
      · cases hget
      cases hget
      split_ifs at hw
      · cases hw
        exact hends.kept
      · cases hw

end

/-- **A name that is not too long is read back**, whatever is written after it. -/
theorem sends_emitName {name : Name} (hlen : name.encodedSize ≤ 255) :
    Sends medium (emitName name) (fun _ => readName) (name.setFqdn true) where
  kept {H s} hco := by
    cases hw : emitName name s with
    | ok u t' =>
      obtain ⟨mid, rest, -, hends⟩ := (emitName_outcome hco name).1 _ _ hw
      exact hends.kept
    | error e t' => exact (emitName_outcome hco name).2 _ _ hw
  coherent {H s s' a} hco hw := by
    obtain ⟨mid, rest, -, hends⟩ := (emitName_outcome hco name).1 _ _ hw
    exact hends.coherent hco
  reads {H s s' a d} hco hw hd := by
    obtain ⟨mid, rest, hlabels, hends⟩ := (emitName_outcome hco name).1 _ _ hw
    have hname : (⟨true, mid ++ rest⟩ : Name) = name.setFqdn true := by
      rw [← hlabels]
      rfl
    have := hends.reads hco hd (by rw [hname]; exact hlen)
    rwa [hname] at this

end BinEncoder
end Wire
end SmartDns
