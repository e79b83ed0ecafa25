/-
# A cache file that is cut

The entries that stand before a cut are read as they were written, but for what the
file does not keep of them (`KeptAsWritten`). The entry the cut goes through should
end the read. It does when the cut is before the end of the hit count, where every
field must be there, and when the options have begun. In between the subnet field is
taken only if all of it is there, and an entry without options is accepted: a cut
there yields an entry that has lost its subnet and its options, unless the bytes
left behind the failed subnet happen to look like options that are themselves cut
(`StopsTheRead`).

`reads_what_stands_iff`: a cut file gives exactly the entries before the cut, and an
early stop exactly when the cut is inside an entry, if and only if the entries
before the cut are kept as written and the entry that is cut stops the read.

Key definitions: `ReadsWhatStands`, `CutIsSafe`, `StopsTheRead`, `KeptAsWritten`.
Key theorems: `reads_what_stands_iff`, `read_take`.
-/
import SmartDns.Cache.Codec

namespace SmartDns
namespace Cache

open Dns Lib

/-- The entries of the file: those that can be written. -/
def written (c : Codec) (now : ℤ) (entries : List DnsCacheEntry) : List DnsCacheEntry :=
  entries.filter fun e => (e.emit c now).isSome

def DnsCacheEntry.bytes (c : Codec) (now : ℤ) (e : DnsCacheEntry) : List UInt8 := (e.emit c now).getD []

/-- Behind tag 7 and a length stand that many bytes, and they are the JSON of some options. -/
def CompleteOpts (c : Codec) (d : List UInt8) : Prop :=
  ∃ hi lo json rest, d = 7 :: hi :: lo :: (json ++ rest) ∧ json.length = ofBe [hi, lo] ∧
    (c.optsFromSlice json).isSome = true

/-- Options begin here and are not complete. -/
def BrokenOpts (c : Codec) (d : List UInt8) : Prop := d.head? = some 7 ∧ ¬ CompleteOpts c d

/-- What the reader has left of a subnet field that is cut after `m` bytes: behind the tag if the
length is cut, behind the length otherwise. -/
def DnsCacheEntry.cutEcs (e : DnsCacheEntry) (m : ℕ) : List UInt8 :=
  (e.ecsBytes.take m).drop (if m < 3 then 1 else 3)

/-- The cut after `j` bytes of the entry is before the end of the hit count, or behind the first
byte of the options, or what it leaves of the subnet field begins like options that are cut. -/
def StopsTheRead (c : Codec) (now : ℤ) (e : DnsCacheEntry) (j : ℕ) : Prop :=
  ∀ message, c.emitMessage e.data.message = some message →
    j < (e.untilHits now message).length ∨
    (e.untilHits now message).length + e.ecsBytes.length < j ∨
    (j < (e.untilHits now message).length + e.ecsBytes.length ∧
      BrokenOpts c (e.cutEcs (j - (e.untilHits now message).length)))

/-- The message fits and is read as it is, no text is empty, and the hits fit 32 bits. -/
structure KeptAsWritten (c : Codec) (e : DnsCacheEntry) : Prop where
  message : c.storedMessage e.data.message = e.data.message
  group : e.data.nameServerGroup ≠ some ""
  ecs : e.ecs ≠ some ""
  hits : e.stats.hits < 2 ^ 32

/-- The answer and the key of an entry, and its hits. -/
def DnsCacheEntry.content (e : DnsCacheEntry) :
    Message × Option String × Option String × AnswerAffectingOpts × ℕ :=
  (e.data.message, e.data.nameServerGroup, e.ecs, e.opts, e.stats.hits)

/-- The entries before the cut, and the entry it goes through with the bytes of it that are left. -/
def cutEntries (c : Codec) (now : ℤ) (entries : List DnsCacheEntry) (k : ℕ) :
    List DnsCacheEntry × Option (DnsCacheEntry × ℕ) :=
  cutAt (DnsCacheEntry.bytes c now) (written c now entries) k

/-- The file cut after `k` bytes gives exactly the entries that lie wholly before the cut, and an
early stop exactly when the cut is at no boundary of entries. -/
def ReadsWhatStands (c : Codec) (now now' : ℤ) (entries : List DnsCacheEntry) (k : ℕ) : Prop :=
  let got := deserializeBestEffort c now' ((serializeMany c now entries).take k)
  got.1.map (·.content) = (cutEntries c now entries k).1.map (·.content) ∧
  (got.2.isSome = true ↔ ¬ ∃ i ≤ (written c now entries).length,
    (serializeMany c now ((written c now entries).take i)).length = k)

structure CutIsSafe (c : Codec) (now : ℤ) (entries : List DnsCacheEntry) (k : ℕ) : Prop where
  whole : ∀ e ∈ (cutEntries c now entries k).1, KeptAsWritten c e
  cut : ∀ e j, (cutEntries c now entries k).2 = some (e, j) → StopsTheRead c now e j

/-! ### The fields behind the hit count -/

theorem readU16_eq_ok_iff {d rest : List UInt8} {v : ℕ} :
    readU16 d = .ok (v, rest) ↔ ∃ hi lo, d = hi :: lo :: rest ∧ ofBe [hi, lo] = v := by
  constructor
  · intro h
    obtain ⟨bs, d', h1, h2⟩ := bind_eq_ok_iff.mp h
    obtain ⟨rfl, hlen⟩ := readSlice_eq_ok_iff.mp h1
    cases h2
    obtain ⟨hi, lo, rfl⟩ := List.length_eq_two.mp hlen
    exact ⟨hi, lo, rfl, rfl⟩
  · rintro ⟨hi, lo, rfl, rfl⟩
    exact bind_eq_ok_iff.mpr ⟨[hi, lo], rest, readSlice_eq_ok_iff.mpr ⟨rfl, rfl⟩, rfl⟩

theorem readOptsField_eq_ok_iff {c : Codec} {d rest : List UInt8} {opts : AnswerAffectingOpts} :
    readOptsField c d = .ok (opts, rest) ↔ ∃ b hi lo json, d = b :: hi :: lo :: (json ++ rest) ∧
      json.length = ofBe [hi, lo] ∧ c.optsFromSlice json = some opts := by
  constructor
  · intro h
    obtain ⟨b, d₁, h1, h'⟩ := bind_eq_ok_iff.mp h
    obtain ⟨len, d₂, h2, h''⟩ := bind_eq_ok_iff.mp h'
    obtain ⟨json, d₃, h3, hp⟩ := bind_eq_ok_iff.mp h''
    have hd : d = b :: d₁ := by
      cases d with
      | nil => cases h1
      | cons x xs =>
        cases h1
        rfl
    obtain ⟨hi, lo, rfl, rfl⟩ := readU16_eq_ok_iff.mp h2
    obtain ⟨rfl, hlen⟩ := readSlice_eq_ok_iff.mp h3
    cases ho : c.optsFromSlice json with
    | none =>
      simp only [Codec.parseOpts, ho] at hp
      cases hp
    | some o =>
      simp only [Codec.parseOpts, ho] at hp
      cases hp
      exact ⟨b, hi, lo, json, hd, hlen, ho⟩
  · rintro ⟨b, hi, lo, json, rfl, hlen, ho⟩
    refine bind_eq_ok_iff.mpr ⟨b, _, rfl, ?_⟩
    refine bind_eq_ok_iff.mpr ⟨_, _, readU16_eq_ok_iff.mpr ⟨hi, lo, rfl, rfl⟩, ?_⟩
    refine bind_eq_ok_iff.mpr ⟨json, rest, readSlice_eq_ok_iff.mpr ⟨rfl, hlen⟩, ?_⟩
    simp only [Codec.parseOpts, ho]

/-- The options are read unless they are broken. -/
theorem readOpts_cases (c : Codec) (d : List UInt8) :
    (BrokenOpts c d ∧ ∃ err, readOpts c d = .error err) ∨
    (¬ BrokenOpts c d ∧ ∃ opts rest, readOpts c d = .ok (opts, rest) ∧ rest.length ≤ d.length) := by
  by_cases h7 : d.head? = some 7
  · have hr : readOpts c d = readOptsField c d := by rw [readOpts, if_pos (by simpa using h7)]
    rw [hr]
    cases hf : readOptsField c d with
    | error err =>
      refine .inl ⟨⟨h7, ?_⟩, err, rfl⟩
      rintro ⟨hi, lo, json, rest, hd, hlen, ho⟩
      obtain ⟨opts, ho⟩ := Option.isSome_iff_exists.mp ho
      rw [readOptsField_eq_ok_iff.mpr ⟨7, hi, lo, json, hd, hlen, ho⟩] at hf
      cases hf
    | ok p =>
      obtain ⟨opts, rest⟩ := p
      obtain ⟨b, hi, lo, json, rfl, hlen, ho⟩ := readOptsField_eq_ok_iff.mp hf
      obtain rfl : b = 7 := by simpa using h7
      refine .inr ⟨fun h => h.2 ⟨hi, lo, json, rest, rfl, hlen, by rw [ho]; rfl⟩, opts, rest, rfl, ?_⟩
      simp only [List.length_cons, List.length_append]
      omega
  · refine .inr ⟨fun h => h7 h.1, default, d, ?_, le_rfl⟩
    rw [readOpts, if_neg (by simpa using h7)]

theorem readEcs_of_readU16_error {d : List UInt8} {e : ProtoError} (h : readU16 d = .error e) :
    readEcs (6 :: d) = .ok (none, d) := by
  simp only [readEcs, readU8, beq_self_eq_true, ↓reduceIte, h]

/-- A subnet field that is cut gives no subnet, and the reader stays in front of what is missing. -/
theorem readEcs_take {e : DnsCacheEntry} (hlen : e.ecsBytes.length ≤ maxSize) {m : ℕ}
    (hm : m < e.ecsBytes.length) : readEcs (e.ecsBytes.take m) = .ok (none, e.cutEcs m) := by
  have hl : e.ecsBytes.length = 3 + (utf8 (e.ecs.getD "")).length := by
    rw [DnsCacheEntry.ecsBytes, List.length_cons, emitText_length]
    omega
  unfold DnsCacheEntry.cutEcs
  rcases m with _ | _ | _ | n
  · rfl
  · exact readEcs_of_readU16_error rfl
  · -- the length is cut
    have h16 := (frames_readBe ProtoError.insufficientBytes 2 (utf8 (e.ecs.getD "")).length).cut 1
      (by simp)
    obtain ⟨err, herr⟩ := h16
    have : e.ecsBytes.take 2 = 6 :: (toBe 2 (utf8 (e.ecs.getD "")).length).take 1 := by
      rw [DnsCacheEntry.ecsBytes, emitText, List.take_succ_cons, List.take_append_of_le_length (by simp)]
    rw [this]
    exact readEcs_of_readU16_error herr
  · -- the text is cut
    have hn : n < (utf8 (e.ecs.getD "")).length := by omega
    have h16 := (frames_readBe ProtoError.insufficientBytes 2 (utf8 (e.ecs.getD "")).length).whole
      ((utf8 (e.ecs.getD "")).take n)
    rw [Nat.mod_eq_of_lt (by rw [hl] at hlen; unfold maxSize at hlen; omega)] at h16
    obtain ⟨err, herr⟩ := (frames_readSlice ProtoError.insufficientBytes (utf8 (e.ecs.getD ""))).cut n hn
    have : e.ecsBytes.take (n + 3) =
        6 :: (toBe 2 (utf8 (e.ecs.getD "")).length ++ (utf8 (e.ecs.getD "")).take n) := by
      rw [DnsCacheEntry.ecsBytes, emitText, List.take_succ_cons, List.take_append,
        List.take_of_length_le (by simp), toBe_length, Nat.add_sub_cancel]
    have hdrop : (e.ecsBytes.take (n + 3)).drop 3 = (utf8 (e.ecs.getD "")).take n := by
      rw [this, List.drop_succ_cons, List.drop_append_of_le_length (by simp), List.drop_of_length_le (by simp)]
      rfl
    rw [if_neg (by omega), hdrop, this, readEcs]
    simp only [readU8, beq_self_eq_true, ↓reduceIte]
    have h16 : readU16 (toBe 2 (utf8 (e.ecs.getD "")).length ++ (utf8 (e.ecs.getD "")).take n) = _ := h16
    simp only [h16, herr, if_pos (show 0 < (utf8 (e.ecs.getD "")).length by omega)]

/-! ### The entry the cut goes through -/

theorem read_untilHits {c : Codec} {now now' : ℤ} {e : DnsCacheEntry} {message : List UInt8}
    (hc : c.Lawful e) (hm : c.emitMessage e.data.message = some message)
    (hlen : (e.untilHits now message).length ≤ maxSize) (d : List UInt8) :
    DnsCacheEntry.read c now' (e.untilHits now message ++ d) = (readEcs >>= fun ecs => readOpts c >>= fun opts =>
      pure (buildEntry now' (c.storedMessage e.data.message, fileDeadline now now' e.validUntil,
        storedText e.data.nameServerGroup, e.stats.hits % 2 ^ 32) ecs opts)) d := by
  have h := (frames_readUntilHits now now' hc hm hlen).whole d
  have run : DnsCacheEntry.read c now' (e.untilHits now message ++ d) =
      (readUntilHits c now' (e.untilHits now message ++ d)).bind fun p =>
        (readEcs >>= fun ecs => readOpts c >>= fun opts => pure (buildEntry now' p.1 ecs opts)) p.2 := rfl
  rw [run, h]
  rfl

/-- Behind the hit count, the options decide. -/
theorem read_of_readEcs {c : Codec} {now' : ℤ} {d d' : List UInt8} {ecs : Option String}
    (p : Message × ℤ × Option String × ℕ) (h : readEcs d = .ok (ecs, d')) :
    (readEcs >>= fun ecs => readOpts c >>= fun opts => pure (buildEntry now' p ecs opts)) d =
      (readOpts c d').bind fun q => .ok (buildEntry now' p ecs q.1, q.2) := by
  have run : (readEcs >>= fun ecs => readOpts c >>= fun opts => pure (buildEntry now' p ecs opts)) d =
      (readEcs d).bind fun x => (readOpts c x.2).bind fun q => .ok (buildEntry now' p x.1 q.1, q.2) := rfl
  rw [run, h]
  rfl

/-- **A cut entry stops the read, or it is taken for an entry.** -/
theorem read_take {c : Codec} {now : ℤ} (now' : ℤ) {e : DnsCacheEntry} {bs : List UInt8} (hc : c.Lawful e)
    (h : e.emit c now = some bs) {j : ℕ} (hj : j < bs.length) :
    (StopsTheRead c now e j ∧ ∃ err, DnsCacheEntry.read c now' (bs.take j) = .error err) ∨
    (¬ StopsTheRead c now e j ∧
      ∃ x rest, DnsCacheEntry.read c now' (bs.take j) = .ok (x, rest) ∧ rest.length < j) := by
  obtain ⟨message, hm, rfl, hlen⟩ := DnsCacheEntry.emit_eq_some_iff.mp h
  have stops_iff : StopsTheRead c now e j ↔ _ :=
    ⟨fun hs => hs message hm, fun hs m' hm' => Option.some.inj (hm.symm.trans hm') ▸ hs⟩
  have hpos : 0 < (e.untilHits now message).length := by simp [DnsCacheEntry.untilHits]
  simp only [List.length_append] at hlen hj
  rw [stops_iff]
  by_cases h1 : j < (e.untilHits now message).length
  · -- every field up to the hit count must be there
    obtain ⟨err, herr⟩ := (frames_readUntilHits now now' hc hm (by omega)).cut j h1
    refine .inl ⟨.inl h1, err, ?_⟩
    rw [List.take_append_of_le_length h1.le]
    show (readUntilHits c now' _).bind _ = _
    rw [herr]
    rfl
  obtain ⟨m, rfl⟩ := Nat.exists_eq_add_of_le (Nat.not_lt.mp h1)
  have htake : ((e.untilHits now message) ++ (e.ecsBytes ++ e.optsBytes c)).take
      ((e.untilHits now message).length + m) = e.untilHits now message ++
        (e.ecsBytes ++ e.optsBytes c).take m := by
    rw [List.take_append, List.take_of_length_le (by omega), Nat.add_sub_cancel_left]
  rw [htake, read_untilHits hc hm (by omega), Nat.add_sub_cancel_left]
  by_cases h2 : m < e.ecsBytes.length
  · -- the subnet field is cut: what it leaves behind decides
    have hecs := readEcs_take (e := e) (by omega) h2
    rw [List.take_append_of_le_length h2.le, read_of_readEcs _ hecs]
    rcases readOpts_cases c (e.cutEcs m) with ⟨hb, err, herr⟩ | ⟨hb, opts, rest, hok, hrest⟩
    · refine .inl ⟨.inr (.inr ⟨by omega, hb⟩), err, ?_⟩
      rw [herr]
      rfl
    · rw [hok]
      refine .inr ⟨?_, _, rest, rfl, ?_⟩
      · rintro (h | h | h)
        · omega
        · omega
        · exact hb h.2
      · have : (e.cutEcs m).length ≤ m := by
          simp only [DnsCacheEntry.cutEcs, List.length_drop, List.length_take]
          omega
        omega
  -- the subnet field is whole
  have hecs := readEcs_ecsBytes (e := e) (by omega) ((e.optsBytes c).take (m - e.ecsBytes.length))
  have htake' : (e.ecsBytes ++ e.optsBytes c).take m =
      e.ecsBytes ++ (e.optsBytes c).take (m - e.ecsBytes.length) := by
    rw [List.take_append, List.take_of_length_le (by omega)]
  rw [htake', read_of_readEcs _ hecs]
  by_cases h3 : m = e.ecsBytes.length
  · -- and no byte of the options is left
    have hnil : (e.optsBytes c).take (m - e.ecsBytes.length) = [] := by rw [h3, Nat.sub_self, List.take_zero]
    rw [hnil]
    refine .inr ⟨?_, _, [], rfl, ?_⟩
    · rintro (h | h | h) <;> omega
    · simp only [List.length_nil]
      omega
  · -- the options are cut
    obtain ⟨err, herr⟩ := (frames_readOptsField hc (by omega)).cut (m - e.ecsBytes.length) (by omega)
    refine .inl ⟨.inr (.inl (by omega)), err, ?_⟩
    have hhead : ((e.optsBytes c).take (m - e.ecsBytes.length)).head? = some 7 := by
      obtain ⟨n, hn⟩ : ∃ n, m - e.ecsBytes.length = n + 1 := ⟨m - e.ecsBytes.length - 1, by omega⟩
      rw [hn]
      rfl
    rw [readOpts, if_pos (by simpa using hhead), herr]
    rfl

/-! ### A file that is cut -/

theorem mem_written {c : Codec} {now : ℤ} {entries : List DnsCacheEntry} {e : DnsCacheEntry}
    (h : e ∈ written c now entries) : e ∈ entries ∧ e.emit c now = some (e.bytes c now) := by
  obtain ⟨h1, h2⟩ := List.mem_filter.mp h
  obtain ⟨bs, hbs⟩ := Option.isSome_iff_exists.mp h2
  exact ⟨h1, by rw [DnsCacheEntry.bytes, hbs, Option.getD_some]⟩

theorem bytes_ne_nil {c : Codec} {now : ℤ} {entries : List DnsCacheEntry} {e : DnsCacheEntry}
    (h : e ∈ written c now entries) : e.bytes c now ≠ [] := by
  obtain ⟨message, -, hb, -⟩ := DnsCacheEntry.emit_eq_some_iff.mp (mem_written h).2
  rw [hb]
  simp [DnsCacheEntry.untilHits]

/-- The file is the bytes of the entries that can be written. -/
theorem serializeMany_eq (c : Codec) (now : ℤ) : ∀ entries : List DnsCacheEntry,
    serializeMany c now entries = (written c now entries).flatMap (DnsCacheEntry.bytes c now)
  | [] => rfl
  | e :: es => by
    have ih : es.flatMap (fun e => (e.emit c now).getD []) = _ := serializeMany_eq c now es
    rw [serializeMany, List.flatMap_cons, ih]
    cases h : e.emit c now with
    | none => simp [written, h]
    | some bs => simp [written, DnsCacheEntry.bytes, h]

theorem serializeMany_take (c : Codec) (now : ℤ) (entries : List DnsCacheEntry) (i : ℕ) :
    serializeMany c now ((written c now entries).take i) =
      ((written c now entries).take i).flatMap (DnsCacheEntry.bytes c now) := by
  have : written c now ((written c now entries).take i) = (written c now entries).take i := by
    refine List.filter_eq_self.mpr fun e he => ?_
    rw [(mem_written (List.mem_of_mem_take he)).2]
    rfl
  rw [serializeMany_eq, this]

theorem storedText_eq_self_iff {text : Option String} : storedText text = text ↔ text ≠ some "" := by
  cases text with
  | none => simp [storedText]
  | some s => simp [storedText, Option.filter_eq_some_iff]

/-- The content of an entry comes back exactly if it is kept as written. -/
theorem content_readBack_iff {c : Codec} {now now' : ℤ} {e : DnsCacheEntry} :
    (c.readBack now now' e).content = e.content ↔ KeptAsWritten c e := by
  have hcontent : (c.readBack now now' e).content = (c.storedMessage e.data.message,
      storedText e.data.nameServerGroup, storedText e.ecs, e.opts, e.stats.hits % 2 ^ 32) := by
    unfold Codec.readBack buildEntry DnsCacheEntry.content
    cases storedText e.data.nameServerGroup <;> rfl
  rw [hcontent, DnsCacheEntry.content]
  simp only [Prod.mk.injEq, storedText_eq_self_iff, true_and]
  constructor
  · rintro ⟨h1, h2, h3, h4⟩
    exact ⟨h1, h2, h3, h4 ▸ Nat.mod_lt _ (by decide)⟩
  · rintro ⟨h1, h2, h3, h4⟩
    exact ⟨h1, h2, h3, Nat.mod_eq_of_lt h4⟩

/-- **A cut file gives exactly what stands before the cut if and only if the cut is safe.** -/
theorem reads_what_stands_iff (c : Codec) (now now' : ℤ) (entries : List DnsCacheEntry)
    (hc : ∀ e ∈ entries, c.Lawful e) (k : ℕ) (hk : k ≤ (serializeMany c now entries).length) :
    ReadsWhatStands c now now' entries k ↔ CutIsSafe c now entries k := by
  have lawful {e : DnsCacheEntry} (he : e ∈ written c now entries) : c.Lawful e := hc e (mem_written he).1
  have hwhole (e : DnsCacheEntry) (he : e ∈ (cutEntries c now entries k).1) : e ∈ written c now entries :=
    mem_of_mem_cutAt _ _ _ e he
  have hread := readAll_flatMap_append .insufficientBytes (DnsCacheEntry.read c now') (DnsCacheEntry.bytes c now)
    (c.readBack now now') (beginning (DnsCacheEntry.bytes c now) (cutEntries c now entries k).2)
    (cutEntries c now entries k).1 (fun e he => bytes_ne_nil (hwhole e he))
    (fun e he => read_emit now now' (lawful (hwhole e he)) (mem_written (hwhole e he)).2)
  have hbound := cutAt_eq_none_iff (DnsCacheEntry.bytes c now) (fun e he => bytes_ne_nil he)
    (serializeMany_eq c now entries ▸ hk)
  have hkept : ((cutEntries c now entries k).1.map (c.readBack now now')).map (·.content) =
      (cutEntries c now entries k).1.map (·.content) ↔ ∀ e ∈ (cutEntries c now entries k).1, KeptAsWritten c e := by
    rw [List.map_map, List.map_inj_left]
    exact forall₂_congr fun e _ => content_readBack_iff
  have htake : (serializeMany c now entries).take k =
      (cutEntries c now entries k).1.flatMap (DnsCacheEntry.bytes c now) ++
        beginning (DnsCacheEntry.bytes c now) (cutEntries c now entries k).2 := by
    rw [serializeMany_eq]
    exact take_flatMap _ _ _
  unfold ReadsWhatStands deserializeBestEffort
  simp only [serializeMany_take, htake, hread, ← hbound, List.map_append]
  cases hcut : (cutEntries c now entries k).2 with
  | none =>
    have hnone : (cutAt (DnsCacheEntry.bytes c now) (written c now entries) k).2 = none := hcut
    simp only [beginning, readAll_nil, List.map_nil, List.append_nil, hkept, hnone, Option.isSome_none,
      not_true_eq_false, Bool.false_eq_true, and_true]
    exact ⟨fun h => ⟨h, fun e j he => by simp [hcut] at he⟩, fun h => h.whole⟩
  | some p =>
    obtain ⟨e, j⟩ := p
    obtain ⟨he, hpos, hj⟩ := cutAt_eq_some (DnsCacheEntry.bytes c now) hcut
    have hcut' : (cutAt (DnsCacheEntry.bytes c now) (written c now entries) k).2 = some (e, j) := hcut
    have hlen : ((e.bytes c now).take j).length = j := by
      rw [List.length_take]
      omega
    rcases read_take now' (lawful he) (mem_written he).2 hj with
      ⟨hstop, err, herr⟩ | ⟨hstop, x, rest, hok, hrest⟩
    · have hne : (e.bytes c now).take j ≠ [] := List.ne_nil_of_length_pos (by omega)
      simp only [beginning, readAll_of_error _ _ herr hne, List.map_nil, List.append_nil, hkept, hcut',
        Option.isSome_some, reduceCtorEq, not_false_eq_true, iff_self, and_true]
      refine ⟨fun h => ⟨h, fun e' j' h' => ?_⟩, fun h => h.whole⟩
      obtain ⟨rfl, rfl⟩ : e = e' ∧ j = j' := by simpa [hcut] using h'
      exact hstop
    · -- one entry more than stands before the cut
      refine ⟨fun h => ?_, fun h => absurd (h.cut e j hcut) hstop⟩
      have := congrArg List.length h.1
      simp [beginning, readAll_of_ok _ _ hok (by omega)] at this

/-! ### A cut that loses a subnet -/

/-- A response to the question for `A` at the root, without answers. -/
def rootMessage : Message := { queries := [default] }

def rootMessageBytes : List UInt8 := [0, 0, 129, 128, 0, 1, 0, 0, 0, 0, 0, 0, 0, 0, 1, 0, 1]

/-- The JSON text of the default options. -/
def defaultOptsJson : List UInt8 :=
  utf8 ("\x7b\"no_speed_check\":false,\"no_dualstack_selection\":false,\"force_aaaa_soa\":false," ++
    "\"force_no_cname\":false,\"force_https_soa\":false,\"no_rule_addr\":false," ++
    "\"no_rule_nameserver\":false,\"no_rule_soa\":false\x7d")

/-- What the codecs do on `rootMessage` and the default options. -/
def rootCodec : Codec where
  emitMessage _ := some rootMessageBytes
  readMessage := do
    let bs ← readSlice .insufficientBytes rootMessageBytes.length
    verify .insufficientBytes (bs == rootMessageBytes)
    return rootMessage
  optsToVec _ := some defaultOptsJson
  optsFromSlice bs := if bs = defaultOptsJson then some default else none

def subnetEntry : DnsCacheEntry where
  data := { message := rootMessage, validUntil := 0, nameServerGroup := some "default" }
  validUntil := 0
  ecs := some "10.0.0.0/8"
  opts := default

theorem rootCodec_lawful {e : DnsCacheEntry} (h : e.opts = default) : rootCodec.Lawful e where
  message bs hbs := by
    obtain rfl : rootMessageBytes = bs := by simpa [rootCodec] using hbs
    exact ⟨rootMessage, (frames_readSlice ProtoError.insufficientBytes rootMessageBytes).bind
      ((frames_verify ProtoError.insufficientBytes (by simp)).map fun _ => rootMessage)⟩
  opts := ⟨defaultOptsJson, by simp [rootCodec], by simp [rootCodec, h]⟩

/-- The file of `subnetEntry`, cut behind the hit count: the entry is read without its subnet. -/
theorem cut_loses_subnet : ¬ ReadsWhatStands rootCodec 0 0 [subnetEntry] 38 := by
  intro h
  have : (deserializeBestEffort rootCodec 0 ((serializeMany rootCodec 0 [subnetEntry]).take 38)).1.length = 1 := by
    decide +kernel
  have hnone : (cutEntries rootCodec 0 [subnetEntry] 38).1.length = 0 := by decide +kernel
  have hlen := congrArg List.length h.1
  simp only [List.length_map] at hlen
  omega

theorem reads_what_stands_subnet :
    ReadsWhatStands rootCodec 0 0 [subnetEntry] 20 ↔ CutIsSafe rootCodec 0 [subnetEntry] 20 :=
  reads_what_stands_iff rootCodec 0 0 [subnetEntry]
    (fun _ he => rootCodec_lawful (List.mem_singleton.mp he ▸ rfl)) 20 (by decide +kernel)

end Cache
end SmartDns
