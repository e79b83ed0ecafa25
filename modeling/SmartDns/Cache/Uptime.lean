/-
# Loading the cache file shortly after the machine started

An `Instant` counts from the start of the machine, and to take a duration from it that
reaches further back is a panic. `DnsCacheEntry::read` takes the time an entry was expired
from the present instant, and `load_cache_impl` takes the time the program was off from
every deadline. Here the load is run with subtractions that can fail: it is the load over
all the integers, or it panics (`loadCacheChecked_eq`).

It panics exactly where a record that is reached has its deadline, or a record that is
read has its deadline less the time the program was off, before the start of the machine
(`WithinUptime`). The clamp to a day is no help against an uptime of less than a day.

Key definitions: `LoadFault`, `readChecked`, `ageEntryChecked`, `loadCacheChecked`,
`WithinUptime`.
Key theorems: `readChecked_eq`, `loadCacheChecked_isSome_iff`.
-/
import SmartDns.Cache.Persist

namespace SmartDns
namespace Cache

open Dns Lib

/-! ### Subtractions that can fail -/

/-- How a read can end early. -/
inductive LoadFault
  | error (e : ProtoError)
  | panic

abbrev Checked (A : Type) := Reader UInt8 LoadFault A

def Checked.lift {A : Type} (r : Decode A) : Checked A := fun d => (r d).mapError .error

/-- `Instant - Duration`. -/
def checkedSub (t : ℤ) (d : ℕ) : Option ℤ := if (d : ℤ) ≤ t then some (t - d) else none

/-- A subtraction ends the load where it fails. -/
def subOrPanic (t : ℤ) (d : ℕ) : Checked ℤ := fun s =>
  match checkedSub t d with
  | some r => .ok (r, s)
  | none => .error .panic

def readDeadlineChecked (now : ℤ) : Checked ℤ := do
  let tag ← Checked.lift readU8
  if tag == 2 then
    let secs ← Checked.lift readU32
    return now + fromSecs (clampFileDuration secs)
  else if tag == 5 then
    let secs ← Checked.lift readU32
    subOrPanic now (fromSecs (clampFileDuration secs))
  else throw (.error .insufficientBytes)

/-- `BinDecodable::read`. -/
def readChecked (c : Codec) (now : ℤ) : Checked DnsCacheEntry := do
  Checked.lift (expectTag 1)
  let message ← Checked.lift c.readMessage
  let validUntil ← readDeadlineChecked now
  Checked.lift (expectTag 3)
  let group ← Checked.lift readGroup
  Checked.lift (expectTag 4)
  let hits ← Checked.lift readU32
  let ecs ← Checked.lift readEcs
  let opts ← Checked.lift (readOpts c)
  return buildEntry now (message, validUntil, group, hits) ecs opts

/-- `deserialize_best_effort`; nothing comes back from a panic. -/
def deserializeChecked (c : Codec) (now : ℤ) (data : List UInt8) : Option (List DnsCacheEntry × Option ProtoError) :=
  match readAll (.error .insufficientBytes) (readChecked c now) data with
  | (entries, none) => some (entries, none)
  | (entries, some (.error e)) => some (entries, some e)
  | (_, some .panic) => none

def ageEntryChecked (now : ℤ) (offline : ℕ) (e : DnsCacheEntry) : Option DnsCacheEntry :=
  if e.validUntil > now then
    if (e.validUntil - now).toNat > offline then (checkedSub e.validUntil offline).map e.setValidUntil
    else (checkedSub now (offline - (e.validUntil - now).toNat)).map e.setValidUntil
  else (checkedSub e.validUntil offline).map e.setValidUntil

namespace DnsCache

variable {H : KeyHash}

/-- The loop over the entries: each is aged and then stored. -/
def storeChecked (now : ℤ) (offline : ℕ) (onlyMissing : Bool) : List DnsCacheEntry → DnsCache H → Option (DnsCache H)
  | [], c => some c
  | e :: es, c => do
    let e ← ageEntryChecked now offline e
    storeChecked now offline onlyMissing es
      (if onlyMissing && (c.lookup (fileKey e)).isSome then c else c.put (fileKey e) e)

/-- `load_cache_impl`, or none where it panics. -/
def loadCacheChecked (c : DnsCache H) (cdc : Codec) (now : ℤ) (offline : ℕ) (data : List UInt8)
    (onlyMissing : Bool) : Option (DnsCache H) :=
  let store (payload : List UInt8) : Option (DnsCache H) := do
    let (entries, _) ← deserializeChecked cdc now payload
    storeChecked now offline onlyMissing entries c
  match parseCacheHeader data with
  | some (version, _) => if version ≠ CACHE_FORMAT_VERSION then some c else store (data.drop CACHE_HEADER_LEN)
  | none => store data

end DnsCache

/-! ### The records of a file -/

/-- Where the records begin that the loop reaches. -/
def recordStarts (r : Decode DnsCacheEntry) : ℕ → List UInt8 → List (List UInt8)
  | 0, _ => []
  | n + 1, d =>
    if d.isEmpty then []
    else d :: match r d with
      | .error _ => []
      | .ok (_, rest) => if d.length ≤ rest.length then [] else recordStarts r n rest

/-- The deadline field of a record, counted from the load. -/
def timeField (c : Codec) : Decode ℤ := do
  expectTag 1
  let _ ← c.readMessage
  readDeadline 0

/-- The bytes of a file that records are read from. -/
def payloadOf (data : List UInt8) : List UInt8 :=
  match parseCacheHeader data with
  | some (version, _) => if version ≠ CACHE_FORMAT_VERSION then [] else data.drop CACHE_HEADER_LEN
  | none => data

/-- The loop goes on behind the record at the front. -/
def Readable (c : Codec) (d : List UInt8) : Prop :=
  ∃ e rest, DnsCacheEntry.read c 0 d = .ok (e, rest) ∧ rest.length < d.length

/-- No deadline of the file reaches back behind the start of the machine, and none does of a record
that can be read when the time the program was off is taken from it. -/
def WithinUptime (c : Codec) (now : ℤ) (offline : ℕ) (data : List UInt8) : Prop :=
  ∀ d ∈ recordStarts (DnsCacheEntry.read c 0) (payloadOf data).length (payloadOf data),
    ∀ left rest, timeField c d = .ok (left, rest) → 0 ≤ now + left ∧ (Readable c d → offline ≤ now + left)

/-! ### One record -/

section

variable {A A' : Type} {c : Codec} {now : ℤ} {d : List UInt8}

theorem bind_run {E : Type} (r : Reader UInt8 E A) (f : A → Reader UInt8 E A') (d : List UInt8) :
    (r >>= f) d = (r d).bind fun p => f p.1 p.2 := rfl

theorem lift_bind (r : Decode A) (f : A → Decode A') :
    Checked.lift (r >>= f) = Checked.lift r >>= fun a => Checked.lift (f a) := by
  funext d
  rw [bind_run, Checked.lift, bind_run, Checked.lift]
  cases r d with
  | error e => rfl
  | ok p => rfl

theorem lift_pure (a : A) : Checked.lift (pure a : Decode A) = pure a := rfl

/-- The fields behind the deadline. -/
def readRest (c : Codec) (now : ℤ) (message : Message) (validUntil : ℤ) : Decode DnsCacheEntry := do
  expectTag 3
  let group ← readGroup
  expectTag 4
  let hits ← readU32
  let ecs ← readEcs
  let opts ← readOpts c
  return buildEntry now (message, validUntil, group, hits) ecs opts

theorem read_eq (c : Codec) (now : ℤ) : DnsCacheEntry.read c now = (do
    expectTag 1
    let message ← c.readMessage
    let validUntil ← readDeadline now
    readRest c now message validUntil) := by
  simp only [DnsCacheEntry.read, readUntilHits, readRest, bind_assoc, pure_bind]

theorem readChecked_eq_rest (c : Codec) (now : ℤ) : readChecked c now = (do
    Checked.lift (expectTag 1)
    let message ← Checked.lift c.readMessage
    let validUntil ← readDeadlineChecked now
    Checked.lift (readRest c now message validUntil)) := by
  simp only [readChecked, readRest, lift_bind, lift_pure]

/-- The field itself does not know when it is read. -/
theorem readDeadline_eq (now : ℤ) (d : List UInt8) :
    readDeadline now d = (readDeadline 0 d).map fun p => (now + p.1, p.2) := by
  unfold readDeadline
  rw [bind_run, bind_run]
  cases readU8 d with
  | error e => rfl
  | ok p =>
    obtain ⟨tag, d'⟩ := p
    dsimp only [Except.bind]
    by_cases h2 : (tag == 2) = true
    · rw [if_pos h2, if_pos h2, bind_run, bind_run]
      cases readU32 d' with
      | error e => rfl
      | ok q =>
        show Except.ok _ = Except.ok _
        simp
    · rw [if_neg h2, if_neg h2]
      by_cases h5 : (tag == 5) = true
      · rw [if_pos h5, if_pos h5, bind_run, bind_run]
        cases readU32 d' with
        | error e => rfl
        | ok q =>
          show Except.ok _ = Except.ok _
          simp [sub_eq_add_neg]
      · rw [if_neg h5, if_neg h5]
        rfl

/-- What a field with the value `left` leads to. -/
def atUptime (uptime : ℕ) : Except ProtoError (ℤ × List UInt8) → Except LoadFault (ℤ × List UInt8)
  | .ok (left, rest) => if 0 ≤ uptime + left then .ok (uptime + left, rest) else .error .panic
  | .error e => .error (.error e)

theorem lift_left (uptime : ℕ) (secs : ℕ → ℕ) (d : List UInt8) :
    (Checked.lift readU32 >>= fun n => pure ((uptime : ℤ) + secs n) : Checked ℤ) d =
      atUptime uptime ((readU32 >>= fun n => pure (0 + (secs n : ℤ)) : Decode ℤ) d) := by
  rw [bind_run, bind_run, Checked.lift]
  cases readU32 d with
  | error e => rfl
  | ok q =>
    have hle : (0 : ℤ) ≤ uptime + (0 + secs q.1) := by omega
    show Except.ok ((uptime : ℤ) + secs q.1, q.2) =
      if (0 : ℤ) ≤ uptime + (0 + secs q.1) then .ok ((uptime : ℤ) + (0 + secs q.1), q.2) else .error .panic
    rw [if_pos hle, zero_add]

theorem lift_expired (uptime : ℕ) (secs : ℕ → ℕ) (d : List UInt8) :
    (Checked.lift readU32 >>= fun n => subOrPanic uptime (secs n) : Checked ℤ) d =
      atUptime uptime ((readU32 >>= fun n => pure (0 - (secs n : ℤ)) : Decode ℤ) d) := by
  rw [bind_run, bind_run, Checked.lift]
  cases readU32 d with
  | error e => rfl
  | ok q =>
    show subOrPanic uptime (secs q.1) q.2 =
      if (0 : ℤ) ≤ uptime + (0 - secs q.1) then .ok ((uptime : ℤ) + (0 - secs q.1), q.2) else .error .panic
    unfold subOrPanic checkedSub
    by_cases hle : (secs q.1 : ℤ) ≤ uptime
    · rw [if_pos hle, if_pos (by omega), zero_sub, ← sub_eq_add_neg]
    · rw [if_neg hle, if_neg (by omega)]

/-- A deadline behind the start of the machine ends the load. -/
theorem readDeadlineChecked_eq (uptime : ℕ) (d : List UInt8) :
    readDeadlineChecked uptime d = atUptime uptime (readDeadline 0 d) := by
  unfold readDeadlineChecked readDeadline
  rw [bind_run, bind_run, Checked.lift]
  cases readU8 d with
  | error e => rfl
  | ok p =>
    obtain ⟨tag, d'⟩ := p
    dsimp only [Except.bind, Except.mapError]
    by_cases h2 : (tag == 2) = true
    · rw [if_pos h2, if_pos h2]
      exact lift_left uptime (fun n => fromSecs (clampFileDuration n)) d'
    · rw [if_neg h2, if_neg h2]
      by_cases h5 : (tag == 5) = true
      · rw [if_pos h5, if_pos h5]
        exact lift_expired uptime (fun n => fromSecs (clampFileDuration n)) d'
      · rw [if_neg h5, if_neg h5]
        rfl

/-- A record is read as over the integers, unless its deadline is behind the start of the machine. -/
theorem readChecked_eq (c : Codec) (uptime : ℕ) (d : List UInt8) :
    readChecked c uptime d =
      match timeField c d with
      | .ok (left, _) => if 0 ≤ uptime + left then Checked.lift (DnsCacheEntry.read c uptime) d else .error .panic
      | .error _ => Checked.lift (DnsCacheEntry.read c uptime) d := by
  rw [readChecked_eq_rest, read_eq]
  unfold timeField
  rw [Checked.lift, bind_run, bind_run, bind_run, Checked.lift]
  cases expectTag 1 d with
  | error e => rfl
  | ok p =>
    dsimp only [Except.bind, Except.mapError]
    rw [bind_run, bind_run, bind_run, Checked.lift]
    cases c.readMessage p.2 with
    | error e => rfl
    | ok m =>
      dsimp only [Except.bind, Except.mapError]
      rw [bind_run, bind_run, readDeadlineChecked_eq, readDeadline_eq uptime]
      cases readDeadline 0 m.2 with
      | error e => rfl
      | ok q =>
        dsimp only [atUptime]
        by_cases hle : (0 : ℤ) ≤ uptime + q.1
        · rw [if_pos hle, if_pos hle]
          rfl
        · rw [if_neg hle, if_neg hle]
          rfl

theorem readRest_congr {message : Message} {v v' : ℤ} {e : DnsCacheEntry} {rest : List UInt8}
    (h : readRest c now message v d = .ok (e, rest)) (now' : ℤ) :
    e.validUntil = v ∧ ∃ e', readRest c now' message v' d = .ok (e', rest) ∧ e'.validUntil = v' := by
  unfold readRest at h ⊢
  obtain ⟨_, d₁, h₁, h⟩ := bind_eq_ok_iff.mp h
  obtain ⟨group, d₂, h₂, h⟩ := bind_eq_ok_iff.mp h
  obtain ⟨_, d₃, h₃, h⟩ := bind_eq_ok_iff.mp h
  obtain ⟨hits, d₄, h₄, h⟩ := bind_eq_ok_iff.mp h
  obtain ⟨ecs, d₅, h₅, h⟩ := bind_eq_ok_iff.mp h
  obtain ⟨opts, d₆, h₆, h⟩ := bind_eq_ok_iff.mp h
  obtain ⟨rfl, rfl⟩ := Prod.mk.inj (Except.ok.inj h)
  refine ⟨rfl, buildEntry now' (message, v', group, hits) ecs opts, ?_, rfl⟩
  refine bind_eq_ok_iff.mpr ⟨_, d₁, h₁, ?_⟩
  refine bind_eq_ok_iff.mpr ⟨group, d₂, h₂, ?_⟩
  refine bind_eq_ok_iff.mpr ⟨_, d₃, h₃, ?_⟩
  refine bind_eq_ok_iff.mpr ⟨hits, d₄, h₄, ?_⟩
  refine bind_eq_ok_iff.mpr ⟨ecs, d₅, h₅, ?_⟩
  exact bind_eq_ok_iff.mpr ⟨opts, d₆, h₆, rfl⟩

/-- What is read at another instant differs in its deadlines only. -/
theorem read_shift {e : DnsCacheEntry} {rest : List UInt8} (h : DnsCacheEntry.read c now d = .ok (e, rest))
    (now' : ℤ) : ∃ left rest' e', timeField c d = .ok (left, rest') ∧ e.validUntil = now + left ∧
      DnsCacheEntry.read c now' d = .ok (e', rest) := by
  rw [read_eq] at h ⊢
  obtain ⟨u, d₁, h₁, h⟩ := bind_eq_ok_iff.mp h
  obtain ⟨message, d₂, h₂, h⟩ := bind_eq_ok_iff.mp h
  obtain ⟨v, d₃, h₃, h⟩ := bind_eq_ok_iff.mp h
  rw [readDeadline_eq] at h₃
  cases h0 : readDeadline 0 d₂ with
  | error err =>
    rw [h0] at h₃
    cases h₃
  | ok p =>
    rw [h0] at h₃
    obtain ⟨rfl, rfl⟩ := Prod.mk.inj (Except.ok.inj h₃)
    obtain ⟨hv, e', he', -⟩ : e.validUntil = now + p.1 ∧ ∃ e',
        readRest c now' message (now' + p.1) p.2 = .ok (e', rest) ∧ e'.validUntil = now' + p.1 :=
      readRest_congr h now'
    refine ⟨p.1, p.2, e', ?_, hv, ?_⟩
    · exact bind_eq_ok_iff.mpr ⟨u, d₁, h₁, bind_eq_ok_iff.mpr ⟨message, d₂, h₂, h0⟩⟩
    · refine bind_eq_ok_iff.mpr ⟨u, d₁, h₁, bind_eq_ok_iff.mpr ⟨message, d₂, h₂, ?_⟩⟩
      refine bind_eq_ok_iff.mpr ⟨now' + p.1, p.2, ?_, he'⟩
      rw [readDeadline_eq, h0]
      rfl

end

/-! ### The records -/

variable {c : Codec} {uptime : ℕ}

theorem recordStarts_succ (r : Decode DnsCacheEntry) (n : ℕ) (d : List UInt8) :
    recordStarts r (n + 1) d =
      if d.isEmpty then []
      else d :: match r d with
        | .error _ => []
        | .ok (_, rest) => if d.length ≤ rest.length then [] else recordStarts r n rest := rfl

theorem recordStarts_congr (now : ℤ) (n : ℕ) (d : List UInt8) :
    recordStarts (DnsCacheEntry.read c now) n d = recordStarts (DnsCacheEntry.read c 0) n d := by
  induction n generalizing d with
  | zero => simp only [recordStarts]
  | succ n ih =>
    rw [recordStarts_succ, recordStarts_succ]
    cases h : DnsCacheEntry.read c now d with
    | ok p =>
      obtain ⟨e, rest⟩ := p
      obtain ⟨-, -, e', -, -, h0⟩ := read_shift h 0
      rw [h0]
      simp only [ih]
    | error err =>
      cases h0 : DnsCacheEntry.read c 0 d with
      | ok p =>
        obtain ⟨-, -, e', -, -, h'⟩ := read_shift h0 now
        rw [h] at h'
        cases h'
      | error err' => simp only

/-- The deadline of the record is not behind the start of the machine. -/
def StartedBefore (c : Codec) (uptime : ℕ) (d : List UInt8) : Prop :=
  ∀ left rest, timeField c d = .ok (left, rest) → 0 ≤ uptime + left

theorem readChecked_of_startedBefore {d : List UInt8} (h : StartedBefore c uptime d) :
    readChecked c uptime d = (DnsCacheEntry.read c uptime d).mapError .error := by
  rw [readChecked_eq]
  cases ht : timeField c d with
  | error e => rfl
  | ok p => exact if_pos (h p.1 p.2 ht)

theorem readChecked_of_not_startedBefore {d : List UInt8} (h : ¬ StartedBefore c uptime d) :
    readChecked c uptime d = .error .panic := by
  rw [readChecked_eq]
  unfold StartedBefore at h
  push Not at h
  obtain ⟨left, rest, ht, hlt⟩ := h
  rw [ht]
  exact if_neg (by omega)

theorem readMany_succ {B E A : Type} (stuck : E) (r : Reader B E A) (n : ℕ) (d : List B) :
    readMany stuck r (n + 1) d =
      if d.isEmpty then ([], none)
      else match r d with
        | .error e => ([], some e)
        | .ok (a, rest) =>
          if d.length ≤ rest.length then ([], some stuck)
          else (a :: (readMany stuck r n rest).1, (readMany stuck r n rest).2) := rfl

/-- Without a panic the records are those over the integers. -/
theorem readMany_checked (n : ℕ) (d : List UInt8)
    (h : ∀ s ∈ recordStarts (DnsCacheEntry.read c uptime) n d, StartedBefore c uptime s) :
    readMany (.error .insufficientBytes) (readChecked c uptime) n d =
      ((readMany .insufficientBytes (DnsCacheEntry.read c uptime) n d).1,
        (readMany .insufficientBytes (DnsCacheEntry.read c uptime) n d).2.map .error) := by
  induction n generalizing d with
  | zero => simp only [readMany, Option.map_none]
  | succ n ih =>
    rw [recordStarts_succ] at h
    rw [readMany_succ, readMany_succ]
    by_cases hd : d.isEmpty = true
    · rw [if_pos hd, if_pos hd]
      rfl
    · rw [if_neg hd] at h
      rw [if_neg hd, if_neg hd, readChecked_of_startedBefore (h d List.mem_cons_self)]
      cases hr : DnsCacheEntry.read c uptime d with
      | error e => rfl
      | ok p =>
        rw [hr] at h
        dsimp only [Except.mapError] at h ⊢
        by_cases hle : d.length ≤ p.2.length
        · rw [if_pos hle, if_pos hle]
          rfl
        · rw [if_neg hle] at h
          rw [if_neg hle, if_neg hle, ih p.2 fun s hs => h s (List.mem_cons_of_mem _ hs)]

theorem readMany_panics (n : ℕ) (d : List UInt8)
    (h : ∃ s ∈ recordStarts (DnsCacheEntry.read c uptime) n d, ¬ StartedBefore c uptime s) :
    (readMany (.error .insufficientBytes) (readChecked c uptime) n d).2 = some .panic := by
  induction n generalizing d with
  | zero =>
    obtain ⟨s, hs, -⟩ := h
    cases hs
  | succ n ih =>
    rw [recordStarts_succ] at h
    rw [readMany_succ]
    by_cases hd : d.isEmpty = true
    · rw [if_pos hd] at h
      obtain ⟨s, hs, -⟩ := h
      cases hs
    · rw [if_neg hd] at h ⊢
      by_cases hstart : StartedBefore c uptime d
      · obtain ⟨s, hs, hnot⟩ := h
        rcases List.mem_cons.mp hs with rfl | hs
        · exact absurd hstart hnot
        rw [readChecked_of_startedBefore hstart]
        cases hr : DnsCacheEntry.read c uptime d with
        | error e =>
          rw [hr] at hs
          cases hs
        | ok p =>
          rw [hr] at hs
          dsimp only [Except.mapError] at hs ⊢
          by_cases hle : d.length ≤ p.2.length
          · rw [if_pos hle] at hs
            cases hs
          · rw [if_neg hle] at hs ⊢
            exact ih p.2 ⟨s, hs, hnot⟩
      · rw [readChecked_of_not_startedBefore hstart]

theorem readable_iff {d : List UInt8} : Readable c d ↔
    ∃ e rest, DnsCacheEntry.read c uptime d = .ok (e, rest) ∧ rest.length < d.length := by
  constructor
  · rintro ⟨e, rest, h, hlt⟩
    obtain ⟨-, -, e', -, -, h'⟩ := read_shift h uptime
    exact ⟨e', rest, h', hlt⟩
  · rintro ⟨e, rest, h, hlt⟩
    obtain ⟨-, -, e', -, -, h'⟩ := read_shift h 0
    exact ⟨e', rest, h', hlt⟩

/-- The deadlines of the entries are those of the records that can be read. -/
theorem forall_mem_readMany_iff (least : ℤ) (n : ℕ) (d : List UInt8) :
    (∀ e ∈ (readMany .insufficientBytes (DnsCacheEntry.read c uptime) n d).1, least ≤ e.validUntil) ↔
      ∀ s ∈ recordStarts (DnsCacheEntry.read c uptime) n d, ∀ left rest, timeField c s = .ok (left, rest) →
        Readable c s → least ≤ uptime + left := by
  induction n generalizing d with
  | zero => simp only [readMany, recordStarts, List.not_mem_nil, false_imp_iff, implies_true]
  | succ n ih =>
    rw [recordStarts_succ, readMany_succ]
    by_cases hd : d.isEmpty = true
    · rw [if_pos hd, if_pos hd]
      simp only [List.not_mem_nil, false_imp_iff, implies_true]
    · rw [if_neg hd, if_neg hd, List.forall_mem_cons]
      cases hr : DnsCacheEntry.read c uptime d with
      | error e =>
        have hnot : ¬ Readable c d := by
          intro hread
          obtain ⟨e', rest, h, -⟩ : ∃ e rest, DnsCacheEntry.read c uptime d = .ok (e, rest) ∧ rest.length < d.length :=
            readable_iff.mp hread
          rw [hr] at h
          cases h
        simp only [List.not_mem_nil, false_imp_iff, implies_true, and_true, hnot]
      | ok p =>
        obtain ⟨e, rest⟩ := p
        dsimp only
        by_cases hle : d.length ≤ rest.length
        · have hnot : ¬ Readable c d := by
            intro hread
            obtain ⟨e', rest', h, hlt⟩ : ∃ e rest, DnsCacheEntry.read c uptime d = .ok (e, rest) ∧ rest.length < d.length :=
              readable_iff.mp hread
            rw [hr] at h
            obtain ⟨-, rfl⟩ := Prod.mk.inj (Except.ok.inj h)
            omega
          rw [if_pos hle, if_pos hle]
          simp only [List.not_mem_nil, false_imp_iff, implies_true, and_true, hnot]
        · have hread : Readable c d := readable_iff.mpr ⟨e, rest, hr, by omega⟩
          obtain ⟨left, rest', -, ht, hv, -⟩ := read_shift hr 0
          rw [if_neg hle, if_neg hle, List.forall_mem_cons, ih rest, hv]
          apply and_congr_left'
          constructor
          · intro h left' rest'' ht' _
            rw [ht] at ht'
            obtain ⟨rfl, -⟩ := Prod.mk.inj (Except.ok.inj ht')
            exact h
          · intro h
            exact h left rest' ht hread

/-! ### The load -/

/-- The three ways to age an entry fail alike. -/
theorem ageEntryChecked_eq (now : ℤ) (offline : ℕ) (e : DnsCacheEntry) :
    ageEntryChecked now offline e = if (offline : ℤ) ≤ e.validUntil then some (ageEntry now offline e) else none := by
  unfold ageEntryChecked ageEntry checkedSub
  by_cases h : e.validUntil > now
  · rw [if_pos h, if_pos h]
    by_cases h' : (e.validUntil - now).toNat > offline
    · rw [if_pos h', if_pos h']
      by_cases hle : (offline : ℤ) ≤ e.validUntil
      · rw [if_pos hle, if_pos hle, Option.map_some]
      · rw [if_neg hle, if_neg hle, Option.map_none]
    · rw [if_neg h', if_neg h']
      by_cases hle : (offline : ℤ) ≤ e.validUntil
      · rw [if_pos (by omega), if_pos hle, Option.map_some]
      · rw [if_neg (by omega), if_neg hle, Option.map_none]
  · rw [if_neg h, if_neg h]
    by_cases hle : (offline : ℤ) ≤ e.validUntil
    · rw [if_pos hle, if_pos hle, Option.map_some]
    · rw [if_neg hle, if_neg hle, Option.map_none]

namespace DnsCache

variable {H : KeyHash}

theorem storeChecked_of_forall (now : ℤ) (offline : ℕ) (onlyMissing : Bool) (es : List DnsCacheEntry)
    (c : DnsCache H) (h : ∀ e ∈ es, (offline : ℤ) ≤ e.validUntil) :
    storeChecked now offline onlyMissing es c = some (c.storeEntries onlyMissing (es.map (ageEntry now offline))) := by
  induction es generalizing c with
  | nil => rfl
  | cons e es ih =>
    unfold storeChecked
    rw [ageEntryChecked_eq, if_pos (h e List.mem_cons_self)]
    exact ih _ fun e he => h e (List.mem_cons_of_mem _ he)

theorem storeChecked_of_exists (now : ℤ) (offline : ℕ) (onlyMissing : Bool) (es : List DnsCacheEntry)
    (c : DnsCache H) (h : ∃ e ∈ es, ¬ (offline : ℤ) ≤ e.validUntil) :
    storeChecked now offline onlyMissing es c = none := by
  induction es generalizing c with
  | nil =>
    obtain ⟨e, he, -⟩ := h
    cases he
  | cons e es ih =>
    unfold storeChecked
    rw [ageEntryChecked_eq]
    by_cases hle : (offline : ℤ) ≤ e.validUntil
    · rw [if_pos hle]
      apply ih
      obtain ⟨e', he', hnot⟩ := h
      rcases List.mem_cons.mp he' with rfl | he'
      · exact absurd hle hnot
      · exact ⟨e', he', hnot⟩
    · rw [if_neg hle]
      rfl

theorem deserializeChecked_eq {cdc : Codec} {uptime : ℕ} {payload : List UInt8}
    (h : ∀ d ∈ recordStarts (DnsCacheEntry.read cdc uptime) payload.length payload, StartedBefore cdc uptime d) :
    deserializeChecked cdc uptime payload = some (deserializeBestEffort cdc uptime payload) := by
  unfold deserializeChecked deserializeBestEffort readAll
  rw [readMany_checked _ _ h]
  obtain ⟨es, stopped⟩ := readMany ProtoError.insufficientBytes (DnsCacheEntry.read cdc uptime) payload.length payload
  cases stopped with
  | none => rfl
  | some e => rfl

/-- The load of a file that has records in `payload`. -/
def loadPayload (c : DnsCache H) (cdc : Codec) (now : ℤ) (offline : ℕ) (payload : List UInt8) (onlyMissing : Bool) :
    Option (DnsCache H) := do
  let (entries, _) ← deserializeChecked cdc now payload
  storeChecked now offline onlyMissing entries c

theorem loadPayload_of_within (c : DnsCache H) (cdc : Codec) (uptime offline : ℕ) (payload : List UInt8)
    (onlyMissing : Bool)
    (h : ∀ d ∈ recordStarts (DnsCacheEntry.read cdc uptime) payload.length payload, StartedBefore cdc uptime d)
    (h' : ∀ e ∈ (deserializeBestEffort cdc uptime payload).1, (offline : ℤ) ≤ e.validUntil) :
    c.loadPayload cdc uptime offline payload onlyMissing =
      some (c.storeEntries onlyMissing ((deserializeBestEffort cdc uptime payload).1.map (ageEntry uptime offline))) := by
  unfold loadPayload
  rw [deserializeChecked_eq h]
  exact storeChecked_of_forall uptime offline onlyMissing _ c h'

theorem loadPayload_panics (c : DnsCache H) (cdc : Codec) (uptime offline : ℕ) (payload : List UInt8)
    (onlyMissing : Bool)
    (h : ∃ d ∈ recordStarts (DnsCacheEntry.read cdc uptime) payload.length payload, ¬ StartedBefore cdc uptime d) :
    c.loadPayload cdc uptime offline payload onlyMissing = none := by
  have hread : deserializeChecked cdc uptime payload = none := by
    have hpanic := readMany_panics _ _ h
    unfold deserializeChecked readAll
    cases hm : readMany (LoadFault.error .insufficientBytes) (readChecked cdc uptime) payload.length payload with
    | mk es stopped =>
      rw [hm] at hpanic
      obtain rfl : stopped = some .panic := hpanic
      rfl
  unfold loadPayload
  rw [hread]
  rfl

theorem loadPayload_of_not (c : DnsCache H) (cdc : Codec) (uptime offline : ℕ) (payload : List UInt8)
    (onlyMissing : Bool)
    (h : ¬ ((∀ d ∈ recordStarts (DnsCacheEntry.read cdc uptime) payload.length payload, StartedBefore cdc uptime d) ∧
      ∀ e ∈ (deserializeBestEffort cdc uptime payload).1, (offline : ℤ) ≤ e.validUntil)) :
    c.loadPayload cdc uptime offline payload onlyMissing = none := by
  by_cases hstart : ∀ d ∈ recordStarts (DnsCacheEntry.read cdc uptime) payload.length payload,
      StartedBefore cdc uptime d
  · have hage : ∃ e ∈ (deserializeBestEffort cdc uptime payload).1, ¬ (offline : ℤ) ≤ e.validUntil := by
      by_contra hall
      push Not at hall
      exact h ⟨hstart, hall⟩
    unfold loadPayload
    rw [deserializeChecked_eq hstart]
    exact storeChecked_of_exists uptime offline onlyMissing _ c hage
  · push Not at hstart
    exact c.loadPayload_panics cdc uptime offline payload onlyMissing hstart

end DnsCache

/-- The condition, in the two places where the load can fail. -/
theorem withinUptime_iff (cdc : Codec) (uptime offline : ℕ) (data : List UInt8) :
    WithinUptime cdc uptime offline data ↔
      (∀ d ∈ recordStarts (DnsCacheEntry.read cdc uptime) (payloadOf data).length (payloadOf data),
        StartedBefore cdc uptime d) ∧
      ∀ e ∈ (deserializeBestEffort cdc uptime (payloadOf data)).1, (offline : ℤ) ≤ e.validUntil := by
  unfold WithinUptime
  rw [deserializeBestEffort, readAll, forall_mem_readMany_iff, recordStarts_congr (uptime : ℤ)]
  constructor
  · intro h
    exact ⟨fun d hd left rest ht => (h d hd left rest ht).1, fun d hd left rest ht => (h d hd left rest ht).2⟩
  · intro h d hd left rest ht
    exact ⟨h.1 d hd left rest ht, h.2 d hd left rest ht⟩

variable {H : KeyHash}

theorem loadCacheChecked_of_within (c : DnsCache H) (cdc : Codec) (uptime offline : ℕ) (data : List UInt8)
    (onlyMissing : Bool) (h : WithinUptime cdc uptime offline data) :
    c.loadCacheChecked cdc uptime offline data onlyMissing =
      some (c.loadCacheImpl cdc uptime offline data onlyMissing) := by
  obtain ⟨hstart, hage⟩ := (withinUptime_iff cdc uptime offline data).mp h
  unfold payloadOf at hstart hage
  unfold DnsCache.loadCacheChecked DnsCache.loadCacheImpl
  cases hheader : parseCacheHeader data with
  | none =>
    rw [hheader] at hstart hage
    exact c.loadPayload_of_within cdc uptime offline data onlyMissing hstart hage
  | some p =>
    rw [hheader] at hstart hage
    dsimp only at hstart hage ⊢
    by_cases hv : p.1 ≠ CACHE_FORMAT_VERSION
    · rw [if_pos hv, if_pos hv]
    · rw [if_neg hv] at hstart hage
      rw [if_neg hv, if_neg hv]
      exact c.loadPayload_of_within cdc uptime offline _ onlyMissing hstart hage

theorem loadCacheChecked_of_not_within (c : DnsCache H) (cdc : Codec) (uptime offline : ℕ) (data : List UInt8)
    (onlyMissing : Bool) (h : ¬ WithinUptime cdc uptime offline data) :
    c.loadCacheChecked cdc uptime offline data onlyMissing = none := by
  rw [withinUptime_iff] at h
  unfold payloadOf at h
  unfold DnsCache.loadCacheChecked
  cases hheader : parseCacheHeader data with
  | none =>
    rw [hheader] at h
    exact c.loadPayload_of_not cdc uptime offline data onlyMissing h
  | some p =>
    rw [hheader] at h
    dsimp only at h ⊢
    by_cases hv : p.1 ≠ CACHE_FORMAT_VERSION
    · rw [if_pos hv] at h
      exact absurd ⟨fun d hd => absurd hd List.not_mem_nil, fun e he => absurd he List.not_mem_nil⟩ h
    · rw [if_neg hv] at h ⊢
      exact c.loadPayload_of_not cdc uptime offline _ onlyMissing h

/-- **Loading a cache file panics exactly where a deadline of it, or one less the time the program was
off, is behind the start of the machine**; else it is the load over the integers. -/
theorem loadCacheChecked_isSome_iff (c : DnsCache H) (cdc : Codec) (uptime offline : ℕ) (data : List UInt8)
    (onlyMissing : Bool) :
    ((c.loadCacheChecked cdc uptime offline data onlyMissing).isSome ↔ WithinUptime cdc uptime offline data) ∧
      ∀ c', c.loadCacheChecked cdc uptime offline data onlyMissing = some c' →
        c' = c.loadCacheImpl cdc uptime offline data onlyMissing := by
  by_cases h : WithinUptime cdc uptime offline data
  · rw [loadCacheChecked_of_within c cdc uptime offline data onlyMissing h]
    exact ⟨⟨fun _ => h, fun _ => rfl⟩, fun c' hc' => (Option.some.inj hc').symm⟩
  · rw [loadCacheChecked_of_not_within c cdc uptime offline data onlyMissing h]
    exact ⟨⟨fun hn => (by cases hn), fun h' => absurd h' h⟩, fun c' hc' => (by cases hc')⟩

/-- Saved 10 seconds after its entry expired, and loaded 5 seconds after the machine started. -/
theorem load_panics_after_restart :
    ¬ ∀ (H : KeyHash) (c : DnsCache H) (cdc : Codec) (uptime offline : ℕ) (data : List UInt8) (onlyMissing : Bool),
      (c.loadCacheChecked cdc uptime offline data onlyMissing).isSome := by
  intro h
  have := h oneShard (DnsCache.new oneShard ⟨false, 0, 0⟩ 64) rootCodec (fromSecs 5) 0
    (emitCacheHeader 1 ++ serializeMany rootCodec (fromSecs 10) [subnetEntry]) false
  have hnone : ((DnsCache.new oneShard ⟨false, 0, 0⟩ 64).loadCacheChecked rootCodec (fromSecs 5) 0
    (emitCacheHeader 1 ++ serializeMany rootCodec (fromSecs 10) [subnetEntry]) false).isSome = false := by
    decide +kernel
  rw [hnone] at this
  cases this

end Cache
end SmartDns
