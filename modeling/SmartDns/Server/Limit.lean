/-
# Limits on connections and queries

`server/limit.rs`. `ConnectionLimiter` counts the connections of a server, in total and
for each source (an IPv4 address, or the first 64 bits of an IPv6 one). An acquire checks
and counts under the lock of the map; a guard that is dropped gives the total back first
and then, under the lock, the count of its source. The steps of any number of acquires
and drops are taken one by one, in any order.

The counters are exact in every order (`Accounts`). An acquire that is refused at the
total limit leaves an entry of zero for a source that had none; that is the one way the
limiter does not come back to its initial state (`limiter_exact_iff`).

Key definitions: `SourceKey`, `ConnectionLimiter`, `World`, `step`, `Exact`, `enterQuery`.
Key theorem: `limiter_exact_iff`.
-/
import Mathlib.Data.List.Count
import Mathlib.Tactic.Common
import SmartDns.Dns.Ip
import SmartDns.Lib.KeyMap
import SmartDns.Lib.Runs

namespace SmartDns
namespace Server

open Dns Lib

/-- What connections are counted by. -/
inductive SourceKey
  | v4 (bits : BitVec 32)
  | v6 (network : BitVec 64)
deriving DecidableEq

def SourceKey.fromIp (ip : IpAddr) : SourceKey :=
  match ip.toCanonical with
  | .v4 bits => v4 bits
  | .v6 bits => v6 (bits.extractLsb' 64 64)

/-- The two spellings of an IPv4 address are one source. -/
theorem SourceKey.fromIp_mapped (bits : BitVec 32) : fromIp (.v6 (IpAddr.mapped bits)) = fromIp (.v4 bits) := by
  rw [fromIp, fromIp, IpAddr.toCanonical_mapped, IpAddr.toCanonical_v4]

/-- A counter of 64 bits goes up. -/
def fetchAdd (n : ℕ) : ℕ := if n + 1 < 2 ^ 64 then n + 1 else 0

/-- A counter of 64 bits goes down; from zero it goes to the top. -/
def fetchSub (n : ℕ) : ℕ := if n = 0 then 2 ^ 64 - 1 else n - 1

theorem fetchAdd_eq {n : ℕ} (h : n + 1 < 2 ^ 64) : fetchAdd n = n + 1 := if_pos h

@[simp] theorem fetchSub_succ (n : ℕ) : fetchSub (n + 1) = n := if_neg (Nat.succ_ne_zero n)

/-- The limits in force; neither is zero. -/
structure Limits where
  maxConnections : ℕ
  maxPerSource : ℕ
  connections_pos : 0 < maxConnections
  perSource_pos : 0 < maxPerSource
  connections_lt : maxConnections < 2 ^ 64
  perSource_lt : maxPerSource < 2 ^ 64

def clamp (n lo hi : ℕ) : ℕ := max lo (min n hi)

/-- By the memory of the machine, in bytes. -/
def autoMaxConnections (totalMemory : UInt64) : ℕ :=
  clamp (clamp (totalMemory.toNat / 8) (16 * 1024 * 1024) (512 * 1024 * 1024) / (32 * 1024)) 512 16384

def autoMaxPerSource (maxConnections : ℕ) : ℕ := clamp (maxConnections / 8) 64 2048

def configuredOr (configured : Option UInt64) (auto : ℕ) : ℕ :=
  match configured with
  | some n => if 0 < n.toNat then n.toNat else auto
  | none => auto

theorem configuredOr_bounds (configured : Option UInt64) {auto : ℕ} (h0 : 0 < auto) (h : auto < 2 ^ 64) :
    0 < configuredOr configured auto ∧ configuredOr configured auto < 2 ^ 64 := by
  unfold configuredOr
  cases configured with
  | none => exact ⟨h0, h⟩
  | some n =>
    by_cases hn : 0 < n.toNat
    · simp only [if_pos hn]
      exact ⟨hn, n.toNat_lt⟩
    · simp only [if_neg hn]
      exact ⟨h0, h⟩

theorem clamp_bounds {n lo hi : ℕ} (h : lo ≤ hi) : lo ≤ clamp n lo hi ∧ clamp n lo hi ≤ hi := by
  unfold clamp
  omega

/-- The limits for what is configured, where zero stands for automatic ones. -/
def Limits.new (configuredMax configuredPerSource : Option UInt64) (totalMemory : UInt64) : Limits :=
  let maxConnections := configuredOr configuredMax (autoMaxConnections totalMemory)
  have hauto : 512 ≤ autoMaxConnections totalMemory ∧ autoMaxConnections totalMemory ≤ 16384 :=
    clamp_bounds (by decide)
  have hper : 64 ≤ autoMaxPerSource maxConnections ∧ autoMaxPerSource maxConnections ≤ 2048 :=
    clamp_bounds (by decide)
  have h := configuredOr_bounds configuredMax (by omega) (by omega)
  have h' := configuredOr_bounds configuredPerSource (by omega) (by omega)
  { maxConnections
    maxPerSource := configuredOr configuredPerSource (autoMaxPerSource maxConnections)
    connections_pos := h.1
    perSource_pos := h'.1
    connections_lt := h.2
    perSource_lt := h'.2 }

structure ConnectionLimiter where
  limits : Limits
  current : ℕ := 0
  rejected : ℕ := 0
  perSource : KeyMap SourceKey ℕ := .empty

/-- The credential of a connection; those of the loopback interface are not counted. -/
structure ConnectionGuard where
  key : SourceKey
  counted : Bool
deriving DecidableEq

namespace ConnectionLimiter

/-- The count of a source, zero where the map has none. -/
def counter (l : ConnectionLimiter) (key : SourceKey) : ℕ := (l.perSource.get? key).getD 0

/-- `or_insert(0)`. -/
def entry (l : ConnectionLimiter) (key : SourceKey) : ConnectionLimiter :=
  { l with perSource := l.perSource.update key (·.getD 0) }

def atLimit (l : ConnectionLimiter) (key : SourceKey) : Bool :=
  decide (l.limits.maxPerSource ≤ l.counter key) || decide (l.limits.maxConnections ≤ l.current)

def reject (l : ConnectionLimiter) : ConnectionLimiter := { l with rejected := fetchAdd l.rejected }

def countSource (l : ConnectionLimiter) (key : SourceKey) : ConnectionLimiter :=
  { l with perSource := l.perSource.update key fun n => fetchAdd (n.getD 0) }

def count (l : ConnectionLimiter) : ConnectionLimiter := { l with current := fetchAdd l.current }

def discount (l : ConnectionLimiter) : ConnectionLimiter := { l with current := fetchSub l.current }

/-- The count of a source is given back; at zero its entry goes. -/
def release (l : ConnectionLimiter) (key : SourceKey) : ConnectionLimiter :=
  match l.perSource.get? key with
  | some n =>
    if fetchSub n = 0 then { l with perSource := l.perSource.erase key }
    else { l with perSource := l.perSource.insert key (fetchSub n) }
  | none => l

end ConnectionLimiter

/-- The limiter, the acquire that holds its lock and has counted its source but not yet the total, the live
guards, and the sources of the guards that have given the total back and not yet the count of their source. -/
structure World where
  limiter : ConnectionLimiter
  admitted : Option SourceKey := none
  guards : List ConnectionGuard := []
  dropping : List SourceKey := []

namespace World

/-- `acquire`, up to the count of the total: a connection of the loopback interface gets its guard; where the
lock is taken nothing happens yet. -/
def acquire (w : World) (addr : IpAddr) : World :=
  let key := SourceKey.fromIp addr
  if addr.toCanonical.isLoopback then { w with guards := ⟨key, false⟩ :: w.guards }
  else if w.admitted.isSome then w
  else if (w.limiter.entry key).atLimit key then { w with limiter := (w.limiter.entry key).reject }
  else { w with limiter := (w.limiter.entry key).countSource key, admitted := some key }

/-- The rest of `acquire`. -/
def count (w : World) : World :=
  match w.admitted with
  | some key => { w with limiter := w.limiter.count, admitted := none, guards := ⟨key, true⟩ :: w.guards }
  | none => w

/-- `drop`, up to the lock. -/
def drop (w : World) (guard : ConnectionGuard) : World :=
  if guard ∈ w.guards then
    if guard.counted then
      { w with
        limiter := w.limiter.discount
        guards := w.guards.erase guard
        dropping := guard.key :: w.dropping }
    else { w with guards := w.guards.erase guard }
  else w

/-- The rest of `drop`. -/
def release (w : World) (key : SourceKey) : World :=
  if w.admitted = none ∧ key ∈ w.dropping then
    { w with limiter := w.limiter.release key, dropping := w.dropping.erase key }
  else w

end World

inductive Action
  | acquire (addr : IpAddr)
  | count
  | drop (guard : ConnectionGuard)
  | release (key : SourceKey)

/-- One step; what waits for the lock, or has nothing to do, changes nothing. -/
def step (w : World) (_ : ℤ) : Action → World
  | .acquire addr => w.acquire addr
  | .count => w.count
  | .drop guard => w.drop guard
  | .release key => w.release key

def start (limits : Limits) : World where
  limiter := { limits }

/-! ### The accounts -/

namespace ConnectionLimiter

variable (l : ConnectionLimiter)

@[simp] theorem counter_entry (key k : SourceKey) : (l.entry key).counter k = l.counter k := by
  unfold counter entry
  rw [KeyMap.get?_update]
  split <;> rfl

@[simp] theorem counter_reject (k : SourceKey) : l.reject.counter k = l.counter k := rfl

@[simp] theorem counter_count (k : SourceKey) : l.count.counter k = l.counter k := rfl

@[simp] theorem counter_discount (k : SourceKey) : l.discount.counter k = l.counter k := rfl

theorem counter_countSource {key : SourceKey} (h : l.counter key + 1 < 2 ^ 64) (k : SourceKey) :
    (l.countSource key).counter k = l.counter k + if key = k then 1 else 0 := by
  unfold counter countSource
  rw [KeyMap.get?_update]
  by_cases hk : key = k
  · subst hk
    rw [if_pos (beq_self_eq_true key), if_pos rfl]
    exact fetchAdd_eq h
  · rw [if_neg (by simpa using hk), if_neg hk, Nat.add_zero]

theorem counter_release {key : SourceKey} {n : ℕ} (hn : l.counter key = n + 1) (k : SourceKey) :
    (l.release key).counter k + (if key = k then 1 else 0) = l.counter k := by
  have hget : l.perSource.get? key = some (n + 1) := by
    unfold counter at hn
    cases hg : l.perSource.get? key with
    | none => rw [hg] at hn; cases hn
    | some m => rw [hg] at hn; exact congrArg some hn
  unfold release
  rw [hget]
  simp only [fetchSub_succ]
  by_cases hk : key = k
  · subst hk
    rw [if_pos rfl, hn]
    by_cases h0 : n = 0
    · rw [if_pos h0, counter, KeyMap.get?_erase, if_pos (beq_self_eq_true key), h0]
      rfl
    · rw [if_neg h0, counter, KeyMap.get?_insert, if_pos (beq_self_eq_true key)]
      rfl
  · rw [if_neg hk, Nat.add_zero]
    by_cases h0 : n = 0
    · rw [if_pos h0, counter, KeyMap.get?_erase, if_neg (by simpa using hk)]
      rfl
    · rw [if_neg h0, counter, KeyMap.get?_insert, if_neg (by simpa using hk)]
      rfl

@[simp] theorem release_current (key : SourceKey) : (l.release key).current = l.current := by
  unfold release
  split
  · split <;> rfl
  · rfl

@[simp] theorem release_limits (key : SourceKey) : (l.release key).limits = l.limits := by
  unfold release
  split
  · split <;> rfl
  · rfl

end ConnectionLimiter

/-- What the count of a source stands for: its live guards, those that are half dropped, and the acquire that
has counted the source only. -/
def World.holds (w : World) (key : SourceKey) : ℕ :=
  w.guards.count ⟨key, true⟩ + w.dropping.count key + w.admitted.toList.count key

structure Accounts (w : World) : Prop where
  total : w.limiter.current = w.guards.countP (·.counted)
  totalMax : w.limiter.current + w.admitted.toList.length ≤ w.limiter.limits.maxConnections
  perSource : ∀ key, w.limiter.counter key = w.holds key
  perSourceMax : ∀ key, w.limiter.counter key ≤ w.limiter.limits.maxPerSource

theorem accounts_start (limits : Limits) : Accounts (start limits) := by
  refine ⟨rfl, Nat.zero_le _, fun key => rfl, fun key => Nat.zero_le _⟩

theorem count_counted_cons_of_exempt (guards : List ConnectionGuard) (key k : SourceKey) :
    List.count ⟨k, true⟩ ((⟨key, false⟩ : ConnectionGuard) :: guards) = List.count ⟨k, true⟩ guards :=
  List.count_cons_of_ne (by simp)

section

variable {w : World}

theorem Accounts.acquire (h : Accounts w) (addr : IpAddr) : Accounts (w.acquire addr) := by
  unfold World.acquire
  by_cases hloop : addr.toCanonical.isLoopback = true
  · simp only [if_pos hloop]
    refine ⟨?_, h.totalMax, fun key => ?_, h.perSourceMax⟩
    · rw [h.total, List.countP_cons_of_neg (by simp)]
    · rw [h.perSource key, World.holds, World.holds, count_counted_cons_of_exempt]
  simp only [if_neg hloop]
  by_cases hlock : w.admitted.isSome = true
  · rw [if_pos hlock]
    exact h
  rw [if_neg hlock]
  have hnone : w.admitted = none := by simpa using hlock
  generalize SourceKey.fromIp addr = key
  by_cases hlim : (w.limiter.entry key).atLimit key = true
  · rw [if_pos hlim]
    refine ⟨h.total, h.totalMax, fun k => ?_, fun k => ?_⟩
    · rw [ConnectionLimiter.counter_reject, ConnectionLimiter.counter_entry]
      exact h.perSource k
    · rw [ConnectionLimiter.counter_reject, ConnectionLimiter.counter_entry]
      exact h.perSourceMax k
  · rw [if_neg hlim]
    simp only [ConnectionLimiter.atLimit, ConnectionLimiter.counter_entry, Bool.or_eq_true, decide_eq_true_eq,
      not_or] at hlim
    have hper : w.limiter.counter key < w.limiter.limits.maxPerSource := Nat.lt_of_not_le hlim.1
    have htotal : w.limiter.current < w.limiter.limits.maxConnections := Nat.lt_of_not_le hlim.2
    have hlt := w.limiter.limits.perSource_lt
    have hcounter (k : SourceKey) : ((w.limiter.entry key).countSource key).counter k =
        w.limiter.counter k + if key = k then 1 else 0 := by
      rw [ConnectionLimiter.counter_countSource _ (by rw [ConnectionLimiter.counter_entry]; omega),
        ConnectionLimiter.counter_entry]
    refine ⟨h.total, ?_, fun k => ?_, fun k => ?_⟩
    · exact htotal
    · have := h.perSource k
      rw [World.holds, hnone] at this
      rw [hcounter, this, World.holds]
      simp [List.count_cons]
    · have := h.perSourceMax k
      rw [hcounter]
      show _ ≤ w.limiter.limits.maxPerSource
      by_cases hk : key = k
      · subst hk
        rw [if_pos rfl]
        omega
      · rw [if_neg hk]
        exact this

theorem Accounts.count (h : Accounts w) : Accounts (w.count) := by
  unfold World.count
  cases hadm : w.admitted with
  | none => exact h
  | some key =>
    have hmax := h.totalMax
    have hlt := w.limiter.limits.connections_lt
    rw [hadm] at hmax
    have hmax : w.limiter.current + 1 ≤ w.limiter.limits.maxConnections := hmax
    have hadd : fetchAdd w.limiter.current = w.limiter.current + 1 := fetchAdd_eq (by omega)
    refine ⟨?_, ?_, fun k => ?_, h.perSourceMax⟩
    · show fetchAdd w.limiter.current = _
      rw [hadd, h.total, List.countP_cons_of_pos rfl]
    · show fetchAdd w.limiter.current + 0 ≤ _
      rw [hadd]
      exact hmax
    · have := h.perSource k
      rw [World.holds, hadm] at this
      show w.limiter.counter k = _
      rw [this, World.holds]
      simp [List.count_cons]
      omega

theorem Accounts.drop (h : Accounts w) (guard : ConnectionGuard) : Accounts (w.drop guard) := by
  unfold World.drop
  by_cases hmem : guard ∈ w.guards
  · rw [if_pos hmem]
    obtain ⟨key, counted⟩ := guard
    have hcountP := List.countP_erase (·.counted) w.guards ⟨key, counted⟩
    cases counted with
    | true =>
      simp only [if_true]
      have hpos : 0 < w.guards.countP (·.counted) := List.countP_pos_iff.mpr ⟨_, hmem, rfl⟩
      obtain ⟨n, hn⟩ : ∃ n, w.limiter.current = n + 1 := ⟨w.limiter.current - 1, by have := h.total; omega⟩
      have hmax := h.totalMax
      have hsub : fetchSub w.limiter.current = n := by rw [hn, fetchSub_succ]
      have htotal := h.total
      refine ⟨?_, ?_, fun k => ?_, h.perSourceMax⟩
      · show fetchSub w.limiter.current = _
        rw [hsub, hcountP]
        simp only [hmem, and_self, if_true]
        omega
      · show fetchSub w.limiter.current + w.admitted.toList.length ≤ w.limiter.limits.maxConnections
        rw [hsub]
        omega
      · show w.limiter.counter k = _
        rw [h.perSource k, World.holds, World.holds]
        have hcount : 0 < w.guards.count ⟨key, true⟩ := List.count_pos_iff.mpr hmem
        by_cases hk : key = k
        · subst hk
          rw [List.count_erase_self, List.count_cons_self]
          show _ = _ + w.admitted.toList.count key
          omega
        · rw [List.count_erase_of_ne (by simpa using Ne.symm hk), List.count_cons_of_ne hk]
    | false =>
      simp only [Bool.false_eq_true, if_false]
      refine ⟨?_, h.totalMax, fun k => ?_, h.perSourceMax⟩
      · show w.limiter.current = _
        rw [hcountP, h.total]
        simp
      · show w.limiter.counter k = _
        rw [h.perSource k, World.holds, World.holds]
        have : List.count ⟨k, true⟩ (w.guards.erase ⟨key, false⟩) = List.count ⟨k, true⟩ w.guards :=
          List.count_erase_of_ne (by simp)
        simp [this]
  · rw [if_neg hmem]
    exact h

theorem Accounts.release (h : Accounts w) (key : SourceKey) : Accounts (w.release key) := by
  unfold World.release
  by_cases hcond : w.admitted = none ∧ key ∈ w.dropping
  · rw [if_pos hcond]
    have hcount : 0 < w.dropping.count key := List.count_pos_iff.mpr hcond.2
    have hper := h.perSource key
    unfold World.holds at hper
    obtain ⟨n, hn⟩ : ∃ n, w.limiter.counter key = n + 1 := ⟨w.limiter.counter key - 1, by omega⟩
    have hcounter := ConnectionLimiter.counter_release w.limiter hn
    refine ⟨?_, ?_, fun k => ?_, fun k => ?_⟩
    · rw [ConnectionLimiter.release_current]
      exact h.total
    · rw [ConnectionLimiter.release_current, ConnectionLimiter.release_limits]
      exact h.totalMax
    · have hk := hcounter k
      have hper := h.perSource k
      unfold World.holds at hper ⊢
      by_cases he : key = k
      · subst he
        rw [if_pos rfl] at hk
        simp only [List.count_erase_self]
        omega
      · rw [if_neg he] at hk
        simp only [List.count_erase_of_ne (Ne.symm he)]
        omega
    · have hk := hcounter k
      have := h.perSourceMax k
      rw [ConnectionLimiter.release_limits]
      show (w.limiter.release key).counter k ≤ _
      omega
  · rw [if_neg hcond]
    exact h

end

/-- **The accounts are right whatever the order of the steps.** -/
theorem Accounts.step {w : World} (h : Accounts w) (t : ℤ) (a : Action) : Accounts (step w t a) := by
  cases a with
  | acquire addr => exact h.acquire addr
  | count => exact h.count
  | drop guard => exact h.drop guard
  | release key => exact h.release key

/-- The accounts are right, and the map has no entry of zero. -/
structure Exact (w : World) : Prop extends Accounts w where
  noResidue : ∀ key, w.limiter.perSource.get? key ≠ some 0

/-- The condition on a step: an acquire that the total limit refuses is for a source that has an entry. -/
def SourceKnown (w : World) (_ : ℤ) : Action → Prop
  | .acquire addr =>
    addr.toCanonical.isLoopback = false → w.admitted = none → w.limiter.limits.maxConnections ≤ w.limiter.current →
      w.limiter.perSource.contains (SourceKey.fromIp addr) = true
  | _ => True

/-- An acquire is refused. -/
def Refuses (w : World) (addr : IpAddr) : Prop :=
  addr.toCanonical.isLoopback = false ∧ w.admitted = none ∧
    (w.limiter.entry (SourceKey.fromIp addr)).atLimit (SourceKey.fromIp addr) = true

theorem acquire_of_refuses {w : World} {addr : IpAddr} (h : Refuses w addr) :
    w.acquire addr = { w with limiter := (w.limiter.entry (SourceKey.fromIp addr)).reject } := by
  obtain ⟨hloop, hnone, hlim⟩ := h
  unfold World.acquire
  rw [if_neg (by simp [hloop]), if_neg (by simp [hnone]), if_pos hlim]

/-- Where the map has an entry, asking for it changes nothing. -/
theorem get?_entry_of_contains {l : ConnectionLimiter} {key : SourceKey} (h : l.perSource.contains key = true)
    (k : SourceKey) : (l.entry key).perSource.get? k = l.perSource.get? k := by
  unfold ConnectionLimiter.entry
  rw [KeyMap.get?_update]
  by_cases hk : key = k
  · subst hk
    rw [if_pos (beq_self_eq_true key)]
    obtain ⟨n, hn⟩ := Option.isSome_iff_exists.mp h
    rw [hn]
    rfl
  · rw [if_neg (by simpa using hk)]

theorem get?_entry_of_not_contains {l : ConnectionLimiter} {key : SourceKey} (h : l.perSource.contains key = false) :
    (l.entry key).perSource.get? key = some 0 := by
  have hn : l.perSource.get? key = none := Option.isNone_iff_eq_none.mp (by simpa [KeyMap.contains] using h)
  unfold ConnectionLimiter.entry
  rw [KeyMap.get?_update, if_pos (beq_self_eq_true key), hn]
  rfl

/-- A source below its limit is refused at the total limit only. -/
theorem known_of_refuses {w : World} {addr : IpAddr} {t : ℤ} (h : Refuses w addr)
    (hknown : SourceKnown w t (.acquire addr)) : w.limiter.perSource.contains (SourceKey.fromIp addr) = true := by
  obtain ⟨hloop, hnone, hlim⟩ := h
  cases hc : w.limiter.perSource.contains (SourceKey.fromIp addr) with
  | true => rfl
  | false =>
    rw [← hc]
    apply hknown hloop hnone
    have hzero : w.limiter.counter (SourceKey.fromIp addr) = 0 := by
      have : w.limiter.perSource.get? (SourceKey.fromIp addr) = none :=
        Option.isNone_iff_eq_none.mp (by simpa [KeyMap.contains] using hc)
      rw [ConnectionLimiter.counter, this]
      rfl
    rw [ConnectionLimiter.atLimit, ConnectionLimiter.counter_entry, hzero, Bool.or_eq_true, decide_eq_true_eq,
      decide_eq_true_eq] at hlim
    have hpos : 0 < w.limiter.limits.maxPerSource := w.limiter.limits.perSource_pos
    rcases hlim with hper | htotal
    · exact absurd hpos (Nat.not_lt_of_le hper)
    · exact htotal

/-- **A refused acquire leaves the counters and their map as they were, exactly where its source has an entry.** -/
theorem refused_unchanged_iff {w : World} {addr : IpAddr} (h : Refuses w addr) :
    (∀ k, (w.acquire addr).limiter.perSource.get? k = w.limiter.perSource.get? k) ↔
      w.limiter.perSource.contains (SourceKey.fromIp addr) = true := by
  rw [acquire_of_refuses h]
  refine ⟨fun hsame => ?_, fun hknown => get?_entry_of_contains hknown⟩
  rw [KeyMap.contains, ← hsame]
  show ((w.limiter.entry (SourceKey.fromIp addr)).perSource.get? (SourceKey.fromIp addr)).isSome = true
  unfold ConnectionLimiter.entry
  rw [KeyMap.get?_update, if_pos (beq_self_eq_true _)]
  rfl

theorem noResidue_acquire {w : World} (h : Exact w) {addr : IpAddr} {t : ℤ}
    (hknown : SourceKnown w t (.acquire addr)) (k : SourceKey) :
    (w.acquire addr).limiter.perSource.get? k ≠ some 0 := by
  by_cases hrefuses : Refuses w addr
  · rw [(refused_unchanged_iff hrefuses).mpr (known_of_refuses hrefuses hknown)]
    exact h.noResidue k
  unfold World.acquire
  by_cases hloop : addr.toCanonical.isLoopback = true
  · simp only [if_pos hloop]
    exact h.noResidue k
  simp only [if_neg hloop]
  by_cases hlock : w.admitted.isSome = true
  · rw [if_pos hlock]
    exact h.noResidue k
  rw [if_neg hlock]
  by_cases hlim : (w.limiter.entry (SourceKey.fromIp addr)).atLimit (SourceKey.fromIp addr) = true
  · exact absurd ⟨by simpa using hloop, by simpa using hlock, hlim⟩ hrefuses
  rw [if_neg hlim]
  generalize SourceKey.fromIp addr = key at hlim
  have hper : w.limiter.counter key < w.limiter.limits.maxPerSource := by
    simp only [ConnectionLimiter.atLimit, ConnectionLimiter.counter_entry, Bool.or_eq_true, decide_eq_true_eq,
      not_or] at hlim
    exact Nat.lt_of_not_le hlim.1
  have hlt := w.limiter.limits.perSource_lt
  show (((w.limiter.entry key).perSource.update key fun n => fetchAdd (n.getD 0)).get? k) ≠ some 0
  rw [KeyMap.get?_update]
  by_cases hk : key = k
  · subst hk
    have hcount : (((w.limiter.entry key).perSource.get? key).getD 0) = w.limiter.counter key :=
      ConnectionLimiter.counter_entry w.limiter key key
    rw [if_pos (beq_self_eq_true key), hcount, fetchAdd_eq (by omega)]
    simp
  · rw [if_neg (by simpa using hk), ConnectionLimiter.entry, KeyMap.get?_update, if_neg (by simpa using hk)]
    exact h.noResidue k

theorem noResidue_release {w : World} (h : Exact w) (key k : SourceKey) :
    (w.release key).limiter.perSource.get? k ≠ some 0 := by
  unfold World.release
  by_cases hcond : w.admitted = none ∧ key ∈ w.dropping
  · rw [if_pos hcond]
    show (w.limiter.release key).perSource.get? k ≠ some 0
    unfold ConnectionLimiter.release
    cases w.limiter.perSource.get? key with
    | none => exact h.noResidue k
    | some n =>
      by_cases h0 : fetchSub n = 0
      · simp only [if_pos h0, KeyMap.get?_erase]
        by_cases hk : (key == k) = true
        · rw [if_pos hk]
          simp
        · rw [if_neg hk]
          exact h.noResidue k
      · simp only [if_neg h0, KeyMap.get?_insert]
        by_cases hk : (key == k) = true
        · rw [if_pos hk]
          simpa using h0
        · rw [if_neg hk]
          exact h.noResidue k
  · rw [if_neg hcond]
    exact h.noResidue k

theorem Exact.step {w : World} {t : ℤ} {a : Action} (h : Exact w) (hknown : SourceKnown w t a) :
    Exact (step w t a) := by
  refine ⟨h.toAccounts.step t a, fun k => ?_⟩
  cases a with
  | acquire addr => exact noResidue_acquire h hknown k
  | count =>
    show w.count.limiter.perSource.get? k ≠ some 0
    unfold World.count
    cases w.admitted <;> exact h.noResidue k
  | drop guard =>
    show (w.drop guard).limiter.perSource.get? k ≠ some 0
    unfold World.drop
    split
    · split <;> exact h.noResidue k
    · exact h.noResidue k
  | release key => exact noResidue_release h key k

/-- A step that misses the condition leaves an entry of zero. -/
theorem SourceKnown.of_exact {w : World} {t : ℤ} {a : Action} (h : Exact (Server.step w t a)) :
    SourceKnown w t a := by
  cases a with
  | acquire addr =>
    intro hloop hnone hmax
    by_contra hc
    have hrefuses : Refuses w addr := by
      refine ⟨hloop, hnone, ?_⟩
      rw [ConnectionLimiter.atLimit, Bool.or_eq_true]
      exact .inr (decide_eq_true hmax)
    apply h.noResidue (SourceKey.fromIp addr)
    show (w.acquire addr).limiter.perSource.get? (SourceKey.fromIp addr) = some 0
    rw [acquire_of_refuses hrefuses]
    exact get?_entry_of_not_contains (by simpa using hc)
  | count => trivial
  | drop guard => trivial
  | release key => trivial

/-- No counted guard is left, and none is being made or dropped. -/
structure World.Idle (w : World) : Prop where
  guards : ∀ guard ∈ w.guards, guard.counted = false
  dropping : w.dropping = []
  admitted : w.admitted = none

/-- The counters and their map are as at the start. -/
theorem Exact.initial {w : World} (h : Exact w) (hidle : w.Idle) :
    w.limiter = { limits := w.limiter.limits, rejected := w.limiter.rejected } := by
  have htotal : w.limiter.current = 0 := by
    rw [h.total, List.countP_eq_zero]
    intro guard hguard
    simp [hidle.guards guard hguard]
  have hper : w.limiter.perSource = .empty := by
    apply KeyMap.eq_empty_of_get?
    intro key
    have hzero : w.limiter.counter key = 0 := by
      have hlive : w.guards.count ⟨key, true⟩ = 0 :=
        List.count_eq_zero.mpr fun hmem => by simpa using hidle.guards _ hmem
      rw [h.perSource key, World.holds, hlive, hidle.dropping, hidle.admitted]
      rfl
    have hne := h.noResidue key
    unfold ConnectionLimiter.counter at hzero
    cases hget : w.limiter.perSource.get? key with
    | none => rfl
    | some n =>
      rw [hget] at hzero hne
      exact absurd (congrArg some hzero) hne
  obtain ⟨⟨limits, current, rejected, perSource⟩, admitted, guards, dropping⟩ := w
  simp only at htotal hper
  rw [htotal, hper]

theorem exact_start (limits : Limits) : Exact (start limits) :=
  ⟨accounts_start limits, fun key => by simp [start]⟩

/-- A guard of the loopback interface does not touch the limiter. -/
theorem loopback_uncounted {w : World} {addr : IpAddr} (h : addr.toCanonical.isLoopback = true) :
    (w.acquire addr).limiter = w.limiter := by
  unfold World.acquire
  rw [if_pos h]

theorem drop_uncounted (w : World) (key : SourceKey) : (w.drop ⟨key, false⟩).limiter = w.limiter := by
  unfold World.drop
  split <;> rfl

/-- **The limiter is exact in every order of the steps**, in the states of a run that never refuses, at the
total limit, a source without an entry, and in no others. -/
theorem limiter_exact_iff (limits : Limits) (es : List (ℤ × Action)) :
    (Throughout step Exact (start limits) es ↔ Meets step SourceKnown (start limits) es) ∧
    Accounts (run step (start limits) es) ∧
    (∀ w, Exact w → w.Idle → w.limiter = { limits := w.limiter.limits, rejected := w.limiter.rejected }) ∧
    (∀ w addr, Refuses w addr → ((∀ k, (w.acquire addr).limiter.perSource.get? k = w.limiter.perSource.get? k) ↔
      w.limiter.perSource.contains (SourceKey.fromIp addr) = true)) ∧
    (∀ (w : World) (addr : IpAddr), addr.toCanonical.isLoopback = true → (w.acquire addr).limiter = w.limiter) ∧
    (∀ (w : World) (key : SourceKey), (w.drop ⟨key, false⟩).limiter = w.limiter) ∧
    ∀ bits, SourceKey.fromIp (.v6 (IpAddr.mapped bits)) = SourceKey.fromIp (.v4 bits) := by
  refine ⟨?_, ?_, fun w h hidle => h.initial hidle, fun w addr h => refused_unchanged_iff h,
    fun w addr h => loopback_uncounted h, drop_uncounted, SourceKey.fromIp_mapped⟩
  · exact throughout_iff_meets step (fun _ h => h) (fun _ _ _ h hknown => h.step hknown)
      (fun _ _ _ _ h => SourceKnown.of_exact h) es (start limits) (exact_start limits)
  · exact run_invariant_of_mem step (P := fun _ => True) (fun _ t a h _ => h.step t a) es (start limits)
      (accounts_start limits) fun _ _ => trivial

/-- One connection in all. -/
def oneConnection : Limits := ⟨1, 1, by decide, by decide, by decide, by decide⟩

/-- Two clients at a limit of one, the second refused; then the first leaves. -/
def refusedAndGone : List (ℤ × Action) :=
  [(0, .acquire (.v4 0xc0000201#32)), (0, .count), (1, .acquire (.v4 0xc0000202#32)),
    (2, .drop ⟨.v4 0xc0000201#32, true⟩), (2, .release (.v4 0xc0000201#32))]

/-- The entry of the second stays. -/
theorem residue_stays : ¬ ∀ (limits : Limits) (es : List (ℤ × Action)), (run step (start limits) es).Idle →
    (run step (start limits) es).limiter.perSource.entries = [] := by
  intro h
  have hidle : (run step (start oneConnection) refusedAndGone).Idle := ⟨by decide +kernel, rfl, rfl⟩
  have := h oneConnection refusedAndGone hidle
  revert this
  decide +kernel

/-! ### Queries -/

inductive QueryAdmission
  | allowed
  | refused
deriving DecidableEq

/-- `enter_query` at `max-query-limit`, where zero is no limit, and the number of queries in flight after it. -/
def enterQuery (limit : ℕ) (isBackground : Bool) (inFlight : ℕ) : QueryAdmission × ℕ :=
  if isBackground || decide (limit = 0) then (.allowed, inFlight + 1)
  else if limit < inFlight + 1 then (.refused, inFlight)
  else (.allowed, inFlight + 1)

end Server
end SmartDns
