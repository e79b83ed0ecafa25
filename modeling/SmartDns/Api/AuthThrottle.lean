/-
# The failed tokens of a source

The API counts the wrong tokens a source has sent: `auth_record_failure` adds one to the count under
the source and sets the moment beside it, `auth_record_success` removes the entry. A source is an
IPv4 address or an IPv6 /64. Every 64th call drops the entries whose last failure is out of the
window; a full table gives up the entry whose last failure is oldest before it looks for the source.

The moment of an entry is that of the last failure, so an entry that is renewed within the window
keeps the failures of windows before (`not_countsInWindow`), and the source itself can be the one a
full table gives up. Where neither happens the count is that of the window (`countsInWindow`).

Key definitions: `AuthSourceKey`, `AuthFails.recordFailure`, `AuthFails.recordSuccess`,
`Throttle.step`, `Throttle.Counts`, `Throttle.Keeps`.
Key theorems: `AuthSourceKey.fromIp_eq_iff`, `Accounted.failed`, `countsInWindow`, `Throttle.Valid.keeps_of_counts`.
-/
import Mathlib.Data.Finset.Card
import SmartDns.Dns.Ip
import SmartDns.Lib.KeyMap
import SmartDns.Lib.Runs

namespace SmartDns
namespace Api

open Dns Lib

/-- An IPv4 address, or the first eight bytes of an IPv6 address. -/
inductive AuthSourceKey
  | v4 (bits : BitVec 32)
  | v6 (bits : BitVec 64)
deriving DecidableEq

/-- `from_ip`: an IPv4-mapped address counts as the IPv4 address. -/
def AuthSourceKey.fromIp (ip : IpAddr) : AuthSourceKey :=
  match ip.toCanonical with
  | .v4 bits => .v4 bits
  | .v6 bits => .v6 (BitVec.ofNat 64 (bits.toNat / 2 ^ 64))

/-- The same IPv4 address, or the same /64. -/
def SameSource : IpAddr → IpAddr → Prop
  | .v4 a, .v4 b => a = b
  | .v6 a, .v6 b => a.toNat / 2 ^ 64 = b.toNat / 2 ^ 64
  | _, _ => False

/-- **A key is a source**, with an IPv4-mapped address as the IPv4 address. -/
theorem AuthSourceKey.fromIp_eq_iff (a b : IpAddr) :
    fromIp a = fromIp b ↔ SameSource a.toCanonical b.toCanonical := by
  unfold fromIp
  cases a.toCanonical with
  | v4 x => cases b.toCanonical <;> simp [SameSource]
  | v6 x =>
    cases b.toCanonical with
    | v4 y => simp [SameSource]
    | v6 y =>
      have hx : x.toNat / 2 ^ 64 < 2 ^ 64 := Nat.div_lt_of_lt_mul x.isLt
      have hy : y.toNat / 2 ^ 64 < 2 ^ 64 := Nat.div_lt_of_lt_mul y.isLt
      show v6 _ = v6 _ ↔ x.toNat / 2 ^ 64 = y.toNat / 2 ^ 64
      rw [v6.injEq, ← BitVec.toNat_inj, BitVec.toNat_ofNat, BitVec.toNat_ofNat, Nat.mod_eq_of_lt hx,
        Nat.mod_eq_of_lt hy]

/-- In nanoseconds. -/
def AUTH_FAIL_WINDOW : ℤ := 60000000000

def PRUNE_EVERY : ℕ := 64

def MAX_ENTRIES : ℕ := 4096

/-- The count and the moment of the last failure. -/
abbrev AuthEntry : Type := ℕ × ℤ

abbrev AuthMap : Type := KeyMap AuthSourceKey AuthEntry

/-- `AUTH_FAILS` and `AUTH_FAILS_CALLS`. -/
structure AuthFails where
  map : AuthMap := .empty
  calls : ℕ := 0

/-- The order in which a hash map gives its entries. -/
structure IterOrder where
  order : List (AuthSourceKey × AuthEntry) → List (AuthSourceKey × AuthEntry)
  perm : ∀ entries, (order entries).Perm entries

/-- The table after the sweep that every 64th call makes. -/
def AuthFails.pruned (fails : AuthFails) (now : ℤ) : AuthMap :=
  if fails.calls % PRUNE_EVERY = 0 then fails.map.retain fun entry => now - entry.2 < AUTH_FAIL_WINDOW
  else fails.map

/-- A full table gives up the first of the entries with the oldest moment. -/
def evictOldest (iter : IterOrder) (map : AuthMap) : AuthMap :=
  if MAX_ENTRIES ≤ map.entries.length then
    match (iter.order map.entries).minOn? (·.2.2) with
    | some oldest => map.erase oldest.1
    | none => map
  else map

/-- The table in which the source is looked for. -/
def AuthFails.room (fails : AuthFails) (now : ℤ) (iter : IterOrder) : AuthMap := evictOldest iter (fails.pruned now)

/-- The count under a source, zero if there is none. -/
def counted (map : AuthMap) (key : AuthSourceKey) : ℕ := ((map.get? key).map (·.1)).getD 0

/-- `auth_record_failure`: the count is 32 bits wide. -/
def AuthFails.recordFailure (fails : AuthFails) (now : ℤ) (ip : IpAddr) (iter : IterOrder) : AuthFails × ℕ :=
  let key := AuthSourceKey.fromIp ip
  let map := fails.room now iter
  let count := (counted map key + 1) % 2 ^ 32
  (⟨map.insert key (count, now), (fails.calls + 1) % 2 ^ 64⟩, count)

/-- `auth_record_success`. -/
def AuthFails.recordSuccess (fails : AuthFails) (ip : IpAddr) : AuthFails :=
  { fails with map := fails.map.erase (AuthSourceKey.fromIp ip) }

/-! ### The calls so far -/

structure AuthEvent where
  time : ℤ
  key : AuthSourceKey
  failed : Bool

inductive AuthCall
  | failure (ip : IpAddr) (iter : IterOrder)
  | success (ip : IpAddr)

def AuthCall.key : AuthCall → AuthSourceKey
  | failure ip _ => AuthSourceKey.fromIp ip
  | success ip => AuthSourceKey.fromIp ip

def AuthCall.failed : AuthCall → Bool
  | failure _ _ => true
  | success _ => false

/-- The moments of the failures of a source since its last success, the last first. -/
def failuresOf (key : AuthSourceKey) : List AuthEvent → List ℤ
  | [] => []
  | e :: log =>
    if e.key = key then if e.failed then e.time :: failuresOf key log else [] else failuresOf key log

/-- The sources with a failure at a moment of the given kind. -/
def sourcesFailing (moment : ℤ → Bool) (log : List AuthEvent) : Finset AuthSourceKey :=
  ((log.filter fun e => e.failed && moment e.time).map (·.key)).toFinset

def inWindow (now time : ℤ) : Bool := now - time < AUTH_FAIL_WINDOW

/-- The failures of a source in the window that ends now, since its last success. -/
def windowCount (key : AuthSourceKey) (now : ℤ) (log : List AuthEvent) : ℕ :=
  (failuresOf key log).countP (inWindow now)

/-- Fewer sources than the table can hold have failed in the window that ends now. -/
def FewFailed (now : ℤ) (log : List AuthEvent) : Prop := (sourcesFailing (inWindow now) log).card < MAX_ENTRIES

/-- The table, and the calls that made it, the last first. -/
structure Throttle where
  fails : AuthFails := {}
  log : List AuthEvent := []

namespace Throttle

def step (s : Throttle) (now : ℤ) (call : AuthCall) : Throttle where
  fails :=
    match call with
    | .failure ip iter => (s.fails.recordFailure now ip iter).1
    | .success ip => s.fails.recordSuccess ip
  log := ⟨now, call.key, call.failed⟩ :: s.log

/-- The count of a source at a moment: an entry out of the window counts nothing. -/
def countOf (s : Throttle) (key : AuthSourceKey) (now : ℤ) : ℕ :=
  match s.fails.map.get? key with
  | some (count, since) => if inWindow now since then count else 0
  | none => 0

/-- What a call owes: the count returned for a failure is at most that of the window and, if few sources
failed in it, that of the window; it is not below the count before. The counts of the others stay, and the
table stays within its bound. -/
structure Counts (s : Throttle) (now : ℤ) (call : AuthCall) : Prop where
  atMost : ∀ ip iter, call = .failure ip iter →
    (s.fails.recordFailure now ip iter).2 ≤ windowCount call.key now (s.step now call).log
  exact : ∀ ip iter, call = .failure ip iter → FewFailed now s.log →
    (s.fails.recordFailure now ip iter).2 = windowCount call.key now (s.step now call).log
  notLowered : ∀ ip iter, call = .failure ip iter →
    s.countOf call.key now ≤ (s.fails.recordFailure now ip iter).2
  others : ∀ key, key ≠ call.key → FewFailed now s.log → (s.step now call).countOf key now = s.countOf key now
  bounded : (s.step now call).fails.map.entries.length ≤ MAX_ENTRIES

/-- The sweep, if it is this call's turn, leaves the entry with this moment where it is. -/
def Unswept (s : Throttle) (now since : ℤ) : Prop := s.fails.calls % PRUNE_EVERY = 0 → inWindow now since = true

/-- The table is full, nothing in it is swept, and the source has the first of the entries with the oldest moment. -/
structure GivesUp (s : Throttle) (now : ℤ) (iter : IterOrder) (key : AuthSourceKey) : Prop where
  full : MAX_ENTRIES ≤ s.fails.map.entries.length
  unswept : ∀ e ∈ s.fails.map.entries, s.Unswept now e.2.2
  oldest : ((iter.order s.fails.map.entries).minOn? (·.2.2)).map (·.1) = some key

/-- The condition on a call that adds a failure, where the table has an entry of the source. If a full table gives
it up it stands for one failure, or is out of the window. Else, unless it is swept, the failures it stands for
are all in the window, and they do not exhaust its bits. -/
structure Keeps (s : Throttle) (now : ℤ) (call : AuthCall) : Prop where
  added : ∀ ip iter count since, call = .failure ip iter → s.fails.map.get? call.key = some (count, since) →
    s.Unswept now since → ¬ s.GivesUp now iter call.key →
      (∀ time ∈ (failuresOf call.key s.log).take count, inWindow now time = true) ∧ count + 1 < 2 ^ 32
  givenUp : ∀ ip iter count since, call = .failure ip iter → s.fails.map.get? call.key = some (count, since) →
    s.GivesUp now iter call.key → inWindow now since = true → count ≤ 1

end Throttle

/-! ### The failures a table does not count -/

theorem mem_sourcesFailing {moment : ℤ → Bool} {log : List AuthEvent} {key : AuthSourceKey} :
    key ∈ sourcesFailing moment log ↔ ∃ e ∈ log, e.failed = true ∧ moment e.time = true ∧ e.key = key := by
  simp [sourcesFailing, and_assoc]

theorem card_sourcesFailing_le {moment moment' : ℤ → Bool} {log log' : List AuthEvent} (hlog : ∀ e ∈ log, e ∈ log')
    (h : ∀ time, moment time = true → moment' time = true) :
    (sourcesFailing moment log).card ≤ (sourcesFailing moment' log').card := by
  refine Finset.card_le_card fun key hkey => ?_
  obtain ⟨e, he, hfailed, hmoment, hek⟩ := mem_sourcesFailing.mp hkey
  exact mem_sourcesFailing.mpr ⟨e, hlog e he, hfailed, h e.time hmoment, hek⟩

theorem mem_of_mem_failuresOf {key : AuthSourceKey} {time : ℤ} : ∀ {log : List AuthEvent},
    time ∈ failuresOf key log → ∃ e ∈ log, e.failed = true ∧ e.key = key ∧ e.time = time
  | [], h => absurd h List.not_mem_nil
  | e :: log, h => by
    have older (h : time ∈ failuresOf key log) :
        ∃ e' ∈ e :: log, e'.failed = true ∧ e'.key = key ∧ e'.time = time := by
      obtain ⟨e', he', h'⟩ := mem_of_mem_failuresOf h
      exact ⟨e', List.mem_cons_of_mem _ he', h'⟩
    unfold failuresOf at h
    by_cases hk : e.key = key
    · rw [if_pos hk] at h
      by_cases hf : e.failed = true
      · rw [if_pos hf] at h
        rcases List.mem_cons.mp h with rfl | h
        · exact ⟨e, List.mem_cons_self, hf, hk, rfl⟩
        · exact older h
      · rw [if_neg hf] at h
        exact absurd h List.not_mem_nil
    · rw [if_neg hk] at h
      exact older h

/-- The calls came in order, the last is first, and none is after `now`. -/
structure Ordered (now : ℤ) (log : List AuthEvent) : Prop where
  sorted : log.Pairwise fun a b => b.time ≤ a.time
  past : ∀ e ∈ log, e.time ≤ now

theorem Ordered.cons {now now' : ℤ} {log : List AuthEvent} (h : Ordered now log) (hle : now ≤ now')
    (key : AuthSourceKey) (failed : Bool) : Ordered now' (⟨now', key, failed⟩ :: log) where
  sorted := List.pairwise_cons.mpr ⟨fun e he => Int.le_trans (h.past e he) hle, h.sorted⟩
  past e he := by
    rcases List.mem_cons.mp he with rfl | he
    · exact Int.le_refl _
    · exact Int.le_trans (h.past e he) hle

theorem failuresOf_sorted (key : AuthSourceKey) : ∀ {log : List AuthEvent},
    log.Pairwise (fun a b => b.time ≤ a.time) → (failuresOf key log).Pairwise fun a b => b ≤ a
  | [], _ => List.Pairwise.nil
  | e :: log, h => by
    obtain ⟨hlast, h⟩ := List.pairwise_cons.mp h
    have ih := failuresOf_sorted key h
    unfold failuresOf
    split
    · split
      · refine List.pairwise_cons.mpr ⟨fun time htime => ?_, ih⟩
        obtain ⟨e', he', -, -, rfl⟩ := mem_of_mem_failuresOf htime
        exact hlast e' he'
      · exact List.Pairwise.nil
    · exact ih

/-- A failure that is out of the window, or behind which as many sources failed as the table can hold. -/
def Lost (now : ℤ) (log : List AuthEvent) (time : ℤ) : Prop :=
  inWindow now time = false ∨ MAX_ENTRIES ≤ (sourcesFailing (fun later => time ≤ later) log).card

section

variable {now now' time time' : ℤ} {log : List AuthEvent}

theorem inWindow_mono (hnow : now ≤ now') (htime : time ≤ time') (h : inWindow now' time = true) :
    inWindow now time' = true := by
  simp only [inWindow, decide_eq_true_eq] at h ⊢
  omega

theorem Lost.later (h : Lost now log time) (hle : now ≤ now') : Lost now' log time := by
  refine h.imp_left fun h => Bool.eq_false_iff.mpr fun h' => ?_
  rw [inWindow_mono hle (Int.le_refl _) h'] at h
  cases h

theorem Lost.cons (h : Lost now log time) (e : AuthEvent) : Lost now (e :: log) time :=
  h.imp_right fun h => Nat.le_trans h (card_sourcesFailing_le (fun _ he => List.mem_cons_of_mem _ he) fun _ h => h)

theorem Lost.earlier (h : Lost now log time') (hle : time ≤ time') : Lost now log time := by
  rcases h with h | h
  · refine .inl (Bool.eq_false_iff.mpr fun h' => ?_)
    rw [inWindow_mono (Int.le_refl _) hle h'] at h
    cases h
  · refine .inr (Nat.le_trans h (card_sourcesFailing_le (fun _ he => he) fun later hlater => ?_))
    simp only [decide_eq_true_eq] at hlater ⊢
    omega

/-- While few sources fail, only what is out of the window is lost. -/
theorem Lost.stale (h : Lost now log time) (hfew : FewFailed now log) : inWindow now time = false := by
  rcases h with h | h
  · exact h
  · refine Bool.eq_false_iff.mpr fun hin => ?_
    have hle : (sourcesFailing (fun later => time ≤ later) log).card ≤ (sourcesFailing (inWindow now) log).card :=
      card_sourcesFailing_le (fun _ he => he) fun later hlater =>
        inWindow_mono (Int.le_refl _) (of_decide_eq_true hlater) hin
    exact absurd hfew (Nat.not_lt.mpr (Nat.le_trans h hle))

end

/-- The books of a table: an entry counts the last failures of its source and holds the moment of the last,
and the failures it does not count are lost. -/
structure Accounted (now : ℤ) (log : List AuthEvent) (map : AuthMap) : Prop where
  entry : ∀ key count since, map.get? key = some (count, since) →
    count ≤ (failuresOf key log).length ∧ (failuresOf key log).head? = some since
  lost : ∀ key, ∀ time ∈ (failuresOf key log).drop (counted map key), Lost now log time

theorem Accounted.later {now now' : ℤ} {log : List AuthEvent} {map : AuthMap} (h : Accounted now log map)
    (hle : now ≤ now') : Accounted now' log map where
  entry := h.entry
  lost key time htime := (h.lost key time htime).later hle

theorem counted_of_some {map : AuthMap} {key : AuthSourceKey} {count : ℕ} {since : ℤ}
    (h : map.get? key = some (count, since)) : counted map key = count := by
  rw [counted, h]
  rfl

theorem counted_of_none {map : AuthMap} {key : AuthSourceKey} (h : map.get? key = none) : counted map key = 0 := by
  rw [counted, h]
  rfl

theorem Accounted.counted_le {now : ℤ} {log : List AuthEvent} {map : AuthMap} (h : Accounted now log map)
    (key : AuthSourceKey) : counted map key ≤ (failuresOf key log).length := by
  cases hget : map.get? key with
  | none => exact (counted_of_none hget).symm ▸ Nat.zero_le _
  | some entry => exact counted_of_some hget ▸ (h.entry key entry.1 entry.2 hget).1

/-- No failure of a source is later than the moment of its entry. -/
theorem Accounted.le_since {now : ℤ} {log : List AuthEvent} {map : AuthMap} (h : Accounted now log map)
    (hlog : log.Pairwise fun a b => b.time ≤ a.time) {key : AuthSourceKey} {count : ℕ} {since : ℤ}
    (hget : map.get? key = some (count, since)) {time : ℤ} (htime : time ∈ failuresOf key log) : time ≤ since := by
  obtain ⟨older, heq⟩ := List.head?_eq_some_iff.mp (h.entry key count since hget).2
  have hsorted := failuresOf_sorted key hlog
  rw [heq] at hsorted htime
  rcases List.mem_cons.mp htime with rfl | htime
  · exact Int.le_refl _
  · exact (List.pairwise_cons.mp hsorted).1 time htime

/-! ### What the table gives up -/

/-- The second table is the first without entries whose moments are lost. -/
def Drops (now : ℤ) (log : List AuthEvent) (map map' : AuthMap) : Prop :=
  ∀ key, map'.get? key = map.get? key ∨
    map'.get? key = none ∧ ∀ count since, map.get? key = some (count, since) → Lost now log since

theorem Drops.trans {now : ℤ} {log : List AuthEvent} {map map' map'' : AuthMap} (h : Drops now log map map')
    (h' : Drops now log map' map'') : Drops now log map map'' := by
  intro key
  rcases h' key with heq' | ⟨hnone, hlost⟩
  · rw [heq']
    exact h key
  · rcases h key with heq | hdropped
    · exact .inr ⟨hnone, fun count since hget => hlost count since (heq.trans hget)⟩
    · exact .inr ⟨hnone, hdropped.2⟩

theorem Accounted.drops {now : ℤ} {log : List AuthEvent} {map map' : AuthMap} (h : Accounted now log map)
    (hlog : log.Pairwise fun a b => b.time ≤ a.time) (hdrops : Drops now log map map') : Accounted now log map' where
  entry key count since hget := by
    rcases hdrops key with heq | ⟨hnone, -⟩
    · exact h.entry key count since (heq ▸ hget)
    · rw [hnone] at hget
      cases hget
  lost key time htime := by
    rcases hdrops key with heq | ⟨hnone, hlost⟩
    · rw [counted, heq] at htime
      exact h.lost key time htime
    · rw [counted_of_none hnone, List.drop_zero] at htime
      cases hget : map.get? key with
      | none => exact h.lost key time (by rwa [counted_of_none hget, List.drop_zero])
      | some entry => exact (hlost entry.1 entry.2 hget).earlier (h.le_since hlog hget htime)

theorem drops_pruned (fails : AuthFails) (now : ℤ) (log : List AuthEvent) :
    Drops now log fails.map (fails.pruned now) := by
  intro key
  unfold AuthFails.pruned
  split
  · rw [KeyMap.get?_retain]
    cases hget : fails.map.get? key with
    | none => exact .inl rfl
    | some entry =>
      by_cases hin : inWindow now entry.2 = true
      · exact .inl (Option.filter_some_pos hin)
      · refine .inr ⟨Option.filter_some_neg (Bool.eq_false_iff.mpr hin), fun count since hsome => ?_⟩
        cases hsome
        exact .inl (Bool.eq_false_iff.mpr hin)
  · exact .inl rfl

/-- A table gives up only an entry that no other is older than, and only when it is full. -/
theorem get?_evictOldest (iter : IterOrder) (map : AuthMap) (key : AuthSourceKey) :
    (evictOldest iter map).get? key = map.get? key ∨
      (evictOldest iter map).get? key = none ∧ MAX_ENTRIES ≤ map.entries.length ∧
        ∀ count since, map.get? key = some (count, since) → ∀ e ∈ map.entries, since ≤ e.2.2 := by
  unfold evictOldest
  by_cases hfull : MAX_ENTRIES ≤ map.entries.length
  · rw [if_pos hfull]
    cases hmin : (iter.order map.entries).minOn? (·.2.2) with
    | none => exact .inl rfl
    | some oldest =>
      by_cases hkey : oldest.1 = key
      · subst hkey
        have hmem : oldest ∈ map.entries := (iter.perm _).mem_iff.mp (List.minOn?_mem hmin)
        refine .inr ⟨KeyMap.get?_erase_of_beq map BEq.rfl, hfull, fun count since hget e he => ?_⟩
        have hsince : oldest.2 = (count, since) := Option.some.inj ((KeyMap.get?_of_mem hmem).symm.trans hget)
        have hle := List.apply_get_minOn?_le_of_mem (f := (·.2.2)) ((iter.perm _).mem_iff.mpr he)
        simp only [hmin, Option.get_some, hsince] at hle
        exact hle
      · exact .inl (KeyMap.get?_erase_of_not_beq map (by simpa using hkey))
  · rw [if_neg hfull]
    exact .inl rfl

/-- In a full table, the oldest moment has as many sources behind it as the table has entries. -/
theorem Accounted.lost_of_full {now : ℤ} {log : List AuthEvent} {map : AuthMap} (h : Accounted now log map)
    (hfull : MAX_ENTRIES ≤ map.entries.length) {since : ℤ} (holdest : ∀ e ∈ map.entries, since ≤ e.2.2) :
    Lost now log since := by
  have hsub : map.keys.toFinset ⊆ sourcesFailing (fun later => since ≤ later) log := by
    intro key hkey
    obtain ⟨e, he, rfl⟩ := List.mem_map.mp (List.mem_toFinset.mp hkey)
    have hhead := (h.entry e.1 e.2.1 e.2.2 (KeyMap.get?_of_mem he)).2
    obtain ⟨event, hevent, hfailed, hk, htime⟩ := mem_of_mem_failuresOf (List.mem_of_mem_head? hhead)
    exact mem_sourcesFailing.mpr ⟨event, hevent, hfailed, decide_eq_true (htime ▸ holdest e he), hk⟩
  have hcard := Finset.card_le_card hsub
  rw [List.toFinset_card_of_nodup (KeyMap.nodup_keys map), KeyMap.keys, List.length_map] at hcard
  exact .inr (Nat.le_trans hfull hcard)

theorem Accounted.drops_evictOldest {now : ℤ} {log : List AuthEvent} {map : AuthMap} (h : Accounted now log map)
    (iter : IterOrder) : Drops now log map (evictOldest iter map) := by
  intro key
  refine (get?_evictOldest iter map key).imp_right fun ⟨hnone, hfull, holdest⟩ => ⟨hnone, fun count since hget => ?_⟩
  exact h.lost_of_full hfull (holdest count since hget)

theorem Accounted.drops_room {now : ℤ} {log : List AuthEvent} {fails : AuthFails} (h : Accounted now log fails.map)
    (hlog : log.Pairwise fun a b => b.time ≤ a.time) (iter : IterOrder) :
    Drops now log fails.map (fails.room now iter) :=
  have hpruned := drops_pruned fails now log
  hpruned.trans ((h.drops hlog hpruned).drops_evictOldest iter)

theorem length_room_lt {fails : AuthFails} (h : fails.map.entries.length ≤ MAX_ENTRIES) (now : ℤ) (iter : IterOrder) :
    (fails.room now iter).entries.length < MAX_ENTRIES := by
  have hpruned : (fails.pruned now).entries.length ≤ MAX_ENTRIES := by
    unfold AuthFails.pruned
    split
    · exact Nat.le_trans (List.length_filter_le _ _) h
    · exact h
  unfold AuthFails.room evictOldest
  by_cases hfull : MAX_ENTRIES ≤ (fails.pruned now).entries.length
  · rw [if_pos hfull]
    cases hmin : (iter.order (fails.pruned now).entries).minOn? (·.2.2) with
    | none =>
      have hnil : iter.order (fails.pruned now).entries = [] := by
        by_contra hne
        have hsome := List.isSome_minOn?_iff (f := (·.2.2)).mpr hne
        rw [hmin] at hsome
        cases hsome
      have hlen := (iter.perm (fails.pruned now).entries).length_eq
      rw [hnil, List.length_nil] at hlen
      rw [← hlen] at hfull
      exact absurd hfull (by decide)
    | some oldest =>
      have hmem : oldest ∈ (fails.pruned now).entries := (iter.perm _).mem_iff.mp (List.minOn?_mem hmin)
      exact Nat.lt_of_lt_of_le (KeyMap.length_erase_lt hmem) hpruned
  · rw [if_neg hfull]
    exact Nat.lt_of_not_le hfull

/-! ### One call -/

section

variable {now : ℤ} {log : List AuthEvent} {map : AuthMap}

theorem failuresOf_failed (key : AuthSourceKey) (now : ℤ) (log : List AuthEvent) :
    failuresOf key (⟨now, key, true⟩ :: log) = now :: failuresOf key log := by
  simp [failuresOf]

theorem failuresOf_succeeded (key : AuthSourceKey) (now : ℤ) (log : List AuthEvent) :
    failuresOf key (⟨now, key, false⟩ :: log) = [] := by
  simp [failuresOf]

theorem failuresOf_of_ne {key key' : AuthSourceKey} (h : key' ≠ key) (now : ℤ) (failed : Bool)
    (log : List AuthEvent) : failuresOf key' (⟨now, key, failed⟩ :: log) = failuresOf key' log := by
  simp [failuresOf, Ne.symm h]

/-- A failure keeps the books. -/
theorem Accounted.failed (h : Accounted now log map) (key : AuthSourceKey) :
    Accounted now (⟨now, key, true⟩ :: log) (map.insert key (counted map key + 1, now)) where
  entry key' count since hget := by
    by_cases hk : key' = key
    · subst hk
      rw [KeyMap.get?_insert_of_beq map BEq.rfl] at hget
      cases hget
      rw [failuresOf_failed, List.length_cons]
      exact ⟨Nat.succ_le_succ (h.counted_le key'), rfl⟩
    · rw [KeyMap.get?_insert_of_not_beq map (by simpa using Ne.symm hk)] at hget
      rw [failuresOf_of_ne hk]
      exact h.entry key' count since hget
  lost key' time htime := by
    by_cases hk : key' = key
    · subst hk
      rw [failuresOf_failed, counted_of_some (KeyMap.get?_insert_of_beq map BEq.rfl _), List.drop_succ_cons] at htime
      exact (h.lost key' time htime).cons _
    · rw [failuresOf_of_ne hk, counted, KeyMap.get?_insert_of_not_beq map (by simpa using Ne.symm hk)] at htime
      exact (h.lost key' time htime).cons _

/-- A success keeps the books. -/
theorem Accounted.succeeded (h : Accounted now log map) (key : AuthSourceKey) :
    Accounted now (⟨now, key, false⟩ :: log) (map.erase key) where
  entry key' count since hget := by
    by_cases hk : key' = key
    · subst hk
      rw [KeyMap.get?_erase_of_beq map BEq.rfl] at hget
      cases hget
    · rw [KeyMap.get?_erase_of_not_beq map (by simpa using Ne.symm hk)] at hget
      rw [failuresOf_of_ne hk]
      exact h.entry key' count since hget
  lost key' time htime := by
    by_cases hk : key' = key
    · subst hk
      rw [failuresOf_succeeded, List.drop_nil] at htime
      exact absurd htime List.not_mem_nil
    · rw [failuresOf_of_ne hk, counted, KeyMap.get?_erase_of_not_beq map (by simpa using Ne.symm hk)] at htime
      exact (h.lost key' time htime).cons _

theorem windowCount_split (key : AuthSourceKey) (now : ℤ) (log : List AuthEvent) (n : ℕ) :
    windowCount key now log =
      ((failuresOf key log).take n).countP (inWindow now) + ((failuresOf key log).drop n).countP (inWindow now) := by
  rw [← List.countP_append, List.take_append_drop, windowCount]

/-- The failures an entry counts are at most those of the window if they are all in it. -/
theorem Accounted.counted_le_window (h : Accounted now log map) {key : AuthSourceKey}
    (hin : ∀ time ∈ (failuresOf key log).take (counted map key), inWindow now time = true) :
    counted map key ≤ windowCount key now log := by
  have htake := List.countP_eq_length.mpr hin
  rw [List.length_take_of_le (h.counted_le key)] at htake
  rw [windowCount, ← htake]
  exact (List.take_sublist _ _).countP_le

/-- The failures an entry counts are the last, so they are all in the window if it has as many. -/
theorem inWindow_of_counted_le (hlog : log.Pairwise fun a b => b.time ≤ a.time) {key : AuthSourceKey}
    (hle : counted map key ≤ windowCount key now log) :
    ∀ time ∈ (failuresOf key log).take (counted map key), inWindow now time = true := by
  intro time htime
  by_contra hstale
  have hsorted := failuresOf_sorted key hlog
  rw [← List.take_append_drop (counted map key) (failuresOf key log)] at hsorted
  have holder := (List.pairwise_append.mp hsorted).2.2 time htime
  have hdrop : ((failuresOf key log).drop (counted map key)).countP (inWindow now) = 0 :=
    List.countP_eq_zero.mpr fun time' htime' hin => hstale (inWindow_mono (Int.le_refl _) (holder time' htime') hin)
  have htake : ((failuresOf key log).take (counted map key)).countP (inWindow now) =
      ((failuresOf key log).take (counted map key)).length := by
    refine Nat.le_antisymm List.countP_le_length ?_
    rw [windowCount_split key now log (counted map key), hdrop, Nat.add_zero] at hle
    exact Nat.le_trans (List.length_take_le _ _) hle
  exact hstale (List.countP_eq_length.mp htake time htime)

/-- While few sources fail, an entry counts all failures of the window. -/
theorem Accounted.window_le_counted (h : Accounted now log map) (hfew : FewFailed now log) (key : AuthSourceKey) :
    windowCount key now log ≤ counted map key := by
  have hnone : ((failuresOf key log).drop (counted map key)).countP (inWindow now) = 0 :=
    List.countP_eq_zero.mpr fun time htime => by simp [(h.lost key time htime).stale hfew]
  calc windowCount key now log
      = ((failuresOf key log).take (counted map key)).countP (inWindow now) := by
        rw [windowCount_split key now log (counted map key), hnone, Nat.add_zero]
    _ ≤ ((failuresOf key log).take (counted map key)).length := List.countP_le_length
    _ ≤ counted map key := List.length_take_le _ _

theorem windowCount_failed (key : AuthSourceKey) (now : ℤ) (log : List AuthEvent) :
    windowCount key now (⟨now, key, true⟩ :: log) = windowCount key now log + 1 := by
  have hnow : inWindow now now = true := by simp [inWindow, AUTH_FAIL_WINDOW]
  rw [windowCount, failuresOf_failed, List.countP_cons_of_pos hnow]
  rfl

end

/-! ### Every call of a run -/

namespace Throttle

/-- What holds of every state reached. -/
structure Valid (now : ℤ) (s : Throttle) : Prop where
  ordered : Ordered now s.log
  accounted : Accounted now s.log s.fails.map
  bounded : s.fails.map.entries.length ≤ MAX_ENTRIES

theorem valid_empty (now : ℤ) : Valid now {} where
  ordered := ⟨List.Pairwise.nil, fun _ he => absurd he List.not_mem_nil⟩
  accounted := by
    refine ⟨fun key count since hget => ?_, fun key time htime => ?_⟩
    · rw [KeyMap.get?_empty] at hget
      cases hget
    · exact absurd htime (by simp [failuresOf])
  bounded := Nat.zero_le _

section

variable {now now' : ℤ} {s : Throttle}

theorem Valid.later (h : Valid now s) (hle : now ≤ now') : Valid now' s where
  ordered := ⟨h.ordered.sorted, fun e he => Int.le_trans (h.ordered.past e he) hle⟩
  accounted := h.accounted.later hle
  bounded := h.bounded

theorem Valid.room (h : Valid now s) (iter : IterOrder) : Accounted now s.log (s.fails.room now iter) :=
  h.accounted.drops h.ordered.sorted (h.accounted.drops_room h.ordered.sorted iter)

theorem get?_pruned {key : AuthSourceKey} {count : ℕ} {since : ℤ} :
    (s.fails.pruned now).get? key = some (count, since) ↔
      s.fails.map.get? key = some (count, since) ∧ s.Unswept now since := by
  unfold AuthFails.pruned Unswept
  by_cases hturn : s.fails.calls % PRUNE_EVERY = 0
  · rw [if_pos hturn, KeyMap.get?_retain, Option.filter_eq_some_iff]
    exact and_congr_right fun _ => ⟨fun hin _ => hin, fun hin => hin hturn⟩
  · rw [if_neg hturn]
    exact ⟨fun hget => ⟨hget, fun h => absurd h hturn⟩, fun h => h.1⟩

/-- Where nothing is swept the table is as it was. -/
theorem pruned_eq_map (h : ∀ e ∈ s.fails.map.entries, s.Unswept now e.2.2) : s.fails.pruned now = s.fails.map := by
  unfold AuthFails.pruned
  split
  · rename_i hturn
    exact KeyMap.retain_eq_self fun e he => h e he hturn
  · rfl

/-- A sweep that leaves a full table full has dropped nothing. -/
theorem unswept_of_full (h : s.fails.map.entries.length ≤ MAX_ENTRIES)
    (hfull : MAX_ENTRIES ≤ (s.fails.pruned now).entries.length) : ∀ e ∈ s.fails.map.entries, s.Unswept now e.2.2 := by
  intro e he hturn
  rw [AuthFails.pruned, if_pos hturn] at hfull
  have hlen := Nat.le_antisymm (List.length_filter_le _ _) (Nat.le_trans h hfull)
  exact List.filter_eq_self.mp (List.filter_sublist.eq_of_length hlen) e he

theorem GivesUp.get?_room {iter : IterOrder} {key : AuthSourceKey} (h : s.GivesUp now iter key) :
    (s.fails.room now iter).get? key = none := by
  obtain ⟨oldest, hmin, rfl⟩ := Option.map_eq_some_iff.mp h.oldest
  rw [AuthFails.room, pruned_eq_map h.unswept, evictOldest, if_pos h.full]
  simp only [hmin]
  exact KeyMap.get?_erase_of_beq _ BEq.rfl

/-- What the sweep leaves is there unless the full table gives it up. -/
theorem get?_room_of_not_givesUp {iter : IterOrder} {key : AuthSourceKey}
    (hbounded : s.fails.map.entries.length ≤ MAX_ENTRIES) (h : ¬ s.GivesUp now iter key) :
    (s.fails.room now iter).get? key = (s.fails.pruned now).get? key := by
  unfold AuthFails.room evictOldest
  by_cases hfull : MAX_ENTRIES ≤ (s.fails.pruned now).entries.length
  · have hunswept := unswept_of_full hbounded hfull
    rw [pruned_eq_map hunswept] at hfull ⊢
    rw [if_pos hfull]
    cases hmin : (iter.order s.fails.map.entries).minOn? (·.2.2) with
    | none => rfl
    | some oldest =>
      refine KeyMap.get?_erase_of_not_beq _ fun hkey => h ⟨hfull, hunswept, ?_⟩
      rw [hmin, Option.map_some, eq_of_beq hkey]
  · rw [if_neg hfull]

/-- The condition is on the entry that the failure adds to. -/
theorem Keeps.room {ip : IpAddr} {iter : IterOrder} (hkeeps : s.Keeps now (.failure ip iter))
    (hbounded : s.fails.map.entries.length ≤ MAX_ENTRIES) {key : AuthSourceKey}
    (hkey : AuthSourceKey.fromIp ip = key) :
    (∀ time ∈ (failuresOf key s.log).take (counted (s.fails.room now iter) key), inWindow now time = true) ∧
      counted (s.fails.room now iter) key + 1 < 2 ^ 32 := by
  subst hkey
  cases hget : (s.fails.room now iter).get? (AuthSourceKey.fromIp ip) with
  | none =>
    rw [counted_of_none hget]
    exact ⟨fun time htime => absurd htime (by simp), by decide⟩
  | some entry =>
    have hnot : ¬ s.GivesUp now iter (AuthSourceKey.fromIp ip) := fun h => by simp [h.get?_room] at hget
    have hthere := get?_pruned.mp ((get?_room_of_not_givesUp hbounded hnot).symm.trans hget)
    rw [counted_of_some hget]
    exact hkeeps.added ip iter entry.1 entry.2 rfl hthere.1 hthere.2 hnot

theorem length_step_le (h : s.fails.map.entries.length ≤ MAX_ENTRIES) (now : ℤ) (call : AuthCall) :
    (s.step now call).fails.map.entries.length ≤ MAX_ENTRIES := by
  cases call with
  | failure ip iter =>
    exact Nat.le_trans (KeyMap.length_updateEntries_le _ _ _) (length_room_lt h now iter)
  | success ip => exact Nat.le_trans (List.length_filter_le _ _) h

/-- A call that meets the condition keeps the books. -/
theorem Valid.step (h : Valid now s) (call : AuthCall) (hkeeps : s.Keeps now call) : Valid now (s.step now call) where
  ordered := h.ordered.cons (Int.le_refl _) _ _
  accounted := by
    cases call with
    | failure ip iter =>
      have hcount : counted (s.fails.room now iter) (AuthSourceKey.fromIp ip) + 1 < 2 ^ 32 :=
        (hkeeps.room h.bounded rfl).2
      have := (h.room iter).failed (AuthSourceKey.fromIp ip)
      rwa [← Nat.mod_eq_of_lt hcount] at this
    | success ip => exact h.accounted.succeeded (AuthSourceKey.fromIp ip)
  bounded := length_step_le h.bounded now call

theorem countOf_of_none {key : AuthSourceKey} (h : s.fails.map.get? key = none) (now : ℤ) :
    s.countOf key now = 0 := by
  rw [countOf, h]

theorem countOf_of_stale {key : AuthSourceKey} {count : ℕ} {since : ℤ}
    (h : s.fails.map.get? key = some (count, since)) (hstale : inWindow now since = false) :
    s.countOf key now = 0 := by
  simp [countOf, h, hstale]

theorem countOf_of_inWindow {key : AuthSourceKey} {count : ℕ} {since : ℤ}
    (h : s.fails.map.get? key = some (count, since)) (hin : inWindow now since = true) :
    s.countOf key now = count := by
  simp [countOf, h, hin]

/-- A failure adds to the count in the window, or to none where the table has just given its entry up. -/
theorem Valid.countOf_cases (h : Valid now s) (key : AuthSourceKey) (iter : IterOrder) :
    s.countOf key now ≤ counted (s.fails.room now iter) key ∨
      s.GivesUp now iter key ∧
        ∃ since, s.fails.map.get? key = some (s.countOf key now, since) ∧ inWindow now since = true := by
  cases hget : s.fails.map.get? key with
  | none => exact .inl (countOf_of_none hget now ▸ Nat.zero_le _)
  | some entry =>
    obtain ⟨count, since⟩ := entry
    by_cases hin : inWindow now since = true
    · rw [countOf_of_inWindow hget hin]
      by_cases hgives : s.GivesUp now iter key
      · exact .inr ⟨hgives, since, rfl, hin⟩
      · have hroom := (get?_room_of_not_givesUp h.bounded hgives).trans (get?_pruned.mpr ⟨hget, fun _ => hin⟩)
        exact .inl (Nat.le_of_eq (counted_of_some hroom).symm)
    · exact .inl (countOf_of_stale hget (Bool.eq_false_iff.mpr hin) ▸ Nat.zero_le _)

/-- While few sources fail, a call leaves the counts of the other sources as they are. -/
theorem Valid.countOf_others (h : Valid now s) (call : AuthCall) {key : AuthSourceKey} (hk : key ≠ call.key)
    (hfew : FewFailed now s.log) : (s.step now call).countOf key now = s.countOf key now := by
  have hbeq : ¬ (call.key == key) = true := by simpa using Ne.symm hk
  cases call with
  | failure ip iter =>
    have hget : (s.step now (.failure ip iter)).fails.map.get? key = (s.fails.room now iter).get? key :=
      KeyMap.get?_insert_of_not_beq _ hbeq _
    rcases h.accounted.drops_room h.ordered.sorted iter key with heq | ⟨hnone, hlost⟩
    · unfold countOf
      rw [hget, heq]
    · rw [countOf_of_none (hget.trans hnone)]
      cases hold : s.fails.map.get? key with
      | none => exact (countOf_of_none hold now).symm
      | some entry => exact (countOf_of_stale hold ((hlost entry.1 entry.2 hold).stale hfew)).symm
  | success ip =>
    have hget : (s.step now (.success ip)).fails.map.get? key = s.fails.map.get? key :=
      KeyMap.get?_erase_of_not_beq _ hbeq
    unfold countOf
    rw [hget]

theorem Valid.counts (h : Valid now s) (call : AuthCall) (hkeeps : s.Keeps now call) : s.Counts now call where
  atMost ip iter hcall := by
    subst hcall
    obtain ⟨hin, hcount⟩ := hkeeps.room h.bounded rfl
    have hle := (h.room iter).counted_le_window hin
    calc (s.fails.recordFailure now ip iter).2
        = counted (s.fails.room now iter) (AuthSourceKey.fromIp ip) + 1 := Nat.mod_eq_of_lt hcount
      _ ≤ windowCount (AuthSourceKey.fromIp ip) now s.log + 1 := Nat.succ_le_succ hle
      _ = _ := (windowCount_failed _ now s.log).symm
  exact ip iter hcall hfew := by
    subst hcall
    obtain ⟨hin, hcount⟩ := hkeeps.room h.bounded rfl
    have heq := Nat.le_antisymm ((h.room iter).counted_le_window hin) ((h.room iter).window_le_counted hfew _)
    calc (s.fails.recordFailure now ip iter).2
        = counted (s.fails.room now iter) (AuthSourceKey.fromIp ip) + 1 := Nat.mod_eq_of_lt hcount
      _ = windowCount (AuthSourceKey.fromIp ip) now s.log + 1 := congrArg (· + 1) heq
      _ = _ := (windowCount_failed _ now s.log).symm
  notLowered ip iter hcall := by
    subst hcall
    have hcount : (s.fails.recordFailure now ip iter).2 =
        counted (s.fails.room now iter) (AuthSourceKey.fromIp ip) + 1 :=
      Nat.mod_eq_of_lt (hkeeps.room h.bounded rfl).2
    rw [hcount]
    rcases h.countOf_cases (AuthSourceKey.fromIp ip) iter with hle | ⟨hgives, since, hget, hin⟩
    · exact Nat.le_succ_of_le hle
    · exact Nat.le_trans (hkeeps.givenUp ip iter _ since rfl hget hgives hin) (Nat.le_add_left 1 _)
  others key hk hfew := h.countOf_others call hk hfew
  bounded := length_step_le h.bounded now call

/-- Short of the bits of a count, a call that does what it owes meets the condition. -/
theorem Valid.keeps_of_counts (h : Valid now s) (call : AuthCall) (hcounts : s.Counts now call)
    (hbits : ∀ count since, s.fails.map.get? call.key = some (count, since) → count + 1 < 2 ^ 32) :
    s.Keeps now call where
  added ip iter count since hcall hget hunswept hgives := by
    subst hcall
    have hbound := hbits count since hget
    refine ⟨?_, hbound⟩
    have hroom := (get?_room_of_not_givesUp h.bounded hgives).trans (get?_pruned.mpr ⟨hget, hunswept⟩)
    have hcounted : counted (s.fails.room now iter) (AuthSourceKey.fromIp ip) = count := counted_of_some hroom
    rw [← hcounted] at hbound ⊢
    have hle : counted (s.fails.room now iter) (AuthSourceKey.fromIp ip) + 1 ≤
        windowCount (AuthSourceKey.fromIp ip) now s.log + 1 := by
      calc counted (s.fails.room now iter) (AuthSourceKey.fromIp ip) + 1
          = (s.fails.recordFailure now ip iter).2 := (Nat.mod_eq_of_lt hbound).symm
        _ ≤ _ := hcounts.atMost ip iter rfl
        _ = _ := windowCount_failed _ now s.log
    exact inWindow_of_counted_le h.ordered.sorted (Nat.le_of_succ_le_succ hle)
  givenUp ip iter count since hcall hget hgives hin := by
    subst hcall
    have hle := hcounts.notLowered ip iter rfl
    rw [countOf_of_inWindow hget hin] at hle
    calc count ≤ (s.fails.recordFailure now ip iter).2 := hle
      _ = (counted (s.fails.room now iter) (AuthSourceKey.fromIp ip) + 1) % 2 ^ 32 := rfl
      _ = (0 + 1) % 2 ^ 32 := congrArg (fun n => (n + 1) % 2 ^ 32) (counted_of_none hgives.get?_room)
      _ = 1 := rfl

end

end Throttle

/-- **The throttle counts within its window**: from the empty table, over any calls at moments that never go
back each of which meets the condition, every call does what it owes. -/
theorem countsInWindow (start : ℤ) (calls : List (ℤ × AuthCall)) (hord : InOrder start calls)
    (hkeeps : Meets Throttle.step Throttle.Keeps {} calls) : Meets Throttle.step Throttle.Counts {} calls := by
  have keeps : ∀ s t t' call, t ≤ t' → Throttle.Valid t s → s.Keeps t' call →
      Throttle.Valid t' (s.step t' call) := by
    intro s t t' call hle h hkeep
    exact (h.later hle).step call hkeep
  have gives : ∀ s t t' call, t ≤ t' → Throttle.Valid t s → s.Keeps t' call → s.Counts t' call := by
    intro s t t' call hle h hkeep
    exact (h.later hle).counts call hkeep
  exact meets_of_meets Throttle.step keeps gives calls {} start (Throttle.valid_empty start) hord hkeeps

/-- The entries as they come. -/
def inTurn : IterOrder := ⟨id, fun _ => List.Perm.refl _⟩

/-- A failure of one source at a moment in seconds. -/
def failureAt (seconds : ℤ) : ℤ × AuthCall := (seconds * 1000000000, .failure (.v4 0xc6336407#32) inTurn)

/-- Two failures in one window. -/
theorem countsInWindow_twice : Meets Throttle.step Throttle.Counts {} [failureAt 0, failureAt 50] := by
  refine countsInWindow 0 _ ⟨by decide, by decide, trivial⟩ ⟨⟨?_, ?_⟩, ⟨?_, ?_⟩, trivial⟩
  · intro ip iter count since _ hget
    cases hget
  · intro ip iter count since _ hget
    cases hget
  · intro ip iter count since _ hget _ _
    have hthere : ((Throttle.step {} 0 (failureAt 0).2).fails.map).get? (failureAt 50).2.key = some (1, 0) := by
      decide +kernel
    obtain ⟨rfl, rfl⟩ := Prod.mk.inj (Option.some.inj (hget.symm.trans hthere))
    exact ⟨by decide +kernel, by decide⟩
  · intro ip iter count since _ _ hgives
    exact absurd hgives.full (by decide +kernel)

/-- Failures 50 s apart: the third finds two others behind it, and only one of them is in its window. -/
theorem not_countsInWindow : ¬ ∀ (start : ℤ) (calls : List (ℤ × AuthCall)), InOrder start calls →
    Meets Throttle.step Throttle.Counts {} calls := by
  intro h
  have hthird := (h 0 [failureAt 0, failureAt 50, failureAt 100] ⟨by decide, by decide, by decide, trivial⟩).2.2.1
  have hle := hthird.atMost (.v4 0xc6336407#32) inTurn rfl
  exact absurd hle (by decide +kernel)

end Api
end SmartDns
