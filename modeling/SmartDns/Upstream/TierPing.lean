/-
# The tiers of the speed check

`dynamic_tier_ping` counts the pings of each address that went well and those that failed,
and settles as soon as one address has as many successes as any still can have. Here it is
run with counters that can leave their range (`raceLogicChecked`).

If every address is asked once the counters never do, and the address found is the one with
the least score when the race is settled: the first time that it is decided (`Decides`), or
at the deadline. If an address is asked twice, both its states stand in the list and all its
pings are counted in the first: its fourth failure is taken from three
(`wellDefined_iff_nodup`).

Key definitions: `stateOf`, `Decides`, `raceLogicChecked`, `WellDefined`.
Key theorem: `wellDefined_iff_nodup`.
-/
import SmartDns.Upstream.Ping

namespace SmartDns
namespace Upstream

open Dns

/-! ### Counters that can leave their range -/

namespace IpState

/-- A ping of the address is back. -/
def record (s : IpState) : Option ℕ → IpState
  | some latency => s.success latency
  | none => s.failure

/-- A counter or the sum of the latencies would overflow. -/
def recordFaults (s : IpState) : Option ℕ → Bool
  | some latency => s.successes = 255 || DURATION_MAX < s.sumLatency + latency
  | none => s.failures = 255

/-- The score would overflow, or take more than three from three. -/
def scoreFaults (s : IpState) : Bool :=
  DURATION_MAX < s.sumLatency / s.successes.toNat + s.minLatency || 3 < s.successes

end IpState

/-- Of an address that was not asked there is no state. -/
def updateStateChecked (dest : IpAddr) (result : Option ℕ) : List IpState → Option (List IpState)
  | [] => none
  | s :: states =>
    if s.dest = dest then if s.recordFaults result then none else some (s.record result :: states)
    else (updateStateChecked dest result states).map (s :: ·)

def winnerChecked (states : List IpState) : Option (Option IpAddr) :=
  if (states.filter fun s => 0 < s.successes).any IpState.scoreFaults then none else some (winner states)

/-- The winner where there has to be one. -/
def settleChecked (states : List IpState) : Option (Option IpAddr) :=
  (winnerChecked states).bind fun w => w.map some

/-- `raceLogic`, where what leaves its range ends it with none. -/
def raceLogicChecked (deadline : Bool) : List PingEvent → List IpState → UInt8 → Option (Option IpAddr)
  | [], states, _ => if deadline then winnerChecked states else some none
  | (dest, some latency) :: events, states, targetScore =>
    (updateStateChecked dest (some latency) states).bind fun states =>
      if (states.find? (·.dest = dest)).any (·.successes = targetScore) then settleChecked states
      else raceLogicChecked deadline events states targetScore
  | (dest, none) :: events, states, targetScore =>
    (updateStateChecked dest none states).bind fun states =>
      if states.any fun s => PINGS_PER_IP < s.failures then none
      else
        let newTarget := ((states.map fun s => PINGS_PER_IP - s.failures).max?).getD 0
        if newTarget < targetScore then
          if newTarget = 0 then some none
          else if states.any fun s => newTarget ≤ s.successes then settleChecked states
          else raceLogicChecked deadline events states newTarget
        else raceLogicChecked deadline events states targetScore

def dynamicTierPingChecked (ips : List IpAddr) (mode : SpeedCheckMode) (trace : PingTrace) : Option (Option IpAddr) :=
  if ips.isEmpty || mode.isNone then some none
  else raceLogicChecked trace.deadline trace.events (ips.map fun ip => { dest := ip }) PINGS_PER_IP

/-! ### What came back -/

section

variable (es : List PingEvent) (ip : IpAddr)

/-- The latencies of the address's pings that went well. -/
def latencies : List ℕ := es.filterMap fun e => if e.1 = ip then e.2 else none

def succeeded : ℕ := (latencies es ip).length

def failed : ℕ := es.countP fun e => e.1 = ip && e.2.isNone

/-- The state of the address behind these events. -/
def stateOf : IpState := es.foldl (fun s e => if e.1 = ip then s.record e.2 else s) { dest := ip }

/-- The mean of the average and the least latency, and 50 ms for each ping that is missing. -/
def tierScore : ℕ :=
  let ls := latencies es ip
  (ls.foldl (· + ·) 0 / ls.length + ls.foldl min DURATION_MAX) / 2 + fromMillis 50 * (PINGS_PER_IP.toNat - ls.length)

variable {es ip}

theorem latencies_concat (e : PingEvent) :
    latencies (es ++ [e]) ip = latencies es ip ++ if e.1 = ip then e.2.toList else [] := by
  unfold latencies
  rw [List.filterMap_append]
  by_cases h : e.1 = ip
  · cases he : e.2 <;> simp [h, he]
  · simp [h]

theorem succeeded_concat (e : PingEvent) :
    succeeded (es ++ [e]) ip = succeeded es ip + if e.1 = ip ∧ e.2.isSome then 1 else 0 := by
  unfold succeeded
  rw [latencies_concat, List.length_append]
  by_cases h : e.1 = ip
  · cases he : e.2 <;> simp [h]
  · simp [h]

theorem failed_concat (e : PingEvent) :
    failed (es ++ [e]) ip = failed es ip + if e.1 = ip ∧ e.2.isNone then 1 else 0 := by
  unfold failed
  rw [List.countP_append]
  by_cases h : e.1 = ip
  · cases he : e.2 <;> simp [h, he]
  · simp [h]

/-- Each ping that is back went well or failed. -/
theorem succeeded_add_failed : ∀ es : List PingEvent, succeeded es ip + failed es ip = (es.map (·.1)).count ip
  | [] => rfl
  | e :: es => by
    have ih : succeeded es ip + failed es ip = (es.map (·.1)).count ip := succeeded_add_failed es
    unfold succeeded latencies failed at *
    rw [List.map_cons, List.count_cons, List.countP_cons, List.filterMap_cons]
    by_cases h : e.1 = ip
    · cases he : e.2 <;> simp [h] <;> omega
    · simp [h]
      omega

theorem stateOf_concat (e : PingEvent) :
    stateOf (es ++ [e]) ip = if e.1 = ip then (stateOf es ip).record e.2 else stateOf es ip := by
  unfold stateOf
  rw [List.foldl_append]
  rfl

theorem IpState.dest_record (s : IpState) (result : Option ℕ) : (s.record result).dest = s.dest := by
  cases result <;> rfl

@[simp] theorem dest_stateOf : ∀ es : List PingEvent, (stateOf es ip).dest = ip := by
  intro es
  induction es using List.reverseRecOn with
  | nil => rfl
  | append_singleton es e ih =>
    rw [stateOf_concat]
    split
    · rw [IpState.dest_record, ih]
    · exact ih

theorem latencies_append (es es' : List PingEvent) : latencies (es ++ es') ip = latencies es ip ++ latencies es' ip :=
  List.filterMap_append

theorem succeeded_append (es es' : List PingEvent) :
    succeeded (es ++ es') ip = succeeded es ip + succeeded es' ip := by
  unfold succeeded
  rw [latencies_append, List.length_append]

theorem failed_append (es es' : List PingEvent) : failed (es ++ es') ip = failed es ip + failed es' ip :=
  List.countP_append

theorem mem_of_mem_latencies {l : ℕ} (h : l ∈ latencies es ip) : (ip, some l) ∈ es := by
  obtain ⟨e, he, hl⟩ := List.mem_filterMap.mp h
  split at hl
  · rename_i hip
    rw [← hip, ← hl]
    exact he
  · cases hl

end

/-- All that is back is in time: no address more than three times, no ping after the deadline of 600 ms. -/
structure InTime (es : List PingEvent) : Prop where
  count_le : ∀ ip, succeeded es ip + failed es ip ≤ PINGS_PER_IP.toNat
  latency_le : ∀ e ∈ es, ∀ l, e.2 = some l → l ≤ fromMillis 600

section

variable {es es' : List PingEvent} {ip : IpAddr}

theorem InTime.of_append (h : InTime (es ++ es')) : InTime es where
  count_le ip := by
    have hle := h.count_le ip
    rw [succeeded_append, failed_append] at hle
    omega
  latency_le e he := h.latency_le e (List.mem_append_left es' he)

theorem PINGS_PER_IP_toNat : PINGS_PER_IP.toNat = 3 := rfl

/-- The counters count. -/
theorem counts_stateOf (ip : IpAddr) (h : InTime es) :
    (stateOf es ip).successes.toNat = succeeded es ip ∧ (stateOf es ip).failures.toNat = failed es ip := by
  induction es using List.reverseRecOn with
  | nil => exact ⟨rfl, rfl⟩
  | append_singleton es e ih =>
    obtain ⟨hs, hf⟩ := ih h.of_append
    have hle := h.of_append.count_le ip
    rw [PINGS_PER_IP_toNat] at hle
    rw [stateOf_concat, succeeded_concat, failed_concat]
    by_cases hip : e.1 = ip
    · rw [if_pos hip]
      cases he : e.2 with
      | none =>
        simp only [IpState.record, IpState.failure, UInt8.toNat_add, hs, hf, hip]
        have hone : (1 : UInt8).toNat = 1 := rfl
        constructor
        · simp
        · simp [hone]
          omega
      | some l =>
        simp only [IpState.record, IpState.success, UInt8.toNat_add, hs, hf, hip]
        have hone : (1 : UInt8).toNat = 1 := rfl
        constructor
        · simp [hone]
          omega
        · simp
    · simp [hip, hs, hf]

theorem sums_stateOf (es : List PingEvent) (ip : IpAddr) : (stateOf es ip).sumLatency = (latencies es ip).foldl (· + ·) 0 ∧
    (stateOf es ip).minLatency = (latencies es ip).foldl min DURATION_MAX := by
  induction es using List.reverseRecOn with
  | nil => exact ⟨rfl, rfl⟩
  | append_singleton es e ih =>
    obtain ⟨hs, hm⟩ := ih
    rw [stateOf_concat, latencies_concat]
    by_cases hip : e.1 = ip
    · rw [if_pos hip, if_pos hip]
      cases he : e.2 with
      | none => simp [IpState.record, IpState.failure, hs, hm]
      | some l => simp [IpState.record, IpState.success, hs, hm]
    · rw [if_neg hip, if_neg hip]
      simp [hs, hm]

theorem foldl_add_le {b : ℕ} : ∀ (ls : List ℕ) (a : ℕ), (∀ l ∈ ls, l ≤ b) → ls.foldl (· + ·) a ≤ a + ls.length * b
  | [], a, _ => by simp
  | l :: ls, a, h => by
    have ih := foldl_add_le ls (a + l) fun x hx => h x (List.mem_cons_of_mem l hx)
    have hl := h l List.mem_cons_self
    rw [List.foldl_cons, List.length_cons, Nat.succ_mul]
    omega

theorem foldl_min_le : ∀ (ls : List ℕ) (a : ℕ), ls.foldl min a ≤ a ∧ ∀ l ∈ ls, ls.foldl min a ≤ l
  | [], a => ⟨Nat.le_refl a, by simp⟩
  | l :: ls, a => by
    obtain ⟨ha, hls⟩ := foldl_min_le ls (min a l)
    rw [List.foldl_cons]
    refine ⟨by omega, fun x hx => ?_⟩
    rcases List.mem_cons.mp hx with rfl | hx
    · omega
    · exact hls x hx

/-- What the counters of a state that is in time can be put to. -/
theorem score_stateOf (h : InTime es) (hpos : 0 < succeeded es ip) :
    (stateOf es ip).scoreFaults = false ∧ (stateOf es ip).score = tierScore es ip := by
  obtain ⟨hs, hf⟩ := counts_stateOf ip h
  obtain ⟨hsum, hmin⟩ := sums_stateOf es ip
  have hle := h.count_le ip
  rw [PINGS_PER_IP_toNat] at hle
  have hbound : ∀ l ∈ latencies es ip, l ≤ fromMillis 600 := fun l hl =>
    h.latency_le _ (mem_of_mem_latencies hl) l rfl
  have hsumle := foldl_add_le (latencies es ip) 0 hbound
  have havg : (latencies es ip).foldl (· + ·) 0 / succeeded es ip ≤ fromMillis 600 := by
    apply Nat.div_le_of_le_mul
    unfold succeeded
    omega
  have hminle : (latencies es ip).foldl min DURATION_MAX ≤ fromMillis 600 := by
    obtain ⟨l, hl⟩ := List.exists_mem_of_length_pos hpos
    exact Nat.le_trans ((foldl_min_le _ _).2 l hl) (hbound l hl)
  have hthree : (stateOf es ip).successes ≤ 3 := by
    rw [UInt8.le_iff_toNat_le, hs]
    show succeeded es ip ≤ 3
    omega
  constructor
  · unfold IpState.scoreFaults
    rw [hsum, hmin, hs]
    have hmax : ¬ DURATION_MAX < (latencies es ip).foldl (· + ·) 0 / succeeded es ip +
        (latencies es ip).foldl min DURATION_MAX := by
      have hconst : fromMillis 600 + fromMillis 600 ≤ DURATION_MAX := by decide
      omega
    simpa [hmax] using hthree
  · have hne : (stateOf es ip).successes ≠ 0 := by
      intro hzero
      rw [hzero] at hs
      have : succeeded es ip = 0 := hs.symm
      omega
    have hpenalty : (3 - (stateOf es ip).successes.toUInt32).toNat = 3 - succeeded es ip := by
      have hle32 : (stateOf es ip).successes.toUInt32 ≤ 3 := by
        rw [UInt32.le_iff_toNat_le, UInt8.toNat_toUInt32, hs]
        show succeeded es ip ≤ 3
        omega
      rw [UInt32.toNat_sub_of_le _ _ hle32, UInt8.toNat_toUInt32, hs]
      rfl
    unfold IpState.score tierScore
    rw [if_neg hne]
    simp only [hsum, hmin, hs, hpenalty]
    rfl

end

/-! ### The states of a list without repetition -/

section

variable {es : List PingEvent}

theorem updateStateChecked_of_mem {dest : IpAddr} {result : Option ℕ} (h : InTime (es ++ [(dest, result)])) :
    ∀ {ips : List IpAddr}, ips.Nodup → dest ∈ ips →
      updateStateChecked dest result (ips.map (stateOf es)) = some (ips.map (stateOf (es ++ [(dest, result)])))
  | [], _, hmem => by cases hmem
  | ip :: ips, hnodup, hmem => by
    obtain ⟨hnot, hnodup⟩ := List.nodup_cons.mp hnodup
    rw [List.map_cons, List.map_cons, updateStateChecked, dest_stateOf, stateOf_concat]
    by_cases hip : ip = dest
    · obtain ⟨hs, hf⟩ := counts_stateOf ip h.of_append
      have hle := h.of_append.count_le ip
      rw [PINGS_PER_IP_toNat] at hle
      have hfaults : (stateOf es ip).recordFaults result = false := by
        cases result with
        | none =>
          have hne : (stateOf es ip).failures ≠ 255 := by
            intro heq
            rw [heq] at hf
            have hval : (255 : UInt8).toNat = 255 := rfl
            omega
          simpa [IpState.recordFaults] using hne
        | some l =>
          have hne : (stateOf es ip).successes ≠ 255 := by
            intro heq
            rw [heq] at hs
            have hval : (255 : UInt8).toNat = 255 := rfl
            omega
          have hbound : ∀ l ∈ latencies es ip, l ≤ fromMillis 600 := fun l hl =>
            h.of_append.latency_le _ (mem_of_mem_latencies hl) l rfl
          have hl : l ≤ fromMillis 600 := h.latency_le _ (List.mem_append_right es List.mem_cons_self) l rfl
          have hsum := foldl_add_le (latencies es ip) 0 hbound
          have hlen : (latencies es ip).length ≤ 3 := by
            show succeeded es ip ≤ 3
            omega
          have hmul : (latencies es ip).length * fromMillis 600 ≤ 3 * fromMillis 600 := Nat.mul_le_mul_right _ hlen
          have hconst : 3 * fromMillis 600 + fromMillis 600 ≤ DURATION_MAX := by decide
          have hle : ¬ DURATION_MAX < (stateOf es ip).sumLatency + l := by
            rw [(sums_stateOf es ip).1]
            omega
          simpa [IpState.recordFaults, hle] using hne
      have hrest : ips.map (stateOf es) = ips.map (stateOf (es ++ [(dest, result)])) := by
        apply List.map_congr_left
        intro x hx
        rw [stateOf_concat, if_neg]
        rintro rfl
        exact hnot (hip ▸ hx)
      rw [if_pos hip, hfaults, if_pos hip.symm, hrest]
      rfl
    · have hmem : dest ∈ ips := (List.mem_cons.mp hmem).resolve_left fun heq => hip heq.symm
      rw [if_neg hip, if_neg fun heq => hip heq.symm, updateStateChecked_of_mem h hnodup hmem]
      rfl

theorem updateState_of_checked {dest : IpAddr} {result : Option ℕ} : ∀ {states states' : List IpState},
    updateStateChecked dest result states = some states' → updateState dest (·.record result) states = states'
  | [], _, h => by cases h
  | s :: states, states', h => by
    unfold updateStateChecked at h
    unfold updateState
    by_cases hs : s.dest = dest
    · rw [if_pos hs] at h ⊢
      split at h
      · cases h
      · exact Option.some.inj h
    · rw [if_neg hs] at h ⊢
      obtain ⟨rest, hrest, rfl⟩ := Option.map_eq_some_iff.mp h
      rw [updateState_of_checked hrest]

theorem find?_states {ips : List IpAddr} {dest : IpAddr} (h : dest ∈ ips) :
    (ips.map (stateOf es)).find? (·.dest = dest) = some (stateOf es dest) := by
  induction ips with
  | nil => cases h
  | cons ip ips ih =>
    rw [List.map_cons, List.find?_cons, dest_stateOf]
    by_cases hip : ip = dest
    · simp [hip]
    · simp only [hip, decide_false]
      exact ih ((List.mem_cons.mp h).resolve_left fun heq => hip heq.symm)

end

/-! ### When the race is decided -/

section

variable (ips : List IpAddr) (es : List PingEvent)

/-- The most successes that an address can still have. -/
def topScore : ℕ := ((ips.map fun ip => PINGS_PER_IP.toNat - failed es ip).max?).getD 0

/-- An address has as many successes as any still can have. -/
def Decides : Prop := ∃ ip ∈ ips, 0 < succeeded es ip ∧ ∀ ip' ∈ ips, PINGS_PER_IP.toNat - failed es ip' ≤ succeeded es ip

/-- The address has a success, and none that has one has a lesser score. -/
def Best (ip : IpAddr) : Prop :=
  0 < succeeded es ip ∧ ∀ ip', 0 < succeeded es ip' → tierScore es ip ≤ tierScore es ip'

variable {ips es}

theorem le_topScore (es : List PingEvent) {ip : IpAddr} (h : ip ∈ ips) : PINGS_PER_IP.toNat - failed es ip ≤ topScore ips es :=
  List.le_max?_getD_of_mem (List.mem_map_of_mem h)

theorem exists_topScore (es : List PingEvent) (h : ips ≠ []) : ∃ ip ∈ ips, topScore ips es = PINGS_PER_IP.toNat - failed es ip := by
  have hsome : ((ips.map fun ip => PINGS_PER_IP.toNat - failed es ip).max?).isSome := by
    simpa [List.isSome_max?_iff] using h
  obtain ⟨top, htop⟩ := Option.isSome_iff_exists.mp hsome
  obtain ⟨ip, hip, heq⟩ := List.mem_map.mp (List.max?_mem htop)
  refine ⟨ip, hip, ?_⟩
  unfold topScore
  rw [htop]
  exact heq.symm

theorem decides_of_le {ip : IpAddr} (hip : ip ∈ ips) (hpos : 0 < succeeded es ip)
    (h : topScore ips es ≤ succeeded es ip) : Decides ips es :=
  ⟨ip, hip, hpos, fun _ hip' => Nat.le_trans (le_topScore es hip') h⟩

theorem not_decides_of_lt (hne : ips ≠ []) (h : ∀ ip ∈ ips, succeeded es ip < topScore ips es) : ¬ Decides ips es := by
  rintro ⟨ip, hip, -, hall⟩
  obtain ⟨ip', hip', htop⟩ := exists_topScore es hne
  have hlt := h ip hip
  have hle := hall ip' hip'
  omega

theorem toNat_max (a b : UInt8) : (max a b).toNat = max a.toNat b.toNat := by
  by_cases h : a ≤ b
  · have hnat := UInt8.le_iff_toNat_le.mp h
    rw [show max a b = b from if_pos h]
    omega
  · have hnat : ¬ a.toNat ≤ b.toNat := fun hle => h (UInt8.le_iff_toNat_le.mpr hle)
    rw [show max a b = a from if_neg h]
    omega

theorem toNat_foldl_max : ∀ (us : List UInt8) (a : UInt8),
    (us.foldl max a).toNat = (us.map UInt8.toNat).foldl max a.toNat
  | [], _ => rfl
  | u :: us, a => by
    rw [List.foldl_cons, List.map_cons, List.foldl_cons, toNat_foldl_max us, toNat_max]

theorem toNat_max? (us : List UInt8) : (us.max?.getD 0).toNat = ((us.map UInt8.toNat).max?).getD 0 := by
  cases us with
  | nil => rfl
  | cons u us => exact toNat_foldl_max us u

/-- The target that the states come to. -/
theorem toNat_newTarget (ips : List IpAddr) (h : InTime es) :
    ((((ips.map (stateOf es)).map fun s => PINGS_PER_IP - s.failures).max?).getD 0).toNat = topScore ips es := by
  rw [toNat_max?, List.map_map, List.map_map]
  unfold topScore
  congr 2
  apply List.map_congr_left
  intro ip _
  obtain ⟨-, hf⟩ := counts_stateOf ip h
  have hle := h.count_le ip
  have hle8 : (stateOf es ip).failures ≤ PINGS_PER_IP := by
    rw [UInt8.le_iff_toNat_le, hf]
    omega
  simp only [Function.comp_apply]
  rw [UInt8.toNat_sub_of_le _ _ hle8, hf]

theorem failures_le (h : InTime es) : ((ips.map (stateOf es)).any fun s => PINGS_PER_IP < s.failures) = false := by
  rw [List.any_eq_false]
  intro s hs
  obtain ⟨ip, -, rfl⟩ := List.mem_map.mp hs
  obtain ⟨-, hf⟩ := counts_stateOf ip h
  have hle := h.count_le ip
  have hle8 : (stateOf es ip).failures ≤ PINGS_PER_IP := by
    rw [UInt8.le_iff_toNat_le, hf]
    omega
  simpa using hle8

theorem successes_pos_iff (h : InTime es) {ip : IpAddr} : 0 < (stateOf es ip).successes ↔ 0 < succeeded es ip := by
  rw [UInt8.lt_iff_toNat_lt, (counts_stateOf _ h).1]
  rfl

theorem winnerChecked_eq (h : InTime es) : winnerChecked (ips.map (stateOf es)) = some (winner (ips.map (stateOf es))) := by
  have hfaults : ((ips.map (stateOf es)).filter fun s => 0 < s.successes).any IpState.scoreFaults = false := by
    rw [List.any_eq_false]
    intro s hs
    obtain ⟨hmem, hpos⟩ := List.mem_filter.mp hs
    obtain ⟨ip, -, rfl⟩ := List.mem_map.mp hmem
    rw [(score_stateOf h ((successes_pos_iff h).mp (by simpa using hpos))).1]
    exact Bool.false_ne_true
  unfold winnerChecked
  rw [hfaults]
  rfl

/-- The winner is the best of those asked. -/
theorem best_of_winner (h : InTime es) {ip : IpAddr} (hips : ∀ ip, 0 < succeeded es ip → ip ∈ ips)
    (hw : winner (ips.map (stateOf es)) = some ip) : Best es ip := by
  obtain ⟨s, hs, rfl⟩ := Option.map_eq_some_iff.mp hw
  obtain ⟨hmem, hpos⟩ := List.mem_filter.mp (List.argmin_mem hs)
  obtain ⟨ip, hip, rfl⟩ := List.mem_map.mp hmem
  have hpos : 0 < succeeded es ip := (successes_pos_iff h).mp (by simpa using hpos)
  rw [dest_stateOf]
  refine ⟨hpos, fun ip' hpos' => ?_⟩
  rw [← (score_stateOf h hpos).2, ← (score_stateOf h hpos').2]
  apply List.le_of_mem_argmin _ hs
  apply List.mem_filter.mpr
  exact ⟨List.mem_map_of_mem (hips ip' hpos'), by simpa using (successes_pos_iff h).mpr hpos'⟩

theorem winner_isSome (h : InTime es) {ip : IpAddr} (hip : ip ∈ ips) (hpos : 0 < succeeded es ip) :
    ∃ ip', winner (ips.map (stateOf es)) = some ip' := by
  have hmem : stateOf es ip ∈ (ips.map (stateOf es)).filter fun s => 0 < s.successes :=
    List.mem_filter.mpr ⟨List.mem_map_of_mem hip, by simpa using (successes_pos_iff h).mpr hpos⟩
  unfold winner
  cases hmin : ((ips.map (stateOf es)).filter fun s => 0 < s.successes).argmin IpState.score with
  | some s => exact ⟨s.dest, rfl⟩
  | none =>
    rw [List.argmin_eq_none.mp hmin] at hmem
    cases hmem

end

/-! ### The race -/

/-- The pings of a trace: three for each address as often as it is asked, and all of them are back if it
was not the deadline that ended it. -/
structure PingTrace.Of (ips : List IpAddr) (t : PingTrace) : Prop where
  count_le : ∀ ip, (t.events.map (·.1)).count ip ≤ PINGS_PER_IP.toNat * ips.count ip
  deadline : t.deadline = false ↔ ∀ ip, (t.events.map (·.1)).count ip = PINGS_PER_IP.toNat * ips.count ip
  latency_le : ∀ e ∈ t.events, ∀ l, e.2 = some l → l ≤ fromMillis 600

/-- The events behind which the race was settled: the first that decide it, or all at the deadline. -/
structure Settled (ips : List IpAddr) (t : PingTrace) (done : List PingEvent) : Prop where
  back : done <+: t.events
  first : ∀ es, es <+: done → es ≠ done → ¬ Decides ips es
  decided : Decides ips done ∨ (t.deadline = true ∧ done = t.events)

/-- How a race ends. -/
def Ends (ips : List IpAddr) (t : PingTrace) : Option IpAddr → Prop
  | some ip => ∃ done, Settled ips t done ∧ Best done ip
  | none => ∀ e ∈ t.events, e.2 = none

/-- The race goes on behind `done`. -/
structure Running (ips : List IpAddr) (t : PingTrace) (done events : List PingEvent) (targetScore : UInt8) : Prop where
  back : done ++ events = t.events
  target : targetScore.toNat = topScore ips done
  lt_top : ∀ ip ∈ ips, succeeded done ip < topScore ips done
  undecided : ∀ es, es <+: done → ¬ Decides ips es

section

variable {ips : List IpAddr} {t : PingTrace} (hnodup : ips.Nodup) (ht : t.Of ips)

include hnodup ht

theorem PingTrace.Of.inTime : InTime t.events where
  count_le ip := by
    have hle := ht.count_le ip
    have hone := List.nodup_iff_count_le_one.mp hnodup ip
    rw [succeeded_add_failed]
    calc (t.events.map (·.1)).count ip ≤ PINGS_PER_IP.toNat * ips.count ip := hle
      _ ≤ PINGS_PER_IP.toNat * 1 := Nat.mul_le_mul_left _ hone
      _ = PINGS_PER_IP.toNat := Nat.mul_one _
  latency_le := ht.latency_le

omit hnodup in
theorem PingTrace.Of.mem {ip : IpAddr} (h : 0 < (t.events.map (·.1)).count ip) : ip ∈ ips := by
  have hle := ht.count_le ip
  by_contra hip
  rw [List.count_eq_zero.mpr hip] at hle
  omega

omit hnodup in
theorem PingTrace.Of.mem_of_event {e : PingEvent} (h : e ∈ t.events) : e.1 ∈ ips :=
  ht.mem (List.count_pos_iff.mpr (List.mem_map_of_mem h))

omit hnodup in
theorem PingTrace.Of.mem_of_succeeded {done : List PingEvent} (hdone : done <+: t.events) {ip : IpAddr}
    (h : 0 < succeeded done ip) : ip ∈ ips := by
  obtain ⟨l, hl⟩ := List.exists_mem_of_length_pos h
  exact ht.mem_of_event (hdone.subset (mem_of_mem_latencies hl))

theorem PingTrace.Of.inTime_of_back {done : List PingEvent} (hdone : done <+: t.events) : InTime done := by
  obtain ⟨rest, hrest⟩ := hdone
  have htime := ht.inTime hnodup
  rw [← hrest] at htime
  exact htime.of_append

/-- A race that is decided is settled with a winner. -/
theorem settle_of_decides {done : List PingEvent} (hdone : done <+: t.events)
    (hfirst : ∀ es, es <+: done → es ≠ done → ¬ Decides ips es) (hdec : Decides ips done) :
    settleChecked (ips.map (stateOf done)) = some (winner (ips.map (stateOf done))) ∧
      Ends ips t (winner (ips.map (stateOf done))) := by
  have htime := ht.inTime_of_back hnodup hdone
  obtain ⟨ip, hip, hpos, hall⟩ := hdec
  obtain ⟨ip', hw⟩ := winner_isSome htime hip hpos
  unfold settleChecked
  rw [winnerChecked_eq htime, hw]
  refine ⟨rfl, done, ⟨hdone, hfirst, .inl ⟨ip, hip, hpos, hall⟩⟩, ?_⟩
  exact best_of_winner htime (fun _ => ht.mem_of_succeeded hdone) hw

/-- At the end of the events the deadline has passed. -/
theorem race_end {done : List PingEvent} {targetScore : UInt8} (hne : ips ≠ [])
    (h : Running ips t done [] targetScore) :
    raceLogicChecked t.deadline [] (ips.map (stateOf done)) targetScore =
      some (raceLogic t.deadline [] (ips.map (stateOf done)) targetScore) ∧
    Ends ips t (raceLogic t.deadline [] (ips.map (stateOf done)) targetScore) := by
  have hall : done = t.events := by rw [← h.back, List.append_nil]
  have hdone : done <+: t.events := hall ▸ List.prefix_refl done
  have htime := ht.inTime_of_back hnodup hdone
  have hdeadline : t.deadline = true := by
    by_contra hfalse
    obtain ⟨ip, hip, htop⟩ := exists_topScore done hne
    have hcount := ht.deadline.mp (by simpa using hfalse) ip
    rw [List.count_eq_one_of_mem hnodup hip, ← hall, ← succeeded_add_failed, Nat.mul_one] at hcount
    have hlt := h.lt_top ip hip
    omega
  rw [raceLogicChecked, raceLogic, hdeadline, if_pos rfl, if_pos rfl, winnerChecked_eq htime]
  refine ⟨rfl, ?_⟩
  cases hw : winner (ips.map (stateOf done)) with
  | some ip =>
    exact ⟨done, ⟨hdone, fun es hes _ => h.undecided es hes, .inr ⟨hdeadline, hall⟩⟩,
      best_of_winner htime (fun _ => ht.mem_of_succeeded hdone) hw⟩
  | none =>
    intro e he
    cases hresult : e.2 with
    | none => rfl
    | some l =>
      have hmem : l ∈ latencies done e.1 := by
        rw [hall]
        exact List.mem_filterMap.mpr ⟨e, he, by rw [if_pos rfl, hresult]⟩
      obtain ⟨ip, hip⟩ := winner_isSome htime (ht.mem_of_event he) (List.length_pos_of_mem hmem)
      rw [hw] at hip
      cases hip

omit hnodup ht in
theorem topScore_success (done : List PingEvent) (dest : IpAddr) (latency : ℕ) :
    topScore ips (done ++ [(dest, some latency)]) = topScore ips done := by
  unfold topScore
  simp only [failed_concat, Option.isNone_some, Bool.false_eq_true, and_false, if_false, Nat.add_zero]

omit hnodup ht in
theorem topScore_concat_le (hne : ips ≠ []) (done : List PingEvent) (e : PingEvent) :
    topScore ips (done ++ [e]) ≤ topScore ips done := by
  obtain ⟨ip, hip, htop⟩ := exists_topScore (done ++ [e]) hne
  have hle := le_topScore done hip
  rw [htop, failed_concat]
  omega

omit hnodup ht in
/-- No shorter list of events than this one decides. -/
theorem Running.first {done events : List PingEvent} {targetScore : UInt8} {e : PingEvent}
    (h : Running ips t done events targetScore) (es : List PingEvent) (hes : es <+: done ++ [e])
    (hne : es ≠ done ++ [e]) : ¬ Decides ips es := by
  rcases List.prefix_concat_iff.mp hes with heq | hes
  · exact absurd heq hne
  · exact h.undecided es hes

omit hnodup ht in
/-- The race goes on if the event does not decide it. -/
theorem Running.step {done events : List PingEvent} {targetScore targetScore' : UInt8} {e : PingEvent} (hne : ips ≠ [])
    (h : Running ips t done (e :: events) targetScore) (htarget : targetScore'.toNat = topScore ips (done ++ [e]))
    (hlt : ∀ ip ∈ ips, succeeded (done ++ [e]) ip < topScore ips (done ++ [e])) :
    Running ips t (done ++ [e]) events targetScore' where
  back := by rw [List.append_assoc, List.singleton_append, h.back]
  target := htarget
  lt_top := hlt
  undecided es hes := by
    rcases List.prefix_concat_iff.mp hes with rfl | hes
    · exact not_decides_of_lt hne hlt
    · exact h.undecided es hes

omit hnodup ht in
theorem Running.back_concat {done events : List PingEvent} {targetScore : UInt8} {e : PingEvent}
    (h : Running ips t done (e :: events) targetScore) : done ++ [e] <+: t.events :=
  ⟨events, by rw [List.append_assoc, List.singleton_append, h.back]⟩

omit hnodup ht in
theorem Running.mem {done events : List PingEvent} {targetScore : UInt8} {e : PingEvent}
    (h : Running ips t done (e :: events) targetScore) : e ∈ t.events :=
  h.back_concat.subset (List.mem_append_right done List.mem_cons_self)

/-- A ping that went well decides the race if it makes its address reach the target. -/
theorem successes_eq_iff {done events : List PingEvent} {targetScore : UInt8} {dest : IpAddr} {latency : ℕ}
    (h : Running ips t done ((dest, some latency) :: events) targetScore) :
    (stateOf (done ++ [(dest, some latency)]) dest).successes = targetScore ↔
      topScore ips (done ++ [(dest, some latency)]) ≤ succeeded (done ++ [(dest, some latency)]) dest := by
  have htime := ht.inTime_of_back hnodup h.back_concat
  have hlt := h.lt_top dest (ht.mem_of_event h.mem)
  rw [← UInt8.toNat_inj, (counts_stateOf _ htime).1, h.target, topScore_success, succeeded_concat, if_pos ⟨rfl, rfl⟩]
  omega

/-- **The race with counters that can leave their range is the race**, and it ends as it is settled. -/
theorem race_spec (hne : ips ≠ []) : ∀ (events done : List PingEvent) (targetScore : UInt8),
    Running ips t done events targetScore →
    raceLogicChecked t.deadline events (ips.map (stateOf done)) targetScore =
      some (raceLogic t.deadline events (ips.map (stateOf done)) targetScore) ∧
    Ends ips t (raceLogic t.deadline events (ips.map (stateOf done)) targetScore)
  | [], done, targetScore, h => race_end hnodup ht hne h
  | (dest, some latency) :: events, done, targetScore, h => by
    have hback := h.back_concat
    have htime := ht.inTime_of_back hnodup hback
    have hdest : dest ∈ ips := ht.mem_of_event h.mem
    have hchecked := updateStateChecked_of_mem htime hnodup hdest
    have hupdate : updateState dest (·.success latency) (ips.map (stateOf done)) =
        ips.map (stateOf (done ++ [(dest, some latency)])) := updateState_of_checked hchecked
    rw [raceLogicChecked, raceLogic, hchecked]
    simp only [Option.bind_some, hupdate, find?_states hdest, Option.any_some, decide_eq_true_eq,
      successes_eq_iff hnodup ht h]
    by_cases htop : topScore ips (done ++ [(dest, some latency)]) ≤ succeeded (done ++ [(dest, some latency)]) dest
    · rw [if_pos htop, if_pos htop]
      have hpos : 0 < succeeded (done ++ [(dest, some latency)]) dest := by
        rw [succeeded_concat, if_pos ⟨rfl, rfl⟩]
        omega
      exact settle_of_decides hnodup ht hback h.first (decides_of_le hdest hpos htop)
    · rw [if_neg htop, if_neg htop]
      apply race_spec hne events
      apply h.step hne
      · rw [h.target, topScore_success]
      · intro ip hip
        by_cases heq : dest = ip
        · rw [← heq]
          omega
        · have hlt := h.lt_top ip hip
          rw [topScore_success, succeeded_concat, if_neg fun hboth => heq hboth.1]
          exact hlt
  | (dest, none) :: events, done, targetScore, h => by
    have hback := h.back_concat
    have htime := ht.inTime_of_back hnodup hback
    have hdest : dest ∈ ips := ht.mem_of_event h.mem
    have hchecked := updateStateChecked_of_mem htime hnodup hdest
    have hupdate : updateState dest (·.failure) (ips.map (stateOf done)) =
        ips.map (stateOf (done ++ [(dest, none)])) := updateState_of_checked hchecked
    have htarget := toNat_newTarget ips htime
    have hsame : ∀ ip, succeeded (done ++ [(dest, none)]) ip = succeeded done ip := by
      intro ip
      rw [succeeded_concat]
      simp
    rw [raceLogicChecked, raceLogic, hchecked]
    simp only [Option.bind_some, hupdate, failures_le htime, Bool.false_eq_true, if_false]
    generalize hnew : (((ips.map (stateOf (done ++ [(dest, none)]))).map
      fun s => PINGS_PER_IP - s.failures).max?).getD 0 = newTarget at htarget ⊢
    by_cases hlower : newTarget < targetScore
    · rw [if_pos hlower, if_pos hlower]
      by_cases hzero : newTarget = 0
      · rw [if_pos hzero, if_pos hzero]
        refine ⟨rfl, fun e he => ?_⟩
        -- Every address has failed as often as it was asked.
        have hall := ht.inTime hnodup
        have hle := le_topScore (done ++ [(dest, none)]) (ht.mem_of_event he)
        rw [← htarget, hzero] at hle
        have hcount := hall.count_le e.1
        obtain ⟨rest, hrest⟩ := hback
        rw [← hrest, succeeded_append, failed_append] at hcount
        cases hresult : e.2 with
        | none => rfl
        | some l =>
          have hmem : l ∈ latencies t.events e.1 := List.mem_filterMap.mpr ⟨e, he, by rw [if_pos rfl, hresult]⟩
          have hpos : 0 < succeeded t.events e.1 := List.length_pos_of_mem hmem
          rw [← hrest, succeeded_append] at hpos
          have hzero8 : (0 : UInt8).toNat = 0 := rfl
          omega
      · rw [if_neg hzero, if_neg hzero]
        by_cases hany : ((ips.map (stateOf (done ++ [(dest, none)]))).any fun s => newTarget ≤ s.successes) = true
        · rw [if_pos hany, if_pos hany]
          obtain ⟨s, hs, hle⟩ := List.any_eq_true.mp hany
          obtain ⟨ip, hip, rfl⟩ := List.mem_map.mp hs
          have hle : newTarget.toNat ≤ succeeded (done ++ [(dest, none)]) ip := by
            rw [← (counts_stateOf _ htime).1]
            exact UInt8.le_iff_toNat_le.mp (by simpa using hle)
          have hne0 : newTarget.toNat ≠ 0 := fun h0 => hzero (UInt8.toNat_inj.mp h0)
          apply settle_of_decides hnodup ht hback h.first
          exact decides_of_le hip (by omega) (by omega)
        · rw [if_neg hany, if_neg hany]
          apply race_spec hne events
          apply h.step hne htarget
          intro ip hip
          by_contra hge
          apply hany
          apply List.any_eq_true.mpr
          refine ⟨_, List.mem_map_of_mem hip, ?_⟩
          have hle : newTarget ≤ (stateOf (done ++ [(dest, none)]) ip).successes := by
            rw [UInt8.le_iff_toNat_le, (counts_stateOf _ htime).1]
            omega
          simpa using hle
    · rw [if_neg hlower, if_neg hlower]
      have hle := topScore_concat_le hne done (dest, none)
      have hge : targetScore.toNat ≤ newTarget.toNat := by
        rw [UInt8.lt_iff_toNat_lt] at hlower
        omega
      have htop : topScore ips (done ++ [(dest, none)]) = topScore ips done := by
        have heq := h.target
        omega
      apply race_spec hne events
      apply h.step hne
      · rw [h.target, htop]
      · intro ip hip
        rw [hsame, htop]
        exact h.lt_top ip hip

end

/-! ### An address that is asked twice -/

section

variable {dest : IpAddr} {before after : List IpState}

theorem updateStateChecked_first (hbefore : ∀ s ∈ before, s.dest ≠ dest) {s : IpState} (hs : s.dest = dest)
    (hfaults : s.recordFaults none = false) :
    updateStateChecked dest none (before ++ s :: after) = some (before ++ s.failure :: after) := by
  induction before with
  | nil =>
    rw [List.nil_append, updateStateChecked, if_pos hs, hfaults]
    rfl
  | cons b before ih =>
    have hne := hbefore b List.mem_cons_self
    rw [List.cons_append, updateStateChecked, if_neg hne, ih fun x hx => hbefore x (List.mem_cons_of_mem b hx)]
    rfl

/-- As long as the first state has failures left, the second one keeps the target up. -/
theorem raceLogicChecked_fails (hbefore : ∀ s ∈ before, s.dest ≠ dest) (hzero : ∀ s ∈ before ++ after, s.failures = 0)
    {kept : IpState} (hkept : kept ∈ after) {s : IpState} (hs : s.dest = dest) (hlt : s.failures < PINGS_PER_IP)
    (deadline : Bool) (events : List PingEvent) :
    raceLogicChecked deadline ((dest, none) :: events) (before ++ s :: after) PINGS_PER_IP =
      raceLogicChecked deadline events (before ++ s.failure :: after) PINGS_PER_IP := by
  have hlt3 : s.failures.toNat < 3 := UInt8.lt_iff_toNat_lt.mp hlt
  have hfaults : s.recordFaults none = false := by
    have hne : s.failures ≠ 255 := by
      intro heq
      rw [heq] at hlt3
      exact absurd hlt3 (by decide)
    simpa [IpState.recordFaults] using hne
  have hnext : s.failure.failures.toNat = s.failures.toNat + 1 := by
    show (s.failures + 1).toNat = _
    rw [UInt8.toNat_add]
    have hone : (1 : UInt8).toNat = 1 := rfl
    omega
  have hany : ((before ++ s.failure :: after).any fun s => PINGS_PER_IP < s.failures) = false := by
    rw [List.any_eq_false]
    intro x hx
    have hle : x.failures ≤ PINGS_PER_IP := by
      rw [UInt8.le_iff_toNat_le, PINGS_PER_IP_toNat]
      rcases List.mem_append.mp hx with hx | hx
      · rw [hzero x (List.mem_append_left _ hx)]
        decide
      · rcases List.mem_cons.mp hx with rfl | hx
        · omega
        · rw [hzero x (List.mem_append_right _ hx)]
          decide
    simpa using hle
  have htarget : ¬ (((before ++ s.failure :: after).map fun s => PINGS_PER_IP - s.failures).max?).getD 0 < PINGS_PER_IP := by
    rw [UInt8.lt_iff_toNat_lt, toNat_max?]
    have hmem : 3 ∈ ((before ++ s.failure :: after).map fun s => PINGS_PER_IP - s.failures).map UInt8.toNat := by
      rw [List.map_map]
      apply List.mem_map.mpr
      refine ⟨kept, List.mem_append_right _ (List.mem_cons_of_mem _ hkept), ?_⟩
      simp only [Function.comp_apply, hzero kept (List.mem_append_right _ hkept)]
      rfl
    have hle := List.le_max?_getD_of_mem (k := 0) hmem
    rw [PINGS_PER_IP_toNat]
    omega
  rw [raceLogicChecked, updateStateChecked_first hbefore hs hfaults]
  simp only [Option.bind_some, hany, Bool.false_eq_true, if_false, if_neg htarget]

/-- The fourth failure is one too many. -/
theorem raceLogicChecked_faults {a : List IpState} (hbefore : ∀ s ∈ before, s.dest ≠ dest) {s : IpState}
    (hs : s.dest = dest) (heq : s.failures = PINGS_PER_IP) (deadline : Bool) (events : List PingEvent) :
    raceLogicChecked deadline ((dest, none) :: events) (before ++ s :: a) PINGS_PER_IP = none := by
  have hfaults : s.recordFaults none = false := by
    unfold IpState.recordFaults
    rw [heq]
    rfl
  have hany : ((before ++ s.failure :: a).any fun s => PINGS_PER_IP < s.failures) = true := by
    apply List.any_eq_true.mpr
    refine ⟨s.failure, List.mem_append_right _ List.mem_cons_self, ?_⟩
    show decide (PINGS_PER_IP < s.failures + 1) = true
    rw [heq]
    rfl
  rw [raceLogicChecked, updateStateChecked_first hbefore hs hfaults]
  simp only [Option.bind_some, hany, if_true]

end

/-- The address fails four times until the deadline. -/
def failsFour (ip : IpAddr) : PingTrace := { events := List.replicate 4 (ip, none), deadline := true }

theorem failsFour_of {ips : List IpAddr} {ip : IpAddr} (h : 2 ≤ ips.count ip) : (failsFour ip).Of ips where
  count_le ip' := by
    have hcount : ((failsFour ip).events.map (·.1)).count ip' = if ip = ip' then 4 else 0 := by
      by_cases heq : ip = ip' <;> simp [failsFour, heq]
    rw [hcount, PINGS_PER_IP_toNat]
    by_cases heq : ip = ip'
    · rw [if_pos heq, ← heq]
      omega
    · rw [if_neg heq]
      omega
  deadline := by
    constructor
    · intro hfalse
      cases hfalse
    · intro hall
      have hcount := hall ip
      simp only [failsFour, List.map_replicate, List.count_replicate_self, PINGS_PER_IP_toNat] at hcount
      omega
  latency_le e he l hl := by
    rw [List.eq_of_mem_replicate he] at hl
    cases hl

theorem race_of_duplicate {ips : List IpAddr} {ip : IpAddr} (h : 2 ≤ ips.count ip) (mode : SpeedCheckMode)
    (hmode : mode.isNone = false) : dynamicTierPingChecked ips mode (failsFour ip) = none := by
  have hmem : ip ∈ ips := List.count_pos_iff.mp (by omega)
  obtain ⟨before, after, rfl, hbefore⟩ := List.eq_append_cons_of_mem hmem
  have hafter : ip ∈ after := by
    rw [List.count_append, List.count_cons_self, List.count_eq_zero.mpr hbefore] at h
    exact List.count_pos_iff.mp (by omega)
  have hnot : ∀ s ∈ before.map fun ip => ({ dest := ip } : IpState), s.dest ≠ ip := by
    intro s hs heq
    obtain ⟨x, hx, rfl⟩ := List.mem_map.mp hs
    exact hbefore (heq ▸ hx)
  have hzero : ∀ s ∈ (before.map fun ip => ({ dest := ip } : IpState)) ++ after.map fun ip => { dest := ip },
      s.failures = 0 := by
    intro s hs
    rw [← List.map_append] at hs
    obtain ⟨x, -, rfl⟩ := List.mem_map.mp hs
    rfl
  have hkept : ({ dest := ip } : IpState) ∈ after.map fun ip => ({ dest := ip } : IpState) := List.mem_map_of_mem hafter
  have h0 : (0 : UInt8) < PINGS_PER_IP := by decide
  have h1 : (0 + 1 : UInt8) < PINGS_PER_IP := by decide
  have h2 : (0 + 1 + 1 : UInt8) < PINGS_PER_IP := by decide
  have h3 : (0 + 1 + 1 + 1 : UInt8) = PINGS_PER_IP := by decide
  have first := raceLogicChecked_fails hnot hzero hkept (s := { dest := ip }) rfl h0 true (List.replicate 3 (ip, none))
  have second := raceLogicChecked_fails hnot hzero hkept (s := IpState.failure { dest := ip }) rfl h1 true
    (List.replicate 2 (ip, none))
  have third := raceLogicChecked_fails hnot hzero hkept (s := (IpState.failure { dest := ip }).failure) rfl h2 true
    (List.replicate 1 (ip, none))
  have fourth (rest : List IpState) := raceLogicChecked_faults (a := rest) hnot
    (s := ((IpState.failure { dest := ip }).failure).failure) rfl h3 true []
  have hempty : ¬ ((before ++ ip :: after).isEmpty || mode.isNone) = true := by simp [hmode]
  unfold dynamicTierPingChecked
  rw [if_neg hempty, List.map_append, List.map_cons]
  exact first.trans (second.trans (third.trans (fourth _)))

/-! ### The speed check of one mode -/

/-- `to_ping_addrs`: the mode `none` pings nothing. -/
def SpeedCheckMode.toPingAddrs (mode : SpeedCheckMode) (ips : List IpAddr) : List IpAddr :=
  if mode.isNone then [] else ips

/-- No counter leaves its range, an address is found if and only if a ping went well, and it is the best
when the race is settled. -/
structure WellDefined (ips : List IpAddr) (mode : SpeedCheckMode) (t : PingTrace) : Prop where
  inRange : dynamicTierPingChecked ips mode t = some (dynamicTierPing ips mode t)
  found_iff : (dynamicTierPing ips mode t).isSome = true ↔ ∃ e ∈ t.events, e.2.isSome = true
  best : ∀ ip, dynamicTierPing ips mode t = some ip → ∃ done, Settled (mode.toPingAddrs ips) t done ∧ Best done ip

theorem wellDefined_of_nodup {ips : List IpAddr} {mode : SpeedCheckMode} (hnodup : (mode.toPingAddrs ips).Nodup)
    (t : PingTrace) (ht : t.Of (mode.toPingAddrs ips)) : WellDefined ips mode t := by
  by_cases hnone : mode.toPingAddrs ips = []
  · have hempty : (ips.isEmpty || mode.isNone) = true := by
      unfold SpeedCheckMode.toPingAddrs at hnone
      cases hmode : mode.isNone with
      | true => simp
      | false =>
        rw [hmode] at hnone
        simpa using hnone
    have hno : ∀ e, e ∉ t.events := by
      intro e he
      have hmem := ht.mem_of_event he
      rw [hnone] at hmem
      cases hmem
    have hresult : dynamicTierPing ips mode t = none := if_pos hempty
    have hchecked : dynamicTierPingChecked ips mode t = some none := if_pos hempty
    refine ⟨by rw [hchecked, hresult], ?_, fun ip hip => ?_⟩
    · rw [hresult]
      constructor
      · intro h
        cases h
      · rintro ⟨e, he, -⟩
        exact absurd he (hno e)
    · rw [hresult] at hip
      cases hip
  · have hdests : mode.toPingAddrs ips = ips := by
      unfold SpeedCheckMode.toPingAddrs at hnone ⊢
      split at hnone
      · exact absurd rfl hnone
      · rename_i hmode
        rw [if_neg hmode]
    have hempty : ¬ (ips.isEmpty || mode.isNone) = true := by
      unfold SpeedCheckMode.toPingAddrs at hnone
      cases hmode : mode.isNone with
      | true => simp [hmode] at hnone
      | false => simpa [hmode] using hnone
    rw [hdests] at ht hnone hnodup
    have hstart : Running ips t [] t.events PINGS_PER_IP := by
      obtain ⟨ip, hip, htop⟩ := exists_topScore [] hnone
      have htop : topScore ips [] = 3 := htop
      refine ⟨rfl, htop.symm, fun ip _ => ?_, fun es hes => ?_⟩
      · rw [htop]
        exact Nat.zero_lt_succ 2
      · rw [List.prefix_nil.mp hes]
        rintro ⟨ip, -, hpos, -⟩
        exact absurd hpos (Nat.lt_irrefl 0)
    obtain ⟨hchecked, hends⟩ := race_spec hnodup ht hnone t.events [] PINGS_PER_IP hstart
    have hresult : dynamicTierPing ips mode t = raceLogic t.deadline t.events (ips.map (stateOf [])) PINGS_PER_IP :=
      if_neg hempty
    have hresultChecked : dynamicTierPingChecked ips mode t =
        raceLogicChecked t.deadline t.events (ips.map (stateOf [])) PINGS_PER_IP := if_neg hempty
    rw [← hresult] at hchecked hends
    refine ⟨hresultChecked.trans hchecked, ?_, fun ip hip => ?_⟩
    · cases hip : dynamicTierPing ips mode t with
      | none =>
        rw [hip] at hends
        constructor
        · intro h
          cases h
        · rintro ⟨e, he, hsome⟩
          rw [hends e he] at hsome
          cases hsome
      | some ip =>
        rw [hip] at hends
        obtain ⟨done, hsettled, hpos, -⟩ := hends
        obtain ⟨l, hl⟩ := List.exists_mem_of_length_pos hpos
        exact ⟨fun _ => ⟨_, hsettled.back.subset (mem_of_mem_latencies hl), rfl⟩, fun _ => rfl⟩
    · rw [hip] at hends
      rw [hdests]
      exact hends

/-- **The speed check of a mode is well defined for every order and outcome of the pings exactly if no
address is pinged twice.** -/
theorem wellDefined_iff_nodup (ips : List IpAddr) (mode : SpeedCheckMode) :
    (∀ t : PingTrace, t.Of (mode.toPingAddrs ips) → WellDefined ips mode t) ↔ (mode.toPingAddrs ips).Nodup := by
  constructor
  · intro hall
    by_contra hdup
    have hmode : mode.isNone = false := by
      by_contra hnone
      apply hdup
      rw [SpeedCheckMode.toPingAddrs, if_pos (by simpa using hnone)]
      exact List.nodup_nil
    have hdests : mode.toPingAddrs ips = ips := if_neg (by rw [hmode]; exact Bool.false_ne_true)
    rw [hdests, List.nodup_iff_count_le_one] at hdup
    push Not at hdup
    obtain ⟨ip, hcount⟩ := hdup
    have hwell := hall (failsFour ip) (by rw [hdests]; exact failsFour_of hcount)
    have hrange := hwell.inRange
    rw [race_of_duplicate hcount mode hmode] at hrange
    cases hrange
  · exact wellDefined_of_nodup

/-- `192.0.2.1`, answered twice: its fourth failure is taken from three. -/
theorem duplicate_underflows : ¬ ∀ (ips : List IpAddr) (mode : SpeedCheckMode) (t : PingTrace),
    t.Of (mode.toPingAddrs ips) → WellDefined ips mode t := by
  intro h
  have hwell := h [.v4 0xc0000201#32, .v4 0xc0000201#32] .Ping (failsFour (.v4 0xc0000201#32))
    (failsFour_of (by decide))
  have hrange := hwell.inRange
  rw [show dynamicTierPingChecked _ _ _ = none by decide +kernel] at hrange
  cases hrange

end Upstream
end SmartDns
