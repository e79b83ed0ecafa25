/-
# The speed check

`multi_mode_ping_fastest` tries the modes of the speed check one after the other; for
each, `dynamic_tier_ping` pings every address three times at once and settles when one
address has as many successes as any still can have, or when its time is up. Whatever
comes back in whatever order, the winner is one of the addresses that were asked
(`mem_of_multiModePingFastest`).

Key definitions: `raceLogic`, `dynamicTierPing`, `multiModePingFastest`.
Key theorem: `mem_of_multiModePingFastest`.
-/
import Mathlib.Data.List.MinMax
import SmartDns.Upstream.Options

namespace SmartDns
namespace Upstream

open Dns

def fromMillis (millis : ℕ) : ℕ := millis * 1000000

/-- `Duration::MAX`, in nanoseconds. -/
def DURATION_MAX : ℕ := 2 ^ 64 * 1000000000 - 1

def PINGS_PER_IP : UInt8 := 3

structure IpState where
  dest : IpAddr
  successes : UInt8 := 0
  failures : UInt8 := 0
  sumLatency : ℕ := 0
  minLatency : ℕ := DURATION_MAX

namespace IpState

/-- The mean of the average and the least latency, and 50 ms for each ping that is not back. -/
def score (s : IpState) : ℕ :=
  if s.successes = 0 then fromMillis 60000
  else
    let avg := s.sumLatency / s.successes.toNat
    (avg + s.minLatency) / 2 + fromMillis 50 * (3 - s.successes.toUInt32).toNat

def success (s : IpState) (latency : ℕ) : IpState :=
  { s with
    successes := s.successes + 1
    sumLatency := s.sumLatency + latency
    minLatency := min s.minLatency latency }

def failure (s : IpState) : IpState := { s with failures := s.failures + 1 }

end IpState

/-- The first state of an address is updated. -/
def updateState (dest : IpAddr) (f : IpState → IpState) : List IpState → List IpState
  | [] => []
  | s :: states => if s.dest = dest then f s :: states else s :: updateState dest f states

def winner (states : List IpState) : Option IpAddr :=
  ((states.filter fun s => 0 < s.successes).argmin IpState.score).map (·.dest)

/-- A ping that is back: whose, and its latency if it went well. -/
abbrev PingEvent : Type := IpAddr × Option ℕ

/-- The pings in the order they come back, and whether the deadline of 600 ms ends them. -/
structure PingTrace where
  events : List PingEvent
  deadline : Bool

def raceLogic (deadline : Bool) : List PingEvent → List IpState → UInt8 → Option IpAddr
  | [], states, _ => if deadline then winner states else none
  | (dest, some latency) :: events, states, targetScore =>
    let states := updateState dest (·.success latency) states
    if (states.find? (·.dest = dest)).any (·.successes = targetScore) then winner states
    else raceLogic deadline events states targetScore
  | (dest, none) :: events, states, targetScore =>
    let states := updateState dest (·.failure) states
    let newTarget := ((states.map fun s => PINGS_PER_IP - s.failures).max?).getD 0
    if newTarget < targetScore then
      if newTarget = 0 then none
      else if states.any fun s => newTarget ≤ s.successes then winner states
      else raceLogic deadline events states newTarget
    else raceLogic deadline events states targetScore

def dynamicTierPing (ips : List IpAddr) (mode : SpeedCheckMode) (trace : PingTrace) : Option IpAddr :=
  if ips.isEmpty || mode.isNone then none
  else raceLogic trace.deadline trace.events (ips.map fun ip => { dest := ip }) PINGS_PER_IP

/-- `traces` has what the pings of the first, second, … mode come to. -/
def multiModePingFastest (ips : List IpAddr) : List SpeedCheckMode → (ℕ → PingTrace) → Option IpAddr
  | [], _ => none
  | mode :: modes, traces =>
    match dynamicTierPing ips mode (traces 0) with
    | some ip => some ip
    | none => multiModePingFastest ips modes fun i => traces (i + 1)

/-! ### The winner was asked -/

theorem map_dest_updateState (dest : IpAddr) {f : IpState → IpState} (hf : ∀ s, (f s).dest = s.dest) :
    ∀ states : List IpState, (updateState dest f states).map (·.dest) = states.map (·.dest)
  | [] => rfl
  | s :: states => by
    rw [updateState]
    by_cases h : s.dest = dest
    · rw [if_pos h, List.map_cons, List.map_cons, hf]
    · rw [if_neg h, List.map_cons, List.map_cons, map_dest_updateState dest hf states]

theorem mem_of_winner {states : List IpState} {ip : IpAddr} (h : winner states = some ip) :
    ip ∈ states.map (·.dest) := by
  obtain ⟨s, hs, rfl⟩ := Option.map_eq_some_iff.mp h
  exact List.mem_map_of_mem (List.mem_filter.mp (List.argmin_mem hs)).1

/-- Every ping that comes back leaves the addresses asked as they were. -/
theorem mem_of_raceLogic {deadline : Bool} {ip : IpAddr} : ∀ {events : List PingEvent} {states : List IpState}
    {targetScore : UInt8}, raceLogic deadline events states targetScore = some ip → ip ∈ states.map (·.dest)
  | [], states, _, h => by
    cases deadline with
    | false => cases h
    | true => exact mem_of_winner h
  | (dest, some latency) :: events, states, targetScore, h => by
    have hdest := map_dest_updateState dest (f := (·.success latency)) (fun _ => rfl) states
    rw [← hdest]
    simp only [raceLogic] at h
    split at h
    · exact mem_of_winner h
    · exact mem_of_raceLogic h
  | (dest, none) :: events, states, targetScore, h => by
    have hdest := map_dest_updateState dest (f := (·.failure)) (fun _ => rfl) states
    rw [← hdest]
    simp only [raceLogic] at h
    split at h
    · split at h
      · cases h
      · split at h
        · exact mem_of_winner h
        · exact mem_of_raceLogic h
    · exact mem_of_raceLogic h

theorem mem_of_dynamicTierPing {ips : List IpAddr} {mode : SpeedCheckMode} {trace : PingTrace} {ip : IpAddr}
    (h : dynamicTierPing ips mode trace = some ip) : ip ∈ ips := by
  unfold dynamicTierPing at h
  split at h
  · cases h
  · have hmem := mem_of_raceLogic h
    simpa [Function.comp_def] using hmem

/-- **The speed check finds an address that it was given.** -/
theorem mem_of_multiModePingFastest {ips : List IpAddr} {ip : IpAddr} : ∀ {modes : List SpeedCheckMode}
    {traces : ℕ → PingTrace}, multiModePingFastest ips modes traces = some ip → ip ∈ ips
  | [], _, h => by cases h
  | mode :: modes, traces, h => by
    unfold multiModePingFastest at h
    split at h
    · rename_i ip' hip
      obtain rfl := Option.some.inj h
      exact mem_of_dynamicTierPing hip
    · exact mem_of_multiModePingFastest h

end Upstream
end SmartDns
