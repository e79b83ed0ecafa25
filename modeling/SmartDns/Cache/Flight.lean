/-
# One lookup for all who ask at once

Behind the cache, requests for equal keys share one lookup (`InflightMap`). The
request that finds no channel leads: it runs the rest of the chain, and whatever comes
of that (an answer, an error, or its cancellation, where its `InflightCacheGuard` is
dropped before it is done) it takes the channel out of the map and sends the outcome.
This is single flight over cache keys; the guarantees are the library's.

Key definitions: `CacheFlight`, `InflightCacheGuard.drop`, `FlightStep`.
Key theorem: `single_flight`.
-/
import SmartDns.Lib.SingleFlight
import SmartDns.Cache.Ttl
import SmartDns.Dns.Error

namespace SmartDns
namespace Cache

open Dns Lib

/-- The map of lookups under way, and the requests. -/
abbrev CacheFlight : Type := SingleFlight CacheKey LookupResult

def noConnections : LookupResult := .error (.proto .noConnections)

structure InflightCacheGuard where
  key : CacheKey
  done : Bool := false

def InflightCacheGuard.drop (g : InflightCacheGuard) (s : CacheFlight) : CacheFlight :=
  if g.done then s else s.broadcast g.key noConnections

/-- A leader whose lookup came to `res`: it sends it, and its guard is done when it is dropped. -/
def leaderDone (s : CacheFlight) (key : CacheKey) (res : LookupResult) : CacheFlight :=
  let guard : InflightCacheGuard := { key }
  let s := s.broadcast key res
  { guard with done := true }.drop s

/-- What the requests do, in any order. -/
inductive FlightStep (s : CacheFlight) : CacheFlight → Prop
  /-- A request comes to the map with its key. -/
  | handle (r : ℕ) (key : CacheKey) (fresh : s.phase r = .absent) : FlightStep s (s.join r key)
  | leaderDone (r : ℕ) (key : CacheKey) (res : LookupResult) (leads : s.phase r = .leading key) :
      FlightStep s ((leaderDone s key res).setPhase r (.ended key (some res)))
  /-- A leader is cancelled while its lookup is under way. -/
  | leaderDropped (r : ℕ) (key : CacheKey) (leads : s.phase r = .leading key) :
      FlightStep s (({ key : InflightCacheGuard }.drop s).setPhase r (.ended key none))
  | recv (r : ℕ) (key : CacheKey) (l : ℕ) (o : LookupResult) (waits : s.phase r = .waiting key l)
      (here : s.recv noConnections l = some o) : FlightStep s (s.setPhase r (.received key l o))
  | waiterDropped (r : ℕ) (key : CacheKey) (l : ℕ) (waits : s.phase r = .waiting key l) :
      FlightStep s (s.setPhase r .left)

/-- The steps are those of single flight. -/
theorem FlightStep.step {s s' : CacheFlight} (h : FlightStep s s') : SingleFlight.Step noConnections s s' := by
  cases h with
  | handle r key fresh => exact .join r key fresh
  | leaderDone r key res leads => exact .finish r key res leads
  | leaderDropped r key leads => exact .drop r key leads
  | recv r key l o waits here => exact .receive r key l o waits here
  | waiterDropped r key l waits => exact .leave r key l waits

theorem inv_of_flight {s : CacheFlight} (h : Relation.ReflTransGen FlightStep SingleFlight.start s) :
    SingleFlight.Inv noConnections s :=
  SingleFlight.inv_reachable (Relation.ReflTransGen.mono (fun _ _ hs => FlightStep.step hs) _ _ h)

/-- **Single flight in the cache middleware**: one leader for a key; a waiter gets its leader's
outcome; no waiter is forgotten; every channel in the map has a live leader. -/
theorem single_flight (s : CacheFlight) (h : Relation.ReflTransGen FlightStep SingleFlight.start s) :
    (∀ r₁ r₂ k₁ k₂, s.phase r₁ = .leading k₁ → s.phase r₂ = .leading k₂ → (k₁ == k₂) = true → r₁ = r₂) ∧
    (∀ r key l o, s.phase r = .received key l o →
      ∃ k e, (k == key) = true ∧ s.phase l = .ended k e ∧ o = e.getD noConnections) ∧
    (∀ r key l, s.phase r = .waiting key l → ∃ k, (k == key) = true ∧
      (s.phase l = .leading k ∧ s.inflight.get? k = some l ∨
        ∃ e, s.phase l = .ended k e ∧ s.recv noConnections l = some (e.getD noConnections))) ∧
    (∀ key l, s.inflight.get? key = some l → ∃ k, s.phase l = .leading k ∧ (k == key) = true) := by
  have hinv := inv_of_flight h
  refine ⟨fun r₁ r₂ k₁ k₂ h₁ h₂ hk => hinv.single h₁ h₂ hk, fun r key l o hr => hinv.received hr,
    fun r key l hr => hinv.waiter_served hr, hinv.led⟩

/-- A request leads for the root, a second waits for it, the first is cancelled, the second hears of it. -/
def cancelledLeader : CacheFlight :=
  (({ key := rootKey : InflightCacheGuard }.drop ((SingleFlight.start.join 0 rootKey).join 1 rootKey)).setPhase 0
    (.ended rootKey none)).setPhase 1 (.received rootKey 0 noConnections)

theorem single_flight_cancelledLeader :
    (∀ r₁ r₂ k₁ k₂, cancelledLeader.phase r₁ = .leading k₁ → cancelledLeader.phase r₂ = .leading k₂ →
      (k₁ == k₂) = true → r₁ = r₂) ∧
    (∀ r key l o, cancelledLeader.phase r = .received key l o →
      ∃ k e, (k == key) = true ∧ cancelledLeader.phase l = .ended k e ∧ o = e.getD noConnections) ∧
    (∀ r key l, cancelledLeader.phase r = .waiting key l → ∃ k, (k == key) = true ∧
      (cancelledLeader.phase l = .leading k ∧ cancelledLeader.inflight.get? k = some l ∨
        ∃ e, cancelledLeader.phase l = .ended k e ∧
          cancelledLeader.recv noConnections l = some (e.getD noConnections))) ∧
    (∀ key l, cancelledLeader.inflight.get? key = some l →
      ∃ k, cancelledLeader.phase l = .leading k ∧ (k == key) = true) :=
  single_flight cancelledLeader ((((Relation.ReflTransGen.refl.tail (.handle 0 rootKey rfl)).tail
    (.handle 1 rootKey rfl)).tail (.leaderDropped 0 rootKey rfl)).tail (.recv 1 rootKey 0 noConnections rfl rfl))

end Cache
end SmartDns
