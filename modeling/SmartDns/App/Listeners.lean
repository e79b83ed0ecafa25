/-
# Listeners

`update_listeners` and `retry_pending_binds_at` of `app.rs`, and `check_exposure` of
`api/mod.rs`. An update takes the configuration, then compares it with the table of the
listeners, then shuts down what is not configured and starts what is new, but for a
management console that would be exposed without a token. A bind that fails goes into the
retry queue; once a second a round tries again those that are due, and drops those that
are no longer configured.

Each step between two await points is a step here. Updates run side by side, one for each
reload; of the retry rounds there is one at a time, since the request loop waits for it.
The listeners follow the configuration as long as every step is `InTime`: what an update or
a round took before must not have been overtaken where it acts on it, and, since a round
does not ask `check_exposure`, no configuration may come that refuses what is queued.

Key definitions: `checkExposure`, `retryBackoff`, `State`, `step`, `InTime`, `Settled`.
-/
import Mathlib.Tactic.Common
import SmartDns.Api.AddressFile
import SmartDns.Dns.Serial
import SmartDns.Lib.KeyMap
import SmartDns.Lib.Runs
import SmartDns.Lib.Tasks

namespace SmartDns
namespace App
namespace Listeners

open Dns Lib

inductive BindKind
  | udp
  | tcp
  | tls
  | http
  | https
  | h3
  | quic
deriving DecidableEq

/-- `BindAddrConfig`; `rest` is all else that tells two binds apart. -/
structure BindAddrConfig (R : Type) where
  kind : BindKind
  sockAddr : SocketAddr
  noApi : Option Bool := none
  rest : R
deriving DecidableEq

/-- What the listeners take from a configuration. -/
structure ListenConfig (R : Type) where
  binds : List (BindAddrConfig R) := []
  apiToken : Option (List Char) := none
deriving DecidableEq

/-- `env` is the value of `SMARTDNS_API_TOKEN`. -/
def hasConfiguredToken (env configToken : Option (List Char)) : Bool :=
  let nonEmpty (t : List Char) : Bool := !(Api.trim t).isEmpty
  configToken.any nonEmpty || env.any nonEmpty

/-- The management console is served there. -/
def BindAddrConfig.servesApi {R : Type} (b : BindAddrConfig R) : Bool :=
  match b.kind with
  | .http => !b.noApi.getD false
  | .https => !b.noApi.getD false
  | .h3 => !b.noApi.getD false
  | _ => false

/-- An error names the addresses that would be exposed. -/
def checkExposure {R : Type} (env : Option (List Char)) (binds : List (BindAddrConfig R))
    (configToken : Option (List Char)) : Except (List SocketAddr) Unit :=
  let exposed := ((binds.filter (·.servesApi)).map (·.sockAddr)).filter fun addr => !addr.ip.isLoopback
  if exposed.isEmpty || hasConfiguredToken env configToken then .ok () else .error exposed

/-- In seconds. -/
def retryBackoff (attempts : ℕ) : ℕ := min (1 <<< min (attempts - 1) 6) 60

theorem retryBackoff_pos (attempts : ℕ) : 0 < retryBackoff attempts := by
  unfold retryBackoff
  have h := Nat.one_shiftLeft (min (attempts - 1) 6)
  have hpos : 0 < 2 ^ min (attempts - 1) 6 := Nat.two_pow_pos _
  omega

/-- A bind that failed and is tried again; moments are in milliseconds. -/
structure BindRetry where
  attempts : ℕ
  nextAt : ℤ
  firstFailedAt : ℤ
  lastFailedAt : ℤ
  lastError : String

namespace BindRetry

def new (now : ℤ) (err : String) : BindRetry where
  attempts := 1
  nextAt := now + 1000 * retryBackoff 1
  firstFailedAt := now
  lastFailedAt := now
  lastError := err

def failedAgain (r : BindRetry) (now : ℤ) (err : String) : BindRetry :=
  let attempts := (r.attempts + 1) % 2 ^ 32
  { r with attempts, nextAt := now + 1000 * retryBackoff attempts, lastFailedAt := now, lastError := err }

def isDue (r : BindRetry) (now : ℤ) : Bool := now ≥ r.nextAt

theorem lt_nextAt_new (now : ℤ) (err : String) : now < (new now err).nextAt := by
  have h := retryBackoff_pos 1
  show now < now + 1000 * retryBackoff 1
  omega

theorem lt_nextAt_failedAgain (r : BindRetry) (now : ℤ) (err : String) : now < (r.failedAgain now err).nextAt := by
  have h := retryBackoff_pos ((r.attempts + 1) % 2 ^ 32)
  show now < now + 1000 * retryBackoff ((r.attempts + 1) % 2 ^ 32)
  omega

end BindRetry

section

variable (R : Type)

/-- What the update of a reload is about to do. -/
inductive Update
  /-- The reload puts its configuration in place. -/
  | writing (cfg : ListenConfig R)
  /-- `update_listeners` takes the configuration. -/
  | starting
  /-- It compares the configuration with the table. -/
  | comparing (cfg : ListenConfig R)
  | removing (cfg : ListenConfig R) (new shutdowns : List (BindAddrConfig R))
  | checking (cfg : ListenConfig R) (new : List (BindAddrConfig R))
  /-- It starts the next of the new binds. -/
  | serving (cfg : ListenConfig R) (new : List (BindAddrConfig R))
  /-- A server was started; its entry in the retry queue goes. -/
  | served (cfg : ListenConfig R) (bind : BindAddrConfig R) (server : ℕ) (new : List (BindAddrConfig R))
  | inserting (cfg : ListenConfig R) (bind : BindAddrConfig R) (server : ℕ) (new : List (BindAddrConfig R))
  /-- `schedule_bind_retry`. -/
  | scheduling (cfg : ListenConfig R) (bind : BindAddrConfig R) (err : String) (new : List (BindAddrConfig R))
  | done
deriving DecidableEq

/-- What the retry round of the moment is about to do. -/
inductive Round
  /-- It takes the configuration. -/
  | starting (due : List (BindAddrConfig R))
  /-- It tries the next of those that are due. -/
  | retrying (cfg : ListenConfig R) (due : List (BindAddrConfig R))
  | dropping (cfg : ListenConfig R) (bind : BindAddrConfig R) (due : List (BindAddrConfig R))
  /-- A server was started; its entry in the retry queue goes. -/
  | recovered (cfg : ListenConfig R) (bind : BindAddrConfig R) (server : ℕ) (due : List (BindAddrConfig R))
  | inserting (cfg : ListenConfig R) (bind : BindAddrConfig R) (server : ℕ) (due : List (BindAddrConfig R))
  | failed (cfg : ListenConfig R) (bind : BindAddrConfig R) (err : String) (due : List (BindAddrConfig R))
deriving DecidableEq

inductive Event
  /-- A reload has built the configuration. -/
  | reload (cfg : ListenConfig R)
  /-- The tick of the request loop; `order` is the order in which the queue is gone through. -/
  | tick (order : List (BindAddrConfig R))
  /-- The update goes on; a server that it starts fails with the error, if there is one. -/
  | advance (update : ℕ) (err : Option String)
  /-- The round goes on. -/
  | retry (err : Option String)
  /-- A spawned task tells a server to shut down. -/
  | shutdown

end

variable {R : Type} [DecidableEq R]

structure State (R : Type) [DecidableEq R] where
  cfg : ListenConfig R
  listeners : KeyMap (BindAddrConfig R) ℕ := .empty
  bindRetry : KeyMap (BindAddrConfig R) BindRetry := .empty
  updates : List (Update R) := []
  /-- The round that is under way, with its `now`. -/
  round : Option (ℤ × Round R) := none
  /-- The `now` of the last round that is over. -/
  lastRound : Option ℤ := none
  clock : ℤ := 0
  /-- The servers started so far. -/
  servers : ℕ := 0
  /-- The servers that spawned tasks are to shut down. -/
  shutdowns : List ℕ := []
  /-- The servers that were told to shut down. -/
  told : List ℕ := []
  /-- The binds started so far, each with the configuration in place at that time. -/
  starts : List (BindAddrConfig R × ListenConfig R) := []

namespace State

variable (s : State R)

def enter (i : ℕ) (u : Update R) : State R := { s with updates := s.updates.set i u }

def enterRound (now : ℤ) (r : Round R) : State R := { s with round := some (now, r) }

/-- The keys are removed from the table, and their servers are to shut down. -/
def removeListeners (s : State R) : List (BindAddrConfig R) → State R
  | [] => s
  | b :: bs =>
    removeListeners
      { s with listeners := s.listeners.erase b, shutdowns := s.shutdowns ++ (s.listeners.get? b).toList } bs

/-- `server::serve` succeeds; the server is the next one. -/
def start (b : BindAddrConfig R) : State R :=
  { s with servers := s.servers + 1, starts := s.starts ++ [(b, s.cfg)] }

def clearRetry (b : BindAddrConfig R) : State R := { s with bindRetry := s.bindRetry.erase b }

/-- The server that was there before is to shut down. -/
def insertListener (b : BindAddrConfig R) (server : ℕ) : State R :=
  { s with
    listeners := s.listeners.insert b server
    shutdowns := s.shutdowns ++ (s.listeners.get? b).toList }

def scheduleBindRetry (b : BindAddrConfig R) (err : String) : State R :=
  { s with bindRetry := s.bindRetry.update b fun
      | none => .new s.clock err
      | some state => state.failedAgain s.clock err }

/-- `get_mut` and `failed_again`. -/
def failAgain (now : ℤ) (b : BindAddrConfig R) (err : String) : State R :=
  match s.bindRetry.get? b with
  | some state => { s with bindRetry := s.bindRetry.insert b (state.failedAgain now err) }
  | none => s

def dueBinds (now : ℤ) : List (BindAddrConfig R) :=
  (s.bindRetry.entries.filter fun e => e.2.isDue now).map (·.1)

end State

variable (env : Option (List Char))

/-- `check_exposure` refuses the bind under the configuration. -/
def Refuses (cfg : ListenConfig R) (b : BindAddrConfig R) : Prop :=
  ∃ exposed, checkExposure env [b] cfg.apiToken = .error exposed

def accepts (cfg : ListenConfig R) (b : BindAddrConfig R) : Bool :=
  match checkExposure env [b] cfg.apiToken with
  | .ok _ => true
  | .error _ => false

omit [DecidableEq R] in
theorem accepts_iff {cfg : ListenConfig R} {b : BindAddrConfig R} : accepts env cfg b = true ↔ ¬ Refuses env cfg b := by
  unfold accepts Refuses
  cases checkExposure env [b] cfg.apiToken with
  | ok u => simp
  | error exposed => simp

namespace State

/-- The update `u`, at place `i`, goes on. -/
def advance (s : State R) (i : ℕ) (err : Option String) : Update R → State R
  | .writing cfg => { s with cfg }.enter i .starting
  | .starting => s.enter i (.comparing s.cfg)
  | .comparing cfg =>
    s.enter i (.removing cfg (cfg.binds.filter fun b => !s.listeners.contains b)
      (s.listeners.keys.filter fun b => !cfg.binds.contains b))
  | .removing cfg new shutdowns => (s.removeListeners shutdowns).enter i (.checking cfg new)
  | .checking cfg new => s.enter i (.serving cfg (new.filter (accepts env cfg)))
  | .serving _ [] => s.enter i .done
  | .serving cfg (b :: new) =>
    match err with
    | none => (s.start b).enter i (.served cfg b s.servers new)
    | some e => s.enter i (.scheduling cfg b e new)
  | .served cfg b server new => (s.clearRetry b).enter i (.inserting cfg b server new)
  | .inserting cfg b server new => (s.insertListener b server).enter i (.serving cfg new)
  | .scheduling cfg b e new => (s.scheduleBindRetry b e).enter i (.serving cfg new)
  | .done => s

/-- The round goes on. -/
def advanceRound (s : State R) (now : ℤ) (err : Option String) : Round R → State R
  | .starting due => s.enterRound now (.retrying s.cfg due)
  | .retrying _ [] => { s with round := none, lastRound := some now }
  | .retrying cfg (b :: due) =>
    if !cfg.binds.contains b then s.enterRound now (.dropping cfg b due)
    else
      match err with
      | none => (s.start b).enterRound now (.recovered cfg b s.servers due)
      | some e => s.enterRound now (.failed cfg b e due)
  | .dropping cfg b due => (s.clearRetry b).enterRound now (.retrying cfg due)
  | .recovered cfg b server due => (s.clearRetry b).enterRound now (.inserting cfg b server due)
  | .inserting cfg b server due => (s.insertListener b server).enterRound now (.retrying cfg due)
  | .failed cfg b e due => (s.failAgain now b e).enterRound now (.retrying cfg due)

/-- The binds that are due, in the order in which the queue is gone through. -/
def dueInOrder (s : State R) (order : List (BindAddrConfig R)) : List (BindAddrConfig R) :=
  if order.isPerm (s.dueBinds s.clock) then order else s.dueBinds s.clock

/-- A round starts with the binds that are due. -/
def startRound (s : State R) (order : List (BindAddrConfig R)) : State R :=
  match s.round with
  | some _ => s
  | none =>
    if (s.dueInOrder order).isEmpty then { s with lastRound := some s.clock }
    else s.enterRound s.clock (.starting (s.dueInOrder order))

/-- A step at the moment of the clock. -/
def act (s : State R) : Event R → State R
  | .reload cfg => { s with updates := s.updates ++ [.writing cfg] }
  | .tick order => s.startRound order
  | .advance i err =>
    match s.updates[i]? with
    | some u => s.advance env i err u
    | none => s
  | .retry err =>
    match s.round with
    | some (now, r) => s.advanceRound now err r
    | none => s
  | .shutdown =>
    match s.shutdowns with
    | [] => s
    | server :: rest => { s with shutdowns := rest, told := s.told ++ [server] }

end State

/-- The clock never goes back. -/
def step (s : State R) (t : ℤ) (e : Event R) : State R := ({ s with clock := max s.clock t } : State R).act env e

/-- The app at its start: the first update is under way. -/
def started (cfg : ListenConfig R) : State R where
  cfg
  updates := [.starting]

/-! ### What is to hold -/

/-- Nothing is in progress. -/
def Quiet (s : State R) : Prop := (∀ u ∈ s.updates, u = .done) ∧ s.round = none ∧ s.shutdowns = []

def Running (s : State R) (b : BindAddrConfig R) : Prop := s.listeners.contains b = true

def Queued (s : State R) (b : BindAddrConfig R) : Prop := s.bindRetry.contains b = true

def Refused (s : State R) (b : BindAddrConfig R) : Prop := ¬ Running s b ∧ Refuses env s.cfg b

def ExactlyOne (p q r : Prop) : Prop := (p ∧ ¬ q ∧ ¬ r) ∨ (¬ p ∧ q ∧ ¬ r) ∨ (¬ p ∧ ¬ q ∧ r)

/-- The listeners follow the configuration in place. -/
structure Settled (s : State R) : Prop where
  running : ∀ b, Running s b → b ∈ s.cfg.binds
  one : ∀ b ∈ s.cfg.binds, ExactlyOne (Running s b) (Queued s b) (Refused env s b)
  told : ∀ server < s.servers, (∃ b, s.listeners.get? b = some server) ∨ server ∈ s.told
  queue : ∀ b state, s.bindRetry.get? b = some state →
    ¬ Running s b ∧ ∀ now, s.lastRound = some now → state.isDue now = true → b ∈ s.cfg.binds

/-- No bind was started that `check_exposure` refused under the configuration in place. -/
def StartedSafely (s : State R) : Prop := ∀ e ∈ s.starts, ¬ Refuses env e.2 e.1

/-! ### What overtakes what -/

/-- The bind of a server that is started and not yet in the table, or of one that could not be started
and is not yet in the queue. -/
def Update.inHand : Update R → Option (BindAddrConfig R)
  | served _ b _ _ => some b
  | inserting _ b _ _ => some b
  | scheduling _ b _ _ => some b
  | _ => none

def Round.inHand : Round R → Option (BindAddrConfig R)
  | recovered _ b _ _ => some b
  | inserting _ b _ _ => some b
  | _ => none

/-- What the update at the place has in hand; without a place, what the round has. -/
def State.inHand (s : State R) : Option ℕ → Option (BindAddrConfig R)
  | some i => s.updates[i]?.bind Update.inHand
  | none => s.round.bind fun r => r.2.inHand

def InHand (s : State R) (b : BindAddrConfig R) : Prop := ∃ place, s.inHand place = some b

/-- A configuration that was taken earlier says the same of the bind as the one in place. -/
def SaysSame (s : State R) (cfg : ListenConfig R) (b : BindAddrConfig R) : Prop :=
  (b ∈ cfg.binds ↔ b ∈ s.cfg.binds) ∧ (Refuses env cfg b ↔ Refuses env s.cfg b)

/-- What the update took is not overtaken where it acts on it: the configuration about the binds in
question, the table about the bind that it starts. What is put in place refuses no bind that waits. -/
def InTimeUpdate (s : State R) : Update R → Prop
  | .writing cfg => ∀ b ∈ cfg.binds, Queued s b → ¬ Refuses env cfg b
  | .removing cfg _ shutdowns => ∀ b ∈ shutdowns, SaysSame env s cfg b
  | .checking cfg new => ∀ b ∈ new, SaysSame env s cfg b
  | .serving cfg (b :: _) => SaysSame env s cfg b ∧ ¬ Running s b ∧ ¬ InHand s b
  | .inserting cfg b _ _ => SaysSame env s cfg b
  | .scheduling cfg b _ _ => SaysSame env s cfg b
  | _ => True

/-- Nor is what the round took: the configuration, and the queue about the bind that it starts again. -/
def InTimeRound (s : State R) (err : Option String) : Round R → Prop
  | .retrying cfg (b :: _) => b ∈ cfg.binds → err = none → SaysSame env s cfg b ∧ Queued s b ∧ ¬ InHand s b
  | .dropping cfg b _ => SaysSame env s cfg b
  | .inserting cfg b _ _ => SaysSame env s cfg b
  | _ => True

def InTime (s : State R) (_ : ℤ) : Event R → Prop
  | .advance i _ => ∀ u, s.updates[i]? = some u → InTimeUpdate env s u
  | .retry err => ∀ r, s.round = some r → InTimeRound env s err r.2
  | _ => True

/-- No configuration is put in place that refuses a bind that runs. -/
def SparesRunning (s : State R) (_ : ℤ) : Event R → Prop
  | .advance i _ => ∀ cfg, s.updates[i]? = some (.writing cfg) → ∀ b, Running s b → ¬ Refuses env cfg b
  | _ => True

end Listeners
end App
end SmartDns
