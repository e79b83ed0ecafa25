/-
# Reloads of the configuration

`reload_inner` of `app.rs`: a reload reads the files and builds a configuration, puts it
in place, publishes its list of trusted proxies and its token, rebuilds the handler of
the queries and brings the listeners up to it. Nothing keeps two reloads apart: each is
a task of its own (`Reload`) that goes from phase to phase while others do (`step`). The
cache lock is held from the creation of the client to the publication of the handler.

A reload whose build fails changes nothing (`advance_failed`), and the published proxies
are those of the configuration in place whenever no reload is under way
(`Follows`). The configuration itself and the handler can be those of an overtaken
reload; where no reload writes over one that read the files later, or publishes over one
that saw a later configuration (`Orderly`), they are the newest (`reload_settled`).

Key definitions: `Phase`, `AppState`, `step`, `Quiet`, `Settled`, `Orderly`.
Key theorems: `follows_step`, `inv_step`, `reload_settled`.
-/
import Mathlib.Tactic.Common
import SmartDns.Lib.Runs
import SmartDns.Lib.Tasks

namespace SmartDns
namespace App
namespace Reloads

open Lib

/-- A configuration and the number of the reading of the files that it was built from. -/
structure Built (C : Type) where
  config : C
  read : ℕ
deriving DecidableEq

/-- A configuration put in place by the write of that number. -/
structure Placed (C : Type) extends Built C where
  write : ℕ
deriving DecidableEq

/-- The middleware handler, with the cache it uses. -/
structure Handler (C : Type) where
  cfg : Placed C
  cache : Option ℕ
deriving DecidableEq

/-- What a reload is about to do. -/
inductive Phase (C : Type)
  /-- `spawn_blocking`: read the files and build. -/
  | reading
  | failed
  /-- Put the configuration in place. -/
  | writing (built : Built C)
  /-- `init_trusted_proxies`, under the read lock of the configuration. -/
  | proxies
  /-- `set_configured_token`, under the read lock as well. -/
  | token
  /-- `update_middleware_handler`: read the configuration. -/
  | configuring
  /-- Take the cache lock. -/
  | locking (cfg : Placed C)
  /-- `create_dns_client`. -/
  | creating (cfg : Placed C)
  /-- `build_middleware`. -/
  | building (cfg : Placed C)
  | publishing (handler : Handler C)
  /-- `update_listeners`: read the configuration. -/
  | listening
  | updating (cfg : Placed C)
  /-- Set `loaded_at`. -/
  | finishing
  | finished
deriving DecidableEq

structure Reload (C : Type) where
  forceSetRefresh : Bool
  /-- What its build made, if it did not fail. -/
  built : Option (Built C) := none
  phase : Phase C := .reading
deriving DecidableEq

/-- What the app does with a configuration of type `C`; `F` is all that a build reads. -/
structure Program (F C P T : Type) where
  /-- `reload_new` and `reload_new_reusing_set_cache`; the paths are the same for all configurations. -/
  build : Bool → F → Option C
  trustedProxies : C → P
  /-- The configured token, unless it is blank. -/
  apiToken : C → Option T
  /-- `cache_size() > 0`. -/
  usesCache : C → Bool

structure AppState (F C P T : Type) where
  files : F
  reads : ℕ := 0
  cfg : Placed C
  trustedProxies : P
  apiToken : Option T := none
  mwHandler : Handler C
  cache : Option ℕ := none
  /-- The caches made so far. -/
  caches : ℕ := 0
  /-- The reload that holds the cache lock. -/
  cacheLock : Option ℕ := none
  /-- The configuration that the listeners were last brought up to. -/
  listeners : Placed C
  reloads : List (Reload C) := []

inductive Event (F : Type)
  /-- A manual reload, or one by the interval of a set. -/
  | start (forceSetRefresh : Bool)
  | edit (files : F)
  /-- The reload does what it is about to do. -/
  | advance (reload : ℕ)

section

variable {F C P T : Type} (p : Program F C P T)

namespace AppState

/-- The `i`-th reload is now `r`. -/
def enter (s : AppState F C P T) (i : ℕ) (r : Reload C) : AppState F C P T :=
  { s with reloads := s.reloads.set i r }

/-- The cache that a handler for the configuration uses, and the number of caches made. -/
def takeCache (s : AppState F C P T) (c : C) : Option ℕ × ℕ :=
  if p.usesCache c then
    match s.cache with
    | some existing => (some existing, s.caches)
    | none => (some s.caches, s.caches + 1)
  else (none, s.caches)

/-- The `i`-th reload, which is `r`, does what it is about to do. -/
def advance (s : AppState F C P T) (i : ℕ) (r : Reload C) : AppState F C P T :=
  match r.phase with
  | .reading =>
    let s := { s with reads := s.reads + 1 }
    match p.build r.forceSetRefresh s.files with
    | some c => s.enter i { r with built := some ⟨c, s.reads⟩, phase := .writing ⟨c, s.reads⟩ }
    | none => s.enter i { r with phase := .failed }
  | .writing built => { s with cfg := ⟨built, s.cfg.write + 1⟩ }.enter i { r with phase := .proxies }
  | .proxies => { s with trustedProxies := p.trustedProxies s.cfg.config }.enter i { r with phase := .token }
  | .token => { s with apiToken := (p.apiToken s.cfg.config).or s.apiToken }.enter i { r with phase := .configuring }
  | .configuring => s.enter i { r with phase := .locking s.cfg }
  | .locking cfg =>
    if s.cacheLock.isNone then { s with cacheLock := some i }.enter i { r with phase := .creating cfg } else s
  | .creating cfg => s.enter i { r with phase := .building cfg }
  | .building cfg =>
    let (cache, caches) := s.takeCache p cfg.config
    { s with cache, caches }.enter i { r with phase := .publishing ⟨cfg, cache⟩ }
  | .publishing handler =>
    { s with mwHandler := handler, cacheLock := none }.enter i { r with phase := .listening }
  | .listening => s.enter i { r with phase := .updating s.cfg }
  | .updating cfg => { s with listeners := cfg }.enter i { r with phase := .finishing }
  | .finishing => s.enter i { r with phase := .finished }
  | .failed | .finished => s

end AppState

def step (s : AppState F C P T) (_ : ℤ) : Event F → AppState F C P T
  | .start forceSetRefresh => { s with reloads := s.reloads ++ [{ forceSetRefresh }] }
  | .edit files => { s with files }
  | .advance i =>
    match s.reloads[i]? with
    | some r => s.advance p i r
    | none => s

/-- The app once it is up with a configuration. -/
def started (files : F) (c : C) (cache : Option ℕ) : AppState F C P T where
  files
  cfg := ⟨⟨c, 0⟩, 0⟩
  trustedProxies := p.trustedProxies c
  apiToken := p.apiToken c
  mwHandler := ⟨⟨⟨c, 0⟩, 0⟩, cache⟩
  cache
  caches := if cache.isSome then 1 else 0
  listeners := ⟨⟨c, 0⟩, 0⟩

/-- No reload is under way. -/
def Quiet (s : AppState F C P T) : Prop := ∀ r ∈ s.reloads, r.phase = .finished ∨ r.phase = .failed

/-- The app follows the newest configuration that was read. -/
structure Settled (s : AppState F C P T) : Prop where
  newest : ∀ r ∈ s.reloads, ∀ b, r.built = some b → b.read ≤ s.cfg.read
  source : s.cfg.read = 0 ∨ ∃ r ∈ s.reloads, r.built = some s.cfg.toBuilt
  handler : s.mwHandler.cfg = s.cfg
  proxies : s.trustedProxies = p.trustedProxies s.cfg.config

/-- The reload does not write over a configuration that was read later, nor publish over a handler for
one that was written later. -/
def Orderly (s : AppState F C P T) (_ : ℤ) : Event F → Prop
  | .advance i =>
    match s.reloads[i]? with
    | some ⟨_, _, .writing built⟩ => s.cfg.read ≤ built.read
    | some ⟨_, _, .publishing handler⟩ => s.mwHandler.cfg.write ≤ handler.cfg.write
    | _ => True
  | _ => True

/-- What serves the queries and the management. -/
def shared (s : AppState F C P T) : Placed C × P × Option T × Handler C × Option ℕ × Placed C :=
  (s.cfg, s.trustedProxies, s.apiToken, s.mwHandler, s.cache, s.listeners)

open AppState

/-- **A reload whose build fails changes nothing that serves**, and does nothing any more. -/
theorem advance_failed {s : AppState F C P T} {i : ℕ} {r : Reload C} (hr : s.reloads[i]? = some r)
    (hphase : r.phase = .reading) (hb : p.build r.forceSetRefresh s.files = none) (t t' : ℤ) :
    shared (step p s t (.advance i)) = shared s ∧
      step p (step p s t (.advance i)) t' (.advance i) = step p s t (.advance i) := by
  have hstep : step p s t (.advance i) = { s with reads := s.reads + 1 }.enter i { r with phase := .failed } := by
    simp only [step, hr, advance, hphase, hb]
  rw [hstep]
  refine ⟨rfl, ?_⟩
  have hself : ({ s with reads := s.reads + 1 }.enter i { r with phase := .failed }).reloads[i]? =
      some { r with phase := .failed } := List.getElem?_set_self (List.getElem?_eq_some_iff.mp hr).1
  simp only [step, hself, advance]

/-! ### The trusted proxies -/

/-- The published proxies are those of the configuration in place, or a reload is about to publish. -/
def Follows (s : AppState F C P T) : Prop :=
  s.trustedProxies = p.trustedProxies s.cfg.config ∨ ∃ q ∈ s.reloads, q.phase = .proxies

variable {p}

theorem Follows.enter {s : AppState F C P T} (h : Follows p s) {i : ℕ} {r r' : Reload C}
    (hr : s.reloads[i]? = some r) (hphase : r.phase ≠ .proxies) : Follows p (s.enter i r') :=
  h.imp id (exists_mem_set hr fun hp => absurd hp hphase)

theorem follows_advance {s : AppState F C P T} (h : Follows p s) {i : ℕ} {r : Reload C}
    (hr : s.reloads[i]? = some r) : Follows p (s.advance p i r) := by
  have move {s' : AppState F C P T} (r' : Reload C) (hcfg : s'.cfg = s.cfg)
      (hproxies : s'.trustedProxies = s.trustedProxies) (hreloads : s'.reloads = s.reloads)
      (hphase : r.phase ≠ .proxies) : Follows p (s'.enter i r') := by
    refine Follows.enter ?_ (hreloads ▸ hr) hphase
    unfold Follows
    rw [hcfg, hproxies, hreloads]
    exact h
  unfold advance
  cases hphase : r.phase with
  | reading =>
    dsimp only
    split
    · exact move _ rfl rfl rfl (by rw [hphase]; nofun)
    · exact move _ rfl rfl rfl (by rw [hphase]; nofun)
  | writing built => exact .inr ⟨_, mem_set_self hr, rfl⟩
  | proxies => exact .inl rfl
  | token => exact move _ rfl rfl rfl (by rw [hphase]; nofun)
  | configuring => exact move _ rfl rfl rfl (by rw [hphase]; nofun)
  | locking cfg =>
    dsimp only
    split
    · exact move _ rfl rfl rfl (by rw [hphase]; nofun)
    · exact h
  | creating cfg => exact move _ rfl rfl rfl (by rw [hphase]; nofun)
  | building cfg => exact move _ rfl rfl rfl (by rw [hphase]; nofun)
  | publishing handler => exact move _ rfl rfl rfl (by rw [hphase]; nofun)
  | listening => exact move _ rfl rfl rfl (by rw [hphase]; nofun)
  | updating cfg => exact move _ rfl rfl rfl (by rw [hphase]; nofun)
  | finishing => exact move _ rfl rfl rfl (by rw [hphase]; nofun)
  | failed => exact h
  | finished => exact h

/-- **Every step keeps the proxies in line.** -/
theorem follows_step {s : AppState F C P T} (h : Follows p s) (t : ℤ) (e : Event F) : Follows p (step p s t e) := by
  cases e with
  | start forceSetRefresh => exact h.imp id (exists_mem_append _)
  | edit files => exact h
  | advance i =>
    simp only [step]
    cases hr : s.reloads[i]? with
    | none => exact h
    | some r => exact follows_advance h hr

theorem Follows.of_quiet {s : AppState F C P T} (h : Follows p s) (hquiet : Quiet s) :
    s.trustedProxies = p.trustedProxies s.cfg.config := by
  obtain h | ⟨q, hq, hphase⟩ := h
  · exact h
  · obtain hfin | hfail := hquiet q hq
    · rw [hphase] at hfin
      cases hfin
    · rw [hphase] at hfail
      cases hfail

/-! ### The newest configuration -/

/-- The configuration that the reload has read for its handler. -/
def Phase.snapshot : Phase C → Option (Placed C)
  | locking cfg => some cfg
  | creating cfg => some cfg
  | building cfg => some cfg
  | publishing handler => some handler.cfg
  | _ => none

/-- The reload is going to publish a handler for the configuration. -/
def Phase.Renews (cfg : Placed C) : Phase C → Prop
  | proxies => True
  | token => True
  | configuring => True
  | phase => phase.snapshot = some cfg

/-- `seen` was in place before `cfg`, or is `cfg`. -/
def Seen (cfg seen : Placed C) : Prop := seen.write ≤ cfg.write ∧ (seen.write = cfg.write → seen = cfg)

theorem Seen.refl (cfg : Placed C) : Seen cfg cfg := ⟨Nat.le_refl _, fun _ => rfl⟩

/-- What was seen is behind the next write. -/
theorem Seen.next {cfg seen : Placed C} (h : Seen cfg seen) (b : Built C) : Seen ⟨b, cfg.write + 1⟩ seen := by
  have hle := h.1
  refine ⟨Nat.le_succ_of_le hle, fun heq => ?_⟩
  have heq : seen.write = cfg.write + 1 := heq
  omega

theorem Seen.eq_of_le {cfg seen : Placed C} (h : Seen cfg seen) (hle : cfg.write ≤ seen.write) : seen = cfg :=
  h.2 (Nat.le_antisymm h.1 hle)

structure Inv (s : AppState F C P T) : Prop where
  reading : ∀ r ∈ s.reloads, r.phase = .reading → r.built = none
  writing : ∀ r ∈ s.reloads, ∀ b, r.phase = .writing b → r.built = some b
  newest : ∀ r ∈ s.reloads, ∀ b, r.built = some b → b.read ≤ s.cfg.read ∨ r.phase = .writing b
  source : s.cfg.read = 0 ∨ ∃ r ∈ s.reloads, r.built = some s.cfg.toBuilt
  snapshot : ∀ r ∈ s.reloads, ∀ c, r.phase.snapshot = some c → Seen s.cfg c
  seen : Seen s.cfg s.mwHandler.cfg
  handler : s.mwHandler.cfg = s.cfg ∨ ∃ r ∈ s.reloads, r.phase.Renews s.cfg

namespace Inv

variable {s s' : AppState F C P T} {i : ℕ} {r r' : Reload C}

/-- The invariant speaks of the configuration, the handler and the reloads only. -/
theorem congr (h : Inv s) (hcfg : s'.cfg = s.cfg) (hhandler : s'.mwHandler = s.mwHandler)
    (hreloads : s'.reloads = s.reloads) : Inv s' := by
  obtain ⟨h1, h2, h3, h4, h5, h6, h7⟩ := h
  refine ⟨?_, ?_, ?_, ?_, ?_, ?_, ?_⟩
  · rwa [hreloads]
  · rwa [hreloads]
  · rwa [hreloads, hcfg]
  · rwa [hreloads, hcfg]
  · rwa [hreloads, hcfg]
  · rwa [hhandler, hcfg]
  · rwa [hhandler, hreloads, hcfg]

/-- A reload enters a phase in which nothing is to be written. -/
theorem enter (h : Inv s) (hr : s.reloads[i]? = some r) {phase : Phase C}
    (hfrom : ∀ b, r.phase ≠ .writing b) (hreading : phase ≠ .reading) (hto : ∀ b, phase ≠ .writing b)
    (hsnapshot : ∀ c, phase.snapshot = some c → Seen s.cfg c)
    (hrenews : r.phase.Renews s.cfg → phase.Renews s.cfg) : Inv (s.enter i { r with phase }) where
  reading q hq hphase := by
    obtain hq | rfl := List.mem_or_eq_of_mem_set hq
    · exact h.reading q hq hphase
    · exact absurd hphase hreading
  writing q hq b hphase := by
    obtain hq | rfl := List.mem_or_eq_of_mem_set hq
    · exact h.writing q hq b hphase
    · exact absurd hphase (hto b)
  newest q hq b hb := by
    obtain hq | rfl := List.mem_or_eq_of_mem_set hq
    · exact h.newest q hq b hb
    · exact (h.newest r (List.mem_of_getElem? hr) b hb).imp id fun hw => absurd hw (hfrom b)
  source := h.source.imp id (exists_mem_set hr id)
  snapshot q hq c hc := by
    obtain hq | rfl := List.mem_or_eq_of_mem_set hq
    · exact h.snapshot q hq c hc
    · exact hsnapshot c hc
  seen := h.seen
  handler := h.handler.imp id (exists_mem_set hr hrenews)

theorem built (h : Inv s) (hr : s.reloads[i]? = some r) (hphase : r.phase = .reading) (b : Built C) :
    Inv (s.enter i { r with built := some b, phase := .writing b }) where
  reading q hq hq' := by
    obtain hq | rfl := List.mem_or_eq_of_mem_set hq
    · exact h.reading q hq hq'
    · cases hq'
  writing q hq b' hq' := by
    obtain hq | rfl := List.mem_or_eq_of_mem_set hq
    · exact h.writing q hq b' hq'
    · cases hq'
      rfl
  newest q hq b' hb := by
    obtain hq | rfl := List.mem_or_eq_of_mem_set hq
    · exact h.newest q hq b' hb
    · cases hb
      exact .inr rfl
  source := h.source.imp id (exists_mem_set hr fun hb => by
    rw [h.reading r (List.mem_of_getElem? hr) hphase] at hb
    cases hb)
  snapshot q hq c hc := by
    obtain hq | rfl := List.mem_or_eq_of_mem_set hq
    · exact h.snapshot q hq c hc
    · cases hc
  seen := h.seen
  handler := h.handler.imp id (exists_mem_set hr fun hn => by
    rw [hphase] at hn
    cases hn)

/-- A configuration is put in place that was read no earlier than the one before. -/
theorem write (h : Inv s) (hr : s.reloads[i]? = some r) {b : Built C} (hphase : r.phase = .writing b)
    (hle : s.cfg.read ≤ b.read) :
    Inv ({ s with cfg := ⟨b, s.cfg.write + 1⟩ }.enter i { r with phase := .proxies }) where
  reading q hq hq' := by
    obtain hq | rfl := List.mem_or_eq_of_mem_set hq
    · exact h.reading q hq hq'
    · cases hq'
  writing q hq b' hq' := by
    obtain hq | rfl := List.mem_or_eq_of_mem_set hq
    · exact h.writing q hq b' hq'
    · cases hq'
  newest q hq b' hb := by
    obtain hq | rfl := List.mem_or_eq_of_mem_set hq
    · exact (h.newest q hq b' hb).imp (fun hb' => Nat.le_trans hb' hle) id
    · have hbuilt := h.writing r (List.mem_of_getElem? hr) b hphase
      obtain rfl := Option.some.inj (hbuilt.symm.trans hb)
      exact .inl (Nat.le_refl _)
  source := .inr ⟨_, mem_set_self hr, h.writing r (List.mem_of_getElem? hr) b hphase⟩
  snapshot q hq c hc := by
    obtain hq | rfl := List.mem_or_eq_of_mem_set hq
    · exact (h.snapshot q hq c hc).next b
    · cases hc
  seen := h.seen.next b
  handler := .inr ⟨_, mem_set_self hr, trivial⟩

/-- A handler is published for a configuration that was written no earlier than that of the one before. -/
theorem publish (h : Inv s) (hr : s.reloads[i]? = some r) {handler : Handler C}
    (hphase : r.phase = .publishing handler) (hle : s.mwHandler.cfg.write ≤ handler.cfg.write) :
    Inv ({ s with mwHandler := handler, cacheLock := none }.enter i { r with phase := .listening }) where
  reading q hq hq' := by
    obtain hq | rfl := List.mem_or_eq_of_mem_set hq
    · exact h.reading q hq hq'
    · cases hq'
  writing q hq b hq' := by
    obtain hq | rfl := List.mem_or_eq_of_mem_set hq
    · exact h.writing q hq b hq'
    · cases hq'
  newest q hq b hb := by
    obtain hq | rfl := List.mem_or_eq_of_mem_set hq
    · exact h.newest q hq b hb
    · refine (h.newest r (List.mem_of_getElem? hr) b hb).imp id fun hw => ?_
      rw [hphase] at hw
      cases hw
  source := h.source.imp id (exists_mem_set hr id)
  snapshot q hq c hc := by
    obtain hq | rfl := List.mem_or_eq_of_mem_set hq
    · exact h.snapshot q hq c hc
    · cases hc
  seen := h.snapshot r (List.mem_of_getElem? hr) _ (by rw [hphase]; rfl)
  handler := by
    have hseen : Seen s.cfg handler.cfg := h.snapshot r (List.mem_of_getElem? hr) _ (by rw [hphase]; rfl)
    by_cases hcfg : handler.cfg = s.cfg
    · exact .inl hcfg
    · obtain hold | hsome := h.handler
      · rw [hold] at hle
        exact .inl (hseen.eq_of_le hle)
      · refine .inr (exists_mem_set hr (fun hn => ?_) hsome)
        rw [hphase] at hn
        exact absurd (Option.some.inj hn) hcfg

end Inv

theorem inv_advance {s : AppState F C P T} (h : Inv s) {i : ℕ} {r : Reload C} (hr : s.reloads[i]? = some r)
    (t : ℤ) (hok : Orderly s t (.advance i)) : Inv (s.advance p i r) := by
  have hmem := List.mem_of_getElem? hr
  have plain {s' : AppState F C P T} {phase : Phase C} (hcfg : s'.cfg = s.cfg)
      (hhandler : s'.mwHandler = s.mwHandler) (hreloads : s'.reloads = s.reloads)
      (hfrom : ∀ b, r.phase ≠ .writing b) (hreading : phase ≠ .reading) (hto : ∀ b, phase ≠ .writing b)
      (hsnapshot : ∀ c, phase.snapshot = some c → Seen s.cfg c)
      (hrenews : r.phase.Renews s.cfg → phase.Renews s.cfg) : Inv (s'.enter i { r with phase }) :=
    (h.congr hcfg hhandler hreloads).enter (hreloads ▸ hr) hfrom hreading hto (hcfg ▸ hsnapshot) (hcfg ▸ hrenews)
  unfold advance
  cases hphase : r.phase with
  | reading =>
    have hreads : Inv { s with reads := s.reads + 1 } := h.congr rfl rfl rfl
    dsimp only
    split
    · exact hreads.built hr hphase _
    · refine plain rfl rfl rfl (by rw [hphase]; nofun) nofun nofun nofun fun hn => ?_
      rw [hphase] at hn
      cases hn
  | writing built =>
    refine h.write hr hphase ?_
    obtain ⟨force, made, phase⟩ := r
    cases hphase
    simpa only [Orderly, hr] using hok
  | proxies => exact plain rfl rfl rfl (by rw [hphase]; nofun) nofun nofun nofun fun _ => trivial
  | token => exact plain rfl rfl rfl (by rw [hphase]; nofun) nofun nofun nofun fun _ => trivial
  | configuring =>
    refine plain rfl rfl rfl (by rw [hphase]; nofun) nofun nofun (fun c hc => ?_) fun _ => rfl
    cases hc
    exact .refl _
  | locking cfg =>
    dsimp only
    split
    · refine plain rfl rfl rfl (by rw [hphase]; nofun) nofun nofun (fun c hc => ?_) (by rw [hphase]; exact id)
      exact h.snapshot r hmem c (by rw [hphase]; exact hc)
    · exact h
  | creating cfg =>
    refine plain rfl rfl rfl (by rw [hphase]; nofun) nofun nofun (fun c hc => ?_) (by rw [hphase]; exact id)
    exact h.snapshot r hmem c (by rw [hphase]; exact hc)
  | building cfg =>
    refine plain rfl rfl rfl (by rw [hphase]; nofun) nofun nofun (fun c hc => ?_) (by rw [hphase]; exact id)
    exact h.snapshot r hmem c (by rw [hphase]; exact hc)
  | publishing handler =>
    refine h.publish hr hphase ?_
    obtain ⟨force, made, phase⟩ := r
    cases hphase
    simpa only [Orderly, hr] using hok
  | listening =>
    refine plain rfl rfl rfl (by rw [hphase]; nofun) nofun nofun nofun fun hn => ?_
    rw [hphase] at hn
    cases hn
  | updating cfg =>
    refine plain rfl rfl rfl (by rw [hphase]; nofun) nofun nofun nofun fun hn => ?_
    rw [hphase] at hn
    cases hn
  | finishing =>
    refine plain rfl rfl rfl (by rw [hphase]; nofun) nofun nofun nofun fun hn => ?_
    rw [hphase] at hn
    cases hn
  | failed => exact h
  | finished => exact h

/-- **An orderly step keeps the invariant.** -/
theorem inv_step {s : AppState F C P T} (h : Inv s) (t : ℤ) (e : Event F) (hok : Orderly s t e) :
    Inv (step p s t e) := by
  cases e with
  | edit files => exact h.congr rfl rfl rfl
  | start force =>
    have hnew (q : Reload C) (hq : q ∈ s.reloads ++ [{ forceSetRefresh := force }]) :
        q ∈ s.reloads ∨ q = { forceSetRefresh := force } := by simpa using hq
    refine ⟨fun q hq hq' => ?_, fun q hq b hq' => ?_, fun q hq b hb => ?_, h.source.imp id (exists_mem_append _),
      fun q hq c hc => ?_, h.seen, h.handler.imp id (exists_mem_append _)⟩
    · obtain hq | rfl := hnew q hq
      · exact h.reading q hq hq'
      · rfl
    · obtain hq | rfl := hnew q hq
      · exact h.writing q hq b hq'
      · cases hq'
    · obtain hq | rfl := hnew q hq
      · exact h.newest q hq b hb
      · cases hb
    · obtain hq | rfl := hnew q hq
      · exact h.snapshot q hq c hc
      · cases hc
  | advance i =>
    simp only [step]
    cases hr : s.reloads[i]? with
    | none => exact h
    | some r => exact inv_advance h hr t hok

theorem inv_started (files : F) (c : C) (cache : Option ℕ) : Inv (started p files c cache) where
  reading _ hr := absurd hr List.not_mem_nil
  writing _ hr := absurd hr List.not_mem_nil
  newest _ hr := absurd hr List.not_mem_nil
  source := .inl rfl
  snapshot _ hr := absurd hr List.not_mem_nil
  seen := .refl _
  handler := .inl rfl

/-- When no reload is under way the app follows the newest configuration. -/
theorem Inv.settled {s : AppState F C P T} (h : Inv s) (hf : Follows p s) (hquiet : Quiet s) : Settled p s where
  newest r hr b hb := by
    obtain hle | hw := h.newest r hr b hb
    · exact hle
    · obtain hfin | hfail := hquiet r hr
      · rw [hfin] at hw
        cases hw
      · rw [hfail] at hw
        cases hw
  source := by
    obtain hread | hq := h.source
    · exact .inl hread
    · exact .inr hq
  handler := by
    obtain hcfg | ⟨q, hq, hn⟩ := h.handler
    · exact hcfg
    · obtain hfin | hfail := hquiet q hq
      · rw [hfin] at hn
        cases hn
      · rw [hfail] at hn
        cases hn
  proxies := hf.of_quiet hquiet

variable (p)

/-- **A failed reload changes nothing, the published proxies are those of the configuration in place
whenever no reload is under way, and in every run without overtaking the app then follows the newest
configuration that was read.** -/
theorem reload_settled :
    (∀ (s : AppState F C P T) (t : ℤ) (i : ℕ) (r : Reload C), s.reloads[i]? = some r → r.phase = .reading →
      p.build r.forceSetRefresh s.files = none → shared (step p s t (.advance i)) = shared s ∧
        ∀ t', step p (step p s t (.advance i)) t' (.advance i) = step p s t (.advance i)) ∧
    ∀ (files : F) (c : C) (cache : Option ℕ) (es : List (ℤ × Event F)),
      Throughout (step p) (fun s => Quiet s → s.trustedProxies = p.trustedProxies s.cfg.config)
        (started p files c cache) es ∧
      (Meets (step p) Orderly (started p files c cache) es →
        Throughout (step p) (fun s => Quiet s → Settled p s) (started p files c cache) es) := by
  refine ⟨fun s t i r hr hphase hb => ?_, fun files c cache es => ⟨?_, fun hok => ?_⟩⟩
  · exact ⟨(advance_failed p hr hphase hb t t).1, fun t' => (advance_failed p hr hphase hb t t').2⟩
  · refine throughout_of_keeps (step p) (I := Follows p) (fun s hs => hs.of_quiet) (fun s t e hs => ?_) es _ (.inl rfl)
    exact follows_step hs t e
  · refine throughout_of_meets (step p) (I := fun s => Inv s ∧ Follows p s) (fun s hs => hs.1.settled hs.2)
      (fun s t e hs hok => ⟨inv_step hs.1 t e hok, follows_step hs.2 t e⟩) es _ ⟨inv_started files c cache, .inl rfl⟩ hok

end

/-- A configuration is the text of its one file. -/
def textProgram : Program ℕ ℕ ℕ ℕ where
  build _ files := some files
  trustedProxies c := c
  apiToken _ := none
  usesCache _ := true

/-- A reload reads the file with 1; one that reads it with 2 is done first. -/
def overtaken : List (ℤ × Event ℕ) :=
  [(0, .edit 1), (0, .start true), (0, .advance 0), (0, .edit 2), (0, .start true)] ++
    List.replicate 12 (0, .advance 1) ++ List.replicate 11 (0, .advance 0)

/-- The same, but the first reload has put its configuration in place and read it for its handler. -/
def overtakenHandler : List (ℤ × Event ℕ) :=
  [(0, .edit 1), (0, .start true)] ++ List.replicate 5 (0, .advance 0) ++
    [(0, .edit 2), (0, .start true)] ++ List.replicate 12 (0, .advance 1) ++ List.replicate 7 (0, .advance 0)

/-- In the first run the older configuration stays in place; in the second the newer does, and the
handler is that of the older. -/
theorem older_reload_wins :
    (Quiet (run (step textProgram) (started textProgram 0 0 none) overtaken) ∧
      ¬ Settled textProgram (run (step textProgram) (started textProgram 0 0 none) overtaken)) ∧
    Quiet (run (step textProgram) (started textProgram 0 0 none) overtakenHandler) ∧
      ¬ Settled textProgram (run (step textProgram) (started textProgram 0 0 none) overtakenHandler) := by
  refine ⟨⟨by unfold Quiet; decide, fun h => ?_⟩, by unfold Quiet; decide, fun h => ?_⟩
  · exact absurd (h.newest ⟨true, some ⟨2, 2⟩, .finished⟩ (by decide) _ rfl) (by decide)
  · exact absurd h.handler (by decide)

end Reloads
end App
end SmartDns
