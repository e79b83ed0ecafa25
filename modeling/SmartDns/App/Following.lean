/-
# The listeners follow the configuration

What every step of the updates and the retry rounds keeps. Three things it keeps whatever
the order of the steps: a server that was started is in the table, in hand or told to shut
down (`Housed`), and no bind stays due over a round (`Timed`). As long as the steps are
orderly, a listener is configured or about to be removed, and a configured bind is running,
queued, refused or promised (`Follows`). What makes a step orderly, and when no bind that runs
is refused (`RunningAccepted`), is said here in what the steps do to the two tables; that
steps in time are orderly is in `App.Overtaking`.

Key definitions: `Housed`, `Timed`, `Orderly`, `Follows`.
Key theorems: `housed_step`, `timed_step`, `follows_step`, `Follows.settled`.
-/
import SmartDns.App.Listeners

namespace SmartDns
namespace App
namespace Listeners

open Dns Lib State

variable {R : Type} [DecidableEq R] {env : Option (List Char)} {s s' s₁ : State R} {i : ℕ} {u u' : Update R}
  {b b' : BindAddrConfig R}

/-! ### The table and the queue -/

@[simp] theorem removeListeners_cfg (s : State R) (bs : List (BindAddrConfig R)) :
    (s.removeListeners bs).cfg = s.cfg := by
  induction bs generalizing s with
  | nil => rfl
  | cons b bs ih => exact ih _

@[simp] theorem removeListeners_updates (s : State R) (bs : List (BindAddrConfig R)) :
    (s.removeListeners bs).updates = s.updates := by
  induction bs generalizing s with
  | nil => rfl
  | cons b bs ih => exact ih _

/-- Only the table and the servers to shut down are touched. -/
theorem removeListeners_frame (s : State R) (bs : List (BindAddrConfig R)) : s.removeListeners bs =
    { s with
      listeners := (s.removeListeners bs).listeners
      shutdowns := (s.removeListeners bs).shutdowns } := by
  induction bs generalizing s with
  | nil => rfl
  | cons b bs ih => exact ih _

theorem running_removeListeners {bs : List (BindAddrConfig R)} :
    Running (s.removeListeners bs) b ↔ Running s b ∧ b ∉ bs := by
  induction bs generalizing s with
  | nil => simp [removeListeners]
  | cons b' bs ih =>
    have h : Running { s with
        listeners := s.listeners.erase b'
        shutdowns := s.shutdowns ++ (s.listeners.get? b').toList } b ↔ b ≠ b' ∧ Running s b :=
      KeyMap.contains_erase _ _ _
    rw [removeListeners, ih, h, List.mem_cons, not_or]
    tauto

theorem running_insertListener {server : ℕ} : Running (s.insertListener b server) b' ↔ b' = b ∨ Running s b' :=
  KeyMap.contains_insert _ _ _ _

theorem queued_clearRetry : Queued (s.clearRetry b) b' ↔ b' ≠ b ∧ Queued s b' := KeyMap.contains_erase _ _ _

theorem queued_schedule {err : String} : Queued (s.scheduleBindRetry b err) b' ↔ b' = b ∨ Queued s b' :=
  KeyMap.contains_update _ _ _ _

theorem queued_of_get? {state : BindRetry} (h : s.bindRetry.get? b = some state) : Queued s b := by
  rw [Queued, KeyMap.contains, h]
  rfl

/-- Only the queue is touched. -/
theorem failAgain_frame (s : State R) (now : ℤ) (b : BindAddrConfig R) (err : String) :
    s.failAgain now b err = { s with bindRetry := (s.failAgain now b err).bindRetry } := by
  unfold failAgain
  split <;> rfl

theorem queued_failAgain {now : ℤ} {err : String} : Queued (s.failAgain now b err) b' ↔ Queued s b' := by
  unfold failAgain
  cases h : s.bindRetry.get? b with
  | none => rfl
  | some state =>
    have hinsert : Queued { s with bindRetry := s.bindRetry.insert b (state.failedAgain now err) } b' ↔
        b' = b ∨ Queued s b' := KeyMap.contains_insert _ _ _ _
    refine hinsert.trans ⟨?_, .inr⟩
    rintro (rfl | hq)
    · exact queued_of_get? h
    · exact hq

/-! ### Orderly steps -/

section

variable (env)

/-- A server for the bind can go into the table. -/
def Fits (s : State R) (b : BindAddrConfig R) : Prop := b ∈ s.cfg.binds ∧ ¬ Queued s b

/-- The update does not act on what was overtaken, nor does its configuration refuse a bind that is queued. -/
def OrderlyUpdate (s : State R) (err : Option String) : Update R → Prop
  | .writing cfg => ∀ b ∈ cfg.binds, Queued s b → ¬ Refuses env cfg b
  | .removing _ _ shutdowns => ∀ b ∈ shutdowns, b ∈ s.cfg.binds → ¬ Running s b
  | .checking cfg new => ∀ b ∈ new, b ∈ s.cfg.binds → Refuses env cfg b → Refuses env s.cfg b
  | .serving _ (b :: _) => err = none → ¬ Refuses env s.cfg b
  | .inserting _ b _ _ => Fits s b
  | .scheduling _ b _ _ => ¬ Running s b ∧ (b ∈ s.cfg.binds → ¬ Refuses env s.cfg b)
  | _ => True

/-- The round does not act on what was overtaken, nor start a bind that `check_exposure` refuses. -/
def OrderlyRound (s : State R) (err : Option String) : Round R → Prop
  | .retrying cfg (b :: _) => b ∈ cfg.binds → err = none → ¬ Refuses env s.cfg b
  | .dropping _ b _ => b ∉ s.cfg.binds
  | .inserting _ b _ _ => Fits s b
  | _ => True

def Orderly (s : State R) (_ : ℤ) : Event R → Prop
  | .advance i err => ∀ u, s.updates[i]? = some u → OrderlyUpdate env s err u
  | .retry err => ∀ r, s.round = some r → OrderlyRound env s err r.2
  | _ => True

end

/-! ### Who is to see to a bind -/

/-- The update is going to see to it that the bind is not running. -/
def Update.Removes (cfg : ListenConfig R) (b : BindAddrConfig R) : Update R → Prop
  | starting => True
  | comparing c => c = cfg
  | removing _ _ shutdowns => b ∈ shutdowns
  | _ => False

/-- The update is going to start or to queue the bind. -/
def Update.Promises (cfg : ListenConfig R) (b : BindAddrConfig R) : Update R → Prop
  | starting => True
  | comparing c => c = cfg
  | removing _ new _ => b ∈ new
  | checking _ new => b ∈ new
  | serving _ new => b ∈ new
  | served _ bind _ new => b = bind ∨ b ∈ new
  | inserting _ bind _ new => b = bind ∨ b ∈ new
  | scheduling _ bind _ new => b = bind ∨ b ∈ new
  | _ => False

def Round.Promises (b : BindAddrConfig R) : Round R → Prop
  | recovered _ bind _ _ => b = bind
  | inserting _ bind _ _ => b = bind
  | _ => False

def RoundPromises (s : State R) (b : BindAddrConfig R) : Prop := ∃ r, s.round = some r ∧ r.2.Promises b

variable (env)

structure Follows (s : State R) : Prop where
  listeners : ∀ b, Running s b → b ∈ s.cfg.binds ∨ ∃ u ∈ s.updates, u.Removes s.cfg b
  binds : ∀ b ∈ s.cfg.binds, Running s b ∨ Queued s b ∨ Refuses env s.cfg b ∨
    (∃ u ∈ s.updates, u.Promises s.cfg b) ∨ RoundPromises s b
  exclusive : ∀ b, Queued s b → ¬ Running s b
  accepted : ∀ b ∈ s.cfg.binds, Queued s b → ¬ Refuses env s.cfg b
  starts : StartedSafely env s

variable {env}

namespace Follows

/-- One update moves, with what it changes in the tables. -/
theorem moveUpdate (h : Follows env s) (hu : s.updates[i]? = some u) (hcfg : s₁.cfg = s.cfg)
    (hupdates : s₁.updates = s.updates) (hround : s₁.round = s.round)
    (hrunning : ∀ b, Running s₁ b → Running s b ∨ b ∈ s.cfg.binds)
    (hremoves : ∀ b, Running s₁ b → u.Removes s.cfg b → u'.Removes s.cfg b ∨ b ∈ s.cfg.binds)
    (hkept : ∀ b ∈ s.cfg.binds, Running s b → Running s₁ b)
    (hqueued : ∀ b ∈ s.cfg.binds, Queued s b → Queued s₁ b ∨ u'.Promises s.cfg b)
    (hpromises : ∀ b ∈ s.cfg.binds, u.Promises s.cfg b →
      Running s₁ b ∨ Queued s₁ b ∨ Refuses env s.cfg b ∨ u'.Promises s.cfg b)
    (hexclusive : ∀ b, Queued s₁ b → ¬ Running s₁ b)
    (haccepted : ∀ b ∈ s.cfg.binds, Queued s₁ b → ¬ Refuses env s.cfg b)
    (hstarts : StartedSafely env s₁) : Follows env (s₁.enter i u') := by
  have hset : (s₁.enter i u').updates = s.updates.set i u' := by rw [← hupdates]; rfl
  have hcfg' : (s₁.enter i u').cfg = s.cfg := hcfg
  have hnew : u' ∈ s.updates.set i u' := mem_set_self hu
  refine ⟨fun b hb => ?_, fun b hb => ?_, hexclusive, fun b hb => ?_, hstarts⟩
  · rw [hset, hcfg']
    obtain hrun | hbind := hrunning b hb
    · obtain hbind | hother := h.listeners b hrun
      · exact .inl hbind
      · obtain hself | hother := exists_mem_set_or hu u' hother
        · obtain hagain | hbind := hremoves b hb hself
          · exact .inr ⟨u', hnew, hagain⟩
          · exact .inl hbind
        · exact .inr hother
    · exact .inl hbind
  · rw [hcfg'] at hb
    rw [hset, hcfg']
    have hroundPromises : RoundPromises s b → RoundPromises (s₁.enter i u') b := by
      rintro ⟨r, hr, hp⟩
      exact ⟨r, hround.trans hr, hp⟩
    obtain hrun | hq | href | hother | hr := h.binds b hb
    · exact .inl (hkept b hb hrun)
    · obtain hq | hp := hqueued b hb hq
      · exact .inr (.inl hq)
      · exact .inr (.inr (.inr (.inl ⟨u', hnew, hp⟩)))
    · exact .inr (.inr (.inl href))
    · obtain hself | hother := exists_mem_set_or hu u' hother
      · obtain hrun | hq | href | hp := hpromises b hb hself
        · exact .inl hrun
        · exact .inr (.inl hq)
        · exact .inr (.inr (.inl href))
        · exact .inr (.inr (.inr (.inl ⟨u', hnew, hp⟩)))
      · exact .inr (.inr (.inr (.inl hother)))
    · exact .inr (.inr (.inr (.inr (hroundPromises hr))))
  · rw [hcfg'] at hb ⊢
    exact haccepted b hb

/-- One update moves and touches neither table. -/
theorem moveOnly (h : Follows env s) (hu : s.updates[i]? = some u)
    (hremoves : ∀ b, Running s b → u.Removes s.cfg b → u'.Removes s.cfg b ∨ b ∈ s.cfg.binds)
    (hpromises : ∀ b ∈ s.cfg.binds, u.Promises s.cfg b → Running s b ∨ Refuses env s.cfg b ∨ u'.Promises s.cfg b) :
    Follows env (s.enter i u') := by
  refine h.moveUpdate hu rfl rfl rfl (fun b => .inl) hremoves (fun _ _ => id) (fun b _ => .inl)
    (fun b hb hp => ?_) h.exclusive h.accepted h.starts
  obtain hrun | href | hp := hpromises b hb hp
  · exact .inl hrun
  · exact .inr (.inr (.inl href))
  · exact .inr (.inr (.inr hp))

/-- A configuration is put in place that accepts what is queued. -/
theorem write (h : Follows env s) (hu : s.updates[i]? = some u) {cfg : ListenConfig R}
    (hok : ∀ b ∈ cfg.binds, Queued s b → ¬ Refuses env cfg b) :
    Follows env ({ s with cfg }.enter i .starting) where
  listeners _ _ := .inr ⟨.starting, mem_set_self hu, trivial⟩
  binds _ _ := .inr (.inr (.inr (.inl ⟨.starting, mem_set_self hu, trivial⟩)))
  exclusive := h.exclusive
  accepted := hok
  starts := h.starts

theorem compare (h : Follows env s) {cfg : ListenConfig R} (hu : s.updates[i]? = some (.comparing cfg)) :
    Follows env (s.enter i (.removing cfg (cfg.binds.filter fun b => !s.listeners.contains b)
      (s.listeners.keys.filter fun b => !cfg.binds.contains b))) := by
  refine h.moveOnly hu (fun b hrun hcfg => ?_) fun b hb hcfg => ?_
  · obtain rfl : cfg = s.cfg := hcfg
    by_cases hb : b ∈ s.cfg.binds
    · exact .inr hb
    · refine .inl (List.mem_filter.mpr ⟨(KeyMap.mem_keys_iff _ _).mpr hrun, ?_⟩)
      simpa using hb
  · obtain rfl : cfg = s.cfg := hcfg
    by_cases hrun : Running s b
    · exact .inl hrun
    · refine .inr (.inr (List.mem_filter.mpr ⟨hb, ?_⟩))
      simpa [Running] using hrun

theorem remove (h : Follows env s) {cfg : ListenConfig R} {new shutdowns : List (BindAddrConfig R)}
    (hu : s.updates[i]? = some (.removing cfg new shutdowns))
    (hok : ∀ b ∈ shutdowns, b ∈ s.cfg.binds → ¬ Running s b) :
    Follows env ((s.removeListeners shutdowns).enter i (.checking cfg new)) := by
  have hframe := removeListeners_frame s shutdowns
  have hretry : (s.removeListeners shutdowns).bindRetry = s.bindRetry := by rw [hframe]
  have hqueued (b : BindAddrConfig R) : Queued (s.removeListeners shutdowns) b ↔ Queued s b := by
    unfold Queued
    rw [hretry]
  refine h.moveUpdate hu (removeListeners_cfg s shutdowns) (removeListeners_updates s shutdowns) (by rw [hframe])
    (fun b hrun => .inl (running_removeListeners.mp hrun).1)
    (fun b hrun hremoves => absurd hremoves (running_removeListeners.mp hrun).2)
    (fun b hb hrun => running_removeListeners.mpr ⟨hrun, fun hmem => hok b hmem hb hrun⟩)
    (fun b _ hq => .inl ((hqueued b).mpr hq)) (fun b _ hp => .inr (.inr (.inr hp)))
    (fun b hq hrun => h.exclusive b ((hqueued b).mp hq) (running_removeListeners.mp hrun).1)
    (fun b hb hq => h.accepted b hb ((hqueued b).mp hq)) ?_
  unfold StartedSafely
  rw [hframe]
  exact h.starts

theorem check (h : Follows env s) {cfg : ListenConfig R} {new : List (BindAddrConfig R)}
    (hu : s.updates[i]? = some (.checking cfg new))
    (hok : ∀ b ∈ new, b ∈ s.cfg.binds → Refuses env cfg b → Refuses env s.cfg b) :
    Follows env (s.enter i (.serving cfg (new.filter (accepts env cfg)))) := by
  refine h.moveOnly hu (fun b _ hremoves => absurd hremoves id) fun b hb hp => ?_
  by_cases href : Refuses env cfg b
  · exact .inr (.inl (hok b hp hb href))
  · exact .inr (.inr (List.mem_filter.mpr ⟨hp, (accepts_iff env).mpr href⟩))

/-- A server is started for a bind that is not refused. -/
theorem start (h : Follows env s) {cfg : ListenConfig R} {new : List (BindAddrConfig R)}
    (hu : s.updates[i]? = some (.serving cfg (b :: new))) (hok : ¬ Refuses env s.cfg b) :
    Follows env ((s.start b).enter i (.served cfg b s.servers new)) := by
  refine h.moveUpdate hu rfl rfl rfl (fun _ => .inl) (fun _ _ hremoves => absurd hremoves id) (fun _ _ => id)
    (fun _ _ => .inl) (fun b' _ hp => .inr (.inr (.inr (List.mem_cons.mp hp)))) h.exclusive h.accepted ?_
  exact forall_mem_append h.starts hok

theorem clear (h : Follows env s) {cfg : ListenConfig R} {server : ℕ} {new : List (BindAddrConfig R)}
    (hu : s.updates[i]? = some (.served cfg b server new)) :
    Follows env ((s.clearRetry b).enter i (.inserting cfg b server new)) := by
  refine h.moveUpdate hu rfl rfl rfl (fun _ => .inl) (fun _ _ hremoves => absurd hremoves id) (fun _ _ => id)
    (fun b' _ hq => ?_) (fun b' _ hp => .inr (.inr (.inr hp)))
    (fun b' hq => h.exclusive b' (queued_clearRetry.mp hq).2)
    (fun b' hb hq => h.accepted b' hb (queued_clearRetry.mp hq).2) h.starts
  by_cases hb : b' = b
  · exact .inr (.inl hb)
  · exact .inl (queued_clearRetry.mpr ⟨hb, hq⟩)

theorem insert (h : Follows env s) {cfg : ListenConfig R} {server : ℕ} {new : List (BindAddrConfig R)}
    (hu : s.updates[i]? = some (.inserting cfg b server new)) (hok : Fits s b) :
    Follows env ((s.insertListener b server).enter i (.serving cfg new)) := by
  refine h.moveUpdate hu rfl rfl rfl (fun b' hrun => ?_) (fun b _ hremoves => absurd hremoves id)
    (fun b' _ hrun => running_insertListener.mpr (.inr hrun)) (fun b' _ => .inl) (fun b' _ hp => ?_)
    (fun b' hq hrun => ?_) h.accepted h.starts
  · obtain rfl | hrun := running_insertListener.mp hrun
    · exact .inr hok.1
    · exact .inl hrun
  · obtain hb | hnew := hp
    · exact .inl (running_insertListener.mpr (.inl hb))
    · exact .inr (.inr (.inr hnew))
  · obtain rfl | hrun := running_insertListener.mp hrun
    · exact hok.2 hq
    · exact h.exclusive b' hq hrun

theorem schedule (h : Follows env s) {cfg : ListenConfig R} {err : String} {new : List (BindAddrConfig R)}
    (hu : s.updates[i]? = some (.scheduling cfg b err new)) (hrunning : ¬ Running s b)
    (hok : b ∈ s.cfg.binds → ¬ Refuses env s.cfg b) :
    Follows env ((s.scheduleBindRetry b err).enter i (.serving cfg new)) := by
  refine h.moveUpdate hu rfl rfl rfl (fun _ => .inl) (fun _ _ hremoves => absurd hremoves id) (fun _ _ => id)
    (fun b' _ hq => .inl (queued_schedule.mpr (.inr hq))) (fun b' _ hp => ?_) (fun b' hq => ?_)
    (fun b' hb hq => ?_) h.starts
  · obtain hb | hnew := hp
    · exact .inr (.inl (queued_schedule.mpr (.inl hb)))
    · exact .inr (.inr (.inr hnew))
  · obtain rfl | hq := queued_schedule.mp hq
    · exact hrunning
    · exact h.exclusive b' hq
  · obtain rfl | hq := queued_schedule.mp hq
    · exact hok hb
    · exact h.accepted b' hb hq

theorem advance (h : Follows env s) (hu : s.updates[i]? = some u) {err : Option String}
    (hok : OrderlyUpdate env s err u) : Follows env (s.advance env i err u) := by
  cases u with
  | writing cfg => exact h.write hu hok
  | starting => exact h.moveOnly hu (fun b _ _ => .inl rfl) fun b _ _ => .inr (.inr rfl)
  | comparing cfg => exact h.compare hu
  | removing cfg new shutdowns => exact h.remove hu hok
  | checking cfg new => exact h.check hu hok
  | serving cfg new =>
    cases new with
    | nil =>
      exact h.moveOnly hu (fun b _ hremoves => absurd hremoves id) fun b _ hp => absurd hp List.not_mem_nil
    | cons b new =>
      cases err with
      | none => exact h.start hu (hok rfl)
      | some e =>
        refine h.moveOnly hu (fun b _ hremoves => absurd hremoves id) fun b' _ hp => ?_
        exact .inr (.inr (List.mem_cons.mp hp))
  | served cfg b server new => exact h.clear hu
  | inserting cfg b server new => exact h.insert hu hok
  | scheduling cfg b err new => exact h.schedule hu hok.1 hok.2
  | done => exact h

/-- The round moves, with what it changes in the tables. -/
theorem moveRound (h : Follows env s) {r : ℤ × Round R} (hr : s.round = some r) (hcfg : s'.cfg = s.cfg)
    (hupdates : s'.updates = s.updates)
    (hrunning : ∀ b, Running s' b → Running s b ∨ b ∈ s.cfg.binds)
    (hkept : ∀ b ∈ s.cfg.binds, Running s b → Running s' b)
    (hqueued : ∀ b ∈ s.cfg.binds, Queued s b → Queued s' b ∨ RoundPromises s' b)
    (hpromises : ∀ b ∈ s.cfg.binds, r.2.Promises b → Running s' b ∨ RoundPromises s' b)
    (hexclusive : ∀ b, Queued s' b → ¬ Running s' b)
    (haccepted : ∀ b ∈ s.cfg.binds, Queued s' b → ¬ Refuses env s.cfg b)
    (hstarts : StartedSafely env s') : Follows env s' := by
  refine ⟨fun b hb => ?_, fun b hb => ?_, hexclusive, fun b hb => ?_, hstarts⟩
  · rw [hcfg, hupdates]
    obtain hrun | hbind := hrunning b hb
    · exact h.listeners b hrun
    · exact .inl hbind
  · rw [hcfg] at hb
    rw [hcfg, hupdates]
    obtain hrun | hq | href | hother | ⟨r', hr', hp⟩ := h.binds b hb
    · exact .inl (hkept b hb hrun)
    · obtain hq | hp := hqueued b hb hq
      · exact .inr (.inl hq)
      · exact .inr (.inr (.inr (.inr hp)))
    · exact .inr (.inr (.inl href))
    · exact .inr (.inr (.inr (.inl hother)))
    · obtain rfl := Option.some.inj (hr.symm.trans hr')
      obtain hrun | hp := hpromises b hb hp
      · exact .inl hrun
      · exact .inr (.inr (.inr (.inr hp)))
  · rw [hcfg] at hb ⊢
    exact haccepted b hb

/-- The round moves and touches neither table. -/
theorem moveRoundOnly (h : Follows env s) {r : ℤ × Round R} (hr : s.round = some r)
    (hpromises : ∀ b, ¬ r.2.Promises b) (now : ℤ) (r' : Round R) : Follows env (s.enterRound now r') :=
  h.moveRound hr rfl rfl (fun _ => .inl) (fun _ _ => id) (fun _ _ => .inl) (fun b _ hp => absurd hp (hpromises b))
    h.exclusive h.accepted h.starts

theorem advanceRound (h : Follows env s) {now : ℤ} {r : Round R} (hr : s.round = some (now, r)) {err : Option String}
    (hok : OrderlyRound env s err r) : Follows env (s.advanceRound now err r) := by
  cases r with
  | starting due => exact h.moveRoundOnly hr (fun _ => id) now _
  | retrying cfg due =>
    cases due with
    | nil =>
      exact h.moveRound hr rfl rfl (fun _ => .inl) (fun _ _ => id) (fun _ _ => .inl)
        (fun _ _ hp => absurd hp id) h.exclusive h.accepted h.starts
    | cons b due =>
      simp only [State.advanceRound]
      by_cases hb : cfg.binds.contains b = true
      · rw [hb, Bool.not_true, if_neg Bool.false_ne_true]
        cases err with
        | none =>
          refine h.moveRound hr rfl rfl (fun _ => .inl) (fun _ _ => id) (fun _ _ => .inl)
            (fun _ _ hp => absurd hp id) h.exclusive h.accepted ?_
          exact forall_mem_append h.starts (hok (by simpa using hb) rfl)
        | some e => exact h.moveRoundOnly hr (fun _ => id) now _
      · rw [Bool.eq_false_iff.mpr hb, Bool.not_false, if_pos rfl]
        exact h.moveRoundOnly hr (fun _ => id) now _
  | dropping cfg b due =>
    refine h.moveRound hr rfl rfl (fun _ => .inl) (fun _ _ => id) (fun b' hb' hq => ?_)
      (fun _ _ hp => absurd hp id) (fun b' hq => h.exclusive b' (queued_clearRetry.mp hq).2)
      (fun b' hb' hq => h.accepted b' hb' (queued_clearRetry.mp hq).2) h.starts
    -- what is dropped is not configured
    have hne : b' ≠ b := fun heq => hok (heq ▸ hb')
    exact .inl (queued_clearRetry.mpr ⟨hne, hq⟩)
  | recovered cfg b server due =>
    refine h.moveRound hr rfl rfl (fun _ => .inl) (fun _ _ => id) (fun b' _ hq => ?_)
      (fun b' _ hp => .inr ⟨_, rfl, hp⟩) (fun b' hq => h.exclusive b' (queued_clearRetry.mp hq).2)
      (fun b' hb' hq => h.accepted b' hb' (queued_clearRetry.mp hq).2) h.starts
    by_cases hb : b' = b
    · exact .inr ⟨_, rfl, hb⟩
    · exact .inl (queued_clearRetry.mpr ⟨hb, hq⟩)
  | inserting cfg b server due =>
    refine h.moveRound hr rfl rfl (fun b' hrun => ?_) (fun b' _ hrun => running_insertListener.mpr (.inr hrun))
      (fun _ _ => .inl) (fun b' _ hp => .inl (running_insertListener.mpr (.inl hp))) (fun b' hq hrun => ?_)
      h.accepted h.starts
    · obtain rfl | hrun := running_insertListener.mp hrun
      · exact .inr hok.1
      · exact .inl hrun
    · obtain rfl | hrun := running_insertListener.mp hrun
      · exact hok.2 hq
      · exact h.exclusive b' hq hrun
  | failed cfg b err due =>
    have hframe := failAgain_frame s now b err
    have hrunning (b' : BindAddrConfig R) : Running (s.failAgain now b err) b' ↔ Running s b' := by rw [hframe]; rfl
    refine h.moveRound hr (by rw [State.advanceRound, hframe]; rfl) (by rw [State.advanceRound, hframe]; rfl)
      (fun b' hrun => .inl ((hrunning b').mp hrun)) (fun b' _ hrun => (hrunning b').mpr hrun)
      (fun b' _ hq => .inl (queued_failAgain.mpr hq)) (fun _ _ hp => absurd hp id)
      (fun b' hq hrun => h.exclusive b' (queued_failAgain.mp hq) ((hrunning b').mp hrun))
      (fun b' hb' hq => h.accepted b' hb' (queued_failAgain.mp hq)) ?_
    have hstarts : ((s.failAgain now b err).enterRound now (.retrying cfg due)).starts = s.starts := by
      rw [hframe]
      rfl
    unfold StartedSafely
    rw [State.advanceRound, hstarts]
    exact h.starts

/-- The clock, a round that starts and what is told to shut down are all the same to it. -/
theorem congr (h : Follows env s) (hcfg : s'.cfg = s.cfg) (hlisteners : s'.listeners = s.listeners)
    (hretry : s'.bindRetry = s.bindRetry) (hupdates : s'.updates = s.updates) (hstarts : s'.starts = s.starts)
    (hround : ∀ b, RoundPromises s b → RoundPromises s' b) : Follows env s' := by
  have hrunning (b : BindAddrConfig R) : Running s' b ↔ Running s b := by rw [Running, hlisteners]; rfl
  have hqueued (b : BindAddrConfig R) : Queued s' b ↔ Queued s b := by rw [Queued, hretry]; rfl
  refine ⟨fun b hb => ?_, fun b hb => ?_, fun b hq hrun => ?_, fun b hb hq => ?_, ?_⟩
  · rw [hcfg, hupdates]
    exact h.listeners b ((hrunning b).mp hb)
  · rw [hcfg] at hb
    rw [hrunning, hqueued, hcfg, hupdates]
    obtain hrun | hq | href | hother | hr := h.binds b hb
    · exact .inl hrun
    · exact .inr (.inl hq)
    · exact .inr (.inr (.inl href))
    · exact .inr (.inr (.inr (.inl hother)))
    · exact .inr (.inr (.inr (.inr (hround b hr))))
  · exact h.exclusive b ((hqueued b).mp hq) ((hrunning b).mp hrun)
  · rw [hcfg] at hb ⊢
    exact h.accepted b hb ((hqueued b).mp hq)
  · unfold StartedSafely
    rw [hstarts]
    exact h.starts

theorem startRound (h : Follows env s) (order : List (BindAddrConfig R)) : Follows env (s.startRound order) := by
  unfold State.startRound
  cases hr : s.round with
  | some r => exact h
  | none =>
    have hnobody (b : BindAddrConfig R) : ¬ RoundPromises s b := by
      rintro ⟨r, hr', -⟩
      rw [hr] at hr'
      cases hr'
    dsimp only
    split
    · exact h.congr rfl rfl rfl rfl rfl fun b hp => absurd hp (hnobody b)
    · exact h.congr rfl rfl rfl rfl rfl fun b hp => absurd hp (hnobody b)

theorem act (h : Follows env s) {t : ℤ} {e : Event R} (hok : Orderly env s t e) : Follows env (s.act env e) := by
  cases e with
  | reload cfg =>
    refine ⟨fun b hb => ?_, fun b hb => ?_, h.exclusive, h.accepted, h.starts⟩
    · exact (h.listeners b hb).imp id (exists_mem_append _)
    · obtain hrun | hq | href | hother | hr := h.binds b hb
      · exact .inl hrun
      · exact .inr (.inl hq)
      · exact .inr (.inr (.inl href))
      · exact .inr (.inr (.inr (.inl (exists_mem_append _ hother))))
      · exact .inr (.inr (.inr (.inr hr)))
  | tick order => exact h.startRound order
  | advance i err =>
    simp only [State.act]
    cases hu : s.updates[i]? with
    | none => exact h
    | some u => exact h.advance hu (hok u hu)
  | retry err =>
    simp only [State.act]
    cases hr : s.round with
    | none => exact h
    | some r => exact h.advanceRound hr (hok r hr)
  | shutdown =>
    simp only [State.act]
    split
    · exact h
    · exact h.congr rfl rfl rfl rfl rfl fun _ => id

end Follows

/-- **An orderly step keeps it.** -/
theorem follows_step (h : Follows env s) (t : ℤ) (e : Event R) (hok : Orderly env s t e) :
    Follows env (step env s t e) := by
  have hclock : Follows env { s with clock := max s.clock t } := h.congr rfl rfl rfl rfl rfl fun _ => id
  exact hclock.act (t := t) hok

/-! ### Servers -/

def Update.holds : Update R → Option ℕ
  | served _ _ server _ => some server
  | inserting _ _ server _ => some server
  | _ => none

def Round.holds : Round R → Option ℕ
  | recovered _ _ server _ => some server
  | inserting _ _ server _ => some server
  | _ => none

/-- The server is in the table, is told to shut down, or somebody has it in hand. -/
def Home (s : State R) (server : ℕ) : Prop :=
  (∃ b, s.listeners.get? b = some server) ∨ server ∈ s.shutdowns ∨ server ∈ s.told ∨
    (∃ u ∈ s.updates, u.holds = some server) ∨ ∃ r, s.round = some r ∧ r.2.holds = some server

/-- **No server that was started is out of sight.** -/
def Housed (s : State R) : Prop := ∀ server < s.servers, Home s server

/-- The table keeps its servers or they are to shut down. -/
theorem home_of_tables {server : ℕ} (h : Home s server)
    (htable : ∀ b, s.listeners.get? b = some server → (∃ b', s'.listeners.get? b' = some server) ∨ server ∈ s'.shutdowns)
    (hshutdowns : server ∈ s.shutdowns → server ∈ s'.shutdowns ∨ server ∈ s'.told) (htold : server ∈ s.told → server ∈ s'.told)
    (hheld : (∃ u ∈ s.updates, u.holds = some server) ∨ (∃ r, s.round = some r ∧ r.2.holds = some server) →
      Home s' server) : Home s' server := by
  obtain ⟨b, hb⟩ | hdown | ht | hu | hr := h
  · obtain hb | hdown := htable b hb
    · exact .inl hb
    · exact .inr (.inl hdown)
  · obtain hdown | ht := hshutdowns hdown
    · exact .inr (.inl hdown)
    · exact .inr (.inr (.inl ht))
  · exact .inr (.inr (.inl (htold ht)))
  · exact hheld (.inl hu)
  · exact hheld (.inr hr)

theorem removeListeners_table (s : State R) (bs : List (BindAddrConfig R)) :
    (∀ b server, s.listeners.get? b = some server →
      (∃ b', (s.removeListeners bs).listeners.get? b' = some server) ∨ server ∈ (s.removeListeners bs).shutdowns) ∧
    ∀ server ∈ s.shutdowns, server ∈ (s.removeListeners bs).shutdowns := by
  induction bs generalizing s with
  | nil => exact ⟨fun b server h => .inl ⟨b, h⟩, fun _ => id⟩
  | cons b₀ bs ih =>
    obtain ⟨htable, hdown⟩ := ih
      { s with listeners := s.listeners.erase b₀, shutdowns := s.shutdowns ++ (s.listeners.get? b₀).toList }
    refine ⟨fun b server hb => ?_, fun server hserver => hdown server (List.mem_append_left _ hserver)⟩
    by_cases heq : b₀ = b
    · subst heq
      exact .inr (hdown server (List.mem_append_right _ (by rw [hb]; exact List.mem_singleton_self _)))
    · refine htable b server ?_
      dsimp only
      rw [KeyMap.get?_erase, if_neg (by simpa using heq)]
      exact hb

theorem insertListener_table (b₀ : BindAddrConfig R) (server₀ : ℕ) {server : ℕ} (hb : s.listeners.get? b = some server) :
    (∃ b', (s.insertListener b₀ server₀).listeners.get? b' = some server) ∨
      server ∈ (s.insertListener b₀ server₀).shutdowns := by
  by_cases heq : b₀ = b
  · subst heq
    exact .inr (List.mem_append_right _ (by rw [hb]; exact List.mem_singleton_self _))
  · refine .inl ⟨b, ?_⟩
    rw [insertListener, KeyMap.get?_insert, if_neg (by simpa using heq)]
    exact hb

theorem insertListener_home (b₀ : BindAddrConfig R) (server : ℕ) :
    ∃ b', (s.insertListener b₀ server).listeners.get? b' = some server :=
  ⟨b₀, by rw [insertListener, KeyMap.get?_insert, if_pos BEq.rfl]⟩

namespace Housed

/-- An update moves; what it had in hand it still has, or is in the table. -/
theorem moveUpdate (h : Housed s) (hu : s.updates[i]? = some u) (hservers : s₁.servers = s.servers)
    (hupdates : s₁.updates = s.updates) (hround : s₁.round = s.round) (htold : s₁.told = s.told)
    (htable : ∀ b server, s.listeners.get? b = some server →
      (∃ b', s₁.listeners.get? b' = some server) ∨ server ∈ s₁.shutdowns)
    (hshutdowns : ∀ server ∈ s.shutdowns, server ∈ s₁.shutdowns)
    (hholds : ∀ server, u.holds = some server → u'.holds = some server ∨ ∃ b', s₁.listeners.get? b' = some server) :
    Housed (s₁.enter i u') := by
  intro server hserver
  have hset : (s₁.enter i u').updates = s.updates.set i u' := by rw [← hupdates]; rfl
  refine home_of_tables (h server (hservers ▸ hserver)) (fun b => htable b server)
    (fun hdown => .inl (hshutdowns server hdown)) (fun ht => by rw [← htold] at ht; exact ht) ?_
  rintro (hother | ⟨r, hr, hhold⟩)
  · obtain hself | hother := exists_mem_set_or hu u' hother
    · obtain hagain | hb := hholds server hself
      · exact .inr (.inr (.inr (.inl ⟨u', hset ▸ mem_set_self hu, hagain⟩)))
      · exact .inl hb
    · exact .inr (.inr (.inr (.inl (by rw [hset]; exact hother))))
  · exact .inr (.inr (.inr (.inr ⟨r, hround.trans hr, hhold⟩)))

/-- An update moves that has no server in hand, and does not touch the table. -/
theorem moveOnly (h : Housed s) (hu : s.updates[i]? = some u) (hservers : s₁.servers = s.servers)
    (hupdates : s₁.updates = s.updates) (hround : s₁.round = s.round) (htold : s₁.told = s.told)
    (hlisteners : s₁.listeners = s.listeners) (hshutdowns : s₁.shutdowns = s.shutdowns)
    (hholds : ∀ server, u.holds = some server → u'.holds = some server) : Housed (s₁.enter i u') :=
  h.moveUpdate hu hservers hupdates hround htold (fun b _ hb => .inl ⟨b, by rw [hlisteners]; exact hb⟩)
    (fun _ hdown => by rw [hshutdowns]; exact hdown) fun server hhold => .inl (hholds server hhold)

theorem start (h : Housed s) {cfg : ListenConfig R} {new : List (BindAddrConfig R)}
    (hu : s.updates[i]? = some u) (hholds : u.holds = none) :
    Housed ((s.start b).enter i (.served cfg b s.servers new)) := by
  intro server hserver
  have hserver : server < s.servers + 1 := hserver
  by_cases hnew : server = s.servers
  · exact .inr (.inr (.inr (.inl ⟨_, mem_set_self hu, by rw [hnew]; rfl⟩)))
  · refine home_of_tables (h server (by omega)) (fun b hb => .inl ⟨b, hb⟩) .inl id ?_
    rintro (hother | hr)
    · obtain hself | hother := exists_mem_set_or hu (.served cfg b s.servers new) hother
      · rw [hholds] at hself
        cases hself
      · exact .inr (.inr (.inr (.inl hother)))
    · exact .inr (.inr (.inr (.inr hr)))

theorem advance (h : Housed s) (hu : s.updates[i]? = some u) (err : Option String) :
    Housed (s.advance env i err u) := by
  cases u with
  | writing cfg => exact h.moveOnly hu rfl rfl rfl rfl rfl rfl nofun
  | starting => exact h.moveOnly hu rfl rfl rfl rfl rfl rfl nofun
  | comparing cfg => exact h.moveOnly hu rfl rfl rfl rfl rfl rfl nofun
  | removing cfg new shutdowns =>
    have hframe := removeListeners_frame s shutdowns
    obtain ⟨htable, hdown⟩ := removeListeners_table s shutdowns
    exact h.moveUpdate hu (by rw [hframe]) (by rw [hframe]) (by rw [hframe]) (by rw [hframe]) htable hdown nofun
  | checking cfg new => exact h.moveOnly hu rfl rfl rfl rfl rfl rfl nofun
  | serving cfg new =>
    cases new with
    | nil => exact h.moveOnly hu rfl rfl rfl rfl rfl rfl nofun
    | cons b new =>
      cases err with
      | none => exact h.start hu rfl
      | some e => exact h.moveOnly hu rfl rfl rfl rfl rfl rfl nofun
  | served cfg b server new => exact h.moveOnly hu rfl rfl rfl rfl rfl rfl fun _ => id
  | inserting cfg b server new =>
    refine h.moveUpdate hu rfl rfl rfl rfl (fun _ _ hb => insertListener_table b server hb)
      (fun _ hdown => List.mem_append_left _ hdown) fun server' hhold => ?_
    obtain rfl := Option.some.inj hhold
    exact .inr (insertListener_home b server)
  | scheduling cfg b err new => exact h.moveOnly hu rfl rfl rfl rfl rfl rfl nofun
  | done => exact h

/-- The round moves; what it had in hand it still has, or is in the table. -/
theorem moveRound (h : Housed s) {r : ℤ × Round R} (hr : s.round = some r) (hservers : s'.servers = s.servers)
    (hupdates : s'.updates = s.updates) (htold : s'.told = s.told)
    (htable : ∀ b server, s.listeners.get? b = some server →
      (∃ b', s'.listeners.get? b' = some server) ∨ server ∈ s'.shutdowns)
    (hshutdowns : ∀ server ∈ s.shutdowns, server ∈ s'.shutdowns)
    (hholds : ∀ server, r.2.holds = some server → Home s' server) : Housed s' := by
  intro server hserver
  refine home_of_tables (h server (hservers ▸ hserver)) (fun b => htable b server)
    (fun hdown => .inl (hshutdowns server hdown)) (fun ht => by rw [← htold] at ht; exact ht) ?_
  rintro (hother | ⟨r', hr', hhold⟩)
  · exact .inr (.inr (.inr (.inl (by rw [hupdates]; exact hother))))
  · obtain rfl := Option.some.inj (hr.symm.trans hr')
    exact hholds server hhold

/-- The round moves without a server in hand, and does not touch the table. -/
theorem moveRoundOnly (h : Housed s) {r : ℤ × Round R} (hr : s.round = some r) (hholds : r.2.holds = none)
    (hservers : s'.servers = s.servers) (hupdates : s'.updates = s.updates) (htold : s'.told = s.told)
    (hlisteners : s'.listeners = s.listeners) (hshutdowns : s'.shutdowns = s.shutdowns) : Housed s' := by
  refine h.moveRound hr hservers hupdates htold (fun b _ hb => .inl ⟨b, by rw [hlisteners]; exact hb⟩)
    (fun _ hdown => by rw [hshutdowns]; exact hdown) fun server hhold => ?_
  rw [hholds] at hhold
  cases hhold

theorem advanceRound (h : Housed s) {now : ℤ} {r : Round R} (hr : s.round = some (now, r)) (err : Option String) :
    Housed (s.advanceRound now err r) := by
  cases r with
  | starting due => exact h.moveRoundOnly hr rfl rfl rfl rfl rfl rfl
  | retrying cfg due =>
    cases due with
    | nil => exact h.moveRoundOnly hr rfl rfl rfl rfl rfl rfl
    | cons b due =>
      simp only [State.advanceRound]
      split
      · exact h.moveRoundOnly hr rfl rfl rfl rfl rfl rfl
      · cases err with
        | some e => exact h.moveRoundOnly hr rfl rfl rfl rfl rfl rfl
        | none =>
          intro server hserver
          have hserver : server < s.servers + 1 := hserver
          by_cases hnew : server = s.servers
          · exact .inr (.inr (.inr (.inr ⟨_, rfl, by rw [hnew]; rfl⟩)))
          · refine home_of_tables (h server (by omega)) (fun b hb => .inl ⟨b, hb⟩) .inl id ?_
            rintro (hother | ⟨r, hr', hhold⟩)
            · exact .inr (.inr (.inr (.inl hother)))
            · obtain rfl := Option.some.inj (hr.symm.trans hr')
              cases hhold
  | dropping cfg b due => exact h.moveRoundOnly hr rfl rfl rfl rfl rfl rfl
  | recovered cfg b server due =>
    exact h.moveRound hr rfl rfl rfl (fun b _ hb => .inl ⟨b, hb⟩) (fun _ => id)
      fun _ hhold => .inr (.inr (.inr (.inr ⟨_, rfl, hhold⟩)))
  | inserting cfg b server due =>
    refine h.moveRound hr rfl rfl rfl (fun _ _ hb => insertListener_table b server hb)
      (fun _ hdown => List.mem_append_left _ hdown) fun server' hhold => ?_
    obtain rfl := Option.some.inj hhold
    exact .inl (insertListener_home b server)
  | failed cfg b err due =>
    have hframe := failAgain_frame s now b err
    exact h.moveRoundOnly hr rfl (by rw [State.advanceRound, hframe]; rfl) (by rw [State.advanceRound, hframe]; rfl)
      (by rw [State.advanceRound, hframe]; rfl) (by rw [State.advanceRound, hframe]; rfl)
      (by rw [State.advanceRound, hframe]; rfl)

end Housed

/-- **Every step keeps the servers in sight.** -/
theorem housed_step (h : Housed s) (t : ℤ) (e : Event R) : Housed (step env s t e) := by
  have hclock : Housed { s with clock := max s.clock t } := h
  unfold step
  generalize ({ s with clock := max s.clock t } : State R) = s₁ at hclock ⊢
  cases e with
  | reload cfg =>
    intro server hserver
    refine home_of_tables (hclock server hserver) (fun b hb => .inl ⟨b, hb⟩) .inl id ?_
    rintro (hother | hr)
    · exact .inr (.inr (.inr (.inl (exists_mem_append _ hother))))
    · exact .inr (.inr (.inr (.inr hr)))
  | tick order =>
    simp only [act, startRound]
    cases hr : s₁.round with
    | some r => exact hclock
    | none =>
      have hmove {s' : State R} (hservers : s'.servers = s₁.servers) (hupdates : s'.updates = s₁.updates)
          (htold : s'.told = s₁.told) (hlisteners : s'.listeners = s₁.listeners)
          (hshutdowns : s'.shutdowns = s₁.shutdowns) : Housed s' := by
        intro server hserver
        refine home_of_tables (hclock server (hservers ▸ hserver)) (fun b hb => .inl ⟨b, by rw [hlisteners]; exact hb⟩)
          (fun hdown => .inl (by rw [hshutdowns]; exact hdown)) (fun ht => by rw [htold]; exact ht) ?_
        rintro (hother | ⟨r, hr', -⟩)
        · exact .inr (.inr (.inr (.inl (by rw [hupdates]; exact hother))))
        · rw [hr] at hr'
          cases hr'
      dsimp only
      split
      · exact hmove rfl rfl rfl rfl rfl
      · exact hmove rfl rfl rfl rfl rfl
  | advance i err =>
    simp only [act]
    cases hu : s₁.updates[i]? with
    | none => exact hclock
    | some u => exact hclock.advance hu err
  | retry err =>
    simp only [act]
    cases hr : s₁.round with
    | none => exact hclock
    | some r => exact hclock.advanceRound hr err
  | shutdown =>
    simp only [act]
    cases hdown : s₁.shutdowns with
    | nil => exact hclock
    | cons server₀ rest =>
      intro server hserver
      refine home_of_tables (hclock server hserver) (fun b hb => .inl ⟨b, hb⟩) (fun hmem => ?_)
        (fun ht => List.mem_append_left _ ht) ?_
      · rw [hdown] at hmem
        obtain rfl | hmem := List.mem_cons.mp hmem
        · exact .inr (List.mem_append_right _ (List.mem_singleton_self _))
        · exact .inl hmem
      · rintro (hother | hr)
        · exact .inr (.inr (.inr (.inl hother)))
        · exact .inr (.inr (.inr (.inr hr)))

/-! ### Retries in time -/

/-- What the round has still to deal with. -/
def Round.left : Round R → List (BindAddrConfig R)
  | starting due => due
  | retrying _ due => due
  | dropping _ b due => b :: due
  | recovered _ b _ due => b :: due
  | inserting _ _ _ due => due
  | failed _ b _ due => b :: due

/-- What was due at a round is not due any more, or the round has still to deal with it. -/
structure Timed (s : State R) : Prop where
  last : ∀ now, s.lastRound = some now → now ≤ s.clock ∧ ∀ b state, s.bindRetry.get? b = some state → now < state.nextAt
  round : ∀ now r, s.round = some (now, r) → now ≤ s.clock ∧ (∀ last, s.lastRound = some last → last ≤ now) ∧
    ∀ b state, s.bindRetry.get? b = some state → state.nextAt ≤ now → b ∈ r.left

theorem get?_clearRetry {state : BindRetry} (h : (s.clearRetry b).bindRetry.get? b' = some state) :
    b' ≠ b ∧ s.bindRetry.get? b' = some state := by
  rw [clearRetry, KeyMap.get?_erase] at h
  by_cases heq : b = b'
  · rw [if_pos (by simpa using heq)] at h
    cases h
  · rw [if_neg (by simpa using heq)] at h
    exact ⟨Ne.symm heq, h⟩

theorem get?_schedule {err : String} {state : BindRetry}
    (h : (s.scheduleBindRetry b err).bindRetry.get? b' = some state) :
    s.bindRetry.get? b' = some state ∨ s.clock < state.nextAt := by
  rw [scheduleBindRetry, KeyMap.get?_update] at h
  by_cases heq : b = b'
  · rw [if_pos (by simpa using heq)] at h
    obtain rfl := Option.some.inj h
    right
    cases s.bindRetry.get? b' with
    | none => exact BindRetry.lt_nextAt_new _ _
    | some state => exact BindRetry.lt_nextAt_failedAgain _ _ _
  · rw [if_neg (by simpa using heq)] at h
    exact .inl h

theorem get?_failAgain {now : ℤ} {err : String} {state : BindRetry}
    (h : (s.failAgain now b err).bindRetry.get? b' = some state) :
    (b' ≠ b ∧ s.bindRetry.get? b' = some state) ∨ now < state.nextAt := by
  unfold failAgain at h
  cases hb : s.bindRetry.get? b with
  | none =>
    rw [hb] at h
    refine .inl ⟨?_, h⟩
    rintro rfl
    rw [hb] at h
    cases h
  | some old =>
    rw [hb] at h
    dsimp only at h
    rw [KeyMap.get?_insert] at h
    by_cases heq : b = b'
    · rw [if_pos (by simpa using heq)] at h
      obtain rfl := Option.some.inj h
      exact .inr (BindRetry.lt_nextAt_failedAgain _ _ _)
    · rw [if_neg (by simpa using heq)] at h
      exact .inl ⟨Ne.symm heq, h⟩

theorem mem_dueBinds {state : BindRetry} {now : ℤ} (h : s.bindRetry.get? b = some state) (hdue : state.nextAt ≤ now) :
    b ∈ s.dueBinds now := by
  obtain ⟨k, hk, hmem⟩ := (KeyMap.get?_eq_some_iff _ _ _).mp h
  obtain rfl : k = b := by simpa using hk
  exact List.mem_map.mpr ⟨(k, state), List.mem_filter.mpr ⟨hmem, decide_eq_true hdue⟩, rfl⟩

theorem mem_dueInOrder {order : List (BindAddrConfig R)} (h : b ∈ s.dueBinds s.clock) : b ∈ s.dueInOrder order := by
  unfold dueInOrder
  split
  · rename_i hperm
    exact (List.isPerm_iff.mp hperm).mem_iff.mpr h
  · exact h

namespace Timed

/-- The queue changes by what is removed and by what is put off from now on. -/
theorem queue (h : Timed s) (hclock : s.clock ≤ s'.clock) (hlast : s'.lastRound = s.lastRound)
    (hround : s'.round = s.round)
    (hqueue : ∀ b state, s'.bindRetry.get? b = some state → s.bindRetry.get? b = some state ∨ s.clock < state.nextAt) :
    Timed s' := by
  refine ⟨fun now hnow => ?_, fun now r hr => ?_⟩
  · rw [hlast] at hnow
    obtain ⟨hle, hlater⟩ := h.last now hnow
    refine ⟨hle.trans hclock, fun b state hb => ?_⟩
    obtain hb | hlt := hqueue b state hb
    · exact hlater b state hb
    · omega
  · rw [hround] at hr
    rw [hlast]
    obtain ⟨hle, hsince, hleft⟩ := h.round now r hr
    refine ⟨hle.trans hclock, hsince, fun b state hb hdue => ?_⟩
    obtain hb | hlt := hqueue b state hb
    · exact hleft b state hb hdue
    · omega

theorem moveRound (h : Timed s) {now : ℤ} {r r' : Round R} (hr : s.round = some (now, r)) (hclock : s'.clock = s.clock)
    (hlast : s'.lastRound = s.lastRound) (hround : s'.round = some (now, r'))
    (hqueue : ∀ b state, s'.bindRetry.get? b = some state →
      (s.bindRetry.get? b = some state ∧ (b ∈ r.left → b ∈ r'.left)) ∨ now < state.nextAt) : Timed s' := by
  obtain ⟨hle, hsince, hleft⟩ := h.round now r hr
  refine ⟨fun last hl => ?_, fun now' r'' hr' => ?_⟩
  · rw [hlast] at hl
    refine ⟨hclock ▸ (h.last last hl).1, fun b state hb => ?_⟩
    obtain ⟨hb, -⟩ | hlt := hqueue b state hb
    · exact (h.last last hl).2 b state hb
    · exact lt_of_le_of_lt (hsince last hl) hlt
  · rw [hround] at hr'
    cases hr'
    rw [hlast, hclock]
    refine ⟨hle, hsince, fun b state hb hdue => ?_⟩
    obtain ⟨hb, hmem⟩ | hlt := hqueue b state hb
    · exact hmem (hleft b state hb hdue)
    · omega

theorem advance (h : Timed s) (err : Option String) : Timed (s.advance env i err u) := by
  cases u with
  | removing cfg new shutdowns =>
    have hframe := removeListeners_frame s shutdowns
    refine h.queue ?_ ?_ ?_ fun b state hb => ?_
    · rw [State.advance, hframe]
      exact le_refl s.clock
    · rw [State.advance, hframe]
      rfl
    · rw [State.advance, hframe]
      rfl
    · rw [State.advance, hframe] at hb
      exact .inl hb
  | serving cfg new =>
    cases new with
    | nil => exact h.queue (le_refl _) rfl rfl fun _ _ => .inl
    | cons b new =>
      cases err with
      | none => exact h.queue (le_refl _) rfl rfl fun _ _ => .inl
      | some e => exact h.queue (le_refl _) rfl rfl fun _ _ => .inl
  | served cfg b server new => exact h.queue (le_refl _) rfl rfl fun _ _ hb => .inl (get?_clearRetry hb).2
  | scheduling cfg b err new => exact h.queue (le_refl _) rfl rfl fun _ _ hb => get?_schedule hb
  | writing cfg => exact h.queue (le_refl _) rfl rfl fun _ _ => .inl
  | starting => exact h.queue (le_refl _) rfl rfl fun _ _ => .inl
  | comparing cfg => exact h.queue (le_refl _) rfl rfl fun _ _ => .inl
  | checking cfg new => exact h.queue (le_refl _) rfl rfl fun _ _ => .inl
  | inserting cfg b server new => exact h.queue (le_refl _) rfl rfl fun _ _ => .inl
  | done => exact h

theorem advanceRound (h : Timed s) {now : ℤ} {r : Round R} (hr : s.round = some (now, r)) (err : Option String) :
    Timed (s.advanceRound now err r) := by
  cases r with
  | starting due => exact h.moveRound hr rfl rfl rfl fun _ _ hb => .inl ⟨hb, id⟩
  | retrying cfg due =>
    cases due with
    | nil =>
      obtain ⟨hle, -, hleft⟩ := h.round now _ hr
      refine ⟨fun now' hnow => ?_, fun now' r' hr' => absurd hr' (Option.some_ne_none _).symm⟩
      obtain rfl := Option.some.inj hnow
      refine ⟨hle, fun b state hb => ?_⟩
      by_contra hdue
      exact List.not_mem_nil (hleft b state hb (by omega))
    | cons b due =>
      simp only [State.advanceRound]
      split
      · exact h.moveRound hr rfl rfl rfl fun _ _ hb => .inl ⟨hb, id⟩
      · cases err with
        | none => exact h.moveRound hr rfl rfl rfl fun _ _ hb => .inl ⟨hb, id⟩
        | some e => exact h.moveRound hr rfl rfl rfl fun _ _ hb => .inl ⟨hb, id⟩
  | dropping cfg b due =>
    refine h.moveRound hr rfl rfl rfl fun b' state hb => ?_
    obtain ⟨hne, hb⟩ := get?_clearRetry hb
    exact .inl ⟨hb, fun hmem => (List.mem_cons.mp hmem).resolve_left hne⟩
  | recovered cfg b server due =>
    refine h.moveRound hr rfl rfl rfl fun b' state hb => ?_
    obtain ⟨hne, hb⟩ := get?_clearRetry hb
    exact .inl ⟨hb, fun hmem => (List.mem_cons.mp hmem).resolve_left hne⟩
  | inserting cfg b server due => exact h.moveRound hr rfl rfl rfl fun _ _ hb => .inl ⟨hb, id⟩
  | failed cfg b err due =>
    have hframe := failAgain_frame s now b err
    refine h.moveRound hr ?_ ?_ rfl fun b' state hb => ?_
    · rw [State.advanceRound, hframe]
      rfl
    · rw [State.advanceRound, hframe]
      rfl
    · obtain ⟨hne, hb⟩ | hlt := get?_failAgain hb
      · exact .inl ⟨hb, fun hmem => (List.mem_cons.mp hmem).resolve_left hne⟩
      · exact .inr hlt

theorem startRound (h : Timed s) (order : List (BindAddrConfig R)) : Timed (s.startRound order) := by
  unfold State.startRound
  cases hr : s.round with
  | some r => exact h
  | none =>
    have hdue (b : BindAddrConfig R) (state : BindRetry) (hb : s.bindRetry.get? b = some state)
        (hle : state.nextAt ≤ s.clock) : b ∈ s.dueInOrder order := mem_dueInOrder (mem_dueBinds hb hle)
    dsimp only
    split
    · rename_i hempty
      refine ⟨fun now hnow => ?_, fun now r hr' => ?_⟩
      · obtain rfl := Option.some.inj hnow
        refine ⟨le_refl s.clock, fun b state hb => ?_⟩
        by_contra hle
        have hmem := hdue b state hb (by omega)
        rw [List.isEmpty_iff.mp hempty] at hmem
        exact List.not_mem_nil hmem
      · have hnone : none = some (now, r) := hr'
        cases hnone
    · refine ⟨h.last, fun now r hr' => ?_⟩
      cases hr'
      exact ⟨le_refl s.clock, fun last hl => (h.last last hl).1, hdue⟩

end Timed

/-- **Every step keeps the retries in time.** -/
theorem timed_step (h : Timed s) (t : ℤ) (e : Event R) : Timed (step env s t e) := by
  have hclock : Timed { s with clock := max s.clock t } := h.queue (le_max_left _ _) rfl rfl fun _ _ => .inl
  unfold step
  generalize ({ s with clock := max s.clock t } : State R) = s₁ at hclock ⊢
  cases e with
  | reload cfg => exact hclock.queue (le_refl _) rfl rfl fun _ _ => .inl
  | tick order => exact hclock.startRound order
  | advance i err =>
    simp only [act]
    cases hu : s₁.updates[i]? with
    | none => exact hclock
    | some u => exact hclock.advance err
  | retry err =>
    simp only [act]
    cases hr : s₁.round with
    | none => exact hclock
    | some r => exact hclock.advanceRound hr err
  | shutdown =>
    simp only [act]
    split
    · exact hclock
    · exact hclock.queue (le_refl _) rfl rfl fun _ _ => .inl

/-! ### A console that lost its token -/

section

variable (env)

/-- No bind that runs, or is about to, is refused. -/
def AcceptsUpdate (s : State R) : Update R → Prop
  | .writing cfg => ∀ b, Running s b → ¬ Refuses env cfg b
  | .inserting _ b _ _ => ¬ Refuses env s.cfg b
  | _ => True

def AcceptsRound (s : State R) : Round R → Prop
  | .inserting _ b _ _ => ¬ Refuses env s.cfg b
  | _ => True

def AcceptsRunning (s : State R) (_ : ℤ) : Event R → Prop
  | .advance i _ => ∀ u, s.updates[i]? = some u → AcceptsUpdate env s u
  | .retry _ => ∀ r, s.round = some r → AcceptsRound env s r.2
  | _ => True

end

def RunningAccepted (env : Option (List Char)) (s : State R) : Prop := ∀ b, Running s b → ¬ Refuses env s.cfg b

theorem runningAccepted_insert (h : RunningAccepted env s) (server : ℕ) (hok : ¬ Refuses env s.cfg b) :
    RunningAccepted env (s.insertListener b server) := by
  intro b' hrun
  obtain rfl | hrun := running_insertListener.mp hrun
  · exact hok
  · exact h b' hrun

theorem runningAccepted_advance (h : RunningAccepted env s) (hok : AcceptsUpdate env s u) (i : ℕ) (err : Option String) :
    RunningAccepted env (s.advance env i err u) := by
  cases u with
  | writing cfg => exact hok
  | removing cfg new shutdowns =>
    intro b hrun
    have hcfg : ((s.removeListeners shutdowns).enter i (.checking cfg new)).cfg = s.cfg :=
      removeListeners_cfg s shutdowns
    rw [State.advance, hcfg]
    exact h b (running_removeListeners.mp hrun).1
  | serving cfg new =>
    cases new with
    | nil => exact h
    | cons b new =>
      cases err with
      | none => exact h
      | some e => exact h
  | inserting cfg b server new => exact runningAccepted_insert h server hok
  | starting => exact h
  | comparing cfg => exact h
  | checking cfg new => exact h
  | served cfg b server new => exact h
  | scheduling cfg b err new => exact h
  | done => exact h

theorem runningAccepted_advanceRound (h : RunningAccepted env s) {r : Round R} (hok : AcceptsRound env s r) (now : ℤ)
    (err : Option String) : RunningAccepted env (s.advanceRound now err r) := by
  cases r with
  | inserting cfg b server due => exact runningAccepted_insert h server hok
  | failed cfg b err due =>
    have hframe := failAgain_frame s now b err
    rw [State.advanceRound, hframe]
    exact h
  | retrying cfg due =>
    cases due with
    | nil => exact h
    | cons b due =>
      simp only [State.advanceRound]
      split
      · exact h
      · cases err with
        | none => exact h
        | some e => exact h
  | starting due => exact h
  | dropping cfg b due => exact h
  | recovered cfg b server due => exact h

theorem runningAccepted_step (h : RunningAccepted env s) (t : ℤ) (e : Event R) (hok : AcceptsRunning env s t e) :
    RunningAccepted env (step env s t e) := by
  have hclock : RunningAccepted env { s with clock := max s.clock t } := h
  have hok : AcceptsRunning env { s with clock := max s.clock t } t e := hok
  unfold step
  generalize ({ s with clock := max s.clock t } : State R) = s₁ at hclock hok ⊢
  cases e with
  | reload cfg => exact hclock
  | tick order =>
    simp only [act, startRound]
    split
    · exact hclock
    · split <;> exact hclock
  | advance i err =>
    simp only [act]
    cases hu : s₁.updates[i]? with
    | none => exact hclock
    | some u => exact runningAccepted_advance hclock (hok u hu) i err
  | retry err =>
    simp only [act]
    cases hr : s₁.round with
    | none => exact hclock
    | some r => exact runningAccepted_advanceRound hclock (hok r hr) r.1 err
  | shutdown =>
    simp only [act]
    split <;> exact hclock

/-! ### The start, and when nothing is in progress -/

theorem follows_started (env : Option (List Char)) (cfg : ListenConfig R) : Follows env (started cfg) where
  listeners b hrun := absurd hrun (by simp [Running, started, KeyMap.contains])
  binds b _ := .inr (.inr (.inr (.inl ⟨.starting, List.mem_singleton_self _, trivial⟩)))
  exclusive b hq := absurd hq (by simp [Queued, started, KeyMap.contains])
  accepted b _ hq := absurd hq (by simp [Queued, started, KeyMap.contains])
  starts e he := absurd he List.not_mem_nil

theorem runningAccepted_started (env : Option (List Char)) (cfg : ListenConfig R) : RunningAccepted env (started cfg) :=
  fun _ hrun => absurd hrun (by simp [Running, started, KeyMap.contains])

theorem timed_started (cfg : ListenConfig R) : Timed (started cfg) where
  last last hlast := absurd hlast (Option.some_ne_none last).symm
  round now r hr := absurd hr (Option.some_ne_none (now, r)).symm

/-- When nothing is in progress the servers outside the table have been told to shut down. -/
theorem Housed.told (h : Housed s) (hquiet : Quiet s) {server : ℕ} (hserver : server < s.servers) :
    (∃ b, s.listeners.get? b = some server) ∨ server ∈ s.told := by
  obtain ⟨hdone, hround, hdown⟩ := hquiet
  obtain hb | hmem | ht | ⟨u, hu, hhold⟩ | ⟨r, hr, -⟩ := h server hserver
  · exact .inl hb
  · rw [hdown] at hmem
    exact absurd hmem List.not_mem_nil
  · exact .inr ht
  · rw [hdone u hu] at hhold
    cases hhold
  · rw [hround] at hr
    cases hr

theorem Follows.settled (h : Follows env s) (hhoused : Housed s) (htimed : Timed s) (hquiet : Quiet s) :
    Settled env s := by
  have hquiet' := hquiet
  obtain ⟨hdone, hround, -⟩ := hquiet
  refine ⟨fun b hrun => ?_, fun b hb => ?_, fun server hserver => hhoused.told hquiet' hserver,
    fun b state hstate => ⟨h.exclusive b (queued_of_get? hstate), fun now hnow hdue => ?_⟩⟩
  · obtain hb | ⟨u, hu, hremoves⟩ := h.listeners b hrun
    · exact hb
    · rw [hdone u hu] at hremoves
      exact absurd hremoves id
  · by_cases hrun : Running s b
    · exact .inl ⟨hrun, fun hq => h.exclusive b hq hrun, fun href => href.1 hrun⟩
    · by_cases hq : Queued s b
      · exact .inr (.inl ⟨hrun, hq, fun href => h.accepted b hb hq href.2⟩)
      · refine .inr (.inr ⟨hrun, hq, hrun, ?_⟩)
        obtain hrun' | hq' | href | ⟨u, hu, hp⟩ | ⟨r, hr, -⟩ := h.binds b hb
        · exact absurd hrun' hrun
        · exact absurd hq' hq
        · exact href
        · rw [hdone u hu] at hp
          exact absurd hp id
        · rw [hround] at hr
          cases hr
  · -- what was due at the last round is not in the queue any more
    have hlt := (htimed.last now hnow).2 b state hstate
    have hle : state.nextAt ≤ now := of_decide_eq_true hdue
    omega

end Listeners
end App
end SmartDns
