/-
# Steps in time

A bind that an update or a round has in hand is in nobody else's, is not running, and once
its entry in the queue is gone it is not queued again (`Hands`). What an update or a round
goes through fits the configuration that it took (`Sound`). So a step in time, one that is
not overtaken where it acts, is orderly, and the listeners follow the configuration.

Key definitions: `Sound`, `Hands`.
Key theorems: `sound_step`, `hands_step`, `orderly_of_inTime`, `listeners_follow`.
-/
import SmartDns.App.Following

namespace SmartDns
namespace App
namespace Listeners

open Dns Lib State

variable {R : Type} [DecidableEq R] {env : Option (List Char)} {s s' s₁ : State R} {i : ℕ} {u u' : Update R}
  {b : BindAddrConfig R}

/-! ### What was taken from the configuration -/

section

variable (env)

def Accepted (cfg : ListenConfig R) (b : BindAddrConfig R) : Prop := b ∈ cfg.binds ∧ ¬ Refuses env cfg b

def Update.Sound : Update R → Prop
  | removing cfg new shutdowns => (∀ b ∈ new, b ∈ cfg.binds) ∧ ∀ b ∈ shutdowns, b ∉ cfg.binds
  | checking cfg new => ∀ b ∈ new, b ∈ cfg.binds
  | serving cfg new => ∀ b ∈ new, Accepted env cfg b
  | served cfg b _ new => ∀ b' ∈ b :: new, Accepted env cfg b'
  | inserting cfg b _ new => ∀ b' ∈ b :: new, Accepted env cfg b'
  | scheduling cfg b _ new => ∀ b' ∈ b :: new, Accepted env cfg b'
  | _ => True

def Round.Sound : Round R → Prop
  | dropping cfg b _ => b ∉ cfg.binds
  | recovered cfg b _ _ => Accepted env cfg b
  | inserting cfg b _ _ => Accepted env cfg b
  | _ => True

structure Sound (s : State R) : Prop where
  updates : ∀ u ∈ s.updates, u.Sound env
  round : ∀ r, s.round = some r → r.2.Sound env

end

namespace Sound

theorem enter (h : Sound env s) (hupdates : s₁.updates = s.updates) (hround : s₁.round = s.round)
    (hnew : u'.Sound env) : Sound env (s₁.enter i u') where
  updates := by
    show ∀ u ∈ s₁.updates.set i u', u.Sound env
    rw [hupdates]
    exact forall_mem_set h.updates hnew
  round r hr := h.round r (hround ▸ hr)

theorem enterRound (h : Sound env s) {now : ℤ} {r : Round R} (hupdates : s₁.updates = s.updates)
    (hnew : r.Sound env) : Sound env (s₁.enterRound now r) where
  updates := by
    show ∀ u ∈ s₁.updates, u.Sound env
    rw [hupdates]
    exact h.updates
  round r' hr := by
    obtain rfl := Option.some.inj hr
    exact hnew

theorem advance (h : Sound env s) (hu : s.updates[i]? = some u) (err : Option String) :
    Sound env (s.advance env i err u) := by
  have hsound : u.Sound env := h.updates u (List.mem_of_getElem? hu)
  cases u with
  | writing cfg => exact h.enter rfl rfl trivial
  | starting => exact h.enter rfl rfl trivial
  | comparing cfg =>
    refine h.enter rfl rfl ⟨fun b hb => (List.mem_filter.mp hb).1, fun b hb hmem => ?_⟩
    have hnot := (List.mem_filter.mp hb).2
    rw [List.contains_iff_mem.mpr hmem] at hnot
    cases hnot
  | removing cfg new shutdowns =>
    have hround : (s.removeListeners shutdowns).round = s.round := by rw [removeListeners_frame]
    exact h.enter (removeListeners_updates s shutdowns) hround hsound.1
  | checking cfg new =>
    refine h.enter rfl rfl fun b hb => ?_
    obtain ⟨hb, hok⟩ := List.mem_filter.mp hb
    exact ⟨hsound b hb, (accepts_iff env).mp hok⟩
  | serving cfg new =>
    cases new with
    | nil => exact h.enter rfl rfl trivial
    | cons b new =>
      cases err with
      | none => exact h.enter rfl rfl hsound
      | some e => exact h.enter rfl rfl hsound
  | served cfg b server new => exact h.enter rfl rfl hsound
  | inserting cfg b server new => exact h.enter rfl rfl fun b' hb' => hsound b' (List.mem_cons_of_mem _ hb')
  | scheduling cfg b e new => exact h.enter rfl rfl fun b' hb' => hsound b' (List.mem_cons_of_mem _ hb')
  | done => exact h

/-- What a round starts in time is not refused, since it waits. -/
theorem advanceRound (h : Sound env s) (hfollows : Follows env s) {now : ℤ} {r : Round R} (hr : s.round = some (now, r))
    {err : Option String} (hok : InTimeRound env s err r) : Sound env (s.advanceRound now err r) := by
  have hsound : r.Sound env := h.round _ hr
  cases r with
  | starting due => exact h.enterRound rfl trivial
  | retrying cfg due =>
    cases due with
    | nil => exact ⟨h.updates, fun r hr => absurd hr (Option.some_ne_none r).symm⟩
    | cons b due =>
      simp only [State.advanceRound]
      by_cases hb : cfg.binds.contains b = true
      · rw [hb, Bool.not_true, if_neg Bool.false_ne_true]
        cases err with
        | none =>
          have hb := List.contains_iff_mem.mp hb
          obtain ⟨hsame, hqueued, -⟩ := hok hb rfl
          have hnot := hfollows.accepted b (hsame.1.mp hb) hqueued
          exact h.enterRound rfl ⟨hb, fun href => hnot (hsame.2.mp href)⟩
        | some e => exact h.enterRound rfl trivial
      · rw [Bool.eq_false_iff.mpr hb, Bool.not_false, if_pos rfl]
        exact h.enterRound rfl fun hmem => hb (List.contains_iff_mem.mpr hmem)
  | dropping cfg b due => exact h.enterRound rfl trivial
  | recovered cfg b server due => exact h.enterRound rfl hsound
  | inserting cfg b server due => exact h.enterRound rfl trivial
  | failed cfg b e due =>
    have hupdates : (s.failAgain now b e).updates = s.updates := by rw [failAgain_frame]
    exact h.enterRound hupdates trivial

theorem congr (h : Sound env s) (hupdates : s'.updates = s.updates)
    (hround : s'.round = s.round ∨ ∃ now due, s'.round = some (now, .starting due)) : Sound env s' where
  updates := hupdates ▸ h.updates
  round r hr := by
    obtain heq | ⟨now, due, heq⟩ := hround
    · exact h.round r (heq ▸ hr)
    · obtain rfl := Option.some.inj (heq.symm.trans hr)
      trivial

theorem startRound (h : Sound env s) (order : List (BindAddrConfig R)) : Sound env (s.startRound order) := by
  unfold State.startRound
  split
  · exact h
  · split
    · exact h.congr rfl (.inl rfl)
    · exact h.congr rfl (.inr ⟨_, _, rfl⟩)

end Sound

/-- **What is taken in time fits the configuration that it was taken from.** -/
theorem sound_step (h : Sound env s) (hfollows : Follows env s) (t : ℤ) (e : Event R) (hok : InTime env s t e) :
    Sound env (step env s t e) := by
  have hclock : Sound env { s with clock := max s.clock t } := h.congr rfl (.inl rfl)
  have hfollows : Follows env { s with clock := max s.clock t } :=
    hfollows.congr rfl rfl rfl rfl rfl fun _ => id
  have hok : InTime env { s with clock := max s.clock t } t e := hok
  unfold step
  generalize ({ s with clock := max s.clock t } : State R) = s₁ at hclock hfollows hok ⊢
  cases e with
  | reload cfg => exact ⟨forall_mem_append hclock.updates trivial, hclock.round⟩
  | tick order => exact hclock.startRound order
  | advance i err =>
    simp only [act]
    cases hu : s₁.updates[i]? with
    | none => exact hclock
    | some u => exact hclock.advance hu err
  | retry err =>
    simp only [act]
    cases hr : s₁.round with
    | none => exact hclock
    | some r => exact hclock.advanceRound hfollows hr (hok r hr)
  | shutdown =>
    simp only [act]
    split
    · exact hclock
    · exact hclock.congr rfl (.inl rfl)

/-! ### Who has a bind in hand -/

/-- The bind of a server that is to go into the table, its entry in the queue gone. -/
def Update.cleared : Update R → Option (BindAddrConfig R)
  | inserting _ b _ _ => some b
  | _ => none

def Round.cleared : Round R → Option (BindAddrConfig R)
  | inserting _ b _ _ => some b
  | _ => none

namespace State

def cleared (s : State R) : Option ℕ → Option (BindAddrConfig R)
  | some i => s.updates[i]?.bind Update.cleared
  | none => s.round.bind fun r => r.2.cleared

omit [DecidableEq R] in
theorem inHand_of_cleared_update (h : u.cleared = some b) : u.inHand = some b := by
  cases u with
  | inserting cfg b server new => exact h
  | _ => cases h

omit [DecidableEq R] in
theorem inHand_of_cleared_round {r : Round R} (h : r.cleared = some b) : r.inHand = some b := by
  cases r with
  | inserting cfg b server due => exact h
  | _ => cases h

theorem inHand_of_cleared {place : Option ℕ} (h : s.cleared place = some b) : s.inHand place = some b := by
  cases place with
  | some i =>
    obtain ⟨u, hu, hcleared⟩ := Option.bind_eq_some_iff.mp h
    exact Option.bind_eq_some_iff.mpr ⟨u, hu, inHand_of_cleared_update hcleared⟩
  | none =>
    obtain ⟨r, hr, hcleared⟩ := Option.bind_eq_some_iff.mp h
    exact Option.bind_eq_some_iff.mpr ⟨r, hr, inHand_of_cleared_round hcleared⟩

end State

/-- Nobody has in hand what another has, what runs, or, once its entry is gone, what is queued. -/
structure Hands (s : State R) : Prop where
  one : ∀ place place' b, s.inHand place = some b → s.inHand place' = some b → place = place'
  free : ∀ place b, s.inHand place = some b → ¬ Running s b
  cleared : ∀ place b, s.cleared place = some b → ¬ Queued s b

namespace Hands

/-- One of them moves: it enters only what it had in hand, and takes in hand only what is free. -/
theorem move (h : Hands s) (place : Option ℕ)
    (hother : ∀ place', place' ≠ place → s'.inHand place' = s.inHand place' ∧ s'.cleared place' = s.cleared place')
    (hrunning : ∀ b, Running s' b → Running s b ∨ s.inHand place = some b ∧ s'.inHand place = none)
    (hqueued : ∀ b, Queued s' b → Queued s b ∨ s.inHand place = some b)
    (htaken : ∀ b, s'.inHand place = some b → s.inHand place = some b ∨ ¬ InHand s b ∧ ¬ Running s b)
    (hcleared : ∀ b, s'.cleared place = some b → ¬ Queued s' b) : Hands s' := by
  -- what the one that moves has now, nobody else had before
  have halone (place' : Option ℕ) (b : BindAddrConfig R) (hne : place' ≠ place) (hb : s'.inHand place = some b) :
      s'.inHand place' ≠ some b := by
    intro hb'
    rw [(hother place' hne).1] at hb'
    obtain hown | ⟨hnot, -⟩ := htaken b hb
    · exact hne (h.one _ _ b hb' hown)
    · exact hnot ⟨place', hb'⟩
  refine ⟨fun p p' b hp hp' => ?_, fun p b hp hrun => ?_, fun p b hp hq => ?_⟩
  · by_cases heq : p = place
    · subst heq
      by_contra hne
      exact halone p' b (Ne.symm hne) hp hp'
    · by_cases heq' : p' = place
      · subst heq'
        exact absurd hp (halone p b heq hp')
      · rw [(hother p heq).1] at hp
        rw [(hother p' heq').1] at hp'
        exact h.one p p' b hp hp'
  · by_cases heq : p = place
    · subst heq
      obtain hrun | ⟨-, hnone⟩ := hrunning b hrun
      · obtain hown | ⟨-, hnot⟩ := htaken b hp
        · exact h.free p b hown hrun
        · exact hnot hrun
      · rw [hnone] at hp
        cases hp
    · rw [(hother p heq).1] at hp
      obtain hrun | ⟨hown, -⟩ := hrunning b hrun
      · exact h.free p b hp hrun
      · exact heq (h.one p place b hp hown)
  · by_cases heq : p = place
    · subst heq
      exact hcleared b hp hq
    · rw [(hother p heq).2] at hp
      obtain hq | hown := hqueued b hq
      · exact h.cleared p b hp hq
      · exact heq (h.one p place b (inHand_of_cleared hp) hown)

theorem moveUpdate (h : Hands s) (hu : s.updates[i]? = some u) (hupdates : s₁.updates = s.updates)
    (hround : s₁.round = s.round)
    (hrunning : ∀ b, Running s₁ b → Running s b ∨ u.inHand = some b ∧ u'.inHand = none)
    (hqueued : ∀ b, Queued s₁ b → Queued s b ∨ u.inHand = some b)
    (htaken : ∀ b, u'.inHand = some b → u.inHand = some b ∨ ¬ InHand s b ∧ ¬ Running s b)
    (hcleared : ∀ b, u'.cleared = some b → ¬ Queued s₁ b) : Hands (s₁.enter i u') := by
  have hset : (s₁.enter i u').updates = s.updates.set i u' := by rw [← hupdates]; rfl
  have hself : (s.updates.set i u')[i]? = some u' := List.getElem?_set_self (List.getElem?_eq_some_iff.mp hu).1
  have hold : s.inHand (some i) = u.inHand := by rw [State.inHand, hu]; rfl
  have hnew : (s₁.enter i u').inHand (some i) = u'.inHand := by rw [State.inHand, hset, hself]; rfl
  have hnew' : (s₁.enter i u').cleared (some i) = u'.cleared := by rw [State.cleared, hset, hself]; rfl
  refine h.move (some i) (fun place hne => ?_) (fun b hb => ?_) (fun b hb => ?_) (fun b hb => ?_) fun b hb => ?_
  · cases place with
    | none =>
      have hround' : (s₁.enter i u').round = s.round := hround
      exact ⟨by rw [State.inHand, State.inHand, hround'], by rw [State.cleared, State.cleared, hround']⟩
    | some j =>
      have hj : (s.updates.set i u')[j]? = s.updates[j]? := List.getElem?_set_ne fun heq => hne (congrArg some heq.symm)
      exact ⟨by rw [State.inHand, State.inHand, hset, hj], by rw [State.cleared, State.cleared, hset, hj]⟩
  · rw [hold, hnew]
    exact hrunning b hb
  · rw [hold]
    exact hqueued b hb
  · rw [hold]
    exact htaken b (hnew ▸ hb)
  · exact hcleared b (hnew' ▸ hb)

/-- An update moves that touches neither table and takes nothing in hand. -/
theorem moveOnly (h : Hands s) (hu : s.updates[i]? = some u) (hnone : u'.inHand = none) : Hands (s.enter i u') := by
  refine h.moveUpdate hu rfl rfl (fun _ => .inl) (fun _ => .inl) (fun b hb => ?_) fun b hb => ?_
  · rw [hnone] at hb
    cases hb
  · have hhand := inHand_of_cleared_update hb
    rw [hnone] at hhand
    cases hhand

/-- The update takes a bind in hand that is free, and no entry of the queue is gone yet. -/
theorem take (h : Hands s) (hu : s.updates[i]? = some u) (hupdates : s₁.updates = s.updates)
    (hround : s₁.round = s.round) (hlisteners : s₁.listeners = s.listeners) (hretry : s₁.bindRetry = s.bindRetry)
    (hnew : u'.inHand = some b) (hcleared : u'.cleared = none) (hfree : ¬ Running s b ∧ ¬ InHand s b) : Hands (s₁.enter i u') := by
  refine h.moveUpdate hu hupdates hround (fun b' hb' => ?_) (fun b' hb' => ?_) (fun b' hb' => ?_) fun b' hb' => ?_
  · rw [Running, hlisteners] at hb'
    exact .inl hb'
  · rw [Queued, hretry] at hb'
    exact .inl hb'
  · obtain rfl := Option.some.inj (hnew.symm.trans hb')
    exact .inr ⟨hfree.2, hfree.1⟩
  · rw [hcleared] at hb'
    cases hb'

theorem advance (h : Hands s) (hu : s.updates[i]? = some u) {err : Option String} (hok : InTimeUpdate env s u) :
    Hands (s.advance env i err u) := by
  cases u with
  | writing cfg =>
    have hmoved : Hands ({ s with cfg }.enter i .starting) :=
      h.moveUpdate hu rfl rfl (fun _ => .inl) (fun _ => .inl) (fun b hb => by cases hb) fun b hb => by cases hb
    exact hmoved
  | starting => exact h.moveOnly hu rfl
  | comparing cfg => exact h.moveOnly hu rfl
  | removing cfg new shutdowns =>
    have hframe := removeListeners_frame s shutdowns
    have hretry : (s.removeListeners shutdowns).bindRetry = s.bindRetry := by rw [hframe]
    refine h.moveUpdate hu (removeListeners_updates s shutdowns) (by rw [hframe])
      (fun b hb => .inl (running_removeListeners.mp hb).1) (fun b hb => ?_) (fun b hb => by cases hb)
      fun b hb => by cases hb
    rw [Queued, hretry] at hb
    exact .inl hb
  | checking cfg new => exact h.moveOnly hu rfl
  | serving cfg new =>
    cases new with
    | nil => exact h.moveOnly hu rfl
    | cons b new =>
      cases err with
      | none => exact h.take hu rfl rfl rfl rfl rfl rfl hok.2
      | some e => exact h.take hu rfl rfl rfl rfl rfl rfl hok.2
  | served cfg b server new =>
    refine h.moveUpdate hu rfl rfl (fun _ => .inl) (fun b' hb' => .inl (queued_clearRetry.mp hb').2)
      (fun b' hb' => .inl hb') fun b' hb' hq => ?_
    obtain rfl := Option.some.inj hb'
    exact (queued_clearRetry.mp hq).1 rfl
  | inserting cfg b server new =>
    refine h.moveUpdate hu rfl rfl (fun b' hb' => ?_) (fun _ => .inl) (fun b' hb' => by cases hb')
      fun b' hb' => by cases hb'
    obtain rfl | hrun := running_insertListener.mp hb'
    · exact .inr ⟨rfl, rfl⟩
    · exact .inl hrun
  | scheduling cfg b e new =>
    refine h.moveUpdate hu rfl rfl (fun _ => .inl) (fun b' hb' => ?_) (fun b' hb' => by cases hb')
      fun b' hb' => by cases hb'
    obtain rfl | hq := queued_schedule.mp hb'
    · exact .inr rfl
    · exact .inl hq
  | done => exact h

theorem moveRound (h : Hands s) {r : ℤ × Round R} (hr : s.round = some r) (hupdates : s'.updates = s.updates)
    (hrunning : ∀ b, Running s' b → Running s b ∨ r.2.inHand = some b ∧ s'.inHand none = none)
    (hqueued : ∀ b, Queued s' b → Queued s b)
    (htaken : ∀ b, s'.inHand none = some b → r.2.inHand = some b ∨ ¬ InHand s b ∧ ¬ Running s b)
    (hcleared : ∀ b, s'.cleared none = some b → ¬ Queued s' b) : Hands s' := by
  have hold : s.inHand none = r.2.inHand := by rw [State.inHand, hr]; rfl
  refine h.move none (fun place hne => ?_) (fun b hb => ?_) (fun b hb => .inl (hqueued b hb)) (fun b hb => ?_) hcleared
  · cases place with
    | none => exact absurd rfl hne
    | some j => exact ⟨by rw [State.inHand, State.inHand, hupdates], by rw [State.cleared, State.cleared, hupdates]⟩
  · rw [hold]
    exact hrunning b hb
  · rw [hold]
    exact htaken b hb

/-- The round moves, touches neither table and takes nothing in hand. -/
theorem moveRoundOnly (h : Hands s) {r : ℤ × Round R} (hr : s.round = some r) (hupdates : s'.updates = s.updates)
    (hlisteners : s'.listeners = s.listeners) (hqueued : ∀ b, Queued s' b → Queued s b)
    (hnone : s'.inHand none = none) : Hands s' := by
  refine h.moveRound hr hupdates (fun b hb => ?_) hqueued (fun b hb => ?_) fun b hb => ?_
  · rw [Running, hlisteners] at hb
    exact .inl hb
  · rw [hnone] at hb
    cases hb
  · have hhand := inHand_of_cleared hb
    rw [hnone] at hhand
    cases hhand

/-- What waits is not running. -/
theorem advanceRound (h : Hands s) (hfollows : Follows env s) {now : ℤ} {r : Round R} (hr : s.round = some (now, r))
    {err : Option String} (hok : InTimeRound env s err r) : Hands (s.advanceRound now err r) := by
  cases r with
  | starting due => exact h.moveRoundOnly hr rfl rfl (fun _ => id) rfl
  | retrying cfg due =>
    cases due with
    | nil => exact h.moveRoundOnly hr rfl rfl (fun _ => id) rfl
    | cons b due =>
      simp only [State.advanceRound]
      by_cases hb : cfg.binds.contains b = true
      · rw [hb, Bool.not_true, if_neg Bool.false_ne_true]
        cases err with
        | none =>
          obtain ⟨-, hqueued, hnot⟩ := hok (List.contains_iff_mem.mp hb) rfl
          refine h.moveRound hr rfl (fun _ => .inl) (fun _ => id) (fun b' hb' => ?_) fun b' hb' => by cases hb'
          obtain rfl := Option.some.inj hb'
          exact .inr ⟨hnot, hfollows.exclusive b hqueued⟩
        | some e => exact h.moveRoundOnly hr rfl rfl (fun _ => id) rfl
      · rw [Bool.eq_false_iff.mpr hb, Bool.not_false, if_pos rfl]
        exact h.moveRoundOnly hr rfl rfl (fun _ => id) rfl
  | dropping cfg b due => exact h.moveRoundOnly hr rfl rfl (fun _ hq => (queued_clearRetry.mp hq).2) rfl
  | recovered cfg b server due =>
    refine h.moveRound hr rfl (fun _ => .inl) (fun b' hq => (queued_clearRetry.mp hq).2) (fun b' hb' => .inl hb')
      fun b' hb' hq => ?_
    obtain rfl := Option.some.inj hb'
    exact (queued_clearRetry.mp hq).1 rfl
  | inserting cfg b server due =>
    refine h.moveRound hr rfl (fun b' hb' => ?_) (fun _ => id) (fun b' hb' => by cases hb') fun b' hb' => by cases hb'
    obtain rfl | hrun := running_insertListener.mp hb'
    · exact .inr ⟨rfl, rfl⟩
    · exact .inl hrun
  | failed cfg b e due =>
    have hframe := failAgain_frame s now b e
    refine h.moveRoundOnly hr ?_ ?_ (fun _ hq => queued_failAgain.mp hq) rfl
    · rw [State.advanceRound, hframe]
      rfl
    · rw [State.advanceRound, hframe]
      rfl

theorem congr (h : Hands s) (hlisteners : s'.listeners = s.listeners) (hretry : s'.bindRetry = s.bindRetry)
    (hplaces : ∀ place, s'.inHand place = s.inHand place ∧ s'.cleared place = s.cleared place) : Hands s' := by
  refine ⟨fun p p' b hp hp' => ?_, fun p b hp hrun => ?_, fun p b hp hq => ?_⟩
  · rw [(hplaces p).1] at hp
    rw [(hplaces p').1] at hp'
    exact h.one p p' b hp hp'
  · rw [(hplaces p).1] at hp
    rw [Running, hlisteners] at hrun
    exact h.free p b hp hrun
  · rw [(hplaces p).2] at hp
    rw [Queued, hretry] at hq
    exact h.cleared p b hp hq

theorem startRound (h : Hands s) (order : List (BindAddrConfig R)) : Hands (s.startRound order) := by
  unfold State.startRound
  cases hr : s.round with
  | some r => exact h
  | none =>
    have hnone : s.inHand none = none ∧ s.cleared none = none := by
      rw [State.inHand, State.cleared, hr]
      exact ⟨rfl, rfl⟩
    dsimp only
    split
    all_goals
      refine h.congr rfl rfl fun place => ?_
      cases place with
      | none => exact ⟨hnone.1.symm, hnone.2.symm⟩
      | some i => exact ⟨rfl, rfl⟩

/-- A reload that comes has nothing in hand. -/
theorem reload (h : Hands s) (cfg : ListenConfig R) : Hands { s with updates := s.updates ++ [.writing cfg] } := by
  refine h.congr rfl rfl fun place => ?_
  cases place with
  | none => exact ⟨rfl, rfl⟩
  | some j =>
    simp only [State.inHand, State.cleared]
    by_cases hj : j < s.updates.length
    · rw [List.getElem?_append_left hj]
      exact ⟨rfl, rfl⟩
    · rw [List.getElem?_append_right (by omega), List.getElem?_eq_none (l := s.updates) (by omega)]
      rcases j - s.updates.length with - | k
      · exact ⟨rfl, rfl⟩
      · exact ⟨rfl, rfl⟩

end Hands

/-- **A step in time leaves nobody with what another has.** -/
theorem hands_step (h : Hands s) (hfollows : Follows env s) (t : ℤ) (e : Event R) (hok : InTime env s t e) :
    Hands (step env s t e) := by
  have hclock : Hands { s with clock := max s.clock t } := h.congr rfl rfl fun place =>
    ⟨by cases place <;> rfl, by cases place <;> rfl⟩
  have hfollows : Follows env { s with clock := max s.clock t } :=
    hfollows.congr rfl rfl rfl rfl rfl fun _ => id
  have hok : InTime env { s with clock := max s.clock t } t e := by
    cases e with
    | advance i err => exact hok
    | retry err => exact hok
    | _ => trivial
  unfold step
  generalize ({ s with clock := max s.clock t } : State R) = s₁ at hclock hfollows hok ⊢
  cases e with
  | reload cfg => exact hclock.reload cfg
  | tick order => exact hclock.startRound order
  | advance i err =>
    simp only [act]
    cases hu : s₁.updates[i]? with
    | none => exact hclock
    | some u => exact hclock.advance hu (hok u hu)
  | retry err =>
    simp only [act]
    cases hr : s₁.round with
    | none => exact hclock
    | some r => exact hclock.advanceRound hfollows hr (hok r hr)
  | shutdown =>
    simp only [act]
    split
    · exact hclock
    · exact hclock.congr rfl rfl fun place => ⟨by cases place <;> rfl, by cases place <;> rfl⟩

/-! ### What is in time is orderly -/

theorem orderlyUpdate_of_inTime (hsound : u.Sound env) (h : Hands s) (hu : s.updates[i]? = some u)
    (err : Option String) (hok : InTimeUpdate env s u) : OrderlyUpdate env s err u := by
  cases u with
  | writing cfg => exact hok
  | removing cfg new shutdowns => exact fun b hb hmem => absurd ((hok b hb).1.mpr hmem) (hsound.2 b hb)
  | checking cfg new => exact fun b hb _ href => (hok b hb).2.mp href
  | serving cfg new =>
    cases new with
    | nil => trivial
    | cons b new => exact fun _ href => (hsound b List.mem_cons_self).2 (hok.1.2.mpr href)
  | inserting cfg b server new =>
    have hcleared : s.cleared (some i) = some b := by rw [State.cleared, hu]; rfl
    exact ⟨hok.1.mp (hsound b List.mem_cons_self).1, h.cleared _ b hcleared⟩
  | scheduling cfg b e new =>
    have hhand : s.inHand (some i) = some b := by rw [State.inHand, hu]; rfl
    exact ⟨h.free _ b hhand, fun _ href => (hsound b List.mem_cons_self).2 (hok.2.mpr href)⟩
  | _ => trivial

theorem orderlyRound_of_inTime (hfollows : Follows env s) (h : Hands s) {r : ℤ × Round R} (hr : s.round = some r)
    (hsound : r.2.Sound env) {err : Option String} (hok : InTimeRound env s err r.2) : OrderlyRound env s err r.2 := by
  obtain ⟨now, r⟩ := r
  cases r with
  | retrying cfg due =>
    cases due with
    | nil => trivial
    | cons b due =>
      intro hb herr
      obtain ⟨hsame, hqueued, -⟩ := hok hb herr
      exact hfollows.accepted b (hsame.1.mp hb) hqueued
  | dropping cfg b due => exact fun hmem => hsound (hok.1.mpr hmem)
  | inserting cfg b server due =>
    have hcleared : s.cleared none = some b := by rw [State.cleared, hr]; rfl
    exact ⟨hok.1.mp hsound.1, h.cleared _ b hcleared⟩
  | _ => trivial

/-- **A step in time does to the tables what an orderly step does.** -/
theorem orderly_of_inTime (hfollows : Follows env s) (hsound : Sound env s) (h : Hands s) {t : ℤ} {e : Event R}
    (hok : InTime env s t e) : Orderly env s t e := by
  cases e with
  | advance i err =>
    exact fun u hu => orderlyUpdate_of_inTime (hsound.updates u (List.mem_of_getElem? hu)) h hu err (hok u hu)
  | retry err => exact fun r hr => orderlyRound_of_inTime hfollows h hr (hsound.round r hr) (hok r hr)
  | _ => trivial

/-- What goes into the table in time is not refused. -/
theorem acceptsRunning_of_inTime (hsound : Sound env s) {t : ℤ} {e : Event R} (hok : InTime env s t e)
    (hspares : SparesRunning env s t e) : AcceptsRunning env s t e := by
  cases e with
  | advance i err =>
    intro u hu
    have hupdate : u.Sound env := hsound.updates u (List.mem_of_getElem? hu)
    have hok := hok u hu
    cases u with
    | writing cfg => exact hspares cfg hu
    | inserting cfg b server new => exact fun href => (hupdate b List.mem_cons_self).2 (hok.2.mpr href)
    | _ => trivial
  | retry err =>
    rintro ⟨now, r⟩ hr
    have hround : r.Sound env := hsound.round _ hr
    have hok := hok _ hr
    cases r with
    | inserting cfg b server due => exact fun href => hround.2 (hok.2.mpr href)
    | _ => trivial
  | _ => trivial

/-! ### The listeners follow -/

/-- What all steps in time keep. -/
structure Kept (env : Option (List Char)) (s : State R) : Prop where
  follows : Follows env s
  sound : Sound env s
  hands : Hands s
  housed : Housed s
  timed : Timed s

theorem kept_step (h : Kept env s) (t : ℤ) (e : Event R) (hok : InTime env s t e) : Kept env (step env s t e) where
  follows := follows_step h.follows t e (orderly_of_inTime h.follows h.sound h.hands hok)
  sound := sound_step h.sound h.follows t e hok
  hands := hands_step h.hands h.follows t e hok
  housed := housed_step h.housed t e
  timed := timed_step h.timed t e

theorem kept_started (env : Option (List Char)) (cfg : ListenConfig R) : Kept env (started cfg) where
  follows := follows_started env cfg
  sound := ⟨fun u hu => by obtain rfl := List.mem_singleton.mp hu; trivial, fun r hr => by cases hr⟩
  hands := by
    have hnone (place : Option ℕ) : (started cfg).inHand place = none := by
      cases place with
      | none => rfl
      | some i => cases i <;> rfl
    refine ⟨fun p p' b hp => ?_, fun p b hp => ?_, fun p b hp => ?_⟩
    · cases (hnone p).symm.trans hp
    · cases (hnone p).symm.trans hp
    · cases (hnone p).symm.trans (inHand_of_cleared hp)
  housed server h := absurd h (Nat.not_lt_zero _)
  timed := timed_started cfg

/-- **In every run whose steps are in time, the listeners follow the configuration whenever nothing is
in progress, and no bind is ever started that is refused.** That no server keeps running outside the
table needs no condition; if moreover no configuration refuses what runs, no listener is refused. -/
theorem listeners_follow (env : Option (List Char)) (cfg : ListenConfig R) (es : List (ℤ × Event R)) :
    Throughout (step env) (fun s => Quiet s → ∀ server < s.servers,
      (∃ b, s.listeners.get? b = some server) ∨ server ∈ s.told) (started cfg) es ∧
    (Meets (step env) (InTime env) (started cfg) es →
      Throughout (step env) (fun s => StartedSafely env s ∧ (Quiet s → Settled env s)) (started cfg) es) ∧
    (Meets (step env) (fun s t e => InTime env s t e ∧ SparesRunning env s t e) (started cfg) es →
      Throughout (step env) (fun s => ∀ b, Running s b → ¬ Refuses env s.cfg b) (started cfg) es) := by
  refine ⟨?_, fun hok => ?_, fun hok => ?_⟩
  · exact throughout_of_keeps (step env) (I := Housed) (fun s h hquiet server => h.told hquiet)
      (fun s t e h => housed_step h t e) es _ fun server h => absurd h (Nat.not_lt_zero _)
  · exact throughout_of_meets (step env) (I := Kept env)
      (fun s h => ⟨h.follows.starts, h.follows.settled h.housed h.timed⟩)
      (fun s t e h hstep => kept_step h t e hstep) es _ (kept_started env cfg) hok
  · exact throughout_of_meets (step env) (I := fun s => Kept env s ∧ RunningAccepted env s) (fun s h => h.2)
      (fun s t e h hstep => ⟨kept_step h.1 t e hstep.1,
        runningAccepted_step h.2 t e (acceptsRunning_of_inTime h.1.sound hstep.1 hstep.2)⟩) es _
      ⟨kept_started env cfg, runningAccepted_started env cfg⟩ hok

/-- A management console on all addresses. -/
def console : BindAddrConfig Unit where
  kind := .http
  sockAddr := ⟨.v4 0#32, 8000⟩
  rest := ()

/-- The console cannot be bound at first; a second later it is tried again and started. -/
def recoveredLater : List (ℤ × Event Unit) :=
  List.replicate 4 (0, .advance 0 none) ++ [(0, .advance 0 (some "address in use"))] ++
    List.replicate 2 (0, .advance 0 none) ++ [(1000, .tick [console])] ++ List.replicate 5 (1000, .retry none)

theorem listeners_follow_recovered :
    Throughout (step none) (fun s => StartedSafely none s ∧ (Quiet s → Settled none s))
      (started ⟨[console], some ['t']⟩) recoveredLater := by
  have hsame (s : State Unit) (hs : s.cfg = ⟨[console], some ['t']⟩) :
      SaysSame none s ⟨[console], some ['t']⟩ console := by
    rw [SaysSame, hs]
    exact ⟨Iff.rfl, Iff.rfl⟩
  have hfree (s : State Unit) (u : Update Unit) (hu : s.updates = [u]) (hnone : u.inHand = none)
      (hr : s.inHand none = none) : ¬ InHand s console := by
    rintro ⟨place, hplace⟩
    cases place with
    | none => cases hr.symm.trans hplace
    | some i =>
      rw [State.inHand, hu] at hplace
      cases i with
      | zero => cases hnone.symm.trans hplace
      | succ i => cases hplace
  refine (listeners_follow none ⟨[console], some ['t']⟩ recoveredLater).2.1 ?_
  refine ⟨?_, ?_, ?_, ?_, ?_, ?_, ?_, ?_, ?_, ?_, ?_, ?_, ?_, trivial⟩
  · rintro u ⟨⟩; trivial
  · rintro u ⟨⟩; trivial
  · rintro u ⟨⟩; exact fun b hb => absurd hb (by decide +revert)
  · rintro u ⟨⟩
    intro b hb
    obtain rfl : b = console := List.mem_singleton.mp hb
    exact hsame _ rfl
  · rintro u ⟨⟩
    exact ⟨hsame _ rfl, by unfold Running; decide, hfree _ _ rfl rfl rfl⟩
  · rintro u ⟨⟩; exact hsame _ rfl
  · rintro u ⟨⟩; trivial
  · trivial
  · rintro r ⟨⟩; trivial
  · rintro r ⟨⟩
    exact fun _ _ => ⟨hsame _ rfl, by unfold Queued; decide, hfree _ _ rfl rfl rfl⟩
  · rintro r ⟨⟩; trivial
  · rintro r ⟨⟩; exact hsame _ rfl
  · rintro r ⟨⟩; trivial

/-- The console cannot be bound, the token goes, and a second later the console is tried again. -/
def tokenLost : List (ℤ × Event Unit) :=
  List.replicate 4 (0, .advance 0 none) ++ [(0, .advance 0 (some "address in use"))] ++
    List.replicate 2 (0, .advance 0 none) ++ [(0, .reload ⟨[console], none⟩)] ++ List.replicate 6 (0, .advance 1 none)

/-- The update of a reload is overtaken by a reload that drops the console. -/
def dropped : List (ℤ × Event Unit) :=
  List.replicate 5 (0, .advance 0 none) ++ [(0, .reload ⟨[console], some ['t']⟩)] ++
    List.replicate 5 (0, .advance 1 none) ++ [(0, .reload ⟨[], none⟩)] ++ List.replicate 6 (0, .advance 2 none) ++
    List.replicate 4 (0, .advance 1 none)

/-- In the first run the console is queued and refused at once, and then started; in the second a
listener runs that is not configured. -/
theorem exposed_by_retry :
    (Quiet (run (step none) (started ⟨[console], some ['t']⟩) tokenLost) ∧
      ¬ Settled none (run (step none) (started ⟨[console], some ['t']⟩) tokenLost)) ∧
    ¬ StartedSafely none (run (step none) (started ⟨[console], some ['t']⟩)
      (tokenLost ++ [(2000, .tick [console]), (2000, .retry none), (2000, .retry none)])) ∧
    Quiet (run (step none) (started (R := Unit) ⟨[], none⟩) dropped) ∧
      ¬ Settled none (run (step none) (started (R := Unit) ⟨[], none⟩) dropped) := by
  have hrefused : Refuses none (⟨[console], none⟩ : ListenConfig Unit) console := ⟨_, rfl⟩
  refine ⟨⟨⟨by decide, by decide, by decide⟩, fun h => ?_⟩, fun h => ?_, ⟨by decide, by decide, by decide⟩, fun h => ?_⟩
  · obtain ⟨hrun, -⟩ | ⟨-, -, hnot⟩ | ⟨-, hq, -⟩ := h.one console (by decide)
    · exact absurd hrun (by unfold Running; decide)
    · exact hnot ⟨by unfold Running; decide, hrefused⟩
    · exact absurd (show _ = true from by decide) hq
  · exact h (console, ⟨[console], none⟩) (by decide) hrefused
  · exact absurd (h.running console (by unfold Running; decide)) (by decide)

end Listeners
end App
end SmartDns
