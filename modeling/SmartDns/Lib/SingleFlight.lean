/-
# Single flight

Requests for equal keys share one computation. Under one lock a request looks its key
up in the map of computations under way: it subscribes to the channel it finds and
waits, or puts a new channel there and leads. A leader's end, its cancellation
included, removes the channel under the lock and sends the outcome. A channel is named
by the request that made it; its sender stands in the map, so a channel that is not
there any more and carries nothing is closed.

Key definitions: `SingleFlight`, `SingleFlight.Step`, `SingleFlight.Inv`.
Key theorems: `SingleFlight.inv_reachable`, `SingleFlight.Inv.single`,
`SingleFlight.Inv.received`, `SingleFlight.Inv.waiter_served`.
-/
import Mathlib.Logic.Function.Basic
import Mathlib.Logic.Relation
import SmartDns.Lib.KeyMap

namespace SmartDns
namespace Lib

universe u v

/-- Where a request stands. An `ended` leader without an outcome was cancelled. -/
inductive Phase (K : Type u) (O : Type v)
  | absent
  | leading (key : K)
  | ended (key : K) (outcome : Option O)
  | waiting (key : K) (leader : ℕ)
  | received (key : K) (leader : ℕ) (outcome : O)
  | left

structure SingleFlight (K : Type u) (O : Type v) [BEq K] where
  inflight : KeyMap K ℕ
  sent : ℕ → Option O
  phase : ℕ → Phase K O

namespace SingleFlight

variable {K : Type u} {O : Type v} [BEq K]

def start : SingleFlight K O := ⟨KeyMap.empty, fun _ => none, fun _ => .absent⟩

def setPhase (s : SingleFlight K O) (r : ℕ) (p : Phase K O) : SingleFlight K O :=
  { s with phase := Function.update s.phase r p }

@[simp] theorem setPhase_inflight (s : SingleFlight K O) (r : ℕ) (p : Phase K O) :
    (s.setPhase r p).inflight = s.inflight := rfl

@[simp] theorem setPhase_sent (s : SingleFlight K O) (r : ℕ) (p : Phase K O) : (s.setPhase r p).sent = s.sent := rfl

@[simp] theorem setPhase_phase_self (s : SingleFlight K O) (r : ℕ) (p : Phase K O) :
    (s.setPhase r p).phase r = p := Function.update_self ..

theorem setPhase_phase_of_ne (s : SingleFlight K O) {r r' : ℕ} (p : Phase K O) (h : r' ≠ r) :
    (s.setPhase r p).phase r' = s.phase r' := Function.update_of_ne h ..

/-- Subscribe to the channel that is there, or put a new one there. -/
def join (s : SingleFlight K O) (r : ℕ) (key : K) : SingleFlight K O :=
  match s.inflight.get? key with
  | some l => s.setPhase r (.waiting key l)
  | none => { s.setPhase r (.leading key) with inflight := s.inflight.insert key r }

/-- Remove the channel of `key` and send the outcome to those who wait for it. -/
def broadcast (s : SingleFlight K O) (key : K) (o : O) : SingleFlight K O :=
  match s.inflight.get? key with
  | some l => { s with inflight := s.inflight.erase key, sent := Function.update s.sent l (some o) }
  | none => s

def isOpen (s : SingleFlight K O) (l : ℕ) : Bool := s.inflight.entries.any (·.2 == l)

/-- What a receiver of channel `l` gets: the message, `lost` from a closed channel, nothing yet. -/
def recv (lost : O) (s : SingleFlight K O) (l : ℕ) : Option O :=
  match s.sent l with
  | some o => some o
  | none => if s.isOpen l then none else some lost

/-- The steps of the requests, in any order. -/
inductive Step (lost : O) (s : SingleFlight K O) : SingleFlight K O → Prop
  | join (r : ℕ) (key : K) (fresh : s.phase r = .absent) : Step lost s (s.join r key)
  | finish (r : ℕ) (key : K) (o : O) (leads : s.phase r = .leading key) :
      Step lost s ((s.broadcast key o).setPhase r (.ended key (some o)))
  | drop (r : ℕ) (key : K) (leads : s.phase r = .leading key) :
      Step lost s ((s.broadcast key lost).setPhase r (.ended key none))
  | receive (r : ℕ) (key : K) (l : ℕ) (o : O) (waits : s.phase r = .waiting key l) (here : s.recv lost l = some o) :
      Step lost s (s.setPhase r (.received key l o))
  | leave (r : ℕ) (key : K) (l : ℕ) (waits : s.phase r = .waiting key l) : Step lost s (s.setPhase r .left)

/-- The outcome of a leader for the others. -/
def outcome (lost : O) (o : Option O) : O := o.getD lost

structure Inv (lost : O) (s : SingleFlight K O) : Prop where
  led : ∀ key l, s.inflight.get? key = some l → ∃ k, s.phase l = .leading k ∧ (k == key) = true
  mapped : ∀ r key, s.phase r = .leading key → s.inflight.get? key = some r
  sent : ∀ l o, s.sent l = some o → ∃ k e, s.phase l = .ended k e ∧ o = outcome lost e
  spoken : ∀ r key e, s.phase r = .ended key e → s.sent r = some (outcome lost e)
  waits : ∀ r key l, s.phase r = .waiting key l →
    ∃ k, (k == key) = true ∧ (s.phase l = .leading k ∨ ∃ e, s.phase l = .ended k e)
  heard : ∀ r key l o, s.phase r = .received key l o →
    ∃ k e, (k == key) = true ∧ s.phase l = .ended k e ∧ o = outcome lost e

theorem inv_start (lost : O) : Inv lost (start : SingleFlight K O) where
  led _ _ h := by cases h
  mapped _ _ h := by cases h
  sent _ _ h := by cases h
  spoken _ _ _ h := by cases h
  waits _ _ _ h := by cases h
  heard _ _ _ _ h := by cases h

variable [EquivBEq K]

/-- **At most one request leads for a key.** -/
theorem Inv.single {lost : O} {s : SingleFlight K O} (h : Inv lost s) {r₁ r₂ : ℕ} {k₁ k₂ : K}
    (h₁ : s.phase r₁ = .leading k₁) (h₂ : s.phase r₂ = .leading k₂) (hk : (k₁ == k₂) = true) : r₁ = r₂ := by
  have hm₁ := h.mapped r₁ k₁ h₁
  rw [s.inflight.get?_congr hk, h.mapped r₂ k₂ h₂] at hm₁
  exact (Option.some.inj hm₁).symm

theorem isOpen_of_get? {s : SingleFlight K O} {key : K} {l : ℕ} (h : s.inflight.get? key = some l) :
    s.isOpen l = true := by
  obtain ⟨k, -, hmem⟩ := (KeyMap.get?_eq_some_iff _ _ _).mp h
  exact List.any_eq_true.mpr ⟨(k, l), hmem, by simp⟩

/-- Nobody hears from a leader that is under way. -/
theorem Inv.recv_leading {lost : O} {s : SingleFlight K O} (h : Inv lost s) {l : ℕ} {key : K}
    (hl : s.phase l = .leading key) : s.recv lost l = none := by
  have hsent : s.sent l = none := by
    cases ho : s.sent l with
    | none => rfl
    | some o =>
      obtain ⟨k, e, he, -⟩ := h.sent l o ho
      rw [hl] at he
      cases he
  rw [recv, hsent]
  exact if_pos (isOpen_of_get? (h.mapped l key hl))

omit [EquivBEq K] in
theorem Inv.recv_ended {lost : O} {s : SingleFlight K O} (h : Inv lost s) {l : ℕ} {key : K} {e : Option O}
    (hl : s.phase l = .ended key e) : s.recv lost l = some (outcome lost e) := by
  rw [recv, h.spoken l key e hl]

omit [EquivBEq K] in
/-- A request that takes a new phase, where the map and the messages stay: no leader comes or goes. -/
theorem Inv.setPhase {lost : O} {s : SingleFlight K O} (h : Inv lost s) {r : ℕ} {p : Phase K O}
    (hold : (∀ k, s.phase r ≠ .leading k) ∧ ∀ k e, s.phase r ≠ .ended k e)
    (hnew : (∀ k, p ≠ .leading k) ∧ ∀ k e, p ≠ .ended k e)
    (hwait : ∀ key l, p = .waiting key l → ∃ k, (k == key) = true ∧ (s.phase l = .leading k ∨ ∃ e, s.phase l = .ended k e))
    (hhear : ∀ key l o, p = .received key l o →
      ∃ k e, (k == key) = true ∧ s.phase l = .ended k e ∧ o = outcome lost e) : Inv lost (s.setPhase r p) := by
  have ne_of_leading {l : ℕ} {k : K} (hl : s.phase l = .leading k) : l ≠ r := fun hlr => hold.1 k (hlr ▸ hl)
  have ne_of_ended {l : ℕ} {k : K} {e : Option O} (hl : s.phase l = .ended k e) : l ≠ r :=
    fun hlr => hold.2 k e (hlr ▸ hl)
  have keep_leading {l : ℕ} {k : K} (hl : s.phase l = .leading k) : (s.setPhase r p).phase l = .leading k := by
    rw [s.setPhase_phase_of_ne p (ne_of_leading hl), hl]
  have keep_ended {l : ℕ} {k : K} {e : Option O} (hl : s.phase l = .ended k e) :
      (s.setPhase r p).phase l = .ended k e := by
    rw [s.setPhase_phase_of_ne p (ne_of_ended hl), hl]
  refine ⟨fun key l hl => ?_, fun r' key hr => ?_, fun l o ho => ?_, fun r' key e hr => ?_, fun r' key l hr => ?_,
    fun r' key l o hr => ?_⟩
  · obtain ⟨k, hk, hkk⟩ := h.led key l hl
    exact ⟨k, keep_leading hk, hkk⟩
  · by_cases hrr : r' = r
    · rw [hrr, setPhase_phase_self] at hr
      exact absurd hr (hnew.1 key)
    · rw [s.setPhase_phase_of_ne p hrr] at hr
      exact h.mapped r' key hr
  · obtain ⟨k, e, he, hoe⟩ := h.sent l o ho
    exact ⟨k, e, keep_ended he, hoe⟩
  · by_cases hrr : r' = r
    · rw [hrr, setPhase_phase_self] at hr
      exact absurd hr (hnew.2 key e)
    · rw [s.setPhase_phase_of_ne p hrr] at hr
      exact h.spoken r' key e hr
  · have hw : ∃ k, (k == key) = true ∧ (s.phase l = .leading k ∨ ∃ e, s.phase l = .ended k e) := by
      by_cases hrr : r' = r
      · rw [hrr, setPhase_phase_self] at hr
        exact hwait key l hr
      · rw [s.setPhase_phase_of_ne p hrr] at hr
        exact h.waits r' key l hr
    obtain ⟨k, hk, hl | ⟨e, hl⟩⟩ := hw
    · exact ⟨k, hk, .inl (keep_leading hl)⟩
    · exact ⟨k, hk, .inr ⟨e, keep_ended hl⟩⟩
  · have hh : ∃ k e, (k == key) = true ∧ s.phase l = .ended k e ∧ o = outcome lost e := by
      by_cases hrr : r' = r
      · rw [hrr, setPhase_phase_self] at hr
        exact hhear key l o hr
      · rw [s.setPhase_phase_of_ne p hrr] at hr
        exact h.heard r' key l o hr
    obtain ⟨k, e, hk, hl, ho⟩ := hh
    exact ⟨k, e, hk, keep_ended hl, ho⟩

theorem Inv.join {lost : O} {s : SingleFlight K O} (h : Inv lost s) {r : ℕ} (key : K) (hr : s.phase r = .absent) :
    Inv lost (s.join r key) := by
  unfold SingleFlight.join
  cases hm : s.inflight.get? key with
  | some l =>
    refine h.setPhase (by simp [hr]) (by simp) (fun key' l' hw => ?_) (by simp)
    obtain ⟨rfl, rfl⟩ := Phase.waiting.inj hw
    obtain ⟨k, hk, hkk⟩ := h.led key l hm
    exact ⟨k, hkk, .inl hk⟩
  | none =>
    have keep {r' : ℕ} (hne : s.phase r' ≠ .absent) : (s.setPhase r (.leading key)).phase r' = s.phase r' :=
      s.setPhase_phase_of_ne _ fun hrr => hne (hrr ▸ hr)
    refine ⟨fun key' l hl => ?_, fun r' key' hr' => ?_, fun l o ho => ?_, fun r' key' e hr' => ?_,
      fun r' key' l hr' => ?_, fun r' key' l o hr' => ?_⟩
    · have hl : (s.inflight.insert key r).get? key' = some l := hl
      by_cases hk : (key == key') = true
      · rw [s.inflight.get?_insert_of_beq hk] at hl
        obtain rfl := Option.some.inj hl
        exact ⟨key, s.setPhase_phase_self r _, hk⟩
      · rw [s.inflight.get?_insert_of_not_beq hk] at hl
        obtain ⟨k, hk', hkk⟩ := h.led key' l hl
        exact ⟨k, (keep (by simp [hk'])).trans hk', hkk⟩
    · show (s.inflight.insert key r).get? key' = some r'
      by_cases hrr : r' = r
      · subst hrr
        obtain rfl := Phase.leading.inj ((s.setPhase_phase_self r' _).symm.trans hr')
        exact s.inflight.get?_insert_of_beq BEq.rfl r'
      · have hr' : s.phase r' = .leading key' := (s.setPhase_phase_of_ne _ hrr).symm.trans hr'
        have hmap := h.mapped r' key' hr'
        have hk : ¬ (key == key') = true := by
          intro hk
          rw [← s.inflight.get?_congr hk, hm] at hmap
          cases hmap
        rw [s.inflight.get?_insert_of_not_beq hk, hmap]
    · obtain ⟨k, e, he, hoe⟩ := h.sent l o ho
      exact ⟨k, e, (keep (by simp [he])).trans he, hoe⟩
    · have hrr : r' ≠ r := by
        rintro rfl
        cases (s.setPhase_phase_self r' _).symm.trans hr'
      exact h.spoken r' key' e ((s.setPhase_phase_of_ne _ hrr).symm.trans hr')
    · have hrr : r' ≠ r := by
        rintro rfl
        cases (s.setPhase_phase_self r' _).symm.trans hr'
      obtain ⟨k, hk, hl | ⟨e, hl⟩⟩ := h.waits r' key' l ((s.setPhase_phase_of_ne _ hrr).symm.trans hr')
      · exact ⟨k, hk, .inl ((keep (by simp [hl])).trans hl)⟩
      · exact ⟨k, hk, .inr ⟨e, (keep (by simp [hl])).trans hl⟩⟩
    · have hrr : r' ≠ r := by
        rintro rfl
        cases (s.setPhase_phase_self r' _).symm.trans hr'
      obtain ⟨k, e, hk, hl, ho⟩ := h.heard r' key' l o ((s.setPhase_phase_of_ne _ hrr).symm.trans hr')
      exact ⟨k, e, hk, (keep (by simp [hl])).trans hl, ho⟩

/-- A leader's end, with its own outcome or without one. -/
theorem Inv.finish {lost : O} {s : SingleFlight K O} (h : Inv lost s) {r : ℕ} {key : K} (e : Option O)
    (hr : s.phase r = .leading key) :
    Inv lost ((s.broadcast key (outcome lost e)).setPhase r (.ended key e)) := by
  have hmap := h.mapped r key hr
  have hb : s.broadcast key (outcome lost e) =
      { s with inflight := s.inflight.erase key, sent := Function.update s.sent r (some (outcome lost e)) } := by
    rw [broadcast, hmap]
  rw [hb]
  have keep {r' : ℕ} (hrr : r' ≠ r) : Function.update s.phase r (.ended key e) r' = s.phase r' :=
    Function.update_of_ne hrr ..
  have self : Function.update s.phase r (.ended key e) r = .ended key e := Function.update_self ..
  refine ⟨fun key' l hl => ?_, fun r' key' hr' => ?_, fun l o ho => ?_, fun r' key' e' hr' => ?_,
    fun r' key' l hr' => ?_, fun r' key' l o hr' => ?_⟩
  · have hl : (s.inflight.erase key).get? key' = some l := hl
    by_cases hk : (key == key') = true
    · rw [s.inflight.get?_erase_of_beq hk] at hl
      cases hl
    · rw [s.inflight.get?_erase_of_not_beq hk] at hl
      obtain ⟨k, hk', hkk⟩ := h.led key' l hl
      -- the one that leads for another key is another request
      have hlr : l ≠ r := by
        rintro rfl
        obtain rfl := Phase.leading.inj (hr.symm.trans hk')
        exact hk hkk
      exact ⟨k, (keep hlr).trans hk', hkk⟩
  · have hrr : r' ≠ r := by
      rintro rfl
      cases self.symm.trans hr'
    have hr' : s.phase r' = .leading key' := (keep hrr).symm.trans hr'
    show (s.inflight.erase key).get? key' = some r'
    have hk : ¬ (key == key') = true := fun hk => hrr (h.single hr hr' hk).symm
    rw [s.inflight.get?_erase_of_not_beq hk]
    exact h.mapped r' key' hr'
  · have ho : Function.update s.sent r (some (outcome lost e)) l = some o := ho
    by_cases hlr : l = r
    · subst hlr
      rw [Function.update_self] at ho
      exact ⟨key, e, self, (Option.some.inj ho).symm⟩
    · rw [Function.update_of_ne hlr] at ho
      obtain ⟨k, e', he, hoe⟩ := h.sent l o ho
      exact ⟨k, e', (keep hlr).trans he, hoe⟩
  · show Function.update s.sent r (some (outcome lost e)) r' = _
    by_cases hrr : r' = r
    · subst hrr
      obtain ⟨-, rfl⟩ := Phase.ended.inj (self.symm.trans hr')
      exact Function.update_self ..
    · rw [Function.update_of_ne hrr]
      exact h.spoken r' key' e' ((keep hrr).symm.trans hr')
  · have hrr : r' ≠ r := by
      rintro rfl
      cases self.symm.trans hr'
    obtain ⟨k, hk, hl⟩ := h.waits r' key' l ((keep hrr).symm.trans hr')
    by_cases hlr : l = r
    · subst hlr
      rcases hl with hl | ⟨e', hl⟩
      · obtain rfl := Phase.leading.inj (hr.symm.trans hl)
        exact ⟨key, hk, .inr ⟨e, self⟩⟩
      · cases hr.symm.trans hl
    · rcases hl with hl | ⟨e', hl⟩
      · exact ⟨k, hk, .inl ((keep hlr).trans hl)⟩
      · exact ⟨k, hk, .inr ⟨e', (keep hlr).trans hl⟩⟩
  · have hrr : r' ≠ r := by
      rintro rfl
      cases self.symm.trans hr'
    obtain ⟨k, e', hk, hl, ho⟩ := h.heard r' key' l o ((keep hrr).symm.trans hr')
    have hlr : l ≠ r := by
      rintro rfl
      cases hr.symm.trans hl
    exact ⟨k, e', hk, (keep hlr).trans hl, ho⟩

theorem Inv.step {lost : O} {s s' : SingleFlight K O} (h : Inv lost s) (hs : Step lost s s') : Inv lost s' := by
  cases hs with
  | join r key fresh => exact h.join key fresh
  | finish r key o leads => exact h.finish (some o) leads
  | drop r key leads => exact h.finish none leads
  | receive r key l o waits here =>
    refine h.setPhase (by simp [waits]) (by simp) (by simp) fun key' l' o' hr => ?_
    obtain ⟨rfl, rfl, rfl⟩ := Phase.received.inj hr
    obtain ⟨k, hk, hl | ⟨e, hl⟩⟩ := h.waits r key l waits
    · rw [h.recv_leading hl] at here
      cases here
    · rw [h.recv_ended hl] at here
      exact ⟨k, e, hk, hl, (Option.some.inj here).symm⟩
  | leave r key l waits => exact h.setPhase (by simp [waits]) (by simp) (by simp) (by simp)

theorem inv_reachable {lost : O} {s : SingleFlight K O} (h : Relation.ReflTransGen (Step lost) start s) :
    Inv lost s := by
  induction h with
  | refl => exact inv_start lost
  | tail _ hs ih => exact ih.step hs

omit [EquivBEq K] in
/-- **What a waiter received is its leader's outcome**, or `lost` if the leader was cancelled. -/
theorem Inv.received {lost : O} {s : SingleFlight K O} (h : Inv lost s) {r l : ℕ} {key : K} {o : O}
    (hr : s.phase r = .received key l o) :
    ∃ k e, (k == key) = true ∧ s.phase l = .ended k e ∧ o = outcome lost e := h.heard r key l o hr

omit [EquivBEq K] in
/-- **No waiter is forgotten**: the leader of its channel is under way and stands in the map, or has
ended and what it sent is there. -/
theorem Inv.waiter_served {lost : O} {s : SingleFlight K O} (h : Inv lost s) {r l : ℕ} {key : K}
    (hr : s.phase r = .waiting key l) : ∃ k, (k == key) = true ∧
      (s.phase l = .leading k ∧ s.inflight.get? k = some l ∨
        ∃ e, s.phase l = .ended k e ∧ s.recv lost l = some (outcome lost e)) := by
  obtain ⟨k, hk, hl | ⟨e, hl⟩⟩ := h.waits r key l hr
  · exact ⟨k, hk, .inl ⟨hl, h.mapped l k hl⟩⟩
  · exact ⟨k, hk, .inr ⟨e, hl, h.recv_ended hl⟩⟩

end SingleFlight
end Lib
end SmartDns
