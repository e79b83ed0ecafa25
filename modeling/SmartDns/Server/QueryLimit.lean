/-
# The limit on queries

`QueryLimiter` counts the queries on their way through the server. `admit` takes
its count first and then looks at it; a query that is refused gives the count
back, one that is allowed gives it back when its guard is dropped. Each of the
three is one atomic step here, and the steps of different queries come in any
order; with nothing in between the first two are the one step of the chain
(`tryEnter_giveBack_eq_enterQuery`).

Lookups of the background are never refused, but they are counted where the
clients are: they fill the limit that the clients then run into
(`background_starves`). A client is refused below the limit exactly when what is
not a client, lookups of the background and refused queries whose count is not
back yet, takes up the room left (`fair_iff_roomLeft`).
-/
import Mathlib.Data.Bool.Count
import SmartDns.Server.Limit

namespace SmartDns
namespace Server
namespace QueryLimit

open Lib

/-- `QueryLimiter`: each unit of the count is a query in memory, so that it never wraps. -/
structure QueryLimiter where
  inFlight : ℕ := 0
  lastWarn : ℕ := 0
deriving DecidableEq, Repr

/-- At most one warning in 120 seconds. -/
def QueryLimiter.warnOnceInWindow (l : QueryLimiter) (now : ℕ) : QueryLimiter :=
  if now - l.lastWarn < 120 then l else { l with lastWarn := now }

@[simp] theorem QueryLimiter.warnOnceInWindow_inFlight (l : QueryLimiter) (now : ℕ) :
    (l.warnOnceInWindow now).inFlight = l.inFlight := by
  unfold warnOnceInWindow
  split <;> rfl

/-- The limiter and those who have counted in it. -/
structure World where
  limiter : QueryLimiter := {}
  /-- The guards held: whether each is of a lookup of the background. -/
  guards : List Bool := []
  /-- Refused queries that have not given their count back. -/
  refusing : ℕ := 0
  /-- For each refusal so far, the clients' queries that were in flight. -/
  refusals : List ℕ := []
deriving DecidableEq, Repr

def World.foreground (w : World) : ℕ := w.guards.count false

def World.background (w : World) : ℕ := w.guards.count true

inductive Action
  | tryEnter (isBackground : Bool)
  | giveBack
  | drop (isBackground : Bool)
deriving DecidableEq, Repr

/-- `admit` up to its verdict. -/
def World.tryEnter (limit : ℕ) (isBackground : Bool) (w : World) : World :=
  let inFlight := w.limiter.inFlight + 1
  let limiter := { w.limiter with inFlight := inFlight }
  if isBackground || decide (limit = 0) then { w with limiter := limiter, guards := isBackground :: w.guards }
  else if limit < inFlight then
    { w with limiter := limiter, refusing := w.refusing + 1, refusals := w.foreground :: w.refusals }
  else { w with limiter := limiter, guards := isBackground :: w.guards }

/-- The rest of `admit` for a query it refuses. -/
def World.giveBack (now : ℕ) (w : World) : World :=
  if w.refusing = 0 then w
  else
    { w with
      limiter := { w.limiter with inFlight := w.limiter.inFlight - 1 }.warnOnceInWindow now
      refusing := w.refusing - 1 }

/-- `QueryGuard::drop`. -/
def World.drop (isBackground : Bool) (w : World) : World :=
  if isBackground ∈ w.guards then
    { w with
      limiter := { w.limiter with inFlight := w.limiter.inFlight - 1 }
      guards := w.guards.erase isBackground }
  else w

def step (limit : ℕ) (w : World) (now : ℤ) : Action → World
  | .tryEnter isBackground => w.tryEnter limit isBackground
  | .giveBack => w.giveBack now.toNat
  | .drop isBackground => w.drop isBackground

/-- With nothing in between, the two steps of `admit` are `enterQuery`. -/
theorem tryEnter_giveBack_eq_enterQuery (limit : ℕ) (isBackground : Bool) (w : World) (now : ℕ) (h : w.refusing = 0) :
    (((w.tryEnter limit isBackground).giveBack now).limiter.inFlight,
      ((w.tryEnter limit isBackground).giveBack now).guards) =
      ((enterQuery limit isBackground w.limiter.inFlight).2,
        if (enterQuery limit isBackground w.limiter.inFlight).1 = .allowed then isBackground :: w.guards
        else w.guards) := by
  unfold World.tryEnter enterQuery
  by_cases hfree : (isBackground || decide (limit = 0)) = true
  · simp only [if_pos hfree, World.giveBack, h, if_true]
  · simp only [if_neg hfree]
    by_cases hover : limit < w.limiter.inFlight + 1
    · simp [World.giveBack, hover]
    · simp [World.giveBack, hover, h]

/-! ### What always holds -/

/-- **The count is of the guards held and of the refused that have not given theirs back.** -/
def Counted (w : World) : Prop := w.limiter.inFlight = w.guards.length + w.refusing

theorem length_guards (w : World) : w.guards.length = w.foreground + w.background :=
  (List.count_false_add_count_true w.guards).symm

section

variable {limit : ℕ} {w : World} {isBackground : Bool} {now : ℕ}

theorem tryEnter_cases (limit : ℕ) (isBackground : Bool) (w : World) :
    (((isBackground || decide (limit = 0)) = true ∨ w.limiter.inFlight < limit) ∧
      w.tryEnter limit isBackground =
        { w with limiter.inFlight := w.limiter.inFlight + 1, guards := isBackground :: w.guards }) ∨
    (isBackground = false ∧ limit ≠ 0 ∧ limit ≤ w.limiter.inFlight ∧
      w.tryEnter limit isBackground =
        { w with
          limiter.inFlight := w.limiter.inFlight + 1
          refusing := w.refusing + 1
          refusals := w.foreground :: w.refusals }) := by
  unfold World.tryEnter
  by_cases hfree : (isBackground || decide (limit = 0)) = true
  · exact .inl ⟨.inl hfree, if_pos hfree⟩
  · rw [Bool.or_eq_true, decide_eq_true_eq, not_or] at hfree
    have hnot : ¬(isBackground || decide (limit = 0)) = true := by simpa using hfree
    by_cases hover : limit < w.limiter.inFlight + 1
    · refine .inr ⟨by simpa using hfree.1, hfree.2, by omega, ?_⟩
      simp only [if_neg hnot, if_pos hover]
    · refine .inl ⟨.inr (by omega), ?_⟩
      simp only [if_neg hnot, if_neg hover]

theorem drop_cases (isBackground : Bool) (w : World) :
    w.drop isBackground = w ∨
    (isBackground ∈ w.guards ∧ w.drop isBackground =
      { w with limiter.inFlight := w.limiter.inFlight - 1, guards := w.guards.erase isBackground }) := by
  unfold World.drop
  by_cases hmem : isBackground ∈ w.guards
  · exact .inr ⟨hmem, if_pos hmem⟩
  · exact .inl (if_neg hmem)

theorem giveBack_cases (now : ℕ) (w : World) :
    w.giveBack now = w ∨
    (w.refusing ≠ 0 ∧ (w.giveBack now).limiter.inFlight = w.limiter.inFlight - 1 ∧
      (w.giveBack now).guards = w.guards ∧ (w.giveBack now).refusing = w.refusing - 1 ∧
      (w.giveBack now).refusals = w.refusals) := by
  unfold World.giveBack
  by_cases hnone : w.refusing = 0
  · exact .inl (if_pos hnone)
  · rw [if_neg hnone]
    exact .inr ⟨hnone, by simp, rfl, rfl, rfl⟩

theorem Counted.step (h : Counted w) (t : ℤ) (a : Action) : Counted (step limit w t a) := by
  unfold Counted at h
  cases a with
  | tryEnter isBackground =>
    show Counted (w.tryEnter limit isBackground)
    obtain ⟨-, heq⟩ | ⟨-, -, -, heq⟩ := tryEnter_cases limit isBackground w
    · rw [heq]
      show w.limiter.inFlight + 1 = w.guards.length + 1 + w.refusing
      omega
    · rw [heq]
      show w.limiter.inFlight + 1 = w.guards.length + (w.refusing + 1)
      omega
  | giveBack =>
    show Counted (w.giveBack t.toNat)
    obtain heq | ⟨hne, hcount, hguards, hrefusing, -⟩ := giveBack_cases t.toNat w
    · rw [heq]
      exact h
    · unfold Counted
      rw [hcount, hguards, hrefusing]
      omega
  | drop isBackground =>
    show Counted (w.drop isBackground)
    obtain heq | ⟨hmem, heq⟩ := drop_cases isBackground w
    · rw [heq]
      exact h
    · have hpos : 0 < w.guards.length := List.length_pos_of_mem hmem
      rw [heq]
      show w.limiter.inFlight - 1 = (w.guards.erase isBackground).length + w.refusing
      rw [List.length_erase_of_mem hmem]
      omega

/-- No more of the clients' queries than the limit, where there is one. -/
theorem bounded_step (h : Counted w) (hle : limit ≠ 0 → w.foreground ≤ limit) (t : ℤ) (a : Action) :
    limit ≠ 0 → (step limit w t a).foreground ≤ limit := by
  intro hlimit
  have hle := hle hlimit
  cases a with
  | tryEnter isBackground =>
    show (w.tryEnter limit isBackground).foreground ≤ limit
    obtain ⟨hroom, heq⟩ | ⟨-, -, -, heq⟩ := tryEnter_cases limit isBackground w
    · rw [heq]
      show (isBackground :: w.guards).count false ≤ limit
      cases isBackground with
      | true => simpa [World.foreground] using hle
      | false =>
        have hlt : w.limiter.inFlight < limit := by simpa [hlimit] using hroom
        have hlen := length_guards w
        unfold Counted at h
        rw [List.count_cons_self]
        show w.foreground + 1 ≤ limit
        omega
    · rw [heq]
      exact hle
  | giveBack =>
    show (w.giveBack t.toNat).foreground ≤ limit
    obtain heq | ⟨-, -, hguards, -, -⟩ := giveBack_cases t.toNat w
    · rw [heq]
      exact hle
    · rw [World.foreground, hguards]
      exact hle
  | drop isBackground =>
    show (w.drop isBackground).foreground ≤ limit
    obtain heq | ⟨-, heq⟩ := drop_cases isBackground w
    · rw [heq]
      exact hle
    · rw [heq]
      exact Nat.le_trans (List.Sublist.count_le false List.erase_sublist) hle

end

/-! ### Who is refused -/

/-- What the limit promises: a client's query is refused only when clients' queries have reached the limit,
never more of them are in flight, and with no query left the count is zero. -/
structure Fair (limit : ℕ) (w : World) : Prop where
  refused : ∀ clients ∈ w.refusals, limit ≤ clients
  bounded : limit ≠ 0 → w.foreground ≤ limit
  idle : w.guards = [] → w.refusing = 0 → w.limiter.inFlight = 0

/-- The condition on a step: when a client's query comes and fewer of them than the limit are in flight, the
others do not fill the limit with them. -/
def RoomLeft (limit : ℕ) (w : World) (_ : ℤ) : Action → Prop
  | .tryEnter false => limit ≠ 0 → w.foreground < limit → w.foreground + w.background + w.refusing < limit
  | _ => True

structure Kept (limit : ℕ) (w : World) : Prop extends Fair limit w where
  counted : Counted w

theorem fair_of_counted {limit : ℕ} {w : World} (h : Counted w) (hrefused : ∀ clients ∈ w.refusals, limit ≤ clients)
    (hbounded : limit ≠ 0 → w.foreground ≤ limit) : Kept limit w := by
  refine ⟨⟨hrefused, hbounded, fun hguards hrefusing => ?_⟩, h⟩
  unfold Counted at h
  rw [h, hguards, hrefusing]
  rfl

theorem kept_start (limit : ℕ) : Kept limit {} :=
  fair_of_counted rfl (List.forall_mem_nil _) fun _ => Nat.zero_le limit

/-- Only a refusal is added to the refusals. -/
theorem refusals_step (limit : ℕ) (w : World) (t : ℤ) (a : Action) :
    (step limit w t a).refusals = w.refusals ∨
    (a = .tryEnter false ∧ limit ≠ 0 ∧ limit ≤ w.limiter.inFlight ∧
      (step limit w t a).refusals = w.foreground :: w.refusals) := by
  cases a with
  | tryEnter isBackground =>
    obtain ⟨-, heq⟩ | ⟨hclient, hlimit, hfull, heq⟩ := tryEnter_cases limit isBackground w
    · left
      show (w.tryEnter limit isBackground).refusals = w.refusals
      rw [heq]
    · refine .inr ⟨by rw [hclient], hlimit, hfull, ?_⟩
      show (w.tryEnter limit isBackground).refusals = w.foreground :: w.refusals
      rw [heq]
  | giveBack =>
    obtain heq | ⟨-, -, -, -, hsame⟩ := giveBack_cases t.toNat w
    · exact .inl (congrArg World.refusals heq)
    · exact .inl hsame
  | drop isBackground =>
    left
    show (w.drop isBackground).refusals = w.refusals
    obtain heq | ⟨-, heq⟩ := drop_cases isBackground w
    · rw [heq]
    · rw [heq]

theorem Kept.step {limit : ℕ} {w : World} (h : Kept limit w) {t : ℤ} {a : Action} (hroom : RoomLeft limit w t a) :
    Kept limit (step limit w t a) := by
  refine fair_of_counted (h.counted.step t a) ?_ (bounded_step h.counted h.bounded t a)
  obtain hsame | ⟨rfl, hlimit, hfull, hadded⟩ := refusals_step limit w t a
  · rw [hsame]
    exact h.refused
  · rw [hadded, List.forall_mem_cons]
    refine ⟨?_, h.refused⟩
    by_contra hlt
    have hless := hroom hlimit (Nat.lt_of_not_le hlt)
    have hlen := length_guards w
    have hcount : w.limiter.inFlight = w.guards.length + w.refusing := h.counted
    omega

/-- A client that comes when the others fill the limit is refused below it. -/
theorem RoomLeft.of_fair {limit : ℕ} {w : World} {t : ℤ} {a : Action} (h : Kept limit w)
    (hfair : Fair limit (QueryLimit.step limit w t a)) : RoomLeft limit w t a := by
  match a with
  | .tryEnter true => trivial
  | .giveBack => trivial
  | .drop _ => trivial
  | .tryEnter false =>
    intro hlimit hless
    by_contra hfull
    have hlen := length_guards w
    have hcount : w.limiter.inFlight = w.guards.length + w.refusing := h.counted
    obtain ⟨hroom, -⟩ | ⟨-, -, -, heq⟩ := tryEnter_cases limit false w
    · have hlt : w.limiter.inFlight < limit := by simpa [hlimit] using hroom
      omega
    · have hrefused := hfair.refused
      change ∀ clients ∈ (w.tryEnter limit false).refusals, limit ≤ clients at hrefused
      rw [heq, List.forall_mem_cons] at hrefused
      exact absurd hrefused.1 (Nat.not_le_of_lt hless)

/-- **The limit is the clients' own exactly in the runs where nothing else fills it**; that no more of them are
in flight, and that nothing is left of the count, holds in every run. -/
theorem fair_iff_roomLeft (limit : ℕ) (es : List (ℤ × Action)) :
    (Throughout (step limit) (Fair limit) {} es ↔ Meets (step limit) (RoomLeft limit) {} es) ∧
    (limit ≠ 0 → (run (step limit) {} es).foreground ≤ limit) ∧
    ((run (step limit) {} es).guards = [] → (run (step limit) {} es).refusing = 0 →
      (run (step limit) {} es).limiter.inFlight = 0) := by
  have hkept := run_invariant_of_mem (step limit) (P := fun _ => True)
    (I := fun w => Counted w ∧ (limit ≠ 0 → w.foreground ≤ limit))
    (fun _ t a h _ => ⟨h.1.step t a, bounded_step h.1 h.2 t a⟩) es {}
    ⟨rfl, fun _ => Nat.zero_le limit⟩ fun _ _ => trivial
  refine ⟨?_, hkept.2, fun hguards hrefusing => ?_⟩
  · exact throughout_iff_meets (I := Kept limit) (step limit) (fun _ h => h.toFair) (fun _ _ _ h hroom => h.step hroom)
      (fun _ _ _ h hfair => RoomLeft.of_fair h hfair) es {} (kept_start limit)
  · have hcount : (run (step limit) {} es).limiter.inFlight = _ := hkept.1
    rw [hcount, hguards, hrefusing]
    rfl

/-- One lookup of the background is in flight when the only client comes. -/
theorem background_starves : ¬ ∀ (limit : ℕ) (es : List (ℤ × Action)), Throughout (step limit) (Fair limit) {} es := by
  intro h
  have hlast := (h 1 [(0, .tryEnter true), (0, .tryEnter false)]).2.2.refused
  exact absurd (hlast 0 (by decide)) (by decide)

end QueryLimit
end Server
end SmartDns
