/-
# Suppression needs a proven winner

The race of the dual-stack selection, probe by probe: for each mode every address of both
families is probed, and any schedule of what comes back, and when, is allowed. A family
that gets no permit to probe waits; its 600 ms count from the permit.

However it goes, at most one family is withheld, and only when an address of the other
one was reached in some mode and none of its own up to the threshold after it, or within
its 600 ms. The A records are withheld only where the configuration allows it, and the
family that is not withheld keeps its records. Every race of `whichFaster` is the race of
some schedule (`whichFaster_realised`).

Key definitions: `Round`, `SinglePing`, `WhichFaster`, `DualstackRun`.
Key theorem: `suppression_needs_winner`.
-/
import SmartDns.Server.Suppression

namespace SmartDns
namespace Server

open Dns

/-! ### The probes -/

/-- What a probe comes to, in milliseconds from the start of its mode. -/
inductive Probe
  | reached (t : ℕ)
  | failed (t : ℕ)
  | pending

/-- A mode of the race: when a family (`true` for AAAA) gets its permit, and what the probe of its `i`-th address
comes to. -/
structure Round where
  permit : Bool → ℕ
  probe : Bool → ℕ → Probe

/-- `to_ping_addrs`. -/
def probed (mode : Rule.SpeedCheckMode) (ips : List IpAddr) : List IpAddr := if mode = .none then [] else ips

namespace Round

variable (round : Round) (isAaaa : Bool) (mode : Rule.SpeedCheckMode) (ips : List IpAddr)

def deadline : ℕ := round.permit isAaaa + 600

/-- The address is reached at `t`. -/
def Reaches (ip : IpAddr) (t : ℕ) : Prop :=
  ∃ i, (probed mode ips)[i]? = some ip ∧ round.probe isAaaa i = .reached t

/-- `single_mode_ping_fastest` ends at this time, with this address. What comes back at the deadline may come before
or after it. -/
inductive SinglePing : ℕ → Option IpAddr → Prop
  | noAddress (h : probed mode ips = []) : SinglePing 0 none
  | reached {ip : IpAddr} {t : ℕ} (h : round.Reaches isAaaa mode ips ip t)
      (hfirst : ∀ ip' t', round.Reaches isAaaa mode ips ip' t' → t ≤ t') (ht : t ≤ round.deadline isAaaa) :
      SinglePing t (some ip)
  | allFailed {t : ℕ} (h : ∀ i < (probed mode ips).length, ∃ t' ≤ t, round.probe isAaaa i = .failed t')
      (hlast : ∃ i < (probed mode ips).length, round.probe isAaaa i = .failed t) (ht : t ≤ round.deadline isAaaa) :
      SinglePing t none
  | timeout (h : ∀ ip t, round.Reaches isAaaa mode ips ip t → round.deadline isAaaa ≤ t)
      (hpending : ∃ i < (probed mode ips).length, ∀ t, round.probe isAaaa i = .failed t → round.deadline isAaaa ≤ t) :
      SinglePing (round.deadline isAaaa) none

end Round

/-- The addresses of a family. -/
def familyIps (aaaaIps aIps : List IpAddr) (isAaaa : Bool) : List IpAddr := if isAaaa then aaaaIps else aIps

section

variable (threshold : ℕ) (aaaaIps aIps : List IpAddr)

/-- A mode is over: with the decision, or without one where no address of either family was reached. `first` is the
family that ends first, or is looked at first when both end together. -/
inductive Round.Ends (round : Round) (mode : Rule.SpeedCheckMode) : Option (Option Bool) → Prop
  /-- The second catches up within the grace period. -/
  | together {first : Bool} {t t' : ℕ} {ip ip' : IpAddr}
      (hfirst : round.SinglePing first mode (familyIps aaaaIps aIps first) t (some ip))
      (hsecond : round.SinglePing (!first) mode (familyIps aaaaIps aIps !first) t' (some ip'))
      (h : t ≤ t') (hgrace : t' ≤ t + threshold) : Ends round mode (some none)
  /-- The second fails. -/
  | alone {first : Bool} {t t' : ℕ} {ip : IpAddr}
      (hfirst : round.SinglePing first mode (familyIps aaaaIps aIps first) t (some ip))
      (hsecond : round.SinglePing (!first) mode (familyIps aaaaIps aIps !first) t' none)
      (h : t ≤ t') : Ends round mode (some (some first))
  /-- The grace period is over. -/
  | ahead {first : Bool} {t t' : ℕ} {ip : IpAddr} {found : Option IpAddr}
      (hfirst : round.SinglePing first mode (familyIps aaaaIps aIps first) t (some ip))
      (hsecond : round.SinglePing (!first) mode (familyIps aaaaIps aIps !first) t' found)
      (hgrace : t + threshold ≤ t') : Ends round mode (some (some first))
  /-- The first has failed, and the second is waited for. -/
  | second {first : Bool} {t t' : ℕ} {ip : IpAddr}
      (hfirst : round.SinglePing first mode (familyIps aaaaIps aIps first) t none)
      (hsecond : round.SinglePing (!first) mode (familyIps aaaaIps aIps !first) t' (some ip))
      (h : t ≤ t') : Ends round mode (some (some !first))
  | neither {first : Bool} {t t' : ℕ}
      (hfirst : round.SinglePing first mode (familyIps aaaaIps aIps first) t none)
      (hsecond : round.SinglePing (!first) mode (familyIps aaaaIps aIps !first) t' none)
      (h : t ≤ t') : Ends round mode none

/-- A run of `which_faster`; `rounds k` is the schedule of the `k`-th mode. -/
inductive WhichFaster : List Rule.SpeedCheckMode → (ℕ → Round) → Option Bool → Prop
  | undecided {rounds : ℕ → Round} : WhichFaster [] rounds none
  | decided {mode : Rule.SpeedCheckMode} {modes : List Rule.SpeedCheckMode} {rounds : ℕ → Round} {won : Option Bool}
      (h : (rounds 0).Ends threshold aaaaIps aIps mode (some won)) : WhichFaster (mode :: modes) rounds won
  | next {mode : Rule.SpeedCheckMode} {modes : List Rule.SpeedCheckMode} {rounds : ℕ → Round} {won : Option Bool}
      (h : (rounds 0).Ends threshold aaaaIps aIps mode none)
      (rest : WhichFaster modes (fun k => rounds (k + 1)) won) : WhichFaster (mode :: modes) rounds won

/-- **The family `winner` has a proven winner**: an address of it is reached, and of the other family none up to the
threshold after it, or none within its 600 ms. -/
def Round.Proven (round : Round) (mode : Rule.SpeedCheckMode) (winner : Bool) : Prop :=
  ∃ ip ∈ familyIps aaaaIps aIps winner, ∃ t, round.Reaches winner mode (familyIps aaaaIps aIps winner) ip t ∧
    ((∀ ip' t', round.Reaches (!winner) mode (familyIps aaaaIps aIps !winner) ip' t' → t + threshold ≤ t') ∨
      ∀ ip' t', round.Reaches (!winner) mode (familyIps aaaaIps aIps !winner) ip' t' → round.deadline (!winner) ≤ t')

end

/-! ### What a run proves -/

section

variable {round : Round} {isAaaa : Bool} {mode : Rule.SpeedCheckMode} {ips : List IpAddr} {t : ℕ}

theorem Round.Reaches.mem {ip : IpAddr} (h : round.Reaches isAaaa mode ips ip t) : ip ∈ ips := by
  obtain ⟨i, hi, -⟩ := h
  have hmem := List.mem_of_getElem? hi
  unfold probed at hmem
  split at hmem
  · cases hmem
  · exact hmem

/-- An address that is found was reached then, and none before. -/
theorem Round.SinglePing.reaches {ip : IpAddr} (h : round.SinglePing isAaaa mode ips t (some ip)) :
    round.Reaches isAaaa mode ips ip t ∧ ∀ ip' t', round.Reaches isAaaa mode ips ip' t' → t ≤ t' := by
  cases h with
  | reached h hfirst ht => exact ⟨h, hfirst⟩

/-- A family that fails reaches no address within its 600 ms. -/
theorem Round.SinglePing.failed (h : round.SinglePing isAaaa mode ips t none) :
    ∀ ip t', round.Reaches isAaaa mode ips ip t' → round.deadline isAaaa ≤ t' := by
  rintro ip t' ⟨i, hi, hprobe⟩
  obtain ⟨hlt, -⟩ := List.getElem?_eq_some_iff.mp hi
  cases h with
  | noAddress hnone =>
    rw [hnone] at hi
    cases hi
  | allFailed hall hlast ht =>
    obtain ⟨t'', -, hfailed⟩ := hall i hlt
    rw [hprobe] at hfailed
    cases hfailed
  | timeout hlate hpending => exact hlate ip t' ⟨i, hi, hprobe⟩

end

section

variable {threshold : ℕ} {aaaaIps aIps : List IpAddr} {mode : Rule.SpeedCheckMode} {round : Round}

theorem Round.Ends.proven {winner : Bool} (h : round.Ends threshold aaaaIps aIps mode (some (some winner))) :
    round.Proven threshold aaaaIps aIps mode winner := by
  generalize hout : some (some winner) = out at h
  cases h with
  | together hfirst hsecond ht hgrace => cases hout
  | neither hfirst hsecond ht => cases hout
  | @alone first t t' ip hfirst hsecond ht =>
    obtain rfl := Option.some.inj (Option.some.inj hout)
    exact ⟨ip, hfirst.reaches.1.mem, t, hfirst.reaches.1, .inr hsecond.failed⟩
  | @ahead first t t' ip found hfirst hsecond hgrace =>
    obtain rfl := Option.some.inj (Option.some.inj hout)
    refine ⟨ip, hfirst.reaches.1.mem, t, hfirst.reaches.1, ?_⟩
    cases found with
    | some ip' => exact .inl fun ip'' s hs => hgrace.trans (hsecond.reaches.2 ip'' s hs)
    | none => exact .inr hsecond.failed
  | @second first t t' ip hfirst hsecond ht =>
    obtain rfl := Option.some.inj (Option.some.inj hout)
    refine ⟨ip, hsecond.reaches.1.mem, t', hsecond.reaches.1, .inr ?_⟩
    rw [Bool.not_not]
    exact hfirst.failed

/-- **A run that decides has a mode that proves it.** -/
theorem WhichFaster.proven {modes : List Rule.SpeedCheckMode} {rounds : ℕ → Round} {won : Option Bool}
    (h : WhichFaster threshold aaaaIps aIps modes rounds won) : ∀ winner, won = some winner →
    ∃ k mode, modes[k]? = some mode ∧ (rounds k).Proven threshold aaaaIps aIps mode winner := by
  induction h with
  | undecided =>
    intro winner hwon
    cases hwon
  | @decided mode modes rounds won h =>
    rintro winner rfl
    exact ⟨0, mode, rfl, h.proven⟩
  | next h rest ih =>
    intro winner hwon
    obtain ⟨k, mode, hk, hproven⟩ := ih winner hwon
    exact ⟨k + 1, mode, hk, hproven⟩

end

/-! ### The middleware under any schedule -/

section

variable (cfg : RuntimeConfig) (now : ℤ) (serial : ℕ) (ctx : ChainContext) (won : Option Bool)

/-- The race of two answers ends so; without a race nobody wins. -/
def RaceEnds (rounds : ℕ → Round) (aaaa a : DnsResponse) : Prop :=
  if dualstackEnabled cfg ctx && !shouldSkipSpeedRace cfg ctx then
    WhichFaster (ctx.dualstackIpSelectionThreshold cfg).toNat aaaa.ipAddrs a.ipAddrs (speedCheckModes cfg ctx) rounds won
  else won = none

/-- `aaaa_blocked` and `a_blocked`. -/
def blocks (isAaaa : Bool) : Bool :=
  if isAaaa then won = some false else decide (won = some true) && ctx.dualstackIpAllowForceAaaa cfg

/-- The answer of a family after the selection. -/
def answerFor (aaaa a : DnsResponse) (isAaaa : Bool) : DnsResponse :=
  let r := processResp serial (blocks cfg ctx won isAaaa) (alignedTtlFor aaaa a (cfgMinTtl cfg ctx))
    (if isAaaa then aaaa else a)
  if blocks cfg ctx won true then { r with aaaaSuppressed := true } else r

/-- The answer asked for, and the other one with its question. -/
def answersFor (isAaaa : Bool) (this that : DnsResponse) : DnsResponse × List (Query × DnsResponse) :=
  let aaaa := if isAaaa then this else that
  let a := if isAaaa then that else this
  (answerFor cfg serial ctx won aaaa a isAaaa,
    [((answerFor cfg serial ctx won aaaa a !isAaaa).query, answerFor cfg serial ctx won aaaa a !isAaaa)])

/-- A run of the middleware, with the schedule of its race. -/
def DualstackRun (rounds : ℕ → Round) {S : Type} (next : Next S) (req : DnsRequest) (s : S)
    (out : LookupResult × List (Query × DnsResponse) × S) : Prop :=
  let queryType := req.query.queryType
  let (this, s₁) := next ctx req s
  if !queryType.isIpAddr || decide (queryType = .AAAA) && ctx.forceAaaaSoa cfg then out = (this, [], s₁)
  else
    let sibling := req.setQueryType (otherFamily queryType)
    let (that, s₂) := next ctx sibling s₁
    match bothAnswers now req sibling this that with
    | .error e => out = (.error e, [], s₂)
    | .ok (this, that) =>
      let isAaaa : Bool := queryType = .AAAA
      ∃ won, RaceEnds cfg ctx won rounds (if isAaaa then this else that) (if isAaaa then that else this) ∧
        out = (.ok (answersFor cfg serial ctx won isAaaa this that).1,
          (answersFor cfg serial ctx won isAaaa this that).2, s₂)

end

/-- Every record of `r` is in `r'`, in its section and in order, with the TTL `ttl`. -/
structure KeepsRecords (ttl : ℕ) (r r' : DnsResponse) : Prop where
  answers : r'.message.answers = r.message.answers.map (·.setTtl ttl)
  authorities : r.message.authorities.map (·.setTtl ttl) <+: r'.message.authorities
  additionals : r'.message.additionals = r.message.additionals.map (·.setTtl ttl)

/-- What holds of a selection between `aaaa` and `a`. -/
structure Selection (cfg : RuntimeConfig) (serial : ℕ) (ctx : ChainContext) (rounds : ℕ → Round)
    (aaaa a : DnsResponse) (won : Option Bool) : Prop where
  /-- At most one family is withheld, -/
  one : ¬ (blocks cfg ctx won true = true ∧ blocks cfg ctx won false = true)
  /-- and only if the other has a proven winner in some mode; -/
  proven : ∀ isAaaa, blocks cfg ctx won isAaaa = true → ∃ k mode, (speedCheckModes cfg ctx)[k]? = some mode ∧
    (rounds k).Proven (ctx.dualstackIpSelectionThreshold cfg).toNat aaaa.ipAddrs a.ipAddrs mode !isAaaa
  /-- the A records only if that is allowed. -/
  allowed : blocks cfg ctx won false = true → ctx.dualstackIpAllowForceAaaa cfg = true
  /-- The family that is not withheld keeps its records. -/
  keeps : ∀ isAaaa, blocks cfg ctx won isAaaa = false →
    KeepsRecords (alignedTtlFor aaaa a (cfgMinTtl cfg ctx)) (if isAaaa then aaaa else a)
      (answerFor cfg serial ctx won aaaa a isAaaa)

section

variable {cfg : RuntimeConfig} {now : ℤ} {serial : ℕ} {ctx : ChainContext} {won : Option Bool}

theorem keepsRecords_processResp (ttl : ℕ) (r : DnsResponse) :
    KeepsRecords ttl r (processResp serial false ttl r) := by
  unfold processResp
  rw [if_neg Bool.false_ne_true]
  unfold ensureSoa
  split
  · rename_i hempty
    -- the SOA record is made only where there is nothing to keep
    have hempty : (r.setNewTtl ttl).message.records = [] := by
      have := (Bool.and_eq_true _ _).mp hempty
      rw [Bool.false_or] at this
      exact List.isEmpty_iff.mp this.2
    unfold Message.records at hempty
    obtain ⟨hans, hadd⟩ := List.append_eq_nil_iff.mp hempty
    obtain ⟨hans, hauth⟩ := List.append_eq_nil_iff.mp hans
    refine ⟨?_, ?_, ?_⟩
    · exact hans.symm
    · exact List.prefix_append _ _
    · rfl
  · exact ⟨rfl, List.prefix_rfl, rfl⟩

/-- The mark is no record. -/
theorem answerFor_message (aaaa a : DnsResponse) (isAaaa : Bool) :
    (answerFor cfg serial ctx won aaaa a isAaaa).message =
      (processResp serial (blocks cfg ctx won isAaaa) (alignedTtlFor aaaa a (cfgMinTtl cfg ctx))
        (if isAaaa then aaaa else a)).message := by
  unfold answerFor
  by_cases hmark : blocks cfg ctx won true = true
  · rw [if_pos hmark]
  · rw [if_neg hmark]

theorem keepsRecords_answerFor {aaaa a : DnsResponse} {isAaaa : Bool} (h : blocks cfg ctx won isAaaa = false) :
    KeepsRecords (alignedTtlFor aaaa a (cfgMinTtl cfg ctx)) (if isAaaa then aaaa else a)
      (answerFor cfg serial ctx won aaaa a isAaaa) := by
  have hkeeps : KeepsRecords (alignedTtlFor aaaa a (cfgMinTtl cfg ctx)) (if isAaaa then aaaa else a)
      (processResp serial false _ _) := keepsRecords_processResp _ _
  have hmessage : (answerFor cfg serial ctx won aaaa a isAaaa).message = _ := answerFor_message aaaa a isAaaa
  rw [h] at hmessage
  refine ⟨?_, ?_, ?_⟩
  · rw [hmessage]
    exact hkeeps.answers
  · rw [hmessage]
    exact hkeeps.authorities
  · rw [hmessage]
    exact hkeeps.additionals

/-- Only a family that lost is withheld. -/
theorem won_of_blocks {isAaaa : Bool} (h : blocks cfg ctx won isAaaa = true) : won = some !isAaaa := by
  cases isAaaa with
  | true => exact of_decide_eq_true h
  | false => exact of_decide_eq_true ((Bool.and_eq_true _ _).mp h).1

/-- A race in which someone wins is run, and proves it. -/
theorem RaceEnds.proven {rounds : ℕ → Round} {aaaa a : DnsResponse} {winner : Bool}
    (h : RaceEnds cfg ctx (some winner) rounds aaaa a) : ∃ k mode, (speedCheckModes cfg ctx)[k]? = some mode ∧
    (rounds k).Proven (ctx.dualstackIpSelectionThreshold cfg).toNat aaaa.ipAddrs a.ipAddrs mode winner := by
  unfold RaceEnds at h
  split at h
  · exact h.proven winner rfl
  · cases h

theorem selection_of_raceEnds {rounds : ℕ → Round} {aaaa a : DnsResponse} (h : RaceEnds cfg ctx won rounds aaaa a) :
    Selection cfg serial ctx rounds aaaa a won := by
  refine ⟨?_, ?_, ?_, fun isAaaa hnot => keepsRecords_answerFor hnot⟩
  · rintro ⟨haaaa, ha⟩
    have hboth := (won_of_blocks haaaa).symm.trans (won_of_blocks ha)
    cases hboth
  · intro isAaaa hblocks
    obtain rfl := won_of_blocks hblocks
    exact h.proven
  · intro ha
    exact ((Bool.and_eq_true _ _).mp ha).2

/-- What a run that gives an answer comes to: what the upstream answered is handed on, or the race of both answers has
come to an end. -/
theorem DualstackRun.answers {rounds : ℕ → Round} {S : Type} {next : Next S} {req : DnsRequest} {s s' : S}
    {lookup : DnsResponse} {extra : List (Query × DnsResponse)}
    (h : DualstackRun cfg now serial ctx rounds next req s (.ok lookup, extra, s')) :
    ((next ctx req s).1 = .ok lookup ∧ extra = []) ∨
    ∃ this that won, bothAnswers now req (req.setQueryType (otherFamily req.query.queryType)) (next ctx req s).1
        (next ctx (req.setQueryType (otherFamily req.query.queryType)) (next ctx req s).2).1 = .ok (this, that) ∧
      RaceEnds cfg ctx won rounds (if req.query.queryType = .AAAA then this else that)
        (if req.query.queryType = .AAAA then that else this) ∧
      (lookup, extra) = answersFor cfg serial ctx won (req.query.queryType = .AAAA) this that := by
  unfold DualstackRun at h
  dsimp only at h
  split at h
  · obtain ⟨hres, hrest⟩ := Prod.mk.inj h
    exact .inl ⟨hres.symm, (Prod.mk.inj hrest).1⟩
  · split at h
    · cases (Prod.mk.inj h).1
    · rename_i this that hboth
      obtain ⟨won, hrace, hout⟩ := h
      obtain ⟨hres, hrest⟩ := Prod.mk.inj hout
      simp only [decide_eq_true_eq] at hrace
      refine .inr ⟨this, that, won, hboth, hrace, ?_⟩
      rw [Except.ok.inj hres, (Prod.mk.inj hrest).1]

/-- **Suppression needs a proven winner**: in every run that gives an answer, what the upstream answered is handed on
as it is, or both families were asked and what is made of their answers is a `Selection`. -/
theorem suppression_needs_winner {rounds : ℕ → Round} {S : Type} {next : Next S} {req : DnsRequest} {s s' : S}
    {lookup : DnsResponse} {extra : List (Query × DnsResponse)}
    (h : DualstackRun cfg now serial ctx rounds next req s (.ok lookup, extra, s')) :
    ((next ctx req s).1 = .ok lookup ∧ extra = []) ∨
    ∃ this that won, bothAnswers now req (req.setQueryType (otherFamily req.query.queryType)) (next ctx req s).1
        (next ctx (req.setQueryType (otherFamily req.query.queryType)) (next ctx req s).2).1 = .ok (this, that) ∧
      (lookup, extra) = answersFor cfg serial ctx won (req.query.queryType = .AAAA) this that ∧
      Selection cfg serial ctx rounds (if req.query.queryType = .AAAA then this else that)
        (if req.query.queryType = .AAAA then that else this) won := by
  rcases h.answers with hon | ⟨this, that, won, hboth, hrace, hout⟩
  · exact .inl hon
  · exact .inr ⟨this, that, won, hboth, hout, selection_of_raceEnds hrace⟩

end

/-! ### Every race is a run -/

/-- The schedule of a race: the first address of a family brings what the family comes to. -/
def Race.round (race : Race) (mode : Rule.SpeedCheckMode) (ips : Bool → List IpAddr) : Round where
  permit isAaaa := (race.single mode (ips isAaaa)).ended
  probe isAaaa i :=
    let out := race.single mode (ips isAaaa)
    if out.reached then if i = 0 then .reached out.ended else .pending else .failed out.ended

section

variable {race : Race} {mode : Rule.SpeedCheckMode} {ips : Bool → List IpAddr}

theorem singlePing_round (hmode : mode ≠ .none) (isAaaa : Bool) :
    ∃ found, found.isSome = (race.single mode (ips isAaaa)).reached ∧
      (race.round mode ips).SinglePing isAaaa mode (ips isAaaa) (race.single mode (ips isAaaa)).ended found := by
  have hprobed : probed mode (ips isAaaa) = ips isAaaa := if_neg hmode
  have hdeadline : (race.single mode (ips isAaaa)).ended ≤ (race.round mode ips).deadline isAaaa :=
    Nat.le_add_right _ _
  by_cases hnil : ips isAaaa = []
  · rw [hnil] at hprobed ⊢
    exact ⟨none, rfl, .noAddress hprobed⟩
  · obtain ⟨ip, rest, hips⟩ := List.exists_cons_of_ne_nil hnil
    cases hreached : (race.single mode (ips isAaaa)).reached with
    | true =>
      refine ⟨some ip, rfl, .reached ⟨0, ?_, ?_⟩ ?_ hdeadline⟩
      · rw [hprobed, hips]
        rfl
      · simp [Race.round, hreached]
      · rintro ip' t' ⟨i, -, hi⟩
        simp only [Race.round, hreached, if_true] at hi
        split at hi
        · exact Nat.le_of_eq (Probe.reached.inj hi)
        · cases hi
    | false =>
      have hfailed (i : ℕ) : (race.round mode ips).probe isAaaa i =
          .failed (race.single mode (ips isAaaa)).ended := by
        simp [Race.round, hreached]
      refine ⟨none, rfl, .allFailed (fun i _ => ⟨_, Nat.le_refl _, hfailed i⟩) ⟨0, ?_, hfailed 0⟩ hdeadline⟩
      rw [hprobed, hips]
      exact Nat.zero_lt_succ _

/-- `which_faster` with this race is a run under a schedule. -/
theorem whichFaster_realised (threshold : ℕ) (aaaaIps aIps : List IpAddr) : ∀ modes : List Rule.SpeedCheckMode,
    .none ∉ modes → ∃ rounds, WhichFaster threshold aaaaIps aIps modes rounds
      (whichFaster race threshold aaaaIps aIps modes)
  | [], _ => ⟨fun _ => ⟨fun _ => 0, fun _ _ => .pending⟩, .undecided⟩
  | mode :: modes, hmodes => by
    have hmode : mode ≠ .none := fun h => hmodes (h ▸ List.mem_cons_self)
    obtain ⟨rounds, hrest⟩ := whichFaster_realised threshold aaaaIps aIps modes
      fun h => hmodes (List.mem_cons_of_mem _ h)
    let round := race.round mode (familyIps aaaaIps aIps)
    refine ⟨fun k => k.casesOn round rounds, ?_⟩
    have hping := @singlePing_round race mode (familyIps aaaaIps aIps) hmode
    -- whoever is first, the second does not end before it
    have hround : ∀ first, (race.single mode (familyIps aaaaIps aIps first)).ended ≤
        (race.single mode (familyIps aaaaIps aIps !first)).ended →
        WhichFaster threshold aaaaIps aIps (mode :: modes) (fun k => k.casesOn round rounds)
          (if (race.single mode (familyIps aaaaIps aIps first)).reached then
            if (race.single mode (familyIps aaaaIps aIps !first)).reached &&
              decide ((race.single mode (familyIps aaaaIps aIps !first)).ended ≤
                (race.single mode (familyIps aaaaIps aIps first)).ended + threshold) then none else some first
          else if (race.single mode (familyIps aaaaIps aIps !first)).reached then some (!first)
          else whichFaster race threshold aaaaIps aIps modes) := by
      intro first hle
      obtain ⟨found, hfound, hfirst⟩ := hping first
      obtain ⟨found', hfound', hsecond⟩ := hping !first
      rw [← hfound, ← hfound']
      cases found with
      | some ip =>
        cases found' with
        | some ip' =>
          by_cases hgrace : (race.single mode (familyIps aaaaIps aIps !first)).ended ≤
              (race.single mode (familyIps aaaaIps aIps first)).ended + threshold
          · rw [decide_eq_true hgrace]
            exact .decided (.together hfirst hsecond hle hgrace)
          · rw [decide_eq_false hgrace]
            exact .decided (.ahead hfirst hsecond (Nat.le_of_not_le hgrace))
        | none => exact .decided (.alone hfirst hsecond hle)
      | none =>
        cases found' with
        | some ip' => exact .decided (.second hfirst hsecond hle)
        | none => exact .next (.neither hfirst hsecond hle) hrest
    rw [whichFaster]
    dsimp only
    generalize hfirst : (if (race.single mode aaaaIps).ended = (race.single mode aIps).ended then race.aaaaFirst mode
      else decide ((race.single mode aaaaIps).ended < (race.single mode aIps).ended)) = isAaaaFirst
    cases isAaaaFirst with
    | true =>
      refine hround true ?_
      show (race.single mode aaaaIps).ended ≤ (race.single mode aIps).ended
      split at hfirst
      · exact Nat.le_of_eq ‹_›
      · exact Nat.le_of_lt (of_decide_eq_true hfirst)
    | false =>
      refine hround false ?_
      show (race.single mode aIps).ended ≤ (race.single mode aaaaIps).ended
      split at hfirst
      · exact Nat.le_of_eq (Eq.symm ‹_›)
      · exact Nat.le_of_not_lt (of_decide_eq_false hfirst)

end

/-- **What the middleware does with a race is a run of it.** -/
theorem dualstackMiddleware_run (cfg : RuntimeConfig) (race : Race) (now : ℤ) (serial : ℕ) (ctx : ChainContext)
    {S : Type} (next : Next S) (req : DnsRequest) (s : S) :
    ∃ rounds, DualstackRun cfg now serial ctx rounds next req s
      (dualstackMiddleware cfg race now serial next ctx req s) := by
  have hrace : ∀ aaaa a, ∃ rounds, RaceEnds cfg ctx (raceResult cfg race ctx aaaa a) rounds aaaa a := by
    intro aaaa a
    unfold RaceEnds raceResult
    split
    · rename_i hrun
      refine whichFaster_realised _ _ _ _ fun hnone => ?_
      simp [shouldSkipSpeedRace, hnone] at hrun
    · exact ⟨fun _ => ⟨fun _ => 0, fun _ _ => .pending⟩, rfl⟩
  unfold DualstackRun dualstackMiddleware
  dsimp only
  split
  · exact ⟨fun _ => ⟨fun _ => 0, fun _ _ => .pending⟩, rfl⟩
  · generalize bothAnswers now req _ _ _ = both
    cases both with
    | error e => exact ⟨fun _ => ⟨fun _ => 0, fun _ _ => .pending⟩, rfl⟩
    | ok answers =>
      obtain ⟨this, that⟩ := answers
      dsimp only
      by_cases hq : req.query.queryType = .AAAA
      · obtain ⟨rounds, hends⟩ := hrace this that
        refine ⟨rounds, raceResult cfg race ctx this that, ?_, ?_⟩
        · simpa [hq] using hends
        · simp [hq, selectAnswers, answersFor, selected, answerFor, blocks, blocksAaaa, blocksA]
      · obtain ⟨rounds, hends⟩ := hrace that this
        refine ⟨rounds, raceResult cfg race ctx that this, ?_, ?_⟩
        · simpa [hq] using hends
        · simp [hq, selectAnswers, answersFor, selected, answerFor, blocks, blocksAaaa, blocksA]

/-- The addresses of `www.example.com`, of which the IPv4 address answers first. -/
theorem suppression_needs_winner_www : ∃ rounds,
    ((bothFamilies wwwContext wwwAaaaRequest ()).1 = .ok withheldAaaa ∧
      [(wwwQuery .A, { wwwAnswer (wwwQuery .A) with aaaaSuppressed := true })] = ([] : List (Query × DnsResponse))) ∨
    ∃ this that won, bothAnswers 0 wwwAaaaRequest (wwwAaaaRequest.setQueryType .A)
        (bothFamilies wwwContext wwwAaaaRequest ()).1
        (bothFamilies wwwContext (wwwAaaaRequest.setQueryType .A) ()).1 = .ok (this, that) ∧
      (withheldAaaa, [(wwwQuery .A, { wwwAnswer (wwwQuery .A) with aaaaSuppressed := true })]) =
        answersFor dns64Config 0 wwwContext won true this that ∧
      Selection dns64Config 0 wwwContext rounds this that won := by
  obtain ⟨rounds, hrun⟩ := dualstackMiddleware_run dns64Config ipv4Wins 0 0 wwwContext bothFamilies wwwAaaaRequest ()
  have hrun : DualstackRun dns64Config 0 0 wwwContext rounds bothFamilies wwwAaaaRequest ()
      (.ok withheldAaaa, [(wwwQuery .A, { wwwAnswer (wwwQuery .A) with aaaaSuppressed := true })], ()) := hrun
  exact ⟨rounds, suppression_needs_winner hrun⟩

end Server
end SmartDns
