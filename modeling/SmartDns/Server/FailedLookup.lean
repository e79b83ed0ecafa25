/-
# Lookups that failed, under the dual-stack selection

Of the two lookups of a query for addresses one may fail. An empty response then
stands in for it, and what the selection does to an empty response is to give it
an SOA record: the failure becomes a negative answer, which is returned, or is
handed to the cache for the other type (`timeout_becomes_negative`). No failure
becomes one exactly where both lookups end the same way, where a failed query has
no address on the other side to live on, or where the other family has won the
comparison and the failed type is withheld in any case (`failuresKept_iff`).

Key definitions: `Negative`, `Walkover`, `FailuresKept`.
Key theorem: `failuresKept_iff`.
-/
import SmartDns.Server.Suppression

namespace SmartDns
namespace Server
namespace FailedLookup

open Dns

/-- An answer that says there are no records, and for how long. -/
def Negative (r : DnsResponse) : Prop :=
  r.message.answers = [] ∧ ∃ x ∈ r.message.authorities, x.recordType = .SOA

section

variable (cfg : RuntimeConfig) (race : Race) (now : ℤ) (serial : ℕ)

/-- The type of `failed` is withheld because the addresses of `other` won. -/
def Withheld (ctx : ChainContext) (isAaaa : Bool) (failed other : DnsResponse) : Bool :=
  if isAaaa then blocksAaaa cfg race ctx failed other else blocksA cfg race ctx other failed

/-- There is a comparison and some mode reaches an address of the other family, against none; for A to be withheld
the configuration has to allow it. -/
def Walkover (ctx : ChainContext) (isAaaa : Bool) (other : DnsResponse) : Bool :=
  dualstackEnabled cfg ctx && !shouldSkipSpeedRace cfg ctx &&
    (speedCheckModes cfg ctx).any (fun mode => (race.single mode other.ipAddrs).reached) &&
    (isAaaa || ctx.dualstackIpAllowForceAaaa cfg)

/-- Both families are looked up. -/
def Splits (ctx : ChainContext) (req : DnsRequest) : Prop :=
  (!req.query.queryType.isIpAddr || decide (req.query.queryType = .AAAA) && ctx.forceAaaaSoa cfg) = false

def siblingOf (req : DnsRequest) : DnsRequest := req.setQueryType (otherFamily req.query.queryType)

/-- The lookup of the type asked for, and the one of its sibling. -/
def thisLookup {S : Type} (next : Next S) (ctx : ChainContext) (req : DnsRequest) (s : S) : LookupResult :=
  (next ctx req s).1

def thatLookup {S : Type} (next : Next S) (ctx : ChainContext) (req : DnsRequest) (s : S) : LookupResult :=
  (next ctx (siblingOf req) (next ctx req s).2).1

/-- **A failed lookup gives no negative answer for its type**, neither to the client nor to the cache, unless the
type is withheld. -/
structure FailuresKept {S : Type} (next : Next S) (ctx : ChainContext) (req : DnsRequest) (s : S) : Prop where
  asked : ∀ e r extra s', thisLookup next ctx req s = .error e →
    dualstackMiddleware cfg race now serial next ctx req s = (.ok r, extra, s') → Negative r →
    ∃ other, thatLookup next ctx req s = .ok other ∧
      Withheld cfg race ctx (req.query.queryType = .AAAA) (emptyResponse now req.original) other = true
  sibling : ∀ e res extra s', Splits cfg ctx req → thatLookup next ctx req s = .error e →
    dualstackMiddleware cfg race now serial next ctx req s = (res, extra, s') → ∀ x ∈ extra, Negative x.2 →
    ∃ other, thisLookup next ctx req s = .ok other ∧
      Withheld cfg race ctx (!decide (req.query.queryType = .AAAA)) (emptyResponse now (siblingOf req).original)
        other = true

/-- How the two lookups may end for that. -/
def Harmless (ctx : ChainContext) (isAaaa : Bool) : LookupResult → LookupResult → Prop
  | .error _, .ok that =>
    that.message.answers.any (·.recordType.isIpAddr) = true → Walkover cfg race ctx isAaaa that = true
  | .ok this, .error _ => Walkover cfg race ctx (!isAaaa) this = true
  | .ok _, .ok _ => True
  | .error _, .error _ => True

end

/-! ### The comparison with a family without addresses -/

section

variable {cfg : RuntimeConfig} {race : Race} {now : ℤ} {serial : ℕ} {ctx : ChainContext}

theorem single_nil (race : Race) (mode : Rule.SpeedCheckMode) : race.single mode [] = ⟨0, false⟩ := rfl

/-- Whoever ends first, one side has not reached an address. -/
theorem whichFaster_nil_left (threshold : ℕ) (ips : List IpAddr) (modes : List Rule.SpeedCheckMode) :
    whichFaster race threshold [] ips modes =
      if modes.any (fun mode => (race.single mode ips).reached) then some false else none := by
  induction modes with
  | nil => rfl
  | cons mode modes ih =>
    rw [List.any_cons, whichFaster, single_nil, ih]
    dsimp only
    generalize hfirst : (if 0 = (race.single mode ips).ended then race.aaaaFirst mode
      else decide (0 < (race.single mode ips).ended)) = isAaaaFirst
    cases isAaaaFirst with
    | true => cases h : (race.single mode ips).reached <;> simp [h]
    | false => cases h : (race.single mode ips).reached <;> simp [h]

theorem whichFaster_nil_right (threshold : ℕ) (ips : List IpAddr) (modes : List Rule.SpeedCheckMode) :
    whichFaster race threshold ips [] modes =
      if modes.any (fun mode => (race.single mode ips).reached) then some true else none := by
  induction modes with
  | nil => rfl
  | cons mode modes ih =>
    rw [List.any_cons, whichFaster, single_nil, ih]
    dsimp only
    generalize hfirst : (if (race.single mode ips).ended = 0 then race.aaaaFirst mode
      else decide ((race.single mode ips).ended < 0)) = isAaaaFirst
    cases isAaaaFirst with
    | true => cases h : (race.single mode ips).reached <;> simp [h]
    | false => cases h : (race.single mode ips).reached <;> simp [h]

/-- **A type without addresses is withheld exactly at a walkover.** -/
theorem withheld_iff_walkover (isAaaa : Bool) {failed : DnsResponse} (other : DnsResponse) (h : failed.ipAddrs = []) :
    Withheld cfg race ctx isAaaa failed other = true ↔ Walkover cfg race ctx isAaaa other = true := by
  unfold Withheld Walkover
  cases isAaaa with
  | true =>
    rw [if_pos rfl, blocksAaaa, raceResult, h, whichFaster_nil_left]
    by_cases hrace : (dualstackEnabled cfg ctx && !shouldSkipSpeedRace cfg ctx) = true
    · rw [if_pos hrace, hrace]
      split <;> simp_all
    · rw [if_neg hrace]
      simp [hrace]
  | false =>
    rw [if_neg Bool.false_ne_true, blocksA, raceResult, h, whichFaster_nil_right]
    by_cases hrace : (dualstackEnabled cfg ctx && !shouldSkipSpeedRace cfg ctx) = true
    · rw [if_pos hrace, hrace]
      split <;> simp_all
    · rw [if_neg hrace]
      simp [hrace]

/-! ### What stands in for a failed lookup -/

theorem negative_processResp_empty (blocked : Bool) (ttl : ℕ) (query : Query) :
    Negative (processResp serial blocked ttl (emptyResponse now query)) := by
  have hsame : (if blocked then takeAnswers (emptyResponse now query) else emptyResponse now query) =
      emptyResponse now query := by
    cases blocked <;> rfl
  rw [processResp, hsame]
  refine ⟨?_, (forgeSoaRecord serial (emptyResponse now query).query.name ttl).toRecord, ?_, rfl⟩
  · simp [ensureSoa, emptyResponse, DnsResponse.setNewTtl, Message.records, takeAnswers, DnsResponse.addAuthority]
  · simp [ensureSoa, emptyResponse, DnsResponse.setNewTtl, Message.records, takeAnswers, DnsResponse.addAuthority,
      DnsResponse.query]

/-- **The empty response that stands in becomes a negative answer.** -/
theorem negative_selected {aaaa a : DnsResponse} {isAaaa : Bool} {query : Query}
    (h : (if isAaaa then aaaa else a) = emptyResponse now query) :
    Negative (selected cfg race serial ctx aaaa a isAaaa) := by
  unfold selected
  dsimp only
  rw [h]
  split
  · exact negative_processResp_empty _ _ query
  · exact negative_processResp_empty _ _ query

theorem ipAddrs_emptyResponse (query : Query) : (emptyResponse now query).ipAddrs = [] := rfl

section

variable {S : Type} {next : Next S} {req : DnsRequest} {s : S}

variable (race now serial next s) in
/-- Without a second lookup the result is that of the first, and there is nothing for the cache. -/
theorem dualstack_of_not_splits (h : ¬Splits cfg ctx req) :
    ∃ s', dualstackMiddleware cfg race now serial next ctx req s = (thisLookup next ctx req s, [], s') := by
  unfold dualstackMiddleware
  rw [Splits, Bool.not_eq_false] at h
  dsimp only
  rw [if_pos h]
  exact ⟨_, rfl⟩

variable (race now serial next s) in
theorem dualstack_of_splits (h : Splits cfg ctx req) :
    ∃ s', dualstackMiddleware cfg race now serial next ctx req s =
      match bothAnswers now req (siblingOf req) (thisLookup next ctx req s) (thatLookup next ctx req s) with
      | .error e => (.error e, [], s')
      | .ok (this, that) =>
        (.ok (selectAnswers cfg race serial ctx (req.query.queryType = .AAAA) this that).1,
          (selectAnswers cfg race serial ctx (req.query.queryType = .AAAA) this that).2, s') := by
  unfold dualstackMiddleware
  dsimp only
  rw [if_neg (Bool.not_eq_true _ ▸ h)]
  refine ⟨(next ctx (siblingOf req) (next ctx req s).2).2, ?_⟩
  unfold thisLookup thatLookup siblingOf
  cases bothAnswers now req (req.setQueryType (otherFamily req.query.queryType)) (next ctx req s).1
      (next ctx (req.setQueryType (otherFamily req.query.queryType)) (next ctx req s).2).1 <;> rfl

/-- The answer that is given is of the type asked for, the one beside it of the other. -/
theorem negative_fst_selectAnswers (isAaaa : Bool) (query : Query) (that : DnsResponse) :
    Negative (selectAnswers cfg race serial ctx isAaaa (emptyResponse now query) that).1 := by
  cases isAaaa with
  | true => exact negative_selected rfl
  | false => exact negative_selected rfl

variable (cfg race now serial ctx) in
theorem negative_snd_selectAnswers (isAaaa : Bool) (query : Query) (this : DnsResponse) :
    ∃ x ∈ (selectAnswers cfg race serial ctx isAaaa this (emptyResponse now query)).2, Negative x.2 := by
  refine ⟨_, List.mem_singleton_self _, ?_⟩
  cases isAaaa with
  | true => exact negative_selected rfl
  | false => exact negative_selected rfl

end

end

/-- **No failure becomes a negative answer exactly where the two lookups end harmlessly.** -/
theorem failuresKept_iff {S : Type} (cfg : RuntimeConfig) (race : Race) (now : ℤ) (serial : ℕ) (next : Next S)
    (ctx : ChainContext) (req : DnsRequest) (s : S) :
    FailuresKept cfg race now serial next ctx req s ↔
      (Splits cfg ctx req → Harmless cfg race ctx (req.query.queryType = .AAAA) (thisLookup next ctx req s)
        (thatLookup next ctx req s)) := by
  by_cases hsplits : Splits cfg ctx req
  swap
  · obtain ⟨s', hrun⟩ := dualstack_of_not_splits race now serial next s hsplits
    refine ⟨fun _ h => absurd h hsplits, fun _ => ⟨fun e r extra s'' hthis hres _ => ?_,
      fun _ _ _ _ h => absurd h hsplits⟩⟩
    rw [hrun, hthis] at hres
    exact absurd (congrArg Prod.fst hres) (by simp)
  obtain ⟨s', hrun⟩ := dualstack_of_splits race now serial next s hsplits
  cases hthis : thisLookup next ctx req s with
  | ok this =>
    cases hthat : thatLookup next ctx req s with
    | ok that =>
      refine ⟨fun _ _ => trivial, fun _ => ⟨fun e _ _ _ h => ?_, fun e _ _ _ _ h => ?_⟩⟩
      · rw [hthis] at h
        cases h
      · rw [hthat] at h
        cases h
    | error e =>
      rw [hthis, hthat] at hrun
      simp only [bothAnswers] at hrun
      constructor
      · intro hkept _
        obtain ⟨x, hmem, hneg⟩ := negative_snd_selectAnswers cfg race now serial ctx (req.query.queryType = .AAAA) (siblingOf req).original this
        obtain ⟨other, hother, hwithheld⟩ := hkept.sibling e _ _ _ hsplits hthat hrun x hmem hneg
        obtain rfl : this = other := Except.ok.inj (hthis.symm.trans hother)
        exact (withheld_iff_walkover _ this (ipAddrs_emptyResponse _)).mp hwithheld
      · intro hharmless
        refine ⟨fun e _ _ _ h => ?_, fun _ _ _ _ _ _ _ _ _ _ => ⟨this, hthis, ?_⟩⟩
        · rw [hthis] at h
          cases h
        · exact (withheld_iff_walkover _ this (ipAddrs_emptyResponse _)).mpr (hharmless hsplits)
  | error e =>
    cases hthat : thatLookup next ctx req s with
    | ok that =>
      rw [hthis, hthat] at hrun
      simp only [bothAnswers] at hrun
      by_cases haddr : that.message.answers.any (·.recordType.isIpAddr) = true
      · rw [if_pos haddr] at hrun
        constructor
        · intro hkept _ _
          obtain ⟨other, hother, hwithheld⟩ := hkept.asked e _ _ _ hthis hrun (negative_fst_selectAnswers _ _ that)
          obtain rfl : that = other := Except.ok.inj (hthat.symm.trans hother)
          exact (withheld_iff_walkover _ that (ipAddrs_emptyResponse _)).mp hwithheld
        · intro hharmless
          refine ⟨fun _ _ _ _ _ _ _ => ⟨that, hthat, ?_⟩, fun e _ _ _ _ h => ?_⟩
          · exact (withheld_iff_walkover _ that (ipAddrs_emptyResponse _)).mpr (hharmless hsplits haddr)
          · rw [hthat] at h
            cases h
      · rw [if_neg haddr] at hrun
        refine ⟨fun _ _ h => absurd h haddr, fun _ => ⟨fun e' r extra s'' _ hres _ => ?_, fun e' _ _ _ _ h => ?_⟩⟩
        · rw [hrun] at hres
          cases (congrArg Prod.fst hres)
        · rw [hthat] at h
          cases h
    | error e' =>
      rw [hthis, hthat] at hrun
      simp only [bothAnswers] at hrun
      refine ⟨fun _ _ => trivial, fun _ => ⟨fun e'' r extra s'' _ hres _ => ?_, fun e'' res extra s'' _ _ hres x hx => ?_⟩⟩
      · rw [hrun] at hres
        cases (congrArg Prod.fst hres)
      · rw [hrun] at hres
        obtain rfl : [] = extra := congrArg (fun p => p.2.1) hres
        cases hx

/-- `www.example.com A`, where only AAAA is answered. -/
def ipv4TimesOut : Next Unit := fun _ req s =>
  (if req.query.queryType = .A then .error (.io "request timed out") else .ok (wwwAnswer req.original), s)

/-- The client asked for A, which nobody answered, and is told that there are no A records. -/
theorem timeout_becomes_negative : ¬ ∀ (cfg : RuntimeConfig) (race : Race) (now : ℤ) (serial : ℕ) (next : Next Unit)
    (ctx : ChainContext) (req : DnsRequest), FailuresKept cfg race now serial next ctx req () := by
  intro h
  obtain ⟨other, hother, hwithheld⟩ := (h plainConfig ipv4Wins 0 0 ipv4TimesOut (.new plainConfig wwwRequest.name {})
    wwwRequest).asked (.io "request timed out") _ _ _ rfl rfl (negative_processResp_empty false 300 (wwwQuery .A))
  obtain rfl : wwwAnswer (wwwQuery .AAAA) = other := Except.ok.inj hother
  revert hwithheld
  decide +kernel

end FailedLookup
end Server
end SmartDns
