/-
# Dual-stack selection

`dns_mw_dualstack.rs`: a query for addresses is asked for both families; the addresses race,
and the family that loses can be withheld. Withholding the AAAA records is a decision, and
both answers are marked with it, so that DNS64 does not undo it. The answer of the other
family is handed to the cache beside the one asked for.

How long a speed check takes is up to the network: it is a parameter (`Race`).

Key definitions: `whichFaster`, `blocksAaaa`, `processResp`, `dualstackMiddleware`.
Key theorems: `selected_aaaaSuppressed`, `decision_no_address`.
-/
import SmartDns.Dns.Address
import SmartDns.Server.Config
import SmartDns.Server.Reply

namespace SmartDns
namespace Server

open Dns

/-! ### The race -/

/-- When a speed check ends, in milliseconds from the start of its mode, and whether an address answered. -/
structure PingOutcome where
  ended : ℕ
  reached : Bool

/-- The speed checks of one query: what each mode finds, and which family is looked at first when both end together. -/
structure Race where
  ping : Rule.SpeedCheckMode → List IpAddr → PingOutcome
  aaaaFirst : Rule.SpeedCheckMode → Bool

/-- `single_mode_ping_fastest`: without an address there is nothing to check. -/
def Race.single (race : Race) (mode : Rule.SpeedCheckMode) (ips : List IpAddr) : PingOutcome :=
  if ips.isEmpty then ⟨0, false⟩ else race.ping mode ips

/-- `which_faster`: `some true` if AAAA won, `some false` if A did. The loser of a mode has the threshold to
catch up. -/
def whichFaster (race : Race) (threshold : ℕ) (aaaaIps aIps : List IpAddr) : List Rule.SpeedCheckMode → Option Bool
  | [] => none
  | mode :: modes =>
    let aaaa := race.single mode aaaaIps
    let a := race.single mode aIps
    let isAaaaFirst := if aaaa.ended = a.ended then race.aaaaFirst mode else decide (aaaa.ended < a.ended)
    let first := if isAaaaFirst then aaaa else a
    let second := if isAaaaFirst then a else aaaa
    if first.reached then
      if second.reached && decide (second.ended ≤ first.ended + threshold) then none else some isAaaaFirst
    else if second.reached then some (!isAaaaFirst)
    else whichFaster race threshold aaaaIps aIps modes

/-- Without AAAA records the A records win where one of them answers. -/
theorem whichFaster_no_aaaa (race : Race) (threshold : ℕ) (aIps : List IpAddr) (modes : List Rule.SpeedCheckMode) :
    whichFaster race threshold [] aIps modes =
      if modes.any fun mode => (race.single mode aIps).reached then some false else none := by
  induction modes with
  | nil => rfl
  | cons mode modes ih =>
    have hnone : race.single mode [] = ⟨0, false⟩ := rfl
    rcases hside : race.single mode aIps with ⟨ended, reached⟩
    unfold whichFaster
    simp only [hnone, hside, ih, List.any_cons]
    -- An AAAA side that is looked at first has not answered; one looked at second does not catch up.
    by_cases hfirst : (if 0 = ended then race.aaaaFirst mode else decide (0 < ended)) = true
    · cases reached <;> simp [hfirst]
    · cases reached <;> simp [hfirst]

/-! ### The two answers -/

def otherFamily : RecordType → RecordType
  | .A => .AAAA
  | .AAAA => .A
  | t => t

def minTtl (r : DnsResponse) : Option ℕ := (r.message.records.map (·.ttl)).min?

/-- `aligned_ttl_for`: the least TTL of both answers. -/
def alignedTtlFor (aaaa a : DnsResponse) (cfgMinTtl : ℕ) : ℕ :=
  match minTtl aaaa, minTtl a with
  | some s, some t => min s t
  | some t, none => t
  | none, some t => t
  | none, none => cfgMinTtl

def takeAnswers (r : DnsResponse) : DnsResponse := { r with message := { r.message with answers := [] } }

/-- An answer that is withheld, or empty, has an SOA record. -/
def ensureSoa (serial : ℕ) (blocked : Bool) (ttl : ℕ) (r : DnsResponse) : DnsResponse :=
  if !r.message.records.any (·.recordType = .SOA) && (blocked || r.message.records.isEmpty) then
    (takeAnswers r).addAuthority (forgeSoaRecord serial r.query.name ttl).toRecord
  else r

/-- `process_resp`. -/
def processResp (serial : ℕ) (blocked : Bool) (ttl : ℕ) (r : DnsResponse) : DnsResponse :=
  ensureSoa serial blocked ttl ((if blocked then takeAnswers r else r).setNewTtl ttl)

section

variable (cfg : RuntimeConfig) (race : Race) (now : ℤ) (serial : ℕ)

/-- `resolve_dualstack_selection`: the rule, then the group, then the configuration; on where none says anything. -/
def dualstackEnabled (ctx : ChainContext) : Bool :=
  !ctx.serverOpts.noDualstackSelection.getD false &&
    (((ruleGet ctx.domainRule (·.dualstackIpSelection)).or (cfg.groupParams ctx.effectiveRuleGroup).dualstackIpSelection).or
      cfg.params.dualstackIpSelection).getD true

/-- `resolve_speed_check_mode`. -/
def speedCheckModes (ctx : ChainContext) : Rule.SpeedCheckModeList :=
  ((ruleGet ctx.domainRule (·.speedCheckMode)).or (ctx.speedCheckMode cfg)).getD [.ping, .tcp 443]

def shouldSkipSpeedRace (ctx : ChainContext) : Bool :=
  ctx.serverOpts.noSpeedCheck.getD false || decide (.none ∈ speedCheckModes cfg ctx)

/-- Who won, where there is a race. -/
def raceResult (ctx : ChainContext) (aaaa a : DnsResponse) : Option Bool :=
  if dualstackEnabled cfg ctx && !shouldSkipSpeedRace cfg ctx then
    whichFaster race (ctx.dualstackIpSelectionThreshold cfg).toNat aaaa.ipAddrs a.ipAddrs (speedCheckModes cfg ctx)
  else none

/-- **The decision**: AAAA is withheld because A won. -/
def blocksAaaa (ctx : ChainContext) (aaaa a : DnsResponse) : Bool := raceResult cfg race ctx aaaa a = some false

def blocksA (ctx : ChainContext) (aaaa a : DnsResponse) : Bool :=
  decide (raceResult cfg race ctx aaaa a = some true) && ctx.dualstackIpAllowForceAaaa cfg

/-- The least TTL of the rule or the configuration. -/
def cfgMinTtl (ctx : ChainContext) : ℕ :=
  asU32 ((ruleGet ctx.domainRule (·.rrTtlMin)).getD ((ctx.rrTtlMin cfg).getD 60)).toNat

/-- An answer, as it stands after the selection: `isAaaa` says of which family it is. -/
def selected (ctx : ChainContext) (aaaa a : DnsResponse) (isAaaa : Bool) : DnsResponse :=
  let blocked := if isAaaa then blocksAaaa cfg race ctx aaaa a else blocksA cfg race ctx aaaa a
  let r := processResp serial blocked (alignedTtlFor aaaa a (cfgMinTtl cfg ctx)) (if isAaaa then aaaa else a)
  if blocksAaaa cfg race ctx aaaa a then { r with aaaaSuppressed := true } else r

/-- The answers to be chosen from: where one lookup failed an empty one stands for it, if the other brought something. -/
def bothAnswers (req sibling : DnsRequest) : LookupResult → LookupResult → Except DnsError (DnsResponse × DnsResponse)
  | .ok this, .ok that => .ok (this, that)
  | .error e, .ok that =>
    if that.message.answers.any (·.recordType.isIpAddr) then .ok (emptyResponse now req.original, that) else .error e
  | .ok this, .error _ => .ok (this, emptyResponse now sibling.original)
  | .error e, .error _ => .error e

/-- What stands below the cache gives: a result, and answers to be stored beside it. -/
abbrev Below (S : Type) : Type := ChainContext → DnsRequest → S → LookupResult × List (Query × DnsResponse) × S

/-- The answer asked for, and the other one with its question. -/
def selectAnswers (ctx : ChainContext) (isAaaa : Bool) (this that : DnsResponse) :
    DnsResponse × List (Query × DnsResponse) :=
  let aaaa := if isAaaa then this else that
  let a := if isAaaa then that else this
  (selected cfg race serial ctx aaaa a isAaaa,
    [((selected cfg race serial ctx aaaa a !isAaaa).query, selected cfg race serial ctx aaaa a !isAaaa)])

/-- The two lookups run side by side. -/
def dualstackMiddleware {S : Type} (next : Next S) : Below S := fun ctx req s =>
  let queryType := req.query.queryType
  if !queryType.isIpAddr || decide (queryType = .AAAA) && ctx.forceAaaaSoa cfg then
    let (res, s) := next ctx req s
    (res, [], s)
  else
    let sibling := req.setQueryType (otherFamily queryType)
    let (this, s) := next ctx req s
    let (that, s) := next ctx sibling s
    match bothAnswers now req sibling this that with
    | .error e => (.error e, [], s)
    | .ok (this, that) =>
      let (lookup, extra) := selectAnswers cfg race serial ctx (queryType = .AAAA) this that
      (.ok lookup, extra, s)

/-- **The decision of a lookup**: AAAA is withheld because A won; without a selection nothing is. -/
def decision {S : Type} (next : Next S) (ctx : ChainContext) (req : DnsRequest) (s : S) : Bool :=
  let queryType := req.query.queryType
  if !queryType.isIpAddr || decide (queryType = .AAAA) && ctx.forceAaaaSoa cfg then false
  else
    let sibling := req.setQueryType (otherFamily queryType)
    let (this, s) := next ctx req s
    let (that, _) := next ctx sibling s
    match bothAnswers now req sibling this that with
    | .error _ => false
    | .ok (this, that) =>
      if queryType = .AAAA then blocksAaaa cfg race ctx this that else blocksAaaa cfg race ctx that this

end

/-! ### The mark -/

section

variable {cfg : RuntimeConfig} {race : Race} {now : ℤ} {serial : ℕ} {ctx : ChainContext}

/-- Without AAAA records there is a race where there is one at all. -/
theorem blocksAaaa_no_address {aaaa a : DnsResponse} (h : aaaa.ipAddrs = []) :
    blocksAaaa cfg race ctx aaaa a = true ↔ dualstackEnabled cfg ctx = true ∧ shouldSkipSpeedRace cfg ctx = false ∧
      ∃ mode ∈ speedCheckModes cfg ctx, (race.single mode a.ipAddrs).reached = true := by
  unfold blocksAaaa raceResult
  rw [h, whichFaster_no_aaaa, decide_eq_true_eq]
  by_cases hrace : dualstackEnabled cfg ctx = true ∧ shouldSkipSpeedRace cfg ctx = false
  · rw [if_pos (by simp [hrace])]
    simp [hrace]
  · rw [if_neg (by simpa using hrace)]
    exact iff_of_false (by simp) fun hall => hrace ⟨hall.1, hall.2.1⟩

/-- **An AAAA answer that the upstream left empty is withheld, too**, where there is a race and an A record answers:
nothing asks whether there was anything to withhold. -/
theorem decision_no_address {S : Type} {next : Next S} {req : DnsRequest} {s : S} {aaaa a : DnsResponse}
    (hq : req.query.queryType = .AAAA) (hforce : ctx.forceAaaaSoa cfg = false)
    (haaaa : (next ctx req s).1 = .ok aaaa)
    (ha : (next ctx (req.setQueryType .A) (next ctx req s).2).1 = .ok a) (hnone : aaaa.ipAddrs = []) :
    decision cfg race now next ctx req s = true ↔
      dualstackEnabled cfg ctx = true ∧ shouldSkipSpeedRace cfg ctx = false ∧
        ∃ mode ∈ speedCheckModes cfg ctx, (race.single mode a.ipAddrs).reached = true := by
  have hblocks : decision cfg race now next ctx req s = blocksAaaa cfg race ctx aaaa a := by
    unfold decision
    rw [if_neg (by simp [hq, hforce, RecordType.isIpAddr])]
    simp only [hq, otherFamily, haaaa, ha, bothAnswers, if_true]
  rw [hblocks]
  exact blocksAaaa_no_address hnone

@[simp] theorem ensureSoa_aaaaSuppressed (blocked : Bool) (ttl : ℕ) (r : DnsResponse) :
    (ensureSoa serial blocked ttl r).aaaaSuppressed = r.aaaaSuppressed := by
  unfold ensureSoa
  split <;> rfl

@[simp] theorem processResp_aaaaSuppressed (blocked : Bool) (ttl : ℕ) (r : DnsResponse) :
    (processResp serial blocked ttl r).aaaaSuppressed = r.aaaaSuppressed := by
  unfold processResp
  rw [ensureSoa_aaaaSuppressed]
  cases blocked <;> rfl

/-- **The decision marks both answers**, and nothing else does. -/
theorem selected_aaaaSuppressed (aaaa a : DnsResponse) (isAaaa : Bool) :
    (selected cfg race serial ctx aaaa a isAaaa).aaaaSuppressed =
      (blocksAaaa cfg race ctx aaaa a || (if isAaaa then aaaa else a).aaaaSuppressed) := by
  unfold selected
  dsimp only
  cases h : blocksAaaa cfg race ctx aaaa a with
  | true => rfl
  | false =>
    rw [if_neg Bool.false_ne_true, processResp_aaaaSuppressed, Bool.false_or]

/-- The upstream code marks nothing. -/
def Unmarked {S : Type} (next : Next S) : Prop :=
  ∀ ctx req s r, (next ctx req s).1 = .ok r → r.aaaaSuppressed = false

theorem bothAnswers_unmarked {req sibling : DnsRequest} {this that : LookupResult} {x : DnsResponse × DnsResponse}
    (h : bothAnswers now req sibling this that = .ok x) (hthis : ∀ r, this = .ok r → r.aaaaSuppressed = false)
    (hthat : ∀ r, that = .ok r → r.aaaaSuppressed = false) :
    x.1.aaaaSuppressed = false ∧ x.2.aaaaSuppressed = false := by
  unfold bothAnswers at h
  split at h
  · obtain rfl := Except.ok.inj h
    exact ⟨hthis _ rfl, hthat _ rfl⟩
  · split at h
    · obtain rfl := Except.ok.inj h
      exact ⟨rfl, hthat _ rfl⟩
    · cases h
  · obtain rfl := Except.ok.inj h
    exact ⟨hthis _ rfl, rfl⟩
  · cases h

/-- **The answer that is given and those beside it are marked with the decision**. -/
theorem marked_with_decision {S : Type} {next : Next S} (hunmarked : Unmarked next) {req : DnsRequest} {s s' : S}
    {lookup : DnsResponse} {extra : List (Query × DnsResponse)}
    (h : dualstackMiddleware cfg race now serial next ctx req s = (.ok lookup, extra, s')) :
    lookup.aaaaSuppressed = decision cfg race now next ctx req s ∧
      ∀ x ∈ extra, x.2.aaaaSuppressed = decision cfg race now next ctx req s := by
  unfold dualstackMiddleware at h
  unfold decision
  dsimp only at h ⊢
  by_cases hsel : (!req.query.queryType.isIpAddr || decide (req.query.queryType = .AAAA) && ctx.forceAaaaSoa cfg) = true
  · rw [if_pos hsel] at h ⊢
    obtain ⟨hres, hrest⟩ := Prod.mk.inj h
    obtain ⟨rfl, -⟩ := Prod.mk.inj hrest
    exact ⟨hunmarked _ _ _ _ hres, fun x hx => by cases hx⟩
  · rw [if_neg hsel] at h ⊢
    have hthis := hunmarked ctx req s
    have hthat := hunmarked ctx (req.setQueryType (otherFamily req.query.queryType)) (next ctx req s).2
    cases hboth : bothAnswers now req (req.setQueryType (otherFamily req.query.queryType)) (next ctx req s).1
      (next ctx (req.setQueryType (otherFamily req.query.queryType)) (next ctx req s).2).1 with
    | error e =>
      rw [hboth] at h
      cases (Prod.mk.inj h).1
    | ok x =>
      obtain ⟨hfst, hsnd⟩ := bothAnswers_unmarked hboth hthis hthat
      rw [hboth] at h
      obtain ⟨hres, hrest⟩ := Prod.mk.inj h
      obtain ⟨rfl, -⟩ := Prod.mk.inj hrest
      obtain rfl := Except.ok.inj hres
      by_cases hq : req.query.queryType = .AAAA
      · simp [selectAnswers, hq, selected_aaaaSuppressed, hfst, hsnd]
      · simp [selectAnswers, hq, selected_aaaaSuppressed, hfst, hsnd]

end

end Server
end SmartDns
