/-
# What the zones say to a query

`handle_rule_addr` asks the address rules from the name's up, and the first that says
something decides (`ruleAddr_eq`). A rule for one family alone says nothing to queries of
the other, but it takes the place of the rules before it on the same domain. Whether it is
noticed there depends on these rules and on those that follow (`KeptA`, `KeptAaaa`).

Key definitions: `said`, `firstSaid`, `ruleAddr`, `KeptA`, `KeptAaaa`.
Key theorem: `ruleAddr_inserted`.
-/
import SmartDns.Rule.Readdress
import SmartDns.Server.AddressRule

namespace SmartDns
namespace Server

open Dns Lib Rule AddressRuleValue

/-! ### The walk over the rules -/

section

variable (serial : ℕ) (noRuleSoa : Bool) (t : RecordType)

/-- What a zone says to a query; without an address rule, nothing. -/
def said (v : Option AddressRuleValue) : AddressStep :=
  match v with
  | some v => addressStep serial noRuleSoa t v
  | none => .parent

/-- The answer of the first zone that says something. -/
def firstSaid : List AddressStep → Option (List RData)
  | [] => none
  | .answer rdatas :: _ => some rdatas
  | .ignore :: _ => none
  | .parent :: steps => firstSaid steps

theorem addressWalk_eq_firstSaid : ∀ rules : List DomainRule, addressWalk serial noRuleSoa t rules =
    firstSaid (rules.map fun r => said serial noRuleSoa t r.address)
  | [] => rfl
  | rule :: rules => by
    have ih := addressWalk_eq_firstSaid rules
    rw [List.map_cons, addressWalk]
    cases haddr : rule.address with
    | none => exact ih
    | some v =>
      show _ = firstSaid (addressStep serial noRuleSoa t v :: _)
      rw [Option.map_some]
      cases hstep : addressStep serial noRuleSoa t v with
      | answer rdatas => rfl
      | ignore => rfl
      | parent => exact ih

/-- The rule that decides the query: the first that says something. -/
def deciding : List (Option AddressRuleValue) → Option AddressRuleValue
  | [] => none
  | v :: vs =>
    match said serial noRuleSoa t v with
    | .parent => deciding vs
    | _ => v

variable {serial noRuleSoa t}

/-- Zones that say nothing can be left out. -/
theorem firstSaid_filter {α : Type} {f : α → AddressStep} {keep : α → Bool} :
    ∀ {l : List α}, (∀ a ∈ l, keep a = false → f a = .parent) → firstSaid ((l.filter keep).map f) = firstSaid (l.map f)
  | [], _ => rfl
  | a :: l, h => by
    have ih := firstSaid_filter fun b hb => h b (List.mem_cons_of_mem a hb)
    cases hkeep : keep a with
    | true =>
      rw [List.filter_cons_of_pos hkeep, List.map_cons, List.map_cons]
      cases hf : f a with
      | answer rdatas => rfl
      | ignore => rfl
      | parent => exact ih
    | false =>
      rw [List.filter_cons_of_neg (by simp [hkeep]), List.map_cons, h a List.mem_cons_self hkeep]
      exact ih

/-- What becomes of a zone that does not matter to the query as long as another one decides it. -/
structure SaysStill (serial : ℕ) (noRuleSoa : Bool) (t : RecordType) (own : AddressRuleValue → Prop)
    (v v' : Option AddressRuleValue) : Prop where
  nothing : said serial noRuleSoa t v = .parent → said serial noRuleSoa t v' = .parent
  same : ∀ x, v = some x → own x → said serial noRuleSoa t v' = said serial noRuleSoa t v

theorem firstSaid_congr {own : AddressRuleValue → Prop} {vs vs' : List (Option AddressRuleValue)}
    (h : List.Forall₂ (SaysStill serial noRuleSoa t own) vs vs')
    (hown : ∀ x, deciding serial noRuleSoa t vs = some x → own x) :
    firstSaid (vs'.map (said serial noRuleSoa t)) = firstSaid (vs.map (said serial noRuleSoa t)) := by
  induction h with
  | nil => rfl
  | @cons v v' vs vs' hstill _ ih =>
    rw [List.map_cons, List.map_cons]
    cases hsaid : said serial noRuleSoa t v with
    | parent =>
      rw [hstill.nothing hsaid]
      apply ih
      intro x hx
      apply hown
      rwa [deciding, hsaid]
    | _ =>
      cases v with
      | none => cases hsaid
      | some x =>
        have hx : own x := by
          apply hown
          rw [deciding, hsaid]
        rw [hstill.same x rfl hx, hsaid]
        rfl

end

/-! ### The rules a query meets -/

section

variable (crateMatch : List UInt8 → List UInt8 → Bool)

/-- The outcome of `handle_rule_addr` for `q` under these rules. -/
def ruleAddr (rs : RuleSet) (cfg : RuntimeConfig) (serial : ℕ) (t : RecordType) (ctx : ChainContext) (q : Name) :
    Option (List RData) :=
  handleRuleAddr cfg serial t { ctx with domainRule := (DomainRuleMap.create crateMatch rs).find crateMatch q }

variable (rs : RuleSet) (cfg : RuntimeConfig) (serial : ℕ) (t : RecordType) (ctx : ChainContext) (q : Name)

/-- **The outcome is the first that the zones say**, unless an option comes before them. -/
theorem ruleAddr_eq : ruleAddr crateMatch rs cfg serial t ctx q =
    if !ctx.serverOpts.noRuleSoa.getD false && forcesSoa cfg ctx t then some [.defaultSoa serial]
    else if ctx.serverOpts.noRuleAddr.getD false || !t.isIpAddr then none
    else firstSaid ((addressesUp crateMatch rs q).map (said serial (ctx.serverOpts.noRuleSoa.getD false) t)) := by
  have hitems := chainAt_buildTree crateMatch rs.ruleItems q (ruleItems_sorted rs)
  have hrules : ((((DomainRuleMap.create crateMatch rs).find crateMatch q).map (·.chain)).getD []).map
      (fun node => node.rule.address) = addressesUp crateMatch rs q := by
    calc _ = ((zoneChain crateMatch rs.ruleItems q).map fun e => e.2.address) := by
          rw [← hitems, List.map_map]
          rfl
      _ = _ := by
          rw [addressesUp, patternsUp, List.map_map]
          apply List.map_congr_left
          intro e he
          rw [Function.comp_apply, addressOf, ← ruleItems_rule rs (zoneChain_subset crateMatch _ _ e he)]
  have hwalk (n : Bool) : addressWalk serial n t (((((DomainRuleMap.create crateMatch rs).find crateMatch q).map
      (·.chain)).getD []).map (·.rule)) = firstSaid ((addressesUp crateMatch rs q).map (said serial n t)) := by
    rw [addressWalk_eq_firstSaid, ← hrules, List.map_map, List.map_map]
    rfl
  rw [← hwalk]
  rfl

end

/-! ### One domain with one more rule -/

/-- The addresses of an AAAA answer: the IPv6 addresses, else the IPv4 addresses mapped. -/
def aaaaAddresses (vs : List AddressRuleValue) : Option (List (BitVec 128)) :=
  (gathered v6 vs).or ((gathered v4 vs).map fun ips => ips.map fun ip => IpAddr.mapped ip.toBitVec)

/-- A rule for IPv6 alone between `before` and `after` leaves what the domain says to an A query: another rule that is
no list of addresses follows; or nothing follows, and the last rule was for IPv6 alone already; or the address
rules that follow have the IPv4 addresses without those before. -/
def KeptA (before after : List AddressRuleValue) : Prop :=
  (∃ v ∈ after, v.isAddr = false) ∨
  (after = [] ∧ ∀ v, before.getLast? = some v → v = .soav6 ∨ v = .ignv6) ∨
  (after ≠ [] ∧ gathered v4 (addressRun before ++ after) = gathered v4 after)

/-- A rule for IPv4 alone between `before` and `after` leaves what the domain says of its own to an AAAA query. -/
def KeptAaaa (before after : List AddressRuleValue) : Prop :=
  (∃ v ∈ after, v.isAddr = false) ∨
  (after = [] ∧ (∀ v, before.getLast? = some v → v ≠ .soav6 ∧ v ≠ .ignv6) ∧ gathered v6 (addressRun before) = none) ∨
  (after ≠ [] ∧ (gathered v6 (addressRun before ++ after) = none ∨
    aaaaAddresses (addressRun before ++ after) = aaaaAddresses after))

/-- An AAAA query is answered from IPv6 addresses, or by a rule for IPv6 alone. -/
def OwnAaaa (v : AddressRuleValue) : Prop := v.v6 ≠ none ∨ v = .soav6 ∨ v = .ignv6

section

variable {before after : List AddressRuleValue} {w : AddressRuleValue} (serial : ℕ) (noRuleSoa : Bool)

/-- **A rule for IPv6 alone, to an A query.** -/
theorem said_insert_a (hw : w = .soav6 ∨ w = .ignv6) (h : KeptA before after) :
    said serial noRuleSoa .A (folded (w :: after)) = said serial noRuleSoa .A (folded (before ++ after)) := by
  have haddr : w.isAddr = false := by rcases hw with rfl | rfl <;> rfl
  by_cases hother : ∃ v ∈ after, v.isAddr = false
  · rw [folded_append_of_exists before hother]
    exact congrArg _ (folded_append_of_exists [w] hother)
  rcases h with hother' | ⟨rfl, hlast⟩ | ⟨hne, hsame⟩
  · exact absurd hother' hother
  · have hrun : addressRun before = [] := by
      rw [addressRun_eq_nil_iff]
      intro v hv
      rcases hlast v hv with rfl | rfl <;> rfl
    have hnew : said serial noRuleSoa .A (folded [w]) = .parent := by
      rcases hw with rfl | rfl
      · cases noRuleSoa <;> rfl
      · rfl
    rw [hnew, List.append_nil, folded_eq, if_pos hrun]
    cases hv : before.getLast? with
    | none => rfl
    | some v =>
      rcases hlast v hv with rfl | rfl
      · cases noRuleSoa <;> rfl
      · rfl
  · have hall : ∀ u ∈ after, u.isAddr = true := by simpa using hother
    rw [folded_cons_of_forall haddr hne hall, folded_of_forall hne hall, folded_append_of_forall before hne hall, hsame]
    rfl

/-- What an address rule says with these addresses for the query. -/
def answerOf (serial : ℕ) (noRuleSoa : Bool) (ips : Option (List Dns.IpAddr)) : AddressStep :=
  match ips with
  | some ips => .answer (ips.map .ofIpAddr)
  | none => if noRuleSoa then .parent else .answer [.defaultSoa serial]

theorem said_addr_a (v4 : Option (List Ipv4Addr)) (v6 : Option (List Ipv6Addr)) :
    said serial noRuleSoa .A (some (.addr v4 v6)) =
      answerOf serial noRuleSoa (v4.map fun ips => ips.map fun ip => .v4 ip.toBitVec) := by
  cases v4 with
  | none => rfl
  | some ips => simp [said, addressStep, addressData, answerOf]

theorem said_addr_aaaa (vs : List AddressRuleValue) :
    said serial noRuleSoa .AAAA (some (.addr (gathered v4 vs) (gathered v6 vs))) =
      answerOf serial noRuleSoa ((aaaaAddresses vs).map fun ips => ips.map .v6) := by
  unfold aaaaAddresses
  cases gathered v6 vs with
  | some ips => simp [said, addressStep, addressData, answerOf]
  | none =>
    cases gathered v4 vs with
    | none => rfl
    | some ips => simp [said, addressStep, addressData, answerOf]

/-- **A rule for IPv4 alone, to an AAAA query.** -/
theorem saysStill_insert_aaaa (hw : w = .soav4 ∨ w = .ignv4) (h : KeptAaaa before after) :
    SaysStill serial noRuleSoa .AAAA OwnAaaa (folded (before ++ after)) (folded (w :: after)) := by
  have haddr : w.isAddr = false := by rcases hw with rfl | rfl <;> rfl
  have hquiet : said serial noRuleSoa .AAAA (some w) = .parent := by
    rcases hw with rfl | rfl
    · cases noRuleSoa <;> rfl
    · rfl
  by_cases hother : ∃ v ∈ after, v.isAddr = false
  · have hnew : folded (w :: after) = folded after := folded_append_of_exists [w] hother
    rw [folded_append_of_exists before hother, hnew]
    exact ⟨id, fun _ _ _ => rfl⟩
  rcases h with hother' | ⟨rfl, hlast, hnone⟩ | ⟨hne, hsame⟩
  · exact absurd hother' hother
  · refine ⟨fun _ => hquiet, fun x hx hown => ?_⟩
    exfalso
    rw [List.append_nil, folded_eq] at hx
    by_cases hrun : addressRun before = []
    · rw [if_pos hrun] at hx
      have hx' := addressRun_eq_nil_iff.mp hrun x hx
      rcases hown with hv6 | hsoa | hign
      · apply hv6
        cases x with
        | addr v4 v6 => cases hx'
        | _ => rfl
      · exact (hlast x hx).1 hsoa
      · exact (hlast x hx).2 hign
    · rw [if_neg hrun] at hx
      obtain rfl := Option.some.inj hx
      rcases hown with hv6 | hsoa | hign
      · exact hv6 hnone
      · cases hsoa
      · cases hign
  · have hall : ∀ u ∈ after, u.isAddr = true := by simpa using hother
    rw [folded_cons_of_forall haddr hne hall, folded_of_forall hne hall, folded_append_of_forall before hne hall]
    constructor
    · intro hparent
      rw [said_addr_aaaa] at hparent ⊢
      have hboth : aaaaAddresses (addressRun before ++ after) = none := by
        cases hdata : aaaaAddresses (addressRun before ++ after) with
        | none => rfl
        | some ips =>
          rw [hdata] at hparent
          cases hparent
      have hafter : aaaaAddresses after = none := by
        simp only [aaaaAddresses, Option.or_eq_none_iff, Option.map_eq_none_iff, gathered_eq_none_iff,
          List.mem_append] at hboth ⊢
        exact ⟨fun v hv => hboth.1 v (.inr hv), fun v hv => hboth.2 v (.inr hv)⟩
      rw [hafter]
      rwa [hboth] at hparent
    · intro x hx hown
      obtain rfl := Option.some.inj hx
      rcases hown with hv6 | hsoa | hign
      · rcases hsame with hnone | hsame
        · exact absurd hnone hv6
        · rw [said_addr_aaaa, said_addr_aaaa, hsame]
      · cases hsoa
      · cases hign

end

/-! ### One more rule in a configuration -/

theorem deciding_filter {serial : ℕ} {noRuleSoa : Bool} {t : RecordType} {α : Type} {f : α → Option AddressRuleValue}
    {keep : α → Bool} : ∀ {l : List α}, (∀ a ∈ l, keep a = false → said serial noRuleSoa t (f a) = .parent) →
      deciding serial noRuleSoa t ((l.filter keep).map f) = deciding serial noRuleSoa t (l.map f)
  | [], _ => rfl
  | a :: l, h => by
    have ih := deciding_filter fun b hb => h b (List.mem_cons_of_mem a hb)
    cases hkeep : keep a with
    | true => rw [List.filter_cons_of_pos hkeep, List.map_cons, List.map_cons, deciding, deciding, ih]
    | false =>
      rw [List.filter_cons_of_neg (by simp [hkeep]), List.map_cons, deciding, h a List.mem_cons_self hkeep]
      exact ih

section

variable {crateMatch : List UInt8 → List UInt8 → Bool} {rs : RuleSet} {pre post : List AddressRule} {rule : AddressRule}

/-- **An inserted rule that each of its domains outlives leaves the outcome.** -/
theorem ruleAddr_inserted (own : AddressRuleValue → Prop) {cfg : RuntimeConfig} {serial : ℕ} {t : RecordType}
    {ctx : ChainContext} {q : Name} (hw : rule.config.isAddr = false)
    (hkept : WalkKept crateMatch (without rs pre post) q (inserted rs pre post rule))
    (hstill : ∀ p, rs.covers p rule.domain = true → SaysStill serial (ctx.serverOpts.noRuleSoa.getD false) t own
      (addressOf (without rs pre post) p) (folded (rule.config :: rs.addressesIn post p)))
    (hown : ∀ x, deciding serial (ctx.serverOpts.noRuleSoa.getD false) t
      (addressesUp crateMatch (without rs pre post) q) = some x → own x) :
    ruleAddr crateMatch (inserted rs pre post rule) cfg serial t ctx q =
      ruleAddr crateMatch (without rs pre post) cfg serial t ctx q := by
  rw [ruleAddr_eq, ruleAddr_eq]
  generalize ctx.serverOpts.noRuleSoa.getD false = noRuleSoa at *
  let keep (p : WildcardName) : Bool := (addressOf (without rs pre post) p).isSome
  have hold : ∀ p, keep p = false → said serial noRuleSoa t (addressOf (without rs pre post) p) = .parent := by
    intro p hp
    rw [Option.not_isSome_iff_eq_none.mp (Bool.eq_false_iff.mp hp)]
    rfl
  have hnew : ∀ p, keep p = false → said serial noRuleSoa t (addressOf (inserted rs pre post rule) p) = .parent := by
    intro p hp
    rw [addressOf_inserted hw]
    by_cases hcovers : rs.covers p rule.domain = true
    · rw [if_pos hcovers]
      exact (hstill p hcovers).nothing (hold p hp)
    · rw [if_neg hcovers]
      exact hold p hp
  have hsaid : firstSaid ((addressesUp crateMatch (inserted rs pre post rule) q).map (said serial noRuleSoa t)) =
      firstSaid ((addressesUp crateMatch (without rs pre post) q).map (said serial noRuleSoa t)) := by
    unfold addressesUp
    have hfilterOld := firstSaid_filter (f := said serial noRuleSoa t ∘ addressOf (without rs pre post))
      fun p (_ : p ∈ patternsUp crateMatch (without rs pre post) q) => hold p
    have hfilterNew := firstSaid_filter (f := said serial noRuleSoa t ∘ addressOf (inserted rs pre post rule))
      fun p (_ : p ∈ patternsUp crateMatch (inserted rs pre post rule) q) => hnew p
    rw [List.map_map, List.map_map, ← hfilterOld, ← hfilterNew, ← List.map_map, ← List.map_map]
    refine firstSaid_congr (?_ : List.Forall₂ (SaysStill serial noRuleSoa t own) _ _) ?_
    · rw [List.forall₂_map_left_iff, List.forall₂_map_right_iff]
      refine (forall₂_patternsUp hkept).imp fun p p' hpp' => ?_
      rw [← addressOf_congr _ hpp', addressOf_inserted hw]
      by_cases hcovers : rs.covers p rule.domain = true
      · rw [if_pos hcovers]
        exact hstill p hcovers
      · rw [if_neg hcovers]
        exact ⟨id, fun _ _ _ => rfl⟩
    · intro x hx
      apply hown x
      rwa [deciding_filter fun p _ => hold p] at hx
  rw [hsaid]

end

end Server
end SmartDns
