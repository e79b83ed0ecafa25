/-
# Two families of addresses

Address rules for IPv6 alone should leave A queries as they are, those for IPv4 alone the
AAAA queries that IPv6 addresses or rules for IPv6 decide, and neither should lose the fixed
addresses of the other family. All of this goes wrong on one domain: `#6` after `1.2.3.4` is
merged over it (`ipv6_rule_takes_ipv4_address`).

`families_apart_iff` says when it goes right: by the rules that stand on the domain before
and after the one put in, and, where the domain had none, by the lookup, for which its
pattern must not stand in front of others.

Key definitions: `UndisturbedA`, `UndisturbedAaaa`.
Key theorem: `families_apart_iff`.
-/
import SmartDns.Server.AddressZones
import SmartDns.Server.Refresh

namespace SmartDns
namespace Server

open Dns Lib Rule AddressRuleValue

/-! ### Two domains show what is lost -/

theorem defaultSoa_ne_ofIpAddr (serial : ℕ) (ip : Dns.IpAddr) : RData.ofIpAddr ip ≠ .defaultSoa serial := by
  intro h
  have hip := congrArg RData.ipAddr h
  rw [RData.ipAddr_ofIpAddr] at hip
  cases hip

theorem ofIpAddr_injective : Function.Injective RData.ofIpAddr := by
  intro ip ip' h
  have hip := congrArg RData.ipAddr h
  rw [RData.ipAddr_ofIpAddr, RData.ipAddr_ofIpAddr] at hip
  exact Option.some.inj hip

theorem answerOf_injective (serial : ℕ) : Function.Injective (answerOf serial false) := by
  have hsoa : ∀ ips : List Dns.IpAddr, ips.map RData.ofIpAddr ≠ [.defaultSoa serial]
    | [], h => by cases h
    | ip :: ips, h => defaultSoa_ne_ofIpAddr serial ip (List.cons.inj h).1
  intro l l' h
  cases l with
  | none =>
    cases l' with
    | none => rfl
    | some ips => exact absurd (AddressStep.answer.inj h).symm (hsoa ips)
  | some ips =>
    cases l' with
    | none => exact absurd (AddressStep.answer.inj h) (hsoa ips)
    | some ips' => exact congrArg some (List.map_injective_iff.mpr ofIpAddr_injective (AddressStep.answer.inj h))

theorem map_map_injective {α β : Type} {f : α → β} (h : Function.Injective f) :
    Function.Injective fun l : Option (List α) => l.map (List.map f) :=
  Option.map_injective (List.map_injective_iff.mpr h)

section

variable {before after : List AddressRuleValue} {w : AddressRuleValue}

theorem keptA_of_said (hw : w = .soav6 ∨ w = .ignv6)
    (h : said 0 false .A (folded (w :: after)) = said 0 false .A (folded (before ++ after))) : KeptA before after := by
  have haddr : w.isAddr = false := by rcases hw with rfl | rfl <;> rfl
  by_cases hother : ∃ v ∈ after, v.isAddr = false
  · exact .inl hother
  have hall : ∀ u ∈ after, u.isAddr = true := by simpa using hother
  by_cases hne : after = []
  · subst hne
    refine .inr (.inl ⟨rfl, fun v hv => ?_⟩)
    have hnew : said 0 false .A (folded [w]) = .parent := by rcases hw with rfl | rfl <;> rfl
    rw [hnew, List.append_nil, folded_eq] at h
    by_cases hrun : addressRun before = []
    · rw [if_pos hrun, hv] at h
      have hvaddr := addressRun_eq_nil_iff.mp hrun v hv
      cases v with
      | soav6 => exact .inl rfl
      | ignv6 => exact .inr rfl
      | addr v4 v6 => cases hvaddr
      | _ => cases h
    · rw [if_neg hrun, said_addr_a] at h
      cases hv4 : gathered v4 (addressRun before) <;> rw [hv4] at h <;> cases h
  · refine .inr (.inr ⟨hne, ?_⟩)
    rw [folded_cons_of_forall haddr hne hall, folded_of_forall hne hall, folded_append_of_forall before hne hall,
      said_addr_a, said_addr_a] at h
    have hinjective : Function.Injective fun ip : Ipv4Addr => Dns.IpAddr.v4 ip.toBitVec := by
      intro ip ip' hip
      exact UInt32.toBitVec_inj.mp (Dns.IpAddr.v4.inj hip)
    exact (map_map_injective hinjective (answerOf_injective 0 h)).symm

theorem keptAaaa_of_said (hw : w = .soav4 ∨ w = .ignv4)
    (h : ∀ x, folded (before ++ after) = some x → OwnAaaa x →
      said 0 false .AAAA (folded (w :: after)) = said 0 false .AAAA (some x)) : KeptAaaa before after := by
  have haddr : w.isAddr = false := by rcases hw with rfl | rfl <;> rfl
  by_cases hother : ∃ v ∈ after, v.isAddr = false
  · exact .inl hother
  have hall : ∀ u ∈ after, u.isAddr = true := by simpa using hother
  by_cases hne : after = []
  · subst hne
    have hnew : said 0 false .AAAA (folded [w]) = .parent := by rcases hw with rfl | rfl <;> rfl
    rw [hnew, List.append_nil, folded_eq] at h
    refine .inr (.inl ⟨rfl, fun v hv => ?_, ?_⟩)
    · constructor
      · rintro rfl
        rw [if_pos (addressRun_eq_nil_iff.mpr fun v hv' => by rw [hv] at hv'; cases hv'; rfl)] at h
        cases h .soav6 hv (.inr (.inl rfl))
      · rintro rfl
        rw [if_pos (addressRun_eq_nil_iff.mpr fun v hv' => by rw [hv] at hv'; cases hv'; rfl)] at h
        cases h .ignv6 hv (.inr (.inr rfl))
    · by_cases hrun : addressRun before = []
      · rw [hrun]
        rfl
      · by_contra hv6
        rw [if_neg hrun] at h
        have hsame := h _ rfl (.inl hv6)
        obtain ⟨ips, hips⟩ := Option.ne_none_iff_exists'.mp hv6
        rw [said_addr_aaaa, aaaaAddresses, hips] at hsame
        cases hsame
  · refine .inr (.inr ⟨hne, ?_⟩)
    by_cases hv6 : gathered v6 (addressRun before ++ after) = none
    · exact .inl hv6
    · right
      rw [folded_cons_of_forall haddr hne hall, folded_of_forall hne hall, folded_append_of_forall before hne hall] at h
      have hsame := h _ rfl (.inl hv6)
      rw [said_addr_aaaa, said_addr_aaaa] at hsame
      have hinjective : Function.Injective Dns.IpAddr.v6 := fun _ _ hip => Dns.IpAddr.v6.inj hip
      exact (map_map_injective hinjective (answerOf_injective 0 hsame)).symm

end

/-- Of two zones that say something different the rule above shows it. -/
theorem exists_up {t : RecordType} (ht : t = .A ∨ t = .AAAA) {s s' : AddressStep} (h : s ≠ s') :
    ∃ up, firstSaid [s, said 0 false t (some up)] ≠ firstSaid [s', said 0 false t (some up)] := by
  let ips : AddressRuleValue := .addr (some [0]) none
  have hips : ∃ rdatas, said 0 false t (some ips) = .answer rdatas := by rcases ht with rfl | rfl <;> exact ⟨_, rfl⟩
  obtain ⟨rdatas, hips⟩ := hips
  cases s with
  | answer r =>
    refine ⟨.ign, ?_⟩
    cases s' with
    | answer r' => exact fun heq => h (congrArg _ (Option.some.inj heq))
    | ignore => exact fun heq => nomatch heq
    | parent => exact fun heq => nomatch heq
  | ignore =>
    refine ⟨ips, ?_⟩
    rw [hips]
    cases s' with
    | answer r' => exact fun heq => nomatch heq
    | ignore => exact absurd rfl h
    | parent => exact fun heq => nomatch heq
  | parent =>
    cases s' with
    | answer r' => exact ⟨.ign, fun heq => nomatch heq⟩
    | ignore =>
      refine ⟨ips, ?_⟩
      rw [hips]
      exact fun heq => nomatch heq
    | parent => exact absurd rfl h

def com : Name := ⟨false, [labelCom]⟩

def onExample (vs : List AddressRuleValue) : List AddressRule := vs.map fun v => ⟨.name (.default exampleCom), v⟩

/-- `.com` has the rule `up`, and `example.com` the rules `vs`. -/
def belowCom (up : AddressRuleValue) (vs : List AddressRuleValue) : RuleSet :=
  RuleSet.withAddressRules {} (⟨.name (.default com), up⟩ :: onExample vs)

def plainContext : ChainContext := .new plainConfig .root {}

section

variable (crateMatch : List UInt8 → List UInt8 → Bool) (up : AddressRuleValue)

theorem expandRules_onExample (rs : RuleSet) (vs : List AddressRuleValue) :
    rs.expandRules (onExample vs) = vs.map fun v => (.default exampleCom, v) := by
  rw [RuleSet.expandRules, onExample, List.flatMap_map]
  exact List.flatMap_pure_eq_map _ _

theorem addressesIn_onExample (rs : RuleSet) (vs : List AddressRuleValue) :
    rs.addressesIn (onExample vs) (.default exampleCom) = vs := by
  rw [RuleSet.addressesIn, expandRules_onExample, List.filter_map, List.map_map]
  simp [Function.comp_def]

theorem addressOf_belowCom_example (vs : List AddressRuleValue) :
    addressOf (belowCom up vs) (.default exampleCom) = folded vs := by
  have hcom : RuleSet.addressesIn {} [⟨.name (.default com), up⟩] (.default exampleCom) = [] := by
    rfl
  rw [belowCom, addressOf, RuleSet.address_sumOf]
  show folded ([] ++ RuleSet.addressesIn {} ([_] ++ onExample vs) _) = _
  rw [RuleSet.addressesIn_append, hcom, addressesIn_onExample]
  rfl

theorem addressOf_belowCom_com (vs : List AddressRuleValue) : addressOf (belowCom up vs) (.default com) = some up := by
  have hnone : RuleSet.addressesIn {} (onExample vs) (.default com) = [] := by
    have hne : ((.default exampleCom : WildcardName) == .default com) = false := by decide
    rw [RuleSet.addressesIn, expandRules_onExample, List.filter_map, List.map_map]
    simp [Function.comp_def, hne]
  rw [belowCom, addressOf, RuleSet.address_sumOf]
  show folded ([] ++ RuleSet.addressesIn {} ([_] ++ onExample vs) _) = _
  rw [RuleSet.addressesIn_append, hnone]
  rfl

theorem keys_belowCom {vs : List AddressRuleValue} (hne : vs ≠ []) :
    (belowCom up vs).nameRuleMap.keys = [.default com, .default exampleCom] := by
  have hloops : (belowCom up vs).nameRuleMap.keys =
      ((belowCom up vs).append RuleSet.appendAddress (belowCom up vs).addressRules KeyMap.empty).keys := rfl
  have hexpand : (belowCom up vs).expandRules (belowCom up vs).addressRules =
      (.default com, up) :: vs.map fun v => (.default exampleCom, v) := by
    show (belowCom up vs).expandRules ([_] ++ onExample vs) = _
    rw [RuleSet.expandRules, List.flatMap_append]
    exact congrArg _ (expandRules_onExample (belowCom up vs) vs)
  have hpush : ∀ vs : List AddressRuleValue, List.foldl KeyMap.pushKey
      [.default com, .default exampleCom] (vs.map fun _ => (.default exampleCom : WildcardName)) =
        [.default com, .default exampleCom] := by
    intro vs
    induction vs with
    | nil => rfl
    | cons v vs ih => exact ih
  obtain ⟨v, vs, rfl⟩ := List.exists_cons_of_ne_nil hne
  rw [hloops, RuleSet.keys_append, hexpand, List.map_cons, List.map_map]
  exact hpush vs

theorem patternsUp_belowCom {vs : List AddressRuleValue} (hne : vs ≠ []) :
    patternsUp crateMatch (belowCom up vs) exampleCom = [.default exampleCom, .default com] := by
  have hitems : (belowCom up vs).ruleItems.map (·.1) =
      [((.default com : WildcardName), ({} : DomainRule)), (.default exampleCom, {})].map (·.1) := by
    rw [RuleSet.map_fst_ruleItems, keys_belowCom up hne]
    rfl
  rw [patternsUp, map_fst_zoneChain_congr crateMatch exampleCom hitems]
  have hexample : nearest crateMatch [((.default com : WildcardName), ({} : DomainRule)), (.default exampleCom, {})]
      exampleCom = some (.default exampleCom, {}) := by rfl
  have hbefore : before [((.default com : WildcardName), ({} : DomainRule)), (.default exampleCom, {})]
      (.default exampleCom) = [(.default com, {})] := by rfl
  have hcom : nearest crateMatch [((.default com : WildcardName), ({} : DomainRule))] exampleCom.baseName =
      some (.default com, {}) := by rfl
  have hnil : before [((.default com : WildcardName), ({} : DomainRule))] (.default com) = [] := by rfl
  have hnone : nearest crateMatch ([] : List (WildcardName × DomainRule)) com.baseName = none := by rfl
  rw [zoneChain_some crateMatch hexample, hbefore, WildcardName.name_default, zoneChain_some crateMatch hcom, hnil,
    WildcardName.name_default, zoneChain_none crateMatch hnone]
  rfl

theorem ruleAddr_belowCom {t : RecordType} (ht : t = .A ∨ t = .AAAA) {vs : List AddressRuleValue} (hne : vs ≠ []) :
    ruleAddr crateMatch (belowCom up vs) plainConfig 0 t plainContext exampleCom =
      firstSaid [said 0 false t (folded vs), said 0 false t (some up)] := by
  rw [ruleAddr_eq, addressesUp, patternsUp_belowCom crateMatch up hne]
  simp only [List.map_cons, List.map_nil, addressOf_belowCom_example, addressOf_belowCom_com]
  rcases ht with rfl | rfl <;> rfl

/-- What decides a query for `example.com` there, if the rules of `example.com` do. -/
theorem deciding_belowCom {t : RecordType} {vs : List AddressRuleValue} (hne : vs ≠ [])
    (hsaid : said 0 false t (folded vs) ≠ .parent) :
    deciding 0 false t (addressesUp crateMatch (belowCom up vs) exampleCom) = folded vs := by
  rw [addressesUp, patternsUp_belowCom crateMatch up hne, List.map_cons, addressOf_belowCom_example, deciding]
  split
  · rename_i hparent
    exact absurd hparent hsaid
  · rfl

end

section

variable {crateMatch : List UInt8 → List UInt8 → Bool}

theorem isSome_firstSaid_iff {f : WildcardName → AddressStep} {t : WildcardName}
    (hmark : ∀ p, (p == t) = true → ∃ rdatas, f p = .answer rdatas) (hother : ∀ p, ¬ (p == t) = true → f p = .parent) :
    ∀ l : List WildcardName, (firstSaid (l.map f)).isSome ↔ ∃ p ∈ l, (p == t) = true
  | [] => by simp [firstSaid]
  | p :: l => by
    by_cases hp : (p == t) = true
    · obtain ⟨rdatas, hf⟩ := hmark p hp
      rw [List.map_cons, hf]
      exact ⟨fun _ => ⟨p, List.mem_cons_self, hp⟩, fun _ => rfl⟩
    · rw [List.map_cons, hother p hp]
      refine (isSome_firstSaid_iff hmark hother l).trans ?_
      simp [hp]

/-- Only one pattern has an address, and an A query is answered where it is met. -/
theorem isSome_ruleAddr_iff {rs : RuleSet} {t : WildcardName} {q : Name}
    (hmark : ∀ p, (p == t) = true → addressOf rs p = some (.addr (some [0]) none))
    (hother : ∀ p, ¬ (p == t) = true → said 0 false .A (addressOf rs p) = .parent) :
    (ruleAddr crateMatch rs plainConfig 0 .A plainContext q).isSome ↔ Meets crateMatch rs q t := by
  have hsaid : ruleAddr crateMatch rs plainConfig 0 .A plainContext q =
      firstSaid ((patternsUp crateMatch rs q).map fun p => said 0 false .A (addressOf rs p)) := by
    rw [ruleAddr_eq, addressesUp, List.map_map]
    rfl
  rw [hsaid]
  refine isSome_firstSaid_iff (fun p hp => ?_) hother _
  rw [hmark p hp]
  exact ⟨_, rfl⟩

variable {rs : RuleSet} {pre post : List AddressRule} {rule : AddressRule} {q : Name}

/-- The one address stands under `t`; the other patterns have a rule for IPv6 alone. -/
def markAddress (t p : WildcardName) : AddressRuleValue := if p == t then .addr (some [0]) none else .soav6

theorem shared_markAddress (t : WildcardName) : Shared (markAddress t) := by
  intro p p' h
  rw [markAddress, markAddress, BEq.congr_left h]

theorem merge_markAddress (t p : WildcardName) : (markAddress t p).merge (markAddress t p) = markAddress t p := by
  unfold markAddress
  split <;> rfl

theorem said_markAddress {t p : WildcardName} (h : ¬ (p == t) = true) (v : Option AddressRuleValue) :
    said 0 false .A (v.map fun _ => markAddress t p) = .parent := by
  cases v with
  | none => rfl
  | some v =>
    rw [Option.map_some, markAddress, if_neg h]
    rfl

/-- **The walk must be kept**: where it is not, some address under the patterns is lost or found. -/
theorem walkKept_of_unchanged (hw : rule.config = .soav6 ∨ rule.config = .ignv6)
    (hfree : ∀ p, rs.covers p rule.domain = true → addressOf (without rs pre post) p = none)
    (h : ∀ value, ruleAddr crateMatch
        (inserted (readdressed rs value) (readdress rs value pre) (readdress rs value post) rule) plainConfig 0 .A plainContext q =
      ruleAddr crateMatch (without (readdressed rs value) (readdress rs value pre) (readdress rs value post))
        plainConfig 0 .A plainContext q) :
    WalkKept crateMatch (without rs pre post) q (inserted rs pre post rule) := by
  intro t ht
  let rs₁ := readdressed rs (markAddress t)
  let pre₁ := readdress rs (markAddress t) pre
  let post₁ := readdress rs (markAddress t) post
  have haddr : rule.config.isAddr = false := by rcases hw with hw | hw <;> rw [hw] <;> rfl
  have hold (p : WildcardName) : addressOf (without rs₁ pre₁ post₁) p =
      (addressOf (without rs pre post) p).map fun _ => markAddress t p :=
    addressOf_readdressed (shared_markAddress t) (merge_markAddress t) pre post p
  have hmark (p : WildcardName) (hp : (p == t) = true) :
      addressOf (without rs₁ pre₁ post₁) p = some (.addr (some [0]) none) := by
    obtain ⟨v, hv⟩ := Option.ne_none_iff_exists'.mp ht
    rw [hold, addressOf_congr _ hp, hv, Option.map_some, markAddress, if_pos hp]
  have hwithout : (ruleAddr crateMatch (without rs₁ pre₁ post₁) plainConfig 0 .A plainContext q).isSome ↔
      Meets crateMatch (without rs pre post) q t := by
    refine (isSome_ruleAddr_iff hmark fun p hp => ?_).trans ?_
    · rw [hold]
      exact said_markAddress hp _
    · exact meets_readdressed (markAddress t) [] t
  have hinserted : (ruleAddr crateMatch (inserted rs₁ pre₁ post₁ rule) plainConfig 0 .A plainContext q).isSome ↔
      Meets crateMatch (inserted rs pre post rule) q t := by
    have hcovers (p : WildcardName) : rs₁.covers p rule.domain = rs.covers p rule.domain := rfl
    refine (isSome_ruleAddr_iff (t := t) (fun p hp => ?_) fun p hp => ?_).trans ?_
    · have hnot : ¬ rs.covers p rule.domain = true := by
        intro hcovered
        rw [← addressOf_congr _ hp, hfree p hcovered] at ht
        exact ht rfl
      rw [addressOf_inserted haddr, hcovers, if_neg hnot, hmark p hp]
    · rw [addressOf_inserted haddr, hcovers]
      by_cases hcovered : rs.covers p rule.domain = true
      · rw [if_pos hcovered]
        have hpost : rs₁.addressesIn post₁ p = [] := by
          have hnil := hfree p hcovered
          rw [addressOf_without, folded_eq_none_iff] at hnil
          rw [addressesIn_readdress (shared_markAddress t), (List.append_eq_nil_iff.mp hnil).2]
          rfl
        rw [hpost]
        rcases hw with hw | hw <;> rw [hw] <;> rfl
      · rw [if_neg hcovered, hold]
        exact said_markAddress hp _
    · exact meets_readdressed (markAddress t) [rule] t
  rw [← hinserted, ← hwithout]
  have hsame : ruleAddr crateMatch (inserted rs₁ pre₁ post₁ rule) plainConfig 0 .A plainContext q =
      ruleAddr crateMatch (without rs₁ pre₁ post₁) plainConfig 0 .A plainContext q := h (markAddress t)
  rw [hsame]

theorem unchanged_of_walkKept (hw : rule.config = .soav6 ∨ rule.config = .ignv6)
    (hfree : ∀ p, rs.covers p rule.domain = true → addressOf (without rs pre post) p = none)
    (h : WalkKept crateMatch (without rs pre post) q (inserted rs pre post rule))
    (value : WildcardName → AddressRuleValue) (cfg : RuntimeConfig) (serial : ℕ) (ctx : ChainContext) :
    ruleAddr crateMatch (inserted (readdressed rs value) (readdress rs value pre) (readdress rs value post) rule)
        cfg serial .A ctx q =
      ruleAddr crateMatch (without (readdressed rs value) (readdress rs value pre) (readdress rs value post))
        cfg serial .A ctx q := by
  have haddr : rule.config.isAddr = false := by rcases hw with hw | hw <;> rw [hw] <;> rfl
  refine ruleAddr_inserted (fun _ => True) haddr (walkKept_readdressed value h) (fun p hcovers => ?_) fun _ _ => trivial
  obtain ⟨hnone, hpost⟩ := addressOf_readdressed_eq_none value (hfree p hcovers)
  rw [hnone, hpost]
  refine ⟨fun _ => ?_, fun x hx => nomatch hx⟩
  rcases hw with hw | hw
  · rw [hw]
    cases ctx.serverOpts.noRuleSoa.getD false <;> rfl
  · rw [hw]
    rfl

end

/-! ### When the families are apart -/

/-- In every configuration, an IPv6 rule `w` put between rules `L` speaks of leaves every A query. -/
def UndisturbedA (crateMatch : List UInt8 → List UInt8 → Bool) (w : AddressRuleValue)
    (L : List AddressRuleValue → List AddressRuleValue → Prop) : Prop :=
  ∀ (rs : RuleSet) (pre post : List AddressRule) (domain : Domain) (cfg : RuntimeConfig) (serial : ℕ)
    (ctx : ChainContext) (q : Name),
    WalkKept crateMatch (without rs pre post) q (inserted rs pre post ⟨domain, w⟩) →
    (∀ p, rs.covers p domain = true → L (rs.domainAddresses p ++ rs.addressesIn pre p) (rs.addressesIn post p)) →
    ruleAddr crateMatch (inserted rs pre post ⟨domain, w⟩) cfg serial .A ctx q =
      ruleAddr crateMatch (without rs pre post) cfg serial .A ctx q

/-- In every configuration, an IPv4 rule `w` put between rules `L` speaks of leaves every AAAA query that IPv6
addresses or a rule for IPv6 alone decide. -/
def UndisturbedAaaa (crateMatch : List UInt8 → List UInt8 → Bool) (w : AddressRuleValue)
    (L : List AddressRuleValue → List AddressRuleValue → Prop) : Prop :=
  ∀ (rs : RuleSet) (pre post : List AddressRule) (domain : Domain) (cfg : RuntimeConfig) (serial : ℕ)
    (ctx : ChainContext) (q : Name),
    WalkKept crateMatch (without rs pre post) q (inserted rs pre post ⟨domain, w⟩) →
    (∀ p, rs.covers p domain = true → L (rs.domainAddresses p ++ rs.addressesIn pre p) (rs.addressesIn post p)) →
    (∃ x, deciding serial (ctx.serverOpts.noRuleSoa.getD false) .AAAA (addressesUp crateMatch (without rs pre post) q) =
      some x ∧ OwnAaaa x) →
    ruleAddr crateMatch (inserted rs pre post ⟨domain, w⟩) cfg serial .AAAA ctx q =
      ruleAddr crateMatch (without rs pre post) cfg serial .AAAA ctx q

section

variable {crateMatch : List UInt8 → List UInt8 → Bool} {w : AddressRuleValue}
  {L : List AddressRuleValue → List AddressRuleValue → Prop}

theorem undisturbedA_of_kept (hw : w = .soav6 ∨ w = .ignv6) (h : ∀ before after, L before after → KeptA before after) :
    UndisturbedA crateMatch w L := by
  intro rs pre post domain cfg serial ctx q hkept hL
  have haddr : w.isAddr = false := by rcases hw with rfl | rfl <;> rfl
  refine ruleAddr_inserted (fun _ => True) haddr hkept (fun p hcovers => ?_) fun _ _ => trivial
  have hsaid := said_insert_a serial (ctx.serverOpts.noRuleSoa.getD false) hw (h _ _ (hL p hcovers))
  rw [addressOf_without]
  exact ⟨fun hparent => hsaid.trans hparent, fun x hx _ => hsaid⟩

theorem undisturbedAaaa_of_kept (hw : w = .soav4 ∨ w = .ignv4)
    (h : ∀ before after, L before after → KeptAaaa before after) : UndisturbedAaaa crateMatch w L := by
  intro rs pre post domain cfg serial ctx q hkept hL hdecided
  obtain ⟨x, hdeciding, hown⟩ := hdecided
  have haddr : w.isAddr = false := by rcases hw with rfl | rfl <;> rfl
  refine ruleAddr_inserted OwnAaaa haddr hkept (fun p hcovers => ?_) fun x' hx' => ?_
  · rw [addressOf_without]
    exact saysStill_insert_aaaa serial _ hw (h _ _ (hL p hcovers))
  · rw [hdeciding] at hx'
    exact Option.some.inj hx' ▸ hown

/-! The configuration that shows the contrary: `.com` with the rule `up`, then the rules of `example.com`. -/

theorem without_onExample (up : AddressRuleValue) (before after : List AddressRuleValue) :
    without {} (⟨.name (.default com), up⟩ :: onExample before) (onExample after) = belowCom up (before ++ after) := by
  simp [without, belowCom, onExample]

theorem inserted_onExample (up w : AddressRuleValue) (before after : List AddressRuleValue) :
    inserted {} (⟨.name (.default com), up⟩ :: onExample before) (onExample after) ⟨.name (.default exampleCom), w⟩ =
      belowCom up (before ++ w :: after) := by
  simp [inserted, belowCom, onExample]

theorem walkKept_belowCom (up : AddressRuleValue) {vs vs' : List AddressRuleValue} (h : vs ≠ []) (h' : vs' ≠ []) :
    WalkKept crateMatch (belowCom up vs) exampleCom (belowCom up vs') := by
  apply walkKept_of_patternsUp
  rw [patternsUp_belowCom crateMatch up h, patternsUp_belowCom crateMatch up h']

/-- The rules of `example.com` there are the ones given. -/
theorem lists_onExample (up : AddressRuleValue) (before after : List AddressRuleValue) {p : WildcardName}
    (h : RuleSet.covers {} p (.name (.default exampleCom)) = true) :
    RuleSet.domainAddresses {} p ++ RuleSet.addressesIn {} (⟨.name (.default com), up⟩ :: onExample before) p = before ∧
      RuleSet.addressesIn {} (onExample after) p = after := by
  have hp : ((.default exampleCom : WildcardName) == p) = true := by
    simpa [RuleSet.covers, RuleSet.expandDomain] using h
  have hcongr (l : List AddressRule) : RuleSet.addressesIn {} l p = RuleSet.addressesIn {} l (.default exampleCom) := by
    have hsame : (fun e : WildcardName × AddressRuleValue => e.1 == p) = fun e => e.1 == .default exampleCom := by
      funext e
      exact (BEq.congr_right hp).symm
    rw [RuleSet.addressesIn, hsame]
    rfl
  have hcom : RuleSet.addressesIn {} [⟨.name (.default com), up⟩] (.default exampleCom) = [] := rfl
  refine ⟨?_, ?_⟩
  · rw [hcongr]
    show [] ++ RuleSet.addressesIn {} ([_] ++ onExample before) _ = _
    rw [RuleSet.addressesIn_append, hcom, addressesIn_onExample]
    rfl
  · rw [hcongr, addressesIn_onExample]

theorem kept_of_undisturbedA (hw : w = .soav6 ∨ w = .ignv6) (h : UndisturbedA crateMatch w L)
    (before after : List AddressRuleValue) (hL : L before after) : KeptA before after := by
  by_cases hne : before ++ after = []
  · obtain ⟨rfl, rfl⟩ := List.append_eq_nil_iff.mp hne
    exact .inr (.inl ⟨rfl, fun v hv => nomatch hv⟩)
  apply keptA_of_said hw
  by_contra hsaid
  obtain ⟨up, hup⟩ := exists_up (.inl rfl) hsaid
  have hne' : before ++ w :: after ≠ [] := by simp
  have haddr : w.isAddr = false := by rcases hw with rfl | rfl <;> rfl
  have hsame := h {} (⟨.name (.default com), up⟩ :: onExample before) (onExample after) (.name (.default exampleCom))
    plainConfig 0 plainContext exampleCom
  rw [without_onExample, inserted_onExample] at hsame
  have hsame := hsame (walkKept_belowCom up hne hne') fun p hp => by
    obtain ⟨hbefore, hafter⟩ := lists_onExample up before after hp
    rwa [hbefore, hafter]
  rw [ruleAddr_belowCom crateMatch up (.inl rfl) hne, ruleAddr_belowCom crateMatch up (.inl rfl) hne',
    folded_append_cons _ _ haddr] at hsame
  exact hup hsame

theorem kept_of_undisturbedAaaa (hw : w = .soav4 ∨ w = .ignv4) (h : UndisturbedAaaa crateMatch w L)
    (before after : List AddressRuleValue) (hL : L before after) : KeptAaaa before after := by
  apply keptAaaa_of_said hw
  intro x hx hown
  by_contra hsaid
  obtain ⟨up, hup⟩ := exists_up (.inr rfl) hsaid
  have hne : before ++ after ≠ [] := by
    rintro hnil
    rw [hnil] at hx
    cases hx
  have hne' : before ++ w :: after ≠ [] := by simp
  have haddr : w.isAddr = false := by rcases hw with rfl | rfl <;> rfl
  have hanswers : said 0 false .AAAA (folded (before ++ after)) ≠ .parent := by
    rw [hx]
    rcases hown with hv6 | rfl | rfl
    · cases x with
      | addr v4 v6 =>
        obtain ⟨ips, rfl⟩ := Option.ne_none_iff_exists'.mp hv6
        exact fun heq => nomatch heq
      | _ => exact absurd rfl hv6
    · exact fun heq => nomatch heq
    · exact fun heq => nomatch heq
  have hsame := h {} (⟨.name (.default com), up⟩ :: onExample before) (onExample after) (.name (.default exampleCom))
    plainConfig 0 plainContext exampleCom
  rw [without_onExample, inserted_onExample] at hsame
  have hsame := hsame (walkKept_belowCom up hne hne') (fun p hp => by
    obtain ⟨hbefore, hafter⟩ := lists_onExample up before after hp
    rwa [hbefore, hafter]) ⟨x, (deciding_belowCom crateMatch up hne hanswers).trans hx, hown⟩
  rw [ruleAddr_belowCom crateMatch up (.inr rfl) hne, ruleAddr_belowCom crateMatch up (.inr rfl) hne',
    folded_append_cons _ _ haddr, hx] at hsame
  exact hup hsame

/-- **When address rules of one family leave the other alone.** -/
theorem families_apart_iff (crateMatch : List UInt8 → List UInt8 → Bool) :
    (∀ w L, w = .soav6 ∨ w = .ignv6 →
      (UndisturbedA crateMatch w L ↔ ∀ before after, L before after → KeptA before after)) ∧
    (∀ w L, w = .soav4 ∨ w = .ignv4 →
      (UndisturbedAaaa crateMatch w L ↔ ∀ before after, L before after → KeptAaaa before after)) ∧
    (∀ (rs : RuleSet) (pre post : List AddressRule) (rule : AddressRule) (q : Name),
      rule.config = .soav6 ∨ rule.config = .ignv6 →
      (∀ p, rs.covers p rule.domain = true → addressOf (without rs pre post) p = none) →
      ((∀ value cfg serial ctx,
        ruleAddr crateMatch (inserted (readdressed rs value) (readdress rs value pre) (readdress rs value post) rule)
          cfg serial .A ctx q =
        ruleAddr crateMatch (without (readdressed rs value) (readdress rs value pre) (readdress rs value post))
          cfg serial .A ctx q) ↔
      WalkKept crateMatch (without rs pre post) q (inserted rs pre post rule))) ∧
    (∀ vs w, ((∀ ip ∈ fixedFor v4 vs, ip ∈ fixedFor v4 (vs ++ [w])) ↔ w.isAddr = true ∨ fixedFor v4 vs = []) ∧
      ((∀ ip ∈ fixedFor v6 vs, ip ∈ fixedFor v6 (vs ++ [w])) ↔ w.isAddr = true ∨ fixedFor v6 vs = [])) := by
  refine ⟨?_, ?_, ?_, ?_⟩
  · exact fun w L hw => ⟨kept_of_undisturbedA hw, undisturbedA_of_kept hw⟩
  · exact fun w L hw => ⟨kept_of_undisturbedAaaa hw, undisturbedAaaa_of_kept hw⟩
  · intro rs pre post rule q hw hfree
    constructor
    · exact fun h => walkKept_of_unchanged hw hfree fun value => h value plainConfig 0 plainContext
    · exact fun hkept value cfg serial ctx => unchanged_of_walkKept hw hfree hkept value cfg serial ctx
  · intro vs w
    constructor
    · apply fixedFor_iff
      · intro v w hv hw
        rw [merge_addr v w hv hw]
        rfl
      · intro v hv
        cases v with
        | addr v4 v6 => cases hv
        | _ => rfl
    · apply fixedFor_iff
      · intro v w hv hw
        rw [merge_addr v w hv hw]
        rfl
      · intro v hv
        cases v with
        | addr v4 v6 => cases hv
        | _ => rfl

end

/-- A domain without address rules can get `#6`, as far as the lookup goes. -/
theorem families_apart_iff_without_rules :
    UndisturbedA (fun _ _ => false) .soav6 fun before after => before = [] ∧ after = [] := by
  refine ((families_apart_iff fun _ _ => false).1 .soav6 _ (.inl rfl)).mpr fun before after h => ?_
  exact .inr (.inl ⟨h.2, fun v hv => by rw [h.1] at hv; cases hv⟩)

/-- `address /example.com/192.0.2.1`, then `address /example.com/#6`. -/
theorem ipv6_rule_takes_ipv4_address : ¬ ∀ (crateMatch : List UInt8 → List UInt8 → Bool) (rs : RuleSet)
    (pre post : List AddressRule) (domain : Domain) (w : AddressRuleValue) (cfg : RuntimeConfig) (serial : ℕ)
    (ctx : ChainContext) (q : Name), w = .soav6 ∨ w = .ignv6 →
    ruleAddr crateMatch (inserted rs pre post ⟨domain, w⟩) cfg serial .A ctx q =
      ruleAddr crateMatch (without rs pre post) cfg serial .A ctx q := by
  intro h
  have hlost : none = some [RData.ofIpAddr (.v4 0xc0000201#32)] :=
    h (fun _ _ => false) {} (onExample [.addr (some [0xc0000201]) none]) [] (.name (.default exampleCom)) .soav6
      plainConfig 0 plainContext exampleCom (.inl rfl)
  cases hlost

end Server
end SmartDns
