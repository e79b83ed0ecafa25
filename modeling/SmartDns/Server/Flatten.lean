/-
# Answers without aliases keep their addresses

The cache and `force-no-CNAME` take the aliases out of an answer for addresses, each by
itself. What is left is the records of the type asked, in order and with their data, under
the name asked and with the least TTL of the answer; where there is none of that type the
answer stays as it is, and so it does when it is flattened again.

The cache flattens an answer without an alias, too, and `force-no-CNAME` does not
(`strip_leaves_without_alias`).

Key definition: `Flat`.
Key theorem: `flatten_keeps_addresses`.
-/
import SmartDns.Server.ReplyTtl

namespace SmartDns
namespace Server

open Dns

def hasAlias (r : DnsResponse) : Bool := r.message.answers.any (isTarget .CNAME)

def hasTarget (query : Query) (r : DnsResponse) : Bool := r.message.answers.any (isTarget query.queryType)

/-- `after` is what flattening leaves of the answers `before`. -/
structure Flat (query : Query) (before after : List Record) : Prop where
  target : ∀ x ∈ after, x.recordType = query.queryType
  owned : ∀ x ∈ after, (x.name == query.name) = true
  /-- No address of the type is lost, none is added. -/
  data : after.map (·.data) = (before.filter (isTarget query.queryType)).map (·.data)
  ttl : ∀ x ∈ after, ∀ y ∈ before, x.ttl ≤ y.ttl

section

variable {query : Query} {r : DnsResponse}

/-! ### One record -/

theorem name_ownedBy (name : Name) (ttl : ℕ) (x : Record) : ((ownedBy name ttl x).name == name) = true := by
  unfold ownedBy
  dsimp only
  split
  · assumption
  · exact BEq.refl name

/-- A record that is owned stays as it is. -/
theorem ownedBy_ownedBy (name : Name) (ttl : ℕ) (x : Record) :
    ownedBy name ttl (ownedBy name ttl x) = ownedBy name ttl x := by
  have hname := name_ownedBy name ttl x
  show { ownedBy name ttl x with
    name := if (ownedBy name ttl x).name == name then (ownedBy name ttl x).name else name, ttl } = ownedBy name ttl x
  rw [if_pos hname]
  rfl

/-! ### Flattening -/

theorem flattenCname_of_hasTarget (hq : query.queryType.isIpAddr = true) (h : hasTarget query r = true) :
    flattenCname query r = { r with message := { r.message with
      answers := (r.message.answers.filter (isTarget query.queryType)).map (ownedBy query.name (realMinTtl r)) } } := by
  unfold hasTarget at h
  rw [flattenCname, hq, h, Bool.and_true, if_pos rfl]

theorem flattenCname_of_not_hasTarget (h : hasTarget query r = false) : flattenCname query r = r := by
  unfold hasTarget at h
  rw [flattenCname, h, Bool.and_false, if_neg Bool.false_ne_true]

theorem stripCname_of_hasAlias (hq : query.queryType.isIpAddr = true) (h : hasAlias r = true) :
    stripCname query r = flattenCname query r := by
  unfold hasAlias at h
  rw [stripCname_eq, h, Bool.not_true, if_neg Bool.false_ne_true, if_pos hq]

theorem stripCname_of_not_hasAlias (h : hasAlias r = false) : stripCname query r = r := by
  unfold hasAlias at h
  rw [stripCname_eq, h, Bool.not_false, if_pos rfl]

theorem flat_flattenCname (hq : query.queryType.isIpAddr = true) (h : hasTarget query r = true) :
    Flat query r.message.answers (flattenCname query r).message.answers := by
  rw [flattenCname_of_hasTarget hq h]
  refine ⟨fun x hx => ?_, fun x hx => ?_, ?_, fun x hx y hy => ?_⟩
  · obtain ⟨z, hz, rfl⟩ := List.mem_map.mp hx
    exact of_decide_eq_true (List.mem_filter.mp hz).2
  · obtain ⟨z, -, rfl⟩ := List.mem_map.mp hx
    exact name_ownedBy _ _ z
  · rw [List.map_map]
    rfl
  · obtain ⟨z, -, rfl⟩ := List.mem_map.mp hx
    exact realMinTtl_le hy

/-- Of a flattened answer nothing is taken, and its least TTL is the one it has. -/
theorem flattenCname_flattenCname (hq : query.queryType.isIpAddr = true) :
    flattenCname query (flattenCname query r) = flattenCname query r := by
  cases h : hasTarget query r with
  | false => rw [flattenCname_of_not_hasTarget h, flattenCname_of_not_hasTarget h]
  | true =>
    obtain ⟨x, hx, hxt⟩ := List.any_eq_true.mp h
    have hmem : ownedBy query.name (realMinTtl r) x ∈ (flattenCname query r).message.answers := by
      rw [flattenCname_of_hasTarget hq h]
      exact List.mem_map_of_mem (List.mem_filter.mpr ⟨hx, hxt⟩)
    have hflat := flat_flattenCname hq h
    have htarget : hasTarget query (flattenCname query r) = true :=
      List.any_eq_true.mpr ⟨_, hmem, decide_eq_true (hflat.target _ hmem)⟩
    have hmin : realMinTtl (flattenCname query r) = realMinTtl r := by
      obtain ⟨y, hy, hyt⟩ := realMinTtl_mem (List.ne_nil_of_mem hmem)
      rw [hyt]
      rw [flattenCname_of_hasTarget hq h] at hy
      obtain ⟨z, -, rfl⟩ := List.mem_map.mp hy
      rfl
    have hall : (flattenCname query r).message.answers.filter (isTarget query.queryType) =
        (flattenCname query r).message.answers :=
      List.filter_eq_self.mpr fun y hy => decide_eq_true (hflat.target y hy)
    have hown : (flattenCname query r).message.answers.map (ownedBy query.name (realMinTtl r)) =
        (flattenCname query r).message.answers := by
      rw [flattenCname_of_hasTarget hq h, List.map_map]
      exact List.map_congr_left fun z _ => ownedBy_ownedBy query.name (realMinTtl r) z
    rw [flattenCname_of_hasTarget hq htarget, hmin, hall, hown]

/-- With an address there is no alias left. -/
theorem hasAlias_flattenCname (hq : query.queryType.isIpAddr = true) (h : hasTarget query r = true) :
    hasAlias (flattenCname query r) = false := by
  rw [hasAlias, List.any_eq_false]
  intro x hx hxt
  have htype := (flat_flattenCname hq h).target x hx
  rw [isTarget, htype, decide_eq_true_eq] at hxt
  rw [hxt] at hq
  cases hq

theorem stripCname_flattenCname (hq : query.queryType.isIpAddr = true) :
    stripCname query (flattenCname query r) = flattenCname query r := by
  cases h : hasTarget query r with
  | true => exact stripCname_of_not_hasAlias (hasAlias_flattenCname hq h)
  | false =>
    rw [flattenCname_of_not_hasTarget h]
    cases halias : hasAlias r with
    | true => rw [stripCname_of_hasAlias hq halias, flattenCname_of_not_hasTarget h]
    | false => exact stripCname_of_not_hasAlias halias

theorem stripCname_stripCname (hq : query.queryType.isIpAddr = true) :
    stripCname query (stripCname query r) = stripCname query r := by
  cases halias : hasAlias r with
  | true => rw [stripCname_of_hasAlias hq halias, stripCname_flattenCname hq]
  | false => rw [stripCname_of_not_hasAlias halias, stripCname_of_not_hasAlias halias]

end

/-- **Flattening keeps the addresses.** For a query for addresses the two flatteners agree on an answer with an
alias, and an answer without one `force-no-CNAME` leaves as it is. An answer with a record of the type asked is made
`Flat`, no answer becomes empty, and a flattened one stays as it is. -/
theorem flatten_keeps_addresses (query : Query) (r : DnsResponse) (hq : query.queryType.isIpAddr = true) :
    (hasAlias r = true → (stripCname query r).message.answers = (flattenCname query r).message.answers) ∧
    (hasAlias r = false → stripCname query r = r) ∧
    (hasTarget query r = true → Flat query r.message.answers (flattenCname query r).message.answers) ∧
    (hasTarget query r = true → hasAlias r = true →
      Flat query r.message.answers (stripCname query r).message.answers) ∧
    (r.message.answers ≠ [] →
      (flattenCname query r).message.answers ≠ [] ∧ (stripCname query r).message.answers ≠ []) ∧
    flattenCname query (flattenCname query r) = flattenCname query r ∧
    stripCname query (stripCname query r) = stripCname query r ∧
    stripCname query (flattenCname query r) = flattenCname query r := by
  refine ⟨fun h => ?_, stripCname_of_not_hasAlias, flat_flattenCname hq, fun htarget h => ?_, fun hne => ⟨?_, ?_⟩,
    flattenCname_flattenCname hq, stripCname_stripCname hq, stripCname_flattenCname hq⟩
  · rw [stripCname_of_hasAlias hq h]
  · rw [stripCname_of_hasAlias hq h]
    exact flat_flattenCname hq htarget
  · exact fun hnil => hne (flattenCname_answers_eq_nil.mp hnil)
  · exact fun hnil => hne (stripCname_answers_eq_nil.mp hnil)

/-- Two addresses of the root, one for an hour and one for a minute, and no alias. -/
def unequalTtls : DnsResponse where
  message :=
    { queries := [default]
      answers := [⟨Name.root, .IN, 3600, .ofIpAddr (.v4 0xc0000201#32)⟩, ⟨Name.root, .IN, 60, .ofIpAddr (.v4 0xc0000202#32)⟩] }
  validUntil := 0

/-- The cache gives both the minute. -/
theorem strip_leaves_without_alias : ¬ ∀ (query : Query) (r : DnsResponse), query.queryType.isIpAddr = true →
    (stripCname query r).message.answers = (flattenCname query r).message.answers := by
  intro h
  have hsame := congrArg (List.map (·.ttl)) (h default unequalTtls rfl)
  revert hsame
  decide +kernel

open Rule (wwwExampleCom) in
/-- The root is an alias for five minutes of `www.example.com`, which has one address for an hour and one for a
minute. -/
def aliased : DnsResponse where
  message :=
    { queries := [default]
      answers := [⟨Name.root, .IN, 300, .other .CNAME wwwExampleCom.wire⟩,
        ⟨wwwExampleCom, .IN, 3600, .ofIpAddr (.v4 0xc0000201#32)⟩,
        ⟨wwwExampleCom, .IN, 60, .ofIpAddr (.v4 0xc0000202#32)⟩] }
  validUntil := 0

theorem flatten_keeps_addresses_aliased :
    (hasAlias aliased = true →
      (stripCname default aliased).message.answers = (flattenCname default aliased).message.answers) ∧
    (hasAlias aliased = false → stripCname default aliased = aliased) ∧
    (hasTarget default aliased = true →
      Flat default aliased.message.answers (flattenCname default aliased).message.answers) ∧
    (hasTarget default aliased = true → hasAlias aliased = true →
      Flat default aliased.message.answers (stripCname default aliased).message.answers) ∧
    (aliased.message.answers ≠ [] →
      (flattenCname default aliased).message.answers ≠ [] ∧ (stripCname default aliased).message.answers ≠ []) ∧
    flattenCname default (flattenCname default aliased) = flattenCname default aliased ∧
    stripCname default (stripCname default aliased) = stripCname default aliased ∧
    stripCname default (flattenCname default aliased) = flattenCname default aliased :=
  flatten_keeps_addresses default aliased rfl

end Server
end SmartDns
