/-
# The fallback servers

A group's servers marked `-fallback` are asked in a second round, when the first gave
nothing conclusive. `NameServerGroup::lookup` does so with races and `lookup_ip` with
its strategies; the two are one (`lookupIp_eq_lookup`).

A conclusive response of either round is returned. Where neither has one the first
round's outcome is kept, whatever the second brought: an error of the first round wins
over an empty response of the second (`first_round_is_kept`).

Key definitions: `NameServerGroup.lookup`, `lookupIp`.
Key theorem: `fallback_keeps_conclusions`.
-/
import SmartDns.Upstream.Race

namespace SmartDns
namespace Upstream

open Dns

variable {S : Type}

/-- The lookup of a group; `first` and `second` are what a round comes to with the servers it asks. -/
def NameServerGroup.lookup (isFallback : S → Bool) (servers : List S) (first second : List S → LookupResult) :
    LookupResult :=
  let (primary, fallback) := servers.partition fun ns => !isFallback ns
  let (primary, fallback) := if primary.isEmpty then (fallback, []) else (primary, fallback)
  let firstResult := first primary
  if fallback.isEmpty || !needsFallback firstResult then firstResult
  else
    let secondResult := second fallback
    if needsFallback secondResult then firstResult else secondResult

/-- The lookup of addresses. -/
def lookupIp (isFallback : S → Bool) (servers : List S) (first second : List S → LookupResult) : LookupResult :=
  let (primary, fallback) := servers.partition fun ns => !isFallback ns
  if primary.isEmpty then first fallback
  else
    let firstResult := first primary
    if fallback.isEmpty || !needsFallback firstResult then firstResult
    else
      let secondResult := second fallback
      if needsFallback secondResult then firstResult else secondResult

/-- The servers of the two rounds. -/
def primaryServers (isFallback : S → Bool) (servers : List S) : List S := servers.filter fun ns => !isFallback ns

def fallbackServers (isFallback : S → Bool) (servers : List S) : List S := servers.filter isFallback

theorem partition_eq (isFallback : S → Bool) (servers : List S) :
    servers.partition (fun ns => !isFallback ns) =
      (primaryServers isFallback servers, fallbackServers isFallback servers) := by
  rw [List.partition_eq_filter_filter]
  congr 1
  refine List.filter_congr fun ns _ => ?_
  simp

theorem lookupIp_eq_lookup (isFallback : S → Bool) (servers : List S) (first second : List S → LookupResult) :
    lookupIp isFallback servers first second = NameServerGroup.lookup isFallback servers first second := by
  unfold lookupIp NameServerGroup.lookup
  rw [partition_eq]
  by_cases h : (primaryServers isFallback servers).isEmpty = true
  · simp [h]
  · simp [h]

/-- With servers for both rounds, the second counts if it is conclusive and the first is not. -/
theorem lookup_eq {isFallback : S → Bool} {servers : List S} (first second : List S → LookupResult)
    (hp : primaryServers isFallback servers ≠ []) (hf : fallbackServers isFallback servers ≠ []) :
    NameServerGroup.lookup isFallback servers first second =
      if isConclusiveResult (first (primaryServers isFallback servers)) = true then
        first (primaryServers isFallback servers)
      else if isConclusiveResult (second (fallbackServers isFallback servers)) = true then
        second (fallbackServers isFallback servers)
      else first (primaryServers isFallback servers) := by
  have hp' : (primaryServers isFallback servers).isEmpty = false := by simpa using hp
  have hf' : (fallbackServers isFallback servers).isEmpty = false := by simpa using hf
  unfold NameServerGroup.lookup
  rw [partition_eq]
  by_cases h1 : isConclusiveResult (first (primaryServers isFallback servers)) = true
  · simp [hp', needsFallback, h1]
  · by_cases h2 : isConclusiveResult (second (fallbackServers isFallback servers)) = true
    · simp [hp', hf', needsFallback, h1, h2]
    · simp [hp', hf', needsFallback, h1, h2]

theorem ok_of_isConclusiveResult {o : LookupResult} (h : isConclusiveResult o = true) :
    ∃ r, o = .ok r ∧ isConclusive r = true := by
  cases o with
  | error e => cases h
  | ok r => exact ⟨r, rfl, h⟩

/-- **Falling back by its design.** A conclusive response of either round is returned, the first
round's before the second's. If neither has one and the second brought nothing better, the result is as
good as both, and an error only if both failed. The lookup of addresses is the same. -/
theorem fallback_keeps_conclusions (isFallback : S → Bool) (servers : List S) (first second : List S → LookupResult)
    (hp : primaryServers isFallback servers ≠ []) (hf : fallbackServers isFallback servers ≠ []) :
    let res := NameServerGroup.lookup isFallback servers first second
    let a := first (primaryServers isFallback servers)
    let b := second (fallbackServers isFallback servers)
    (isConclusiveResult a = true → res = a) ∧
    (isConclusiveResult a = false → isConclusiveResult b = true → res = b) ∧
    (isConclusiveResult a = true ∨ isConclusiveResult b = true → ∃ r, res = .ok r ∧ isConclusive r = true) ∧
    (isConclusiveResult a = false → isConclusiveResult b = false →
      (∀ y, b = .ok y → ∃ x, a = .ok x ∧ responseRank x ≤ responseRank y) →
        (∀ x, a = .ok x ∨ b = .ok x → ∃ r, res = .ok r ∧ responseRank r ≤ responseRank x) ∧
        ∀ e, res = .error e → (∃ e', a = .error e') ∧ ∃ e', b = .error e') ∧
    lookupIp isFallback servers first second = res := by
  intro res a b
  have hres : res = if isConclusiveResult a = true then a else if isConclusiveResult b = true then b else a :=
    lookup_eq first second hp hf
  refine ⟨fun ha => ?_, fun ha hb => ?_, fun hab => ?_, fun ha hb hbetter => ⟨fun x hx => ?_, fun e he => ?_⟩,
    lookupIp_eq_lookup isFallback servers first second⟩
  · rw [hres, if_pos ha]
  · rw [hres, if_neg (by simp [ha]), if_pos hb]
  · by_cases ha : isConclusiveResult a = true
    · rw [hres, if_pos ha]
      exact ok_of_isConclusiveResult ha
    · have hb := hab.resolve_left ha
      rw [hres, if_neg ha, if_pos hb]
      exact ok_of_isConclusiveResult hb
  · rw [hres, if_neg (by simp [ha]), if_neg (by simp [hb])]
    rcases hx with hx | hx
    · exact ⟨x, hx, le_rfl⟩
    · exact hbetter x hx
  · rw [hres, if_neg (by simp [ha]), if_neg (by simp [hb])] at he
    refine ⟨⟨e, he⟩, ?_⟩
    cases hbe : b with
    | error e' => exact ⟨e', rfl⟩
    | ok y =>
      obtain ⟨x, hx, -⟩ := hbetter y hbe
      rw [he] at hx
      cases hx

/-- Without a conclusive response the first round's outcome is kept. -/
theorem first_round_is_kept (isFallback : S → Bool) (servers : List S) (first second : List S → LookupResult)
    (hp : primaryServers isFallback servers ≠ []) (hf : fallbackServers isFallback servers ≠ [])
    (ha : isConclusiveResult (first (primaryServers isFallback servers)) = false)
    (hb : isConclusiveResult (second (fallbackServers isFallback servers)) = false) :
    NameServerGroup.lookup isFallback servers first second = first (primaryServers isFallback servers) := by
  rw [lookup_eq first second hp hf, if_neg (by simp [ha]), if_neg (by simp [hb])]

/-! ### An NXDOMAIN of the second round -/

/-- An NXDOMAIN with an SOA record. -/
def nxDomain : DnsResponse where
  message := { responseCode := .nxDomain, queries := [default], authorities := [rootSoa.toRecord] }
  validUntil := 0

/-- Two servers, the second a fallback. -/
def withOneFallback (first second : LookupResult) : LookupResult :=
  NameServerGroup.lookup id [false, true] (fun _ => first) fun _ => second

/-- It is conclusive, and replaces an empty NOERROR response that ranks before it. -/
theorem nxDomain_replaces_noData : ¬ ∀ r, withOneFallback (.ok noData) (.ok nxDomain) = .ok r →
    ∀ x ∈ [noData, nxDomain], responseRank r ≤ responseRank x := by
  intro h
  have := h nxDomain rfl noData List.mem_cons_self
  revert this
  decide

/-- An empty response of the second round is lost to an error of the first. -/
example : withOneFallback (.error (.proto .timeout)) (.ok noData) = .error (.proto .timeout) := by rfl

/-- A first round without an answer, a second with one. -/
theorem fallback_keeps_conclusions_answer :
    let answer : DnsResponse := { truncatedAnswer with message := { truncatedAnswer.message with truncated := false } }
    let res := withOneFallback (.ok noData) (.ok answer)
    (isConclusiveResult (.ok noData) = true → res = .ok noData) ∧
    (isConclusiveResult (.ok noData) = false → isConclusiveResult (.ok answer) = true → res = .ok answer) ∧
    (isConclusiveResult (.ok noData) = true ∨ isConclusiveResult (.ok answer) = true →
      ∃ r, res = .ok r ∧ isConclusive r = true) ∧
    (isConclusiveResult (.ok noData) = false → isConclusiveResult (.ok answer) = false →
      (∀ y, (Except.ok answer : LookupResult) = .ok y →
        ∃ x, (Except.ok noData : LookupResult) = .ok x ∧ responseRank x ≤ responseRank y) →
        (∀ x, (Except.ok noData : LookupResult) = .ok x ∨ (Except.ok answer : LookupResult) = .ok x →
          ∃ r, res = .ok r ∧ responseRank r ≤ responseRank x) ∧
        ∀ e, res = .error e → (∃ e', (Except.ok noData : LookupResult) = .error e') ∧
          ∃ e', (Except.ok answer : LookupResult) = .error e') ∧
    lookupIp id [false, true] (fun _ => .ok noData) (fun _ => .ok answer) = res :=
  fallback_keeps_conclusions id [false, true] (fun _ => .ok noData) (fun _ => .ok _) (by decide) (by decide)

end Upstream
end SmartDns
