/-
# The race of the upstream servers

`race_servers` of `dns_client.rs` asks all servers at once and takes their outcomes as
they arrive. A conclusive one (an answer, or an NXDOMAIN with an SOA record) ends the
race; the rest are held, truncated responses apart, and when the last has arrived the
best rank among those held wins (`raceServers_concat`).

A truncated response is the last resort, except that the last arrival is put to those
held without a look at its TC bit: if it is truncated and ranks before them, it wins
(`last_truncated_wins`).

Key definitions: `responseRank`, `isConclusive`, `pickBest`, `raceServers`.
Key theorems: `raceServers_concat`, `race_last_resort`, `last_truncated_wins`.
-/
import Mathlib.Data.List.MinMax
import SmartDns.Dns.Error

namespace SmartDns
namespace Upstream

open Dns

/-- An SOA record in any section. -/
def hasSoa (r : DnsResponse) : Bool :=
  r.message.authorities.any (·.recordType = .SOA) || r.message.answers.any (·.recordType = .SOA) ||
    r.message.additionals.any (·.recordType = .SOA)

/-- How far a response is trusted: the less the better. -/
def responseRank (r : DnsResponse) : ℕ :=
  match r.message.responseCode, !r.message.answers.isEmpty, hasSoa r with
  | .noError, true, _ => 0
  | .noError, false, true => 1
  | .noError, false, false => 2
  | .nxDomain, _, true => 3
  | .nxDomain, _, false => 4
  | .other _, _, _ => 5

/-- Good enough not to wait for the other servers. -/
def isConclusive (r : DnsResponse) : Bool :=
  if r.message.truncated then false
  else
    match responseRank r with
    | 0 => true
    | 3 => true
    | _ => false

def isConclusiveResult : LookupResult → Bool
  | .ok r => isConclusive r
  | .error _ => false

def needsFallback (res : LookupResult) : Bool := !isConclusiveResult res

def errorOf : LookupResult → Option DnsError
  | .ok _ => none
  | .error e => some e

/-- The end of a race: the best of the candidates, else the truncated response, else an error. -/
def pickBest (held : List LookupResult) (last : LookupResult) (truncated : Option DnsResponse) : LookupResult :=
  let candidates := held ++ [last]
  match (candidates.filterMap Except.toOption).argmin responseRank with
  | some best => .ok best
  | none =>
    match truncated with
    | some t => .ok t
    | none =>
      match candidates.findSome? errorOf with
      | some e => .error e
      | none => .error (.proto .timeout)

def truncatedResponse : LookupResult → Option DnsResponse
  | .ok r => if r.message.truncated then some r else none
  | .error _ => none

def untruncatedResponse : LookupResult → Option DnsResponse
  | .ok r => if r.message.truncated then none else some r
  | .error _ => none

/-- The loop over the arrivals. -/
def raceLoop (held : List LookupResult) (truncated : Option DnsResponse) : List LookupResult → LookupResult
  | [] => .error (.proto .noConnections)
  | res :: rest =>
    if isConclusiveResult res then res
    else if rest.isEmpty then pickBest held res truncated
    else
      match truncatedResponse res with
      | some t => raceLoop held (truncated.or (some t)) rest
      | none => raceLoop (held ++ [res]) truncated rest

/-- The result of a race whose outcomes arrive in this order. -/
def raceServers (arrivals : List LookupResult) : LookupResult := raceLoop [] none arrivals

/-! ### Closed forms -/

theorem raceLoop_of_find? {o : LookupResult} : ∀ (es held : List LookupResult) (truncated : Option DnsResponse),
    es.find? isConclusiveResult = some o → raceLoop held truncated es = o
  | [], _, _, h => by cases h
  | res :: rest, held, truncated, h => by
    unfold raceLoop
    by_cases hc : isConclusiveResult res = true
    · rw [List.find?_cons_of_pos hc] at h
      rw [if_pos hc]
      exact Option.some.inj h
    · rw [List.find?_cons_of_neg hc] at h
      have hne : ¬ rest.isEmpty = true := by
        intro hnil
        rw [List.isEmpty_iff.mp hnil] at h
        cases h
      rw [if_neg hc, if_neg hne]
      cases truncatedResponse res with
      | some t => exact raceLoop_of_find? rest held _ h
      | none => exact raceLoop_of_find? rest _ truncated h

theorem raceLoop_concat (last : LookupResult) (hlast : isConclusiveResult last = false) :
    ∀ (es held : List LookupResult) (truncated : Option DnsResponse), (∀ o ∈ es, isConclusiveResult o = false) →
      raceLoop held truncated (es ++ [last]) =
        pickBest (held ++ es.filter fun o => (truncatedResponse o).isNone) last
          (truncated.or (es.findSome? truncatedResponse))
  | [], held, truncated, _ => by simp [raceLoop, hlast]
  | res :: rest, held, truncated, h => by
    have ih := raceLoop_concat last hlast rest
    have hrest : ∀ o ∈ rest, isConclusiveResult o = false := fun o ho => h o (List.mem_cons_of_mem _ ho)
    rw [List.cons_append, raceLoop, if_neg (by simp [h res List.mem_cons_self]), if_neg (by simp)]
    cases ht : truncatedResponse res with
    | some t =>
      rw [List.filter_cons_of_neg (by simp [ht]), List.findSome?_cons, ht]
      refine (ih held _ hrest).trans ?_
      rw [Option.or_assoc, Option.some_or]
    | none =>
      rw [List.filter_cons_of_pos (by simp [ht]), List.findSome?_cons, ht]
      refine (ih _ truncated hrest).trans ?_
      rw [List.append_assoc, List.singleton_append]

/-- **A race without a conclusive outcome**: all but the last are sorted by their TC bit. -/
theorem raceServers_concat {es : List LookupResult} {last : LookupResult}
    (h : ∀ o ∈ es ++ [last], isConclusiveResult o = false) :
    raceServers (es ++ [last]) =
      pickBest (es.filter fun o => (truncatedResponse o).isNone) last (es.findSome? truncatedResponse) := by
  have hlast := h last (List.mem_append_right _ (List.mem_singleton_self last))
  have := raceLoop_concat last hlast es [] none fun o ho => h o (List.mem_append_left _ ho)
  rwa [List.nil_append, Option.none_or] at this

/-- The responses that are held. -/
theorem filterMap_held (es : List LookupResult) :
    (es.filter fun o => (truncatedResponse o).isNone).filterMap Except.toOption = es.filterMap untruncatedResponse := by
  rw [List.filterMap_filter]
  congr 1
  funext o
  cases o with
  | error e => rfl
  | ok r =>
    cases hr : r.message.truncated <;> simp [truncatedResponse, untruncatedResponse, hr, Except.toOption]

theorem pickBest_of_argmin {held : List LookupResult} {last : LookupResult} {truncated : Option DnsResponse}
    {best : DnsResponse}
    (h : ((held ++ [last]).filterMap Except.toOption).argmin responseRank = some best) :
    pickBest held last truncated = .ok best := by
  simp only [pickBest, h]

theorem pickBest_of_nil {held : List LookupResult} {last : LookupResult} {t : DnsResponse}
    (h : (held ++ [last]).filterMap Except.toOption = []) : pickBest held last (some t) = .ok t := by
  simp only [pickBest, h, List.argmin_nil]

theorem mem_filterMap_untruncated {es : List LookupResult} {x : DnsResponse} :
    x ∈ es.filterMap untruncatedResponse ↔ Except.ok x ∈ es ∧ x.message.truncated = false := by
  rw [List.mem_filterMap]
  constructor
  · rintro ⟨o, ho, hx⟩
    cases o with
    | error e => cases hx
    | ok r =>
      by_cases ht : r.message.truncated = true
      · simp [untruncatedResponse, ht] at hx
      · simp only [untruncatedResponse, if_neg ht, Option.some.injEq] at hx
        exact ⟨hx ▸ ho, hx ▸ by simpa using ht⟩
  · rintro ⟨ho, ht⟩
    exact ⟨_, ho, by simp [untruncatedResponse, ht]⟩

/-- The last outcome to arrive is not a truncated response. -/
def LastUntruncated (es : List LookupResult) : Prop := ∀ o, es.getLast? = some o → truncatedResponse o = none

/-- With a last outcome that is not truncated, the best of the untruncated responses wins. -/
theorem raceServers_of_best {es : List LookupResult} {best : DnsResponse}
    (h : ∀ o ∈ es, isConclusiveResult o = false) (hlast : LastUntruncated es)
    (hbest : (es.filterMap untruncatedResponse).argmin responseRank = some best) : raceServers es = .ok best := by
  rcases List.eq_nil_or_concat es with rfl | ⟨init, last, rfl⟩
  · cases hbest
  · rw [List.concat_eq_append] at h hlast hbest ⊢
    rw [raceServers_concat h]
    apply pickBest_of_argmin
    rw [List.filterMap_append, filterMap_held]
    have ht : [last].filterMap Except.toOption = [last].filterMap untruncatedResponse := by
      have := hlast last (by simp)
      cases last with
      | error e => rfl
      | ok r =>
        unfold truncatedResponse at this
        cases hr : r.message.truncated with
        | true => simp [hr] at this
        | false => simp [untruncatedResponse, hr, Except.toOption]
    rw [ht, ← List.filterMap_append, hbest]

/-- Where all responses are truncated, the first wins. -/
theorem raceServers_of_truncated {es : List LookupResult} {t : DnsResponse} (hlast : LastUntruncated es)
    (hall : es.filterMap untruncatedResponse = []) (ht : es.findSome? truncatedResponse = some t) :
    raceServers es = .ok t := by
  have h : ∀ o ∈ es, isConclusiveResult o = false := by
    intro o ho
    cases o with
    | error e => rfl
    | ok r =>
      by_cases hr : r.message.truncated = true
      · simp [isConclusiveResult, isConclusive, hr]
      · have : r ∈ es.filterMap untruncatedResponse := mem_filterMap_untruncated.mpr ⟨ho, by simpa using hr⟩
        rw [hall] at this
        cases this
  rcases List.eq_nil_or_concat es with rfl | ⟨init, last, rfl⟩
  · cases ht
  · rw [List.concat_eq_append] at *
    have hl := hlast last (by simp)
    rw [List.findSome?_append] at ht
    have hinit : init.findSome? truncatedResponse = some t := by
      cases hi : init.findSome? truncatedResponse with
      | some t' => rwa [hi] at ht
      | none => simp [hi, hl] at ht
    rw [List.filterMap_append, List.append_eq_nil_iff] at hall
    have hlast' : [last].filterMap Except.toOption = [] := by
      cases last with
      | error e => rfl
      | ok r =>
        have h1 : untruncatedResponse (.ok r) = none := by simpa using hall.2
        unfold truncatedResponse at hl
        unfold untruncatedResponse at h1
        cases hr : r.message.truncated <;> simp [hr] at hl h1
    rw [raceServers_concat h, hinit]
    apply pickBest_of_nil
    rw [List.filterMap_append, filterMap_held, hall.1, hlast', List.nil_append]

theorem rank_argmin_perm {l l' : List DnsResponse} (h : l.Perm l') {a b : DnsResponse}
    (ha : l.argmin responseRank = some a) (hb : l'.argmin responseRank = some b) :
    responseRank a = responseRank b := by
  apply le_antisymm
  · exact List.le_of_mem_argmin (h.mem_iff.mpr (List.argmin_mem hb)) ha
  · exact List.le_of_mem_argmin (h.mem_iff.mp (List.argmin_mem ha)) hb

theorem argmin_isSome_of_mem {l : List DnsResponse} {x : DnsResponse} (hx : x ∈ l) :
    ∃ best, l.argmin responseRank = some best := by
  cases h : l.argmin responseRank with
  | some best => exact ⟨best, rfl⟩
  | none =>
    rw [List.argmin_eq_none.mp h] at hx
    cases hx

/-- **The race by its design.** A conclusive outcome ends it with a conclusive response. Without one,
and where the last to arrive is not truncated, the best of the responses that are not truncated wins,
with the same rank in every such order; if there is none, the first truncated one. -/
theorem race_last_resort (es : List LookupResult) :
    ((∃ o ∈ es, isConclusiveResult o = true) →
      ∃ r, raceServers es = .ok r ∧ isConclusive r = true ∧ r.message.truncated = false) ∧
    ((∀ o ∈ es, isConclusiveResult o = false) → LastUntruncated es →
      ((∃ x, Except.ok x ∈ es ∧ x.message.truncated = false) →
        ∃ r, raceServers es = .ok r ∧ Except.ok r ∈ es ∧ r.message.truncated = false ∧
          (∀ x, Except.ok x ∈ es → x.message.truncated = false → responseRank r ≤ responseRank x) ∧
          ∀ es', es'.Perm es → LastUntruncated es' →
            ∃ r', raceServers es' = .ok r' ∧ responseRank r' = responseRank r) ∧
      ((∀ x, Except.ok x ∈ es → x.message.truncated = true) →
        ∀ t, es.findSome? truncatedResponse = some t → raceServers es = .ok t)) := by
  refine ⟨?_, fun h hlast => ⟨?_, fun hall t ht => ?_⟩⟩
  · rintro ⟨o, ho, hc⟩
    obtain ⟨o', ho'⟩ := Option.isSome_iff_exists.mp (List.find?_isSome.mpr ⟨o, ho, hc⟩)
    have hc' : isConclusiveResult o' = true := List.find?_some ho'
    rw [raceServers, raceLoop_of_find? es [] none ho']
    cases o' with
    | error e => cases hc'
    | ok r =>
      refine ⟨r, rfl, hc', ?_⟩
      by_contra ht
      have hc' : isConclusive r = true := hc'
      rw [isConclusive, if_pos (by simpa using ht)] at hc'
      cases hc'
  · rintro ⟨x, hx, hxt⟩
    obtain ⟨best, hbest⟩ := argmin_isSome_of_mem (mem_filterMap_untruncated.mpr ⟨hx, hxt⟩)
    obtain ⟨hmem, htr⟩ := mem_filterMap_untruncated.mp (List.argmin_mem hbest)
    refine ⟨best, raceServers_of_best h hlast hbest, hmem, htr, fun y hy hyt => ?_, fun es' hperm hlast' => ?_⟩
    · exact List.le_of_mem_argmin (mem_filterMap_untruncated.mpr ⟨hy, hyt⟩) hbest
    · have hp := hperm.filterMap untruncatedResponse
      obtain ⟨best', hbest'⟩ := argmin_isSome_of_mem (hp.mem_iff.mpr (List.argmin_mem hbest))
      refine ⟨best', ?_, rank_argmin_perm hp hbest' hbest⟩
      exact raceServers_of_best (fun o ho => h o (hperm.mem_iff.mp ho)) hlast' hbest'
  · refine raceServers_of_truncated hlast ?_ ht
    rw [List.eq_nil_iff_forall_not_mem]
    intro x hx
    obtain ⟨hx, hxt⟩ := mem_filterMap_untruncated.mp hx
    rw [hall x hx] at hxt
    cases hxt

/-- A truncated response that arrives last wins over responses it ranks before. -/
theorem last_truncated_wins {es : List LookupResult} {t : DnsResponse} (ht : t.message.truncated = true)
    (h : ∀ o ∈ es, isConclusiveResult o = false)
    (hrank : ∀ x, Except.ok x ∈ es → x.message.truncated = false → responseRank t < responseRank x) :
    raceServers (es ++ [.ok t]) = .ok t := by
  have hall : ∀ o ∈ es ++ [.ok t], isConclusiveResult o = false := by
    intro o ho
    rcases List.mem_append.mp ho with ho | ho
    · exact h o ho
    · rw [List.mem_singleton.mp ho, isConclusiveResult, isConclusive, if_pos ht]
  rw [raceServers_concat hall]
  apply pickBest_of_argmin
  rw [List.filterMap_append, filterMap_held]
  have hmem : t ∈ es.filterMap untruncatedResponse ++ [t] := List.mem_append_right _ (List.mem_singleton_self t)
  obtain ⟨best, hbest⟩ := argmin_isSome_of_mem hmem
  have hle := List.le_of_mem_argmin hmem hbest
  rcases List.mem_append.mp (List.argmin_mem hbest) with hb | hb
  · obtain ⟨hb, hbt⟩ := mem_filterMap_untruncated.mp hb
    exact absurd (hrank best hb hbt) (not_lt.mpr hle)
  · rw [List.mem_singleton.mp hb] at hbest
    exact hbest

/-! ### A truncated answer and an empty one -/

def rootSoa : SoaRecord := ⟨Name.root, .IN, 60, 60, []⟩

/-- An empty NOERROR response with an SOA record. -/
def noData : DnsResponse where
  message := { queries := [default], authorities := [rootSoa.toRecord] }
  validUntil := 0

def truncatedAnswer : DnsResponse where
  message :=
    { truncated := true
      queries := [default]
      answers := [⟨Name.root, .IN, 60, .other .A [192, 0, 2, 1]⟩] }
  validUntil := 0

/-- The truncated answer has the best rank, but is no candidate. -/
theorem truncated_rank_is_passed_over : ¬ ∀ r, raceServers [.ok truncatedAnswer, .ok noData] = .ok r →
    ∀ x ∈ [truncatedAnswer, noData], responseRank r ≤ responseRank x := by
  intro h
  have := h noData rfl truncatedAnswer List.mem_cons_self
  revert this
  decide

/-- In the other order it wins. -/
example : raceServers [.ok noData, .ok truncatedAnswer] = .ok truncatedAnswer := by rfl

end Upstream
end SmartDns
