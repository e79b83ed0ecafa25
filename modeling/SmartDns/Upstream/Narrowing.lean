/-
# Selection only narrows an answer

The response of `lookup_ip_with` is one server's response after the filters, less the
addresses that were not selected. What the filters make of an answer is said record by
record: `Left` is what a record leaves, in the answers and among the additional records,
and the alias rule it uses up.

Key definitions: `Leaves`, `Filtered`, `Selected`, `Narrows`.
Key theorem: `selection_narrows`.
-/
import SmartDns.Upstream.Strategy

namespace SmartDns
namespace Upstream

open Dns

/-! ### The filters, record by record -/

/-- What an answer leaves. -/
structure Left where
  own : List Record := []
  others : List Record := []
  used : Option ℕ := none

/-- An answer without an address stays; an address has to pass, and an alias rule stands in for it, the
first time that the rule is called for. -/
inductive Leaves (ns : NameServerOpts) (o : LookupIpOptions) (record : Record) : Left → Prop
  | noAddress (h : record.data.ipAddr = none) : Leaves ns o record { own := [record] }
  | stopped {ip : IpAddr} (h : record.data.ipAddr = some ip) (hpass : ipFilter ns o ip = false) :
      Leaves ns o record {}
  | passed {ip : IpAddr} (h : record.data.ipAddr = some ip) (hpass : ipFilter ns o ip = true)
      (hrule : o.ipAlias.get ip = none) : Leaves ns o record { own := [record] }
  | aliased {ip : IpAddr} {rule : AliasIps} (h : record.data.ipAddr = some ip) (hpass : ipFilter ns o ip = true)
      (hrule : o.ipAlias.get ip = some rule) :
      Leaves ns o record
        { own := (aliasRecords record rule).filter fun r => r.recordType = o.recordType
          others := (aliasRecords record rule).filter fun r => r.recordType ≠ o.recordType
          used := some rule.ptr }
  | again {ip : IpAddr} {rule : AliasIps} (h : record.data.ipAddr = some ip) (hpass : ipFilter ns o ip = true)
      (hrule : o.ipAlias.get ip = some rule) : Leaves ns o record {}

/-- The record calls for the alias rule `ptr`. -/
def CallsFor (ns : NameServerOpts) (o : LookupIpOptions) (record : Record) (ptr : ℕ) : Prop :=
  ∃ ip rule, record.data.ipAddr = some ip ∧ ipFilter ns o ip = true ∧ o.ipAlias.get ip = some rule ∧ rule.ptr = ptr

/-- The answers `lefts` come of `records`, where the rules of `aliasSet` have been used before. -/
structure LeftOf (ns : NameServerOpts) (o : LookupIpOptions) (aliasSet : List ℕ) (records : List Record)
    (lefts : List Left) : Prop where
  leaves : List.Forall₂ (Leaves ns o) records lefts
  /-- No rule is used twice, -/
  nodup : (lefts.filterMap (·.used)).Nodup
  unused : ∀ ptr ∈ lefts.filterMap (·.used), ptr ∉ aliasSet
  /-- and each that is called for is used. -/
  called : ∀ record ∈ records, ∀ ptr, CallsFor ns o record ptr → ptr ∈ aliasSet ++ lefts.filterMap (·.used)

namespace LeftOf

variable {ns : NameServerOpts} {o : LookupIpOptions} {aliasSet : List ℕ} {record : Record} {records : List Record}
  {lefts : List Left}

/-- A record that uses no rule. -/
theorem cons_none (h : LeftOf ns o aliasSet records lefts) {left : Left} (hleaves : Leaves ns o record left)
    (hused : left.used = none) (hcalls : ∀ ptr, CallsFor ns o record ptr → ptr ∈ aliasSet) :
    LeftOf ns o aliasSet (record :: records) (left :: lefts) := by
  have hsame : (left :: lefts).filterMap (·.used) = lefts.filterMap (·.used) := List.filterMap_cons_none hused
  refine ⟨.cons hleaves h.leaves, ?_, ?_, ?_⟩
  · rw [hsame]
    exact h.nodup
  · rw [hsame]
    exact h.unused
  · intro r hr ptr hcall
    rw [hsame]
    rcases List.mem_cons.mp hr with rfl | hr
    · exact List.mem_append_left _ (hcalls ptr hcall)
    · exact h.called r hr ptr hcall

/-- A record that uses the rule `ptr`, after which the rest may not. -/
theorem cons_some {ptr : ℕ} (h : LeftOf ns o (aliasSet ++ [ptr]) records lefts) {left : Left}
    (hleaves : Leaves ns o record left) (hused : left.used = some ptr) (hnew : ptr ∉ aliasSet)
    (hcalls : ∀ ptr', CallsFor ns o record ptr' → ptr' = ptr) :
    LeftOf ns o aliasSet (record :: records) (left :: lefts) := by
  have hmore : (left :: lefts).filterMap (·.used) = ptr :: lefts.filterMap (·.used) :=
    List.filterMap_cons_some hused
  refine ⟨.cons hleaves h.leaves, ?_, ?_, ?_⟩
  · rw [hmore]
    refine List.nodup_cons.mpr ⟨fun hmem => ?_, h.nodup⟩
    exact h.unused ptr hmem (List.mem_append_right _ List.mem_cons_self)
  · intro ptr' hmem hset
    rw [hmore] at hmem
    rcases List.mem_cons.mp hmem with rfl | hmem
    · exact hnew hset
    · exact h.unused ptr' hmem (List.mem_append_left _ hset)
  · intro r hr ptr' hcall
    rw [hmore]
    rcases List.mem_cons.mp hr with rfl | hr
    · obtain rfl := hcalls ptr' hcall
      exact List.mem_append_right _ List.mem_cons_self
    · have hmem := h.called r hr ptr' hcall
      rwa [List.append_assoc, List.singleton_append] at hmem

end LeftOf

/-- `filterAnswers` gives what the records leave. -/
theorem leftOf_filterAnswers (ns : NameServerOpts) (o : LookupIpOptions) :
    ∀ (records : List Record) (aliasSet : List ℕ), ∃ lefts, LeftOf ns o aliasSet records lefts ∧
      filterAnswers ns o records aliasSet = (lefts.flatMap (·.own), lefts.flatMap (·.others))
  | [], _ => ⟨[], ⟨.nil, .nil, fun ptr h => absurd h List.not_mem_nil, fun r h => absurd h List.not_mem_nil⟩, rfl⟩
  | record :: rest, aliasSet => by
    obtain ⟨lefts, hlefts, hrest⟩ := leftOf_filterAnswers ns o rest aliasSet
    unfold filterAnswers
    split
    · rename_i hnone
      refine ⟨_, hlefts.cons_none (.noAddress hnone) rfl fun ptr hcall => ?_, by rw [hrest]; rfl⟩
      obtain ⟨ip, rule, hip, -⟩ := hcall
      rw [hnone] at hip
      cases hip
    · rename_i ip hip
      -- the record calls for the rule of its address only
      have hcalls : ∀ ptr, CallsFor ns o record ptr →
          ipFilter ns o ip = true ∧ ∃ rule, o.ipAlias.get ip = some rule ∧ rule.ptr = ptr := by
        rintro ptr ⟨ip', rule, hip', hpass, hrule, hptr⟩
        obtain rfl := Option.some.inj (hip.symm.trans hip')
        exact ⟨hpass, rule, hrule, hptr⟩
      split
      · rename_i hstop
        have hstop : ipFilter ns o ip = false := by simpa using hstop
        refine ⟨_, hlefts.cons_none (.stopped hip hstop) rfl fun ptr hcall => ?_, hrest⟩
        rw [(hcalls ptr hcall).1] at hstop
        cases hstop
      · rename_i hpass
        have hpass : ipFilter ns o ip = true := by simpa using hpass
        split
        · rename_i hrule
          refine ⟨_, hlefts.cons_none (.passed hip hpass hrule) rfl fun ptr hcall => ?_, by rw [hrest]; rfl⟩
          obtain ⟨-, rule, hrule', -⟩ := hcalls ptr hcall
          rw [hrule] at hrule'
          cases hrule'
        · rename_i rule hrule
          have hptr : ∀ ptr, CallsFor ns o record ptr → ptr = rule.ptr := by
            intro ptr hcall
            obtain ⟨-, rule', hrule', hptr⟩ := hcalls ptr hcall
            obtain rfl := Option.some.inj (hrule.symm.trans hrule')
            exact hptr.symm
          split
          · rename_i hset
            have hset : rule.ptr ∈ aliasSet := by simpa using hset
            refine ⟨_, hlefts.cons_none (.again hip hpass hrule) rfl fun ptr hcall => ?_, hrest⟩
            rw [hptr ptr hcall]
            exact hset
          · rename_i hset
            have hset : rule.ptr ∉ aliasSet := by simpa using hset
            obtain ⟨lefts, hlefts, hrest⟩ := leftOf_filterAnswers ns o rest (aliasSet ++ [rule.ptr])
            refine ⟨_, hlefts.cons_some (.aliased hip hpass hrule) rfl hset hptr, ?_⟩
            rw [hrest, List.partition_eq_filter_filter]
            simp [Function.comp_def]

/-- What a server's lookup came to, where the library reports a negative as an error. -/
def answered (now : ℤ) (name : Name) (o : LookupIpOptions) : LookupResult → Option DnsResponse
  | .ok r => some r
  | .error e => e.asSoa now { name, queryType := o.recordType, queryClass := .IN }

/-- `r'` is the server's response after the filters: its answers are what the records leave, and only
aliases of the other family are added elsewhere. -/
def Filtered (ns : NameServerOpts) (o : LookupIpOptions) (raw r' : DnsResponse) : Prop :=
  ∃ lefts, LeftOf ns o [] raw.message.answers lefts ∧
    r'.message = { raw.message with
      answers := lefts.flatMap (·.own)
      additionals := raw.message.additionals ++ lefts.flatMap (·.others) }

/-- Without a filter every answer stays. -/
theorem filterAnswers_of_none {ns : NameServerOpts} {o : LookupIpOptions} (hwhite : ns.whitelistIp = false)
    (hblack : ns.blacklistIp = false) (hignore : o.ignoreIp = []) (hrules : o.ipAlias = []) :
    ∀ (records : List Record) (aliasSet : List ℕ), filterAnswers ns o records aliasSet = (records, [])
  | [], _ => rfl
  | record :: rest, aliasSet => by
    have ih := filterAnswers_of_none hwhite hblack hignore hrules rest aliasSet
    have hpass (ip : IpAddr) : ipFilter ns o ip = true := by
      rw [ipFilter, hwhite, hblack, hignore]
      rfl
    have hrule (ip : IpAddr) : o.ipAlias.get ip = none := by
      rw [hrules]
      rfl
    unfold filterAnswers
    rw [ih]
    split
    · rfl
    · rename_i ip hip
      rw [hpass ip, hrule ip]
      rfl

theorem filtered_ok {now : ℤ} {ns : NameServerOpts} {o : LookupIpOptions} {raw r' : DnsResponse}
    (h : (if !ns.whitelistIp && !ns.blacklistIp && o.ignoreIp.isEmpty && o.ipAlias.isEmpty then Except.ok raw
      else .ok { raw with
        message := { raw.message with
          answers := (filterAnswers ns o raw.message.answers []).1
          additionals := raw.message.additionals ++ (filterAnswers ns o raw.message.answers []).2 }
        validUntil := now + fromSecs MAX_TTL }) = (.ok r' : LookupResult)) :
    (r' = raw ∧ (ns.whitelistIp = false ∧ ns.blacklistIp = false ∧ o.ignoreIp = [] ∧ o.ipAlias = [])) ∨
      r'.message = { raw.message with
        answers := (filterAnswers ns o raw.message.answers []).1
        additionals := raw.message.additionals ++ (filterAnswers ns o raw.message.answers []).2 } := by
  split at h
  · rename_i hnone
    simp only [Bool.and_eq_true, Bool.not_eq_true', List.isEmpty_iff] at hnone
    exact .inl ⟨(Except.ok.inj h).symm, hnone.1.1.1, hnone.1.1.2, hnone.1.2, hnone.2⟩
  · right
    rw [← Except.ok.inj h]

/-- A response that comes through is one that was answered, filtered. -/
theorem filtered_of_perNameserverLookupIp {now : ℤ} {name : Name} {o : LookupIpOptions} {ns : NameServerOpts}
    {res : LookupResult} {r' : DnsResponse} (h : perNameserverLookupIp now name o ns res = .ok r') :
    ∃ raw, answered now name o res = some raw ∧ Filtered ns o raw r' := by
  obtain ⟨raw, hraw, hr'⟩ : ∃ raw, answered now name o res = some raw ∧
      (r' = raw ∧ (ns.whitelistIp = false ∧ ns.blacklistIp = false ∧ o.ignoreIp = [] ∧ o.ipAlias = []) ∨
        r'.message = { raw.message with
          answers := (filterAnswers ns o raw.message.answers []).1
          additionals := raw.message.additionals ++ (filterAnswers ns o raw.message.answers []).2 }) := by
    unfold perNameserverLookupIp at h
    split at h
    · cases h
    · cases res with
      | ok raw => exact ⟨raw, rfl, filtered_ok h⟩
      | error e =>
        dsimp only at h
        -- a negative that becomes a response is filtered too
        cases hsoa : e.asSoa now { name, queryType := o.recordType, queryClass := .IN } with
        | some raw =>
          rw [hsoa] at h
          exact ⟨raw, hsoa, filtered_ok h⟩
        | none =>
          rw [hsoa] at h
          dsimp only at h
          split at h <;> cases h
  obtain ⟨lefts, hlefts, heq⟩ := leftOf_filterAnswers ns o raw.message.answers []
  refine ⟨raw, hraw, lefts, hlefts, ?_⟩
  rcases hr' with ⟨rfl, hwhite, hblack, hignore, hrules⟩ | hr'
  · rw [filterAnswers_of_none hwhite hblack hignore hrules] at heq
    obtain ⟨hown, hothers⟩ := Prod.mk.inj heq
    rw [← hown, ← hothers, List.append_nil]
  · rw [hr', heq]

/-! ### The selection -/

section

variable (now : ℤ) (name : Name) (o : LookupIpOptions) (a : Arrivals)

/-- A run of the strategy in force selects the address and ends with `out`. -/
def Selected (selected : Option IpAddr) (out : LookupResult) : Prop :=
  match o.strategy with
  | .FirstPing => ∃ found t, FirstPing o.speedCheckMode a.missing (a.results now name o) [] {} found t ∧
      Selects t found selected ∧ out = finish selected t
  | .FastestIp => ∃ keys traces,
      let t := Tasks.pushAll {} (filtered now name o a.early)
      keys.Perm t.ipAddrs.dedup ∧ Selects t (multiModePingFastest keys o.speedCheckMode traces) selected ∧
        out = finish selected t
  | .FastestResponse => selected = none ∧ Strategised now name o a out

theorem strategised_iff_selected {out : LookupResult} :
    Strategised now name o a out ↔ ∃ selected, Selected now name o a selected out := by
  unfold Selected
  cases hs : o.strategy with
  | FirstPing =>
    rw [Strategised, hs]
    constructor
    · rintro ⟨found, t, selected, h⟩
      exact ⟨selected, found, t, h⟩
    · rintro ⟨selected, found, t, h⟩
      exact ⟨found, t, selected, h⟩
  | FastestIp =>
    rw [Strategised, hs]
    constructor
    · rintro ⟨keys, traces, selected, h⟩
      exact ⟨selected, keys, traces, h⟩
    · rintro ⟨selected, keys, traces, h⟩
      exact ⟨keys, traces, selected, h⟩
  | FastestResponse =>
    constructor
    · exact fun h => ⟨none, rfl, h⟩
    · rintro ⟨_, _, h⟩
      exact h

end

/-- Answers were taken out of `r'`, in `r`, and none that has no address. -/
structure Narrows (r' r : DnsResponse) : Prop where
  sublist : r.message.answers.Sublist r'.message.answers
  noAddress : (r.message.answers.filter fun x => x.data.ipAddr.isNone) =
    r'.message.answers.filter fun x => x.data.ipAddr.isNone
  rest : r = { r' with message := { r'.message with answers := r.message.answers } }

theorem Narrows.refl (r : DnsResponse) : Narrows r r := ⟨.refl _, rfl, rfl⟩

theorem narrows_keepSelected (ip : IpAddr) (r : DnsResponse) : Narrows r (keepSelected ip r) := by
  refine ⟨List.filter_sublist, ?_, rfl⟩
  rw [keepSelected, List.filter_filter]
  apply List.filter_congr
  intro x _
  cases x.data.ipAddr.isNone <;> simp

/-- What remains of `r'` where `selected` is the address of the fastest-ip and first-ping modes: of the answers
with an address those with that one. -/
def Remains (selected : Option IpAddr) (r' r : DnsResponse) : Prop :=
  match selected with
  | some ip => ip ∈ r'.ipAddrs ∧ r = { r' with message := { r'.message with
      answers := r'.message.answers.filter fun x => x.data.ipAddr = none ∨ x.data.ipAddr = some ip } }
  | none => r'.ipAddrs = [] ∧ r = r'

theorem keepSelected_eq (ip : IpAddr) (r : DnsResponse) : keepSelected ip r = { r with message := { r.message with
    answers := r.message.answers.filter fun x => x.data.ipAddr = none ∨ x.data.ipAddr = some ip } } := by
  have hfilter : r.message.answers.filter (fun x => x.data.ipAddr = some ip || x.data.ipAddr.isNone) =
      r.message.answers.filter fun x => x.data.ipAddr = none ∨ x.data.ipAddr = some ip := by
    apply List.filter_congr
    intro x _
    cases x.data.ipAddr <;> simp
  unfold keepSelected
  rw [hfilter]

theorem Remains.narrows {selected : Option IpAddr} {r' r : DnsResponse} (h : Remains selected r' r) :
    Narrows r' r := by
  cases selected with
  | some ip =>
    obtain ⟨-, rfl⟩ := h
    rw [← keepSelected_eq]
    exact narrows_keepSelected ip r'
  | none =>
    obtain ⟨-, rfl⟩ := h
    exact Narrows.refl r

/-- Without a selected address the response is one of the tasks as it is. -/
theorem mem_of_finish_none {t : Tasks} {r : DnsResponse} (h : finish none t = .ok r) : r ∈ t.ok := by
  unfold finish at h
  simp only [Option.bind_none] at h
  split at h
  · rename_i best hbest
    obtain rfl := Except.ok.inj h
    exact List.argmin_mem hbest
  · split at h <;> cases h

/-- The selected address is in the response that is taken. -/
theorem remains_of_finish {t : Tasks} {found selected : Option IpAddr} {r : DnsResponse}
    (hsel : Selects t found selected) (hfound : ∀ ip, found = some ip → ip ∈ t.ipAddrs)
    (h : finish selected t = .ok r) : ∃ r' ∈ t.ok, Remains selected r' r := by
  cases selected with
  | some ip =>
    have hip : ip ∈ t.ipAddrs := by
      cases found with
      | some ip' =>
        obtain rfl := Option.some.inj (show some ip = some ip' from hsel)
        exact hfound ip rfl
      | none => exact (show MostReturned t.ipAddrs (some ip) from hsel).1
    obtain ⟨r', hr', hip', hkeep⟩ := finish_eq_keepSelected hip
    rw [hkeep] at h
    exact ⟨r', hr', hip', (Except.ok.inj h).symm.trans (keepSelected_eq ip r')⟩
  | none =>
    have hnone : t.ipAddrs = [] := by
      cases found with
      | some ip => cases (show none = some ip from hsel)
      | none => exact (show MostReturned t.ipAddrs none from hsel)
    have hmem := mem_of_finish_none h
    refine ⟨r, hmem, ?_, rfl⟩
    exact List.flatMap_eq_nil_iff.mp hnone r hmem

/-- The response is made of one that came through the filters. -/
theorem Selected.of_results {now : ℤ} {name : Name} {o : LookupIpOptions} {a : Arrivals} {selected : Option IpAddr}
    {r : DnsResponse} (h : Selected now name o a selected (.ok r)) :
    ∃ r', Except.ok r' ∈ a.results now name o ∧ (o.strategy = .FastestResponse → r = r') ∧
      (o.strategy ≠ .FastestResponse → Remains selected r' r) := by
  unfold Selected at h
  split at h
  · rename_i hs
    obtain ⟨found, t, run, hsel, hout⟩ := h
    obtain ⟨hfound, -, hoks⟩ := run.found fun ips hips => by cases hips
    obtain ⟨r', hr', hremains⟩ := remains_of_finish hsel hfound hout.symm
    refine ⟨r', (hoks r' hr').resolve_left List.not_mem_nil, fun h => ?_, fun _ => hremains⟩
    rw [hs] at h
    cases h
  · rename_i hs
    obtain ⟨keys, traces, hkeys, hsel, hout⟩ := h
    obtain ⟨r', hr', hremains⟩ := remains_of_finish hsel
      (fun ip hip => List.mem_dedup.mp (hkeys.mem_iff.mp (mem_of_multiModePingFastest hip))) hout.symm
    rw [Tasks.ok_pushAll] at hr'
    refine ⟨r', mem_results_of_early (mem_oks.mp hr'), fun h => ?_, fun _ => hremains⟩
    rw [hs] at h
    cases h
  · rename_i hs
    obtain ⟨-, h⟩ := h
    refine ⟨r, ?_, fun _ => rfl, fun hne => absurd hs hne⟩
    rw [Strategised, hs] at h
    simp only at h
    split at h
    · rename_i res hres
      rw [h]
      exact List.mem_of_find?_eq_some hres
    · have hmem := mem_of_finish_none h.2.symm
      rw [Tasks.ok_pushAll] at hmem
      exact mem_oks.mp hmem

/-- **The response of `lookup_ip_with` is one server's response, filtered, less addresses**: the answers
that stay are in order and no record without an address is taken out; in the modes that select an address
exactly its records are left of the addresses. -/
theorem selection_narrows {now : ℤ} {name : Name} {o : LookupIpOptions} {a : Arrivals} {r : DnsResponse}
    (h : LookupIpWith now name o a (.ok r)) :
    ∃ selected, Selected now name o a selected (.ok r) ∧
      ∃ ns res raw r', (ns, res) ∈ a.early ++ a.late ∧ answered now name o res = some raw ∧
        perNameserverLookupIp now name o ns res = .ok r' ∧ Filtered ns o raw r' ∧ Narrows r' r ∧
        (o.strategy = .FastestResponse → r = r') ∧ (o.strategy ≠ .FastestResponse → Remains selected r' r) := by
  have hrun : Strategised now name o a (.ok r) := by
    unfold LookupIpWith at h
    split at h
    · cases h
    · exact h
  obtain ⟨selected, hsel⟩ := (strategised_iff_selected now name o a).mp hrun
  obtain ⟨r', hr', hfirst, hremains⟩ := hsel.of_results
  obtain ⟨⟨ns, res⟩, hmem, heq⟩ := List.mem_map.mp hr'
  obtain ⟨raw, hraw, hfiltered⟩ := filtered_of_perNameserverLookupIp heq
  refine ⟨selected, hsel, ns, res, raw, r', hmem, hraw, heq, hfiltered, ?_, hfirst, hremains⟩
  by_cases hs : o.strategy = .FastestResponse
  · obtain rfl := hfirst hs
    exact Narrows.refl r
  · exact (hremains hs).narrows

theorem selection_narrows_aliasFirst : ∃ selected,
    Selected 0 Name.root (rootOptions false) aliasFirst selected (.ok withAddress) ∧
      ∃ ns res raw r', (ns, res) ∈ aliasFirst.early ++ aliasFirst.late ∧
        answered 0 Name.root (rootOptions false) res = some raw ∧
        perNameserverLookupIp 0 Name.root (rootOptions false) ns res = .ok r' ∧
        Filtered ns (rootOptions false) raw r' ∧ Narrows r' withAddress ∧
        ((rootOptions false).strategy = .FastestResponse → withAddress = r') ∧
        ((rootOptions false).strategy ≠ .FastestResponse → Remains selected r' withAddress) :=
  selection_narrows lookup_aliasFirst

end Upstream
end SmartDns
