/-
# The response strategies

`lookup_ip_with` asks all servers for an address and makes one response of what they
answer. First-ping checks the speed of each response's addresses as it arrives and takes
the first address that is reached; fastest-ip waits for the responses of 800 ms and
checks all their addresses together; fastest-response takes the first NOERROR response
with an answer, an address or an alias. Without a reached address the one that was
returned most often counts, and without any address the best-ranked response.

What a run depends on beyond the responses and their order is when pings come back and
the order of a hash map's keys; a run is therefore a relation, `LookupIpWith`.

Key definitions: `Arrivals`, `FirstPing`, `LookupIpWith`.
Key theorem: `addresses_are_kept`.
-/
import Mathlib.Data.List.Dedup
import SmartDns.Upstream.Filter
import SmartDns.Upstream.Ping
import SmartDns.Upstream.Race

namespace SmartDns
namespace Upstream

open Dns

/-- `ok_tasks` and `err_tasks`. -/
structure Tasks where
  ok : List DnsResponse := []
  err : List DnsError := []

namespace Tasks

def push (t : Tasks) : LookupResult → Tasks
  | .ok r => { t with ok := t.ok ++ [r] }
  | .error e => { t with err := t.err ++ [e] }

def pushAll (t : Tasks) (results : List LookupResult) : Tasks := results.foldl push t

/-- The addresses of the responses so far, as often as they were returned. -/
def ipAddrs (t : Tasks) : List IpAddr := t.ok.flatMap (·.ipAddrs)

end Tasks

/-- What the servers' lookups, each after its filters, came to before the overall deadline, in the order
they arrived: the first 800 ms and later. Of `missing` servers nothing came. -/
structure Arrivals where
  early : List (NameServerOpts × LookupResult)
  late : List (NameServerOpts × LookupResult)
  missing : ℕ

section

variable (now : ℤ) (name : Name) (o : LookupIpOptions)

def filtered (arrivals : List (NameServerOpts × LookupResult)) : List LookupResult :=
  arrivals.map fun a => perNameserverLookupIp now name o a.1 a.2

def Arrivals.results (a : Arrivals) : List LookupResult := filtered now name o (a.early ++ a.late)

end

/-- The loop of first-ping, with the responses to come, the addresses whose check is under way and the
tasks so far: it ends with the address found, if any, and the tasks. -/
inductive FirstPing (modes : List SpeedCheckMode) (missing : ℕ) :
    List LookupResult → List (List IpAddr) → Tasks → Option IpAddr → Tasks → Prop
  /-- Every server and every check is back. -/
  | done {t : Tasks} (h : missing = 0) : FirstPing modes missing [] [] t none t
  | reached {results pings pings' t ips ip} (traces : ℕ → PingTrace)
      (h : multiModePingFastest ips modes traces = some ip) :
      FirstPing modes missing results (pings ++ ips :: pings') t (some ip) t
  | unreached {results pings pings' t ips found t'} (traces : ℕ → PingTrace)
      (h : multiModePingFastest ips modes traces = none)
      (rest : FirstPing modes missing results (pings ++ pings') t found t') :
      FirstPing modes missing results (pings ++ ips :: pings') t found t'
  | answered {r results pings t found t'}
      (rest : FirstPing modes missing results (pings ++ if r.ipAddrs.isEmpty then [] else [r.ipAddrs])
        (t.push (.ok r)) found t') :
      FirstPing modes missing (.ok r :: results) pings t found t'
  | failed {e results pings t found t'} (rest : FirstPing modes missing results pings (t.push (.error e)) found t') :
      FirstPing modes missing (.error e :: results) pings t found t'

/-- The last resort of the speed check: an address that was returned most often; which of several is up
to the hash map. -/
def MostReturned (ips : List IpAddr) : Option IpAddr → Prop
  | some ip => ip ∈ ips ∧ ∀ x ∈ ips, ips.count x ≤ ips.count ip
  | none => ips = []

/-- The address that counts, where the speed check found `found`. -/
def Selects (t : Tasks) (found selected : Option IpAddr) : Prop :=
  match found with
  | some ip => selected = some ip
  | none => MostReturned t.ipAddrs selected

/-- NOERROR with an answer of any kind. -/
def hasAnswer : LookupResult → Bool
  | .ok r => r.message.responseCode = .noError && !r.message.answers.isEmpty
  | .error _ => false

/-- Of the addresses only that one; aliases stay. -/
def keepSelected (ip : IpAddr) (r : DnsResponse) : DnsResponse :=
  { r with message := { r.message with
    answers := r.message.answers.filter fun x => x.data.ipAddr = some ip || x.data.ipAddr.isNone } }

/-- The first response with the address, and of the addresses in it only that one. -/
def takeSelected (ip : IpAddr) (ok : List DnsResponse) : Option DnsResponse :=
  (ok.find? fun r => r.message.answers.any fun x => x.data.ipAddr = some ip).map (keepSelected ip)

/-- The response, once the strategy has come to an end. -/
def finish (selected : Option IpAddr) (t : Tasks) : LookupResult :=
  match selected.bind fun ip => takeSelected ip t.ok with
  | some r => .ok r
  | none =>
    match t.ok.argmin responseRank with
    | some best => .ok best
    | none =>
      match t.err.head? with
      | some e => .error e
      | none => .error (.proto .timeout)

/-- The strategy in force: without a speed check, the fastest response. -/
def LookupIpOptions.strategy (o : LookupIpOptions) : ResponseMode :=
  if o.noSpeedCheck || o.speedCheckMode.any (·.isNone) then .FastestResponse else o.responseStrategy

/-- A run of the strategy in force ends with `out`. -/
def Strategised (now : ℤ) (name : Name) (o : LookupIpOptions) (a : Arrivals) (out : LookupResult) : Prop :=
  match o.strategy with
  | .FirstPing => ∃ found t selected, FirstPing o.speedCheckMode a.missing (a.results now name o) [] {} found t ∧
      Selects t found selected ∧ out = finish selected t
  | .FastestIp => ∃ keys traces selected,
      let t := Tasks.pushAll {} (filtered now name o a.early)
      keys.Perm t.ipAddrs.dedup ∧ Selects t (multiModePingFastest keys o.speedCheckMode traces) selected ∧
        out = finish selected t
  | .FastestResponse =>
    match (a.results now name o).find? hasAnswer with
    | some res => out = res
    | none => a.missing = 0 ∧ out = finish none (Tasks.pushAll {} (a.results now name o))

def Arrivals.servers (a : Arrivals) : ℕ := a.early.length + a.late.length + a.missing

def LookupIpWith (now : ℤ) (name : Name) (o : LookupIpOptions) (a : Arrivals) (out : LookupResult) : Prop :=
  if !o.recordType.isIpAddr || a.servers = 0 then out = .error (.proto .noConnections)
  else Strategised now name o a out

/-! ### What the strategies keep -/

theorem Tasks.ok_push (t : Tasks) (res : LookupResult) : (t.push res).ok = t.ok ++ res.toOption.toList := by
  cases res with
  | ok r => rfl
  | error e => exact (List.append_nil _).symm

theorem Tasks.ok_pushAll : ∀ (results : List LookupResult) (t : Tasks),
    (t.pushAll results).ok = t.ok ++ results.filterMap Except.toOption
  | [], t => (List.append_nil _).symm
  | res :: results, t => by
    have ih := Tasks.ok_pushAll results (t.push res)
    rw [Tasks.pushAll, List.foldl_cons]
    refine ih.trans ?_
    rw [Tasks.ok_push, List.append_assoc]
    cases res <;> rfl

theorem mem_oks {results : List LookupResult} {r : DnsResponse} :
    r ∈ results.filterMap Except.toOption ↔ Except.ok r ∈ results := by
  rw [List.mem_filterMap]
  constructor
  · rintro ⟨res, hres, h⟩
    cases res with
    | ok r' =>
      obtain rfl := Option.some.inj h
      exact hres
    | error e => cases h
  · intro h
    exact ⟨_, h, rfl⟩

/-- The addresses under check are addresses of responses that came. -/
def PingsOf (pings : List (List IpAddr)) (t : Tasks) : Prop := ∀ ips ∈ pings, ∀ ip ∈ ips, ip ∈ t.ipAddrs

theorem PingsOf.push {pings : List (List IpAddr)} {t : Tasks} (h : PingsOf pings t) (r : DnsResponse) :
    PingsOf (pings ++ if r.ipAddrs.isEmpty then [] else [r.ipAddrs]) (t.push (.ok r)) := by
  intro ips hips ip hip
  rw [Tasks.ipAddrs, Tasks.ok_push, List.flatMap_append, List.mem_append]
  rcases List.mem_append.mp hips with hips | hips
  · exact .inl (h ips hips ip hip)
  · split at hips
    · cases hips
    · obtain rfl := List.mem_singleton.mp hips
      exact .inr (by simpa [Except.toOption] using hip)

/-- **What a run of first-ping comes to**: an address of a response that came, or none and then every
response has come. -/
theorem FirstPing.found {modes : List SpeedCheckMode} {missing : ℕ} {results : List LookupResult}
    {pings : List (List IpAddr)} {t t' : Tasks} {found : Option IpAddr}
    (run : FirstPing modes missing results pings t found t') (hp : PingsOf pings t) :
    (∀ ip, found = some ip → ip ∈ t'.ipAddrs) ∧
    (found = none → t'.ok = t.ok ++ results.filterMap Except.toOption) ∧
    ∀ r ∈ t'.ok, r ∈ t.ok ∨ Except.ok r ∈ results := by
  induction run with
  | done h => exact ⟨fun ip hip => (by cases hip), fun _ => (List.append_nil _).symm, fun r hr => .inl hr⟩
  | @reached results pings pings' t ips ip traces h =>
    refine ⟨fun ip' hip => ?_, fun hnone => (by cases hnone), fun r hr => .inl hr⟩
    obtain rfl := Option.some.inj hip
    exact hp ips (by simp) ip (mem_of_multiModePingFastest h)
  | @unreached results pings pings' t ips found t' traces h rest ih =>
    apply ih
    intro ips' hips'
    apply hp ips'
    rcases List.mem_append.mp hips' with hips' | hips'
    · exact List.mem_append_left _ hips'
    · exact List.mem_append_right _ (List.mem_cons_of_mem _ hips')
  | @answered r results pings t found t' rest ih =>
    obtain ⟨h1, h2, h3⟩ := ih (hp.push r)
    rw [Tasks.ok_push] at h2 h3
    refine ⟨h1, fun hnone => ?_, fun r' hr' => ?_⟩
    · rw [h2 hnone, List.append_assoc]
      rfl
    · rcases h3 r' hr' with hr' | hr'
      · rcases List.mem_append.mp hr' with hr' | hr'
        · exact .inl hr'
        · obtain rfl := List.mem_singleton.mp hr'
          exact .inr List.mem_cons_self
      · exact .inr (List.mem_cons_of_mem _ hr')
  | @failed e results pings t found t' rest ih =>
    obtain ⟨h1, h2, h3⟩ := ih hp
    exact ⟨h1, h2, fun r hr => (h3 r hr).imp_right (List.mem_cons_of_mem _)⟩

theorem Selects.mem {t : Tasks} {found selected : Option IpAddr} (h : Selects t found selected)
    (hfound : ∀ ip, found = some ip → ip ∈ t.ipAddrs) (hne : t.ipAddrs ≠ []) :
    ∃ ip, selected = some ip ∧ ip ∈ t.ipAddrs := by
  cases found with
  | some ip => exact ⟨ip, h, hfound ip rfl⟩
  | none =>
    cases selected with
    | some ip => exact ⟨ip, rfl, h.1⟩
    | none => exact absurd h hne

/-- A selected address decides which response is taken. -/
theorem finish_eq_keepSelected {t : Tasks} {ip : IpAddr} (h : ip ∈ t.ipAddrs) :
    ∃ r ∈ t.ok, ip ∈ r.ipAddrs ∧ finish (some ip) t = .ok (keepSelected ip r) := by
  obtain ⟨r, hr, hip⟩ := List.mem_flatMap.mp h
  obtain ⟨x, hx, hxip⟩ := List.mem_filterMap.mp hip
  have hfind : (t.ok.find? fun r => r.message.answers.any fun x => x.data.ipAddr = some ip).isSome = true :=
    List.find?_isSome.mpr ⟨r, hr, List.any_eq_true.mpr ⟨x, hx, decide_eq_true hxip⟩⟩
  obtain ⟨r', hr'⟩ := Option.isSome_iff_exists.mp hfind
  have hany := List.find?_some hr'
  obtain ⟨x', hx', hx'ip⟩ := List.any_eq_true.mp hany
  refine ⟨r', List.mem_of_find?_eq_some hr', List.mem_filterMap.mpr ⟨x', hx', of_decide_eq_true hx'ip⟩, ?_⟩
  simp only [finish, takeSelected, hr', Option.bind_some, Option.map_some]

/-- A selected address is in the response. -/
theorem finish_of_mem {t : Tasks} {ip : IpAddr} (h : ip ∈ t.ipAddrs) :
    ∃ r, finish (some ip) t = .ok r ∧ ip ∈ r.ipAddrs := by
  obtain ⟨r, -, hip, hfinish⟩ := finish_eq_keepSelected h
  obtain ⟨x, hx, hxip⟩ := List.mem_filterMap.mp hip
  refine ⟨_, hfinish, List.mem_filterMap.mpr ⟨x, List.mem_filter.mpr ⟨hx, ?_⟩, hxip⟩⟩
  simp [hxip]

/-- The response has an address of the asked type. -/
def HasAddress (o : LookupIpOptions) (r : DnsResponse) : Prop := ∃ ip ∈ r.ipAddrs, ip.recordType = o.recordType

/-- All addresses of the response are of the asked type. -/
def OnlyAsked (o : LookupIpOptions) (r : DnsResponse) : Prop := ∀ ip ∈ r.ipAddrs, ip.recordType = o.recordType

/-- With an address among the tasks the response has one, of a response that came. -/
theorem finish_keeps {o : LookupIpOptions} {t : Tasks} {found selected : Option IpAddr} {results : List LookupResult}
    (hsel : Selects t found selected) (hfound : ∀ ip, found = some ip → ip ∈ t.ipAddrs)
    (hoks : ∀ r ∈ t.ok, Except.ok r ∈ results) (hne : t.ipAddrs ≠ []) :
    ∃ r, finish selected t = .ok r ∧ r.ipAddrs ≠ [] ∧
      ((∀ r, Except.ok r ∈ results → OnlyAsked o r) → HasAddress o r) := by
  obtain ⟨ip, rfl, hip⟩ := hsel.mem hfound hne
  obtain ⟨r, hr, hipr⟩ := finish_of_mem hip
  obtain ⟨r', hr', hip'⟩ := List.mem_flatMap.mp hip
  exact ⟨r, hr, List.ne_nil_of_mem hipr, fun honly => ⟨ip, hipr, honly r' (hoks r' hr') ip hip'⟩⟩

theorem ipAddrs_ne_nil {t : Tasks} {r : DnsResponse} (hr : r ∈ t.ok) (hne : r.ipAddrs ≠ []) : t.ipAddrs ≠ [] := by
  obtain ⟨ip, hip⟩ := List.exists_mem_of_ne_nil _ hne
  exact List.ne_nil_of_mem (List.mem_flatMap.mpr ⟨r, hr, hip⟩)

/-- First-ping waits for every response, unless an address is reached. -/
theorem firstPing_keeps {now : ℤ} {name : Name} {o : LookupIpOptions} {a : Arrivals} {out : LookupResult}
    (hs : o.strategy = .FirstPing) (h : Strategised now name o a out)
    (hr : ∃ r, Except.ok r ∈ a.results now name o ∧ r.ipAddrs ≠ []) :
    ∃ r, out = .ok r ∧ r.ipAddrs ≠ [] ∧
      ((∀ r, Except.ok r ∈ a.results now name o → OnlyAsked o r) → HasAddress o r) := by
  rw [Strategised, hs] at h
  obtain ⟨found, t, selected, run, hsel, rfl⟩ := h
  obtain ⟨r, hr, hne⟩ := hr
  obtain ⟨hfound, hall, hoks⟩ := run.found fun ips hips => by cases hips
  refine finish_keeps hsel hfound (fun r hr => (hoks r hr).resolve_left List.not_mem_nil) ?_
  cases found with
  | some ip => exact List.ne_nil_of_mem (hfound ip rfl)
  | none =>
    refine ipAddrs_ne_nil ?_ hne
    rw [hall rfl]
    exact List.mem_append_right _ (mem_oks.mpr hr)

/-- Fastest-ip looks at the responses of the first 800 ms. -/
theorem fastestIp_keeps {now : ℤ} {name : Name} {o : LookupIpOptions} {a : Arrivals} {out : LookupResult}
    (hs : o.strategy = .FastestIp) (h : Strategised now name o a out)
    (hr : ∃ r, Except.ok r ∈ filtered now name o a.early ∧ r.ipAddrs ≠ []) :
    ∃ r, out = .ok r ∧ r.ipAddrs ≠ [] ∧
      ((∀ r, Except.ok r ∈ filtered now name o a.early → OnlyAsked o r) → HasAddress o r) := by
  rw [Strategised, hs] at h
  obtain ⟨keys, traces, selected, hkeys, hsel, rfl⟩ := h
  obtain ⟨r, hr, hne⟩ := hr
  have hok := Tasks.ok_pushAll (filtered now name o a.early) {}
  refine finish_keeps hsel (fun ip hip => ?_) (fun r hr => ?_) (ipAddrs_ne_nil ?_ hne)
  · exact List.mem_dedup.mp (hkeys.mem_iff.mp (mem_of_multiModePingFastest hip))
  · rw [hok] at hr
    exact mem_oks.mp hr
  · rw [hok]
    exact mem_oks.mpr hr

/-- Fastest-response takes the first NOERROR response with an answer. -/
theorem fastestResponse_first {now : ℤ} {name : Name} {o : LookupIpOptions} {a : Arrivals} {out : LookupResult}
    (hs : o.strategy = .FastestResponse) (h : Strategised now name o a out)
    (hr : ∃ r, Except.ok r ∈ a.results now name o ∧ r.message.responseCode = .noError ∧ HasAddress o r) :
    ∃ r, (a.results now name o).find? hasAnswer = some (.ok r) ∧ out = .ok r := by
  obtain ⟨r, hr, hcode, ip, hip, -⟩ := hr
  have hans : hasAnswer (.ok r) = true := by
    obtain ⟨x, hx, -⟩ := List.mem_filterMap.mp hip
    simp [hasAnswer, hcode, List.ne_nil_of_mem hx]
  obtain ⟨res, hres⟩ := Option.isSome_iff_exists.mp (List.find?_isSome.mpr ⟨_, hr, hans⟩)
  have hfirst := List.find?_some hres
  rw [Strategised, hs] at h
  simp only [hres] at h
  cases res with
  | ok r => exact ⟨r, hres, h⟩
  | error e => cases hfirst

/-- With a response, there are servers and addresses are asked for. -/
theorem LookupIpWith.strategised {now : ℤ} {name : Name} {o : LookupIpOptions} {a : Arrivals} {out : LookupResult}
    (h : LookupIpWith now name o a out) {r : DnsResponse} (hr : Except.ok r ∈ a.results now name o) :
    Strategised now name o a out := by
  obtain ⟨⟨ns, res⟩, hmem, heq⟩ := List.mem_map.mp hr
  have hask : o.recordType.isIpAddr = true := by
    by_contra hask
    have heq : perNameserverLookupIp now name o ns res = .ok r := heq
    unfold perNameserverLookupIp at heq
    rw [if_pos (by simpa using hask)] at heq
    cases heq
  have hservers : a.servers ≠ 0 := by
    have hlen := List.length_pos_of_mem hmem
    rw [List.length_append] at hlen
    unfold Arrivals.servers
    omega
  rwa [LookupIpWith, if_neg (by simp [hask, hservers])] at h

theorem mem_results_of_early {now : ℤ} {name : Name} {o : LookupIpOptions} {a : Arrivals} {res : LookupResult}
    (h : res ∈ filtered now name o a.early) : res ∈ a.results now name o := by
  rw [Arrivals.results, filtered, List.map_append]
  exact List.mem_append_left _ h

/-- **No address is lost to an empty response**: first-ping and fastest-ip give one if a response that
they wait for has one, of the asked type where those responses have no other. Fastest-response gives the
first NOERROR response with an answer, whatever the answer. -/
theorem addresses_are_kept {now : ℤ} {name : Name} {o : LookupIpOptions} {a : Arrivals} {out : LookupResult}
    (h : LookupIpWith now name o a out) :
    (o.strategy = .FirstPing → (∃ r, Except.ok r ∈ a.results now name o ∧ r.ipAddrs ≠ []) →
      ∃ r, out = .ok r ∧ r.ipAddrs ≠ [] ∧
        ((∀ r, Except.ok r ∈ a.results now name o → OnlyAsked o r) → HasAddress o r)) ∧
    (o.strategy = .FastestIp → (∃ r, Except.ok r ∈ filtered now name o a.early ∧ r.ipAddrs ≠ []) →
      ∃ r, out = .ok r ∧ r.ipAddrs ≠ [] ∧
        ((∀ r, Except.ok r ∈ filtered now name o a.early → OnlyAsked o r) → HasAddress o r)) ∧
    (o.strategy = .FastestResponse →
      (∃ r, Except.ok r ∈ a.results now name o ∧ r.message.responseCode = .noError ∧ HasAddress o r) →
      ∃ r, (a.results now name o).find? hasAnswer = some (.ok r) ∧ out = .ok r) := by
  refine ⟨fun hs hr => ?_, fun hs hr => ?_, fun hs hr => ?_⟩
  · exact firstPing_keeps hs (h.strategised hr.choose_spec.1) hr
  · exact fastestIp_keeps hs (h.strategised (mem_results_of_early hr.choose_spec.1)) hr
  · exact fastestResponse_first hs (h.strategised hr.choose_spec.1) hr

/-! ### An alias before an address -/

/-- Addresses of the root, without filters; no speed check where `noSpeedCheck`. -/
def rootOptions (noSpeedCheck : Bool) : LookupIpOptions where
  responseStrategy := .FirstPing
  speedCheckMode := defaultSpeedCheckMode
  noSpeedCheck
  recordType := .A

def answerWith (answers : List Record) : DnsResponse where
  message := { queries := [default], answers }
  validUntil := 0

/-- The alias of the root. -/
def aliasOnly : DnsResponse := answerWith [⟨Name.root, .IN, 60, .other .CNAME [0]⟩]

def withAddress : DnsResponse := answerWith [⟨Name.root, .IN, 60, .ofIpAddr (.v4 0xc0000201#32)⟩]

/-- Of two servers, one answers with an alias before the other with an address. -/
def aliasFirst : Arrivals where
  early := [(⟨false, false⟩, .ok aliasOnly), (⟨false, false⟩, .ok withAddress)]
  late := []
  missing := 0

theorem withAddress_hasAddress (noSpeedCheck : Bool) : HasAddress (rootOptions noSpeedCheck) withAddress :=
  ⟨.v4 0xc0000201#32, by decide +kernel, rfl⟩

theorem results_aliasFirst (noSpeedCheck : Bool) :
    aliasFirst.results 0 Name.root (rootOptions noSpeedCheck) = [.ok aliasOnly, .ok withAddress] := rfl

/-- Without a speed check the alias is the response. -/
theorem alias_beats_address : ¬ ∀ (now : ℤ) (name : Name) (o : LookupIpOptions) (a : Arrivals) (out : LookupResult),
    LookupIpWith now name o a out →
    (∃ r, Except.ok r ∈ a.results now name o ∧ r.message.responseCode = .noError ∧ HasAddress o r) →
    ∃ r, out = .ok r ∧ HasAddress o r := by
  intro h
  obtain ⟨r, hr, ip, hip, -⟩ := h 0 Name.root (rootOptions true) aliasFirst (.ok aliasOnly) rfl
    ⟨withAddress, by simp [results_aliasFirst], rfl, withAddress_hasAddress true⟩
  obtain rfl := Except.ok.inj hr
  cases hip

/-- All pings of the first mode are back after a millisecond. -/
def reachedTrace : ℕ → PingTrace :=
  fun _ => { events := List.replicate 3 (.v4 0xc0000201#32, some (fromMillis 1)), deadline := false }

/-- With the speed check the address is. -/
theorem lookup_aliasFirst : LookupIpWith 0 Name.root (rootOptions false) aliasFirst (.ok withAddress) := by
  refine ⟨some (.v4 0xc0000201#32), { ok := [aliasOnly, withAddress] }, some (.v4 0xc0000201#32), ?_, rfl, ?_⟩
  · rw [results_aliasFirst]
    refine .answered (.answered ?_)
    exact @FirstPing.reached _ _ _ [] _ _ _ _ reachedTrace (by decide +kernel)
  · rfl

theorem addresses_are_kept_aliasFirst : ∃ r, (Except.ok withAddress : LookupResult) = .ok r ∧ r.ipAddrs ≠ [] ∧
    ((∀ r, Except.ok r ∈ aliasFirst.results 0 Name.root (rootOptions false) → OnlyAsked (rootOptions false) r) →
      HasAddress (rootOptions false) r) :=
  (addresses_are_kept lookup_aliasFirst).1 rfl ⟨withAddress, by simp [results_aliasFirst], by decide +kernel⟩

end Upstream
end SmartDns
