/-
# How long a client may keep a reply

`rr-ttl-reply-max` is applied by the address middleware to what it answers and to what
comes up through it. What is made further up keeps its own TTL: local data, the answer for
`ipv4only.arpa`, the record of an alias, AAAA records made of local A records, and the SOA
record of a negative answer made from an error. A reply keeps within the maximum exactly
where the TTL of whichever of these is in it does (`reply_ttl_iff`).

Key definitions: `outsideTtl`, `ChainWithin`, `ErrorWithin`, `ReplyWithin`.
Key theorem: `reply_ttl_iff`.
-/
import SmartDns.Server.Chain
import SmartDns.Server.Refresh

namespace SmartDns
namespace Server

open Dns

/-! ### Responses of one TTL -/

/-- The records that are sent: all of them, or the answers only. -/
def sections (all : Bool) (r : DnsResponse) : List Record := if all then r.message.records else r.message.answers

/-- No record that is sent outlives the maximum. -/
def Bounded (all : Bool) (m : ℕ) (r : DnsResponse) : Prop := ∀ x ∈ sections all r, x.ttl ≤ m

/-- Something is sent of a response that is not empty. -/
def Sent (all : Bool) (r : DnsResponse) : Prop := all = true ∨ r.message.answers ≠ []

/-- Some records, all of one TTL; beside answers there is nothing. -/
structure Uniform (t : ℕ) (r : DnsResponse) : Prop where
  nonempty : r.message.records ≠ []
  ttl : ∀ x ∈ r.message.records, x.ttl = t
  alone : r.message.answers ≠ [] → r.message.authorities = [] ∧ r.message.additionals = []

/-- Made outside the address middleware with one TTL, or within the maximum. -/
def Made (m : ℕ) (outside : Option ℕ) (r : DnsResponse) : Prop :=
  match outside with
  | some t => Uniform t r
  | none => Bounded true m r

section

variable {all : Bool} {m t : ℕ} {outside : Option ℕ} {r : DnsResponse}

theorem mem_records {x : Record} : x ∈ r.message.records ↔
    x ∈ r.message.answers ∨ x ∈ r.message.authorities ∨ x ∈ r.message.additionals := by
  simp [Message.records]

theorem mem_records_of_mem_sections {x : Record} (h : x ∈ sections all r) : x ∈ r.message.records := by
  cases all with
  | true => exact h
  | false => exact mem_records.mpr (.inl h)

theorem Uniform.bounded_iff (h : Uniform t r) : Bounded all m r ↔ (Sent all r → t ≤ m) := by
  constructor
  · intro hb hsent
    have hne : sections all r ≠ [] := by
      cases all with
      | true => exact h.nonempty
      | false => exact hsent.resolve_left Bool.false_ne_true
    obtain ⟨x, hx⟩ := List.exists_mem_of_ne_nil _ hne
    exact h.ttl x (mem_records_of_mem_sections hx) ▸ hb x hx
  · intro ht x hx
    rw [h.ttl x (mem_records_of_mem_sections hx)]
    apply ht
    cases all with
    | true => exact .inl rfl
    | false => exact .inr (List.ne_nil_of_mem hx)

/-- **The maximum is kept exactly where what is made outside, and sent, keeps it.** -/
theorem Made.bounded_iff (h : Made m outside r) : Bounded all m r ↔ ∀ t ∈ outside, Sent all r → t ≤ m := by
  cases outside with
  | none => exact iff_of_true (fun x hx => h x (mem_records_of_mem_sections hx)) (by simp)
  | some t => simpa using Uniform.bounded_iff h

/-- New answers, where there were some, of the TTLs the old ones had. -/
theorem Made.withAnswers (h : Made m outside r) {queries : List Query} {answers : List Record}
    (hmem : ∀ x ∈ answers, ∃ y ∈ r.message.answers, x.ttl = y.ttl) (hne : r.message.answers ≠ [] → answers ≠ []) :
    Made m outside { r with message := { r.message with queries, answers } } := by
  -- each record has the TTL of one that was there
  have old {x : Record} (hx : x ∈ ({ r.message with queries, answers } : Message).records) :
      ∃ y ∈ r.message.records, x.ttl = y.ttl := by
    rw [Message.records, List.append_assoc, List.mem_append] at hx
    rcases hx with hx | hx
    · obtain ⟨y, hy, hxy⟩ := hmem x hx
      exact ⟨y, mem_records.mpr (.inl hy), hxy⟩
    · exact ⟨x, by rw [Message.records, List.append_assoc]; exact List.mem_append_right _ hx, rfl⟩
  cases outside with
  | none =>
    intro x hx
    obtain ⟨y, hy, hxy⟩ := old hx
    exact hxy ▸ h y hy
  | some t =>
    have hu : Uniform t r := h
    refine ⟨fun hnil => ?_, fun x hx => ?_, fun hans => hu.alone fun hnil => ?_⟩
    · have hnil : (answers ++ r.message.authorities) ++ r.message.additionals = [] := hnil
      rw [List.append_eq_nil_iff, List.append_eq_nil_iff] at hnil
      obtain ⟨⟨hanswers, hauth⟩, hadd⟩ := hnil
      have hold : r.message.answers = [] := by
        by_contra hold
        exact hne hold hanswers
      exact hu.nonempty (by rw [Message.records, hold, hauth, hadd]; rfl)
    · obtain ⟨y, hy, hxy⟩ := old hx
      exact hxy.trans (hu.ttl y hy)
    · obtain ⟨x, hx⟩ := List.exists_mem_of_ne_nil _ hans
      obtain ⟨y, hy, -⟩ := hmem x hx
      rw [hnil] at hy
      cases hy

theorem Made.mapAnswers (h : Made m outside r) {queries : List Query} {f : Record → Record}
    (hf : ∀ x, (f x).ttl = x.ttl) :
    Made m outside { r with message := { r.message with queries, answers := r.message.answers.map f } } := by
  refine h.withAnswers (fun x hx => ?_) fun hne hnil => hne (List.map_eq_nil_iff.mp hnil)
  obtain ⟨y, hy, rfl⟩ := List.mem_map.mp hx
  exact ⟨y, hy, hf y⟩

end

/-! ### Answers without aliases -/

section

variable {m t : ℕ} {outside : Option ℕ} {r : DnsResponse} {query : Query}

theorem realMinTtl_mem (hne : r.message.answers ≠ []) : ∃ y ∈ r.message.answers, realMinTtl r = y.ttl := by
  cases hmin : (r.message.answers.map (·.ttl)).min? with
  | none =>
    rw [List.min?_eq_none_iff, List.map_eq_nil_iff] at hmin
    exact absurd hmin hne
  | some t =>
    obtain ⟨y, hy, hyt⟩ := List.mem_map.mp (List.min?_mem hmin)
    exact ⟨y, hy, by rw [realMinTtl, hmin, Option.getD_some, ← hyt]⟩

theorem realMinTtl_le {x : Record} (hx : x ∈ r.message.answers) : realMinTtl r ≤ x.ttl := by
  cases hmin : (r.message.answers.map (·.ttl)).min? with
  | none =>
    rw [List.min?_eq_none_iff, List.map_eq_nil_iff] at hmin
    rw [hmin] at hx
    cases hx
  | some t =>
    rw [realMinTtl, hmin, Option.getD_some]
    exact (List.min?_eq_some_iff.mp hmin).2 x.ttl (List.mem_map_of_mem hx)

theorem Made.flattenCname (h : Made m outside r) : Made m outside (flattenCname query r) := by
  unfold Server.flattenCname
  split
  · rename_i hcase
    obtain ⟨x, hx, htarget⟩ := List.any_eq_true.mp (Bool.and_eq_true_iff.mp hcase).2
    have hfiltered : x ∈ r.message.answers.filter (isTarget query.queryType) := List.mem_filter.mpr ⟨hx, htarget⟩
    refine h.withAnswers (fun z hz => ?_) fun _ hnil => ?_
    · obtain ⟨y, -, rfl⟩ := List.mem_map.mp hz
      exact realMinTtl_mem (List.ne_nil_of_mem hx)
    · rw [List.map_eq_nil_iff] at hnil
      rw [hnil] at hfiltered
      cases hfiltered
  · exact h

theorem flattenCname_answers_eq_nil : (Server.flattenCname query r).message.answers = [] ↔ r.message.answers = [] := by
  unfold Server.flattenCname
  split
  · rename_i hcase
    obtain ⟨x, hx, htarget⟩ := List.any_eq_true.mp (Bool.and_eq_true_iff.mp hcase).2
    refine iff_of_false (fun hnil => ?_) (List.ne_nil_of_mem hx)
    have hfiltered : x ∈ r.message.answers.filter (isTarget query.queryType) := List.mem_filter.mpr ⟨hx, htarget⟩
    rw [List.map_eq_nil_iff.mp hnil] at hfiltered
    cases hfiltered
  · rfl

/-- Something is left of the answers. -/
theorem stripCname_answers_eq_nil : (Server.stripCname query r).message.answers = [] ↔ r.message.answers = [] := by
  rw [stripCname_eq]
  split
  · rfl
  split
  · exact flattenCname_answers_eq_nil
  split
  · rfl
  · rename_i hany _ hempty
    refine iff_of_false (fun hnil => hempty (List.isEmpty_iff.mpr hnil)) fun hnil => hany ?_
    rw [hnil]
    rfl

theorem Made.stripCname (h : Made m outside r) : Made m outside (stripCname query r) := by
  rw [stripCname_eq]
  split
  · exact h
  split
  · exact h.flattenCname
  split
  · exact h
  · rename_i hempty
    refine h.withAnswers (fun x hx => ⟨x, (List.mem_filter.mp hx).1, rfl⟩) fun _ hnil => hempty ?_
    rw [hnil]
    rfl

end

/-! ### What is made outside -/

section

variable {S : Type} (cfg : RuntimeConfig) (arp : ArpTable) (now : ℤ) (serial : ℕ) (next : Next S) (ctx : ChainContext)
  (req : DnsRequest)

/-- The TTL of the local data that answers the request, if it does. -/
def localDataTtl : Option ℕ := (localAnswer cfg now serial arp ctx req).map fun p => p.1.ttl cfg ctx

/-- The request that is answered: that for A records, where AAAA records are made of them. -/
def answeredRequest (s : S) : DnsRequest :=
  let below : Next S := localMiddleware cfg now serial arp (addressMiddleware cfg now serial next)
  match fallback cfg ctx req (below ctx req s).1 with
  | some (_, aReq) =>
    match (below ctx aReq (below ctx req s).2).1 with
    | .ok _ => aReq
    | .error _ => req
  | none => req

/-- The TTL of what DNS64 and the middlewares between it and the address rules put into the answer. -/
def outsideTtl (s : S) : Option ℕ :=
  match dns64Answer cfg now ctx req with
  | some lookup => if lookup.message.answers.isEmpty then none else some (asU32 (ctx.localTtl cfg).toNat)
  | none => localDataTtl cfg arp now serial ctx (answeredRequest cfg arp now serial next ctx req s)

end

section

variable {S : Type} {cfg : RuntimeConfig} {arp : ArpTable} {now : ℤ} {serial : ℕ} {next : Next S} {ctx : ChainContext}
  {req : DnsRequest} {s : S} {r : DnsResponse} {replyMax : UInt64}

theorem answers_alone_of_localAnswer {source : LocalSource} (h : localAnswer cfg now serial arp ctx req = some (source, r))
    (hne : r.message.answers ≠ []) : r.message.authorities = [] ∧ r.message.additionals = [] := by
  rcases orElse_eq_some h with h | h
  · obtain ⟨l, hl, hp⟩ := Option.map_eq_some_iff.mp h
    obtain ⟨rfl, rfl⟩ := Prod.mk.inj hp
    unfold hostsAnswer at hl
    dsimp only at hl
    split at hl
    · obtain ⟨x, -, rfl⟩ := Option.map_eq_some_iff.mp hl
      exact ⟨rfl, rfl⟩
    · cases hl
  rcases orElse_eq_some h with h | h
  · obtain ⟨l, hl, hp⟩ := Option.map_eq_some_iff.mp h
    obtain ⟨rfl, rfl⟩ := Prod.mk.inj hp
    obtain ⟨rdatas, -, rfl⟩ := Option.map_eq_some_iff.mp hl
    cases rdatas with
    | nil => exact absurd rfl hne
    | cons d ds => exact ⟨rfl, rfl⟩
  rcases orElse_eq_some h with h | h
  · obtain ⟨ptr, -, hp⟩ := Option.map_eq_some_iff.mp h
    obtain ⟨rfl, rfl⟩ := Prod.mk.inj hp
    cases ptr with
    | ownName => exact ⟨rfl, rfl⟩
    | privateAddress => exact absurd rfl hne
  rcases orElse_eq_some h with h | h
  · obtain ⟨q, -, hp⟩ := Option.map_eq_some_iff.mp h
    obtain ⟨rfl, rfl⟩ := Prod.mk.inj hp
    exact ⟨rfl, rfl⟩
  · obtain ⟨data, -, hp⟩ := Option.map_eq_some_iff.mp h
    obtain ⟨rfl, rfl⟩ := Prod.mk.inj hp
    exact ⟨rfl, rfl⟩

theorem asU32_le (n : ℕ) : asU32 n ≤ n := Nat.mod_le n _

/-- Below DNS64: local data has its own TTL, all else is within the maximum. -/
theorem made_below (hmax : ctx.rrTtlReplyMax cfg = some replyMax)
    (h : (localMiddleware cfg now serial arp (addressMiddleware cfg now serial next) ctx req s).1 = .ok r) :
    Made replyMax.toNat (localDataTtl cfg arp now serial ctx req) r := by
  unfold localMiddleware at h
  unfold localDataTtl
  cases hl : localAnswer cfg now serial arp ctx req with
  | some p =>
    rw [hl] at h
    obtain rfl := Except.ok.inj h
    have hone := records_of_localAnswer hl
    exact ⟨hone.nonempty, hone.ttl, answers_alone_of_localAnswer hl⟩
  | none =>
    rw [hl] at h
    cases ha : addressMiddleware cfg now serial next ctx req s with
    | mk res s' =>
      cases res with
      | error e =>
        simp only [ha] at h
        cases h
      | ok inner =>
        simp only [ha] at h
        obtain rfl := Except.ok.inj h
        have hinner : Made replyMax.toNat none inner := fun x hx =>
          (ttl_le_of_addressMiddleware hmax ha x hx).trans (asU32_le _)
        obtain ⟨f, hf, heq⟩ := @hintsFiltered_eq cfg ctx req inner
        rw [heq]
        exact hinner.mapAnswers hf

theorem synthesized_ttl (net : Ipv6Net) (x : Record) : (synthesized net x).ttl = x.ttl := by
  unfold synthesized
  split
  · split <;> rfl
  · rfl

theorem made_ipv4onlyResponse (m : ℕ) (query : Query) (addrs : List IpAddr) :
    Made m (if (ipv4onlyResponse cfg now ctx query addrs).message.answers.isEmpty then none
      else some (asU32 (ctx.localTtl cfg).toNat)) (ipv4onlyResponse cfg now ctx query addrs) := by
  cases addrs with
  | nil =>
    intro x hx
    cases hx
  | cons ip ips =>
    refine ⟨nofun, fun x hx => ?_, fun _ => ⟨rfl, rfl⟩⟩
    rcases mem_records.mp hx with hx | hx | hx
    · obtain ⟨ip', -, rfl⟩ := List.mem_map.mp hx
      rfl
    · cases hx
    · cases hx

theorem made_dns64Answer (m : ℕ) (h : dns64Answer cfg now ctx req = some r) :
    Made m (if r.message.answers.isEmpty then none else some (asU32 (ctx.localTtl cfg).toNat)) r := by
  obtain ⟨net, -, ha⟩ := Option.bind_eq_some_iff.mp h
  unfold ipv4onlyAnswer at ha
  split at ha
  · split at ha
    · obtain rfl := Option.some.inj ha
      exact made_ipv4onlyResponse m _ _
    · obtain rfl := Option.some.inj ha
      exact made_ipv4onlyResponse m _ _
    · cases ha
  · cases ha

/-- From DNS64 down. -/
theorem made_fromDns64 (hmax : ctx.rrTtlReplyMax cfg = some replyMax)
    (h : (fromDns64 cfg arp now serial next ctx req s).1 = .ok r) :
    Made replyMax.toNat (outsideTtl cfg arp now serial next ctx req s) r := by
  unfold fromDns64 at h
  unfold outsideTtl
  cases ha : dns64Answer cfg now ctx req with
  | some lookup =>
    rw [dns64Middleware_of_answer ha] at h
    obtain rfl := Except.ok.inj h
    exact made_dns64Answer _ ha
  | none =>
    unfold answeredRequest
    dsimp only
    cases hf : fallback cfg ctx req
        (localMiddleware cfg now serial arp (addressMiddleware cfg now serial next) ctx req s).1 with
    | none =>
      rw [dns64Middleware_of_none ha hf] at h
      exact made_below hmax h
    | some p =>
      obtain ⟨net, aReq⟩ := p
      rw [dns64Middleware_of_fallback ha hf] at h
      dsimp only at h ⊢
      cases hA : (localMiddleware cfg now serial arp (addressMiddleware cfg now serial next) ctx aReq
          (localMiddleware cfg now serial arp (addressMiddleware cfg now serial next) ctx req s).2).1 with
      | error e =>
        rw [hA] at h
        exact made_below hmax h
      | ok lookup =>
        rw [hA] at h
        obtain rfl := Except.ok.inj h
        exact (made_below hmax hA).mapAnswers (synthesized_ttl net)


theorem bounded_stripped {all : Bool} {m : ℕ} {outside : Option ℕ} {query : Query} (b : Bool) (h : Made m outside r) :
    Bounded all m (if b then stripCname query r else r) ↔ ∀ t ∈ outside, Sent all r → t ≤ m := by
  split
  · rw [h.stripCname.bounded_iff]
    unfold Sent
    rw [ne_eq, stripCname_answers_eq_nil]
  · exact h.bounded_iff

end

/-! ### The record of an alias -/

section

variable (cfg : RuntimeConfig) (ctx : ChainContext) (req : DnsRequest)

/-- The TTL of the record of an alias. -/
def aliasTtl : ℕ := asU32 (ctx.localTtl cfg).toNat

/-- What comes for the name of the alias is something to show without the alias. -/
def standsAlone (queryType : RecordType) (r : DnsResponse) : Bool :=
  r.message.answers.any fun x => if queryType.isIpAddr then isTarget queryType x else !isTarget .CNAME x

/-- The condition on a response that an alias is put before. -/
def AliasWithin (all : Bool) (m : ℕ) (outside : Option ℕ) (r : DnsResponse) : Prop :=
  if ctx.forceNoCname cfg && standsAlone req.query.queryType r then
    -- addresses get the least TTL of all answers, that of the alias among them
    if req.query.queryType.isIpAddr then ∀ t ∈ outside, min (aliasTtl cfg ctx) t ≤ m else ∀ t ∈ outside, t ≤ m
  else aliasTtl cfg ctx ≤ m ∧ ∀ t ∈ outside, Sent all r → t ≤ m

/-- `force-no-CNAME` takes the alias away, where something else remains. -/
def shownAlias (cname : Name) (r : DnsResponse) : DnsResponse :=
  if ctx.forceNoCname cfg then stripCname req.original (withCnameRecord cfg ctx req.original cname r)
  else withCnameRecord cfg ctx req.original cname r

end

section

variable {cfg : RuntimeConfig} {ctx : ChainContext} {req : DnsRequest} {r : DnsResponse} {all : Bool} {m t : ℕ}
  {outside : Option ℕ} {cname : Name}

theorem bounded_withCnameRecord {query : Query} :
    Bounded all m (withCnameRecord cfg ctx query cname r) ↔ aliasTtl cfg ctx ≤ m ∧ Bounded all m r := by
  have hsections : sections all (withCnameRecord cfg ctx query cname r) =
      cnameRecord cfg ctx query cname :: sections all r := by cases all <;> rfl
  rw [Bounded, hsections, List.forall_mem_cons]
  rfl

/-- With an alias before them the answers are stripped. -/
theorem stripCname_withCnameRecord : stripCname req.original (withCnameRecord cfg ctx req.original cname r) =
    if req.query.queryType.isIpAddr then flattenCname req.original (withCnameRecord cfg ctx req.original cname r)
    else if (r.message.answers.filter fun x => !isTarget .CNAME x).isEmpty then
      withCnameRecord cfg ctx req.original cname r
    else { r with message := { r.message with
      queries := [req.original]
      answers := r.message.answers.filter fun x => !isTarget .CNAME x } } := by
  have hany : (withCnameRecord cfg ctx req.original cname r).message.answers.any (isTarget .CNAME) = true :=
    List.any_eq_true.mpr ⟨_, List.mem_cons_self, rfl⟩
  rw [stripCname_eq]
  rw [hany, if_neg (by decide)]
  rfl

theorem stripCname_withCnameRecord_of_not_standsAlone (h : standsAlone req.query.queryType r = false) :
    stripCname req.original (withCnameRecord cfg ctx req.original cname r) =
      withCnameRecord cfg ctx req.original cname r := by
  rw [standsAlone, List.any_eq_false] at h
  rw [stripCname_withCnameRecord]
  by_cases hip : req.query.queryType.isIpAddr = true
  · have htarget : (withCnameRecord cfg ctx req.original cname r).message.answers.any (isTarget req.query.queryType) = false := by
      rw [List.any_eq_false]
      intro x hx
      rcases List.mem_cons.mp hx with rfl | hx
      · intro ht
        have ht : RecordType.CNAME = req.query.queryType := of_decide_eq_true ht
        rw [← ht] at hip
        cases hip
      · have hx := h x hx
        rwa [if_pos hip] at hx
    rw [if_pos hip]
    exact if_neg fun hcase => Bool.eq_false_iff.mp htarget (Bool.and_eq_true_iff.mp hcase).2
  · have hfilter : (r.message.answers.filter fun x => !isTarget .CNAME x) = [] := by
      rw [List.filter_eq_nil_iff]
      intro x hx
      have hx := h x hx
      rwa [if_neg hip] at hx
    rw [if_neg hip, hfilter]
    rfl

/-- The answers all have the least TTL, and there are some. -/
theorem bounded_flattenCname {query : Query} {whole : DnsResponse} {x : Record} (hip : query.queryType.isIpAddr = true)
    (hx : x ∈ whole.message.answers) (htarget : isTarget query.queryType x = true) :
    Bounded all m (flattenCname query whole) ↔ realMinTtl whole ≤ m ∧
      (all = true → ∀ y, y ∈ whole.message.authorities ∨ y ∈ whole.message.additionals → y.ttl ≤ m) := by
  have hany : whole.message.answers.any (isTarget query.queryType) = true := List.any_eq_true.mpr ⟨x, hx, htarget⟩
  have hflat : flattenCname query whole = { whole with message := { whole.message with
      answers := (whole.message.answers.filter (isTarget query.queryType)).map (ownedBy query.name (realMinTtl whole)) } } := by
    rw [flattenCname, hip, hany, Bool.and_true, if_pos rfl]
  have hmem : ownedBy query.name (realMinTtl whole) x ∈
      (whole.message.answers.filter (isTarget query.queryType)).map (ownedBy query.name (realMinTtl whole)) :=
    List.mem_map_of_mem (List.mem_filter.mpr ⟨hx, htarget⟩)
  rw [hflat]
  constructor
  · intro hb
    have hbx (hsent : ownedBy query.name (realMinTtl whole) x ∈ sections all _) := hb _ hsent
    cases all with
    | true => exact ⟨hbx (mem_records.mpr (.inl hmem)), fun _ y hy => hb y (mem_records.mpr (.inr hy))⟩
    | false => exact ⟨hbx hmem, nofun⟩
  · rintro ⟨hmin, hrest⟩ y hy
    have answer (hy : y ∈ (whole.message.answers.filter (isTarget query.queryType)).map
        (ownedBy query.name (realMinTtl whole))) : y.ttl ≤ m := by
      obtain ⟨z, -, rfl⟩ := List.mem_map.mp hy
      exact hmin
    cases all with
    | true => exact (mem_records.mp hy).elim answer (hrest rfl y)
    | false => exact answer hy

/-- The least TTL is the alias's or the one that all others have. -/
theorem realMinTtl_withCnameRecord {query : Query} (hne : r.message.answers ≠ [])
    (ht : ∀ x ∈ r.message.answers, x.ttl = t) :
    realMinTtl (withCnameRecord cfg ctx query cname r) = min (aliasTtl cfg ctx) t := by
  obtain ⟨x, hx⟩ := List.exists_mem_of_ne_nil _ hne
  set whole := withCnameRecord cfg ctx query cname r
  have hxw : x ∈ whole.message.answers := List.mem_cons_of_mem _ hx
  have hle : realMinTtl whole ≤ aliasTtl cfg ctx := realMinTtl_le (x := cnameRecord cfg ctx query cname) List.mem_cons_self
  have hlex : realMinTtl whole ≤ x.ttl := realMinTtl_le hxw
  have hxt := ht x hx
  obtain ⟨y, hy, hyt⟩ := realMinTtl_mem (List.ne_nil_of_mem hxw)
  rcases List.mem_cons.mp hy with rfl | hy
  · have hyt : realMinTtl whole = aliasTtl cfg ctx := hyt
    omega
  · have := ht y hy
    omega

/-- The addresses without their alias. -/
theorem bounded_flattened (h : Made m outside r) (hip : req.query.queryType.isIpAddr = true)
    (halone : standsAlone req.query.queryType r = true) :
    Bounded all m (stripCname req.original (withCnameRecord cfg ctx req.original cname r)) ↔
      ∀ t ∈ outside, min (aliasTtl cfg ctx) t ≤ m := by
  obtain ⟨x, hx, htarget⟩ := List.any_eq_true.mp halone
  rw [if_pos hip] at htarget
  have hxw : x ∈ (withCnameRecord cfg ctx req.original cname r).message.answers := List.mem_cons_of_mem _ hx
  have hip' : req.original.queryType.isIpAddr = true := hip
  rw [stripCname_withCnameRecord, if_pos hip, bounded_flattenCname hip' hxw htarget]
  cases outside with
  | none =>
    have hr : Bounded true m r := h
    have hlex : realMinTtl (withCnameRecord cfg ctx req.original cname r) ≤ x.ttl := realMinTtl_le hxw
    refine iff_of_true ⟨hlex.trans (hr x (mem_records.mpr (.inl hx))), fun _ y hy => hr y (mem_records.mpr (.inr hy))⟩ ?_
    simp
  | some t =>
    have hu : Uniform t r := h
    have hne := List.ne_nil_of_mem hx
    obtain ⟨hauth, hadd⟩ := hu.alone hne
    have hmin : realMinTtl (withCnameRecord cfg ctx req.original cname r) = min (aliasTtl cfg ctx) t :=
      realMinTtl_withCnameRecord hne fun y hy => hu.ttl y (mem_records.mpr (.inl hy))
    rw [hmin]
    show _ ∧ (_ → ∀ y, y ∈ r.message.authorities ∨ y ∈ r.message.additionals → _) ↔ _
    rw [hauth, hadd]
    simp

/-- The other answers without their alias. -/
theorem bounded_filtered (h : Made m outside r) (hip : ¬ req.query.queryType.isIpAddr = true)
    (halone : standsAlone req.query.queryType r = true) :
    Bounded all m (stripCname req.original (withCnameRecord cfg ctx req.original cname r)) ↔ ∀ t ∈ outside, t ≤ m := by
  obtain ⟨x, hx, htarget⟩ := List.any_eq_true.mp halone
  rw [if_neg hip] at htarget
  have hne : (r.message.answers.filter fun y => !isTarget .CNAME y).isEmpty = false :=
    List.isEmpty_eq_false_iff.mpr (List.ne_nil_of_mem (List.mem_filter.mpr ⟨hx, htarget⟩))
  rw [stripCname_withCnameRecord, if_neg hip, hne, if_neg Bool.false_ne_true]
  have hanswers : (r.message.answers.filter fun y => !isTarget .CNAME y) ≠ [] :=
    List.ne_nil_of_mem (List.mem_filter.mpr ⟨hx, htarget⟩)
  refine (Made.bounded_iff (h.withAnswers (fun y hy => ⟨y, (List.mem_filter.mp hy).1, rfl⟩) fun _ => hanswers)).trans ?_
  exact ⟨fun hw t ht => hw t ht (.inr hanswers), fun hw t ht _ => hw t ht⟩

/-- **What an alias makes of the maximum.** -/
theorem bounded_shownAlias (h : Made m outside r) :
    Bounded all m (shownAlias cfg ctx req cname r) ↔ AliasWithin cfg ctx req all m outside r := by
  unfold shownAlias AliasWithin
  by_cases hforce : ctx.forceNoCname cfg = true
  · rw [hforce, Bool.true_and, if_pos rfl]
    cases halone : standsAlone req.query.queryType r with
    | false =>
      rw [stripCname_withCnameRecord_of_not_standsAlone halone, if_neg Bool.false_ne_true, bounded_withCnameRecord,
        h.bounded_iff]
    | true =>
      rw [if_pos rfl]
      by_cases hip : req.query.queryType.isIpAddr = true
      · rw [if_pos hip]
        exact bounded_flattened h hip halone
      · rw [if_neg hip]
        exact bounded_filtered h hip halone
  · rw [if_neg hforce, Bool.eq_false_iff.mpr hforce, Bool.false_and, if_neg Bool.false_ne_true, bounded_withCnameRecord,
      h.bounded_iff]

end

/-! ### The chain -/

section

variable {S : Type} (cfg : RuntimeConfig) (arp : ArpTable) (now : ℤ) (serial : ℕ) (next : Next S)

/-- The condition on what the chain answers. -/
def ChainWithin (all : Bool) (m : ℕ) (ctx : ChainContext) (req : DnsRequest) (s : S) : Prop :=
  match cnameOf ctx with
  | none => ∀ r, (fromDns64 cfg arp now serial next ctx req s).1 = .ok r →
      ∀ t ∈ outsideTtl cfg arp now serial next ctx req s, Sent all r → t ≤ m
  | some cname =>
    if req.query.queryType = .CNAME then aliasTtl cfg ctx ≤ m
    else
      let inner := ChainContext.new cfg cname ctx.serverOpts
      ∀ r, (fromDns64 cfg arp now serial next inner (req.withCname cname) s).1 = .ok r →
        AliasWithin cfg ctx req all m (outsideTtl cfg arp now serial next inner (req.withCname cname) s) r

variable {cfg arp now serial next} {ctx : ChainContext} {req : DnsRequest} {s : S} {r : DnsResponse} {all : Bool}
  {replyMax : UInt64}

theorem chain_eq : (chain cfg arp now serial next ctx req s).1 =
    (cnameMiddleware cfg now (fromDns64 cfg arp now serial next) ctx req s).1.map fun r =>
      if ctx.forceNoCname cfg then stripCname req.original r else r := rfl

/-- A query for aliases gets the one of the rule. -/
theorem bounded_cnameRecord {m : ℕ} {query : Query} (hq : query.queryType = .CNAME) (cname : Name) (validUntil : ℤ) :
    Bounded all m (if ctx.forceNoCname cfg then
        stripCname query (.newWithDeadline query [cnameRecord cfg ctx query cname] validUntil)
      else .newWithDeadline query [cnameRecord cfg ctx query cname] validUntil) ↔ aliasTtl cfg ctx ≤ m := by
  have hstrip : stripCname query (.newWithDeadline query [cnameRecord cfg ctx query cname] validUntil) =
      .newWithDeadline query [cnameRecord cfg ctx query cname] validUntil := by
    rw [stripCname_eq]
    rw [hq]
    rfl
  have hsections : sections all (.newWithDeadline query [cnameRecord cfg ctx query cname] validUntil) =
      [cnameRecord cfg ctx query cname] := by cases all <;> rfl
  rw [hstrip, ite_self, Bounded, hsections]
  exact List.forall_mem_singleton

/-- **The chain keeps the maximum exactly where what is made outside the address middleware does.** -/
theorem bounded_chain_iff (hmax : ctx.rrTtlReplyMax cfg = some replyMax)
    (h : (chain cfg arp now serial next ctx req s).1 = .ok r) :
    Bounded all replyMax.toNat r ↔ ChainWithin cfg arp now serial next all replyMax.toNat ctx req s := by
  rw [chain_eq] at h
  unfold cnameMiddleware at h
  unfold ChainWithin
  cases hcname : cnameOf ctx with
  | none =>
    simp only [hcname] at h
    cases hin : (fromDns64 cfg arp now serial next ctx req s).1 with
    | error e =>
      rw [hin] at h
      cases h
    | ok inner =>
      rw [hin] at h
      obtain rfl := Except.ok.inj h
      exact (bounded_stripped _ (made_fromDns64 hmax hin)).trans ⟨fun hw r hr => Except.ok.inj hr ▸ hw, fun hw => hw inner rfl⟩
  | some cname =>
    simp only [hcname] at h
    by_cases hq : req.query.queryType = .CNAME
    · simp only [if_pos hq] at h ⊢
      obtain rfl := Except.ok.inj h
      exact bounded_cnameRecord hq cname _
    · simp only [if_neg hq] at h ⊢
      cases hin : (fromDns64 cfg arp now serial next (.new cfg cname ctx.serverOpts) (req.withCname cname) s).1 with
      | error e =>
        rw [hin] at h
        cases h
      | ok inner =>
        rw [hin] at h
        obtain rfl := Except.ok.inj h
        have hmax' : (ChainContext.new cfg cname ctx.serverOpts).rrTtlReplyMax cfg = some replyMax := hmax
        have hinner := made_fromDns64 hmax' hin
        exact (bounded_shownAlias hinner).trans ⟨fun hw r hr => Except.ok.inj hr ▸ hw, fun hw => hw inner rfl⟩

end

/-! ### The reply -/

/-- No record of the reply outlives the maximum. -/
def Within (m : ℕ) (reply : Reply) : Prop := ∀ x ∈ reply.records, x.ttl ≤ m

/-- The condition on an error: only a negative answer has a record, the SOA record that came or one that is made; it is
in the authority section. -/
def ErrorWithin (all : Bool) (m : ℕ) (settings : ReplySettings) : DnsError → Prop
  | .noRecordsFound (some soa) code => all = true → code = .noError ∨ code = .nxDomain → soa.ttl ≤ m
  | .noRecordsFound none code => all = true → code = .nxDomain → settings.soaTtl ≤ m
  | _ => True

theorem bounded_addAuthority {all : Bool} {m : ℕ} {now : ℤ} {original : Query} {x : Record} :
    Bounded all m ((emptyResponse now original).addAuthority x) ↔ (all = true → x.ttl ≤ m) := by
  cases all with
  | true => exact List.forall_mem_singleton.trans (by simp)
  | false => exact iff_of_true (List.forall_mem_nil _) nofun

theorem bounded_soa {all : Bool} {m : ℕ} {now : ℤ} {original : Query} {x : Record} {code : ResponseCode} :
    Bounded all m (((DnsResponse.newWithMaxTtl now original []).addAuthority x).setResponseCode code) ↔
      (all = true → x.ttl ≤ m) := by
  cases all with
  | true => exact List.forall_mem_singleton.trans (by simp)
  | false => exact iff_of_true (List.forall_mem_nil _) nofun

/-- **What an error makes of the maximum.** -/
theorem bounded_error_iff {all : Bool} {m : ℕ} {now : ℤ} {serial : ℕ} {settings : ReplySettings} {original : Query}
    (e : DnsError) :
    Bounded all m (processQuery now serial settings original (.error e)).2 ↔ ErrorWithin all m settings e := by
  have empty : Bounded all m (emptyResponse now original) := by
    intro x hx
    cases all <;> cases hx
  cases e with
  | nameExists => exact iff_of_true empty trivial
  | proto err => exact iff_of_true empty trivial
  | io message => exact iff_of_true empty trivial
  | responseCode code => exact iff_of_true empty trivial
  | noRecordsFound soa code =>
    cases soa with
    | none =>
      cases code with
      | noError => exact iff_of_true empty (by simp [ErrorWithin])
      | other code => exact iff_of_true empty (by simp [ErrorWithin])
      | nxDomain =>
        show Bounded all m ((emptyResponse now original).addAuthority
          (forgeSoaRecord serial original.name settings.soaTtl).toRecord) ↔ (all = true → _ → settings.soaTtl ≤ m)
        rw [bounded_addAuthority]
        exact ⟨fun hw hall _ => hw hall, fun hw hall => hw hall rfl⟩
    | some soa =>
      cases code with
      | other code => exact iff_of_true empty (by simp [ErrorWithin])
      | noError =>
        show Bounded all m (((DnsResponse.newWithMaxTtl now original []).addAuthority soa.toRecord).setResponseCode
          .noError) ↔ (all = true → _ → soa.ttl ≤ m)
        rw [bounded_soa]
        exact ⟨fun hw hall _ => hw hall, fun hw hall => hw hall (.inl rfl)⟩
      | nxDomain =>
        show Bounded all m (((DnsResponse.newWithMaxTtl now original []).addAuthority soa.toRecord).setResponseCode
          .nxDomain) ↔ (all = true → _ → soa.ttl ≤ m)
        rw [bounded_soa]
        exact ⟨fun hw hall _ => hw hall, fun hw hall => hw hall (.inr rfl)⟩

section

variable {S : Type} (cfg : RuntimeConfig) (arp : ArpTable) (now : ℤ) (serial : ℕ) (next : Next (SearchState S))
  (opts : ServerOpts)

/-- What `process_inner` reads of a rule group, by `rule_group_name`. -/
def replySettings (req : DnsRequest) : ReplySettings :=
  let group := (resolveRuleGroup cfg.clientRules req opts).getD ""
  { rrTtl := (cfg.rrTtlInGroup group).map (·.toNat)
    rrTtlReplyMax := (cfg.rrTtlReplyMaxInGroup group).map (·.toNat) }

/-- The server as it is configured, in some state. -/
def serverHandler (size : Reply → Option ℕ) (s : SearchState S) : Handler where
  search req := (search cfg.searchConfig arp (execute cfg arp now serial next) req opts s).1
  settings := replySettings cfg opts
  size

/-- The condition on what is sent: a refusal has no records, an error at most one, and the rest is the chain's. -/
def SentWithin (all : Bool) (m : ℕ) (req : DnsRequest) (s : SearchState S) : Prop :=
  isAdmitted cfg.searchConfig arp req opts s.inFlight = true →
    let entered : SearchState S := ⟨s.inFlight + 1, s.chain⟩
    match (chain cfg arp now serial next (clientContext cfg arp req opts) req entered).1 with
    | .error e => ErrorWithin all m (replySettings cfg opts req) e
    | .ok _ => ChainWithin cfg arp now serial next all m (clientContext cfg arp req opts) req entered

/-- The condition: over UDP a reply can be cut to its answers, and to none. -/
def ReplyWithin (size : Reply → Option ℕ) (m : ℕ) (req : DnsRequest) (s : SearchState S) : Prop :=
  let full := fullReply now serial (serverHandler cfg arp now serial next opts size s) req
  if req.protocol = .udp && tooLong size req full then
    tooLong size req full.onlyAnswers = false → SentWithin cfg arp now serial next opts false m req s
  else SentWithin cfg arp now serial next opts true m req s

variable {cfg arp now serial next opts} {all : Bool} {m : ℕ} {req : DnsRequest} {s : SearchState S}
  {size : Reply → Option ℕ} {replyMax : UInt64}

theorem search_of_isAdmitted (h : isAdmitted cfg.searchConfig arp req opts s.inFlight = true) :
    (serverHandler cfg arp now serial next opts size s).search req =
      (chain cfg arp now serial next (clientContext cfg arp req opts) req ⟨s.inFlight + 1, s.chain⟩).1 :=
  accepted_of_isAdmitted h S (execute cfg arp now serial next) s.chain

theorem search_of_not_isAdmitted (h : isAdmitted cfg.searchConfig arp req opts s.inFlight = false) :
    (serverHandler cfg arp now serial next opts size s).search req = .error (.responseCode .refused) :=
  congrArg Prod.fst (refused_of_not_isAdmitted h S (execute cfg arp now serial next) s.chain)

theorem bounded_processQuery_iff (hmax : (clientContext cfg arp req opts).rrTtlReplyMax cfg = some replyMax) :
    Bounded all replyMax.toNat (processQuery now serial (replySettings cfg opts req) req.original
      ((serverHandler cfg arp now serial next opts size s).search req)).2 ↔
      SentWithin cfg arp now serial next opts all replyMax.toNat req s := by
  unfold SentWithin
  cases hadm : isAdmitted cfg.searchConfig arp req opts s.inFlight with
  | false =>
    rw [search_of_not_isAdmitted hadm]
    exact iff_of_true ((bounded_error_iff (.responseCode .refused)).mpr trivial) nofun
  | true =>
    rw [search_of_isAdmitted hadm]
    simp only [true_imp_iff]
    cases hres : (chain cfg arp now serial next (clientContext cfg arp req opts) req ⟨s.inFlight + 1, s.chain⟩).1 with
    | error e => exact bounded_error_iff e
    | ok r => exact bounded_chain_iff hmax hres

/-- What is left of a reply. -/
theorem within_truncateUdp_iff {full : Reply} : Within m (truncateUdp size req full) ↔
    if req.protocol = .udp && tooLong size req full then
      tooLong size req full.onlyAnswers = false → ∀ x ∈ full.answers, x.ttl ≤ m
    else Within m full := by
  unfold truncateUdp
  by_cases hcut : (decide (req.protocol = .udp) && tooLong size req full) = true
  · rw [if_pos hcut, if_pos hcut]
    cases hlong : tooLong size req full.onlyAnswers with
    | true => exact iff_of_true (List.forall_mem_nil _) nofun
    | false =>
      have hrecords : full.onlyAnswers.syncHeader.records = full.answers := by
        show full.answers ++ [] ++ [] = full.answers
        rw [List.append_nil, List.append_nil]
      rw [if_neg Bool.false_ne_true, Within, hrecords]
      exact ⟨fun hw _ => hw, fun hw => hw rfl⟩
  · rw [if_neg hcut, if_neg hcut]

/-- **A reply keeps within `rr-ttl-reply-max` exactly where all that is made outside the address middleware, and sent,
does.** -/
theorem reply_ttl_iff (cfg : RuntimeConfig) (arp : ArpTable) (now : ℤ) (serial : ℕ) (next : Next (SearchState S))
    (opts : ServerOpts) (size : Reply → Option ℕ) (s : SearchState S) (req : DnsRequest) (replyMax : UInt64)
    (hmax : (clientContext cfg arp req opts).rrTtlReplyMax cfg = some replyMax)
    (hm : req.header.messageType = .query) (ho : req.header.opCode = .query) :
    ∃ reply, processInner now serial (serverHandler cfg arp now serial next opts size s) (.ok req) = some reply ∧
      (Within replyMax.toNat reply ↔ ReplyWithin cfg arp now serial next opts size replyMax.toNat req s) := by
  refine ⟨truncateUdp size req (fullReply now serial (serverHandler cfg arp now serial next opts size s) req),
    by simp only [processInner, hm, ho]; rfl, ?_⟩
  have hsent (all : Bool) := @bounded_processQuery_iff S cfg arp now serial next opts all req s size replyMax hmax
  rw [within_truncateUdp_iff]
  unfold ReplyWithin
  dsimp only
  rw [← hsent true, ← hsent false]
  rfl

end

/-! ### A hosts entry -/

open Rule (wwwExampleCom)

/-- `www.example.com` is in a hosts file, and a client may keep an answer for a minute. -/
def hostsConfig : RuntimeConfig :=
  { plainConfig with
    params := { rrTtlReplyMax := some 60 }
    hosts := [(wwwExampleCom.setFqdn true, .v4 0xc0000201#32)] }

/-- The client is told to keep it for a day. -/
theorem hosts_outlive_replyMax : ¬ ∀ (cfg : RuntimeConfig) (req : DnsRequest) (reply : Reply) (replyMax : UInt64),
    (clientContext cfg (fun _ => none) req {}).rrTtlReplyMax cfg = some replyMax →
    processInner 0 0 (serverHandler cfg (fun _ => none) 0 0 (noteVisit noAnswer) {} (fun _ => none) ⟨0, ⟨[], ()⟩⟩)
      (.ok req) = some reply → Within replyMax.toNat reply := by
  intro h
  have hw := h hostsConfig wwwRequest _ 60 rfl rfl
  have httl : (86400 : ℕ) ≤ 60 :=
    hw ⟨wwwExampleCom.setFqdn true, .IN, MAX_TTL, .ofIpAddr (.v4 0xc0000201#32)⟩ List.mem_cons_self
  omega

theorem reply_ttl_iff_hosts :
    ∃ reply, processInner 0 0 (serverHandler hostsConfig (fun _ => none) 0 0 (noteVisit noAnswer) {} (fun _ => none)
        ⟨0, ⟨[], ()⟩⟩) (.ok wwwRequest) = some reply ∧
      (Within 60 reply ↔ ReplyWithin hostsConfig (fun _ => none) 0 0 (noteVisit noAnswer) {} (fun _ => none) 60 wwwRequest
        ⟨0, ⟨[], ()⟩⟩) :=
  reply_ttl_iff hostsConfig (fun _ => none) 0 0 (noteVisit noAnswer) {} (fun _ => none) ⟨0, ⟨[], ()⟩⟩ wwwRequest 60 rfl rfl rfl

end Server
end SmartDns
