/-
# A refresh and the entry it is for

When an entry is about to run out, `spawn_prefetch_task` makes a request from its key and
sends it down the chain; what comes back is stored under the key that the cache middleware
computes for that request. The question, the subnet and the options of the key survive the
way into the request and back. What can send the refresh elsewhere are the middlewares
before the cache (`refreshes_itself_iff`): a CNAME rule for the name of the key, as there
is one in every chain of two such rules, a rule that turns the cache off or sets a subnet,
and an answer from local data.

Key definitions: `visits`, `RefreshesItself`, `RefreshGoesStraight`.
Key theorem: `refreshes_itself_iff`.
-/
import SmartDns.Rule.Sound
import SmartDns.Server.CacheKey
import SmartDns.Server.Chain

namespace SmartDns
namespace Server

open Dns Cache

/-! ### The keys of a request -/

/-- What the chain may change, and the keys under which it came to the cache. -/
structure Visits (S : Type) where
  keys : List CacheKey
  rest : S

section

variable {S : Type}

/-- The cache and what is below it, with a note of the key. -/
def noteVisit (next : Next S) : Next (SearchState (Visits S)) := fun ctx req s =>
  let (res, rest) := next ctx req s.chain.rest
  (res, { s with chain := { keys := s.chain.keys ++ (visitedKey ctx req).toList, rest } })

variable (cfg : RuntimeConfig) (arp : ArpTable) (now : ℤ) (serial : ℕ) (next : Next S)

/-- The keys under which a request comes to the cache. -/
def visits (req : DnsRequest) (opts : ServerOpts) (inFlight : ℕ) (rest : S) : List CacheKey :=
  (search cfg.searchConfig arp (execute cfg arp now serial (noteVisit next)) req opts ⟨inFlight, ⟨[], rest⟩⟩).2.chain.keys

/-- The refresh of the key comes to the cache first, and there with the key itself. -/
def RefreshesItself (key : CacheKey) (inFlight : ℕ) (rest : S) : Prop :=
  ∃ k ks, visits cfg arp now serial next (prefetchRequest cfg.crates key) (toServerOpts key.opts key.group)
    inFlight rest = k :: ks ∧ (k == key) = true

end

/-! ### The condition -/

section

variable (cfg : RuntimeConfig) (arp : ArpTable) (now : ℤ) (serial : ℕ)

/-- The context of a refresh: the rule is that of the key's name, in lower case, in the key's rule group. -/
def refreshContext (key : CacheKey) : ChainContext :=
  .new cfg key.query.name.toLowercase (toServerOpts key.opts key.group)

/-- What stands between DNS64 and the cache answers. -/
def answersHere (ctx : ChainContext) (req : DnsRequest) : Bool :=
  (dns64Answer cfg now ctx req).isSome ||
    (localAnswer cfg now serial arp ctx req).isSome || (addressAnswer cfg now serial ctx req).isSome

/-- A CNAME rule names the name itself, and is not asked for. -/
def NamesItself (query : Query) (cname : Name) : Prop :=
  query.queryType ≠ .CNAME ∧
    ({ name := cname, queryType := query.queryType, queryClass := .IN } == query : Bool) = true

/-- Behind the CNAME rule, if there is one, the request goes on to the cache. -/
structure GoesOn (key : CacheKey) (ctx : ChainContext) (req : DnsRequest) : Prop where
  cached : ctx.noCache = false
  subnet : key.ecs = none → ruleSubnet ctx = none
  unanswered : answersHere cfg arp now serial ctx req = false

/-- The condition. -/
def RefreshGoesStraight (key : CacheKey) : Prop :=
  match cnameOf (refreshContext cfg key) with
  | none => GoesOn cfg arp now serial key (refreshContext cfg key) (prefetchRequest cfg.crates key)
  | some cname => NamesItself key.query cname ∧
      GoesOn cfg arp now serial key (.new cfg cname (toServerOpts key.opts key.group))
        ((prefetchRequest cfg.crates key).withCname cname)

end

/-! ### What the middlewares note -/

section

variable {S : Type} {cfg : RuntimeConfig} {arp : ArpTable} {now : ℤ} {serial : ℕ} {next : Next S}
  {ctx : ChainContext} {req : DnsRequest} {s : SearchState (Visits S)}

/-- The first key noted, where something is noted for the request itself. -/
def firstKey (cfg : RuntimeConfig) (arp : ArpTable) (now : ℤ) (serial : ℕ) (ctx : ChainContext) (req : DnsRequest) :
    Option CacheKey :=
  if answersHere cfg arp now serial ctx req then none else visitedKey ctx req

theorem addressMiddleware_keys :
    (addressMiddleware cfg now serial (noteVisit next) ctx req s).2.chain.keys = s.chain.keys ++
      (if (addressAnswer cfg now serial ctx req).isSome then none else visitedKey ctx req).toList := by
  unfold addressMiddleware
  cases addressAnswer cfg now serial ctx req with
  | some lookup => simp
  | none => rfl

theorem localMiddleware_keys :
    (localMiddleware cfg now serial arp (addressMiddleware cfg now serial (noteVisit next)) ctx req s).2.chain.keys =
      s.chain.keys ++ (if (localAnswer cfg now serial arp ctx req).isSome ||
        (addressAnswer cfg now serial ctx req).isSome then none else visitedKey ctx req).toList := by
  unfold localMiddleware
  cases localAnswer cfg now serial arp ctx req with
  | some answer => simp
  | none =>
    rw [Option.isSome_none, Bool.false_or]
    exact addressMiddleware_keys

theorem visitedKey_queryType {k : CacheKey} (h : visitedKey ctx req = some k) :
    k.query.queryType = req.query.queryType := by
  unfold visitedKey at h
  split at h
  · cases h
  · obtain rfl := Option.some.inj h
    rfl

/-- Behind the first key only those of the request for A records are noted. -/
theorem fromDns64_keys : ∃ rest : List CacheKey,
    (fromDns64 cfg arp now serial (noteVisit next) ctx req s).2.chain.keys =
      s.chain.keys ++ ((firstKey cfg arp now serial ctx req).toList ++ rest) ∧
    ∀ k ∈ rest, k.query.queryType ≠ req.query.queryType := by
  unfold fromDns64
  cases ha : dns64Answer cfg now ctx req with
  | some lookup =>
    refine ⟨[], ?_, fun k hk => by cases hk⟩
    rw [dns64Middleware_of_answer ha, firstKey, answersHere, ha]
    simp
  | none =>
    have hfirst : (localMiddleware cfg now serial arp (addressMiddleware cfg now serial (noteVisit next)) ctx req s).2.chain.keys =
        s.chain.keys ++ (firstKey cfg arp now serial ctx req).toList := by
      rw [localMiddleware_keys, firstKey, answersHere, ha, Option.isSome_none, Bool.false_or]
    cases hf : fallback cfg ctx req
        (localMiddleware cfg now serial arp (addressMiddleware cfg now serial (noteVisit next)) ctx req s).1 with
    | none =>
      refine ⟨[], ?_, fun k hk => by cases hk⟩
      rw [dns64Middleware_of_none ha hf, List.append_nil, hfirst]
    | some p =>
      obtain ⟨net, aReq⟩ := p
      obtain ⟨hq, -, -, hreq⟩ := fallback_eq_some hf
      rw [dns64Middleware_of_fallback ha hf]
      refine ⟨_, by rw [← List.append_assoc, ← hfirst, ← localMiddleware_keys], fun k hk => ?_⟩
      rw [Option.mem_toList] at hk
      split at hk
      · cases hk
      · rw [visitedKey_queryType hk, aRequest_query hreq, hq]
        decide

theorem chain_keys :
    (chain cfg arp now serial (noteVisit next) ctx req s).2.chain.keys =
      (cnameMiddleware cfg now (fromDns64 cfg arp now serial (noteVisit next)) ctx req s).2.chain.keys := rfl

/-- Nothing refuses a background request, and no client rule is for it. -/
theorem visits_of_isBackground {opts : ServerOpts} (hbg : opts.isBackground = true) (inFlight : ℕ) (rest : S) :
    visits cfg arp now serial next req opts inFlight rest =
      (chain cfg arp now serial (noteVisit next) (.new cfg req.name opts) req ⟨inFlight + 1, ⟨[], rest⟩⟩).2.chain.keys := by
  have hctx : searchContext cfg.searchConfig req opts = DnsContext.new (cfg.findDomainRule req.name) opts := by
    unfold searchContext groupedOpts
    rw [hbg]
    simp [RuntimeConfig.searchConfig]
  have hacl : aclRefuses cfg.searchConfig arp req opts = false := by
    unfold aclRefuses
    rw [hbg]
    rfl
  unfold visits search
  rw [hbg, enterQuery, if_pos (by rfl), hctx]
  simp only [hacl, Bool.false_eq_true, if_false]
  unfold execute
  rw [clientRule_of_isBackground (by exact hbg)]
  rfl

end

/-! ### The condition is exact -/

section

variable {S : Type} {cfg : RuntimeConfig} {arp : ArpTable} {now : ℤ} {serial : ℕ} {next : Next S} {key : CacheKey}
  {ctx : ChainContext} {req : DnsRequest}

/-- The refresh's key: of the parts of the key only the question and an absent subnet can be lost. -/
theorem cacheKey_beq_iff (hread : ReadsBack cfg.crates key) (hopts : ctx.serverOpts = toServerOpts key.opts key.group)
    (hsubnet : req.subnet = (prefetchRequest cfg.crates key).subnet) :
    (cacheKey ctx req == key) = true ↔
      (req.query == key.query) = true ∧ (key.ecs = none → ruleSubnet ctx = none) := by
  have hgroup : (cacheKey ctx req).group = key.group := by
    show ctx.serverGroupName = key.group
    unfold ChainContext.serverGroupName
    rw [hopts]
    rfl
  have hkopts : (cacheKey ctx req).opts = key.opts := by
    show fromServerOpts ctx.serverOpts = key.opts
    rw [hopts, fromServerOpts_toServerOpts]
  have hecs : (cacheKey ctx req).ecs = key.ecs ↔ (key.ecs = none → ruleSubnet ctx = none) := by
    show ((req.subnet.or (ruleSubnet ctx)).map subnetText) = key.ecs ↔ _
    have htext := prefetchRequest_subnet hread
    rw [← hsubnet] at htext
    cases hs : req.subnet with
    | none =>
      rw [hs] at htext
      rw [← htext]
      simp
    | some subnet =>
      rw [hs] at htext
      rw [← htext]
      simp
  rw [CacheKey.beq_iff]
  exact ⟨fun h => ⟨h.1, hecs.mp h.2.2.1⟩, fun h => ⟨h.1, hgroup, hecs.mpr h.2, hkopts⟩⟩

/-- The first key, where the request goes on as it is. -/
theorem firstKey_beq_iff (hread : ReadsBack cfg.crates key) (hopts : ctx.serverOpts = toServerOpts key.opts key.group)
    (hsubnet : req.subnet = (prefetchRequest cfg.crates key).subnet) :
    (∃ k ∈ firstKey cfg arp now serial ctx req, (k == key) = true) ↔
      (req.query == key.query) = true ∧ GoesOn cfg arp now serial key ctx req := by
  have hbypass : bypassesCache ctx = ctx.noCache := by
    unfold bypassesCache
    rw [hopts]
    rfl
  unfold firstKey visitedKey
  rw [hbypass]
  constructor
  · rintro ⟨k, hk, hkey⟩
    by_cases hans : answersHere cfg arp now serial ctx req = true
    · rw [if_pos hans] at hk
      cases hk
    · rw [if_neg hans] at hk
      by_cases hno : ctx.noCache = true
      · rw [if_pos hno] at hk
        cases hk
      · rw [if_neg hno] at hk
        obtain rfl := Option.some.inj hk
        have ⟨hquery, hecs⟩ := (cacheKey_beq_iff hread hopts hsubnet).mp hkey
        exact ⟨hquery, by simpa using hno, hecs, by simpa using hans⟩
  · rintro ⟨hquery, hgo⟩
    refine ⟨cacheKey ctx req, ?_, (cacheKey_beq_iff hread hopts hsubnet).mpr ⟨hquery, hgo.subnet⟩⟩
    rw [hgo.unanswered, hgo.cached]
    rfl

/-- What is noted from DNS64 down. -/
theorem fromDns64_beq_iff (hread : ReadsBack cfg.crates key) (hopts : ctx.serverOpts = toServerOpts key.opts key.group)
    (hsubnet : req.subnet = (prefetchRequest cfg.crates key).subnet)
    (htype : req.query.queryType = key.query.queryType) (inFlight : ℕ) (rest : S) :
    (∃ k ks, (fromDns64 cfg arp now serial (noteVisit next) ctx req ⟨inFlight, ⟨[], rest⟩⟩).2.chain.keys = k :: ks ∧
      (k == key) = true) ↔ (req.query == key.query) = true ∧ GoesOn cfg arp now serial key ctx req := by
  obtain ⟨others, hkeys, hother⟩ := @fromDns64_keys S cfg arp now serial next ctx req ⟨inFlight, ⟨[], rest⟩⟩
  rw [hkeys, List.nil_append, ← firstKey_beq_iff hread hopts hsubnet]
  cases firstKey cfg arp now serial ctx req with
  | some first => simp
  | none =>
    rw [Option.toList_none, List.nil_append]
    refine iff_of_false ?_ (by simp)
    rintro ⟨k, ks, rfl, hk⟩
    refine hother k List.mem_cons_self ?_
    rw [htype]
    exact (Query.beq_iff.mp (CacheKey.beq_iff.mp hk).1).2.1

/-- **A refresh finds its own entry exactly where it goes straight to the cache**: no CNAME rule gives its
name another one, no rule turns the cache off or adds a subnet, and nothing before the cache answers. -/
theorem refreshes_itself_iff (cfg : RuntimeConfig) (arp : ArpTable) (now : ℤ) (serial : ℕ) (next : Next S)
    (key : CacheKey) (hread : ReadsBack cfg.crates key) (inFlight : ℕ) (rest : S) :
    RefreshesItself cfg arp now serial next key inFlight rest ↔ RefreshGoesStraight cfg arp now serial key := by
  unfold RefreshesItself
  rw [visits_of_isBackground rfl, chain_keys]
  show (∃ k ks, (cnameMiddleware cfg now (fromDns64 cfg arp now serial (noteVisit next)) (refreshContext cfg key)
    (prefetchRequest cfg.crates key) ⟨inFlight + 1, ⟨[], rest⟩⟩).2.chain.keys = k :: ks ∧ (k == key) = true) ↔ _
  unfold cnameMiddleware RefreshGoesStraight
  cases cnameOf (refreshContext cfg key) with
  | none =>
    exact (fromDns64_beq_iff hread rfl rfl rfl (inFlight + 1) rest).trans ⟨fun h => h.2, fun h => ⟨BEq.rfl, h⟩⟩
  | some cname =>
    by_cases hq : key.query.queryType = .CNAME
    · have hq' : (prefetchRequest cfg.crates key).query.queryType = .CNAME := hq
      simp only [if_pos hq']
      exact iff_of_false (by simp) fun h => h.1.1 hq
    · have hq' : ¬ (prefetchRequest cfg.crates key).query.queryType = .CNAME := hq
      simp only [if_neg hq']
      have hopts : (ChainContext.new cfg cname (toServerOpts key.opts key.group)).serverOpts =
          toServerOpts key.opts key.group := rfl
      have hsubnet : ((prefetchRequest cfg.crates key).withCname cname).subnet =
          (prefetchRequest cfg.crates key).subnet := rfl
      have hnamed : (((prefetchRequest cfg.crates key).withCname cname).query == key.query) = true ↔
          NamesItself key.query cname := ⟨fun h => ⟨hq, h⟩, fun h => h.2⟩
      rw [← hnamed]
      exact fromDns64_beq_iff hread hopts hsubnet rfl (inFlight + 1) rest

end

/-! ### A refresh that goes elsewhere -/

open Rule (exampleCom wwwExampleCom labelExample labelCom)

def cdnExampleCom : Name := ⟨false, [⟨[99, 100, 110], by decide, by decide⟩, labelExample, labelCom]⟩

/-- IPv4 networks of one kind are read, names are ASCII. -/
def plainCrates : Crates where
  crateMatch _ _ := false
  toUnicode _ := none
  parseSubnet text := if text = "192.0.2.0/24" then some ⟨.v4 0xc0000200#32, 24, 0⟩ else none
  readHttps _ := none
  json _ := ""
  buildVersion := ""

/-- `www.example.com` stands for `example.com`, and that for `cdn.example.com`. -/
def twoCnames : Rule.RuleSet where
  cnames := [⟨.name (.full wwwExampleCom), .value exampleCom⟩, ⟨.name (.full exampleCom), .value cdnExampleCom⟩]

def twoCnamesConfig : RuntimeConfig where
  crates := plainCrates
  domainRuleGroups group := if group = "default" then some (Rule.DomainRuleMap.create plainCrates.crateMatch twoCnames) else none

/-- `www.example.com A`. -/
def wwwRequest : DnsRequest where
  header := { id := 1 }
  queries := [{ name := wwwExampleCom.setFqdn true, queryType := .A, queryClass := .IN }]
  src := .v4 0x0a000001#32

/-- Nobody answers. -/
def noAnswer : Next Unit := fun _ req s => (.error (.noRecordsFoundFor 0 req.original 0), s)

/-- The key of an answer for the name, in the default group. -/
def aKey (name : Name) (ecs : Option String) : CacheKey where
  query := { name, queryType := .A, queryClass := .IN }
  group := "default"
  ecs
  opts := {}

/-- The answer to the client is kept under the name of the first rule; its refresh asks for that of the second. -/
theorem refresh_goes_elsewhere : ¬ ∀ (cfg : RuntimeConfig) (req : DnsRequest) (opts : ServerOpts),
    opts.isBackground = false → ∀ key ∈ visits cfg (fun _ => none) 0 0 noAnswer req opts 0 (),
      RefreshesItself cfg (fun _ => none) 0 0 noAnswer key 0 () := by
  intro h
  have hvisits : visits twoCnamesConfig (fun _ => none) 0 0 noAnswer wwwRequest {} 0 () =
      [aKey (exampleCom.setFqdn true) none] := by rfl
  have hrefresh : visits twoCnamesConfig (fun _ => none) 0 0 noAnswer
      (prefetchRequest twoCnamesConfig.crates (aKey (exampleCom.setFqdn true) none)) (toServerOpts {} "default") 0 () =
      [aKey (cdnExampleCom.setFqdn true) none] := by rfl
  have hmem : aKey (exampleCom.setFqdn true) none ∈ visits twoCnamesConfig (fun _ => none) 0 0 noAnswer wwwRequest {} 0 () := by
    rw [hvisits]
    exact List.mem_cons_self
  obtain ⟨k, ks, hks, hk⟩ := h twoCnamesConfig wwwRequest {} rfl _ hmem
  obtain rfl : k = aKey (cdnExampleCom.setFqdn true) none := (List.cons.inj (hks.symm.trans hrefresh)).1
  revert hk
  decide +kernel

/-- No rules at all. -/
def plainConfig : RuntimeConfig where
  crates := plainCrates

theorem refreshes_itself_iff_subnet : RefreshesItself plainConfig (fun _ => none) 0 0 noAnswer
    (aKey (wwwExampleCom.setFqdn true) (some "192.0.2.0/24")) 0 () := by
  have hread : ReadsBack plainConfig.crates (aKey (wwwExampleCom.setFqdn true) (some "192.0.2.0/24")) := by
    intro text htext
    obtain rfl := Option.some.inj htext
    exact ⟨⟨.v4 0xc0000200#32, 24, 0⟩, by decide +kernel, by decide +kernel⟩
  refine (refreshes_itself_iff plainConfig (fun _ => none) 0 0 noAnswer _ hread 0 ()).mpr ?_
  show GoesOn plainConfig (fun _ => none) 0 0 _ _ _
  exact ⟨rfl, nofun, by decide +kernel⟩

end Server
end SmartDns
