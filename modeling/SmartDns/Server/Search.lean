/-
# The way into the middleware chain

`DnsMiddlewareHandler::search`: the limit on concurrent queries, then the access list,
then the chain. Whether a client is admitted is asked of its own address (and of its MAC
address): neither the address a proxy says it has nor anything else in the request has a
part in it (`admission_by_peer`).

Key definitions: `SearchConfig`, `aclRefuses`, `search`.
Key theorem: `admission_by_peer`.
-/
import SmartDns.Dns.Error
import SmartDns.Server.ClientRule
import SmartDns.Server.Limit

namespace SmartDns
namespace Server

open Dns

/-- What `search` reads of the configuration; `findDomainRule` takes a rule group and a name. -/
structure SearchConfig (R : Type) where
  maxQueryLimit : ℕ
  aclEnable : Bool
  clientRules : List ClientRule
  findDomainRule : String → Name → Option R

/-- The queries in flight, and all that the chain may change. -/
structure SearchState (S : Type) where
  inFlight : ℕ
  chain : S

section

variable {R S : Type} (cfg : SearchConfig R) (arp : ArpTable)

/-- The access list refuses a client that no rule matches. -/
def aclRefuses (req : DnsRequest) (opts : ServerOpts) : Bool :=
  !opts.isBackground && (cfg.aclEnable || opts.acl.getD false) && (matchedRule cfg.clientRules arp req.src).isNone

/-- The context a request enters the chain with. -/
def searchContext (req : DnsRequest) (opts : ServerOpts) : DnsContext R :=
  DnsContext.new (fun group => cfg.findDomainRule group req.name) (groupedOpts cfg.clientRules req opts)

/-- `search`; `execute` is the chain. -/
def search (execute : DnsContext R → DnsRequest → SearchState S → LookupResult × SearchState S) (req : DnsRequest)
    (opts : ServerOpts) (s : SearchState S) : LookupResult × SearchState S :=
  match enterQuery cfg.maxQueryLimit opts.isBackground s.inFlight with
  | (.refused, inFlight) => (.error (.responseCode .refused), { s with inFlight })
  | (.allowed, inFlight) =>
    if aclRefuses cfg arp req opts then
      (.error (.responseCode .refused), { s with inFlight := inFlight - 1 })
    else
      let (res, s) := execute (searchContext cfg req opts) req { s with inFlight }
      (res, { s with inFlight := s.inFlight - 1 })

/-- Whatever the chain is, the request is refused and nothing changes. -/
def Refused (req : DnsRequest) (opts : ServerOpts) (inFlight : ℕ) : Prop :=
  ∀ (S : Type) (execute : DnsContext R → DnsRequest → SearchState S → LookupResult × SearchState S) (chain : S),
    search cfg arp execute req opts ⟨inFlight, chain⟩ = (.error (.responseCode .refused), ⟨inFlight, chain⟩)

/-- Whatever the chain is, the request gets what it gives. -/
def Accepted (req : DnsRequest) (opts : ServerOpts) (inFlight : ℕ) : Prop :=
  ∀ (S : Type) (execute : DnsContext R → DnsRequest → SearchState S → LookupResult × SearchState S) (chain : S),
    (search cfg arp execute req opts ⟨inFlight, chain⟩).1 =
      (execute (searchContext cfg req opts) req ⟨inFlight + 1, chain⟩).1

end

/-- One peer: its address, spelled one way or the other, and the MAC address found for it. -/
structure SamePeer (arp arp' : ArpTable) (req req' : DnsRequest) : Prop where
  address : req.src.toCanonical = req'.src.toCanonical
  mac : arp.lookup req.src.toCanonical = arp'.lookup req'.src.toCanonical

variable {R : Type} {cfg : SearchConfig R} {arp arp' : ArpTable} {req req' : DnsRequest}

theorem matchedRule_congr (rules : List ClientRule) (h : SamePeer arp arp' req req') :
    matchedRule rules arp req.src = matchedRule rules arp' req'.src := by
  unfold matchedRule
  rw [h.mac, h.address]

theorem aclRefuses_congr (opts : ServerOpts) (h : SamePeer arp arp' req req') :
    aclRefuses cfg arp req opts = aclRefuses cfg arp' req' opts := by
  rw [aclRefuses, aclRefuses, matchedRule_congr cfg.clientRules h]

theorem enterQuery_allowed {limit : ℕ} {bg : Bool} {inFlight n : ℕ} (h : enterQuery limit bg inFlight = (.allowed, n)) :
    n = inFlight + 1 := by
  unfold enterQuery at h
  split at h
  · exact (Prod.mk.inj h).2.symm
  · split at h
    · cases (Prod.mk.inj h).1
    · exact (Prod.mk.inj h).2.symm

theorem enterQuery_refused {limit : ℕ} {bg : Bool} {inFlight n : ℕ} (h : enterQuery limit bg inFlight = (.refused, n)) :
    n = inFlight := by
  unfold enterQuery at h
  split at h
  · cases (Prod.mk.inj h).1
  · split at h
    · exact (Prod.mk.inj h).2.symm
    · cases (Prod.mk.inj h).1

/-- What decides. -/
def isAdmitted (cfg : SearchConfig R) (arp : ArpTable) (req : DnsRequest) (opts : ServerOpts) (inFlight : ℕ) : Bool :=
  decide ((enterQuery cfg.maxQueryLimit opts.isBackground inFlight).1 = .allowed) && !aclRefuses cfg arp req opts

theorem accepted_of_isAdmitted {opts : ServerOpts} {inFlight : ℕ}
    (h : isAdmitted cfg arp req opts inFlight = true) : Accepted cfg arp req opts inFlight := by
  intro S execute chain
  rw [isAdmitted, Bool.and_eq_true, decide_eq_true_eq, Bool.not_eq_true'] at h
  unfold search
  cases ha : enterQuery cfg.maxQueryLimit opts.isBackground inFlight with
  | mk admission n =>
    rw [ha] at h
    obtain rfl : admission = .allowed := h.1
    rw [enterQuery_allowed ha]
    simp only [h.2, Bool.false_eq_true, if_false]

theorem refused_of_not_isAdmitted {opts : ServerOpts} {inFlight : ℕ}
    (h : isAdmitted cfg arp req opts inFlight = false) : Refused cfg arp req opts inFlight := by
  intro S execute chain
  unfold search
  cases ha : enterQuery cfg.maxQueryLimit opts.isBackground inFlight with
  | mk admission n =>
    cases admission with
    | refused =>
      rw [enterQuery_refused ha]
    | allowed =>
      have hacl : aclRefuses cfg arp req opts = true := by simpa [isAdmitted, ha] using h
      rw [enterQuery_allowed ha]
      simp only [hacl, if_true, Nat.add_sub_cancel]

/-- **A client is admitted by who it is**: of two requests of one peer both are refused, without the chain
having run, or the chain answers both. -/
theorem admission_by_peer (cfg : SearchConfig R) {arp arp' : ArpTable} {req req' : DnsRequest}
    (hpeer : SamePeer arp arp' req req') (opts : ServerOpts) (inFlight : ℕ) :
    Refused cfg arp req opts inFlight ∧ Refused cfg arp' req' opts inFlight ∨
      Accepted cfg arp req opts inFlight ∧ Accepted cfg arp' req' opts inFlight := by
  have hsame : isAdmitted cfg arp req opts inFlight = isAdmitted cfg arp' req' opts inFlight := by
    rw [isAdmitted, isAdmitted, aclRefuses_congr opts hpeer]
  cases h : isAdmitted cfg arp req opts inFlight with
  | true => exact .inr ⟨accepted_of_isAdmitted h, accepted_of_isAdmitted (hsame ▸ h)⟩
  | false => exact .inl ⟨refused_of_not_isAdmitted h, refused_of_not_isAdmitted (hsame ▸ h)⟩

/-- The laptop's networks are the only ones let in. -/
def laptopConfig : SearchConfig Unit where
  maxQueryLimit := 1
  aclEnable := true
  clientRules := laptopRules
  findDomainRule _ _ := none

/-- The laptop asks for another name, with a subnet and a client said to be behind it. -/
def proxiedRequest : DnsRequest :=
  { laptopRequest with
    queries := [{ name := ⟨true, [Label.star]⟩, queryType := .AAAA, queryClass := .CH }]
    query := { name := ⟨true, [Label.star]⟩, queryType := .AAAA, queryClass := .CH }
    forwardedClient := some (.v4 0xcb007107#32)
    subnet := some ⟨.v4 0xcb007100#32, 24, 0⟩ }

theorem admission_by_peer_laptop :
    Refused laptopConfig laptopArp laptopRequest {} 0 ∧ Refused laptopConfig laptopArp proxiedRequest {} 0 ∨
      Accepted laptopConfig laptopArp laptopRequest {} 0 ∧ Accepted laptopConfig laptopArp proxiedRequest {} 0 :=
  have hpeer : SamePeer laptopArp laptopArp laptopRequest proxiedRequest := ⟨rfl, rfl⟩
  admission_by_peer laptopConfig hpeer {} 0

end Server
end SmartDns
