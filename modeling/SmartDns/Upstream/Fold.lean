/-
# Folded queries

`NameServerMiddleware::handle` sends one of several equal queries upstream at a time;
which are equal is decided by a joined text, `name:type:group:ecs:rule_group:proc`,
whose last part is a hash of the options and switches that change the answer.

The text leaves out the query class, writes all types without a variant alike, and is
taken apart at colons that group names may contain. `folds_apart_iff` says for which
requests it is right all the same: exactly those that agree in class, have no two
such types, whose names print differently, none of whose names and groups goes on with
a colon where another ends and the rest makes up for it, and whose options and switches
do not collide in the hasher. A subnet's own colons are told from the joining ones,
but not from a missing subnet. Names without `xn--` labels and group names without
colons leave the class, the types and the hasher (`separates_of_plain`).

Key definitions: `buildInflightKey`, `SameLookup`, `FoldDomain`, `FoldDomain.Separates`.
Key theorems: `folds_apart_iff`, `separates_of_plain`.
-/
import Mathlib.Data.Set.Prod
import Mathlib.Data.Set.Function
import SmartDns.Dns.NameText
import SmartDns.Rule.PrintedIp
import SmartDns.Upstream.Options

namespace SmartDns
namespace Upstream

open Dns Lib

/-- `DefaultHasher` on a list of switches, and on the options and that hash. -/
structure Hashers where
  filter : List (Bool × Bool) → UInt64
  proc : Option SpeedOptions → UInt64 → UInt64

/-- The switches of the servers in order: the same servers in another order have the same. -/
def switches (servers : List NameServerOpts) : List (Bool × Bool) :=
  (servers.map fun o => (o.blacklistIp, o.whitelistIp)).mergeSort fun a b => !a.1 && b.1 || a.1 == b.1 && (!a.2 || b.2)

def foldNameserverFilter (H : Hashers) (servers : List NameServerOpts) : UInt64 := H.filter (switches servers)

def foldEcs : Option ClientSubnet → List Char
  | some subnet => subnet.text
  | none => []

/-- The parts of the key but the hash. -/
def foldText (name : List Char) (rtype : RecordType) (group : String) (ecs : List Char) (ruleGroup : String) :
    List Char :=
  name ++ ':' :: (rtype.toStr.toList ++ ':' :: (group.toList ++ ':' :: (ecs ++ ':' :: ruleGroup.toList)))

def buildInflightKey (name : List Char) (rtype : RecordType) (group : String) (ecs : List Char) (foldProc : UInt64)
    (ruleGroup : String) : List Char :=
  foldText name rtype group ecs ruleGroup ++ ':' :: Nat.toDigits 16 foldProc.toNat

namespace NsRequest

variable (toUnicode : List UInt8 → Option String) (H : Hashers)

/-- `fold_proc`. -/
def foldProc (r : NsRequest) : UInt64 := H.proc r.ipOpts (foldNameserverFilter H r.servers)

/-- `cache_key` of the folding. -/
def inflightKey (r : NsRequest) : List Char :=
  buildInflightKey (nameText toUnicode r.query.name.toLowercase) r.query.queryType r.serverGroupName
    (foldEcs r.lookupOptions.clientSubnet) (r.foldProc H) r.effectiveRuleGroup

end NsRequest

/-- The two requests stand for one lookup upstream. -/
structure SameLookup (a b : NsRequest) : Prop where
  name : (a.query.name == b.query.name) = true
  recordType : a.lookupOptions.recordType = b.lookupOptions.recordType
  queryClass : a.lookupOptions.queryClass = b.lookupOptions.queryClass
  serverGroup : a.serverGroupName = b.serverGroupName
  ruleGroup : a.effectiveRuleGroup = b.effectiveRuleGroup
  subnet : a.lookupOptions.clientSubnet.map (·.net) = b.lookupOptions.clientSubnet.map (·.net)
  options : a.ipOpts = b.ipOpts
  switches : a.query.queryType.isIpAddr = true → switches a.servers = switches b.servers

/-- What is admitted for each part of a request. -/
structure FoldDomain where
  names : Set Name
  types : Set RecordType
  classes : Set DNSClass
  groups : Set String
  subnets : Set (Option ClientSubnet)
  ruleGroups : Set String
  options : Set SpeedOptions
  servers : Set (List NameServerOpts)
  names_nonempty : names.Nonempty
  types_nonempty : types.Nonempty
  classes_nonempty : classes.Nonempty
  groups_nonempty : groups.Nonempty
  subnets_nonempty : subnets.Nonempty
  ruleGroups_nonempty : ruleGroups.Nonempty
  options_nonempty : options.Nonempty
  servers_nonempty : servers.Nonempty

namespace FoldDomain

structure Admits (D : FoldDomain) (r : NsRequest) : Prop where
  name : r.query.name ∈ D.names
  recordType : r.query.queryType ∈ D.types
  queryClass : r.query.queryClass ∈ D.classes
  group : r.serverGroupName ∈ D.groups
  subnet : r.clientSubnet ∈ D.subnets
  ruleGroup : r.effectiveRuleGroup ∈ D.ruleGroups
  options : r.speedOptions ∈ D.options
  servers : r.servers ∈ D.servers

end FoldDomain

/-- The hash for a type. -/
def procHash (H : Hashers) (t : RecordType) (o : SpeedOptions) (s : List NameServerOpts) : UInt64 :=
  H.proc (if t.isIpAddr then some o else none) (foldNameserverFilter H s)

namespace FoldDomain

/-- Requests of the two types can have one hash. -/
def ShareHash (D : FoldDomain) (H : Hashers) (t t' : RecordType) : Prop :=
  ∃ o ∈ D.options, ∃ s ∈ D.servers, ∃ o' ∈ D.options, ∃ s' ∈ D.servers, procHash H t o s = procHash H t' o' s'

/-- The switches of the admitted servers. -/
def switchLists (D : FoldDomain) : Set (List (Bool × Bool)) := switches '' D.servers

/-- The condition on what is admitted. -/
structure Separates (D : FoldDomain) (toUnicode : List UInt8 → Option String) (H : Hashers) : Prop where
  /-- One class. -/
  oneClass : ∀ c ∈ D.classes, ∀ c' ∈ D.classes, c = c'
  /-- At most one type without a variant of its own. -/
  oneUnknown : ∀ t ∈ D.types, ∀ t' ∈ D.types, t.isUnknown = true → t'.isUnknown = true → t = t'
  /-- Different names print differently. -/
  names : ∀ n ∈ D.names, ∀ n' ∈ D.names,
    nameText toUnicode n.toLowercase = nameText toUnicode n'.toLowercase → (n == n') = true
  /-- Where a name prints as another one with a colon and `x` behind it, what follows the other does not
  make up for `x`. -/
  nameBorder : ∀ n ∈ D.names, ∀ n' ∈ D.names, ∀ x,
    nameText toUnicode n'.toLowercase = nameText toUnicode n.toLowercase ++ ':' :: x →
    ∀ t ∈ D.types, ∀ t' ∈ D.types, D.ShareHash H t t' → ∀ g ∈ D.groups, ∀ g' ∈ D.groups,
    ∀ e ∈ D.subnets, ∀ e' ∈ D.subnets, ∀ rg ∈ D.ruleGroups, ∀ rg' ∈ D.ruleGroups,
      t.toStr.toList ++ ':' :: (g.toList ++ ':' :: (foldEcs e ++ ':' :: rg.toList)) ≠
        x ++ ':' :: (t'.toStr.toList ++ ':' :: (g'.toList ++ ':' :: (foldEcs e' ++ ':' :: rg'.toList)))
  /-- Where a server group is named as another one with a colon and `x` behind it, subnet and rule group of
  the other do not make up for `x`. -/
  groupBorder : ∀ g ∈ D.groups, ∀ g' ∈ D.groups, ∀ x, g'.toList = g.toList ++ ':' :: x →
    ∀ e ∈ D.subnets, ∀ e' ∈ D.subnets, ∀ rg ∈ D.ruleGroups, ∀ rg' ∈ D.ruleGroups,
      foldEcs e ++ ':' :: rg.toList ≠ x ++ ':' :: (foldEcs e' ++ ':' :: rg'.toList)
  /-- Where a subnet's text starts with a colon and no subnet is admitted too, no rule group is named as the
  rest of the text with a colon and another rule group behind it. -/
  subnetBorder : none ∈ D.subnets → ∀ subnet, some subnet ∈ D.subnets → ∀ x, subnet.text = ':' :: x →
    ∀ rg ∈ D.ruleGroups, ∀ rg' ∈ D.ruleGroups, rg.toList ≠ x ++ ':' :: rg'.toList
  /-- Where addresses are asked for, the hasher tells the lists of switches, -/
  filter : (∃ t ∈ D.types, t.isIpAddr = true) → Set.InjOn H.filter D.switchLists
  /-- and the options with such a hash. -/
  proc : (∃ t ∈ D.types, t.isIpAddr = true) →
    Set.InjOn (fun p : SpeedOptions × UInt64 => H.proc (some p.1) p.2) (D.options ×ˢ (H.filter '' D.switchLists))

end FoldDomain

/-- Up to the case of the name and the scope prefix, a server is asked the same. -/
theorem SameLookup.upstreamQuery {a b : NsRequest} (h : SameLookup a b) (serverSubnet : Option ClientSubnet) :
    ((upstreamQuery a.query.name a.lookupOptions serverSubnet).1 ==
      (upstreamQuery b.query.name b.lookupOptions serverSubnet).1) = true ∧
    (upstreamQuery a.query.name a.lookupOptions serverSubnet).2.map (·.net) =
      (upstreamQuery b.query.name b.lookupOptions serverSubnet).2.map (·.net) := by
  refine ⟨Query.beq_iff.mpr ⟨h.name, h.recordType, h.queryClass, rfl⟩, ?_⟩
  have hsubnet := h.subnet
  simp only [Upstream.upstreamQuery, Option.map_or, hsubnet]

/-! ### When the text tells its parts -/

theorem colon_not_mem_toStr (t : RecordType) : ':' ∉ t.toStr.toList := by
  cases t with
  | unknown code =>
    show ':' ∉ "Unknown".toList
    decide
  | _ => decide

theorem beq_of_toLowercase {n n' : Name} (h : n.toLowercase = n'.toLowercase) : (n == n') = true := by
  have hfqdn : n.toLowercase.isFqdn = n'.toLowercase.isFqdn := by rw [h]
  refine (Name.beq_iff n n').mpr ⟨hfqdn, ?_⟩
  rw [← Name.toLowercase_bytes, ← Name.toLowercase_bytes, h]

theorem toLowercase_of_beq {n n' : Name} (h : (n == n') = true) : n.toLowercase = n'.toLowercase := by
  obtain ⟨hfqdn, hlowers⟩ := (Name.beq_iff n n').mp h
  rw [← Name.toLowercase_bytes, ← Name.toLowercase_bytes] at hlowers
  have hlabels : n.toLowercase.labels = n'.toLowercase.labels :=
    (List.map_injective_iff.mpr fun _ _ => Label.ext_bytes) hlowers
  unfold Name.toLowercase at hlabels ⊢
  rw [hfqdn]
  exact congrArg (Name.mk _) hlabels

theorem colon_not_mem_toDigits {b : ℕ} (hb : 1 < b) (hb' : b ≤ 16) (k : ℕ) : ':' ∉ Nat.toDigits b k := by
  intro h
  obtain ⟨d, hd, hc⟩ := mem_toDigits hb k h
  have : ∀ d < 16, ':' ≠ d.digitChar := by decide
  exact this d (by omega) hc

/-- The text of an address tells it, and a slash behind it is its end. -/
theorem ipText_slash_inj {a a' : IpAddr} {r r' : List Char} (h : a.text ++ '/' :: r = a'.text ++ '/' :: r') :
    a = a' ∧ r = r' := by
  let toRule (a : IpAddr) : Rule.IpAddr := a.casesOn (fun bits => .v4 (UInt32.ofBitVec bits)) fun bits => .v6 bits
  have hparse (a : IpAddr) (r : List Char) : Rule.parseIp (a.text ++ '/' :: r) = some (toRule a, '/' :: r) := by
    have htext : a.text = Rule.ipText (toRule a) := by cases a <;> rfl
    rw [htext]
    exact Rule.parseIp_ipText _ (Lib.Parse.notOk_cons (by decide))
  have hread := hparse a r
  rw [h, hparse a' r'] at hread
  obtain ⟨haddr, hrest⟩ := Prod.mk.inj (Option.some.inj hread)
  refine ⟨?_, (List.cons.inj hrest).2.symm⟩
  cases a <;> cases a' <;> cases haddr <;> rfl

/-- The text of a subnet tells its address and prefix, and a colon behind it is its end. -/
theorem subnetText_inj {e e' : ClientSubnet} {r r' : List Char} (h : e.text ++ ':' :: r = e'.text ++ ':' :: r') :
    e.net = e'.net ∧ r = r' := by
  unfold ClientSubnet.text at h
  simp only [List.append_assoc, List.cons_append] at h
  obtain ⟨haddr, hrest⟩ := ipText_slash_inj h
  obtain ⟨hhead, hrest⟩ := append_sep_inj (colon_not_mem_toDigits (by omega) (by omega) _)
    (colon_not_mem_toDigits (by omega) (by omega) _) hrest
  have hlen := UInt8.toNat_inj.mp (toDigits_injective (by omega) (by omega) _ _ hhead)
  exact ⟨by rw [ClientSubnet.net, ClientSubnet.net, haddr, hlen], hrest⟩

/-- Subnets and what stands behind them are told, but for a missing one and one whose text starts with a colon. -/
theorem foldEcs_cases {e e' : Option ClientSubnet} {r r' : List Char}
    (h : foldEcs e ++ ':' :: r = foldEcs e' ++ ':' :: r') :
    e.map (·.net) = e'.map (·.net) ∧ r = r' ∨
      (∃ subnet x, e = none ∧ e' = some subnet ∧ subnet.text = ':' :: x ∧ r = x ++ ':' :: r') ∨
      ∃ subnet x, e' = none ∧ e = some subnet ∧ subnet.text = ':' :: x ∧ r' = x ++ ':' :: r := by
  have hempty {subnet : ClientSubnet} {r r' : List Char} (h : ':' :: r = subnet.text ++ ':' :: r') :
      ∃ x, subnet.text = ':' :: x ∧ r = x ++ ':' :: r' := by
    cases htext : subnet.text with
    | nil =>
      have hlen := congrArg List.length htext
      simp [ClientSubnet.text] at hlen
    | cons c x =>
      rw [htext] at h
      obtain ⟨rfl, hr⟩ := List.cons.inj h
      exact ⟨x, rfl, hr⟩
  cases e with
  | none =>
    cases e' with
    | none => exact .inl ⟨rfl, (List.cons.inj h).2⟩
    | some subnet =>
      obtain ⟨x, htext, hr⟩ := hempty h
      exact .inr (.inl ⟨subnet, x, rfl, rfl, htext, hr⟩)
  | some subnet =>
    cases e' with
    | none =>
      obtain ⟨x, htext, hr⟩ := hempty h.symm
      exact .inr (.inr ⟨subnet, x, rfl, rfl, htext, hr⟩)
    | some subnet' =>
      obtain ⟨hnet, hr⟩ := subnetText_inj h
      exact .inl ⟨congrArg some hnet, hr⟩

/-- **The joined text tells its parts** for types that can have one hash. -/
theorem FoldDomain.Separates.told {D : FoldDomain} {toUnicode : List UInt8 → Option String} {H : Hashers}
    (hD : D.Separates toUnicode H) {t t' : RecordType} (ht : t ∈ D.types) (ht' : t' ∈ D.types)
    (hhash : D.ShareHash H t t') {n n' : Name} (hn : n ∈ D.names) (hn' : n' ∈ D.names) {g g' : String}
    (hg : g ∈ D.groups) (hg' : g' ∈ D.groups) {e e' : Option ClientSubnet} (he : e ∈ D.subnets) (he' : e' ∈ D.subnets)
    {rg rg' : String} (hrg : rg ∈ D.ruleGroups) (hrg' : rg' ∈ D.ruleGroups)
    (h : foldText (nameText toUnicode n.toLowercase) t g (foldEcs e) rg =
      foldText (nameText toUnicode n'.toLowercase) t' g' (foldEcs e') rg') :
    (n == n') = true ∧ t.toStr = t'.toStr ∧ g = g' ∧ e.map (·.net) = e'.map (·.net) ∧ rg = rg' := by
  have hshare : D.ShareHash H t' t := by
    obtain ⟨o, ho, s, hs, o', ho', s', hs', heq⟩ := hhash
    exact ⟨o', ho', s', hs', o, ho, s, hs, heq.symm⟩
  rcases append_sep_eq_iff.mp h with ⟨hname, h⟩ | ⟨x, hx, h⟩ | ⟨x, hx, h⟩
  · obtain ⟨htype, h⟩ := append_sep_inj (colon_not_mem_toStr t) (colon_not_mem_toStr t') h
    rcases append_sep_eq_iff.mp h with ⟨hgroup, h⟩ | ⟨x, hx, h⟩ | ⟨x, hx, h⟩
    · have hsubnet : e.map (·.net) = e'.map (·.net) ∧ rg.toList = rg'.toList := by
        rcases foldEcs_cases h with h | ⟨subnet, x, rfl, rfl, htext, hr⟩ | ⟨subnet, x, rfl, rfl, htext, hr⟩
        · exact h
        · exact absurd hr (hD.subnetBorder he _ he' x htext _ hrg _ hrg')
        · exact absurd hr (hD.subnetBorder he' _ he x htext _ hrg' _ hrg)
      exact ⟨hD.names n hn n' hn' hname, String.toList_injective htype, String.toList_injective hgroup, hsubnet.1,
        String.toList_injective hsubnet.2⟩
    · exact absurd h (hD.groupBorder g hg g' hg' x hx e he e' he' rg hrg rg' hrg')
    · exact absurd h (hD.groupBorder g' hg' g hg x hx e' he' e he rg' hrg' rg hrg)
  · exact absurd h (hD.nameBorder n hn n' hn' x hx t ht t' ht' hhash g hg g' hg' e he e' he' rg hrg rg' hrg')
  · exact absurd h (hD.nameBorder n' hn' n hn x hx t' ht' t ht hshare g' hg' g hg e' he' e he rg' hrg' rg hrg)

/-- **The hash tells options and switches** of a type of addresses. -/
theorem FoldDomain.Separates.hashed {D : FoldDomain} {toUnicode : List UInt8 → Option String} {H : Hashers}
    (hD : D.Separates toUnicode H) {t : RecordType} (ht : t ∈ D.types) (hip : t.isIpAddr = true) {o o' : SpeedOptions}
    (ho : o ∈ D.options) (ho' : o' ∈ D.options) {s s' : List NameServerOpts} (hs : s ∈ D.servers) (hs' : s' ∈ D.servers)
    (h : procHash H t o s = procHash H t o' s') : o = o' ∧ switches s = switches s' := by
  rw [procHash, procHash, if_pos hip, if_pos hip] at h
  have hmem {s : List NameServerOpts} (hs : s ∈ D.servers) : switches s ∈ D.switchLists := Set.mem_image_of_mem _ hs
  obtain ⟨hopts, hfilter⟩ := Prod.mk.inj (hD.proc ⟨t, ht, hip⟩
    (Set.mk_mem_prod ho (Set.mem_image_of_mem _ (hmem hs))) (Set.mk_mem_prod ho' (Set.mem_image_of_mem _ (hmem hs'))) h)
  exact ⟨hopts, hD.filter ⟨t, ht, hip⟩ (hmem hs) (hmem hs') hfilter⟩

/-! ### The condition -/

/-- The request with the parts given. -/
def requestOf (n : Name) (t : RecordType) (c : DNSClass) (g : String) (e : Option ClientSubnet) (rg : String)
    (o : SpeedOptions) (s : List NameServerOpts) : NsRequest where
  query := { name := n, queryType := t, queryClass := c }
  subnet := e
  ruleResponseMode := some o.responseStrategy
  ruleSpeedCheckMode := some o.speedCheckMode
  noSpeedCheck := o.noSpeedCheck
  serverGroupName := g
  effectiveRuleGroup := rg
  servers := s

section

variable (n : Name) (t : RecordType) (c : DNSClass) (g : String) (e : Option ClientSubnet) (rg : String)
  (o : SpeedOptions) (s : List NameServerOpts)

theorem clientSubnet_requestOf : (requestOf n t c g e rg o s).clientSubnet = e := by
  cases e <;> rfl

theorem ipOpts_requestOf : (requestOf n t c g e rg o s).ipOpts = if t.isIpAddr then some o else none := rfl

theorem inflightKey_requestOf (toUnicode : List UInt8 → Option String) (H : Hashers) :
    (requestOf n t c g e rg o s).inflightKey toUnicode H =
      buildInflightKey (nameText toUnicode n.toLowercase) t g (foldEcs e) (procHash H t o s) rg := by
  cases e <;> rfl

theorem admits_requestOf {D : FoldDomain} (hn : n ∈ D.names) (ht : t ∈ D.types) (hc : c ∈ D.classes)
    (hg : g ∈ D.groups) (he : e ∈ D.subnets) (hrg : rg ∈ D.ruleGroups) (ho : o ∈ D.options) (hs : s ∈ D.servers) :
    D.Admits (requestOf n t c g e rg o s) :=
  ⟨hn, ht, hc, hg, by rwa [clientSubnet_requestOf], hrg, ho, hs⟩

end

/-- Two keys are one where the text and the hash are. -/
theorem buildInflightKey_inj {name name' ecs ecs' : List Char} {t t' : RecordType} {g g' rg rg' : String}
    {h h' : UInt64} :
    buildInflightKey name t g ecs h rg = buildInflightKey name' t' g' ecs' h' rg' ↔
      foldText name t g ecs rg = foldText name' t' g' ecs' rg' ∧ h = h' := by
  constructor
  · intro hk
    obtain ⟨htext, hhash⟩ := append_sep_inj_last
      (colon_not_mem_toDigits (by omega) le_rfl _) (colon_not_mem_toDigits (by omega) le_rfl _) hk
    exact ⟨htext, UInt64.toNat_inj.mp (toDigits_injective (by omega) le_rfl _ _ hhash)⟩
  · rintro ⟨htext, rfl⟩
    rw [buildInflightKey, buildInflightKey, htext]

theorem foldProc_eq (H : Hashers) (r : NsRequest) :
    r.foldProc H = procHash H r.query.queryType r.speedOptions r.servers := rfl

/-- The condition is enough. -/
theorem FoldDomain.Separates.sameLookup {D : FoldDomain} {toUnicode : List UInt8 → Option String} {H : Hashers}
    (hD : D.Separates toUnicode H) {a b : NsRequest} (ha : D.Admits a) (hb : D.Admits b)
    (hk : a.inflightKey toUnicode H = b.inflightKey toUnicode H) : SameLookup a b := by
  obtain ⟨htext, hhash⟩ := buildInflightKey_inj.mp hk
  rw [foldProc_eq, foldProc_eq] at hhash
  obtain ⟨hn, ht, hg, he, hrg⟩ := hD.told ha.recordType hb.recordType
    ⟨_, ha.options, _, ha.servers, _, hb.options, _, hb.servers, hhash⟩ ha.name hb.name ha.group hb.group
    ha.subnet hb.subnet ha.ruleGroup hb.ruleGroup htext
  have htype : a.query.queryType = b.query.queryType := by
    rcases (RecordType.toStr_eq_iff _ _).mp ht with h | ⟨h, h'⟩
    · exact h
    · exact hD.oneUnknown _ ha.recordType _ hb.recordType h h'
  rw [← htype] at hhash
  have hopts (hip : a.query.queryType.isIpAddr = true) :=
    hD.hashed ha.recordType hip ha.options hb.options ha.servers hb.servers hhash
  refine ⟨hn, htype, hD.oneClass _ ha.queryClass _ hb.queryClass, hg, hrg, he, ?_, fun hip => (hopts hip).2⟩
  rw [NsRequest.ipOpts, NsRequest.ipOpts, ← htype]
  by_cases hip : a.query.queryType.isIpAddr = true
  · rw [if_pos hip, if_pos hip, (hopts hip).1]
  · rw [if_neg hip, if_neg hip]

/-- Folding tells admitted requests. -/
def FoldDomain.Folds (D : FoldDomain) (toUnicode : List UInt8 → Option String) (H : Hashers) : Prop :=
  ∀ a b, D.Admits a → D.Admits b → a.inflightKey toUnicode H = b.inflightKey toUnicode H → SameLookup a b

namespace FoldDomain.Folds

variable {D : FoldDomain} {toUnicode : List UInt8 → Option String} {H : Hashers}

/-- Requests whose texts and hashes are one agree in their parts. -/
theorem parts (h : D.Folds toUnicode H) {n n' : Name} (hn : n ∈ D.names) (hn' : n' ∈ D.names) {t t' : RecordType}
    (ht : t ∈ D.types) (ht' : t' ∈ D.types) (hshare : D.ShareHash H t t') {g g' : String} (hg : g ∈ D.groups)
    (hg' : g' ∈ D.groups) {e e' : Option ClientSubnet} (he : e ∈ D.subnets) (he' : e' ∈ D.subnets) {rg rg' : String}
    (hrg : rg ∈ D.ruleGroups) (hrg' : rg' ∈ D.ruleGroups)
    (htext : foldText (nameText toUnicode n.toLowercase) t g (foldEcs e) rg =
      foldText (nameText toUnicode n'.toLowercase) t' g' (foldEcs e') rg') :
    (n == n') = true ∧ g = g' ∧ e.map (·.net) = e'.map (·.net) := by
  obtain ⟨o, ho, s, hs, o', ho', s', hs', hhash⟩ := hshare
  obtain ⟨c, hc⟩ := D.classes_nonempty
  have hsame := h _ _ (admits_requestOf n t c g e rg o s hn ht hc hg he hrg ho hs)
    (admits_requestOf n' t' c g' e' rg' o' s' hn' ht' hc hg' he' hrg' ho' hs')
    (by rw [inflightKey_requestOf, inflightKey_requestOf]; exact buildInflightKey_inj.mpr ⟨htext, hhash⟩)
  have hsubnet := hsame.subnet
  rw [NsRequest.lookupOptions, NsRequest.lookupOptions, clientSubnet_requestOf, clientSubnet_requestOf] at hsubnet
  exact ⟨hsame.name, hsame.serverGroup, hsubnet⟩

theorem shareHash_self (t : RecordType) : D.ShareHash H t t := by
  obtain ⟨o, ho⟩ := D.options_nonempty
  obtain ⟨s, hs⟩ := D.servers_nonempty
  exact ⟨o, ho, s, hs, o, ho, s, hs, rfl⟩

/-- Options and switches with one hash are one, for a type of addresses. -/
theorem hashed (h : D.Folds toUnicode H) {t : RecordType} (ht : t ∈ D.types) (hip : t.isIpAddr = true)
    {o o' : SpeedOptions} (ho : o ∈ D.options) (ho' : o' ∈ D.options) {s s' : List NameServerOpts} (hs : s ∈ D.servers)
    (hs' : s' ∈ D.servers) (hhash : procHash H t o s = procHash H t o' s') : o = o' ∧ switches s = switches s' := by
  obtain ⟨n, hn⟩ := D.names_nonempty
  obtain ⟨c, hc⟩ := D.classes_nonempty
  obtain ⟨g, hg⟩ := D.groups_nonempty
  obtain ⟨e, he⟩ := D.subnets_nonempty
  obtain ⟨rg, hrg⟩ := D.ruleGroups_nonempty
  have hsame := h _ _ (admits_requestOf n t c g e rg o s hn ht hc hg he hrg ho hs)
    (admits_requestOf n t c g e rg o' s' hn ht hc hg he hrg ho' hs')
    (by rw [inflightKey_requestOf, inflightKey_requestOf, hhash])
  have hopts := hsame.options
  rw [ipOpts_requestOf, ipOpts_requestOf, if_pos hip, if_pos hip, Option.some.injEq] at hopts
  exact ⟨hopts, hsame.switches hip⟩

/-- The condition is needed. -/
theorem separates (h : D.Folds toUnicode H) : D.Separates toUnicode H := by
  obtain ⟨n, hn⟩ := D.names_nonempty
  obtain ⟨t, ht⟩ := D.types_nonempty
  obtain ⟨c, hc⟩ := D.classes_nonempty
  obtain ⟨g, hg⟩ := D.groups_nonempty
  obtain ⟨e, he⟩ := D.subnets_nonempty
  obtain ⟨rg, hrg⟩ := D.ruleGroups_nonempty
  obtain ⟨o, ho⟩ := D.options_nonempty
  obtain ⟨s, hs⟩ := D.servers_nonempty
  constructor
  case oneClass =>
    intro c hc c' hc'
    have hsame := h _ _ (admits_requestOf n t c g e rg o s hn ht hc hg he hrg ho hs)
      (admits_requestOf n t c' g e rg o s hn ht hc' hg he hrg ho hs)
      (by rw [inflightKey_requestOf, inflightKey_requestOf])
    exact hsame.queryClass
  case oneUnknown =>
    intro t ht t' ht' hu hu'
    have hip {t : RecordType} (hu : t.isUnknown = true) : t.isIpAddr = false := by
      cases t <;> first | rfl | cases hu
    have hkey : (requestOf n t c g e rg o s).inflightKey toUnicode H =
        (requestOf n t' c g e rg o s).inflightKey toUnicode H := by
      rw [inflightKey_requestOf, inflightKey_requestOf]
      refine buildInflightKey_inj.mpr ⟨?_, ?_⟩
      · rw [foldText, foldText, RecordType.toStr_of_isUnknown hu, RecordType.toStr_of_isUnknown hu']
      · rw [procHash, procHash, hip hu, hip hu']
    have hsame := h _ _ (admits_requestOf n t c g e rg o s hn ht hc hg he hrg ho hs)
      (admits_requestOf n t' c g e rg o s hn ht' hc hg he hrg ho hs) hkey
    exact hsame.recordType
  case names =>
    intro n hn n' hn' htext
    exact (h.parts hn hn' ht ht (shareHash_self t) hg hg he he hrg hrg (by rw [htext])).1
  case nameBorder =>
    intro n hn n' hn' x hx t ht t' ht' hshare g hg g' hg' e he e' he' rg hrg rg' hrg' hrest
    have htext := append_sep_eq_iff.mpr (.inr (.inl ⟨x, hx, hrest⟩))
    have hname := (h.parts hn hn' ht ht' hshare hg hg' he he' hrg hrg' htext).1
    rw [toLowercase_of_beq hname] at hx
    exact ne_append_sep _ x hx
  case groupBorder =>
    intro g hg g' hg' x hx e he e' he' rg hrg rg' hrg' hrest
    have htext : foldText (nameText toUnicode n.toLowercase) t g (foldEcs e) rg =
        foldText (nameText toUnicode n.toLowercase) t g' (foldEcs e') rg' := by
      unfold foldText
      rw [append_sep_eq_iff.mpr (.inr (.inl ⟨x, hx, hrest⟩))]
    have hgroup := (h.parts hn hn ht ht (shareHash_self t) hg hg' he he' hrg hrg' htext).2.1
    rw [hgroup] at hx
    exact ne_append_sep _ x hx
  case subnetBorder =>
    intro hnone subnet hsubnet x hx rg hrg rg' hrg' hrest
    have htext : foldText (nameText toUnicode n.toLowercase) t g (foldEcs none) rg =
        foldText (nameText toUnicode n.toLowercase) t g (foldEcs (some subnet)) rg' := by
      simp only [foldText, foldEcs, hx, hrest, List.nil_append, List.cons_append]
    have hnet := (h.parts hn hn ht ht (shareHash_self t) hg hg hnone hsubnet hrg hrg' htext).2.2
    cases hnet
  case filter =>
    rintro ⟨t, ht, hip⟩ - ⟨s, hs, rfl⟩ - ⟨s', hs', rfl⟩ heq
    refine (h.hashed ht hip ho ho hs hs' ?_).2
    rw [procHash, procHash, foldNameserverFilter, foldNameserverFilter, heq]
  case proc =>
    rintro ⟨t, ht, hip⟩ ⟨o, -⟩ ⟨ho, -, ⟨s, hs, rfl⟩, rfl⟩ ⟨o', -⟩ ⟨ho', -, ⟨s', hs', rfl⟩, rfl⟩ heq
    have hhash : procHash H t o s = procHash H t o' s' := by
      rw [procHash, procHash, if_pos hip, if_pos hip]
      exact heq
    obtain ⟨rfl, hswitches⟩ := h.hashed ht hip ho ho' hs hs' hhash
    rw [hswitches]

end FoldDomain.Folds

/-- **Folding is right for exactly the admitted requests that are told apart** by class, type, the texts of
names, group names and subnets, and the hasher. -/
theorem folds_apart_iff (D : FoldDomain) (toUnicode : List UInt8 → Option String) (H : Hashers) :
    (∀ a b, D.Admits a → D.Admits b → a.inflightKey toUnicode H = b.inflightKey toUnicode H → SameLookup a b) ↔
      D.Separates toUnicode H :=
  ⟨FoldDomain.Folds.separates, fun hD _ _ ha hb hk => hD.sameLookup ha hb hk⟩

/-- Plain names and names of groups without colons leave the class, the types and the hasher. -/
theorem separates_of_plain {D : FoldDomain} {toUnicode : List UInt8 → Option String} {H : Hashers}
    (hclass : ∀ c ∈ D.classes, ∀ c' ∈ D.classes, c = c')
    (hunknown : ∀ t ∈ D.types, ∀ t' ∈ D.types, t.isUnknown = true → t'.isUnknown = true → t = t')
    (hnames : ∀ n ∈ D.names, PlainName n.toLowercase)
    (hgroups : ∀ g ∈ D.groups, ':' ∉ g.toList) (hrules : ∀ rg ∈ D.ruleGroups, ':' ∉ rg.toList)
    (hfilter : Set.InjOn H.filter D.switchLists)
    (hproc : Set.InjOn (fun p : SpeedOptions × UInt64 => H.proc (some p.1) p.2) (D.options ×ˢ (H.filter '' D.switchLists))) :
    D.Separates toUnicode H where
  oneClass := hclass
  oneUnknown := hunknown
  names n hn n' hn' h := by
    have htext : nameText toUnicode n.toLowercase ++ [':'] = nameText toUnicode n'.toLowercase ++ [':'] := by rw [h]
    exact beq_of_toLowercase (nameText_inj (hnames n hn) (hnames n' hn') htext).1
  nameBorder n hn n' hn' x hx := by
    have htext : nameText toUnicode n'.toLowercase ++ [':'] = nameText toUnicode n.toLowercase ++ ':' :: (x ++ [':']) := by
      rw [hx, List.append_assoc, List.cons_append]
    rw [(nameText_inj (hnames n' hn') (hnames n hn) htext).1] at hx
    exact absurd hx (ne_append_sep _ x)
  groupBorder g _ g' hg' x hx := by
    have hmem : ':' ∈ g'.toList := hx ▸ List.mem_append_right _ List.mem_cons_self
    exact absurd hmem (hgroups g' hg')
  subnetBorder _ subnet _ x _ rg hrg rg' _ h := by
    have hmem : ':' ∈ rg.toList := h ▸ List.mem_append_right _ List.mem_cons_self
    exact hrules rg hrg hmem
  filter _ := hfilter
  proc _ := hproc

/-- `A` of the root, as a client asks. -/
def askedIn (c : DNSClass) : NsRequest :=
  requestOf Name.root .A c "default" none "" ⟨.FirstPing, defaultSpeedCheckMode, false⟩ [⟨false, false⟩]

/-- Two clients that ask in different classes share a lookup. -/
theorem classes_are_folded : ¬ ∃ (toUnicode : List UInt8 → Option String) (H : Hashers), ∀ a b : NsRequest,
    a.inflightKey toUnicode H = b.inflightKey toUnicode H → SameLookup a b := by
  rintro ⟨toUnicode, H, h⟩
  have hsame := h (askedIn .IN) (askedIn .CH) rfl
  exact absurd hsame.queryClass (by decide)

end Upstream
end SmartDns
