/-
# The leases a lookup answers from

A lookup of a host should answer with the addresses of the leases the host has at that time. It answers
with the address of one line of the file. Which one follows from the lines alone (`heard`): of
the leases that were not expired when the file was read, each under its full name, the last one of
that very name, else the last one of a `*` host over the same zone, else the last one of
the nearest name above. So the answer is the living leases of the host exactly where that line
belongs to the host, is living still, and has the address of every other living lease of it
(`answersLiving_iff`): a later line hides the earlier ones of its host, a lease that expires is answered
with until the file changes, and a lease without a host name answers for names nobody has.

Key definitions: `leases`, `heard`, `AnswersLiving`, `HearsLiving`.
Key theorems: `find_readLeaseFile`, `findClient_eq_heard`, `cachedClients_run`, `answersLiving_iff`,
`hearsLiving_of_bare`.
-/
import Mathlib.Data.List.Find
import SmartDns.Lib.Runs
import SmartDns.Rule.MapCalls
import SmartDns.Server.Dnsmasq

namespace SmartDns
namespace Rule

open Dns Lib

universe u

variable {T : Type u} (crateMatch : List UInt8 → List UInt8 → Bool)

/-! ### A map collected from a hash map -/

/-- The climb from a name, part by part. -/
theorem climbItems_zero (items : List (WildcardName × T)) (a : Name) :
    climbItems crateMatch items 0 a a.labels =
      match a.labels with
      | [] => atName items a
      | _ :: ls => (atName items a).or
          (((firstSub crateMatch (items.map (·.1)) a).bind (spelled items)).or (ancestors items ls)) := by
  have hat : visitItems crateMatch items 0 a ⟨true, a.labels⟩ = atName items a := visitItems_asked items a a
  cases h : a.labels with
  | nil => rw [climbItems, ← hat, h]
  | cons l ls =>
    have hone : climbItems crateMatch items 1 ⟨true, l :: ls⟩ ls =
        ((firstSub crateMatch (items.map (·.1)) a).bind (spelled items)).or (ancestors items ls) :=
      climbItems_one items h h.symm
    rw [climbItems, hone, ← hat, h]

variable {m : KeyMap WildcardName T} {es : List (WildcardName × T)}

/-- In whatever order the entries are collected, the one of a pattern is found. -/
theorem spelled_of_perm (hes : es.Perm m.entries) (hm : ∀ e ∈ m.entries, e.1.name.isFqdn = true) (p : WildcardName) :
    (spelled es p).map (·.2) = m.get? (p.setFqdn true) := by
  have hbeq {e : WildcardName × T} (he : e ∈ m.entries) : (e.1 == p.setFqdn true) = true ↔ e.1.shape = p.shape := by
    rw [WildcardName.beq_iff, hm e he]
    simp
  cases hs : spelled es p with
  | some e =>
    obtain ⟨hmem, hshape⟩ := spelled_some hs
    have he : e ∈ m.entries := hes.mem_iff.mp hmem
    exact ((KeyMap.get?_eq_some_iff m _ e.2).mpr ⟨e.1, (hbeq he).mpr hshape, he⟩).symm
  | none =>
    cases hget : m.get? (p.setFqdn true) with
    | none => rfl
    | some v =>
      obtain ⟨k, hk, he⟩ := (KeyMap.get?_eq_some_iff m _ v).mp hget
      exact absurd hs (spelled_ne_none (hes.mem_iff.mpr he) ((hbeq he).mp hk))

end Rule

namespace Server

open Dns Rule Lib

/-! ### The line that is heard -/

section Lines

variable (lines : List ClientInfo)

/-- The last line of the name with these labels. -/
def lastUnder (ls : List Label) : Option ClientInfo :=
  lines.reverse.find? fun c => !c.host.isWildcard && c.host.lowers == (⟨true, ls⟩ : Name).lowers

/-- The last line of `*` in front of the name, where the first one spells the name in the same way. -/
def lastStar (ls : List Label) : Option ClientInfo :=
  let starLine := fun c : ClientInfo => c.host.isWildcard && c.host.baseName.lowers == (⟨true, ls⟩ : Name).lowers
  if (lines.find? starLine).any fun c => c.host.baseName.labels == ls then lines.reverse.find? starLine else none

/-- The last line of the name, or of the nearest name above it that has one. -/
def lastAbove : List Label → Option ClientInfo
  | [] => lastUnder lines []
  | l :: ls => (lastUnder lines (l :: ls)).or (lastAbove ls)

def nearestLine : List Label → Option ClientInfo
  | [] => lastUnder lines []
  | l :: ls => (lastUnder lines (l :: ls)).or ((lastStar lines ls).or (lastAbove lines ls))

/-- The line a lookup answers from: the nearest one to the name asked for, else, for a name
outside the zone, to that name in the zone. -/
def heard (zone : Option Name) (name : Name) : Option ClientInfo :=
  let name := LanClientStore.askedName zone name
  (nearestLine lines (asked name).labels).or <|
    match zone with
    | some z => if z.zoneOf name then none else (name.appendDomain z).bind fun n => nearestLine lines (asked n).labels
    | none => none

end Lines

section Find

variable (crateMatch : List UInt8 → List UInt8 → Bool) {lines : List ClientInfo}

/-- The lines as the entries of the map. -/
def entriesOf (lines : List ClientInfo) : List (WildcardName × ClientInfo) :=
  lines.map fun c => (WildcardName.ofName c.host, c)

theorem ofName_of_isWildcard {n : Name} (h : n.isWildcard = true) :
    WildcardName.ofName n = .sub ⟨[]⟩ ⟨true, n.baseName.labels⟩ := by
  obtain ⟨f, _ | ⟨l, ls⟩⟩ := n
  · cases h
  · rw [WildcardName.ofName, if_pos h, Name.baseName_cons]

theorem isWildcard_of_isSub {n : Name} (h : (WildcardName.ofName n).isSub = true) : n.isWildcard = true := by
  unfold WildcardName.ofName at h
  split at h
  · assumption
  · cases h

theorem ofName_isFqdn {n : Name} (h : n.isFqdn = true) : (WildcardName.ofName n).name.isFqdn = true := by
  by_cases hw : n.isWildcard = true
  · rw [ofName_of_isWildcard hw]
    rfl
  · rw [WildcardName.ofName, if_neg hw]
    exact h

theorem ofName_beq_default {n : Name} (h : n.isFqdn = true) (ls : List Label) :
    (WildcardName.ofName n == .default ⟨true, ls⟩) = (!n.isWildcard && n.lowers == (⟨true, ls⟩ : Name).lowers) := by
  rw [Bool.eq_iff_iff, WildcardName.beq_iff, ofName_isFqdn h]
  unfold WildcardName.ofName
  by_cases hw : n.isWildcard = true
  · simp [hw, WildcardName.shape, WildcardName.ord]
  · simp [hw, WildcardName.shape, WildcardName.ord, WildcardName.subPattern]

theorem ofName_beq_sub {n : Name} (h : n.isFqdn = true) (ls : List Label) :
    (WildcardName.ofName n == .sub ⟨[]⟩ ⟨true, ls⟩) =
      (n.isWildcard && n.baseName.lowers == (⟨true, ls⟩ : Name).lowers) := by
  rw [Bool.eq_iff_iff, WildcardName.beq_iff, ofName_isFqdn h]
  unfold WildcardName.ofName
  by_cases hw : n.isWildcard = true
  · simp [hw, WildcardName.shape, WildcardName.ord, WildcardName.subPattern]
  · simp [hw, WildcardName.shape, WildcardName.ord]

theorem ofName_ord (n : Name) : 1 ≤ (WildcardName.ofName n).ord ∧ (WildcardName.ofName n).ord ≠ 2 := by
  unfold WildcardName.ofName
  split <;> simp [WildcardName.ord]

variable (hlines : ∀ c ∈ lines, c.host.isFqdn = true)
include hlines

theorem dotted_of_mem {e : WildcardName × ClientInfo} (h : e ∈ (KeyMap.ofInserts (entriesOf lines)).entries) :
    e.1.name.isFqdn = true := by
  have hkey : e.1 ∈ (KeyMap.ofInserts (entriesOf lines)).keys := List.mem_map_of_mem h
  obtain ⟨x, hx, hxe⟩ := Option.map_eq_some_iff.mp ((KeyMap.mem_keys_ofInserts _ _).mp hkey)
  obtain ⟨c, hc, rfl⟩ := List.mem_map.mp (List.mem_of_find?_eq_some hx)
  exact hxe ▸ ofName_isFqdn (hlines c hc)

variable {es : List (WildcardName × ClientInfo)} (hes : es.Perm (KeyMap.ofInserts (entriesOf lines)).entries)
include hes

theorem spelled_lines (p : WildcardName) : (spelled es p).map (·.2) =
    lines.reverse.find? fun c => WildcardName.ofName c.host == p.setFqdn true := by
  rw [spelled_of_perm hes fun e he => dotted_of_mem hlines he, KeyMap.get?_ofInserts, entriesOf, ← List.map_reverse,
    List.find?_map, Option.map_map]
  exact Option.map_id_fun' ▸ rfl

theorem spelled_default (n : Name) : (spelled es (.default n)).map (·.2) = lastUnder lines n.labels := by
  rw [spelled_lines hlines hes]
  apply List.find?_congr
  intro c hc
  exact ofName_beq_default (hlines c (List.mem_reverse.mp hc)) n.labels

/-- No host is a pattern of another kind. -/
theorem spelled_eq_none {p : WildcardName} (hp : p.ord = 0 ∨ p.ord = 2) : spelled es p = none := by
  rw [← Option.map_eq_none_iff (f := (·.2)), spelled_lines hlines hes, List.find?_eq_none]
  intro c _ hbeq
  have hord : (WildcardName.ofName c.host).ord = p.ord := by
    have := congrArg Prod.fst ((WildcardName.beq_iff _ _).mp hbeq).2
    rwa [WildcardName.shape_setFqdn] at this
  have := ofName_ord c.host
  omega

theorem atName_lines (n : Name) : (atName es n).map (·.2) = lastUnder lines n.labels := by
  rw [atName, spelled_eq_none hlines hes (.inl rfl), Option.none_or, spelled_default hlines hes]

theorem ancestors_lines (ls : List Label) : (ancestors es ls).map (·.2) = lastAbove lines ls := by
  have hsuffix (n : Name) : spelled es (.suffix n) = none := spelled_eq_none hlines hes (.inr rfl)
  induction ls with
  | nil => rw [ancestors, hsuffix, Option.none_or, spelled_default hlines hes, lastAbove]
  | cons l ls ih =>
    rw [ancestors, hsuffix, Option.none_or, Option.map_or, spelled_default hlines hes, ih, lastAbove]

/-- The star pattern over a name is found where its first line spells the name as it is asked for. -/
theorem firstSub_lines (a : Name) :
    ((firstSub crateMatch (es.map (·.1)) a).bind (spelled es)).map (·.2) = lastStar lines a.baseName.labels := by
  have hover {c : ClientInfo} (hc : c ∈ lines) (ls : List Label) :
      (c.host.isWildcard && c.host.baseName.lowers == (⟨true, ls⟩ : Name).lowers) =
        (WildcardName.ofName c.host == .sub ⟨[]⟩ ⟨true, ls⟩) := (ofName_beq_sub (hlines c hc) ls).symm
  have hfind (ls : List Label) : (lines.find? fun c => c.host.isWildcard && c.host.baseName.lowers ==
      (⟨true, ls⟩ : Name).lowers) = lines.find? fun c => WildcardName.ofName c.host == .sub ⟨[]⟩ ⟨true, ls⟩ :=
    List.find?_congr fun c hc => hover hc ls
  have hkeys (p : WildcardName) : p ∈ es.map (·.1) ↔
      (lines.find? fun c => WildcardName.ofName c.host == p).map (fun c => WildcardName.ofName c.host) = some p := by
    have hmem : p ∈ es.map (·.1) ↔ p ∈ (KeyMap.ofInserts (entriesOf lines)).keys := (hes.map _).mem_iff
    rw [hmem, KeyMap.mem_keys_ofInserts, entriesOf, List.find?_map, Option.map_map]
    rfl
  have hmatch (ls : List Label) : (WildcardName.sub ⟨[]⟩ ⟨true, ls⟩).isMatch crateMatch a = true ↔
      ls = a.baseName.labels := by
    have hlabel : ((a.labels.head?.map fun x => Wildcard.isMatch crateMatch ⟨[]⟩ x.bytes).getD true) = true := by
      cases a.labels.head? <;> rfl
    rw [WildcardName.isMatch, hlabel, Bool.and_true, Name.eqIgnoreRootCase_iff]
  unfold lastStar
  simp only
  rw [hfind]
  cases hfirst : firstSub crateMatch (es.map (·.1)) a with
  | some p =>
    obtain ⟨hmem, hpsub, hpmatch⟩ := firstSub_some hfirst
    obtain ⟨c, hc, hcp⟩ := Option.map_eq_some_iff.mp ((hkeys p).mp hmem)
    have hp : p = .sub ⟨[]⟩ ⟨true, c.host.baseName.labels⟩ :=
      hcp.symm.trans (ofName_of_isWildcard (isWildcard_of_isSub (hcp ▸ hpsub)))
    have hbase : c.host.baseName.labels = a.baseName.labels := (hmatch _).mp (hp ▸ hpmatch)
    rw [hbase] at hp
    rw [hp] at hc ⊢
    rw [hc, Option.any_some, hbase, beq_self_eq_true, if_pos rfl, Option.bind_some, spelled_lines hlines hes]
    exact List.find?_congr fun c hc => (hover (List.mem_reverse.mp hc) _).symm
  | none =>
    rw [Option.bind_none, Option.map_none, if_neg]
    intro hany
    obtain ⟨c, hc, hspelled⟩ := (Option.any_eq_true _ _).mp hany
    have hbase : c.host.baseName.labels = a.baseName.labels := beq_iff_eq.mp hspelled
    have hw : c.host.isWildcard = true := by
      have hbeq := List.find?_some hc
      rw [ofName_beq_sub (hlines c (List.mem_of_find?_eq_some hc))] at hbeq
      exact (Bool.and_eq_true_iff.mp hbeq).1
    have hp : WildcardName.ofName c.host = .sub ⟨[]⟩ ⟨true, a.baseName.labels⟩ := hbase ▸ ofName_of_isWildcard hw
    have hmem : WildcardName.sub ⟨[]⟩ ⟨true, a.baseName.labels⟩ ∈ es.map (·.1) := by
      rw [hkeys, hc, Option.map_some, hp]
    have hnot := List.find?_eq_none.mp hfirst _ hmem
    exact hnot (Bool.and_eq_true_iff.mpr ⟨rfl, (hmatch _).mpr rfl⟩)

/-- **The map that is read finds the nearest line.** -/
theorem find_lines (name : Name) :
    (DomainMap.collect es).find crateMatch name = nearestLine lines (asked name).labels := by
  have hdotted : ∀ e ∈ es, e.1.name.isFqdn = true := fun e he => dotted_of_mem hlines (hes.mem_iff.mp he)
  rw [collect_of_dotted hdotted, DomainMap.find_ofList, nearest, climbItems_zero]
  cases h : (asked name).labels with
  | nil =>
    simp only
    rw [atName_lines hlines hes, h, nearestLine]
  | cons l ls =>
    have hbase : (asked name).baseName.labels = ls := by rw [Name.baseName_labels, h, List.tail_cons]
    simp only [Option.map_or]
    rw [atName_lines hlines hes, firstSub_lines crateMatch hlines hes, ancestors_lines hlines hes, hbase, h,
      nearestLine]

end Find

/-! ### The lines that are loaded -/

section

variable (readName : List Char → Option Name) (crateMatch : List UInt8 → List UInt8 → Bool)

/-- The leases of the file, in order. -/
def leases (file : List UInt8) : List ClientInfo := (readLines file).filterMap (readLease readName)

/-- Those that were not expired at that time, each under its full name. -/
def loadedAt (zone : Option Name) (nowTs : ℤ) (leases : List ClientInfo) : List ClientInfo :=
  (leases.filter fun c => !c.isExpired nowTs).map (ClientInfo.inZone zone)

theorem foldl_insertLease (zone : Option Name) (nowTs : ℤ) : ∀ (lines : List (List Char))
    (map : KeyMap WildcardName ClientInfo), lines.foldl (insertLease readName zone nowTs) map =
      (entriesOf (loadedAt zone nowTs (lines.filterMap (readLease readName)))).foldl (fun m e => m.insert e.1 e.2) map
  | [], _ => rfl
  | line :: lines, map => by
    rw [List.foldl_cons, foldl_insertLease zone nowTs lines]
    unfold insertLease
    cases h : readLease readName line with
    | none => rw [List.filterMap_cons_none h]
    | some c =>
      rw [List.filterMap_cons_some h]
      by_cases he : c.isExpired nowTs = true
      · simp [loadedAt, he]
      · simp [loadedAt, he, entriesOf]

theorem isFqdn_of_mem_loadedAt {zone : Option Name} {nowTs : ℤ} {ls : List ClientInfo} {c : ClientInfo}
    (h : c ∈ loadedAt zone nowTs ls) : c.host.isFqdn = true := by
  obtain ⟨c, -, rfl⟩ := List.mem_map.mp h
  rfl

/-- The file is unchanged. -/
def Moment.Sees (m : Moment) (file : List UInt8) (modified : Option ℕ) : Prop :=
  m.content = some file ∧ m.modified = modified

/-- The map is that of the file as it was read at that time. -/
def ReadAt (file : List UInt8) (zone : Option Name) (nowTs : ℤ) (clients : DomainMap ClientInfo) : Prop :=
  ∃ es : List (WildcardName × ClientInfo),
    es.Perm (KeyMap.ofInserts (entriesOf (loadedAt zone nowTs (leases readName file)))).entries ∧
    clients = DomainMap.collect es

variable {readName} {file : List UInt8} {modified : Option ℕ} {zone : Option Name} {nowTs : ℤ} {m : Moment}

variable (readName) in
theorem readLeaseFile_of_sees (hm : m.Sees file modified) (nowTs : ℤ) (zone : Option Name) :
    ∃ clients, readLeaseFile readName nowTs m zone = some clients ∧ ReadAt readName file zone nowTs clients := by
  refine ⟨_, by rw [readLeaseFile, hm.1, Option.map_some], _, m.order_perm _, ?_⟩
  rw [foldl_insertLease]
  rfl

theorem ReadAt.find {clients : DomainMap ClientInfo} (h : ReadAt readName file zone nowTs clients) (name : Name) :
    clients.find crateMatch name =
      nearestLine (loadedAt zone nowTs (leases readName file)) (asked name).labels := by
  obtain ⟨es, hes, rfl⟩ := h
  exact find_lines crateMatch (fun _ hc => isFqdn_of_mem_loadedAt hc) hes name

/-- **A lookup takes the address of the line that is heard.** -/
theorem ReadAt.findClient {clients : DomainMap ClientInfo} (h : ReadAt readName file zone nowTs clients)
    (name : Name) :
    LanClientStore.findClient crateMatch clients zone name =
      heard (loadedAt zone nowTs (leases readName file)) zone name := by
  have hfind : clients.find crateMatch = fun n =>
      nearestLine (loadedAt zone nowTs (leases readName file)) (asked n).labels := funext (h.find crateMatch)
  unfold LanClientStore.findClient heard
  cases zone with
  | none => exact congrArg (Option.or · none) (congrFun hfind _)
  | some z => simp only [hfind]

/-! ### As long as the file is unchanged -/

namespace LanClientStore

/-- What a lookup asks for, and what it meets. -/
structure Call where
  moment : Moment
  name : Name
  recordType : RecordType

variable (readName) in
def step (s : LanClientStore) (nowTs : ℤ) (c : Call) : LanClientStore :=
  (s.lookup readName crateMatch nowTs c.moment c.name c.recordType).2

/-- The time of the first lookup of an address, which reads the file. -/
def loadTime (calls : List (ℤ × Call)) : Option ℤ := (calls.find? (·.2.recordType.isIpAddr)).map (·.1)

variable (readName) in
/-- The store holds what the file was at that time. -/
def Holds (file : List UInt8) (modified : Option ℕ) (nowTs : ℤ) (s : LanClientStore) : Prop :=
  ∃ c, s.cache = some c ∧ c.modifiedAt = modified ∧ ReadAt readName file s.zone nowTs c.clients

variable {s : LanClientStore} {t : ℤ}

variable (readName) in
theorem zone_refresh (s : LanClientStore) (nowTs : ℤ) (m : Moment) :
    (s.refresh readName nowTs m).2.zone = s.zone := by
  unfold refresh
  cases readLeaseFile readName nowTs m s.zone with
  | some clients => rfl
  | none => cases h : s.cache <;> rfl

variable (readName) in
theorem zone_cachedClients (s : LanClientStore) (nowTs : ℤ) (m : Moment) :
    (s.cachedClients readName nowTs m).2.zone = s.zone := by
  unfold cachedClients
  cases s.cache with
  | none => exact zone_refresh readName s nowTs m
  | some cache =>
    simp only
    split_ifs
    · rfl
    · rfl
    · exact zone_refresh readName s nowTs m

variable (readName) in
/-- An empty store reads the file. -/
theorem cachedClients_of_none (hs : s.cache = none) (hm : m.Sees file modified) (nowTs : ℤ) :
    ∃ clients, (s.cachedClients readName nowTs m).1 = some clients ∧ ReadAt readName file s.zone nowTs clients ∧
      Holds readName file modified nowTs (s.cachedClients readName nowTs m).2 := by
  obtain ⟨clients, hread, hclients⟩ := readLeaseFile_of_sees readName hm nowTs s.zone
  have hcached : s.cachedClients readName nowTs m =
      (some clients, { s with cache := some ⟨clients, m.modified, m.now⟩ }) := by
    simp only [cachedClients, refresh, hs, hread]
  rw [hcached]
  exact ⟨clients, rfl, hclients, ⟨clients, m.modified, m.now⟩, rfl, hm.2, hclients⟩

/-- A store that has read the file does not read it again. -/
theorem Holds.cachedClients (h : Holds readName file modified t s) (hm : m.Sees file modified) (nowTs : ℤ) :
    ∃ clients, (s.cachedClients readName nowTs m).1 = some clients ∧ ReadAt readName file s.zone t clients ∧
      Holds readName file modified t (s.cachedClients readName nowTs m).2 := by
  obtain ⟨c, hcache, hmodified, hclients⟩ := h
  have hsame : c.modifiedAt = m.modified := hmodified.trans hm.2.symm
  by_cases hsoon : m.now - c.checkedAt < leaseFileStatInterval
  · have hcached : s.cachedClients readName nowTs m = (some c.clients, s) := by
      simp only [LanClientStore.cachedClients, hcache, if_pos hsoon]
    rw [hcached]
    exact ⟨c.clients, rfl, hclients, c, hcache, hmodified, hclients⟩
  · have hcached : s.cachedClients readName nowTs m =
        (some c.clients, { s with cache := some { c with checkedAt := m.now } }) := by
      simp only [LanClientStore.cachedClients, hcache, if_neg hsoon, if_pos hsame]
    rw [hcached]
    exact ⟨c.clients, rfl, hclients, { c with checkedAt := m.now }, rfl, hmodified, hclients⟩

theorem lookup_of_isIpAddr {recordType : RecordType} (h : recordType.isIpAddr = true) (s : LanClientStore) (nowTs : ℤ)
    (m : Moment) (name : Name) : s.lookup readName crateMatch nowTs m name recordType =
      ((s.cachedClients readName nowTs m).1.bind fun store =>
        (LanClientStore.findClient crateMatch store s.zone name).map (answer recordType),
        (s.cachedClients readName nowTs m).2) := by
  have hzone := zone_cachedClients readName s nowTs m
  unfold lookup
  rw [if_pos h]
  generalize s.cachedClients readName nowTs m = r at hzone ⊢
  obtain ⟨_ | store, s'⟩ := r
  · rfl
  · rw [← hzone]
    rfl

theorem lookup_of_not_isIpAddr {recordType : RecordType} (h : ¬ recordType.isIpAddr = true) (s : LanClientStore)
    (nowTs : ℤ) (m : Moment) (name : Name) :
    s.lookup readName crateMatch nowTs m name recordType = (none, s) := if_neg h

variable {crateMatch} in
theorem Holds.step (h : Holds readName file modified t s) (hzone : s.zone = zone) (nowTs : ℤ) {c : Call}
    (hc : c.moment.Sees file modified) : Holds readName file modified t (s.step readName crateMatch nowTs c) ∧
      (s.step readName crateMatch nowTs c).zone = zone := by
  unfold LanClientStore.step
  by_cases hip : c.recordType.isIpAddr = true
  · rw [lookup_of_isIpAddr crateMatch hip]
    obtain ⟨_, _, _, hholds⟩ := h.cachedClients hc nowTs
    exact ⟨hholds, (zone_cachedClients readName s nowTs c.moment).trans hzone⟩
  · rw [lookup_of_not_isIpAddr crateMatch hip]
    exact ⟨h, hzone⟩

/-- The store is empty until an address is looked up, and then holds the file as it was at that time. -/
def Loaded (readName : List Char → Option Name) (file : List UInt8) (modified : Option ℕ) (zone : Option Name)
    (loaded : Option ℤ) (s : LanClientStore) : Prop :=
  s.zone = zone ∧
    match loaded with
    | none => s.cache = none
    | some t => Holds readName file modified t s

/-- **As long as the file is unchanged the store holds it as it was first read.** -/
theorem loaded_run : ∀ {calls : List (ℤ × Call)} {s : LanClientStore},
    (∀ c ∈ calls, c.2.moment.Sees file modified) → s.zone = zone → s.cache = none →
    Loaded readName file modified zone (loadTime calls) (Lib.run (step readName crateMatch) s calls)
  | [], _, _, hzone, hs => ⟨hzone, hs⟩
  | c :: calls, s, hcalls, hzone, hs => by
    obtain ⟨hc, hcalls⟩ := List.forall_mem_cons.mp hcalls
    rw [run_cons, loadTime, List.find?_cons]
    by_cases hip : c.2.recordType.isIpAddr = true
    · rw [hip]
      have hfirst : Holds readName file modified c.1 (s.step readName crateMatch c.1 c.2) ∧
          (s.step readName crateMatch c.1 c.2).zone = zone := by
        unfold LanClientStore.step
        rw [lookup_of_isIpAddr crateMatch hip]
        obtain ⟨_, _, _, hholds⟩ := cachedClients_of_none readName hs hc c.1
        exact ⟨hholds, (zone_cachedClients readName s c.1 c.2.moment).trans hzone⟩
      have hrest := run_invariant_of_mem (step readName crateMatch)
        (I := fun s => Holds readName file modified c.1 s ∧ s.zone = zone) (P := fun c => c.moment.Sees file modified)
        (fun s t a h ha => h.1.step h.2 t ha) calls _ hfirst hcalls
      exact ⟨hrest.2, hrest.1⟩
    · have hstep : s.step readName crateMatch c.1 c.2 = s := by
        unfold LanClientStore.step
        rw [lookup_of_not_isIpAddr crateMatch hip]
      rw [Bool.eq_false_iff.mpr hip, hstep]
      exact loaded_run hcalls hzone hs

/-- The store answers from the file as it was when it was read, or as it is. -/
theorem Loaded.cachedClients {loaded : Option ℤ} (h : Loaded readName file modified zone loaded s)
    (hm : m.Sees file modified) (nowTs : ℤ) :
    ∃ clients, (s.cachedClients readName nowTs m).1 = some clients ∧
      ReadAt readName file zone (loaded.getD nowTs) clients := by
  obtain ⟨rfl, h⟩ := h
  cases loaded with
  | none =>
    obtain ⟨clients, hcached, hread, -⟩ := cachedClients_of_none readName h hm nowTs
    exact ⟨clients, hcached, hread⟩
  | some t =>
    obtain ⟨clients, hcached, hread, -⟩ := Holds.cachedClients h hm nowTs
    exact ⟨clients, hcached, hread⟩

end LanClientStore

/-! ### The living leases of a host -/

/-- The leases of the host that are not expired at that time. -/
def livingAt (nowTs : ℤ) (host : Name) (leases : List ClientInfo) : List ClientInfo :=
  leases.filter fun c => c.host.lowers == host.lowers && !c.isExpired nowTs

/-- The client of a lookup. -/
def LanClientStore.client (readName : List Char → Option Name) (crateMatch : List UInt8 → List UInt8 → Bool)
    (s : LanClientStore) (nowTs : ℤ) (m : Moment) (name : Name) : Option ClientInfo :=
  (s.cachedClients readName nowTs m).1.bind fun store => LanClientStore.findClient crateMatch store s.zone name

/-- A lookup of `name` answers with the living leases of `host`, and never from a lease without a
host name. -/
structure AnswersLiving (readName : List Char → Option Name) (crateMatch : List UInt8 → List UInt8 → Bool)
    (s : LanClientStore) (nowTs : ℤ) (m : Moment) (leases : List ClientInfo) (host name : Name) : Prop where
  none_iff : ∀ recordType : RecordType, recordType.isIpAddr = true →
    ((s.lookup readName crateMatch nowTs m name recordType).1 = none ↔ livingAt nowTs host leases = [])
  mem_iff : ∀ (recordType : RecordType) (rdatas : List RData), recordType.isIpAddr = true →
    (s.lookup readName crateMatch nowTs m name recordType).1 = some rdatas → ∀ rdata, rdata ∈ rdatas ↔
      ∃ c ∈ livingAt nowTs host leases, c.ip.recordType = recordType ∧ rdata = .ofIpAddr c.ip
  unnamed : ∀ c ∈ leases, c.host.lowers = [Label.star.bytes] →
    s.client readName crateMatch nowTs m name ≠ some (c.inZone s.zone)

/-- The line heard has the address of every living lease of the host, of which there is one, and is no
lease without a host name; or there is no line and no living lease. -/
def HearsLiving (zone : Option Name) (loadTs nowTs : ℤ) (leases : List ClientInfo) (host name : Name) : Prop :=
  (heard (loadedAt zone loadTs leases) zone name = none ∧ livingAt nowTs host leases = []) ∨
  ∃ line, heard (loadedAt zone loadTs leases) zone name = some line ∧ livingAt nowTs host leases ≠ [] ∧
    (∀ c ∈ livingAt nowTs host leases, c.ip = line.ip) ∧
    ∀ c ∈ leases, c.host.lowers = [Label.star.bytes] → c.inZone zone ≠ line

/-- Where a line is heard, its address is that of the living leases. -/
theorem HearsLiving.same {zone : Option Name} {loadTs nowTs : ℤ} {leases : List ClientInfo} {host name : Name}
    (h : HearsLiving zone loadTs nowTs leases host name) {a : Dns.IpAddr}
    (ha : (heard (loadedAt zone loadTs leases) zone name).map (·.ip) = some a) :
    (livingAt nowTs host leases).map (·.ip) ≠ [] ∧ ∀ b ∈ (livingAt nowTs host leases).map (·.ip), b = a := by
  obtain ⟨line, hline, rfl⟩ := Option.map_eq_some_iff.mp ha
  rcases h with ⟨hnone, -⟩ | ⟨line', hline', hne, hsame, -⟩
  · rw [hline] at hnone
    cases hnone
  obtain rfl : line' = line := Option.some.inj (hline'.symm.trans hline)
  refine ⟨fun hnil => hne (List.map_eq_nil_iff.mp hnil), fun b hb => ?_⟩
  obtain ⟨c, hc, rfl⟩ := List.mem_map.mp hb
  exact hsame c hc

open LanClientStore (answer)

theorem answer_eq (recordType : RecordType) (c : ClientInfo) :
    answer recordType c = if c.ip.recordType = recordType then [.ofIpAddr c.ip] else [] := by
  unfold answer
  cases c.ip with
  | v4 v => cases recordType <;> rfl
  | v6 v => cases recordType <;> rfl

theorem ofIpAddr_inj {a b : Dns.IpAddr} (h : RData.ofIpAddr a = RData.ofIpAddr b) : a = b := by
  have := congrArg RData.ipAddr h
  rw [RData.ipAddr_ofIpAddr, RData.ipAddr_ofIpAddr] at this
  exact Option.some.inj this

theorem isIpAddr_recordType (a : Dns.IpAddr) : a.recordType.isIpAddr = true := by cases a <;> rfl

/-- One address is all the living leases have exactly where each of them has it. -/
theorem mem_answer_iff {living : List ClientInfo} {line : ClientInfo} (hne : living ≠ []) :
    (∀ recordType : RecordType, recordType.isIpAddr = true → ∀ rdata, rdata ∈ answer recordType line ↔
      ∃ c ∈ living, c.ip.recordType = recordType ∧ rdata = .ofIpAddr c.ip) ↔ ∀ c ∈ living, c.ip = line.ip := by
  constructor
  · intro h c hc
    have hmem := (h c.ip.recordType (isIpAddr_recordType c.ip) _).mpr ⟨c, hc, rfl, rfl⟩
    rw [answer_eq] at hmem
    split at hmem
    · exact ofIpAddr_inj (List.mem_singleton.mp hmem)
    · cases hmem
  · intro h recordType _ rdata
    rw [answer_eq]
    constructor
    · intro hmem
      obtain ⟨c, hc⟩ := List.exists_mem_of_ne_nil living hne
      split at hmem
      · rename_i hfamily
        exact ⟨c, hc, h c hc ▸ hfamily, h c hc ▸ List.mem_singleton.mp hmem⟩
      · cases hmem
    · rintro ⟨c, hc, hfamily, rfl⟩
      rw [h c hc] at hfamily ⊢
      rw [if_pos hfamily]
      exact List.mem_singleton_self _

open LanClientStore (Call Loaded loadTime)

/-- The two conditions for a store that holds the file. -/
theorem answersLiving_of_loaded {s : LanClientStore} {loaded : Option ℤ}
    (hs : Loaded readName file modified zone loaded s) (hm : m.Sees file modified) (nowTs : ℤ) (host name : Name) :
    AnswersLiving readName crateMatch s nowTs m (leases readName file) host name ↔
      HearsLiving zone (loaded.getD nowTs) nowTs (leases readName file) host name := by
  obtain ⟨clients, hcached, hread⟩ := hs.cachedClients hm nowTs
  have hclient : s.client readName crateMatch nowTs m name =
      heard (loadedAt zone (loaded.getD nowTs) (leases readName file)) zone name := by
    rw [LanClientStore.client, hcached, Option.bind_some, hs.1, hread.findClient]
  have hlookup {recordType : RecordType} (h : recordType.isIpAddr = true) :
      (s.lookup readName crateMatch nowTs m name recordType).1 =
        (heard (loadedAt zone (loaded.getD nowTs) (leases readName file)) zone name).map (answer recordType) := by
    rw [LanClientStore.lookup_of_isIpAddr crateMatch h, hcached, Option.bind_some, hs.1, hread.findClient]
  cases hheard : heard (loadedAt zone (loaded.getD nowTs) (leases readName file)) zone name with
  | none =>
    rw [hheard] at hclient
    simp only [hheard, Option.map_none] at hlookup
    constructor
    · exact fun h => .inl ⟨hheard, (h.none_iff .A rfl).mp (hlookup rfl)⟩
    · rintro (⟨-, h⟩ | ⟨line, hline, -⟩)
      case inr =>
        rw [hheard] at hline
        cases hline
      refine ⟨fun recordType hip => ?_, fun recordType rdatas hip hsome => ?_, fun c _ _ => ?_⟩
      · rw [hlookup hip]
        exact iff_of_true rfl h
      · rw [hlookup hip] at hsome
        cases hsome
      · rw [hclient]
        exact (Option.some_ne_none _).symm
  | some line =>
    rw [hheard] at hclient
    simp only [hheard, Option.map_some] at hlookup
    constructor
    · intro h
      have hne : livingAt nowTs host (leases readName file) ≠ [] := by
        intro hnil
        have := (h.none_iff .A rfl).mpr hnil
        rw [hlookup rfl] at this
        cases this
      have hsame := (mem_answer_iff hne).mp fun recordType hip => h.mem_iff recordType _ hip (hlookup hip)
      refine .inr ⟨line, hheard, hne, hsame, ?_⟩
      intro c hc hstar heq
      apply h.unnamed c hc hstar
      rw [hclient, hs.1, heq]
    · rintro (⟨hnone, -⟩ | ⟨line', hline, hne, hsame, hunnamed⟩)
      · rw [hheard] at hnone
        cases hnone
      obtain rfl : line' = line := Option.some.inj (hline.symm.trans hheard)
      refine ⟨fun recordType hip => ?_, fun recordType rdatas hip hsome => ?_, fun c hc hstar => ?_⟩
      · rw [hlookup hip]
        exact iff_of_false (Option.some_ne_none _) hne
      · rw [hlookup hip] at hsome
        obtain rfl := Option.some.inj hsome
        exact (mem_answer_iff hne).mpr hsame recordType hip
      · rw [hclient, hs.1]
        exact fun heq => hunnamed c hc hstar (Option.some.inj heq).symm

/-- The name asked first for a bare name is the one its leases are under. -/
theorem askedName_lowers {c : ClientInfo} {name : Name} (hrel : name.isFqdn = false)
    (h : c.host.lowers = name.lowers) (zone : Option Name) :
    (c.inZone zone).host.lowers = (LanClientStore.askedName zone name).lowers := by
  unfold ClientInfo.inZone LanClientStore.askedName
  rw [hrel]
  cases zone with
  | none => exact h
  | some z =>
    have happend := Name.appendName_congr h z
    show ((c.host.appendName z).getD c.host).lowers = ((name.appendName z).getD name).lowers
    cases hc : c.host.appendName z with
    | none =>
      rw [hc, Option.map_none, eq_comm, Option.map_eq_none_iff] at happend
      rw [happend]
      exact h
    | some n =>
      rw [hc, Option.map_some, eq_comm, Option.map_eq_some_iff] at happend
      obtain ⟨n', hn', hlowers⟩ := happend
      rw [hn']
      exact hlowers.symm

/-- A name that has a line of its own hears the last one. -/
theorem heard_of_lastUnder {lines : List ClientInfo} {name : Name} {line : ClientInfo}
    (hname : (LanClientStore.askedName zone name).isWildcard = false)
    (h : lastUnder lines (LanClientStore.askedName zone name).labels = some line) :
    heard lines zone name = some line := by
  have hnearest : nearestLine lines (LanClientStore.askedName zone name).labels = some line := by
    generalize (LanClientStore.askedName zone name).labels = ls at h
    cases ls with
    | nil => exact h
    | cons l ls => rw [nearestLine, h, Option.some_or]
  unfold heard
  simp only
  rw [asked_of_not_isWildcard hname, Name.setFqdn_labels, hnearest, Option.some_or]

theorem isWildcard_inZone {c : ClientInfo} (h : c.host.lowers = [Label.star.bytes]) (zone : Option Name) :
    (c.inZone zone).host.isWildcard = true := by
  have hw : c.host.isWildcard = true := isWildcard_congr (q := ⟨true, [Label.star]⟩) h
  have happend (z : Name) : ((c.host.appendName z).getD c.host).isWildcard = true := by
    rw [Name.appendName_eq]
    generalize c.host = n at hw
    obtain ⟨f, _ | ⟨l, ls⟩⟩ := n
    · cases hw
    · split <;> exact hw
  cases zone with
  | none => exact hw
  | some z => exact happend z

/-- A host asked for by its bare name is answered with its living leases as long as one address is
under its full name, and a lease of it is living. -/
theorem hearsLiving_of_bare {loadTs nowTs : ℤ} {leases : List ClientInfo} {host name : Name} {ip : Dns.IpAddr}
    (hle : loadTs ≤ nowTs) (hrel : name.isFqdn = false) (hname : name.lowers = host.lowers)
    (hstar : (LanClientStore.askedName zone name).isWildcard = false) (hliving : livingAt nowTs host leases ≠ [])
    (hsame : ∀ c ∈ loadedAt zone loadTs leases,
      c.host.lowers = (LanClientStore.askedName zone name).lowers → c.ip = ip) :
    HearsLiving zone loadTs nowTs leases host name := by
  have hasked {c : ClientInfo} (hc : c ∈ livingAt nowTs host leases) : c.inZone zone ∈ loadedAt zone loadTs leases ∧
      (c.inZone zone).host.lowers = (LanClientStore.askedName zone name).lowers := by
    obtain ⟨hmem, hcond⟩ := List.mem_filter.mp hc
    obtain ⟨hhost, hliving⟩ := Bool.and_eq_true_iff.mp hcond
    refine ⟨List.mem_map_of_mem (List.mem_filter.mpr ⟨hmem, ?_⟩), ?_⟩
    · simp only [ClientInfo.isExpired, Bool.not_eq_true', Bool.and_eq_false_iff, decide_eq_false_iff_not] at hliving ⊢
      omega
    · exact askedName_lowers hrel ((beq_iff_eq.mp hhost).trans hname.symm) zone
  have hline : lastUnder (loadedAt zone loadTs leases) (LanClientStore.askedName zone name).labels ≠ none := by
    obtain ⟨c, hc⟩ := List.exists_mem_of_ne_nil _ hliving
    obtain ⟨hmem, hlowers⟩ := hasked hc
    intro hnone
    apply List.find?_eq_none.mp hnone _ (List.mem_reverse.mpr hmem)
    rw [isWildcard_congr hlowers, hstar, hlowers]
    exact beq_self_eq_true _
  obtain ⟨line, hline⟩ := Option.ne_none_iff_exists'.mp hline
  have hunder : (!line.host.isWildcard && line.host.lowers == (LanClientStore.askedName zone name).lowers) = true :=
    List.find?_some (p := fun c : ClientInfo => !c.host.isWildcard && c.host.lowers ==
      (LanClientStore.askedName zone name).lowers) hline
  obtain ⟨hnot, hunder⟩ := Bool.and_eq_true_iff.mp hunder
  have hip : line.ip = ip :=
    hsame line (List.mem_reverse.mp (List.mem_of_find?_eq_some hline)) (beq_iff_eq.mp hunder)
  refine .inr ⟨line, heard_of_lastUnder hstar hline, hliving, fun c hc => ?_, fun c _ hc heq => ?_⟩
  · obtain ⟨hmem, hlowers⟩ := hasked hc
    exact (hsame _ hmem hlowers).trans hip.symm
  · rw [← heq, isWildcard_inZone hc zone] at hnot
    cases hnot

/-- **A lookup answers with the living leases of a host exactly where the line that is heard speaks for
all of them.** -/
theorem answersLiving_iff (zone : Option Name) {calls : List (ℤ × Call)}
    (hcalls : ∀ c ∈ calls, c.2.moment.Sees file modified) (hm : m.Sees file modified) (nowTs : ℤ) (host name : Name) :
    AnswersLiving readName crateMatch (Lib.run (LanClientStore.step readName crateMatch) (.new zone) calls) nowTs m
        (leases readName file) host name ↔
      HearsLiving zone ((loadTime calls).getD nowTs) nowTs (leases readName file) host name :=
  answersLiving_of_loaded crateMatch (LanClientStore.loaded_run crateMatch hcalls rfl rfl) hm nowTs host name

end

/-! ### A run -/

section

open LanClientStore (Call)

/-- `pc`. -/
def pc : Name := ⟨false, [⟨[112, 99], by decide, by decide⟩]⟩

/-- `tv`. -/
def tv : Name := ⟨false, [⟨[116, 118], by decide, by decide⟩]⟩

/-- Two leases of `pc`, and one without a host name. -/
def leaseText : List UInt8 := utf8 "0 a 1.2.3.4 pc x\n0 b 1.2.3.5 pc y\n0 c 1.2.3.6 * z\n"

def leaseMoment : Moment where
  now := 0
  modified := some 0
  content := some leaseText
  order := id
  order_perm _ := List.Perm.refl _

theorem answersLiving_pc :
    AnswersLiving (Name.fromStr some) (fun _ _ => false)
        (Lib.run (LanClientStore.step (Name.fromStr some) fun _ _ => false) (.new none) [(0, ⟨leaseMoment, pc, .A⟩)])
        5 leaseMoment (leases (Name.fromStr some) leaseText) pc pc ↔
      HearsLiving none 0 5 (leases (Name.fromStr some) leaseText) pc pc := by
  have hsees : leaseMoment.Sees leaseText (some 0) := ⟨rfl, rfl⟩
  have hcalls : ∀ c ∈ [((0 : ℤ), (⟨leaseMoment, pc, .A⟩ : Call))], c.2.moment.Sees leaseText (some 0) := by
    intro c hc
    obtain rfl := List.mem_singleton.mp hc
    exact hsees
  exact answersLiving_iff (fun _ _ => false) none hcalls hsees 5 pc pc

/-- The second lease of `pc` hides the first, and the lease without a host name answers for `tv`, which no
lease is of. -/
theorem not_answersLiving_pc :
    (∃ c ∈ leases (Name.fromStr some) leaseText, c.host.lowers = pc.lowers) ∧
    (∀ c ∈ leases (Name.fromStr some) leaseText, ¬ c.host.lowers <:+ tv.lowers) ∧
    ¬ AnswersLiving (Name.fromStr some) (fun _ _ => false) (.new none) 0 leaseMoment
      (leases (Name.fromStr some) leaseText) pc pc ∧
    ¬ AnswersLiving (Name.fromStr some) (fun _ _ => false) (.new none) 0 leaseMoment
      (leases (Name.fromStr some) leaseText) tv tv := by
  have hloaded : LanClientStore.Loaded (Name.fromStr some) leaseText (some 0) none none (.new none) := ⟨rfl, rfl⟩
  refine ⟨by decide +kernel, by decide +kernel, ?_, ?_⟩
  · have hheard : (heard (loadedAt none 0 (leases (Name.fromStr some) leaseText)) none pc).map (·.ip) =
        some (.v4 0x01020305) := by decide +kernel
    have hliving : .v4 0x01020304 ∈ (livingAt 0 pc (leases (Name.fromStr some) leaseText)).map (·.ip) := by
      decide +kernel
    intro hanswers
    have h : HearsLiving none 0 0 (leases (Name.fromStr some) leaseText) pc pc :=
      (answersLiving_of_loaded (fun _ _ => false) hloaded ⟨rfl, rfl⟩ 0 pc pc).mp hanswers
    exact absurd ((h.same hheard).2 _ hliving) (by decide +kernel)
  · have hheard : (heard (loadedAt none 0 (leases (Name.fromStr some) leaseText)) none tv).map (·.ip) =
        some (.v4 0x01020306) := by decide +kernel
    have hliving : (livingAt 0 tv (leases (Name.fromStr some) leaseText)).map (·.ip) = [] := by decide +kernel
    intro hanswers
    have h : HearsLiving none 0 0 (leases (Name.fromStr some) leaseText) tv tv :=
      (answersLiving_of_loaded (fun _ _ => false) hloaded ⟨rfl, rfl⟩ 0 tv tv).mp hanswers
    exact (h.same hheard).1 hliving

end

end Server
end SmartDns
