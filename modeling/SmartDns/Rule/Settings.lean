/-
# Rules and their settings

`config/domain_rule.rs` and the rule lists of `config/mod.rs`. A `DomainRule` is
sixteen optional settings; `+=` puts a later rule over an earlier one: most
settings are replaced, addresses are merged, and speed-check modes, nftsets and
ipsets are appended. Each is `mergeOption` with the setting's own way to
combine two values.

`Setting` is one of the settings with its way to combine: what a reader that
asks for one setting of a rule needs to know of `+=`.

Key definitions: `AddressRuleValue.merge`, `DomainRule`, `DomainRule.addAssign`,
`Setting`, `RuleSet`.
Key theorems: `Setting.get_addAssign`.
-/
import SmartDns.Lib.KeyMap
import SmartDns.Rule.Wildcard

namespace SmartDns
namespace Rule

open Dns Lib

universe u

abbrev Ipv4Addr := UInt32

abbrev Ipv6Addr := BitVec 128

inductive IpAddr
  | v4 (a : Ipv4Addr)
  | v6 (a : Ipv6Addr)
deriving DecidableEq

inductive AddressRuleValue
  | soa
  | soav4
  | soav6
  | ign
  | ignv4
  | ignv6
  | addr (v4 : Option (List Ipv4Addr)) (v6 : Option (List Ipv6Addr))
deriving DecidableEq

namespace AddressRuleValue

/-- `if !list.contains(ip) { list.push(ip) }` for each address of `rhs`. -/
def pushNew {α : Type} [DecidableEq α] (list rhs : List α) : List α :=
  rhs.foldl (fun l ip => if ip ∈ l then l else l ++ [ip]) list

def merge : AddressRuleValue → AddressRuleValue → AddressRuleValue
  | addr l4 l6, addr r4 r6 =>
    addr
      (match r4 with
        | some r => some (pushNew (l4.getD []) r)
        | none => l4)
      (match r6 with
        | some r => some (pushNew (l6.getD []) r)
        | none => l6)
  | _, rhs => rhs

end AddressRuleValue

inductive Ignorable (α : Type)
  | ignore
  | value (a : α)

abbrev CNameRule := Ignorable Name

structure Srv where
  priority : UInt16
  weight : UInt16
  port : UInt16
  target : Name

/-- The record data of `HTTPS`; the parameters are kept as keys and wire values. -/
structure Https where
  svcPriority : UInt16
  targetName : Name
  svcParams : List (UInt16 × List UInt8)

inductive HttpsRecordRule
  | soa
  | ignore
  | filter (noIpv4Hint noIpv6Hint : Bool)
  | recordData (data : Https)

inductive SpeedCheckMode
  | none
  | ping
  | tcp (port : UInt16)
  | https (port : UInt16)
deriving DecidableEq

abbrev SpeedCheckModeList := List SpeedCheckMode

/-- `SpeedCheckModeList::push`: a mode that is there already is not added. -/
def SpeedCheckModeList.push (l : SpeedCheckModeList) (mode : SpeedCheckMode) : SpeedCheckModeList :=
  if l.all (· ≠ mode) then l ++ [mode] else l

inductive ResponseMode
  | firstPing
  | fastestIp
  | fastestResponse
deriving DecidableEq

inductive ConfigForIP (α : Type)
  | v4 (a : α)
  | v6 (a : α)
  | none

structure NFTsetConfig where
  family : String
  table : String
  name : String

structure IpsetConfig where
  name : String

structure ClientSubnet where
  address : IpAddr
  sourcePrefix : UInt8
  scopePrefix : UInt8
deriving DecidableEq

structure DomainRule where
  nameserver : Option String := none
  address : Option AddressRuleValue := none
  cname : Option CNameRule := none
  srv : Option Srv := none
  https : Option HttpsRecordRule := none
  speedCheckMode : Option SpeedCheckModeList := none
  dualstackIpSelection : Option Bool := none
  responseMode : Option ResponseMode := none
  noCache : Option Bool := none
  noServeExpired : Option Bool := none
  nftset : Option (List (ConfigForIP NFTsetConfig)) := none
  ipset : Option (List (ConfigForIP IpsetConfig)) := none
  rrTtl : Option UInt64 := none
  rrTtlMin : Option UInt64 := none
  rrTtlMax : Option UInt64 := none
  subnet : Option ClientSubnet := none

/-- A later value over an earlier one: `combine` where both are given. -/
def mergeOption {α : Type} (combine : α → α → α) : Option α → Option α → Option α
  | lhs, none => lhs
  | none, some r => some r
  | some l, some r => some (combine l r)

/-- `if rhs.x.is_some() { self.x = rhs.x }`. -/
abbrev overwrite {α : Type} : Option α → Option α → Option α := mergeOption fun _ r => r

/-- `AddAssign::add_assign`. -/
def DomainRule.addAssign (self rhs : DomainRule) : DomainRule where
  nameserver := overwrite self.nameserver rhs.nameserver
  address := mergeOption AddressRuleValue.merge self.address rhs.address
  cname := overwrite self.cname rhs.cname
  srv := overwrite self.srv rhs.srv
  https := overwrite self.https rhs.https
  speedCheckMode := mergeOption (fun l r => r.foldl SpeedCheckModeList.push l) self.speedCheckMode
    rhs.speedCheckMode
  dualstackIpSelection := overwrite self.dualstackIpSelection rhs.dualstackIpSelection
  responseMode := overwrite self.responseMode rhs.responseMode
  noCache := overwrite self.noCache rhs.noCache
  noServeExpired := overwrite self.noServeExpired rhs.noServeExpired
  nftset := mergeOption (· ++ ·) self.nftset rhs.nftset
  ipset := mergeOption (· ++ ·) self.ipset rhs.ipset
  rrTtl := overwrite self.rrTtl rhs.rrTtl
  rrTtlMin := overwrite self.rrTtlMin rhs.rrTtlMin
  rrTtlMax := overwrite self.rrTtlMax rhs.rrTtlMax
  subnet := overwrite self.subnet rhs.subnet

/-! ### One setting of a rule -/

/-- A setting: how a rule gives it and how `+=` combines two rules that give it. -/
structure Setting (α : Type) where
  get : DomainRule → Option α
  combine : α → α → α
  get_default : get {} = none
  get_addAssign : ∀ a b : DomainRule, get (a.addAssign b) = mergeOption combine (get a) (get b)

namespace Setting

def nameserver : Setting String := ⟨(·.nameserver), fun _ r => r, rfl, fun _ _ => rfl⟩
def address : Setting AddressRuleValue := ⟨(·.address), .merge, rfl, fun _ _ => rfl⟩
def cname : Setting CNameRule := ⟨(·.cname), fun _ r => r, rfl, fun _ _ => rfl⟩
def srv : Setting Srv := ⟨(·.srv), fun _ r => r, rfl, fun _ _ => rfl⟩
def https : Setting HttpsRecordRule := ⟨(·.https), fun _ r => r, rfl, fun _ _ => rfl⟩
def speedCheckMode : Setting SpeedCheckModeList :=
  ⟨(·.speedCheckMode), fun l r => r.foldl SpeedCheckModeList.push l, rfl, fun _ _ => rfl⟩
def dualstackIpSelection : Setting Bool := ⟨(·.dualstackIpSelection), fun _ r => r, rfl, fun _ _ => rfl⟩
def responseMode : Setting ResponseMode := ⟨(·.responseMode), fun _ r => r, rfl, fun _ _ => rfl⟩
def noCache : Setting Bool := ⟨(·.noCache), fun _ r => r, rfl, fun _ _ => rfl⟩
def noServeExpired : Setting Bool := ⟨(·.noServeExpired), fun _ r => r, rfl, fun _ _ => rfl⟩
def nftset : Setting (List (ConfigForIP NFTsetConfig)) := ⟨(·.nftset), (· ++ ·), rfl, fun _ _ => rfl⟩
def ipset : Setting (List (ConfigForIP IpsetConfig)) := ⟨(·.ipset), (· ++ ·), rfl, fun _ _ => rfl⟩
def rrTtl : Setting UInt64 := ⟨(·.rrTtl), fun _ r => r, rfl, fun _ _ => rfl⟩
def rrTtlMin : Setting UInt64 := ⟨(·.rrTtlMin), fun _ r => r, rfl, fun _ _ => rfl⟩
def rrTtlMax : Setting UInt64 := ⟨(·.rrTtlMax), fun _ r => r, rfl, fun _ _ => rfl⟩
def subnet : Setting ClientSubnet := ⟨(·.subnet), fun _ r => r, rfl, fun _ _ => rfl⟩

variable {α : Type} (s : Setting α)

/-- A later rule that does not give the setting leaves it. -/
theorem get_addAssign_of_none (a : DomainRule) {b : DomainRule} (h : s.get b = none) :
    s.get (a.addAssign b) = s.get a := by
  rw [s.get_addAssign, h]
  cases s.get a <;> rfl

/-- Over a rule that does not give the setting, the later rule's value stands. -/
theorem get_addAssign_of_none_left {a : DomainRule} (h : s.get a = none) (b : DomainRule) :
    s.get (a.addAssign b) = s.get b := by
  rw [s.get_addAssign, h]
  cases s.get b <;> rfl

end Setting

/-! ### The rule lists -/

inductive Domain
  | name (n : WildcardName)
  | set (s : String)

structure ConfigForDomain (α : Type) where
  domain : Domain
  config : α

abbrev AddressRule := ConfigForDomain AddressRuleValue

/-- The config is the name-server group. -/
abbrev ForwardRule := ConfigForDomain String

/-- The arguments of `DomainRuleMap::create`. -/
structure RuleSet where
  domainRules : List (ConfigForDomain DomainRule) := []
  addressRules : List AddressRule := []
  forwardRules : List ForwardRule := []
  domainSets : KeyMap String (List WildcardName) := KeyMap.empty
  cnames : List (ConfigForDomain CNameRule) := []
  srvRecords : List (ConfigForDomain Srv) := []
  httpsRecords : List (ConfigForDomain HttpsRecordRule) := []
  nftsets : List (ConfigForDomain (List (ConfigForIP NFTsetConfig))) := []
  ipsets : List (ConfigForDomain (List (ConfigForIP IpsetConfig))) := []

end Rule
end SmartDns
