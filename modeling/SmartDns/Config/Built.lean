/-
# The built configuration

The end of `RuntimeConfigBuilder::build`, once all lines are read and the groups are put
together: the listeners get the addresses of their devices and lose their duplicates, the
names of address sets are replaced by their addresses, the domain sets are fetched, over the
proxies of the whole configuration, the rule trees are made, and upstream servers that are
given by name get the group that resolves it. A configuration with a fatal error is not built.

Key definitions: `BuiltConfig`, `BuiltConfig.ofDraft`, `ConfigReader`, `ConfigReader.built`.
-/
import SmartDns.Config.Settings
import SmartDns.Config.SingleText
import SmartDns.Dns.NameParse

namespace SmartDns
namespace Config

open App.Listeners (BindKind)
open Dns Lib Server
open Rule hiding IpAddr

/-! ### Address sets -/

/-- `get_ip_set`; a name that is not known has no addresses. -/
def ipSetOf (sets : String → Option (List IpNet)) : IpOrSet → List IpNet
  | .net v => [v]
  | .set name => (sets name).getD []

def makeIpSet (sets : String → Option (List IpNet)) (l : List IpOrSet) : IpSet := l.flatMap (ipSetOf sets)

def makeIpAlias (sets : String → Option (List IpNet)) (l : List IpAlias) : IpMap (List IpAddr) :=
  l.flatMap fun entry => (ipSetOf sets entry.ip).map fun net => (net, entry.target)

/-! ### Domain sets -/

/-- A list that does not come is left out. -/
def domainSetsOf (env : Environment) (proxies : KeyMap String ProxyConfig)
    (providers : KeyMap String (List SetProvider)) : KeyMap String (List WildcardName) :=
  providers.entries.foldl (fun m e => m.insert e.1
    (e.2.flatMap fun p => (p.fetch env.readDomainSet env.downloadDomainSet proxies).getD [])) KeyMap.empty

/-! ### Listeners -/

section

variable {R : Type}

/-- An address of the device that a listener can take for its own; no link-local one for IPv6. -/
def fitsAddr : BindAddr → IpAddr → Bool
  | .localhost, _ => true
  | .all, _ => true
  | .v4 _, .v4 _ => true
  | .v6 _, .v6 bits => (bits.toNat >>> 112) &&& 0xffc0 != 0xfe80
  | _, _ => false

def onDevice (interfaces : List (String × IpAddr)) (l : BindAddrConfig R) : BindAddrConfig R :=
  match l.device with
  | none => l
  | some device =>
    match ((interfaces.filter (·.1 == device)).map (·.2)).find? (fitsAddr l.addr) with
    | some (.v4 bits) => { l with addr := .v4 bits }
    | some (.v6 bits) => { l with addr := .v6 bits }
    | none => l

def overUdp : BindKind → Bool
  | .udp | .quic | .h3 => true
  | _ => false

/-- Of listeners on one socket the last stays. -/
def dedupBinds (binds : List (BindAddrConfig R)) : List (BindAddrConfig R) :=
  binds.foldr (fun l kept =>
    if kept.any fun l' => overUdp l'.kind == overUdp l.kind && l'.addr.ipAddr == l.addr.ipAddr && l'.port == l.port
    then kept else l :: kept) []

def bindsOf [Inhabited R] (env : Environment) (binds : List (BindAddrConfig R)) : List (BindAddrConfig R) :=
  let binds := if binds.isEmpty then [{ kind := .udp, port := 53, opts := default }] else binds
  dedupBinds (match env.interfaces with
    | some interfaces => binds.map (onDevice interfaces)
    | none => binds)

/-- The group that resolves the name of the server. -/
def withResolveGroup (env : Environment) (tree : DomainRuleMap) (server : NameServerInfo R) : NameServerInfo R :=
  if server.ip.isNone then
    match (Name.fromStr env.toAscii server.host).bind fun domain => tree.find env.crateMatch domain with
    | some rule => { server with resolveGroup := rule.get fun node => node.rule.nameserver }
    | none => server
  else server

/-! ### The configuration -/

/-- `RuntimeConfig`; `inner` is split as the builder's draft is. -/
structure BuiltConfig (R : Type) where
  inner : Settings R
  params : GroupParams
  serveExpiredTtl : Option UInt64
  serveExpiredPrefetchTime : Option UInt64
  nftsets : List (ConfigForDomain (List (ConfigForIP NFTsetConfig)))
  ipsets : List (ConfigForDomain (List (ConfigForIP IpsetConfig)))
  clientRules : List ClientRule
  ruleGroups : String → Option RuleGroup
  domainRuleGroupMap : String → Option DomainRuleMap
  bogusNxdomain : IpSet
  blacklistIp : IpSet
  whitelistIp : IpSet
  ignoreIp : IpSet
  ipAlias : IpMap (List IpAddr)
  proxyServers : KeyMap String ProxyConfig

def BuiltConfig.ofDraft [Inhabited R] (env : Environment) (d : Draft (Settings R)) : BuiltConfig R :=
  let s := d.settings
  let trees : RuleTrees :=
    { groups := d.ruleGroups.get?
      domainSets := domainSetsOf env (s .proxyServers) (s .domainSetProviders)
      nftsets := d.nftsets
      ipsets := d.ipsets }
  let domainRuleGroupMap := trees.trees env.crateMatch
  let defaultTree := (domainRuleGroupMap Draft.defaultGroup).getD DomainMap.empty
  let nameservers := List.map (withResolveGroup env defaultTree) (s .nameservers)
  let inner := Function.update (Function.update (Function.update s .binds (bindsOf env (s .binds)))
    .nameservers nameservers) .proxyServers KeyMap.empty
  { inner
    params := d.params
    serveExpiredTtl := d.serveExpiredTtl
    serveExpiredPrefetchTime := d.serveExpiredPrefetchTime
    nftsets := d.nftsets
    ipsets := d.ipsets
    clientRules := d.clientRules
    ruleGroups := fun name => (d.ruleGroups.get? name).map fun g =>
      { g with cnames := dedupBy (fun a b => sameDomain a.domain b.domain) g.cnames }
    domainRuleGroupMap
    bogusNxdomain := makeIpSet (s .ipSets) (s .bogusNxdomain)
    blacklistIp := makeIpSet (s .ipSets) (s .blacklistIp)
    whitelistIp := makeIpSet (s .ipSets) (s .whitelistIp)
    ignoreIp := makeIpSet (s .ipSets) (s .ignoreIp)
    ipAlias := makeIpAlias (s .ipSets) (s .ipAlias)
    proxyServers := s .proxyServers }

/-- The address sets stand in the configuration as they were read. -/
theorem BuiltConfig.inner_ipSets [Inhabited R] (env : Environment) (d : Draft (Settings R)) :
    (ofDraft env d).inner .ipSets = d.settings .ipSets := rfl

/-- All that reading the lines of a configuration depends on; `confFile` is the main file. -/
structure ConfigReader (R : Type) where
  env : Environment
  fs : FileSystem
  confFile : Option Path := none
  parseConfig : List UInt8 → Option (ConfigItem (SettingItem R))
  detectBrokenProxyCredential : List UInt8 → Option String

namespace ConfigReader

variable (rd : ConfigReader R)

def grammar : Grammar (SettingItem R) (Settings R) :=
  settingsGrammar rd.env rd.confFile rd.parseConfig rd.detectBrokenProxyCredential

/-- The draft once a text is read. -/
def read (d : Draft (Settings R)) (t : List FlatLine) : Draft (Settings R) := readText rd.grammar rd.fs d t

/-- The configuration that is built of a text; none if there is a fatal error. -/
def built [Inhabited R] (t : List FlatLine) : Option (BuiltConfig R) :=
  match finish (rd.read { settings := Settings.new R } t) with
  | .ok d => some (BuiltConfig.ofDraft rd.env d)
  | .error _ => none

end ConfigReader

end

end Config
end SmartDns
