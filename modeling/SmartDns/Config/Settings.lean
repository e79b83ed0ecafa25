/-
# The settings

The fields of `Config` (`config/mod.rs`) that no rule group has, and what the items of the
lines write into them (`config_unchecked` of `dns_conf.rs`). An item records a value or adds
one to a list; a few write several fields or none. What a line takes from elsewhere is where
it stands among the files, and in one case what other lines wrote: an `ip-set` line fetches
its list at once, over the proxy if that is known by then.

A list that is fetched is a function of the URL and of the proxy used (`Environment`); those kept
from an earlier load are left out.

Key definitions: `Field`, `Settings`, `SettingItem`, `SettingItem.writes`, `settingsGrammar`.
-/
import SmartDns.App.Listeners
import SmartDns.Config.Draft
import SmartDns.Lib.Fieldwise
import SmartDns.Lib.KeyedLists

namespace SmartDns
namespace Config

open App.Listeners (BindKind)
open Dns Lib Server
open Rule hiding IpAddr

/-! ### Values -/

inductive LogLevel
  | trace
  | debug
  | info
  | warn
  | error

inductive IpOrSet
  | net (v : IpNet)
  | set (name : String)

structure IpAlias where
  ip : IpOrSet
  target : List IpAddr

/-- The switches of an `ip-rules` line. -/
structure IpRules where
  key : IpOrSet
  blacklist : Bool := false
  whitelist : Bool := false
  bogus : Bool := false
  ignore : Bool := false
  aliasTo : Option (List IpAddr) := none

inductive BindAddr
  | localhost
  | all
  | v4 (ip : BitVec 32)
  | v6 (ip : BitVec 128)

def BindAddr.ipAddr : BindAddr → IpAddr
  | localhost => .v6 1#128
  | all => .v6 0#128
  | v4 ip => .v4 ip
  | v6 ip => .v6 ip

structure SslConfig where
  serverName : Option String := none
  certificate : Option Path := none
  certificateKey : Option Path := none
  certificateKeyPass : Option String := none

/-- `BindAddrConfig`; only `tls`, `https` and `h3` have an `SslConfig`, and `R` has the options. -/
structure BindAddrConfig (R : Type) where
  kind : BindKind
  addr : BindAddr := .v6 0#128
  port : UInt16
  device : Option String := none
  sslConfig : SslConfig := {}
  enabled : Option Bool := none
  opts : R

/-- `NameServerInfo`: what the builder reads, and the options. -/
structure NameServerInfo (R : Type) where
  host : List Char
  ip : Option IpAddr := none
  proxy : Option String := none
  resolveGroup : Option String := none
  opts : R

inductive ProxyProtocol
  | socks5
  | http

structure ProxyConfig where
  proto : ProxyProtocol
  server : SocketAddr
  username : Option String := none
  password : Option String := none

structure NamedProxyConfig where
  name : String
  config : ProxyConfig

def socketAddrText (a : SocketAddr) : List Char :=
  match a.ip with
  | .v4 bits => IpAddr.v4Text bits ++ ':' :: IpAddr.decimal a.port.toNat
  | .v6 bits => '[' :: IpAddr.v6Text bits ++ ']' :: ':' :: IpAddr.decimal a.port.toNat

/-- `Display`: the password is not shown. -/
def ProxyConfig.text (p : ProxyConfig) : List Char :=
  (match p.proto with
    | .socks5 => "socks5://".toList
    | .http => "http://".toList) ++
  (match p.username with
    | some user => user.toList ++ (if p.password.isSome then ":***".toList else []) ++ ['@']
    | none => []) ++
  socketAddrText p.server

/-- `resolve_proxy`. -/
def resolveProxy (proxies : KeyMap String ProxyConfig) (name : String) : Option ProxyConfig := proxies.get? name

/-- `File` and `Http` of `IpSetProvider` and of `DomainSetProvider`. -/
inductive SetProvider
  | file (name : String) (file : Path) (interval : Option ℕ := none)
  | http (name : String) (url : String) (interval : Option ℕ := none) (proxy : Option String := none)

namespace SetProvider

def name : SetProvider → String
  | file name _ _ => name
  | http name _ _ _ => name

/-- `with_resolved_file`. -/
def withResolvedFile (resolve : Path → Path) : SetProvider → SetProvider
  | file name path interval => file name (resolve path) interval
  | http name url interval proxy => http name url interval proxy

/-- The text of the proxy a download goes over, none for a direct one. -/
def proxyText (proxies : KeyMap String ProxyConfig) (proxy : Option String) : Option (List Char) :=
  (proxy.bind (resolveProxy proxies)).map ProxyConfig.text

/-- A list from its source. -/
def fetch {α : Type} (read : Path → Option α) (download : String → Option (List Char) → Option α)
    (proxies : KeyMap String ProxyConfig) : SetProvider → Option α
  | file _ path _ => read path
  | http _ url _ proxy => download url (proxyText proxies proxy)

end SetProvider

/-- What comes from outside of the configuration. -/
structure Environment where
  readIpSet : Path → Option (List IpNet)
  /-- A download, and what the list it brings says. -/
  downloadIpSet : String → Option (List Char) → Option (List IpNet)
  readDomainSet : Path → Option (List WildcardName)
  downloadDomainSet : String → Option (List Char) → Option (List WildcardName)
  /-- `glob::Pattern::new` takes the text. -/
  validPattern : List UInt8 → Bool
  /-- The addresses of the network devices, if they can be listed. -/
  interfaces : Option (List (String × IpAddr))
  toAscii : List Char → Option (List Char)
  crateMatch : List UInt8 → List UInt8 → Bool

/-- `get_ip_set`. -/
def getIpSet (env : Environment) (proxies : KeyMap String ProxyConfig) (p : SetProvider) : Option (List IpNet) :=
  p.fetch env.readIpSet env.downloadIpSet proxies

/-! ### Fields -/

/-- The fields of `Config`, of its `cache`, `log`, `audit` and `acl`, that are no parameters of groups. -/
inductive Field
  | apiToken | serverName | numWorkers | mdnsLookup | resolvHostname | hostsFile | expandPtrFromAddress | user | domain
  | binds | bindCertFile | bindCertKeyFile | bindCertKeyPass | bindCertGenerate | bindCertValidityDays | bindCertSan
  | bindCertRootKeyFile | tcpIdleTime | maxConnections | maxConnectionsPerIp | firstPacketTimeout | cacheSize
  | cachePersist | cacheFile | cacheCheckpointTime | bogusNxdomain | blacklistIp | whitelistIp | ignoreIp
  | forceHttpsSoa | forceQtypeSoa | logConsole | logLevel | logFile | logSize | logNum | logFileMode | logFilter
  | auditEnable | auditFile | auditSize | auditNum | auditFileMode | auditSyslog | auditConsole | aclEnable
  | trustedProxies | dnsmasqLeaseFile | caFile | caPath | nameservers | proxyServers | nftsetDebug | logSyslog
  | localDomains | maxQueryLimit | resolvFile | domainSetProviders | ipSets | ipSetProviders | ipAlias
deriving DecidableEq

/-- The type of a field. -/
@[reducible] def Field.Value (R : Type) : Field → Type
  | apiToken | user | bindCertKeyPass | logFilter => Option String
  | serverName | domain => Option Name
  | mdnsLookup | resolvHostname | expandPtrFromAddress | bindCertGenerate | cachePersist | forceHttpsSoa
  | logConsole | auditEnable | auditSyslog | auditConsole | aclEnable | nftsetDebug | logSyslog => Option Bool
  | bindCertFile | bindCertKeyFile | bindCertRootKeyFile | cacheFile | logFile | auditFile | dnsmasqLeaseFile
  | caFile | caPath | resolvFile => Option Path
  | bindCertValidityDays | tcpIdleTime | firstPacketTimeout | cacheCheckpointTime | logNum => Option UInt64
  | numWorkers | maxConnections | maxConnectionsPerIp | cacheSize | auditNum | maxQueryLimit | logSize | auditSize =>
    Option ℕ
  | logFileMode | auditFileMode => Option UInt32
  | logLevel => Option LogLevel
  | hostsFile => Option (List UInt8)
  | binds => List (BindAddrConfig R)
  | nameservers => List (NameServerInfo R)
  | bindCertSan => List String
  | localDomains => List (List Char)
  | bogusNxdomain | blacklistIp | whitelistIp | ignoreIp => List IpOrSet
  | trustedProxies => List IpNet
  | forceQtypeSoa => RecordType → Bool
  | ipAlias => List IpAlias
  | proxyServers => KeyMap String ProxyConfig
  | domainSetProviders | ipSetProviders => KeyMap String (List SetProvider)
  | ipSets => String → Option (List IpNet)

abbrev Settings (R : Type) := ∀ f : Field, f.Value R

/-- `Config::default`. -/
def Settings.new (R : Type) : Settings R
  | .apiToken | .user | .bindCertKeyPass | .logFilter => none
  | .serverName | .domain => none
  | .mdnsLookup | .resolvHostname | .expandPtrFromAddress | .bindCertGenerate | .cachePersist | .forceHttpsSoa
  | .logConsole | .auditEnable | .auditSyslog | .auditConsole | .aclEnable | .nftsetDebug | .logSyslog => none
  | .bindCertFile | .bindCertKeyFile | .bindCertRootKeyFile | .cacheFile | .logFile | .auditFile | .dnsmasqLeaseFile
  | .caFile | .caPath | .resolvFile => none
  | .bindCertValidityDays | .tcpIdleTime | .firstPacketTimeout | .cacheCheckpointTime | .logNum => none
  | .numWorkers | .maxConnections | .maxConnectionsPerIp | .cacheSize | .auditNum | .maxQueryLimit | .logSize
  | .auditSize => none
  | .logFileMode | .auditFileMode => none
  | .logLevel => none
  | .hostsFile => none
  | .binds => []
  | .nameservers => []
  | .bindCertSan => []
  | .localDomains => []
  | .bogusNxdomain | .blacklistIp | .whitelistIp | .ignoreIp => []
  | .trustedProxies => []
  | .forceQtypeSoa => fun _ => false
  | .ipAlias => []
  | .proxyServers => KeyMap.empty
  | .domainSetProviders | .ipSetProviders => KeyMap.empty
  | .ipSets => fun _ => none

/-! ### Items -/

/-- The items of `ConfigItem` that are no rules, no parameters and not about groups or files. -/
inductive SettingItem (R : Type)
  | apiToken (v : String)
  | auditEnable (v : Bool)
  | aclEnable (v : Bool)
  | trustedProxy (v : IpNet)
  | auditFile (v : Path)
  | auditFileMode (v : UInt32)
  | auditConsole (v : Bool)
  | auditNum (v : ℕ)
  | auditSize (v : ℕ)
  | bindCertFile (v : Path)
  | bindCertKeyFile (v : Path)
  | bindCertKeyPass (v : String)
  | bindCertGenerate (v : Option Bool)
  | bindCertValidityDays (v : UInt64)
  | bindCertSan (v : String)
  | bindCertRootKeyFile (v : Path)
  | blacklistIp (v : IpOrSet)
  | bogusNxDomain (v : IpOrSet)
  | cacheFile (v : Path)
  | cachePersist (v : Bool)
  | cacheSize (v : ℕ)
  | cacheCheckpointTime (v : UInt64)
  | caFile (v : Path)
  | caPath (v : Path)
  | dnsmasqLeaseFile (v : Path)
  | domain (v : Name)
  | domainSetProvider (v : SetProvider)
  | expandPtrFromAddress (v : Bool)
  | forceHttpsSoa (v : Bool)
  | forceQtypeSoa (v : RecordType)
  | hostsFile (v : List UInt8)
  | ignoreIp (v : IpOrSet)
  | listener (v : BindAddrConfig R)
  | logConsole (v : Bool)
  | logNum (v : UInt64)
  | logSize (v : ℕ)
  | logLevel (v : LogLevel)
  | logFile (v : Path)
  | logFileMode (v : UInt32)
  | logFilter (v : String)
  | mdnsLookup (v : Bool)
  | nftSetDebug (v : Bool)
  | maxQueryLimit (v : ℕ)
  | localDomain (v : List Char)
  | logSyslog (v : Bool)
  | auditSyslog (v : Bool)
  | ipRules (v : IpRules)
  | numWorkers (v : ℕ)
  | proxyConfig (v : NamedProxyConfig)
  | resolvHostname (v : Bool)
  | server (v : NameServerInfo R)
  | serverName (v : Name)
  | resolvFile (v : Path)
  | tcpIdleTime (v : UInt64)
  | firstPacketTimeout (v : UInt64)
  | maxConnections (v : ℕ)
  | maxConnectionsPerIp (v : ℕ)
  | whitelistIp (v : IpOrSet)
  | user (v : String)
  | ipSetProvider (v : SetProvider)
  | ipAlias (v : IpAlias)

def pushed {α : Type} (a : α) (l : List α) : List α := l ++ [a]

/-- `trim_end_matches`. -/
def trimEndMatches {α : Type} [BEq α] (a : α) (l : List α) : List α := (l.reverse.dropWhile (· == a)).reverse

/-- `anchor_tls_cert_paths`. -/
def BindAddrConfig.anchorTlsCertPaths {R : Type} (resolve : Path → Path) (bind : BindAddrConfig R) :
    BindAddrConfig R :=
  let anchor (path : Path) : Path := if path.isAbsolute then path else resolve path
  match bind.kind with
  | .tls | .https | .h3 =>
    { bind with sslConfig :=
      { bind.sslConfig with
        certificate := bind.sslConfig.certificate.map anchor
        certificateKey := bind.sslConfig.certificateKey.map anchor } }
  | _ => bind

/-- The pattern of a `hosts-file` line, from the directory of the main file on. -/
def anchoredHosts (confFile : Option Path) (pattern : List UInt8) : List UInt8 :=
  let normalized := pattern.map fun b => if b = Path.backslash then Path.separator else b
  if pattern.head? = some Path.separator then normalized
  else
    match confFile with
    | some base => trimEndMatches Path.separator ((base.parent.map Path.text).getD []) ++ Path.separator :: normalized
    | none => normalized

/-- A `local-domain` line; `-` clears the list. -/
def pushLocalDomain (v : List Char) (domains : List (List Char)) : List (List Char) :=
  let domain := (trimEndMatches '.' (Api.trim v)).map Char.toLower
  if domain = [] ∨ domain = ['-'] then [] else domains ++ [domain]

/-- A list that came goes behind what is there under the name; where none came nothing is entered. -/
def extendSet (name : String) (came : Option (List IpNet)) (sets : String → Option (List IpNet)) :
    String → Option (List IpNet) :=
  match came with
  | some nets => extend sets (name, nets)
  | none => sets

namespace SettingItem

variable {R : Type}

def record (f : Field) (v : f.Value R) : Write (Field.Value R) := ⟨f, fun _ => v⟩

variable (env : Environment) (confFile : Option Path) (resolve : Path → Path) (proxies : KeyMap String ProxyConfig)

/-- What the item writes, where these proxies are known. -/
def writes : SettingItem R → List (Write (Field.Value R))
  | apiToken v => [record .apiToken (some v)]
  | auditEnable v => [record .auditEnable (some v)]
  | aclEnable v => [record .aclEnable (some v)]
  | trustedProxy v => [⟨.trustedProxies, pushed v⟩]
  | auditFile v => [record .auditFile (some (resolve v))]
  | auditFileMode v => [record .auditFileMode (some v)]
  | auditConsole v => [record .auditConsole (some v)]
  | auditNum v => [record .auditNum (some v)]
  | auditSize v => [record .auditSize (some v)]
  | bindCertFile v => [record .bindCertFile (some (resolve v))]
  | bindCertKeyFile v => [record .bindCertKeyFile (some (resolve v))]
  | bindCertKeyPass v => [record .bindCertKeyPass (some v)]
  | bindCertGenerate v => [record .bindCertGenerate v]
  | bindCertValidityDays v => [record .bindCertValidityDays (some v)]
  | bindCertSan v => [⟨.bindCertSan, pushed v⟩]
  | bindCertRootKeyFile v => [record .bindCertRootKeyFile (some (resolve v))]
  | blacklistIp v => [⟨.blacklistIp, pushed v⟩]
  | bogusNxDomain v => [⟨.bogusNxdomain, pushed v⟩]
  | cacheFile v => [record .cacheFile (some (resolve v))]
  | cachePersist v => [record .cachePersist (some v)]
  | cacheSize v => [record .cacheSize (some v)]
  | cacheCheckpointTime v => [record .cacheCheckpointTime (some v)]
  | caFile v => [record .caFile (some (resolve v))]
  | caPath v => [record .caPath (some (resolve v))]
  | dnsmasqLeaseFile v => [record .dnsmasqLeaseFile (some (resolve v))]
  | domain v => [record .domain (some v)]
  | domainSetProvider v =>
    [⟨.domainSetProviders, fun m => KeyMap.update m v.name fun e => e.getD [] ++ [v.withResolvedFile resolve]⟩]
  | expandPtrFromAddress v => [record .expandPtrFromAddress (some v)]
  | forceHttpsSoa v => [record .forceHttpsSoa (some v)]
  | forceQtypeSoa v => [⟨.forceQtypeSoa, fun set t => t == v || set t⟩]
  | hostsFile v =>
    let anchored := anchoredHosts confFile v
    [⟨.hostsFile, fun old => if env.validPattern anchored then some anchored else old⟩]
  | ignoreIp v => [⟨.ignoreIp, pushed v⟩]
  | listener v => if v.enabled.getD true then [⟨.binds, pushed (v.anchorTlsCertPaths resolve)⟩] else []
  | logConsole v => [record .logConsole (some v)]
  | logNum v => [record .logNum (some v)]
  | logSize v => [record .logSize (some v)]
  | logLevel v => [record .logLevel (some v)]
  | logFile v => [record .logFile (some (resolve v))]
  | logFileMode v => [record .logFileMode (some v)]
  | logFilter v => [record .logFilter (some v)]
  | mdnsLookup v => [record .mdnsLookup (some v)]
  | nftSetDebug v => [record .nftsetDebug (some v)]
  | maxQueryLimit v => [record .maxQueryLimit (some v)]
  | localDomain v => [⟨.localDomains, pushLocalDomain v⟩]
  | logSyslog v => [record .logSyslog (some v)]
  | auditSyslog v => [record .auditSyslog (some v)]
  | ipRules v =>
    (if v.blacklist then [⟨.blacklistIp, pushed v.key⟩] else []) ++
    (if v.whitelist then [⟨.whitelistIp, pushed v.key⟩] else []) ++
    (if v.bogus then [⟨.bogusNxdomain, pushed v.key⟩] else []) ++
    (if v.ignore then [⟨.ignoreIp, pushed v.key⟩] else []) ++
    (match v.aliasTo with
      | some target => [⟨.ipAlias, pushed ⟨v.key, target⟩⟩]
      | none => [])
  | numWorkers v => [record .numWorkers (if v = 0 then none else some v)]
  | proxyConfig v => [⟨.proxyServers, fun m => KeyMap.insert m v.name v.config⟩]
  | resolvHostname v => [record .resolvHostname (some v)]
  | server v => [⟨.nameservers, pushed v⟩]
  | serverName v => [record .serverName (some v)]
  | resolvFile v => [record .resolvFile (some (resolve v))]
  | tcpIdleTime v => [record .tcpIdleTime (some v)]
  | firstPacketTimeout v => [record .firstPacketTimeout (some v)]
  | maxConnections v => [record .maxConnections (some v)]
  | maxConnectionsPerIp v => [record .maxConnectionsPerIp (some v)]
  | whitelistIp v => [⟨.whitelistIp, pushed v⟩]
  | user v => [record .user (some v)]
  | ipSetProvider v =>
    let p := v.withResolvedFile resolve
    [⟨.ipSetProviders, fun m => KeyMap.update m p.name fun e => e.getD [] ++ [p]⟩,
      ⟨.ipSets, extendSet p.name (getIpSet env proxies p)⟩]
  | ipAlias v => [⟨.ipAlias, pushed v⟩]

/-- A rule group's block may have the line. -/
def isShared : SettingItem R → Bool
  | server _ | proxyConfig _ | domainSetProvider _ | ipSetProvider _ => true
  | _ => false

end SettingItem

/-- `allowed_in_rule_group` goes by the item. -/
def ConfigItem.placed {R : Type} : ConfigItem (SettingItem R) → ConfigItem (SettingItem R)
  | .shared v | .other v => if v.isShared then .shared v else .other v
  | item => item

/-- The parser of the lines with what their items write; `confFile` is the main file. -/
def settingsGrammar {R : Type} (env : Environment) (confFile : Option Path)
    (parse : List UInt8 → Option (ConfigItem (SettingItem R))) (detect : List UInt8 → Option String) :
    Grammar (SettingItem R) (Settings R) where
  parseConfig line := (parse line).map ConfigItem.placed
  detectBrokenProxyCredential := detect
  assign v resolve s := mapFields (onFields (v.writes env confFile resolve (s .proxyServers))) s

end Config
end SmartDns
