/-
# The options of a lookup

What the name-server middleware works out for a request before it asks an upstream
group: the client subnet (the client's own, else the domain rule's, else the rule
group's), the query class, and for address types the response mode and the speed
check, with the IP sets of the configuration.

Key definitions: `NsRequest`, `NsRequest.lookupOptions`, `NsRequest.ipOpts`.
-/
import SmartDns.Dns.Ip
import SmartDns.Dns.Message

namespace SmartDns
namespace Upstream

open Dns

inductive ResponseMode
  | FirstPing
  | FastestIp
  | FastestResponse
deriving DecidableEq

inductive SpeedCheckMode
  | None
  | Ping
  | Tcp (port : UInt16)
  | Https (port : UInt16)
deriving DecidableEq

def SpeedCheckMode.isNone : SpeedCheckMode → Bool
  | None => true
  | _ => false

/-- `SpeedCheckModeList::default`. -/
def defaultSpeedCheckMode : List SpeedCheckMode := [.Ping, .Tcp 443]

def resolveSpeedCheckMode (domainRule global : Option (List SpeedCheckMode)) : List SpeedCheckMode :=
  (domainRule.or global).getD defaultSpeedCheckMode

structure LookupOptions where
  recordType : RecordType
  clientSubnet : Option ClientSubnet
  queryClass : DNSClass
deriving DecidableEq

/-- The options of an upstream server that the filters read. -/
structure NameServerOpts where
  blacklistIp : Bool
  whitelistIp : Bool
deriving DecidableEq

/-- The part of the address options that is the request's; the IP sets are the configuration's. -/
structure SpeedOptions where
  responseStrategy : ResponseMode
  speedCheckMode : List SpeedCheckMode
  noSpeedCheck : Bool
deriving DecidableEq

/-- A request at the name-server middleware: its query and EDNS subnet, what its domain rule and its
rule group set, the options of its listener, and the servers of its upstream group. -/
structure NsRequest where
  query : Query
  subnet : Option ClientSubnet := none
  ruleSubnet : Option ClientSubnet := none
  ruleResponseMode : Option ResponseMode := none
  ruleSpeedCheckMode : Option (List SpeedCheckMode) := none
  groupSubnet : Option (IpAddr × UInt8) := none
  groupResponseMode : ResponseMode := .FirstPing
  groupSpeedCheckMode : Option (List SpeedCheckMode) := none
  noSpeedCheck : Bool := false
  isBackground : Bool := false
  serverGroupName : String := "default"
  effectiveRuleGroup : String := ""
  servers : List NameServerOpts := []

namespace NsRequest

def clientSubnet (r : NsRequest) : Option ClientSubnet :=
  (r.subnet.or r.ruleSubnet).or (r.groupSubnet.map fun net => ⟨net.1, net.2, 0⟩)

def lookupOptions (r : NsRequest) : LookupOptions :=
  { recordType := r.query.queryType, clientSubnet := r.clientSubnet, queryClass := r.query.queryClass }

/-- `ip_opts`, for the address types. -/
def speedOptions (r : NsRequest) : SpeedOptions where
  responseStrategy := if r.isBackground then .FastestIp else r.ruleResponseMode.getD r.groupResponseMode
  speedCheckMode := resolveSpeedCheckMode r.ruleSpeedCheckMode r.groupSpeedCheckMode
  noSpeedCheck := r.noSpeedCheck

def ipOpts (r : NsRequest) : Option SpeedOptions :=
  if r.query.queryType.isIpAddr then some r.speedOptions else none

end NsRequest

/-- The query and the subnet that `NameServer::lookup` puts into its message; the server's own subnet
stands in where the lookup has none. -/
def upstreamQuery (name : Name) (options : LookupOptions) (serverSubnet : Option ClientSubnet) :
    Query × Option ClientSubnet :=
  ({ name := name, queryType := options.recordType, queryClass := options.queryClass },
    options.clientSubnet.or serverSubnet)

end Upstream
end SmartDns
