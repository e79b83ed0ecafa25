/-
# Leases of the DHCP server

`dnsmasq.rs`: the lease file is read into a map from host names to clients. Expired leases are
left out, the zone is put behind each host, and the name becomes a domain pattern of the map. The
map is kept until the file's time changes, looked at again after two seconds at the earliest. A
lookup puts the zone behind a name without the root dot, and behind any name outside the zone that
the map does not know.

The name parser is that of the vendored name type, the parameter `readName`. `Moment` is what a lookup meets
outside the program: a clock, the file, and the order in which a hash map is gone through.

Key definitions: `ClientInfo`, `ClientInfo.fromStr`, `readLeaseFile`, `LanClientStore.cachedClients`,
`LanClientStore.lookup`.
-/
import SmartDns.Api.AddressFile
import SmartDns.Dns.Address
import SmartDns.Dns.NameParse
import SmartDns.Rule.DomainMap
import SmartDns.Rule.IpFromStr

namespace SmartDns
namespace Rule

open Dns

/-- `From<Name>`. -/
def WildcardName.ofName (value : Name) : WildcardName :=
  if value.isWildcard then .sub ⟨[]⟩ value.baseName else .default value

end Rule

namespace Server

open Dns Rule Lib
open Api (trim trimStart lineEndingOf)

/-- `LEASE_FILE_STAT_INTERVAL`, in nanoseconds. -/
def leaseFileStatInterval : ℕ := 2000000000

structure ClientInfo where
  id : List Char
  ip : Dns.IpAddr
  host : Name
  mac : List Char
  expiresAt : ℤ

/-- `i64::from_str`. -/
def i64FromStr (s : List Char) : Option ℤ :=
  let (negative, digits) :=
    match s with
    | '-' :: digits => (true, digits)
    | '+' :: digits => (false, digits)
    | digits => (false, digits)
  if digits.isEmpty || !digits.all Char.isDigit then none
  else
    let value : ℤ := if negative then -numeral 10 digits else numeral 10 digits
    if -2 ^ 63 ≤ value ∧ value < 2 ^ 63 then some value else none

section

variable (readName : List Char → Option Name)

namespace ClientInfo

def isExpired (c : ClientInfo) (nowTs : ℤ) : Bool := 0 < c.expiresAt && c.expiresAt < nowTs

/-- `from_str`: the time, the hardware address, the address, the host and the client's id. -/
def fromStr (s : List Char) : Option ClientInfo :=
  let s := trim s
  if s.isEmpty || s.head? == some '#' then none
  else
    match (s.splitOn ' ').filter fun p => !p.isEmpty with
    | timestamp :: mac :: ip :: host :: id :: _ => do
      let ip ← ipFromStr ip
      let host ← readName host
      some { id, ip, host, mac, expiresAt := (i64FromStr timestamp).getD 0 }
    | _ => none

/-- The client under the name it is looked up by: with the zone behind the host where it fits. -/
def inZone (zone : Option Name) (c : ClientInfo) : ClientInfo :=
  let host :=
    match zone with
    | some z => (c.host.appendName z).getD c.host
    | none => c.host
  { c with host := host.setFqdn true }

end ClientInfo

/-- `BufRead::lines`, without the lines that are no UTF-8. -/
def readLines (file : List UInt8) : List (List Char) :=
  (splitLines 10 file).filterMap fun line =>
    (fromUtf8 line).map fun text => text.toList.take (text.toList.length - (lineEndingOf text.toList).length)

/-- The client of a line of the file. -/
def readLease (line : List Char) : Option ClientInfo :=
  let line := trimStart line
  if line.isEmpty || line.head? == some '#' then none else ClientInfo.fromStr readName line

/-- One turn of the loop of `read_lease_file`. -/
def insertLease (zone : Option Name) (nowTs : ℤ) (map : KeyMap WildcardName ClientInfo) (line : List Char) :
    KeyMap WildcardName ClientInfo :=
  match readLease readName line with
  | none => map
  | some clientInfo =>
    if clientInfo.isExpired nowTs then map
    else map.insert (.ofName (clientInfo.inZone zone).host) (clientInfo.inZone zone)

/-- What a lookup meets outside the program, apart from the time of day (`nowTs`). -/
structure Moment where
  /-- `Instant::now`, in nanoseconds. -/
  now : ℕ
  modified : Option ℕ
  /-- The bytes of the file, if it can be opened. -/
  content : Option (List UInt8)
  order : List (WildcardName × ClientInfo) → List (WildcardName × ClientInfo)
  order_perm : ∀ es, (order es).Perm es

def readLeaseFile (nowTs : ℤ) (m : Moment) (zone : Option Name) : Option (DomainMap ClientInfo) :=
  m.content.map fun file =>
    DomainMap.collect (m.order ((readLines file).foldl (insertLease readName zone nowTs) KeyMap.empty).entries)

structure LeaseCache where
  clients : DomainMap ClientInfo
  modifiedAt : Option ℕ
  checkedAt : ℕ

structure LanClientStore where
  zone : Option Name
  cache : Option LeaseCache

namespace LanClientStore

def new (zone : Option Name) : LanClientStore := ⟨zone, none⟩

/-- The end of `cached_clients`: the file is read; where it cannot be, what there is is kept. -/
def refresh (s : LanClientStore) (nowTs : ℤ) (m : Moment) : Option (DomainMap ClientInfo) × LanClientStore :=
  match readLeaseFile readName nowTs m s.zone with
  | some clients => (some clients, { s with cache := some ⟨clients, m.modified, m.now⟩ })
  | none =>
    match s.cache with
    | some cache => (some cache.clients, { s with cache := some { cache with checkedAt := m.now } })
    | none => (none, s)

/-- `cached_clients`, with the store after it. -/
def cachedClients (s : LanClientStore) (nowTs : ℤ) (m : Moment) : Option (DomainMap ClientInfo) × LanClientStore :=
  match s.cache with
  | some cache =>
    if m.now - cache.checkedAt < leaseFileStatInterval then (some cache.clients, s)
    else if cache.modifiedAt = m.modified then
      (some cache.clients, { s with cache := some { cache with checkedAt := m.now } })
    else s.refresh readName nowTs m
  | none => s.refresh readName nowTs m

/-- The name the map is asked for first. -/
def askedName (zone : Option Name) (name : Name) : Name :=
  if name.isFqdn then name
  else
    let name :=
      match zone with
      | some z => (name.appendName z).getD name
      | none => name
    name.setFqdn true

variable (crateMatch : List UInt8 → List UInt8 → Bool)

/-- The client `lookup` takes the address of. -/
def findClient (store : DomainMap ClientInfo) (zone : Option Name) (name : Name) : Option ClientInfo :=
  let name := askedName zone name
  (store.find crateMatch name).or <|
    match zone with
    | some z => if z.zoneOf name then none else (name.appendDomain z).bind (store.find crateMatch)
    | none => none

/-- The records for a client of which the address is known. -/
def answer (recordType : RecordType) (clientInfo : ClientInfo) : List RData :=
  match clientInfo.ip, recordType with
  | .v4 v, .A => [.ofIpAddr (.v4 v)]
  | .v6 v, .AAAA => [.ofIpAddr (.v6 v)]
  | _, _ => []

/-- `lookup`, with the store after it. -/
def lookup (s : LanClientStore) (nowTs : ℤ) (m : Moment) (name : Name) (recordType : RecordType) :
    Option (List RData) × LanClientStore :=
  if recordType.isIpAddr then
    match s.cachedClients readName nowTs m with
    | (some store, s') => ((findClient crateMatch store s'.zone name).map (answer recordType), s')
    | (none, s') => (none, s')
  else (none, s)

end LanClientStore

end

end Server
end SmartDns
