/-
# IP addresses

Addresses by their bits, and their text as the standard library writes it: an IPv6
address with its longest run of two or more zero segments left out, and an IPv4-mapped
one with the IPv4 address in dotted form. `toCanonical` turns an IPv4-mapped address
into the IPv4 address.

Key definitions: `IpAddr`, `IpAddr.toCanonical`, `IpAddr.text`, `IpNet`, `IpMap`, `ClientSubnet`.
-/
import Mathlib.Algebra.Group.Nat.Defs
import Mathlib.Data.List.Basic

namespace SmartDns
namespace Dns

inductive IpAddr
  | v4 (bits : BitVec 32)
  | v6 (bits : BitVec 128)
deriving DecidableEq

namespace IpAddr

/-- `Ipv6Addr::to_ipv4_mapped`: the IPv4 address behind the prefix `::ffff:0:0/96`. -/
def toIpv4Mapped (bits : BitVec 128) : Option (BitVec 32) :=
  if bits.toNat / 2 ^ 32 = 0xffff then some (BitVec.ofNat 32 bits.toNat) else none

def toCanonical : IpAddr → IpAddr
  | v4 bits => v4 bits
  | v6 bits =>
    match toIpv4Mapped bits with
    | some bits => v4 bits
    | none => v6 bits

/-- `Ipv4Addr::to_ipv6_mapped`. -/
def mapped (bits : BitVec 32) : BitVec 128 := BitVec.ofNat 128 (0xffff * 2 ^ 32 + bits.toNat)

theorem toIpv4Mapped_mapped (bits : BitVec 32) : toIpv4Mapped (mapped bits) = some bits := by
  have hlt := bits.isLt
  have hn : (mapped bits).toNat = 0xffff * 2 ^ 32 + bits.toNat := by
    rw [mapped, BitVec.toNat_ofNat, Nat.mod_eq_of_lt (by omega)]
  have hlow : BitVec.ofNat 32 (0xffff * 2 ^ 32 + bits.toNat) = bits := by
    apply BitVec.eq_of_toNat_eq
    rw [BitVec.toNat_ofNat]
    omega
  rw [toIpv4Mapped, hn, if_pos (by omega), hlow]

@[simp] theorem toCanonical_v4 (bits : BitVec 32) : (v4 bits).toCanonical = v4 bits := rfl

/-- The two spellings of an IPv4 address. -/
@[simp] theorem toCanonical_mapped (bits : BitVec 32) : (v6 (mapped bits)).toCanonical = v4 bits := by
  rw [toCanonical, toIpv4Mapped_mapped]

/-! ### Text -/

def decimal (n : ℕ) : List Char := Nat.toDigits 10 n

def octets (bits : BitVec 32) : List ℕ := [24, 16, 8, 0].map fun i => (bits.toNat >>> i) % 256

def segments (bits : BitVec 128) : List ℕ := [112, 96, 80, 64, 48, 32, 16, 0].map fun i => (bits.toNat >>> i) % 65536

def v4Text (bits : BitVec 32) : List Char := List.intercalate ['.'] ((octets bits).map decimal)

/-- `fmt_subslice`. -/
def segmentsText (segments : List ℕ) : List Char := List.intercalate [':'] (segments.map (Nat.toDigits 16))

/-- The first of the longest runs of zeros: its start and length. -/
def longestZeros (segments : List ℕ) : ℕ × ℕ :=
  let step (acc : (ℕ × ℕ) × (ℕ × ℕ) × ℕ) (segment : ℕ) :=
    let (longest, current, i) := acc
    if segment = 0 then
      let current := (if current.2 = 0 then i else current.1, current.2 + 1)
      (if longest.2 < current.2 then current else longest, current, i + 1)
    else (longest, (0, 0), i + 1)
  (segments.foldl step ((0, 0), (0, 0), 0)).1

def v6Text (bits : BitVec 128) : List Char :=
  match toIpv4Mapped bits with
  | some bits => "::ffff:".toList ++ v4Text bits
  | none =>
    let (start, len) := longestZeros (segments bits)
    if 1 < len then
      segmentsText ((segments bits).take start) ++ "::".toList ++ segmentsText ((segments bits).drop (start + len))
    else segmentsText (segments bits)

def text : IpAddr → List Char
  | v4 bits => v4Text bits
  | v6 bits => v6Text bits

example : (v6 0x20010db8000000000000000000000001#128).text = "2001:db8::1".toList := by decide +kernel

example : (v6 (mapped 0xc0000201#32)).text = "::ffff:192.0.2.1".toList := by decide +kernel

def isLoopback : IpAddr → Bool
  | v4 bits => bits.toNat / 2 ^ 24 = 127
  | v6 bits => bits = 1#128

def width : IpAddr → ℕ
  | v4 _ => 32
  | v6 _ => 128

end IpAddr

/-- A network: an address and the length of the prefix that counts. -/
structure IpNet where
  address : IpAddr
  prefixLen : ℕ
  short : prefixLen ≤ address.width
deriving DecidableEq

def IpNet.contains (net : IpNet) (ip : IpAddr) : Bool :=
  match net.address, ip with
  | .v4 a, .v4 b => a.toNat >>> (32 - net.prefixLen) = b.toNat >>> (32 - net.prefixLen)
  | .v6 a, .v6 b => a.toNat >>> (128 - net.prefixLen) = b.toNat >>> (128 - net.prefixLen)
  | _, _ => false

/-- The networks of a map in the order they were inserted; a later one takes over what it covers. -/
abbrev IpMap (T : Type) : Type := List (IpNet × T)

def IpMap.get {T : Type} (map : IpMap T) (ip : IpAddr) : Option T :=
  (map.reverse.find? fun entry => entry.1.contains ip).map (·.2)

/-- The EDNS client subnet of a message. -/
structure ClientSubnet where
  address : IpAddr
  sourcePrefix : UInt8
  scopePrefix : UInt8
deriving DecidableEq

namespace ClientSubnet

/-- The address and the source prefix. -/
def net (subnet : ClientSubnet) : IpAddr × UInt8 := (subnet.address, subnet.sourcePrefix)

def text (subnet : ClientSubnet) : List Char :=
  subnet.address.text ++ '/' :: IpAddr.decimal subnet.sourcePrefix.toNat

end ClientSubnet

abbrev IpSet : Type := List IpNet

def IpSet.contains (set : IpSet) (ip : IpAddr) : Bool := set.any (·.contains ip)

end Dns
end SmartDns
