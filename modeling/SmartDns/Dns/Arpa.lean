/-
# Reverse names

`Name::parse_arpa_name`: the address, or the network, that a name under `in-addr.arpa` or
`ip6.arpa` stands for, octet by octet or nibble by nibble from the root; and the wire form
of a name, as record data has it.

Key definitions: `Name.parseArpaName`, `Name.wire`.
-/
import SmartDns.Dns.Ip
import SmartDns.Dns.Name

namespace SmartDns
namespace Dns

/-- `str::parse::<u8>`: digits, perhaps behind a plus sign. -/
def parseOctet (bytes : List UInt8) : Option ℕ :=
  let digits := if bytes.head? = some 43 then bytes.tail else bytes
  if !digits.isEmpty && digits.all fun b => 48 ≤ b && b ≤ 57 then
    let value := digits.foldl (fun v b => v * 10 + (b.toNat - 48)) 0
    if value < 256 then some value else none
  else none

def parseHexDigit (b : UInt8) : Option ℕ :=
  if 48 ≤ b ∧ b ≤ 57 then some (b.toNat - 48)
  else if 97 ≤ b ∧ b ≤ 102 then some (b.toNat - 87)
  else if 65 ≤ b ∧ b ≤ 70 then some (b.toNat - 55)
  else none

def parseNibble : List UInt8 → Option ℕ
  | [b] => parseHexDigit b
  | _ => none

/-- The labels as digits of base `b`, the first the most significant of `width`. -/
def arpaBits (b : ℕ) (width : ℕ) (digits : List ℕ) : ℕ :=
  digits.foldl (fun v d => v * b + d) 0 * b ^ (width - digits.length)

namespace Name

/-- The address and the length of the prefix. -/
def parseArpaName (n : Name) : Option (IpAddr × ℕ) :=
  match n.isFqdn, n.lowers.reverse with
  | true, first :: second :: rest =>
    if first = [97, 114, 112, 97] then
      if second = [105, 110, 45, 97, 100, 100, 114] then
        if rest.length ≤ 4 then
          (rest.mapM parseOctet).map fun octets => (.v4 (BitVec.ofNat 32 (arpaBits 256 4 octets)), 8 * octets.length)
        else none
      else if second = [105, 112, 54] then
        if rest.length ≤ 32 then
          (rest.mapM parseNibble).map fun nibbles => (.v6 (BitVec.ofNat 128 (arpaBits 16 32 nibbles)), 4 * nibbles.length)
        else none
      else none
    else none
  | _, _ => none

/-- Each label behind its length, and an empty one. -/
def wire (n : Name) : List UInt8 := n.labels.flatMap (fun l => UInt8.ofNat l.bytes.length :: l.bytes) ++ [0]

/-- A name with the root dot from the texts of its labels; those that are no labels are left out. -/
def ofLabels (labels : List (List UInt8)) : Name where
  isFqdn := true
  labels := labels.filterMap fun bytes =>
    if h : bytes ≠ [] ∧ bytes.length ≤ 63 then some ⟨bytes, h.1, h.2⟩ else none

/-- `77.1.168.192.in-addr.arpa.` -/
example : (ofLabels [[55, 55], [49], [49, 54, 56], [49, 57, 50], [105, 110, 45, 97, 100, 100, 114],
    [97, 114, 112, 97]]).parseArpaName = some (.v4 0xc0a8014d#32, 32) := by decide +kernel

end Name
end Dns
end SmartDns
