/-
# Address records

The address in the data of an `A` or `AAAA` record, and the data made from an address.

Key definitions: `RData.ipAddr`, `RData.ofIpAddr`, `DnsResponse.ipAddrs`.
Key theorem: `RData.ipAddr_ofIpAddr`.
-/
import SmartDns.Dns.Ip
import SmartDns.Dns.Response
import SmartDns.Lib.Reader

namespace SmartDns
namespace Dns

open Lib

/-- The type of the records that hold the address. -/
def IpAddr.recordType : IpAddr → RecordType
  | .v4 _ => .A
  | .v6 _ => .AAAA

namespace RData

def ipAddr : RData → Option IpAddr
  | .other .A value => if value.length = 4 then some (.v4 (BitVec.ofNat 32 (ofBe value))) else none
  | .other .AAAA value => if value.length = 16 then some (.v6 (BitVec.ofNat 128 (ofBe value))) else none
  | _ => none

/-- `From<IpAddr>`. -/
def ofIpAddr : IpAddr → RData
  | .v4 bits => .other .A (toBe 4 bits.toNat)
  | .v6 bits => .other .AAAA (toBe 16 bits.toNat)

theorem ipAddr_ofIpAddr (ip : IpAddr) : (ofIpAddr ip).ipAddr = some ip := by
  cases ip with
  | v4 bits =>
    have h : ofBe (toBe 4 bits.toNat) = bits.toNat := by
      rw [ofBe_toBe]
      exact Nat.mod_eq_of_lt bits.isLt
    rw [ofIpAddr, ipAddr, if_pos (toBe_length _ _), h, BitVec.ofNat_toNat, BitVec.setWidth_eq]
  | v6 bits =>
    have h : ofBe (toBe 16 bits.toNat) = bits.toNat := by
      rw [ofBe_toBe]
      exact Nat.mod_eq_of_lt bits.isLt
    rw [ofIpAddr, ipAddr, if_pos (toBe_length _ _), h, BitVec.ofNat_toNat, BitVec.setWidth_eq]

end RData

/-- `ip_addrs`. -/
def DnsResponse.ipAddrs (r : DnsResponse) : List IpAddr := r.message.answers.filterMap (·.data.ipAddr)

end Dns
end SmartDns
