/-
# Messages for an ipset

The message that adds an address to an ipset: the version of the protocol, the name of the set, and a
nest with the address and, if there is one, the timeout in seconds. A name that does not fit the
kernel's names is refused. The timeout is cut to 32 bits.

Key definitions: `encodeAdd`.
Key theorems: `encodeAdd_eq`.
-/
import SmartDns.Ffi.Nftset

namespace SmartDns
namespace Ffi

open Lib Lib.Netlink

def ipsetMaxnamelen : ℕ := 32
def nfnlSubsysIpset : UInt16 := 6
def ipsetCmdAdd : UInt16 := 9
def ipsetProtocol : UInt8 := 7

def ipsetAttrProtocol : ℕ := 1
def ipsetAttrSetname : ℕ := 2
def ipsetAttrTimeout : ℕ := 6
def ipsetAttrData : ℕ := 7
def ipsetAttrIp : ℕ := 1
def ipsetAttrIpaddrIpv4 : ℕ := 1
def ipsetAttrIpaddrIpv6 : ℕ := 2

def nlaFNested : ℕ := 2 ^ 15
def nlaFNetByteorder : ℕ := 2 ^ 14
def nlmFReplace : UInt16 := 0x100
def afInet : UInt8 := 2
def afInet6 : UInt8 := 10

/-- The address family, and the type of the attribute of an address. -/
def af : Dns.IpAddr → UInt8
  | .v4 _ => afInet
  | .v6 _ => afInet6

def addrAttrType : Dns.IpAddr → ℕ
  | .v4 _ => ipsetAttrIpaddrIpv4
  | .v6 _ => ipsetAttrIpaddrIpv6

def nameTooLong (setname : String) : String :=
  "ipset set name too long: '" ++ setname ++ "' is " ++ toString ((utf8 setname).length + 1) ++
    " bytes; the kernel limit is " ++ toString ipsetMaxnamelen ++ " bytes (including the terminator), at most " ++
    toString (ipsetMaxnamelen - 1) ++ " characters"

section

variable (big : Bool)

def pushAttrHeader (buf : List UInt8) (attrType : ℕ) : List UInt8 := buf ++ (toNe big 2 0 ++ toNe big 2 attrType)

def addHeader (addr : Dns.IpAddr) (seq : UInt32) : Header :=
  ⟨ipsetCmdAdd ||| nfnlSubsysIpset <<< 8, nlmFRequest ||| nlmFReplace ||| nlmFAck, seq, af addr⟩

def encodeAdd (setname : String) (addr : Dns.IpAddr) (timeout : UInt64) (seq : UInt32) : Except String (List UInt8) :=
  if ipsetMaxnamelen < (utf8 setname).length + 1 then .error (nameTooLong setname)
  else
    let buf := headerBytes big 0 (addHeader addr seq) (toBe 2 nfnlSubsysIpset.toNat)
    let buf := pushAttr big buf ipsetAttrProtocol [ipsetProtocol]
    let buf := pushAttr big buf ipsetAttrSetname (utf8 setname ++ [0])
    let dataStart := buf.length
    let buf := pushAttrHeader big buf (nlaFNested ||| ipsetAttrData)
    let ipStart := buf.length
    let buf := pushAttrHeader big buf (nlaFNested ||| ipsetAttrIp)
    let buf := pushAttr big buf (addrAttrType addr ||| nlaFNetByteorder) (addrToBytes addr)
    let buf := closeNested big buf ipStart
    -- `timeout as u32`
    let buf := if 0 < timeout.toNat then
      pushAttr big buf (ipsetAttrTimeout ||| nlaFNetByteorder) (toBe 4 timeout.toUInt32.toNat) else buf
    let buf := closeNested big buf dataStart
    let total := align buf.length
    .ok (patch (padToAlign buf) 0 (toNe big 4 total))

/-! ### The bytes of a message -/

def ipBytes (addr : Dns.IpAddr) : List UInt8 :=
  attrBytes big (nlaFNested ||| ipsetAttrIp)
    (attrBytes big (addrAttrType addr ||| nlaFNetByteorder) (addrToBytes addr))

def expireBytes (timeout : UInt64) : List UInt8 :=
  if 0 < timeout.toNat then attrBytes big (ipsetAttrTimeout ||| nlaFNetByteorder) (toBe 4 timeout.toUInt32.toNat)
  else []

def addBody (setname : String) (addr : Dns.IpAddr) (timeout : UInt64) : List UInt8 :=
  attrBytes big ipsetAttrProtocol [ipsetProtocol] ++ (attrBytes big ipsetAttrSetname (utf8 setname ++ [0]) ++
    attrBytes big (nlaFNested ||| ipsetAttrData) (ipBytes big addr ++ expireBytes big timeout))

theorem dvd_ipBytes_length (addr : Dns.IpAddr) : 4 ∣ (ipBytes big addr).length := dvd_attrBytes_length big _ _

theorem dvd_expireBytes_length (timeout : UInt64) : 4 ∣ (expireBytes big timeout).length := by
  unfold expireBytes
  split_ifs with h
  · exact dvd_attrBytes_length big _ _
  · exact dvd_zero 4

theorem dvd_addBody_length (setname : String) (addr : Dns.IpAddr) (timeout : UInt64) :
    4 ∣ (addBody big setname addr timeout).length :=
  dvd_length_append (dvd_attrBytes_length big _ _)
    (dvd_length_append (dvd_attrBytes_length big _ _) (dvd_attrBytes_length big _ _))

theorem closeNested_pushAttrHeader {buf content : List UInt8} (h : 4 ∣ buf.length) (hc : 4 ∣ content.length)
    (attrType : ℕ) :
    closeNested big (pushAttrHeader big buf attrType ++ content) buf.length =
      buf ++ attrBytes big attrType content := by
  unfold pushAttrHeader
  rw [List.append_assoc, List.append_assoc]
  exact closeNested_eq big h hc (toNe_length big 2 0) attrType

theorem dvd_pushAttrHeader_length {buf : List UInt8} (h : 4 ∣ buf.length) (attrType : ℕ) :
    4 ∣ (pushAttrHeader big buf attrType).length := by
  refine dvd_length_append h ?_
  rw [List.length_append, toNe_length, toNe_length]

theorem pushIp_eq {buf : List UInt8} (h : 4 ∣ buf.length) (addr : Dns.IpAddr) :
    closeNested big (pushAttr big (pushAttrHeader big buf (nlaFNested ||| ipsetAttrIp))
      (addrAttrType addr ||| nlaFNetByteorder) (addrToBytes addr)) buf.length = buf ++ ipBytes big addr := by
  rw [pushAttr_eq big (dvd_pushAttrHeader_length big h _)]
  exact closeNested_pushAttrHeader big h (dvd_attrBytes_length big _ _) _

/-- A name that fits gives the message of its body. -/
theorem encodeAdd_eq {setname : String} (hname : (utf8 setname).length + 1 ≤ ipsetMaxnamelen) (addr : Dns.IpAddr)
    (timeout : UInt64) (seq : UInt32) :
    encodeAdd big setname addr timeout seq =
      .ok (headerBytes big (20 + (addBody big setname addr timeout).length) (addHeader addr seq)
        (toBe 2 nfnlSubsysIpset.toNat) ++ addBody big setname addr timeout) := by
  have hres : (toBe 2 nfnlSubsysIpset.toNat).length = 2 := toBe_length 2 _
  have hhead : 4 ∣ (headerBytes big 0 (addHeader addr seq) (toBe 2 nfnlSubsysIpset.toNat)).length := by
    rw [headerBytes_length big 0 _ hres]
    decide
  have hprotocol := dvd_length_append hhead (dvd_attrBytes_length big ipsetAttrProtocol [ipsetProtocol])
  have hsetname := dvd_length_append hprotocol (dvd_attrBytes_length big ipsetAttrSetname (utf8 setname ++ [0]))
  have hdata := dvd_pushAttrHeader_length big hsetname (nlaFNested ||| ipsetAttrData)
  have hexpire (buf : List UInt8) (h : 4 ∣ buf.length) : (if 0 < timeout.toNat then
      pushAttr big buf (ipsetAttrTimeout ||| nlaFNetByteorder) (toBe 4 timeout.toUInt32.toNat) else buf) =
        buf ++ expireBytes big timeout := by
    unfold expireBytes
    split_ifs with ht
    · exact pushAttr_eq big h _ _
    · exact (List.append_nil buf).symm
  have hfull := dvd_length_append hsetname (dvd_attrBytes_length big (nlaFNested ||| ipsetAttrData)
    (ipBytes big addr ++ expireBytes big timeout))
  simp only [encodeAdd]
  rw [if_neg (by omega), pushAttr_eq big hhead, pushAttr_eq big hprotocol, pushIp_eq big hdata,
    hexpire _ (dvd_length_append hdata (dvd_ipBytes_length big addr)), List.append_assoc,
    closeNested_pushAttrHeader big hsetname
      (dvd_length_append (dvd_ipBytes_length big addr) (dvd_expireBytes_length big timeout)),
    padToAlign_of_dvd hfull, align_of_dvd hfull]
  have hbuf : headerBytes big 0 (addHeader addr seq) (toBe 2 nfnlSubsysIpset.toNat) ++
      attrBytes big ipsetAttrProtocol [ipsetProtocol] ++ attrBytes big ipsetAttrSetname (utf8 setname ++ [0]) ++
      attrBytes big (nlaFNested ||| ipsetAttrData) (ipBytes big addr ++ expireBytes big timeout) =
        headerBytes big 0 (addHeader addr seq) (toBe 2 nfnlSubsysIpset.toNat) ++ addBody big setname addr timeout := by
    simp only [addBody, List.append_assoc]
  rw [hbuf, List.length_append, headerBytes_length big 0 _ hres]
  exact congrArg Except.ok (patch_headerBytes big [] 0 _ _ _ _)

end

end Ffi
end SmartDns
