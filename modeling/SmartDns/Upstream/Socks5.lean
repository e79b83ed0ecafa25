/-
# Upstreams behind a SOCKS5 proxy

`socks5/mod.rs`: the handshake that opens a connection through the proxy, with or without a user name and a password,
and the header that goes in front of each datagram to the UDP relay and comes back in front of each answer.

The proxy is not trusted with more than it asks for: the credentials go out only to one that chose them
(`secret_kept`), and a handshake succeeds for just one thing that the proxy can say (`handshake_iff`). A datagram that
names another source than the upstream is not taken (`relayed_from_upstream`).

Key definitions: `init`, `writeHeaderSync`, `parseHeaderSync`, `pollSendTo`, `pollRecvFrom`.
Key theorems: `handshake_iff`, `secret_kept`, `parseHeaderSync_eq_ok_iff`, `relay_round_trip`,
`relayed_from_upstream`, `pending_is_woken`.
-/
import SmartDns.Config.ProxyCredentials
import SmartDns.Lib.Dialogue
import SmartDns.Wire.Accepted

namespace SmartDns

open Dns Lib

namespace Upstream
namespace Socks5

open Config (Auth)
open Wire.Subnet (v4Of v6Of octets)

inductive StringKind
  | domain
  | username
  | password

inductive AuthMethod
  | none
  | gssApi
  | usernamePassword
  | ianaReserved (value : UInt8)
  | privateUse (value : UInt8)
deriving DecidableEq

inductive Command
  | connect
  | bind
  | udpAssociate

inductive Atyp
  | v4
  | domain
  | v6

inductive UnsuccessfulReply
  | generalFailure
  | connectionNotAllowedByRules
  | networkUnreachable
  | hostUnreachable
  | connectionRefused
  | ttlExpired
  | commandNotSupported
  | addressTypeNotSupported
  | unassigned (value : UInt8)

inductive Error
  | io (text : String)
  | fromUtf8
  | invalidVersion (value : UInt8)
  | invalidAtyp (value : UInt8)
  | invalidReserved (value : UInt8)
  | invalidAuthStatus (value : UInt8)
  | invalidAuthSubnegotiation (value : UInt8)
  | invalidFragmentId (value : UInt8)
  | invalidAuthMethod (method : AuthMethod)
  | wrongVersion
  | noAcceptableMethods
  | response (reply : UnsuccessfulReply)
  | tooLongString (kind : StringKind)

inductive AddrKind
  | ip (addr : SocketAddr)
  | domain (domain : String) (port : UInt16)
deriving DecidableEq

/-! ### Reading from the proxy -/

/-- The proxy closes the connection. -/
def eof : Error := .io "early eof"

abbrev Read (A : Type) := Reader UInt8 Error A

def readU8 : Read UInt8
  | [] => .error eof
  | b :: rest => .ok (b, rest)

def readU16 : Read UInt16 := do
  let value ← readBe eof 2
  return UInt16.ofNat value

def readVersion : Read Unit := do
  let value ← readU8
  if value = 0x04 then throw .wrongVersion
  else if value = 0x05 then return ()
  else throw (.invalidVersion value)

def readMethod : Read AuthMethod := do
  let value ← readU8
  if value = 0x00 then return .none
  else if value = 0x01 then return .gssApi
  else if value = 0x02 then return .usernamePassword
  else if value ≤ 0x7f then return .ianaReserved value
  else if value ≤ 0xfe then return .privateUse value
  else throw .noAcceptableMethods

def readAtyp : Read Atyp := do
  let value ← readU8
  if value = 0x01 then return .v4
  else if value = 0x03 then return .domain
  else if value = 0x04 then return .v6
  else throw (.invalidAtyp value)

def readReserved : Read Unit := do
  let value ← readU8
  if value = 0x00 then return () else throw (.invalidReserved value)

def UnsuccessfulReply.ofCode (value : UInt8) : UnsuccessfulReply :=
  match value.toNat with
  | 0x01 => generalFailure
  | 0x02 => connectionNotAllowedByRules
  | 0x03 => networkUnreachable
  | 0x04 => hostUnreachable
  | 0x05 => connectionRefused
  | 0x06 => ttlExpired
  | 0x07 => commandNotSupported
  | 0x08 => addressTypeNotSupported
  | _ => unassigned value

def readReply : Read Unit := do
  let value ← readU8
  if value = 0x00 then return () else throw (.response (.ofCode value))

/-- `String::from_utf8`. -/
def stringOf (bytes : List UInt8) : Read String := fun d =>
  match fromUtf8 bytes with
  | none => .error .fromUtf8
  | some s => .ok (s, d)

def readString : Read String := do
  let len ← readU8
  let str ← readSlice eof len.toNat
  stringOf str

def readTargetAddr : Read AddrKind := do
  match ← readAtyp with
  | .v4 =>
    let ip ← readSlice eof 4
    let port ← readU16
    return .ip ⟨v4Of ip, port⟩
  | .v6 =>
    let ip ← readSlice eof 16
    let port ← readU16
    return .ip ⟨v6Of ip, port⟩
  | .domain =>
    let str ← readString
    let port ← readU16
    return .domain str port

def readAuthVersion : Read Unit := do
  let value ← readU8
  if value ≠ 0x01 then throw (.invalidAuthSubnegotiation value)

def readAuthStatus : Read Unit := do
  let value ← readU8
  if value ≠ 0x00 then throw (.invalidAuthStatus value)

def readSelectionMsg : Read AuthMethod := do
  readVersion
  readMethod

def readFinal : Read AddrKind := do
  readVersion
  readReply
  readReserved
  readTargetAddr

/-! ### The handshake -/

/-- What goes over the connection to the proxy. -/
abbrev Conversation (A : Type) := Talk UInt8 Error A

def AuthMethod.code : AuthMethod → UInt8
  | none => 0x00
  | gssApi => 0x01
  | usernamePassword => 0x02
  | ianaReserved value => value
  | privateUse value => value

def Command.code : Command → UInt8
  | connect => 0x01
  | bind => 0x02
  | udpAssociate => 0x03

def writeString (string : String) (kind : StringKind) : Conversation Unit := do
  if (utf8 string).length > 255 then throw (.tooLongString kind)
  send [UInt8.ofNat (utf8 string).length]
  send (utf8 string)

def writeTargetAddr : AddrKind → Conversation Unit
  | .ip ⟨.v4 bits, port⟩ => do
    send [0x01]
    send (octets (.v4 bits))
    send (toBe 2 port.toNat)
  | .ip ⟨.v6 bits, port⟩ => do
    send [0x04]
    send (octets (.v6 bits))
    send (toBe 2 port.toNat)
  | .domain domain port => do
    send [0x03]
    writeString domain .domain
    send (toBe 2 port.toNat)

def writeSelectionMsg (methods : List AuthMethod) : Conversation Unit := do
  send [0x05]
  send [UInt8.ofNat methods.length]
  send (methods.map AuthMethod.code)

def writeFinal (command : Command) (addr : AddrKind) : Conversation Unit := do
  send [0x05]
  send [command.code]
  send [0x00]
  writeTargetAddr addr

def usernamePasswordAuth (auth : Auth) : Conversation Unit := do
  send [0x01]
  writeString auth.username .username
  writeString auth.password .password
  recv readAuthVersion
  recv readAuthStatus

def methodsOf (auth : Option Auth) : List AuthMethod :=
  if auth.isSome then [.none, .usernamePassword] else [.none]

/-- What `init` does about the method that the proxy chose. -/
def authenticate (auth : Option Auth) : AuthMethod → Conversation Unit
  | .none => pure ()
  | .usernamePassword =>
    match auth with
    | some auth => usernamePasswordAuth auth
    | none => throw (.invalidAuthMethod .usernamePassword)
  | method => throw (.invalidAuthMethod method)

def init (command : Command) (addr : AddrKind) (auth : Option Auth) : Conversation AddrKind := do
  writeSelectionMsg (methodsOf auth)
  let method ← recv readSelectionMsg
  authenticate auth method
  writeFinal command addr
  recv readFinal

/-! ### Addresses on the wire -/

/-- A domain has a byte for its length. -/
def AddrKind.Short : AddrKind → Prop
  | .ip _ => True
  | .domain text _ => (utf8 text).length ≤ 255

def AddrKind.bytes : AddrKind → List UInt8
  | .ip ⟨.v4 bits, port⟩ => 0x01 :: (octets (.v4 bits) ++ toBe 2 port.toNat)
  | .ip ⟨.v6 bits, port⟩ => 0x04 :: (octets (.v6 bits) ++ toBe 2 port.toNat)
  | .domain text port => 0x03 :: UInt8.ofNat (utf8 text).length :: (utf8 text ++ toBe 2 port.toNat)

theorem v4Of_octets (bits : BitVec 32) : v4Of (octets (.v4 bits)) = .v4 bits := by
  have hlt : bits.toNat < 256 ^ 4 := bits.isLt
  show IpAddr.v4 (BitVec.ofNat 32 (ofBe (toBe 4 bits.toNat))) = .v4 bits
  rw [ofBe_toBe, Nat.mod_eq_of_lt hlt, BitVec.ofNat_toNat, BitVec.setWidth_eq]

theorem v6Of_octets (bits : BitVec 128) : v6Of (octets (.v6 bits)) = .v6 bits := by
  have hlt : bits.toNat < 256 ^ 16 := bits.isLt
  show IpAddr.v6 (BitVec.ofNat 128 (ofBe (toBe 16 bits.toNat))) = .v6 bits
  rw [ofBe_toBe, Nat.mod_eq_of_lt hlt, BitVec.ofNat_toNat, BitVec.setWidth_eq]

theorem readU8_eq_ok_iff {d rest : List UInt8} {b : UInt8} : readU8 d = .ok (b, rest) ↔ d = b :: rest := by
  cases d with
  | nil => simp [readU8]
  | cons b' d => simp [readU8]

def Atyp.code : Atyp → UInt8
  | v4 => 0x01
  | domain => 0x03
  | v6 => 0x04

theorem readAtyp_eq_ok_iff {d rest : List UInt8} {atyp : Atyp} :
    readAtyp d = .ok (atyp, rest) ↔ d = atyp.code :: rest := by
  unfold readAtyp
  rw [Lib.bind_eq_ok_iff]
  constructor
  · rintro ⟨value, d', hvalue, hatyp⟩
    obtain rfl := readU8_eq_ok_iff.mp hvalue
    by_cases h1 : value = 0x01
    · rw [if_pos h1] at hatyp
      cases hatyp
      rw [h1]
      rfl
    rw [if_neg h1] at hatyp
    by_cases h3 : value = 0x03
    · rw [if_pos h3] at hatyp
      cases hatyp
      rw [h3]
      rfl
    rw [if_neg h3] at hatyp
    by_cases h4 : value = 0x04
    · rw [if_pos h4] at hatyp
      cases hatyp
      rw [h4]
      rfl
    rw [if_neg h4] at hatyp
    cases hatyp
  · rintro rfl
    refine ⟨atyp.code, rest, readU8_eq_ok_iff.mpr rfl, ?_⟩
    cases atyp <;> rfl

theorem port_bytes {bs : List UInt8} (h : bs.length = 2) : toBe 2 (UInt16.ofNat (ofBe bs)).toNat = bs := by
  have hlt : ofBe bs < 2 ^ 16 := by
    have := ofBe_lt bs
    rw [h] at this
    exact this
  rw [UInt16.toNat_ofNat', Nat.mod_eq_of_lt hlt, toBe_ofBe h]

theorem port_of_bytes (port : UInt16) : UInt16.ofNat (ofBe (toBe 2 port.toNat)) = port := by
  have hlt : port.toNat < 256 ^ 2 := port.toNat_lt
  rw [ofBe_toBe, Nat.mod_eq_of_lt hlt, UInt16.ofNat_toNat]

theorem readU16_eq_ok_iff {d rest : List UInt8} {port : UInt16} :
    readU16 d = .ok (port, rest) ↔ d = toBe 2 port.toNat ++ rest := by
  unfold readU16 readBe
  rw [Lib.bind_eq_ok_iff]
  constructor
  · rintro ⟨value, d', hread, hport⟩
    obtain ⟨bs, d'', hslice, hvalue⟩ := Lib.bind_eq_ok_iff.mp hread
    cases hvalue
    cases hport
    obtain ⟨rfl, hlen⟩ := Lib.readSlice_eq_ok_iff.mp hslice
    rw [port_bytes hlen]
  · rintro rfl
    refine ⟨ofBe (toBe 2 port.toNat), rest, Lib.bind_eq_ok_iff.mpr ⟨_, _, ?_, rfl⟩, ?_⟩
    · exact Lib.readSlice_eq_ok_iff.mpr ⟨rfl, toBe_length 2 _⟩
    · rw [port_of_bytes]
      rfl

theorem toNat_length {s : String} (h : (utf8 s).length ≤ 255) :
    (UInt8.ofNat (utf8 s).length).toNat = (utf8 s).length := by
  rw [UInt8.toNat_ofNat']
  exact Nat.mod_eq_of_lt (by omega)

theorem readString_eq_ok_iff {d rest : List UInt8} {str : String} :
    readString d = .ok (str, rest) ↔
      (utf8 str).length ≤ 255 ∧ d = UInt8.ofNat (utf8 str).length :: (utf8 str ++ rest) := by
  unfold readString
  rw [Lib.bind_eq_ok_iff]
  constructor
  · rintro ⟨len, d', hlen, hread⟩
    obtain ⟨bs, d'', hslice, hstr⟩ := Lib.bind_eq_ok_iff.mp hread
    obtain rfl := readU8_eq_ok_iff.mp hlen
    obtain ⟨rfl, hbs⟩ := Lib.readSlice_eq_ok_iff.mp hslice
    unfold stringOf at hstr
    cases hutf8 : fromUtf8 bs with
    | none =>
      rw [hutf8] at hstr
      cases hstr
    | some s =>
      rw [hutf8] at hstr
      cases hstr
      rw [utf8_of_fromUtf8 hutf8, hbs, UInt8.ofNat_toNat]
      exact ⟨Nat.le_of_lt_succ len.toNat_lt, rfl⟩
  · rintro ⟨hshort, rfl⟩
    refine ⟨_, _, readU8_eq_ok_iff.mpr rfl, Lib.bind_eq_ok_iff.mpr ⟨utf8 str, rest, ?_, ?_⟩⟩
    · exact Lib.readSlice_eq_ok_iff.mpr ⟨rfl, (toNat_length hshort).symm⟩
    · unfold stringOf
      rw [fromUtf8_utf8]

/-- **An address is read exactly where one was written.** -/
theorem readTargetAddr_eq_ok_iff {d rest : List UInt8} {addr : AddrKind} :
    readTargetAddr d = .ok (addr, rest) ↔ addr.Short ∧ d = addr.bytes ++ rest := by
  unfold readTargetAddr
  rw [Lib.bind_eq_ok_iff]
  constructor
  · rintro ⟨atyp, d', hatyp, hread⟩
    obtain rfl := readAtyp_eq_ok_iff.mp hatyp
    cases atyp with
    | v4 =>
      obtain ⟨ip, d₁, hip, hread⟩ := Lib.bind_eq_ok_iff.mp hread
      obtain ⟨port, d₂, hport, hread⟩ := Lib.bind_eq_ok_iff.mp hread
      cases hread
      obtain ⟨rfl, hlen⟩ := Lib.readSlice_eq_ok_iff.mp hip
      obtain rfl := readU16_eq_ok_iff.mp hport
      refine ⟨trivial, ?_⟩
      show _ = 0x01 :: (octets (v4Of ip) ++ toBe 2 port.toNat) ++ rest
      rw [Wire.Subnet.octets_v4Of hlen, List.cons_append, List.append_assoc]
      rfl
    | domain =>
      obtain ⟨str, d₁, hstr, hread⟩ := Lib.bind_eq_ok_iff.mp hread
      obtain ⟨port, d₂, hport, hread⟩ := Lib.bind_eq_ok_iff.mp hread
      cases hread
      obtain ⟨hshort, rfl⟩ := readString_eq_ok_iff.mp hstr
      obtain rfl := readU16_eq_ok_iff.mp hport
      refine ⟨hshort, ?_⟩
      show _ = 0x03 :: UInt8.ofNat (utf8 str).length :: (utf8 str ++ toBe 2 port.toNat) ++ rest
      rw [List.cons_append, List.cons_append, List.append_assoc]
      rfl
    | v6 =>
      obtain ⟨ip, d₁, hip, hread⟩ := Lib.bind_eq_ok_iff.mp hread
      obtain ⟨port, d₂, hport, hread⟩ := Lib.bind_eq_ok_iff.mp hread
      cases hread
      obtain ⟨rfl, hlen⟩ := Lib.readSlice_eq_ok_iff.mp hip
      obtain rfl := readU16_eq_ok_iff.mp hport
      refine ⟨trivial, ?_⟩
      show _ = 0x04 :: (octets (v6Of ip) ++ toBe 2 port.toNat) ++ rest
      rw [Wire.Subnet.octets_v6Of hlen, List.cons_append, List.append_assoc]
      rfl
  · rintro ⟨hshort, rfl⟩
    cases addr with
    | ip addr =>
      obtain ⟨ip, port⟩ := addr
      cases ip with
      | v4 bits =>
        refine ⟨.v4, octets (.v4 bits) ++ toBe 2 port.toNat ++ rest, readAtyp_eq_ok_iff.mpr rfl, ?_⟩
        refine Lib.bind_eq_ok_iff.mpr ⟨octets (.v4 bits), toBe 2 port.toNat ++ rest, ?_, ?_⟩
        · exact Lib.readSlice_eq_ok_iff.mpr ⟨List.append_assoc _ _ _, toBe_length 4 _⟩
        · refine Lib.bind_eq_ok_iff.mpr ⟨port, rest, readU16_eq_ok_iff.mpr rfl, ?_⟩
          rw [v4Of_octets]
          rfl
      | v6 bits =>
        refine ⟨.v6, octets (.v6 bits) ++ toBe 2 port.toNat ++ rest, readAtyp_eq_ok_iff.mpr rfl, ?_⟩
        refine Lib.bind_eq_ok_iff.mpr ⟨octets (.v6 bits), toBe 2 port.toNat ++ rest, ?_, ?_⟩
        · exact Lib.readSlice_eq_ok_iff.mpr ⟨List.append_assoc _ _ _, toBe_length 16 _⟩
        · refine Lib.bind_eq_ok_iff.mpr ⟨port, rest, readU16_eq_ok_iff.mpr rfl, ?_⟩
          rw [v6Of_octets]
          rfl
    | domain domain port =>
      refine ⟨.domain, UInt8.ofNat (utf8 domain).length :: (utf8 domain ++ toBe 2 port.toNat) ++ rest,
        readAtyp_eq_ok_iff.mpr rfl, ?_⟩
      refine Lib.bind_eq_ok_iff.mpr ⟨domain, toBe 2 port.toNat ++ rest, ?_, ?_⟩
      · refine readString_eq_ok_iff.mpr ⟨hshort, ?_⟩
        rw [List.cons_append, List.append_assoc]
      · exact Lib.bind_eq_ok_iff.mpr ⟨port, rest, readU16_eq_ok_iff.mpr rfl, rfl⟩

/-! ### What the proxy has to say, and what it is told -/

theorem hears_readU8 : Hears readU8 fun b c => c = [b] where
  ok_iff := readU8_eq_ok_iff.trans ⟨fun h => ⟨_, rfl, h⟩, fun ⟨_, hc, h⟩ => by rw [h, hc]; rfl⟩

theorem hears_readTargetAddr : Hears readTargetAddr fun addr c => addr.Short ∧ c = addr.bytes where
  ok_iff := readTargetAddr_eq_ok_iff.trans
    ⟨fun ⟨hshort, h⟩ => ⟨_, ⟨hshort, rfl⟩, h⟩, fun ⟨_, ⟨hshort, hc⟩, h⟩ => ⟨hshort, by rw [h, hc]⟩⟩

/-- A reader that takes one byte and goes by one value of it. -/
theorem hears_of_byte {f : UInt8 → Read Unit} {v : UInt8}
    (h : ∀ b d rest, f b d = .ok ((), rest) ↔ b = v ∧ rest = d) : Hears (readU8 >>= f) fun _ c => c = [v] :=
  (hears_readU8.decide fun b _ d rest => h b d rest).congr fun _ _ =>
    ⟨fun ⟨_, hb, hc⟩ => by rw [hc, hb], fun hc => ⟨v, rfl, hc⟩⟩

theorem return_eq_ok_iff {d rest : List UInt8} : (return () : Read Unit) d = .ok ((), rest) ↔ rest = d := by
  constructor
  · intro h
    cases h
    rfl
  · rintro rfl
    rfl

theorem throw_ne_ok {e : Error} {d rest : List UInt8} {A : Type} {a : A} : (throw e : Read A) d ≠ .ok (a, rest) := by
  intro h
  cases h

theorem hears_readVersion : Hears readVersion fun _ c => c = [0x05] := by
  refine hears_of_byte fun b d rest => ?_
  by_cases h4 : b = 0x04
  · simp [h4, throw_ne_ok]
  by_cases h5 : b = 0x05
  · rw [if_neg h4, if_pos h5, return_eq_ok_iff]
    simp [h5]
  · simp [h4, h5, throw_ne_ok]

theorem hears_readReply : Hears readReply fun _ c => c = [0x00] := by
  refine hears_of_byte fun b d rest => ?_
  by_cases h0 : b = 0x00
  · rw [if_pos h0, return_eq_ok_iff]
    simp [h0]
  · simp [h0, throw_ne_ok]

theorem hears_readReserved : Hears readReserved fun _ c => c = [0x00] := by
  refine hears_of_byte fun b d rest => ?_
  by_cases h0 : b = 0x00
  · rw [if_pos h0, return_eq_ok_iff]
    simp [h0]
  · simp [h0, throw_ne_ok]

theorem hears_readAuthVersion : Hears readAuthVersion fun _ c => c = [0x01] := by
  refine hears_of_byte fun b d rest => ?_
  by_cases h1 : b = 0x01
  · rw [if_neg (not_not_intro h1), return_eq_ok_iff]
    simp [h1]
  · simp [h1, throw_ne_ok]

theorem hears_readAuthStatus : Hears readAuthStatus fun _ c => c = [0x00] := by
  refine hears_of_byte fun b d rest => ?_
  by_cases h0 : b = 0x00
  · rw [if_neg (not_not_intro h0), return_eq_ok_iff]
    simp [h0]
  · simp [h0, throw_ne_ok]

/-- The codes that a method of this kind has. -/
def AuthMethod.Assigned : AuthMethod → Prop
  | none => True
  | gssApi => True
  | usernamePassword => True
  | ianaReserved value => 0x03 ≤ value ∧ value ≤ 0x7f
  | privateUse value => 0x80 ≤ value ∧ value ≤ 0xfe

theorem hears_readMethod : Hears readMethod fun method c => method.Assigned ∧ c = [method.code] := by
  let P (b : UInt8) (method : AuthMethod) := method.Assigned ∧ b = method.code
  refine (hears_readU8.decide (P := P) fun b method d rest => ?_).congr fun method c => ?_
  · constructor
    · intro h
      split_ifs at h <;> cases h
      · exact ⟨⟨trivial, ‹_›⟩, rfl⟩
      · exact ⟨⟨trivial, ‹_›⟩, rfl⟩
      · exact ⟨⟨trivial, ‹_›⟩, rfl⟩
      · exact ⟨⟨⟨by grind, ‹_›⟩, rfl⟩, rfl⟩
      · exact ⟨⟨⟨by grind, ‹_›⟩, rfl⟩, rfl⟩
    · rintro ⟨⟨hassigned, hb⟩, rfl⟩
      cases method with
      | none =>
        rw [hb]
        rfl
      | gssApi =>
        rw [hb]
        rfl
      | usernamePassword =>
        rw [hb]
        rfl
      | ianaReserved value =>
        obtain ⟨h3, h7⟩ := hassigned
        obtain rfl : b = value := hb
        rw [if_neg, if_neg, if_neg, if_pos h7]
        · rfl
        all_goals grind
      | privateUse value =>
        obtain ⟨h8, hfe⟩ := hassigned
        obtain rfl : b = value := hb
        rw [if_neg, if_neg, if_neg, if_neg, if_pos hfe]
        · rfl
        all_goals grind
  · constructor
    · rintro ⟨b, ⟨hassigned, rfl⟩, rfl⟩
      exact ⟨hassigned, rfl⟩
    · rintro ⟨hassigned, rfl⟩
      exact ⟨method.code, ⟨hassigned, rfl⟩, rfl⟩

theorem hears_readSelectionMsg :
    Hears readSelectionMsg fun method c => method.Assigned ∧ c = [0x05, method.code] := by
  refine (hears_readVersion.bind fun _ => hears_readMethod).congr fun method c => ?_
  constructor
  · rintro ⟨_, _, _, rfl, ⟨hassigned, rfl⟩, rfl⟩
    exact ⟨hassigned, rfl⟩
  · rintro ⟨hassigned, rfl⟩
    exact ⟨(), _, _, rfl, ⟨hassigned, rfl⟩, rfl⟩

theorem hears_readFinal :
    Hears readFinal fun bound c => bound.Short ∧ c = 0x05 :: 0x00 :: 0x00 :: bound.bytes := by
  refine (hears_readVersion.bind fun _ => hears_readReply.bind fun _ => hears_readReserved.bind fun _ =>
    hears_readTargetAddr).congr fun bound c => ?_
  constructor
  · rintro ⟨_, _, _, rfl, ⟨_, _, _, rfl, ⟨_, _, _, rfl, ⟨hshort, rfl⟩, rfl⟩, rfl⟩, rfl⟩
    exact ⟨hshort, rfl⟩
  · rintro ⟨hshort, rfl⟩
    exact ⟨(), _, _, rfl, ⟨(), _, _, rfl, ⟨(), _, _, rfl, ⟨hshort, rfl⟩, rfl⟩, rfl⟩, rfl⟩

theorem says_writeString (string : String) (kind : StringKind) :
    Says (writeString string kind) ((utf8 string).length ≤ 255)
      (UInt8.ofNat (utf8 string).length :: utf8 string) := by
  unfold writeString
  by_cases h : (utf8 string).length > 255
  · rw [if_pos h]
    exact Says.throw _ _ (by omega)
  · rw [if_neg h]
    exact ((Says.send _).bind (.send _)).congr (by simp; omega) rfl

theorem says_writeTargetAddr (addr : AddrKind) : Says (writeTargetAddr addr) addr.Short addr.bytes := by
  cases addr with
  | ip addr =>
    obtain ⟨ip, port⟩ := addr
    cases ip with
    | v4 bits =>
      refine ((Says.send _).bind ((Says.send _).bind (.send _))).congr (by simp [AddrKind.Short]) ?_
      rw [AddrKind.bytes, List.singleton_append]
    | v6 bits =>
      refine ((Says.send _).bind ((Says.send _).bind (.send _))).congr (by simp [AddrKind.Short]) ?_
      rw [AddrKind.bytes, List.singleton_append]
  | domain text port =>
    refine ((Says.send _).bind ((says_writeString text .domain).bind (.send _))).congr (by simp [AddrKind.Short]) ?_
    rw [AddrKind.bytes, List.singleton_append, List.cons_append]

def greeting (auth : Option Auth) : List UInt8 :=
  0x05 :: UInt8.ofNat (methodsOf auth).length :: (methodsOf auth).map AuthMethod.code

theorem says_writeSelectionMsg (auth : Option Auth) :
    Says (writeSelectionMsg (methodsOf auth)) True (greeting auth) :=
  ((Says.send _).bind ((Says.send _).bind (.send _))).congr (by simp) rfl

def request (command : Command) (addr : AddrKind) : List UInt8 := 0x05 :: command.code :: 0x00 :: addr.bytes

theorem says_writeFinal (command : Command) (addr : AddrKind) :
    Says (writeFinal command addr) addr.Short (request command addr) :=
  ((Says.send _).bind ((Says.send _).bind ((Says.send _).bind (says_writeTargetAddr addr)))).congr (by simp) rfl

/-- The user name and the password, as a proxy that chose them is told. -/
def credentials (auth : Auth) : List UInt8 :=
  0x01 :: UInt8.ofNat (utf8 auth.username).length ::
    (utf8 auth.username ++ UInt8.ofNat (utf8 auth.password).length :: utf8 auth.password)

theorem talks_usernamePasswordAuth (auth : Auth) :
    Talks (usernamePasswordAuth auth) fun _ c w =>
      ((utf8 auth.username).length ≤ 255 ∧ (utf8 auth.password).length ≤ 255) ∧ c = [0x01, 0x00] ∧
        w = credentials auth := by
  have hheard := Talks.recv_bind hears_readAuthVersion fun _ _ _ => Talks.recv hears_readAuthStatus
  refine ((Says.send [0x01]).followed ((says_writeString auth.username .username).followed
    ((says_writeString auth.password .password).followed hheard))).congr fun _ c w => ?_
  constructor
  · rintro ⟨-, _, ⟨husername, _, ⟨hpassword, _, ⟨_, _, _, rfl, ⟨rfl, rfl⟩, rfl⟩, rfl⟩, rfl⟩, rfl⟩
    exact ⟨⟨husername, hpassword⟩, rfl, by simp [credentials]⟩
  · rintro ⟨⟨husername, hpassword⟩, rfl, rfl⟩
    exact ⟨trivial, _, ⟨husername, _, ⟨hpassword, [], ⟨(), [0x01], [0x00], rfl, ⟨rfl, rfl⟩, rfl⟩, rfl⟩, rfl⟩,
      by simp [credentials]⟩

/-- What is heard and said between the greeting and the request: the proxy asks for nothing, or it asks for the
credentials, where there are any, and likes them. -/
def Authenticated (auth : Option Auth) (heard said : List UInt8) : Prop :=
  heard = [0x05, 0x00] ∧ said = [] ∨
    ∃ a, auth = some a ∧ ((utf8 a.username).length ≤ 255 ∧ (utf8 a.password).length ≤ 255) ∧
      heard = [0x05, 0x02, 0x01, 0x00] ∧ said = credentials a

theorem talks_authenticate (auth : Option Auth) {method : AuthMethod} (h : method.Assigned) :
    Talks (authenticate auth method) fun _ c w => Authenticated auth (0x05 :: method.code :: c) w := by
  have other {m : AuthMethod} {c w : List UInt8} (h0 : m.code ≠ 0x00) (h2 : m.code ≠ 0x02) :
      ¬ Authenticated auth (0x05 :: m.code :: c) w := by
    rintro (⟨hc, -⟩ | ⟨a, -, -, hc, -⟩)
    · exact h0 (List.cons.inj (List.cons.inj hc).2).1
    · exact h2 (List.cons.inj (List.cons.inj hc).2).1
  cases method with
  | none =>
    refine (Talks.pure ()).congr fun _ c w => ?_
    simp [Authenticated, AuthMethod.code]
  | gssApi => exact (Talks.throw _).congr fun _ c w => ⟨False.elim, other (by decide) (by decide)⟩
  | usernamePassword =>
    cases auth with
    | none =>
      refine (Talks.throw _).congr fun _ c w => ?_
      simp [Authenticated, AuthMethod.code]
    | some a =>
      refine (talks_usernamePasswordAuth a).congr fun _ c w => ?_
      simp [Authenticated, AuthMethod.code]
  | ianaReserved value =>
    obtain ⟨h3, -⟩ := h
    have h0 : value ≠ 0x00 := by grind
    have h2 : value ≠ 0x02 := by grind
    exact (Talks.throw _).congr fun _ c w => ⟨False.elim, @other (.ianaReserved value) c w h0 h2⟩
  | privateUse value =>
    obtain ⟨h8, -⟩ := h
    have h0 : value ≠ 0x00 := by grind
    have h2 : value ≠ 0x02 := by grind
    exact (Talks.throw _).congr fun _ c w => ⟨False.elim, @other (.privateUse value) c w h0 h2⟩

/-- The method that was chosen is what is heard first. -/
theorem Authenticated.method {auth : Option Auth} {heard said : List UInt8} (h : Authenticated auth heard said) :
    ∃ (method : AuthMethod) (c : List UInt8), method.Assigned ∧ heard = 0x05 :: method.code :: c := by
  rcases h with ⟨rfl, -⟩ | ⟨a, -, -, rfl, -⟩
  · exact ⟨.none, [], trivial, rfl⟩
  · exact ⟨.usernamePassword, [0x01, 0x00], trivial, rfl⟩

theorem talks_init (command : Command) (addr : AddrKind) (auth : Option Auth) :
    Talks (init command addr auth) fun bound c w => addr.Short ∧ bound.Short ∧ ∃ heard said,
      Authenticated auth heard said ∧ c = heard ++ 0x05 :: 0x00 :: 0x00 :: bound.bytes ∧
      w = greeting auth ++ said ++ request command addr := by
  refine ((says_writeSelectionMsg auth).followed (.recv_bind hears_readSelectionMsg fun method _ h =>
    (talks_authenticate auth h.1).bind fun _ => (says_writeFinal command addr).followed
      (.recv hears_readFinal))).congr fun bound c w => ?_
  constructor
  · rintro ⟨-, _, ⟨method, _, _, ⟨-, rfl⟩, ⟨_, heard, said, _, _, hauth, ⟨haddr, _, ⟨⟨hbound, rfl⟩, rfl⟩, rfl⟩, rfl,
      rfl⟩, rfl⟩, rfl⟩
    exact ⟨haddr, hbound, _, said, hauth, by simp, by simp⟩
  · rintro ⟨haddr, hbound, heard, said, hauth, rfl, rfl⟩
    obtain ⟨method, c, hassigned, rfl⟩ := hauth.method
    refine ⟨trivial, _, ⟨method, [0x05, method.code], _, ⟨hassigned, rfl⟩, ⟨(), c, said, _, _, hauth, ⟨haddr, [],
      ⟨⟨hbound, rfl⟩, rfl⟩, rfl⟩, rfl, rfl⟩, ?_⟩, ?_⟩
    · rfl
    · simp

/-- **A handshake succeeds for just one thing that the proxy can say**: it asks for nothing, or likes the credentials
it asked for, and then names the address it bound. What it is told is the greeting, the credentials if it asked for
them, and the request. -/
theorem handshake_iff (command : Command) (addr : AddrKind) (auth : Option Auth) (s s' : Dialogue UInt8)
    (bound : AddrKind) :
    init command addr auth s = .ok bound s' ↔
      addr.Short ∧ bound.Short ∧ ∃ heard said, Authenticated auth heard said ∧
        s.incoming = heard ++ 0x05 :: 0x00 :: 0x00 :: bound.bytes ++ s'.incoming ∧
        s'.sent = s.sent ++ (greeting auth ++ said ++ request command addr) := by
  rw [(talks_init command addr auth).ok_iff]
  constructor
  · rintro ⟨_, _, ⟨haddr, hbound, heard, said, hauth, rfl, rfl⟩, hc, hw⟩
    exact ⟨haddr, hbound, heard, said, hauth, hc, hw⟩
  · rintro ⟨haddr, hbound, heard, said, hauth, hc, hw⟩
    exact ⟨_, _, ⟨haddr, hbound, heard, said, hauth, rfl, rfl⟩, hc, hw⟩

/-- **A proxy that does not ask for the credentials learns nothing of them**: whatever else it says, and wherever the
handshake ends or breaks off, other credentials would have made no difference. -/
theorem secret_kept (command : Command) (addr : AddrKind) (auth auth' : Auth) (s : Dialogue UInt8)
    (h : ¬ [0x05, 0x02] <+: s.incoming) :
    init command addr (some auth) s = init command addr (some auth') s := by
  refine bind_congr_ok (w := writeSelectionMsg [.none, .usernamePassword]) fun _ s₁ hgreet => ?_
  have hincoming : s.incoming = s₁.incoming := by
    obtain ⟨_, _, ⟨-, rfl, -⟩, hc, -⟩ := (says_writeSelectionMsg (some auth)).talks.ok_iff.mp hgreet
    exact hc
  refine bind_congr_ok fun method s₂ hmethod => ?_
  obtain ⟨_, _, ⟨⟨-, rfl⟩, -⟩, hc, -⟩ := (Talks.recv hears_readSelectionMsg).ok_iff.mp hmethod
  have hother : method ≠ .usernamePassword := by
    rintro rfl
    exact h ⟨s₂.incoming, (hincoming.trans hc).symm⟩
  have hsame : authenticate (some auth) method = authenticate (some auth') method := by
    cases method with
    | usernamePassword => exact absurd rfl hother
    | _ => rfl
  rw [hsame]

/-- A proxy that asks for nothing. -/
theorem secret_kept_open :
    init .connect (.domain "dns.example" 53) (some ⟨"user", "secret"⟩) ⟨[5, 0, 5, 0, 0, 1, 10, 0, 0, 1, 4, 56], []⟩ =
      init .connect (.domain "dns.example" 53) (some ⟨"other", "x"⟩) ⟨[5, 0, 5, 0, 0, 1, 10, 0, 0, 1, 4, 56], []⟩ :=
  secret_kept _ _ _ _ _ (by decide)

/-! ### Datagrams through the relay -/

/-- `bytes[offset..offset + src.len()].copy_from_slice(src)`, which panics out of range. -/
def copyAt (bytes : List UInt8) (offset : ℕ) (src : List UInt8) : Option (List UInt8) :=
  if offset + src.length ≤ bytes.length then
    some (bytes.take offset ++ src ++ bytes.drop (offset + src.length))
  else none

def writeHeaderSync (bytes : List UInt8) (addr : AddrKind) : Option (List UInt8 × Except Error ℕ) := do
  let bytes ← copyAt bytes 0 [0x00]
  let bytes ← copyAt bytes 1 [0x00]
  let bytes ← copyAt bytes 2 [0x00]
  match addr with
  | .ip ⟨.v4 bits, port⟩ =>
    let bytes ← copyAt bytes 3 [0x01]
    let bytes ← copyAt bytes 4 (octets (.v4 bits))
    let bytes ← copyAt bytes 8 (toBe 2 port.toNat)
    return (bytes, .ok 10)
  | .ip ⟨.v6 bits, port⟩ =>
    let bytes ← copyAt bytes 3 [0x04]
    let bytes ← copyAt bytes 4 (octets (.v6 bits))
    let bytes ← copyAt bytes 20 (toBe 2 port.toNat)
    return (bytes, .ok 22)
  | .domain text port =>
    if (utf8 text).length > 255 then return (bytes, .error (.tooLongString .domain))
    let bytes ← copyAt bytes 3 [0x03]
    let bytes ← copyAt bytes 4 [UInt8.ofNat (utf8 text).length]
    let bytes ← copyAt bytes 5 (utf8 text)
    let bytes ← copyAt bytes (5 + (utf8 text).length) (toBe 2 port.toNat)
    return (bytes, .ok (5 + (utf8 text).length + 2))

def portOf (bytes : List UInt8) : UInt16 := UInt16.ofNat (ofBe bytes)

/-- The address that stands behind the reserved bytes and the fragment, `rest` behind its type. -/
def parseHeaderAddr (atyp : UInt8) (rest : List UInt8) : Except Error (ℕ × AddrKind) :=
  if atyp = 0x01 then
    if rest.length < 6 then .error (.io "Packet too short for IPv4")
    else .ok (10, .ip ⟨v4Of (rest.take 4), portOf ((rest.drop 4).take 2)⟩)
  else if atyp = 0x04 then
    if rest.length < 18 then .error (.io "Packet too short for IPv6")
    else .ok (22, .ip ⟨v6Of (rest.take 16), portOf ((rest.drop 16).take 2)⟩)
  else if atyp = 0x03 then
    match rest with
    | [] => .error (.io "Packet too short for Domain len")
    | len :: rest =>
      if rest.length < len.toNat + 2 then .error (.io "Packet too short for Domain")
      else
        match fromUtf8 (rest.take len.toNat) with
        | none => .error .fromUtf8
        | some text => .ok (5 + len.toNat + 2, .domain text (portOf ((rest.drop len.toNat).take 2)))
  else .error (.invalidAtyp atyp)

def parseHeaderSync : List UInt8 → Except Error (ℕ × AddrKind)
  | b₀ :: b₁ :: b₂ :: atyp :: rest =>
    if b₀ ≠ 0x00 ∨ b₁ ≠ 0x00 then .error (.invalidReserved b₀)
    else if b₂ ≠ 0x00 then .error (.invalidFragmentId b₂)
    else parseHeaderAddr atyp rest
  | _ => .error (.io "Packet too short")

inductive Poll (A : Type)
  | pending
  | ready (result : Except Error A)

/-- What the socket is handed, if anything, and what comes back. `pollSend` is the socket's answer. -/
def pollSendTo (buf : List UInt8) (addr : AddrKind) (pollSend : List UInt8 → Poll ℕ) :
    Option (Option (List UInt8) × Poll ℕ) := do
  let (targetBuf, written) ← writeHeaderSync (List.replicate (buf.length + 262) 0x00) addr
  match written with
  | .error e => return (none, .ready (.error e))
  | .ok headerLen =>
    let packetLen := headerLen + buf.length
    let targetBuf ← copyAt targetBuf headerLen buf
    let packet := targetBuf.take packetLen
    match pollSend packet with
    | .ready (.ok n) =>
      if n ≥ headerLen then return (some packet, .ready (.ok (n - headerLen)))
      else return (some packet, .ready (.error (.io "Sent bytes shorter than SOCKS5 header")))
    | .pending => return (some packet, .pending)
    | .ready (.error e) => return (some packet, .ready (.error e))

/-- No source is set, or this is the one. A source that has a name is not an upstream's. -/
def sourceIsExpected (expectedSource : Option SocketAddr) (addr : AddrKind) : Bool :=
  match expectedSource, addr with
  | none, _ => true
  | some expected, .ip got => got == expected
  | some _, .domain .. => false

/-- How a call of `poll_recv_from` ends: what it returns, what is left in the socket, what it added to the count of
rejected datagrams, and whether it asked to be polled again. -/
structure Received where
  result : Poll (List UInt8 × AddrKind)
  queue : List (Except Error (List UInt8))
  rejected : ℕ := 0
  woken : Bool := false

/-- The loop of `poll_recv_from`, for a buffer of `room` bytes. `queue` is what the socket has: datagrams and
failures, and then nothing yet. A datagram is cut at the length of the target buffer. -/
def recvRounds (expectedSource : Option SocketAddr) (room : ℕ) :
    ℕ → List (Except Error (List UInt8)) → Received
  | 0, queue => { result := .pending, queue, woken := true }
  | _ + 1, [] => { result := .pending, queue := [] }
  | _ + 1, .error e :: queue => { result := .ready (.error e), queue }
  | n + 1, .ok datagram :: queue =>
    let filled := datagram.take (room + 262)
    if filled.isEmpty then { result := .ready (.error (.io "Empty packet")), queue }
    else
      match parseHeaderSync filled with
      | .error e => { result := .ready (.error e), queue }
      | .ok (headerLen, addr) =>
        if sourceIsExpected expectedSource addr then
          if filled.length - headerLen > room then
            { result := .ready (.error (.io "User buffer too small for UDP payload")), queue }
          else { result := .ready (.ok (filled.drop headerLen, addr)), queue }
        else
          let later := recvRounds expectedSource room n queue
          { later with rejected := later.rejected + 1 }

def maxSkipped : ℕ := 32

def pollRecvFrom (expectedSource : Option SocketAddr) (room : ℕ) (queue : List (Except Error (List UInt8))) :
    Received :=
  recvRounds expectedSource room (maxSkipped + 1) queue

def isUnspecified : IpAddr → Bool
  | .v4 bits => bits = 0
  | .v6 bits => bits = 0

/-- Where the datagrams go: a proxy may leave it to the client to come back to where it is connected. -/
def resolveUdpRelayAddr (proxyAddr : AddrKind) (peer : SocketAddr) : SocketAddr :=
  match proxyAddr with
  | .ip addr => if isUnspecified addr.ip || addr.port = 0 then peer else addr
  | .domain .. => peer

def associate (peer : SocketAddr) (associationAddr : Option AddrKind) (auth : Option Auth) :
    Conversation SocketAddr := do
  let addr := associationAddr.getD (.ip ⟨.v4 0, 0⟩)
  let proxyAddr ← init .udpAssociate addr auth
  return resolveUdpRelayAddr proxyAddr peer

/-! ### The header of a datagram -/

def header (addr : AddrKind) : List UInt8 := 0x00 :: 0x00 :: 0x00 :: addr.bytes

theorem header_length (addr : AddrKind) : (header addr).length = 3 + addr.bytes.length := by
  simp [header]
  omega

/-- The room that is left for a header is enough for each. -/
theorem header_length_le {addr : AddrKind} (h : addr.Short) : (header addr).length ≤ 262 := by
  rw [header_length]
  cases addr with
  | ip addr =>
    obtain ⟨ip, port⟩ := addr
    cases ip with
    | v4 bits => simp [AddrKind.bytes, octets]
    | v6 bits => simp [AddrKind.bytes, octets]
  | domain text port =>
    have : (utf8 text).length ≤ 255 := h
    simp [AddrKind.bytes]
    omega

/-- `bytes` with `w` at its beginning. -/
def written (bytes w : List UInt8) : List UInt8 := w ++ bytes.drop w.length

theorem header_ip_length_le (source : SocketAddr) : (header (.ip source)).length ≤ 22 := by
  obtain ⟨ip, port⟩ := source
  cases ip with
  | v4 bits => simp [header, AddrKind.bytes, octets]
  | v6 bits => simp [header, AddrKind.bytes, octets]

theorem copyAt_written {A : Type} {bytes w src : List UInt8} {offset : ℕ} (f : List UInt8 → Option A)
    (hoffset : offset = w.length) (hfits : w.length + src.length ≤ bytes.length) :
    (copyAt (written bytes w) offset src).bind f = f (written bytes (w ++ src)) := by
  subst hoffset
  rw [copyAt, if_pos, Option.bind_some]
  · simp [written]
  · simp [written]
    omega

/-- The header goes to the beginning of the buffer, and the rest of it stays. -/
theorem writeHeaderSync_of_short {bytes : List UInt8} {addr : AddrKind} (hroom : 262 ≤ bytes.length)
    (h : addr.Short) :
    writeHeaderSync bytes addr = some (written bytes (header addr), .ok (header addr).length) := by
  have hfits := (header_length_le h).trans hroom
  rw [show writeHeaderSync bytes addr = writeHeaderSync (written bytes []) addr from rfl]
  unfold writeHeaderSync
  simp only [Option.bind_eq_bind]
  cases addr with
  | ip addr =>
    obtain ⟨ip, port⟩ := addr
    cases ip with
    | v4 bits =>
      dsimp only
      rw [copyAt_written, copyAt_written, copyAt_written, copyAt_written, copyAt_written, copyAt_written]
      · simp [header, AddrKind.bytes, octets]
      all_goals simp [octets] <;> omega
    | v6 bits => 
      dsimp only
      rw [copyAt_written, copyAt_written, copyAt_written, copyAt_written, copyAt_written, copyAt_written]
      · simp [header, AddrKind.bytes, octets]
      all_goals simp [octets] <;> omega
  | domain text port =>
    have : (utf8 text).length ≤ 255 := h
    dsimp only
    rw [copyAt_written, copyAt_written, copyAt_written, if_neg (by omega), copyAt_written, copyAt_written,
      copyAt_written, copyAt_written]
    · simp [header, AddrKind.bytes]
      omega
    all_goals simp <;> omega

theorem take_port {a b : List UInt8} {n : ℕ} (ha : a.length = n) (hb : b.length = 2) (rest : List UInt8) :
    (a ++ (b ++ rest)).take n = a ∧ ((a ++ (b ++ rest)).drop n).take 2 = b := by
  subst ha
  simp [← hb]

theorem port_split {rest : List UInt8} {n : ℕ} (h : n + 2 ≤ rest.length) :
    rest.take n ++ (toBe 2 (portOf ((rest.drop n).take 2)).toNat ++ rest.drop (n + 2)) = rest := by
  rw [portOf, port_bytes (by simp; omega), ← List.drop_drop, List.take_append_drop, List.take_append_drop]

theorem addr_of_parsed {atyp : UInt8} {rest : List UInt8} {n : ℕ} {addr : AddrKind}
    (h : parseHeaderAddr atyp rest = .ok (n, addr)) :
    addr.Short ∧ n = (header addr).length ∧ ∃ payload, atyp :: rest = addr.bytes ++ payload := by
  unfold parseHeaderAddr at h
  split_ifs at h with h1 hlen h4 hlen h3
  · cases h
    have hip := @Wire.Subnet.octets_v4Of (rest.take 4) (by simp; omega)
    refine ⟨trivial, by simp [header, AddrKind.bytes, v4Of, octets], rest.drop 6, ?_⟩
    show _ = 0x01 :: (octets (v4Of (rest.take 4)) ++ toBe 2 _) ++ rest.drop 6
    rw [hip, List.cons_append, List.append_assoc, port_split (by omega), h1]
  · cases h
    have hip := @Wire.Subnet.octets_v6Of (rest.take 16) (by simp; omega)
    refine ⟨trivial, by simp [header, AddrKind.bytes, v6Of, octets], rest.drop 18, ?_⟩
    show _ = 0x04 :: (octets (v6Of (rest.take 16)) ++ toBe 2 _) ++ rest.drop 18
    rw [hip, List.cons_append, List.append_assoc, port_split (by omega), h4]
  · cases rest with
    | nil => cases h
    | cons len rest =>
      dsimp only at h
      split_ifs at h with hlen
      cases hutf8 : fromUtf8 (rest.take len.toNat) with
      | none =>
        rw [hutf8] at h
        cases h
      | some text =>
        rw [hutf8] at h
        cases h
        have htext : utf8 text = rest.take len.toNat := utf8_of_fromUtf8 hutf8
        have hlength : (utf8 text).length = len.toNat := by
          rw [htext, List.length_take]
          omega
        refine ⟨?_, ?_, rest.drop (len.toNat + 2), ?_⟩
        · show (utf8 text).length ≤ 255
          have := len.toNat_lt
          omega
        · simp [header, AddrKind.bytes, hlength]
          omega
        · show _ = 0x03 :: UInt8.ofNat (utf8 text).length :: (utf8 text ++ toBe 2 _) ++ _
          rw [hlength, htext, UInt8.ofNat_toNat, List.cons_append, List.cons_append, List.append_assoc,
            port_split (by omega), h3]

theorem parsed_of_addr {addr : AddrKind} (hshort : addr.Short) {atyp : UInt8} {rest payload : List UInt8}
    (h : atyp :: rest = addr.bytes ++ payload) :
    parseHeaderAddr atyp rest = .ok ((header addr).length, addr) := by
  cases addr with
  | ip addr =>
    obtain ⟨ip, port⟩ := addr
    cases ip with
    | v4 bits =>
      rw [AddrKind.bytes, List.cons_append, List.append_assoc] at h
      obtain ⟨hatyp, hrest⟩ := List.cons.inj h
      obtain ⟨hip, hport⟩ := take_port (toBe_length 4 bits.toNat) (toBe_length 2 port.toNat) payload
      rw [hatyp, hrest]
      unfold parseHeaderAddr
      rw [if_pos rfl, if_neg (by simp [octets]; omega)]
      unfold octets
      rw [hip, hport, portOf, port_of_bytes, ← octets, v4Of_octets]
      simp [header, AddrKind.bytes, octets]
    | v6 bits =>
      rw [AddrKind.bytes, List.cons_append, List.append_assoc] at h
      obtain ⟨hatyp, hrest⟩ := List.cons.inj h
      obtain ⟨hip, hport⟩ := take_port (toBe_length 16 bits.toNat) (toBe_length 2 port.toNat) payload
      rw [hatyp, hrest]
      unfold parseHeaderAddr
      rw [if_neg (by decide), if_pos rfl, if_neg (by simp [octets]; omega)]
      unfold octets
      rw [hip, hport, portOf, port_of_bytes, ← octets, v6Of_octets]
      simp [header, AddrKind.bytes, octets]
  | domain text port =>
    rw [AddrKind.bytes, List.cons_append, List.cons_append, List.append_assoc] at h
    obtain ⟨rfl, rfl⟩ := List.cons.inj h
    obtain ⟨htext, hport⟩ := take_port (toNat_length hshort).symm (toBe_length 2 port.toNat) payload
    have hroom : ¬ (utf8 text ++ (toBe 2 port.toNat ++ payload)).length <
        (UInt8.ofNat (utf8 text).length).toNat + 2 := by
      rw [toNat_length hshort, List.length_append, List.length_append, toBe_length]
      omega
    unfold parseHeaderAddr
    dsimp only
    rw [if_neg (by decide), if_neg (by decide), if_pos rfl, if_neg hroom, htext, hport, fromUtf8_utf8, portOf,
      port_of_bytes]
    simp [header, AddrKind.bytes, toNat_length hshort]
    omega

/-- **A header is parsed exactly where one was written**, whatever follows it. -/
theorem parseHeaderSync_eq_ok_iff {bytes : List UInt8} {n : ℕ} {addr : AddrKind} :
    parseHeaderSync bytes = .ok (n, addr) ↔
      addr.Short ∧ n = (header addr).length ∧ ∃ payload, bytes = header addr ++ payload := by
  constructor
  · intro h
    unfold parseHeaderSync at h
    split at h
    next b₀ b₁ b₂ atyp rest =>
      split_ifs at h with hreserved hfragment
      obtain ⟨h₀, h₁⟩ := not_or.mp hreserved
      obtain rfl := not_not.mp h₀
      obtain rfl := not_not.mp h₁
      obtain rfl := not_not.mp hfragment
      obtain ⟨hshort, hn, payload, hpayload⟩ := addr_of_parsed h
      exact ⟨hshort, hn, payload, by rw [hpayload]; rfl⟩
    next => cases h
  · rintro ⟨hshort, rfl, payload, rfl⟩
    cases hbytes : addr.bytes ++ payload with
    | nil => cases addr with
      | ip addr => obtain ⟨⟨⟩, _⟩ := addr <;> cases hbytes
      | domain => cases hbytes
    | cons atyp rest =>
      show parseHeaderSync (0x00 :: 0x00 :: 0x00 :: (addr.bytes ++ payload)) = _
      rw [hbytes]
      exact parsed_of_addr hshort hbytes.symm

/-! ### What the relay is handed, and what it brings back -/

theorem pollSendTo_of_short {addr : AddrKind} (h : addr.Short) (buf : List UInt8) (pollSend : List UInt8 → Poll ℕ) :
    ∃ result, pollSendTo buf addr pollSend = some (some (header addr ++ buf), result) := by
  have hlength := header_length_le h
  have hcopy : copyAt (written (List.replicate (buf.length + 262) 0x00) (header addr)) (header addr).length buf =
      some (written (List.replicate (buf.length + 262) 0x00) (header addr ++ buf)) := by
    have := @copyAt_written _ (List.replicate (buf.length + 262) 0x00) (header addr) buf _ some rfl (by simp; omega)
    simpa using this
  have htake : (written (List.replicate (buf.length + 262) 0x00) (header addr ++ buf)).take
      ((header addr).length + buf.length) = header addr ++ buf := by
    rw [written, List.take_left' (by simp)]
  unfold pollSendTo
  rw [writeHeaderSync_of_short (by simp) h]
  dsimp only [Option.bind_eq_bind, Option.bind_some]
  rw [hcopy]
  dsimp only [Option.bind_some]
  rw [htake]
  cases pollSend (header addr ++ buf) with
  | pending => exact ⟨_, rfl⟩
  | ready result =>
    cases result with
    | error e => exact ⟨_, rfl⟩
    | ok n =>
      dsimp only
      split_ifs
      · exact ⟨_, rfl⟩
      · exact ⟨_, rfl⟩

theorem parse_take_iff {room n : ℕ} {datagram : List UInt8} {addr : AddrKind} :
    parseHeaderSync (datagram.take (room + 262)) = .ok (n, addr) ↔
      addr.Short ∧ n = (header addr).length ∧ ∃ payload, datagram = header addr ++ payload := by
  rw [parseHeaderSync_eq_ok_iff]
  constructor
  · rintro ⟨hshort, rfl, payload, hpayload⟩
    refine ⟨hshort, rfl, payload ++ datagram.drop (room + 262), ?_⟩
    rw [← List.append_assoc, ← hpayload, List.take_append_drop]
  · rintro ⟨hshort, rfl, payload, rfl⟩
    have := header_length_le hshort
    exact ⟨hshort, rfl, _, by rw [List.take_append, List.take_of_length_le (by omega)]⟩

theorem filled_nonempty {room : ℕ} {addr : AddrKind} {payload : List UInt8} :
    ((header addr ++ payload).take (room + 262)).isEmpty = false := by
  rw [header, List.cons_append, List.take_succ_cons]
  rfl

theorem recvRounds_taken {expectedSource : Option SocketAddr} {room : ℕ} {addr : AddrKind} {payload : List UInt8}
    (hshort : addr.Short) (hexpected : sourceIsExpected expectedSource addr = true) (hroom : payload.length ≤ room)
    (n : ℕ) (queue : List (Except Error (List UInt8))) :
    recvRounds expectedSource room (n + 1) (.ok (header addr ++ payload) :: queue) =
      { result := .ready (.ok (payload, addr)), queue } := by
  have hlength := header_length_le hshort
  have hwhole : (header addr ++ payload).take (room + 262) = header addr ++ payload :=
    List.take_of_length_le (by simp; omega)
  have hparse : parseHeaderSync (header addr ++ payload) = .ok ((header addr).length, addr) :=
    parseHeaderSync_eq_ok_iff.mpr ⟨hshort, rfl, payload, rfl⟩
  rw [recvRounds]
  dsimp only
  rw [if_neg (by simp [filled_nonempty]), hwhole, hparse]
  dsimp only
  rw [if_pos hexpected, if_neg (by simp; omega), List.drop_left]

/-- A datagram that somebody else's name is on. -/
def Foreign (source : SocketAddr) (datagram : List UInt8) : Prop :=
  ∃ addr : AddrKind, addr.Short ∧ addr ≠ .ip source ∧ ∃ payload, datagram = header addr ++ payload

theorem sourceIsExpected_iff {source : SocketAddr} {addr : AddrKind} :
    sourceIsExpected (some source) addr = true ↔ addr = .ip source := by
  cases addr with
  | ip got => simp [sourceIsExpected]
  | domain text port => simp [sourceIsExpected]

theorem recvRounds_foreign {source : SocketAddr} {datagram : List UInt8} (h : Foreign source datagram) (room n : ℕ)
    (queue : List (Except Error (List UInt8))) :
    recvRounds (some source) room (n + 1) (.ok datagram :: queue) =
      { recvRounds (some source) room n queue with
        rejected := (recvRounds (some source) room n queue).rejected + 1 } := by
  obtain ⟨addr, hshort, hother, payload, rfl⟩ := h
  rw [recvRounds]
  dsimp only
  rw [if_neg (by simp [filled_nonempty]), parse_take_iff.mpr ⟨hshort, rfl, payload, rfl⟩]
  dsimp only
  rw [if_neg (mt sourceIsExpected_iff.mp hother)]

theorem recvRounds_all_foreign {source : SocketAddr} (room : ℕ) {skipped : List (List UInt8)}
    (h : ∀ d ∈ skipped, Foreign source d) (n : ℕ) (queue : List (Except Error (List UInt8))) :
    recvRounds (some source) room (skipped.length + n) (skipped.map .ok ++ queue) =
      { recvRounds (some source) room n queue with
        rejected := (recvRounds (some source) room n queue).rejected + skipped.length } := by
  induction skipped with
  | nil => simp
  | cons d skipped ih =>
    have hd : Foreign source d := h d List.mem_cons_self
    rw [List.length_cons, List.map_cons, List.cons_append, Nat.add_right_comm, recvRounds_foreign hd,
      ih fun d hd => h d (List.mem_cons_of_mem _ hd), Nat.add_assoc]

/-- What is taken is the upstream's, and all that was passed over before it was somebody else's. -/
theorem of_recvRounds {source : SocketAddr} {room : ℕ} {payload : List UInt8} {addr : AddrKind} :
    ∀ {n : ℕ} {queue : List (Except Error (List UInt8))},
    (recvRounds (some source) room n queue).result = .ready (.ok (payload, addr)) →
      addr = .ip source ∧ payload.length ≤ room ∧
        ∃ (skipped : List (List UInt8)) (rest : List (Except Error (List UInt8))),
          (∀ d ∈ skipped, Foreign source d) ∧ skipped.length < n ∧
          queue = skipped.map .ok ++ .ok (header (.ip source) ++ payload) :: rest := by
  intro n
  induction n with
  | zero =>
    intro queue h
    cases h
  | succ n ih =>
    intro queue h
    cases queue with
    | nil => cases h
    | cons arrival queue =>
      cases arrival with
      | error e => cases h
      | ok datagram =>
        rw [recvRounds] at h
        dsimp only at h
        split_ifs at h with hempty
        · cases h
        cases hparse : parseHeaderSync (datagram.take (room + 262)) with
        | error e =>
          rw [hparse] at h
          cases h
        | ok parsed =>
          obtain ⟨headerLen, got⟩ := parsed
          rw [hparse] at h
          dsimp only at h
          obtain ⟨hshort, rfl, p, rfl⟩ := parse_take_iff.mp hparse
          split_ifs at h with hexpected hroom
          · cases h
          · obtain rfl := sourceIsExpected_iff.mp hexpected
            have hsource := header_ip_length_le source
            have hwhole : (header (.ip source) ++ p).take (room + 262) = header (.ip source) ++ p := by
              refine List.take_of_length_le ?_
              simp only [List.length_take] at hroom
              omega
            rw [hwhole] at h hroom
            rw [List.drop_left] at h
            cases h
            simp only [List.length_append] at hroom
            exact ⟨rfl, by omega, [], queue, by simp, by simp, rfl⟩
          · obtain ⟨haddr, hlen, skipped, rest, hforeign, hcount, rfl⟩ := ih h
            refine ⟨haddr, hlen, (header got ++ p) :: skipped, rest, ?_, ?_, rfl⟩
            · intro d hd
              rcases List.mem_cons.mp hd with rfl | hd
              · exact ⟨got, hshort, mt sourceIsExpected_iff.mpr hexpected, p, rfl⟩
              · exact hforeign d hd
            · simpa using hcount

/-- The first datagram of the upstream in the socket: it carries the payload and fits, at most 32 others stand
before it, and `rest` behind it. -/
structure FirstOfUpstream (source : SocketAddr) (room : ℕ) (queue : List (Except Error (List UInt8)))
    (payload : List UInt8) (skipped : List (List UInt8)) (rest : List (Except Error (List UInt8))) : Prop where
  fits : payload.length ≤ room
  foreign : ∀ d ∈ skipped, Foreign source d
  few : skipped.length ≤ maxSkipped
  queue_eq : queue = skipped.map .ok ++ .ok (header (.ip source) ++ payload) :: rest

/-- It is taken, the others are counted, and what is behind stays. -/
theorem FirstOfUpstream.taken {source : SocketAddr} {room : ℕ} {queue : List (Except Error (List UInt8))}
    {payload : List UInt8} {skipped : List (List UInt8)} {rest : List (Except Error (List UInt8))}
    (h : FirstOfUpstream source room queue payload skipped rest) :
    pollRecvFrom (some source) room queue =
      { result := .ready (.ok (payload, .ip source)), queue := rest, rejected := skipped.length } := by
  obtain ⟨m, hm⟩ : ∃ m, maxSkipped + 1 = skipped.length + m + 1 :=
    Nat.exists_eq_add_of_lt (Nat.lt_succ_of_le h.few)
  rw [pollRecvFrom, h.queue_eq, hm, Nat.add_assoc, recvRounds_all_foreign room h.foreign,
    recvRounds_taken (show AddrKind.Short (.ip source) from trivial) (sourceIsExpected_iff.mpr rfl) h.fits,
    Nat.zero_add]

/-- **What comes back through the relay is the upstream's, whole**: a call returns a payload if and only if the
first datagram of the upstream carries it, and then the others are counted and what is behind stays. -/
theorem relayed_from_upstream (source : SocketAddr) (room : ℕ) (queue : List (Except Error (List UInt8)))
    (payload : List UInt8) (addr : AddrKind) :
    ((pollRecvFrom (some source) room queue).result = .ready (.ok (payload, addr)) ↔
      addr = .ip source ∧ ∃ skipped rest, FirstOfUpstream source room queue payload skipped rest) ∧
    ∀ skipped rest, FirstOfUpstream source room queue payload skipped rest →
      (pollRecvFrom (some source) room queue).queue = rest ∧
        (pollRecvFrom (some source) room queue).rejected = skipped.length := by
  refine ⟨⟨fun h => ?_, ?_⟩, fun skipped rest h => ?_⟩
  · obtain ⟨rfl, hroom, skipped, rest, hforeign, hcount, hqueue⟩ := of_recvRounds h
    exact ⟨rfl, skipped, rest, hroom, hforeign, Nat.le_of_lt_succ hcount, hqueue⟩
  · rintro ⟨rfl, skipped, rest, h⟩
    rw [h.taken]
  · rw [h.taken]
    exact ⟨rfl, rfl⟩

/-- What goes out is what comes in, where the relay sends it back as it is. -/
theorem relay_round_trip (expectedSource : Option SocketAddr) (addr : AddrKind) (buf : List UInt8) (room : ℕ)
    (pollSend : List UInt8 → Poll ℕ) (queue : List (Except Error (List UInt8))) (hshort : addr.Short)
    (hexpected : sourceIsExpected expectedSource addr = true) (hroom : buf.length ≤ room) :
    ∃ packet result, pollSendTo buf addr pollSend = some (some packet, result) ∧
      pollRecvFrom expectedSource room (.ok packet :: queue) = { result := .ready (.ok (buf, addr)), queue } := by
  obtain ⟨result, hsend⟩ := pollSendTo_of_short hshort buf pollSend
  exact ⟨_, result, hsend, recvRounds_taken hshort hexpected hroom maxSkipped queue⟩

theorem woken_of_pending (expectedSource : Option SocketAddr) (room n : ℕ) (queue : List (Except Error (List UInt8)))
    (h : (recvRounds expectedSource room n queue).result = .pending) :
    (recvRounds expectedSource room n queue).queue = [] ∨ (recvRounds expectedSource room n queue).woken = true := by
  induction n generalizing queue with
  | zero => exact .inr rfl
  | succ n ih =>
    cases queue with
    | nil => exact .inl rfl
    | cons arrival queue =>
      cases arrival with
      | error e => cases h
      | ok datagram =>
        rw [recvRounds] at h ⊢
        dsimp only at h ⊢
        split_ifs at h ⊢
        cases hparse : parseHeaderSync (datagram.take (room + 262)) with
        | error e =>
          rw [hparse] at h
          cases h
        | ok parsed =>
          rw [hparse] at h
          dsimp only at h ⊢
          split_ifs at h ⊢
          exact ih queue h

/-- A call that brings nothing is not forgotten: the socket has nothing, or the call asks to be polled again. -/
theorem pending_is_woken (expectedSource : Option SocketAddr) (room : ℕ) (queue : List (Except Error (List UInt8)))
    (h : (pollRecvFrom expectedSource room queue).result = .pending) :
    (pollRecvFrom expectedSource room queue).queue = [] ∨ (pollRecvFrom expectedSource room queue).woken = true :=
  woken_of_pending expectedSource room (maxSkipped + 1) queue h

/-- Three bytes to an upstream, and back. -/
theorem relay_round_trip_v4 : ∃ packet result,
    pollSendTo [1, 2, 3] (.ip ⟨.v4 0x01020304, 53⟩) (fun _ => .pending) = some (some packet, result) ∧
      pollRecvFrom (some ⟨.v4 0x01020304, 53⟩) 512 [.ok packet] =
        { result := .ready (.ok ([1, 2, 3], .ip ⟨.v4 0x01020304, 53⟩)), queue := [] } :=
  relay_round_trip _ _ _ _ _ _ trivial (by decide) (by decide)

end Socks5
end Upstream
end SmartDns
