/-
# Messages over a stream of bytes

`TcpStream` of `proto/src/tcp/tcp_stream.rs`, which the server listens with over TCP and the upstreams are
asked with over TCP and TLS: each message goes behind two bytes that say its length. The socket takes and gives
as many bytes at a time as it likes, and may let a poll wait at any of them; what is in the middle of its way
stays in the two states between the polls.

`sendRound` and `recvRound` are one round of the two loops of `poll_next`; the surroundings answer to the one
poll of a socket or a queue that a round makes. A `Connection` is a stream with what went over its socket so far.

Key definitions: `TcpStream.sendRound`, `TcpStream.recvRound`, `Connection.step`, `Connection.Settled`.
Key theorems: `sent_of_run`, `returned_of_run`, `arrives_in_order`.
-/
import SmartDns.Dns.Serial
import SmartDns.Lib.Backpatch
import SmartDns.Lib.Framing
import SmartDns.Lib.Runs

namespace SmartDns

open Dns Lib

namespace Wire

inductive IoError
  | mismatchedPeer (peer dst : SocketAddr)
  | brokenPipe (text : String)
  | socket (code : ℕ)
deriving DecidableEq

inductive WriteTcpState
  | lenBytes (pos : ℕ) (length bytes : List UInt8)
  | bytes (pos : ℕ) (bytes : List UInt8)
  | flushing

inductive ReadTcpState
  | lenBytes (pos : ℕ) (bytes : List UInt8)
  | bytes (pos : ℕ) (bytes : List UInt8) (planned : ℕ)

def READ_CHUNK : ℕ := 4096

/-- No more room than a chunk, whatever the length says. -/
def ReadTcpState.ofLength (planned : ℕ) : ReadTcpState :=
  .bytes 0 (List.replicate (min READ_CHUNK planned) 0) planned

structure TcpStream where
  sendState : Option WriteTcpState := none
  readState : ReadTcpState := .lenBytes 0 [0, 0]
  peerAddr : SocketAddr

/-- What the socket or the queue of outbound messages answers to a poll. -/
inductive Answer
  | wrote (n : ℕ)
  | flushed
  | outbound (buffer : List UInt8) (dst : SocketAddr)
  | noOutbound
  | read (data : List UInt8)
  | pending
  | failed (e : IoError)

/-- How a round ends: one of the loops goes round again, or `poll_next` returns. -/
inductive Turn
  | sending
  | receiving
  | pending
  | ready (item : Option (Except IoError (List UInt8 × SocketAddr)))

/-! ### Sending -/

/-- The bytes that the socket is given to write. -/
def WriteTcpState.offered : WriteTcpState → List UInt8
  | .lenBytes pos length _ => length.drop pos
  | .bytes pos buffer => buffer.drop pos
  | .flushing => []

/-- The state when the socket has taken so many of them. -/
def WriteTcpState.wrote (n : ℕ) : WriteTcpState → WriteTcpState
  | .lenBytes pos length buffer =>
    if pos + n < length.length then .lenBytes (pos + n) length buffer else .bytes 0 buffer
  | .bytes pos buffer => if pos + n < buffer.length then .bytes (pos + n) buffer else .flushing
  | .flushing => .flushing

namespace TcpStream

/-- A round of the first loop; an answer that does not belong to its poll gives nothing. -/
def sendRound (s : TcpStream) (a : Answer) : Option (TcpStream × Turn) :=
  match s.sendState, a with
  | some .flushing, .flushed => some ({ s with sendState := none }, .sending)
  | some .flushing, .wrote _ => none
  | some state, .wrote n =>
    if n ≤ state.offered.length then some ({ s with sendState := some (state.wrote n) }, .sending) else none
  | some _, .pending => some (s, .pending)
  | some _, .failed e => some (s, .ready (some (.error e)))
  | none, .outbound buffer dst =>
    if s.peerAddr ≠ dst then some (s, .ready (some (.error (.mismatchedPeer s.peerAddr dst))))
    else some ({ s with sendState := some (.lenBytes 0 (toBe 2 buffer.length) buffer) }, .sending)
  | none, .pending => some (s, .receiving)
  | none, .noOutbound => some (s, .receiving)
  | _, _ => none

/-! ### Reading -/

/-- The buffer has room for what comes next, if less than what the length says. -/
def grown (pos : ℕ) (bytes : List UInt8) (planned : ℕ) : List UInt8 :=
  if bytes.length ≤ pos ∧ bytes.length < planned then
    bytes ++ List.replicate (min (bytes.length + READ_CHUNK) planned - bytes.length) 0
  else bytes

/-- The bytes that the socket may fill. -/
def space (s : TcpStream) : ℕ :=
  match s.readState with
  | .lenBytes pos bytes => bytes.length - pos
  | .bytes pos bytes planned => (grown pos bytes planned).length - pos

def readLen (s : TcpStream) (pos : ℕ) (bytes data : List UInt8) : TcpStream × Turn :=
  if data = [] then
    (s, .ready (if pos = 0 then none else some (.error (.brokenPipe "closed while reading length"))))
  else if pos + data.length < bytes.length then
    ({ s with readState := .lenBytes (pos + data.length) (overwrite bytes pos data) }, .receiving)
  else if ofBe (overwrite bytes pos data) = 0 then
    ({ s with readState := .lenBytes 0 (overwrite bytes pos data) }, .receiving)
  else
    ({ s with readState := .ofLength (ofBe (overwrite bytes pos data)) }, .receiving)

def readBytes (s : TcpStream) (pos : ℕ) (bytes : List UInt8) (planned : ℕ) (data : List UInt8) : TcpStream × Turn :=
  if data = [] then
    ({ s with readState := .bytes pos bytes planned },
      .ready (some (.error (.brokenPipe "closed while reading message"))))
  else if pos + data.length < planned then
    ({ s with readState := .bytes (pos + data.length) (overwrite bytes pos data) planned }, .receiving)
  else
    ({ s with readState := .lenBytes 0 [0, 0] }, .ready (some (.ok (overwrite bytes pos data, s.peerAddr))))

/-- A round of the second loop. -/
def recvRound (s : TcpStream) (a : Answer) : Option (TcpStream × Turn) :=
  match s.readState, a with
  | .lenBytes pos bytes, .read data =>
    if data.length ≤ s.space then some (s.readLen pos bytes data) else none
  | .lenBytes _ _, .pending => some (s, .pending)
  | .lenBytes _ _, .failed e => some (s, .ready (some (.error e)))
  | .bytes pos bytes planned, .read data =>
    if data.length ≤ s.space then some (s.readBytes pos (grown pos bytes planned) planned data) else none
  | .bytes pos bytes planned, .pending =>
    some ({ s with readState := .bytes pos (grown pos bytes planned) planned }, .pending)
  | .bytes pos bytes planned, .failed e =>
    some ({ s with readState := .bytes pos (grown pos bytes planned) planned }, .ready (some (.error e)))
  | _, _ => none

/-! ### A connection -/

/-- The bytes that the socket takes in a round of the first loop. -/
def written (s : TcpStream) : Answer → List UInt8
  | .wrote n => (s.sendState.elim [] WriteTcpState.offered).take n
  | _ => []

/-- The message that a round of the first loop takes off the queue to send it. -/
def accepted (s : TcpStream) : Answer → List (List UInt8)
  | .outbound buffer dst => if s.peerAddr = dst then [buffer] else []
  | _ => []

end TcpStream

/-- The message that `poll_next` returns. -/
def Turn.messages : Turn → List (List UInt8)
  | .ready (some (.ok message)) => [message.1]
  | _ => []

def Turn.isReceiving : Turn → Bool
  | .receiving => true
  | _ => false

/-- The bytes that the socket gives. -/
def Answer.data : Answer → List UInt8
  | .read data => data
  | _ => []

/-- A stream in one of its loops, with what went over the socket and the queue, and what it returned. -/
structure Connection where
  stream : TcpStream
  receiving : Bool := false
  sent : List UInt8 := []
  taken : List UInt8 := []
  outbound : List (List UInt8) := []
  returned : List (List UInt8) := []

namespace Connection

def step (c : Connection) (a : Answer) : Option Connection :=
  if c.receiving then
    (c.stream.recvRound a).map fun r =>
      { c with
        stream := r.1
        receiving := r.2.isReceiving
        taken := c.taken ++ a.data
        returned := c.returned ++ r.2.messages }
  else
    (c.stream.sendRound a).map fun r =>
      { c with
        stream := r.1
        receiving := r.2.isReceiving
        sent := c.sent ++ c.stream.written a
        outbound := c.outbound ++ c.stream.accepted a }

/-- The rounds of any number of polls, one after the other. -/
def run (c : Connection) (as : List Answer) : Option Connection := as.foldlM step c

def fromStream (peerAddr : SocketAddr) : Connection := { stream := { peerAddr } }

end Connection


/-! ### What was sent -/

/-- A message behind its length, of which only two bytes are there. -/
def frame (m : List UInt8) : List UInt8 := toBe 2 m.length ++ m

/-- What is still to be written of the message on its way. -/
def WriteTcpState.remaining : WriteTcpState → List UInt8
  | .lenBytes pos length buffer => length.drop pos ++ buffer
  | .bytes pos buffer => buffer.drop pos
  | .flushing => []

def TcpStream.unsent (s : TcpStream) : List UInt8 := s.sendState.elim [] WriteTcpState.remaining

theorem WriteTcpState.remaining_wrote {state : WriteTcpState} {n : ℕ} (h : n ≤ state.offered.length) :
    state.offered.take n ++ (state.wrote n).remaining = state.remaining := by
  cases state with
  | lenBytes pos length buffer =>
    rw [wrote]
    split_ifs with hlt
    · show (length.drop pos).take n ++ (length.drop (pos + n) ++ buffer) = length.drop pos ++ buffer
      rw [← List.drop_drop, ← List.append_assoc, List.take_append_drop]
    · have hlen : (length.drop pos).length ≤ n := by
        rw [List.length_drop]
        omega
      show (length.drop pos).take n ++ buffer = length.drop pos ++ buffer
      rw [List.take_of_length_le hlen]
  | bytes pos buffer =>
    rw [wrote]
    split_ifs with hlt
    · show (buffer.drop pos).take n ++ buffer.drop (pos + n) = buffer.drop pos
      rw [← List.drop_drop, List.take_append_drop]
    · have hlen : (buffer.drop pos).length ≤ n := by
        rw [List.length_drop]
        omega
      show (buffer.drop pos).take n ++ [] = buffer.drop pos
      rw [List.append_nil, List.take_of_length_le hlen]
  | flushing =>
    have hn : n = 0 := Nat.le_zero.mp h
    subst hn
    rfl

/-- What the first loop does to what is still to be written, and to what it reads. -/
theorem TcpStream.unsent_of_sendRound {s s' : TcpStream} {a : Answer} {turn : Turn}
    (h : s.sendRound a = some (s', turn)) :
    s.unsent ++ framed frame (s.accepted a) = s.written a ++ s'.unsent ∧ s'.readState = s.readState ∧
      s'.peerAddr = s.peerAddr ∧ (turn.isReceiving = true → s'.sendState = none) := by
  unfold sendRound at h
  cases hstate : s.sendState with
  | some state =>
    rw [hstate] at h
    have hunsent : s.unsent = state.remaining := by
      unfold unsent
      rw [hstate]
      rfl
    cases a with
    | wrote n =>
      have hround : (if n ≤ state.offered.length then
          some ({ s with sendState := some (state.wrote n) }, Turn.sending) else none) = some (s', turn) := by
        cases state with
        | flushing => cases h
        | _ => exact h
      split_ifs at hround with hn
      cases hround
      refine ⟨?_, rfl, rfl, fun h => Bool.noConfusion h⟩
      show s.unsent ++ framed frame [] =
        (s.sendState.elim [] WriteTcpState.offered).take n ++ (state.wrote n).remaining
      rw [hunsent, hstate, framed_nil, List.append_nil]
      exact (WriteTcpState.remaining_wrote hn).symm
    | flushed =>
      cases state with
      | flushing =>
        cases h
        refine ⟨?_, rfl, rfl, fun _ => rfl⟩
        rw [hunsent]
        rfl
      | _ => cases h
    | pending =>
      cases state <;> cases h <;> exact ⟨List.append_nil _, rfl, rfl, fun h => Bool.noConfusion h⟩
    | failed e =>
      cases state <;> cases h <;> exact ⟨List.append_nil _, rfl, rfl, fun h => Bool.noConfusion h⟩
    | _ => cases state <;> cases h
  | none =>
    rw [hstate] at h
    have hunsent : s.unsent = [] := by
      unfold unsent
      rw [hstate]
      rfl
    cases a with
    | outbound buffer dst =>
      have hround : (if s.peerAddr ≠ dst then
          some (s, Turn.ready (some (.error (.mismatchedPeer s.peerAddr dst))))
        else some ({ s with sendState := some (.lenBytes 0 (toBe 2 buffer.length) buffer) }, Turn.sending)) =
          some (s', turn) := h
      by_cases hpeer : s.peerAddr = dst
      · rw [if_neg (not_not.mpr hpeer)] at hround
        cases hround
        refine ⟨?_, rfl, rfl, fun h => Bool.noConfusion h⟩
        rw [hunsent, accepted, if_pos hpeer, framed_singleton]
        rfl
      · rw [if_pos hpeer] at hround
        cases hround
        refine ⟨?_, rfl, rfl, fun h => Bool.noConfusion h⟩
        rw [hunsent, accepted, if_neg hpeer]
        rfl
    | noOutbound =>
      cases h
      exact ⟨List.append_nil _, rfl, rfl, fun _ => hstate⟩
    | pending =>
      cases h
      exact ⟨List.append_nil _, rfl, rfl, fun _ => hstate⟩
    | _ => cases h

/-! ### What was read -/

/-- A message that two bytes can say the length of. -/
structure Payload where
  bytes : List UInt8
  short : bytes.length < 65536

def Payload.frame (m : Payload) : List UInt8 := Wire.frame m.bytes

theorem length_frame (m : List UInt8) : (frame m).length = 2 + m.length := by
  rw [frame, List.length_append, toBe_length]

theorem Payload.eq_of_append (m m' : Payload) (s s' : List UInt8) (h : m.frame ++ s = m'.frame ++ s') : m = m' := by
  obtain ⟨bytes, hshort⟩ := m
  obtain ⟨bytes', hshort'⟩ := m'
  have h : toBe 2 bytes.length ++ (bytes ++ s) = toBe 2 bytes'.length ++ (bytes' ++ s') := by
    rw [← List.append_assoc, ← List.append_assoc]
    exact h
  obtain ⟨hlen, hrest⟩ := List.append_inj h (by rw [toBe_length, toBe_length])
  have hsame : bytes.length = bytes'.length := by
    have := congrArg ofBe hlen
    rw [ofBe_toBe, ofBe_toBe] at this
    exact (Nat.mod_eq_of_lt hshort).symm.trans (this.trans (Nat.mod_eq_of_lt hshort'))
  obtain ⟨rfl, -⟩ := List.append_inj hrest hsame
  rfl

theorem Payload.prefixFree : PrefixFree Payload.frame where
  nonempty m h := by
    have hlen : 0 = 2 + m.bytes.length := (congrArg List.length h).symm.trans (length_frame m.bytes)
    omega
  eq_of_append := Payload.eq_of_append

theorem Payload.unfinished_nil : Partial Payload.frame [] := fun m _ heq =>
  Payload.prefixFree.nonempty m (List.append_eq_nil_iff.mp heq.symm).1

theorem Payload.unfinished_zero : Partial Payload.frame [0] := fun m s heq => by
  have hlen := congrArg List.length heq
  rw [List.length_append, Payload.frame, length_frame] at hlen
  simp at hlen
  omega

/-- The size of the buffer that is read into. -/
def ReadTcpState.held : ReadTcpState → ℕ
  | .lenBytes _ buffer => buffer.length
  | .bytes _ buffer _ => buffer.length

/-- The bytes of an unfinished frame, in a buffer that is no larger than it has to be. -/
def ReadTcpState.Holds : ReadTcpState → List UInt8 → Prop
  | .lenBytes pos buffer, p => buffer.length = 2 ∧ pos < 2 ∧ p = buffer.take pos
  | .bytes pos buffer planned, p =>
    pos ≤ buffer.length ∧ buffer.length ≤ planned ∧ buffer.length ≤ pos + READ_CHUNK ∧ pos < planned ∧
      planned < 65536 ∧ p = toBe 2 planned ++ buffer.take pos

/-- The messages that are returned: those that are not empty. -/
def delivered (ms : List Payload) : List (List UInt8) := (ms.map Payload.bytes).filter (!·.isEmpty)

@[simp] theorem delivered_nil : delivered [] = [] := rfl

@[simp] theorem delivered_append (ms ms' : List Payload) : delivered (ms ++ ms') = delivered ms ++ delivered ms' := by
  simp [delivered]

theorem take_overwrite {b d : List UInt8} {off : ℕ} (h : off ≤ b.length) :
    (overwrite b off d).take (off + d.length) = b.take off ++ d := by
  have hlen : (b.take off ++ d).length = off + d.length := by
    rw [List.length_append, List.length_take, Nat.min_eq_left h]
  rw [overwrite, ← hlen]
  exact List.take_left

theorem length_overwrite_of_le {b d : List UInt8} {off : ℕ} (h : off + d.length ≤ b.length) :
    (overwrite b off d).length = b.length := by
  rw [length_overwrite (by omega)]
  omega

/-- The last byte of a buffer is filled. -/
theorem overwrite_of_full {b d : List UInt8} {off : ℕ} (h : off + d.length = b.length) :
    overwrite b off d = b.take off ++ d := by
  rw [overwrite, h, List.drop_length, List.append_nil]

namespace TcpStream

theorem grown_facts {pos planned : ℕ} {buffer : List UInt8} (hpos : pos ≤ buffer.length)
    (hle : buffer.length ≤ planned) (hchunk : buffer.length ≤ pos + READ_CHUNK) (hlt : pos < planned) :
    pos < (grown pos buffer planned).length ∧ (grown pos buffer planned).length ≤ planned ∧
      (grown pos buffer planned).length ≤ pos + READ_CHUNK ∧
      (grown pos buffer planned).take pos = buffer.take pos := by
  have hroom : 0 < READ_CHUNK := by decide
  unfold grown
  split_ifs with hfull
  · refine ⟨?_, ?_, ?_, List.take_append_of_le_length hpos⟩
    all_goals
      rw [List.length_append, List.length_replicate]
      omega
  · exact ⟨by omega, hle, hchunk, rfl⟩

/-- An answer to the poll for the two bytes of a length. -/
theorem readLen_reads {s s' : TcpStream} {turn : Turn} {pos : ℕ} {buffer data : List UInt8} (hlen : buffer.length = 2)
    (hpos : pos < 2) (hstate : s.readState = .lenBytes pos buffer) (hfit : data.length ≤ 2 - pos)
    (h : s.readLen pos buffer data = (s', turn)) :
    ∃ (ms : List Payload) (p' : List UInt8), buffer.take pos ++ data = framed Payload.frame ms ++ p' ∧
      s'.readState.Holds p' ∧ turn.messages = delivered ms := by
  have hinto := @length_overwrite_of_le buffer data pos (by omega)
  unfold readLen at h
  by_cases hend : data = []
  · rw [if_pos hend] at h
    cases h
    refine ⟨[], buffer.take pos, by rw [hend, List.append_nil]; rfl, ?_, ?_⟩
    · rw [hstate]
      exact ⟨hlen, hpos, rfl⟩
    · split_ifs <;> rfl
  rw [if_neg hend] at h
  split_ifs at h with hmore hzero
  · cases h
    refine ⟨[], buffer.take pos ++ data, rfl, ⟨hinto.trans hlen, by omega, ?_⟩, rfl⟩
    exact (take_overwrite (by omega)).symm
  -- both bytes are there
  all_goals
    have hwhole : buffer.take pos ++ data = toBe 2 (ofBe (overwrite buffer pos data)) := by
      rw [toBe_ofBe (hinto.trans hlen), overwrite_of_full (by omega)]
    cases h
    rw [hwhole]
  · refine ⟨[⟨[], by decide⟩], [], ?_, ⟨hinto.trans hlen, by decide, rfl⟩, rfl⟩
    rw [hzero]
    rfl
  · have hlt := ofBe_lt (overwrite buffer pos data)
    rw [hinto, hlen] at hlt
    refine ⟨[], toBe 2 (ofBe (overwrite buffer pos data)), rfl, ?_, rfl⟩
    have hchunk : min READ_CHUNK (ofBe (overwrite buffer pos data)) ≤ READ_CHUNK := Nat.min_le_left _ _
    refine ⟨Nat.zero_le _, ?_, ?_, Nat.pos_of_ne_zero hzero, hlt, ?_⟩
    · rw [List.length_replicate]
      exact Nat.min_le_right _ _
    · rw [List.length_replicate]
      omega
    · rw [List.take_zero, List.append_nil]

/-- An answer to the poll for the bytes of a message. -/
theorem readBytes_reads {s s' : TcpStream} {turn : Turn} {pos planned : ℕ} {buffer data : List UInt8}
    (hle : buffer.length ≤ planned) (hchunk : buffer.length ≤ pos + READ_CHUNK) (hlt : pos < planned)
    (hshort : planned < 65536) (hfit : data.length ≤ buffer.length - pos) (hpos : pos ≤ buffer.length)
    (h : s.readBytes pos buffer planned data = (s', turn)) :
    ∃ (ms : List Payload) (p' : List UInt8),
      toBe 2 planned ++ buffer.take pos ++ data = framed Payload.frame ms ++ p' ∧ s'.readState.Holds p' ∧
        turn.messages = delivered ms := by
  have hinto := @length_overwrite_of_le buffer data pos (by omega)
  unfold readBytes at h
  split_ifs at h with hend hmore
  · cases h
    exact ⟨[], toBe 2 planned ++ buffer.take pos, by rw [hend, List.append_nil]; rfl,
      ⟨hpos, hle, hchunk, hlt, hshort, rfl⟩, rfl⟩
  · cases h
    refine ⟨[], toBe 2 planned ++ buffer.take pos ++ data, rfl, ?_, rfl⟩
    have htake := take_overwrite (d := data) hpos
    refine ⟨by omega, by omega, by omega, hmore, hshort, ?_⟩
    rw [htake, List.append_assoc]
  · cases h
    have hfull : pos + data.length = buffer.length := by omega
    have hlen : (overwrite buffer pos data).length = planned := by omega
    refine ⟨[⟨overwrite buffer pos data, by omega⟩], [], ?_, ⟨rfl, by decide, rfl⟩, ?_⟩
    · rw [framed_singleton, List.append_nil]
      show _ = toBe 2 (overwrite buffer pos data).length ++ overwrite buffer pos data
      rw [hlen, overwrite_of_full hfull, List.append_assoc]
    · have hne : (overwrite buffer pos data).isEmpty = false := by
        rw [← Bool.not_eq_true, List.isEmpty_iff_length_eq_zero]
        omega
      show [overwrite buffer pos data] = [overwrite buffer pos data].filter (!·.isEmpty)
      rw [List.filter_cons_of_pos (by rw [hne]; rfl), List.filter_nil]

/-- What the second loop does to the bytes of an unfinished frame. -/
theorem recvRound_reads {s s' : TcpStream} {a : Answer} {turn : Turn} {p : List UInt8}
    (hp : s.readState.Holds p) (h : s.recvRound a = some (s', turn)) :
    ∃ (ms : List Payload) (p' : List UInt8), p ++ a.data = framed Payload.frame ms ++ p' ∧ s'.readState.Holds p' ∧
      turn.messages = delivered ms := by
  unfold recvRound at h
  cases hstate : s.readState with
  | lenBytes pos buffer =>
    rw [hstate] at h hp
    obtain ⟨hlen, hpos, rfl⟩ := hp
    cases a with
    | read data =>
      have hround : (if data.length ≤ s.space then some (s.readLen pos buffer data) else none) = some (s', turn) := h
      have hspace : s.space = 2 - pos := by
        unfold space
        rw [hstate, ← hlen]
      split_ifs at hround with hfit
      exact readLen_reads hlen hpos hstate (hspace ▸ hfit) (Option.some.inj hround)
    | pending =>
      cases h
      exact ⟨[], _, List.append_nil _, hstate ▸ ⟨hlen, hpos, rfl⟩, rfl⟩
    | failed e =>
      cases h
      exact ⟨[], _, List.append_nil _, hstate ▸ ⟨hlen, hpos, rfl⟩, rfl⟩
    | _ => cases h
  | bytes pos buffer planned =>
    rw [hstate] at h hp
    obtain ⟨hpos, hle, hchunk, hlt, hshort, rfl⟩ := hp
    obtain ⟨hroom, hle', hchunk', htake⟩ := grown_facts hpos hle hchunk hlt
    have hgrown : (ReadTcpState.bytes pos (grown pos buffer planned) planned).Holds
        (toBe 2 planned ++ buffer.take pos) := ⟨hroom.le, hle', hchunk', hlt, hshort, by rw [htake]⟩
    cases a with
    | read data =>
      have hround : (if data.length ≤ s.space then some (s.readBytes pos (grown pos buffer planned) planned data)
          else none) = some (s', turn) := h
      have hspace : s.space = (grown pos buffer planned).length - pos := by
        unfold space
        rw [hstate]
      split_ifs at hround with hfit
      have hreads := readBytes_reads hle' hchunk' hlt hshort (hspace ▸ hfit) hroom.le (Option.some.inj hround)
      rwa [htake] at hreads
    | pending =>
      cases h
      exact ⟨[], _, List.append_nil _, hgrown, rfl⟩
    | failed e =>
      cases h
      exact ⟨[], _, List.append_nil _, hgrown, rfl⟩
    | _ => cases h

theorem sendState_readLen (s : TcpStream) (pos : ℕ) (buffer data : List UInt8) :
    (s.readLen pos buffer data).1.sendState = s.sendState := by
  unfold readLen
  split_ifs <;> rfl

theorem sendState_readBytes (s : TcpStream) (pos : ℕ) (buffer : List UInt8) (planned : ℕ) (data : List UInt8) :
    (s.readBytes pos buffer planned data).1.sendState = s.sendState := by
  unfold readBytes
  split_ifs <;> rfl

theorem sendState_of_recvRound {s s' : TcpStream} {a : Answer} {turn : Turn} (h : s.recvRound a = some (s', turn)) :
    s'.sendState = s.sendState := by
  unfold recvRound at h
  split at h
  · split_ifs at h
    exact (congrArg (·.1.sendState) (Option.some.inj h)).symm.trans (sendState_readLen s _ _ _)
  · cases h
    rfl
  · cases h
    rfl
  · split_ifs at h
    exact (congrArg (·.1.sendState) (Option.some.inj h)).symm.trans (sendState_readBytes s _ _ _ _)
  · cases h
    rfl
  · cases h
    rfl
  · cases h

end TcpStream

/-- An unfinished frame is not a whole one. -/
theorem ReadTcpState.Holds.unfinished :
    ∀ {state : ReadTcpState} {p : List UInt8}, state.Holds p → Partial Payload.frame p
  | .lenBytes pos buffer, p, ⟨hlen, hpos, hp⟩, m, rest, heq => by
    have hlength : p.length = pos := by
      rw [hp, List.length_take, hlen]
      omega
    have := length_frame m.bytes
    rw [heq, List.length_append, Payload.frame] at hlength
    omega
  | .bytes pos buffer planned, p, ⟨hpos, _, _, hlt, hshort, hp⟩, m, rest, heq => by
    have heq : toBe 2 planned ++ buffer.take pos = toBe 2 m.bytes.length ++ (m.bytes ++ rest) := by
      rw [← hp, heq, ← List.append_assoc]
      rfl
    obtain ⟨hlen, hrest⟩ := List.append_inj heq (by rw [toBe_length, toBe_length])
    have hplanned : planned % 65536 = m.bytes.length % 65536 := by
      have := congrArg ofBe hlen
      rwa [ofBe_toBe, ofBe_toBe] at this
    have hlength := congrArg List.length hrest
    rw [List.length_append, List.length_take] at hlength
    have := m.short
    omega

/-! ### Runs of a connection -/

namespace Connection

/-- What a connection has sent and read, and what is in the middle of its way. -/
structure Settled (c : Connection) : Prop where
  wire : c.sent ++ c.stream.unsent = framed frame c.outbound
  idle : c.receiving = true → c.stream.sendState = none
  reads : ∃ (ms : List Payload) (p : List UInt8), c.taken = framed Payload.frame ms ++ p ∧
    c.stream.readState.Holds p ∧ c.returned = delivered ms

theorem settled_fromStream (peerAddr : SocketAddr) : (fromStream peerAddr).Settled where
  wire := rfl
  idle h := Bool.noConfusion h
  reads := ⟨[], [], rfl, ⟨rfl, by decide, rfl⟩, rfl⟩

/-- Each round, of either loop and with any answer, keeps it. -/
theorem Settled.step {c c' : Connection} {a : Answer} (h : c.Settled) (hstep : c.step a = some c') : c'.Settled := by
  obtain ⟨ms, p, htaken, hp, hreturned⟩ := h.reads
  unfold Connection.step at hstep
  split_ifs at hstep with hreceiving
  · obtain ⟨⟨stream, turn⟩, hround, rfl⟩ := Option.map_eq_some_iff.mp hstep
    have hidle := (TcpStream.sendState_of_recvRound hround).trans (h.idle hreceiving)
    obtain ⟨ms', p', hdata, hp', hmessages⟩ := TcpStream.recvRound_reads hp hround
    refine ⟨?_, fun _ => hidle, ms ++ ms', p', ?_, hp', ?_⟩
    · have hunsent : stream.unsent = c.stream.unsent := by
        unfold TcpStream.unsent
        rw [hidle, h.idle hreceiving]
      show c.sent ++ stream.unsent = framed frame c.outbound
      rw [hunsent]
      exact h.wire
    · show c.taken ++ a.data = framed Payload.frame (ms ++ ms') ++ p'
      rw [htaken, framed_append, List.append_assoc, List.append_assoc, hdata]
    · show c.returned ++ turn.messages = delivered (ms ++ ms')
      rw [hreturned, hmessages, delivered_append]
  · obtain ⟨⟨stream, turn⟩, hround, rfl⟩ := Option.map_eq_some_iff.mp hstep
    obtain ⟨hunsent, hreadState, -, hidle⟩ := TcpStream.unsent_of_sendRound hround
    refine ⟨?_, hidle, ms, p, htaken, hreadState ▸ hp, hreturned⟩
    show c.sent ++ c.stream.written a ++ stream.unsent = framed frame (c.outbound ++ c.stream.accepted a)
    rw [framed_append, ← h.wire, List.append_assoc, List.append_assoc, hunsent]

theorem Settled.run {peerAddr : SocketAddr} {as : List Answer} {c : Connection}
    (h : (fromStream peerAddr).run as = some c) : c.Settled :=
  foldlM_invariant (fun _ _ _ h hstep => h.step hstep) as _ (settled_fromStream peerAddr) h

/-! ### The messages of a whole run -/

def loopback : SocketAddr := ⟨.v4 0x7F000001#32, 53⟩

/-- Two messages go out in pieces, the second not to its end. -/
def outgoing : List Answer :=
  [.outbound [7, 8, 9] loopback, .wrote 1, .pending, .wrote 1, .wrote 2, .wrote 1, .pending, .flushed,
    .outbound [5] loopback, .wrote 1, .pending]

/-- The same bytes come in other pieces. -/
def incoming : List Answer :=
  [.pending, .read [0], .read [3], .read [7], .pending, .noOutbound, .read [8, 9], .pending, .read [0]]

/-- **What goes out is the messages in order, each behind its length**, whatever pieces the socket takes them in;
nothing is read before all of it has gone. -/
theorem sent_of_run {peerAddr : SocketAddr} {as : List Answer} {c : Connection}
    (h : (fromStream peerAddr).run as = some c) :
    c.sent <+: framed frame c.outbound ∧ (c.stream.sendState = none → c.sent = framed frame c.outbound) ∧
      (c.receiving = true → c.sent = framed frame c.outbound) := by
  have hs := Settled.run h
  have hall : c.stream.sendState = none → c.sent = framed frame c.outbound := fun hnone => by
    have := hs.wire
    rwa [TcpStream.unsent, hnone, Option.elim_none, List.append_nil] at this
  exact ⟨⟨_, hs.wire⟩, hall, fun hreceiving => hall (hs.idle hreceiving)⟩


theorem framed_map (ms : List Payload) : framed frame (ms.map Payload.bytes) = framed Payload.frame ms :=
  List.flatMap_map ..

theorem sent_of_run_outgoing : ∃ c, (fromStream loopback).run outgoing = some c ∧ c.sent = [0, 3, 7, 8, 9, 0] ∧
    c.sent <+: framed frame c.outbound :=
  ⟨_, rfl, rfl, (@sent_of_run loopback outgoing _ rfl).1⟩

/-- **What comes back is the messages whose frames have come**, in whatever pieces the socket gave them, but for
the empty ones. -/
theorem returned_of_run {peerAddr : SocketAddr} {as : List Answer} {c : Connection}
    (h : (fromStream peerAddr).run as = some c) {ms : List Payload} {p : List UInt8} (hp : Partial Payload.frame p)
    (htaken : c.taken = framed Payload.frame ms ++ p) : c.returned = delivered ms := by
  obtain ⟨ms', p', htaken', hp', hreturned⟩ := (Settled.run h).reads
  obtain ⟨rfl, -⟩ := Payload.prefixFree.framed_inj hp hp'.unfinished (htaken.symm.trans htaken')
  exact hreturned

set_option maxRecDepth 8000 in
theorem returned_of_run_incoming : ∃ c, (fromStream loopback).run incoming = some c ∧
    c.returned = delivered [⟨[7, 8, 9], by decide⟩] :=
  ⟨_, rfl, @returned_of_run loopback incoming _ rfl [⟨[7, 8, 9], by decide⟩] [0] Payload.unfinished_zero rfl⟩

/-- **The end of the stream is a clean one exactly where no frame is left unfinished.** -/
theorem closed_iff {peerAddr : SocketAddr} {as : List Answer} {c : Connection}
    (h : (fromStream peerAddr).run as = some c) :
    (∃ s, c.stream.recvRound (.read []) = some (s, .ready none)) ↔
      ∃ ms : List Payload, c.taken = framed Payload.frame ms := by
  obtain ⟨ms, p, htaken, hp, -⟩ := (Settled.run h).reads
  have hclean : (∃ s, c.stream.recvRound (.read []) = some (s, .ready none)) ↔ p = [] := by
    cases hstate : c.stream.readState with
    | lenBytes pos buffer =>
      rw [hstate] at hp
      obtain ⟨hlen, hpos, rfl⟩ := hp
      have hround : c.stream.recvRound (.read []) = some (c.stream.readLen pos buffer []) := by
        unfold TcpStream.recvRound
        rw [hstate]
        exact if_pos (Nat.zero_le _)
      rw [hround, TcpStream.readLen, if_pos rfl, List.take_eq_nil_iff]
      by_cases hzero : pos = 0
      · simp [hzero]
      · have hne : buffer ≠ [] := fun hnil => by
          rw [hnil] at hlen
          cases hlen
        simp [hzero, hne]
    | bytes pos buffer planned =>
      rw [hstate] at hp
      obtain ⟨-, -, -, -, -, rfl⟩ := hp
      have hround : c.stream.recvRound (.read []) =
          some (c.stream.readBytes pos (TcpStream.grown pos buffer planned) planned []) := by
        unfold TcpStream.recvRound
        rw [hstate]
        exact if_pos (Nat.zero_le _)
      rw [hround, TcpStream.readBytes, if_pos rfl]
      have hne : toBe 2 planned ++ buffer.take pos ≠ [] := fun hnil => by
        have hlen := congrArg List.length hnil
        rw [List.length_append, toBe_length] at hlen
        simp at hlen
      simp [hne]
  rw [hclean]
  constructor
  · rintro rfl
    exact ⟨ms, htaken.trans (List.append_nil _)⟩
  · rintro ⟨ms', hall⟩
    have hwhole : framed Payload.frame ms ++ p = framed Payload.frame ms' ++ [] := by
      rw [← htaken, hall, List.append_nil]
    exact (Payload.prefixFree.framed_inj hp.unfinished Payload.unfinished_nil hwhole).2

set_option maxRecDepth 8000 in
theorem closed_iff_incoming : ∃ c, (fromStream loopback).run incoming = some c ∧
    ((∃ s, c.stream.recvRound (.read []) = some (s, .ready none)) ↔
      ∃ ms : List Payload, c.taken = framed Payload.frame ms) :=
  ⟨_, rfl, @closed_iff loopback incoming _ rfl⟩

/-- **The buffer has at most a chunk more room than has come of the unfinished message**, whatever length was
announced. -/
theorem held_of_run {peerAddr : SocketAddr} {as : List Answer} {c : Connection}
    (h : (fromStream peerAddr).run as = some c) {ms : List Payload} {p : List UInt8} (hp : Partial Payload.frame p)
    (htaken : c.taken = framed Payload.frame ms ++ p) : c.stream.readState.held ≤ p.length + READ_CHUNK := by
  obtain ⟨ms', p', htaken', hp', -⟩ := (Settled.run h).reads
  obtain ⟨-, rfl⟩ := Payload.prefixFree.framed_inj hp hp'.unfinished (htaken.symm.trans htaken')
  have hchunk : READ_CHUNK = 4096 := rfl
  cases hstate : c.stream.readState with
  | lenBytes pos buffer =>
    rw [hstate] at hp'
    have hlen : buffer.length = 2 := hp'.1
    show buffer.length ≤ _
    omega
  | bytes pos buffer planned =>
    rw [hstate] at hp'
    obtain ⟨hpos, -, hroom, -, -, rfl⟩ := hp'
    show buffer.length ≤ _
    rw [List.length_append, List.length_take]
    omega

set_option maxRecDepth 8000 in
theorem held_of_run_incoming : ∃ c, (fromStream loopback).run incoming = some c ∧
    c.stream.readState.held ≤ 1 + READ_CHUNK :=
  ⟨_, rfl, @held_of_run loopback incoming _ rfl [⟨[7, 8, 9], by decide⟩] [0] Payload.unfinished_zero rfl⟩

/-- **What one side sends arrives at the other in order**: if the bytes that a receiver has taken are the first
of those that a sender has sent, the messages it returned are the first of those the sender took to send. -/
theorem arrives_in_order {peerAddr peerAddr' : SocketAddr} {as as' : List Answer} {sender receiver : Connection}
    (hsender : (fromStream peerAddr).run as = some sender)
    (hreceiver : (fromStream peerAddr').run as' = some receiver)
    (hshort : ∀ m ∈ sender.outbound, m.length < 65536) (hnet : receiver.taken <+: sender.sent) :
    receiver.returned <+: sender.outbound.filter (!·.isEmpty) ∧
      (receiver.taken = framed frame sender.outbound → receiver.returned = sender.outbound.filter (!·.isEmpty)) := by
  obtain ⟨ms, p, htaken, hp, hreturned⟩ := (Settled.run hreceiver).reads
  obtain ⟨outbound, houtbound⟩ : ∃ ps : List Payload, ps.map Payload.bytes = sender.outbound :=
    ⟨sender.outbound.pmap Payload.mk hshort, by rw [List.map_pmap, List.pmap_eq_map, List.map_id']⟩
  have hframed : framed frame sender.outbound = framed Payload.frame outbound := by rw [← houtbound, framed_map]
  have hle : framed Payload.frame ms ++ p <+: framed Payload.frame outbound := by
    rw [← htaken, ← hframed]
    exact hnet.trans ⟨_, (Settled.run hsender).wire⟩
  rw [hreturned, ← houtbound]
  refine ⟨?_, fun hall => ?_⟩
  · exact List.IsPrefix.filter _ ((Payload.prefixFree.isPrefix_of_framed hle).map Payload.bytes)
  · have hwhole : framed Payload.frame ms ++ p = framed Payload.frame outbound ++ [] := by
      rw [← htaken, hall, framed_map, List.append_nil]
    rw [(Payload.prefixFree.framed_inj hp.unfinished Payload.unfinished_nil hwhole).1]
    rfl

set_option maxRecDepth 8000 in
theorem arrives_in_order_pieces : ∃ sender receiver, (fromStream loopback).run outgoing = some sender ∧
    (fromStream loopback).run incoming = some receiver ∧ receiver.taken = sender.sent ∧
      receiver.returned <+: sender.outbound.filter (!·.isEmpty) :=
  ⟨_, _, rfl, rfl, rfl,
    (@arrives_in_order loopback loopback outgoing incoming _ _ rfl rfl (by decide) (List.prefix_refl _)).1⟩

end Connection

end Wire
end SmartDns
