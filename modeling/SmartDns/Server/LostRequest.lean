/-
# Lost requests

`DnsHandle::send` of `server/mod.rs` and the request loop of `app.rs`. A request goes
into a queue of 20000 with a sender for its one answer; the loop takes up to 256 at a
time and starts a task for each that gets a permit. A request that does not get into
the queue, that gets no permit, that the processing drops or whose holder goes away is
lost: then `send` makes the answer itself, an empty one over UDP and else a REFUSED.

Each call gets exactly one message (`State.Accounted`). Where the request is lost after
it was queued, its header was put aside (`responseMaterial`) and the REFUSED has its id;
where the queue takes nothing, the answer is made from the parsed message, and a request
that cannot be parsed gets a REFUSED of some other id. A message that is itself a
response is dropped by the processing, which `send` takes for a loss (`send_iff`).

Key definitions: `Delivery`, `send`, `process`, `State`, `step`, `HandledWell`, `Pairs`.
Key theorems: `accounted_step`, `process_response`, `lostRequest_handledWell_iff`.
-/
import Mathlib.Data.List.Perm.Basic
import SmartDns.Dns.Serial
import SmartDns.Lib.Runs
import SmartDns.Server.Reply

namespace SmartDns
namespace Server
namespace DnsHandle

open Dns Lib

/-- What an answer to a message takes from it. -/
structure Material where
  header : Header
  queries : List Query
  addr : SocketAddr
  protocol : Protocol

section

variable (readBody : BodyReader)

def responseMaterial : SerialMessage → Option Material
  | .raw message addr protocol _ => some ⟨message.header, message.queries, addr, protocol⟩
  | .bytes data addr protocol _ =>
    match OpMessage.fromVec readBody data with
    | some parsed => some ⟨parsed.header, parsed.queries, addr, protocol⟩
    | none =>
      if data.length ≥ 12 then
        match Header.read data with
        | .ok (header, _) => some ⟨header, [], addr, protocol⟩
        | .error _ => none
      else none

/-- An answer of the code from what was put aside; `drawn` is the id of a new message. -/
def Material.answer (m : Material) (drawn : UInt16) (code : ResponseCode) : OpMessage :=
  ((OpMessage.query drawn).toResponse.setHeader { m.header.responseFromRequest with responseCode := code }).addQueries
    m.queries

theorem Material.answer_eq (m : Material) (drawn : UInt16) (code : ResponseCode) :
    m.answer drawn code =
      { header := { m.header.responseFromRequest with responseCode := code }, queries := m.queries } := by
  rw [answer, OpMessage.addQueries_eq]
  rfl

def servfailStub (drawn : UInt16) (message : SerialMessage) : Option SerialMessage :=
  (responseMaterial readBody message).map fun m => .raw (m.answer drawn .servFail) m.addr m.protocol

/-- What becomes of a message that is handed to the queue. -/
inductive Delivery
  /-- The queue has no room. -/
  | full
  /-- Nobody takes from the queue any more. -/
  | closed
  | answered (reply : SerialMessage)
  /-- The sender of the answer went away unused. -/
  | dropped

def Delivery.isLost : Delivery → Bool
  | answered _ => false
  | _ => true

/-- The answer to a message that did not get into the queue: `to_response` of what it parses to. -/
def shed (drawn : UInt16) (message : SerialMessage) : OpMessage :=
  (((message.parse readBody).map OpMessage.toResponse).getD (OpMessage.query drawn).toResponse).setResponseCode .refused

/-- The answer to a message that was dropped later. -/
def refuse (drawn : UInt16) (material : Option Material) : OpMessage :=
  match material with
  | some m => m.answer drawn .refused
  | none => (OpMessage.query drawn).toResponse.setResponseCode .refused

/-- `DnsHandle::send`, by what becomes of the message. -/
def send (drawn : UInt16) (message : SerialMessage) (delivery : Delivery) : SerialMessage :=
  let addr := message.addr
  let protocol := message.protocol
  let refusalMaterial := if protocol = .udp then none else responseMaterial readBody message
  match delivery with
  | .full | .closed =>
    if protocol = .udp then .binary [] addr protocol else .raw (shed readBody drawn message) addr protocol
  | .answered reply => reply
  | .dropped =>
    if protocol = .udp then .binary [] addr protocol else .raw (refuse drawn refusalMaterial) addr protocol

/-! ### The processing -/

def toMessage (r : Reply) : OpMessage where
  header := r.header
  queries := r.queries
  answers := r.answers
  authorities := r.authorities
  additionals := r.additionals

/-- What the handling of a request depends on; the chain may panic. -/
structure Surroundings where
  now : ℤ
  serial : ℕ
  handler : Handler
  panics : DnsRequest → Bool

/-- `process_inner`; without a value it panics. -/
def processCaught (env : Surroundings) (message : SerialMessage) : Option (Option SerialMessage) :=
  let reply (parsed : Except (Option Header) DnsRequest) : Option SerialMessage :=
    (processInner env.now env.serial env.handler parsed).map fun r => .raw (toMessage r) message.addr message.protocol
  match DnsRequest.tryFrom readBody message with
  | some req =>
    if req.header.messageType = .query && req.header.opCode = .query && env.panics req then none
    else some (reply (.ok req))
  -- `Message::read` never fails with a form error, the one that has a header
  | none => some (reply (.error none))

/-- A panic becomes SERVFAIL. -/
def process (drawn : UInt16) (env : Surroundings) (message : SerialMessage) : Option SerialMessage :=
  let fallback := servfailStub readBody drawn message
  match processCaught readBody env message with
  | some response => response
  | none => fallback

/-- **No response comes out of the processing for what is itself a response.** -/
theorem process_response {message : SerialMessage} {header : Header} (hh : message.header? = some header)
    (hr : header.messageType = .response) (drawn : UInt16) (env : Surroundings) :
    process readBody drawn env message = none := by
  unfold process processCaught DnsRequest.tryFrom
  cases hp : message.parse readBody with
  | none => rfl
  | some parsed =>
    obtain ⟨header', hh', -, htype, -⟩ := SerialMessage.parse_header hp
    have htype : parsed.header.messageType = .response := by
      rw [htype, ← hr]
      exact congrArg _ (Option.some.inj (hh'.symm.trans hh))
    simp [DnsRequest.ofMessage, processInner, htype]

/-! ### The request loop -/

/-- A message in the queue; `sender` stands for the channel of its answer. -/
structure IncomingDnsMessage where
  message : SerialMessage
  isBackground : Bool
  sender : ℕ

/-- What a call of `send` came to. -/
structure Return where
  incoming : IncomingDnsMessage
  delivery : Delivery
  message : SerialMessage

structure State where
  sent : List IncomingDnsMessage := []
  queue : List IncomingDnsMessage := []
  /-- The batch that the loop is at. -/
  requests : List IncomingDnsMessage := []
  tasks : List IncomingDnsMessage := []
  closed : Bool := false
  returned : List Return := []

inductive Event
  | send (message : SerialMessage) (isBackground : Bool)
  | recvMany
  /-- The loop is at the next request of its batch. -/
  | handle
  /-- A task is done. -/
  | finish (task : ℕ) (env : Surroundings)
  /-- A task goes away before it is done. -/
  | abort (task : ℕ)
  /-- The loop ends, and with it its receiver, its batch and its tasks. -/
  | stop

def capacity : ℕ := 20000

def batchSize : ℕ := 256

/-- The most tasks of a kind at a time. -/
def concurrency (isBackground : Bool) : ℕ := if isBackground then 16 else 10240

namespace State

variable (drawn : ℕ → UInt16)

/-- What waits or is worked on. -/
def held (s : State) : List IncomingDnsMessage := s.queue ++ s.requests ++ s.tasks

/-- `try_acquire_owned`. -/
def hasPermit (s : State) (m : IncomingDnsMessage) : Bool :=
  s.tasks.countP (·.isBackground = m.isBackground) < concurrency m.isBackground

/-- The call of the message returns. -/
def answer (s : State) (m : IncomingDnsMessage) (delivery : Delivery) : State :=
  { s with returned := s.returned ++ [⟨m, delivery, DnsHandle.send readBody (drawn m.sender) m.message delivery⟩] }

def dropAll (s : State) (ms : List IncomingDnsMessage) : State :=
  ms.foldl (fun s m => s.answer readBody drawn m .dropped) s

def endTask (s : State) (task : ℕ) (delivery : IncomingDnsMessage → Delivery) : State :=
  match s.tasks[task]? with
  | some m => { s with tasks := s.tasks.eraseIdx task }.answer readBody drawn m (delivery m)
  | none => s

end State

/-- One step of the callers, the loop and its tasks. -/
def step (drawn : ℕ → UInt16) (s : State) (_ : ℤ) : Event → State
  | .send message isBackground =>
    let m : IncomingDnsMessage := { message, isBackground, sender := s.sent.length }
    let s := { s with sent := s.sent ++ [m] }
    if s.closed then s.answer readBody drawn m .closed
    else if capacity ≤ s.queue.length then s.answer readBody drawn m .full
    else { s with queue := s.queue ++ [m] }
  | .recvMany =>
    if s.requests.isEmpty then { s with requests := s.queue.take batchSize, queue := s.queue.drop batchSize } else s
  | .handle =>
    match s.requests with
    | [] => s
    | m :: rest =>
      let s := { s with requests := rest }
      if s.hasPermit m then { s with tasks := m :: s.tasks } else s.answer readBody drawn m .dropped
  | .finish task env =>
    s.endTask readBody drawn task fun m =>
      match process readBody (drawn m.sender) env m.message with
      | some response => .answered response
      | none => .dropped
  | .abort task => s.endTask readBody drawn task fun _ => .dropped
  | .stop => { s with queue := [], requests := [], tasks := [], closed := true }.dropAll readBody drawn s.held

/-! ### One message for each call -/

namespace State

/-- Every call has its message, waits or is worked on, but for those that the step has in hand. -/
def Owes (s : State) (ms : List IncomingDnsMessage) : Prop :=
  (ms ++ (s.held ++ s.returned.map (·.incoming))).Perm s.sent

/-- **Each call has exactly one message or is still held.** -/
structure Accounted (s : State) : Prop where
  calls : (s.held ++ s.returned.map (·.incoming)).Perm s.sent
  senders : s.sent.map (·.sender) = List.range s.sent.length

variable {readBody} {drawn : ℕ → UInt16} {s s' : State} {m : IncomingDnsMessage} {ms ms' : List IncomingDnsMessage}

theorem Owes.move (h : s.Owes ms) (hsent : s'.sent = s.sent) (hreturned : s'.returned = s.returned)
    (hheld : (ms' ++ s'.held).Perm (ms ++ s.held)) : s'.Owes ms' := by
  unfold Owes at h ⊢
  rw [hsent, hreturned, ← List.append_assoc]
  rw [← List.append_assoc] at h
  exact (hheld.append_right _).trans h

theorem Owes.answer (h : s.Owes (m :: ms)) (delivery : Delivery) :
    (s.answer readBody drawn m delivery).Owes ms := by
  have hmap : (s.answer readBody drawn m delivery).returned.map (·.incoming) =
      s.returned.map (·.incoming) ++ [m] := by
    rw [State.answer, List.map_append]
    rfl
  have last : (ms ++ (s.held ++ (s.returned.map (·.incoming) ++ [m]))).Perm
      (m :: (ms ++ (s.held ++ s.returned.map (·.incoming)))) := by
    rw [← List.append_assoc s.held, ← List.append_assoc ms]
    exact List.perm_append_singleton _ _
  unfold Owes
  rw [hmap]
  exact last.trans h

theorem Owes.dropAll (h : s.Owes ms) : (s.dropAll readBody drawn ms).Owes [] := by
  induction ms generalizing s with
  | nil => exact h
  | cons m ms ih => exact ih (h.answer .dropped)

theorem Owes.endTask (h : s.Owes []) (task : ℕ) (delivery : IncomingDnsMessage → Delivery) :
    (s.endTask readBody drawn task delivery).Owes [] := by
  unfold State.endTask
  cases hm : s.tasks[task]? with
  | none => exact h
  | some m =>
    obtain ⟨hlt, hget⟩ := List.getElem?_eq_some_iff.mp hm
    have htasks : (m :: s.tasks.eraseIdx task).Perm s.tasks := by
      rw [← hget]
      exact List.getElem_cons_eraseIdx_perm hlt
    have hheld : (m :: (s.queue ++ s.requests ++ s.tasks.eraseIdx task)).Perm (s.queue ++ s.requests ++ s.tasks) :=
      List.perm_middle.symm.trans (htasks.append_left _)
    have hin : ({ s with tasks := s.tasks.eraseIdx task } : State).Owes [m] := h.move rfl rfl hheld
    exact hin.answer (delivery m)

@[simp] theorem answer_sent (delivery : Delivery) : (s.answer readBody drawn m delivery).sent = s.sent := rfl

@[simp] theorem dropAll_sent : (s.dropAll readBody drawn ms).sent = s.sent := by
  induction ms generalizing s with
  | nil => rfl
  | cons m ms ih => exact (ih (s := s.answer readBody drawn m .dropped))

@[simp] theorem endTask_sent (task : ℕ) (delivery : IncomingDnsMessage → Delivery) :
    (s.endTask readBody drawn task delivery).sent = s.sent := by
  unfold State.endTask
  split <;> rfl

end State

open State

variable {readBody} {drawn : ℕ → UInt16}

theorem step_owes {s : State} (h : s.Owes []) (t : ℤ) (e : Event) : (step readBody drawn s t e).Owes [] := by
  cases e with
  | send message isBackground =>
    have hm : ({ s with sent := s.sent ++ [⟨message, isBackground, s.sent.length⟩] } : State).Owes
        [⟨message, isBackground, s.sent.length⟩] :=
      (h.cons _).trans (List.perm_append_singleton _ _).symm
    simp only [step]
    by_cases hclosed : s.closed = true
    · rw [if_pos hclosed]
      exact hm.answer .closed
    · rw [if_neg hclosed]
      by_cases hfull : capacity ≤ s.queue.length
      · rw [if_pos hfull]
        exact hm.answer .full
      · rw [if_neg hfull]
        refine hm.move rfl rfl ?_
        simp only [held, List.append_assoc]
        exact List.perm_middle
  | recvMany =>
    simp only [step]
    by_cases hrequests : s.requests.isEmpty = true
    · rw [if_pos hrequests]
      refine h.move rfl rfl ?_
      have hnil := List.isEmpty_iff.mp hrequests
      have hbatch : (s.queue.drop batchSize ++ s.queue.take batchSize).Perm s.queue :=
        List.perm_append_comm.trans (.of_eq (List.take_append_drop _ _))
      simp only [held, hnil, List.append_nil, List.nil_append]
      exact hbatch.append_right _
    · rw [if_neg hrequests]
      exact h
  | handle =>
    simp only [step]
    cases hrequests : s.requests with
    | nil => exact h
    | cons m rest =>
      have hm : ({ s with requests := rest } : State).Owes [m] := by
        refine h.move rfl rfl ?_
        simp only [held, hrequests, List.append_assoc, List.cons_append, List.nil_append]
        exact List.perm_middle.symm
      dsimp only
      by_cases hpermit : ({ s with requests := rest } : State).hasPermit m = true
      · rw [if_pos hpermit]
        refine hm.move rfl rfl ?_
        exact List.perm_middle
      · rw [if_neg hpermit]
        exact hm.answer .dropped
  | finish task env => exact h.endTask task _
  | abort task => exact h.endTask task _
  | stop =>
    refine Owes.dropAll (h.move rfl rfl ?_)
    simp only [held, List.append_nil, List.nil_append]
    exact .refl _

/-- What a step adds to the calls is numbered on. -/
theorem step_sent (s : State) (t : ℤ) (e : Event) :
    (step readBody drawn s t e).sent = s.sent ∨
      ∃ message isBackground, (step readBody drawn s t e).sent = s.sent ++ [⟨message, isBackground, s.sent.length⟩] := by
  cases e with
  | send message isBackground =>
    refine .inr ⟨message, isBackground, ?_⟩
    simp only [step]
    split
    · rfl
    · split <;> rfl
  | recvMany =>
    refine .inl ?_
    simp only [step]
    split <;> rfl
  | handle =>
    refine .inl ?_
    simp only [step]
    split
    · rfl
    · split <;> rfl
  | finish task env => exact .inl (endTask_sent _ _)
  | abort task => exact .inl (endTask_sent _ _)
  | stop => exact .inl dropAll_sent

/-- **A step keeps the account.** -/
theorem accounted_step {s : State} (h : s.Accounted) (t : ℤ) (e : Event) :
    (step readBody drawn s t e).Accounted := by
  refine ⟨step_owes h.calls t e, ?_⟩
  have hstep : (step readBody drawn s t e).sent = s.sent ∨ ∃ message isBackground,
      (step readBody drawn s t e).sent = s.sent ++ [⟨message, isBackground, s.sent.length⟩] := step_sent s t e
  obtain hsent | ⟨message, isBackground, hsent⟩ := hstep
  · rw [hsent]
    exact h.senders
  · rw [hsent, List.map_append, h.senders, List.length_append, List.length_singleton, List.range_succ]
    rfl

/-! ### What the answers are -/

variable (readBody drawn)

theorem not_answered {delivery : Delivery} (h : delivery.isLost = true) {P : SerialMessage → Prop} :
    ∀ reply, delivery = .answered reply → P reply := by
  rintro reply rfl
  cases h

/-- A call got what `send` makes of its delivery, and an answer only from the processing. -/
structure Return.Right (r : Return) : Prop where
  message : r.message = send readBody (drawn r.incoming.sender) r.incoming.message r.delivery
  answered : ∀ reply, r.delivery = .answered reply →
    ∃ env, process readBody (drawn r.incoming.sender) env r.incoming.message = some reply

namespace State

/-- All calls got what is right. -/
def Right (s : State) : Prop := ∀ r ∈ s.returned, r.Right readBody drawn

variable {readBody drawn} {s : State}

theorem Right.answer (h : s.Right readBody drawn) (m : IncomingDnsMessage) {delivery : Delivery}
    (hd : ∀ reply, delivery = .answered reply → ∃ env, process readBody (drawn m.sender) env m.message = some reply) :
    (s.answer readBody drawn m delivery).Right readBody drawn := by
  intro r hr
  rcases List.mem_append.mp hr with hr | hr
  · exact h r hr
  · rw [List.mem_singleton] at hr
    rw [hr]
    exact ⟨rfl, hd⟩

theorem Right.dropAll (h : s.Right readBody drawn) (ms : List IncomingDnsMessage) :
    (s.dropAll readBody drawn ms).Right readBody drawn := by
  induction ms generalizing s with
  | nil => exact h
  | cons m ms ih => exact ih (h.answer m (not_answered rfl))

theorem Right.endTask (h : s.Right readBody drawn) (task : ℕ) {delivery : IncomingDnsMessage → Delivery}
    (hd : ∀ m reply, delivery m = .answered reply →
      ∃ env, process readBody (drawn m.sender) env m.message = some reply) :
    (s.endTask readBody drawn task delivery).Right readBody drawn := by
  unfold State.endTask
  split
  · exact Right.answer h _ (hd _)
  · exact h

end State

variable {readBody drawn}

theorem right_step {s : State} (h : s.Right readBody drawn) (t : ℤ) (e : Event) :
    (step readBody drawn s t e).Right readBody drawn := by
  cases e with
  | send message isBackground =>
    simp only [step]
    split
    · exact Right.answer h _ (not_answered rfl)
    · split
      · exact Right.answer h _ (not_answered rfl)
      · exact h
  | recvMany =>
    simp only [step]
    split <;> exact h
  | handle =>
    simp only [step]
    split
    · exact h
    · split
      · exact h
      · exact Right.answer h _ (not_answered rfl)
  | finish task env =>
    refine h.endTask task fun m reply hreply => ⟨env, ?_⟩
    split at hreply
    · rename_i response hresponse
      cases hreply
      exact hresponse
    · cases hreply
  | abort task => exact h.endTask task fun _ => not_answered rfl
  | stop =>
    have hs : ({ s with queue := [], requests := [], tasks := [], closed := true } : State).Right readBody drawn := h
    exact hs.dropAll s.held

/-! ### Lost requests -/

/-- At least a header, with the mark of a response. -/
def isDnsResponse (buffer : List UInt8) : Bool := buffer.length ≥ 12 && (buffer.getD 2 0 &&& 0x80) != 0

/-- What the UDP server sends of an answer; `encode` is the codec of messages. -/
def udpReply (encode : OpMessage → Option (List UInt8)) : SerialMessage → Option (List UInt8)
  | .raw message _ _ _ => (encode message).filter isDnsResponse
  | .bytes data _ _ _ => some data |>.filter isDnsResponse

/-- The message is a response. -/
def isResponse : SerialMessage → Bool
  | .raw message _ _ _ => message.header.messageType = .response
  | .bytes data _ _ _ => isDnsResponse data

variable (readBody)

/-- The answer is the REFUSED for the message. -/
structure IsRefused (m : SerialMessage) (header : Header) (reply : OpMessage) : Prop where
  messageType : reply.header.messageType = .response
  responseCode : reply.header.responseCode = .refused
  id : reply.header.id = header.id
  queries : ∀ parsed, m.parse readBody = some parsed → reply.queries = parsed.queries

/-- What the caller of a lost message is to get. -/
structure HandledWell (m got : SerialMessage) : Prop where
  udp : m.protocol = .udp → got = .binary [] m.addr m.protocol ∧ ∀ encode, udpReply encode got = none
  refused : m.protocol ≠ .udp → ∀ header, m.header? = some header → header.messageType = .query →
    ∃ reply, got = .raw reply m.addr m.protocol ∧ IsRefused readBody m header reply
  unanswered : ∀ header, m.header? = some header → header.messageType = .response → isResponse got = false

/-- The message came over UDP, has no header, or is no response and, if the queue did not take it,
can be parsed. -/
def Pairs (m : SerialMessage) (delivery : Delivery) : Prop :=
  m.protocol = .udp ∨ ∀ header, m.header? = some header →
    header.messageType = .query ∧ (delivery = .dropped ∨ (m.parse readBody).isSome = true)

variable {readBody} {m : SerialMessage} {delivery : Delivery}

/-- A header comes with the material for an answer. -/
theorem responseMaterial_of_header {header : Header} (h : m.header? = some header) :
    ∃ material, responseMaterial readBody m = some material ∧ material.header.id = header.id ∧
      ∀ parsed, m.parse readBody = some parsed → material.queries = parsed.queries := by
  cases hp : m.parse readBody with
  | some parsed =>
    obtain ⟨header', hh', hid, -⟩ := SerialMessage.parse_header hp
    obtain rfl := Option.some.inj (hh'.symm.trans h)
    refine ⟨⟨parsed.header, parsed.queries, m.addr, m.protocol⟩, ?_, hid, fun _ hp' => by cases hp'; rfl⟩
    cases m with
    | raw message a p g =>
      cases hp
      rfl
    | bytes data a p g =>
      have hp : OpMessage.fromVec readBody data = some parsed := hp
      rw [responseMaterial, hp]
      rfl
  | none =>
    cases m with
    | raw message a p g => cases hp
    | bytes data a p g =>
      have hbody : OpMessage.fromVec readBody data = none := hp
      cases hread : Header.read data with
      | error e =>
        rw [SerialMessage.header?, hread] at h
        cases h
      | ok r =>
        have hlen : 12 ≤ data.length := (Header.read_eq_ok_iff data).mp ⟨r, hread⟩
        rw [SerialMessage.header?, hread] at h
        cases h
        refine ⟨⟨r.1, [], a, p⟩, ?_, rfl, fun parsed hp' => ?_⟩
        · rw [responseMaterial, hbody]
          dsimp only
          rw [if_pos hlen, hread]
        · cases hp'

theorem send_of_udp (hu : m.protocol = .udp) (hd : delivery.isLost = true) (drawn : UInt16) :
    send readBody drawn m delivery = .binary [] m.addr m.protocol := by
  cases delivery with
  | full => exact if_pos hu
  | closed => exact if_pos hu
  | dropped => exact if_pos hu
  | answered reply => cases hd

/-- The answer to a lost message over a stream. -/
def lostAnswer (readBody : BodyReader) (drawn : UInt16) (m : SerialMessage) : Delivery → OpMessage
  | .dropped => refuse drawn (responseMaterial readBody m)
  | _ => shed readBody drawn m

/-- Over a stream a lost message is answered, whatever it is. -/
theorem send_of_stream (hu : m.protocol ≠ .udp) (hd : delivery.isLost = true) (drawn : UInt16) :
    send readBody drawn m delivery =
      .raw (lostAnswer readBody drawn m delivery) m.addr m.protocol := by
  cases delivery with
  | full => exact if_neg hu
  | closed => exact if_neg hu
  | dropped =>
    unfold send lostAnswer
    simp only [if_neg hu]
  | answered reply => cases hd

theorem shed_messageType (drawn : UInt16) : (shed readBody drawn m).header.messageType = .response := by
  unfold shed
  cases m.parse readBody <;> rfl

theorem refuse_messageType (drawn : UInt16) (material : Option Material) :
    (refuse drawn material).header.messageType = .response := by
  cases material with
  | none => rfl
  | some material =>
    rw [refuse, Material.answer_eq]
    rfl

theorem lostAnswer_messageType (drawn : UInt16) :
    (lostAnswer readBody drawn m delivery).header.messageType = .response := by
  unfold lostAnswer
  split
  · exact refuse_messageType drawn _
  · exact shed_messageType drawn

theorem isRefused_shed {parsed : OpMessage} {header : Header} (hp : m.parse readBody = some parsed)
    (hh : m.header? = some header) (drawn : UInt16) : IsRefused readBody m header (shed readBody drawn m) := by
  obtain ⟨header', hh', hid, -⟩ := SerialMessage.parse_header hp
  obtain rfl := Option.some.inj (hh'.symm.trans hh)
  unfold shed
  rw [hp]
  refine ⟨rfl, rfl, hid, fun parsed' hp' => ?_⟩
  cases hp.symm.trans hp'
  rfl

theorem isRefused_refuse {header : Header} (hh : m.header? = some header) (drawn : UInt16) :
    IsRefused readBody m header (refuse drawn (responseMaterial readBody m)) := by
  obtain ⟨material, hm, hid, hqueries⟩ : ∃ material, responseMaterial readBody m = some material ∧
      material.header.id = header.id ∧ ∀ parsed, m.parse readBody = some parsed → material.queries = parsed.queries :=
    responseMaterial_of_header hh
  rw [hm, refuse, Material.answer_eq]
  exact ⟨rfl, rfl, hid, hqueries⟩

theorem handledWell_of_pairs (hd : delivery.isLost = true) (h : Pairs readBody m delivery) (drawn : UInt16) :
    HandledWell readBody m (send readBody drawn m delivery) := by
  by_cases hu : m.protocol = .udp
  · rw [send_of_udp hu hd]
    exact ⟨fun _ => ⟨rfl, fun _ => rfl⟩, fun hne => absurd hu hne, fun _ _ _ => rfl⟩
  · have h := h.resolve_left hu
    rw [send_of_stream hu hd]
    refine ⟨fun hu' => absurd hu' hu, fun _ header hh _ => ⟨_, rfl, ?_⟩, fun header hh hresponse => ?_⟩
    · obtain ⟨-, hdropped | hparses⟩ := h header hh
      · rw [hdropped]
        exact isRefused_refuse hh drawn
      · obtain ⟨parsed, hp⟩ := Option.isSome_iff_exists.mp hparses
        unfold lostAnswer
        split
        · exact isRefused_refuse hh drawn
        · exact isRefused_shed hp hh drawn
    · rw [(h header hh).1] at hresponse
      cases hresponse

/-- Whatever id is drawn, the answer is right only where the condition holds. -/
theorem pairs_of_handledWell (hd : delivery.isLost = true)
    (h : ∀ drawn, HandledWell readBody m (send readBody drawn m delivery)) : Pairs readBody m delivery := by
  by_cases hu : m.protocol = .udp
  · exact .inl hu
  · refine .inr fun header hh => ?_
    have hstream (drawn : UInt16) : send readBody drawn m delivery =
        .raw (lostAnswer readBody drawn m delivery) m.addr m.protocol := send_of_stream hu hd drawn
    have hquery : header.messageType = .query := by
      cases htype : header.messageType with
      | query => rfl
      | response =>
        -- the REFUSED is a response to a response
        have hno := (h 0).unanswered header hh htype
        have hyes : isResponse (send readBody 0 m delivery) = true := by
          rw [hstream]
          exact decide_eq_true (lostAnswer_messageType 0)
        rw [hyes] at hno
        cases hno
    refine ⟨hquery, ?_⟩
    by_contra hneither
    obtain ⟨hdropped, hparse⟩ := not_or.mp hneither
    have hparse : m.parse readBody = none := by simpa using hparse
    -- an id other than the request's is drawn
    obtain ⟨reply, hreply, hrefused⟩ := (h (header.id + 1)).refused hu header hh hquery
    have hshed : send readBody (header.id + 1) m delivery =
        .raw (shed readBody (header.id + 1) m) m.addr m.protocol := by
      rw [hstream]
      cases delivery with
      | dropped => exact absurd rfl hdropped
      | full => rfl
      | closed => rfl
      | answered reply => cases hd
    have hid : (shed readBody (header.id + 1) m).header.id = header.id + 1 := by
      unfold shed
      rw [hparse]
      rfl
    obtain ⟨rfl, -⟩ := SerialMessage.raw.inj (hshed.symm.trans hreply)
    have hsame : header.id + 1 = header.id := hid.symm.trans hrefused.id
    simp at hsame

/-- **A lost message is answered as it should be, whatever ids are drawn, exactly where it came over
UDP, has no header, or is no response and, if the queue did not take it, can be parsed.** -/
theorem send_iff (hd : delivery.isLost = true) :
    (∀ drawn, HandledWell readBody m (send readBody drawn m delivery)) ↔ Pairs readBody m delivery :=
  ⟨pairs_of_handledWell hd, handledWell_of_pairs hd⟩

variable (readBody)

/-- **In every run each call gets exactly one message.** A lost one gets what it should where the
condition holds, and nothing that is itself a response gets an answer from the processing; and for
each message and each way to lose it, the condition is exact. -/
theorem lostRequest_handledWell_iff :
    (∀ (drawn : ℕ → UInt16) (es : List (ℤ × Event)),
      (run (step readBody drawn) {} es).Accounted ∧
      ∀ r ∈ (run (step readBody drawn) {} es).returned,
        (r.delivery.isLost = true → Pairs readBody r.incoming.message r.delivery →
          HandledWell readBody r.incoming.message r.message) ∧
        (r.delivery.isLost = false → ∀ header, r.incoming.message.header? = some header →
          header.messageType = .query)) ∧
    ∀ (m : SerialMessage) (delivery : Delivery), delivery.isLost = true →
      ((∀ drawn, HandledWell readBody m (send readBody drawn m delivery)) ↔ Pairs readBody m delivery) := by
  refine ⟨fun drawn es => ?_, fun m delivery hd => send_iff hd⟩
  have hrun := run_invariant_of_mem (step readBody drawn) (I := fun s => s.Accounted ∧ s.Right readBody drawn)
    (P := fun _ => True) (fun s t e h _ => ⟨accounted_step h.1 t e, right_step h.2 t e⟩) es {}
    ⟨⟨.refl _, rfl⟩, fun _ h => absurd h List.not_mem_nil⟩ fun _ _ => trivial
  refine ⟨hrun.1, fun r hr => ⟨fun hd hpairs => ?_, fun hd header hh => ?_⟩⟩
  · rw [(hrun.2 r hr).message]
    exact handledWell_of_pairs hd hpairs _
  · cases hdelivery : r.delivery with
    | answered reply =>
      obtain ⟨env, henv⟩ := (hrun.2 r hr).answered reply hdelivery
      cases htype : header.messageType with
      | query => rfl
      | response =>
        rw [process_response readBody hh htype] at henv
        cases henv
    | full =>
      rw [hdelivery] at hd
      cases hd
    | closed =>
      rw [hdelivery] at hd
      cases hd
    | dropped =>
      rw [hdelivery] at hd
      cases hd

end

/-- No body can be read. -/
def noBody : BodyReader := fun _ _ => none

def localAddr : SocketAddr := ⟨.v4 0x7f000001#32, 1234⟩

/-- A header with id `0x1234` that announces a question, and nothing behind it. -/
def cutRequest : SerialMessage :=
  .bytes [0x12, 0x34, 0x01, 0x00, 0, 1, 0, 0, 0, 0, 0, 0] localAddr .tcp

/-- A response without questions. -/
def strayResponse : SerialMessage :=
  .bytes [0x12, 0x34, 0x81, 0x80, 0, 0, 0, 0, 0, 0, 0, 0] localAddr .tcp

/-- With a full queue the cut request gets a REFUSED of the id that was drawn, and the response, which
the processing drops, gets a REFUSED. -/
theorem lost_under_another_id :
    ¬ HandledWell noBody cutRequest (send noBody 0 cutRequest .full) ∧
    ¬ HandledWell noBody strayResponse (send noBody 0 strayResponse .dropped) := by
  constructor
  · intro h
    obtain ⟨reply, hreply, hrefused⟩ := h.refused nofun _ rfl rfl
    obtain ⟨rfl, -⟩ := SerialMessage.raw.inj hreply
    exact absurd hrefused.id (by decide)
  · intro h
    exact absurd (h.unanswered _ rfl rfl) (by decide)

end DnsHandle
end Server
end SmartDns
