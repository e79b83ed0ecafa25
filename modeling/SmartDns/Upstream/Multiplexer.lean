/-
# Many requests over one connection

`DnsMultiplexer` of `proto/src/xfer/dns_multiplexer.rs`, which asks an upstream over TCP or TLS: each request gets
an id that no other request under way has, and a channel of its own; a response goes into the channel of the request
whose id it has. A request is under way until nobody waits for it, its time is up, or the stream ends.

An `Exchange` is a multiplexer with what went through it: the messages it sent, what it put into the channels, the
responses that arrived, and the channels it closed. The surroundings say which receivers are gone, which timeouts
are over, which channels have room and what the stream gives. A request is never signed here (the upstreams have no
signer), so nothing is verified.

Key definitions: `Exchange.sendMessage`, `Exchange.pollNext`, `Exchange.step`, `Exchange.Sound`.
Key theorems: `answers_own_request`, `one_end`, `ends_with_stream`.
-/
import Mathlib.Data.List.Perm.Basic
import SmartDns.Lib.KeyMap
import SmartDns.Wire.Message

namespace SmartDns

open Dns Lib
open scoped List

namespace Upstream

open Wire

inductive SendError
  | message (text : String)
  | busy
  | timeout
  | kind (e : ProtoErrorKind)
  | stream (code : ℕ)

def CHANNEL_BUFFER_SIZE : ℕ := 32

def QOS_MAX_RECEIVE_MSGS : ℕ := 100

/-- A request under way, with the number of its completion channel. -/
structure ActiveRequest where
  completion : ℕ
  requestId : UInt16

structure DnsMultiplexer where
  activeRequests : KeyMap UInt16 ActiveRequest := KeyMap.empty
  isShutdown : Bool := false

/-- A message that was given to the stream. -/
structure Sent (D : Type) where
  completion : ℕ
  message : Wire.Message D
  buffer : List UInt8

/-- A multiplexer and what went through it. -/
structure Exchange (D : Type) where
  multiplexer : DnsMultiplexer := {}
  channels : ℕ := 0
  sent : List (Sent D) := []
  completions : List (ℕ × Except SendError (Wire.Message D)) := []
  arrived : List (Wire.Message D) := []
  closed : List ℕ := []

/-- What the stream gives, with which channels have room when it is put into them. -/
inductive Arrival
  | buffer (bytes : List UInt8) (room : Bool)
  | failed (e : SendError) (room : ℕ → Bool)
  | closed (room : ℕ → Bool)

inductive Polled
  | pending (woken : Bool)
  | done
deriving DecidableEq

/-- What comes to a multiplexer: a request, with the clock, the random ids and whether there is room in the queue of
the stream; a poll; or the end of all requests. -/
inductive Event (D : Type)
  | send (request : Wire.Message D) (now : Option ℕ) (draw : ℕ → UInt16) (room : Bool)
  | poll (gone late room : ℕ → Bool) (arrivals : List Arrival)
  | shutdown

variable {D : Type} (formats : MoreData D)

/-- `DnsResponse::from_buffer`, whose errors nobody looks at. -/
def fromBuffer (bytes : List UInt8) : Option (Wire.Message D) :=
  match fromVec formats bytes with
  | .error _ => none
  | .ok message => if message.header.messageType = .response then some message else none

variable {formats} in
theorem fromBuffer_eq_some_iff {bytes : List UInt8} {message : Wire.Message D} :
    fromBuffer formats bytes = some message ↔
      fromVec formats bytes = .ok message ∧ message.header.messageType = .response := by
  unfold fromBuffer
  cases fromVec formats bytes with
  | error e => simp
  | ok m =>
    dsimp only
    constructor
    · intro h
      split_ifs at h with hresponse
      cases h
      exact ⟨rfl, hresponse⟩
    · rintro ⟨h, hresponse⟩
      cases h
      exact if_pos hresponse

namespace DnsMultiplexer

/-- `next_random_query_id`. -/
def nextRandomQueryId (m : DnsMultiplexer) (draw : ℕ → UInt16) : Option UInt16 :=
  ((List.range 100).map draw).find? fun id => !m.activeRequests.contains id

end DnsMultiplexer

namespace Exchange

/-- The requests under way. -/
def requests (x : Exchange D) : List ActiveRequest := x.multiplexer.activeRequests.entries.map (·.2)

/-- `complete_with_error` of each of these: the channel gets the error, if it takes it, and is closed. -/
def completeWithError (x : Exchange D) (dropped : List ActiveRequest) (room : ActiveRequest → Bool)
    (error : ActiveRequest → SendError) : Exchange D :=
  { x with
    completions := x.completions ++ (dropped.filter room).map fun r => (r.completion, .error (error r))
    closed := x.closed ++ dropped.map (·.completion) }

/-- `drop_cancelled`. The map gives its entries in an order that does not show, as no two of them have a channel. -/
def dropCancelled (x : Exchange D) (gone late room : ℕ → Bool) : Exchange D :=
  let ended (r : ActiveRequest) : Bool := gone r.completion || late r.completion
  { x with multiplexer.activeRequests := x.multiplexer.activeRequests.retain fun r => !ended r }.completeWithError
    (x.requests.filter ended) (fun r => !gone r.completion && room r.completion)
    fun r => if late r.completion then .timeout else .message "requestor canceled"

/-- `stream_closed_close_all`, and the multiplexer takes no more requests. -/
def streamClosedCloseAll (x : Exchange D) (error : SendError) (room : ℕ → Bool) : Exchange D :=
  { x with
    multiplexer.activeRequests := KeyMap.empty
    multiplexer.isShutdown := true }.completeWithError x.requests (fun r => room r.completion) fun _ => error

/-- What `send_message` does before it takes the request: the id it gets, and the message on the wire. -/
def prepare (x : Exchange D) (request : Wire.Message D) (now : Option ℕ) (draw : ℕ → UInt16) (room : Bool) :
    Except SendError (UInt16 × List UInt8) :=
  if x.multiplexer.isShutdown then .error (.message "can not send messages after stream is shutdown")
  else if x.requests.length > CHANNEL_BUFFER_SIZE then .error .busy
  else match x.multiplexer.nextRandomQueryId draw with
    | none => .error (.message "id space exhausted, consider filing an issue")
    | some id =>
      if now.isNone then .error (.message "Current time is before the Unix epoch.")
      else match toVec formats 65535 { request with header.id := id } with
        | .error e => .error (.kind e)
        | .ok buffer =>
          if room then .ok (id, buffer)
          else .error (.message "mpsc::SendError send failed because channel is full")

/-- `send_message`: the number of the channel that the response comes through. -/
def sendMessage (x : Exchange D) (request : Wire.Message D) (now : Option ℕ) (draw : ℕ → UInt16) (room : Bool) :
    Exchange D × Except SendError ℕ :=
  match x.prepare formats request now draw room with
  | .error e => (x, .error e)
  | .ok (id, buffer) =>
    ({ x with
      multiplexer.activeRequests := x.multiplexer.activeRequests.insert id ⟨x.channels, id⟩
      channels := x.channels + 1
      sent := x.sent ++ [⟨x.channels, { request with header.id := id }, buffer⟩] }, .ok x.channels)

/-- A message off the stream, put into the channel of the request it answers. -/
def receive (x : Exchange D) (bytes : List UInt8) (room : Bool) : Exchange D :=
  match fromBuffer formats bytes with
  | none => x
  | some response =>
    match x.multiplexer.activeRequests.get? response.header.id with
    | none => { x with arrived := x.arrived ++ [response] }
    | some request =>
      if room then
        { x with
          completions := x.completions ++ [(request.completion, .ok response)]
          arrived := x.arrived ++ [response] }
      else { x with arrived := x.arrived ++ [response] }

/-- The loop of `poll_next`; when it has received all it may, the task is woken to go on. -/
def receiveAll : ℕ → List Arrival → Exchange D → Exchange D × Polled
  | 0, _, x => (x, .pending true)
  | _ + 1, [], x => (x, .pending false)
  | n + 1, .buffer bytes room :: rest, x => receiveAll n rest (x.receive formats bytes room)
  | _ + 1, .failed e room :: _, x => (x.streamClosedCloseAll e room, .done)
  | _ + 1, .closed room :: _, x => (x.streamClosedCloseAll (.message "stream closed") room, .done)

/-- `poll_next`. -/
def pollNext (x : Exchange D) (gone late room : ℕ → Bool) (arrivals : List Arrival) : Exchange D × Polled :=
  let x := x.dropCancelled gone late room
  if x.multiplexer.isShutdown && x.requests.isEmpty then (x, .done)
  else receiveAll formats QOS_MAX_RECEIVE_MSGS arrivals x

def shutdown (x : Exchange D) : Exchange D := { x with multiplexer.isShutdown := true }

def step (x : Exchange D) : Event D → Exchange D
  | .send request now draw room => (x.sendMessage formats request now draw room).1
  | .poll gone late room arrivals => (x.pollNext formats gone late room arrivals).1
  | .shutdown => x.shutdown

def run (x : Exchange D) (es : List (Event D)) : Exchange D := es.foldl (step formats) x

/-! ### What holds in every exchange -/

/-- Each request has the id it was sent with; each channel is open for a request under way or closed, and has nothing
behind an error; responses go to requests with their id, in the order in which they came. -/
structure Sound (x : Exchange D) : Prop where
  ids : ∀ e ∈ x.multiplexer.activeRequests.entries,
    e.2.requestId = e.1 ∧ ∃ s ∈ x.sent, s.completion = e.2.completion ∧ s.message.header.id = e.1
  written : ∀ s ∈ x.sent, toVec formats 65535 s.message = .ok s.buffer
  numbered : x.sent.map (·.completion) = List.range x.channels
  pending : (x.requests.map (·.completion) ++ x.closed).Perm (List.range x.channels)
  own : ∀ c ∈ x.completions, ∀ r, c.2 = .ok r → r.header.messageType = .response ∧
    ∃ s ∈ x.sent, s.completion = c.1 ∧ s.message.header.id = r.header.id
  last : ∀ c ∈ x.completions, ∀ e, c.2 = .error e → c.1 ∈ x.closed
  order : x.completions.Pairwise fun a b => a.1 = b.1 → ∃ r, a.2 = .ok r
  inOrder : (x.completions.filterMap fun c => c.2.toOption).Sublist x.arrived
  few : x.requests.length ≤ CHANNEL_BUFFER_SIZE + 1

variable {formats}

theorem sound_new : Sound formats ({} : Exchange D) where
  ids _ he := absurd he List.not_mem_nil
  written _ hs := absurd hs List.not_mem_nil
  numbered := rfl
  pending := .refl _
  own _ hc := absurd hc List.not_mem_nil
  last _ hc := absurd hc List.not_mem_nil
  order := List.Pairwise.nil
  inOrder := List.Sublist.refl _
  few := Nat.zero_le _

namespace Sound

variable {x : Exchange D}

theorem nodup (h : Sound formats x) : (x.requests.map (·.completion) ++ x.closed).Nodup :=
  h.pending.nodup_iff.mpr List.nodup_range

/-- The channel of a request under way is not closed. -/
theorem not_closed (h : Sound formats x) {r : ActiveRequest} (hr : r ∈ x.requests) : r.completion ∉ x.closed :=
  fun hclosed => (List.disjoint_of_nodup_append h.nodup) (List.mem_map_of_mem hr) hclosed

/-- What the channel of a request under way has got so far is responses. -/
theorem ok_of_request (h : Sound formats x) {r : ActiveRequest} (hr : r ∈ x.requests)
    {c : ℕ × Except SendError (Wire.Message D)} (hc : c ∈ x.completions) (heq : c.1 = r.completion) :
    ∃ response, c.2 = .ok response := by
  cases hitem : c.2 with
  | ok response => exact ⟨response, rfl⟩
  | error e => exact absurd (heq ▸ h.last c hc e hitem) (h.not_closed hr)

/-- Some requests are dropped, each with an error for its channel. -/
theorem complete (h : Sound formats x) {kept : KeyMap UInt16 ActiveRequest} {isShutdown : Bool}
    {dropped : List ActiveRequest} (hsub : ∀ e ∈ kept.entries, e ∈ x.multiplexer.activeRequests.entries)
    (hperm : (kept.entries.map (·.2) ++ dropped).Perm x.requests) (room : ActiveRequest → Bool)
    (error : ActiveRequest → SendError) :
    Sound formats (completeWithError { x with multiplexer := ⟨kept, isShutdown⟩ } dropped room error) := by
  have hdropped : ∀ r ∈ dropped, r ∈ x.requests := fun r hr => hperm.mem_iff.mp (List.mem_append_right _ hr)
  have hchannels : (dropped.map (·.completion)).Nodup := by
    have hnodup := (hperm.map (·.completion)).nodup_iff.mpr (List.nodup_append.mp h.nodup).1
    rw [List.map_append] at hnodup
    exact (List.nodup_append.mp hnodup).2.1
  refine ⟨fun e he => h.ids e (hsub e he), h.written, h.numbered, ?_, ?_, ?_, ?_, ?_, ?_⟩
  · show ((kept.entries.map (·.2)).map (·.completion) ++ (x.closed ++ dropped.map (·.completion))).Perm _
    refine List.Perm.trans ?_ h.pending
    calc (kept.entries.map (·.2)).map (·.completion) ++ (x.closed ++ dropped.map (·.completion))
      _ ~ (kept.entries.map (·.2)).map (·.completion) ++ (dropped.map (·.completion) ++ x.closed) :=
        List.perm_append_comm.append_left _
      _ = (kept.entries.map (·.2) ++ dropped).map (·.completion) ++ x.closed := by
        rw [List.map_append, List.append_assoc]
      _ ~ x.requests.map (·.completion) ++ x.closed := (hperm.map _).append_right _
  · intro c hc r hr
    rcases List.mem_append.mp hc with hc | hc
    · exact h.own c hc r hr
    · obtain ⟨d, -, rfl⟩ := List.mem_map.mp hc
      cases hr
  · intro c hc e he
    rcases List.mem_append.mp hc with hc | hc
    · exact List.mem_append_left _ (h.last c hc e he)
    · obtain ⟨d, hd, rfl⟩ := List.mem_map.mp hc
      exact List.mem_append_right _ (List.mem_map_of_mem (List.mem_of_mem_filter hd))
  · refine List.pairwise_append.mpr ⟨h.order, ?_, ?_⟩
    · refine List.pairwise_map.mpr (List.Pairwise.filter _ ?_)
      exact (List.pairwise_map.mp hchannels).imp fun hne heq => absurd heq hne
    · intro a ha b hb heq
      obtain ⟨d, hd, rfl⟩ := List.mem_map.mp hb
      exact h.ok_of_request (hdropped d (List.mem_of_mem_filter hd)) ha heq
  · show ((x.completions ++ _).filterMap _).Sublist x.arrived
    have hnone : ((dropped.filter room).map fun r => ((r.completion, .error (error r)) :
        ℕ × Except SendError (Wire.Message D))).filterMap (fun c => c.2.toOption) = [] := by
      refine List.filterMap_eq_nil_iff.mpr fun c hc => ?_
      obtain ⟨d, -, rfl⟩ := List.mem_map.mp hc
      rfl
    rw [List.filterMap_append, hnone, List.append_nil]
    exact h.inOrder
  · have hlen := hperm.length_eq
    rw [List.length_append] at hlen
    have hfew := h.few
    show (kept.entries.map (·.2)).length ≤ _
    omega

theorem dropCancelled (h : Sound formats x) (gone late room : ℕ → Bool) :
    Sound formats (x.dropCancelled gone late room) := by
  refine h.complete (fun e he => List.mem_of_mem_filter he) ?_ _ _
  have hsplit := List.filter_append_perm
    (fun r : ActiveRequest => !(gone r.completion || late r.completion)) x.requests
  have hkept : (x.multiplexer.activeRequests.retain fun r => !(gone r.completion || late r.completion)).entries.map
      (·.2) = x.requests.filter fun r => !(gone r.completion || late r.completion) := by
    unfold requests
    rw [List.filter_map]
    rfl
  have hdropped : (x.requests.filter fun r => !!(gone r.completion || late r.completion)) =
      x.requests.filter fun r => gone r.completion || late r.completion :=
    List.filter_congr fun r _ => Bool.not_not _
  rw [hdropped] at hsplit
  rw [hkept]
  exact hsplit

theorem streamClosedCloseAll (h : Sound formats x) (error : SendError) (room : ℕ → Bool) :
    Sound formats (x.streamClosedCloseAll error room) :=
  h.complete (fun _ he => absurd he List.not_mem_nil) (List.Perm.refl _) _ _

theorem receive (h : Sound formats x) (bytes : List UInt8) (room : Bool) :
    Sound formats (x.receive formats bytes room) := by
  have hseen (response : Wire.Message D) : Sound formats { x with arrived := x.arrived ++ [response] } :=
    { h with inOrder := h.inOrder.trans (List.sublist_append_left _ _) }
  unfold Exchange.receive
  cases hbytes : fromBuffer formats bytes with
  | none => exact h
  | some response =>
    dsimp only
    cases hget : x.multiplexer.activeRequests.get? response.header.id with
    | none => exact hseen response
    | some request =>
      cases room with
      | false => exact hseen response
      | true =>
        obtain ⟨id, hid, hmem⟩ := (KeyMap.get?_eq_some_iff _ _ _).mp hget
        obtain rfl : id = response.header.id := eq_of_beq hid
        obtain ⟨-, s, hs, hchannel, hsid⟩ := h.ids _ hmem
        have hrequest : request ∈ x.requests := List.mem_map_of_mem (f := Prod.snd) hmem
        refine { h with own := ?_, last := ?_, order := ?_, inOrder := ?_ }
        · intro c hc r hr
          rcases List.mem_append.mp hc with hc | hc
          · exact h.own c hc r hr
          · obtain rfl := List.mem_singleton.mp hc
            obtain rfl : response = r := Except.ok.inj hr
            exact ⟨(fromBuffer_eq_some_iff.mp hbytes).2, s, hs, hchannel, hsid⟩
        · intro c hc e he
          rcases List.mem_append.mp hc with hc | hc
          · exact h.last c hc e he
          · obtain rfl := List.mem_singleton.mp hc
            cases he
        · refine List.pairwise_append.mpr ⟨h.order, List.pairwise_singleton _ _, fun a ha b hb heq => ?_⟩
          obtain rfl := List.mem_singleton.mp hb
          exact h.ok_of_request hrequest ha heq
        · show ((x.completions ++ [_]).filterMap _).Sublist (x.arrived ++ [response])
          rw [List.filterMap_append]
          exact h.inOrder.append (List.Sublist.refl _)

theorem receiveAll : ∀ (n : ℕ) (arrivals : List Arrival) {x : Exchange D}, Sound formats x →
    Sound formats (receiveAll formats n arrivals x).1
  | 0, _, _, h => h
  | _ + 1, [], _, h => h
  | n + 1, .buffer bytes room :: rest, _, h => receiveAll n rest (h.receive bytes room)
  | _ + 1, .failed e room :: _, _, h => h.streamClosedCloseAll e room
  | _ + 1, .closed room :: _, _, h => h.streamClosedCloseAll _ room

theorem pollNext (h : Sound formats x) (gone late room : ℕ → Bool) (arrivals : List Arrival) :
    Sound formats (x.pollNext formats gone late room arrivals).1 := by
  unfold Exchange.pollNext
  dsimp only
  split_ifs
  · exact h.dropCancelled gone late room
  · exact receiveAll _ arrivals (h.dropCancelled gone late room)

end Sound

/-- When a request is taken, and with which id. -/
theorem prepare_eq_ok_iff {x : Exchange D} {request : Wire.Message D} {now : Option ℕ} {draw : ℕ → UInt16}
    {room : Bool} {id : UInt16} {buffer : List UInt8} :
    x.prepare formats request now draw room = .ok (id, buffer) ↔
      x.multiplexer.isShutdown = false ∧ x.requests.length ≤ CHANNEL_BUFFER_SIZE ∧
        x.multiplexer.nextRandomQueryId draw = some id ∧ now.isSome = true ∧
          toVec formats 65535 { request with header.id := id } = .ok buffer ∧ room = true := by
  unfold prepare
  by_cases hshut : x.multiplexer.isShutdown = true
  · simp [hshut]
  rw [if_neg hshut]
  by_cases hfull : x.requests.length > CHANNEL_BUFFER_SIZE
  · simp [hfull, Nat.not_le.mpr hfull]
  rw [if_neg hfull]
  have hopen : x.multiplexer.isShutdown = false := Bool.eq_false_iff.mpr hshut
  have hfew : x.requests.length ≤ CHANNEL_BUFFER_SIZE := Nat.le_of_not_lt hfull
  cases x.multiplexer.nextRandomQueryId draw with
  | none => simp
  | some id' =>
    dsimp only
    by_cases hnow : now.isNone = true
    · rw [if_pos hnow]
      simp_all
    rw [if_neg hnow]
    have hnow : now.isSome = true := by simpa [Option.isSome_iff_ne_none] using hnow
    cases hbuffer : toVec formats 65535 { request with header.id := id' } with
    | error e =>
      dsimp only
      constructor
      · intro h
        cases h
      · rintro ⟨-, -, hid, -, hok, -⟩
        cases hid
        rw [hbuffer] at hok
        cases hok
    | ok buffer' =>
      dsimp only
      constructor
      · intro h
        split_ifs at h with hroom
        cases h
        exact ⟨hopen, hfew, rfl, hnow, hbuffer, hroom⟩
      · rintro ⟨-, -, hid, -, hok, hroom⟩
        cases hid
        rw [hbuffer] at hok
        cases hok
        exact if_pos hroom

/-- The id is one that no request under way has. -/
theorem not_contains_of_draw {m : DnsMultiplexer} {draw : ℕ → UInt16} {id : UInt16}
    (h : m.nextRandomQueryId draw = some id) : m.activeRequests.contains id = false := by
  have := List.find?_some h
  simpa using this

theorem entries_insert {m : KeyMap UInt16 ActiveRequest} {id : UInt16} (h : m.contains id = false)
    (r : ActiveRequest) : (m.insert id r).entries = m.entries ++ [(id, r)] := by
  refine KeyMap.updateEntries_of_not_any _ ?_
  rw [KeyMap.contains_eq_any, KeyMap.keys, List.any_map] at h
  exact h

theorem Sound.sendMessage {x : Exchange D} (h : Sound formats x) (request : Wire.Message D) (now : Option ℕ)
    (draw : ℕ → UInt16) (room : Bool) : Sound formats (x.sendMessage formats request now draw room).1 := by
  unfold Exchange.sendMessage
  cases hprepare : x.prepare formats request now draw room with
  | error e => exact h
  | ok p =>
    obtain ⟨id, buffer⟩ := p
    obtain ⟨-, hfew, hid, -, hbuffer, -⟩ := prepare_eq_ok_iff.mp hprepare
    have hentries := entries_insert (not_contains_of_draw hid) ⟨x.channels, id⟩
    have hrequests : (x.multiplexer.activeRequests.insert id ⟨x.channels, id⟩).entries.map (·.2) =
        x.requests ++ [⟨x.channels, id⟩] := by
      rw [hentries, List.map_append]
      rfl
    refine ⟨?_, ?_, ?_, ?_, ?_, h.last, h.order, h.inOrder, ?_⟩
    · intro e he
      rcases List.mem_append.mp (hentries ▸ he) with he | he
      · obtain ⟨hsame, s, hs, hs'⟩ := h.ids e he
        exact ⟨hsame, s, List.mem_append_left _ hs, hs'⟩
      · obtain rfl := List.mem_singleton.mp he
        exact ⟨rfl, _, List.mem_append_right _ (List.mem_singleton_self _), rfl, rfl⟩
    · intro s hs
      rcases List.mem_append.mp hs with hs | hs
      · exact h.written s hs
      · obtain rfl := List.mem_singleton.mp hs
        exact hbuffer
    · show (x.sent ++ [_]).map Sent.completion = List.range (x.channels + 1)
      rw [List.map_append, h.numbered, List.range_succ]
      rfl
    · show (((x.multiplexer.activeRequests.insert id ⟨x.channels, id⟩).entries.map (·.2)).map (·.completion) ++
        x.closed).Perm (List.range (x.channels + 1))
      rw [hrequests, List.map_append, List.append_assoc, List.range_succ]
      calc x.requests.map ActiveRequest.completion ++ ([x.channels] ++ x.closed)
        _ ~ x.requests.map ActiveRequest.completion ++ (x.closed ++ [x.channels]) :=
            List.perm_append_comm.append_left _
        _ = x.requests.map ActiveRequest.completion ++ x.closed ++ [x.channels] := (List.append_assoc _ _ _).symm
        _ ~ List.range x.channels ++ [x.channels] := h.pending.append_right _
    · intro c hc r hr
      obtain ⟨hresponse, s, hs, hs'⟩ := h.own c hc r hr
      exact ⟨hresponse, s, List.mem_append_left _ hs, hs'⟩
    · show ((x.multiplexer.activeRequests.insert id ⟨x.channels, id⟩).entries.map (·.2)).length ≤ _
      rw [hrequests, List.length_append]
      exact Nat.succ_le_succ hfew

/-- Every event keeps it. -/
theorem Sound.step {x : Exchange D} (h : Sound formats x) : ∀ e : Event D, Sound formats (x.step formats e)
  | .send request now draw room => h.sendMessage request now draw room
  | .poll gone late room arrivals => h.pollNext gone late room arrivals
  | .shutdown => { h with }

theorem Sound.run {x : Exchange D} (h : Sound formats x) (es : List (Event D)) :
    Sound formats (x.run formats es) := by
  induction es generalizing x with
  | nil => exact h
  | cons e es ih => exact ih (h.step e)

/-! ### Whole runs -/

/-- **A response goes to the request it answers.** Whatever is sent, given up, timed out and received in whatever
order: what comes through the `n`-th channel is a response with the id of the `n`-th message sent, and all that comes
through the channels is, in its order, some of what has arrived. -/
theorem answers_own_request (es : List (Event D)) :
    (∀ c ∈ (run formats {} es).completions, ∀ r, c.2 = .ok r → r.header.messageType = .response ∧
      ∃ s, (run formats {} es).sent[c.1]? = some s ∧ s.message.header.id = r.header.id ∧
        toVec formats 65535 s.message = .ok s.buffer) ∧
    ((run formats {} es).completions.filterMap fun c => c.2.toOption).Sublist (run formats {} es).arrived := by
  have h : Sound formats (run formats {} es) := sound_new.run es
  refine ⟨fun c hc r hr => ?_, h.inOrder⟩
  obtain ⟨hresponse, s, hs, hchannel, hid⟩ := h.own c hc r hr
  obtain ⟨i, hi⟩ := List.mem_iff_getElem?.mp hs
  have hnumber : (List.range (run formats {} es).channels)[i]? = some s.completion := by
    rw [← h.numbered, List.getElem?_map, hi]
    rfl
  obtain ⟨hlt, hget⟩ := List.getElem?_eq_some_iff.mp hnumber
  rw [List.getElem_range] at hget
  refine ⟨hresponse, s, ?_, hid, h.written s hs⟩
  rw [← hchannel, ← hget]
  exact hi

/-- **Every request ends once.** Each channel that was handed out is open for one request under way, or was closed
once; there is an error in it only if it is closed, and nothing behind the error. -/
theorem one_end (es : List (Event D)) :
    ((run formats {} es).requests.map (·.completion) ++ (run formats {} es).closed) ~
      List.range (run formats {} es).channels ∧
    (∀ c ∈ (run formats {} es).completions, ∀ e, c.2 = .error e → c.1 ∈ (run formats {} es).closed) ∧
    (run formats {} es).completions.Pairwise fun a b => a.1 = b.1 → ∃ r, a.2 = .ok r := by
  have h : Sound formats (run formats {} es) := sound_new.run es
  exact ⟨h.pending, h.last, h.order⟩

/-- **No two requests under way have the same id**, and there are never more of them than there is room for. -/
theorem ids_under_way (es : List (Event D)) :
    ((run formats {} es).requests.map (·.requestId)).Nodup ∧
      (run formats {} es).requests.length ≤ CHANNEL_BUFFER_SIZE + 1 := by
  have h : Sound formats (run formats {} es) := sound_new.run es
  refine ⟨?_, h.few⟩
  have hkeys : (run formats {} es).requests.map (·.requestId) =
      (run formats {} es).multiplexer.activeRequests.keys := by
    unfold requests KeyMap.keys
    rw [List.map_map]
    exact List.map_congr_left fun e he => (h.ids e he).1
  rw [hkeys]
  exact KeyMap.nodup_keys _

/-- The multiplexer is at its end: it takes no request, and none is under way. -/
structure Over (x : Exchange D) : Prop where
  shutdown : x.multiplexer.isShutdown = true
  requests : x.requests = []

theorem over_streamClosedCloseAll (x : Exchange D) (error : SendError) (room : ℕ → Bool) :
    Over (x.streamClosedCloseAll error room) := ⟨rfl, rfl⟩

theorem over_of_receiveAll : ∀ (n : ℕ) (arrivals : List Arrival) {x : Exchange D},
    (receiveAll formats n arrivals x).2 = .done → Over (receiveAll formats n arrivals x).1
  | 0, _, _, h => by cases h
  | _ + 1, [], _, h => by cases h
  | n + 1, .buffer bytes room :: rest, _, h => over_of_receiveAll n rest h
  | _ + 1, .failed e room :: _, x, _ => over_streamClosedCloseAll x e room
  | _ + 1, .closed room :: _, x, _ => over_streamClosedCloseAll x _ room

/-- Nothing comes of what is done to a multiplexer at its end. -/
theorem Over.step {x : Exchange D} (h : Over x) (e : Event D) :
    Over (x.step formats e) ∧ (x.step formats e).sent = x.sent ∧ (x.step formats e).completions = x.completions := by
  have hempty : x.multiplexer.activeRequests.entries = [] := List.map_eq_nil_iff.mp h.requests
  cases e with
  | send request now draw room =>
    have hrefused : x.prepare formats request now draw room =
        .error (.message "can not send messages after stream is shutdown") := by
      unfold prepare
      rw [h.shutdown]
      rfl
    have hsame : x.step formats (.send request now draw room) = x := by
      show (x.sendMessage formats request now draw room).1 = x
      unfold sendMessage
      rw [hrefused]
    rw [hsame]
    exact ⟨h, rfl, rfl⟩
  | poll gone late room arrivals =>
    have hnone : (x.dropCancelled gone late room).requests = [] := by
      show ((x.multiplexer.activeRequests.entries.filter _).map _) = []
      rw [hempty]
      rfl
    have hsame : (x.dropCancelled gone late room).completions = x.completions := by
      show x.completions ++ ((x.requests.filter _).filter _).map _ = x.completions
      rw [h.requests]
      exact List.append_nil _
    have hshut : (x.dropCancelled gone late room).multiplexer.isShutdown = true := h.shutdown
    have hdone : x.step formats (.poll gone late room arrivals) = x.dropCancelled gone late room := by
      show (x.pollNext formats gone late room arrivals).1 = _
      unfold pollNext
      dsimp only
      rw [hshut, hnone]
      rfl
    rw [hdone]
    exact ⟨⟨hshut, hnone⟩, rfl, hsame⟩
  | shutdown => exact ⟨⟨rfl, h.requests⟩, rfl, rfl⟩

/-- **The end of the stream is the end of every request.** When a poll says that the multiplexer is done, every
channel handed out is closed, and whatever comes after it, no message is sent and nothing is put into a channel. -/
theorem ends_with_stream {es : List (Event D)} {gone late room : ℕ → Bool} {arrivals : List Arrival}
    (hdone : ((run formats {} es).pollNext formats gone late room arrivals).2 = .done) (after : List (Event D)) :
    (run formats {} (es ++ [.poll gone late room arrivals])).closed ~
        List.range (run formats {} (es ++ [.poll gone late room arrivals])).channels ∧
      (run formats {} (es ++ .poll gone late room arrivals :: after)).sent =
        (run formats {} (es ++ [.poll gone late room arrivals])).sent ∧
      (run formats {} (es ++ .poll gone late room arrivals :: after)).completions =
        (run formats {} (es ++ [.poll gone late room arrivals])).completions := by
  have hlast : run formats {} (es ++ [.poll gone late room arrivals]) =
      ((run formats {} es).pollNext formats gone late room arrivals).1 := List.foldl_concat ..
  have hover : Over (run formats {} (es ++ [.poll gone late room arrivals])) := by
    rw [hlast]
    unfold pollNext at hdone ⊢
    dsimp only at hdone ⊢
    split_ifs at hdone ⊢ with hempty
    · obtain ⟨hshut, hnone⟩ := Bool.and_eq_true_iff.mp hempty
      exact ⟨hshut, List.isEmpty_iff.mp hnone⟩
    · exact over_of_receiveAll _ _ hdone
  have hafter : ∀ (after : List (Event D)) {x : Exchange D}, Over x →
      (run formats x after).sent = x.sent ∧ (run formats x after).completions = x.completions := by
    intro after
    induction after with
    | nil => exact fun _ => ⟨rfl, rfl⟩
    | cons e after ih =>
      intro x hx
      obtain ⟨hx', hsent, hcompletions⟩ := @Over.step D formats x hx e
      exact ⟨(ih hx').1.trans hsent, (ih hx').2.trans hcompletions⟩
  have hsplit : run formats {} (es ++ .poll gone late room arrivals :: after) =
      run formats (run formats {} (es ++ [.poll gone late room arrivals])) after := by
    rw [← List.singleton_append, ← List.append_assoc]
    exact List.foldl_append
  refine ⟨?_, hsplit ▸ hafter after hover⟩
  have hsound : Sound formats (run formats {} (es ++ [.poll gone late room arrivals])) := sound_new.run _
  have hpending := hsound.pending
  rwa [hover.requests] at hpending

theorem ends_with_stream_unanswered :
    (run noMore {} [.send twoAddresses (some 0) (fun _ => 5) true,
      .poll (fun _ => false) (fun _ => false) (fun _ => true) [.closed fun _ => true]]).closed ~
        List.range (run noMore {} [.send twoAddresses (some 0) (fun _ => 5) true,
          .poll (fun _ => false) (fun _ => false) (fun _ => true) [.closed fun _ => true]]).channels :=
  (@ends_with_stream _ noMore [.send twoAddresses (some 0) (fun _ => 5) true] (fun _ => false) (fun _ => false)
    (fun _ => true) [.closed fun _ => true] (by decide +kernel) []).1

end Exchange

end Upstream
end SmartDns
