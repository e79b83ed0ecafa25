/-
# The queue in front of a log file

`LogConsumer` of `infra/mapped_file.rs`: any number of threads send lines into a bounded
queue, or drop and count them if it is full; one thread takes them out and writes them;
and `flush_blocking` sends a marker through the same queue and waits for its answer.
The channel is the standard library's: without capacity a message changes hands only
while the consumer waits for it.

What the threads do is a list of actions in any order, each one step of one thread.
A line that is refused is counted one step later. What is accounted for are the lines that
the actions themselves submit (`submitted`), and what a flush waits for is what the
queue had taken when its call began (`Accounted`).

Key definitions: `LogQueue`, `LogQueue.step`, `submitted`, `Accounted`.
Key theorem: `accounted_throughout`.
-/
import Mathlib.Data.List.TakeWhile
import SmartDns.Lib.Runs

namespace SmartDns
namespace Log

open Lib

abbrev Line : Type := List UInt8

inductive LogMsg
  | data (bytes : Line)
  /-- The marker of a call of `flush_blocking`. -/
  | flush (call : ℕ)

/-- A call on the log file behind the queue. -/
inductive InnerCall
  | write (bytes : Line)
  | flush

/-- Where the consumer thread is. -/
inductive Consumer
  | running
  /-- In `recv`, with nothing to receive. -/
  | waiting
  | holding (msg : LogMsg)
  /-- The file is flushed, the answer is not sent yet. -/
  | acking (call : ℕ)
  /-- `recv` has said that nobody can send any more. -/
  | finishing
  | ended

/-- A call of `flush_blocking`, with the lines that were accepted before it. -/
inductive FlushCall
  | trying (before : List Line)
  | waiting (before : List Line)
  | returned (ok : Bool) (before : List Line)

def FlushCall.before : FlushCall → List Line
  | trying before => before
  | waiting before => before
  | returned _ before => before

structure LogQueue where
  capacity : ℕ
  queue : List LogMsg := []
  /-- The sending end is there. -/
  connected : Bool := true
  consumer : Consumer := .running
  inner : List InnerCall := []
  dropped : ℕ := 0
  flushFailed : ℕ := 0
  flushes : List FlushCall := []
  acks : List ℕ := []
  /-- Refused, and not counted yet. -/
  refused : List Line := []
  accepted : List Line := []

/-- What a thread does next. -/
inductive LogAction
  /-- `try_send` of a line. -/
  | send (bytes : Line)
  /-- A thread whose line was refused counts it. -/
  | count
  | flushCall
  /-- `try_send` of a marker. -/
  | flushTry (call : ℕ)
  /-- The answer is there. -/
  | flushReturn (call : ℕ)
  | flushTimeout (call : ℕ)
  /-- The last sender is dropped. -/
  | disconnect
  | recv
  /-- The consumer goes on with the message it has. -/
  | handle

/-- The line that an action submits. -/
def LogAction.line : LogAction → Option Line
  | .send bytes => some bytes
  | _ => none

def LogAction.isDisconnect : LogAction → Bool
  | .disconnect => true
  | _ => false

namespace LogQueue

variable (s : LogQueue)

/-- `try_send` has room. -/
def hasRoom : Bool :=
  if s.capacity = 0 then
    match s.consumer with
    | .waiting => true
    | _ => false
  else s.queue.length < s.capacity

def isEnded : Bool :=
  match s.consumer with
  | .ended => true
  | _ => false

def push (msg : LogMsg) : LogQueue :=
  if s.capacity = 0 then { s with consumer := .holding msg } else { s with queue := s.queue ++ [msg] }

/-- `send_data`, up to the counter. -/
def send (bytes : Line) : LogQueue :=
  if !s.isEnded && s.hasRoom then
    { s.push (.data bytes) with accepted := s.accepted ++ [bytes] }
  else { s with refused := s.refused ++ [bytes] }

def count : LogQueue :=
  match s.refused with
  | [] => s
  | _ :: refused => { s with refused := refused, dropped := s.dropped + 1 }

def setFlush (call : ℕ) (f : FlushCall) : LogQueue := { s with flushes := s.flushes.set call f }

def failFlush (call : ℕ) (before : List Line) : LogQueue :=
  { s.setFlush call (.returned false before) with flushFailed := s.flushFailed + 1 }

/-- One turn of the loop that sends the marker; a full queue is tried again. -/
def flushTry (call : ℕ) : LogQueue :=
  match s.flushes[call]? with
  | some (.trying before) =>
    if s.isEnded then s.failFlush call before
    else if s.hasRoom then (s.push (.flush call)).setFlush call (.waiting before)
    else s
  | _ => s

def flushReturn (call : ℕ) : LogQueue :=
  match s.flushes[call]? with
  | some (.waiting before) => if call ∈ s.acks then s.setFlush call (.returned true before) else s
  | _ => s

/-- Out of time, in the loop or waiting for the answer. -/
def flushTimeout (call : ℕ) : LogQueue :=
  match s.flushes[call]? with
  | some (.trying before) => s.failFlush call before
  | some (.waiting before) => s.failFlush call before
  | _ => s

/-- `recv` fails when the queue is empty and nobody can send. -/
def recv : LogQueue :=
  match s.consumer with
  | .running | .waiting =>
    match s.queue with
    | msg :: queue => { s with queue := queue, consumer := .holding msg }
    | [] => { s with consumer := if s.connected then .waiting else .finishing }
  | _ => s

def handle : LogQueue :=
  match s.consumer with
  | .holding (.data bytes) => { s with consumer := .running, inner := s.inner ++ [.write bytes] }
  | .holding (.flush call) => { s with consumer := .acking call, inner := s.inner ++ [.flush] }
  | .acking call => { s with consumer := .running, acks := call :: s.acks }
  | .finishing => { s with consumer := .ended, inner := s.inner ++ [.flush] }
  | _ => s

/-- Without the sending end nobody sends. -/
def step (s : LogQueue) (_now : ℤ) : LogAction → LogQueue
  | .send bytes => if s.connected then s.send bytes else s
  | .count => s.count
  | .flushCall => if s.connected then { s with flushes := s.flushes ++ [.trying s.accepted] } else s
  | .flushTry call => if s.connected then s.flushTry call else s
  | .flushReturn call => s.flushReturn call
  | .flushTimeout call => s.flushTimeout call
  | .disconnect => { s with connected := false }
  | .recv => s.recv
  | .handle => s.handle

/-! ### What is where -/

def linesOf (msgs : List LogMsg) : List Line :=
  msgs.flatMap fun
    | .data bytes => [bytes]
    | .flush _ => []

/-- The lines that the log file was called with. -/
def writes (calls : List InnerCall) : List Line :=
  calls.flatMap fun
    | .write bytes => [bytes]
    | .flush => []

@[simp] theorem linesOf_append (a b : List LogMsg) : linesOf (a ++ b) = linesOf a ++ linesOf b := List.flatMap_append

@[simp] theorem writes_append (a b : List InnerCall) : writes (a ++ b) = writes a ++ writes b := List.flatMap_append

/-- What the consumer has in its hands. -/
def held : Consumer → List LogMsg
  | .holding msg => [msg]
  | _ => []

theorem held_eq_nil {consumer : Consumer} (h : ∀ msg, consumer ≠ .holding msg) : held consumer = [] := by
  cases consumer with
  | holding msg => exact absurd rfl (h msg)
  | _ => rfl

/-- What was sent and not handled yet, the next first. -/
def pending : List LogMsg := held s.consumer ++ s.queue

def lookup (call : ℕ) : Option (List Line) := (s.flushes[call]?).map FlushCall.before

/-- A flush of the file comes after all these lines. -/
def Flushed (inner : List InnerCall) (before : List Line) : Prop :=
  ∃ calls calls', inner = calls ++ .flush :: calls' ∧ before <+: writes calls

theorem Flushed.append {inner : List InnerCall} {before : List Line} (h : Flushed inner before)
    (calls : List InnerCall) : Flushed (inner ++ calls) before := by
  obtain ⟨first, rest, rfl, hbefore⟩ := h
  exact ⟨first, rest ++ calls, by simp, hbefore⟩

/-- What holds in every state. -/
structure Inv (s : LogQueue) : Prop where
  bound : s.queue.length ≤ s.capacity
  fifo : s.accepted = writes s.inner ++ linesOf s.pending
  before : ∀ call before, s.lookup call = some before → before <+: s.accepted
  marker : ∀ ahead call behind, s.pending = ahead ++ .flush call :: behind →
    ∃ before, s.lookup call = some before ∧ before <+: writes s.inner ++ linesOf ahead
  acking : ∀ call, s.consumer = .acking call → ∃ before, s.lookup call = some before ∧ Flushed s.inner before
  acks : ∀ call ∈ s.acks, ∃ before, s.lookup call = some before ∧ Flushed s.inner before
  returned : ∀ (call : ℕ) (before : List Line),
    s.flushes[call]? = some (FlushCall.returned true before) → Flushed s.inner before

theorem inv_start (capacity : ℕ) : Inv { capacity := capacity } where
  bound := Nat.zero_le _
  fifo := rfl
  before _ _ h := nomatch h
  marker ahead call behind h := absurd h (by simp [pending, held])
  acking _ h := nomatch h
  acks _ h := nomatch h
  returned _ _ h := nomatch h

/-! ### One step -/

section

variable {s}

/-- A message that is taken goes behind all that were. -/
theorem pending_push (hbound : s.queue.length ≤ s.capacity) (hroom : s.hasRoom = true) (msg : LogMsg) :
    (s.push msg).pending = s.pending ++ [msg] := by
  unfold hasRoom at hroom
  unfold push
  by_cases hzero : s.capacity = 0
  · rw [if_pos hzero] at hroom ⊢
    have hempty : s.queue = [] := List.length_eq_zero_iff.mp (Nat.le_zero.mp (hzero ▸ hbound))
    have hnone : s.pending = [] := by
      unfold pending
      rw [hempty]
      revert hroom
      cases s.consumer <;> simp [held]
    rw [hnone, pending, hempty]
    rfl
  · rw [if_neg hzero]
    exact (List.append_assoc _ _ _).symm

theorem length_queue_push (hbound : s.queue.length ≤ s.capacity) (hroom : s.hasRoom = true) (msg : LogMsg) :
    (s.push msg).queue.length ≤ (s.push msg).capacity := by
  unfold hasRoom at hroom
  unfold push
  by_cases hzero : s.capacity = 0
  · rw [if_pos hzero]
    exact hbound
  · rw [if_neg hzero] at hroom ⊢
    have hlt : s.queue.length < s.capacity := of_decide_eq_true hroom
    simp
    omega

/-- A marker among the messages, or one that was just put behind them. -/
theorem append_singleton_split {msgs ahead behind : List LogMsg} {msg m : LogMsg}
    (h : msgs ++ [msg] = ahead ++ m :: behind) :
    (∃ rest, msgs = ahead ++ m :: rest) ∨ (msgs = ahead ∧ msg = m) := by
  rcases List.eq_nil_or_concat behind with rfl | ⟨rest, last, rfl⟩
  · obtain ⟨hmsgs, hlast⟩ := List.append_inj' h rfl
    exact .inr ⟨hmsgs, (List.cons.inj hlast).1⟩
  · have hcut : ahead ++ m :: (rest ++ [last]) = (ahead ++ m :: rest) ++ [last] := by simp
    rw [List.concat_eq_append, hcut] at h
    exact .inl ⟨rest, (List.append_inj' h rfl).1⟩

theorem lookup_setFlush {call : ℕ} {f g : FlushCall} (h : s.flushes[call]? = some f) (hg : g.before = f.before)
    (c : ℕ) : (s.setFlush call g).lookup c = s.lookup c := by
  unfold lookup setFlush
  dsimp only
  by_cases hc : c = call
  · rw [hc, List.getElem?_set_self (List.getElem?_eq_some_iff.mp h).1, h]
    exact congrArg some hg
  · rw [List.getElem?_set_ne (Ne.symm hc)]

theorem push_frame (s : LogQueue) (msg : LogMsg) :
    (s.push msg).inner = s.inner ∧ (s.push msg).flushes = s.flushes ∧ (s.push msg).acks = s.acks ∧
    (s.push msg).accepted = s.accepted ∧ (s.push msg).dropped = s.dropped ∧ (s.push msg).refused = s.refused ∧
    (s.push msg).connected = s.connected ∧ ∀ call, (s.push msg).consumer = .acking call → s.consumer = .acking call := by
  unfold push
  split
  · exact ⟨rfl, rfl, rfl, rfl, rfl, rfl, rfl, nofun⟩
  · exact ⟨rfl, rfl, rfl, rfl, rfl, rfl, rfl, fun _ h => h⟩

/-- A message that is taken keeps the invariant; `lines` are accepted with it. -/
theorem Inv.push (h : Inv s) (hroom : s.hasRoom = true) (msg : LogMsg)
    (hmarker : ∀ call, msg = .flush call → ∃ before, s.lookup call = some before) :
    Inv { s.push msg with accepted := s.accepted ++ linesOf [msg] } := by
  have hpending := pending_push h.bound hroom msg
  have hqueue := length_queue_push h.bound hroom msg
  obtain ⟨hinner, hflushes, hacks, -, -, -, -, hacking⟩ := push_frame s msg
  generalize s.push msg = s' at *
  have hlookup : ∀ call, s'.lookup call = s.lookup call := fun call => by rw [lookup, hflushes, lookup]
  refine ⟨hqueue, ?_, fun call before hbefore => ?_,
    fun ahead call behind hsplit => ?_, fun call hcall => ?_, fun call hcall => ?_, fun call before hcall => ?_⟩
  · show s.accepted ++ linesOf [msg] = writes s'.inner ++ linesOf s'.pending
    rw [hpending, hinner, linesOf_append, ← List.append_assoc, h.fifo]
  · exact (h.before call before ((hlookup call).symm.trans hbefore)).trans (List.prefix_append _ _)
  · rcases append_singleton_split (hpending.symm.trans hsplit) with ⟨rest, hrest⟩ | ⟨hall, hmsg⟩
    · obtain ⟨before, hbefore, hfront⟩ := h.marker ahead call rest hrest
      exact ⟨before, (hlookup call).trans hbefore, hinner.symm ▸ hfront⟩
    · obtain ⟨before, hbefore⟩ := hmarker call hmsg
      refine ⟨before, (hlookup call).trans hbefore, ?_⟩
      show before <+: writes s'.inner ++ linesOf ahead
      rw [hinner, ← hall, ← h.fifo]
      exact h.before call before hbefore
  · obtain ⟨before, hbefore, hflushed⟩ := h.acking call (hacking call hcall)
    exact ⟨before, (hlookup call).trans hbefore, hinner.symm ▸ hflushed⟩
  · obtain ⟨before, hbefore, hflushed⟩ := h.acks call (hacks ▸ hcall)
    exact ⟨before, (hlookup call).trans hbefore, hinner.symm ▸ hflushed⟩
  · show Flushed s'.inner before
    rw [hinner]
    exact h.returned call before (hflushes ▸ hcall)

theorem Inv.send (h : Inv s) (bytes : Line) : Inv (s.send bytes) := by
  unfold LogQueue.send
  by_cases hroom : (!s.isEnded && s.hasRoom) = true
  · rw [if_pos hroom]
    exact h.push (Bool.and_eq_true_iff.mp hroom).2 (.data bytes) nofun
  · rw [if_neg hroom]
    exact { h with }

theorem Inv.count (h : Inv s) : Inv s.count := by
  unfold LogQueue.count
  cases hrefused : s.refused with
  | nil => exact h
  | cons bytes refused => exact { h with }

theorem Inv.flushCall (h : Inv s) : Inv { s with flushes := s.flushes ++ [.trying s.accepted] } := by
  -- The calls that were there are found as before.
  have hold : ∀ call before, s.lookup call = some before →
      lookup { s with flushes := s.flushes ++ [.trying s.accepted] } call = some before := by
    intro call before hbefore
    unfold lookup at hbefore ⊢
    obtain ⟨f, hf, rfl⟩ := Option.map_eq_some_iff.mp hbefore
    show ((s.flushes ++ _)[call]?).map _ = _
    rw [List.getElem?_append_left (List.getElem?_eq_some_iff.mp hf).1, hf]
    rfl
  have hnew : ∀ {call : ℕ} {f : FlushCall}, (s.flushes ++ [FlushCall.trying s.accepted])[call]? = some f →
      s.flushes[call]? = some f ∨ f = .trying s.accepted := by
    intro call f hf
    by_cases hlt : call < s.flushes.length
    · rw [List.getElem?_append_left hlt] at hf
      exact .inl hf
    · rw [List.getElem?_append_right (Nat.le_of_not_lt hlt), List.getElem?_singleton] at hf
      split at hf
      · exact .inr (Option.some.inj hf).symm
      · cases hf
  refine { h with before := ?_, marker := ?_, acking := ?_, acks := ?_, returned := ?_ }
  · intro call before hbefore
    obtain ⟨f, hf, rfl⟩ := Option.map_eq_some_iff.mp hbefore
    rcases hnew hf with hf | rfl
    · exact h.before call f.before (by rw [lookup, hf]; rfl)
    · exact List.prefix_refl _
  · intro ahead call behind hsplit
    obtain ⟨before, hbefore, hfront⟩ := h.marker ahead call behind hsplit
    exact ⟨before, hold call before hbefore, hfront⟩
  · intro call hcall
    obtain ⟨before, hbefore, hflushed⟩ := h.acking call hcall
    exact ⟨before, hold call before hbefore, hflushed⟩
  · intro call hcall
    obtain ⟨before, hbefore, hflushed⟩ := h.acks call hcall
    exact ⟨before, hold call before hbefore, hflushed⟩
  · intro call before hcall
    rcases hnew hcall with hf | hf
    · exact h.returned call before hf
    · cases hf

/-- A call goes on; where it returns that the flush is done, the answer was there. -/
theorem Inv.setFlush (h : Inv s) {call : ℕ} {f g : FlushCall} (hf : s.flushes[call]? = some f)
    (hg : g.before = f.before) (hok : ∀ before, g = .returned true before → Flushed s.inner before) :
    Inv (s.setFlush call g) := by
  have hlookup := lookup_setFlush hf hg
  refine { h with before := ?_, marker := ?_, acking := ?_, acks := ?_, returned := ?_ }
  · intro c before hbefore
    exact h.before c before ((hlookup c).symm.trans hbefore)
  · intro ahead c behind hsplit
    obtain ⟨before, hbefore, hfront⟩ := h.marker ahead c behind hsplit
    exact ⟨before, (hlookup c).trans hbefore, hfront⟩
  · intro c hc
    obtain ⟨before, hbefore, hflushed⟩ := h.acking c hc
    exact ⟨before, (hlookup c).trans hbefore, hflushed⟩
  · intro c hc
    obtain ⟨before, hbefore, hflushed⟩ := h.acks c hc
    exact ⟨before, (hlookup c).trans hbefore, hflushed⟩
  · intro c before hc
    by_cases hcall : c = call
    · have hset : (s.flushes.set call g)[call]? = some g := List.getElem?_set_self (List.getElem?_eq_some_iff.mp hf).1
      rw [hcall] at hc
      exact hok before (Option.some.inj (hset.symm.trans hc))
    · have hset : (s.flushes.set call g)[c]? = s.flushes[c]? := List.getElem?_set_ne (Ne.symm hcall)
      exact h.returned c before (hset.symm.trans hc)

theorem Inv.failFlush (h : Inv s) {call : ℕ} {f : FlushCall} (hf : s.flushes[call]? = some f) :
    Inv (s.failFlush call f.before) :=
  { h.setFlush (g := .returned false f.before) hf rfl nofun with }

theorem Inv.flushTry (h : Inv s) (call : ℕ) : Inv (s.flushTry call) := by
  unfold LogQueue.flushTry
  split
  · rename_i before hf
    by_cases hended : s.isEnded = true
    · rw [if_pos hended]
      exact h.failFlush hf
    · rw [if_neg hended]
      by_cases hroom : s.hasRoom = true
      · rw [if_pos hroom]
        have hpush := h.push hroom (.flush call) fun c hc => by
          obtain rfl := LogMsg.flush.inj hc
          exact ⟨before, by rw [lookup, hf]; rfl⟩
        have hframe := push_frame s (.flush call)
        have heq : { s.push (.flush call) with accepted := s.accepted ++ linesOf [.flush call] } =
            s.push (.flush call) := by
          unfold LogQueue.push
          split <;> simp [linesOf]
        rw [heq] at hpush
        exact hpush.setFlush (f := .trying before) (hframe.2.1 ▸ hf) rfl nofun
      · rw [if_neg hroom]
        exact h
  · exact h

theorem Inv.flushReturn (h : Inv s) (call : ℕ) : Inv (s.flushReturn call) := by
  unfold LogQueue.flushReturn
  split
  · rename_i before hf
    by_cases hack : call ∈ s.acks
    · rw [if_pos hack]
      refine h.setFlush hf rfl fun before' hok => ?_
      obtain ⟨b, hb, hflushed⟩ := h.acks call hack
      rw [lookup, hf] at hb
      injection hok with _ hbefore
      rw [← hbefore, show before = b from Option.some.inj hb]
      exact hflushed
    · rw [if_neg hack]
      exact h
  · exact h

theorem Inv.flushTimeout (h : Inv s) (call : ℕ) : Inv (s.flushTimeout call) := by
  unfold LogQueue.flushTimeout
  split
  · exact h.failFlush ‹_›
  · exact h.failFlush ‹_›
  · exact h

theorem Inv.recv (h : Inv s) : Inv s.recv := by
  -- Taken out or not, the same messages are pending.
  have hpending : ∀ consumer, (∀ msg, s.consumer ≠ .holding msg) → (∀ msg, consumer ≠ Consumer.holding msg) →
      pending { s with consumer := consumer } = s.pending := by
    intro consumer hold hnew
    unfold pending
    rw [held_eq_nil hnew, held_eq_nil hold]
  have hidle : (∀ msg, s.consumer ≠ .holding msg) → ∀ consumer, (∀ msg, consumer ≠ Consumer.holding msg) →
      (∀ call, consumer ≠ Consumer.acking call) → Inv { s with consumer := consumer } := by
    intro hold consumer hnew hack
    exact { h with
      fifo := (hpending consumer hold hnew).symm ▸ h.fifo
      marker := (hpending consumer hold hnew).symm ▸ h.marker
      acking := fun call hcall => absurd hcall (hack call) }
  have htake : (∀ msg, s.consumer ≠ .holding msg) → ∀ msg queue, s.queue = msg :: queue →
      Inv { s with queue := queue, consumer := .holding msg } := by
    intro hold msg queue hqueue
    have hsame : pending { s with queue := queue, consumer := .holding msg } = s.pending := by
      unfold pending
      rw [held_eq_nil hold, hqueue]
      rfl
    refine { h with bound := ?_, fifo := hsame.symm ▸ h.fifo, marker := hsame.symm ▸ h.marker, acking := nofun }
    have := h.bound
    rw [hqueue, List.length_cons] at this
    exact Nat.le_of_succ_le this
  unfold LogQueue.recv
  split
  · rename_i hconsumer
    have hold : ∀ msg, s.consumer ≠ .holding msg := fun msg hmsg => nomatch hconsumer.symm.trans hmsg
    split
    · exact htake hold _ _ ‹_›
    · exact hidle hold _ (by split <;> exact nofun) (by split <;> exact nofun)
  · rename_i hconsumer
    have hold : ∀ msg, s.consumer ≠ .holding msg := fun msg hmsg => nomatch hconsumer.symm.trans hmsg
    split
    · exact htake hold _ _ ‹_›
    · exact hidle hold _ (by split <;> exact nofun) (by split <;> exact nofun)
  · exact h

/-- The consumer calls the log file with what it has taken from the queue, if that is a line. -/
theorem Inv.wrote (h : Inv s) {taken : List LogMsg} {calls : List InnerCall} {consumer : Consumer}
    (hpending : s.pending = taken ++ s.queue) (hwrites : writes calls = linesOf taken)
    (hheld : held consumer = [])
    (hacking : ∀ call, consumer = .acking call →
      ∃ before, s.lookup call = some before ∧ Flushed (s.inner ++ calls) before) :
    Inv { s with consumer := consumer, inner := s.inner ++ calls } := by
  have hrest : ({ s with consumer := consumer, inner := s.inner ++ calls } : LogQueue).pending = s.queue := by
    show held consumer ++ s.queue = s.queue
    rw [hheld, List.nil_append]
  refine { h with
    fifo := ?_, marker := fun ahead call behind hsplit => ?_, acking := hacking, acks := fun call hcall => ?_,
    returned := fun call before hcall => (h.returned call before hcall).append calls }
  · rw [hrest]
    show s.accepted = writes (s.inner ++ calls) ++ linesOf s.queue
    rw [h.fifo, hpending, linesOf_append, writes_append, hwrites, List.append_assoc]
  · rw [hrest] at hsplit
    have hmarker : s.pending = taken ++ ahead ++ .flush call :: behind := by
      rw [hpending, hsplit, List.append_assoc]
    obtain ⟨before, hbefore, hfront⟩ := h.marker _ call behind hmarker
    refine ⟨before, hbefore, ?_⟩
    show before <+: writes (s.inner ++ calls) ++ linesOf ahead
    rw [writes_append, hwrites, List.append_assoc, ← linesOf_append]
    exact hfront
  · obtain ⟨before, hbefore, hflushed⟩ := h.acks call hcall
    exact ⟨before, hbefore, hflushed.append calls⟩

theorem Inv.handle (h : Inv s) : Inv s.handle := by
  unfold LogQueue.handle
  split
  · rename_i bytes hconsumer
    have hpending : s.pending = [.data bytes] ++ s.queue := by rw [pending, hconsumer]; rfl
    exact h.wrote hpending rfl rfl nofun
  · rename_i call hconsumer
    have hpending : s.pending = [.flush call] ++ s.queue := by rw [pending, hconsumer]; rfl
    refine h.wrote hpending rfl rfl fun c hc => ?_
    -- The marker was the next message: all lines before it are written.
    obtain rfl := Consumer.acking.inj hc
    obtain ⟨before, hbefore, hfront⟩ := h.marker [] call s.queue hpending
    refine ⟨before, hbefore, s.inner, [], rfl, ?_⟩
    rw [show linesOf [] = [] from rfl, List.append_nil] at hfront
    exact hfront
  · rename_i call hconsumer
    have hpending : s.pending = s.queue := by rw [pending, hconsumer]; rfl
    refine { h with fifo := ?_, marker := ?_, acking := nofun, acks := fun c hc => ?_ }
    · show s.accepted = writes s.inner ++ linesOf s.queue
      rw [h.fifo, hpending]
    · exact hpending ▸ h.marker
    · rcases List.mem_cons.mp hc with rfl | hc
      · exact h.acking c hconsumer
      · exact h.acks c hc
  · rename_i hconsumer
    have hpending : s.pending = [] ++ s.queue := by rw [pending, hconsumer]; rfl
    exact h.wrote hpending rfl rfl nofun
  · exact h

/-- **Every step of every thread keeps the invariant.** -/
theorem Inv.step (h : Inv s) (now : ℤ) (a : LogAction) : Inv (s.step now a) := by
  cases a with
  | send bytes =>
    show Inv (if s.connected then s.send bytes else s)
    split
    · exact h.send bytes
    · exact h
  | count => exact h.count
  | flushCall =>
    show Inv (if s.connected then { s with flushes := s.flushes ++ [.trying s.accepted] } else s)
    split
    · exact h.flushCall
    · exact h
  | flushTry call =>
    show Inv (if s.connected then s.flushTry call else s)
    split
    · exact h.flushTry call
    · exact h
  | flushReturn call => exact h.flushReturn call
  | flushTimeout call => exact h.flushTimeout call
  | disconnect => exact { h with }
  | recv => exact h.recv
  | handle => exact h.handle

end

/-! ### What the actions submit -/

/-- The lines that the threads submit, in the order in which they do; nobody can once the last sender is dropped. -/
def submitted (acts : List (ℤ × LogAction)) : List Line :=
  ((acts.map (·.2)).takeWhile (!·.isDisconnect)).filterMap LogAction.line

/-- What a run owes to its actions: the lines accepted are submitted lines in order, each other one was
counted or is about to be, and a flush call keeps what it found accepted. -/
structure Submits (acts : List (ℤ × LogAction)) (s : LogQueue) : Prop where
  connected : s.connected = !(acts.map (·.2)).any LogAction.isDisconnect
  sublist : s.accepted.Sublist (submitted acts)
  counted : (submitted acts).length = s.accepted.length + s.dropped + s.refused.length

theorem submitted_append (acts : List (ℤ × LogAction)) (e : ℤ × LogAction) : submitted (acts ++ [e]) =
    submitted acts ++ if (acts.map (·.2)).any LogAction.isDisconnect then [] else e.2.line.toList := by
  unfold submitted
  rw [List.map_append, List.takeWhile_append]
  by_cases h : (acts.map (·.2)).any LogAction.isDisconnect = true
  · have hne : ((acts.map (·.2)).takeWhile (!·.isDisconnect)).length ≠ (acts.map (·.2)).length := by
      intro hlen
      obtain ⟨a, ha, hdis⟩ := List.any_eq_true.mp h
      have := List.takeWhile_eq_self_iff.mp ((List.takeWhile_prefix _).eq_of_length hlen) a ha
      rw [hdis] at this
      cases this
    rw [if_neg hne, if_pos h, List.append_nil]
  · have hall : (acts.map (·.2)).takeWhile (!·.isDisconnect) = acts.map (·.2) := by
      rw [List.takeWhile_eq_self_iff]
      intro a ha
      rw [Bool.not_eq_true']
      by_contra hdis
      exact h (List.any_eq_true.mpr ⟨a, ha, Bool.not_eq_false _ ▸ hdis⟩)
    rw [if_pos (by rw [hall]), if_neg h, hall, List.filterMap_append]
    obtain ⟨t, a⟩ := e
    cases a <;> rfl

/-- A step that submits nothing. -/
theorem Submits.silent {acts : List (ℤ × LogAction)} {s s' : LogQueue} (h : Submits acts s) {e : ℤ × LogAction}
    (hline : e.2.line = none) (hconnected : s'.connected = (s.connected && !e.2.isDisconnect))
    (haccepted : s'.accepted = s.accepted) (hcounted : s'.dropped + s'.refused.length = s.dropped + s.refused.length) :
    Submits (acts ++ [e]) s' := by
  have hsame : submitted (acts ++ [e]) = submitted acts := by
    rw [submitted_append, hline]
    split <;> exact List.append_nil _
  refine ⟨?_, ?_, ?_⟩
  · rw [hconnected, h.connected, List.map_append, List.any_append]
    simp
  · rw [hsame, haccepted]
    exact h.sublist
  · rw [hsame, haccepted, h.counted]
    omega

/-- Senders, lines and counters are as they were. -/
def SameAccount (s s' : LogQueue) : Prop :=
  s'.connected = s.connected ∧ s'.accepted = s.accepted ∧ s'.dropped = s.dropped ∧ s'.refused = s.refused

theorem Submits.same {acts : List (ℤ × LogAction)} {s s' : LogQueue} (h : Submits acts s) {e : ℤ × LogAction}
    (hline : e.2.line = none) (hdisconnect : e.2.isDisconnect = false) (hsame : SameAccount s s') :
    Submits (acts ++ [e]) s' := by
  obtain ⟨hconnected, haccepted, hdropped, hrefused⟩ := hsame
  exact h.silent hline (by rw [hconnected, hdisconnect, Bool.not_false, Bool.and_true]) haccepted
    (by rw [hdropped, hrefused])

theorem sameAccount_flushTry (s : LogQueue) (call : ℕ) : SameAccount s (s.flushTry call) := by
  unfold flushTry
  split
  · split_ifs
    · exact ⟨rfl, rfl, rfl, rfl⟩
    · obtain ⟨-, -, -, haccepted, hdropped, hrefused, hconnected, -⟩ := push_frame s (.flush call)
      exact ⟨hconnected, haccepted, hdropped, hrefused⟩
    · exact ⟨rfl, rfl, rfl, rfl⟩
  · exact ⟨rfl, rfl, rfl, rfl⟩

theorem sameAccount_flushReturn (s : LogQueue) (call : ℕ) : SameAccount s (s.flushReturn call) := by
  unfold flushReturn
  split
  · split_ifs <;> exact ⟨rfl, rfl, rfl, rfl⟩
  · exact ⟨rfl, rfl, rfl, rfl⟩

theorem sameAccount_flushTimeout (s : LogQueue) (call : ℕ) : SameAccount s (s.flushTimeout call) := by
  unfold flushTimeout
  split <;> exact ⟨rfl, rfl, rfl, rfl⟩

theorem sameAccount_recv (s : LogQueue) : SameAccount s s.recv := by
  unfold recv
  split
  · split <;> exact ⟨rfl, rfl, rfl, rfl⟩
  · split <;> exact ⟨rfl, rfl, rfl, rfl⟩
  · exact ⟨rfl, rfl, rfl, rfl⟩

theorem sameAccount_handle (s : LogQueue) : SameAccount s s.handle := by
  unfold handle
  split <;> exact ⟨rfl, rfl, rfl, rfl⟩

/-- A line that is sent is accepted or refused, as long as somebody can send it. -/
theorem Submits.send {acts : List (ℤ × LogAction)} {s : LogQueue} (h : Submits acts s) (t : ℤ) (bytes : Line) :
    Submits (acts ++ [(t, .send bytes)]) (if s.connected then s.send bytes else s) := by
  have hconnected : (acts.map (·.2)).any LogAction.isDisconnect = !s.connected := by rw [h.connected, Bool.not_not]
  have hsent : submitted (acts ++ [(t, .send bytes)]) = submitted acts ++ if s.connected then [bytes] else [] := by
    rw [submitted_append, hconnected]
    cases s.connected <;> rfl
  have hdisconnect : (!((acts ++ [(t, LogAction.send bytes)]).map (·.2)).any LogAction.isDisconnect) = s.connected := by
    rw [List.map_append, List.any_append, hconnected]
    simp [LogAction.isDisconnect]
  by_cases hopen : s.connected = true
  · rw [if_pos hopen] at hsent ⊢
    unfold LogQueue.send
    by_cases hroom : (!s.isEnded && s.hasRoom) = true
    · rw [if_pos hroom]
      obtain ⟨-, -, -, -, hdropped, hrefused, hconn, -⟩ := push_frame s (.data bytes)
      refine ⟨hconn.trans hdisconnect.symm, hsent ▸ h.sublist.append (List.Sublist.refl _), ?_⟩
      show _ = (s.accepted ++ [bytes]).length + (s.push (.data bytes)).dropped + (s.push (.data bytes)).refused.length
      rw [hsent, hdropped, hrefused, List.length_append, List.length_append, h.counted]
      omega
    · rw [if_neg hroom]
      refine ⟨hdisconnect.symm, hsent ▸ h.sublist.trans (List.sublist_append_left _ _), ?_⟩
      show _ = s.accepted.length + s.dropped + (s.refused ++ [bytes]).length
      rw [hsent, List.length_append, List.length_append, h.counted]
      rfl
  · rw [if_neg hopen, List.append_nil] at hsent
    rw [if_neg hopen]
    exact ⟨hdisconnect.symm, hsent ▸ h.sublist, hsent ▸ h.counted⟩

/-- **Each action adds to the account what it submits.** -/
theorem Submits.step {acts : List (ℤ × LogAction)} {s : LogQueue} (h : Submits acts s) (e : ℤ × LogAction) :
    Submits (acts ++ [e]) (s.step e.1 e.2) := by
  obtain ⟨t, a⟩ := e
  cases a with
  | send bytes => exact h.send t bytes
  | count =>
    show Submits _ s.count
    unfold LogQueue.count
    cases hrefused : s.refused with
    | nil => exact h.silent rfl (Bool.and_true _).symm rfl (by rw [hrefused])
    | cons bytes refused =>
      refine h.silent rfl (Bool.and_true _).symm rfl ?_
      show s.dropped + 1 + refused.length = _
      rw [hrefused, List.length_cons]
      omega
  | flushCall =>
    show Submits _ (if s.connected then { s with flushes := s.flushes ++ [.trying s.accepted] } else s)
    split_ifs <;> exact h.same rfl rfl ⟨rfl, rfl, rfl, rfl⟩
  | flushTry call =>
    show Submits _ (if s.connected then s.flushTry call else s)
    split_ifs
    · exact h.same rfl rfl (sameAccount_flushTry s call)
    · exact h.same rfl rfl ⟨rfl, rfl, rfl, rfl⟩
  | flushReturn call => exact h.same rfl rfl (sameAccount_flushReturn s call)
  | flushTimeout call => exact h.same rfl rfl (sameAccount_flushTimeout s call)
  | disconnect => exact h.silent rfl (Bool.and_false _).symm rfl rfl
  | recv => exact h.same rfl rfl (sameAccount_recv s)
  | handle => exact h.same rfl rfl (sameAccount_handle s)

theorem submits_start (capacity : ℕ) : Submits [] { capacity := capacity } := ⟨rfl, List.Sublist.refl _, rfl⟩

/-! ### What a flush call has found accepted -/

/-- **A flush call keeps what it found accepted**, in whatever it does next. -/
theorem lookup_step {s : LogQueue} {call : ℕ} {before : List Line} (h : s.lookup call = some before) (now : ℤ)
    (a : LogAction) : (s.step now a).lookup call = some before := by
  have hset {s : LogQueue} (h : s.lookup call = some before) {c : ℕ} {f g : FlushCall} (hf : s.flushes[c]? = some f)
      (hg : g.before = f.before) : (s.setFlush c g).lookup call = some before :=
    (lookup_setFlush hf hg call).trans h
  have hpush (msg : LogMsg) : (s.push msg).lookup call = some before := by
    rw [lookup, (push_frame s msg).2.1]
    exact h
  cases a with
  | send bytes =>
    show lookup (if s.connected then s.send bytes else s) call = _
    unfold LogQueue.send
    split_ifs
    · exact hpush (.data bytes)
    · exact h
    · exact h
  | count =>
    show s.count.lookup call = _
    unfold LogQueue.count
    split <;> exact h
  | flushCall =>
    show lookup (if s.connected then { s with flushes := s.flushes ++ [.trying s.accepted] } else s) call = _
    split_ifs
    · unfold lookup at h ⊢
      obtain ⟨f, hf, hbefore⟩ := Option.map_eq_some_iff.mp h
      show ((s.flushes ++ _)[call]?).map _ = _
      rw [List.getElem?_append_left (List.getElem?_eq_some_iff.mp hf).1, hf, Option.map_some, hbefore]
    · exact h
  | flushTry c =>
    show lookup (if s.connected then s.flushTry c else s) call = _
    by_cases hopen : s.connected = true
    · rw [if_pos hopen]
      unfold LogQueue.flushTry
      split
      · rename_i found hf
        split_ifs
        · exact hset h (g := .returned false found) hf rfl
        · exact hset (hpush (.flush c)) (f := .trying found) ((push_frame s (.flush c)).2.1 ▸ hf) rfl
        · exact h
      · exact h
    · rw [if_neg hopen]
      exact h
  | flushReturn c =>
    show (s.flushReturn c).lookup call = _
    unfold LogQueue.flushReturn
    split
    · rename_i found hf
      split_ifs
      · exact hset h (g := .returned true found) hf rfl
      · exact h
    · exact h
  | flushTimeout c =>
    show (s.flushTimeout c).lookup call = _
    unfold LogQueue.flushTimeout
    split
    · rename_i found hf
      exact hset h (g := .returned false found) hf rfl
    · rename_i found hf
      exact hset h (g := .returned false found) hf rfl
    · exact h
  | disconnect => exact h
  | recv =>
    show s.recv.lookup call = _
    unfold LogQueue.recv
    split
    · split <;> exact h
    · split <;> exact h
    · exact h
  | handle =>
    show s.handle.lookup call = _
    unfold LogQueue.handle
    split <;> exact h

theorem lookup_run {call : ℕ} {before : List Line} : ∀ (acts : List (ℤ × LogAction)) {s : LogQueue},
    s.lookup call = some before → (run step s acts).lookup call = some before
  | [], _, h => h
  | e :: acts, _, h => lookup_run acts (lookup_step h e.1 e.2)

/-! ### Every line is accounted for -/

/-- Call `call` of `flush_blocking` has said that it is done. -/
def FlushDone (s : LogQueue) (call : ℕ) : Prop := ∃ before, s.flushes[call]? = some (.returned true before)

/-- All lines that the run's actions submit: those that were written or wait to be are submitted lines in
their order; each other one was counted as dropped or is about to be by its thread, in one step more; and
where a call of `flush_blocking` that the run makes has said that it is done, the file was flushed behind all
lines that had been accepted, written or waiting, when the call was made. -/
structure Accounted (capacity : ℕ) (acts : List (ℤ × LogAction)) (s : LogQueue) : Prop where
  inOrder : (writes s.inner ++ linesOf s.pending).Sublist (submitted acts)
  total : (writes s.inner).length + (linesOf s.pending).length + s.dropped + s.refused.length = (submitted acts).length
  counted : ∀ now, (run step s (List.replicate s.refused.length (now, .count))).dropped = s.dropped + s.refused.length
  flushed : ∀ acts₁ now acts₂, acts = acts₁ ++ (now, .flushCall) :: acts₂ → ∀ s₁, s₁ = run step { capacity := capacity } acts₁ →
    s₁.connected = true → FlushDone s s₁.flushes.length → Flushed s.inner (writes s₁.inner ++ linesOf s₁.pending)

/-- The threads whose lines were refused count them. -/
theorem dropped_count_run (now : ℤ) : ∀ (n : ℕ) (s : LogQueue), s.refused.length = n →
    (run step s (List.replicate n (now, .count))).dropped = s.dropped + n
  | 0, _, _ => rfl
  | n + 1, s, h => by
    obtain ⟨bytes, refused, hrefused⟩ := List.exists_cons_of_length_eq_add_one h
    have hcount : s.step now .count = { s with refused := refused, dropped := s.dropped + 1 } := by
      show s.count = _
      unfold LogQueue.count
      rw [hrefused]
    rw [List.replicate_succ, run_cons, hcount, dropped_count_run now n _ (by simpa [hrefused] using h)]
    show s.dropped + 1 + n = _
    omega

theorem inv_run (capacity : ℕ) (acts : List (ℤ × LogAction)) : Inv (run step { capacity := capacity } acts) :=
  run_invariant_of_mem step (P := fun _ => True) (fun _ now a h _ => h.step now a) acts _ (inv_start capacity)
    fun _ _ => trivial

theorem submits_run (capacity : ℕ) (acts : List (ℤ × LogAction)) :
    Submits acts (run step { capacity := capacity } acts) := by
  induction acts using List.reverseRecOn with
  | nil => exact submits_start capacity
  | append_singleton acts e ih =>
    rw [run_append]
    exact ih.step e

/-- **Every line that a run submits is accounted for**, in every interleaving and whatever the capacity. -/
theorem accounted_throughout (capacity : ℕ) (acts : List (ℤ × LogAction)) :
    Accounted capacity acts (run step { capacity := capacity } acts) := by
  have hinv := inv_run capacity acts
  have hsubmits := submits_run capacity acts
  refine ⟨?_, ?_, fun now => dropped_count_run now _ _ rfl, ?_⟩
  · rw [← hinv.fifo]
    exact hsubmits.sublist
  · rw [hsubmits.counted, hinv.fifo, List.length_append]
  · rintro acts₁ now acts₂ rfl s₁ hs₁ hopen ⟨before, hdone⟩
    -- the call is the next in the table, and keeps what was accepted
    have hmade : (s₁.step now .flushCall).lookup s₁.flushes.length = some s₁.accepted := by
      show lookup (if s₁.connected then { s₁ with flushes := s₁.flushes ++ [.trying s₁.accepted] } else s₁) _ = _
      rw [if_pos hopen, lookup, List.getElem?_concat_length]
      rfl
    have hkept := lookup_run acts₂ hmade
    rw [run_append, ← hs₁, run_cons] at hdone hinv ⊢
    rw [lookup, hdone] at hkept
    rw [← (hs₁ ▸ inv_run capacity acts₁ : Inv s₁).fifo, ← Option.some.inj hkept]
    exact hinv.returned _ before hdone

end LogQueue

end Log
end SmartDns
