/-
# Responses and their lifetimes

`DnsResponse` of `dns.rs`: a message with the moment its records run out, the
upstream group it came from and the mark that its AAAA answers were withheld on
purpose. An `Instant` is an integer and a `Duration` a natural number of
nanoseconds; `ceilSecs` is the TTL that is served for a span that is left, rounded
up to whole seconds.

Key definitions: `ceilSecs`, `DnsResponse`, `DnsResponse.setNewTtl`.
Key theorems: `ceilSecs_le_iff`, `DnsResponse.ttl_of_mem_setNewTtl`.
-/
import Mathlib.Algebra.Group.Nat.Defs
import Mathlib.Algebra.Order.Group.Int
import SmartDns.Dns.Message

namespace SmartDns
namespace Dns

def fromSecs (secs : ℕ) : ℕ := secs * 1000000000

def asSecs (d : ℕ) : ℕ := d / 1000000000

def subsecNanos (d : ℕ) : ℕ := d % 1000000000

/-- `saturating_duration_since`. -/
def durationSince (later earlier : ℤ) : ℕ := (later - earlier).toNat

/-- `duration.as_secs() as u32`, one more if there is a rest of a second. -/
def ceilSecs (d : ℕ) : ℕ :=
  if 0 < subsecNanos d then asSecs d % 2 ^ 32 + 1 else asSecs d % 2 ^ 32

theorem ceilSecs_le_iff {d : ℕ} {n : ℕ} (hd : asSecs d < 2 ^ 32) :
    ceilSecs d ≤ n ↔ d ≤ fromSecs n := by
  unfold ceilSecs subsecNanos
  rw [Nat.mod_eq_of_lt hd]
  unfold asSecs fromSecs
  split <;> omega

theorem ceilSecs_mono {d d' : ℕ} (h : d ≤ d') (hd' : asSecs d' < 2 ^ 32) :
    ceilSecs d ≤ ceilSecs d' := by
  have hd : asSecs d < 2 ^ 32 := lt_of_le_of_lt (Nat.div_le_div_right h) hd'
  rw [ceilSecs_le_iff hd]
  exact h.trans ((ceilSecs_le_iff hd').mp le_rfl)

/-- The default bound of a TTL, one day in seconds. -/
def MAX_TTL : ℕ := 86400

structure DnsResponse where
  message : Message
  validUntil : ℤ
  nameServerGroup : Option String := none
  aaaaSuppressed : Bool := false

namespace DnsResponse

def query (r : DnsResponse) : Query := r.message.queries.head?.getD default

def withValidUntil (r : DnsResponse) (validUntil : ℤ) : DnsResponse := { r with validUntil }

def withNameServerGroup (r : DnsResponse) (group : String) : DnsResponse :=
  { r with nameServerGroup := some group }

/-- `From<Message>`. -/
def ofMessage (now : ℤ) (message : Message) : DnsResponse where
  message
  validUntil := now + fromSecs (((message.answers.map (·.ttl)).min?).getD MAX_TTL)

def setNewTtl (r : DnsResponse) (ttl : ℕ) : DnsResponse :=
  { r with message :=
    { r.message with
      answers := r.message.answers.map (·.setTtl ttl)
      authorities := r.message.authorities.map (·.setTtl ttl)
      additionals := r.message.additionals.map (·.setTtl ttl) } }

theorem ttl_of_mem_setNewTtl {r : DnsResponse} {ttl : ℕ} {x : Record}
    (h : x ∈ (r.setNewTtl ttl).message.records) : x.ttl = ttl := by
  simp only [setNewTtl, Message.records, List.mem_append, List.mem_map] at h
  rcases h with (⟨_, _, rfl⟩ | ⟨_, _, rfl⟩) | ⟨_, _, rfl⟩ <;> rfl

/-- A later rewriting of the TTLs replaces an earlier one. -/
theorem setNewTtl_setNewTtl (r : DnsResponse) (s t : ℕ) : (r.setNewTtl s).setNewTtl t = r.setNewTtl t := by
  simp [setNewTtl, Function.comp_def, Record.setTtl]

@[simp] theorem setNewTtl_query (r : DnsResponse) (ttl : ℕ) : (r.setNewTtl ttl).query = r.query := rfl

end DnsResponse
end Dns
end SmartDns
