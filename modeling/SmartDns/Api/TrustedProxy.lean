/-
# The client behind trusted proxies

`resolve_client_ip` (`trusted_proxy.rs`): the address a request is grouped by. A peer that
is no trusted proxy is that address. Behind a trusted proxy the hops of `X-Forwarded-For`
are looked at from the right, and the first one that is no trusted proxy is it. An item is
an address or an address with a port, as the standard library reads them; any other item
is passed over.

Addresses are compared and given out in their IPv4 form where they have one, the peer's own
included. What a client puts in front of the header a proxy completed changes nothing
(`resolveClientIp_append`).

Key definitions: `parseHop`, `resolveClientIp`, `hops`.
Key theorems: `resolveClientIp_of_rightmost`, `resolveClientIp_spec`.
-/
import SmartDns.Api.AddressFile

namespace SmartDns
namespace Api

open Dns
open Rule (TextParser char numeral isHexDigit)
open Lib.Parse hiding takeWhile

/-! ### The standard library's readers -/

/-- `Parser::read_number`. The digits are read to their end before they are counted. -/
def readNumber (radix : ℕ) (isDigit : Char → Bool) (maxDigits : Option ℕ) (allowZeroPrefix : Bool) (bound : ℕ) :
    TextParser ℕ :=
  mapRes (takeWhile1 isDigit) fun digits =>
    if maxDigits.any (· < digits.length) then none
    else if !allowZeroPrefix && digits.head? = some '0' && 1 < digits.length then none
    else if numeral radix digits < bound then some (numeral radix digits)
    else none

/-- `Parser::read_separator`. -/
def readSeparator {A : Type} (sep : Char) (index : ℕ) (inner : TextParser A) : TextParser A :=
  if 0 < index then char sep >>= fun _ => inner else inner

/-- `Parser::read_ipv4_addr`. -/
def readIpv4Addr : TextParser (BitVec 32) := do
  let group (i : ℕ) := readSeparator '.' i (readNumber 10 Char.isDigit (some 3) false 256)
  let a ← group 0
  let b ← group 1
  let c ← group 2
  let d ← group 3
  pure (BitVec.ofNat 32 (((a * 256 + b) * 256 + c) * 256 + d))

/-- `read_groups` from group `i` of `limit` on: the groups, and whether an IPv4 address is their end. -/
def readGroups (limit : ℕ) : ℕ → ℕ → TextParser (List ℕ × Bool)
  | 0, _ => pure ([], false)
  | left + 1, i => do
    match ← opt (if i + 1 < limit then readSeparator ':' i readIpv4Addr else failure) with
    | some v4 => pure ([v4.toNat / 65536, v4.toNat % 65536], true)
    | none =>
      match ← opt (readSeparator ':' i (readNumber 16 isHexDigit (some 4) true 65536)) with
      | some group => do
        let (groups, v4) ← readGroups limit left (i + 1)
        pure (group :: groups, v4)
      | none => pure ([], false)

def ofGroups (groups : List ℕ) : BitVec 128 := BitVec.ofNat 128 (groups.foldl (fun n g => n * 65536 + g) 0)

/-- `Parser::read_ipv6_addr`. `::` stands for one group of zeros at least. -/
def readIpv6Addr : TextParser (BitVec 128) := do
  let (head, headV4) ← readGroups 8 8 0
  if head.length = 8 then pure (ofGroups head)
  else if headV4 then failure
  else
    char ':'
    char ':'
    let (tail, _) ← readGroups (7 - head.length) (7 - head.length) 0
    pure (ofGroups (head ++ List.replicate (8 - head.length - tail.length) 0 ++ tail))

/-- `Parser::read_ip_addr`. -/
def readIpAddr : TextParser IpAddr := (IpAddr.v4 <$> readIpv4Addr) <|> (IpAddr.v6 <$> readIpv6Addr)

/-- `Parser::read_port`. -/
def readPort : TextParser ℕ := do
  char ':'
  readNumber 10 Char.isDigit none true 65536

/-- `Parser::read_scope_id`. -/
def readScopeId : TextParser ℕ := do
  char '%'
  readNumber 10 Char.isDigit none true (2 ^ 32)

/-- `Parser::read_socket_addr`, without the port and the scope. -/
def readSocketAddr : TextParser IpAddr :=
  (do
    let ip ← readIpv4Addr
    let _ ← readPort
    pure (IpAddr.v4 ip)) <|>
  (do
    char '['
    let ip ← readIpv6Addr
    let _ ← opt readScopeId
    char ']'
    let _ ← readPort
    pure (IpAddr.v6 ip))

/-- `Parser::parse_with`: nothing may be left over. -/
def parseWith {A : Type} (p : TextParser A) (s : List Char) : Option A :=
  match p s with
  | some (a, []) => some a
  | _ => none

/-! ### Resolving -/

/-- The item as an address, or as an address with a port. -/
def parseHop (item : List Char) : Option IpAddr := (parseWith readIpAddr item).or (parseWith readSocketAddr item)

inductive ClientIpSource
  | peer
  | forwarded
deriving DecidableEq

abbrev TrustedProxies : Type := List IpNet

def TrustedProxies.contains (trusted : TrustedProxies) (ip : IpAddr) : Bool := trusted.any (·.contains ip)

/-- The loop over the items, the last one first. -/
def firstUntrusted (trusted : TrustedProxies) : List (List Char) → Option IpAddr
  | [] => none
  | item :: items =>
    match parseHop (trim item) with
    | none => firstUntrusted trusted items
    | some candidate =>
      if trusted.contains candidate.toCanonical then firstUntrusted trusted items
      else some candidate.toCanonical

def resolveClientIp (peer : IpAddr) (forwardedFor : Option (List Char)) (trusted : TrustedProxies) :
    IpAddr × ClientIpSource :=
  if !trusted.contains peer.toCanonical then (peer.toCanonical, .peer)
  else
    match forwardedFor with
    | none => (peer.toCanonical, .peer)
    | some raw =>
      match firstUntrusted trusted (raw.splitOn ',').reverse with
      | some candidate => (candidate, .forwarded)
      | none => (peer.toCanonical, .peer)

/-! ### Hops -/

/-- The addresses of a header from left to right, in their IPv4 form where they have one. -/
def hops (raw : List Char) : List IpAddr :=
  (raw.splitOn ',').filterMap fun item => (parseHop (trim item)).map IpAddr.toCanonical

variable {trusted : TrustedProxies} {peer : IpAddr}

theorem hops_append (text raw : List Char) : hops (text ++ ',' :: raw) = hops text ++ hops raw := by
  rw [hops, List.splitOn_append_cons_self, List.filterMap_append, ← hops, ← hops]

/-- The loop finds the first address that is not trusted. -/
theorem firstUntrusted_eq : ∀ items : List (List Char), firstUntrusted trusted items =
    (items.filterMap fun item => (parseHop (trim item)).map IpAddr.toCanonical).find? fun hop => !trusted.contains hop
  | [] => rfl
  | item :: items => by
    have ih := firstUntrusted_eq items
    unfold firstUntrusted
    cases hitem : parseHop (trim item) with
    | none =>
      rw [List.filterMap_cons, hitem]
      exact ih
    | some candidate =>
      rw [List.filterMap_cons, hitem, Option.map_some]
      by_cases hc : trusted.contains candidate.toCanonical = true
      · simp only [ih, List.find?_cons, hc, ↓reduceIte, Bool.not_true]
      · rw [Bool.not_eq_true] at hc
        simp only [hc, Bool.false_eq_true, ↓reduceIte, List.find?_cons, Bool.not_false]

theorem firstUntrusted_reverse (raw : List Char) :
    firstUntrusted trusted (raw.splitOn ',').reverse = (hops raw).reverse.find? fun hop => !trusted.contains hop := by
  rw [firstUntrusted_eq, List.filterMap_reverse, hops]

/-- A peer that is not trusted is the client. -/
theorem resolveClientIp_of_untrusted (h : trusted.contains peer.toCanonical = false) (forwardedFor : Option (List Char)) :
    resolveClientIp peer forwardedFor trusted = (peer.toCanonical, .peer) := by
  unfold resolveClientIp
  rw [h]
  rfl

theorem resolveClientIp_some (h : trusted.contains peer.toCanonical = true) (raw : List Char) :
    resolveClientIp peer (some raw) trusted =
      match (hops raw).reverse.find? fun hop => !trusted.contains hop with
      | some hop => (hop, .forwarded)
      | none => (peer.toCanonical, .peer) := by
  unfold resolveClientIp
  rw [h, ← firstUntrusted_reverse]
  rfl

/-- The rightmost hop that is no trusted proxy. -/
theorem resolveClientIp_of_rightmost (h : trusted.contains peer.toCanonical = true) {raw : List Char}
    {before after : List IpAddr} {hop : IpAddr} (hhops : hops raw = before ++ hop :: after)
    (hhop : trusted.contains hop = false) (hafter : ∀ later ∈ after, trusted.contains later = true) :
    resolveClientIp peer (some raw) trusted = (hop, .forwarded) := by
  have hnone : after.reverse.find? (fun hop => !trusted.contains hop) = none := by
    rw [List.find?_eq_none]
    intro later hlater
    rw [hafter later (List.mem_reverse.mp hlater)]
    exact Bool.false_ne_true
  have hfind : (hops raw).reverse.find? (fun hop => !trusted.contains hop) = some hop := by
    rw [hhops, List.reverse_append, List.reverse_cons, List.append_assoc, List.find?_append, hnone, Option.none_or,
      List.singleton_append, List.find?_cons, hhop]
    rfl
  rw [resolveClientIp_some h, hfind]

theorem resolveClientIp_of_all_trusted (h : trusted.contains peer.toCanonical = true) {raw : List Char}
    (hall : ∀ hop ∈ hops raw, trusted.contains hop = true) :
    resolveClientIp peer (some raw) trusted = (peer.toCanonical, .peer) := by
  have hfind : (hops raw).reverse.find? (fun hop => !trusted.contains hop) = none := by
    rw [List.find?_eq_none]
    intro hop hhop
    rw [hall hop (List.mem_reverse.mp hhop)]
    exact Bool.false_ne_true
  rw [resolveClientIp_some h, hfind]

/-- What stands in front of a hop that is no trusted proxy does not matter. -/
theorem resolveClientIp_append {raw : List Char} {hop : IpAddr} (hmem : hop ∈ hops raw)
    (hhop : trusted.contains hop = false) (text : List Char) :
    resolveClientIp peer (some (text ++ ',' :: raw)) trusted = resolveClientIp peer (some raw) trusted := by
  by_cases h : trusted.contains peer.toCanonical = true
  · obtain ⟨found, hfound⟩ : ∃ found, (hops raw).reverse.find? (fun hop => !trusted.contains hop) = some found := by
      apply Option.isSome_iff_exists.mp
      rw [List.find?_isSome]
      exact ⟨hop, List.mem_reverse.mpr hmem, by rw [hhop]; rfl⟩
    rw [resolveClientIp_some h, resolveClientIp_some h, hops_append, List.reverse_append, List.find?_append, hfound]
    rfl
  · rw [Bool.not_eq_true] at h
    rw [resolveClientIp_of_untrusted h, resolveClientIp_of_untrusted h]

/-- **A client's address cannot be forged.** -/
theorem resolveClientIp_spec (trusted : TrustedProxies) (peer : IpAddr) :
    (trusted.contains peer.toCanonical = false →
      ∀ forwardedFor, resolveClientIp peer forwardedFor trusted = (peer.toCanonical, .peer)) ∧
    (trusted.contains peer.toCanonical = true →
      (∀ (raw : List Char) (before after : List IpAddr) (hop : IpAddr), hops raw = before ++ hop :: after →
        trusted.contains hop = false → (∀ later ∈ after, trusted.contains later = true) →
        resolveClientIp peer (some raw) trusted = (hop, .forwarded)) ∧
      (∀ raw : List Char, (∀ hop ∈ hops raw, trusted.contains hop = true) →
        resolveClientIp peer (some raw) trusted = (peer.toCanonical, .peer)) ∧
      resolveClientIp peer none trusted = (peer.toCanonical, .peer)) ∧
    ∀ (raw : List Char) (hop : IpAddr), hop ∈ hops raw → trusted.contains hop = false → ∀ text : List Char,
      resolveClientIp peer (some (text ++ ',' :: raw)) trusted = resolveClientIp peer (some raw) trusted := by
  refine ⟨resolveClientIp_of_untrusted, fun h => ⟨?_, ?_, ?_⟩, ?_⟩
  · intro raw before after hop hhops hhop hafter
    exact resolveClientIp_of_rightmost h hhops hhop hafter
  · intro raw hall
    exact resolveClientIp_of_all_trusted h hall
  · unfold resolveClientIp
    rw [h]
    rfl
  · intro raw hop hmem hhop text
    exact resolveClientIp_append hmem hhop text

/-- `10.0.0.1` is a proxy; the first hop is forged, the second one has a port. -/
example : resolveClientIp (.v4 0x0a000001#32) (some "1.2.3.4, 198.51.100.7:5678, 10.0.0.1".toList)
    [⟨.v4 0x0a000000#32, 8, by decide⟩] = (.v4 0xc6336407#32, .forwarded) := by decide +kernel

/-- `::ffff:198.51.100.7` is no proxy, and comes back as `198.51.100.7`. -/
theorem resolveClientIp_mapped_peer :
    ¬ ∀ (trusted : TrustedProxies) (peer : IpAddr) (forwardedFor : Option (List Char)),
      trusted.contains peer = false → (resolveClientIp peer forwardedFor trusted).1 = peer := by
  intro h
  have := h [] (.v6 (IpAddr.mapped 0xc6336407#32)) none rfl
  rw [resolveClientIp_of_untrusted rfl, IpAddr.toCanonical_mapped] at this
  cases this

end Api
end SmartDns
