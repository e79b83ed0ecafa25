/-
# Where DNS64 puts the IPv4 address

The layout of an address that carries an IPv4 address, octet by octet: the network bits of
the prefix, the four octets behind them except octet 8, and zeros everywhere else
(`Embeds`). `toDns64` writes into the address as it is configured, host bits included, and
keeps octet 7 clear behind a prefix of 56 bits: the layout is met exactly where nothing is
left of the configured address behind the octets that are written, and behind 56 bits only
for `0.0.0.0` (`toDns64_embeds_iff`). The IPv4 address can be read from what comes out in
any case (`toDns64_injective`).

Key definitions: `carriers`, `Embeds`, `LeavesNoHostBits`.
Key theorems: `toDns64_eq_some`, `toDns64_injective`, `toDns64_embeds_iff`.
-/
import SmartDns.Server.Rewrite

namespace SmartDns
namespace Server

open Dns Lib

/-! ### The layout -/

def prefixLengths : List ℕ := [32, 40, 48, 56, 64, 96]

def octet (octets : List UInt8) (i : ℕ) : UInt8 := octets.getD i 0

/-- The octets behind the prefix, all but octet 8. -/
def behind (prefixLen : ℕ) : List ℕ := (List.range 16).filter fun i => prefixLen ≤ 8 * i ∧ i ≠ 8

/-- The octets that carry the IPv4 address. -/
def carriers (prefixLen : ℕ) : List ℕ := (behind prefixLen).take 4

structure Embeds (net : Ipv6Net) (ipv4 : BitVec 32) (ipv6 : BitVec 128) : Prop where
  network : ipv6.toNat >>> (128 - net.prefixLen) = net.addr.toNat >>> (128 - net.prefixLen)
  carried : (carriers net.prefixLen).map (octet (toBe 16 ipv6.toNat)) = toBe 4 ipv4.toNat
  reserved : net.prefixLen ≤ 64 → octet (toBe 16 ipv6.toNat) 8 = 0
  suffix : ∀ i ∈ (behind net.prefixLen).drop 4, octet (toBe 16 ipv6.toNat) i = 0

/-! ### What the source writes -/

/-- The first octet behind those that are written; the rest of the configured address stays. -/
def keptFrom : ℕ → ℕ
  | 32 => 9
  | 40 => 10
  | 48 => 11
  | 56 => 13
  | 64 => 13
  | _ => 16

def LeavesNoHostBits (net : Ipv6Net) : Prop :=
  ∀ b ∈ (toBe 16 net.addr.toNat).drop (keptFrom net.prefixLen), b = 0

/-- The octets of `to_dns64`, from those of the configured address and of the IPv4 address. -/
def synthesizedOctets (p v4 : List UInt8) : ℕ → List UInt8
  | 32 => p.take 4 ++ v4 ++ [0] ++ p.drop 9
  | 40 => p.take 5 ++ v4.take 3 ++ [0] ++ v4.drop 3 ++ p.drop 10
  | 48 => p.take 6 ++ v4.take 2 ++ [0] ++ v4.drop 2 ++ p.drop 11
  | 56 => p.take 7 ++ [0, 0] ++ v4 ++ p.drop 13
  | 64 => p.take 8 ++ [0] ++ v4 ++ p.drop 13
  | _ => p.take 12 ++ v4

variable {net : Ipv6Net} {ipv4 ipv4' : BitVec 32} {ipv6 : BitVec 128}

theorem mem_prefixLengths {n : ℕ} : n ∈ prefixLengths ↔ n = 32 ∨ n = 40 ∨ n = 48 ∨ n = 56 ∨ n = 64 ∨ n = 96 := by
  simp [prefixLengths]

theorem length_synthesizedOctets {p v4 : List UInt8} (hp : p.length = 16) (hv : v4.length = 4) {n : ℕ}
    (hn : n ∈ prefixLengths) : (synthesizedOctets p v4 n).length = 16 := by
  obtain rfl | rfl | rfl | rfl | rfl | rfl := mem_prefixLengths.mp hn <;>
    simp [synthesizedOctets, hp, hv]

theorem toDns64_eq_some (hn : net.prefixLen ∈ prefixLengths) :
    toDns64 net ipv4 =
      some (BitVec.ofNat 128 (ofBe (synthesizedOctets (toBe 16 net.addr.toNat) (toBe 4 ipv4.toNat) net.prefixLen))) := by
  unfold toDns64
  obtain h | h | h | h | h | h := mem_prefixLengths.mp hn <;> rw [h] <;> rfl

/-- The octets of an address put together from sixteen. -/
theorem toBe_ofNat_ofBe {octets : List UInt8} (h : octets.length = 16) :
    toBe 16 (BitVec.ofNat 128 (ofBe octets)).toNat = octets := by
  have hlt : ofBe octets < 2 ^ 128 := by
    have := ofBe_lt octets
    rw [h] at this
    exact this
  rw [BitVec.toNat_ofNat, Nat.mod_eq_of_lt hlt, toBe_ofBe h]

theorem toDns64_octets (hn : net.prefixLen ∈ prefixLengths) (h : toDns64 net ipv4 = some ipv6) :
    toBe 16 ipv6.toNat =
      synthesizedOctets (toBe 16 net.addr.toNat) (toBe 4 ipv4.toNat) net.prefixLen := by
  rw [toDns64_eq_some hn] at h
  obtain rfl := Option.some.inj h
  exact toBe_ofNat_ofBe (length_synthesizedOctets (toBe_length 16 _) (toBe_length 4 _) hn)

theorem toBe_toNat_inj {n : ℕ} {a b : BitVec (8 * n)} (h : toBe n a.toNat = toBe n b.toNat) : a = b := by
  have h256 : (256 : ℕ) ^ n = 2 ^ (8 * n) := by rw [Nat.pow_mul]
  have hlt (c : BitVec (8 * n)) : c.toNat % 256 ^ n = c.toNat := by
    rw [h256]
    exact Nat.mod_eq_of_lt c.isLt
  apply BitVec.eq_of_toNat_eq
  calc a.toNat = ofBe (toBe n a.toNat) := by rw [ofBe_toBe, hlt]
    _ = ofBe (toBe n b.toNat) := by rw [h]
    _ = b.toNat := by rw [ofBe_toBe, hlt]

/-- The network bits are the octets of the prefix. -/
theorem shiftRight_eq_iff {a b : BitVec 128} {k : ℕ} (hk : k ≤ 16) :
    a.toNat >>> (128 - 8 * k) = b.toNat >>> (128 - 8 * k) ↔ (toBe 16 a.toNat).take k = (toBe 16 b.toNat).take k := by
  have h16 : k + (16 - k) = 16 := by omega
  have hshift (c : BitVec 128) : c.toNat >>> (128 - 8 * k) = c.toNat / 256 ^ (16 - k) := by
    have hpow : (2 : ℕ) ^ (128 - 8 * k) = 256 ^ (16 - k) := by
      have : 128 - 8 * k = 8 * (16 - k) := by omega
      rw [this, Nat.pow_mul]
    rw [Nat.shiftRight_eq_div_pow, hpow]
  have htake (c : BitVec 128) : (toBe 16 c.toNat).take k = toBe k (c.toNat / 256 ^ (16 - k)) := by
    have := take_toBe k (16 - k) c.toNat
    rwa [h16] at this
  have hofBe (c : BitVec 128) : ofBe (toBe k (c.toNat / 256 ^ (16 - k))) = c.toNat / 256 ^ (16 - k) := by
    have hlt : c.toNat / 256 ^ (16 - k) < 256 ^ k := by
      apply Nat.div_lt_of_lt_mul
      rw [← Nat.pow_add, Nat.add_comm, h16]
      exact c.isLt
    rw [ofBe_toBe, Nat.mod_eq_of_lt hlt]
  rw [hshift, hshift, htake, htake]
  constructor
  · intro h
    rw [h]
  · intro h
    rw [← hofBe a, h, hofBe b]

/-! ### What comes out -/

section

variable {p v4 : List UInt8} {n : ℕ}

/-- Where the IPv4 address stands in what comes out: behind 56 bits one octet further back. -/
def writtenAt (n : ℕ) : List ℕ := if n = 56 then [9, 10, 11, 12] else carriers n

theorem map_writtenAt : ∀ {p v4 : List UInt8}, p.length = 16 → v4.length = 4 → ∀ {n : ℕ}, n ∈ prefixLengths →
    (writtenAt n).map (octet (synthesizedOctets p v4 n)) = v4
  | [_, _, _, _, _, _, _, _, _, _, _, _, _, _, _, _], [_, _, _, _], _, _, _, hn => by
    obtain rfl | rfl | rfl | rfl | rfl | rfl := mem_prefixLengths.mp hn <;> rfl

theorem take_synthesizedOctets : ∀ {p v4 : List UInt8}, p.length = 16 → v4.length = 4 → ∀ {n : ℕ}, n ∈ prefixLengths →
    (synthesizedOctets p v4 n).take (n / 8) = p.take (n / 8)
  | [_, _, _, _, _, _, _, _, _, _, _, _, _, _, _, _], [_, _, _, _], _, _, _, hn => by
    obtain rfl | rfl | rfl | rfl | rfl | rfl := mem_prefixLengths.mp hn <;> rfl

theorem reserved_synthesizedOctets : ∀ {p v4 : List UInt8}, p.length = 16 → v4.length = 4 →
    ∀ {n : ℕ}, n ∈ prefixLengths → n ≤ 64 → octet (synthesizedOctets p v4 n) 8 = 0
  | [_, _, _, _, _, _, _, _, _, _, _, _, _, _, _, _], [_, _, _, _], _, _, _, hn, h64 => by
    obtain rfl | rfl | rfl | rfl | rfl | rfl := mem_prefixLengths.mp hn
    · rfl
    · rfl
    · rfl
    · rfl
    · rfl
    · omega

theorem map_carriers : ∀ {p v4 : List UInt8}, p.length = 16 → v4.length = 4 → ∀ {n : ℕ}, n ∈ prefixLengths →
    (carriers n).map (octet (synthesizedOctets p v4 n)) = if n = 56 then 0 :: v4.take 3 else v4
  | [_, _, _, _, _, _, _, _, _, _, _, _, _, _, _, _], [_, _, _, _], _, _, _, hn => by
    obtain rfl | rfl | rfl | rfl | rfl | rfl := mem_prefixLengths.mp hn <;> rfl

theorem map_suffix : ∀ {p v4 : List UInt8}, p.length = 16 → v4.length = 4 → ∀ {n : ℕ}, n ∈ prefixLengths →
    ((behind n).drop 4).map (octet (synthesizedOctets p v4 n)) =
      if n = 56 then v4.drop 3 ++ p.drop 13 else p.drop (keptFrom n)
  | [_, _, _, _, _, _, _, _, _, _, _, _, _, _, _, _], [_, _, _, _], _, _, _, hn => by
    obtain rfl | rfl | rfl | rfl | rfl | rfl := mem_prefixLengths.mp hn <;> rfl

/-- Behind 56 bits the octets are one place too far back, which no one sees where they are all zero. -/
theorem shifted_iff (hv : v4.length = 4) :
    (0 :: v4.take 3 = v4 ∧ ∀ b ∈ v4.drop 3, b = 0) ↔ v4 = [0, 0, 0, 0] := by
  match v4, hv with
  | [a, b, c, d], _ =>
    simp only [List.take_succ_cons, List.take_zero, List.drop_succ_cons, List.drop_zero, List.mem_singleton,
      forall_eq, List.cons.injEq, and_true]
    constructor
    · rintro ⟨⟨rfl, rfl, rfl, rfl⟩, -⟩
      exact ⟨rfl, rfl, rfl, rfl⟩
    · rintro ⟨rfl, rfl, rfl, rfl⟩
      exact ⟨⟨rfl, rfl, rfl, rfl⟩, rfl⟩

/-- The octets that carry the address and those behind them. -/
theorem laid_iff (hp : p.length = 16) (hv : v4.length = 4) (hn : n ∈ prefixLengths) :
    ((carriers n).map (octet (synthesizedOctets p v4 n)) = v4 ∧
        ∀ i ∈ (behind n).drop 4, octet (synthesizedOctets p v4 n) i = 0) ↔
      (∀ b ∈ p.drop (keptFrom n), b = 0) ∧ (n = 56 → v4 = [0, 0, 0, 0]) := by
  rw [map_carriers hp hv hn, ← List.forall_mem_map (P := fun b => b = 0), map_suffix hp hv hn]
  by_cases h56 : n = 56
  · subst h56
    rw [if_pos rfl, if_pos rfl, List.forall_mem_append, ← and_assoc, shifted_iff hv]
    exact ⟨fun h => ⟨h.2, fun _ => h.1⟩, fun h => ⟨h.2 rfl, h.1⟩⟩
  · rw [if_neg h56, if_neg h56]
    exact ⟨fun h => ⟨h.2, fun h' => absurd h' h56⟩, fun h => ⟨rfl, h.1⟩⟩

end

/-- **Different IPv4 addresses stay different**, whatever the host bits. -/
theorem toDns64_injective (hn : net.prefixLen ∈ prefixLengths) (h : toDns64 net ipv4 = some ipv6)
    (h' : toDns64 net ipv4' = some ipv6) : ipv4' = ipv4 := by
  have hread (ip : BitVec 32) (hip : toDns64 net ip = some ipv6) :
      (writtenAt net.prefixLen).map (octet (toBe 16 ipv6.toNat)) = toBe 4 ip.toNat := by
    rw [toDns64_octets hn hip, map_writtenAt (toBe_length 16 _) (toBe_length 4 _) hn]
  have : toBe 4 ipv4'.toNat = toBe 4 ipv4.toNat := by rw [← hread _ h, ← hread _ h']
  exact toBe_toNat_inj (n := 4) this

theorem toBe_eq_zeros_iff : toBe 4 ipv4.toNat = [0, 0, 0, 0] ↔ ipv4 = 0#32 := by
  constructor
  · intro h
    exact toBe_toNat_inj (n := 4) (h.trans (by decide))
  · rintro rfl
    decide

theorem embeds_iff (hn : net.prefixLen ∈ prefixLengths) (h : toDns64 net ipv4 = some ipv6) :
    Embeds net ipv4 ipv6 ↔ LeavesNoHostBits net ∧ (net.prefixLen = 56 → ipv4 = 0#32) := by
  have hoct := toDns64_octets hn h
  have hp := toBe_length 16 net.addr.toNat
  have hv := toBe_length 4 ipv4.toNat
  rw [← toBe_eq_zeros_iff, LeavesNoHostBits, ← laid_iff hp hv hn, ← hoct]
  constructor
  · intro he
    exact ⟨he.carried, he.suffix⟩
  · rintro ⟨hcarried, hsuffix⟩
    have h8 : net.prefixLen = 8 * (net.prefixLen / 8) ∧ net.prefixLen / 8 ≤ 16 := by
      obtain h | h | h | h | h | h := mem_prefixLengths.mp hn <;> rw [h] <;> decide
    refine ⟨?_, hcarried, ?_, hsuffix⟩
    · rw [h8.1, shiftRight_eq_iff h8.2, hoct, take_synthesizedOctets hp hv hn]
    · rw [hoct]
      exact reserved_synthesizedOctets hp hv hn

/-- **DNS64 lays addresses out exactly where nothing of the configured host part is left and, behind
56 bits, where the IPv4 address is all zeros**; different IPv4 addresses give different results. -/
theorem toDns64_embeds_iff (net : Ipv6Net) (hn : net.prefixLen ∈ prefixLengths) (ipv4 : BitVec 32) :
    (∃ ipv6, toDns64 net ipv4 = some ipv6 ∧ Embeds net ipv4 ipv6 ∧
        ∀ ipv4', toDns64 net ipv4' = some ipv6 → ipv4' = ipv4) ↔
      LeavesNoHostBits net ∧ (net.prefixLen = 56 → ipv4 = 0#32) := by
  constructor
  · rintro ⟨ipv6, h, he, -⟩
    exact (embeds_iff hn h).mp he
  · intro hcond
    have h : toDns64 net ipv4 = some _ := toDns64_eq_some hn
    exact ⟨_, h, (embeds_iff hn h).mpr hcond, fun _ h' => toDns64_injective hn h h'⟩

theorem leavesNoHostBits_of_all {net : Ipv6Net}
    (h : ((toBe 16 net.addr.toNat).drop (keptFrom net.prefixLen)).all (· == 0) = true) : LeavesNoHostBits net := by
  intro b hb
  simpa using List.all_eq_true.mp h b hb

/-- `64:ff9b::/96`. -/
theorem toDns64_embeds_wellKnown :
    ∃ ipv6, toDns64 ⟨0x64ff9b000000000000000000000000#128, 96, by decide⟩ 0xc0000221#32 = some ipv6 ∧
      Embeds ⟨0x64ff9b000000000000000000000000#128, 96, by decide⟩ 0xc0000221#32 ipv6 ∧
      ∀ ipv4', toDns64 ⟨0x64ff9b000000000000000000000000#128, 96, by decide⟩ ipv4' = some ipv6 → ipv4' = 0xc0000221#32 :=
  (toDns64_embeds_iff _ (by decide) _).mpr ⟨leavesNoHostBits_of_all rfl, by decide⟩

/-- `192.0.2.33`: behind `2001:db8::1/64` the last octet of the configured address is left over, behind
`2001:db8::/56` the IPv4 address stands one octet too far back. -/
theorem toDns64_leaks_and_shifts :
    (¬ ∃ ipv6, toDns64 ⟨0x20010db8000000000000000000000001#128, 64, by decide⟩ 0xc0000221#32 = some ipv6 ∧
      Embeds ⟨0x20010db8000000000000000000000001#128, 64, by decide⟩ 0xc0000221#32 ipv6) ∧
    ¬ ∃ ipv6, toDns64 ⟨0x20010db8000000000000000000000000#128, 56, by decide⟩ 0xc0000221#32 = some ipv6 ∧
      Embeds ⟨0x20010db8000000000000000000000000#128, 56, by decide⟩ 0xc0000221#32 ipv6 := by
  constructor
  · rintro ⟨ipv6, h, he⟩
    have hclean := ((embeds_iff (by decide) h).mp he).1
    exact absurd (hclean 1 (by decide)) (by decide)
  · rintro ⟨ipv6, h, he⟩
    exact absurd (((embeds_iff (by decide) h).mp he).2 rfl) (by decide)

end Server
end SmartDns
