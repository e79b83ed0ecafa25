/-
# Printed addresses are read back

The parsers of the configuration on the texts of addresses. An octet has at most three digits
and a segment at most four, a `::` stands for two segments at least, and the form with an
IPv4 address is the one the parser tries first. So an address is read back whatever stands behind
it, if no digit, dot or colon does (`parseIp_text`), and so is the value of an address rule
(`parseAddressRuleValue_text`).

Key theorems: `parseIpv4_v4Text`, `parseIpv6_v6Text`, `parseAddressRuleValue_text`.
-/
import SmartDns.Lib.Text
import SmartDns.Rule.Ipv6Text

namespace SmartDns
namespace Rule

open Dns
open Lib Lib.Parse

/-! ### Numbers -/

theorem digitValue_digitChar {d : ℕ} (h : d < 16) : digitValue d.digitChar = d := by
  have : ∀ d < 16, digitValue d.digitChar = d := by decide
  exact this d h

theorem isHexDigit_digitChar {d : ℕ} (h : d < 16) : isHexDigit d.digitChar = true := by
  have : ∀ d < 16, isHexDigit d.digitChar = true := by decide
  exact this d h

theorem isDigit_digitChar {d : ℕ} (h : d < 10) : d.digitChar.isDigit = true := by
  have : ∀ d < 10, d.digitChar.isDigit = true := by decide
  exact this d h

/-- A number is what its digits say. -/
theorem numeral_toDigits {b : ℕ} (hb : 1 < b) (hb' : b ≤ 16) (n : ℕ) : numeral b (Nat.toDigits b n) = n := by
  induction n using Nat.strongRecOn with
  | _ n ih =>
    rcases toDigits_cases hb n with ⟨h, hn⟩ | ⟨h, hn⟩
    · rw [h]
      show 0 * b + digitValue n.digitChar = n
      rw [digitValue_digitChar (by omega), Nat.zero_mul, Nat.zero_add]
    · have hmod : n % b < 16 := Nat.lt_of_lt_of_le (Nat.mod_lt n (by omega)) hb'
      rw [h, numeral_append_singleton, ih (n / b) (Nat.div_lt_self (by omega) hb), digitValue_digitChar hmod,
        Nat.mul_comm]
      exact Nat.div_add_mod n b

theorem group_toDigits {ok : Char → Bool} {b k n : ℕ} (hb : 1 < b) (hk : 0 < k) (hn : n < b ^ k)
    (hok : ∀ d < b, ok d.digitChar = true) : Group ok k (Nat.toDigits b n) where
  ne_nil := Nat.toDigits_ne_nil
  length_le := (Nat.length_toDigits_le_iff hb hk).mpr hn
  all c hc := by
    obtain ⟨d, hd, rfl⟩ := mem_toDigits hb n hc
    exact hok d hd

/-! ### IPv4 addresses -/

theorem octet_decimal {n : ℕ} (h : n < 256) {rest : List Char} (hrest : NotOk Char.isDigit rest) :
    Octet (IpAddr.decimal n) rest where
  toGroup := group_toDigits (by omega) (by omega) (by omega) fun _ hd => isDigit_digitChar hd
  full := .inr hrest
  lt := by
    unfold IpAddr.decimal
    rwa [numeral_toDigits (by omega) (by omega)]

theorem v4Text_eq (bits : BitVec 32) : IpAddr.v4Text bits =
    quadText (IpAddr.decimal ((bits.toNat >>> 24) % 256)) (IpAddr.decimal ((bits.toNat >>> 16) % 256))
      (IpAddr.decimal ((bits.toNat >>> 8) % 256)) (IpAddr.decimal ((bits.toNat >>> 0) % 256)) := by
  unfold IpAddr.v4Text IpAddr.octets quadText dotted
  simp [List.intercalate_cons_cons, List.intercalate_singleton]

theorem quad_v4Text (bits : BitVec 32) {rest : List Char} (hrest : NotOk Char.isDigit rest) :
    Quad (IpAddr.decimal ((bits.toNat >>> 24) % 256)) (IpAddr.decimal ((bits.toNat >>> 16) % 256))
      (IpAddr.decimal ((bits.toNat >>> 8) % 256)) (IpAddr.decimal ((bits.toNat >>> 0) % 256)) rest where
  first := octet_decimal (Nat.mod_lt _ (by omega)) (notOk_dotted _ _)
  second := octet_decimal (Nat.mod_lt _ (by omega)) (notOk_dotted _ _)
  third := octet_decimal (Nat.mod_lt _ (by omega)) (notOk_dotted _ _)
  fourth := octet_decimal (Nat.mod_lt _ (by omega)) hrest

/-- **An IPv4 address is read back.** -/
theorem parseIpv4_v4Text (ip : Ipv4Addr) {rest : List Char} (hrest : NotOk Char.isDigit rest) :
    parseIpv4 (IpAddr.v4Text ip.toBitVec ++ rest) = some (ip, rest) := by
  have hvalue : quadValue (IpAddr.decimal ((ip.toBitVec.toNat >>> 24) % 256))
      (IpAddr.decimal ((ip.toBitVec.toNat >>> 16) % 256)) (IpAddr.decimal ((ip.toBitVec.toNat >>> 8) % 256))
      (IpAddr.decimal ((ip.toBitVec.toNat >>> 0) % 256)) = ip := by
    have hlt := ip.toNat_lt
    unfold quadValue IpAddr.decimal
    simp only [numeral_toDigits (b := 10) (by omega) (by omega)]
    have hsum : ((((ip.toBitVec.toNat >>> 24) % 256) * 256 + (ip.toBitVec.toNat >>> 16) % 256) * 256 +
        (ip.toBitVec.toNat >>> 8) % 256) * 256 + (ip.toBitVec.toNat >>> 0) % 256 = ip.toNat := by
      have hbits : ip.toBitVec.toNat = ip.toNat := rfl
      simp only [hbits, Nat.shiftRight_eq_div_pow]
      omega
    rw [hsum, UInt32.ofNat_toNat]
  rw [v4Text_eq, parseIpv4_quad (quad_v4Text _ hrest), hvalue]

/-! ### The run of zeros -/

abbrev ZerosState := (ℕ × ℕ) × (ℕ × ℕ) × ℕ

/-- The step of `longestZeros`. -/
def zerosStep (acc : ZerosState) (segment : ℕ) : ZerosState :=
  if segment = 0 then
    let current := (if acc.2.1.2 = 0 then acc.2.2 else acc.2.1.1, acc.2.1.2 + 1)
    (if acc.1.2 < current.2 then current else acc.1, current, acc.2.2 + 1)
  else (acc.1, (0, 0), acc.2.2 + 1)

theorem longestZeros_eq (segments : List ℕ) :
    IpAddr.longestZeros segments = (segments.foldl zerosStep ((0, 0), (0, 0), 0)).1 := rfl

/-- The longest run and the one at the end. -/
structure ZerosInv (p : List ℕ) (acc : ZerosState) : Prop where
  index : acc.2.2 = p.length
  longest : acc.1.1 + acc.1.2 ≤ p.length ∧ (p.drop acc.1.1).take acc.1.2 = List.replicate acc.1.2 0
  current : acc.2.1.2 ≠ 0 → acc.2.1.1 + acc.2.1.2 = p.length ∧ p.drop acc.2.1.1 = List.replicate acc.2.1.2 0

theorem ZerosInv.step {p : List ℕ} {acc : ZerosState} (h : ZerosInv p acc) (x : ℕ) :
    ZerosInv (p ++ [x]) (zerosStep acc x) := by
  obtain ⟨⟨ls, ll⟩, ⟨cs, cl⟩, i⟩ := acc
  obtain ⟨hi, ⟨hle, hlongest⟩, hcurrent⟩ := h
  dsimp only at hi hle hlongest hcurrent
  -- The longest run is still there.
  have hkept : ls + ll ≤ (p ++ [x]).length ∧ ((p ++ [x]).drop ls).take ll = List.replicate ll 0 := by
    refine ⟨by rw [List.length_append]; omega, ?_⟩
    rw [List.drop_append_of_le_length (by omega), List.take_append_of_le_length (by rw [List.length_drop]; omega),
      hlongest]
  by_cases hx : x = 0
  · subst hx
    have hrun : (if cl = 0 then i else cs) + (cl + 1) = (p ++ [0]).length ∧
        (p ++ [0]).drop (if cl = 0 then i else cs) = List.replicate (cl + 1) 0 := by
      rw [List.length_append, List.length_singleton]
      by_cases hcl : cl = 0
      · subst hcl
        refine ⟨by rw [if_pos rfl]; omega, ?_⟩
        rw [if_pos rfl, hi, List.drop_left]
        rfl
      · obtain ⟨hend, hzeros⟩ := hcurrent hcl
        refine ⟨by rw [if_neg hcl]; omega, ?_⟩
        rw [if_neg hcl, List.drop_append_of_le_length (by omega), hzeros, List.replicate_succ']
    have hstep : zerosStep ((ls, ll), (cs, cl), i) 0 =
        (if ll < cl + 1 then (if cl = 0 then i else cs, cl + 1) else (ls, ll), (if cl = 0 then i else cs, cl + 1), i + 1) :=
      rfl
    rw [hstep]
    refine ⟨by rw [List.length_append, List.length_singleton, ← hi], ?_, fun _ => hrun⟩
    by_cases hlt : ll < cl + 1
    · rw [if_pos hlt]
      refine ⟨Nat.le_of_eq hrun.1, ?_⟩
      dsimp only
      rw [hrun.2, List.take_replicate, Nat.min_self]
    · rw [if_neg hlt]
      exact hkept
  · have hstep : zerosStep ((ls, ll), (cs, cl), i) x = ((ls, ll), (0, 0), i + 1) := if_neg hx
    rw [hstep]
    exact ⟨by rw [List.length_append, List.length_singleton, ← hi], hkept, fun h => absurd rfl h⟩

theorem zerosInv_foldl (segments : List ℕ) : ZerosInv segments (segments.foldl zerosStep ((0, 0), (0, 0), 0)) := by
  induction segments using List.reverseRecOn with
  | nil => exact ⟨rfl, ⟨Nat.le_refl _, rfl⟩, fun h => absurd rfl h⟩
  | append_singleton p x ih =>
    rw [List.foldl_append]
    exact ih.step x

/-- The longest run of zeros is one. -/
theorem segments_longestZeros (segments : List ℕ) :
    (IpAddr.longestZeros segments).1 + (IpAddr.longestZeros segments).2 ≤ segments.length ∧
      segments = segments.take (IpAddr.longestZeros segments).1 ++
        (List.replicate (IpAddr.longestZeros segments).2 0 ++
          segments.drop ((IpAddr.longestZeros segments).1 + (IpAddr.longestZeros segments).2)) := by
  obtain ⟨hle, hzeros⟩ := (zerosInv_foldl segments).longest
  rw [← longestZeros_eq] at hle hzeros
  refine ⟨hle, ?_⟩
  rw [← hzeros, ← List.drop_drop, List.take_append_drop, List.take_append_drop]

/-! ### IPv6 addresses -/

theorem ipv6OfSegments_segments (bits : BitVec 128) : ipv6OfSegments (IpAddr.segments bits) = bits := by
  have hlt := bits.isLt
  have hsum : (IpAddr.segments bits).foldl (fun n s => n * 65536 + s) 0 = bits.toNat := by
    unfold IpAddr.segments
    simp only [List.map_cons, List.map_nil, List.foldl_cons, List.foldl_nil, Nat.shiftRight_eq_div_pow]
    omega
  unfold ipv6OfSegments
  rw [hsum, BitVec.ofNat_toNat, BitVec.setWidth_eq]

theorem segmentsText_eq (segments : List ℕ) :
    IpAddr.segmentsText segments = joined ':' (segments.map (Nat.toDigits 16)) :=
  (joined_eq_intercalate ':' _).symm

theorem hexGroup_toDigits {n : ℕ} (h : n < 65536) : HexGroup (Nat.toDigits 16 n) :=
  group_toDigits (by omega) (by omega) (by omega) fun _ hd => isHexDigit_digitChar hd

theorem map_numeral_toDigits (segments : List ℕ) : (segments.map (Nat.toDigits 16)).map (numeral 16) = segments := by
  rw [List.map_map]
  conv_rhs => rw [← List.map_id segments]
  exact List.map_congr_left fun n _ => numeral_toDigits (by omega) (by omega) n

/-- Nothing that goes on with an address comes next. -/
abbrev IpEnds (rest : List Char) : Prop := NotOk (fun c => isHexDigit c || c == '.' || c == ':') rest

theorem IpEnds.head {c : Char} {rest : List Char} (h : IpEnds (c :: rest)) : isHexDigit c = false ∧ c ≠ '.' ∧ c ≠ ':' := by
  have hc := h c rfl
  simp only [Bool.or_eq_false_iff, beq_eq_false_iff_ne] at hc
  exact ⟨hc.1.1, hc.1.2, hc.2⟩

theorem IpEnds.notOk {rest : List Char} (h : IpEnds rest) : NotOk isHexDigit rest := by
  intro c hc
  obtain ⟨tail, rfl⟩ := List.head?_eq_some_iff.mp hc
  exact h.head.1

theorem IpEnds.digit {rest : List Char} (h : IpEnds rest) : NotOk Char.isDigit rest := by
  intro c hc
  by_contra hdigit
  have hhex := isHexDigit_of_isDigit (Bool.not_eq_false _ ▸ hdigit)
  rw [h.notOk c hc] at hhex
  cases hhex

theorem IpEnds.colon {rest rest' : List Char} (h : IpEnds rest) (hrest : rest = ':' :: rest') : NotOk isHexDigit rest' := by
  subst hrest
  exact absurd rfl h.head.2.2

/-- Groups and colons are no address behind `::ffff:`. -/
theorem ipv6Mapped_groups {t rest : List Char} (ht : ∀ c ∈ t, isHexDigit c = true ∨ c = ':') (hrest : IpEnds rest) :
    ipv6Mapped (t ++ rest) = none := by
  cases hrun : ipv6Mapped (t ++ rest) with
  | none => rfl
  | some x =>
    obtain ⟨front, a, b, c, d, hs, hfront, hquad, -⟩ := quad_of_ipv6Mapped hrun
    have hu : ∀ x ∈ front ++ a, isHexDigit x = true ∨ x = ':' := by
      obtain ⟨g, rfl, hg, -⟩ := mappedFront_cases hfront
      intro x hx
      simp only [List.mem_append, List.mem_cons, List.not_mem_nil, or_false] at hx
      rcases hx with ((h | h) | h | h) | h
      · exact .inr h
      · exact .inr h
      · exact .inl (hg.all x h)
      · exact .inr h
      · exact .inl (isHexDigit_of_isDigit (hquad.first.all x h))
    have htext : t ++ rest = (front ++ a) ++ ('.' :: (b ++ (dotted c ++ (dotted d ++ x.2)))) := by
      rw [hs]
      simp [quadText, dotted]
    have hdot : ¬ (isHexDigit '.' = true ∨ '.' = ':') := by decide
    rcases List.append_eq_append_iff.mp htext with ⟨u, hu', hrest'⟩ | ⟨u, ht', hdot'⟩
    · cases u with
      | nil => exact absurd rfl (hrest' ▸ hrest : IpEnds ('.' :: _)).head.2.1
      | cons y u =>
        have hy := hu y (hu' ▸ List.mem_append_right _ List.mem_cons_self)
        have hhead := (hrest' ▸ hrest : IpEnds (y :: _)).head
        rcases hy with hy | hy
        · rw [hhead.1] at hy
          cases hy
        · exact absurd hy hhead.2.2
    · cases u with
      | nil =>
        rw [List.nil_append] at hdot'
        exact absurd rfl (hdot'.symm ▸ hrest : IpEnds ('.' :: _)).head.2.1
      | cons y u =>
        injection hdot' with hy
        exact absurd (ht '.' (ht' ▸ List.mem_append_right _ (hy ▸ List.mem_cons_self))) hdot

theorem mem_segmentsText {c : Char} {segments : List ℕ} (h : c ∈ IpAddr.segmentsText segments) :
    isHexDigit c = true ∨ c = ':' := by
  rw [segmentsText_eq] at h
  induction segments with
  | nil => cases h
  | cons n segments ih =>
    have hdigits (c : Char) (hc : c ∈ Nat.toDigits 16 n) : isHexDigit c = true := by
      obtain ⟨d, hd, rfl⟩ := mem_toDigits (by omega) n hc
      exact isHexDigit_digitChar hd
    rcases List.mem_append.mp h with h | h
    · exact .inl (hdigits c h)
    · obtain ⟨g, hg, hc⟩ := List.mem_flatMap.mp h
      rcases List.mem_cons.mp hc with rfl | hc
      · exact .inr rfl
      · obtain ⟨m, -, rfl⟩ := List.mem_map.mp hg
        obtain ⟨d, hd, rfl⟩ := mem_toDigits (by omega) m hc
        exact .inl (isHexDigit_digitChar hd)

section

variable {pre post : List ℕ} {rest : List Char}

/-- Two lists of segments around `::`, or eight of them. -/
theorem ipv6Parts_segmentsText (sep : Bool) (hpre : ∀ n ∈ pre, n < 65536) (hpost : ∀ n ∈ post, n < 65536)
    (hsep : sep = false → post = []) (hrest : IpEnds rest) :
    Ipv6Parts (IpAddr.segmentsText pre ++ ((if sep then [':', ':'] else []) ++ (IpAddr.segmentsText post ++ rest)))
      (pre.map (Nat.toDigits 16)) sep (post.map (Nat.toDigits 16)) rest := by
  have hgroups {segments : List ℕ} (h : ∀ n ∈ segments, n < 65536) :
      ∀ g ∈ segments.map (Nat.toDigits 16), HexGroup g := by
    intro g hg
    obtain ⟨n, hn, rfl⟩ := List.mem_map.mp hg
    exact hexGroup_toDigits (h n hn)
  rw [segmentsText_eq, segmentsText_eq]
  refine ⟨rfl, hgroups hpre, hgroups hpost, ?_, ?_, ?_⟩
  · cases sep with
    | true =>
      refine ends_of_stops (notOk_cons (by decide)) ?_ _
      intro rest' h
      injection h with _ h
      rw [← h]
      exact notOk_cons (by decide)
    | false =>
      rw [hsep rfl]
      exact ends_of_stops hrest.notOk (fun _ h => hrest.colon h) _
  · exact ends_of_stops hrest.notOk (fun _ h => hrest.colon h) _
  · intro hno
    rw [hsep hno]
    show tag (· == ·) [':', ':'] rest = none
    cases rest with
    | nil => rfl
    | cons c rest =>
      have hc : (c == ':') = false := beq_eq_false_iff_ne.mpr hrest.head.2.2
      show (if (c == ':') = true then _ else none) = none
      rw [hc]
      rfl

/-- The text is that of eight segments, or of two lists of them around `::`. -/
structure SegmentsOf (ip : Ipv6Addr) (pre : List ℕ) (sep : Bool) (post : List ℕ) : Prop where
  text : IpAddr.v6Text ip = IpAddr.segmentsText pre ++ ((if sep then [':', ':'] else []) ++ IpAddr.segmentsText post)
  left : ∀ n ∈ pre, n < 65536
  right : ∀ n ∈ post, n < 65536
  noSep : sep = false → post = []
  count : pre.length = 8 ∧ post = [] ∨ sep = true ∧ pre.length + post.length < 8
  value : ipv6OfSegments (pre ++ List.replicate (8 - pre.length - post.length) 0 ++ post) = ip

theorem SegmentsOf.mem_text {ip : Ipv6Addr} {sep : Bool} (h : SegmentsOf ip pre sep post) {c : Char}
    (hc : c ∈ IpAddr.v6Text ip) : isHexDigit c = true ∨ c = ':' := by
  rw [h.text] at hc
  rcases List.mem_append.mp hc with hc | hc
  · exact mem_segmentsText hc
  · rcases List.mem_append.mp hc with hc | hc
    · cases sep with
      | true => exact .inr (by simpa using hc)
      | false => cases hc
    · exact mem_segmentsText hc

theorem SegmentsOf.parse {ip : Ipv6Addr} {sep : Bool} (h : SegmentsOf ip pre sep post) (hrest : IpEnds rest) :
    parseIpv6 (IpAddr.v6Text ip ++ rest) = some (ip, rest) := by
  have hmapped := ipv6Mapped_groups (fun c hc => h.mem_text hc) hrest
  obtain ⟨htext, hpre, hpost, hsep, hlen, hvalue⟩ := h
  have hparts := ipv6Parts_segmentsText sep hpre hpost hsep hrest
  have hplain := hparts.plain
  have hsum : pre.length + post.length ≤ 8 := by
    rcases hlen with ⟨hlen, rfl⟩ | ⟨-, hlen⟩
    · rw [List.length_nil]
      omega
    · omega
  have htaken : pre.length = 8 ∨ sep = true ∧ pre.length + post.length < 8 := hlen.imp And.left id
  have hpre8 : pre.length ≤ 8 := by omega
  have hpost8 : post.length ≤ 8 := by omega
  rw [List.length_map, List.length_map, map_numeral_toDigits, map_numeral_toDigits, if_pos htaken,
    ipv6Octets_eq hpre8, if_pos hpost8, ipv6Segments_of_le hsum] at hplain
  rw [Option.map_some, hvalue] at hplain
  rw [parseIpv6_eq, ipv6_of_plain hmapped, htext, List.append_assoc, List.append_assoc, hplain]
  rfl

end

theorem segments_lt {bits : BitVec 128} {n : ℕ} (h : n ∈ IpAddr.segments bits) : n < 65536 := by
  obtain ⟨i, -, rfl⟩ := List.mem_map.mp h
  exact Nat.mod_lt _ (by omega)

/-- The two kinds of texts. -/
theorem v6Text_cases (ip : Ipv6Addr) :
    (∃ bits, IpAddr.mapped bits = ip ∧ IpAddr.v6Text ip = "::ffff:".toList ++ IpAddr.v4Text bits) ∨
      ∃ pre sep post, SegmentsOf ip pre sep post := by
  cases hmapped : IpAddr.toIpv4Mapped ip with
  | some bits =>
    left
    refine ⟨bits, ?_, by unfold IpAddr.v6Text; rw [hmapped]⟩
    unfold IpAddr.toIpv4Mapped at hmapped
    split_ifs at hmapped with hhigh
    obtain rfl := Option.some.inj hmapped
    apply BitVec.eq_of_toNat_eq
    unfold IpAddr.mapped
    rw [BitVec.toNat_ofNat, BitVec.toNat_ofNat]
    have := ip.isLt
    omega
  | none =>
    right
    have hlt : ∀ n ∈ IpAddr.segments ip, n < 65536 := fun n h => segments_lt h
    have h8 : (IpAddr.segments ip).length = 8 := rfl
    have hbits := ipv6OfSegments_segments ip
    obtain ⟨hle, hsegments⟩ := segments_longestZeros (IpAddr.segments ip)
    have htext : IpAddr.v6Text ip =
        if 1 < (IpAddr.longestZeros (IpAddr.segments ip)).2 then
          IpAddr.segmentsText ((IpAddr.segments ip).take (IpAddr.longestZeros (IpAddr.segments ip)).1) ++ "::".toList ++
            IpAddr.segmentsText ((IpAddr.segments ip).drop
              ((IpAddr.longestZeros (IpAddr.segments ip)).1 + (IpAddr.longestZeros (IpAddr.segments ip)).2))
        else IpAddr.segmentsText (IpAddr.segments ip) := by
      unfold IpAddr.v6Text
      rw [hmapped]
    generalize IpAddr.segments ip = segments at *
    generalize (IpAddr.longestZeros segments).1 = start at *
    generalize (IpAddr.longestZeros segments).2 = len at *
    by_cases hlen : 1 < len
    · rw [if_pos hlen, List.append_assoc] at htext
      have hzeros : 8 - (segments.take start).length - (segments.drop (start + len)).length = len := by
        rw [List.length_take, List.length_drop]
        omega
      refine ⟨segments.take start, true, segments.drop (start + len), htext, ?_, ?_, ?_, ?_, ?_⟩
      · exact fun n hn => hlt n (List.mem_of_mem_take hn)
      · exact fun n hn => hlt n (List.mem_of_mem_drop hn)
      · intro h
        cases h
      · right
        refine ⟨rfl, ?_⟩
        rw [List.length_take, List.length_drop]
        omega
      · rw [hzeros, List.append_assoc, ← hsegments, hbits]
    · rw [if_neg hlen] at htext
      refine ⟨segments, false, [], ?_, hlt, fun n hn => (List.not_mem_nil hn).elim, fun _ => rfl, .inl ⟨h8, rfl⟩, ?_⟩
      · rw [htext]
        exact (List.append_nil _).symm
      · rw [h8]
        simpa using hbits

/-- **An IPv6 address is read back.** -/
theorem parseIpv6_v6Text (ip : Ipv6Addr) {rest : List Char} (hrest : IpEnds rest) :
    parseIpv6 (IpAddr.v6Text ip ++ rest) = some (ip, rest) := by
  rcases v6Text_cases ip with ⟨bits, hbits, htext⟩ | ⟨pre, sep, post, h⟩
  · have hrun : ipv6Mapped ("::ffff:".toList ++ (IpAddr.v4Text bits ++ rest)) = some (some ip, rest) := by
      have hip : parseIpv4 (IpAddr.v4Text bits ++ rest) = some (UInt32.ofBitVec bits, rest) :=
        parseIpv4_v4Text (UInt32.ofBitVec bits) hrest.digit
      unfold ipv6Mapped
      rw [bind_run, tagNoCase, tagNoCase_front _ rfl]
      show (parseIpv4 _).bind _ = _
      rw [hip]
      show some (some (IpAddr.mapped bits), rest) = _
      rw [hbits]
    rw [htext, List.append_assoc, parseIpv6_eq, ipv6_run, hrun]
    rfl
  · exact h.parse hrest

/-- The text of an IPv6 address is no IPv4 address. -/
theorem parseIpv4_v6Text (ip : Ipv6Addr) {rest : List Char} (hrest : IpEnds rest) :
    parseIpv4 (IpAddr.v6Text ip ++ rest) = none := by
  cases hrun : parseIpv4 (IpAddr.v6Text ip ++ rest) with
  | none => rfl
  | some x =>
    obtain ⟨a, b, c, d, hs, hquad, -⟩ := quad_of_parseIpv4 hrun
    have htext : IpAddr.v6Text ip ++ rest = a ++ ('.' :: (b ++ (dotted c ++ (dotted d ++ x.2)))) := by
      rw [hs]
      simp [quadText, dotted]
    have hdot : ¬ (isHexDigit '.' = true ∨ '.' = ':') := by decide
    rcases v6Text_cases ip with ⟨bits, -, hmapped⟩ | ⟨pre, sep, post, h⟩
    · obtain ⟨y, a, rfl⟩ := List.exists_cons_of_ne_nil hquad.first.ne_nil
      rw [hmapped] at htext
      injection htext with hy
      exact absurd (hquad.first.all y List.mem_cons_self) (by rw [← hy]; decide)
    · rcases List.append_eq_append_iff.mp htext with ⟨u, ha, hrest'⟩ | ⟨u, ht', hdot'⟩
      · cases u with
        | nil => exact absurd rfl (hrest' ▸ hrest : IpEnds ('.' :: _)).head.2.1
        | cons y u =>
          have hy := isHexDigit_of_isDigit (hquad.first.all y (ha ▸ List.mem_append_right _ List.mem_cons_self))
          rw [(hrest' ▸ hrest : IpEnds (y :: _)).head.1] at hy
          cases hy
      · cases u with
        | nil =>
          rw [List.nil_append] at hdot'
          exact absurd rfl (hdot'.symm ▸ hrest : IpEnds ('.' :: _)).head.2.1
        | cons y u =>
          injection hdot' with hy
          exact absurd (h.mem_text (ht' ▸ List.mem_append_right _ (hy ▸ List.mem_cons_self))) hdot

/-! ### The value of a rule -/

def ipText : IpAddr → List Char
  | .v4 ip => Dns.IpAddr.v4Text ip.toBitVec
  | .v6 ip => Dns.IpAddr.v6Text ip

theorem parseIp_ipText (ip : IpAddr) {rest : List Char} (hrest : IpEnds rest) :
    parseIp (ipText ip ++ rest) = some (ip, rest) := by
  unfold parseIp
  rw [orElse_run]
  cases ip with
  | v4 ip =>
    have hrun : (IpAddr.v4 <$> parseIpv4) (ipText (.v4 ip) ++ rest) = some (.v4 ip, rest) := by
      show (parseIpv4 _).bind _ = _
      rw [ipText, parseIpv4_v4Text ip hrest.digit]
      rfl
    rw [hrun]
    rfl
  | v6 ip =>
    have hnone : (IpAddr.v4 <$> parseIpv4) (ipText (.v6 ip) ++ rest) = none := by
      show (parseIpv4 _).bind _ = _
      rw [ipText, parseIpv4_v6Text ip hrest]
      rfl
    have hrun : (IpAddr.v6 <$> parseIpv6) (ipText (.v6 ip) ++ rest) = some (.v6 ip, rest) := by
      show (parseIpv6 _).bind _ = _
      rw [ipText, parseIpv6_v6Text ip hrest]
      rfl
    rw [hnone, hrun]
    rfl

/-- A value that the parser makes: addresses of one family at least. -/
def AddressRuleValue.Made : AddressRuleValue → Prop
  | .addr v4 v6 => ∃ ips : List IpAddr, ips ≠ [] ∧ v4 = notEmpty (ips.filterMap asV4) ∧ v6 = notEmpty (ips.filterMap asV6)
  | _ => True

/-- The comma between two addresses. -/
def ipComma : TextParser Unit := do
  let _ ← space0
  char ','
  let _ ← space0
  pure ()

def parseIps : TextParser AddressRuleValue :=
  (fun ips : List IpAddr => AddressRuleValue.addr (notEmpty (ips.filterMap asV4)) (notEmpty (ips.filterMap asV6))) <$>
    sepList1 ipComma parseIp

theorem parseAddressRuleValue_eq : parseAddressRuleValue =
    (((fun _ => .soav4) <$> tag (· == ·) ['#', '4']) <|> ((fun _ => .soav6) <$> tag (· == ·) ['#', '6']) <|>
      ((fun _ => .soa) <$> char '#') <|> ((fun _ => .ignv4) <$> tag (· == ·) ['-', '4']) <|>
      ((fun _ => .ignv6) <$> tag (· == ·) ['-', '6']) <|> ((fun _ => .ign) <$> char '-') <|> parseIps) := rfl

/-- What does not begin with a sign is a list of addresses. -/
theorem parseAddressRuleValue_ips {s : List Char} (h : s.head? ≠ some '#') (h' : s.head? ≠ some '-') :
    parseAddressRuleValue s = parseIps s := by
  have hnone {c : Char} (hc : s.head? ≠ some c) (t : List Char) (v : AddressRuleValue) :
      ((fun _ => v) <$> tag (· == ·) (c :: t)) s = none := by
    show (tag (· == ·) (c :: t) s).bind _ = none
    cases s with
    | nil => rfl
    | cons b s =>
      have hb : (b == c) = false := beq_eq_false_iff_ne.mpr fun h => hc (h ▸ rfl)
      show (if (b == c) = true then _ else none).bind _ = none
      rw [hb]
      rfl
  rw [parseAddressRuleValue_eq]
  unfold char
  iterate 6 rw [orElse_run]
  rw [hnone h, hnone h, hnone h, hnone h', hnone h', hnone h']
  rfl

theorem made_of_parse {s rest : List Char} {v : AddressRuleValue} (h : parseAddressRuleValue s = some (v, rest)) :
    v.Made := by
  have hsign {t : List Char} {w : AddressRuleValue} (hw : w.Made)
      (h : ((fun _ => w) <$> tag (· == ·) t) s = some (v, rest)) : v.Made := by
    obtain ⟨x, -, hx⟩ := Option.bind_eq_some_iff.mp h
    cases hx
    exact hw
  rw [parseAddressRuleValue_eq] at h
  unfold char at h
  iterate 6 rw [orElse_run, Option.or_eq_some_iff] at h
  rcases h with h | ⟨-, h | ⟨-, h | ⟨-, h | ⟨-, h | ⟨-, h | ⟨-, h⟩⟩⟩⟩⟩⟩
  · exact hsign (w := .soav4) trivial h
  · exact hsign (w := .soav6) trivial h
  · exact hsign (w := .soa) trivial h
  · exact hsign (w := .ignv4) trivial h
  · exact hsign (w := .ignv6) trivial h
  · exact hsign (w := .ign) trivial h
  · obtain ⟨⟨ips, s'⟩, hips, hv⟩ := Option.bind_eq_some_iff.mp h
    cases hv
    refine ⟨ips, ?_, rfl, rfl⟩
    rintro rfl
    unfold sepList1 at hips
    rw [bind_run] at hips
    obtain ⟨x, -, hx⟩ := Option.bind_eq_some_iff.mp hips
    rw [bind_run] at hx
    obtain ⟨y, -, hy⟩ := Option.bind_eq_some_iff.mp hx
    cases hy

theorem head_ipText (ip : IpAddr) : ∃ c s, ipText ip = c :: s ∧ (isHexDigit c = true ∨ c = ':') := by
  cases ip with
  | v4 ip =>
    have hgroup := (octet_decimal (Nat.mod_lt (ip.toBitVec.toNat >>> 24) (by omega : 0 < 256)) notOk_nil).toGroup
    obtain ⟨c, s, hc⟩ := List.exists_cons_of_ne_nil hgroup.ne_nil
    have hdigit := isHexDigit_of_isDigit (hgroup.all c (hc ▸ List.mem_cons_self))
    have htext : ∃ rest, ipText (.v4 ip) = c :: rest := by
      rw [ipText, v4Text_eq, quadText, hc]
      exact ⟨_, rfl⟩
    obtain ⟨rest, htext⟩ := htext
    exact ⟨c, rest, htext, .inl hdigit⟩
  | v6 ip =>
    rcases v6Text_cases ip with ⟨bits, -, htext⟩ | ⟨pre, sep, post, h⟩
    · exact ⟨':', _, htext, .inr rfl⟩
    · have hne : Dns.IpAddr.v6Text ip ≠ [] := by
        intro hnil
        have hread := parseIpv6_v6Text ip notOk_nil
        rw [hnil] at hread
        cases hread
      obtain ⟨c, s, hc⟩ := List.exists_cons_of_ne_nil hne
      exact ⟨c, s, hc, h.mem_text (hc ▸ List.mem_cons_self)⟩

theorem ipComma_ipText (ip : IpAddr) (rest : List Char) :
    ipComma (',' :: (ipText ip ++ rest)) = some ((), ipText ip ++ rest) := by
  obtain ⟨c, s, hc, hchar⟩ := head_ipText ip
  have hspace : (c == ' ' || c == '\t') = false := by
    rw [Bool.or_eq_false_iff, beq_eq_false_iff_ne, beq_eq_false_iff_ne]
    constructor
    · rintro rfl
      exact absurd hchar (by decide)
    · rintro rfl
      exact absurd hchar (by decide)
  have hnone : space0 (c :: (s ++ rest)) = some ([], c :: (s ++ rest)) := by
    unfold space0 takeWhile
    rw [List.takeWhile_cons_of_neg (by simp [hspace]), List.dropWhile_cons_of_neg (by simp [hspace])]
  unfold ipComma
  rw [hc, List.cons_append]
  show (char ',' >>= fun _ => space0 >>= fun _ => pure ()) (',' :: (c :: (s ++ rest))) = _
  unfold char
  rw [tag_bind_cons, bind_run, hnone]
  rfl

theorem getD_notEmpty {A : Type} (l : List A) : (notEmpty l).getD [] = l := by
  cases l with
  | nil => rfl
  | cons a l => rfl

/-- **The value of a rule is read back.** -/
theorem parseAddressRuleValue_text {v : AddressRuleValue} (h : v.Made) :
    parseAddressRuleValue (addressRuleValueText v) = some (v, []) := by
  cases v with
  | addr v4 v6 =>
    obtain ⟨ips, hne, rfl, rfl⟩ := h
    have hips : (ips.filterMap asV4).map IpAddr.v4 ++ (ips.filterMap asV6).map IpAddr.v6 ≠ [] := by
      obtain ⟨ip, ips, rfl⟩ := List.exists_cons_of_ne_nil hne
      cases ip <;> simp [asV4, asV6]
    have htext : addressRuleValueText (.addr (notEmpty (ips.filterMap asV4)) (notEmpty (ips.filterMap asV6))) =
        joined ',' (((ips.filterMap asV4).map IpAddr.v4 ++ (ips.filterMap asV6).map IpAddr.v6).map ipText) := by
      rw [joined_eq_intercalate]
      show List.intercalate [','] (((notEmpty _).getD []).map _ ++ ((notEmpty _).getD []).map _) = _
      rw [getD_notEmpty, getD_notEmpty, List.map_append, List.map_map, List.map_map]
      rfl
    have h4 : ((ips.filterMap asV4).map IpAddr.v4 ++ (ips.filterMap asV6).map IpAddr.v6).filterMap asV4 =
        ips.filterMap asV4 := by
      simp [List.filterMap_append, List.filterMap_map, Function.comp_def, asV4]
    have h6 : ((ips.filterMap asV4).map IpAddr.v4 ++ (ips.filterMap asV6).map IpAddr.v6).filterMap asV6 =
        ips.filterMap asV6 := by
      simp [List.filterMap_append, List.filterMap_map, Function.comp_def, asV6]
    rw [htext]
    generalize (ips.filterMap asV4).map IpAddr.v4 ++ (ips.filterMap asV6).map IpAddr.v6 = printed at *
    obtain ⟨ip, rest, rfl⟩ := List.exists_cons_of_ne_nil hips
    have hread := sepList1_items (fun ip rest h => parseIp_ipText ip h) ipComma_ipText
      (fun s => notOk_cons (by decide)) notOk_nil rfl ip rest
    obtain ⟨c, s, hc, hchar⟩ := head_ipText ip
    have hhead (d : Char) (hd : ¬ (isHexDigit d = true ∨ d = ':')) :
        (joined ',' ((ip :: rest).map ipText)).head? ≠ some d := by
      rw [List.map_cons, joined, hc]
      rintro hd'
      obtain rfl := Option.some.inj hd'
      exact hd hchar
    rw [parseAddressRuleValue_ips (hhead '#' (by decide)) (hhead '-' (by decide))]
    rw [List.append_nil, List.map_id'] at hread
    unfold parseIps
    show (sepList1 ipComma parseIp _).bind _ = _
    rw [hread]
    show some (AddressRuleValue.addr _ _, _) = _
    rw [h4, h6]
  | soa => rfl
  | soav4 => rfl
  | soav6 => rfl
  | ign => rfl
  | ignv4 => rfl
  | ignv6 => rfl

end Rule
end SmartDns
