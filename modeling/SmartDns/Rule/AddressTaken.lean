/-
# What is taken for an address

`nom_recipes::ip` takes an address from the front of a text and leaves what is behind. What it takes
is four octets, or four octets behind `::ffff:`, or eight groups, or fewer around a `::`
(`ipAddr_eq_some_iff`); eight groups may have a `::` or further groups behind them, which are taken too.

Where the text of an address stands in front, and nothing that could belong to it behind, the parser
takes that address, unless the last two groups are written as an IPv4 address
(`AddressText.run`).

Key definitions: `ipAddr`, `Taken`, `Overlong`, `addressGoesOn`.
Key theorems: `Taken.run`, `taken_of_run`, `Taken.ipFromStr`, `AddressText.run`, `zeros_of_eq`.
-/
import SmartDns.Lib.Digits
import SmartDns.Lib.Text
import SmartDns.Rule.AddressGrammar

namespace SmartDns
namespace Rule

open Dns
open Lib Lib.Parse

/-- `nom_recipes::ip`; where it panics there is no address. -/
def ipAddr : TextParser (Option Dns.IpAddr) :=
  ((fun ip : Ipv4Addr => some (.v4 ip.toBitVec)) <$> parseIpv4) <|> (Option.map .v6 <$> ipv6)

theorem ipAddr_run (s : List Char) : ipAddr s =
    ((parseIpv4 s).map fun x => (some (.v4 x.1.toBitVec), x.2)).or ((ipv6 s).map fun x => (x.1.map .v6, x.2)) := by
  have hmap {A B : Type} (f : A → B) (p : TextParser A) : (f <$> p) s = (p s).map fun x => (f x.1, x.2) := by
    show (p s).bind _ = (p s).map _
    cases p s <;> rfl
  unfold ipAddr
  rw [orElse_run, hmap, hmap]

theorem ipAddr_of_quad {s rest : List Char} {ip : Ipv4Addr} (h : parseIpv4 s = some (ip, rest)) :
    ipAddr s = some (some (.v4 ip.toBitVec), rest) := by
  rw [ipAddr_run, h]
  rfl

theorem ipAddr_of_none {s : List Char} (h : parseIpv4 s = none) :
    ipAddr s = (ipv6 s).map fun x => (x.1.map .v6, x.2) := by
  rw [ipAddr_run, h]
  rfl

/-! ### The text that is taken -/

/-- The text of groups on both sides. -/
def groupsText (pre : List (List Char)) (sep : Bool) (post : List (List Char)) : List Char :=
  joined ':' pre ++ ((if sep then [':', ':'] else []) ++ joined ':' post)

theorem Ipv6Parts.eq_groupsText {s rest : List Char} {pre post : List (List Char)} {sep : Bool}
    (h : Ipv6Parts s pre sep post rest) : s = groupsText pre sep post ++ rest := by
  simp [h.text, groupsText]

/-- Eight groups, with `::` or further groups behind them. -/
def overlong (pre : List (List Char)) (sep : Bool) (post : List (List Char)) : Bool :=
  pre.length == 8 && (sep || !post.isEmpty)

/-- More than eight groups behind eight: the parser panics. -/
def Overlong (s : List Char) : Prop := ∃ pre sep post rest, Ipv6Parts s pre sep post rest ∧ pre.length = 8 ∧
  8 < post.length

/-- No IPv4 address behind `::ffff:`. -/
def NotMapped (s : List Char) : Prop := ∀ front a b c d rest, s = front ++ (quadText a b c d ++ rest) →
  MappedFront front → ¬ Quad a b c d rest

/-- A text in front of another, the address it is taken for, and whether the text is one of that address. -/
inductive Taken : List Char → Dns.IpAddr → Bool → List Char → Prop
  | quad {a b c d rest : List Char} (h : Quad a b c d rest) :
    Taken (quadText a b c d) (.v4 (quadValue a b c d).toBitVec) (!zeroLedQuad a b c d) rest
  | mapped {front a b c d rest : List Char} (hfront : MappedFront front) (h : Quad a b c d rest) :
    Taken (front ++ quadText a b c d) (.v6 (IpAddr.mapped (quadValue a b c d).toBitVec)) (!zeroLedQuad a b c d) rest
  | groups {pre post : List (List Char)} {sep : Bool} {rest : List Char}
    (h : Ipv6Parts (groupsText pre sep post ++ rest) pre sep post rest)
    (hlen : pre.length = 8 ∨ sep = true ∧ pre.length + post.length < 8) (hpost : post.length ≤ 8)
    (hmapped : NotMapped (groupsText pre sep post ++ rest)) :
    Taken (groupsText pre sep post)
      (.v6 (ipv6OfSegments (ipv6Segments (pre.map (numeral 16)) (post.map (numeral 16)))))
      (!overlong pre sep post) rest

/-! ### Cuts of a text -/

def hexColon (c : Char) : Bool := isHexDigit c || c == ':'

theorem hexColon_of_hex {c : Char} (h : isHexDigit c = true) : hexColon c = true := by simp [hexColon, h]

theorem hexColon_joined {gs : List (List Char)} (hgs : ∀ g ∈ gs, HexGroup g) :
    ∀ c ∈ joined ':' gs, hexColon c = true := by
  cases gs with
  | nil => simp [joined]
  | cons g gs =>
    intro c hc
    rcases List.mem_append.mp hc with hc | hc
    · exact hexColon_of_hex ((hgs g List.mem_cons_self).all c hc)
    · obtain ⟨g', hg', hc⟩ := List.mem_flatMap.mp hc
      rcases List.mem_cons.mp hc with rfl | hc
      · decide
      · exact hexColon_of_hex ((hgs g' (List.mem_cons_of_mem _ hg')).all c hc)

/-- A text with a colon behind its first digits has no IPv4 address in front. -/
theorem parseIpv4_of_colon {v w : List Char} (hv : ∀ c ∈ v, isHexDigit c = true) :
    parseIpv4 (v ++ ':' :: w) = none := by
  cases hrun : parseIpv4 (v ++ ':' :: w) with
  | none => rfl
  | some x =>
    obtain ⟨a, b, c, d, htext, hquad, -⟩ := quad_of_parseIpv4 hrun
    rw [quadText_append] at htext
    have := (append_cons_inj_of_all hv hquad.first.hexDigits (by decide) (by decide) htext).2.1
    exact absurd this (by decide)

/-- Digits and colons without a dot behind them have no IPv4 address among them. -/
theorem notMapped_of_noDot {u r : List Char} (hu : ∀ c ∈ u, hexColon c = true) (hr : NotOk hexColon r)
    (hdot : r.head? ≠ some '.') : NotMapped (u ++ r) := by
  intro front a b c d rest htext hfront hquad
  obtain ⟨g, rfl, hg, -⟩ := mappedFront_cases hfront
  have hall : ∀ x ∈ [':', ':'] ++ (g ++ [':']) ++ a, hexColon x = true := by
    intro x hx
    rcases List.mem_append.mp hx with hx | hx
    · simp only [List.cons_append, List.nil_append, List.mem_cons, List.mem_append, List.not_mem_nil, or_false] at hx
      rcases hx with rfl | rfl | hx | rfl
      · decide
      · decide
      · exact hexColon_of_hex (hg.all x hx)
      · decide
    · exact hexColon_of_hex (hquad.first.hexDigits x hx)
  rw [quadText_append, ← List.append_assoc] at htext
  cases r with
  | nil =>
    rw [List.append_nil] at htext
    exact absurd (hu '.' (by rw [htext]; simp)) (by decide)
  | cons c r =>
    have := (append_cons_inj_of_all hu hall (hr c rfl) (by decide) htext).2.1
    exact hdot (by rw [this]; rfl)

theorem ipv6Mapped_of_notMapped {s : List Char} (h : NotMapped s) : ipv6Mapped s = none := by
  cases hrun : ipv6Mapped s with
  | none => rfl
  | some x =>
    obtain ⟨front, a, b, c, d, hs, hfront, hquad, -⟩ := quad_of_ipv6Mapped hrun
    exact absurd hquad (h front a b c d x.2 hs hfront)

theorem notMapped_of_ipv6Mapped {s : List Char} (h : ipv6Mapped s = none) : NotMapped s := by
  rintro front a b c d rest rfl hfront hquad
  rw [ipv6Mapped_quad hfront hquad] at h
  cases h

theorem quad_alone {a b c d rest : List Char} (h : Quad a b c d rest) : Quad a b c d [] where
  first := ⟨h.first.toGroup, .inr (notOk_dotted _ _), h.first.lt⟩
  second := ⟨h.second.toGroup, .inr (notOk_dotted _ _), h.second.lt⟩
  third := ⟨h.third.toGroup, .inr (notOk_dotted _ _), h.third.lt⟩
  fourth := ⟨h.fourth.toGroup, .inr notOk_nil, h.fourth.lt⟩

theorem quad_before {a b c d rest : List Char} (h : Quad a b c d []) (hrest : NotOk Char.isDigit rest) :
    Quad a b c d rest where
  first := ⟨h.first.toGroup, .inr (notOk_dotted _ _), h.first.lt⟩
  second := ⟨h.second.toGroup, .inr (notOk_dotted _ _), h.second.lt⟩
  third := ⟨h.third.toGroup, .inr (notOk_dotted _ _), h.third.lt⟩
  fourth := ⟨h.fourth.toGroup, .inr hrest, h.fourth.lt⟩

/-- Groups that make an address have a colon behind the first. -/
theorem colon_of_groups {s rest : List Char} {pre post : List (List Char)} {sep : Bool}
    (h : Ipv6Parts s pre sep post rest) (hlen : pre.length = 8 ∨ sep = true) :
    ∃ v w, s = v ++ ':' :: w ∧ ∀ c ∈ v, isHexDigit c = true := by
  rw [h.text]
  cases sep with
  | true => exact exists_group_colon h.left (':' :: (joined ':' post ++ rest))
  | false =>
    have hlen : pre.length = 8 := hlen.resolve_right (by decide)
    obtain ⟨g, gs, rfl⟩ := List.exists_cons_of_ne_nil (l := pre) (fun h => by rw [h] at hlen; cases hlen)
    obtain ⟨g', gs, rfl⟩ := List.exists_cons_of_ne_nil (l := gs) (fun h => by rw [h] at hlen; cases hlen)
    exact ⟨g, g' ++ (gs.flatMap (':' :: ·) ++ (joined ':' post ++ rest)), by simp [joined],
      (h.left g List.mem_cons_self).all⟩

theorem parseIpv4_of_groups {s rest : List Char} {pre post : List (List Char)} {sep : Bool}
    (h : Ipv6Parts s pre sep post rest) (hlen : pre.length = 8 ∨ sep = true) : parseIpv4 s = none := by
  obtain ⟨v, w, rfl, hv⟩ := colon_of_groups h hlen
  exact parseIpv4_of_colon hv

/-- **What is taken is what the parser gives.** -/
theorem Taken.run {p rest : List Char} {ip : Dns.IpAddr} {clean : Bool} (h : Taken p ip clean rest) :
    ipAddr (p ++ rest) = some (some ip, rest) := by
  cases h with
  | quad h => exact ipAddr_of_quad (parseIpv4_quad h)
  | @mapped front a b c d _ hfront h =>
    have hnone : parseIpv4 (front ++ quadText a b c d ++ rest) = none := by
      obtain ⟨g, rfl, -, -⟩ := mappedFront_cases hfront
      exact parseIpv4_of_colon (v := []) (by simp)
    rw [ipAddr_of_none hnone, ipv6_run, List.append_assoc, ipv6Mapped_quad hfront h]
    rfl
  | @groups pre post sep _ h hlen hpost hmapped =>
    have hnone := parseIpv4_of_groups h (hlen.imp_right (·.1))
    have hpre : (pre.map (numeral 16)).length ≤ 8 := by
      rw [List.length_map]
      omega
    rw [ipAddr_of_none hnone, ipv6_of_plain (ipv6Mapped_of_notMapped hmapped), h.plain, if_pos hlen,
      ipv6Octets_eq hpre, if_pos (by rwa [List.length_map])]
    rfl

/-- What the parser gives was taken, or it panics. -/
theorem taken_of_run {s rest : List Char} {x : Option Dns.IpAddr} (h : ipAddr s = some (x, rest)) :
    (∃ p ip clean, s = p ++ rest ∧ x = some ip ∧ Taken p ip clean rest) ∨ x = none ∧ Overlong s := by
  cases hv4 : parseIpv4 s with
  | some y =>
    obtain ⟨ip, rest'⟩ := y
    rw [ipAddr_of_quad hv4] at h
    cases h
    obtain ⟨a, b, c, d, rfl, hquad, rfl⟩ := quad_of_parseIpv4 hv4
    exact .inl ⟨_, _, _, rfl, rfl, .quad hquad⟩
  | none =>
    rw [ipAddr_of_none hv4] at h
    cases hmapped : ipv6Mapped s with
    | some y =>
      obtain ⟨r, rest'⟩ := y
      obtain ⟨front, a, b, c, d, rfl, hfront, hquad, rfl⟩ := quad_of_ipv6Mapped hmapped
      rw [ipv6_run, hmapped] at h
      cases h
      exact .inl ⟨_, _, _, (List.append_assoc _ _ _).symm, rfl, .mapped hfront hquad⟩
    | none =>
      obtain ⟨pre, sep, post, rest', hparts⟩ := exists_parts s
      rw [ipv6_of_plain hmapped, hparts.plain] at h
      by_cases hlen : pre.length = 8 ∨ sep = true ∧ pre.length + post.length < 8
      · have hpre : (pre.map (numeral 16)).length ≤ 8 := by
          rw [List.length_map]
          omega
        rw [if_pos hlen, ipv6Octets_eq hpre, List.length_map] at h
        by_cases hpost : post.length ≤ 8
        · rw [if_pos hpost] at h
          cases h
          have htext := hparts.eq_groupsText
          exact .inl ⟨_, _, _, htext, rfl,
            .groups (htext ▸ hparts) hlen hpost (htext ▸ notMapped_of_ipv6Mapped hmapped)⟩
        · rw [if_neg hpost] at h
          cases h
          exact .inr ⟨rfl, pre, sep, post, _, hparts, hlen.resolve_right (by omega), by omega⟩
      · rw [if_neg hlen] at h
        cases h

theorem Overlong.run {s : List Char} (h : Overlong s) : ∃ rest, ipAddr s = some (none, rest) := by
  obtain ⟨pre, sep, post, rest, hparts, hlen, hpost⟩ := h
  have hmapped : ipv6Mapped s = none := by
    obtain ⟨g, gs, rfl⟩ := List.exists_cons_of_ne_nil (l := pre) (fun h => by rw [h] at hlen; cases hlen)
    rw [hparts.text]
    exact ipv6Mapped_eq_none (hparts.left g List.mem_cons_self)
  have hpre : (pre.map (numeral 16)).length ≤ 8 := by
    rw [List.length_map]
    omega
  refine ⟨rest, ?_⟩
  rw [ipAddr_of_none (parseIpv4_of_groups hparts (.inl hlen)), ipv6_of_plain hmapped, hparts.plain,
    if_pos (.inl hlen), ipv6Octets_eq hpre, List.length_map, if_neg (by omega)]
  rfl

/-! ### The texts of addresses among them -/

theorem ipFromStr_of_none {s : List Char} (h : readIpv4Addr s = none) : ipFromStr s = (ipv6FromStr s).map .v6 := by
  unfold ipFromStr
  rw [h]

theorem readIpv4Addr_of_colon {v w : List Char} (hv : ∀ c ∈ v, isHexDigit c = true) :
    readIpv4Addr (v ++ ':' :: w) = none := by
  cases hread : readIpv4Addr (v ++ ':' :: w) with
  | none => rfl
  | some x =>
    obtain ⟨x, rest⟩ := x
    obtain ⟨a, b, c, d, htext, hquad, -⟩ := readIpv4Addr_sound hread
    rw [quadText_append] at htext
    have := (append_cons_inj_of_all hv hquad.first.hexDigits (by decide) (by decide) htext).2.1
    exact absurd this (by decide)

theorem colon_not_mem_quadText {a b c d rest : List Char} (h : Quad a b c d rest) : ':' ∉ quadText a b c d := by
  have hoctet {g rest : List Char} (hg : Octet g rest) : ':' ∉ g := fun hmem => absurd (hg.all _ hmem) (by decide)
  simp [quadText, dotted, hoctet h.first, hoctet h.second, hoctet h.third, hoctet h.fourth]

/-- With `::` or more groups behind eight there is no address. -/
theorem ipv6FromStr_overlong {pre post : List (List Char)} {sep : Bool} {rest : List Char}
    (h : Ipv6Parts (groupsText pre sep post ++ rest) pre sep post rest) (hlen : pre.length = 8)
    (hmore : sep = true ∨ post ≠ []) : ipv6FromStr (groupsText pre sep post) = none := by
  by_cases hsep : sep = true
  · subst hsep
    have hfull := readIpv6Addr_full h.left hlen (noDigit_colon (':' :: joined ':' post))
    exact ipv6FromStr_of_rest hfull
  · obtain rfl : sep = false := Bool.not_eq_true _ ▸ hsep
    have hpost : post ≠ [] := hmore.resolve_left hsep
    have hdigit (tail : List Char) : ¬ NotOk isHexDigit (joined ':' post ++ tail) := by
      obtain ⟨g, gs, rfl⟩ := List.exists_cons_of_ne_nil hpost
      have hg := h.right g List.mem_cons_self
      obtain ⟨c, g', rfl⟩ := List.exists_cons_of_ne_nil hg.ne_nil
      intro hno
      exact absurd (hg.all c List.mem_cons_self) (by rw [hno c rfl]; decide)
    have hlong : ∀ g, pre.getLast? = some g → g.length = 4 := fun g hg =>
      ((stops_of_ends h.leftEnds hg).full).resolve_right (hdigit rest)
    have hnone := readIpv6Addr_long h.left hlen hlong (hdigit [])
    rw [List.append_nil] at hnone
    exact ipv6FromStr_of_none hnone

/-- **The standard library reads what is taken, for the same address, or does not read it at all.** -/
theorem Taken.ipFromStr {p rest : List Char} {ip : Dns.IpAddr} {clean : Bool} (h : Taken p ip clean rest) :
    Rule.ipFromStr p = if clean then some ip else none := by
  cases h with
  | @quad a b c d _ h =>
    cases hzero : zeroLedQuad a b c d with
    | false => exact (ipFromStr_eq_some_iff _ _).mpr (hzero ▸ .quad (quad_alone h))
    | true =>
      have hread := readIpv4Addr_quad (quad_alone h)
      unfold zeroLedQuad at hzero
      rw [if_pos hzero] at hread
      have hv6 : ipv6FromStr (quadText a b c d) = none := by
        cases hv6 : ipv6FromStr (quadText a b c d) with
        | none => rfl
        | some ip =>
          obtain ⟨v, w, htext, -⟩ := (addressText_of_ipv6FromStr hv6).colon
          exact absurd (by rw [htext]; simp) (colon_not_mem_quadText h)
      rw [ipFromStr_of_none hread, hv6]
      rfl
  | @mapped front a b c d _ hfront h =>
    have hread : readIpv4Addr (front ++ quadText a b c d) = none := by
      obtain ⟨g, rfl, -, -⟩ := mappedFront_cases hfront
      exact readIpv4Addr_of_colon (v := []) (by simp)
    rw [ipFromStr_of_none hread, ipv6FromStr_mapped hfront (quad_alone h)]
    unfold zeroLedQuad
    cases zeroLed a || zeroLed b || zeroLed c || zeroLed d <;> rfl
  | @groups pre post sep _ h hlen hpost hmapped =>
    have hcase : overlong pre sep post = true ∨ overlong pre sep post = false := by
      cases overlong pre sep post <;> simp
    rcases hcase with hover | hover
    · have hmore : pre.length = 8 ∧ (sep = true ∨ post ≠ []) := by simpa [overlong] using hover
      have hread : readIpv4Addr (groupsText pre sep post) = none := by
        have hself : Ipv6Parts (groupsText pre sep post ++ rest) pre sep post rest := h
        obtain ⟨g, gs, rfl⟩ := List.exists_cons_of_ne_nil (l := pre) (fun h => by rw [h] at hmore; cases hmore.1)
        obtain ⟨g', gs, rfl⟩ := List.exists_cons_of_ne_nil (l := gs) (fun h => by rw [h] at hmore; cases hmore.1)
        have htext : groupsText (g :: g' :: gs) sep post = g ++ ':' :: (g' ++ (gs.flatMap (':' :: ·) ++
            ((if sep then [':', ':'] else []) ++ joined ':' post))) := by simp [groupsText, joined]
        rw [htext]
        exact readIpv4Addr_of_colon (hself.left g List.mem_cons_self).all
      rw [ipFromStr_of_none hread, ipv6FromStr_overlong h hmore.1 hmore.2, hover]
      rfl
    · rw [hover]
      apply (ipFromStr_eq_some_iff _ _).mpr
      by_cases hfull : pre.length = 8
      · have hnone : sep = false ∧ post = [] := by simpa [overlong, hfull] using hover
        obtain ⟨rfl, rfl⟩ := hnone
        have htext : groupsText pre false [] = fullText pre := by simp [groupsText, fullText, joined]
        have hvalue : ipv6Segments (pre.map (numeral 16)) ([].map (numeral 16)) = pre.map (numeral 16) := by
          rw [ipv6Segments_of_le (by simp [hfull])]
          simp [hfull]
        rw [htext, hvalue]
        exact .full h.left hfull
      · obtain ⟨rfl, hshort⟩ := hlen.resolve_left hfull
        have htext : groupsText pre true post = shortText pre post := by simp [groupsText, shortText]
        rw [htext]
        exact .short h.left h.right hshort

/-! ### What is taken of the text of an address -/

/-- A character that could belong to the address in front of it. -/
def addressGoesOn : Dns.IpAddr → Char → Bool
  | .v4 _, c => c.isDigit || c == '.' || c == ':'
  | .v6 _, c => isHexDigit c || c == '.' || c == ':'

section

variable {r : List Char}

theorem notDigit_of_v4 {bits : BitVec 32} (h : NotOk (addressGoesOn (.v4 bits)) r) : NotOk Char.isDigit r :=
  h.mono fun c hc => by simp [addressGoesOn, hc]

theorem notHex_of_v6 {bits : BitVec 128} (h : NotOk (addressGoesOn (.v6 bits)) r) : NotOk isHexDigit r :=
  h.mono fun c hc => by simp [addressGoesOn, hc]

theorem notHexColon_of_v6 {bits : BitVec 128} (h : NotOk (addressGoesOn (.v6 bits)) r) : NotOk hexColon r := by
  refine h.mono fun c hc => ?_
  rcases Bool.or_eq_true_iff.mp hc with hc | hc
  · simp [addressGoesOn, hc]
  · simp [addressGoesOn, eq_of_beq hc]

theorem head_ne_of_v6 {bits : BitVec 128} (h : NotOk (addressGoesOn (.v6 bits)) r) {c : Char}
    (hc : addressGoesOn (.v6 bits) c = true) : r.head? ≠ some c := by
  intro hhead
  have := h c hhead
  rw [hc] at this
  cases this

end

/-- Six groups and an IPv4 address. -/
def SixForm (p : List Char) (zero : Bool) : Prop := ∃ gs a b c d, p = sixFront gs ++ quadText a b c d ∧
  (∀ g ∈ gs, HexGroup g) ∧ gs.length = 6 ∧ Quad a b c d [] ∧ zero = zeroLedQuad a b c d

/-- Groups around a `::`, and an IPv4 address behind them. -/
structure MidForm (pre post : List (List Char)) (a b c d : List Char) : Prop where
  left : ∀ g ∈ pre, HexGroup g
  right : ∀ g ∈ post, HexGroup g
  short : pre.length + post.length < 6
  octets : Quad a b c d []

/-- The address of such a text. -/
def midAddress (pre post : List (List Char)) (a b c d : List Char) : Dns.IpAddr :=
  .v6 (ipv6OfSegments (ipv6Segments (pre.map (numeral 16)) (post.map (numeral 16) ++ quadGroups a b c d)))

/-- The address such a text is taken for: the first octet is a group, and the last. -/
def midTaken (pre post : List (List Char)) (a : List Char) : Dns.IpAddr :=
  .v6 (ipv6OfSegments (ipv6Segments (pre.map (numeral 16)) ((post ++ [a]).map (numeral 16))))

/-- What is behind the first octet. -/
def octetsBehind (b c d r : List Char) : List Char := dotted b ++ (dotted c ++ (dotted d ++ r))

theorem joined_concat (gs : List (List Char)) (g : List Char) :
    joined ':' (gs ++ [g]) = joined ':' gs ++ (mark gs.length ++ g) := by
  cases gs with
  | nil => simp [joined, mark]
  | cons g' gs => simp [joined, mark]

theorem sixParts {gs : List (List Char)} {a b c d : List Char} (hgs : ∀ g ∈ gs, HexGroup g) (hlen : gs.length = 6)
    (h : Quad a b c d []) (r : List Char) :
    Ipv6Parts (sixFront gs ++ quadText a b c d ++ r) (gs ++ [a]) false [] (octetsBehind b c d r) where
  text := by simp [joined_concat, hlen, mark, sixFront, quadText, octetsBehind]
  left := List.forall_mem_append.mpr ⟨hgs, List.forall_mem_singleton.mpr (hexGroup_octet h.first)⟩
  right _ hg := absurd hg List.not_mem_nil
  leftEnds := ends_of_stops (notOk_cons (by decide)) (fun _ h => absurd (List.cons.inj h).1 (by decide)) _
  rightEnds := notOk_cons (by decide)
  noSep _ := rfl

theorem MidForm.parts {pre post : List (List Char)} {a b c d : List Char} (h : MidForm pre post a b c d)
    (r : List Char) :
    Ipv6Parts (midFront pre post ++ quadText a b c d ++ r) pre true (post ++ [a]) (octetsBehind b c d r) where
  text := by simp [joined_concat, midFront, quadText, octetsBehind]
  left := h.left
  right := List.forall_mem_append.mpr ⟨h.right, List.forall_mem_singleton.mpr (hexGroup_octet h.octets.first)⟩
  leftEnds := ends_of_stops (notOk_cons (by decide))
    (fun _ h => (List.cons.inj h).2 ▸ notOk_cons (by decide)) _
  rightEnds := ends_of_stops (notOk_cons (by decide)) (fun _ h => absurd (List.cons.inj h).1 (by decide)) _
  noSep h := nomatch h

theorem ipAddr_of_parts {s rest : List Char} {pre post : List (List Char)} {sep : Bool}
    (h : Ipv6Parts s pre sep post rest) (hlen : pre.length = 8 ∨ sep = true ∧ pre.length + post.length < 8)
    (hpost : post.length ≤ 8) (hmapped : NotMapped s) : ipAddr s =
      some (some (.v6 (ipv6OfSegments (ipv6Segments (pre.map (numeral 16)) (post.map (numeral 16))))), rest) := by
  have htext := h.eq_groupsText
  have hrun := (Taken.groups (htext ▸ h) hlen hpost (htext ▸ hmapped)).run
  rwa [← htext] at hrun

/-- The text in front of the IPv4 address is `::ffff:` only if the groups are. -/
theorem mappedFront_midFront {pre post : List (List Char)} (hpre : ∀ g ∈ pre, HexGroup g)
    (hpost : ∀ g ∈ post, HexGroup g) (h : MappedFront (midFront pre post)) :
    pre = [] ∧ post.map (numeral 16) = [65535] := by
  obtain ⟨g, htext, hg, hvalue⟩ := mappedFront_cases h
  have hcolon {g : List Char} (hg : HexGroup g) : ':' ∉ g := fun hmem => absurd (hg.all _ hmem) (by decide)
  cases pre with
  | cons g' gs =>
    have hg' := hpre g' List.mem_cons_self
    obtain ⟨c, g', rfl⟩ := List.exists_cons_of_ne_nil hg'.ne_nil
    have hc : c = ':' := by
      have := congrArg List.head? htext
      simpa [midFront, joined] using this
    exact absurd (hg'.all c List.mem_cons_self) (by rw [hc]; decide)
  | nil =>
    have hbehind : joined ':' post ++ mark post.length = g ++ [':'] := by
      simpa [midFront] using htext
    cases post with
    | nil => exact absurd hbehind.symm (by simp [mark])
    | cons g' gs =>
      have hsame : g' ++ gs.flatMap (':' :: ·) = g := List.append_cancel_right (by simpa [joined, mark] using hbehind)
      cases gs with
      | nil =>
        have hg' : g' = g := by simpa using hsame
        exact ⟨rfl, by rw [List.map_singleton, hg', hvalue]⟩
      | cons g'' gs => exact absurd (by rw [← hsame]; simp) (hcolon hg)

theorem notMapped_mid {pre post : List (List Char)} {a b c d : List Char} (h : MidForm pre post a b c d)
    (hfront : ¬ MappedFront (midFront pre post)) (r : List Char) :
    NotMapped (midFront pre post ++ quadText a b c d ++ r) := by
  intro front a' b' c' d' rest htext hfront' hquad
  have hall {u g : List Char} (hu : ∀ x ∈ u, hexColon x = true) (hg : ∀ x ∈ g, isHexDigit x = true) :
      ∀ x ∈ u ++ g, hexColon x = true := fun x hx =>
    (List.mem_append.mp hx).elim (hu x) fun hx => hexColon_of_hex (hg x hx)
  have hmid : ∀ x ∈ midFront pre post, hexColon x = true := by
    intro x hx
    simp only [midFront, List.mem_append, List.mem_cons] at hx
    rcases hx with hx | rfl | rfl | hx | hx
    · exact hexColon_joined h.left x hx
    · decide
    · decide
    · exact hexColon_joined h.right x hx
    · cases hlen : post.length with
      | zero => simp [hlen, mark] at hx
      | succ n =>
        obtain rfl : x = ':' := by simpa [hlen, mark] using hx
        decide
  have hmapped : ∃ g, front = ([':', ':'] ++ g) ++ [':'] ∧ HexGroup g := by
    obtain ⟨g, rfl, hg, -⟩ := mappedFront_cases hfront'
    exact ⟨g, by simp, hg⟩
  have hends : ∃ t, midFront pre post = t ++ [':'] := by
    cases post with
    | nil => exact ⟨joined ':' pre ++ [':'], by simp [midFront, mark]⟩
    | cons g gs => exact ⟨joined ':' pre ++ (':' :: ':' :: joined ':' (g :: gs)), by simp [midFront, mark]⟩
  obtain ⟨g, rfl, hg⟩ := hmapped
  obtain ⟨t, ht⟩ := hends
  have hfrontAll : ∀ x ∈ ([':', ':'] ++ g) ++ [':'], hexColon x = true := by
    intro x hx
    simp only [List.cons_append, List.nil_append, List.mem_cons, List.mem_append, List.not_mem_nil, or_false] at hx
    rcases hx with rfl | rfl | hx | rfl
    · decide
    · decide
    · exact hexColon_of_hex (hg.all x hx)
    · decide
  rw [List.append_assoc, quadText_append, quadText_append, ← List.append_assoc, ← List.append_assoc _ a'] at htext
  have hcut := (append_cons_inj_of_all (hall hmid h.octets.first.hexDigits) (hall hfrontAll hquad.first.hexDigits)
    (by decide) (by decide) htext).1
  -- Both fronts go up to the last colon.
  have hdigits {g rest : List Char} (hg : Octet g rest) : ':' ∉ g := fun hmem => absurd (hg.all _ hmem) (by decide)
  rw [ht, List.append_assoc, List.append_assoc _ [':'] a'] at hcut
  have hsame := (append_sep_inj_last (hdigits h.octets.first) (hdigits hquad.first) hcut).1
  apply hfront
  rw [ht, hsame]
  exact hfront'

/-- Six groups and the first octet are no address. -/
theorem SixForm.run {p : List Char} {zero : Bool} (h : SixForm p zero) (r : List Char) : ipAddr (p ++ r) = none := by
  obtain ⟨gs, a, b, c, d, rfl, hgs, hlen, hquad, -⟩ := h
  have hparts := sixParts hgs hlen hquad r
  have hmapped : ipv6Mapped (sixFront gs ++ quadText a b c d ++ r) = none := by
    obtain ⟨g, gs, rfl⟩ := List.exists_cons_of_ne_nil (l := gs) (fun h => by rw [h] at hlen; cases hlen)
    rw [sixFront, List.append_assoc, List.append_assoc]
    exact ipv6Mapped_eq_none (hgs g List.mem_cons_self)
  have hnone : parseIpv4 (sixFront gs ++ quadText a b c d ++ r) = none := by
    obtain ⟨v, w, htext, hv⟩ := exists_group_colon hgs (quadText a b c d ++ r)
    have : sixFront gs ++ quadText a b c d ++ r = v ++ ':' :: w := by
      rw [← htext, sixFront, List.append_assoc, List.append_assoc]
      rfl
    rw [this]
    exact parseIpv4_of_colon hv
  have hlen' : ¬ ((gs ++ [a]).length = 8 ∨
      false = true ∧ (gs ++ [a]).length + ([] : List (List Char)).length < 8) := by simp [hlen]
  rw [ipAddr_of_none hnone, ipv6_of_plain hmapped, hparts.plain, if_neg hlen']
  rfl

/-- Behind a `::` the first octet is taken for a group. -/
theorem MidForm.run {pre post : List (List Char)} {a b c d : List Char} (h : MidForm pre post a b c d)
    (hfront : ¬ MappedFront (midFront pre post)) (r : List Char) :
    ipAddr (midFront pre post ++ quadText a b c d ++ r) =
      some (some (midTaken pre post a), octetsBehind b c d r) := by
  have hlen : pre.length + (post ++ [a]).length < 8 := by
    have := h.short
    rw [List.length_append, List.length_singleton]
    omega
  exact ipAddr_of_parts (h.parts r) (.inr ⟨rfl, hlen⟩) (by omega) (notMapped_mid h hfront r)

/-- **The parser takes the address whose text stands in front**, unless it ends in an IPv4 address that is not
behind `::ffff:`: behind six groups it takes nothing, and behind a `::` the first octet for a group. -/
theorem AddressText.run {p r : List Char} {ip : Dns.IpAddr} {zero : Bool} (h : AddressText p ip zero)
    (hr : NotOk (addressGoesOn ip) r) :
    ipAddr (p ++ r) = some (some ip, r) ∨
    (SixForm p zero ∧ ipAddr (p ++ r) = none) ∨
    ∃ pre post a b c d, p = midFront pre post ++ quadText a b c d ∧ MidForm pre post a b c d ∧
      ip = midAddress pre post a b c d ∧ zero = zeroLedQuad a b c d ∧
      ipAddr (p ++ r) = some (some (midTaken pre post a), octetsBehind b c d r) := by
  cases h with
  | quad h => exact .inl (ipAddr_of_quad (parseIpv4_quad (quad_before h (notDigit_of_v4 hr))))
  | @full gs hgs hlen =>
    have hhex := notHex_of_v6 hr
    have hcolon := head_ne_of_v6 hr (c := ':') (by simp [addressGoesOn])
    have hparts : Ipv6Parts (fullText gs ++ r) gs false [] r := by
      refine ⟨rfl, hgs, fun _ hg => absurd hg List.not_mem_nil, ?_, hhex, fun _ => ?_⟩
      · exact ends_of_stops hhex (fun rest h => absurd (congrArg List.head? h) hcolon) gs
      · cases r with
        | nil => rfl
        | cons c r =>
          have hc : (c == ':') = false := beq_eq_false_iff_ne.mpr fun h => hcolon (by rw [h]; rfl)
          show (if (c == ':') = true then _ else none) = none
          rw [hc]
          rfl
    have hmapped : NotMapped (fullText gs ++ r) := by
      apply notMapped_of_ipv6Mapped
      obtain ⟨g, gs, rfl⟩ := List.exists_cons_of_ne_nil (l := gs) (fun h => by rw [h] at hlen; cases hlen)
      exact ipv6Mapped_eq_none (hgs g List.mem_cons_self)
    have hvalue : ipv6Segments (gs.map (numeral 16)) ([].map (numeral 16)) = gs.map (numeral 16) := by
      rw [ipv6Segments_of_le (by simp [hlen])]
      simp [hlen]
    have hrun := ipAddr_of_parts hparts (.inl hlen) (Nat.zero_le _) hmapped
    rw [hvalue] at hrun
    exact .inl hrun
  | @short pre post hpre hpost hlen =>
    have hhex := notHex_of_v6 hr
    have hcolon := head_ne_of_v6 hr (c := ':') (by simp [addressGoesOn])
    have hdot := head_ne_of_v6 hr (c := '.') (by simp [addressGoesOn])
    have hparts : Ipv6Parts (shortText pre post ++ r) pre true post r := by
      refine ⟨by simp [shortText], hpre, hpost, ?_, ?_, fun h => nomatch h⟩
      · exact ends_of_stops (notOk_cons (by decide)) (fun _ h => (List.cons.inj h).2 ▸ notOk_cons (by decide)) pre
      · exact ends_of_stops hhex (fun rest h => absurd (congrArg List.head? h) hcolon) post
    have hmapped : NotMapped (shortText pre post ++ r) := by
      refine notMapped_of_noDot (fun c hc => ?_) (notHexColon_of_v6 hr) hdot
      simp only [shortText, List.mem_append, List.mem_cons] at hc
      rcases hc with hc | rfl | rfl | hc
      · exact hexColon_joined hpre c hc
      · decide
      · decide
      · exact hexColon_joined hpost c hc
    exact .inl (ipAddr_of_parts hparts (.inr ⟨rfl, hlen⟩) (by omega) hmapped)
  | @six gs a b c d hgs hlen h =>
    have hform : SixForm (sixFront gs ++ quadText a b c d) (zeroLedQuad a b c d) :=
      ⟨gs, a, b, c, d, rfl, hgs, hlen, h, rfl⟩
    exact .inr (.inl ⟨hform, hform.run r⟩)
  | @mid pre post a b c d hpre hpost hlen h =>
    have hform : MidForm pre post a b c d := ⟨hpre, hpost, hlen, h⟩
    by_cases hfront : MappedFront (midFront pre post)
    · left
      have hquad := quad_before h ((notHex_of_v6 hr).mono fun c hc => isHexDigit_of_isDigit hc)
      obtain ⟨rfl, hvalue⟩ := mappedFront_midFront hpre hpost hfront
      have hsegments : ipv6Segments ([].map (numeral 16)) (post.map (numeral 16) ++ quadGroups a b c d) =
          [0, 0, 0, 0, 0, 65535, numeral 10 a * 256 + numeral 10 b, numeral 10 c * 256 + numeral 10 d] := by
        rw [hvalue]
        rfl
      rw [hsegments, ← mapped_quadValue h]
      exact (Taken.mapped hfront hquad).run
    · right
      right
      exact ⟨pre, post, a, b, c, d, rfl, hform, rfl, rfl, hform.run hfront r⟩

/-! ### An IPv4 address behind `::` -/

section

variable {s : List Char}

/-- There is one way to divide a text. -/
theorem Ipv6Parts.unique {pre post pre' post' : List (List Char)} {sep sep' : Bool} {rest rest' : List Char}
    (h : Ipv6Parts s pre sep post rest) (h' : Ipv6Parts s pre' sep' post' rest') :
    pre = pre' ∧ post = post' ∧ rest = rest' := by
  have hlist {gs : List (List Char)} {tail : List Char} (hgs : ∀ g ∈ gs, HexGroup g)
      (hends : Ends isHexDigit ':' 4 gs tail) :
      sepList0 (tag (· == ·) [':']) (takeWhileMN 1 4 isHexDigit) (joined ':' gs ++ tail) = some (gs, tail) :=
    sepList0_joined (by decide) hgs hends
  have hpre := hlist h.left h.leftEnds
  have hpre' := hlist h'.left h'.leftEnds
  rw [← h.text] at hpre
  rw [← h'.text, hpre] at hpre'
  injection hpre' with hpre'
  injection hpre' with hgs htail
  have hsep : sep = sep' ∧ joined ':' post ++ rest = joined ':' post' ++ rest' := by
    have hthere (t : List Char) : tag (· == ·) [':', ':'] ([':', ':'] ++ t) = some ((), t) := tag_append _ _
    cases sep with
    | true =>
      cases sep' with
      | true => exact ⟨rfl, List.append_cancel_left htail⟩
      | false =>
        have htext : [':', ':'] ++ (joined ':' post ++ rest) = joined ':' post' ++ rest' := htail
        have hno := h'.noSep rfl
        rw [← htext, hthere] at hno
        cases hno
    | false =>
      cases sep' with
      | true =>
        have htext : joined ':' post ++ rest = [':', ':'] ++ (joined ':' post' ++ rest') := htail
        have hno := h.noSep rfl
        rw [htext, hthere] at hno
        cases hno
      | false => exact ⟨rfl, htail⟩
  have hpost := hlist h.right h.rightEnds
  have hpost' := hlist h'.right h'.rightEnds
  rw [← hsep.2, hpost] at hpost'
  injection hpost' with hpost'
  injection hpost' with hgs' hrest
  exact ⟨hgs, hgs', hrest⟩

theorem append_inj_of_digits {d d' r r' : List Char} (hd : ∀ c ∈ d, c.isDigit = true)
    (hd' : ∀ c ∈ d', c.isDigit = true) (hr : NotOk Char.isDigit r) (hr' : NotOk Char.isDigit r')
    (h : d ++ r = d' ++ r') : d = d' ∧ r = r' := by
  have htake {d r : List Char} (hd : ∀ c ∈ d, c.isDigit = true) (hr : NotOk Char.isDigit r) :
      (d ++ r).takeWhile Char.isDigit = d := by
    rw [List.takeWhile_append_of_pos hd]
    cases r with
    | nil => simp
    | cons c r => simp [hr c rfl]
  have hsame : d = d' := by rw [← htake hd hr, h, htake hd' hr']
  subst hsame
  exact ⟨rfl, List.append_cancel_left h⟩

theorem octetsBehind_inj {b c d r b' c' d' r' a a' t t' : List Char} (h : Quad a b c d t) (h' : Quad a' b' c' d' t')
    (hr : NotOk Char.isDigit r) (hr' : NotOk Char.isDigit r')
    (heq : octetsBehind b c d r = octetsBehind b' c' d' r') : b = b' ∧ c = c' ∧ d = d' ∧ r = r' := by
  injection heq with _ heq
  obtain ⟨hb, -, heq⟩ := append_cons_inj_of_all h.second.all h'.second.all (by decide) (by decide) heq
  obtain ⟨hc, -, heq⟩ := append_cons_inj_of_all h.third.all h'.third.all (by decide) (by decide) heq
  obtain ⟨hd, hrest⟩ := append_inj_of_digits h.fourth.all h'.fourth.all hr hr' heq
  exact ⟨hb, hc, hd, hrest⟩

/-- There is one way to read such a text. -/
theorem MidForm.unique {pre post pre' post' : List (List Char)} {a b c d r a' b' c' d' r' : List Char}
    (h : MidForm pre post a b c d) (h' : MidForm pre' post' a' b' c' d') (hr : NotOk Char.isDigit r)
    (hr' : NotOk Char.isDigit r')
    (heq : midFront pre post ++ quadText a b c d ++ r = midFront pre' post' ++ quadText a' b' c' d' ++ r') :
    (pre = pre' ∧ post = post') ∧ (a = a' ∧ b = b' ∧ c = c' ∧ d = d') ∧ r = r' := by
  obtain ⟨hpre, hpost, hrest⟩ := (h.parts r).unique (heq ▸ h'.parts r')
  obtain ⟨hpost, ha⟩ := List.append_inj' hpost rfl
  obtain ⟨hb, hc, hd, hr⟩ := octetsBehind_inj h.octets h'.octets hr hr' hrest
  exact ⟨⟨hpre, hpost⟩, ⟨List.singleton_inj.mp ha, hb, hc, hd⟩, hr⟩

end

/-- The groups behind the `::` and the octets are all zero. -/
structure AllZero (post : List (List Char)) (a b c d : List Char) : Prop where
  groups : ∀ g ∈ post, numeral 16 g = 0
  first : numeral 10 a = 0
  second : numeral 10 b = 0
  third : numeral 10 c = 0
  fourth : numeral 10 d = 0

theorem zeros_of_shift {x y z : ℕ} : ∀ {Q : List ℕ}, 0 :: (Q ++ [x]) = Q ++ [y, z] →
    (∀ q ∈ Q, q = 0) ∧ y = 0 ∧ x = z
  | [], h => by
    injection h with hy h
    injection h with hz _
    exact ⟨by simp, hy.symm, hz⟩
  | q :: Q, h => by
    injection h with hq h
    have hnext : 0 :: (Q ++ [x]) = Q ++ [y, z] := hq ▸ h
    obtain ⟨hQ, hyz⟩ := zeros_of_shift hnext
    exact ⟨List.forall_mem_cons.mpr ⟨hq.symm, hQ⟩, hyz⟩

theorem ipv6OfSegments_inj {l l' : List ℕ} (hl : l.length = 8) (hl' : l'.length = 8) (h : ∀ x ∈ l, x < 65536)
    (h' : ∀ x ∈ l', x < 65536) (heq : ipv6OfSegments l = ipv6OfSegments l') : l = l' := by
  have hlt {l : List ℕ} (hl : l.length = 8) (h : ∀ x ∈ l, x < 65536) : ofDigits 65536 l < 2 ^ 128 := by
    have := ofDigits_lt h
    rw [hl] at this
    exact this
  have hnat : ofDigits 65536 l % 2 ^ 128 = ofDigits 65536 l' % 2 ^ 128 := by
    have := congrArg BitVec.toNat heq
    rwa [ipv6OfSegments, ipv6OfSegments, BitVec.toNat_ofNat, BitVec.toNat_ofNat] at this
  rw [Nat.mod_eq_of_lt (hlt hl h), Nat.mod_eq_of_lt (hlt hl' h')] at hnat
  exact ofDigits_inj (hl.trans hl'.symm) h h' hnat

/-- The first octet as a group gives the same address only among zeros. -/
theorem midTaken_eq_iff {pre post : List (List Char)} {a b c d : List Char} (h : MidForm pre post a b c d) :
    midTaken pre post a = midAddress pre post a b c d ↔ AllZero post a b c d := by
  obtain ⟨k, hk⟩ : ∃ k, 8 - pre.length - (post.length + 2) = k ∧ 8 - pre.length - (post.length + 1) = k + 1 := by
    have := h.short
    exact ⟨_, rfl, by omega⟩
  have htaken : ipv6Segments (pre.map (numeral 16)) ((post ++ [a]).map (numeral 16)) =
      pre.map (numeral 16) ++ List.replicate k 0 ++ (0 :: (post.map (numeral 16) ++ [numeral 16 a])) := by
    have hlen : (pre.map (numeral 16)).length + ((post ++ [a]).map (numeral 16)).length ≤ 8 := by
      have := h.short
      simp only [List.length_map, List.length_append, List.length_singleton]
      omega
    rw [ipv6Segments_of_le hlen, List.length_map, List.length_map, List.length_append, List.length_singleton, hk.2,
      List.replicate_succ', List.map_append, List.map_singleton]
    simp only [List.append_assoc, List.singleton_append]
  have haddress : ipv6Segments (pre.map (numeral 16)) (post.map (numeral 16) ++ quadGroups a b c d) =
      pre.map (numeral 16) ++ List.replicate k 0 ++ (post.map (numeral 16) ++ quadGroups a b c d) := by
    have hlen : (pre.map (numeral 16)).length + (post.map (numeral 16) ++ quadGroups a b c d).length ≤ 8 := by
      have := h.short
      rw [length_append_quadGroups, List.length_map, List.length_map]
      omega
    rw [ipv6Segments_of_le hlen, length_append_quadGroups, List.length_map, List.length_map, hk.1]
  have hzero {g : List Char} : numeral 10 g = 0 ↔ numeral 16 g = 0 := by
    rw [numeral_eq_zero_iff (by decide), numeral_eq_zero_iff (by decide)]
  unfold midTaken midAddress
  rw [htaken, haddress]
  constructor
  · intro heq
    have hgroup {gs : List (List Char)} (hgs : ∀ g ∈ gs, HexGroup g) : ∀ x ∈ gs.map (numeral 16), x < 65536 := by
      intro x hx
      obtain ⟨g, hg, rfl⟩ := List.mem_map.mp hx
      exact numeral_hexGroup_lt (hgs g hg)
    have hfront : ∀ x ∈ pre.map (numeral 16) ++ List.replicate k 0, x < 65536 := by
      intro x hx
      rcases List.mem_append.mp hx with hx | hx
      · exact hgroup h.left x hx
      · rw [List.eq_of_mem_replicate hx]
        decide
    have ha := h.octets.first.lt
    have hb := h.octets.second.lt
    have hc := h.octets.third.lt
    have hd := h.octets.fourth.lt
    have hsame := ipv6OfSegments_inj
      (by have := h.short; simp only [List.length_append, List.length_map, List.length_replicate, List.length_cons,
        List.length_nil]; omega)
      (by have := h.short; simp only [List.length_append, List.length_map, List.length_replicate, quadGroups,
        List.length_cons, List.length_nil]; omega)
      (by
        intro x hx
        rcases List.mem_append.mp hx with hx | hx
        · exact hfront x hx
        · simp only [List.mem_cons, List.mem_append, List.not_mem_nil, or_false] at hx
          rcases hx with rfl | hx | rfl
          · decide
          · exact hgroup h.right x hx
          · exact numeral_hexGroup_lt (hexGroup_octet h.octets.first))
      (by
        intro x hx
        rcases List.mem_append.mp hx with hx | hx
        · exact hfront x hx
        · simp only [quadGroups, List.mem_cons, List.mem_append, List.not_mem_nil, or_false] at hx
          rcases hx with hx | rfl | rfl
          · exact hgroup h.right x hx
          · omega
          · omega)
      (Dns.IpAddr.v6.inj heq)
    obtain ⟨hpost, hab, hcd⟩ := zeros_of_shift (List.append_cancel_left hsame)
    have ha0 : numeral 10 a = 0 := by omega
    rw [hzero.mp ha0] at hcd
    refine ⟨fun g hg => hpost _ (List.mem_map_of_mem hg), ha0, by omega, by omega, by omega⟩
  · intro hall
    have hpost : post.map (numeral 16) = List.replicate post.length 0 :=
      List.eq_replicate_iff.mpr ⟨List.length_map _, fun x hx => by
        obtain ⟨g, hg, rfl⟩ := List.mem_map.mp hx
        exact hall.groups g hg⟩
    have hquad : quadGroups a b c d = [0, 0] := by
      simp [quadGroups, hall.first, hall.second, hall.third, hall.fourth]
    have hshift : 0 :: (post.map (numeral 16) ++ [numeral 16 a]) = post.map (numeral 16) ++ quadGroups a b c d := by
      rw [hzero.mp hall.first, hquad, hpost, ← List.cons_append, ← List.replicate_succ, List.replicate_succ',
        List.append_assoc]
      rfl
    rw [hshift]

end Rule
end SmartDns
