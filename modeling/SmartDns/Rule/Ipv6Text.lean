/-
# IPv6 addresses in text

`nom_recipes::ipv6`, with the array it writes the segments to, against `Ipv6Addr::from_str` of the
standard library. Eight segments are taken whatever comes behind them: further segments
overwrite the last ones, and more than eight of them end in a panic. Behind `::ffff:` the parts of an
IPv4 address may have leading zeros. On every other text that the parser takes as a whole the two
agree (`ipv6Exact_iff`).

Key definitions: `ipv6`, `Ipv6Parts`, `Overfull`, `LeadingZero`.
Key theorems: `Ipv6Parts.plain`, `ipv6FromStr_mapped`, `ipv6Exact_iff`, `parseIpv6_eq`.
-/
import SmartDns.Rule.IpFromStr

namespace SmartDns
namespace Rule

open Dns
open Lib.Parse

/-! ### The parser of the configuration -/

/-- `octets[i] = octet` for the elements of a list, from an index on; none is a panic. -/
def writeFrom (octets : List ℕ) : ℕ → List ℕ → Option (List ℕ)
  | _, [] => some octets
  | i, octet :: rest => if i < octets.length then writeFrom (octets.set i octet) (i + 1) rest else none

/-- The segments that are put together from the two lists; none is a panic. -/
def ipv6Octets (pre post : List ℕ) : Option (List ℕ) := do
  let octets ← writeFrom (List.replicate 8 0) 0 pre
  if post.isEmpty then some octets
  else if post.length ≤ 8 then writeFrom octets (8 - post.length) post
  else none

/-- The two lists of groups, and whether there is a `::` between them. -/
def ipv6Parts : TextParser (List ℕ × Option Unit × List ℕ) := do
  let octal := numeral 16 <$> takeWhileMN 1 4 isHexDigit
  let pre ← sepList0 (char ':') octal
  let sep ← opt (tag (· == ·) [':', ':'])
  let post ← sepList0 (char ':') octal
  pure (pre, sep, post)

/-- `nom_recipes::ipv6`; where it panics there is no address. -/
def ipv6 : TextParser (Option Ipv6Addr) :=
  (do
    tagNoCase "::ffff:"
    (fun ip : Ipv4Addr => some (IpAddr.mapped ip.toBitVec)) <$> parseIpv4) <|>
  ((fun parts => (ipv6Octets parts.1 parts.2.2).map ipv6OfSegments) <$>
    verify ipv6Parts fun parts =>
      parts.1.length = 8 || parts.2.1.isSome && decide (parts.1.length + parts.2.2.length < 8))

/-! ### The array -/

theorem writeFrom_eq : ∀ (l : List ℕ) (octets : List ℕ) (i : ℕ), i ≤ octets.length →
    writeFrom octets i l =
      if i + l.length ≤ octets.length then some (octets.take i ++ (l ++ octets.drop (i + l.length))) else none
  | [], octets, i, hi => by
    rw [if_pos (by simpa using hi)]
    simp [writeFrom]
  | x :: l, octets, i, hi => by
    unfold writeFrom
    by_cases hlt : i < octets.length
    · have hlen : (octets.set i x).length = octets.length := List.length_set
      rw [if_pos hlt, writeFrom_eq l (octets.set i x) (i + 1) (by omega), hlen]
      have htake : (octets.set i x).take (i + 1) = octets.take i ++ [x] := by
        rw [List.take_set, List.take_succ_eq_append_getElem hlt, List.set_append_right _ _ (List.length_take_le _ _)]
        simp [Nat.min_eq_left hi]
      have hdrop : (octets.set i x).drop (i + 1 + l.length) = octets.drop (i + 1 + l.length) := by
        rw [List.drop_set, if_pos (by omega)]
      have hsum : i + 1 + l.length = i + (x :: l).length := by
        rw [List.length_cons]
        omega
      rw [htake, hdrop, hsum]
      simp
    · have hno : ¬ i + (x :: l).length ≤ octets.length := by
        rw [List.length_cons]
        omega
      rw [if_neg hlt, if_neg hno]

/-- The lists behind one another, with zeros between them; the second one overwrites the end of the first. -/
theorem ipv6Octets_eq {pre post : List ℕ} (hpre : pre.length ≤ 8) :
    ipv6Octets pre post = if post.length ≤ 8 then some (ipv6Segments pre post) else none := by
  have hfirst : writeFrom (List.replicate 8 0) 0 pre = some (pre ++ List.replicate (8 - pre.length) 0) := by
    rw [writeFrom_eq _ _ _ (Nat.zero_le _), if_pos (by simpa using hpre), List.drop_replicate, Nat.zero_add]
    rfl
  have hlen : (pre ++ List.replicate (8 - pre.length) 0).length = 8 := by
    rw [List.length_append, List.length_replicate]
    omega
  unfold ipv6Octets ipv6Segments
  rw [hfirst]
  simp only [Option.bind_eq_bind, Option.bind_some]
  cases post with
  | nil => simp [List.take_of_length_le (Nat.le_of_eq hlen)]
  | cons x post =>
    show (if (x :: post).length ≤ 8 then writeFrom _ _ _ else none) = _
    by_cases hpost : (x :: post).length ≤ 8
    · rw [if_pos hpost, if_pos hpost, writeFrom_eq _ _ _ (by omega), if_pos (by omega)]
      have hend : 8 - (x :: post).length + (x :: post).length = 8 := by omega
      rw [hend, List.drop_eq_nil_of_le (Nat.le_of_eq hlen), List.append_nil]
    · rw [if_neg hpost, if_neg hpost]

/-! ### The two parts of an address -/

/-- The text in two lists of groups, and what is left. -/
structure Ipv6Parts (s : List Char) (pre : List (List Char)) (sep : Bool) (post : List (List Char)) (rest : List Char) :
    Prop where
  text : s = joined ':' pre ++ ((if sep then [':', ':'] else []) ++ (joined ':' post ++ rest))
  left : ∀ g ∈ pre, HexGroup g
  right : ∀ g ∈ post, HexGroup g
  leftEnds : Ends isHexDigit ':' 4 pre ((if sep then [':', ':'] else []) ++ (joined ':' post ++ rest))
  rightEnds : Ends isHexDigit ':' 4 post rest
  noSep : sep = false → tag (· == ·) [':', ':'] (joined ':' post ++ rest) = none

theorem exists_parts (s : List Char) : ∃ pre sep post rest, Ipv6Parts s pre sep post rest := by
  obtain ⟨pre, s', hs, hpre, hends⟩ := exists_joined (n := 4) isHexDigit ':' (by omega) s
  cases hsep : tag (· == ·) [':', ':'] s' with
  | none =>
    obtain ⟨post, rest, rfl, hpost, hends'⟩ := exists_joined (n := 4) isHexDigit ':' (by omega) s'
    exact ⟨pre, false, post, rest, hs, hpre, hpost, hends, hends', fun _ => hsep⟩
  | some x =>
    obtain ⟨_, s''⟩ := x
    obtain rfl := eq_of_tag hsep
    obtain ⟨post, rest, rfl, hpost, hends'⟩ := exists_joined (n := 4) isHexDigit ':' (by omega) s''
    exact ⟨pre, true, post, rest, hs, hpre, hpost, hends, hends', fun h => nomatch h⟩

/-- A list of groups is read with its values. -/
theorem octets_joined {gs : List (List Char)} {rest : List Char} (hgs : ∀ g ∈ gs, HexGroup g)
    (hends : Ends isHexDigit ':' 4 gs rest) :
    sepList0 (char ':') (numeral 16 <$> takeWhileMN 1 4 isHexDigit) (joined ':' gs ++ rest) =
      some (gs.map (numeral 16), rest) := by
  rw [sepList0_map]
  exact congrArg (Option.map _) (sepList0_joined (by decide) hgs hends)

section

variable {s : List Char} {pre post : List (List Char)} {sep : Bool} {rest : List Char}

theorem Ipv6Parts.run (h : Ipv6Parts s pre sep post rest) :
    ipv6Parts s = some ((pre.map (numeral 16), if sep then some () else none, post.map (numeral 16)), rest) := by
  have hpre := octets_joined h.left h.leftEnds
  have hpost := octets_joined h.right h.rightEnds
  rw [← h.text] at hpre
  have hsep : opt (tag (· == ·) [':', ':']) ((if sep then [':', ':'] else []) ++ (joined ':' post ++ rest)) =
      some (if sep then some () else none, joined ':' post ++ rest) := by
    cases sep with
    | true => exact opt_of_some (tag_append [':', ':'] _)
    | false => exact opt_of_none (h.noSep rfl)
  unfold ipv6Parts
  show (sepList0 _ _ s).bind _ = _
  rw [hpre]
  show (opt _ _).bind _ = _
  rw [hsep]
  show (sepList0 _ _ _).bind _ = _
  rw [hpost]
  rfl

/-- The form without an IPv4 address. -/
def ipv6Plain : TextParser (Option Ipv6Addr) :=
  (fun parts => (ipv6Octets parts.1 parts.2.2).map ipv6OfSegments) <$>
    verify ipv6Parts fun parts =>
      parts.1.length = 8 || parts.2.1.isSome && decide (parts.1.length + parts.2.2.length < 8)

theorem Ipv6Parts.plain (h : Ipv6Parts s pre sep post rest) : ipv6Plain s =
    if pre.length = 8 ∨ sep = true ∧ pre.length + post.length < 8 then
      some ((ipv6Octets (pre.map (numeral 16)) (post.map (numeral 16))).map ipv6OfSegments, rest)
    else none := by
  have hverify : verify ipv6Parts (fun parts =>
      parts.1.length = 8 || parts.2.1.isSome && decide (parts.1.length + parts.2.2.length < 8)) s =
      if pre.length = 8 ∨ sep = true ∧ pre.length + post.length < 8 then
        some ((pre.map (numeral 16), if sep then some () else none, post.map (numeral 16)), rest)
      else none := by
    unfold verify mapRes
    rw [bind_run, h.run, Option.bind_some]
    unfold lift
    cases sep with
    | true => by_cases hlen : pre.length = 8 ∨ pre.length + post.length < 8 <;> simp [hlen]
    | false => by_cases hlen : pre.length = 8 <;> simp [hlen]
  show (verify _ _ s).bind _ = _
  rw [hverify]
  by_cases hlen : pre.length = 8 ∨ sep = true ∧ pre.length + post.length < 8
  · rw [if_pos hlen, if_pos hlen]
    rfl
  · rw [if_neg hlen, if_neg hlen]
    rfl

end

/-! ### IPv4 addresses in text -/

/-- The digits of an octet, where a digit behind them is not the octet's. -/
structure Octet (g rest : List Char) : Prop extends Group Char.isDigit 3 g where
  full : g.length = 3 ∨ NotOk Char.isDigit rest
  lt : numeral 10 g < 256

/-- The octets of `parse_ipv4`. -/
def parseOctet : TextParser ℕ :=
  mapRes (takeWhileMN 1 3 Char.isDigit) fun digits =>
    if numeral 10 digits < 256 then some (numeral 10 digits) else none

theorem parseOctet_octet {g rest : List Char} (h : Octet g rest) :
    parseOctet (g ++ rest) = some (numeral 10 g, rest) := by
  unfold parseOctet mapRes
  rw [bind_run, takeWhileMN_group h.toGroup h.full]
  simp [lift, h.lt]

theorem octet_of_parseOctet {s rest : List Char} {v : ℕ} (h : parseOctet s = some (v, rest)) :
    ∃ g, s = g ++ rest ∧ Octet g rest ∧ v = numeral 10 g := by
  unfold parseOctet mapRes at h
  rw [bind_run] at h
  obtain ⟨⟨g, rest'⟩, hgroup, h⟩ := Option.bind_eq_some_iff.mp h
  obtain ⟨hs, hg, hfull⟩ := group_of_takeWhileMN hgroup
  by_cases hlt : numeral 10 g < 256
  · simp only [lift, if_pos hlt, Option.map_some, Option.some.injEq, Prod.mk.injEq] at h
    obtain ⟨rfl, rfl⟩ := h
    exact ⟨g, hs, ⟨hg, hfull, hlt⟩, rfl⟩
  · simp [lift, hlt] at h

def dotted (g : List Char) : List Char := '.' :: g

def quadText (a b c d : List Char) : List Char := a ++ (dotted b ++ (dotted c ++ dotted d))

/-- The text of four octets, whatever comes behind them. -/
structure Quad (a b c d rest : List Char) : Prop where
  first : Octet a (dotted b ++ (dotted c ++ (dotted d ++ rest)))
  second : Octet b (dotted c ++ (dotted d ++ rest))
  third : Octet c (dotted d ++ rest)
  fourth : Octet d rest

def quadValue (a b c d : List Char) : Ipv4Addr :=
  UInt32.ofNat (((numeral 10 a * 256 + numeral 10 b) * 256 + numeral 10 c) * 256 + numeral 10 d)

def parseDotted : TextParser ℕ := char '.' >>= fun _ => parseOctet

theorem parseIpv4_eq : parseIpv4 =
    (parseOctet >>= fun a => parseDotted >>= fun b => parseDotted >>= fun c => parseDotted >>= fun d =>
      pure (UInt32.ofNat (((a * 256 + b) * 256 + c) * 256 + d))) := by
  unfold parseDotted
  simp only [bind_assoc]
  rfl

theorem parseDotted_octet {g rest : List Char} (h : Octet g rest) :
    parseDotted (dotted g ++ rest) = some (numeral 10 g, rest) :=
  (tag_bind_cons '.' (fun _ => parseOctet) (g ++ rest)).trans (parseOctet_octet h)

theorem octet_of_parseDotted {s rest : List Char} {v : ℕ} (h : parseDotted s = some (v, rest)) :
    ∃ g, s = dotted g ++ rest ∧ Octet g rest ∧ v = numeral 10 g := by
  unfold parseDotted at h
  rw [bind_run] at h
  obtain ⟨⟨_, s'⟩, hdot, h⟩ := Option.bind_eq_some_iff.mp h
  obtain rfl := eq_of_tag hdot
  obtain ⟨g, rfl, hg⟩ := octet_of_parseOctet h
  exact ⟨g, rfl, hg⟩

theorem parseIpv4_quad {a b c d rest : List Char} (h : Quad a b c d rest) :
    parseIpv4 (quadText a b c d ++ rest) = some (quadValue a b c d, rest) := by
  have htext : quadText a b c d ++ rest = a ++ (dotted b ++ (dotted c ++ (dotted d ++ rest))) := by simp [quadText]
  rw [parseIpv4_eq, htext, bind_run, parseOctet_octet h.first, Option.bind_some, bind_run, parseDotted_octet h.second,
    Option.bind_some, bind_run, parseDotted_octet h.third, Option.bind_some, bind_run, parseDotted_octet h.fourth]
  rfl

theorem quad_of_parseIpv4 {s rest : List Char} {ip : Ipv4Addr} (h : parseIpv4 s = some (ip, rest)) :
    ∃ a b c d, s = quadText a b c d ++ rest ∧ Quad a b c d rest ∧ ip = quadValue a b c d := by
  rw [parseIpv4_eq, bind_run] at h
  obtain ⟨⟨a', s1⟩, ha, h⟩ := Option.bind_eq_some_iff.mp h
  rw [bind_run] at h
  obtain ⟨⟨b', s2⟩, hb, h⟩ := Option.bind_eq_some_iff.mp h
  rw [bind_run] at h
  obtain ⟨⟨c', s3⟩, hc, h⟩ := Option.bind_eq_some_iff.mp h
  rw [bind_run] at h
  obtain ⟨⟨d', s4⟩, hd, h⟩ := Option.bind_eq_some_iff.mp h
  obtain ⟨a, rfl, hfirst, rfl⟩ := octet_of_parseOctet ha
  obtain ⟨b, rfl, hsecond, rfl⟩ := octet_of_parseDotted hb
  obtain ⟨c, rfl, hthird, rfl⟩ := octet_of_parseDotted hc
  obtain ⟨d, rfl, hfourth, rfl⟩ := octet_of_parseDotted hd
  cases h
  exact ⟨a, b, c, d, by simp [quadText], ⟨hfirst, hsecond, hthird, hfourth⟩, rfl⟩

/-- The standard library takes no octet with a zero in front. -/
theorem octet_octet {g rest : List Char} (h : Octet g rest) (hrest : NotOk Char.isDigit rest) :
    octet (g ++ rest) = if zeroLed g then none else some (numeral 10 g, rest) := by
  unfold octet
  rw [readNumber_group h.toGroup hrest, if_pos h.lt]
  rfl

theorem dottedOctet_octet {g rest : List Char} (h : Octet g rest) (hrest : NotOk Char.isDigit rest) :
    dottedOctet (dotted g ++ rest) = if zeroLed g then none else some (numeral 10 g, rest) :=
  (tag_bind_cons '.' (fun _ => octet) (g ++ rest)).trans (octet_octet h hrest)

theorem notOk_dotted (g rest : List Char) : NotOk Char.isDigit (dotted g ++ rest) := notOk_cons (by decide)

theorem readIpv4Addr_quad {a b c d : List Char} (h : Quad a b c d []) : readIpv4Addr (quadText a b c d) =
    if zeroLed a || zeroLed b || zeroLed c || zeroLed d then none
    else some ((numeral 10 a, numeral 10 b, numeral 10 c, numeral 10 d), []) := by
  have hd := h.fourth
  have htext : quadText a b c d = a ++ (dotted b ++ (dotted c ++ (dotted d ++ []))) := by simp [quadText]
  have ha' := octet_octet h.first (notOk_dotted _ _)
  have hb' := dottedOctet_octet h.second (notOk_dotted _ _)
  have hc' := dottedOctet_octet h.third (notOk_dotted _ _)
  have hd' := dottedOctet_octet h.fourth notOk_nil
  rw [readIpv4Addr_eq, htext, bind_run, ha']
  cases zeroLed a with
  | true => rfl
  | false =>
    simp only [Bool.false_eq_true, if_false, Option.bind_some, Bool.false_or]
    rw [bind_run, hb']
    cases zeroLed b with
    | true => rfl
    | false =>
      simp only [Bool.false_eq_true, if_false, Option.bind_some, Bool.false_or]
      rw [bind_run, hc']
      cases zeroLed c with
      | true => rfl
      | false =>
        simp only [Bool.false_eq_true, if_false, Option.bind_some, Bool.false_or]
        rw [bind_run, hd']
        cases zeroLed d with
        | true => rfl
        | false => rfl

/-! ### IPv4 addresses at the end -/

theorem toLower_cases {c d : Char} (h : c.toLower = d) : c = d ∨ 65 ≤ c.toNat ∧ c.toNat + 32 = d.toNat := by
  unfold Char.toLower at h
  split_ifs at h with hupper
  · right
    have hlow : 65 ≤ c.toNat := UInt32.le_iff_toNat_le.mp hupper.1
    have hhigh : c.toNat ≤ 90 := UInt32.le_iff_toNat_le.mp hupper.2
    refine ⟨hlow, ?_⟩
    rw [← h]
    show c.toNat + 32 = (c.val + ('a'.val - 'A'.val)).toNat
    have hshift : ('a'.val - 'A'.val).toNat = 32 := by decide
    have hsum : c.val.toNat = c.toNat := rfl
    rw [UInt32.toNat_add, hshift, hsum]
    omega
  · exact .inl h

theorem eq_colon_of_toLower {c : Char} (h : c.toLower = ':') : c = ':' := by
  rcases toLower_cases h with h | ⟨hlow, h⟩
  · exact h
  · have : ':'.toNat = 58 := by decide
    omega

theorem digit_of_toLower {c : Char} (h : c.toLower = 'f') : isHexDigit c = true ∧ digitValue c = 15 := by
  rcases toLower_cases h with rfl | ⟨-, h⟩
  · decide
  · have hf : 'f'.toNat = 102 := by decide
    have hF : 'F'.toNat = 70 := by decide
    obtain rfl : c = 'F' := Char.toNat_inj.mp (by omega)
    decide

theorem front_of_tagNoCase : ∀ {t s rest : List Char} {u : Unit},
    tag (fun a b => a.toLower == b.toLower) t s = some (u, rest) →
    ∃ front, s = front ++ rest ∧ front.map Char.toLower = t.map Char.toLower
  | [], _, _, _, h => by
    cases h
    exact ⟨[], rfl, rfl⟩
  | _ :: _, [], _, _, h => by cases h
  | b :: t, c :: s, rest, u, h => by
    change (if (c.toLower == b.toLower) = true then tag _ t s else none) = _ at h
    split_ifs at h with hc
    obtain ⟨front, rfl, hfront⟩ := front_of_tagNoCase h
    exact ⟨c :: front, rfl, by rw [List.map_cons, List.map_cons, eq_of_beq hc, hfront]⟩

theorem tagNoCase_front : ∀ {t front : List Char} (rest : List Char), front.map Char.toLower = t.map Char.toLower →
    tag (fun a b => a.toLower == b.toLower) t (front ++ rest) = some ((), rest)
  | [], [], _, _ => rfl
  | [], _ :: _, _, h => by cases h
  | _ :: _, [], _, h => by cases h
  | b :: t, c :: front, rest, h => by
    injection h with hc hfront
    show (if (c.toLower == b.toLower) = true then tag _ t (front ++ rest) else none) = _
    rw [if_pos (by rw [hc, beq_self_eq_true]), tagNoCase_front rest hfront]

/-- `::ffff:`, in any case. -/
def MappedFront (front : List Char) : Prop := front.map Char.toLower = "::ffff:".toList.map Char.toLower

theorem mappedFront_cases {front : List Char} (h : MappedFront front) :
    ∃ g, front = [':', ':'] ++ (g ++ [':']) ∧ HexGroup g ∧ numeral 16 g = 65535 := by
  have hlower : "::ffff:".toList.map Char.toLower = [':', ':', 'f', 'f', 'f', 'f', ':'] := by decide
  unfold MappedFront at h
  rw [hlower] at h
  obtain ⟨c1, front, rfl, h1, h⟩ := List.map_eq_cons_iff.mp h
  obtain ⟨c2, front, rfl, h2, h⟩ := List.map_eq_cons_iff.mp h
  obtain ⟨c3, front, rfl, h3, h⟩ := List.map_eq_cons_iff.mp h
  obtain ⟨c4, front, rfl, h4, h⟩ := List.map_eq_cons_iff.mp h
  obtain ⟨c5, front, rfl, h5, h⟩ := List.map_eq_cons_iff.mp h
  obtain ⟨c6, front, rfl, h6, h⟩ := List.map_eq_cons_iff.mp h
  obtain ⟨c7, front, rfl, h7, h⟩ := List.map_eq_cons_iff.mp h
  obtain rfl := List.map_eq_nil_iff.mp h
  obtain rfl := eq_colon_of_toLower h1
  obtain rfl := eq_colon_of_toLower h2
  obtain rfl := eq_colon_of_toLower h7
  obtain ⟨h3, h3'⟩ := digit_of_toLower h3
  obtain ⟨h4, h4'⟩ := digit_of_toLower h4
  obtain ⟨h5, h5'⟩ := digit_of_toLower h5
  obtain ⟨h6, h6'⟩ := digit_of_toLower h6
  refine ⟨[c3, c4, c5, c6], rfl, ⟨List.cons_ne_nil _ _, Nat.le_refl 4, ?_⟩, ?_⟩
  · simp [h3, h4, h5, h6]
  · simp [numeral, h3', h4', h5', h6']

/-- The form with an IPv4 address. -/
def ipv6Mapped : TextParser (Option Ipv6Addr) :=
  tagNoCase "::ffff:" >>= fun _ => (fun ip : Ipv4Addr => some (IpAddr.mapped ip.toBitVec)) <$> parseIpv4

theorem ipv6_run (s : List Char) : ipv6 s = (ipv6Mapped s).or (ipv6Plain s) := orElse_run ipv6Mapped ipv6Plain s

theorem ipv6Mapped_quad {front a b c d rest : List Char} (hfront : MappedFront front) (h : Quad a b c d rest) :
    ipv6Mapped (front ++ (quadText a b c d ++ rest)) =
      some (some (IpAddr.mapped (quadValue a b c d).toBitVec), rest) := by
  unfold ipv6Mapped
  rw [bind_run, tagNoCase, tagNoCase_front _ hfront]
  show (parseIpv4 _).bind _ = _
  rw [parseIpv4_quad h]
  rfl

theorem quad_of_ipv6Mapped {s rest : List Char} {r : Option Ipv6Addr} (h : ipv6Mapped s = some (r, rest)) :
    ∃ front a b c d, s = front ++ (quadText a b c d ++ rest) ∧ MappedFront front ∧ Quad a b c d rest ∧
      r = some (IpAddr.mapped (quadValue a b c d).toBitVec) := by
  unfold ipv6Mapped at h
  rw [bind_run] at h
  obtain ⟨⟨_, s'⟩, htag, hquad⟩ := Option.bind_eq_some_iff.mp h
  obtain ⟨front, rfl, hfront⟩ := front_of_tagNoCase htag
  obtain ⟨⟨ip, rest'⟩, hip, hr⟩ := Option.bind_eq_some_iff.mp hquad
  obtain ⟨a, b, c, d, rfl, hoctets, rfl⟩ := quad_of_parseIpv4 hip
  cases hr
  exact ⟨front, a, b, c, d, rfl, hfront, hoctets, rfl⟩

theorem mapped_quadValue {a b c d rest : List Char} (h : Quad a b c d rest) :
    IpAddr.mapped (quadValue a b c d).toBitVec =
      ipv6OfSegments
        [0, 0, 0, 0, 0, 65535, numeral 10 a * 256 + numeral 10 b, numeral 10 c * 256 + numeral 10 d] := by
  have ha := h.first.lt
  have hb := h.second.lt
  have hc := h.third.lt
  have hd := h.fourth.lt
  have hbits : (quadValue a b c d).toBitVec.toNat =
      ((numeral 10 a * 256 + numeral 10 b) * 256 + numeral 10 c) * 256 + numeral 10 d := by
    show (UInt32.ofNat _).toNat = _
    rw [UInt32.toNat_ofNat']
    exact Nat.mod_eq_of_lt (by omega)
  have hsum (a b c d : ℕ) : 0xffff * 2 ^ 32 + (((a * 256 + b) * 256 + c) * 256 + d) =
      [0, 0, 0, 0, 0, 65535, a * 256 + b, c * 256 + d].foldl (fun n s => n * 65536 + s) 0 := by
    simp only [List.foldl_cons, List.foldl_nil]
    omega
  unfold IpAddr.mapped ipv6OfSegments
  rw [hbits, hsum]

/-- What is read of a dotted address where groups are expected. -/
theorem readGroups_quad {a b c d : List Char} (h : Quad a b c d []) : readGroups 6 1 (':' :: quadText a b c d) =
    if zeroLed a || zeroLed b || zeroLed c || zeroLed d then
      ([numeral 16 a], false, dotted b ++ (dotted c ++ dotted d))
    else ([numeral 10 a * 256 + numeral 10 b, numeral 10 c * 256 + numeral 10 d], true, []) := by
  have hipv4 : readSeparator ':' 1 readIpv4Addr (':' :: quadText a b c d) = readIpv4Addr (quadText a b c d) :=
    readSeparator_mark 1 _ _
  rw [readGroups, if_pos (by omega), hipv4, readIpv4Addr_quad h]
  by_cases hzero : (zeroLed a || zeroLed b || zeroLed c || zeroLed d) = true
  · -- The first octet is read as a group, and nothing goes on with a dot.
    have ha : HexGroup a :=
      ⟨h.first.ne_nil, by have := h.first.length_le; omega, fun x hx => isHexDigit_of_isDigit (h.first.all x hx)⟩
    have hdot : NotOk isHexDigit (dotted b ++ (dotted c ++ dotted d)) := notOk_cons (by decide)
    have hgroup : readSeparator ':' 1 (readNumber isHexDigit 16 4 65536 true) (':' :: quadText a b c d) =
        some (numeral 16 a, dotted b ++ (dotted c ++ dotted d)) := by
      refine (readSeparator_mark 1 _ _).trans ?_
      rw [readNumber_group ha hdot, if_neg (by simp), if_pos (numeral_hexGroup_lt ha)]
    have hrest : readGroups 5 2 (dotted b ++ (dotted c ++ dotted d)) = ([], false, _) := readGroups_eq_nil rfl rfl 5
    rw [if_pos hzero, if_pos hzero]
    simp only [hgroup, hrest]
  · rw [if_neg hzero, if_neg hzero]

/-- The standard library reads the IPv4 address unless an octet of it has a zero in front. -/
theorem ipv6FromStr_mapped {front a b c d : List Char} (hfront : MappedFront front) (h : Quad a b c d []) :
    ipv6FromStr (front ++ quadText a b c d) =
      if zeroLed a || zeroLed b || zeroLed c || zeroLed d then none
      else some (IpAddr.mapped (quadValue a b c d).toBitVec) := by
  obtain ⟨g, rfl, hg, hvalue⟩ := mappedFront_cases hfront
  have htext : [':', ':'] ++ (g ++ [':']) ++ quadText a b c d =
      ':' :: ':' :: (joined ':' [g] ++ (':' :: quadText a b c d)) := by
    simp [joined]
  have hhead := readGroups_colons 8 0 (joined ':' [g] ++ (':' :: quadText a b c d))
  have hcolons : (readGivenChar ':' >>= fun _ => readGivenChar ':')
      (':' :: ':' :: (joined ':' [g] ++ (':' :: quadText a b c d))) =
        some ((), joined ':' [g] ++ (':' :: quadText a b c d)) := rfl
  have htail := readGroups_append (List.forall_mem_singleton.mpr hg) (fun _ => noDigit_colon (quadText a b c d)) 6
  change readGroups 7 0 _ = _ at htail
  rw [List.length_singleton, readGroups_quad h, List.map_singleton, hvalue] at htail
  rw [htext, mapped_quadValue h]
  by_cases hzero : (zeroLed a || zeroLed b || zeroLed c || zeroLed d) = true
  · rw [if_pos hzero] at htail ⊢
    apply ipv6FromStr_of_rest (c := '.')
    unfold readIpv6Addr
    simp only [hhead, hcolons, List.length_nil, htail]
    rfl
  · rw [if_neg hzero] at htail ⊢
    apply ipv6FromStr_of_read
    unfold readIpv6Addr
    simp only [hhead, hcolons, List.length_nil, htail]
    rfl

/-! ### Where the two agree -/

/-- Behind `::ffff:` an IPv4 address with a zero in front of an octet. -/
def LeadingZero (s : List Char) : Prop := ∃ front a b c d, s = front ++ quadText a b c d ∧ MappedFront front ∧
  Quad a b c d [] ∧ (zeroLed a || zeroLed b || zeroLed c || zeroLed d) = true

/-- Eight groups and more, `::` or a further digit, to the end of the text or of nine more groups. -/
def Overfull (s : List Char) : Prop := ∃ pre sep post rest, Ipv6Parts s pre sep post rest ∧ pre.length = 8 ∧
  (sep = true ∨ post ≠ []) ∧ (rest = [] ∨ 8 < post.length)

/-- The parser does not panic, and what it takes the whole text for is the address of the text. -/
structure Ipv6Exact (s : List Char) : Prop where
  total : ∀ rest, ipv6 s ≠ some (none, rest)
  same : ∀ ip, ipv6 s = some (some ip, []) → ipv6FromStr s = some ip

theorem not_ipv6Exact_of_leadingZero {s : List Char} (h : LeadingZero s) : ¬ Ipv6Exact s := by
  obtain ⟨front, a, b, c, d, rfl, hfront, hquad, hzero⟩ := h
  intro hexact
  have hmapped := ipv6Mapped_quad hfront hquad
  rw [List.append_nil] at hmapped
  have hrun : ipv6 (front ++ quadText a b c d) = some (some (IpAddr.mapped (quadValue a b c d).toBitVec), []) := by
    rw [ipv6_run, hmapped]
    rfl
  have hsame := hexact.same _ hrun
  rw [ipv6FromStr_mapped hfront hquad, if_pos hzero] at hsame
  cases hsame

/-- A text with groups in front has no address behind `::ffff:`. -/
theorem ipv6Mapped_eq_none {rest : List Char} {g : List Char} {gs : List (List Char)} (hg : HexGroup g) :
    ipv6Mapped (joined ':' (g :: gs) ++ rest) = none := by
  cases hrun : ipv6Mapped (joined ':' (g :: gs) ++ rest) with
  | none => rfl
  | some x =>
    obtain ⟨front, a, b, c, d, hs, hfront, -⟩ := quad_of_ipv6Mapped hrun
    obtain ⟨g', rfl, -⟩ := mappedFront_cases hfront
    obtain ⟨c, tail, rfl⟩ := List.exists_cons_of_ne_nil hg.ne_nil
    have hc : c = ':' := by
      have := congrArg List.head? hs
      simpa [joined] using this
    exact absurd (hg.all c List.mem_cons_self) (by rw [hc]; decide)

theorem ipv6_of_plain {s : List Char} (hmapped : ipv6Mapped s = none) : ipv6 s = ipv6Plain s := by
  rw [ipv6_run, hmapped]
  rfl

theorem not_ipv6Exact_of_overfull {s : List Char} (h : Overfull s) : ¬ Ipv6Exact s := by
  obtain ⟨pre, sep, post, rest, hparts, hlen, hmore, hend⟩ := h
  intro hexact
  have hmapped : ipv6Mapped s = none := by
    obtain ⟨g, gs, rfl⟩ := List.exists_cons_of_ne_nil (l := pre) (fun h => by rw [h] at hlen; cases hlen)
    rw [hparts.text]
    exact ipv6Mapped_eq_none (hparts.left g List.mem_cons_self)
  have hrun := ipv6_of_plain hmapped
  rw [hparts.plain, if_pos (.inl hlen), ipv6Octets_eq (by rw [List.length_map]; omega)] at hrun
  by_cases hpost : post.length ≤ 8
  · obtain rfl : rest = [] := hend.resolve_right (by omega)
    rw [List.length_map, if_pos hpost] at hrun
    have hsame := hexact.same _ hrun
    rw [hparts.text] at hsame
    by_cases hsep : sep = true
    · subst hsep
      have hfull := readIpv6Addr_full hparts.left hlen (noDigit_colon (':' :: (joined ':' post ++ [])))
      rw [if_pos rfl, List.cons_append, List.cons_append, List.nil_append, ipv6FromStr_of_rest hfull] at hsame
      cases hsame
    · obtain rfl : sep = false := Bool.not_eq_true _ ▸ hsep
      have hpost' : post ≠ [] := hmore.resolve_left hsep
      have hdigit : ¬ NotOk isHexDigit (joined ':' post ++ []) := by
        obtain ⟨g, gs, rfl⟩ := List.exists_cons_of_ne_nil hpost'
        have hg := hparts.right g List.mem_cons_self
        obtain ⟨c, tail, rfl⟩ := List.exists_cons_of_ne_nil hg.ne_nil
        intro hno
        exact absurd (hg.all c List.mem_cons_self) (by rw [hno c rfl]; decide)
      have hlong : ∀ g, pre.getLast? = some g → g.length = 4 := by
        intro g hg
        exact ((stops_of_ends hparts.leftEnds hg).full).resolve_right hdigit
      have hnone := readIpv6Addr_long hparts.left hlen hlong hdigit
      rw [if_neg (by decide), List.nil_append, ipv6FromStr_of_none hnone] at hsame
      cases hsame
  · rw [List.length_map, if_neg hpost] at hrun
    exact hexact.total rest hrun

theorem ipv6Exact_of_parts {s : List Char} (hmapped : ipv6Mapped s = none) (h : ¬ Overfull s) : Ipv6Exact s := by
  obtain ⟨pre, sep, post, rest, hparts⟩ := exists_parts s
  have hrun := ipv6_of_plain hmapped
  rw [hparts.plain] at hrun
  by_cases htaken : pre.length = 8 ∨ sep = true ∧ pre.length + post.length < 8
  · rw [if_pos htaken, ipv6Octets_eq (by rw [List.length_map]; omega), List.length_map] at hrun
    have hpost : post.length ≤ 8 := by
      by_contra hlong
      rcases htaken with hlen | ⟨-, hlen⟩
      · exact h ⟨pre, sep, post, rest, hparts, hlen, .inr fun hnil => by simp [hnil] at hlong, .inr (by omega)⟩
      · omega
    rw [if_pos hpost] at hrun
    constructor
    · intro rest' hnone
      rw [hrun] at hnone
      cases hnone
    · intro ip hip
      rw [hrun] at hip
      injection hip with hip
      injection hip with hip hrest
      obtain rfl := hrest
      rw [← Option.some.inj hip]
      rcases htaken with hlen | ⟨rfl, hlen⟩
      · have hsep : sep = false := by
          by_contra hsep
          exact h ⟨pre, sep, post, [], hparts, hlen, .inl (Bool.not_eq_false _ ▸ hsep), .inl rfl⟩
        have hnil : post = [] := by
          by_contra hne
          exact h ⟨pre, sep, post, [], hparts, hlen, .inr hne, .inl rfl⟩
        subst hsep hnil
        have hfull := readIpv6Addr_full hparts.left hlen noDigit_nil
        have hsegments : ipv6Segments (pre.map (numeral 16)) ([].map (numeral 16)) = pre.map (numeral 16) := by
          rw [ipv6Segments_of_le (by simp [hlen])]
          simp [hlen]
        rw [hsegments, hparts.text]
        exact ipv6FromStr_of_read hfull
      · have hshort := readIpv6Addr_short hparts.left hparts.right hlen
        rw [hparts.text, if_pos rfl, List.append_nil]
        exact ipv6FromStr_of_read hshort
  · rw [if_neg htaken] at hrun
    constructor
    · intro rest' hnone
      rw [hrun] at hnone
      cases hnone
    · intro ip hip
      rw [hrun] at hip
      cases hip

/-- **The parser reads exactly what the standard library does, but for eight groups with more behind them and for zeros
in front of the octets of an IPv4 address.** -/
theorem ipv6Exact_iff (s : List Char) : Ipv6Exact s ↔ ¬ Overfull s ∧ ¬ LeadingZero s := by
  constructor
  · exact fun h => ⟨fun hs => not_ipv6Exact_of_overfull hs h, fun hs => not_ipv6Exact_of_leadingZero hs h⟩
  · rintro ⟨hover, hzero⟩
    cases hmapped : ipv6Mapped s with
    | none => exact ipv6Exact_of_parts hmapped hover
    | some x =>
      obtain ⟨r, rest⟩ := x
      obtain ⟨front, a, b, c, d, hs, hfront, hquad, rfl⟩ := quad_of_ipv6Mapped hmapped
      have hrun : ipv6 s = some (some (IpAddr.mapped (quadValue a b c d).toBitVec), rest) := by
        rw [ipv6_run, hmapped]
        rfl
      constructor
      · intro rest' hnone
        rw [hrun] at hnone
        cases hnone
      · intro ip hip
        rw [hrun] at hip
        cases hip
        rw [List.append_nil] at hs
        rw [hs, ipv6FromStr_mapped hfront hquad, if_neg]
        exact fun hz => hzero ⟨front, a, b, c, d, hs, hfront, hquad, hz⟩

/-- The eighth group has five digits: the last one takes the place of the group. -/
theorem not_ipv6Exact_five_digits : ¬ Ipv6Exact "1:2:3:4:5:6:7:12345".toList := by
  have hrun : ipv6 "1:2:3:4:5:6:7:12345".toList = some (some 0x00010002000300040005000600070005#128, []) := by
    decide +kernel
  have hnone : ipv6FromStr "1:2:3:4:5:6:7:12345".toList = none := by decide +kernel
  intro hexact
  have hsame := hexact.same _ hrun
  rw [hnone] at hsame
  cases hsame

/-- Nine groups behind eight: a panic. -/
example : ipv6 "1:2:3:4:5:6:7:8::1:2:3:4:5:6:7:8:9".toList = some (none, []) := by decide +kernel

/-- The parser of the rules is this one, without an address where it panics. -/
theorem parseIpv6_eq (s : List Char) :
    parseIpv6 s = (ipv6 s).bind fun x => x.1.map fun ip => (ip, x.2) := by
  obtain ⟨pre, sep, post, rest, hparts⟩ := exists_parts s
  have hmapped : (tagNoCase "::ffff:" >>= fun _ => (fun ip : Ipv4Addr => IpAddr.mapped ip.toBitVec) <$> parseIpv4) s =
      (ipv6Mapped s).bind fun x => x.1.map fun ip => (ip, x.2) := by
    unfold ipv6Mapped
    rw [bind_run, bind_run]
    cases tagNoCase "::ffff:" s with
    | none => rfl
    | some x =>
      show (parseIpv4 x.2).bind _ = ((parseIpv4 x.2).bind _).bind _
      cases parseIpv4 x.2 with
      | none => rfl
      | some y => rfl
  have hplain : mapRes ipv6Parts ipv6OfParts s = (ipv6Plain s).bind fun x => x.1.map fun ip => (ip, x.2) := by
    unfold mapRes
    rw [bind_run, hparts.run, hparts.plain, Option.bind_some]
    have hcond : (pre.map (numeral 16)).length = 8 ∨ ((if sep then some () else none).isSome = true ∧
        (pre.map (numeral 16)).length + (post.map (numeral 16)).length < 8) ↔
        pre.length = 8 ∨ sep = true ∧ pre.length + post.length < 8 := by
      cases sep <;> simp
    unfold ipv6OfParts lift
    simp only [hcond]
    by_cases htaken : pre.length = 8 ∨ sep = true ∧ pre.length + post.length < 8
    · rw [if_pos htaken, ipv6Octets_eq (by rw [List.length_map]; omega)]
      by_cases hpost : (post.map (numeral 16)).length ≤ 8
      · rw [if_pos ⟨htaken, hpost⟩, if_pos hpost]
        rfl
      · rw [if_neg fun h => hpost h.2, if_neg hpost]
        rfl
    · rw [if_neg fun h => htaken h.1, if_neg htaken]
      rfl
  have hnone {r : Option Ipv6Addr} {rest : List Char} (h : ipv6Mapped s = some (r, rest)) : r.isSome = true := by
    obtain ⟨_, _, _, _, _, -, -, -, rfl⟩ := quad_of_ipv6Mapped h
    rfl
  have hrun : parseIpv6 s =
      ((tagNoCase "::ffff:" >>= fun _ => (fun ip : Ipv4Addr => IpAddr.mapped ip.toBitVec) <$> parseIpv4) s).or
        (mapRes ipv6Parts ipv6OfParts s) := orElse_run _ _ s
  rw [hrun, hmapped, hplain, ipv6_run]
  cases hs : ipv6Mapped s with
  | none => rfl
  | some x =>
    obtain ⟨ip, hip⟩ := Option.isSome_iff_exists.mp (hnone hs)
    simp [hip]

end Rule
end SmartDns
