/-
# The texts of addresses

What `IpAddr::from_str` of the standard library reads is a grammar: four octets, or eight groups, or
fewer groups with a `::` among them, or either of these with an IPv4 address for the last two groups
(`ipFromStr_eq_some_iff`). `AddressText` is the grammar, with a mark for octets that have a zero in
front, which the standard library does not take.

Key definitions: `AddressText`, `marked`.
Key theorems: `readGroups_sound`, `ipFromStr_eq_some_iff`.
-/
import SmartDns.Rule.Ipv6Text

namespace SmartDns
namespace Rule

open Dns
open Lib.Parse

/-- An octet of the IPv4 address has a zero in front. -/
def zeroLedQuad (a b c d : List Char) : Bool := zeroLed a || zeroLed b || zeroLed c || zeroLed d

/-- The two groups that stand for an IPv4 address. -/
def quadGroups (a b c d : List Char) : List ℕ :=
  [numeral 10 a * 256 + numeral 10 b, numeral 10 c * 256 + numeral 10 d]

theorem length_append_quadGroups (l : List ℕ) (a b c d : List Char) :
    (l ++ quadGroups a b c d).length = l.length + 2 := by
  rw [List.length_append]
  rfl

/-- The text in front of an IPv4 address behind six groups. -/
def sixFront (gs : List (List Char)) : List Char := joined ':' gs ++ [':']

/-- The text in front of an IPv4 address behind `::` and groups. -/
def midFront (pre post : List (List Char)) : List Char :=
  joined ':' pre ++ (':' :: ':' :: (joined ':' post ++ mark post.length))

def fullText (gs : List (List Char)) : List Char := joined ':' gs

def shortText (pre post : List (List Char)) : List Char := joined ':' pre ++ (':' :: ':' :: joined ':' post)

/-- The texts of addresses; the mark says that an octet has a zero in front. -/
inductive AddressText : List Char → Dns.IpAddr → Bool → Prop
  | quad {a b c d : List Char} (h : Quad a b c d []) :
    AddressText (quadText a b c d) (.v4 (quadValue a b c d).toBitVec) (zeroLedQuad a b c d)
  | full {gs : List (List Char)} (hgs : ∀ g ∈ gs, HexGroup g) (hlen : gs.length = 8) :
    AddressText (fullText gs) (.v6 (ipv6OfSegments (gs.map (numeral 16)))) false
  | short {pre post : List (List Char)} (hpre : ∀ g ∈ pre, HexGroup g) (hpost : ∀ g ∈ post, HexGroup g)
    (hlen : pre.length + post.length < 8) :
    AddressText (shortText pre post)
      (.v6 (ipv6OfSegments (ipv6Segments (pre.map (numeral 16)) (post.map (numeral 16))))) false
  | six {gs : List (List Char)} {a b c d : List Char} (hgs : ∀ g ∈ gs, HexGroup g) (hlen : gs.length = 6)
    (h : Quad a b c d []) :
    AddressText (sixFront gs ++ quadText a b c d)
      (.v6 (ipv6OfSegments (gs.map (numeral 16) ++ quadGroups a b c d))) (zeroLedQuad a b c d)
  | mid {pre post : List (List Char)} {a b c d : List Char} (hpre : ∀ g ∈ pre, HexGroup g)
    (hpost : ∀ g ∈ post, HexGroup g) (hlen : pre.length + post.length < 6) (h : Quad a b c d []) :
    AddressText (midFront pre post ++ quadText a b c d)
      (.v6 (ipv6OfSegments (ipv6Segments (pre.map (numeral 16)) (post.map (numeral 16) ++ quadGroups a b c d))))
      (zeroLedQuad a b c d)

/-! ### What is read is in the grammar -/

theorem readNumber_sound {isDigit : Char → Bool} {radix n bound v : ℕ} {allow : Bool} {s rest : List Char}
    (h : readNumber isDigit radix n bound allow s = some (v, rest)) :
    ∃ g, s = g ++ rest ∧ Group isDigit n g ∧ NotOk isDigit rest ∧ v = numeral radix g ∧ v < bound ∧
      (allow = false → zeroLed g = false) := by
  unfold readNumber at h
  dsimp only at h
  split_ifs at h with hlong hempty hzero hbound
  injection h with h
  injection h with hv hrest
  have hstop : NotOk isDigit rest := by
    intro c hc
    have hdrop := List.head?_dropWhile_not isDigit s
    rw [hrest, hc] at hdrop
    simpa using hdrop
  refine ⟨s.takeWhile isDigit, ?_, ⟨?_, Nat.not_lt.mp hlong, ?_⟩, hstop, hv.symm, hv ▸ hbound, ?_⟩
  · rw [← hrest, List.takeWhile_append_dropWhile]
  · intro hnil
    rw [hnil] at hempty
    exact hempty rfl
  · exact fun c hc => List.mem_takeWhile_imp hc
  · intro hallow
    unfold zeroLed
    simpa [hallow] using hzero

theorem octet_sound {s rest : List Char} {v : ℕ} (h : octet s = some (v, rest)) :
    ∃ g, s = g ++ rest ∧ Octet g rest ∧ NotOk Char.isDigit rest ∧ v = numeral 10 g ∧ zeroLed g = false := by
  obtain ⟨g, hs, hg, hrest, hv, hlt, hzero⟩ := readNumber_sound h
  exact ⟨g, hs, ⟨hg, .inr hrest, hv ▸ hlt⟩, hrest, hv, hzero rfl⟩

theorem dottedOctet_sound {s rest : List Char} {v : ℕ} (h : dottedOctet s = some (v, rest)) :
    ∃ g, s = dotted g ++ rest ∧ Octet g rest ∧ NotOk Char.isDigit rest ∧ v = numeral 10 g ∧ zeroLed g = false := by
  unfold dottedOctet at h
  rw [bind_run] at h
  obtain ⟨⟨_, s'⟩, hdot, h⟩ := Option.bind_eq_some_iff.mp h
  obtain rfl := eq_of_tag hdot
  obtain ⟨g, rfl, hg⟩ := octet_sound h
  exact ⟨g, rfl, hg⟩

theorem readIpv4Addr_sound {s rest : List Char} {x : ℕ × ℕ × ℕ × ℕ} (h : readIpv4Addr s = some (x, rest)) :
    ∃ a b c d, s = quadText a b c d ++ rest ∧ Quad a b c d rest ∧ NotOk Char.isDigit rest ∧
      zeroLedQuad a b c d = false ∧ x = (numeral 10 a, numeral 10 b, numeral 10 c, numeral 10 d) := by
  rw [readIpv4Addr_eq, bind_run] at h
  obtain ⟨⟨a', s1⟩, ha, h⟩ := Option.bind_eq_some_iff.mp h
  rw [bind_run] at h
  obtain ⟨⟨b', s2⟩, hb, h⟩ := Option.bind_eq_some_iff.mp h
  rw [bind_run] at h
  obtain ⟨⟨c', s3⟩, hc, h⟩ := Option.bind_eq_some_iff.mp h
  rw [bind_run] at h
  obtain ⟨⟨d', s4⟩, hd, h⟩ := Option.bind_eq_some_iff.mp h
  obtain ⟨a, rfl, hfirst, -, rfl, hza⟩ := octet_sound ha
  obtain ⟨b, rfl, hsecond, -, rfl, hzb⟩ := dottedOctet_sound hb
  obtain ⟨c, rfl, hthird, -, rfl, hzc⟩ := dottedOctet_sound hc
  obtain ⟨d, rfl, hfourth, hrest, rfl, hzd⟩ := dottedOctet_sound hd
  cases h
  refine ⟨a, b, c, d, by simp [quadText], ⟨hfirst, hsecond, hthird, hfourth⟩, hrest, ?_, rfl⟩
  simp [zeroLedQuad, hza, hzb, hzc, hzd]

theorem readSeparator_sound {A : Type} {i : ℕ} {inner : TextParser A} {s rest : List Char} {x : A}
    (h : readSeparator ':' i inner s = some (x, rest)) : ∃ s', s = mark i ++ s' ∧ inner s' = some (x, rest) := by
  cases i with
  | zero => exact ⟨s, rfl, h⟩
  | succ i =>
    have hrun : (readGivenChar ':' >>= fun _ => inner) s = some (x, rest) := h
    rw [bind_run] at hrun
    obtain ⟨⟨_, s'⟩, hmark, hinner⟩ := Option.bind_eq_some_iff.mp hrun
    exact ⟨s', eq_of_tag hmark, hinner⟩

/-- Groups with a mark before each, but for one that is the first of all. -/
def marked : ℕ → List (List Char) → List Char
  | _, [] => []
  | i, g :: gs => mark i ++ (g ++ marked (i + 1) gs)

theorem marked_succ : ∀ (gs : List (List Char)) (i : ℕ), marked (i + 1) gs = gs.flatMap (':' :: ·)
  | [], _ => rfl
  | g :: gs, i => by simp [marked, mark, marked_succ gs]

theorem marked_zero (gs : List (List Char)) : marked 0 gs = joined ':' gs := by
  cases gs with
  | nil => rfl
  | cons g gs => simp [marked, mark, joined, marked_succ]

/-- The groups that were read, and the IPv4 address behind them if one was. -/
structure GroupsRead (left i : ℕ) (s : List Char) (segments : List ℕ) (ipv4 : Bool) (rest : List Char)
    (gs : List (List Char)) : Prop where
  all : ∀ g ∈ gs, HexGroup g
  plain : ipv4 = false → s = marked i gs ++ rest ∧ segments = gs.map (numeral 16) ∧ gs.length ≤ left
  quad : ipv4 = true → ∃ a b c d, s = marked i gs ++ (mark (i + gs.length) ++ (quadText a b c d ++ rest)) ∧
    Quad a b c d rest ∧ zeroLedQuad a b c d = false ∧ segments = gs.map (numeral 16) ++ quadGroups a b c d ∧
    gs.length + 2 ≤ left

theorem groupsRead_nil (left i : ℕ) (s : List Char) : GroupsRead left i s [] false s [] where
  all _ hg := absurd hg List.not_mem_nil
  plain _ := ⟨rfl, rfl, Nat.zero_le _⟩
  quad h := nomatch h

theorem GroupsRead.cons {left i : ℕ} {s rest : List Char} {segments : List ℕ} {ipv4 : Bool} {gs : List (List Char)}
    (h : GroupsRead left (i + 1) s segments ipv4 rest gs) {g : List Char} (hg : HexGroup g) :
    GroupsRead (left + 1) i (mark i ++ (g ++ s)) (numeral 16 g :: segments) ipv4 rest (g :: gs) where
  all := List.forall_mem_cons.mpr ⟨hg, h.all⟩
  plain hno := by
    obtain ⟨rfl, rfl, hle⟩ := h.plain hno
    exact ⟨by simp [marked], rfl, Nat.succ_le_succ hle⟩
  quad hyes := by
    obtain ⟨a, b, c, d, rfl, hquad, hzero, rfl, hle⟩ := h.quad hyes
    have hindex : i + 1 + gs.length = i + (g :: gs).length := by
      rw [List.length_cons]
      omega
    exact ⟨a, b, c, d, by simp [marked, hindex], hquad, hzero, rfl, by rw [List.length_cons]; omega⟩

theorem readGroups_sound (left i : ℕ) (s : List Char) :
    ∃ gs, GroupsRead left i s (readGroups left i s).1 (readGroups left i s).2.1 (readGroups left i s).2.2 gs := by
  induction left generalizing i s with
  | zero => exact Exists.intro [] (groupsRead_nil 0 i s)
  | succ left ih =>
    rw [readGroups]
    cases hipv4 : (if 0 < left then readSeparator ':' i readIpv4Addr s else none) with
    | some x =>
      obtain ⟨x, rest⟩ := x
      by_cases hleft : 0 < left
      · rw [if_pos hleft] at hipv4
        obtain ⟨s', rfl, hread⟩ := readSeparator_sound hipv4
        obtain ⟨a, b, c, d, rfl, hquad, -, hzero, rfl⟩ := readIpv4Addr_sound hread
        refine ⟨[], fun _ hg => absurd hg List.not_mem_nil, fun h => Bool.noConfusion h, fun _ => ?_⟩
        exact ⟨a, b, c, d, rfl, hquad, hzero, rfl, by rw [List.length_nil]; omega⟩
      · rw [if_neg hleft] at hipv4
        cases hipv4
    | none =>
      dsimp only
      cases hnumber : readSeparator ':' i (readNumber isHexDigit 16 4 65536 true) s with
      | none => exact Exists.intro [] (groupsRead_nil _ i s)
      | some x =>
        obtain ⟨v, rest⟩ := x
        obtain ⟨s', rfl, hread⟩ := readSeparator_sound hnumber
        obtain ⟨g, rfl, hg, -, rfl, -⟩ := readNumber_sound hread
        obtain ⟨gs, hgs⟩ := ih (i + 1) rest
        exact Exists.intro (g :: gs) (hgs.cons hg)

theorem hexGroup_octet {g rest : List Char} (h : Octet g rest) : HexGroup g :=
  ⟨h.ne_nil, Nat.le_succ_of_le h.length_le, fun c hc => isHexDigit_of_isDigit (h.all c hc)⟩

/-- An IPv6 address the standard library reads to the end is in the grammar. -/
theorem addressText_of_ipv6FromStr {s : List Char} {ip : Ipv6Addr} (h : ipv6FromStr s = some ip) :
    AddressText s (.v6 ip) false := by
  have hread : readIpv6Addr s = some (ip, []) := by
    unfold ipv6FromStr at h
    split at h
    · cases h
      assumption
    · cases h
  obtain ⟨pre, hpre⟩ := readGroups_sound 8 0 s
  unfold readIpv6Addr at hread
  generalize readGroups 8 0 s = groups at hread hpre
  obtain ⟨head, headIpv4, rest⟩ := groups
  dsimp only at hread hpre
  by_cases hlen : head.length = 8
  · rw [if_pos hlen] at hread
    injection hread with hread
    injection hread with hip hrest
    subst hip hrest
    cases headIpv4 with
    | false =>
      obtain ⟨rfl, rfl, -⟩ := hpre.plain rfl
      rw [marked_zero, List.append_nil]
      exact .full hpre.all (by simpa using hlen)
    | true =>
      obtain ⟨a, b, c, d, rfl, hquad, hzero, rfl, -⟩ := hpre.quad rfl
      have hsix : pre.length = 6 := by simpa [quadGroups] using hlen
      have htext : marked 0 pre ++ (mark (0 + pre.length) ++ (quadText a b c d ++ [])) =
          sixFront pre ++ quadText a b c d := by
        simp [marked_zero, sixFront, hsix, mark]
      rw [htext, ← hzero]
      exact .six hpre.all hsix hquad
  · rw [if_neg hlen] at hread
    cases headIpv4 with
    | true => cases hread
    | false =>
      rw [if_neg (by decide)] at hread
      obtain ⟨rfl, rfl, hle⟩ := hpre.plain rfl
      cases hcolons : (readGivenChar ':' >>= fun _ => readGivenChar ':') rest with
      | none =>
        rw [hcolons] at hread
        cases hread
      | some x =>
        obtain ⟨_, behind⟩ := x
        rw [hcolons] at hread
        have htext : rest = ':' :: ':' :: behind := by
          rw [bind_run] at hcolons
          obtain ⟨⟨_, s'⟩, h1, h2⟩ := Option.bind_eq_some_iff.mp hcolons
          have hnext : s' = [':'] ++ behind := eq_of_tag h2
          rw [eq_of_tag h1, hnext]
          rfl
        subst htext
        dsimp only at hread
        obtain ⟨post, hpost⟩ := readGroups_sound (8 - ((pre.map (numeral 16)).length + 1)) 0 behind
        generalize readGroups (8 - ((pre.map (numeral 16)).length + 1)) 0 behind = groups at hread hpost
        obtain ⟨tail, tailIpv4, rest⟩ := groups
        dsimp only at hread hpost
        injection hread with hread
        injection hread with hip hrest
        subst hip hrest
        rw [List.length_map] at hlen hpost
        rw [marked_zero]
        cases tailIpv4 with
        | false =>
          obtain ⟨rfl, rfl, hle'⟩ := hpost.plain rfl
          have hshort : pre.length + post.length < 8 := by omega
          rw [← ipv6Segments_of_le (by simp only [List.length_map]; omega), marked_zero, List.append_nil]
          exact .short hpre.all hpost.all hshort
        | true =>
          obtain ⟨a, b, c, d, rfl, hquad, hzero, rfl, hle'⟩ := hpost.quad rfl
          have hmid : pre.length + post.length < 6 := by omega
          have htext : joined ':' pre ++ (':' :: ':' :: (marked 0 post ++ (mark (0 + post.length) ++
              (quadText a b c d ++ [])))) = midFront pre post ++ quadText a b c d := by
            simp [marked_zero, midFront]
          have hle : (pre.map (numeral 16)).length + (post.map (numeral 16) ++ quadGroups a b c d).length ≤ 8 := by
            rw [length_append_quadGroups, List.length_map, List.length_map]
            omega
          rw [← ipv6Segments_of_le hle, htext, ← hzero]
          exact .mid hpre.all hpost.all hmid hquad

/-! ### What is in the grammar is read -/

theorem readGroups_clean {a b c d : List Char} (h : Quad a b c d []) (hzero : zeroLedQuad a b c d = false)
    (left i : ℕ) : readGroups (left + 2) i (mark i ++ quadText a b c d) = (quadGroups a b c d, true, []) := by
  have hread := readIpv4Addr_quad h
  unfold zeroLedQuad at hzero
  rw [if_neg (by simp [hzero])] at hread
  rw [readGroups, if_pos (Nat.succ_pos left), readSeparator_mark, hread]
  rfl

theorem readIpv6Addr_six {gs : List (List Char)} {a b c d : List Char} (hgs : ∀ g ∈ gs, HexGroup g)
    (hlen : gs.length = 6) (h : Quad a b c d []) (hzero : zeroLedQuad a b c d = false) :
    readIpv6Addr (sixFront gs ++ quadText a b c d) =
      some (ipv6OfSegments (gs.map (numeral 16) ++ quadGroups a b c d), []) := by
  have hgroups := readGroups_append hgs (fun _ => noDigit_colon (quadText a b c d)) 2
  have hquad := readGroups_clean h hzero 0 6
  change readGroups 2 6 (':' :: quadText a b c d) = _ at hquad
  rw [hlen, hquad] at hgroups
  have htext : sixFront gs ++ quadText a b c d = joined ':' gs ++ (':' :: quadText a b c d) := by simp [sixFront]
  rw [htext]
  unfold readIpv6Addr
  rw [hgroups]
  simp [quadGroups, hlen]

theorem readIpv6Addr_mid {pre post : List (List Char)} {a b c d : List Char} (hpre : ∀ g ∈ pre, HexGroup g)
    (hpost : ∀ g ∈ post, HexGroup g) (hlen : pre.length + post.length < 6) (h : Quad a b c d [])
    (hzero : zeroLedQuad a b c d = false) :
    readIpv6Addr (midFront pre post ++ quadText a b c d) =
      some (ipv6OfSegments (ipv6Segments (pre.map (numeral 16))
        (post.map (numeral 16) ++ quadGroups a b c d)), []) := by
  have htext : midFront pre post ++ quadText a b c d =
      joined ':' pre ++ (':' :: ':' :: (joined ':' post ++ (mark post.length ++ quadText a b c d))) := by
    simp [midFront]
  have hhead := readGroups_append hpre
    (fun _ => noDigit_colon (':' :: (joined ':' post ++ (mark post.length ++ quadText a b c d)))) (8 - pre.length)
  rw [readGroups_colons, Nat.add_sub_of_le (by omega)] at hhead
  have hbehind : post ≠ [] → NoDigit (mark post.length ++ quadText a b c d) := by
    intro hne
    obtain ⟨g, gs, rfl⟩ := List.exists_cons_of_ne_nil hne
    exact noDigit_colon _
  have htail := readGroups_append hpost hbehind (5 - pre.length - post.length + 2)
  have hcount : post.length + (5 - pre.length - post.length + 2) = 7 - pre.length := by omega
  rw [readGroups_clean h hzero, hcount] at htail
  have hcolons (s : List Char) :
      (readGivenChar ':' >>= fun _ => readGivenChar ':') (':' :: ':' :: s) = some ((), s) := rfl
  have hne : ¬ (pre.map (numeral 16)).length = 8 := by
    rw [List.length_map]
    omega
  have hlimit : 8 - ((pre.map (numeral 16)).length + 1) = 7 - pre.length := by
    rw [List.length_map]
    omega
  rw [htext]
  unfold readIpv6Addr
  simp only [hhead, List.append_nil, if_neg hne, Bool.false_eq_true, if_false, hcolons, hlimit, htail]
  have hle : (pre.map (numeral 16)).length + (post.map (numeral 16) ++ quadGroups a b c d).length ≤ 8 := by
    rw [length_append_quadGroups, List.length_map, List.length_map]
    omega
  rw [ipv6Segments_of_le hle]

/-- A text is cut in one way at the first element that is not of a kind. -/
theorem append_cons_inj_of_all {ok : Char → Bool} {u v : List Char} {b c : Char} {w w' : List Char}
    (hu : ∀ x ∈ u, ok x = true) (hv : ∀ x ∈ v, ok x = true) (hb : ok b = false) (hc : ok c = false)
    (h : u ++ b :: w = v ++ c :: w') : u = v ∧ b = c ∧ w = w' := by
  have htake : u = v := by
    have := congrArg (List.takeWhile ok) h
    rwa [List.takeWhile_append_of_pos hu, List.takeWhile_append_of_pos hv, List.takeWhile_cons_of_neg (by simp [hb]),
      List.takeWhile_cons_of_neg (by simp [hc]), List.append_nil, List.append_nil] at this
  subst htake
  injection List.append_cancel_left h with hbc hw
  exact ⟨rfl, hbc, hw⟩

/-- Groups up to the first colon. -/
theorem exists_group_colon {gs : List (List Char)} (hgs : ∀ g ∈ gs, HexGroup g) (w : List Char) :
    ∃ v w', joined ':' gs ++ ':' :: w = v ++ ':' :: w' ∧ ∀ c ∈ v, isHexDigit c = true := by
  cases gs with
  | nil => exact ⟨[], w, rfl, by simp⟩
  | cons g gs =>
    have hg := (hgs g List.mem_cons_self).all
    cases gs with
    | nil => exact ⟨g, w, by simp [joined], hg⟩
    | cons g' gs => exact ⟨g, g' ++ (gs.flatMap (':' :: ·) ++ ':' :: w), by simp [joined], hg⟩

theorem AddressText.colon {s : List Char} {ip : Ipv6Addr} {zero : Bool} (h : AddressText s (.v6 ip) zero) :
    ∃ v w, s = v ++ ':' :: w ∧ ∀ c ∈ v, isHexDigit c = true := by
  cases h with
  | @full gs hgs hlen =>
    obtain ⟨g, gs, rfl⟩ := List.exists_cons_of_ne_nil (l := gs) (fun h => by rw [h] at hlen; cases hlen)
    obtain ⟨g', gs, rfl⟩ := List.exists_cons_of_ne_nil (l := gs) (fun h => by rw [h] at hlen; cases hlen)
    exact ⟨g, g' ++ gs.flatMap (':' :: ·), by simp [fullText, joined], (hgs g List.mem_cons_self).all⟩
  | short hpre hpost hlen => exact exists_group_colon hpre _
  | six hgs hlen h =>
    obtain ⟨v, w, htext, hv⟩ := exists_group_colon hgs (quadText _ _ _ _)
    exact ⟨v, w, by rw [← htext, sixFront, List.append_assoc]; rfl, hv⟩
  | @mid pre post a b c d hpre hpost hlen h =>
    obtain ⟨v, w, htext, hv⟩ := exists_group_colon hpre
      (':' :: (joined ':' post ++ mark post.length) ++ quadText a b c d)
    exact ⟨v, w, by rw [← htext, midFront, List.append_assoc]; rfl, hv⟩

theorem Octet.hexDigits {g rest : List Char} (h : Octet g rest) : ∀ c ∈ g, isHexDigit c = true := fun c hc =>
  isHexDigit_of_isDigit (h.all c hc)

theorem quadText_append (a b c d rest : List Char) :
    quadText a b c d ++ rest = a ++ '.' :: (b ++ (dotted c ++ (dotted d ++ rest))) := by
  simp [quadText, dotted]

/-- The first number of an IPv6 address has no dot behind it. -/
theorem readIpv4Addr_v6 {s : List Char} {ip : Ipv6Addr} {zero : Bool} (h : AddressText s (.v6 ip) zero) :
    readIpv4Addr s = none := by
  cases hread : readIpv4Addr s with
  | none => rfl
  | some x =>
    obtain ⟨x, rest⟩ := x
    obtain ⟨a, b, c, d, hquad, hoctets, -⟩ := readIpv4Addr_sound hread
    obtain ⟨v, w, hcolon, hv⟩ := h.colon
    rw [hquad, quadText_append] at hcolon
    have := (append_cons_inj_of_all hoctets.first.hexDigits hv (by decide) (by decide) hcolon).2.1
    exact absurd this (by decide)

/-- **The standard library reads the texts of the grammar that have no octet with a zero in front.** -/
theorem ipFromStr_eq_some_iff (s : List Char) (ip : Dns.IpAddr) : ipFromStr s = some ip ↔ AddressText s ip false := by
  constructor
  · intro h
    unfold ipFromStr at h
    cases hread : readIpv4Addr s with
    | none =>
      rw [hread] at h
      obtain ⟨ip, hip, rfl⟩ := Option.map_eq_some_iff.mp h
      exact addressText_of_ipv6FromStr hip
    | some x =>
      obtain ⟨x, rest⟩ := x
      obtain ⟨a, b, c, d, rfl, hquad, -, hzero, rfl⟩ := readIpv4Addr_sound hread
      rw [hread] at h
      dsimp only at h
      split_ifs at h with hrest
      obtain rfl := List.isEmpty_iff.mp hrest
      cases h
      rw [List.append_nil, ← hzero]
      exact .quad hquad
  · intro h
    cases ip with
    | v4 bits =>
      generalize hz : false = zero at h
      cases h with
      | quad h =>
        have hread := readIpv4Addr_quad h
        unfold zeroLedQuad at hz
        rw [if_neg (by simp [← hz])] at hread
        unfold ipFromStr
        rw [hread]
        rfl
    | v6 bits =>
      have hv6 : ipv6FromStr s = some bits := by
        apply ipv6FromStr_of_read
        generalize hz : false = zero at h
        cases h with
        | full hgs hlen =>
          have := readIpv6Addr_full hgs hlen noDigit_nil
          rwa [List.append_nil] at this
        | short hpre hpost hlen => exact readIpv6Addr_short hpre hpost hlen
        | six hgs hlen hquad => exact readIpv6Addr_six hgs hlen hquad hz.symm
        | mid hpre hpost hlen hquad => exact readIpv6Addr_mid hpre hpost hlen hquad hz.symm
      unfold ipFromStr
      rw [readIpv4Addr_v6 h, hv6]
      rfl

end Rule
end SmartDns
