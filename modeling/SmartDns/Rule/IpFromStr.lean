/-
# The address parser of the standard library

`core::net::parser`, which reads IPv4 and IPv6 addresses for `from_str`, and what it makes of
groups of hexadecimal digits: it reads them one by one as long as nothing of a group
stands behind them (`readGroups_append`), up to eight of them, or fewer around a `::`.

Key definitions: `readNumber`, `readIpv4Addr`, `readGroups`, `ipv6FromStr`,
`ipFromStr`.
Key theorems: `readGroups_append`, `readIpv6Addr_full`, `readIpv6Addr_short`, `readIpv6Addr_long`.
-/
import SmartDns.Lib.Groups
import SmartDns.Rule.AddressText
import Mathlib.Data.List.Induction

namespace SmartDns
namespace Rule

open Dns
open Lib.Parse

/-! ### The parser of the standard library -/

/-- `read_given_char`. -/
def readGivenChar (c : Char) : TextParser Unit := tag (· == ·) [c]

/-- `read_number` with a bound on the digits, for numbers below `bound`. -/
def readNumber (isDigit : Char → Bool) (radix maxDigits bound : ℕ) (allowZeroPrefix : Bool) : TextParser ℕ :=
  fun s =>
  let digits := s.takeWhile isDigit
  if maxDigits < digits.length then none
  else if digits.isEmpty then none
  else if !allowZeroPrefix && digits.head? == some '0' && 1 < digits.length then none
  else if numeral radix digits < bound then some (numeral radix digits, s.dropWhile isDigit) else none

/-- `read_separator`. -/
def readSeparator {A : Type} (sep : Char) (index : ℕ) (inner : TextParser A) : TextParser A :=
  if 0 < index then readGivenChar sep >>= fun _ => inner else inner

/-- `read_ipv4_addr`: the four octets. -/
def readIpv4Addr : TextParser (ℕ × ℕ × ℕ × ℕ) := do
  let octet := fun i => readSeparator '.' i (readNumber Char.isDigit 10 3 256 false)
  let a ← octet 0
  let b ← octet 1
  let c ← octet 2
  let d ← octet 3
  pure (a, b, c, d)

/-- `read_groups` for this many groups from the index on: the groups, whether an IPv4 address ends them, and
what is left. -/
def readGroups : ℕ → ℕ → List Char → List ℕ × Bool × List Char
  | 0, _, s => ([], false, s)
  | left + 1, i, s =>
    match if 0 < left then readSeparator ':' i readIpv4Addr s else none with
    | some ((a, b, c, d), rest) => ([a * 256 + b, c * 256 + d], true, rest)
    | none =>
      match readSeparator ':' i (readNumber isHexDigit 16 4 65536 true) s with
      | some (g, rest) => (g :: (readGroups left (i + 1) rest).1, (readGroups left (i + 1) rest).2)
      | none => ([], false, s)

def ipv6OfSegments (segments : List ℕ) : Ipv6Addr := BitVec.ofNat 128 (segments.foldl (fun n s => n * 65536 + s) 0)

/-- `read_ipv6_addr`. -/
def readIpv6Addr (s : List Char) : Option (Ipv6Addr × List Char) :=
  let (head, headIpv4, rest) := readGroups 8 0 s
  if head.length = 8 then some (ipv6OfSegments head, rest)
  else if headIpv4 then none
  else
    match (readGivenChar ':' >>= fun _ => readGivenChar ':') rest with
    | none => none
    | some (_, rest) =>
      let (tail, _, rest) := readGroups (8 - (head.length + 1)) 0 rest
      some (ipv6OfSegments (head ++ List.replicate (8 - head.length - tail.length) 0 ++ tail), rest)

/-- `Ipv6Addr::from_str`. -/
def ipv6FromStr (s : List Char) : Option Ipv6Addr :=
  match readIpv6Addr s with
  | some (ip, []) => some ip
  | _ => none

/-- `IpAddr::from_str`: what starts with an IPv4 address is not tried as an IPv6 one. -/
def ipFromStr (s : List Char) : Option Dns.IpAddr :=
  match readIpv4Addr s with
  | some ((a, b, c, d), rest) =>
    if rest.isEmpty then some (.v4 (BitVec.ofNat 32 (((a * 256 + b) * 256 + c) * 256 + d))) else none
  | none => (ipv6FromStr s).map .v6

section

variable {s : List Char} {ip : Ipv6Addr}

theorem ipv6FromStr_of_read (h : readIpv6Addr s = some (ip, [])) : ipv6FromStr s = some ip := by
  unfold ipv6FromStr
  rw [h]

theorem ipv6FromStr_of_rest {c : Char} {rest : List Char} (h : readIpv6Addr s = some (ip, c :: rest)) :
    ipv6FromStr s = none := by
  unfold ipv6FromStr
  rw [h]

theorem ipv6FromStr_of_none (h : readIpv6Addr s = none) : ipv6FromStr s = none := by
  unfold ipv6FromStr
  rw [h]

end

/-! ### Groups of digits -/

abbrev HexGroup (g : List Char) : Prop := Group isHexDigit 4 g

theorem isHexDigit_bounds {c : Char} (h : isHexDigit c = true) : (48 ≤ c.toNat ∧ c.toNat ≤ 57) ∨
    (97 ≤ c.toNat ∧ c.toNat ≤ 102) ∨ (65 ≤ c.toNat ∧ c.toNat ≤ 70) := by
  simp only [isHexDigit, Char.isDigit, Bool.or_eq_true, Bool.and_eq_true, decide_eq_true_eq] at h
  rcases h with (⟨h1, h2⟩ | ⟨h1, h2⟩) | ⟨h1, h2⟩
  · exact .inl ⟨h1, h2⟩
  · exact .inr (.inl ⟨h1, h2⟩)
  · exact .inr (.inr ⟨h1, h2⟩)

theorem digitValue_lt {c : Char} (h : isHexDigit c = true) : digitValue c < 16 := by
  have hbounds := isHexDigit_bounds h
  have hdigit : c.isDigit = true ↔ 48 ≤ c.toNat ∧ c.toNat ≤ 57 := by
    simp only [Char.isDigit, Bool.and_eq_true, decide_eq_true_eq]
    rfl
  have hlower : c.isLower = true ↔ 97 ≤ c.toNat ∧ c.toNat ≤ 122 := by
    show (decide (97 ≤ c.toNat) && decide (c.toNat ≤ 122)) = true ↔ _
    simp only [Bool.and_eq_true, decide_eq_true_eq]
  unfold digitValue
  by_cases hd : c.isDigit = true
  · rw [if_pos hd]
    have := hdigit.mp hd
    omega
  · rw [if_neg hd]
    by_cases hl : c.isLower = true
    · rw [if_pos hl]
      have := hlower.mp hl
      omega
    · rw [if_neg hl]
      have := mt hlower.mpr hl
      omega

theorem numeral_append_singleton (b : ℕ) (g : List Char) (c : Char) :
    numeral b (g ++ [c]) = numeral b g * b + digitValue c := by
  unfold numeral
  rw [List.foldl_append]
  rfl

theorem numeral_lt {base : ℕ} {g : List Char} (h : ∀ c ∈ g, digitValue c < base) :
    numeral base g < base ^ g.length := by
  induction g using List.reverseRecOn with
  | nil => simp [numeral]
  | append_singleton g c ih =>
    have hg := ih fun x hx => h x (List.mem_append_left _ hx)
    have hc : digitValue c < base := h c (by simp)
    rw [numeral_append_singleton, List.length_append, List.length_singleton, Nat.pow_succ]
    calc numeral base g * base + digitValue c
        < numeral base g * base + base := by omega
      _ = (numeral base g + 1) * base := (Nat.succ_mul _ _).symm
      _ ≤ base ^ g.length * base := Nat.mul_le_mul_right _ hg

theorem numeral_eq_zero_iff {base : ℕ} (hb : 0 < base) (g : List Char) :
    numeral base g = 0 ↔ ∀ c ∈ g, digitValue c = 0 := by
  induction g using List.reverseRecOn with
  | nil => simp [numeral]
  | append_singleton g c ih =>
    rw [numeral_append_singleton, Nat.add_eq_zero_iff, Nat.mul_eq_zero, ih, List.forall_mem_append,
      List.forall_mem_singleton]
    simp [Nat.pos_iff_ne_zero.mp hb]

theorem numeral_hexGroup_lt {g : List Char} (h : HexGroup g) : numeral 16 g < 65536 := by
  calc numeral 16 g
      < 16 ^ g.length := numeral_lt fun c hc => digitValue_lt (h.all c hc)
    _ ≤ 16 ^ 4 := Nat.pow_le_pow_right (by omega) h.length_le
    _ = 65536 := rfl

/-- A number with a zero in front. -/
def zeroLed (g : List Char) : Bool := g.head? == some '0' && 1 < g.length

theorem readNumber_group {isDigit : Char → Bool} {n : ℕ} {g rest : List Char} (hg : Group isDigit n g)
    (hrest : NotOk isDigit rest) (radix bound : ℕ) (allow : Bool) :
    readNumber isDigit radix n bound allow (g ++ rest) =
      if !allow && zeroLed g then none
      else if numeral radix g < bound then some (numeral radix g, rest) else none := by
  have htail : rest.takeWhile isDigit = [] ∧ rest.dropWhile isDigit = rest := by
    cases rest with
    | nil => exact ⟨rfl, rfl⟩
    | cons b rest =>
      have hb : isDigit b = false := hrest b rfl
      simp [hb]
  have htake : (g ++ rest).takeWhile isDigit = g := by
    rw [List.takeWhile_append_of_pos hg.all, htail.1, List.append_nil]
  have hdrop : (g ++ rest).dropWhile isDigit = rest := by
    rw [List.dropWhile_append_of_pos hg.all, htail.2]
  have hlong : ¬ n < g.length := Nat.not_lt.mpr hg.length_le
  have hempty : g.isEmpty = false := by simpa using hg.ne_nil
  unfold readNumber zeroLed
  simp only [htake, hdrop, if_neg hlong, hempty, Bool.and_assoc]
  rfl

theorem readNumber_eq_none {isDigit : Char → Bool} {s : List Char} (h : NotOk isDigit s) (radix n bound : ℕ)
    (allow : Bool) : readNumber isDigit radix n bound allow s = none := by
  have htake : s.takeWhile isDigit = [] := by
    cases s with
    | nil => rfl
    | cons b s =>
      have hb : isDigit b = false := h b rfl
      simp [hb]
  unfold readNumber
  simp [htake]

theorem rest_of_readNumber {isDigit : Char → Bool} {radix n bound v : ℕ} {allow : Bool} {s rest : List Char}
    (h : readNumber isDigit radix n bound allow s = some (v, rest)) : rest = s.dropWhile isDigit := by
  unfold readNumber at h
  dsimp only at h
  split_ifs at h
  cases h
  rfl

/-! ### Groups, as the standard library reads them -/

/-- Neither a digit of a group nor a dot comes next. -/
abbrev NoDigit (s : List Char) : Prop := NotOk (fun c => isHexDigit c || c == '.') s

theorem NoDigit.notOk {s : List Char} (h : NoDigit s) : NotOk isHexDigit s := fun c hc =>
  (Bool.or_eq_false_iff.mp (h c hc)).1

theorem noDigit_colon (s : List Char) : NoDigit (':' :: s) := notOk_cons (by decide)

theorem noDigit_nil : NoDigit [] := notOk_nil

theorem isHexDigit_of_isDigit {c : Char} (h : c.isDigit = true) : isHexDigit c = true := by simp [isHexDigit, h]

def octet : TextParser ℕ := readNumber Char.isDigit 10 3 256 false

def dottedOctet : TextParser ℕ := readGivenChar '.' >>= fun _ => octet

theorem readIpv4Addr_eq : readIpv4Addr =
    (octet >>= fun a => dottedOctet >>= fun b => dottedOctet >>= fun c => dottedOctet >>= fun d => pure (a, b, c, d)) :=
  rfl

/-- The first number of an IPv4 address has a dot behind it. -/
theorem readIpv4Addr_eq_none {s : List Char} (h : (s.dropWhile Char.isDigit).head? ≠ some '.') :
    readIpv4Addr s = none := by
  rw [readIpv4Addr_eq, bind_run]
  cases hnumber : octet s with
  | none => rfl
  | some x =>
    have hrest : x.2 = s.dropWhile Char.isDigit := rest_of_readNumber hnumber
    have hdot : dottedOctet x.2 = none := tag_bind_eq_none (hrest ▸ h) _
    rw [Option.bind_some, bind_run, hdot]
    rfl

theorem readIpv4Addr_group {g rest : List Char} (hg : HexGroup g) (hrest : NoDigit rest) :
    readIpv4Addr (g ++ rest) = none := by
  apply readIpv4Addr_eq_none
  intro hdot
  obtain ⟨tail, htail⟩ := List.head?_eq_some_iff.mp hdot
  -- The dot is behind the group, or in it.
  have hmem : '.' ∈ (g ++ rest).dropWhile Char.isDigit := htail ▸ List.mem_cons_self
  by_cases hall : ∀ c ∈ g, c.isDigit = true
  · rw [List.dropWhile_append_of_pos hall] at htail
    cases rest with
    | nil => cases htail
    | cons c rest =>
      have hc := Bool.or_eq_false_iff.mp (hrest c rfl)
      have hdigit : c.isDigit = false := by
        by_contra hyes
        rw [isHexDigit_of_isDigit (Bool.not_eq_false _ ▸ hyes)] at hc
        exact absurd hc.1 (by decide)
      rw [List.dropWhile_cons_of_neg (by simp [hdigit])] at htail
      injection htail with hcdot
      rw [hcdot] at hc
      exact absurd hc.2 (by decide)
  · obtain ⟨c, hc⟩ : ∃ c, ((g ++ rest).dropWhile Char.isDigit).head? = some c ∧ c ∈ g := by
      have hsplit : (g ++ rest).dropWhile Char.isDigit = g.dropWhile Char.isDigit ++ rest := by
        rw [List.dropWhile_append, if_neg]
        intro hnil
        exact hall (List.dropWhile_eq_nil_iff.mp (List.isEmpty_iff.mp hnil))
      cases hg' : g.dropWhile Char.isDigit with
      | nil => exact absurd (List.dropWhile_eq_nil_iff.mp hg') hall
      | cons c tail =>
        refine ⟨c, by rw [hsplit, hg']; rfl, ?_⟩
        exact (List.dropWhile_suffix Char.isDigit).subset (hg' ▸ List.mem_cons_self)
    rw [hc.1] at hdot
    obtain rfl := Option.some.inj hdot
    exact absurd (hg.all _ hc.2) (by decide)

/-- The text in front of a group. -/
def mark : ℕ → List Char
  | 0 => []
  | _ + 1 => [':']

theorem readSeparator_mark {A : Type} (i : ℕ) (inner : TextParser A) (s : List Char) :
    readSeparator ':' i inner (mark i ++ s) = inner s := by
  cases i with
  | zero => rfl
  | succ i => exact tag_bind_cons ':' (fun _ => inner) s

theorem readGroups_group {g rest : List Char} (hg : HexGroup g) (hrest : NoDigit rest) (left i : ℕ) :
    readGroups (left + 1) i (mark i ++ (g ++ rest)) =
      (numeral 16 g :: (readGroups left (i + 1) rest).1, (readGroups left (i + 1) rest).2) := by
  have hnone : (if 0 < left then readSeparator ':' i readIpv4Addr (mark i ++ (g ++ rest)) else none) = none := by
    rw [readSeparator_mark, readIpv4Addr_group hg hrest, ite_self]
  have hgroup : readSeparator ':' i (readNumber isHexDigit 16 4 65536 true) (mark i ++ (g ++ rest)) =
      some (numeral 16 g, rest) := by
    rw [readSeparator_mark, readNumber_group hg hrest.notOk, Bool.not_true, Bool.false_and, if_neg (by decide),
      if_pos (numeral_hexGroup_lt hg)]
  rw [readGroups, hnone]
  simp only [hgroup]

theorem readGroups_tail {gs : List (List Char)} : ∀ {rest : List Char}, (∀ g ∈ gs, HexGroup g) → NoDigit rest →
    ∀ left i, readGroups (gs.length + left) (i + 1) (gs.flatMap (':' :: ·) ++ rest) =
      (gs.map (numeral 16) ++ (readGroups left (i + 1 + gs.length) rest).1,
        (readGroups left (i + 1 + gs.length) rest).2) := by
  induction gs with
  | nil =>
    intro rest _ _ left i
    simp
  | cons g gs ih =>
    intro rest hgs hrest left i
    obtain ⟨hg, hgs⟩ := List.forall_mem_cons.mp hgs
    have hbehind : NoDigit (gs.flatMap (':' :: ·) ++ rest) := by
      cases gs with
      | nil => exact hrest
      | cons g' gs => exact noDigit_colon _
    have hcount : (g :: gs).length + left = (gs.length + left) + 1 := by
      rw [List.length_cons]
      omega
    have htext : (g :: gs).flatMap (':' :: ·) ++ rest = mark (i + 1) ++ (g ++ (gs.flatMap (':' :: ·) ++ rest)) := by
      simp [mark]
    have hindex : i + 1 + 1 + gs.length = i + 1 + (g :: gs).length := by
      rw [List.length_cons]
      omega
    rw [hcount, htext, readGroups_group hg hbehind, ih hgs hrest left (i + 1), hindex]
    rfl

/-- **Groups with nothing of a group behind them are read one by one.** -/
theorem readGroups_append {gs : List (List Char)} {rest : List Char} (hgs : ∀ g ∈ gs, HexGroup g)
    (hrest : gs ≠ [] → NoDigit rest) (left : ℕ) :
    readGroups (gs.length + left) 0 (joined ':' gs ++ rest) =
      (gs.map (numeral 16) ++ (readGroups left gs.length rest).1, (readGroups left gs.length rest).2) := by
  cases gs with
  | nil => simp [joined]
  | cons g gs =>
    obtain ⟨hg, hgs⟩ := List.forall_mem_cons.mp hgs
    have hnext : NoDigit rest := hrest (List.cons_ne_nil _ _)
    have hbehind : NoDigit (gs.flatMap (':' :: ·) ++ rest) := by
      cases gs with
      | nil => exact hnext
      | cons g' gs => exact noDigit_colon _
    have hcount : (g :: gs).length + left = (gs.length + left) + 1 := by
      rw [List.length_cons]
      omega
    have htext : joined ':' (g :: gs) ++ rest = mark 0 ++ (g ++ (gs.flatMap (':' :: ·) ++ rest)) := by
      simp [joined, mark]
    have hindex : 0 + 1 + gs.length = (g :: gs).length := by
      rw [List.length_cons]
      omega
    rw [hcount, htext, readGroups_group hg hbehind, readGroups_tail hgs hnext left 0, hindex]
    rfl

theorem readGroups_eq_nil {s : List Char} {i : ℕ} (h : readSeparator ':' i readIpv4Addr s = none)
    (h' : readSeparator ':' i (readNumber isHexDigit 16 4 65536 true) s = none) (left : ℕ) :
    readGroups left i s = ([], false, s) := by
  cases left with
  | zero => rfl
  | succ left =>
    rw [readGroups, h, ite_self]
    simp only [h']

/-- Where no group begins none is read. -/
theorem readGroups_of_noDigit {s : List Char} (h : NoDigit s) (left : ℕ) : readGroups left 0 s = ([], false, s) := by
  apply readGroups_eq_nil
  · apply readIpv4Addr_eq_none
    intro hdot
    obtain ⟨tail, htail⟩ := List.head?_eq_some_iff.mp hdot
    cases s with
    | nil => cases htail
    | cons c s =>
      have hc := Bool.or_eq_false_iff.mp (h c rfl)
      have hdigit : ¬ c.isDigit = true := fun hyes => by
        rw [isHexDigit_of_isDigit hyes] at hc
        exact absurd hc.1 (by decide)
      rw [List.dropWhile_cons_of_neg hdigit] at htail
      injection htail with hcdot
      rw [hcdot] at hc
      exact absurd hc.2 (by decide)
  · exact readNumber_eq_none h.notOk _ _ _ _

theorem readGroups_nil (left i : ℕ) : readGroups left i [] = ([], false, []) := by
  cases i with
  | zero => exact readGroups_of_noDigit noDigit_nil left
  | succ i => exact readGroups_eq_nil rfl rfl left

/-- At `::` none is read. -/
theorem readGroups_colons (left i : ℕ) (s : List Char) :
    readGroups left i (':' :: ':' :: s) = ([], false, ':' :: ':' :: s) := by
  cases i with
  | zero => exact readGroups_of_noDigit (noDigit_colon _) left
  | succ i =>
    have hnext {A : Type} (inner : TextParser A) (h : inner (':' :: s) = none) :
        readSeparator ':' (i + 1) inner (':' :: ':' :: s) = none :=
      (tag_bind_cons ':' (fun _ => inner) (':' :: s)).trans h
    exact readGroups_eq_nil (hnext _ (readIpv4Addr_eq_none (by simp)))
      (hnext _ (readNumber_eq_none (noDigit_colon s).notOk _ _ _ _)) left

/-! ### Groups on both sides -/

theorem readIpv6Addr_full {gs : List (List Char)} {rest : List Char} (hgs : ∀ g ∈ gs, HexGroup g)
    (hlen : gs.length = 8) (hrest : NoDigit rest) :
    readIpv6Addr (joined ':' gs ++ rest) = some (ipv6OfSegments (gs.map (numeral 16)), rest) := by
  have hgroups := readGroups_append hgs (fun _ => hrest) 0
  rw [hlen] at hgroups
  unfold readIpv6Addr
  rw [hgroups]
  simp [readGroups, hlen]

theorem ipv6Segments_of_le {pre post : List ℕ} (h : pre.length + post.length ≤ 8) :
    ipv6Segments pre post = pre ++ List.replicate (8 - pre.length - post.length) 0 ++ post := by
  have hsub : 8 - post.length - pre.length = 8 - pre.length - post.length := by omega
  unfold ipv6Segments
  rw [List.take_append, List.take_of_length_le (by omega), List.take_replicate, hsub]
  congr 3
  omega

theorem readIpv6Addr_short {pre post : List (List Char)} (hpre : ∀ g ∈ pre, HexGroup g)
    (hpost : ∀ g ∈ post, HexGroup g) (hlen : pre.length + post.length < 8) :
    readIpv6Addr (joined ':' pre ++ (':' :: ':' :: joined ':' post)) =
      some (ipv6OfSegments (ipv6Segments (pre.map (numeral 16)) (post.map (numeral 16))), []) := by
  have hhead := readGroups_append hpre (fun _ => noDigit_colon (':' :: joined ':' post)) (8 - pre.length)
  rw [readGroups_colons, Nat.add_sub_of_le (by omega)] at hhead
  have htail := readGroups_append hpost (fun _ => noDigit_nil) (7 - pre.length - post.length)
  rw [readGroups_nil, List.append_nil, Nat.add_sub_of_le (by omega)] at htail
  have hcolons : (readGivenChar ':' >>= fun _ => readGivenChar ':') (':' :: ':' :: joined ':' post) =
      some ((), joined ':' post) := rfl
  have hne : ¬ (pre.map (numeral 16)).length = 8 := by
    rw [List.length_map]
    omega
  have hlimit : 8 - ((pre.map (numeral 16)).length + 1) = 7 - pre.length := by
    rw [List.length_map]
    omega
  unfold readIpv6Addr
  simp only [hhead, List.append_nil, if_neg hne, Bool.false_eq_true, if_false, hcolons, hlimit, htail]
  rw [ipv6Segments_of_le (by simp only [List.length_map]; omega)]

theorem readNumber_long {isDigit : Char → Bool} {n : ℕ} {g rest : List Char} (hg : ∀ c ∈ g, isDigit c = true)
    (hlen : g.length = n) (hrest : ¬ NotOk isDigit rest) (radix bound : ℕ) (allow : Bool) :
    readNumber isDigit radix n bound allow (g ++ rest) = none := by
  obtain ⟨c, rest, rfl, hc⟩ : ∃ c rest', rest = c :: rest' ∧ isDigit c = true := by
    cases rest with
    | nil => exact absurd notOk_nil hrest
    | cons c rest =>
      refine ⟨c, rest, rfl, ?_⟩
      by_contra hno
      exact hrest (notOk_cons (Bool.not_eq_true _ ▸ hno))
  have hlong : n < ((g ++ c :: rest).takeWhile isDigit).length := by
    rw [List.takeWhile_append_of_pos hg, List.takeWhile_cons_of_pos hc, List.length_append, List.length_cons]
    omega
  unfold readNumber
  simp only [if_pos hlong]

/-- Eight groups with a fifth digit behind the last. -/
theorem readIpv6Addr_long {gs : List (List Char)} {rest : List Char} (hgs : ∀ g ∈ gs, HexGroup g)
    (hlen : gs.length = 8) (hlast : ∀ g, gs.getLast? = some g → g.length = 4) (hrest : ¬ NotOk isHexDigit rest) :
    readIpv6Addr (joined ':' gs ++ rest) = none := by
  obtain ⟨front, g, rfl⟩ : ∃ front g, gs = front ++ [g] :=
    (List.eq_nil_or_concat' gs).resolve_left fun h => by rw [h] at hlen; cases hlen
  have hg : HexGroup g := hgs g (by simp)
  have hfront : ∀ g ∈ front, HexGroup g := fun g' hg' => hgs g' (List.mem_append_left _ hg')
  rw [List.length_append, List.length_singleton] at hlen
  have hne : front ≠ [] := fun h => by rw [h] at hlen; cases hlen
  have htext : joined ':' (front ++ [g]) ++ rest = joined ':' front ++ (':' :: (g ++ rest)) := by
    rw [joined_append hne]
    simp
  have hgroups := readGroups_append hfront (fun _ => noDigit_colon (g ++ rest)) 1
  have hnone : readGroups 1 front.length (':' :: (g ++ rest)) = ([], false, ':' :: (g ++ rest)) := by
    obtain ⟨k, hk⟩ : ∃ k, front.length = k + 1 := ⟨front.length - 1, by omega⟩
    have hnumber : readSeparator ':' (k + 1) (readNumber isHexDigit 16 4 65536 true) (':' :: (g ++ rest)) = none :=
      (readSeparator_mark (k + 1) _ (g ++ rest)).trans (readNumber_long hg.all (hlast g (by simp)) hrest _ _ _)
    rw [hk, readGroups, if_neg (by omega)]
    simp only [hnumber]
  have hcolons : (readGivenChar ':' >>= fun _ => readGivenChar ':') (':' :: (g ++ rest)) = none := by
    refine (tag_bind_cons ':' (fun _ => readGivenChar ':') (g ++ rest)).trans ?_
    obtain ⟨c, g', rfl⟩ := List.exists_cons_of_ne_nil hg.ne_nil
    have hc : (c == ':') = false := by
      rw [beq_eq_false_iff_ne]
      rintro rfl
      exact absurd (hg.all _ List.mem_cons_self) (by decide)
    show (if (c == ':') = true then _ else none) = none
    rw [hc]
    rfl
  have h7 : ¬ (front.map (numeral 16)).length = 8 := by
    rw [List.length_map]
    omega
  have h8 : front.length + 1 = 8 := hlen
  rw [hnone, h8, List.append_nil] at hgroups
  rw [htext]
  unfold readIpv6Addr
  simp only [hgroups, if_neg h7, Bool.false_eq_true, if_false, hcolons]

end Rule
end SmartDns
