/-
# Parser combinators

The combinators of a parser library that works on a whole text: a parser takes a value
off the front or fails, `orElse` tries the second parser where the first failed.

A parser that reads up to the end of its input can see whether a line is taken with its
end or without. One that cannot is blind to the separator (`Blind`): put behind an input,
it only shows up in what is left. Blindness goes through every combinator, and from one
separator to a run of them (`Blind.append`). A parser that takes everything up to a mark is
blind on inputs that have the mark (`BlindTo`), and blind altogether when the mark has to
follow (`BlindTo.mark`).

Key definitions: `Parser`, `tag`, `sepTail`, `Blind`, `BlindTo`.
Key theorems: `Blind.bind`, `Blind.orElse`, `Blind.sepList1`, `Blind.append`, `BlindTo.mark`.
-/
import Mathlib.Data.List.Basic

namespace SmartDns
namespace Lib
namespace Parse

abbrev Parser (B A : Type) := StateT (List B) Option A

variable {B A A' : Type}

theorem bind_run (p : Parser B A) (f : A → Parser B A') (s : List B) :
    (p >>= f) s = (p s).bind fun x => f x.1 x.2 := rfl

theorem orElse_run (p q : Parser B A) (s : List B) : (p <|> q) s = (p s).or (q s) := by
  change (p s <|> q s) = _
  cases p s <;> rfl

/-- The text with each of its elements matched by one of `t`. -/
def tag (same : B → B → Bool) : List B → Parser B Unit
  | [] => pure ()
  | x :: t => fun s =>
    match s with
    | [] => none
    | b :: rest => if same b x then tag same t rest else none

def takeWhile (ok : B → Bool) : Parser B (List B) := fun s => some (s.takeWhile ok, s.dropWhile ok)

/-- At least `m` elements and at most `n`. -/
def takeWhileMN (m n : ℕ) (ok : B → Bool) : Parser B (List B) := fun s =>
  let taken := (s.take n).takeWhile ok
  if taken.length < m then none else some (taken, s.drop taken.length)

def takeWhile1 (ok : B → Bool) : Parser B (List B) := fun s =>
  if (s.takeWhile ok).isEmpty then none else some (s.takeWhile ok, s.dropWhile ok)

def lift (o : Option A) : Parser B A := fun s => o.map fun a => (a, s)

/-- Runs `f` on what `p` gives, or fails. -/
def mapRes (p : Parser B A) (f : A → Option A') : Parser B A' := p >>= fun a => lift (f a)

def verify (p : Parser B A) (ok : A → Bool) : Parser B A := mapRes p fun a => if ok a then some a else none

def opt (p : Parser B A) : Parser B (Option A) := fun s =>
  match p s with
  | none => some (none, s)
  | some (a, rest) => some (some a, rest)

/-- The rounds of a list behind its first element. A round that takes nothing is an error. -/
def sepRounds (sep : Parser B Unit) (p : Parser B A) : ℕ → Parser B (List A)
  | 0, _ => none
  | n + 1, s =>
    match (sep >>= fun _ => p) s with
    | none => some ([], s)
    | some (a, rest) =>
      if rest.length < s.length then (sepRounds sep p n rest).map fun x => (a :: x.1, x.2) else none

def sepTail (sep : Parser B Unit) (p : Parser B A) : Parser B (List A) := fun s =>
  sepRounds sep p (s.length + 1) s

def sepList1 (sep : Parser B Unit) (p : Parser B A) : Parser B (List A) := do
  let a ← p
  let as ← sepTail sep p
  pure (a :: as)

def sepList0 (sep : Parser B Unit) (p : Parser B A) : Parser B (List A) := fun s =>
  match p s with
  | none => some ([], s)
  | some (a, rest) => (sepTail sep p rest).map fun x => (a :: x.1, x.2)

/-! ### Parsers that do not see a separator at the end -/

/-- What is left is an end of the input, and `nl` behind an input changes nothing but what is left. -/
structure Blind (nl : B) (p : Parser B A) : Prop where
  left : ∀ {s a rest}, p s = some (a, rest) → rest <:+ s
  behind : ∀ s, p (s ++ [nl]) = (p s).map fun x => (x.1, x.2 ++ [nl])

/-- Blind on inputs that have the mark `c`. -/
structure BlindTo (nl c : B) (p : Parser B A) : Prop where
  left : ∀ {s a rest}, p s = some (a, rest) → rest <:+ s
  behind : ∀ {s}, c ∈ s → p (s ++ [nl]) = (p s).map fun x => (x.1, x.2 ++ [nl])

variable {nl c : B} {p q : Parser B A} {f : A → Parser B A'}

theorem Blind.blindTo (h : Blind nl p) : BlindTo nl c p := ⟨h.left, fun _ => h.behind _⟩

theorem Blind.pure (a : A) : Blind nl (Pure.pure a : Parser B A) where
  left h := by
    cases h
    exact List.suffix_rfl
  behind _ := rfl

theorem Blind.lift (o : Option A) : Blind nl (Parse.lift o) := by
  constructor
  · intro s a rest h
    obtain ⟨_, -, h⟩ := Option.map_eq_some_iff.mp h
    cases h
    exact List.suffix_rfl
  · intro s
    cases o <;> rfl

theorem Blind.bind (hp : Blind nl p) (hf : ∀ a, Blind nl (f a)) : Blind nl (p >>= f) := by
  constructor
  · intro s a rest h
    rw [bind_run] at h
    obtain ⟨x, hx, h⟩ := Option.bind_eq_some_iff.mp h
    exact ((hf x.1).left h).trans (hp.left hx)
  · intro s
    rw [bind_run, bind_run, hp.behind]
    cases p s with
    | none => rfl
    | some x => exact (hf x.1).behind x.2

theorem Blind.map (hp : Blind nl p) (g : A → A') : Blind nl (g <$> p) := by
  have h : Blind nl (p >>= fun a => Pure.pure (g a)) := hp.bind fun a => .pure (g a)
  exact h

theorem Blind.mapRes (hp : Blind nl p) (g : A → Option A') : Blind nl (mapRes p g) := hp.bind fun a => .lift (g a)

theorem Blind.orElse (hp : Blind nl p) (hq : Blind nl q) : Blind nl (p <|> q) := by
  constructor
  · intro s a rest h
    rw [orElse_run] at h
    rcases Option.or_eq_some_iff.mp h with h | ⟨-, h⟩
    · exact hp.left h
    · exact hq.left h
  · intro s
    rw [orElse_run, orElse_run, hp.behind, hq.behind]
    cases p s <;> rfl

theorem BlindTo.orElse (hp : BlindTo nl c p) (hq : BlindTo nl c q) : BlindTo nl c (p <|> q) := by
  constructor
  · intro s a rest h
    rw [orElse_run] at h
    rcases Option.or_eq_some_iff.mp h with h | ⟨-, h⟩
    · exact hp.left h
    · exact hq.left h
  · intro s hc
    rw [orElse_run, orElse_run, hp.behind hc, hq.behind hc]
    cases p s <;> rfl

theorem Blind.opt (hp : Blind nl p) : Blind nl (opt p) := by
  constructor
  · intro s a rest h
    unfold Parse.opt at h
    split at h
    · cases h
      exact List.suffix_rfl
    · rename_i hps
      cases h
      exact hp.left hps
  · intro s
    unfold Parse.opt
    rw [hp.behind]
    cases p s <;> rfl

theorem Blind.tag {same : B → B → Bool} {t : List B} (h : t.any (same nl) = false) : Blind nl (tag same t) := by
  induction t with
  | nil => exact .pure ()
  | cons x t ih =>
    rw [List.any_cons, Bool.or_eq_false_iff] at h
    have iht := ih h.2
    have hx : same nl x = false := h.1
    constructor
    · intro s a rest hs
      cases s with
      | nil => cases hs
      | cons b s =>
        simp only [Parse.tag] at hs
        split_ifs at hs
        exact (iht.left hs).trans (List.suffix_cons b s)
    · intro s
      cases s with
      | nil => simp [Parse.tag, hx]
      | cons b s =>
        simp only [Parse.tag, List.cons_append]
        split_ifs
        · exact iht.behind s
        · rfl

theorem takeWhile_behind {ok : B → Bool} (h : ok nl = false) (s : List B) :
    (s ++ [nl]).takeWhile ok = s.takeWhile ok ∧ (s ++ [nl]).dropWhile ok = s.dropWhile ok ++ [nl] := by
  induction s with
  | nil => simp [h]
  | cons b s ih =>
    by_cases hb : ok b = true
    · simp [hb, ih]
    · simp [hb]

theorem Blind.takeWhile {ok : B → Bool} (h : ok nl = false) : Blind nl (takeWhile ok) where
  left hs := by
    cases hs
    exact List.dropWhile_suffix _
  behind _ := by simp [Parse.takeWhile, takeWhile_behind h]

theorem Blind.takeWhile1 {ok : B → Bool} (h : ok nl = false) : Blind nl (takeWhile1 ok) := by
  constructor
  · intro s a rest hs
    unfold Parse.takeWhile1 at hs
    split_ifs at hs
    cases hs
    exact List.dropWhile_suffix _
  · intro s
    unfold Parse.takeWhile1
    rw [(takeWhile_behind h s).1, (takeWhile_behind h s).2]
    split_ifs <;> rfl

theorem Blind.takeWhileMN {ok : B → Bool} (h : ok nl = false) (m n : ℕ) : Blind nl (takeWhileMN m n ok) := by
  constructor
  · intro s a rest hs
    simp only [Parse.takeWhileMN] at hs
    split_ifs at hs
    cases hs
    exact List.drop_suffix _ _
  · intro s
    have htake : ((s ++ [nl]).take n).takeWhile ok = (s.take n).takeWhile ok := by
      rw [List.take_append]
      by_cases hn : n ≤ s.length
      · simp [Nat.sub_eq_zero_of_le hn]
      · rw [List.take_of_length_le (l := [nl]) (by simp; omega)]
        exact (takeWhile_behind h _).1
    have hlen : ((s.take n).takeWhile ok).length ≤ s.length :=
      Nat.le_trans (List.takeWhile_prefix _).length_le (List.length_take_le' n s)
    simp only [Parse.takeWhileMN, htake, List.drop_append_of_le_length hlen]
    split_ifs <;> rfl

/-! ### A run of separators -/

theorem map_map_append (o : Option (A × List B)) (t t' : List B) :
    (o.map fun x => (x.1, x.2 ++ t)).map (fun x => (x.1, x.2 ++ t')) = o.map fun x => (x.1, x.2 ++ (t ++ t')) := by
  cases o with
  | none => rfl
  | some x => simp

theorem Blind.append : ∀ {t : List B}, (∀ b ∈ t, Blind b p) → ∀ s, p (s ++ t) = (p s).map fun x => (x.1, x.2 ++ t)
  | [], _, s => by simp
  | b :: t, h, s => by
    have ih := Blind.append (fun b' hb' => h b' (List.mem_cons_of_mem _ hb')) (s ++ [b])
    rw [List.append_cons, ih, (h b List.mem_cons_self).behind, map_map_append, List.singleton_append]

theorem BlindTo.append : ∀ {t : List B}, (∀ b ∈ t, BlindTo b c p) → ∀ {s}, c ∈ s →
    p (s ++ t) = (p s).map fun x => (x.1, x.2 ++ t)
  | [], _, s, _ => by simp
  | b :: t, h, s, hc => by
    have ih := BlindTo.append (fun b' hb' => h b' (List.mem_cons_of_mem _ hb')) (List.mem_append_left [b] hc)
    rw [List.append_cons, ih, (h b List.mem_cons_self).behind hc, map_map_append, List.singleton_append]

/-! ### Lists -/

/-- More rounds than there is input change nothing. -/
theorem sepRounds_congr (sep : Parser B Unit) (p : Parser B A) : ∀ (n n' : ℕ) (s : List B),
    s.length < n → s.length < n' → sepRounds sep p n s = sepRounds sep p n' s
  | n + 1, n' + 1, s, h, h' => by
    unfold sepRounds
    cases (sep >>= fun _ => p) s with
    | none => rfl
    | some x =>
      by_cases hlt : x.2.length < s.length
      · have ih := sepRounds_congr sep p n n' x.2 (by omega) (by omega)
        simp only [hlt, ↓reduceIte, ih]
      · simp only [hlt, ↓reduceIte]

theorem Blind.sepRounds {sep : Parser B Unit} (hsep : Blind nl sep) (hp : Blind nl p) : ∀ n, Blind nl (sepRounds sep p n)
  | 0 => by
    constructor
    · intro s a rest h
      cases h
    · intro s
      rfl
  | n + 1 => by
    have hround : Blind nl (sep >>= fun _ => p) := hsep.bind fun _ => hp
    have ih := hsep.sepRounds hp n
    constructor
    · intro s a rest h
      unfold Parse.sepRounds at h
      split at h
      · cases h
        exact List.suffix_rfl
      · rename_i hr
        split_ifs at h
        obtain ⟨x, hx, h⟩ := Option.map_eq_some_iff.mp h
        cases h
        exact (ih.left hx).trans (hround.left hr)
    · intro s
      unfold Parse.sepRounds
      rw [hround.behind]
      cases (sep >>= fun _ => p) s with
      | none => rfl
      | some x =>
        simp only [Option.map_some, List.length_append, List.length_cons, List.length_nil, Nat.add_lt_add_iff_right,
          ih.behind]
        split_ifs
        · cases Parse.sepRounds sep p n x.2 <;> rfl
        · rfl

theorem Blind.sepTail {sep : Parser B Unit} (hsep : Blind nl sep) (hp : Blind nl p) : Blind nl (sepTail sep p) where
  left h := (hsep.sepRounds hp _).left h
  behind s := by
    have h := sepRounds_congr sep p ((s ++ [nl]).length + 1) (s.length + 2) (s ++ [nl]) (by simp) (by simp)
    have h' := sepRounds_congr sep p (s.length + 2) (s.length + 1) s (by omega) (by omega)
    rw [Parse.sepTail, Parse.sepTail, h, ← h']
    exact (hsep.sepRounds hp _).behind s

theorem Blind.sepList1 {sep : Parser B Unit} (hsep : Blind nl sep) (hp : Blind nl p) : Blind nl (sepList1 sep p) :=
  hp.bind fun a => (hsep.sepTail hp).bind fun as => .pure (a :: as)

theorem Blind.sepList0 {sep : Parser B Unit} (hsep : Blind nl sep) (hp : Blind nl p) : Blind nl (sepList0 sep p) := by
  have htail := hsep.sepTail hp
  constructor
  · intro s a rest h
    unfold Parse.sepList0 at h
    split at h
    · cases h
      exact List.suffix_rfl
    · rename_i hps
      obtain ⟨x, hx, h⟩ := Option.map_eq_some_iff.mp h
      cases h
      exact (htail.left hx).trans (hp.left hps)
  · intro s
    unfold Parse.sepList0
    rw [hp.behind]
    cases p s with
    | none => rfl
    | some x =>
      simp only [Option.map_some, htail.behind]
      cases Parse.sepTail sep p x.2 <;> rfl

/-! ### Up to a mark -/

/-- What a tag has matched. -/
theorem exists_of_tag {same : B → B → Bool} : ∀ {t s rest : List B} {u : Unit}, tag same t s = some (u, rest) →
    ∃ front, s = front ++ rest ∧ ∀ b ∈ front, ∃ x ∈ t, same b x = true
  | [], _, _, _, h => by
    cases h
    exact ⟨[], rfl, by simp⟩
  | x :: t, [], _, _, h => by cases h
  | x :: t, b :: s, rest, u, h => by
    simp only [tag] at h
    split_ifs at h with hb
    obtain ⟨front, rfl, hfront⟩ := exists_of_tag h
    refine ⟨b :: front, rfl, ?_⟩
    intro d hd
    rcases List.mem_cons.mp hd with rfl | hd
    · exact ⟨x, by simp, hb⟩
    · obtain ⟨y, hy, hdy⟩ := hfront d hd
      exact ⟨y, by simp [hy], hdy⟩

/-- The mark is left to the next parser. -/
def Keeps (c : B) (p : Parser B A) : Prop := ∀ ⦃s a rest⦄, p s = some (a, rest) → c ∈ s → c ∈ rest

theorem keeps_tag {same : B → B → Bool} {t : List B} (h : t.any (same c) = false) : Keeps c (tag same t) := by
  intro s u rest hs hc
  obtain ⟨front, rfl, hfront⟩ := exists_of_tag hs
  rcases List.mem_append.mp hc with hc | hc
  · obtain ⟨y, hy, hcy⟩ := hfront c hc
    exact absurd hcy (List.any_eq_false.mp h y hy)
  · exact hc

theorem Keeps.opt (h : Keeps c p) : Keeps c (opt p) := by
  intro s a rest hs hc
  unfold Parse.opt at hs
  split at hs
  · cases hs
    exact hc
  · rename_i hps
    cases hs
    exact h hps hc

/-- Behind a parser that leaves the mark. -/
theorem BlindTo.after (hp : Blind nl p) (hkeep : Keeps c p) (hf : ∀ a, BlindTo nl c (f a)) :
    BlindTo nl c (p >>= f) := by
  constructor
  · intro s a rest h
    rw [bind_run] at h
    obtain ⟨x, hx, h⟩ := Option.bind_eq_some_iff.mp h
    exact ((hf x.1).left h).trans (hp.left hx)
  · intro s hc
    rw [bind_run, bind_run, hp.behind]
    cases hps : p s with
    | none => rfl
    | some x => exact (hf x.1).behind (hkeep hps hc)

theorem takeWhile_append_of_mem {ok : B → Bool} (h : ok c = false) : ∀ {s : List B}, c ∈ s → ∀ u,
    (s ++ u).takeWhile ok = s.takeWhile ok ∧ (s ++ u).dropWhile ok = s.dropWhile ok ++ u
  | b :: s, hc, u => by
    by_cases hb : ok b = true
    · have hcs : c ∈ s := by
        rcases List.mem_cons.mp hc with rfl | hc
        · exact absurd hb (by simp [h])
        · exact hc
      simp [hb, takeWhile_append_of_mem h hcs u]
    · simp [hb]

theorem BlindTo.takeWhile1 {ok : B → Bool} (h : ok c = false) : BlindTo nl c (takeWhile1 ok) := by
  constructor
  · intro s a rest hs
    unfold Parse.takeWhile1 at hs
    split_ifs at hs
    cases hs
    exact List.dropWhile_suffix _
  · intro s hc
    obtain ⟨htake, hdrop⟩ := takeWhile_append_of_mem h hc [nl]
    unfold Parse.takeWhile1
    rw [htake, hdrop]
    split_ifs <;> rfl

theorem BlindTo.bind (hp : BlindTo nl c p) (hf : ∀ a, Blind nl (f a)) : BlindTo nl c (p >>= f) := by
  constructor
  · intro s a rest h
    rw [bind_run] at h
    obtain ⟨x, hx, h⟩ := Option.bind_eq_some_iff.mp h
    exact ((hf x.1).left h).trans (hp.left hx)
  · intro s hc
    rw [bind_run, bind_run, hp.behind hc]
    cases p s with
    | none => rfl
    | some x => exact (hf x.1).behind x.2

theorem BlindTo.map (hp : BlindTo nl c p) (g : A → A') : BlindTo nl c (g <$> p) := by
  have h : BlindTo nl c (p >>= fun a => Pure.pure (g a)) := hp.bind fun a => .pure (g a)
  exact h

theorem BlindTo.verify (hp : BlindTo nl c p) (ok : A → Bool) : BlindTo nl c (verify p ok) :=
  hp.bind fun _ => .lift _

/-- Without the mark in what is left, a parser that goes on with the mark fails. -/
theorem bind_tag_eq_none [BEq B] [LawfulBEq B] {s : List B} {f : A → Unit → Parser B A'}
    (h : ∀ {a rest}, p s = some (a, rest) → c ∉ rest) :
    (p >>= fun a => tag (· == ·) [c] >>= f a) s = none := by
  rw [bind_run]
  cases hps : p s with
  | none => rfl
  | some x =>
    have hx : c ∉ x.2 := h hps
    change ((tag (· == ·) [c]) x.2).bind _ = none
    cases hr : x.2 with
    | nil => rfl
    | cons b rest =>
      have hb : (b == c) = false := by
        rw [beq_eq_false_iff_ne]
        rintro rfl
        exact hx (by simp [hr])
      simp [tag, hb]

/-- A parser that is blind to inputs with the mark, and goes on with the mark, is blind. -/
theorem BlindTo.mark [BEq B] [LawfulBEq B] (hp : BlindTo nl c p) (hc : nl ≠ c) {f : A → Unit → Parser B A'}
    (hf : ∀ a u, Blind nl (f a u)) : Blind nl (p >>= fun a => tag (· == ·) [c] >>= f a) := by
  have hrest (a : A) : Blind nl (tag (· == ·) [c] >>= f a) :=
    (Blind.tag (by simpa using hc)).bind (hf a)
  constructor
  · intro s a rest h
    rw [bind_run] at h
    obtain ⟨x, hx, h⟩ := Option.bind_eq_some_iff.mp h
    exact ((hrest x.1).left h).trans (hp.left hx)
  · intro s
    by_cases hcs : c ∈ s
    · rw [bind_run, bind_run, hp.behind hcs]
      cases p s with
      | none => rfl
      | some x => exact (hrest x.1).behind x.2
    · have hcs' : c ∉ s ++ [nl] := by simp [hcs, Ne.symm hc]
      rw [bind_tag_eq_none fun h hm => hcs ((hp.left h).subset hm),
        bind_tag_eq_none fun h hm => hcs' ((hp.left h).subset hm)]
      rfl

end Parse
end Lib
end SmartDns
