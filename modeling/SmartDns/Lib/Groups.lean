/-
# Groups between marks

A list parser whose elements are groups of at most `n` characters takes each group as long as
it can and goes on as long as it can. Every text has one list of groups in front that cannot go
on (`exists_joined`), and that is what the parser takes (`sepList0_joined`).

Key definitions: `Group`, `joined`, `Ends`.
Key theorems: `exists_joined`, `sepList0_joined`.
-/
import SmartDns.Lib.Parse
import Mathlib.Data.List.TakeWhile

namespace SmartDns
namespace Lib
namespace Parse

variable {B A A' : Type}

section

variable (ok : B → Bool) (sep : B) (n : ℕ)

structure Group (g : List B) : Prop where
  ne_nil : g ≠ []
  length_le : g.length ≤ n
  all : ∀ b ∈ g, ok b = true

/-- The groups with a mark between them. -/
def joined : List (List B) → List B
  | [] => []
  | g :: gs => g ++ gs.flatMap (sep :: ·)

def NotOk (rest : List B) : Prop := ∀ b, rest.head? = some b → ok b = false

/-- Behind the group `g` nothing belongs to it or to a further group. -/
structure Stops (g rest : List B) : Prop where
  full : g.length = n ∨ NotOk ok rest
  last : ∀ rest', rest = sep :: rest' → NotOk ok rest'

def EndsAfter (g : List B) : List (List B) → List B → Prop
  | [], rest => Stops ok sep n g rest
  | g :: gs, rest => EndsAfter g gs rest

/-- The list of groups cannot go on. -/
def Ends : List (List B) → List B → Prop
  | [], rest => NotOk ok rest
  | g :: gs, rest => EndsAfter ok sep n g gs rest

end

variable {ok : B → Bool} {sep : B} {n : ℕ}

theorem notOk_nil : NotOk ok [] := fun _ h => nomatch h

theorem notOk_cons {b : B} {s : List B} (h : ok b = false) : NotOk ok (b :: s) := fun _ hb => Option.some.inj hb ▸ h

theorem NotOk.mono {ok' : B → Bool} {s : List B} (h : NotOk ok s) (himp : ∀ b, ok' b = true → ok b = true) :
    NotOk ok' s := by
  intro b hb
  by_contra hok
  have hno := h b hb
  rw [himp b (Bool.not_eq_false _ ▸ hok)] at hno
  cases hno

@[simp] theorem joined_nil : joined sep ([] : List (List B)) = [] := rfl

theorem joined_eq_intercalate (sep : B) : ∀ gs : List (List B), joined sep gs = List.intercalate [sep] gs
  | [] => rfl
  | [g] => by simp [joined]
  | g :: g' :: gs => by
    rw [List.intercalate_cons_cons, ← joined_eq_intercalate sep (g' :: gs)]
    simp [joined]

theorem joined_append {gs : List (List B)} (h : gs ≠ []) (gs' : List (List B)) :
    joined sep (gs ++ gs') = joined sep gs ++ gs'.flatMap (sep :: ·) := by
  cases gs with
  | nil => exact absurd rfl h
  | cons g gs => simp [joined]

theorem stops_of_endsAfter {gs : List (List B)} {g' rest : List B} : ∀ {g : List B},
    EndsAfter ok sep n g gs rest → (g :: gs).getLast? = some g' → Stops ok sep n g' rest := by
  induction gs with
  | nil =>
    intro g h hlast
    obtain rfl := Option.some.inj hlast
    exact h
  | cons g'' gs ih =>
    intro g h hlast
    rw [List.getLast?_cons_cons] at hlast
    exact ih h hlast

theorem stops_of_ends {gs : List (List B)} {g rest : List B} (h : Ends ok sep n gs rest)
    (hlast : gs.getLast? = some g) : Stops ok sep n g rest := by
  cases gs with
  | nil => cases hlast
  | cons g' gs => exact stops_of_endsAfter h hlast

theorem endsAfter_of_stops {rest : List B} {gs : List (List B)} (h : ∀ g, Stops ok sep n g rest) :
    ∀ g : List B, EndsAfter ok sep n g gs rest := by
  induction gs with
  | nil => exact h
  | cons g' gs ih => exact fun _ => ih g'

/-- A list ends where neither a group nor a mark comes next. -/
theorem ends_of_stops {rest : List B} (hrest : NotOk ok rest) (h : ∀ rest', rest = sep :: rest' → NotOk ok rest')
    (gs : List (List B)) : Ends ok sep n gs rest := by
  cases gs with
  | nil => exact hrest
  | cons g gs => exact endsAfter_of_stops (fun _ => ⟨.inr hrest, h⟩) g

/-! ### One group -/

theorem takeWhileMN_group {g rest : List B} (hg : Group ok n g) (h : g.length = n ∨ NotOk ok rest) :
    takeWhileMN 1 n ok (g ++ rest) = some (g, rest) := by
  have htaken : ((g ++ rest).take n).takeWhile ok = g := by
    rw [List.take_append, List.take_of_length_le hg.length_le, List.takeWhile_append_of_pos hg.all]
    rcases h with h | h
    · rw [h, Nat.sub_self, List.take_zero, List.takeWhile_nil, List.append_nil]
    · cases rest with
      | nil => simp
      | cons b rest =>
        have hb : ok b = false := h b rfl
        cases n - g.length with
        | zero => simp
        | succ k => simp [hb]
  have hpos : ¬ g.length < 1 := by
    have := List.length_pos_of_ne_nil hg.ne_nil
    omega
  unfold takeWhileMN
  simp only [htaken, if_neg hpos, List.drop_left]

theorem takeWhileMN_eq_none {rest : List B} (h : NotOk ok rest) : takeWhileMN 1 n ok rest = none := by
  have htaken : (rest.take n).takeWhile ok = [] := by
    cases rest with
    | nil => simp
    | cons b rest =>
      have hb : ok b = false := h b rfl
      cases n with
      | zero => simp
      | succ k => simp [hb]
  unfold takeWhileMN
  simp only [htaken, List.length_nil, Nat.zero_lt_one, if_true]

theorem group_of_takeWhileMN {s g rest : List B} (h : takeWhileMN 1 n ok s = some (g, rest)) :
    s = g ++ rest ∧ Group ok n g ∧ (g.length = n ∨ NotOk ok rest) := by
  unfold takeWhileMN at h
  dsimp only at h
  by_cases hpos : ((s.take n).takeWhile ok).length < 1
  · rw [if_pos hpos] at h
    cases h
  · rw [if_neg hpos] at h
    injection h with h
    injection h with hg hrest
    obtain ⟨rest', hs⟩ := ((List.takeWhile_prefix ok (l := s.take n)).trans (List.take_prefix n s))
    rw [hg] at hs hrest hpos
    have htext : s = g ++ rest := by rw [← hrest, ← hs, List.drop_left]
    have hle : g.length ≤ n := by
      have := (List.takeWhile_prefix ok (l := s.take n)).length_le
      rw [hg, List.length_take] at this
      omega
    refine ⟨htext, ⟨List.ne_nil_of_length_pos (by omega), hle, ?_⟩, ?_⟩
    · intro b hb
      rw [← hg] at hb
      exact List.mem_takeWhile_imp hb
    · by_cases hfull : g.length = n
      · exact .inl hfull
      · right
        intro b hb
        cases rest with
        | nil => cases hb
        | cons c rest =>
          obtain rfl := Option.some.inj hb
          rw [htext, List.take_append, List.take_of_length_le hle] at hg
          obtain ⟨k, hk⟩ : ∃ k, n - g.length = k + 1 := ⟨n - g.length - 1, by omega⟩
          rw [hk, List.take_succ_cons] at hg
          by_contra hok
          have hall : ∀ x ∈ g, ok x = true := fun x hx => List.mem_takeWhile_imp (hg ▸ hx)
          rw [List.takeWhile_append_of_pos hall, List.takeWhile_cons_of_pos (by simpa using hok)] at hg
          exact absurd (List.append_right_eq_self.mp hg) (List.cons_ne_nil _ _)

theorem exists_takeWhileMN (hn : 0 < n) {b : B} (hb : ok b = true) (s : List B) :
    ∃ g rest, takeWhileMN 1 n ok (b :: s) = some (g, rest) := by
  obtain ⟨k, rfl⟩ := Nat.exists_eq_succ_of_ne_zero (Nat.pos_iff_ne_zero.mp hn)
  refine ⟨_, _, if_neg ?_⟩
  rw [List.take_succ_cons, List.takeWhile_cons_of_pos hb, List.length_cons]
  omega

/-! ### The list -/

theorem sepRounds_map (f : A → A') (sep : Parser B Unit) (p : Parser B A) : ∀ (k : ℕ) (s : List B),
    sepRounds sep (f <$> p) k s = (sepRounds sep p k s).map fun x => (x.1.map f, x.2)
  | 0, _ => rfl
  | k + 1, s => by
    have hrun : (sep >>= fun _ => f <$> p) s = ((sep >>= fun _ => p) s).map fun x => (f x.1, x.2) := by
      rw [bind_run, bind_run]
      cases sep s with
      | none => rfl
      | some x =>
        show (p x.2).bind _ = (p x.2).map _
        cases p x.2 <;> rfl
    unfold sepRounds
    rw [hrun]
    cases (sep >>= fun _ => p) s with
    | none => rfl
    | some x =>
      show (if x.2.length < s.length then _ else none) = _
      by_cases hlt : x.2.length < s.length
      · rw [if_pos hlt, sepRounds_map f sep p k x.2]
        simp only [if_pos hlt, Option.map_map]
        rfl
      · rw [if_neg hlt]
        simp only [if_neg hlt]
        rfl

/-- The elements may be changed one by one. -/
theorem sepList0_map (f : A → A') (sep : Parser B Unit) (p : Parser B A) (s : List B) :
    sepList0 sep (f <$> p) s = (sepList0 sep p s).map fun x => (x.1.map f, x.2) := by
  have hrun : (f <$> p) s = (p s).map fun x => (f x.1, x.2) := by
    show (p s).bind _ = (p s).map _
    cases p s <;> rfl
  unfold sepList0
  rw [hrun]
  cases p s with
  | none => rfl
  | some x =>
    show (sepTail sep (f <$> p) x.2).map _ = ((sepTail sep p x.2).map _).map _
    unfold sepTail
    rw [sepRounds_map, Option.map_map, Option.map_map]
    rfl

theorem opt_of_none {p : Parser B A} {s : List B} (h : p s = none) : opt p s = some (none, s) := by
  unfold opt
  rw [h]

theorem opt_of_some {p : Parser B A} {s rest : List B} {a : A} (h : p s = some (a, rest)) :
    opt p s = some (some a, rest) := by
  unfold opt
  rw [h]

section

variable [BEq B] [LawfulBEq B]

theorem tag_bind_cons (c : B) (p : Unit → Parser B A) (s : List B) :
    (tag (· == ·) [c] >>= p) (c :: s) = p () s := by
  show (if (c == c) = true then some ((), s) else none).bind _ = _
  rw [if_pos (beq_self_eq_true c)]
  rfl

theorem tag_bind_eq_none {c : B} {s : List B} (h : s.head? ≠ some c) (p : Unit → Parser B A) :
    (tag (· == ·) [c] >>= p) s = none := by
  rw [bind_run]
  cases s with
  | nil => rfl
  | cons b s =>
    have hb : (b == c) = false := by
      rw [beq_eq_false_iff_ne]
      rintro rfl
      exact h rfl
    show (if (b == c) = true then some ((), s) else none).bind _ = _
    rw [hb]
    rfl

theorem tag_append : ∀ t s : List B, tag (· == ·) t (t ++ s) = some ((), s)
  | [], s => rfl
  | b :: t, s => by
    show (if (b == b) = true then tag (· == ·) t (t ++ s) else none) = _
    rw [if_pos (beq_self_eq_true b), tag_append t s]

theorem eq_of_tag : ∀ {t s rest : List B} {u : Unit}, tag (· == ·) t s = some (u, rest) → s = t ++ rest
  | [], _, _, _, h => by
    cases h
    rfl
  | _ :: _, [], _, _, h => by cases h
  | b :: t, c :: s, rest, u, h => by
    change (if (c == b) = true then tag (· == ·) t s else none) = _ at h
    split_ifs at h with hc
    rw [eq_of_beq hc, eq_of_tag h, List.cons_append]

variable (hsep : ok sep = false)

include hsep

theorem sepRounds_joined {gs : List (List B)} : ∀ {g rest : List B} {k : ℕ}, (∀ g ∈ gs, Group ok n g) →
    EndsAfter ok sep n g gs rest → (gs.flatMap (sep :: ·) ++ rest).length < k →
    sepRounds (tag (· == ·) [sep]) (takeWhileMN 1 n ok) k (gs.flatMap (sep :: ·) ++ rest) = some (gs, rest) := by
  induction gs with
  | nil =>
    intro g rest k _ hends hk
    cases k with
    | zero => omega
    | succ k =>
      have hnone : (tag (· == ·) [sep] >>= fun _ => takeWhileMN 1 n ok) rest = none := by
        by_cases hmark : rest.head? = some sep
        · obtain ⟨rest', rfl⟩ := List.head?_eq_some_iff.mp hmark
          rw [tag_bind_cons]
          exact takeWhileMN_eq_none (hends.last rest' rfl)
        · exact tag_bind_eq_none hmark _
      simp [sepRounds, hnone]
  | cons g' gs ih =>
    intro g rest k hgs hends hk
    cases k with
    | zero => omega
    | succ k =>
      obtain ⟨hg', hgs'⟩ := List.forall_mem_cons.mp hgs
      have hfull : g'.length = n ∨ NotOk ok (gs.flatMap (sep :: ·) ++ rest) := by
        cases gs with
        | nil => exact hends.full
        | cons g'' gs => exact .inr (notOk_cons hsep)
      have hone : (tag (· == ·) [sep] >>= fun _ => takeWhileMN 1 n ok)
          (sep :: (g' ++ (gs.flatMap (sep :: ·) ++ rest))) =
          some (g', gs.flatMap (sep :: ·) ++ rest) := by
        rw [tag_bind_cons]
        exact takeWhileMN_group hg' hfull
      have htext : (g' :: gs).flatMap (sep :: ·) ++ rest = sep :: (g' ++ (gs.flatMap (sep :: ·) ++ rest)) := by simp
      rw [htext] at hk ⊢
      simp only [List.length_cons, List.length_append] at hk
      have hrest := ih (k := k) hgs' hends (by simp only [List.length_append]; omega)
      simp only [sepRounds, hone, hrest, Option.map_some]
      rw [if_pos (by simp only [List.length_cons, List.length_append]; omega)]

/-- **The parser takes the list in front that cannot go on.** -/
theorem sepList0_joined {gs : List (List B)} {rest : List B} (hgs : ∀ g ∈ gs, Group ok n g)
    (hends : Ends ok sep n gs rest) :
    sepList0 (tag (· == ·) [sep]) (takeWhileMN 1 n ok) (joined sep gs ++ rest) = some (gs, rest) := by
  cases gs with
  | nil =>
    unfold sepList0
    have hnone : takeWhileMN 1 n ok rest = none := takeWhileMN_eq_none hends
    simp [joined, hnone]
  | cons g gs =>
    obtain ⟨hg, hgs'⟩ := List.forall_mem_cons.mp hgs
    have hfull : g.length = n ∨ NotOk ok (gs.flatMap (sep :: ·) ++ rest) := by
      cases gs with
      | nil => exact hends.full
      | cons g' gs => exact .inr (notOk_cons hsep)
    have hone := takeWhileMN_group hg hfull
    have hrounds := sepRounds_joined hsep hgs' hends (Nat.lt_succ_self _)
    unfold sepList0
    simp only [joined, List.append_assoc, hone]
    unfold sepTail
    rw [hrounds]
    rfl

end

/-! ### Items that are read back -/

/-- Items whose texts are read back, each behind a mark. -/
theorem sepRounds_items {X : Type} {p : Parser B A} {psep : Parser B Unit} {c : B} {text : X → List B} {val : X → A}
    {Stop : List B → Prop} (hp : ∀ x rest, Stop rest → p (text x ++ rest) = some (val x, rest))
    (hsep : ∀ x rest, psep (c :: (text x ++ rest)) = some ((), text x ++ rest)) (hmark : ∀ s, Stop (c :: s))
    {rest : List B} (hstop : Stop rest) (hend : (psep >>= fun _ => p) rest = none) (xs : List X) :
    ∀ k, (xs.flatMap (fun x => c :: text x) ++ rest).length < k →
      sepRounds psep p k (xs.flatMap (fun x => c :: text x) ++ rest) = some (xs.map val, rest) := by
  induction xs with
  | nil =>
    intro k hk
    cases k with
    | zero => omega
    | succ k => simp [sepRounds, hend]
  | cons x xs ih =>
    intro k hk
    cases k with
    | zero => omega
    | succ k =>
      have hbehind : Stop (xs.flatMap (fun x => c :: text x) ++ rest) := by
        cases xs with
        | nil => exact hstop
        | cons y xs => exact hmark _
      have htext : (x :: xs).flatMap (fun x => c :: text x) ++ rest =
          c :: (text x ++ (xs.flatMap (fun x => c :: text x) ++ rest)) := by simp
      have hone : (psep >>= fun _ => p) (c :: (text x ++ (xs.flatMap (fun x => c :: text x) ++ rest))) =
          some (val x, xs.flatMap (fun x => c :: text x) ++ rest) := by
        rw [bind_run, hsep, Option.bind_some]
        exact hp x _ hbehind
      rw [htext] at hk ⊢
      simp only [List.length_cons, List.length_append] at hk
      have hrest := ih k (by simp only [List.length_append]; omega)
      simp only [sepRounds, hone, hrest, Option.map_some]
      rw [if_pos (by simp only [List.length_cons, List.length_append]; omega)]
      rfl

/-- **A list of such items is read back.** -/
theorem sepList1_items {X : Type} {p : Parser B A} {psep : Parser B Unit} {c : B} {text : X → List B} {val : X → A}
    {Stop : List B → Prop} (hp : ∀ x rest, Stop rest → p (text x ++ rest) = some (val x, rest))
    (hsep : ∀ x rest, psep (c :: (text x ++ rest)) = some ((), text x ++ rest)) (hmark : ∀ s, Stop (c :: s))
    {rest : List B} (hstop : Stop rest) (hend : (psep >>= fun _ => p) rest = none) (x : X) (xs : List X) :
    sepList1 psep p (joined c ((x :: xs).map text) ++ rest) = some ((x :: xs).map val, rest) := by
  have hbehind : Stop (xs.flatMap (fun x => c :: text x) ++ rest) := by
    cases xs with
    | nil => exact hstop
    | cons y xs => exact hmark _
  have htext : joined c ((x :: xs).map text) ++ rest = text x ++ (xs.flatMap (fun x => c :: text x) ++ rest) := by
    simp [joined, List.flatMap_map]
  have hrounds := sepRounds_items hp hsep hmark hstop hend xs _ (Nat.lt_succ_self _)
  rw [htext]
  unfold sepList1
  rw [bind_run, hp x _ hbehind, Option.bind_some, bind_run]
  show (sepRounds psep p _ _).bind _ = _
  rw [hrounds]
  rfl

/-! ### Every text -/

section

variable (ok : B → Bool) (sep : B) (hn : 0 < n)

include hn

theorem exists_groups_tail (k : ℕ) : ∀ g s : List B, s.length ≤ k → (g.length = n ∨ NotOk ok s) →
    ∃ gs rest, s = gs.flatMap (sep :: ·) ++ rest ∧ (∀ g ∈ gs, Group ok n g) ∧ EndsAfter ok sep n g gs rest := by
  induction k with
  | zero =>
    intro g s hs hg
    obtain rfl : s = [] := List.length_eq_zero_iff.mp (by omega)
    exact ⟨[], [], rfl, by simp, hg, fun _ h => nomatch h⟩
  | succ k ih =>
    intro g s hs hg
    by_cases hnext : ∃ s' g' rest, s = sep :: s' ∧ takeWhileMN 1 n ok s' = some (g', rest)
    · obtain ⟨s', g', rest, rfl, hgroup⟩ := hnext
      obtain ⟨rfl, hg', hfull⟩ := group_of_takeWhileMN hgroup
      have hlen : rest.length ≤ k := by
        simp only [List.length_cons, List.length_append] at hs
        omega
      obtain ⟨gs, rest', rfl, hgs, hends⟩ := ih g' rest hlen hfull
      exact ⟨g' :: gs, rest', by simp, List.forall_mem_cons.mpr ⟨hg', hgs⟩, hends⟩
    · refine ⟨[], s, rfl, by simp, hg, ?_⟩
      rintro rest rfl b hb
      by_contra hok
      obtain ⟨rest', rfl⟩ := List.head?_eq_some_iff.mp hb
      obtain ⟨g', rest, hgroup⟩ := exists_takeWhileMN hn (Bool.not_eq_false _ ▸ hok) rest'
      exact hnext ⟨_, g', rest, rfl, hgroup⟩

/-- **Every text has a list of groups in front that cannot go on.** -/
theorem exists_joined (s : List B) :
    ∃ gs rest, s = joined sep gs ++ rest ∧ (∀ g ∈ gs, Group ok n g) ∧ Ends ok sep n gs rest := by
  by_cases hfirst : ∃ g rest, takeWhileMN 1 n ok s = some (g, rest)
  · obtain ⟨g, rest, hgroup⟩ := hfirst
    obtain ⟨rfl, hg, hfull⟩ := group_of_takeWhileMN hgroup
    obtain ⟨gs, rest', rfl, hgs, hends⟩ := exists_groups_tail ok sep hn rest.length g rest (Nat.le_refl _) hfull
    exact ⟨g :: gs, rest', by simp [joined], List.forall_mem_cons.mpr ⟨hg, hgs⟩, hends⟩
  · refine ⟨[], s, rfl, by simp, ?_⟩
    intro b hb
    by_contra hok
    obtain ⟨rest', rfl⟩ := List.head?_eq_some_iff.mp hb
    exact hfirst (exists_takeWhileMN hn (Bool.not_eq_false _ ▸ hok) rest')

end

end Parse
end Lib
end SmartDns
