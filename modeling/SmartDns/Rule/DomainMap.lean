/-
# The domain map

`DomainMap` of `collections.rs`: a hash map from patterns to values, with an
index from a name to the one-level patterns over it. `find` climbs from the
name asked to the root; `insert` spells every key with the root dot, so of two
patterns that differ in the dot (or in case) the later one's value stands
(`find_ofList`).

`nearest` says what `find` returns without the map: of the patterns inserted,
in the order of insertion, the one the climb meets first.

Key definitions: `DomainMap.find`, `DomainMap.insert`, `DomainMap.remove`, `DomainMap.ofList`,
`nearest`, `asked`.
Key theorems: `DomainMap.find_eq_climb`, `DomainMap.Holds.find`, `DomainMap.find_ofList`.
-/
import Mathlib.Data.List.Induction
import SmartDns.Lib.KeyMap
import SmartDns.Rule.Wildcard

namespace SmartDns
namespace Rule

open Dns Lib

universe u

structure DomainMap (T : Type u) where
  map : KeyMap WildcardName T
  wildcards : KeyMap Name (List WildcardName)

namespace DomainMap

variable {T : Type u} (crateMatch : List UInt8 → List UInt8 → Bool)

def empty : DomainMap T := ⟨KeyMap.empty, KeyMap.empty⟩

/-- One turn of the loop of `find`: what it looks up at `name`, `lvl` steps above the name asked,
`last` one step below. -/
def visit (m : DomainMap T) (lvl : ℕ) (last name : Name) : Option T :=
  (if lvl = 0 then m.map.get? (.full name) else none).or <|
  (if lvl = 1 then
    ((m.wildcards.get? name).getD []).findSome? fun w =>
      if w.isMatch crateMatch last then m.map.get? w else none
    else none).or <|
  (if lvl ≥ 1 then m.map.get? (.suffix name) else none).or <|
  m.map.get? (.default name)

/-- The loop of `find`, for at most `fuel` turns. -/
def findLoop (m : DomainMap T) : ℕ → ℕ → Name → Name → Option T
  | 0, _, _, _ => none
  | fuel + 1, lvl, last, name =>
    match m.visit crateMatch lvl last name with
    | some v => some v
    | none =>
      if !name.isFqdn then m.findLoop fuel lvl last (name.setFqdn true)
      else if name.isRoot then none
      else m.findLoop fuel (lvl + 1) name name.baseName

/-- The loop takes a turn for each label and one for the root, and one more to add the dot. -/
def find (m : DomainMap T) (name : Name) : Option T :=
  if m.map.isEmpty then none
  else
    let name := if name.isWildcard then name.baseName else name
    m.findLoop crateMatch (name.labels.length + 2) 0 name name

/-- The pattern is stored as it is written. -/
def store (m : DomainMap T) (name : WildcardName) (value : T) : DomainMap T where
  map := m.map.insert name value
  wildcards :=
    if name.isSub then m.wildcards.update name.name fun ws => ws.getD [] ++ [name]
    else m.wildcards

/-- `insert` spells the keys with the root dot. -/
def insert (m : DomainMap T) (name : WildcardName) (value : T) : DomainMap T := m.store (name.setFqdn true) value

/-- What `remove` takes out, and the map without it. -/
def remove (m : DomainMap T) (name : WildcardName) : Option T × DomainMap T :=
  (m.map.get? name,
    { map := m.map.erase name
      wildcards :=
        if name.isSub then m.wildcards.update name.name fun ws => (ws.getD []).filter fun n => !(n == name)
        else m.wildcards })

/-- `FromIterator::from_iter`. -/
def collect (items : List (WildcardName × T)) : DomainMap T :=
  items.foldl (fun m e => m.store e.1 e.2) empty

/-- The map of `items` inserted in order. -/
def ofList (items : List (WildcardName × T)) : DomainMap T :=
  items.foldl (fun m e => m.insert e.1 e.2) empty

theorem ofList_concat (items : List (WildcardName × T)) (e : WildcardName × T) :
    ofList (items ++ [e]) = (ofList items).insert e.1 e.2 := by
  simp [ofList]

end DomainMap

/-! ### The climb without fuel -/

/-- The name the lookup of `q` starts at: without a leading `*` label, with the root dot. -/
def asked (q : Name) : Name := (if q.isWildcard then q.baseName else q).setFqdn true

namespace DomainMap

variable {T : Type u} (crateMatch : List UInt8 → List UInt8 → Bool)

/-- The visits from the name with labels `ls` up to the root. -/
def climb (m : DomainMap T) (lvl : ℕ) (last : Name) : List Label → Option T
  | [] => m.visit crateMatch lvl last ⟨true, []⟩
  | l :: ls =>
    (m.visit crateMatch lvl last ⟨true, l :: ls⟩).or (m.climb (lvl + 1) ⟨true, l :: ls⟩ ls)

/-- Every key has the root dot. -/
def Dotted (m : DomainMap T) : Prop := ∀ p : WildcardName, p.name.isFqdn = false → m.map.get? p = none

theorem visit_of_not_dotted {m : DomainMap T} (hm : m.Dotted) (last : Name) {n : Name} (h : n.isFqdn = false) :
    m.visit crateMatch 0 last n = none := by
  have full := hm (.full n) h
  have default := hm (.default n) h
  simp [visit, full, default]

theorem findLoop_eq_climb (m : DomainMap T) : ∀ (ls : List Label) (fuel lvl : ℕ) (last : Name),
    ls.length < fuel →
    m.findLoop crateMatch fuel lvl last ⟨true, ls⟩ = m.climb crateMatch lvl last ls
  | ls, 0, _, _, h => by omega
  | [], fuel + 1, lvl, last, _ => by
    unfold findLoop climb
    cases m.visit crateMatch lvl last ⟨true, []⟩ <;> simp [Name.isRoot]
  | l :: ls, fuel + 1, lvl, last, h => by
    unfold findLoop climb
    cases m.visit crateMatch lvl last ⟨true, l :: ls⟩ with
    | some v => simp
    | none =>
      rw [Name.baseName_cons, findLoop_eq_climb m ls fuel (lvl + 1) _ (by simpa using h)]
      simp [Name.isRoot]

theorem visit_of_isEmpty {m : DomainMap T} (h : m.map.isEmpty) (lvl : ℕ) (last n : Name) :
    m.visit crateMatch lvl last n = none := by
  have hg : ∀ p, m.map.get? p = none := fun p => by
    rw [KeyMap.isEmpty, List.isEmpty_iff] at h
    simp [KeyMap.get?, h]
  unfold visit
  simp [hg]

theorem climb_of_isEmpty {m : DomainMap T} (h : m.map.isEmpty) : ∀ (ls : List Label) (lvl : ℕ)
    (last : Name), m.climb crateMatch lvl last ls = none
  | [], _, _ => visit_of_isEmpty crateMatch h _ _ _
  | _ :: ls, _, _ => by
    rw [climb, visit_of_isEmpty crateMatch h, climb_of_isEmpty h ls]
    rfl

theorem climb_zero_last (m : DomainMap T) (last last' : Name) (ls : List Label) :
    m.climb crateMatch 0 last ls = m.climb crateMatch 0 last' ls := by
  cases ls <;> simp [climb, visit]

/-- The loop never runs out of fuel: `find` is the climb from the name asked to the root. -/
theorem find_eq_climb {m : DomainMap T} (hm : m.Dotted) (q : Name) :
    m.find crateMatch q = m.climb crateMatch 0 (asked q) (asked q).labels := by
  unfold find asked
  split
  · rw [climb_of_isEmpty crateMatch ‹_›]
  · dsimp only
    generalize (if q.isWildcard then q.baseName else q) = n
    obtain ⟨f, ls⟩ := n
    cases f with
    | true =>
      rw [findLoop_eq_climb crateMatch m ls _ _ _ (Nat.lt_add_of_pos_right (by decide))]
      rfl
    | false =>
      rw [findLoop, visit_of_not_dotted crateMatch hm _ rfl]
      simp only [Bool.not_false, ite_true]
      rw [show Name.setFqdn ⟨false, ls⟩ true = ⟨true, ls⟩ from rfl,
        findLoop_eq_climb crateMatch m _ _ _ _ (by simp)]
      exact climb_zero_last crateMatch m _ _ _

end DomainMap

/-! ### What the climb finds among the patterns inserted -/

section Nearest

variable {T : Type u} (crateMatch : List UInt8 → List UInt8 → Bool)

/-- The last item whose pattern is `p` up to case and the root dot. -/
def spelled (items : List (WildcardName × T)) (p : WildcardName) : Option (WildcardName × T) :=
  items.reverse.find? fun e => e.1.sameRule p

/-- The one-level patterns over `n`. -/
def subsOver (items : List (WildcardName × T)) (n : Name) : List (WildcardName × T) :=
  items.filter fun e => e.1.isSub && e.1.name.lowers == n.lowers

/-- What `DomainMap.visit` looks up, among the items. -/
def visitItems (items : List (WildcardName × T)) (lvl : ℕ) (last name : Name) :
    Option (WildcardName × T) :=
  (if lvl = 0 then spelled items (.full name) else none).or <|
  (if lvl = 1 then
    (subsOver items name).findSome? fun e =>
      if e.1.isMatch crateMatch last then spelled items e.1 else none
    else none).or <|
  (if lvl ≥ 1 then spelled items (.suffix name) else none).or <|
  spelled items (.default name)

/-- What `DomainMap.climb` finds, among the items. -/
def climbItems (items : List (WildcardName × T)) (lvl : ℕ) (last : Name) :
    List Label → Option (WildcardName × T)
  | [] => visitItems crateMatch items lvl last ⟨true, []⟩
  | l :: ls =>
    (visitItems crateMatch items lvl last ⟨true, l :: ls⟩).or
      (climbItems items (lvl + 1) ⟨true, l :: ls⟩ ls)

/-- The item in force at `q`: the one the climb from `asked q` meets first. -/
def nearest (items : List (WildcardName × T)) (q : Name) : Option (WildcardName × T) :=
  climbItems crateMatch items 0 (asked q) (asked q).labels

theorem spelled_concat (items : List (WildcardName × T)) (e : WildcardName × T) (p : WildcardName) :
    spelled (items ++ [e]) p = if e.1.sameRule p then some e else spelled items p := by
  unfold spelled
  rw [List.reverse_append, List.reverse_singleton, List.singleton_append, List.find?_cons]
  split <;> simp_all

theorem spelled_congr (items : List (WildcardName × T)) {p p' : WildcardName} (h : p.shape = p'.shape) :
    spelled items p = spelled items p' := by
  have : (fun e : WildcardName × T => e.1.sameRule p) = fun e => e.1.sameRule p' := by
    funext e
    rw [Bool.eq_iff_iff, WildcardName.sameRule_iff, WildcardName.sameRule_iff, h]
  rw [spelled, spelled, this]

theorem subsOver_concat (items : List (WildcardName × T)) (e : WildcardName × T) (n : Name) :
    subsOver (items ++ [e]) n = subsOver items n ++
      if e.1.isSub && e.1.name.lowers == n.lowers then [e] else [] := by
  unfold subsOver
  rw [List.filter_append, List.filter_singleton, Bool.cond_eq_ite]

namespace DomainMap

/-- The map holds the items: each pattern with the value of its last spelling, and over each name the
one-level patterns in order. -/
structure Holds (m : DomainMap T) (items : List (WildcardName × T)) : Prop where
  dotted : m.Dotted
  get? : ∀ p : WildcardName, p.name.isFqdn = true → m.map.get? p = (spelled items p).map (·.2)
  subs : ∀ n : Name, n.isFqdn = true →
    (m.wildcards.get? n).getD [] = (subsOver items n).map (·.1.setFqdn true)

theorem holds_empty : Holds (empty : DomainMap T) [] where
  dotted _ _ := rfl
  get? _ _ := rfl
  subs _ _ := rfl

theorem setFqdn_beq_iff {p p' : WildcardName} (h : p'.name.isFqdn = true) :
    (p.setFqdn true == p') = p.sameRule p' := by
  rw [Bool.eq_iff_iff, WildcardName.sameRule_iff, WildcardName.beq_iff]
  simp [h]

theorem Holds.insert {m : DomainMap T} {items : List (WildcardName × T)} (h : Holds m items) (name : WildcardName)
    (value : T) : Holds (m.insert name value) (items ++ [(name, value)]) where
  dotted p hp := by
    have hne : ¬ (name.setFqdn true == p) = true := by
      rw [WildcardName.beq_iff]
      simp [hp]
    show (m.map.insert (name.setFqdn true) value).get? p = none
    rw [KeyMap.get?_insert, if_neg hne, h.dotted p hp]
  get? p hp := by
    show (m.map.insert (name.setFqdn true) value).get? p = _
    rw [KeyMap.get?_insert, spelled_concat, setFqdn_beq_iff hp]
    split
    · rfl
    · exact h.get? p hp
  subs n hn := by
    rw [subsOver_concat, List.map_append, ← h.subs n hn]
    have key : ((name.setFqdn true).name == n) = (name.name.lowers == n.lowers) := by
      rw [Bool.eq_iff_iff, Name.beq_iff]
      simp [hn]
    simp only [DomainMap.insert, store, WildcardName.isSub_setFqdn]
    by_cases hs : name.isSub = true
    · simp only [hs, ite_true, Bool.true_and]
      by_cases hl : (name.name.lowers == n.lowers) = true
      · have hb : ((name.setFqdn true).name == n) = true := key.trans hl
        rw [KeyMap.get?_update_of_beq _ hb]
        simp only [hl, ite_true, Option.getD_some, List.map_cons, List.map_nil]
      · have hb : ¬ ((name.setFqdn true).name == n) = true := fun h => hl (key.symm.trans h)
        rw [KeyMap.get?_update_of_not_beq _ hb]
        simp [hl]
    · simp [hs]

theorem holds_ofList (items : List (WildcardName × T)) : Holds (ofList items) items := by
  induction items using List.reverseRecOn with
  | nil => exact holds_empty
  | append_singleton items e ih =>
    rw [ofList_concat]
    exact ih.insert e.1 e.2

variable {m : DomainMap T} {items : List (WildcardName × T)}

theorem Holds.visit (h : Holds m items) (lvl : ℕ) (last : Name) {n : Name} (hn : n.isFqdn = true) :
    m.visit crateMatch lvl last n = (visitItems crateMatch items lvl last n).map (·.2) := by
  have subs : ((m.wildcards.get? n).getD []).findSome? (fun w =>
        if w.isMatch crateMatch last then m.map.get? w else none) =
      ((subsOver items n).findSome? fun e =>
        if e.1.isMatch crateMatch last then spelled items e.1 else none).map (·.2) := by
    rw [h.subs n hn, List.findSome?_map, List.map_findSome?]
    congr 1
    funext e
    simp only [Function.comp_apply, WildcardName.isMatch_setFqdn]
    split
    · rw [h.get? _ (by simp), spelled_congr items (WildcardName.shape_setFqdn true e.1)]
    · rfl
  unfold DomainMap.visit visitItems
  have get (p : WildcardName) (hp : p.name = n) :
      m.map.get? p = (spelled items p).map (·.2) := h.get? p (hp ▸ hn)
  rw [get (.full n) rfl, get (.suffix n) rfl, get (.default n) rfl, subs]
  simp only [Option.map_or, apply_ite (Option.map (fun e : WildcardName × T => e.2)), Option.map_none]

theorem Holds.climb (h : Holds m items) : ∀ (ls : List Label) (lvl : ℕ) (last : Name),
    m.climb crateMatch lvl last ls = (climbItems crateMatch items lvl last ls).map (·.2)
  | [], _, _ => h.visit crateMatch _ _ rfl
  | l :: ls, lvl, last => by
    rw [DomainMap.climb, climbItems, h.visit crateMatch _ _ rfl, h.climb ls, Option.map_or]

/-- `find` gives the value of the item in force. -/
theorem Holds.find (h : Holds m items) (q : Name) :
    m.find crateMatch q = (nearest crateMatch items q).map (·.2) := by
  rw [find_eq_climb crateMatch h.dotted, h.climb, nearest]

theorem find_ofList (items : List (WildcardName × T)) (q : Name) :
    (ofList items).find crateMatch q = (nearest crateMatch items q).map (·.2) :=
  (holds_ofList items).find crateMatch q

end DomainMap
end Nearest
/-! ### A name in another case -/

theorem findSome?_congr {α : Type*} {β : Type*} {g g' : α → Option β} :
    ∀ {l : List α}, (∀ a ∈ l, g a = g' a) → l.findSome? g = l.findSome? g'
  | [], _ => rfl
  | a :: l, h => by
    rw [List.findSome?_cons, List.findSome?_cons, h a List.mem_cons_self,
      findSome?_congr fun b hb => h b (List.mem_cons_of_mem a hb)]

namespace DomainMap

variable {T : Type u} {crateMatch : List UInt8 → List UInt8 → Bool} {m : DomainMap T}

/-- The one-level patterns over `parent` take `a` and `b` alike. -/
def Alike (crateMatch : List UInt8 → List UInt8 → Bool) (m : DomainMap T) (parent a b : Name) : Prop :=
  ∀ w ∈ (m.wildcards.get? parent).getD [], w.isMatch crateMatch a = w.isMatch crateMatch b

theorem get?_mk_congr {p p' : WildcardName} (hname : (p.name == p'.name) = true) (hkind : p.ord = p'.ord)
    (hsub : p.subPattern = p'.subPattern) : m.map.get? p = m.map.get? p' := by
  apply m.map.get?_congr
  rw [WildcardName.beq_iff]
  obtain ⟨hfqdn, hlowers⟩ := (Name.beq_iff _ _).mp hname
  exact ⟨hfqdn, by simp [WildcardName.shape, hkind, hsub, hlowers]⟩

/-- Names that are the same but for case look up the same, but for the one-level patterns. -/
theorem visit_congr {lvl : ℕ} {last last' name name' : Name} (h : (name == name') = true)
    (halike : lvl = 1 → Alike crateMatch m name last last') :
    m.visit crateMatch lvl last name = m.visit crateMatch lvl last' name' := by
  have hfull : m.map.get? (.full name) = m.map.get? (.full name') := get?_mk_congr h rfl rfl
  have hsuffix : m.map.get? (.suffix name) = m.map.get? (.suffix name') := get?_mk_congr h rfl rfl
  have hdefault : m.map.get? (.default name) = m.map.get? (.default name') := get?_mk_congr h rfl rfl
  have hsubs : m.wildcards.get? name = m.wildcards.get? name' := m.wildcards.get?_congr h
  unfold visit
  rw [hfull, hsuffix, hdefault]
  by_cases hlvl : lvl = 1
  · rw [if_pos hlvl, if_pos hlvl, ← hsubs]
    congr 2
    apply findSome?_congr
    intro w hw
    rw [halike hlvl w hw]
  · rw [if_neg hlvl, if_neg hlvl]

theorem baseName_congr {a b : Name} (h : (a == b) = true) : (a.baseName == b.baseName) = true := by
  obtain ⟨hfqdn, hlowers⟩ := (Name.beq_iff a b).mp h
  have hlength := Name.labels_length_eq hlowers
  rw [Name.beq_iff]
  refine ⟨?_, ?_⟩
  · unfold Name.baseName
    by_cases hpos : a.labels.length > 0
    · rw [if_pos hpos, if_pos (hlength ▸ hpos)]
      unfold Name.trimTo
      rw [if_neg (by omega), if_neg (by omega)]
    · rw [if_neg hpos, if_neg (hlength ▸ hpos)]
      exact hfqdn
  · rw [Name.baseName_lowers, Name.baseName_lowers, hlowers]

theorem setFqdn_congr {a b : Name} (h : (a == b) = true) (v : Bool) : (a.setFqdn v == b.setFqdn v) = true :=
  (Name.beq_iff _ _).mpr ⟨rfl, ((Name.beq_iff a b).mp h).2⟩

theorem findLoop_congr : ∀ (fuel lvl : ℕ) {last last' name name' : Name}, (name == name') = true →
    (lvl = 0 → Alike crateMatch m (name.setFqdn true).baseName name name') →
    (lvl = 1 → Alike crateMatch m name last last' ∧ (name.isFqdn = true)) →
    m.findLoop crateMatch fuel lvl last name = m.findLoop crateMatch fuel lvl last' name'
  | 0, _, _, _, _, _, _, _, _ => rfl
  | fuel + 1, lvl, last, last', name, name', h, h0, h1 => by
    obtain ⟨hfqdn, hlowers⟩ := (Name.beq_iff _ _).mp h
    have hlabels := Name.labels_length_eq hlowers
    unfold findLoop
    rw [visit_congr h fun hlvl => (h1 hlvl).1, ← hfqdn]
    cases m.visit crateMatch lvl last' name' with
    | some v => rfl
    | none =>
      dsimp only
      by_cases hdot : name.isFqdn = true
      · have hroot : name.isRoot = name'.isRoot := by
          rw [Name.isRoot, Name.isRoot, hfqdn]
          congr 1
          rw [Bool.eq_iff_iff, List.isEmpty_iff_length_eq_zero, List.isEmpty_iff_length_eq_zero, hlabels]
        rw [hdot, ← hroot]
        simp only [Bool.not_true, Bool.false_eq_true, if_false]
        by_cases hr : name.isRoot = true
        · rw [if_pos hr, if_pos hr]
        · rw [if_neg hr, if_neg hr]
          apply findLoop_congr fuel (lvl + 1) (baseName_congr h)
          · intro hlvl
            omega
          · intro hlvl
            have hlvl : lvl = 0 := by omega
            have hself : name.setFqdn true = name := by rw [Name.setFqdn, ← hdot]
            refine ⟨?_, ?_⟩
            · have := h0 hlvl
              rwa [hself] at this
            · unfold Name.baseName
              split
              · unfold Name.trimTo
                split
                · exact hdot
                · rfl
              · exact hdot
      · have hdot : name.isFqdn = false := by simpa using hdot
        rw [hdot]
        simp only [Bool.not_false, if_true]
        apply findLoop_congr fuel lvl (setFqdn_congr h true)
        · intro hlvl w hw
          have := h0 hlvl w hw
          rw [WildcardName.isMatch_congr_right crateMatch w (a := name.setFqdn true) (b := name) rfl,
            WildcardName.isMatch_congr_right crateMatch w (a := name'.setFqdn true) (b := name') rfl]
          exact this
        · intro hlvl
          exact absurd (h1 hlvl).2 (by simp [hdot])

theorem isWildcard_congr {a b : Name} (h : (a == b) = true) : a.isWildcard = b.isWildcard := by
  have hstar (x : UInt8) : toAsciiLowercase x = 42 ↔ x = 42 := by
    unfold toAsciiLowercase
    split
    · rename_i hx
      have hle := UInt8.le_iff_toNat_le.mp hx.1
      have hge := UInt8.le_iff_toNat_le.mp hx.2
      rw [← UInt8.toNat_inj, ← UInt8.toNat_inj, UInt8.toNat_add]
      simp only [UInt8.reduceToNat] at *
      omega
    · rfl
  have hbytes (bytes : List UInt8) : (bytes == [42]) = (bytes.map toAsciiLowercase == [42]) := by
    rw [Bool.eq_iff_iff, beq_iff_eq, beq_iff_eq]
    rcases bytes with _ | ⟨x, _ | ⟨y, bytes⟩⟩ <;> simp [hstar]
  have hlowers := ((Name.beq_iff a b).mp h).2
  unfold Name.lowers Name.folded at hlowers
  unfold Name.isWildcard
  cases ha : a.labels with
  | nil =>
    cases hb : b.labels with
    | nil => rfl
    | cons l ls => simp [ha, hb] at hlowers
  | cons l ls =>
    cases hb : b.labels with
    | nil => simp [ha, hb] at hlowers
    | cons l' ls' =>
      rw [ha, hb, List.map_cons, List.map_cons] at hlowers
      show (l.bytes == [42]) = (l'.bytes == [42])
      rw [hbytes l.bytes, hbytes l'.bytes, (List.cons.inj hlowers).1]

/-- **A name in another case** finds the same, where the one-level patterns over its parent take both alike. -/
theorem find_congr {q q' : Name} (h : (q == q') = true)
    (halike : Alike crateMatch m (asked q).baseName (asked q) (asked q')) :
    m.find crateMatch q = m.find crateMatch q' := by
  have hname : ((if q.isWildcard then q.baseName else q) == if q'.isWildcard then q'.baseName else q') = true := by
    rw [← isWildcard_congr h]
    split
    · exact baseName_congr h
    · exact h
  unfold find
  dsimp only
  rw [Name.labels_length_eq ((Name.beq_iff _ _).mp hname).2]
  congr 1
  apply findLoop_congr _ 0 hname
  · intro _ w hw
    have hasked (q : Name) : w.isMatch crateMatch (if q.isWildcard then q.baseName else q) =
        w.isMatch crateMatch (asked q) := WildcardName.isMatch_congr_right crateMatch w rfl
    rw [hasked, hasked]
    exact halike w hw
  · intro h1
    cases h1

end DomainMap
end Rule
end SmartDns
