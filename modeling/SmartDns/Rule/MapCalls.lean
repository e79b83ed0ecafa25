/-
# What a domain map finds after any calls

A `DomainMap` that starts empty and is changed by `insert` and `remove` holds the patterns
that were inserted and not removed since (`stored`, `holds_run`); `find` gives the value of
the one the climb meets first. Against the meaning the patterns have by themselves
(`is_match`) this falls short in letter case and at the root dot:

* the keys are compared without case but `is_match` compares the names of exact and
  one-level patterns with it. The pattern found covers the name, and is the best in order,
  exactly where an exact pattern over the name is stored in the name's own spelling if it
  is stored at all, and not only patterns outside the order cover the name
  (`findsBest_iff`); two spellings of a name find the same exactly where an exact or
  whole-domain pattern decides, or the same one-level pattern comes first for all of them
  (`caseBlind_iff`);
* `insert` adds the root dot to a pattern, `remove` and the collecting of a list do not
  (`dotBlind_iff`, `find_collect`).

Key definitions: `DomainMap.run`, `stored`, `order`, `Best`, `FindsBest`, `CaseBlind`,
`DotBlind`.
Key theorems: `holds_run`, `findsBest_iff`, `caseBlind_iff`, `dotBlind_iff`.
-/
import SmartDns.Rule.Sound

namespace SmartDns
namespace Rule

open Dns Lib

universe u

variable {T : Type u} (crateMatch : List UInt8 → List UInt8 → Bool)

inductive DomainMapCall
  | insert (name : WildcardName)
  | remove (name : WildcardName)

/-- A call; the value is that of an insert. -/
def DomainMap.step (m : DomainMap T) : DomainMapCall × T → DomainMap T
  | (.insert name, value) => m.insert name value
  | (.remove name, _) => (m.remove name).2

def DomainMap.run (calls : List (DomainMapCall × T)) : DomainMap T := calls.foldl step empty

/-! ### What is stored -/

/-- The patterns with the values they were inserted with. What `remove` is given without the root dot
is no key. -/
def storedStep (items : List (WildcardName × T)) : DomainMapCall × T → List (WildcardName × T)
  | (.insert name, value) => items ++ [(name, value)]
  | (.remove name, _) => if name.name.isFqdn then items.filter fun e => !e.1.sameRule name else items

def stored (calls : List (DomainMapCall × T)) : List (WildcardName × T) := calls.foldl storedStep []

theorem stored_concat (calls : List (DomainMapCall × T)) (c : DomainMapCall × T) :
    stored (calls ++ [c]) = storedStep (stored calls) c := by
  rw [stored, List.foldl_append]
  rfl

theorem spelled_filter (items : List (WildcardName × T)) (p p' : WildcardName) :
    spelled (items.filter fun e => !e.1.sameRule p) p' = if p.sameRule p' then none else spelled items p' := by
  unfold spelled
  rw [← List.filter_reverse, List.find?_filter]
  by_cases h : p.sameRule p' = true
  · rw [if_pos h, List.find?_eq_none]
    intro e _
    rw [WildcardName.sameRule_iff] at h
    simp only [Bool.not_eq_true', decide_eq_true_eq, not_and]
    intro hne he
    rw [WildcardName.sameRule_iff] at he
    rw [Bool.eq_false_iff, ne_eq, WildcardName.sameRule_iff] at hne
    exact hne (he.trans h.symm)
  · rw [if_neg h]
    congr 1
    funext e
    rw [WildcardName.sameRule_iff] at h
    rw [Bool.eq_iff_iff]
    simp only [Bool.not_eq_true', decide_eq_true_eq, Bool.eq_false_iff, ne_eq, WildcardName.sameRule_iff]
    constructor
    · exact fun he => he.2
    · exact fun he => ⟨fun hp => h (hp.symm.trans he), he⟩

theorem setFqdn_of_dotted {p : WildcardName} (h : p.name.isFqdn = true) : p.setFqdn true = p := by
  have hname {n : Name} (hn : n.isFqdn = true) : n.setFqdn true = n := by
    obtain ⟨f, ls⟩ := n
    obtain rfl : f = true := hn
    rfl
  cases p with
  | default n => exact congrArg WildcardName.default (hname h)
  | suffix n => exact congrArg WildcardName.suffix (hname h)
  | sub w n => exact congrArg (WildcardName.sub w) (hname h)
  | full n => exact congrArg WildcardName.full (hname h)

theorem not_beq_of_isFqdn {p p' : WildcardName} (h : p.name.isFqdn = false) (h' : p'.name.isFqdn = true) :
    ¬ (p == p') = true := by
  rw [WildcardName.beq_iff, h, h']
  exact fun hc => Bool.false_ne_true hc.1

theorem subsOver_filter (items : List (WildcardName × T)) (p : WildcardName) (n : Name) :
    subsOver (items.filter fun e => !e.1.sameRule p) n = (subsOver items n).filter fun e => !e.1.sameRule p := by
  rw [subsOver, subsOver, List.filter_filter, List.filter_filter]
  congr 1
  funext e
  exact Bool.and_comm _ _

/-- A pattern that is not one-level, or is over another name, is none of them. -/
theorem filter_subsOver (items : List (WildcardName × T)) {p : WildcardName} {n : Name}
    (h : p.isSub = true → p.name.lowers ≠ n.lowers) :
    (subsOver items n).filter (fun e => !e.1.sameRule p) = subsOver items n := by
  rw [List.filter_eq_self]
  intro e he
  obtain ⟨-, hs⟩ := List.mem_filter.mp he
  obtain ⟨hsub, hover⟩ := Bool.and_eq_true_iff.mp hs
  rw [Bool.not_eq_true', Bool.eq_false_iff, ne_eq, WildcardName.sameRule_iff]
  intro hshape
  apply h (WildcardName.isSub_eq_of_shape hshape ▸ hsub)
  rw [← WildcardName.shape_lowers hshape]
  exact beq_iff_eq.mp hover

namespace DomainMap

variable {m : DomainMap T} {items : List (WildcardName × T)}

theorem get?_remove (m : DomainMap T) (name p : WildcardName) :
    (m.remove name).2.map.get? p = if name == p then none else m.map.get? p := KeyMap.get?_erase m.map name p

theorem Holds.remove_of_not_dotted (h : Holds m items) {name : WildcardName} (hn : name.name.isFqdn = false) :
    Holds (m.remove name).2 items where
  dotted p hp := by
    rw [get?_remove]
    split
    · rfl
    · exact h.dotted p hp
  get? p hp := by
    rw [get?_remove, if_neg (not_beq_of_isFqdn hn hp), h.get? p hp]
  subs n hfqdn := by
    have hne : ¬ (name.name == n) = true := by
      rw [Name.beq_iff, hn, hfqdn]
      exact fun hc => Bool.false_ne_true hc.1
    rw [← h.subs n hfqdn]
    simp only [DomainMap.remove]
    by_cases hs : name.isSub = true
    · rw [if_pos hs, KeyMap.get?_update_of_not_beq _ hne]
    · rw [if_neg hs]

theorem Holds.remove_of_dotted (h : Holds m items) {name : WildcardName} (hn : name.name.isFqdn = true) :
    Holds (m.remove name).2 (items.filter fun e => !e.1.sameRule name) where
  dotted p hp := by
    rw [get?_remove]
    split
    · rfl
    · exact h.dotted p hp
  get? p hp := by
    have hkey : (name == p) = name.sameRule p := by
      rw [← setFqdn_beq_iff hp, setFqdn_of_dotted hn]
    rw [get?_remove, spelled_filter, hkey]
    split
    · rfl
    · exact h.get? p hp
  subs n hfqdn := by
    have hkey : (name.name == n) = true ↔ name.name.lowers = n.lowers := by
      rw [Name.beq_iff, hn, hfqdn]
      exact and_iff_right rfl
    rw [subsOver_filter]
    simp only [DomainMap.remove]
    by_cases hs : name.isSub = true
    · rw [if_pos hs]
      by_cases hl : name.name.lowers = n.lowers
      · rw [KeyMap.get?_update_of_beq _ (hkey.mpr hl), Option.getD_some,
          h.subs n hfqdn, List.filter_map]
        congr 2
        funext e
        exact congrArg (!·) (setFqdn_beq_iff hn)
      · rw [KeyMap.get?_update_of_not_beq _ (fun hc => hl (hkey.mp hc)), h.subs n hfqdn,
          filter_subsOver items fun _ => hl]
    · rw [if_neg hs, h.subs n hfqdn, filter_subsOver items fun hc => absurd hc hs]

theorem Holds.remove (h : Holds m items) (name : WildcardName) (value : T) :
    Holds (m.remove name).2 (storedStep items (.remove name, value)) := by
  have hstep : storedStep items (.remove name, value) =
      if name.name.isFqdn then items.filter fun e => !e.1.sameRule name else items := rfl
  rw [hstep]
  by_cases hn : name.name.isFqdn = true
  · rw [if_pos hn]
    exact h.remove_of_dotted hn
  · rw [if_neg hn]
    exact h.remove_of_not_dotted (Bool.eq_false_iff.mpr hn)

/-- **After any calls the map holds what is stored.** -/
theorem holds_run (calls : List (DomainMapCall × T)) : Holds (run calls) (stored calls) := by
  induction calls using List.reverseRecOn with
  | nil => exact holds_empty
  | append_singleton calls c ih =>
    have hrun : run (calls ++ [c]) = (run calls).step c := by
      rw [run, List.foldl_append]
      rfl
    rw [hrun, stored_concat]
    obtain ⟨call, value⟩ := c
    cases call with
    | insert name => exact ih.insert name value
    | remove name => exact ih.remove name value

end DomainMap

/-! ### The patterns alone -/

def patternsStep (ps : List WildcardName) : DomainMapCall → List WildcardName
  | .insert name => ps ++ [name]
  | .remove name => if name.name.isFqdn then ps.filter fun p => !p.sameRule name else ps

/-- The patterns that are stored, whatever the values. -/
def storedPatterns (calls : List DomainMapCall) : List WildcardName := calls.foldl patternsStep []

theorem map_stored (calls : List (DomainMapCall × T)) :
    (stored calls).map (·.1) = storedPatterns (calls.map (·.1)) := by
  induction calls using List.reverseRecOn with
  | nil => rfl
  | append_singleton calls c ih =>
    rw [stored_concat, List.map_append, storedPatterns, List.foldl_append, ← storedPatterns, ← ih]
    obtain ⟨call, value⟩ := c
    cases call with
    | insert name => exact List.map_append
    | remove name =>
      show (if name.name.isFqdn then (stored calls).filter fun e => !e.1.sameRule name else stored calls).map (·.1) =
        if name.name.isFqdn then ((stored calls).map (·.1)).filter fun p => !p.sameRule name
          else (stored calls).map (·.1)
      split
      · rw [List.filter_map]
        rfl
      · rfl

theorem mem_storedPatterns {calls : List (DomainMapCall × T)} {p : WildcardName} :
    p ∈ storedPatterns (calls.map (·.1)) ↔ ∃ e ∈ stored calls, e.1 = p := by
  rw [← map_stored, List.mem_map]

/-! ### The climb in four parts -/

variable {crateMatch} {items : List (WildcardName × T)} {q : Name}

theorem asked_of_not_isWildcard (h : q.isWildcard = false) : asked q = q.setFqdn true := by
  rw [asked, h]
  rfl

/-- What the one-level patterns give: the value of the first one that matches. -/
def firstSub (crateMatch : List UInt8 → List UInt8 → Bool) (ps : List WildcardName) (q : Name) : Option WildcardName :=
  ps.find? fun p => p.isSub && p.isMatch crateMatch q

theorem findSome?_subsOver {n last : Name} (hn : n.lowers = q.baseName.lowers) (hlast : last.labels = q.labels) :
    ((subsOver items n).findSome? fun e =>
      if e.1.isMatch crateMatch last then spelled items e.1 else none) =
      (firstSub crateMatch (items.map (·.1)) q).bind (spelled items) := by
  have hmatch (p : WildcardName) : p.isMatch crateMatch last = p.isMatch crateMatch q :=
    WildcardName.isMatch_congr_right crateMatch p hlast
  have hover (e : WildcardName × T) (hsub : e.1.isSub = true) (hm : e.1.isMatch crateMatch q = true) :
      e.1.name.lowers = n.lowers := by
    cases hp : e.1 with
    | sub w k =>
      rw [hp] at hm
      obtain ⟨hbase, -⟩ := Bool.and_eq_true_iff.mp hm
      rw [Name.eqIgnoreRootCase_iff] at hbase
      rw [hn, WildcardName.name_sub]
      exact Name.lowers_eq_of_labels_eq hbase
    | _ =>
      rw [hp] at hsub
      cases hsub
  have hgo : ∀ l : List (WildcardName × T), (∀ e ∈ l, e ∈ items) →
      ((l.filter fun e => e.1.isSub && e.1.name.lowers == n.lowers).findSome? fun e =>
        if e.1.isMatch crateMatch last then spelled items e.1 else none) =
      (firstSub crateMatch (l.map (·.1)) q).bind (spelled items) := by
    intro l hl
    induction l with
    | nil => rfl
    | cons e l ih =>
      have ih := ih fun x hx => hl x (List.mem_cons_of_mem _ hx)
      unfold firstSub at ih ⊢
      rw [List.map_cons, List.find?_cons, List.filter_cons]
      by_cases hsub : e.1.isSub = true
      · by_cases hm : e.1.isMatch crateMatch q = true
        · have hthere : spelled items e.1 ≠ none := spelled_ne_none (hl e List.mem_cons_self) rfl
          obtain ⟨found, hfound⟩ := Option.ne_none_iff_exists'.mp hthere
          simp [hsub, hover e hsub hm, hmatch, hm, hfound]
        · have hm : e.1.isMatch crateMatch q = false := Bool.eq_false_iff.mpr hm
          rw [hsub, hm, Bool.and_false]
          simp only [Bool.true_and]
          rw [← ih]
          split
          · rw [List.findSome?_cons, hmatch, hm]
            rfl
          · rfl
      · have hsub : e.1.isSub = false := Bool.eq_false_iff.mpr hsub
        simp only [hsub, Bool.false_and, Bool.false_eq_true, ↓reduceIte]
        exact ih
  exact hgo items fun _ he => he

/-- The climb from the parent on, without the one-level patterns. -/
def ancestors (items : List (WildcardName × T)) : List Label → Option (WildcardName × T)
  | [] => (spelled items (.suffix ⟨true, []⟩)).or (spelled items (.default ⟨true, []⟩))
  | l :: ls =>
    (spelled items (.suffix ⟨true, l :: ls⟩)).or <| (spelled items (.default ⟨true, l :: ls⟩)).or (ancestors items ls)

theorem visitItems_far (items : List (WildcardName × T)) (lvl : ℕ) (last n : Name) :
    visitItems crateMatch items (lvl + 2) last n = (spelled items (.suffix n)).or (spelled items (.default n)) := by
  unfold visitItems
  rw [if_neg (by omega), if_neg (by omega), if_pos (by omega), Option.none_or, Option.none_or]

theorem climbItems_far (items : List (WildcardName × T)) (ls : List Label) (lvl : ℕ) (last : Name) :
    climbItems crateMatch items (lvl + 2) last ls = ancestors items ls := by
  induction ls generalizing lvl last with
  | nil =>
    rw [climbItems, visitItems_far]
    rfl
  | cons l ls ih =>
    rw [climbItems, visitItems_far, ih (lvl + 1), Option.or_assoc]
    rfl

theorem climbItems_one (items : List (WildcardName × T)) {l : Label} {ls : List Label} (hq : q.labels = l :: ls)
    {last : Name} (hlast : last.labels = q.labels) :
    climbItems crateMatch items 1 last ls =
      ((firstSub crateMatch (items.map (·.1)) q).bind (spelled items)).or (ancestors items ls) := by
  have hvisit : visitItems crateMatch items 1 last ⟨true, ls⟩ =
      ((firstSub crateMatch (items.map (·.1)) q).bind (spelled items)).or
        ((spelled items (.suffix ⟨true, ls⟩)).or (spelled items (.default ⟨true, ls⟩))) := by
    have hbase : (⟨true, ls⟩ : Name).lowers = q.baseName.lowers := by
      apply Name.lowers_eq_of_labels_eq
      rw [Name.baseName_labels, hq]
      rfl
    unfold visitItems
    rw [if_neg (by omega), if_pos rfl, if_pos (by omega), Option.none_or, findSome?_subsOver hbase hlast]
  cases ls with
  | nil =>
    rw [climbItems, hvisit]
    rfl
  | cons l' ls =>
    rw [climbItems, hvisit, climbItems_far, Option.or_assoc, Option.or_assoc]
    rfl

/-- What is looked up at the name itself. -/
def atName (items : List (WildcardName × T)) (q : Name) : Option (WildcardName × T) :=
  (spelled items (.full q)).or (spelled items (.default q))

theorem visitItems_asked (items : List (WildcardName × T)) (q last : Name) :
    visitItems crateMatch items 0 last ⟨true, q.labels⟩ = atName items q := by
  have full : spelled items (.full ⟨true, q.labels⟩) = spelled items (.full q) := spelled_congr items rfl
  have default : spelled items (.default ⟨true, q.labels⟩) = spelled items (.default q) := spelled_congr items rfl
  unfold visitItems atName
  rw [if_pos rfl, if_neg (by omega), if_neg (by omega), Option.none_or, Option.none_or, full, default]

theorem nearest_nil (hq : q.isWildcard = false) (h : q.labels = []) :
    nearest crateMatch items q = atName items q := by
  have ha : (asked q).labels = [] := by rw [asked_of_not_isWildcard hq, Name.setFqdn_labels, h]
  have hat : visitItems crateMatch items 0 (asked q) ⟨true, q.labels⟩ = atName items q := visitItems_asked items q _
  rw [nearest, ha, climbItems, ← hat, h]

theorem nearest_cons (hq : q.isWildcard = false) {l : Label} {ls : List Label} (h : q.labels = l :: ls) :
    nearest crateMatch items q = (atName items q).or
      (((firstSub crateMatch (items.map (·.1)) q).bind (spelled items)).or (ancestors items ls)) := by
  have ha : (asked q).labels = l :: ls := by rw [asked_of_not_isWildcard hq, Name.setFqdn_labels, h]
  have hat : visitItems crateMatch items 0 (asked q) ⟨true, q.labels⟩ = atName items q := visitItems_asked items q _
  have hone : climbItems crateMatch items 1 ⟨true, l :: ls⟩ ls =
      ((firstSub crateMatch (items.map (·.1)) q).bind (spelled items)).or (ancestors items ls) :=
    climbItems_one items h h.symm
  rw [nearest, ha, climbItems, hone, ← hat, h]

theorem ancestors_some {ls : List Label} {e : WildcardName × T} (h : ancestors items ls = some e) :
    e.1.isSub = false := by
  have kind {n : Name} (h : (spelled items (.suffix n)).or (spelled items (.default n)) = some e) :
      e.1.isSub = false := by
    rcases Option.or_eq_some_iff.mp h with h | ⟨-, h⟩
    · exact WildcardName.isSub_eq_of_shape (spelled_some h).2
    · exact WildcardName.isSub_eq_of_shape (spelled_some h).2
  induction ls with
  | nil => exact kind h
  | cons l ls ih =>
    rw [ancestors, ← Option.or_assoc] at h
    rcases Option.or_eq_some_iff.mp h with h | ⟨-, h⟩
    · exact kind h
    · exact ih h

theorem ancestors_congr (items : List (WildcardName × T)) {ls ls' : List Label}
    (h : (⟨true, ls⟩ : Name).lowers = (⟨true, ls'⟩ : Name).lowers) : ancestors items ls = ancestors items ls' := by
  have suffix {n n' : Name} (h : n.lowers = n'.lowers) : spelled items (.suffix n) = spelled items (.suffix n') :=
    spelled_congr items (congrArg (fun l => (2, [], l)) h)
  have default {n n' : Name} (h : n.lowers = n'.lowers) : spelled items (.default n) = spelled items (.default n') :=
    spelled_congr items (congrArg (fun l => (3, [], l)) h)
  induction ls generalizing ls' with
  | nil =>
    cases ls' with
    | nil => rfl
    | cons l' ls' => cases h
  | cons l ls ih =>
    cases ls' with
    | nil => cases h
    | cons l' ls' =>
      rw [ancestors, ancestors, suffix h, default h, ih (List.cons.inj h).2]

theorem atName_congr (items : List (WildcardName × T)) {q' : Name} (h : q'.lowers = q.lowers) :
    atName items q' = atName items q := by
  have full : spelled items (.full q') = spelled items (.full q) :=
    spelled_congr items (congrArg (fun l => (0, [], l)) h)
  have default : spelled items (.default q') = spelled items (.default q) :=
    spelled_congr items (congrArg (fun l => (3, [], l)) h)
  rw [atName, atName, full, default]

theorem firstSub_some {ps : List WildcardName} {p : WildcardName} (h : firstSub crateMatch ps q = some p) :
    p ∈ ps ∧ p.isSub = true ∧ p.isMatch crateMatch q = true := by
  have hp := List.find?_some h
  exact ⟨List.mem_of_find?_eq_some h, Bool.and_eq_true_iff.mp hp⟩

/-- Where nothing is stored over the name, the first one-level pattern is in force if there is one. -/
theorem firstSub_shape (hq : q.isWildcard = false) (hne : q.labels ≠ []) (hat : atName items q = none) :
    (firstSub crateMatch (items.map (·.1)) q).map WildcardName.shape =
      ((nearest crateMatch items q).filter (·.1.isSub)).map (·.1.shape) := by
  obtain ⟨l, ls, hls⟩ := List.exists_cons_of_ne_nil hne
  rw [nearest_cons hq hls, hat, Option.none_or]
  cases hfirst : firstSub crateMatch (items.map (·.1)) q with
  | none =>
    rw [Option.bind_none, Option.none_or]
    cases hanc : ancestors items ls with
    | none => rfl
    | some e =>
      have hsub : (Option.filter (fun e : WildcardName × T => e.1.isSub) (some e)) = none := by
        rw [Option.filter_some, ancestors_some hanc]
        rfl
      rw [hsub]
      rfl
  | some p =>
    obtain ⟨hmem, hsub, -⟩ := firstSub_some hfirst
    obtain ⟨e, he, rfl⟩ := List.mem_map.mp hmem
    obtain ⟨found, hfound⟩ := Option.ne_none_iff_exists'.mp (spelled_ne_none he rfl)
    have hshape := (spelled_some hfound).2
    have hfsub : found.1.isSub = true := (WildcardName.isSub_eq_of_shape hshape).trans hsub
    have hfilter : Option.filter (fun e : WildcardName × T => e.1.isSub) (some found) = some found := by
      rw [Option.filter_some, hfsub]
      rfl
    rw [Option.bind_some, hfound, Option.some_or, hfilter, Option.map_some, Option.map_some, hshape]

/-! ### One value for each call -/

theorem mem_of_mem_stored {calls : List (DomainMapCall × T)} {e : WildcardName × T} (h : e ∈ stored calls) :
    (.insert e.1, e.2) ∈ calls := by
  induction calls using List.reverseRecOn with
  | nil => cases h
  | append_singleton calls c ih =>
    rw [stored_concat] at h
    obtain ⟨call, value⟩ := c
    cases call with
    | insert name =>
      rcases List.mem_append.mp h with h | h
      · exact List.mem_append_left _ (ih h)
      · obtain rfl := List.mem_singleton.mp h
        exact List.mem_append_right _ List.mem_cons_self
    | remove name =>
      apply List.mem_append_left
      apply ih
      have h : e ∈ if name.name.isFqdn then (stored calls).filter fun e => !e.1.sameRule name else stored calls := h
      split at h
      · exact (List.mem_filter.mp h).1
      · exact h

/-- Each call with its number. -/
def numbered (calls : List DomainMapCall) : List (DomainMapCall × ℕ) := calls.zipIdx

theorem map_numbered (calls : List DomainMapCall) : (numbered calls).map (·.1) = calls := List.zipIdx_map_fst 0 calls

/-- The number tells the pattern. -/
theorem eq_of_number {calls : List DomainMapCall} {e e' : WildcardName × ℕ} (h : e ∈ stored (numbered calls))
    (h' : e' ∈ stored (numbered calls)) (hn : e.2 = e'.2) : e = e' := by
  have hget := List.mk_mem_zipIdx_iff_getElem?.mp (mem_of_mem_stored h)
  have hget' := List.mk_mem_zipIdx_iff_getElem?.mp (mem_of_mem_stored h')
  rw [hn, hget'] at hget
  have hp : e'.1 = e.1 := DomainMapCall.insert.inj (Option.some.inj hget)
  exact Prod.ext hp.symm hn

/-! ### Letter case -/

section

variable (crateMatch)

/-- Spellings of the name that differ in letter case find the same, whatever the values. -/
def CaseBlind (calls : List DomainMapCall) (q : Name) : Prop :=
  ∀ (T : Type) (valued : List (DomainMapCall × T)), valued.map (·.1) = calls →
    ∀ q' : Name, q'.isFqdn = q.isFqdn → q'.lowers = q.lowers →
      (DomainMap.run valued).find crateMatch q' = (DomainMap.run valued).find crateMatch q

/-- An exact or whole-domain pattern is stored over the name, or the one-level pattern that comes
first is the same for each spelling. -/
def SpellingDecidesNothing (ps : List WildcardName) (q : Name) : Prop :=
  (∃ p ∈ ps, p.shape = (WildcardName.full q).shape ∨ p.shape = (WildcardName.default q).shape) ∨
  ∀ q' : Name, q'.isFqdn = q.isFqdn → q'.lowers = q.lowers →
    (firstSub crateMatch ps q').map WildcardName.shape = (firstSub crateMatch ps q).map WildcardName.shape

end

theorem isWildcard_congr {q q' : Name} (h : q'.lowers = q.lowers) : q'.isWildcard = q.isWildcard := by
  have hstar (b : UInt8) (hb : toAsciiLowercase b = 42) : b = 42 := by
    unfold toAsciiLowercase at hb
    split at hb
    · rename_i hupper
      have hn := congrArg UInt8.toNat hb
      rw [UInt8.toNat_add] at hn
      have h65 : 65 ≤ b.toNat := hupper.1
      have h90 : b.toNat ≤ 90 := hupper.2
      simp at hn
      omega
    · exact hb
  have hbytes {x y : Label} (hxy : x.bytes.map toAsciiLowercase = y.bytes.map toAsciiLowercase)
      (hx : x.bytes = [42]) : y.bytes = [42] := by
    rw [hx] at hxy
    obtain ⟨b, bs, hy⟩ := List.exists_cons_of_ne_nil y.nonempty
    rw [hy, List.map_cons, List.map_cons] at hxy
    obtain ⟨hb, hbs⟩ := List.cons.inj hxy
    rw [hy, hstar b hb.symm, List.map_eq_nil_iff.mp hbs.symm]
  unfold Name.isWildcard
  obtain ⟨f, ls⟩ := q
  obtain ⟨f', ls'⟩ := q'
  cases ls with
  | nil =>
    cases ls' with
    | nil => rfl
    | cons l' ls' => cases h
  | cons l ls =>
    cases ls' with
    | nil => cases h
    | cons l' ls' =>
      obtain ⟨hl, -⟩ := List.cons.inj h
      rw [Bool.eq_iff_iff, beq_iff_eq, beq_iff_eq]
      exact ⟨hbytes hl, hbytes hl.symm⟩

theorem atName_eq_none_iff : atName items q = none ↔
    ¬ ∃ p ∈ items.map (·.1), p.shape = (WildcardName.full q).shape ∨ p.shape = (WildcardName.default q).shape := by
  have absent {p : WildcardName} : spelled items p = none ↔ ∀ e ∈ items, e.1.shape ≠ p.shape := by
    constructor
    · intro h e he hs
      exact spelled_ne_none he hs h
    · intro h
      by_contra hne
      obtain ⟨e, he⟩ := Option.ne_none_iff_exists'.mp hne
      exact h e (spelled_some he).1 (spelled_some he).2
  rw [atName, Option.or_eq_none_iff, absent, absent]
  constructor
  · rintro ⟨hfull, hdefault⟩ ⟨p, hp, hs⟩
    obtain ⟨e, he, rfl⟩ := List.mem_map.mp hp
    rcases hs with hs | hs
    · exact hfull e he hs
    · exact hdefault e he hs
  · intro h
    exact ⟨fun e he hs => h ⟨e.1, List.mem_map_of_mem he, .inl hs⟩,
      fun e he hs => h ⟨e.1, List.mem_map_of_mem he, .inr hs⟩⟩

/-- Of two spellings only the one-level patterns can tell. -/
theorem nearest_congr (hq : q.isWildcard = false) {q' : Name} (hlow : q'.lowers = q.lowers)
    (h : atName items q ≠ none ∨ (firstSub crateMatch (items.map (·.1)) q').map WildcardName.shape =
      (firstSub crateMatch (items.map (·.1)) q).map WildcardName.shape) :
    nearest crateMatch items q' = nearest crateMatch items q := by
  have hq' : q'.isWildcard = false := (isWildcard_congr hlow).trans hq
  have hlen : q'.labels.length = q.labels.length := Name.labels_length_eq hlow
  cases hls : q.labels with
  | nil =>
    rw [hls] at hlen
    rw [nearest_nil hq hls, nearest_nil hq' (List.length_eq_zero_iff.mp hlen), atName_congr items hlow]
  | cons l ls =>
    have hne : q'.labels ≠ [] := by
      intro h0
      rw [h0, hls] at hlen
      cases hlen
    obtain ⟨l', ls', hls'⟩ := List.exists_cons_of_ne_nil hne
    have hrest : (⟨true, ls'⟩ : Name).lowers = (⟨true, ls⟩ : Name).lowers := by
      rw [Name.lowers, Name.lowers, Name.folded, Name.folded, hls, hls'] at hlow
      exact (List.cons.inj hlow).2
    rw [nearest_cons hq hls, nearest_cons hq' hls', atName_congr items hlow, ancestors_congr items hrest]
    rcases h with hat | hsub
    · obtain ⟨e, he⟩ := Option.ne_none_iff_exists'.mp hat
      rw [he, Option.some_or, Option.some_or]
    · congr 2
      cases hp' : firstSub crateMatch (items.map (·.1)) q' with
      | none =>
        cases hp : firstSub crateMatch (items.map (·.1)) q with
        | none => rfl
        | some p =>
          rw [hp, hp'] at hsub
          cases hsub
      | some p' =>
        cases hp : firstSub crateMatch (items.map (·.1)) q with
        | none =>
          rw [hp, hp'] at hsub
          cases hsub
        | some p =>
          rw [hp, hp'] at hsub
          exact spelled_congr items (Option.some.inj hsub)

/-- **Spellings of a name find the same exactly where only patterns that do not see the case decide.** -/
theorem caseBlind_iff (calls : List DomainMapCall) (hq : q.isWildcard = false) :
    CaseBlind crateMatch calls q ↔ SpellingDecidesNothing crateMatch (storedPatterns calls) q := by
  constructor
  · intro h
    have hps : (stored (numbered calls)).map (·.1) = storedPatterns calls := by
      rw [map_stored, map_numbered]
    by_cases hat : atName (stored (numbered calls)) q = none
    · right
      intro q' hf hlow
      have hfind := h ℕ (numbered calls) (map_numbered calls) q' hf hlow
      rw [(DomainMap.holds_run _).find, (DomainMap.holds_run _).find] at hfind
      have hsame : nearest crateMatch (stored (numbered calls)) q' = nearest crateMatch (stored (numbered calls)) q := by
        cases hn : nearest crateMatch (stored (numbered calls)) q with
        | none =>
          rw [hn] at hfind
          exact Option.map_eq_none_iff.mp hfind
        | some e =>
          rw [hn] at hfind
          obtain ⟨e', he', hnum⟩ := Option.map_eq_some_iff.mp hfind
          have hmem {q : Name} {e : WildcardName × ℕ} (hn : nearest crateMatch (stored (numbered calls)) q = some e) :
              e ∈ stored (numbered calls) := by
            obtain ⟨k, hfound, -⟩ := nearest_some hn
            exact (spelled_some hfound.1).1
          rw [he', eq_of_number (hmem he') (hmem hn) hnum]
      have hq' : q'.isWildcard = false := (isWildcard_congr hlow).trans hq
      by_cases hne : q.labels = []
      · have hlen := Name.labels_length_eq hlow
        rw [hne] at hlen
        have hsub : ∀ p : WildcardName, p.isMatch crateMatch q' = p.isMatch crateMatch q := fun p =>
          WildcardName.isMatch_congr_right crateMatch p (by rw [hne, List.length_eq_zero_iff.mp hlen])
        simp only [firstSub, hsub]
      · have hne' : q'.labels ≠ [] := by
          intro h0
          have hlen := Name.labels_length_eq hlow
          rw [h0] at hlen
          exact hne (List.length_eq_zero_iff.mp hlen.symm)
        rw [← hps, firstSub_shape hq hne hat, firstSub_shape hq' hne' ((atName_congr _ hlow).trans hat), hsame]
    · left
      rw [← hps]
      by_contra hnot
      exact hat (atName_eq_none_iff.mpr hnot)
  · intro h T valued hvalued q' hf hlow
    rw [(DomainMap.holds_run valued).find, (DomainMap.holds_run valued).find]
    apply congrArg
    apply nearest_congr hq hlow
    rw [map_stored, hvalued]
    rcases h with h | h
    · left
      rw [ne_eq, atName_eq_none_iff, map_stored, hvalued]
      exact not_not.mpr h
    · right
      exact h q' hf hlow

/-! ### The best pattern -/

/-- The place of a pattern that covers `q` in the order of the lookup: the exact pattern and the whole
domain at `q`, at its parent the one-level patterns, then `Suffix` and `Default` level by level. -/
def order (q : Name) (p : WildcardName) : Option ℕ :=
  let lvl := q.labels.length - p.name.labels.length
  match p with
  | .full _ => some 0
  | .sub _ _ => if q.labels = [] then none else some 5
  | .suffix _ => if lvl = 0 then none else some (4 * lvl + 2)
  | .default _ => some (4 * lvl + 3)

section

variable (crateMatch)

/-- The first pattern in the order that covers `q`; of the one-level patterns the first inserted one. -/
structure Best (ps : List WildcardName) (q : Name) (p : WildcardName) : Prop where
  mem : p ∈ ps
  isMatch : p.isMatch crateMatch q = true
  least : ∃ k, order q p = some k ∧ ∀ p' ∈ ps, p'.isMatch crateMatch q = true → ∀ k', order q p' = some k' → k ≤ k'
  first : p.isSub = true → firstSub crateMatch ps q = some p

/-- Something is found exactly where a stored pattern covers `q`, and then it is the value of the best
one, whatever the values. -/
def FindsBest (calls : List DomainMapCall) (q : Name) : Prop :=
  ∀ (T : Type) (valued : List (DomainMapCall × T)), valued.map (·.1) = calls →
    (((DomainMap.run valued).find crateMatch q).isSome ↔
      ∃ p ∈ storedPatterns calls, p.isMatch crateMatch q = true) ∧
    ∀ v, (DomainMap.run valued).find crateMatch q = some v →
      ∃ p, Best crateMatch (storedPatterns calls) q p ∧ (spelled (stored valued) p).map (·.2) = some v

/-- An exact pattern over `q` is stored in the spelling of `q` too, and if a pattern covers `q` then one
that has a place in the order. -/
structure CoversInOrder (ps : List WildcardName) (q : Name) : Prop where
  exact : (∃ p ∈ ps, p.shape = (WildcardName.full q).shape) →
    ∃ p ∈ ps, p.shape = (WildcardName.full q).shape ∧ p.isMatch crateMatch q = true
  placed : (∃ p ∈ ps, p.isMatch crateMatch q = true) →
    ∃ p ∈ ps, p.isMatch crateMatch q = true ∧ order q p ≠ none

end

/-- Patterns that cover `q` are asked for in the order. -/
theorem askedAt_of_isMatch (hq : q.isWildcard = false) {p : WildcardName} (hm : p.isMatch crateMatch q = true)
    {k : ℕ} (hk : order q p = some k) : askedAt crateMatch (asked q) p = some k := by
  rw [asked_of_not_isWildcard hq]
  cases p with
  | full n =>
    rw [WildcardName.isMatch, Name.eqIgnoreRootCase_iff] at hm
    have hl : n.lowers = (q.setFqdn true).lowers := Name.lowers_eq_of_labels_eq hm
    exact (if_pos hl).trans hk
  | sub w n =>
    have hne : ¬ q.labels = [] := by
      intro h0
      rw [order, if_pos h0] at hk
      cases hk
    rw [order, if_neg hne] at hk
    have hm : (WildcardName.sub w n).isMatch crateMatch (q.setFqdn true) = true := by
      rw [← hm]
      exact WildcardName.isMatch_congr_right crateMatch _ rfl
    exact (if_pos ⟨hne, hm⟩).trans hk
  | suffix n =>
    obtain ⟨-, hz⟩ := Bool.and_eq_true_iff.mp hm
    have hlvl : ¬ q.labels.length - n.labels.length = 0 := by
      intro h0
      rw [order, WildcardName.name_suffix, if_pos h0] at hk
      cases hk
    rw [order, WildcardName.name_suffix, if_neg hlvl] at hk
    have hz : n.zoneOf (q.setFqdn true) = true := (Name.zoneOf_congr_right n rfl).trans hz
    have hlt : n.labels.length < (q.setFqdn true).labels.length := Nat.lt_of_sub_ne_zero hlvl
    exact (if_pos ⟨hz, hlt⟩).trans hk
  | default n =>
    have hz : n.zoneOf (q.setFqdn true) = true := (Name.zoneOf_congr_right n rfl).trans hm
    exact (if_pos hz).trans hk

/-- A pattern that is asked for has the place in the order, and covers `q` unless it is an exact one. -/
theorem order_of_askedAt (hq : q.isWildcard = false) {p : WildcardName} {k : ℕ}
    (hk : askedAt crateMatch (asked q) p = some k) :
    order q p = some k ∧ (p.isMatch crateMatch q = true ∨ p.shape = (WildcardName.full q).shape) := by
  rw [asked_of_not_isWildcard hq] at hk
  unfold askedAt at hk
  cases p with
  | full n =>
    obtain ⟨hl, hk⟩ := Option.ite_none_right_eq_some.mp hk
    exact ⟨hk, .inr (congrArg (fun l => (0, [], l)) hl)⟩
  | sub w n =>
    obtain ⟨⟨hne, hm⟩, hk⟩ := Option.ite_none_right_eq_some.mp hk
    refine ⟨(if_neg hne).trans hk, .inl ?_⟩
    rw [← hm]
    exact WildcardName.isMatch_congr_right crateMatch _ rfl
  | suffix n =>
    obtain ⟨⟨hz, hlt⟩, hk⟩ := Option.ite_none_right_eq_some.mp hk
    have hlt : n.labels.length < q.labels.length := hlt
    have hlvl : ¬ q.labels.length - n.labels.length = 0 := by omega
    refine ⟨(if_neg hlvl).trans hk, .inl (suffix_isMatch crateMatch hlt ?_)⟩
    exact (Name.zoneOf_iff _ _).mp hz
  | default n =>
    obtain ⟨hz, hk⟩ := Option.ite_none_right_eq_some.mp hk
    exact ⟨hk, .inl ((Name.zoneOf_congr_right n rfl).trans hz)⟩

/-- An exact pattern over the name decides. -/
theorem nearest_of_full (hq : q.isWildcard = false) {e : WildcardName × T} (h : spelled items (.full q) = some e) :
    nearest crateMatch items q = some e := by
  have hat : atName items q = some e := by rw [atName, h, Option.some_or]
  cases hls : q.labels with
  | nil => rw [nearest_nil hq hls, hat]
  | cons l ls => rw [nearest_cons hq hls, hat, Option.some_or]

/-- A one-level pattern in force is the first one that covers the name. -/
theorem firstSub_of_nearest (hq : q.isWildcard = false) {e : WildcardName × T}
    (h : nearest crateMatch items q = some e) (hsub : e.1.isSub = true) :
    ∃ p, firstSub crateMatch (items.map (·.1)) q = some p ∧ spelled items p = some e := by
  have hat {e : WildcardName × T} (h : atName items q = some e) : e.1.isSub = false := by
    rcases Option.or_eq_some_iff.mp h with h | ⟨-, h⟩
    · exact WildcardName.isSub_eq_of_shape (spelled_some h).2
    · exact WildcardName.isSub_eq_of_shape (spelled_some h).2
  cases hls : q.labels with
  | nil =>
    rw [nearest_nil hq hls] at h
    rw [hat h] at hsub
    cases hsub
  | cons l ls =>
    rw [nearest_cons hq hls] at h
    rcases Option.or_eq_some_iff.mp h with h | ⟨-, h⟩
    · rw [hat h] at hsub
      cases hsub
    · rcases Option.or_eq_some_iff.mp h with h | ⟨-, h⟩
      · exact Option.bind_eq_some_iff.mp h
      · rw [ancestors_some h] at hsub
        cases hsub

/-- The value in force is that of the best pattern. -/
theorem exists_best (hq : q.isWildcard = false) (hc : CoversInOrder crateMatch (items.map (·.1)) q)
    {e : WildcardName × T} (h : nearest crateMatch items q = some e) :
    ∃ p, Best crateMatch (items.map (·.1)) q p ∧ spelled items p = some e := by
  obtain ⟨k, ⟨hspelled, e', he', hshape, hk⟩, hleast⟩ := nearest_some h
  obtain ⟨horder, hcovers⟩ := order_of_askedAt hq hk
  have hle : ∀ p' ∈ items.map (·.1), p'.isMatch crateMatch q = true → ∀ k', order q p' = some k' → k ≤ k' := by
    intro p' hp' hm k' hk'
    obtain ⟨x, hx, rfl⟩ := List.mem_map.mp hp'
    exact hleast x hx k' (askedAt_of_isMatch hq hm hk')
  by_cases hsub : e.1.isSub = true
  · obtain ⟨p, hfirst, hp⟩ := firstSub_of_nearest hq h hsub
    obtain ⟨hmem, hpsub, hm⟩ := firstSub_some hfirst
    have hp5 : order q p = order q e'.1 := by
      have hesub : e'.1.isSub = true := (WildcardName.isSub_eq_of_shape hshape).trans hsub
      cases hpe : p with
      | sub w n =>
        cases hee : e'.1 with
        | sub w' n' => rfl
        | _ =>
          rw [hee] at hesub
          cases hesub
      | _ =>
        rw [hpe] at hpsub
        cases hpsub
    exact ⟨p, ⟨hmem, hm, ⟨k, hp5.trans horder, hle⟩, fun _ => hfirst⟩, hp⟩
  · have hnot {p : WildcardName} (hp : p.shape = e.1.shape) : ¬ p.isSub = true := by
      rw [WildcardName.isSub_eq_of_shape hp]
      exact hsub
    rcases hcovers with hm | hfull
    · refine ⟨e'.1, ⟨List.mem_map_of_mem he', hm, ⟨k, horder, hle⟩, fun hs => absurd hs (hnot hshape)⟩, ?_⟩
      rw [spelled_congr items hshape, hspelled]
    · obtain ⟨p, hp, hpfull, hm⟩ := hc.exact ⟨e'.1, List.mem_map_of_mem he', hfull⟩
      have hpe : p.shape = e.1.shape := hpfull.trans (hfull.symm.trans hshape)
      have hp0 : order q p = order q e'.1 := by
        obtain ⟨n, rfl, -⟩ := WildcardName.shape_eq_full.mp hpfull
        obtain ⟨n', hn', -⟩ := WildcardName.shape_eq_full.mp hfull
        rw [hn']
        rfl
      refine ⟨p, ⟨hp, hm, ⟨k, hp0.trans horder, hle⟩, fun hs => absurd hs (hnot hpe)⟩, ?_⟩
      rw [spelled_congr items hpe, hspelled]

/-- **The lookup finds the best pattern exactly where letter case hides no exact pattern and a pattern
that covers the name has a place in the order.** -/
theorem findsBest_iff (calls : List DomainMapCall) (hq : q.isWildcard = false) :
    FindsBest crateMatch calls q ↔ CoversInOrder crateMatch (storedPatterns calls) q := by
  constructor
  · intro h
    constructor
    · rintro ⟨p, hp, hshape⟩
      obtain ⟨-, hbest⟩ := h ℕ (numbered calls) (map_numbered calls)
      have hps : (stored (numbered calls)).map (·.1) = storedPatterns calls := by rw [map_stored, map_numbered]
      rw [← hps] at hp
      obtain ⟨x, hx, rfl⟩ := List.mem_map.mp hp
      obtain ⟨e, he⟩ := Option.ne_none_iff_exists'.mp (spelled_ne_none hx hshape)
      have hfind : (DomainMap.run (numbered calls)).find crateMatch q = some e.2 := by
        rw [(DomainMap.holds_run _).find, nearest_of_full hq he]
        rfl
      obtain ⟨p', hbest', hvalue⟩ := hbest e.2 hfind
      obtain ⟨e', he', hnum⟩ := Option.map_eq_some_iff.mp hvalue
      obtain rfl := eq_of_number (spelled_some he').1 (spelled_some he).1 hnum
      exact ⟨p', hbest'.mem, ((spelled_some he').2.symm.trans (spelled_some he).2), hbest'.isMatch⟩
    · intro hcovered
      have hmap : (calls.map (·, ())).map (·.1) = calls := by
        rw [List.map_map]
        exact List.map_id calls
      obtain ⟨hsome, hbest⟩ := h Unit (calls.map (·, ())) hmap
      obtain ⟨v, hv⟩ := Option.isSome_iff_exists.mp (hsome.mpr hcovered)
      obtain ⟨p, hp, -⟩ := hbest v hv
      obtain ⟨k, hk, -⟩ := hp.least
      exact ⟨p, hp.mem, hp.isMatch, by rw [hk]; exact Option.some_ne_none k⟩
  · intro hc T valued hvalued
    have hps : (stored valued).map (·.1) = storedPatterns calls := by rw [map_stored, hvalued]
    rw [← hps] at hc ⊢
    rw [(DomainMap.holds_run valued).find]
    refine ⟨⟨?_, ?_⟩, ?_⟩
    · intro hsome
      rw [Option.isSome_map] at hsome
      obtain ⟨e, he⟩ := Option.isSome_iff_exists.mp hsome
      obtain ⟨p, hp, -⟩ := exists_best hq hc he
      exact ⟨p, hp.mem, hp.isMatch⟩
    · intro hcovered
      obtain ⟨p, hp, hm, hplaced⟩ := hc.placed hcovered
      obtain ⟨k, hk⟩ := Option.ne_none_iff_exists'.mp hplaced
      obtain ⟨x, hx, rfl⟩ := List.mem_map.mp hp
      rw [Option.isSome_map]
      by_contra hnone
      rw [Option.not_isSome_iff_eq_none] at hnone
      have := nearest_none hnone hx
      rw [askedAt_of_isMatch hq hm hk] at this
      cases this
    · intro v hv
      obtain ⟨e, he, rfl⟩ := Option.map_eq_some_iff.mp hv
      obtain ⟨p, hp, hspelled⟩ := exists_best hq hc he
      exact ⟨p, hp, by rw [hspelled]; rfl⟩

/-! ### The root dot -/

/-- The pattern with and without the root dot is the same to `insert` and to `remove`, whatever the values. -/
def DotBlind (crateMatch : List UInt8 → List UInt8 → Bool) (calls : List DomainMapCall) (p : WildcardName) : Prop :=
  ∀ (T : Type) (valued : List (DomainMapCall × T)), valued.map (·.1) = calls →
    (∀ v, (DomainMap.run valued).insert p v = (DomainMap.run valued).insert (p.setFqdn true) v) ∧
    ((DomainMap.run valued).remove p).1 = ((DomainMap.run valued).remove (p.setFqdn true)).1 ∧
    ∀ q, ((DomainMap.run valued).remove p).2.find crateMatch q =
      ((DomainMap.run valued).remove (p.setFqdn true)).2.find crateMatch q

theorem dotBlind_iff (calls : List DomainMapCall) (p : WildcardName) :
    DotBlind crateMatch calls p ↔
      p.name.isFqdn = true ∨ ∀ p' ∈ storedPatterns calls, p'.shape ≠ p.shape := by
  have hdotted : (p.setFqdn true).name.isFqdn = true := by rw [WildcardName.name_setFqdn, Name.setFqdn_isFqdn]
  constructor
  · intro h
    by_cases hp : p.name.isFqdn = true
    · exact .inl hp
    · right
      have hp : p.name.isFqdn = false := Bool.eq_false_iff.mpr hp
      have hmap : (calls.map (·, ())).map (·.1) = calls := by
        rw [List.map_map]
        exact List.map_id calls
      obtain ⟨-, hremoved, -⟩ := h Unit (calls.map (·, ())) hmap
      have hholds := DomainMap.holds_run (calls.map (·, ()))
      have hnone : (DomainMap.run (calls.map (·, ()))).map.get? p = none := hholds.dotted p hp
      have hremoved : (DomainMap.run (calls.map (·, ()))).map.get? p =
          (DomainMap.run (calls.map (·, ()))).map.get? (p.setFqdn true) := hremoved
      rw [hnone, hholds.get? _ hdotted] at hremoved
      intro p' hp' hshape
      rw [← hmap, ← map_stored] at hp'
      obtain ⟨x, hx, rfl⟩ := List.mem_map.mp hp'
      exact spelled_ne_none hx (hshape.trans (WildcardName.shape_setFqdn true p).symm)
        (Option.map_eq_none_iff.mp hremoved.symm)
  · intro h T valued hvalued
    have hholds := DomainMap.holds_run valued
    have hinsert (v : T) : (DomainMap.run valued).insert p v = (DomainMap.run valued).insert (p.setFqdn true) v := by
      unfold DomainMap.insert
      rw [setFqdn_of_dotted hdotted]
    by_cases hp : p.name.isFqdn = true
    · rw [setFqdn_of_dotted hp]
      exact ⟨fun _ => rfl, rfl, fun _ => rfl⟩
    · have hp : p.name.isFqdn = false := Bool.eq_false_iff.mpr hp
      have habsent := h.resolve_left (by rw [hp]; exact Bool.false_ne_true)
      have hkept : (stored valued).filter (fun e => !e.1.sameRule (p.setFqdn true)) = stored valued := by
        rw [List.filter_eq_self]
        intro e he
        rw [Bool.not_eq_true', Bool.eq_false_iff, ne_eq, WildcardName.sameRule_iff, WildcardName.shape_setFqdn]
        apply habsent
        rw [← hvalued]
        exact mem_storedPatterns.mpr ⟨e, he, rfl⟩
      have hremove := hholds.remove_of_dotted hdotted
      rw [hkept] at hremove
      refine ⟨hinsert, ?_, ?_⟩
      · show (DomainMap.run valued).map.get? p = (DomainMap.run valued).map.get? (p.setFqdn true)
        rw [hholds.dotted p hp, hholds.get? _ hdotted]
        symm
        rw [Option.map_eq_none_iff]
        by_contra hne
        obtain ⟨e, he⟩ := Option.ne_none_iff_exists'.mp hne
        apply habsent e.1
        · rw [← hvalued]
          exact mem_storedPatterns.mpr ⟨e, (spelled_some he).1, rfl⟩
        · exact (spelled_some he).2.trans (WildcardName.shape_setFqdn true p)
      · intro q
        rw [(hholds.remove_of_not_dotted hp).find, hremove.find]

/-- A list of patterns with the root dot is collected as it would be inserted. -/
theorem collect_of_dotted {items : List (WildcardName × T)} (h : ∀ e ∈ items, e.1.name.isFqdn = true) :
    DomainMap.collect items = DomainMap.ofList items := by
  induction items using List.reverseRecOn with
  | nil => rfl
  | append_singleton items e ih =>
    have ih := ih fun x hx => h x (List.mem_append_left _ hx)
    have he : e.1.setFqdn true = e.1 := setFqdn_of_dotted (h e (List.mem_append_right _ List.mem_cons_self))
    have hcollect : DomainMap.collect (items ++ [e]) = (DomainMap.collect items).store e.1 e.2 := by
      rw [DomainMap.collect, List.foldl_append]
      rfl
    rw [hcollect, DomainMap.ofList_concat, ih, DomainMap.insert, he]

/-- **What a domain map answers after any calls, and where this is what its patterns mean.** -/
theorem domainMap_answers (crateMatch : List UInt8 → List UInt8 → Bool) (calls : List DomainMapCall) (q : Name)
    (hq : q.isWildcard = false) :
    (FindsBest crateMatch calls q ↔ CoversInOrder crateMatch (storedPatterns calls) q) ∧
    (CaseBlind crateMatch calls q ↔ SpellingDecidesNothing crateMatch (storedPatterns calls) q) ∧
    (∀ p : WildcardName, DotBlind crateMatch calls p ↔
      p.name.isFqdn = true ∨ ∀ p' ∈ storedPatterns calls, p'.shape ≠ p.shape) ∧
    ∀ (T : Type) (items : List (WildcardName × T)), (∀ e ∈ items, e.1.name.isFqdn = true) → ∀ q : Name,
      (DomainMap.collect items).find crateMatch q = (DomainMap.ofList items).find crateMatch q := by
  refine ⟨findsBest_iff calls hq, caseBlind_iff calls hq, dotBlind_iff calls, ?_⟩
  intro T items hitems q
  rw [collect_of_dotted hitems]

theorem domainMap_answers_www :
    (FindsBest (fun _ _ => false) [.insert (.sub ⟨[]⟩ exampleCom)] wwwExampleCom ↔
      CoversInOrder (fun _ _ => false) (storedPatterns [.insert (.sub ⟨[]⟩ exampleCom)]) wwwExampleCom) :=
  (domainMap_answers (fun _ _ => false) [.insert (.sub ⟨[]⟩ exampleCom)] wwwExampleCom (by decide)).1

/-- `EXAMPLE.com`. -/
def upperExampleCom : Name := ⟨false, [⟨[69, 88, 65, 77, 80, 76, 69], by decide, by decide⟩, labelCom]⟩

/-- `www.EXAMPLE.com`. -/
def upperWwwExampleCom : Name := { upperExampleCom with labels := labelWww :: upperExampleCom.labels }

/-- `-.example.com` is found for `EXAMPLE.com`, which it does not cover; `*.example.com` is found for
`www.example.com` and not for `www.EXAMPLE.com`; an inserted `example.com` is not removed; a collected one
is not found for `example.com.`. -/
theorem domainMap_case_and_dot :
    ¬ FindsBest (fun _ _ => false) [.insert (.full exampleCom)] upperExampleCom ∧
    ¬ CaseBlind (fun _ _ => false) [.insert (.sub ⟨[]⟩ exampleCom)] wwwExampleCom ∧
    ¬ DotBlind (fun _ _ => false) [.insert (.default exampleCom)] (.default exampleCom) ∧
    (DomainMap.collect [(.default exampleCom, 1)]).find (fun _ _ => false) (exampleCom.setFqdn true) ≠
      (DomainMap.ofList [(.default exampleCom, 1)]).find (fun _ _ => false) (exampleCom.setFqdn true) := by
  refine ⟨?_, ?_, ?_, by decide⟩
  · intro h
    have := (h ℕ [(.insert (.full exampleCom), 1)] rfl).1
    have hfound : ((DomainMap.run [(.insert (.full exampleCom), 1)]).find (fun _ _ => false) upperExampleCom).isSome = true := by
      decide
    obtain ⟨p, hp, hm⟩ := this.mp hfound
    obtain rfl := List.mem_singleton.mp hp
    exact absurd hm (by decide)
  · intro h
    have := h ℕ [(.insert (.sub ⟨[]⟩ exampleCom), 1)] rfl upperWwwExampleCom rfl (by decide)
    exact absurd this (by decide)
  · intro h
    have := (h ℕ [(.insert (.default exampleCom), 1)] rfl).2.1
    exact absurd this (by decide)

end Rule
end SmartDns
