/-
# What an include leaves behind

A `conf-file` line with a group opens the group for each file, reads the file's lines and
closes the innermost group, whichever that is by then. It keeps to its scope (`ScopeKept`)
if the lines of the files stand in the group and in groups of their own, their rules end up
there, and the same groups are open behind the line as before. It does exactly if the text
of every file closes the groups it opens, and no others: a `group-end` too many closes the
include's group, and the include then closes one of those around it; a `group-begin` without
end leaves the include's group open.

Key definitions: `includedTexts`, `ScopeKept`, `ClosesItsGroups`.
Key theorem: `include_keeps_scope_iff`.
-/
import SmartDns.Config.Scope

namespace SmartDns
namespace Config

open Lib (KeyMap)
open Lib.Nesting Server

variable {S G : Type}

/-! ### Rules stay in their group -/

/-- The frames over the first `n`. -/
def above (n : ℕ) (stack : List (String × RuleGroup)) : List (String × RuleGroup) := stack.take (stack.length - n)

theorem above_of_length_le {n : ℕ} {stack : List (String × RuleGroup)} (h : stack.length ≤ n) : above n stack = [] := by
  unfold above
  rw [Nat.sub_eq_zero_of_le h, List.take_zero]

theorem le_length_of_mem_above {n : ℕ} {stack : List (String × RuleGroup)} {frame : String × RuleGroup}
    (h : frame ∈ above n stack) : n ≤ stack.length := by
  by_contra hlt
  rw [above_of_length_le (by omega)] at h
  cases h

theorem mem_above_cons {n : ℕ} {stack : List (String × RuleGroup)} {frame top : String × RuleGroup} :
    frame ∈ above n (top :: stack) ↔ n ≤ stack.length ∧ (frame = top ∨ frame ∈ above n stack) := by
  by_cases hle : n ≤ stack.length
  · unfold above
    rw [List.length_cons, Nat.succ_sub hle, List.take_succ_cons, List.mem_cons, and_iff_right hle]
  · rw [above_of_length_le (by rw [List.length_cons]; omega)]
    simp [hle]

namespace Draft

variable {d : Draft G} {name : String} {n : ℕ} {r : RuleItem}

/-- The rule is in the group, or in a frame of the group that is open above the first `n`. -/
def Holds (d : Draft G) (name : String) (n : ℕ) (r : RuleItem) : Prop :=
  (∃ g, d.ruleGroups.get? name = some g ∧ g.Has r) ∨ ∃ g, (name, g) ∈ above n d.ruleGroupStack ∧ g.Has r

theorem Holds.of_same {d' : Draft G} (h : d.Holds name n r) (hgroups : d'.ruleGroups = d.ruleGroups)
    (hstack : d'.ruleGroupStack = d.ruleGroupStack) : d'.Holds name n r := by
  unfold Holds
  rw [hgroups, hstack]
  exact h

theorem Holds.pushGroup (h : d.Holds name n r) (name' : String) (g' : RuleGroup) : (d.pushGroup name' g').Holds name n r := by
  rcases h with h | ⟨g, hmem, hg⟩
  · exact .inl h
  · exact .inr ⟨g, mem_above_cons.mpr ⟨le_length_of_mem_above hmem, .inr hmem⟩, hg⟩

theorem Holds.openDefault (h : d.Holds name n r) : d.openDefault.Holds name n r := by
  unfold Draft.openDefault
  split
  · rename_i hnil
    rcases h with h | ⟨g, hmem, _⟩
    · exact .inl h
    · rw [hnil, above_of_length_le (Nat.zero_le n)] at hmem
      cases hmem
  · exact h

theorem get?_mergeGroup (d : Draft G) (name name' : String) (g : RuleGroup) :
    (d.mergeGroup name' g).ruleGroups.get? name =
      if name' = name then some (((d.ruleGroups.get? name).getD {}).merge g) else d.ruleGroups.get? name := by
  show (d.ruleGroups.update name' _).get? name = _
  rw [KeyMap.get?_update]
  simp only [beq_iff_eq]

theorem Holds.popGroup (h : d.Holds name n r) : d.popGroup.Holds name n r := by
  unfold Draft.popGroup
  split
  · exact h
  · rename_i name' g' stack hstack
    have hget : (({ d with ruleGroupStack := stack } : Draft G).mergeGroup name' g').ruleGroups.get? name =
        if name' = name then some (((d.ruleGroups.get? name).getD {}).merge g') else d.ruleGroups.get? name :=
      get?_mergeGroup _ name name' g'
    rcases h with ⟨g, hold, hg⟩ | ⟨g, hmem, hg⟩
    · left
      rw [hget, hold]
      by_cases hname : name' = name
      · rw [if_pos hname]
        exact ⟨_, rfl, (RuleGroup.has_merge _ g' r).mpr (.inl hg)⟩
      · rw [if_neg hname]
        exact ⟨g, rfl, hg⟩
    · rw [hstack] at hmem
      -- The frame that is closed goes into its group; the others stay where they are.
      rcases (mem_above_cons.mp hmem).2 with hframe | hmem
      · cases hframe
        left
        rw [hget, if_pos rfl]
        exact ⟨_, rfl, (RuleGroup.has_merge _ _ r).mpr (.inr hg)⟩
      · exact .inr ⟨g, hmem, hg⟩

theorem Holds.mapTop (h : d.Holds name n r) {f : RuleGroup → RuleGroup} (hf : ∀ g, g.Has r → (f g).Has r) :
    (d.mapTop f).Holds name n r := by
  unfold Draft.mapTop
  split
  · exact h
  · rename_i name' g' stack hstack
    rcases h with h | ⟨g, hmem, hg⟩
    · exact .inl h
    · rw [hstack] at hmem
      obtain ⟨hle, hframe | hmem⟩ := mem_above_cons.mp hmem
      · cases hframe
        exact .inr ⟨f g', mem_above_cons.mpr ⟨hle, .inl rfl⟩, hf g' hg⟩
      · exact .inr ⟨g, mem_above_cons.mpr ⟨hle, .inr hmem⟩, hg⟩

theorem Holds.applyItem (h : d.Holds name n r) (gr : Grammar S G) (resolve : Path → Path) (inGroup : Bool)
    (lineno : Option ℕ) (item : ConfigItem S) : (d.applyItem gr resolve inGroup lineno item).Holds name n r := by
  cases item with
  | rule r' => exact h.mapTop fun g hg => (RuleGroup.has_push g r r').mpr (.inl hg)
  | param p =>
    show (d.setParam inGroup lineno p).Holds name n r
    unfold setParam
    split
    · exact h.of_same rfl rfl
    · split
      · apply h.mapTop
        intro g hg
        cases r <;> exact hg
      · exact h.of_same rfl rfl
  | groupBegin v => exact h.pushGroup _ _
  | groupEnd => exact h.popGroup
  | groupMatch v =>
    have hfold : d.applyItem gr resolve inGroup lineno (.groupMatch v) = { d with clientRules := _ } :=
      foldl_pushClientRule _ v.clients d
    exact h.of_same (by rw [hfold]) (by rw [hfold])
  | _ => exact h.of_same rfl rfl

end Draft

section

variable {gr : Grammar S G} {fs : FileSystem} {d : Draft G} {name : String} {n : ℕ} {r : RuleItem}

theorem Draft.Holds.apply (h : d.Holds name n r) (l : FlatLine) : (l.apply gr fs d).Holds name n r := by
  cases l with
  | enters group => exact h.pushGroup group {}
  | leaves => exact h.popGroup
  | read line lineno base files =>
    have hunchecked {d : Draft G} (h : d.Holds name n r) :
        (d.configUnchecked gr (files.resolveFilepath fs) line lineno).Holds name n r := by
      unfold Draft.configUnchecked
      cases gr.parseConfig line with
      | none => exact h.openDefault
      | some item =>
        simp only
        split
        · exact h
        · split
          · exact h
          · exact h.openDefault.applyItem gr _ _ lineno item
    show (d.configLine gr (files.resolveFilepath fs) line lineno).Holds name n r
    unfold Draft.configLine
    cases gr.detectBrokenProxyCredential line with
    | none => exact hunchecked h
    | some detail => exact hunchecked (h.of_same rfl rfl)

/-- **A rule of a group stays the group's.** -/
theorem Draft.Holds.readText : ∀ (t : List FlatLine) {d : Draft G}, d.Holds name n r →
    (Config.readText gr fs d t).Holds name n r
  | [], _, h => h
  | l :: t, _, h => Holds.readText t (h.apply l)

end

/-! ### The texts of the files of a line -/

def includedTexts (inline : Files → Path → Option (Inlined × Bool)) : Files → List Path →
    Option (Files × List (List FlatLine))
  | f, [] => some (f, [])
  | f, file :: files =>
    (inline f file).bind fun r =>
      (includedTexts inline (r.1.1.addDir file) files).map fun r' => (r'.1, r.1.2 :: r'.2)

/-- The files' texts, each in the group. -/
def groupTexts (group : String) (texts : List (List FlatLine)) : List FlatLine := texts.flatMap (inGroup (some group))

theorem gather_inlineInclude (inline : Files → Path → Option (Inlined × Bool)) (group : String) (files : List Path) :
    ∀ f, gather (inlineInclude inline (some group)) f files =
      (includedTexts inline f files).map fun r => (r.1, groupTexts group r.2) := by
  induction files with
  | nil => exact fun _ => rfl
  | cons file files ih =>
    intro f
    unfold gather includedTexts inlineInclude
    cases inline f file with
    | none => rfl
    | some r =>
      show Option.map _ (gather (inlineInclude inline (some group)) (r.1.1.addDir file) files) = _
      rw [ih]
      simp only [Option.map_map, Option.bind_some]
      rfl

/-- What is read of a line is a rule. -/
def FlatLine.isRule (gr : Grammar S G) (r : RuleItem) : FlatLine → Prop
  | .read line _ _ _ => gr.parseConfig line = some (.rule r)
  | _ => False

section

variable (gr : Grammar S G) (fs : FileSystem)

/-- The groups that each line of a text finds open. -/
def scopes : Draft G → List FlatLine → List (List String)
  | _, [] => []
  | d, l :: t =>
    match l with
    | .read .. => d.scope :: scopes (l.apply gr fs d) t
    | _ => scopes (l.apply gr fs d) t

/-- From `d` to `d'` by the line `head`, whose files have these texts, and what comes next. -/
structure ScopeKept (d d' : Draft G) (group : String) (head : FlatLine) (texts : List (List FlatLine)) : Prop where
  /-- Behind the line the same groups are open as before. -/
  same : d'.names = d.scope
  /-- A line of a file stands in the group, and in those that the file has opened itself. -/
  inside : ∀ before t behind, texts = before ++ t :: behind → ∀ front l back, t = front ++ l :: back →
    (readText gr fs d (head :: (groupTexts group before ++ .enters group :: front))).names =
      run [] (front.map (FlatLine.mark gr)) ++ group :: d.scope
  /-- A rule of a file is in the innermost group that the file has opened, else in the group. -/
  rules : ∀ before t behind, texts = before ++ t :: behind → ∀ front l back, t = front ++ l :: back →
    ∀ r, l.isRule gr r →
      ∃ g, d'.ruleGroups.get? ((run [] (front.map (FlatLine.mark gr))).head?.getD group) = some g ∧ g.Has r
  /-- What is read next finds open what it would find without the line. -/
  after : ∀ later : List FlatLine, (∀ g, later.head? ≠ some (.enters g)) →
    scopes gr fs d' later = scopes gr fs d later

variable {gr fs}

theorem scopes_congr : ∀ (t : List FlatLine) {d d' : Draft G}, d.names = d'.names → scopes gr fs d t = scopes gr fs d' t
  | [], _, _, _ => rfl
  | l :: t, d, d', h => by
    have hscope : d.scope = d'.scope := by rw [Draft.scope_eq, Draft.scope_eq, h]
    have hnext : (l.apply gr fs d).names = (l.apply gr fs d').names := by
      cases l with
      | read line lineno base files => rw [names_read, names_read, hscope]
      | enters group => exact congrArg (List.cons group) h
      | leaves => exact (d.names_popGroup.trans (congrArg List.tail h)).trans d'.names_popGroup.symm
    unfold scopes
    split
    · rw [hscope, scopes_congr t hnext]
    · exact scopes_congr t hnext

/-- A text that starts with no mark of a group does not see whether `default` is open yet. -/
theorem scopes_of_names_eq_scope {d d' : Draft G} (h : d'.names = d.scope) (later : List FlatLine)
    (hlater : ∀ g, later.head? ≠ some (.enters g)) : scopes gr fs d' later = scopes gr fs d later := by
  have hscope : d'.scope = d.scope := by
    rw [Draft.scope_of_names (by rw [h]; exact d.scope_ne_nil), h]
  cases later with
  | nil => rfl
  | cons l t =>
    cases l with
    | enters g => exact absurd rfl (hlater g)
    | read line lineno base files =>
      unfold scopes
      simp only
      rw [hscope]
      congr 1
      apply scopes_congr
      rw [names_read, names_read, hscope]
    | leaves =>
      apply scopes_congr t
      show d'.popGroup.names = d.popGroup.names
      rw [Draft.names_popGroup, Draft.names_popGroup, h, Draft.scope_eq]
      by_cases hnil : d.names = []
      · rw [if_pos hnil, hnil]
        rfl
      · rw [if_neg hnil]

end

/-! ### Texts that close what they open -/

section

variable {gr : Grammar S G} {fs : FileSystem} {group : String} {base : List String}

/-- The groups that the text opens are closed in it, and no others. -/
def ClosesItsGroups (gr : Grammar S G) (t : List FlatLine) : Prop := Nested (t.map (FlatLine.mark gr))

theorem readText_inGroup (d : Draft G) (t : List FlatLine) :
    readText gr fs d (inGroup (some group) t) = (readText gr fs (d.pushGroup group {}) t).popGroup := by
  show readText gr fs (d.pushGroup group {}) (t ++ [.leaves]) = _
  rw [readText_append]
  rfl

theorem names_inside {d : Draft G} (hd : d.names = base) {t : List FlatLine}
    (ht : Inside [] (t.map (FlatLine.mark gr))) :
    (readText gr fs (d.pushGroup group {}) t).names = run [] (t.map (FlatLine.mark gr)) ++ group :: base :=
  names_readText gr fs (List.cons_ne_nil group base) t _ [] (congrArg (List.cons group) hd) ht

theorem names_groupTexts {texts : List (List FlatLine)} (h : ∀ t ∈ texts, ClosesItsGroups gr t) :
    ∀ d : Draft G, d.names = base → (readText gr fs d (groupTexts group texts)).names = base := by
  induction texts with
  | nil => exact fun _ hd => hd
  | cons t ts ih =>
    intro d hd
    have ht := h t List.mem_cons_self
    have hafter : (readText gr fs d (inGroup (some group) t)).names = base := by
      rw [readText_inGroup, Draft.names_popGroup, names_inside hd ht.1, ht.2]
      rfl
    show (readText gr fs d (inGroup (some group) t ++ groupTexts group ts)).names = base
    rw [readText_append]
    exact ih (fun t' ht' => h t' (List.mem_cons_of_mem t ht')) _ hafter

/-- A rule goes to the innermost group. -/
theorem holds_apply_rule {d : Draft G} {name : String} {rest : List String} (hd : d.names = name :: rest) {n : ℕ}
    (hn : n ≤ rest.length) {l : FlatLine} {r : RuleItem} (hl : l.isRule gr r) : (l.apply gr fs d).Holds name n r := by
  cases l with
  | enters g => cases hl
  | leaves => cases hl
  | read line lineno base files =>
    have hitem : gr.parseConfig line = some (.rule r) := hl
    have hunchecked {d : Draft G} (hd : d.names = name :: rest) :
        (d.configUnchecked gr (files.resolveFilepath fs) line lineno).Holds name n r := by
      unfold Draft.names at hd
      obtain ⟨frame, stack, hstack, rfl, rfl⟩ := List.map_eq_cons_iff.mp hd
      have hopen : d.openDefault = d := by
        unfold Draft.openDefault
        rw [hstack]
      unfold Draft.configUnchecked
      rw [hitem]
      simp only [ConfigItem.notSupportedInRuleGroupByDesign, ConfigItem.allowedInRuleGroup, Option.isSome_none,
        Bool.not_true, Bool.and_false, Bool.false_eq_true, if_false, hopen]
      show (d.mapTop fun g => g.push r).Holds frame.1 n r
      right
      refine ⟨frame.2.push r, ?_, (RuleGroup.has_push frame.2 r r).mpr (.inr rfl)⟩
      unfold Draft.mapTop
      rw [hstack]
      exact mem_above_cons.mpr ⟨by simpa using hn, .inl rfl⟩
    show (d.configLine gr (files.resolveFilepath fs) line lineno).Holds name n r
    unfold Draft.configLine
    cases gr.detectBrokenProxyCredential line with
    | none => exact hunchecked hd
    | some detail => exact hunchecked hd

/-- Nothing is left above the frames that are still there. -/
theorem mem_ruleGroups_of_holds {d : Draft G} {name : String} {r : RuleItem} {n : ℕ} (h : d.Holds name n r)
    (hn : d.names.length ≤ n) : ∃ g, d.ruleGroups.get? name = some g ∧ g.Has r := by
  rcases h with h | ⟨g, hmem, _⟩
  · exact h
  · rw [above_of_length_le (by simpa [Draft.names] using hn)] at hmem
    cases hmem

/-- **Files that close what they open keep the scope.** -/
theorem scopeKept_of_closes {d : Draft G} {head : FlatLine} {texts : List (List FlatLine)}
    (hhead : (head.apply gr fs d).names = d.scope) (h : ∀ t ∈ texts, ClosesItsGroups gr t) :
    ScopeKept gr fs d (readText gr fs d (head :: groupTexts group texts)) group head texts := by
  have hsame : (readText gr fs d (head :: groupTexts group texts)).names = d.scope := names_groupTexts h _ hhead
  have hinside : ∀ before t behind, texts = before ++ t :: behind → ∀ front l back, t = front ++ l :: back →
      (readText gr fs d (head :: (groupTexts group before ++ .enters group :: front))).names =
        run [] (front.map (FlatLine.mark gr)) ++ group :: d.scope := by
    rintro before t behind rfl front l back rfl
    have hbefore : (readText gr fs (head.apply gr fs d) (groupTexts group before)).names = d.scope :=
      names_groupTexts (fun t ht => h t (List.mem_append_left _ ht)) _ hhead
    have hfront : Inside [] (front.map (FlatLine.mark gr)) := by
      have ht := (h _ (List.mem_append_right before List.mem_cons_self)).1
      rw [List.map_append] at ht
      exact (inside_append.mp ht).1
    rw [readText_cons, readText_append]
    exact names_inside hbefore hfront
  refine ⟨hsame, hinside, ?_, fun later hlater => scopes_of_names_eq_scope hsame later hlater⟩
  rintro before t behind rfl front l back rfl r hr
  -- The rule is in a frame above those that are left in the end.
  have hnames := hinside before _ behind rfl front l back rfl
  have hheld : (l.apply gr fs (readText gr fs d (head :: (groupTexts group before ++ .enters group :: front)))).Holds
      ((run [] (front.map (FlatLine.mark gr))).head?.getD group) d.scope.length r := by
    cases hown : run [] (front.map (FlatLine.mark gr)) with
    | nil =>
      rw [hown] at hnames
      exact holds_apply_rule hnames (Nat.le_refl _) hr
    | cons name own =>
      rw [hown] at hnames
      exact holds_apply_rule hnames (by simp; omega) hr
  have htext : head :: groupTexts group (before ++ (front ++ l :: back) :: behind) =
      (head :: (groupTexts group before ++ .enters group :: front)) ++
        l :: (back ++ .leaves :: groupTexts group behind) := by
    simp [groupTexts, inGroup]
  apply mem_ruleGroups_of_holds ?_ (Nat.le_of_eq (congrArg List.length hsame))
  rw [htext, readText_append, readText_cons]
  exact hheld.readText _

/-! ### Texts that do not -/

/-- As many groups are open before the rest of the files as behind them, if their lines stand where they should. -/
theorem length_names_of_rest : ∀ (texts : List (List FlatLine)) {d : Draft G},
    (∀ before t behind, texts = before ++ t :: behind → ∀ front l back, t = front ++ l :: back →
      (readText gr fs d (groupTexts group before ++ .enters group :: front)).names =
        run [] (front.map (FlatLine.mark gr)) ++ group :: base) →
    (readText gr fs d (groupTexts group texts)).names = base → d.names.length = base.length
  | [], _, _, hsame => congrArg List.length hsame
  | [] :: ts, d, hinside, hsame => by
    have hempty : readText gr fs d (inGroup (some group) []) = (d.pushGroup group {}).popGroup := readText_inGroup d []
    have hnames : (readText gr fs d (inGroup (some group) [])).names = d.names := by
      rw [hempty, Draft.names_popGroup]
      rfl
    rw [← hnames]
    apply length_names_of_rest ts
    · rintro before t behind rfl front l back ht
      rw [← readText_append, ← List.append_assoc]
      exact hinside ([] :: before) t behind rfl front l back ht
    · rw [← readText_append]
      exact hsame
  | (l :: t) :: ts, d, hinside, _ => by
    have hfirst : group :: d.names = group :: base := hinside [] (l :: t) ts rfl [] l t rfl
    exact congrArg List.length (List.tail_eq_of_cons_eq hfirst)

/-- **A file that does not close what it opens shows.** -/
theorem closes_of_names (hbase : base ≠ []) : ∀ (texts : List (List FlatLine)) {d : Draft G}, d.names = base →
    (∀ before t behind, texts = before ++ t :: behind → ∀ front l back, t = front ++ l :: back →
      (readText gr fs d (groupTexts group before ++ .enters group :: front)).names =
        run [] (front.map (FlatLine.mark gr)) ++ group :: base) →
    (readText gr fs d (groupTexts group texts)).names = base → ∀ t ∈ texts, ClosesItsGroups gr t
  | [], _, _, _, _ => by simp
  | t :: ts, d, hd, hinside, hsame => by
    have hpos : 0 < base.length := List.length_pos_iff.mpr hbase
    have hrest : ∀ before t' behind, ts = before ++ t' :: behind → ∀ front l back, t' = front ++ l :: back →
        (readText gr fs (readText gr fs d (inGroup (some group) t)) (groupTexts group before ++ .enters group :: front)).names =
          run [] (front.map (FlatLine.mark gr)) ++ group :: base := by
      rintro before t' behind rfl front l back ht'
      rw [← readText_append, ← List.append_assoc]
      exact hinside (t :: before) t' behind rfl front l back ht'
    have hsame' : (readText gr fs (readText gr fs d (inGroup (some group) t)) (groupTexts group ts)).names = base := by
      rw [← readText_append]
      exact hsame
    have hlen := length_names_of_rest ts hrest hsame'
    rw [readText_inGroup, Draft.names_popGroup, List.length_tail] at hlen
    have hin : Inside [] (t.map (FlatLine.mark gr)) := by
      by_contra hnot
      obtain ⟨front, back, hsplit, hfront, hown⟩ := exists_of_not_inside hnot
      obtain ⟨tf, tl, rfl, rfl, htl⟩ := List.map_eq_append_iff.mp hsplit
      obtain ⟨l, tb, rfl, hl, rfl⟩ := List.map_eq_cons_iff.mp htl
      have hbefore : (readText gr fs (d.pushGroup group {}) tf).names = group :: base := by
        rw [names_inside hd hfront, hown]
        rfl
      have hclosed : (l.apply gr fs (readText gr fs (d.pushGroup group {}) tf)).names = base := by
        rw [names_apply gr fs _ l (by rw [hbefore]; exact List.cons_ne_nil _ _), hl, hbefore]
        rfl
      cases tb with
      | nil =>
        -- Behind the last line the include closes a group that was open before it.
        rw [readText_append, readText_cons, readText_nil, hclosed] at hlen
        omega
      | cons l' tb =>
        -- The next line stands outside the group.
        have hnext := hinside [] (tf ++ l :: l' :: tb) ts rfl (tf ++ [l]) l' tb (by simp)
        have hread : readText gr fs d (groupTexts group [] ++ .enters group :: (tf ++ [l])) =
            l.apply gr fs (readText gr fs (d.pushGroup group {}) tf) := by
          show readText gr fs (d.pushGroup group {}) (tf ++ [l]) = _
          rw [readText_append]
          rfl
        rw [hread, hclosed] at hnext
        have := congrArg List.length hnext
        simp at this
        omega
    have hown : run [] (t.map (FlatLine.mark gr)) = [] := by
      rw [names_inside hd hin, List.length_append, List.length_cons] at hlen
      exact List.length_eq_zero_iff.mp (by omega)
    have hafter : (readText gr fs d (inGroup (some group) t)).names = base := by
      rw [readText_inGroup, Draft.names_popGroup, names_inside hd hin, hown]
      rfl
    intro t' ht'
    rcases List.mem_cons.mp ht' with rfl | ht'
    · exact ⟨hin, hown⟩
    · exact closes_of_names hbase ts hafter hrest hsame' t' ht'

end

/-! ### The line -/

section

variable (gr : Grammar S G) (fs : FileSystem)

/-- The texts of the files do not depend on how deep loading may go. -/
theorem includedTexts_depth {depth depth' : ℕ} (h : fs.realpaths.length < depth) (h' : depth ≤ depth') :
    includedTexts (inlineConfFile gr fs depth) = includedTexts (inlineConfFile gr fs depth') := by
  have hfile : inlineConfFile gr fs depth = inlineConfFile gr fs depth' := by
    funext f path
    exact inlineConfFile_depth gr fs depth depth' f path (Nat.lt_of_le_of_lt (unseen_le fs f) h) h'
  rw [hfile]

theorem includedTexts_isSome {depth : ℕ} (h : fs.realpaths.length < depth) (files : List Path) :
    ∀ f, (includedTexts (inlineConfFile gr fs depth) f files).isSome := by
  induction files with
  | nil => exact fun _ => rfl
  | cons file files ih =>
    intro f
    have hfile := inlineConfFile_isSome gr fs depth f file (Nat.lt_of_le_of_lt (unseen_le fs f) h)
    obtain ⟨r, hr⟩ := Option.isSome_iff_exists.mp hfile
    obtain ⟨r', hr'⟩ := Option.isSome_iff_exists.mp (ih (r.1.1.addDir file))
    simp [includedTexts, hr, hr']

/-- What the line comes to, with the texts of its files. -/
theorem configAt_of_includedTexts {depth : ℕ} {b : RuntimeConfigBuilder G} {line : List UInt8} {lineno : Option ℕ}
    {base : Option Path} {path : Path} {group : String}
    (hline : gr.parseConfig line = some (.confFile { path := path, group := some group }))
    {r : Files × List (List FlatLine)}
    (hr : includedTexts (inlineConfFile gr fs depth) b.files (b.files.expandConfFiles fs path base) = some r) :
    configAt gr fs (loadConfFile gr fs depth) b line lineno base =
      some (b.read gr fs (r.1, .read line lineno base b.files :: groupTexts group r.2)) := by
  rw [configAt_eq_inline (loadConfFile_eq_inline depth)]
  unfold inlineAt
  rw [hline]
  simp only
  rw [gather_inlineInclude, hr]
  rfl

/-- **A `conf-file` line with a group keeps to its scope exactly if each of its files closes the
groups that it opens, and no others.** -/
theorem include_keeps_scope_iff (b : RuntimeConfigBuilder G) (line : List UInt8) (lineno : Option ℕ)
    (base : Option Path) (path : Path) (group : String)
    (hline : gr.parseConfig line = some (.confFile { path := path, group := some group })) :
    ∃ (b' : RuntimeConfigBuilder G) (texts : List (List FlatLine)),
      (∀ depth, fs.realpaths.length < depth →
        configAt gr fs (loadConfFile gr fs depth) b line lineno base = some b' ∧
        includedTexts (inlineConfFile gr fs depth) b.files (b.files.expandConfFiles fs path base) =
          some (b'.files, texts)) ∧
      (ScopeKept gr fs b.draft b'.draft group (.read line lineno base b.files) texts ↔
        ∀ t ∈ texts, ClosesItsGroups gr t) := by
  obtain ⟨r, hr⟩ := Option.isSome_iff_exists.mp (includedTexts_isSome gr fs (Nat.lt_succ_self fs.realpaths.length)
    (b.files.expandConfFiles fs path base) b.files)
  have hhead : ((FlatLine.read line lineno base b.files).apply gr fs b.draft).names = b.draft.scope := by
    rw [names_read]
    unfold FlatLine.mark
    simp only [hline]
    rfl
  refine ⟨b.read gr fs (r.1, .read line lineno base b.files :: groupTexts group r.2), r.2, fun depth hdepth => ?_,
    fun h => ?_, fun h => scopeKept_of_closes hhead h⟩
  · have htexts := (congrArg (fun g => g b.files (b.files.expandConfFiles fs path base))
      (includedTexts_depth gr fs (Nat.lt_succ_self _) (Nat.succ_le_of_lt hdepth))).symm.trans hr
    exact ⟨configAt_of_includedTexts gr fs hline htexts, htexts⟩
  · apply closes_of_names b.draft.scope_ne_nil r.2 hhead ?_ h.same
    intro before t behind htexts front l back ht
    exact h.inside before t behind htexts front l back ht

end

/-- In the block of the group `lan`. -/
def inLan : Draft Unit := { settings := (), ruleGroupStack := [("lan", {}), ("default", {})] }

theorem include_keeps_scope_iff_address : ∃ (b' : RuntimeConfigBuilder Unit) (texts : List (List FlatLine)),
    (∀ depth, 2 < depth →
      configAt letters (twoFiles [] [97]) (loadConfFile letters (twoFiles [] [97]) depth) { draft := inLan } [99] none
        none = some b' ∧
      includedTexts (inlineConfFile letters (twoFiles [] [97]) depth) {} [includedPath] = some (b'.files, texts)) ∧
    (ScopeKept letters (twoFiles [] [97]) inLan b'.draft "office" (.read [99] none none {}) texts ↔
      ∀ t ∈ texts, ClosesItsGroups letters t) :=
  include_keeps_scope_iff letters (twoFiles [] [97]) { draft := inLan } [99] none none includedPath "office" rfl

/-- **A `group-end` in the file closes the include's group, and the include closes `lan`.** -/
theorem group_end_leaks :
    ¬ ∀ b', configAt letters (twoFiles [] [101]) (loadConfFile letters (twoFiles [] [101]) 3) { draft := inLan } [99] none
      none = some b' → b'.draft.names = inLan.names := by
  intro h
  have hnames : ["default"] = ["lan", "default"] := h _ rfl
  revert hnames
  decide

end Config
end SmartDns
