/-
# The blocks of a text

What a text says of the groups, with nothing put together yet: each block of a group with
what the group took over when the block was opened and what the lines in the block write, the
blocks in the order they are closed. A group that is closed several times has as many blocks;
`together` is what the configuration makes of them.

`Blocks.written` has what the lines write in the order of the lines, whatever block they
stand in.

Key definitions: `Entry`, `Block`, `Blocks`, `Blocks.apply`, `together`, `blocksOf`, `writtenIn`.
Key theorems: `Shows.apply`, `get?_built`, `blocks_perm_written`.
-/
import SmartDns.Config.Scope

namespace SmartDns
namespace Config

open Lib (KeyMap)
open Rule Server

variable {S G : Type}

/-! ### Blocks -/

/-- What a line writes into the group whose block it stands in. -/
inductive Entry
  | rule (r : RuleItem)
  | param (p : ParamItem)

def RuleGroup.write (g : RuleGroup) : Entry → RuleGroup
  | .rule r => g.push r
  | .param p => { g with params := p.set g.params }

structure Block where
  name : String
  /-- What the group takes over. -/
  taken : RuleGroup := {}
  entries : List Entry := []

def Block.content (b : Block) : RuleGroup := b.entries.foldl RuleGroup.write b.taken

def Block.add (b : Block) (e : Entry) : Block := { b with entries := b.entries ++ [e] }

@[simp] theorem Block.content_add (b : Block) (e : Entry) : (b.add e).content = b.content.write e := by
  unfold Block.content Block.add
  rw [List.foldl_concat]

/-- What the blocks of a group come to: rules are appended, and of a parameter the first value stays. -/
def together : List Block → Option RuleGroup
  | [] => none
  | b :: bs => some (bs.foldl (fun g b => g.merge b.content) b.content)

theorem together_concat (bs : List Block) (b : Block) :
    together (bs ++ [b]) = some (((together bs).getD {}).merge b.content) := by
  cases bs with
  | nil => simp [together]
  | cons b' bs => simp [together]

/-! ### Reading a text -/

structure Blocks where
  /-- In the order they were closed. -/
  closed : List Block := []
  /-- The innermost comes first. -/
  opened : List Block := []
  /-- In the order of the lines, with the group. -/
  written : List (String × Entry) := []
  /-- The domains of the `nftset` and `ipset` lines, which are no group's. -/
  nftsets : List Domain := []
  ipsets : List Domain := []

namespace Blocks

variable (s : Blocks)

def ofGroup (name : String) : List Block := s.closed.filter (·.name == name)

def openDefault : Blocks :=
  match s.opened with
  | [] => { s with opened := [{ name := Draft.defaultGroup }] }
  | _ :: _ => s

def push (name : String) (taken : RuleGroup) : Blocks := { s with opened := { name, taken } :: s.opened }

def close : Blocks :=
  match s.opened with
  | [] => s
  | b :: opened => { s with closed := s.closed ++ [b], opened := opened }

def write (e : Entry) : Blocks :=
  match s.opened with
  | [] => s
  | b :: opened => { s with opened := b.add e :: opened, written := s.written ++ [(b.name, e)] }

/-- What a new block takes over. -/
def inherited (group : GroupBegin) : Option RuleGroup :=
  match group.inherit.or (if 1 < s.opened.length then some "parent" else none) with
  | none => none
  | some "none" => none
  | some "parent" => s.opened.head?.map (·.content)
  | some "default" =>
    (together (s.ofGroup Draft.defaultGroup)).or
      ((s.opened.reverse.find? (·.name == Draft.defaultGroup)).map (·.content))
  | some name => together (s.ofGroup name)

def read (inGroup : Bool) : ConfigItem S → Blocks
  | .rule r => s.write (.rule r)
  | .param p =>
    match p.refusal with
    | some _ => s
    | none => if inGroup then s.write (.param p) else s
  | .groupBegin v => s.push v.name ((s.inherited v).getD {})
  | .groupEnd => s.close
  | .nftSet v => if inGroup then s else { s with nftsets := s.nftsets ++ [v.domain] }
  | .ipSet v => if inGroup then s else { s with ipsets := s.ipsets ++ [v.domain] }
  | _ => s

theorem read_param (inGroup : Bool) (p : ParamItem) : s.read inGroup (.param p : ConfigItem S) =
    match p.refusal with
    | some _ => s
    | none => if inGroup then s.write (.param p) else s := rfl

def apply (gr : Grammar S G) : FlatLine → Blocks
  | .read line _ _ _ =>
    match gr.parseConfig line with
    | some item => s.openDefault.read (decide (1 < s.opened.length)) item
    | none => s.openDefault
  | .enters group => s.push group {}
  | .leaves => s.close

theorem apply_read (gr : Grammar S G) (line : List UInt8) (lineno : Option ℕ) (base : Option Path) (files : Files) :
    s.apply gr (.read line lineno base files) =
      match gr.parseConfig line with
      | some item => s.openDefault.read (decide (1 < s.opened.length)) item
      | none => s.openDefault := rfl

/-- At the end the open blocks are closed from the outermost on. -/
def all : List Block := s.closed ++ s.opened.reverse

end Blocks

def readBlocks (gr : Grammar S G) (t : List FlatLine) : Blocks := t.foldl (fun s l => s.apply gr l) {}

/-- The blocks of a group, in the order they are closed. -/
def blocksOf (gr : Grammar S G) (t : List FlatLine) (group : String) : List Block :=
  (readBlocks gr t).all.filter (·.name == group)

/-- What the lines in a group's blocks write, in the order of the lines. -/
def writtenIn (gr : Grammar S G) (t : List FlatLine) (group : String) : List Entry :=
  ((readBlocks gr t).written.filter (·.1 == group)).map (·.2)

/-! ### Every line that writes is in one block -/

/-- A property that opening, closing and writing keep. -/
structure Blocks.Kept (P : Blocks → Prop) : Prop where
  openDefault : ∀ s, P s → P s.openDefault
  push : ∀ s name taken, P s → P (s.push name taken)
  close : ∀ s, P s → P s.close
  write : ∀ s e, P s → P (s.write e)
  nftset : ∀ s domain, P s → P { s with nftsets := s.nftsets ++ [domain] }
  ipset : ∀ s domain, P s → P { s with ipsets := s.ipsets ++ [domain] }

theorem Blocks.Kept.apply {P : Blocks → Prop} (h : Blocks.Kept P) (gr : Grammar S G) (l : FlatLine) {s : Blocks}
    (hs : P s) : P (s.apply gr l) := by
  cases l with
  | enters group => exact h.push s group {} hs
  | leaves => exact h.close s hs
  | read line lineno base files =>
    rw [Blocks.apply_read]
    have hopen := h.openDefault s hs
    cases gr.parseConfig line with
    | none => exact hopen
    | some item =>
      cases item with
      | rule r => exact h.write _ (.rule r) hopen
      | param p =>
        simp only [read_param]
        split
        · exact hopen
        · split
          · exact h.write _ (.param p) hopen
          · exact hopen
      | nftSet v =>
        show P (if _ then _ else _)
        split
        · exact hopen
        · exact h.nftset _ v.domain hopen
      | ipSet v =>
        show P (if _ then _ else _)
        split
        · exact hopen
        · exact h.ipset _ v.domain hopen
      | groupBegin v => exact h.push _ _ _ hopen
      | groupEnd => exact h.close _ hopen
      | _ => exact hopen

/-- What holds of no blocks and is kept holds of the blocks of a text. -/
theorem Blocks.Kept.readBlocks {P : Blocks → Prop} (h : Blocks.Kept P) (gr : Grammar S G) (t : List FlatLine)
    (hempty : P {}) : P (readBlocks gr t) := by
  unfold Config.readBlocks
  induction t using List.reverseRecOn with
  | nil => exact hempty
  | append_singleton t l ih =>
    rw [List.foldl_concat]
    exact h.apply gr l ih

/-- What the blocks hold, each entry with its group. -/
def entriesOf (bs : List Block) : List (String × Entry) := bs.flatMap fun b => b.entries.map (b.name, ·)

theorem entriesOf_append (bs bs' : List Block) : entriesOf (bs ++ bs') = entriesOf bs ++ entriesOf bs' :=
  List.flatMap_append

theorem entriesOf_cons (b : Block) (bs : List Block) : entriesOf (b :: bs) = b.entries.map (b.name, ·) ++ entriesOf bs :=
  List.flatMap_cons

theorem entriesOf_group (bs : List Block) (group : String) : ((entriesOf bs).filter (·.1 == group)).map (·.2) =
    (bs.filter (·.name == group)).flatMap (·.entries) := by
  induction bs with
  | nil => rfl
  | cons b bs ih =>
    rw [entriesOf_cons, List.filter_append, List.map_append, ih, List.filter_map]
    by_cases hname : b.name = group
    · simp [hname, Function.comp_def]
    · simp [hname, Function.comp_def]

/-- Nothing that is written is lost or counted twice. -/
def Blocks.Accounted (s : Blocks) : Prop := (entriesOf (s.closed ++ s.opened)).Perm s.written

namespace Blocks.Accounted

variable {s : Blocks}

theorem openDefault (h : s.Accounted) : s.openDefault.Accounted := by
  unfold Blocks.openDefault
  split
  · rename_i hnil
    unfold Blocks.Accounted at h ⊢
    rw [hnil] at h
    simpa [entriesOf] using h
  · exact h

theorem push (h : s.Accounted) (name : String) (taken : RuleGroup) : (s.push name taken).Accounted := by
  have hopen : entriesOf (s.closed ++ { name, taken } :: s.opened) = entriesOf (s.closed ++ s.opened) := by
    rw [entriesOf_append, entriesOf_append, entriesOf_cons]
    rfl
  show (entriesOf (s.closed ++ { name, taken } :: s.opened)).Perm s.written
  rw [hopen]
  exact h

theorem close (h : s.Accounted) : s.close.Accounted := by
  unfold Blocks.close
  split
  · exact h
  · rename_i b opened hopened
    unfold Blocks.Accounted at h ⊢
    rw [hopened, List.append_cons] at h
    exact h

theorem write (h : s.Accounted) (e : Entry) : (s.write e).Accounted := by
  unfold Blocks.write
  split
  · exact h
  · rename_i b opened hopened
    unfold Blocks.Accounted at h ⊢
    rw [hopened, entriesOf_append, entriesOf_cons] at h
    simp only [entriesOf_append, entriesOf_cons, Block.add, List.map_append, List.map_cons, List.map_nil]
    -- The new entry goes behind those of the blocks under it.
    have hmove : (entriesOf s.closed ++ (b.entries.map (b.name, ·) ++ [(b.name, e)] ++ entriesOf opened)).Perm
        (entriesOf s.closed ++ (b.entries.map (b.name, ·) ++ entriesOf opened) ++ [(b.name, e)]) := by
      rw [List.append_assoc, List.append_assoc, List.append_assoc]
      exact (List.perm_append_comm.append_left _).append_left _
    exact hmove.trans (h.append_right _)

theorem kept : Blocks.Kept Blocks.Accounted where
  openDefault _ h := h.openDefault
  push _ name taken h := h.push name taken
  close _ h := h.close
  write _ e h := h.write e
  nftset _ _ h := h
  ipset _ _ h := h

end Blocks.Accounted

/-- **The blocks of a group hold what the lines in them write.** -/
theorem blocks_perm_written (gr : Grammar S G) (t : List FlatLine) (group : String) :
    ((blocksOf gr t group).flatMap (·.entries)).Perm (writtenIn gr t group) := by
  have hall : (entriesOf (readBlocks gr t).all).Perm (readBlocks gr t).written := by
    refine List.Perm.trans ?_ (Blocks.Accounted.kept.readBlocks gr t (List.Perm.refl _))
    exact (List.reverse_perm _).append_left _ |>.flatMap_right _
  unfold blocksOf writtenIn
  rw [← entriesOf_group]
  exact (hall.filter _).map _

/-- A block has its lines in their order. -/
def Blocks.InOrder (s : Blocks) : Prop := ∀ b ∈ s.closed ++ s.opened, (b.entries.map (b.name, ·)).Sublist s.written

namespace Blocks.InOrder

variable {s s' : Blocks}

/-- Blocks that were there before, or have no lines yet. -/
theorem of_mem (h : s.InOrder) (hwritten : s'.written = s.written)
    (hmem : ∀ b ∈ s'.closed ++ s'.opened, b ∈ s.closed ++ s.opened ∨ b.entries = []) : s'.InOrder := by
  intro b hb
  rw [hwritten]
  rcases hmem b hb with hold | hnew
  · exact h b hold
  · rw [hnew]
    exact List.nil_sublist _

theorem openDefault (h : s.InOrder) : s.openDefault.InOrder := by
  unfold Blocks.openDefault
  split
  · rename_i hnil
    refine h.of_mem rfl ?_
    intro b hb
    rw [hnil, List.append_nil]
    rcases List.mem_append.mp hb with hb | hb
    · exact .inl hb
    · exact .inr (List.mem_singleton.mp hb ▸ rfl)
  · exact h

theorem push (h : s.InOrder) (name : String) (taken : RuleGroup) : (s.push name taken).InOrder := by
  refine h.of_mem rfl ?_
  intro b hb
  rcases List.mem_append.mp hb with hb | hb
  · exact .inl (List.mem_append_left _ hb)
  · rcases List.mem_cons.mp hb with rfl | hb
    · exact .inr rfl
    · exact .inl (List.mem_append_right _ hb)

theorem close (h : s.InOrder) : s.close.InOrder := by
  unfold Blocks.close
  split
  · exact h
  · rename_i b opened hopened
    refine h.of_mem rfl ?_
    intro b' hb'
    rw [hopened, List.append_cons]
    exact .inl hb'

theorem write (h : s.InOrder) (e : Entry) : (s.write e).InOrder := by
  unfold Blocks.write
  split
  · exact h
  · rename_i b opened hopened
    unfold Blocks.InOrder at h
    rw [hopened] at h
    intro b' hb'
    rcases List.mem_append.mp hb' with hb' | hb'
    · exact (h b' (List.mem_append_left _ hb')).trans (List.sublist_append_left _ _)
    · rcases List.mem_cons.mp hb' with rfl | hb'
      · rw [show (b.add e).entries = b.entries ++ [e] from rfl, List.map_append]
        exact (h b (List.mem_append_right _ List.mem_cons_self)).append (List.Sublist.refl _)
      · exact (h b' (List.mem_append_right _ (List.mem_cons_of_mem b hb'))).trans (List.sublist_append_left _ _)

theorem kept : Blocks.Kept Blocks.InOrder where
  openDefault _ h := h.openDefault
  push _ name taken h := h.push name taken
  close _ h := h.close
  write _ e h := h.write e
  nftset _ _ h := h
  ipset _ _ h := h

end Blocks.InOrder

theorem mem_of_mem_blocksOf {gr : Grammar S G} {t : List FlatLine} {group : String} {b : Block}
    (h : b ∈ blocksOf gr t group) : b ∈ (readBlocks gr t).closed ++ (readBlocks gr t).opened := by
  rcases List.mem_append.mp (List.mem_filter.mp h).1 with hmem | hmem
  · exact List.mem_append_left _ hmem
  · exact List.mem_append_right _ (List.mem_reverse.mp hmem)

theorem entries_sublist {gr : Grammar S G} {t : List FlatLine} {group : String} {b : Block}
    (h : b ∈ blocksOf gr t group) : b.entries.Sublist (writtenIn gr t group) := by
  have hname := (List.mem_filter.mp h).2
  have hempty : ({} : Blocks).InOrder := fun b hb => by cases hb
  have hmem := mem_of_mem_blocksOf h
  have hsub := ((Blocks.InOrder.kept.readBlocks gr t hempty b hmem).filter (·.1 == group)).map (·.2)
  rw [List.filter_eq_self.mpr fun e he => ?_, List.map_map] at hsub
  · simpa [Function.comp_def, writtenIn] using hsub
  · obtain ⟨e', -, rfl⟩ := List.mem_map.mp he
    exact hname

/-- A group that has one block has there all its lines, in their order. -/
theorem entries_of_one_block {gr : Grammar S G} {t : List FlatLine} {group : String} {b : Block}
    (h : blocksOf gr t group = [b]) : b.entries = writtenIn gr t group := by
  apply (entries_sublist (h ▸ List.mem_singleton_self b)).eq_of_length
  have hperm := blocks_perm_written gr t group
  rw [h, List.flatMap_singleton] at hperm
  exact hperm.length_eq

/-! ### The configuration shows the blocks -/

/-- The groups as they have been put together are those of the blocks. -/
structure Shows (d : Draft G) (s : Blocks) : Prop where
  stack : d.ruleGroupStack = s.opened.map fun b => (b.name, b.content)
  groups : ∀ name, d.ruleGroups.get? name = together (s.ofGroup name)
  nftsets : d.nftsets.map (·.domain) = s.nftsets
  ipsets : d.ipsets.map (·.domain) = s.ipsets

namespace Shows

variable {d d' : Draft G} {s : Blocks}

theorem of_same (h : Shows d s) (hstack : d'.ruleGroupStack = d.ruleGroupStack)
    (hgroups : d'.ruleGroups = d.ruleGroups) (hnftsets : d'.nftsets = d.nftsets) (hipsets : d'.ipsets = d.ipsets) :
    Shows d' s where
  stack := hstack.trans h.stack
  groups name := by rw [hgroups, h.groups]
  nftsets := by rw [hnftsets, h.nftsets]
  ipsets := by rw [hipsets, h.ipsets]

theorem openDefault (h : Shows d s) : Shows d.openDefault s.openDefault := by
  unfold Draft.openDefault Blocks.openDefault
  have hstack := h.stack
  cases hopened : s.opened with
  | nil =>
    rw [hopened] at hstack
    rw [hstack]
    exact ⟨rfl, h.groups, h.nftsets, h.ipsets⟩
  | cons b opened =>
    rw [hopened] at hstack
    rw [hstack]
    exact h

theorem pushGroup (h : Shows d s) (name : String) (g : RuleGroup) : Shows (d.pushGroup name g) (s.push name g) where
  stack := by
    show (name, g) :: d.ruleGroupStack = _
    rw [h.stack]
    rfl
  groups := h.groups
  nftsets := h.nftsets
  ipsets := h.ipsets

theorem mergeGroup (h : Shows d s) (b : Block) :
    Shows (d.mergeGroup b.name b.content) { s with closed := s.closed ++ [b] } where
  stack := h.stack
  groups name := by
    show (d.ruleGroups.update b.name fun entry => (entry.getD {}).merge b.content).get? name = _
    have hfilter : Blocks.ofGroup { s with closed := s.closed ++ [b] } name =
        s.ofGroup name ++ bif b.name == name then [b] else [] := by
      unfold Blocks.ofGroup
      rw [List.filter_append, List.filter_singleton]
    rw [KeyMap.get?_update, h.groups name, hfilter]
    by_cases hname : (b.name == name) = true
    · obtain rfl : b.name = name := eq_of_beq hname
      simp only [beq_self_eq_true, if_true, cond_true]
      exact (together_concat _ b).symm
    · have hname : (b.name == name) = false := by simpa using hname
      simp only [hname, cond_false, List.append_nil, Bool.false_eq_true, if_false]
  nftsets := h.nftsets
  ipsets := h.ipsets

theorem popGroup (h : Shows d s) : Shows d.popGroup s.close := by
  unfold Draft.popGroup Blocks.close
  have hstack := h.stack
  cases hopened : s.opened with
  | nil =>
    rw [hopened] at hstack
    rw [hstack]
    exact h
  | cons b opened =>
    rw [hopened] at hstack
    rw [hstack]
    have hrest : Shows { d with ruleGroupStack := opened.map fun b => (b.name, b.content) } { s with opened := opened } :=
      ⟨rfl, h.groups, h.nftsets, h.ipsets⟩
    exact hrest.mergeGroup b

theorem mapTop (h : Shows d s) {f : RuleGroup → RuleGroup} {e : Entry} (hf : ∀ g, f g = g.write e) :
    Shows (d.mapTop f) (s.write e) := by
  unfold Draft.mapTop Blocks.write
  have hstack := h.stack
  cases hopened : s.opened with
  | nil =>
    rw [hopened] at hstack
    rw [hstack]
    exact h
  | cons b opened =>
    rw [hopened] at hstack
    rw [hstack]
    refine ⟨?_, h.groups, h.nftsets, h.ipsets⟩
    show (b.name, f b.content) :: opened.map _ = (b.name, (b.add e).content) :: opened.map _
    rw [hf, Block.content_add]

theorem inherited (h : Shows d s) (v : GroupBegin) : d.inherited v = s.inherited v := by
  unfold Draft.inherited Blocks.inherited
  simp only [h.groups, h.stack, List.length_map, List.head?_map, ← List.map_reverse, List.find?_map, Option.map_map]
  rfl

theorem setParam (h : Shows d s) (inGroup : Bool) (lineno : Option ℕ) (p : ParamItem) :
    Shows (d.setParam inGroup lineno p) (s.read inGroup (.param p : ConfigItem S)) := by
  unfold Draft.setParam
  rw [Blocks.read_param]
  cases p.refusal with
  | some detail => exact h.of_same rfl rfl rfl rfl
  | none =>
    simp only
    by_cases hin : inGroup = true
    · rw [if_pos hin, if_pos hin]
      exact h.mapTop fun _ => rfl
    · rw [if_neg hin, if_neg hin]
      exact h.of_same rfl rfl rfl rfl

theorem applyItem (h : Shows d s) (gr : Grammar S G) (resolve : Path → Path) {inGroup : Bool} (lineno : Option ℕ)
    {item : ConfigItem S} (hallowed : inGroup = true → item.allowedInRuleGroup = true) :
    Shows (d.applyItem gr resolve inGroup lineno item) (s.read inGroup item) := by
  have htop (hnot : item.allowedInRuleGroup = false) : inGroup = false :=
    Bool.eq_false_iff.mpr fun hin => Bool.false_ne_true (hnot.symm.trans (hallowed hin))
  cases item with
  | rule r => exact h.mapTop fun _ => rfl
  | param p => exact h.setParam inGroup lineno p
  | groupBegin v =>
    have hgroup := h.pushGroup v.name ((s.inherited v).getD {})
    show Shows (d.groupBegin v) (s.push v.name ((s.inherited v).getD {}))
    unfold Draft.groupBegin
    rw [h.inherited v]
    simp only [RuleGroup.merge_default_left, Option.map_id']
    exact hgroup
  | groupEnd => exact h.popGroup
  | groupMatch v =>
    have hfold : d.applyItem gr resolve inGroup lineno (.groupMatch v) = { d with clientRules := _ } :=
      Draft.foldl_pushClientRule _ v.clients d
    exact h.of_same (by rw [hfold]) (by rw [hfold]) (by rw [hfold]) (by rw [hfold])
  | nftSet v =>
    obtain rfl := htop rfl
    refine ⟨h.stack, h.groups, ?_, h.ipsets⟩
    show (d.nftsets ++ [v]).map (·.domain) = s.nftsets ++ [v.domain]
    rw [List.map_append, h.nftsets]
    rfl
  | ipSet v =>
    obtain rfl := htop rfl
    refine ⟨h.stack, h.groups, h.nftsets, ?_⟩
    show (d.ipsets ++ [v]).map (·.domain) = s.ipsets ++ [v.domain]
    rw [List.map_append, h.ipsets]
    rfl
  | _ => exact h.of_same rfl rfl rfl rfl

/-- A line that is ignored in a group's block is none of those that count. -/
theorem read_of_not_allowed {item : ConfigItem S} (h : item.allowedInRuleGroup = false) : s.read true item = s := by
  cases item <;> first | rfl | cases h

theorem openDefault_of_inRuleGroup (h : Shows d s) (hin : Draft.inRuleGroup d.ruleGroupStack = true) :
    s.openDefault = s := by
  unfold Blocks.openDefault
  rw [h.stack] at hin
  cases hopened : s.opened with
  | nil =>
    rw [hopened] at hin
    cases hin
  | cons b opened => rfl

theorem configUnchecked (h : Shows d s) (gr : Grammar S G) (resolve : Path → Path) (line : List UInt8)
    (lineno : Option ℕ) (base : Option Path) (files : Files) :
    Shows (d.configUnchecked gr resolve line lineno) (s.apply gr (.read line lineno base files)) := by
  have hin : Draft.inRuleGroup d.ruleGroupStack = decide (1 < s.opened.length) := by
    unfold Draft.inRuleGroup
    rw [h.stack, List.length_map]
  unfold Draft.configUnchecked
  rw [Blocks.apply_read]
  cases gr.parseConfig line with
  | none => exact h.openDefault
  | some item =>
    have hignored (hgroup : Draft.inRuleGroup d.ruleGroupStack = true) (hnot : item.allowedInRuleGroup = false) :
        Shows d (s.openDefault.read (decide (1 < s.opened.length)) item) := by
      rw [← hin, hgroup, read_of_not_allowed hnot, h.openDefault_of_inRuleGroup hgroup]
      exact h
    simp only
    split
    · rename_i hby
      obtain ⟨hgroup, hby⟩ := Bool.and_eq_true_iff.mp hby
      exact hignored hgroup (ConfigItem.allowed_of_supported hby)
    · split
      · rename_i hnot
        obtain ⟨hgroup, hnot⟩ := Bool.and_eq_true_iff.mp hnot
        exact hignored hgroup (by simpa using hnot)
      · rename_i hnot
        rw [← hin]
        refine h.openDefault.applyItem gr resolve lineno fun hgroup => ?_
        simpa [hgroup] using hnot

theorem apply (h : Shows d s) (gr : Grammar S G) (fs : FileSystem) (l : FlatLine) :
    Shows (l.apply gr fs d) (s.apply gr l) := by
  cases l with
  | enters group => exact h.pushGroup group {}
  | leaves => exact h.popGroup
  | read line lineno base files =>
    show Shows (d.configLine gr (files.resolveFilepath fs) line lineno) _
    unfold Draft.configLine
    cases gr.detectBrokenProxyCredential line with
    | none => exact h.configUnchecked gr _ line lineno base files
    | some detail =>
      have hfatal : Shows (d.pushFatal lineno detail) s := h.of_same rfl rfl rfl rfl
      exact hfatal.configUnchecked gr _ line lineno base files

theorem readText (gr : Grammar S G) (fs : FileSystem) : ∀ (t : List FlatLine) {d : Draft G} {s : Blocks}, Shows d s →
    Shows (readText gr fs d t) (t.foldl (fun s l => s.apply gr l) s)
  | [], _, _, h => h
  | l :: t, _, _, h => readText gr fs t (h.apply gr fs l)

/-- Closing the groups that are open is closing their blocks. -/
theorem closeGroups (h : Shows d s) : Shows (closeGroups d) { s with closed := s.all, opened := [] } := by
  have hfold : ∀ (bs : List Block) {d : Draft G} {s : Blocks}, Shows d s →
      Shows ((bs.map fun b => (b.name, b.content)).foldl (fun d g => d.mergeGroup g.1 g.2) d)
        { s with closed := s.closed ++ bs } := by
    intro bs
    induction bs with
    | nil =>
      intro d s h
      simpa using h
    | cons b bs ih =>
      intro d s h
      have hrest := ih (h.mergeGroup b)
      rw [List.append_assoc] at hrest
      exact hrest
  unfold Config.closeGroups Blocks.all
  rw [h.stack, ← List.map_reverse]
  have hnone : Shows { d with ruleGroupStack := [] } { s with opened := [] } := ⟨rfl, h.groups, h.nftsets, h.ipsets⟩
  exact hfold s.opened.reverse hnone

end Shows

/-! ### The configuration that is built -/

/-- What is built of a text that has no fatal errors. -/
def built (gr : Grammar S G) (fs : FileSystem) (settings : G) (t : List FlatLine) : Draft G :=
  closeGroups (readText gr fs { settings } t)

section

variable (gr : Grammar S G) (fs : FileSystem) (settings : G) (t : List FlatLine)

theorem shows_built :
    Shows (built gr fs settings t) { readBlocks gr t with closed := (readBlocks gr t).all, opened := [] } := by
  have hempty : Shows ({ settings } : Draft G) {} := ⟨rfl, fun _ => rfl, rfl, rfl⟩
  exact (hempty.readText gr fs t).closeGroups

/-- **A group is what its blocks come to.** -/
theorem get?_built (group : String) :
    (built gr fs settings t).ruleGroups.get? group = together (blocksOf gr t group) :=
  (shows_built gr fs settings t).groups group

end

end Config
end SmartDns
