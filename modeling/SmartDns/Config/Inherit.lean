/-
# What `-inherit default` takes over

While a configuration is read, the group `default` stands in several places: the table of
closed groups, the frame of the lines at top level, and the blocks of the group that are
open. `group-begin X -inherit default` looks at one of them: the table, if a block of the
group has been closed, or else the outermost of its frames. What stands in the others is
passed over, and the new frame is the default group as far as it has been seen exactly if
that adds nothing (`inherit_default_iff`): no rule that is not in the place looked at, and
no parameter that has no value there.

The parameters at top level are the configuration's own and no group's.

Key definitions: `DefaultRule`, `TakesOverDefault`, `Blocks.lookedAt`,
`Blocks.passedOver`, `AddsNothing`.
Key theorems: `taken_is_written`, `defaultRule_iff_written`, `inherit_default_iff`.
-/
import SmartDns.Config.LastWins

namespace SmartDns
namespace Config

open Dns Lib Rule Server

variable {S G : Type}

/-! ### The rules of a group -/

theorem has_write (g : RuleGroup) (e : Entry) (r : RuleItem) : (g.write e).Has r ↔ g.Has r ∨ e = .rule r := by
  cases e with
  | rule r' =>
    show (g.push r').Has r ↔ _
    rw [RuleGroup.has_push, Entry.rule.injEq, eq_comm]
  | param p => cases r <;> simp [RuleGroup.Has, RuleGroup.write]

/-- A block has what it took over and what its lines write. -/
theorem has_content (b : Block) (r : RuleItem) : b.content.Has r ↔ b.taken.Has r ∨ .rule r ∈ b.entries := by
  obtain ⟨name, taken, entries⟩ := b
  induction entries using List.reverseRecOn with
  | nil => simp [Block.content]
  | append_singleton es e ih =>
    have hcontent : (Block.mk name taken (es ++ [e])).content = (Block.mk name taken es).content.write e :=
      Block.content_add ⟨name, taken, es⟩ e
    rw [hcontent, has_write, ih, List.mem_append, List.mem_singleton, or_assoc, @eq_comm _ e]

theorem has_together (bs : List Block) (r : RuleItem) :
    ((together bs).getD {}).Has r ↔ ∃ b ∈ bs, b.content.Has r := by
  induction bs using List.reverseRecOn with
  | nil => simpa [together] using RuleGroup.not_has_default r
  | append_singleton bs b ih =>
    rw [together_concat, Option.getD_some, RuleGroup.has_merge, ih]
    simp [or_and_right, exists_or]

/-! ### The default group so far -/

/-- The rules of the default group: those that lines at top level or in its blocks write, and those
that a block of it has taken over from elsewhere. -/
def DefaultRule (gr : Grammar S G) (t : List FlatLine) (r : RuleItem) : Prop :=
  .rule r ∈ writtenIn gr t Draft.defaultGroup ∨ ∃ b ∈ blocksOf gr t Draft.defaultGroup, b.taken.Has r

/-- The group is the default group as the text leaves it; a parameter has the value it would have
if the configuration ended there. -/
structure IsDefaultGroup (gr : Grammar S G) (t : List FlatLine) (g : RuleGroup) : Prop where
  rules : ∀ r, g.Has r ↔ DefaultRule gr t r
  params : ∀ {α : Type} (f : ParamField α), f.get g.params = f.inBlocks (blocksOf gr t Draft.defaultGroup)

/-- After the text the line opens `group`, and what the group has then is the default group. -/
def TakesOverDefault (gr : Grammar S G) (fs : FileSystem) (settings : G) (t : List FlatLine) (l : FlatLine)
    (group : String) : Prop :=
  ∃ frame outer, (readText gr fs { settings } (t ++ [l])).ruleGroupStack = (group, frame) :: outer ∧
    IsDefaultGroup gr t frame

theorem defaultRule_iff (gr : Grammar S G) (t : List FlatLine) (r : RuleItem) :
    DefaultRule gr t r ↔ ∃ b ∈ blocksOf gr t Draft.defaultGroup, b.content.Has r := by
  unfold DefaultRule
  rw [← (blocks_perm_written gr t Draft.defaultGroup).mem_iff, List.mem_flatMap]
  simp only [has_content, and_or_left, exists_or]
  exact or_comm

/-! ### Where the line looks -/

namespace Blocks

variable (s : Blocks)

/-- The open frames of the default group, the outermost first. -/
def openDefaults : List Block := s.opened.reverse.filter (·.name == Draft.defaultGroup)

/-- A block that has been closed is looked at, or else the outermost frame. -/
def lookedAt : List Block :=
  if s.ofGroup Draft.defaultGroup = [] then s.openDefaults.take 1 else s.ofGroup Draft.defaultGroup

def passedOver : List Block :=
  if s.ofGroup Draft.defaultGroup = [] then s.openDefaults.drop 1 else s.openDefaults

theorem lookedAt_append_passedOver :
    s.lookedAt ++ s.passedOver = s.all.filter (·.name == Draft.defaultGroup) := by
  have hall : s.all.filter (·.name == Draft.defaultGroup) = s.ofGroup Draft.defaultGroup ++ s.openDefaults :=
    List.filter_append s.closed s.opened.reverse
  rw [hall]
  unfold lookedAt passedOver
  by_cases hclosed : s.ofGroup Draft.defaultGroup = []
  · rw [if_pos hclosed, if_pos hclosed, hclosed, List.take_append_drop, List.nil_append]
  · rw [if_neg hclosed, if_neg hclosed]

/-- **What `-inherit default` takes over** is what stands where it looks. -/
theorem inherited_default (group : String) :
    (s.inherited { name := group, inherit := some "default" }) = together s.lookedAt := by
  show (together (s.ofGroup Draft.defaultGroup)).or
    ((s.opened.reverse.find? (·.name == Draft.defaultGroup)).map (·.content)) = _
  unfold lookedAt
  by_cases hclosed : s.ofGroup Draft.defaultGroup = []
  · rw [if_pos hclosed, hclosed, together, Option.none_or]
    unfold openDefaults
    rw [← List.head?_filter]
    cases s.opened.reverse.filter (·.name == Draft.defaultGroup) <;> rfl
  · rw [if_neg hclosed]
    cases hblocks : s.ofGroup Draft.defaultGroup with
    | nil => exact absurd hblocks hclosed
    | cons b bs => rfl

/-- The frame that the line itself would open is empty. -/
theorem together_lookedAt_openDefault :
    (together s.openDefault.lookedAt).getD {} = (together s.lookedAt).getD {} := by
  unfold openDefault
  cases hopened : s.opened with
  | cons b opened => rfl
  | nil =>
    unfold lookedAt openDefaults ofGroup
    simp only [hopened]
    by_cases hclosed : s.closed.filter (·.name == Draft.defaultGroup) = []
    · rw [if_pos hclosed, if_pos hclosed]
      rfl
    · rw [if_neg hclosed, if_neg hclosed]

end Blocks

/-- The block has no rule and no parameter that none of the others has. -/
structure AddsNothing (b : Block) (bs : List Block) : Prop where
  rules : ∀ r, b.content.Has r → ∃ b' ∈ bs, b'.content.Has r
  params : ∀ {α : Type} (f : ParamField α), (f.inBlock b).isSome = true → ∃ b' ∈ bs, (f.inBlock b').isSome = true

theorem isSome_inBlocks {α : Type} (f : ParamField α) (bs : List Block) :
    (f.inBlocks bs).isSome = true ↔ ∃ b ∈ bs, (f.inBlock b).isSome = true := by
  unfold ParamField.inBlocks
  rw [List.findSome?_isSome_iff]

/-- Blocks put together are the default group if the others of the group add nothing, and only then. -/
theorem isDefaultGroup_iff {gr : Grammar S G} {t : List FlatLine} {bs bs' : List Block}
    (hblocks : blocksOf gr t Draft.defaultGroup = bs ++ bs') :
    IsDefaultGroup gr t ((together bs).getD {}) ↔ ∀ b ∈ bs', AddsNothing b bs := by
  have hparams {α : Type} (f : ParamField α) : f.get ((together bs).getD {}).params = f.inBlocks bs := by
    rw [← f.get_together]
    cases together bs <;> rfl
  have hrules (r : RuleItem) : DefaultRule gr t r ↔
      (∃ b ∈ bs, b.content.Has r) ∨ ∃ b ∈ bs', b.content.Has r := by
    rw [defaultRule_iff, hblocks]
    simp [or_and_right, exists_or]
  have hvalues {α : Type} (f : ParamField α) : f.inBlocks (blocksOf gr t Draft.defaultGroup) =
      (f.inBlocks bs).or (f.inBlocks bs') := by
    rw [hblocks]
    exact List.findSome?_append
  constructor
  · intro h b hb
    refine ⟨fun r hr => ?_, fun f hf => ?_⟩
    · exact (has_together bs r).mp ((h.rules r).mpr ((hrules r).mpr (.inr ⟨b, hb, hr⟩)))
    · have heq := h.params f
      rw [hparams, hvalues] at heq
      have hsome := (isSome_inBlocks f bs').mpr ⟨b, hb, hf⟩
      refine (isSome_inBlocks f bs).mp ?_
      rw [heq, Option.isSome_or, hsome, Bool.or_true]
  · intro h
    refine ⟨fun r => ?_, fun f => ?_⟩
    · rw [has_together, hrules]
      refine ⟨.inl, fun hr => ?_⟩
      rcases hr with hr | ⟨b, hb, hr⟩
      · exact hr
      · exact (h b hb).rules r hr
    · rw [hparams, hvalues]
      cases hlooked : f.inBlocks bs with
      | some v => rfl
      | none =>
        rw [Option.none_or, eq_comm, ← Option.not_isSome_iff_eq_none, isSome_inBlocks]
        rintro ⟨b, hb, hf⟩
        have hsome := (isSome_inBlocks f bs).mpr ((h b hb).params f hf)
        rw [hlooked] at hsome
        cases hsome

/-! ### Nothing is taken over that no line has written -/

/-- Every rule of a block is written by some line. -/
def Blocks.Sourced (s : Blocks) : Prop :=
  ∀ b ∈ s.closed ++ s.opened, ∀ r, b.content.Has r → ∃ name, (name, Entry.rule r) ∈ s.written

theorem exists_of_has_inherited (s : Blocks) (v : GroupBegin) (r : RuleItem)
    (h : ((s.inherited v).getD {}).Has r) : ∃ b ∈ s.closed ++ s.opened, b.content.Has r := by
  have htogether (name : String) (h : ((together (s.ofGroup name)).getD {}).Has r) :
      ∃ b ∈ s.closed ++ s.opened, b.content.Has r := by
    obtain ⟨b, hb, hr⟩ := (has_together _ r).mp h
    exact ⟨b, List.mem_append_left _ (List.mem_filter.mp hb).1, hr⟩
  unfold Blocks.inherited at h
  split at h
  · exact absurd h (RuleGroup.not_has_default r)
  · exact absurd h (RuleGroup.not_has_default r)
  · cases hopened : s.opened with
    | nil =>
      rw [hopened] at h
      exact absurd h (RuleGroup.not_has_default r)
    | cons b opened =>
      rw [hopened] at h
      exact ⟨b, List.mem_append_right _ List.mem_cons_self, h⟩
  · cases hclosed : together (s.ofGroup Draft.defaultGroup) with
    | some g =>
      rw [hclosed] at h
      refine htogether Draft.defaultGroup ?_
      rw [hclosed]
      exact h
    | none =>
      rw [hclosed, Option.none_or] at h
      cases hfind : s.opened.reverse.find? (·.name == Draft.defaultGroup) with
      | none =>
        rw [hfind] at h
        exact absurd h (RuleGroup.not_has_default r)
      | some b =>
        rw [hfind] at h
        exact ⟨b, List.mem_append_right _ (List.mem_reverse.mp (List.mem_of_find?_eq_some hfind)), h⟩
  · exact htogether _ h

namespace Blocks.Sourced

variable {s : Blocks}

theorem openDefault (h : s.Sourced) : s.openDefault.Sourced := by
  unfold Blocks.openDefault
  split
  · intro b hb r hr
    rcases List.mem_append.mp hb with hb | hb
    · exact h b (List.mem_append_left _ hb) r hr
    · obtain rfl := List.mem_singleton.mp hb
      exact absurd hr (RuleGroup.not_has_default r)
  · exact h

theorem push (h : s.Sourced) (name : String) {taken : RuleGroup}
    (htaken : ∀ r, taken.Has r → ∃ name, (name, Entry.rule r) ∈ s.written) : (s.push name taken).Sourced := by
  intro b hb r hr
  rcases List.mem_append.mp hb with hb | hb
  · exact h b (List.mem_append_left _ hb) r hr
  · rcases List.mem_cons.mp hb with rfl | hb
    · exact htaken r hr
    · exact h b (List.mem_append_right _ hb) r hr

theorem close (h : s.Sourced) : s.close.Sourced := by
  unfold Blocks.close
  split
  · exact h
  · rename_i b opened hopened
    unfold Blocks.Sourced at h ⊢
    rwa [hopened, List.append_cons] at h

theorem write (h : s.Sourced) (e : Entry) : (s.write e).Sourced := by
  unfold Blocks.write
  split
  · exact h
  · rename_i b opened hopened
    have hold : ∀ b' ∈ s.closed ++ s.opened, ∀ r, b'.content.Has r →
        ∃ name, (name, Entry.rule r) ∈ s.written ++ [(b.name, e)] := by
      intro b' hb' r hr
      obtain ⟨name, hmem⟩ := h b' hb' r hr
      exact ⟨name, List.mem_append_left _ hmem⟩
    rw [hopened] at hold
    intro b' hb' r hr
    rcases List.mem_append.mp hb' with hb' | hb'
    · exact hold b' (List.mem_append_left _ hb') r hr
    · rcases List.mem_cons.mp hb' with rfl | hb'
      · rw [Block.content_add, has_write] at hr
        rcases hr with hr | rfl
        · exact hold b (List.mem_append_right _ List.mem_cons_self) r hr
        · exact ⟨b.name, List.mem_append_right _ (List.mem_singleton_self _)⟩
      · exact hold b' (List.mem_append_right _ (List.mem_cons_of_mem b hb')) r hr

theorem read (h : s.Sourced) (inGroup : Bool) (item : ConfigItem S) : (s.read inGroup item).Sourced := by
  cases item with
  | rule r => exact h.write (.rule r)
  | param p =>
    rw [Blocks.read_param]
    cases p.refusal with
    | some detail => exact h
    | none =>
      by_cases hin : inGroup = true
      · simp only [if_pos hin]
        exact h.write (.param p)
      · simp only [if_neg hin]
        exact h
  | groupBegin v =>
    refine h.push v.name fun r hr => ?_
    obtain ⟨b, hb, hr⟩ := exists_of_has_inherited s v r hr
    exact h b hb r hr
  | groupEnd => exact h.close
  | nftSet v => cases inGroup <;> exact h
  | ipSet v => cases inGroup <;> exact h
  | _ => exact h

theorem apply (h : s.Sourced) (gr : Grammar S G) (l : FlatLine) : (s.apply gr l).Sourced := by
  cases l with
  | enters group => exact h.push group fun r hr => absurd hr (RuleGroup.not_has_default r)
  | leaves => exact h.close
  | read line lineno base files =>
    rw [Blocks.apply_read]
    cases gr.parseConfig line with
    | none => exact h.openDefault
    | some item => exact h.openDefault.read _ item

end Blocks.Sourced

/-- **What a block takes over, some line of the text has written.** -/
theorem taken_is_written (gr : Grammar S G) (t : List FlatLine) : (readBlocks gr t).Sourced := by
  unfold readBlocks
  induction t using List.reverseRecOn with
  | nil =>
    intro b hb
    cases hb
  | append_singleton t l ih =>
    rw [List.foldl_concat]
    exact ih.apply gr l

/-- Where only lines of the default group write, its rules are those lines'. -/
theorem defaultRule_iff_written {gr : Grammar S G} {t : List FlatLine}
    (h : ∀ e ∈ (readBlocks gr t).written, e.1 = Draft.defaultGroup) (r : RuleItem) :
    DefaultRule gr t r ↔ .rule r ∈ writtenIn gr t Draft.defaultGroup := by
  refine ⟨fun hr => ?_, .inl⟩
  obtain ⟨b, hb, hr⟩ := (defaultRule_iff gr t r).mp hr
  obtain ⟨name, hwritten⟩ := taken_is_written gr t b (mem_of_mem_blocksOf hb) r hr
  refine List.mem_map.mpr ⟨(name, .rule r), List.mem_filter.mpr ⟨hwritten, ?_⟩, rfl⟩
  simpa using h _ hwritten

/-! ### The line -/

section

variable {gr : Grammar S G} (fs : FileSystem) (settings : G) (t : List FlatLine) {line : List UInt8}
  (lineno : Option ℕ) (base : Option Path) (files : Files) {group : String}

/-- The frame the line opens holds what it takes over. -/
theorem ruleGroupStack_of_inherit
    (hline : gr.parseConfig line = some (.groupBegin { name := group, inherit := some "default" })) :
    ∃ outer, (readText gr fs { settings } (t ++ [.read line lineno base files])).ruleGroupStack =
      (group, (together (readBlocks gr t).lookedAt).getD {}) :: outer := by
  have hempty : Shows ({ settings } : Draft G) {} := ⟨rfl, fun _ => rfl, rfl, rfl⟩
  have hstack := (hempty.readText gr fs (t ++ [.read line lineno base files])).stack
  rw [List.foldl_concat, Blocks.apply_read, hline] at hstack
  have htaken := congrArg (Option.getD · {}) ((readBlocks gr t).openDefault.inherited_default group)
  rw [Blocks.together_lookedAt_openDefault] at htaken
  refine ⟨((readBlocks gr t).openDefault.opened).map fun b => (b.name, b.content), ?_⟩
  rw [hstack, ← htaken]
  rfl

/-- **`-inherit default` takes over the default group exactly if what it passes over adds nothing.** -/
theorem inherit_default_iff
    (hline : gr.parseConfig line = some (.groupBegin { name := group, inherit := some "default" })) :
    TakesOverDefault gr fs settings t (.read line lineno base files) group ↔
      ∀ b ∈ (readBlocks gr t).passedOver, AddsNothing b (readBlocks gr t).lookedAt := by
  obtain ⟨outer, hstack⟩ := ruleGroupStack_of_inherit fs settings t lineno base files hline
  rw [← isDefaultGroup_iff (readBlocks gr t).lookedAt_append_passedOver.symm]
  constructor
  · rintro ⟨frame, outer', hframe, h⟩
    rw [hstack, List.cons.injEq, Prod.mk.injEq] at hframe
    rw [hframe.1.2]
    exact h
  · exact fun h => ⟨_, outer, hstack, h⟩

end

/-! ### A block that hides the top level -/

/-- Lines of one letter: `a` and `b` are address rules for the sets `printers` and `phones`, `d` is
`group-begin default`, `e` is `group-end` and `o` is `group-begin office -inherit default`. -/
def inheritLines : Grammar Unit Unit where
  parseConfig line :=
    if line = [97] then some (.rule (.address ⟨.set "printers", .soa⟩))
    else if line = [98] then some (.rule (.address ⟨.set "phones", .soa⟩))
    else if line = [100] then some (.groupBegin { name := "default" })
    else if line = [101] then some .groupEnd
    else if line = [111] then some (.groupBegin { name := "office", inherit := some "default" })
    else none
  detectBrokenProxyCredential _ := none
  assign _ _ g := g

/-- The rule for the printers at top level, and again in a closed block of the default group. -/
def printersTwice : List FlatLine :=
  [.read [97] (some 1) none {}, .read [100] (some 2) none {}, .read [97] (some 3) none {}, .read [101] (some 4) none {}]

/-- The top level is passed over, and adds nothing. -/
theorem inherit_default_iff_printersTwice : (readBlocks inheritLines printersTwice).passedOver ≠ [] ∧
    TakesOverDefault inheritLines (twoFiles [] []) () printersTwice (.read [111] (some 5) none {}) "office" := by
  have hline : inheritLines.parseConfig [111] =
      some (.groupBegin { name := "office", inherit := some "default" }) := rfl
  let printers : List Entry := [.rule (.address ⟨.set "printers", .soa⟩)]
  have hpassed : (readBlocks inheritLines printersTwice).passedOver = [{ name := "default", entries := printers }] := rfl
  have hlooked : (readBlocks inheritLines printersTwice).lookedAt = [{ name := "default", entries := printers }] := rfl
  refine ⟨hpassed ▸ List.cons_ne_nil _ _, ?_⟩
  refine (inherit_default_iff (twoFiles [] []) () _ (some 5) none {} hline).mpr ?_
  rw [hpassed, hlooked]
  intro b hb
  obtain rfl := List.mem_singleton.mp hb
  exact ⟨fun r hr => ⟨_, List.mem_singleton_self _, hr⟩, fun f hf => ⟨_, List.mem_singleton_self _, hf⟩⟩

/-- **A closed block of the default group hides the lines at top level.** -/
theorem closed_default_hides_top : ¬ TakesOverDefault inheritLines (twoFiles [] []) ()
    [.read [97] (some 1) none {}, .read [100] (some 2) none {}, .read [98] (some 3) none {},
      .read [101] (some 4) none {}] (.read [111] (some 5) none {}) "office" := by
  rintro ⟨frame, outer, hstack, h⟩
  have hread : ([("office", { addressRules := [⟨.set "phones", .soa⟩] }),
      ("default", { addressRules := [⟨.set "printers", .soa⟩] })] : List (String × RuleGroup)) =
      ("office", frame) :: outer := hstack
  have hframe := (Prod.mk.inj (List.cons.inj hread).1).2
  have hprinters := (h.rules (.address ⟨.set "printers", .soa⟩)).mpr (.inl List.mem_cons_self)
  rw [← hframe] at hprinters
  have hprinters : (⟨.set "printers", .soa⟩ : AddressRule) ∈ [(⟨.set "phones", .soa⟩ : AddressRule)] := hprinters
  simp at hprinters

end Config
end SmartDns
