/-
# The groups that are open

The names of the groups on the stack, and what a line does to them: only `group-begin` and
`group-end` lines and the marks around a file that goes into a group open or close any. A
line finds at least the group `default` open (`Draft.scope`). A text that closes only groups
it has opened leaves those around it alone (`names_readText`).

Key definitions: `Draft.names`, `Draft.scope`, `FlatLine.mark`.
Key theorems: `names_apply`, `names_readText`.
-/
import SmartDns.Config.Includes
import SmartDns.Lib.Nesting

namespace SmartDns
namespace Config

open Lib (KeyMap)
open Lib.Nesting Server

variable {S G : Type}

/-! ### The names of the open groups -/

namespace Draft

variable (d : Draft G)

/-- The innermost group comes first. -/
def names : List String := d.ruleGroupStack.map (·.1)

/-- The groups as a line finds them; `default` is open from the first line on. -/
def scope : List String := d.openDefault.names

theorem scope_eq : d.scope = if d.names = [] then [defaultGroup] else d.names := by
  unfold scope openDefault names
  cases h : d.ruleGroupStack with
  | nil => rfl
  | cons frame stack => simp [h]

theorem scope_ne_nil : d.scope ≠ [] := by
  rw [scope_eq]
  split
  · exact List.cons_ne_nil _ _
  · assumption

theorem scope_of_names {d : Draft G} (h : d.names ≠ []) : d.scope = d.names := by rw [scope_eq, if_neg h]

@[simp] theorem names_pushGroup (name : String) (g : RuleGroup) : (d.pushGroup name g).names = name :: d.names := rfl

@[simp] theorem names_popGroup : d.popGroup.names = d.names.tail := by
  unfold popGroup names
  cases h : d.ruleGroupStack <;> simp [mergeGroup, h]

@[simp] theorem names_mapTop (f : RuleGroup → RuleGroup) : (d.mapTop f).names = d.names := by
  unfold mapTop names
  cases h : d.ruleGroupStack <;> simp [h]

@[simp] theorem names_pushFatal (lineno : Option ℕ) (detail : String) : (d.pushFatal lineno detail).names = d.names :=
  rfl

@[simp] theorem names_setParam (inGroup : Bool) (lineno : Option ℕ) (p : ParamItem) :
    (d.setParam inGroup lineno p).names = d.names := by
  unfold setParam
  split
  · rfl
  · split
    · exact d.names_mapTop _
    · rfl

theorem foldl_pushClientRule {α : Type} (g : α → ClientRule) (as : List α) : ∀ d : Draft G,
    as.foldl (fun d a => d.pushClientRule (g a)) d = { d with clientRules := d.clientRules ++ as.map g } := by
  induction as with
  | nil =>
    intro d
    simp
  | cons a as ih =>
    intro d
    rw [List.foldl_cons, ih]
    simp [pushClientRule]

end Draft

/-- What an item does to the open groups. -/
def ConfigItem.mark : ConfigItem S → Mark String
  | .groupBegin v => .opens v.name
  | .groupEnd => .closes
  | _ => .neither

def FlatLine.mark (gr : Grammar S G) : FlatLine → Mark String
  | .read line _ _ _ => ((gr.parseConfig line).map ConfigItem.mark).getD .neither
  | .enters group => .opens group
  | .leaves => .closes

section

variable (gr : Grammar S G) (fs : FileSystem)

theorem Draft.names_applyItem (d : Draft G) (resolve : Path → Path) (inGroup : Bool) (lineno : Option ℕ)
    (item : ConfigItem S) : (d.applyItem gr resolve inGroup lineno item).names = step d.names item.mark := by
  cases item with
  | rule r => exact d.names_mapTop _
  | param p => exact d.names_setParam inGroup lineno p
  | groupEnd => exact d.names_popGroup
  | groupMatch v =>
    unfold Draft.names
    exact congrArg (fun d => d.ruleGroupStack.map (·.1)) (Draft.foldl_pushClientRule _ v.clients d)
  | _ => rfl

/-- An item that opens or closes a group is allowed in one. -/
theorem ConfigItem.mark_of_not_allowed {item : ConfigItem S} (h : item.allowedInRuleGroup = false) :
    item.mark = .neither := by
  cases item <;> first | rfl | cases h

theorem ConfigItem.allowed_of_supported {item : ConfigItem S} (h : item.notSupportedInRuleGroupByDesign.isSome = true) :
    item.allowedInRuleGroup = false := by
  cases item <;> first | rfl | cases h

/-- A line opens or closes groups in the scope it finds. -/
theorem names_read (d : Draft G) (line : List UInt8) (lineno : Option ℕ) (base : Option Path) (files : Files) :
    ((FlatLine.read line lineno base files).apply gr fs d).names =
      step d.scope ((FlatLine.read line lineno base files).mark gr) := by
  have hunchecked (d : Draft G) : (d.configUnchecked gr (files.resolveFilepath fs) line lineno).names =
      step d.scope ((FlatLine.read line lineno base files).mark gr) := by
    unfold Draft.configUnchecked
    show _ = step d.scope (((gr.parseConfig line).map ConfigItem.mark).getD .neither)
    cases hitem : gr.parseConfig line with
    | none => rfl
    | some item =>
      -- A line that is ignored is in a group's block.
      have hignored (h : Draft.inRuleGroup d.ruleGroupStack = true) (hm : item.mark = .neither) :
          d.names = step d.scope item.mark := by
        have hne : d.names ≠ [] := by
          unfold Draft.names
          intro hnil
          rw [List.map_eq_nil_iff] at hnil
          rw [hnil] at h
          cases h
        rw [hm, Draft.scope_of_names hne]
        rfl
      simp only [Option.map_some, Option.getD_some]
      split
      · rename_i h
        obtain ⟨hin, hby⟩ := Bool.and_eq_true_iff.mp h
        exact hignored hin (ConfigItem.mark_of_not_allowed (ConfigItem.allowed_of_supported hby))
      · split
        · rename_i h
          obtain ⟨hin, hnot⟩ := Bool.and_eq_true_iff.mp h
          exact hignored hin (ConfigItem.mark_of_not_allowed (by simpa using hnot))
        · exact Draft.names_applyItem gr d.openDefault _ _ lineno item
  show (d.configLine gr (files.resolveFilepath fs) line lineno).names = _
  unfold Draft.configLine
  cases gr.detectBrokenProxyCredential line with
  | none => exact hunchecked d
  | some detail =>
    have hscope : (d.pushFatal lineno detail).scope = d.scope := by rw [Draft.scope_eq, Draft.scope_eq, d.names_pushFatal]
    exact hscope ▸ hunchecked (d.pushFatal lineno detail)

theorem names_apply (d : Draft G) (l : FlatLine) (h : d.names ≠ []) :
    (l.apply gr fs d).names = step d.names (l.mark gr) := by
  cases l with
  | read line lineno base files => rw [names_read, Draft.scope_of_names h]
  | enters group => rfl
  | leaves => exact d.names_popGroup

/-- **A text reads over the groups around it** as it does alone, while it closes its own only. -/
theorem names_readText {base : List String} (hbase : base ≠ []) : ∀ (t : List FlatLine) (d : Draft G) (own : List String),
    d.names = own ++ base → Inside own (t.map (FlatLine.mark gr)) →
    (readText gr fs d t).names = run own (t.map (FlatLine.mark gr)) ++ base
  | [], d, own, h, _ => h
  | l :: t, d, own, h, hin => by
    have hne : d.names ≠ [] := by simp [h, hbase]
    rw [readText_cons, List.map_cons, run_cons]
    apply names_readText hbase t _ _ ?_ hin.2
    rw [names_apply gr fs d l hne, h, step_append_base hin.1]

end

end Config
end SmartDns
