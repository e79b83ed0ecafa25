/-
# What a line changes

A line that opens and closes no group, includes no file and is not refused changes each part of
the draft by itself (`Change`), in a way that depends on the group it stands in alone. Lines that write
different lists and fields change different parts, so that they can be exchanged, up to the
address sets, for which an `ip-set` line looks at the proxies (`Change.configLine_comm`).

Key definitions: `Slot`, `Independent`, `Change`.
Key theorems: `Change.on_comm`, `Change.apart_ofItem`, `Change.configLine_comm`.
-/
import SmartDns.Config.Fetched

namespace SmartDns
namespace Config

open Dns Lib Server
open Rule hiding IpAddr

/-! ### Lines that do not meet -/

/-- What a line writes, in whatever group it stands: rules or parameters of one kind, a list or a field. -/
inductive Slot
  | rule (kind : ℕ)
  | param (kind : ℕ)
  | clientRules
  | nftsets
  | ipsets
  | serveExpiredTtl
  | serveExpiredPrefetchTime
  | setting (f : Field)

section

variable {R : Type}

def ConfigItem.slots (env : Environment) (confFile : Option Path) : ConfigItem (SettingItem R) → List Slot
  | .rule r => [.rule r.ctorIdx]
  | .param p => [.param p.ctorIdx]
  | .clientRule _ | .groupMatch _ => [.clientRules]
  | .nftSet _ => [.nftsets]
  | .ipSet _ => [.ipsets]
  | .serveExpiredTtl _ => [.serveExpiredTtl]
  | .serveExpiredPrefetchTime _ => [.serveExpiredPrefetchTime]
  | .shared v | .other v => (v.fields env confFile).map .setting
  | .confFile _ | .groupBegin _ | .groupEnd => []

/-- The line opens and closes no group and includes no file. -/
def ConfigItem.plain : ConfigItem (SettingItem R) → Bool
  | .confFile _ | .groupBegin _ | .groupEnd => false
  | _ => true

/-- Neither line opens or closes a group or includes a file, and they write different things. -/
structure Independent (rd : ConfigReader R) (a b : List UInt8) : Prop where
  left : ∀ x, rd.grammar.parseConfig a = some x → x.plain = true
  right : ∀ y, rd.grammar.parseConfig b = some y → y.plain = true
  apart : ∀ x y, rd.grammar.parseConfig a = some x → rd.grammar.parseConfig b = some y →
    ∀ s ∈ x.slots rd.env rd.confFile, s ∉ y.slots rd.env rd.confFile

/-! ### Changes part by part -/

theorem ParamItem.set_comm {p q : ParamItem} (h : p.ctorIdx ≠ q.ctorIdx) (g : GroupParams) :
    q.set (p.set g) = p.set (q.set g) := by
  cases p <;> cases q <;> first | rfl | exact absurd rfl h

theorem RuleGroup.push_comm {r q : RuleItem} (h : r.ctorIdx ≠ q.ctorIdx) (g : RuleGroup) :
    (g.push r).push q = (g.push q).push r := by
  cases r <;> cases q <;> first | rfl | exact absurd rfl h

/-- What a line does to each part of the draft; `group` is the innermost one. -/
structure Change (R : Type) where
  settings : Settings R → Settings R := id
  params : GroupParams → GroupParams := id
  serveExpiredTtl : Option UInt64 → Option UInt64 := id
  serveExpiredPrefetchTime : Option UInt64 → Option UInt64 := id
  nftsets : List (ConfigForDomain (List (ConfigForIP NFTsetConfig))) →
    List (ConfigForDomain (List (ConfigForIP NFTsetConfig))) := id
  ipsets : List (ConfigForDomain (List (ConfigForIP IpsetConfig))) →
    List (ConfigForDomain (List (ConfigForIP IpsetConfig))) := id
  clientRules : List ClientRule → List ClientRule := id
  group : RuleGroup → RuleGroup := id

namespace Change

def on (c : Change R) (d : Draft (Settings R)) : Draft (Settings R) where
  settings := c.settings d.settings
  params := c.params d.params
  serveExpiredTtl := c.serveExpiredTtl d.serveExpiredTtl
  serveExpiredPrefetchTime := c.serveExpiredPrefetchTime d.serveExpiredPrefetchTime
  nftsets := c.nftsets d.nftsets
  ipsets := c.ipsets d.ipsets
  clientRules := c.clientRules d.clientRules
  ruleGroups := d.ruleGroups
  ruleGroupStack := d.ruleGroupStack.modifyHead fun e => (e.1, c.group e.2)
  fatalErrors := d.fatalErrors

/-- Two changes of which each leaves to the other what it changes, the address sets apart. -/
structure Apart (c c' : Change R) : Prop where
  settings : ∀ s f, f ≠ .ipSets → c'.settings (c.settings s) f = c.settings (c'.settings s) f
  params : Function.Commute c'.params c.params
  serveExpiredTtl : Function.Commute c'.serveExpiredTtl c.serveExpiredTtl
  serveExpiredPrefetchTime : Function.Commute c'.serveExpiredPrefetchTime c.serveExpiredPrefetchTime
  nftsets : Function.Commute c'.nftsets c.nftsets
  ipsets : Function.Commute c'.ipsets c.ipsets
  clientRules : Function.Commute c'.clientRules c.clientRules
  group : Function.Commute c'.group c.group

/-- **Changes of different parts can be exchanged**, up to the address sets. -/
theorem on_comm {c c' : Change R} (h : Apart c c') (d : Draft (Settings R)) (sets : String → Option (List IpNet)) :
    ConfigReader.withSets (c'.on (c.on d)) sets = ConfigReader.withSets (c.on (c'.on d)) sets := by
  have hsettings : Function.update (c'.settings (c.settings d.settings)) Field.ipSets sets =
      Function.update (c.settings (c'.settings d.settings)) Field.ipSets sets := by
    funext f
    by_cases hf : f = .ipSets
    · subst hf
      rw [Function.update_self, Function.update_self]
    · rw [Function.update_of_ne hf, Function.update_of_ne hf, h.settings _ _ hf]
  have hstack : (d.ruleGroupStack.modifyHead fun e => (e.1, c.group e.2)).modifyHead (fun e => (e.1, c'.group e.2)) =
      (d.ruleGroupStack.modifyHead fun e => (e.1, c'.group e.2)).modifyHead fun e => (e.1, c.group e.2) := by
    cases d.ruleGroupStack with
    | nil => rfl
    | cons e stack => exact congrArg (fun g => (e.1, g) :: stack) (h.group e.2)
  unfold ConfigReader.withSets Draft.mapSettings on
  simp only [hsettings, hstack, h.params.eq, h.serveExpiredTtl.eq, h.serveExpiredPrefetchTime.eq, h.nftsets.eq,
    h.ipsets.eq, h.clientRules.eq]

variable (rd : ConfigReader R) (resolve : Path → Path) (inGroup : Bool) (current : String)

/-- What an item changes, in a group of this name. -/
def ofItem : ConfigItem (SettingItem R) → Change R
  | .rule r => { group := fun g => g.push r }
  | .param p =>
    if inGroup then { group := fun g => { g with params := p.set g.params } }
    else { params := fun params => p.set params }
  | .groupMatch v =>
    { clientRules := fun rules => rules ++ v.clients.map fun client => ⟨client, v.group.getD current⟩ }
  | .clientRule r =>
    { clientRules := fun rules => rules ++ [if r.group.isEmpty then { r with group := current } else r] }
  | .nftSet v => { nftsets := fun sets => sets ++ [v] }
  | .ipSet v => { ipsets := fun sets => sets ++ [v] }
  | .serveExpiredTtl v => { serveExpiredTtl := fun _ => some v }
  | .serveExpiredPrefetchTime v => { serveExpiredPrefetchTime := fun _ => some v }
  | .shared v | .other v => { settings := rd.grammar.assign v resolve }
  | .confFile _ | .groupBegin _ | .groupEnd => {}

theorem on_default (d : Draft (Settings R)) : ({} : Change R).on d = d := by
  obtain ⟨_, _, _, _, _, _, _, _, stack, _⟩ := d
  cases stack with
  | nil => rfl
  | cons _ _ => rfl

/-- **A plain item that is not refused is its change.** -/
theorem applyItem_eq_on {item : ConfigItem (SettingItem R)} (hplain : item.plain = true)
    (hok : ∀ p, item = .param p → p.refusal = none) (lineno : Option ℕ) (d : Draft (Settings R)) :
    d.applyItem rd.grammar resolve inGroup lineno item = (ofItem rd resolve inGroup d.currentGroup item).on d := by
  cases item with
  | groupMatch v =>
    refine (Draft.foldl_pushClientRule _ v.clients d).trans ?_
    obtain ⟨_, _, _, _, _, _, _, _, stack, _⟩ := d
    cases stack with
    | nil => rfl
    | cons _ _ => rfl
  | param p =>
    show d.setParam inGroup lineno p = _
    unfold Draft.setParam
    rw [hok p rfl]
    obtain ⟨_, _, _, _, _, _, _, _, stack, _⟩ := d
    cases inGroup with
    | true =>
      cases stack with
      | nil => rfl
      | cons _ _ => rfl
    | false =>
      cases stack with
      | nil => rfl
      | cons _ _ => rfl
  | confFile v => cases hplain
  | groupBegin v => cases hplain
  | groupEnd => cases hplain
  | _ =>
    obtain ⟨_, _, _, _, _, _, _, _, stack, _⟩ := d
    cases stack with
    | nil => rfl
    | cons _ _ => rfl

section

variable {x y : ConfigItem (SettingItem R)}
  (h : ∀ s ∈ x.slots rd.env rd.confFile, s ∉ y.slots rd.env rd.confFile)

include h

/-- What two items write in the settings they can write in either order, up to the address sets, which
depend on the proxies. -/
theorem settings_comm (s : Settings R) {f : Field} (hf : f ≠ .ipSets) :
    (ofItem rd resolve inGroup current y).settings ((ofItem rd resolve inGroup current x).settings s) f =
      (ofItem rd resolve inGroup current x).settings ((ofItem rd resolve inGroup current y).settings s) f := by
  have hassign (v w : SettingItem R) (hfields : ∀ f ∈ v.fields rd.env rd.confFile, f ∉ w.fields rd.env rd.confFile) :
      rd.grammar.assign w resolve (rd.grammar.assign v resolve s) f =
        rd.grammar.assign v resolve (rd.grammar.assign w resolve s) f := by
    have hwrites (u : SettingItem R) (s : Settings R) : rd.grammar.assign u resolve s f =
        onFields (u.writes rd.env rd.confFile resolve KeyMap.empty) f (s f) :=
      congrFun (SettingItem.onFields_congr rd.env rd.confFile resolve _ u KeyMap.empty hf) (s f)
    rw [hwrites, hwrites, hwrites, hwrites]
    apply onFields_comm
    rw [SettingItem.map_field_writes, SettingItem.map_field_writes]
    by_cases hv : f ∈ v.fields rd.env rd.confFile
    · exact .inr (hfields f hv)
    · exact .inl hv
  have hslots {v w : SettingItem R} (hx : x.slots rd.env rd.confFile = (v.fields rd.env rd.confFile).map .setting)
      (hy : y.slots rd.env rd.confFile = (w.fields rd.env rd.confFile).map .setting) :
      ∀ f ∈ v.fields rd.env rd.confFile, f ∉ w.fields rd.env rd.confFile := by
    intro f hv hw
    exact h (.setting f) (hx ▸ List.mem_map_of_mem hv) (hy ▸ List.mem_map_of_mem hw)
  cases x with
  | shared v =>
    cases y with
    | shared w => exact hassign v w (hslots rfl rfl)
    | other w => exact hassign v w (hslots rfl rfl)
    | param p => cases inGroup <;> rfl
    | _ => rfl
  | other v =>
    cases y with
    | shared w => exact hassign v w (hslots rfl rfl)
    | other w => exact hassign v w (hslots rfl rfl)
    | param p => cases inGroup <;> rfl
    | _ => rfl
  | param p =>
    cases inGroup with
    | true => rfl
    | false => rfl
  | _ => rfl

theorem params_comm : Function.Commute (ofItem rd resolve inGroup current y).params
    (ofItem rd resolve inGroup current x).params := by
  cases x with
  | param p =>
    cases y with
    | param q =>
      cases inGroup with
      | true => exact Function.Commute.id_left
      | false =>
        have hne : p.ctorIdx ≠ q.ctorIdx := fun heq =>
          h (.param p.ctorIdx) List.mem_cons_self (heq ▸ List.mem_cons_self)
        exact fun params => p.set_comm hne params
    | _ => exact Function.Commute.id_left
  | _ => exact Function.Commute.id_right

theorem group_comm : Function.Commute (ofItem rd resolve inGroup current y).group
    (ofItem rd resolve inGroup current x).group := by
  cases x with
  | rule r =>
    cases y with
    | rule q =>
      have hne : r.ctorIdx ≠ q.ctorIdx := fun heq =>
        h (.rule r.ctorIdx) List.mem_cons_self (heq ▸ List.mem_cons_self)
      exact fun g => RuleGroup.push_comm hne g
    | param q =>
      cases inGroup with
      | true => exact fun g => by cases r <;> rfl
      | false => exact Function.Commute.id_left
    | _ => exact Function.Commute.id_left
  | param p =>
    cases y with
    | rule r =>
      cases inGroup with
      | true => exact fun g => by cases r <;> rfl
      | false => exact Function.Commute.id_right
    | param q =>
      cases inGroup with
      | true =>
        have hne : p.ctorIdx ≠ q.ctorIdx := fun heq =>
          h (.param p.ctorIdx) List.mem_cons_self (heq ▸ List.mem_cons_self)
        exact fun g => congrArg (fun params => { g with params }) (p.set_comm hne g.params)
      | false => exact Function.Commute.id_left
    | _ => exact Function.Commute.id_left
  | _ => exact Function.Commute.id_right

/-- A part that one slot stands for. -/
theorem commute_of_slot {α : Type} (part : Change R → α → α) (slot : Slot)
    (hpart : ∀ item, slot ∉ item.slots rd.env rd.confFile → part (ofItem rd resolve inGroup current item) = id) :
    Function.Commute (part (ofItem rd resolve inGroup current y)) (part (ofItem rd resolve inGroup current x)) := by
  by_cases hx : slot ∈ x.slots rd.env rd.confFile
  · rw [hpart y (h slot hx)]
    exact Function.Commute.id_left
  · rw [hpart x hx]
    exact Function.Commute.id_right

/-- **Items that write different things change different parts.** -/
theorem apart_ofItem : Apart (ofItem rd resolve inGroup current x) (ofItem rd resolve inGroup current y) where
  settings s _ hf := settings_comm rd resolve inGroup current h s hf
  params := params_comm rd resolve inGroup current h
  group := group_comm rd resolve inGroup current h
  serveExpiredTtl := commute_of_slot rd resolve inGroup current h (·.serveExpiredTtl) .serveExpiredTtl fun item hs => by
    cases item with
    | serveExpiredTtl v => exact absurd List.mem_cons_self hs
    | param p => cases inGroup <;> rfl
    | _ => rfl
  serveExpiredPrefetchTime := commute_of_slot rd resolve inGroup current h (·.serveExpiredPrefetchTime)
    .serveExpiredPrefetchTime fun item hs => by
      cases item with
      | serveExpiredPrefetchTime v => exact absurd List.mem_cons_self hs
      | param p => cases inGroup <;> rfl
      | _ => rfl
  nftsets := commute_of_slot rd resolve inGroup current h (·.nftsets) .nftsets fun item hs => by
    cases item with
    | nftSet v => exact absurd List.mem_cons_self hs
    | param p => cases inGroup <;> rfl
    | _ => rfl
  ipsets := commute_of_slot rd resolve inGroup current h (·.ipsets) .ipsets fun item hs => by
    cases item with
    | ipSet v => exact absurd List.mem_cons_self hs
    | param p => cases inGroup <;> rfl
    | _ => rfl
  clientRules := commute_of_slot rd resolve inGroup current h (·.clientRules) .clientRules fun item hs => by
    cases item with
    | clientRule v => exact absurd List.mem_cons_self hs
    | groupMatch v => exact absurd List.mem_cons_self hs
    | param p => cases inGroup <;> rfl
    | _ => rfl

end

theorem apart_default_left (c : Change R) : Apart {} c where
  settings _ _ _ := rfl
  params := Function.Commute.id_right
  serveExpiredTtl := Function.Commute.id_right
  serveExpiredPrefetchTime := Function.Commute.id_right
  nftsets := Function.Commute.id_right
  ipsets := Function.Commute.id_right
  clientRules := Function.Commute.id_right
  group := Function.Commute.id_right

theorem apart_default_right (c : Change R) : Apart c {} where
  settings _ _ _ := rfl
  params := Function.Commute.id_left
  serveExpiredTtl := Function.Commute.id_left
  serveExpiredPrefetchTime := Function.Commute.id_left
  nftsets := Function.Commute.id_left
  ipsets := Function.Commute.id_left
  clientRules := Function.Commute.id_left
  group := Function.Commute.id_left

/-! ### Lines -/

/-- What a line changes. -/
def ofLine (line : List UInt8) : Change R :=
  match rd.grammar.parseConfig line with
  | some item =>
    if inGroup && (item.notSupportedInRuleGroupByDesign.isSome || !item.allowedInRuleGroup) then {}
    else ofItem rd resolve inGroup current item
  | none => {}

theorem apart_ofLine {a b : List UInt8} (h : Independent rd a b) :
    Apart (ofLine rd resolve inGroup current a) (ofLine rd resolve inGroup current b) := by
  unfold ofLine
  cases ha : rd.grammar.parseConfig a with
  | none => exact apart_default_left _
  | some x =>
    cases hb : rd.grammar.parseConfig b with
    | none => exact apart_default_right _
    | some y =>
      simp only
      split
      · exact apart_default_left _
      · split
        · exact apart_default_right _
        · exact apart_ofItem rd resolve inGroup current (h.apart x y ha hb)

theorem configLine_eq_on {line : List UInt8} {lineno : Option ℕ} {base : Option Path} {files : Files}
    (hplain : ∀ item, rd.grammar.parseConfig line = some item → item.plain = true)
    (hok : ¬ (FlatLine.read line lineno base files).Refused rd.grammar) (d : Draft (Settings R)) :
    d.configLine rd.grammar resolve line lineno =
      (ofLine rd resolve (Draft.inRuleGroup d.ruleGroupStack) d.currentGroup line).on d.openDefault := by
  obtain ⟨hcredential, hparam⟩ := not_or.mp hok
  have hnoted : d.noted rd.grammar line lineno = d := by
    unfold Draft.noted
    rw [Option.not_isSome_iff_eq_none.mp hcredential]
  show (d.noted rd.grammar line lineno).configUnchecked rd.grammar resolve line lineno = _
  rw [hnoted]
  unfold Draft.configUnchecked ofLine
  cases hitem : rd.grammar.parseConfig line with
  | none => exact (on_default _).symm
  | some item =>
    have hrefusal : ∀ p, item = .param p → p.refusal = none := fun p hp =>
      Option.not_isSome_iff_eq_none.mp fun hsome => hparam ⟨p, hp ▸ hitem, hsome⟩
    have hcurrent : d.openDefault.currentGroup = d.currentGroup := by
      obtain ⟨_, _, _, _, _, _, _, _, stack, _⟩ := d
      cases stack with
      | nil => rfl
      | cons _ _ => rfl
    have happlied := applyItem_eq_on rd resolve (Draft.inRuleGroup d.ruleGroupStack) (hplain item hitem) hrefusal lineno
      d.openDefault
    rw [hcurrent] at happlied
    by_cases hignored : (Draft.inRuleGroup d.ruleGroupStack &&
        (item.notSupportedInRuleGroupByDesign.isSome || !item.allowedInRuleGroup)) = true
    · -- The line is ignored in a group's block, where the group `default` is open.
      have hopen : d.openDefault = d := by
        obtain ⟨_, _, _, _, _, _, _, _, stack, _⟩ := d
        cases stack with
        | nil => cases hignored
        | cons _ _ => rfl
      simp only [if_pos hignored]
      rw [hopen, on_default]
      rw [Bool.and_or_distrib_left, Bool.or_eq_true] at hignored
      rcases hignored with h | h
      · rw [if_pos h]
      · rw [if_pos h, ite_self]
    · simp only [if_neg hignored]
      rw [Bool.and_or_distrib_left, Bool.or_eq_true, not_or] at hignored
      rw [if_neg hignored.1, if_neg hignored.2]
      exact happlied

/-- A change opens and closes nothing. -/
theorem shape_on (c : Change R) (d : Draft (Settings R)) :
    (c.on d.openDefault).openDefault = c.on d.openDefault ∧
      Draft.inRuleGroup (c.on d.openDefault).ruleGroupStack = Draft.inRuleGroup d.ruleGroupStack ∧
      (c.on d.openDefault).currentGroup = d.currentGroup := by
  obtain ⟨_, _, _, _, _, _, _, _, stack, _⟩ := d
  cases stack with
  | nil => exact ⟨rfl, rfl, rfl⟩
  | cons _ _ => exact ⟨rfl, rfl, rfl⟩

/-- **Independent lines that are not refused can be exchanged**, up to the address sets. -/
theorem configLine_comm {a b : List UInt8} (h : Independent rd a b) {n m n' m' : Option ℕ} {base : Option Path}
    {files : Files} (ha : ¬ (FlatLine.read a n base files).Refused rd.grammar)
    (hb : ¬ (FlatLine.read b m base files).Refused rd.grammar) (d : Draft (Settings R))
    (sets : String → Option (List IpNet)) :
    ConfigReader.withSets ((d.configLine rd.grammar resolve a n).configLine rd.grammar resolve b m) sets =
      ConfigReader.withSets ((d.configLine rd.grammar resolve b n').configLine rd.grammar resolve a m') sets := by
  have hline {line line' : List UInt8} {i j : Option ℕ}
      (hplain : ∀ item, rd.grammar.parseConfig line = some item → item.plain = true)
      (hplain' : ∀ item, rd.grammar.parseConfig line' = some item → item.plain = true)
      (hok : ¬ (FlatLine.read line i base files).Refused rd.grammar)
      (hok' : ¬ (FlatLine.read line' j base files).Refused rd.grammar) :
      (d.configLine rd.grammar resolve line i).configLine rd.grammar resolve line' j =
        (ofLine rd resolve (Draft.inRuleGroup d.ruleGroupStack) d.currentGroup line').on
          ((ofLine rd resolve (Draft.inRuleGroup d.ruleGroupStack) d.currentGroup line).on d.openDefault) := by
    rw [configLine_eq_on rd resolve hplain hok d, configLine_eq_on rd resolve hplain' hok']
    obtain ⟨hopen, hgroup, hcurrent⟩ :=
      shape_on (ofLine rd resolve (Draft.inRuleGroup d.ruleGroupStack) d.currentGroup line) d
    rw [hopen, hgroup, hcurrent]
  rw [hline h.left h.right ha hb, hline (i := n') (j := m') h.right h.left hb ha]
  exact on_comm (apart_ofLine rd resolve _ _ h) _ sets

end Change

end

end Config
end SmartDns
