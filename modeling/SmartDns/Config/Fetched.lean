/-
# The lists that are fetched

An `ip-set` line fetches its list when it is read, over the proxy it names if a `proxy-server`
line has made it known by then, and directly if not. Nothing else that is read looks at the
address sets: reading a text adds to them the lists that came (`listsOf`), and does the same
else whatever they are (`read_withSets`).

A text with a fatal error is one with a line that has one (`fatalErrors_readText`).

Key definitions: `ConfigReader.gives`, `ConfigReader.listsOf`, `withSets`, `FlatLine.Refused`.
Key theorems: `ConfigReader.read_withSets`, `fatalErrors_readText`.
-/
import SmartDns.Config.Built
import SmartDns.Config.Scope

namespace SmartDns
namespace Config

open Dns Lib Server
open Rule hiding IpAddr

/-! ### The settings apart from the rest -/

/-- What the item writes that no rule group knows of. -/
def ConfigItem.setting? {S : Type} : ConfigItem S → Option S
  | .shared v | .other v => some v
  | _ => none

namespace Draft

section

variable {S G : Type} (f : G → G) (d : Draft G)

def mapSettings : Draft G := { d with settings := f d.settings }

theorem mapSettings_mapSettings (f' : G → G) : (d.mapSettings f).mapSettings f' = d.mapSettings (f' ∘ f) := rfl

theorem mapSettings_congr {f' : G → G} (h : f d.settings = f' d.settings) : d.mapSettings f = d.mapSettings f' := by
  unfold mapSettings
  rw [h]

/-- What does not look at the settings leaves them. -/
theorem settings_of_natural (step : Draft G → Draft G) (h : ∀ f, step (d.mapSettings f) = (step d).mapSettings f) :
    (step d).settings = d.settings := by
  have hself : d.mapSettings (fun _ => d.settings) = d := rfl
  have hstep := h fun _ => d.settings
  rw [hself] at hstep
  rw [hstep]
  rfl

theorem mapSettings_openDefault : (d.mapSettings f).openDefault = d.openDefault.mapSettings f := by
  obtain ⟨_, _, _, _, _, _, _, _, stack, _⟩ := d
  cases stack with
  | nil => rfl
  | cons _ _ => rfl

theorem mapSettings_popGroup : (d.mapSettings f).popGroup = d.popGroup.mapSettings f := by
  obtain ⟨_, _, _, _, _, _, _, _, stack, _⟩ := d
  cases stack with
  | nil => rfl
  | cons _ _ => rfl

theorem mapSettings_mapTop (g : RuleGroup → RuleGroup) : (d.mapSettings f).mapTop g = (d.mapTop g).mapSettings f := by
  obtain ⟨_, _, _, _, _, _, _, _, stack, _⟩ := d
  cases stack with
  | nil => rfl
  | cons _ _ => rfl

theorem mapSettings_setParam (inGroup : Bool) (lineno : Option ℕ) (p : ParamItem) :
    (d.mapSettings f).setParam inGroup lineno p = (d.setParam inGroup lineno p).mapSettings f := by
  unfold setParam
  cases p.refusal with
  | some detail => rfl
  | none =>
    cases inGroup with
    | true => exact d.mapSettings_mapTop f _
    | false => rfl

/-- A line that writes no setting does the same whatever the settings are. -/
theorem mapSettings_applyItem (gr : Grammar S G) (resolve : Path → Path) (inGroup : Bool) (lineno : Option ℕ)
    {item : ConfigItem S} (h : item.setting? = none) :
    (d.mapSettings f).applyItem gr resolve inGroup lineno item =
      (d.applyItem gr resolve inGroup lineno item).mapSettings f := by
  cases item with
  | rule r => exact d.mapSettings_mapTop f _
  | param p => exact d.mapSettings_setParam f inGroup lineno p
  | groupEnd => exact d.mapSettings_popGroup f
  | groupMatch v =>
    have hfold (d : Draft G) : d.applyItem gr resolve inGroup lineno (.groupMatch v) =
        { d with clientRules := d.clientRules ++ v.clients.map fun client => ⟨client, v.group.getD d.currentGroup⟩ } :=
      foldl_pushClientRule _ v.clients d
    rw [hfold, hfold]
    rfl
  | shared v => cases h
  | other v => cases h
  | _ => rfl

variable (gr : Grammar S G)

/-- The draft with what is wrong with the line on its list. -/
def noted (line : List UInt8) (lineno : Option ℕ) : Draft G :=
  match gr.detectBrokenProxyCredential line with
  | some detail => d.pushFatal lineno detail
  | none => d

theorem mapSettings_noted (line : List UInt8) (lineno : Option ℕ) :
    (d.mapSettings f).noted gr line lineno = (d.noted gr line lineno).mapSettings f := by
  unfold noted
  cases gr.detectBrokenProxyCredential line with
  | some detail => rfl
  | none => rfl

theorem ruleGroupStack_noted (line : List UInt8) (lineno : Option ℕ) :
    (d.noted gr line lineno).ruleGroupStack = d.ruleGroupStack := by
  unfold noted
  cases gr.detectBrokenProxyCredential line with
  | some detail => rfl
  | none => rfl

theorem settings_noted (line : List UInt8) (lineno : Option ℕ) : (d.noted gr line lineno).settings = d.settings := by
  unfold noted
  cases gr.detectBrokenProxyCredential line with
  | some detail => rfl
  | none => rfl

theorem settings_openDefault : d.openDefault.settings = d.settings := by
  unfold openDefault
  split <;> rfl

/-- A line without a setting. -/
theorem mapSettings_configLine {resolve : Path → Path} {line : List UInt8}
    (h : ∀ item, gr.parseConfig line = some item → item.setting? = none) (lineno : Option ℕ) :
    (d.mapSettings f).configLine gr resolve line lineno = (d.configLine gr resolve line lineno).mapSettings f := by
  show ((d.mapSettings f).noted gr line lineno).configUnchecked gr resolve line lineno =
    ((d.noted gr line lineno).configUnchecked gr resolve line lineno).mapSettings f
  rw [mapSettings_noted]
  generalize d.noted gr line lineno = d'
  unfold configUnchecked
  have hstack : (d'.mapSettings f).ruleGroupStack = d'.ruleGroupStack := rfl
  simp only [hstack]
  cases hitem : gr.parseConfig line with
  | none => exact d'.mapSettings_openDefault f
  | some item =>
    simp only
    rw [mapSettings_openDefault, mapSettings_applyItem f _ gr resolve _ lineno (h item hitem)]
    split
    · rfl
    · split <;> rfl

/-- A line with a setting, which may be ignored in a group's block. -/
theorem configLine_of_setting {resolve : Path → Path} {line : List UInt8} {item : ConfigItem S} {v : S}
    (hitem : gr.parseConfig line = some item) (hv : item.setting? = some v) (lineno : Option ℕ) :
    d.configLine gr resolve line lineno =
      if inRuleGroup d.ruleGroupStack && !item.allowedInRuleGroup then d.noted gr line lineno
      else (d.noted gr line lineno).openDefault.mapSettings (gr.assign v resolve) := by
  show (d.noted gr line lineno).configUnchecked gr resolve line lineno = _
  unfold configUnchecked
  rw [ruleGroupStack_noted, hitem]
  cases item with
  | shared w =>
    obtain rfl := Option.some.inj hv
    simp [ConfigItem.notSupportedInRuleGroupByDesign, ConfigItem.allowedInRuleGroup]
    rfl
  | other w =>
    obtain rfl := Option.some.inj hv
    simp [ConfigItem.notSupportedInRuleGroupByDesign, ConfigItem.allowedInRuleGroup]
    rfl
  | _ => cases hv

end

end Draft

/-! ### What the items write -/

namespace SettingItem

variable {R : Type} (env : Environment) (confFile : Option Path) (resolve : Path → Path)
  (proxies : KeyMap String ProxyConfig)

/-- The fields an item writes, whatever is known where it stands. -/
def fields (v : SettingItem R) : List Field := (v.writes env confFile id KeyMap.empty).map (·.field)

theorem map_field_writes (v : SettingItem R) :
    (v.writes env confFile resolve proxies).map (·.field) = v.fields env confFile := by
  cases v with
  | listener v =>
    show List.map _ (if v.enabled.getD true = true then [_] else []) =
      List.map _ (if v.enabled.getD true = true then [_] else [])
    by_cases henabled : v.enabled.getD true = true
    · rw [if_pos henabled, if_pos henabled]
      rfl
    · rw [if_neg henabled, if_neg henabled]
  | _ => rfl

/-- The items that write several fields or none. -/
theorem field_of_listener {v : BindAddrConfig R} {f : Field}
    (h : f ∈ ((listener v).writes env confFile resolve proxies).map (·.field)) : f = .binds := by
  change f ∈ List.map _ (if v.enabled.getD true = true then [_] else []) at h
  by_cases henabled : v.enabled.getD true = true
  · rw [if_pos henabled] at h
    exact List.mem_singleton.mp h
  · rw [if_neg henabled] at h
    cases h

theorem field_of_ipRules {v : IpRules} {f : Field}
    (h : f ∈ ((ipRules v : SettingItem R).writes env confFile resolve proxies).map (·.field)) :
    f ∈ [Field.blacklistIp, .whitelistIp, .bogusNxdomain, .ignoreIp, .ipAlias] := by
  simp only [writes, List.map_append, List.mem_append] at h
  rcases h with (((h | h) | h) | h) | h
  · split at h <;> simp_all
  · split at h <;> simp_all
  · split at h <;> simp_all
  · split at h <;> simp_all
  · split at h <;> simp_all

/-- The list an `ip-set` line brings where these proxies are known. -/
def gives : SettingItem R → List (String × List IpNet)
  | ipSetProvider v =>
    let p := v.withResolvedFile resolve
    ((getIpSet env proxies p).map fun nets => (p.name, nets)).toList
  | _ => []

/-- The proxies known behind the item. -/
def known : SettingItem R → KeyMap String ProxyConfig
  | proxyConfig v => proxies.insert v.name v.config
  | _ => proxies

theorem onFields_ipSets (v : SettingItem R) (sets : String → Option (List IpNet)) :
    onFields (v.writes env confFile resolve proxies) .ipSets sets = extendAll sets (v.gives env resolve proxies) := by
  cases v with
  | listener v =>
    rw [onFields_of_notMem (f := .ipSets) fun h => nomatch field_of_listener env confFile resolve proxies h]
    rfl
  | ipRules v =>
    rw [onFields_of_notMem (f := .ipSets) fun h => absurd (field_of_ipRules env confFile resolve proxies h) (by decide)]
    rfl
  | ipSetProvider v =>
    show extendSet _ (getIpSet env proxies (v.withResolvedFile resolve)) sets =
      extendAll sets ((getIpSet env proxies (v.withResolvedFile resolve)).map _).toList
    cases getIpSet env proxies (v.withResolvedFile resolve) with
    | none => rfl
    | some nets => rfl
  | _ => rfl

theorem onFields_proxyServers (v : SettingItem R) :
    onFields (v.writes env confFile resolve proxies) .proxyServers proxies = v.known proxies := by
  cases v with
  | listener v =>
    rw [onFields_of_notMem (f := .proxyServers) fun h => nomatch field_of_listener env confFile resolve proxies h]
    rfl
  | ipRules v =>
    rw [onFields_of_notMem (f := .proxyServers) fun h =>
      absurd (field_of_ipRules env confFile resolve proxies h) (by decide)]
    rfl
  | _ => rfl

/-- Only the address sets depend on the proxies that are known. -/
theorem onFields_congr (v : SettingItem R) (proxies' : KeyMap String ProxyConfig) {f : Field} (h : f ≠ .ipSets) :
    onFields (v.writes env confFile resolve proxies) f = onFields (v.writes env confFile resolve proxies') f := by
  cases v with
  | ipSetProvider v =>
    have hlast (w : Write (Field.Value R)) (hw : w.field = .ipSets) : w.onFields f = id :=
      Write.onFields_of_ne (hw ▸ h)
    simp only [writes, onFields]
    rw [hlast ⟨.ipSets, _⟩ rfl, hlast ⟨.ipSets, _⟩ rfl]
  | _ => rfl

theorem gives_of_not_shared {v : SettingItem R} (h : v.isShared = false) : v.gives env resolve proxies = [] := by
  cases v with
  | ipSetProvider v => cases h
  | _ => rfl

theorem known_of_not_shared {v : SettingItem R} (h : v.isShared = false) : v.known proxies = proxies := by
  cases v with
  | proxyConfig v => cases h
  | _ => rfl

end SettingItem

/-! ### The lists that come while a text is read -/

namespace ConfigReader

variable {R : Type} (rd : ConfigReader R)

/-- The setting of a line that a group's block may have too. -/
def sharedItem (line : List UInt8) : Option (SettingItem R) :=
  match rd.grammar.parseConfig line with
  | some (.shared v) => some v
  | _ => none

/-- The lists a line brings where these proxies are known. -/
def gives (proxies : KeyMap String ProxyConfig) : FlatLine → List (String × List IpNet)
  | .read line _ _ files => ((rd.sharedItem line).map (·.gives rd.env (files.resolveFilepath rd.fs) proxies)).getD []
  | _ => []

/-- The proxies known behind a line. -/
def known (proxies : KeyMap String ProxyConfig) : FlatLine → KeyMap String ProxyConfig
  | .read line _ _ _ => ((rd.sharedItem line).map (·.known proxies)).getD proxies
  | _ => proxies

/-- The lists that come, in order, each over the proxies known where its line stands. -/
def listsOf (proxies : KeyMap String ProxyConfig) : List FlatLine → List (String × List IpNet)
  | [] => []
  | l :: t => rd.gives proxies l ++ listsOf (rd.known proxies l) t

def knownAfter (proxies : KeyMap String ProxyConfig) (t : List FlatLine) : KeyMap String ProxyConfig :=
  t.foldl rd.known proxies

theorem listsOf_append (t t' : List FlatLine) : ∀ proxies,
    rd.listsOf proxies (t ++ t') = rd.listsOf proxies t ++ rd.listsOf (rd.knownAfter proxies t) t' := by
  induction t with
  | nil => intro proxies; rfl
  | cons l t ih =>
    intro proxies
    show rd.gives proxies l ++ rd.listsOf _ (t ++ t') = rd.gives proxies l ++ rd.listsOf _ t ++ _
    rw [ih, List.append_assoc]
    rfl

/-- A line with an item that a group's block cannot have. -/
theorem isShared_of_other {line : List UInt8} {v : SettingItem R} (h : rd.grammar.parseConfig line = some (.other v)) :
    v.isShared = false := by
  obtain ⟨item, -, hitem⟩ := Option.map_eq_some_iff.mp h
  have hsetting (w : SettingItem R) (hw : (if w.isShared then ConfigItem.shared w else .other w) = .other v) :
      v.isShared = false := by
    by_cases hshared : w.isShared = true
    · rw [if_pos hshared] at hw
      cases hw
    · rw [if_neg hshared] at hw
      cases hw
      exact Bool.eq_false_iff.mpr hshared
  cases item with
  | shared w => exact hsetting w hitem
  | other w => exact hsetting w hitem
  | _ => cases hitem

section

variable {line : List UInt8} {lineno : Option ℕ} {base : Option Path} {files : Files}
  {item : ConfigItem (SettingItem R)} {v : SettingItem R} (proxies : KeyMap String ProxyConfig)

theorem gives_read : rd.gives proxies (.read line lineno base files) =
    ((rd.sharedItem line).map (·.gives rd.env (files.resolveFilepath rd.fs) proxies)).getD [] := rfl

theorem known_read : rd.known proxies (.read line lineno base files) =
    ((rd.sharedItem line).map (·.known proxies)).getD proxies := rfl

theorem setting_cases (hitem : rd.grammar.parseConfig line = some item) (hv : item.setting? = some v) :
    item = .shared v ∧ rd.sharedItem line = some v ∨
      item = .other v ∧ rd.sharedItem line = none ∧ v.isShared = false := by
  unfold sharedItem
  rw [hitem]
  cases item with
  | shared w =>
    obtain rfl := Option.some.inj hv
    exact .inl ⟨rfl, rfl⟩
  | other w =>
    obtain rfl := Option.some.inj hv
    exact .inr ⟨rfl, rfl, rd.isShared_of_other hitem⟩
  | _ => cases hv

/-- The lines that bring lists or proxies are not ignored in a group's block. -/
theorem isShared_of_ignored (hitem : rd.grammar.parseConfig line = some item) (hv : item.setting? = some v)
    {inGroup : Bool} (h : (inGroup && !item.allowedInRuleGroup) = true) : v.isShared = false := by
  rcases rd.setting_cases hitem hv with ⟨rfl, -⟩ | ⟨-, -, hother⟩
  · simp [ConfigItem.allowedInRuleGroup] at h
  · exact hother

theorem sharedItem_eq_none (h : ∀ item, rd.grammar.parseConfig line = some item → item.setting? = none) :
    rd.sharedItem line = none := by
  unfold sharedItem
  split
  · rename_i hitem
    exact nomatch h _ hitem
  · rfl

/-- A line with a setting brings what its item does. -/
theorem gives_of_setting (hitem : rd.grammar.parseConfig line = some item) (hv : item.setting? = some v) :
    rd.gives proxies (.read line lineno base files) = v.gives rd.env (files.resolveFilepath rd.fs) proxies := by
  rcases rd.setting_cases hitem hv with ⟨-, hshared⟩ | ⟨-, hshared, hother⟩
  · rw [gives_read, hshared]
    rfl
  · rw [gives_read, hshared, SettingItem.gives_of_not_shared _ _ _ hother]
    rfl

theorem known_of_setting (hitem : rd.grammar.parseConfig line = some item) (hv : item.setting? = some v) :
    rd.known proxies (.read line lineno base files) = v.known proxies := by
  rcases rd.setting_cases hitem hv with ⟨-, hshared⟩ | ⟨-, hshared, hother⟩
  · rw [known_read, hshared]
    rfl
  · rw [known_read, hshared, SettingItem.known_of_not_shared _ hother]
    rfl

end

/-! ### Reading with other address sets -/

/-- The draft with these address sets. -/
def withSets (d : Draft (Settings R)) (sets : String → Option (List IpNet)) : Draft (Settings R) :=
  d.mapSettings fun s => Function.update s .ipSets sets

theorem withSets_self (d : Draft (Settings R)) : withSets d (d.settings .ipSets) = d := by
  have hsame : Function.update d.settings Field.ipSets (d.settings .ipSets) = d.settings :=
    Function.update_eq_self Field.ipSets d.settings
  calc withSets d (d.settings .ipSets)
      = d.mapSettings id := d.mapSettings_congr _ hsame
    _ = d := rfl

theorem withSets_withSets (d : Draft (Settings R)) (sets sets' : String → Option (List IpNet)) :
    withSets (withSets d sets) sets' = withSets d sets' := by
  unfold withSets
  rw [Draft.mapSettings_mapSettings]
  apply Draft.mapSettings_congr
  show Function.update (Function.update d.settings Field.ipSets sets) Field.ipSets sets' = _
  rw [Function.update_idem]

theorem ipSets_withSets (d : Draft (Settings R)) (sets : String → Option (List IpNet)) :
    (withSets d sets).settings .ipSets = sets := by
  show Function.update d.settings Field.ipSets sets Field.ipSets = sets
  rw [Function.update_self]

/-- The item adds its list to the sets, and else does not look at them. -/
theorem assign_update (v : SettingItem R) (resolve : Path → Path) (s : Settings R)
    (sets : String → Option (List IpNet)) :
    rd.grammar.assign v resolve (Function.update s .ipSets sets) =
      Function.update (rd.grammar.assign v resolve s) .ipSets
        (extendAll sets (v.gives rd.env resolve (s .proxyServers))) := by
  have hne : Field.proxyServers ≠ .ipSets := by decide
  have hproxies : Function.update s .ipSets sets .proxyServers = s .proxyServers :=
    Function.update_of_ne (a := Field.proxyServers) hne sets s
  show mapFields (onFields (v.writes rd.env rd.confFile resolve (Function.update s .ipSets sets .proxyServers))) _ = _
  rw [hproxies, mapFields_update, SettingItem.onFields_ipSets]
  rfl

theorem assign_proxyServers (v : SettingItem R) (resolve : Path → Path) (s : Settings R) :
    rd.grammar.assign v resolve s .proxyServers = v.known (s .proxyServers) :=
  SettingItem.onFields_proxyServers ..

variable (l : FlatLine) (d : Draft (Settings R)) (sets : String → Option (List IpNet))

/-- **A line adds the lists it brings to whatever sets there are, and does else the same.** -/
theorem apply_withSets : l.apply rd.grammar rd.fs (withSets d sets) =
    withSets (l.apply rd.grammar rd.fs d) (extendAll sets (rd.gives (d.settings .proxyServers) l)) := by
  cases l with
  | enters group => rfl
  | leaves => exact d.mapSettings_popGroup _
  | read line lineno base files =>
    show (withSets d sets).configLine rd.grammar (files.resolveFilepath rd.fs) line lineno =
      withSets (d.configLine rd.grammar (files.resolveFilepath rd.fs) line lineno) _
    by_cases hset : ∃ item v, rd.grammar.parseConfig line = some item ∧ item.setting? = some v
    · obtain ⟨item, v, hitem, hv⟩ := hset
      rw [Draft.configLine_of_setting _ _ hitem hv, Draft.configLine_of_setting _ _ hitem hv,
        rd.gives_of_setting _ hitem hv]
      have hstack : (withSets d sets).ruleGroupStack = d.ruleGroupStack := rfl
      have hnoted : (withSets d sets).noted rd.grammar line lineno = withSets (d.noted rd.grammar line lineno) sets :=
        Draft.mapSettings_noted ..
      rw [hstack, hnoted]
      have hsettings := d.settings_noted rd.grammar line lineno
      rw [← hsettings]
      generalize d.noted rd.grammar line lineno = d'
      by_cases hignored : (Draft.inRuleGroup d.ruleGroupStack && !item.allowedInRuleGroup) = true
      · rw [if_pos hignored, if_pos hignored,
          SettingItem.gives_of_not_shared _ _ _ (rd.isShared_of_ignored hitem hv hignored)]
        rfl
      · rw [if_neg hignored, if_neg hignored]
        have hopen : (withSets d' sets).openDefault = withSets d'.openDefault sets := d'.mapSettings_openDefault _
        rw [hopen, ← d'.settings_openDefault]
        generalize d'.openDefault = d''
        unfold withSets
        rw [Draft.mapSettings_mapSettings, Draft.mapSettings_mapSettings]
        apply Draft.mapSettings_congr
        exact rd.assign_update v (files.resolveFilepath rd.fs) d''.settings sets
    · have hnone : ∀ item, rd.grammar.parseConfig line = some item → item.setting? = none := fun item hitem =>
        Option.eq_none_iff_forall_ne_some.mpr fun v hv => hset ⟨item, v, hitem, hv⟩
      rw [gives_read, rd.sharedItem_eq_none hnone]
      exact Draft.mapSettings_configLine _ d _ hnone lineno

theorem proxyServers_apply :
    (l.apply rd.grammar rd.fs d).settings .proxyServers = rd.known (d.settings .proxyServers) l := by
  cases l with
  | enters group => rfl
  | leaves =>
    have hsame : d.popGroup.settings = d.settings := d.settings_of_natural _ fun f => d.mapSettings_popGroup f
    exact congrFun hsame Field.proxyServers
  | read line lineno base files =>
    show (d.configLine rd.grammar (files.resolveFilepath rd.fs) line lineno).settings .proxyServers = _
    by_cases hset : ∃ item v, rd.grammar.parseConfig line = some item ∧ item.setting? = some v
    · obtain ⟨item, v, hitem, hv⟩ := hset
      rw [Draft.configLine_of_setting _ _ hitem hv, rd.known_of_setting _ hitem hv]
      by_cases hignored : (Draft.inRuleGroup d.ruleGroupStack && !item.allowedInRuleGroup) = true
      · rw [if_pos hignored, Draft.settings_noted,
          SettingItem.known_of_not_shared _ (rd.isShared_of_ignored hitem hv hignored)]
      · rw [if_neg hignored]
        show rd.grammar.assign v _ (d.noted rd.grammar line lineno).openDefault.settings .proxyServers = _
        rw [assign_proxyServers, Draft.settings_openDefault, Draft.settings_noted]
    · have hnone : ∀ item, rd.grammar.parseConfig line = some item → item.setting? = none := fun item hitem =>
        Option.eq_none_iff_forall_ne_some.mpr fun v hv => hset ⟨item, v, hitem, hv⟩
      have hsame := d.settings_of_natural (fun d => d.configLine rd.grammar (files.resolveFilepath rd.fs) line lineno)
        fun f => d.mapSettings_configLine f rd.grammar hnone lineno
      rw [known_read, rd.sharedItem_eq_none hnone]
      exact congrFun hsame Field.proxyServers

/-- **Reading a text adds its lists to the sets, and does else the same.** -/
theorem read_withSets (t : List FlatLine) : ∀ (d : Draft (Settings R)) (sets : String → Option (List IpNet)),
    rd.read (withSets d sets) t =
      withSets (rd.read d t) (extendAll sets (rd.listsOf (d.settings .proxyServers) t)) := by
  induction t with
  | nil => intro d sets; rfl
  | cons l t ih =>
    intro d sets
    show rd.read (l.apply rd.grammar rd.fs (withSets d sets)) t = withSets (rd.read (l.apply rd.grammar rd.fs d) t) _
    rw [apply_withSets, ih, proxyServers_apply, ← extendAll_append]
    rfl

/-- The sets and the proxies once a text is read. -/
theorem ipSets_read (t : List FlatLine) (d : Draft (Settings R)) :
    (rd.read d t).settings .ipSets = extendAll (d.settings .ipSets) (rd.listsOf (d.settings .proxyServers) t) := by
  have h := rd.read_withSets t d (d.settings .ipSets)
  rw [withSets_self] at h
  rw [h, ipSets_withSets]

end ConfigReader

/-! ### Errors that keep the configuration from being built -/

section

variable {S G : Type} (gr : Grammar S G) (fs : FileSystem)

/-- The line has a proxy whose credentials are broken, or a DNS64 prefix of a wrong length. -/
def FlatLine.Refused : FlatLine → Prop
  | .read line _ _ _ => (gr.detectBrokenProxyCredential line).isSome = true ∨
    ∃ p, gr.parseConfig line = some (.param p) ∧ p.refusal.isSome = true
  | _ => False

variable (d : Draft G)

theorem Draft.fatalErrors_popGroup : d.popGroup.fatalErrors = d.fatalErrors := by
  unfold popGroup
  split <;> rfl

theorem Draft.fatalErrors_mapTop (g : RuleGroup → RuleGroup) : (d.mapTop g).fatalErrors = d.fatalErrors := by
  unfold mapTop
  split <;> rfl

theorem Draft.fatalErrors_openDefault : d.openDefault.fatalErrors = d.fatalErrors := by
  unfold openDefault
  split <;> rfl

theorem Draft.fatalErrors_pushFatal (lineno : Option ℕ) (detail : String) :
    (d.pushFatal lineno detail).fatalErrors ≠ [] :=
  List.append_ne_nil_of_right_ne_nil _ (List.cons_ne_nil _ _)

theorem Draft.fatalErrors_setParam (inGroup : Bool) (lineno : Option ℕ) (p : ParamItem) :
    (d.setParam inGroup lineno p).fatalErrors = [] ↔ d.fatalErrors = [] ∧ p.refusal.isSome = false := by
  unfold setParam
  cases p.refusal with
  | some detail => simp [d.fatalErrors_pushFatal lineno detail]
  | none =>
    cases inGroup with
    | true => simp [d.fatalErrors_mapTop]
    | false => simp

theorem Draft.fatalErrors_applyItem (resolve : Path → Path) (inGroup : Bool) (lineno : Option ℕ) (item : ConfigItem S) :
    (d.applyItem gr resolve inGroup lineno item).fatalErrors = [] ↔
      d.fatalErrors = [] ∧ ¬ ∃ p, item = .param p ∧ p.refusal.isSome = true := by
  cases item with
  | rule r => simp [Draft.applyItem, d.fatalErrors_mapTop]
  | param p => simp [Draft.applyItem, d.fatalErrors_setParam]
  | groupEnd => simp [Draft.applyItem, d.fatalErrors_popGroup]
  | groupMatch v =>
    have hfold : d.applyItem gr resolve inGroup lineno (.groupMatch v) = { d with clientRules := _ } :=
      Draft.foldl_pushClientRule _ v.clients d
    rw [hfold]
    simp
  | _ => simp [Draft.applyItem, groupBegin, pushGroup, pushClientRule]

theorem Draft.fatalErrors_noted (line : List UInt8) (lineno : Option ℕ) :
    (d.noted gr line lineno).fatalErrors = [] ↔
      d.fatalErrors = [] ∧ (gr.detectBrokenProxyCredential line).isSome = false := by
  unfold noted
  cases gr.detectBrokenProxyCredential line with
  | some detail => simp [d.fatalErrors_pushFatal lineno detail]
  | none => simp

theorem Draft.fatalErrors_configUnchecked (resolve : Path → Path) (line : List UInt8) (lineno : Option ℕ) :
    (d.configUnchecked gr resolve line lineno).fatalErrors = [] ↔
      d.fatalErrors = [] ∧ ¬ ∃ p, gr.parseConfig line = some (.param p) ∧ p.refusal.isSome = true := by
  unfold configUnchecked
  cases hitem : gr.parseConfig line with
  | none => simp [d.fatalErrors_openDefault]
  | some item =>
    have happly := d.openDefault.fatalErrors_applyItem gr resolve (inRuleGroup d.ruleGroupStack) lineno item
    rw [fatalErrors_openDefault] at happly
    -- A parameter is not ignored in a group's block.
    have hparam (h : ∃ p, item = .param p) : item.notSupportedInRuleGroupByDesign.isSome = false ∧
        item.allowedInRuleGroup = true := by
      obtain ⟨p, rfl⟩ := h
      exact ⟨rfl, rfl⟩
    by_cases h : ∃ p, item = .param p
    · simp only [(hparam h).1, (hparam h).2, Bool.and_false, Bool.not_true, Bool.false_eq_true, if_false]
      simpa using happly
    · have hno : ¬ ∃ p, some item = some (.param p) ∧ p.refusal.isSome = true := fun ⟨p, hp, _⟩ =>
        h ⟨p, Option.some.inj hp⟩
      have hno' : ¬ ∃ p, item = .param p ∧ p.refusal.isSome = true := fun ⟨p, hp, _⟩ => h ⟨p, hp⟩
      simp only [hno, hno', not_false_eq_true, and_true] at happly ⊢
      split
      · rfl
      · split
        · rfl
        · exact happly

variable (l : FlatLine)

theorem fatalErrors_apply : (l.apply gr fs d).fatalErrors = [] ↔ d.fatalErrors = [] ∧ ¬ l.Refused gr := by
  cases l with
  | enters group => simp [FlatLine.apply, FlatLine.Refused, Draft.pushGroup]
  | leaves => simp [FlatLine.apply, FlatLine.Refused, d.fatalErrors_popGroup]
  | read line lineno base files =>
    show ((d.noted gr line lineno).configUnchecked gr (files.resolveFilepath fs) line lineno).fatalErrors = [] ↔ _
    rw [Draft.fatalErrors_configUnchecked, Draft.fatalErrors_noted]
    simp [FlatLine.Refused, and_assoc]

/-- **A text has a fatal error exactly if a line has.** -/
theorem fatalErrors_readText (t : List FlatLine) : ∀ d : Draft G,
    (readText gr fs d t).fatalErrors = [] ↔ d.fatalErrors = [] ∧ ∀ l ∈ t, ¬ l.Refused gr := by
  induction t with
  | nil => intro d; simp
  | cons l t ih =>
    intro d
    rw [readText_cons, ih, fatalErrors_apply, List.forall_mem_cons, and_assoc]

end

end Config
end SmartDns
