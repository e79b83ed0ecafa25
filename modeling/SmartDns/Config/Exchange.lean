/-
# Neighbouring lines

Two neighbouring lines that open and close no group, include no file and write different
lists and fields can be exchanged, with one exception: an `ip-set` line and the `proxy-server`
line of the proxy its list is fetched over (`exchange_iff`). A `domain-set` line and a `server`
line only note the name of the proxy, which is looked for in the whole configuration.

Key definitions: `ListIndifferent`.
Key theorems: `built_eq_iff`, `exchange_iff`.
-/
import SmartDns.Config.Change

namespace SmartDns
namespace Config

open Dns Lib Server
open Rule hiding IpAddr

variable {R : Type}

/-! ### What an item brings and makes known -/

namespace SettingItem

variable (env : Environment) (confFile : Option Path)

/-- What writes no address set brings no list. -/
theorem gives_of_notMem {v : SettingItem R} (h : Field.ipSets ∉ v.fields env confFile) (resolve : Path → Path)
    (proxies : KeyMap String ProxyConfig) : v.gives env resolve proxies = [] := by
  cases v with
  | ipSetProvider v => exact absurd (List.mem_cons_of_mem _ List.mem_cons_self) h
  | _ => rfl

/-- What writes no proxy makes none known. -/
theorem known_of_notMem {v : SettingItem R} (h : Field.proxyServers ∉ v.fields env confFile)
    (proxies : KeyMap String ProxyConfig) : v.known proxies = proxies := by
  cases v with
  | proxyConfig v => exact absurd List.mem_cons_self h
  | _ => rfl

/-- An item brings at most one list, whatever is known. -/
theorem gives_eq_piece (v : SettingItem R) (resolve : Path → Path) : ∃ (k : String)
    (o : KeyMap String ProxyConfig → Option (List IpNet)),
    ∀ proxies, v.gives env resolve proxies = ((o proxies).map fun p => (k, p)).toList := by
  cases v with
  | ipSetProvider v => exact ⟨_, fun proxies => getIpSet env proxies (v.withResolvedFile resolve), fun _ => rfl⟩
  | _ => exact ⟨"", fun _ => none, fun _ => rfl⟩

end SettingItem

/-! ### What a line brings and makes known -/

namespace ConfigReader

variable (rd : ConfigReader R) {a b : List UInt8} {n m : Option ℕ} {base : Option Path} {files : Files}

theorem gives_eq_piece (l : FlatLine) : ∃ (k : String) (o : KeyMap String ProxyConfig → Option (List IpNet)),
    ∀ proxies, rd.gives proxies l = ((o proxies).map fun p => (k, p)).toList := by
  have hnone (h : ∀ proxies, rd.gives proxies l = []) : ∃ (k : String)
      (o : KeyMap String ProxyConfig → Option (List IpNet)),
      ∀ proxies, rd.gives proxies l = ((o proxies).map fun p => (k, p)).toList :=
    ⟨"", fun _ => none, fun proxies => h proxies⟩
  cases l with
  | enters group => exact hnone fun _ => rfl
  | leaves => exact hnone fun _ => rfl
  | read line lineno base files =>
    cases hitem : rd.sharedItem line with
    | none => exact hnone fun _ => by rw [gives_read, hitem, Option.map_none, Option.getD_none]
    | some v =>
      obtain ⟨k, o, ho⟩ := v.gives_eq_piece rd.env (files.resolveFilepath rd.fs)
      refine ⟨k, o, fun proxies => ?_⟩
      rw [gives_read, hitem, Option.map_some, Option.getD_some, ho]

theorem parseConfig_of_sharedItem {v : SettingItem R} (h : rd.sharedItem a = some v) :
    rd.grammar.parseConfig a = some (.shared v) := by
  unfold sharedItem at h
  split at h
  · rename_i hitem
    rw [hitem, Option.some.inj h]
  · cases h

/-- Of independent lines one at least does not write the field. -/
theorem notMem_fields (h : Independent rd a b) {v w : SettingItem R} (ha : rd.sharedItem a = some v)
    (hb : rd.sharedItem b = some w) (f : Field) :
    f ∉ v.fields rd.env rd.confFile ∨ f ∉ w.fields rd.env rd.confFile := by
  by_cases hv : f ∈ v.fields rd.env rd.confFile
  · right
    intro hw
    exact h.apart _ _ (rd.parseConfig_of_sharedItem ha) (rd.parseConfig_of_sharedItem hb) (.setting f)
      (List.mem_map_of_mem hv) (List.mem_map_of_mem hw)
  · exact .inl hv

/-- Of independent lines one at least brings no list. -/
theorem gives_or_gives (h : Independent rd a b) :
    (∀ proxies, rd.gives proxies (.read a n base files) = []) ∨
      ∀ proxies, rd.gives proxies (.read b m base files) = [] := by
  simp only [gives_read]
  cases ha : rd.sharedItem a with
  | none => exact .inl fun _ => rfl
  | some v =>
    cases hb : rd.sharedItem b with
    | none => exact .inr fun _ => rfl
    | some w =>
      rcases rd.notMem_fields h ha hb .ipSets with hv | hw
      · exact .inl (v.gives_of_notMem rd.env rd.confFile hv _)
      · exact .inr (w.gives_of_notMem rd.env rd.confFile hw _)

/-- Of independent lines one at least makes no proxy known. -/
theorem known_or_known (h : Independent rd a b) :
    (∀ proxies, rd.known proxies (.read a n base files) = proxies) ∨
      ∀ proxies, rd.known proxies (.read b m base files) = proxies := by
  simp only [known_read]
  cases ha : rd.sharedItem a with
  | none => exact .inl fun _ => rfl
  | some v =>
    cases hb : rd.sharedItem b with
    | none => exact .inr fun _ => rfl
    | some w =>
      rcases rd.notMem_fields h ha hb .proxyServers with hv | hw
      · exact .inl (v.known_of_notMem rd.env rd.confFile hv)
      · exact .inr (w.known_of_notMem rd.env rd.confFile hw)

end ConfigReader

/-! ### The address sets of two orders -/

section

variable (rd : ConfigReader R) (t t' : List FlatLine)

/-- Between these texts the line `b` brings the same list before the line `a` as behind it, or only
empty lists of a set that other lines make. -/
def ListIndifferent (a b : FlatLine) : Prop :=
  rd.gives (rd.knownAfter KeyMap.empty t) b = rd.gives (rd.known (rd.knownAfter KeyMap.empty t) a) b ∨
    ∀ e ∈ rd.gives (rd.knownAfter KeyMap.empty t) b ++ rd.gives (rd.known (rd.knownAfter KeyMap.empty t) a) b,
      e.2 = [] ∧ e.1 ∈ (rd.listsOf KeyMap.empty (t ++ a :: t')).map (·.1)

/-- The address sets that a text makes. -/
def setsOf (t : List FlatLine) : String → Option (List IpNet) := extendAll (fun _ => none) (rd.listsOf KeyMap.empty t)

variable {rd t t'} {a b : FlatLine}

theorem setsOf_pair (a b : FlatLine) : setsOf rd (t ++ a :: b :: t') = extendAll (fun _ => none)
    (rd.listsOf KeyMap.empty t ++ (rd.gives (rd.knownAfter KeyMap.empty t) a ++
      (rd.gives (rd.known (rd.knownAfter KeyMap.empty t) a) b ++
        rd.listsOf (rd.known (rd.known (rd.knownAfter KeyMap.empty t) a) b) t'))) := by
  unfold setsOf
  rw [rd.listsOf_append]
  rfl

theorem listIndifferent_of_gives (h : ∀ proxies, rd.gives proxies b = []) : ListIndifferent rd t t' a b := by
  left
  rw [h, h]

theorem listIndifferent_of_known (h : ∀ proxies, rd.known proxies a = proxies) : ListIndifferent rd t t' a b := by
  left
  rw [h]

/-- A line that brings no list before one that makes no proxy known. -/
theorem setsOf_exchange_of_gives (ha : ∀ proxies, rd.gives proxies a = [])
    (hb : ∀ proxies, rd.known proxies b = proxies) :
    setsOf rd (t ++ a :: b :: t') = setsOf rd (t ++ b :: a :: t') ↔ ListIndifferent rd t t' a b := by
  obtain ⟨k, o, ho⟩ := rd.gives_eq_piece b
  have hlists : rd.listsOf KeyMap.empty (t ++ a :: t') = rd.listsOf KeyMap.empty t ++
      rd.listsOf (rd.known (rd.knownAfter KeyMap.empty t) a) t' := by
    rw [rd.listsOf_append]
    show _ ++ (rd.gives _ a ++ _) = _
    rw [ha, List.nil_append]
  rw [setsOf_pair, setsOf_pair, ha, ha, hb, hb, List.nil_append, List.nil_append, ho, ho, eq_comm, extendAll_middle_iff]
  unfold ListIndifferent
  rw [hlists, ho, ho]
  constructor
  · rintro (h | h)
    · exact .inl (by rw [h])
    · exact .inr h
  · rintro (h | h)
    · left
      have hpiece := congrArg List.head? h
      rw [Option.head?_toList, Option.head?_toList] at hpiece
      exact Option.map_injective (fun p q hpq => congrArg Prod.snd hpq) hpiece
    · exact .inr h

/-- **Exchanged lines make the same address sets exactly if each brings the same list in both places.** -/
theorem setsOf_exchange (hgives : (∀ proxies, rd.gives proxies a = []) ∨ ∀ proxies, rd.gives proxies b = [])
    (hknown : (∀ proxies, rd.known proxies a = proxies) ∨ ∀ proxies, rd.known proxies b = proxies) :
    setsOf rd (t ++ a :: b :: t') = setsOf rd (t ++ b :: a :: t') ↔
      ListIndifferent rd t t' a b ∧ ListIndifferent rd t t' b a := by
  rcases hgives with hgives | hgives
  · have hback : ListIndifferent rd t t' b a := listIndifferent_of_gives hgives
    rcases hknown with hknown | hknown
    · have hfront : ListIndifferent rd t t' a b := listIndifferent_of_known hknown
      refine iff_of_true ?_ ⟨hfront, hback⟩
      rw [setsOf_pair, setsOf_pair, hgives, hgives, hknown, hknown, List.nil_append, List.nil_append]
    · rw [setsOf_exchange_of_gives hgives hknown, and_iff_left hback]
  · have hfront : ListIndifferent rd t t' a b := listIndifferent_of_gives hgives
    rcases hknown with hknown | hknown
    · rw [eq_comm, setsOf_exchange_of_gives hgives hknown, and_iff_right hfront]
    · have hback : ListIndifferent rd t t' b a := listIndifferent_of_known hknown
      refine iff_of_true ?_ ⟨hfront, hback⟩
      rw [setsOf_pair, setsOf_pair, hgives, hgives, hknown, hknown, List.nil_append, List.nil_append]

end

/-! ### The built configurations of two orders -/

section

variable (rd : ConfigReader R)

/-- The draft that reading begins with. -/
abbrev emptyDraft (R : Type) : Draft (Settings R) := { settings := Settings.new R }

theorem settings_closeGroups (d : Draft (Settings R)) : (closeGroups d).settings = d.settings := by
  have hfold (gs : List (String × RuleGroup)) : ∀ d : Draft (Settings R),
      (gs.foldl (fun d g => d.mergeGroup g.1 g.2) d).settings = d.settings := by
    induction gs with
    | nil => intro d; rfl
    | cons g gs ih => intro d; exact ih (d.mergeGroup g.1 g.2)
  exact hfold _ _

variable {rd}

theorem ipSets_of_read (t : List FlatLine) : (rd.read (emptyDraft R) t).settings .ipSets = setsOf rd t :=
  rd.ipSets_read t (emptyDraft R)

/-- What two drafts have in common but for the sets stays so while a text is read. -/
theorem withSets_read {d d' : Draft (Settings R)}
    (h : ∀ sets, ConfigReader.withSets d sets = ConfigReader.withSets d' sets) (t : List FlatLine) (sets : String → Option (List IpNet)) :
    ConfigReader.withSets (rd.read d t) sets = ConfigReader.withSets (rd.read d' t) sets := by
  have hd : d = ConfigReader.withSets d' (d.settings .ipSets) := by rw [← h, ConfigReader.withSets_self]
  rw [hd, rd.read_withSets, ConfigReader.withSets_withSets]

variable [Inhabited R] {t t' : List FlatLine}

theorem built_of_refused (h : ∃ l ∈ t, l.Refused rd.grammar) : rd.built t = none := by
  have herrors : (rd.read (emptyDraft R) t).fatalErrors ≠ [] := by
    intro hnil
    obtain ⟨l, hl, hrefused⟩ := h
    exact ((fatalErrors_readText rd.grammar rd.fs t (emptyDraft R)).mp hnil).2 l hl hrefused
  unfold ConfigReader.built finish
  rw [if_neg herrors]

theorem built_of_not_refused (h : ∀ l ∈ t, ¬ l.Refused rd.grammar) :
    rd.built t = some (BuiltConfig.ofDraft rd.env (closeGroups (rd.read (emptyDraft R) t))) := by
  have herrors : (rd.read (emptyDraft R) t).fatalErrors = [] :=
    (fatalErrors_readText rd.grammar rd.fs t (emptyDraft R)).mpr ⟨rfl, h⟩
  unfold ConfigReader.built finish
  rw [if_pos herrors]

theorem setsOf_eq_of_built (h : ∀ l ∈ t, ¬ l.Refused rd.grammar) (h' : ∀ l ∈ t', ¬ l.Refused rd.grammar)
    (heq : rd.built t = rd.built t') : setsOf rd t = setsOf rd t' := by
  rw [built_of_not_refused h, built_of_not_refused h'] at heq
  have hinner := congrFun (congrArg BuiltConfig.inner (Option.some.inj heq)) Field.ipSets
  rw [BuiltConfig.inner_ipSets, BuiltConfig.inner_ipSets, settings_closeGroups, settings_closeGroups,
    ipSets_of_read, ipSets_of_read] at hinner
  exact hinner

/-- **Texts that are read alike but for the address sets are built alike exactly if they make the same sets.** -/
theorem built_eq_iff (h : ∀ l ∈ t, ¬ l.Refused rd.grammar) (h' : ∀ l ∈ t', ¬ l.Refused rd.grammar)
    (hread : ∀ sets, ConfigReader.withSets (rd.read (emptyDraft R) t) sets =
      ConfigReader.withSets (rd.read (emptyDraft R) t') sets) :
    rd.built t = rd.built t' ↔ setsOf rd t = setsOf rd t' := by
  refine ⟨setsOf_eq_of_built h h', fun hsets => ?_⟩
  have hdraft : rd.read (emptyDraft R) t = rd.read (emptyDraft R) t' := by
    calc rd.read (emptyDraft R) t
        = ConfigReader.withSets (rd.read (emptyDraft R) t) (setsOf rd t) := by
          rw [← ipSets_of_read, ConfigReader.withSets_self]
      _ = ConfigReader.withSets (rd.read (emptyDraft R) t') (setsOf rd t') := by rw [hread, hsets]
      _ = rd.read (emptyDraft R) t' := by rw [← ipSets_of_read, ConfigReader.withSets_self]
  rw [built_of_not_refused h, built_of_not_refused h', hdraft]

variable {a b : List UInt8} (h : Independent rd a b) (t t') (n m : Option ℕ) (base : Option Path) (files : Files)

include h in
/-- **Independent neighbouring lines can be exchanged exactly if some line keeps the configuration from being
built, or each of the two brings the same list in both places.** -/
theorem exchange_iff :
    rd.built (t ++ .read a n base files :: .read b m base files :: t') =
        rd.built (t ++ .read b n base files :: .read a m base files :: t') ↔
      (∃ l ∈ t ++ .read a n base files :: .read b m base files :: t', l.Refused rd.grammar) ∨
        (ListIndifferent rd t t' (.read a n base files) (.read b m base files) ∧
          ListIndifferent rd t t' (.read b m base files) (.read a n base files)) := by
  -- Whether a line is refused does not depend on its number.
  have hrefused (l : FlatLine → Prop) (a' b' : FlatLine) : (∀ x ∈ t ++ a' :: b' :: t', l x) ↔
      (∀ x ∈ t, l x) ∧ l a' ∧ l b' ∧ ∀ x ∈ t', l x := by
    simp only [List.forall_mem_append, List.forall_mem_cons]
  by_cases hsome : ∃ l ∈ t ++ .read a n base files :: .read b m base files :: t', l.Refused rd.grammar
  · have hsome' : ∃ l ∈ t ++ .read b n base files :: .read a m base files :: t', l.Refused rd.grammar := by
      by_contra hnone
      obtain ⟨ht, hb, ha, ht'⟩ := (hrefused (fun l => ¬ l.Refused rd.grammar) _ _).mp fun l hl hl' =>
        hnone ⟨l, hl, hl'⟩
      obtain ⟨l, hl, hl'⟩ := hsome
      exact (hrefused (fun l => ¬ l.Refused rd.grammar) (.read a n base files) (.read b m base files)).mpr
        ⟨ht, ha, hb, ht'⟩ l hl hl'
    rw [built_of_refused hsome, built_of_refused hsome']
    exact iff_of_true rfl (.inl hsome)
  · have hnone : ∀ l ∈ t ++ .read a n base files :: .read b m base files :: t', ¬ l.Refused rd.grammar :=
      fun l hl hl' => hsome ⟨l, hl, hl'⟩
    obtain ⟨ht, ha, hb, ht'⟩ := (hrefused (fun l => ¬ l.Refused rd.grammar) _ _).mp hnone
    have hnone' : ∀ l ∈ t ++ .read b n base files :: .read a m base files :: t', ¬ l.Refused rd.grammar :=
      (hrefused (fun l => ¬ l.Refused rd.grammar) _ _).mpr ⟨ht, hb, ha, ht'⟩
    have hread (sets : String → Option (List IpNet)) :
        ConfigReader.withSets
            (rd.read (emptyDraft R) (t ++ .read a n base files :: .read b m base files :: t')) sets =
          ConfigReader.withSets
            (rd.read (emptyDraft R) (t ++ .read b n base files :: .read a m base files :: t')) sets := by
      unfold ConfigReader.read
      rw [readText_append, readText_append, readText_cons, readText_cons, readText_cons, readText_cons]
      exact withSets_read (fun sets => Change.configLine_comm rd _ h ha hb _ sets) t' sets
    have hnumber : setsOf rd (t ++ .read b n base files :: .read a m base files :: t') =
        setsOf rd (t ++ .read b m base files :: .read a n base files :: t') := by
      rw [setsOf_pair, setsOf_pair]
      rfl
    rw [built_eq_iff hnone hnone' hread, or_iff_right hsome, hnumber]
    exact setsOf_exchange (rd.gives_or_gives h) (rd.known_or_known h)

end

/-! ### A list over a proxy -/

/-- Lists that come over a proxy only, and three lines: `proxy-server socks5://10.0.0.1:1080 -name px`,
`ip-set -name ads -url u -proxy px` and `domain-set -name ads -url u -proxy px`. -/
def overProxy : ConfigReader Unit where
  env :=
    { readIpSet := fun _ => none
      downloadIpSet := fun _ proxy => proxy.map fun _ => []
      readDomainSet := fun _ => none
      downloadDomainSet := fun _ proxy => proxy.map fun _ => []
      validPattern := fun _ => true
      interfaces := none
      toAscii := some
      crateMatch := fun _ _ => false }
  fs := twoFiles [] []
  parseConfig line :=
    if line = [112] then
      some (.shared (.proxyConfig ⟨"px", { proto := .socks5, server := ⟨.v4 0x0a000001#32, 1080⟩ }⟩))
    else if line = [105] then some (.shared (.ipSetProvider (.http "ads" "u" none (some "px"))))
    else if line = [100] then some (.shared (.domainSetProvider (.http "ads" "u" none (some "px"))))
    else none
  detectBrokenProxyCredential _ := none

/-- The line at this place of the only file. -/
def lineOf (line : List UInt8) (no : ℕ) : FlatLine := .read line (some no) (some mainPath) {}

theorem not_refused_overProxy (line line' : List UInt8) (i j : ℕ)
    (h : ∀ p, overProxy.grammar.parseConfig line ≠ some (.param p))
    (h' : ∀ p, overProxy.grammar.parseConfig line' ≠ some (.param p)) :
    ∀ l ∈ [lineOf line i, lineOf line' j], ¬ l.Refused overProxy.grammar := by
  intro l hl
  rcases List.mem_cons.mp hl with rfl | hl
  · rintro (hsome | ⟨p, hp, -⟩)
    · cases hsome
    · exact h p hp
  · obtain rfl := List.mem_singleton.mp hl
    rintro (hsome | ⟨p, hp, -⟩)
    · cases hsome
    · exact h' p hp

theorem independent_overProxy {b : List UInt8} {y : SettingItem Unit}
    (hb : overProxy.grammar.parseConfig b = some (.shared y))
    (hy : Field.proxyServers ∉ y.fields overProxy.env none) : Independent overProxy [112] b where
  left x hx := by
    obtain rfl := Option.some.inj hx
    rfl
  right y' hy' := by
    obtain rfl := Option.some.inj (hb.symm.trans hy')
    rfl
  apart x y' hx hy' s hs hs' := by
    obtain rfl := Option.some.inj hx
    obtain rfl := Option.some.inj (hb.symm.trans hy')
    obtain rfl := List.mem_singleton.mp hs
    obtain ⟨f, hf, hslot⟩ := List.mem_map.mp hs'
    injection hslot with hslot
    subst hslot
    exact hy hf

/-- The `proxy-server` line and the `domain-set` line can be exchanged. -/
theorem exchange_domain_set : overProxy.built [lineOf [112] 1, lineOf [100] 2] =
    overProxy.built [lineOf [100] 1, lineOf [112] 2] :=
  (exchange_iff [] [] (independent_overProxy rfl (by decide)) (some 1) (some 2) (some mainPath) {}).mpr
    (.inr ⟨listIndifferent_of_gives fun _ => rfl, listIndifferent_of_gives fun _ => rfl⟩)

/-- The `proxy-server` line and the `ip-set` line cannot. -/
theorem ip_set_before_its_proxy : Independent overProxy [112] [105] ∧
    overProxy.built [lineOf [112] 1, lineOf [105] 2] ≠ overProxy.built [lineOf [105] 1, lineOf [112] 2] := by
  refine ⟨independent_overProxy rfl (by decide), fun h => ?_⟩
  have hnever (line : List UInt8) (hline : line = [112] ∨ line = [105]) (p : ParamItem) :
      overProxy.grammar.parseConfig line ≠ some (.param p) := by
    rcases hline with rfl | rfl
    · exact fun hp => by injection hp with hp; cases hp
    · exact fun hp => by injection hp with hp; cases hp
  have hsets := setsOf_eq_of_built
    (not_refused_overProxy [112] [105] 1 2 (hnever _ (.inl rfl)) (hnever _ (.inr rfl)))
    (not_refused_overProxy [105] [112] 1 2 (hnever _ (.inr rfl)) (hnever _ (.inl rfl))) h
  have hads := congrArg Option.isSome (congrFun hsets "ads")
  cases hads

end Config
end SmartDns
