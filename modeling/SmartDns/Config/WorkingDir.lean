/-
# The working directory

What a `conf-file` line can be made to load by who writes the working directory. The lines
are read in a file system where no relative path is anything (`confined`), and a path is a
`Place` if it is absolute and the configuration speaks of it: it is under the directory of
the main file or of a file that was loaded, or it is written in a line or matched by one.

Two file systems that agree on these places lead to the same list of loaded files if no line
asks for another path (`loadedFiles_eq_iff`). One does: the directory of a `conf-file` line as
it is written is one in which later lines look, and that of a bare file name is empty, so that
the path asked is the bare name of the later line (`loaded_from_working_directory`).

Key definitions: `confined`, `Place`, `Agrees`, `AsksPlaces`.
Key theorem: `loadedFiles_eq_iff`.
-/
import Mathlib.Data.Fintype.EquivFin
import SmartDns.Config.LoadedFiles

namespace SmartDns
namespace Config

variable {S G : Type}

/-! ### The places of a configuration -/

/-- The file system in which a relative path is nothing. -/
def confined (fs : FileSystem) : FileSystem :=
  { fs with
    realpath := fun p => if p.isAbsolute then fs.realpath p else none
    realpath_mem := by
      intro p r h
      split at h
      · exact fs.realpath_mem h
      · cases h
    currentDir := none
    exeDir := none }

/-- What holds where a file system is one: the root directory has no lines, and a pattern that
begins with the separator matches absolute paths. -/
structure FileSystem.Sound (fs : FileSystem) : Prop where
  root : ∀ {p content}, p.isAbsolute = true → p.parent = none → fs.openFile p = some content → content.lines = []
  glob : ∀ {text p}, text.head? = some Path.separator → p ∈ fs.glob text → p.isAbsolute = true

section

variable (gr : Grammar S G) (fs : FileSystem) (main : Path)

/-- What is loaded, and the text, where relative paths are nothing. There is none if the main file cannot be read. -/
def confinedText : Inlined :=
  match wholeText gr (confined fs) fs.realpaths.length (managedFiles (confined fs) (managedDir main))
    { confFile := some main } with
  | some (.ok r) => r
  | _ => ({}, [])

/-- Where the configuration is, and what it names. -/
inductive Located : Path → Prop
  | main : Located main
  | beside {dir p} : main.parent = some dir → dir <+: p → Located p
  | loaded {q dir p} : q.isAbsolute = true → fs.exists? q = true →
      fs.key q ∈ (confinedText gr fs main).1.loadedFiles → q.parent = some dir → dir <+: p → Located p
  | written {line lineno base f v} : .read line lineno base f ∈ (confinedText gr fs main).2 →
      gr.parseConfig line = some (.confFile v) → v.path.isPattern = false → Located v.path
  | matched {line lineno base f v p} : .read line lineno base f ∈ (confinedText gr fs main).2 →
      gr.parseConfig line = some (.confFile v) → v.path.isPattern = true →
      p ∈ fs.glob (v.path.patternText (base.or f.confFile)) → Located p

def Place (p : Path) : Prop := p.isAbsolute = true ∧ Located gr fs main p

/-- A file system with the same in all places of the configuration. -/
structure Agrees (fs' : FileSystem) : Prop where
  place : ∀ {p}, Place gr fs main p → SameAt fs fs' p
  glob : ∀ {line lineno base f v}, .read line lineno base f ∈ (confinedText gr fs main).2 →
    gr.parseConfig line = some (.confFile v) → v.path.isPattern = true →
    fs'.glob (v.path.patternText (base.or f.confFile)) = fs.glob (v.path.patternText (base.or f.confFile))
  hashOrder : fs'.hashOrder = fs.hashOrder

/-- The main file is held, and each plain `conf-file` line asks, in the directories known where it
stands, for places only. -/
def AsksPlaces : Prop :=
  MainHeld fs main ∧ ∀ l ∈ (confinedText gr fs main).2, l.Asks gr fun f path =>
    ∀ p ∈ f.searched (confined fs) path, Place gr fs main p

variable {gr fs main} {fs' : FileSystem}

theorem sameAt_confined {p : Path} (h : p.isAbsolute = true) : SameAt fs (confined fs) p where
  realpath := if_pos h
  nodes _ _ := rfl

theorem agrees_confined : Agrees gr fs main (confined fs) where
  place hp := sameAt_confined hp.1
  glob _ _ _ := rfl
  hashOrder := rfl

theorem Agrees.confined (h : Agrees gr fs main fs') {p : Path} (hp : Place gr fs main p) :
    SameAt (Config.confined fs) fs' p :=
  (sameAt_confined hp.1).symm.trans (h.place hp)

/-- What is opened has an absolute path, and one with a directory if it has a line. -/
theorem isAbsolute_of_openFile {p : Path} {content : Content} (h : (Config.confined fs).openFile p = some content) :
    p.isAbsolute = true := by
  by_cases habs : p.isAbsolute = true
  · exact habs
  · have hnone : (Config.confined fs).realpath p = none := if_neg habs
    unfold FileSystem.openFile FileSystem.node? at h
    rw [hnone] at h
    cases h

theorem parent_of_openFile (hsound : fs.Sound) {p : Path} {content : Content}
    (h : (Config.confined fs).openFile p = some content) (hlines : content.lines ≠ []) : p.parent ≠ none := by
  intro hparent
  have habs := isAbsolute_of_openFile h
  rw [(sameAt_confined habs).openFile] at h
  exact hlines (hsound.root habs hparent h)

theorem fileName_of_parent {p : Path} (h : p.parent = none) : p.fileName = none := by
  unfold Path.parent at h
  unfold Path.fileName
  split at h
  · rename_i hlast
    rw [hlast]
  · rename_i hlast
    rw [hlast]
  · cases h

/-- The root directory is no configuration. -/
theorem inlineMain_root (hsound : fs.Sound) (habs : main.isAbsolute = true) (hparent : main.parent = none) {depth : ℕ}
    {r : Inlined} (h : inlineMain gr (Config.confined fs) depth { confFile := some main } = some (.ok r)) :
    r.2 = [] := by
  have hname := fileName_of_parent hparent
  unfold inlineMain at h
  simp only [List.not_mem_nil, if_false] at h
  by_cases hexists : (Config.confined fs).exists? main = false
  · rw [if_pos hexists] at h
    cases h
  · rw [if_neg hexists] at h
    obtain ⟨r', hr', hok⟩ := Option.map_eq_some_iff.mp h
    unfold inlineFile at hr'
    rw [Files.resolveFilepath_of_fileName habs hname] at hr'
    have hnil : r'.1.2 = [] := by
      rcases inlineResolved_cases hr' with ⟨hnil, -⟩ | ⟨content, -, hopen, hlines⟩
      · exact hnil
      · by_cases hempty : content.lines = []
        · rw [hempty] at hlines
          rw [← Option.some.inj hlines]
        · exact absurd hparent (parent_of_openFile hsound hopen hempty)
    by_cases hread : r'.2 = true
    · rw [if_pos hread] at hok
      cases hok
      exact hnil
    · rw [if_neg hread] at hok
      cases hok

theorem parent_of_text (hsound : fs.Sound) (habs : main.isAbsolute = true) {l : FlatLine}
    (hl : l ∈ (confinedText gr fs main).2) : ∃ dir, main.parent = some dir := by
  apply Option.ne_none_iff_exists'.mp
  intro hparent
  have hmanaged : managedFiles (Config.confined fs) (managedDir main) = [] := by
    unfold managedDir RuntimeConfigBuilder.deriveConfDir
    rw [hparent]
    rfl
  unfold confinedText at hl
  split at hl
  · rename_i r hr
    rw [hmanaged] at hr
    obtain ⟨o, ho, hr⟩ := Option.bind_eq_some_iff.mp hr
    cases o with
    | error e => cases hr
    | ok r₁ =>
      cases hr
      rw [List.append_nil, inlineMain_root hsound habs hparent ho] at hl
      cases hl
  · cases hl

/-- Which places the lines of the configuration lead to. -/
theorem follows_of_asks {M : Path → Prop} {E : Files → Path → Prop} (hsound : fs.Sound) (habs : main.isAbsolute = true)
    (hag : Agrees gr fs main fs')
    (hasks : ∀ {line lineno base f v}, gr.parseConfig line = some (.confFile v) → v.path.isPattern = false →
      f.confFile = some main → .read line lineno (some base) f ∈ (confinedText gr fs main).2 →
      M (fs'.key (f.resolveConfFilepath fs' v.path)) →
      (∀ p ∈ f.searched (Config.confined fs) v.path, SameAt (Config.confined fs) fs' p) ∧ E f v.path) :
    Follows gr (Config.confined fs) fs' main (· ∈ (confinedText gr fs main).2) M E where
  plain := by
    intro line lineno base f v hitem hplain hf hline
    refine ⟨fun hM => ?_, fun hM => (hasks hitem hplain hf hline hM).2⟩
    have hsearched := (hasks hitem hplain hf hline hM).1
    obtain ⟨dir, hparent⟩ := parent_of_text hsound habs hline
    have hdir := Path.isAbsolute_of_parent habs hparent
    exact resolveConfFilepath_same hdir hparent
      (fun p hp => hag.confined ⟨Path.isAbsolute_of_under hdir hp, .beside hparent hp⟩) hf hag.hashOrder
      (fun hpath => hag.confined ⟨hpath, .written hline hitem hplain⟩) hsearched
  pattern := by
    intro line lineno base f v content hitem hpattern hf hline hopen hlines
    have hhead : (v.path.patternText (some base)).head? = some Path.separator :=
      Path.head?_patternText (isAbsolute_of_openFile hopen) (parent_of_openFile hsound hopen hlines)
    have hmatched : ∀ p ∈ fs.glob (v.path.patternText (some base)),
        SameAt (Config.confined fs) fs' p ∧ p.isAbsolute = true := by
      intro p hp
      have hpabs := hsound.glob hhead hp
      exact ⟨hag.confined ⟨hpabs, .matched hline hitem hpattern hp⟩, hpabs⟩
    have hexpand : f.expandConfFiles fs' v.path (some base) =
        f.expandConfFiles (Config.confined fs) v.path (some base) := by
      rw [Files.expandConfFiles_of_pattern _ _ hpattern, Files.expandConfFiles_of_pattern _ _ hpattern]
      congr 1
      have hglob : fs'.glob (v.path.patternText (some base)) = fs.glob (v.path.patternText (some base)) :=
        hag.glob hline hitem hpattern
      show (fs'.glob (v.path.patternText (some base))).filter fs'.isFile =
        (fs.glob (v.path.patternText (some base))).filter _
      rw [hglob]
      apply List.filter_congr
      intro p hp
      exact (hmatched p hp).1.isFile
    refine ⟨hexpand, fun file hfile f' _ _ => ?_⟩
    rw [Files.expandConfFiles_of_pattern _ _ hpattern] at hfile
    have hmem := List.mem_filter.mp (List.mem_insertionSort _ |>.mp hfile)
    obtain ⟨hat, hfileabs⟩ := hmatched file hmem.1
    rw [Files.resolveConfFilepath_of_isFile hfileabs hmem.2,
      Files.resolveConfFilepath_of_isFile hfileabs (hat.isFile.trans hmem.2)]
    exact ⟨rfl, hat⟩

/-! ### One list in both -/

theorem Agrees.managed (hag : Agrees gr fs main fs') (habs : main.isAbsolute = true) :
    managedFiles fs' (managedDir main) = managedFiles (Config.confined fs) (managedDir main) ∧
    ∀ file ∈ managedFiles (Config.confined fs) (managedDir main),
      SameAt (Config.confined fs) fs' file ∧ (Config.confined fs).isFile file = true := by
  cases hparent : main.parent with
  | none =>
    unfold managedDir RuntimeConfigBuilder.deriveConfDir
    rw [hparent]
    exact ⟨rfl, fun file hfile => by cases hfile⟩
  | some dir =>
    have hdir := Path.isAbsolute_of_parent habs hparent
    have hbeside : ∀ p, dir <+: p → SameAt (Config.confined fs) fs' p := fun p hp =>
      hag.confined ⟨Path.isAbsolute_of_under hdir hp, .beside hparent hp⟩
    refine ⟨managedFiles_same hdir hparent hbeside, fun file hfile => ?_⟩
    obtain ⟨hunder, hisFile⟩ := under_of_mem_managedFiles hdir hparent hfile
    exact ⟨hbeside file hunder, hisFile⟩

theorem eq_confinedText {depth : ℕ} (hdepth : fs.realpaths.length ≤ depth) {r : Inlined}
    (h : wholeText gr (Config.confined fs) depth (managedFiles (Config.confined fs) (managedDir main))
      { confFile := some main } = some (.ok r)) : confinedText gr fs main = r := by
  have hdepth : (Config.confined fs).realpaths.length ≤ depth := hdepth
  rw [wholeText_depth hdepth] at h
  unfold confinedText
  rw [show fs.realpaths.length = (Config.confined fs).realpaths.length from rfl, h]

/-- The configuration's builder before anything is loaded. -/
def builderOf (draft : Draft G) (main : Path) : RuntimeConfigBuilder G :=
  RuntimeConfigBuilder.withConfFile { draft := draft } main

theorem loadedFiles_builderOf (draft : Draft G) (depth : ℕ) :
    loadedFiles gr fs' depth (builderOf draft main) =
      (wholeText gr fs' depth (managedFiles fs' (managedDir main)) { confFile := some main }).map
        (Except.map fun r => r.1.loadedFiles) := loadedFiles_eq _

/-- How the loading ends where the places are the same, if the lines lead to them. -/
theorem sameEnd_of_follows {M : Path → Prop} {E : Files → Path → Prop} {depth : ℕ} (habs : main.isAbsolute = true)
    (hheld : MainHeld fs main) (hag : Agrees gr fs main fs')
    (h : Follows gr (Config.confined fs) fs' main (· ∈ (confinedText gr fs main).2) M E)
    {o o' : Except BuildError Inlined}
    (ho : wholeText gr (Config.confined fs) depth (managedFiles (Config.confined fs) (managedDir main))
      { confFile := some main } = some o)
    (ho' : wholeText gr fs' depth (managedFiles fs' (managedDir main)) { confFile := some main } = some o') :
    SameEnd gr main (· ∈ (confinedText gr fs main).2) M E o o' := by
  rw [(hag.managed habs).1] at ho'
  have hat : SameAt (Config.confined fs) fs' main := hag.confined ⟨habs, .main⟩
  exact h.wholeText_same habs (hheld.same (sameAt_confined habs)) hat (hag.managed habs).2 ho ho'

theorem loadedFiles_of_asksPlaces (hsound : fs.Sound) (habs : main.isAbsolute = true) (h : AsksPlaces gr fs main)
    (hag : Agrees gr fs main fs') {depth : ℕ} (hdepth : fs.realpaths.length ≤ depth)
    (hdepth' : fs'.realpaths.length ≤ depth) (draft : Draft G) :
    loadedFiles gr fs' depth (builderOf draft main) =
      loadedFiles gr (Config.confined fs) depth (builderOf draft main) := by
  have hfollows : Follows gr (Config.confined fs) fs' main (· ∈ (confinedText gr fs main).2) (fun _ => True)
      fun _ _ => True := by
    apply follows_of_asks hsound habs hag
    intro line lineno base f v hitem hplain _ hline _
    have hplaces := h.2 _ hline
    rw [FlatLine.Asks, hitem] at hplaces
    exact ⟨fun p hp => hag.confined (hplaces hplain p hp), trivial⟩
  have hconfined : (Config.confined fs).realpaths.length ≤ depth := hdepth
  obtain ⟨o, ho⟩ := Option.isSome_iff_exists.mp (wholeText_isSome gr { confFile := some main } hconfined
    (managedFiles (Config.confined fs) (managedDir main)))
  obtain ⟨o', ho'⟩ := Option.isSome_iff_exists.mp (wholeText_isSome gr { confFile := some main } hdepth'
    (managedFiles fs' (managedDir main)))
  have hend := sameEnd_of_follows habs h.1 hag hfollows ho ho'
  have hsame : o' = o := by
    cases o with
    | error e => exact hend
    | ok r =>
      obtain ⟨r', rfl, hr⟩ := hend
      rw [(hr (fun l hl => by rw [eq_confinedText hdepth ho]; exact hl) fun _ _ => trivial).1]
  rw [loadedFiles_builderOf, loadedFiles_builderOf, ho, ho', hsame]

end

/-! ### A file where a path is asked -/

/-- The file system with an empty file under the path. -/
def FileSystem.withFile (fs : FileSystem) (p real : Path) : FileSystem :=
  { fs with
    realpath := fun q => if q = p then some real else fs.realpath q
    nodes := fun r => if r = real then { isFile := true, content := some {} } else fs.nodes r
    realpaths := real :: fs.realpaths
    realpath_mem := by
      intro q r h
      split at h
      · cases h
        exact List.mem_cons_self
      · exact List.mem_cons_of_mem _ (fs.realpath_mem h) }

section

variable {fs : FileSystem} {p real : Path}

theorem realpath_withFile : (fs.withFile p real).realpath p = some real := if_pos rfl

theorem isFile_withFile : (fs.withFile p real).isFile p = true := by
  unfold FileSystem.isFile FileSystem.node?
  rw [realpath_withFile]
  simp [FileSystem.withFile]

theorem openFile_withFile : (fs.withFile p real).openFile p = some {} := by
  unfold FileSystem.openFile FileSystem.node?
  rw [realpath_withFile]
  simp [FileSystem.withFile]

theorem key_withFile : (fs.withFile p real).key p = real := by
  unfold FileSystem.key
  rw [realpath_withFile]
  rfl

theorem sameAt_withFile (fs : FileSystem) (hreal : real ∉ fs.realpaths) {q : Path} (hq : q ≠ p) : SameAt fs (fs.withFile p real) q where
  realpath := if_neg hq
  nodes r hr := if_neg fun heq : r = real => hreal (heq ▸ fs.realpath_mem hr)

end

section

variable {gr : Grammar S G} {fs fs' : FileSystem} {main p real : Path}

theorem exists_path_notMem (ps : List Path) : ∃ p : Path, p ∉ ps := by
  have : Nonempty Component := ⟨.curDir⟩
  obtain ⟨p, hp⟩ := Infinite.exists_notMem_finset ps.toFinset
  exact ⟨p, fun hmem => hp (List.mem_toFinset.mpr hmem)⟩

theorem agrees_withFile (hp : ¬ Place gr fs main p) (hreal : real ∉ fs.realpaths) :
    Agrees gr fs main ((confined fs).withFile p real) where
  place hq := (sameAt_confined hq.1).trans (sameAt_withFile (confined fs) hreal fun heq => hp (heq ▸ hq))
  glob _ _ _ := rfl
  hashOrder := rfl

/-- The lists are different if one has the file. -/
theorem loadedFiles_ne_of_mem {depth : ℕ} (hdepth : fs.realpaths.length ≤ depth) {r' : Inlined}
    (h : wholeText gr fs' depth (managedFiles fs' (managedDir main)) { confFile := some main } = some (.ok r'))
    (hmem : real ∈ r'.1.loadedFiles) (hnew : real ∉ (confinedText gr fs main).1.loadedFiles) (draft : Draft G) :
    loadedFiles gr fs' depth (builderOf draft main) ≠ loadedFiles gr (confined fs) depth (builderOf draft main) := by
  intro heq
  rw [loadedFiles_builderOf, loadedFiles_builderOf, h] at heq
  obtain ⟨o, ho, hlist⟩ := Option.map_eq_some_iff.mp heq.symm
  cases o with
  | error e => cases hlist
  | ok r =>
    have hfiles : r.1.loadedFiles = r'.1.loadedFiles := Except.ok.inj hlist
    rw [eq_confinedText hdepth ho, hfiles] at hnew
    exact hnew hmem

/-- A main file that is there and is no file is looked for by its bare name first. -/
theorem inlineMain_of_not_held (habs : main.isAbsolute = true) (hheld : ¬ MainHeld fs main) {name : List UInt8}
    (hname : main.fileName = some name) (hreal : real ∉ fs.realpaths) (depth : ℕ) :
    inlineMain gr ((confined fs).withFile [.normal name] real) depth { confFile := some main } =
      some (.ok ({ confFile := some main, loadedFiles := [real] }, [])) := by
  have hne : main ≠ [.normal name] := by
    rintro rfl
    cases habs
  have hat : SameAt fs ((confined fs).withFile [.normal name] real) main :=
    (sameAt_confined habs).trans (sameAt_withFile (confined fs) hreal hne)
  have hexists : fs.exists? main ≠ false := fun hexists => hheld (.inl hexists)
  have hfile : ¬ fs.isFile main = true := fun hfile => hheld (.inr (.inl hfile))
  have hfull : findFile ((confined fs).withFile [.normal name] real) (some main) .full main = none := by
    rw [findFile_of_absolute _ _ habs, hat.isFile, if_neg hfile]
  have hbare : findFile ((confined fs).withFile [.normal name] real) (some main) .full [.normal name] =
      some [.normal name] := by
    unfold findFile
    simp [isFile_withFile]
  have hresolve : ({ confFile := some main } : Files).resolveFilepath ((confined fs).withFile [.normal name] real) main =
      [.normal name] := by
    unfold Files.resolveFilepath Config.resolveFilepath
    simp only [hfull, hname, hbare, Option.getD_some, isFile_withFile, and_true, if_pos hne.symm]
    rw [if_pos (Files.exists?_of_isFile isFile_withFile)]
  unfold inlineMain
  simp only [List.not_mem_nil, if_false]
  rw [hat.exists?, if_neg hexists]
  unfold inlineFile
  rw [hresolve]
  unfold inlineResolved
  simp only [List.not_mem_nil, if_false, key_withFile, Files.exists?_of_isFile isFile_withFile, if_true,
    openFile_withFile]
  rfl

theorem exists_ne_of_not_held (habs : main.isAbsolute = true) (hheld : ¬ MainHeld fs main) (draft : Draft G) :
    ∃ fs', Agrees gr fs main fs' ∧ ∀ depth, fs'.realpaths.length ≤ depth → fs.realpaths.length ≤ depth →
      loadedFiles gr fs' depth (builderOf draft main) ≠ loadedFiles gr (confined fs) depth (builderOf draft main) := by
  have hfileName : main.fileName ≠ none := fun hname => hheld (.inr (.inr hname))
  obtain ⟨name, hname⟩ := Option.ne_none_iff_exists'.mp hfileName
  obtain ⟨real, hreal⟩ := exists_path_notMem (fs.realpaths ++ (confinedText gr fs main).1.loadedFiles)
  have hfresh : real ∉ fs.realpaths ∧ real ∉ (confinedText gr fs main).1.loadedFiles := by simpa using hreal
  have hplace : ¬ Place gr fs main [.normal name] := fun hp => by cases hp.1
  refine ⟨(confined fs).withFile [.normal name] real, agrees_withFile hplace hfresh.1, fun depth hdepth hdepth' => ?_⟩
  have hmanaged : (inlineManaged gr ((confined fs).withFile [.normal name] real) depth
      (managedFiles ((confined fs).withFile [.normal name] real) (managedDir main))
      { confFile := some main, loadedFiles := [real] }).isSome := inlineManaged_isSome hdepth _
  obtain ⟨r, hr⟩ := Option.isSome_iff_exists.mp hmanaged
  have hwhole : wholeText gr ((confined fs).withFile [.normal name] real) depth
      (managedFiles ((confined fs).withFile [.normal name] real) (managedDir main)) { confFile := some main } =
        some (.ok r) := by
    unfold wholeText
    rw [inlineMain_of_not_held habs hheld hname hfresh.1]
    show (inlineManaged gr _ depth _ { confFile := some main, loadedFiles := [real] }).map _ = _
    rw [hr]
    rfl
  exact loadedFiles_ne_of_mem hdepth' hwhole (grows_inlineManaged hr (List.mem_singleton.mpr rfl)) hfresh.2 draft

/-- A file under a path that a line asks for, and that is no place, comes into the list. -/
theorem exists_ne_of_asked (hsound : fs.Sound) (habs : main.isAbsolute = true) (hheld : MainHeld fs main)
    {line : List UInt8} {lineno : Option ℕ} {base : Option Path} {f : Files} {v : ConfFileItem}
    (hline : .read line lineno base f ∈ (confinedText gr fs main).2) (hitem : gr.parseConfig line = some (.confFile v))
    (hplain : v.path.isPattern = false) (hasked : p ∈ f.searched (confined fs) v.path) (hp : ¬ Place gr fs main p)
    (draft : Draft G) :
    ∃ fs', Agrees gr fs main fs' ∧ ∀ depth, fs'.realpaths.length ≤ depth → fs.realpaths.length ≤ depth →
      loadedFiles gr fs' depth (builderOf draft main) ≠ loadedFiles gr (confined fs) depth (builderOf draft main) := by
  obtain ⟨real, hreal⟩ := exists_path_notMem (fs.realpaths ++ (confinedText gr fs main).1.loadedFiles)
  have hfresh : real ∉ fs.realpaths ∧ real ∉ (confinedText gr fs main).1.loadedFiles := by simpa using hreal
  have hag : Agrees gr fs main ((confined fs).withFile p real) := agrees_withFile hp hfresh.1
  have hother : ∀ q, q ≠ p → SameAt (confined fs) ((confined fs).withFile p real) q :=
    fun q hq => sameAt_withFile (confined fs) hfresh.1 hq
  obtain ⟨dir, hparent⟩ := parent_of_text hsound habs hline
  have hdir := Path.isAbsolute_of_parent habs hparent
  -- As long as the file is not loaded, no line has asked for it.
  have hfollows : Follows gr (confined fs) ((confined fs).withFile p real) main (· ∈ (confinedText gr fs main).2)
      (· ≠ real) fun f path => p ∉ f.searched (confined fs) path := by
    apply follows_of_asks hsound habs hag
    intro line lineno base f v hitem hplain hf hline hM
    have hnot : p ∉ f.searched (confined fs) v.path := by
      intro hmem
      apply hM
      rw [resolveConfFilepath_of_asked hdir hparent
        (fun q hq => hag.confined ⟨Path.isAbsolute_of_under hdir hq, .beside hparent hq⟩) hf hag.hashOrder
        (fun hpath => hag.confined ⟨hpath, .written hline hitem hplain⟩) hmem isFile_withFile
        fun q hq => (hother q hq).isFile]
      exact key_withFile
    exact ⟨fun q hq => hother q fun heq => hnot (heq ▸ hq), hnot⟩
  refine ⟨(confined fs).withFile p real, hag, fun depth hdepth hdepth' => ?_⟩
  have hconfined : (confined fs).realpaths.length ≤ depth := hdepth'
  obtain ⟨o, ho⟩ := Option.isSome_iff_exists.mp (wholeText_isSome gr { confFile := some main } hconfined
    (managedFiles (confined fs) (managedDir main)))
  obtain ⟨o', ho'⟩ := Option.isSome_iff_exists.mp (wholeText_isSome gr { confFile := some main } hdepth
    (managedFiles ((confined fs).withFile p real) (managedDir main)))
  obtain ⟨r, rfl⟩ : ∃ r, o = .ok r := by
    cases o with
    | ok r => exact ⟨r, rfl⟩
    | error e =>
      rw [wholeText_depth hconfined] at ho
      unfold confinedText at hline
      rw [show fs.realpaths.length = (confined fs).realpaths.length from rfl, ho] at hline
      cases hline
  obtain ⟨r', rfl, hsame⟩ := sameEnd_of_follows habs hheld hag hfollows ho ho'
  by_cases hmem : real ∈ r'.1.loadedFiles
  · exact loadedFiles_ne_of_mem hdepth' ho' hmem hfresh.2 draft
  · rw [eq_confinedText hdepth' ho] at hsame hline
    obtain ⟨-, -, hasks⟩ := hsame (fun l hl => hl) fun q hq heq => hmem (heq ▸ hq)
    have hnot := hasks _ hline
    rw [FlatLine.Asks, hitem] at hnot
    exact absurd hasked (hnot hplain)

end

/-- **Two file systems that agree on the places of the configuration lead to the same list of loaded
files, whatever else is in them, exactly if no line asks for another path.** -/
theorem loadedFiles_eq_iff (gr : Grammar S G) (fs : FileSystem) (hsound : fs.Sound) (main : Path)
    (habs : main.isAbsolute = true) (draft : Draft G) :
    (∀ fs', Agrees gr fs main fs' → ∀ depth, fs.realpaths.length ≤ depth → fs'.realpaths.length ≤ depth →
      loadedFiles gr fs' depth (builderOf draft main) = loadedFiles gr fs depth (builderOf draft main)) ↔
    AsksPlaces gr fs main := by
  constructor
  · intro hsame
    by_contra hasks
    have hne : ∃ fs', Agrees gr fs main fs' ∧ ∀ depth, fs'.realpaths.length ≤ depth → fs.realpaths.length ≤ depth →
        loadedFiles gr fs' depth (builderOf draft main) ≠ loadedFiles gr (confined fs) depth (builderOf draft main) := by
      by_cases hheld : MainHeld fs main
      · have hline : ¬ ∀ l ∈ (confinedText gr fs main).2, l.Asks gr fun f path =>
            ∀ p ∈ f.searched (confined fs) path, Place gr fs main p := fun h => hasks ⟨hheld, h⟩
        push Not at hline
        obtain ⟨l, hl, hl'⟩ := hline
        cases l with
        | read line lineno base f =>
          cases hitem : gr.parseConfig line with
          | none =>
            rw [FlatLine.Asks, hitem] at hl'
            exact absurd trivial hl'
          | some item =>
            rw [FlatLine.Asks, hitem] at hl'
            cases item with
            | confFile v =>
              simp only [Classical.not_imp, not_forall] at hl'
              obtain ⟨hplain, p, hasked, hp⟩ := hl'
              exact exists_ne_of_asked hsound habs hheld hl hitem hplain hasked hp draft
            | _ => exact absurd trivial hl'
        | _ => exact absurd trivial hl'
      · exact exists_ne_of_not_held habs hheld draft
    obtain ⟨fs', hag, hne⟩ := hne
    apply hne (fs.realpaths.length + fs'.realpaths.length) (by omega) (by omega)
    have hself : (confined fs).realpaths.length ≤ fs.realpaths.length + fs'.realpaths.length := by
      show fs.realpaths.length ≤ _
      omega
    rw [hsame fs' hag _ (by omega) (by omega), hsame (confined fs) agrees_confined _ (by omega) hself]
  · intro h fs' hag depth hdepth hdepth'
    have hself : Agrees gr fs main fs := ⟨fun _ => SameAt.refl _ _, fun _ _ _ => rfl, rfl⟩
    rw [loadedFiles_of_asksPlaces hsound habs h hag hdepth hdepth' draft,
      loadedFiles_of_asksPlaces hsound habs h hself hdepth hdepth draft]

/-! ### A bare file name -/

/-- Each line is a `conf-file` line of a bare name. -/
def bareNames : Grammar Unit Unit where
  parseConfig line := some (.confFile { path := [.normal line] })
  detectBrokenProxyCredential _ := none
  assign _ _ g := g

def etcMain : Path := [.rootDir, .normal [101], .normal [109]]

/-- The main file `/e/m` alone. -/
def onlyMain (bytes : List UInt8) : FileSystem where
  realpath p := if p = etcMain then some etcMain else none
  nodes p := { isFile := true, content := some { bytes := if p = etcMain then bytes else [] } }
  realpaths := [etcMain]
  realpath_mem := by
    intro p r h
    split at h
    · cases h
      exact List.mem_singleton.mpr rfl
    · cases h
  glob _ := []
  hashOrder ds := ds
  hashOrder_perm _ := List.Perm.refl _
  currentDir := none
  exeDir := none

theorem eq_etcMain (bytes : List UInt8) {p : Path} (h : (onlyMain bytes).exists? p = true) : p = etcMain := by
  by_cases hp : p = etcMain
  · exact hp
  · have hnone : (onlyMain bytes).realpath p = none := if_neg hp
    unfold FileSystem.exists? at h
    rw [hnone] at h
    cases h

theorem sound_onlyMain (bytes : List UInt8) : (onlyMain bytes).Sound where
  root := by
    intro p content habs hparent hopen
    have hp : p = etcMain := by
      apply eq_etcMain bytes
      unfold FileSystem.openFile FileSystem.node? at hopen
      unfold FileSystem.exists?
      cases hreal : (onlyMain bytes).realpath p with
      | none =>
        rw [hreal] at hopen
        cases hopen
      | some r => rfl
    rw [hp] at hparent
    cases hparent
  glob := by
    intro text p _ hp
    cases hp

/-- One line asks for nothing but what is beside the main file. -/
theorem loadedFiles_of_one_line : AsksPlaces bareNames (onlyMain [97, 10]) etcMain ∧
    ∀ fs', Agrees bareNames (onlyMain [97, 10]) etcMain fs' →
      ∀ depth, (onlyMain [97, 10]).realpaths.length ≤ depth → fs'.realpaths.length ≤ depth →
        loadedFiles bareNames fs' depth (builderOf { settings := () } etcMain) =
          loadedFiles bareNames (onlyMain [97, 10]) depth (builderOf { settings := () } etcMain) := by
  have hasks : AsksPlaces bareNames (onlyMain [97, 10]) etcMain := by
    refine ⟨.inr (.inl rfl), fun l hl => ?_⟩
    have htext : (confinedText bareNames (onlyMain [97, 10]) etcMain).2 =
        [.read [97] (some 1) (some etcMain) { confFile := some etcMain, loadedFiles := [etcMain] }] := rfl
    rw [htext] at hl
    rw [List.mem_singleton.mp hl]
    intro _ p hp
    cases hp
  exact ⟨hasks, (loadedFiles_eq_iff bareNames (onlyMain [97, 10]) (sound_onlyMain _) etcMain rfl
    { settings := () }).mpr hasks⟩

def trap : Path := [.rootDir, .normal [119], .normal [98]]

/-- With a file `b` in the working directory `/w`. -/
def trapped (bytes : List UInt8) : FileSystem :=
  { onlyMain bytes with
    realpath := fun p => if p = [.normal [98]] ∨ p = trap then some trap else (onlyMain bytes).realpath p
    realpaths := [etcMain, trap]
    realpath_mem := by
      intro p r h
      split at h
      · cases h
        simp
      · exact List.mem_cons.mpr (.inl (List.mem_singleton.mp ((onlyMain bytes).realpath_mem h)))
    currentDir := some [.rootDir, .normal [119]] }

theorem not_place_trap (bytes : List UInt8) : ¬ Place bareNames (onlyMain bytes) etcMain trap := by
  have hbeside : ∀ dir, etcMain.parent = some dir → ¬ dir <+: trap := by
    intro dir hdir
    cases hdir
    decide
  rintro ⟨-, hlocated⟩
  generalize htrap : trap = p at hlocated
  cases hlocated with
  | main => exact absurd htrap (by decide)
  | beside hdir hunder => exact hbeside _ hdir (htrap ▸ hunder)
  | loaded _ hexists _ hdir hunder =>
    rw [eq_etcMain bytes hexists] at hdir
    exact hbeside _ hdir (htrap ▸ hunder)
  | written _ hitem _ =>
    cases hitem
    cases htrap
  | matched _ _ _ hp => cases hp

theorem agrees_trapped (bytes : List UInt8) : Agrees bareNames (onlyMain bytes) etcMain (trapped bytes) where
  place := by
    intro p hp
    have hne : ¬ (p = [.normal [98]] ∨ p = trap) := by
      rintro (rfl | rfl)
      · cases hp.1
      · exact not_place_trap bytes hp
    exact ⟨if_neg hne, fun _ _ => rfl⟩
  glob _ _ _ := rfl
  hashOrder := rfl

/-- The list, if there is one. -/
def listOf : Option (Except BuildError (List Path)) → List Path
  | some (.ok list) => list
  | _ => []

/-- **The file `b` of the working directory is loaded**: the line `conf-file a` makes the empty path a
directory in which `conf-file b` looks. -/
theorem loaded_from_working_directory : ¬ ∀ fs', Agrees bareNames (onlyMain [97, 10, 98, 10]) etcMain fs' →
    ∀ depth, (onlyMain [97, 10, 98, 10]).realpaths.length ≤ depth → fs'.realpaths.length ≤ depth →
      loadedFiles bareNames fs' depth (builderOf { settings := () } etcMain) =
        loadedFiles bareNames (onlyMain [97, 10, 98, 10]) depth (builderOf { settings := () } etcMain) := by
  intro h
  have hlist : listOf (loadedFiles bareNames (trapped [97, 10, 98, 10]) 2 (builderOf { settings := () } etcMain)) =
      listOf (loadedFiles bareNames (onlyMain [97, 10, 98, 10]) 2 (builderOf { settings := () } etcMain)) :=
    congrArg listOf (h _ (agrees_trapped _) 2 (by decide) (by decide))
  revert hlist
  decide

end Config
end SmartDns
