/-
# The loaded files

The list of files that are loaded with a configuration: the main file, what its `conf-file`
lines lead to, and the managed files. Where two file systems agree on the main file, beside
it, and on what its lines ask for, the list is the same (`Follows.wholeText_same`).

A relative path of a `conf-file` line is found beside the main file (`resolveFilepath_place`)
or by its name in the directories of included files (`resolveConfFilepath_same`).

Key definitions: `wholeText`, `loadedFiles`, `MainHeld`.
Key theorem: `Follows.wholeText_same`.
-/
import Mathlib.Data.List.Find
import SmartDns.Config.Agreement

namespace SmartDns
namespace Config

variable {S G : Type}

/-! ### Absolute paths -/

namespace Path

theorem parent_eq_dropLast {p dir : Path} (h : p.parent = some dir) : dir = p.dropLast := by
  unfold parent at h
  split at h
  · cases h
  · cases h
  · cases h
    rfl

theorem isAbsolute_of_parent {p dir : Path} (hp : p.isAbsolute = true) (h : p.parent = some dir) :
    dir.isAbsolute = true := by
  have hdir := parent_eq_dropLast h
  cases p with
  | nil => cases hp
  | cons c cs =>
    cases cs with
    | nil =>
      have hc : c = .rootDir := by simpa [isAbsolute] using hp
      rw [hc] at h
      cases h
    | cons c' cs =>
      rw [hdir]
      exact hp

theorem isAbsolute_of_under {dir p : Path} (hdir : dir.isAbsolute = true) (h : dir <+: p) : p.isAbsolute = true := by
  obtain ⟨rest, rfl⟩ := h
  cases dir with
  | nil => cases hdir
  | cons c cs => exact hdir

theorem under_join {dir p : Path} (hdir : dir.isAbsolute = true) (hp : p.isAbsolute = false) :
    dir <+: dir.join p := by
  have hne : dir ≠ [] := by
    rintro rfl
    cases hdir
  unfold join
  rw [if_neg (by rw [hp]; exact Bool.false_ne_true)]
  split
  · rw [if_neg hne]
    exact List.prefix_append dir _
  · exact List.prefix_append dir _

theorem isAbsolute_bare (name : List UInt8) : isAbsolute [.normal name] = false := rfl

theorem head?_text {p : Path} (h : p.isAbsolute = true) : p.text.head? = some separator := by
  unfold text
  by_cases hroot : p = [.rootDir]
  · rw [if_pos hroot]
    rfl
  · rw [if_neg hroot]
    cases p with
    | nil => cases h
    | cons c cs =>
      have hc : c = .rootDir := by simpa [isAbsolute] using h
      cases cs with
      | nil => exact absurd (by rw [hc]) hroot
      | cons c' cs =>
        rw [hc]
        simp [componentText, List.intercalate]

/-- An absolute pattern, or one in a file that has a directory, is anchored. -/
theorem head?_patternText {pattern base : Path} (hbase : base.isAbsolute = true) (hparent : base.parent ≠ none) :
    (pattern.patternText (some base)).head? = some separator := by
  obtain ⟨dir, hdir⟩ := Option.ne_none_iff_exists'.mp hparent
  have hanchored : (if pattern.isAbsolute then pattern else dir.join pattern).isAbsolute = true := by
    by_cases hp : pattern.isAbsolute = true
    · rw [if_pos hp]
      exact hp
    · rw [if_neg hp]
      have hdirabs := isAbsolute_of_parent hbase hdir
      exact isAbsolute_of_under hdirabs (under_join hdirabs (by simpa using hp))
  have htext := head?_text hanchored
  unfold patternText
  simp only [Option.bind_some, hdir]
  rw [List.head?_map, htext]
  rfl

end Path

/-! ### Files beside the main file -/

section

variable {fs fs' : FileSystem} {main dir path : Path}

theorem findFile_of_absolute (base : Option Path) (fallback : RelativePathFallback) (h : path.isAbsolute = true) :
    findFile fs base fallback path = if fs.isFile path = true then some path else none := by
  unfold findFile
  simp [h]

theorem findFile_of_relative (hparent : main.parent = some dir) (h : path.isAbsolute = false) :
    findFile fs (some main) .configDirOnly path = (candidates fs .configDirOnly main dir path).find? fs.isFile := by
  unfold findFile
  simp [h, hparent]

theorem candidates_configDirOnly : candidates fs .configDirOnly main dir path =
    dir.join path ::
      if main.fileName = some mainFileName then [(dir.join [.normal mainDirName]).join path] else [] := by
  simp [candidates]

theorem under_of_mem_candidates (hdir : dir.isAbsolute = true) (h : path.isAbsolute = false) {p : Path}
    (hp : p ∈ candidates fs .configDirOnly main dir path) : dir <+: p := by
  have hsub : dir <+: dir.join [.normal mainDirName] := Path.under_join hdir rfl
  rw [candidates_configDirOnly] at hp
  rcases List.mem_cons.mp hp with rfl | hp
  · exact Path.under_join hdir h
  · by_cases hname : main.fileName = some mainFileName
    · rw [if_pos hname] at hp
      rw [List.mem_singleton.mp hp]
      exact hsub.trans (Path.under_join (Path.isAbsolute_of_under hdir hsub) h)
    · rw [if_neg hname] at hp
      cases hp

theorem notFound_configDirOnly (hparent : main.parent = some dir) :
    notFound (some main) .configDirOnly path = if path.isAbsolute = false then dir.join path else path := by
  unfold notFound
  simp [hparent]

/-- A relative path is found beside the main file only. -/
theorem under_of_findFile (hdir : dir.isAbsolute = true) (hparent : main.parent = some dir)
    (h : path.isAbsolute = false) {p : Path} (hp : findFile fs (some main) .configDirOnly path = some p) :
    dir <+: p := by
  rw [findFile_of_relative hparent h] at hp
  exact under_of_mem_candidates hdir h (List.mem_of_find?_eq_some hp)

theorem under_bare (hdir : dir.isAbsolute = true) (hparent : main.parent = some dir) (name : List UInt8) :
    dir <+: (findFile fs (some main) .configDirOnly [.normal name]).getD
      (notFound (some main) .configDirOnly [.normal name]) := by
  cases hp : findFile fs (some main) .configDirOnly [.normal name] with
  | none =>
    rw [Option.getD_none, notFound_configDirOnly hparent, if_pos (Path.isAbsolute_bare name)]
    exact Path.under_join hdir rfl
  | some p => exact under_of_findFile hdir hparent rfl hp

/-- What a path stands for: something beside the main file, or an absolute path itself. -/
theorem resolveFilepath_place (fs : FileSystem) (hdir : dir.isAbsolute = true) (hparent : main.parent = some dir)
    (path : Path) :
    dir <+: resolveFilepath fs (some main) .configDirOnly path ∨
      (path.isAbsolute = true ∧ resolveFilepath fs (some main) .configDirOnly path = path) := by
  have hnotFound : dir <+: notFound (some main) .configDirOnly path ∨
      (path.isAbsolute = true ∧ notFound (some main) .configDirOnly path = path) := by
    rw [notFound_configDirOnly hparent]
    cases habs : path.isAbsolute with
    | true => exact .inr ⟨rfl, rfl⟩
    | false => exact .inl (Path.under_join hdir habs)
  unfold resolveFilepath
  cases hp : findFile fs (some main) .configDirOnly path with
  | some p =>
    cases habs : path.isAbsolute with
    | true =>
      rw [findFile_of_absolute _ _ habs] at hp
      by_cases hfile : fs.isFile path = true
      · rw [if_pos hfile] at hp
        cases hp
        exact .inr ⟨rfl, rfl⟩
      · rw [if_neg hfile] at hp
        cases hp
    | false => exact .inl (under_of_findFile hdir hparent habs hp)
  | none =>
    cases hname : path.fileName with
    | none => exact hnotFound
    | some name =>
      simp only
      split
      · exact .inl (under_bare hdir hparent name)
      · exact hnotFound

variable (hdir : dir.isAbsolute = true) (hparent : main.parent = some dir)
variable (hbeside : ∀ p, dir <+: p → SameAt fs fs' p)

include hdir hparent hbeside

theorem findFile_same (h : path.isAbsolute = true → SameAt fs fs' path) :
    findFile fs' (some main) .configDirOnly path = findFile fs (some main) .configDirOnly path := by
  cases habs : path.isAbsolute with
  | true => rw [findFile_of_absolute _ _ habs, findFile_of_absolute _ _ habs, (h habs).isFile]
  | false =>
    have hsame : ∀ p ∈ candidates fs .configDirOnly main dir path, fs'.isFile p = fs.isFile p :=
      fun p hp => (hbeside p (under_of_mem_candidates hdir habs hp)).isFile
    rw [findFile_of_relative hparent habs, findFile_of_relative hparent habs, ← List.find?_congr hsame]
    rfl

theorem resolveFilepath_same (h : path.isAbsolute = true → SameAt fs fs' path) :
    resolveFilepath fs' (some main) .configDirOnly path = resolveFilepath fs (some main) .configDirOnly path := by
  have hbare : ∀ name, (findFile fs' (some main) .configDirOnly [.normal name]) =
      findFile fs (some main) .configDirOnly [.normal name] := fun name =>
    findFile_same hdir hparent hbeside fun habs => by cases habs
  have hfound : ∀ name, fs'.isFile ((findFile fs (some main) .configDirOnly [.normal name]).getD
        (notFound (some main) .configDirOnly [.normal name])) =
      fs.isFile ((findFile fs (some main) .configDirOnly [.normal name]).getD
        (notFound (some main) .configDirOnly [.normal name])) := by
    intro name
    apply (hbeside _ _).isFile
    exact under_bare hdir hparent name
  unfold resolveFilepath
  rw [findFile_same hdir hparent hbeside h]
  simp only [hbare, hfound]

/-- A `conf-file` line finds the same path in both if they agree on what it asks for. -/
theorem resolveConfFilepath_same {f : Files} (hf : f.confFile = some main) (horder : fs'.hashOrder = fs.hashOrder)
    (h : path.isAbsolute = true → SameAt fs fs' path) (hsearched : ∀ p ∈ f.searched fs path, SameAt fs fs' p) :
    f.resolveConfFilepath fs' path = f.resolveConfFilepath fs path ∧ SameAt fs fs' (f.resolveConfFilepath fs path) := by
  have hresolve := resolveFilepath_same hdir hparent hbeside h
  have hat : SameAt fs fs' (resolveFilepath fs (some main) .configDirOnly path) := by
    rcases resolveFilepath_place fs hdir hparent path with hunder | ⟨habs, heq⟩
    · exact hbeside _ hunder
    · rw [heq]
      exact h habs
  have hindirs : ∀ p, f.inDirs fs' p = f.inDirs fs p := by
    intro p
    unfold Files.inDirs
    rw [horder]
  unfold Files.searched at hsearched
  unfold Files.resolveConfFilepath
  rw [hf] at hsearched ⊢
  simp only [hresolve, hat.isFile, Files.findInDirs_eq, hindirs] at hsearched ⊢
  by_cases hfile : (resolveFilepath fs (some main) .configDirOnly path).isAbsolute = true ∧
      fs.isFile (resolveFilepath fs (some main) .configDirOnly path) = true
  · rw [if_pos hfile, if_pos hfile]
    exact ⟨rfl, hat⟩
  · rw [if_neg hfile] at hsearched
    rw [if_neg hfile, if_neg hfile, find?_eq_of_asked fun p hp => (hsearched p hp).isFile]
    refine ⟨rfl, ?_⟩
    cases hfound : (f.inDirs fs (resolveFilepath fs (some main) .configDirOnly path)).find? fs.isFile with
    | none => exact hat
    | some p => exact hsearched p (mem_asked_of_find? hfound)

/-- And what it asks for and is a file in the second only, is found there. -/
theorem resolveConfFilepath_of_asked {f : Files} (hf : f.confFile = some main) (horder : fs'.hashOrder = fs.hashOrder)
    (h : path.isAbsolute = true → SameAt fs fs' path) {p : Path} (hp : p ∈ f.searched fs path)
    (hfile : fs'.isFile p = true) (hothers : ∀ q, q ≠ p → fs'.isFile q = fs.isFile q) :
    f.resolveConfFilepath fs' path = p := by
  have hresolve := resolveFilepath_same hdir hparent hbeside h
  have hat : fs'.isFile (resolveFilepath fs (some main) .configDirOnly path) =
      fs.isFile (resolveFilepath fs (some main) .configDirOnly path) := by
    rcases resolveFilepath_place fs hdir hparent path with hunder | ⟨habs, heq⟩
    · exact (hbeside _ hunder).isFile
    · rw [heq]
      exact (h habs).isFile
  have hindirs : ∀ p, f.inDirs fs' p = f.inDirs fs p := by
    intro p
    unfold Files.inDirs
    rw [horder]
  unfold Files.searched at hp
  unfold Files.resolveConfFilepath
  rw [hf] at hp ⊢
  simp only [hresolve, hat, Files.findInDirs_eq, hindirs] at hp ⊢
  by_cases hfound : (resolveFilepath fs (some main) .configDirOnly path).isAbsolute = true ∧
      fs.isFile (resolveFilepath fs (some main) .configDirOnly path) = true
  · rw [if_pos hfound] at hp
    cases hp
  · rw [if_neg hfound] at hp
    rw [if_neg hfound, find?_of_mem_asked hfile hothers hp]
    rfl

end

namespace Files

variable {fs : FileSystem} {f : Files} {p : Path}

theorem exists?_of_isFile (h : fs.isFile p = true) : fs.exists? p = true := by
  unfold FileSystem.isFile FileSystem.node? at h
  unfold FileSystem.exists?
  cases hreal : fs.realpath p with
  | none =>
    rw [hreal] at h
    cases h
  | some r => rfl

/-- A file that is there is found under its own path. -/
theorem resolveFilepath_of_isFile (h : fs.isFile p = true) : f.resolveFilepath fs p = p := by
  have hfind : findFile fs f.confFile .full p = some p := by
    unfold findFile
    simp [h]
  unfold Files.resolveFilepath Config.resolveFilepath
  simp only [hfind]
  rw [if_pos (exists?_of_isFile h)]

/-- So is what has no name to be looked for by. -/
theorem resolveFilepath_of_fileName (h : p.isAbsolute = true) (hname : p.fileName = none) :
    f.resolveFilepath fs p = p := by
  have hresolve : Config.resolveFilepath fs f.confFile .full p = p := by
    unfold Config.resolveFilepath
    rw [findFile_of_absolute _ _ h, hname]
    by_cases hfile : fs.isFile p = true
    · rw [if_pos hfile]
    · rw [if_neg hfile]
      simp [notFound]
  have hdirs : f.findInDirs fs p = none := by
    unfold findInDirs
    rw [hname]
    rfl
  unfold Files.resolveFilepath
  simp [hresolve, hdirs]

/-- An absolute path that is a file is the one a `conf-file` line loads. -/
theorem resolveConfFilepath_of_isFile (h : p.isAbsolute = true) (hfile : fs.isFile p = true) :
    f.resolveConfFilepath fs p = p := by
  have hresolve : Config.resolveFilepath fs f.confFile .configDirOnly p = p := by
    unfold Config.resolveFilepath
    rw [findFile_of_absolute _ _ h, if_pos hfile]
  unfold resolveConfFilepath
  simp [hresolve, h, hfile]

end Files

/-! ### All that is loaded -/

section

variable (gr : Grammar S G) (fs : FileSystem) (depth : ℕ)

/-- What is known of files behind the main file and the managed ones, and their text. -/
def wholeText (managed : List Path) (f : Files) : Option (Except BuildError Inlined) :=
  (inlineMain gr fs depth f).bind fun
    | .error e => some (.error e)
    | .ok r => (inlineManaged gr fs depth managed r.1).map fun r' => .ok (r'.1, r.2 ++ r'.2)

/-- `loaded_files` as `build` has loaded everything. -/
def loadedFiles (b : RuntimeConfigBuilder G) : Option (Except BuildError (List Path)) :=
  (loadMain gr fs depth b).bind fun
    | .error e => some (.error e)
    | .ok b => (loadManaged gr fs depth b).map fun b => .ok b.files.loadedFiles

variable {gr fs depth}

theorem loadedFiles_eq (b : RuntimeConfigBuilder G) :
    loadedFiles gr fs depth b = (wholeText gr fs depth (managedFiles fs b.resolvedManagedDir) b.files).map
      (Except.map fun r => r.1.loadedFiles) := by
  unfold loadedFiles wholeText
  rw [loadMain_eq_inline]
  cases inlineMain gr fs depth b.files with
  | none => rfl
  | some o =>
    cases o with
    | error e => rfl
    | ok r =>
      show (loadManaged gr fs depth (b.read gr fs r)).map _ = ((inlineManaged gr fs depth _ r.1).map _).map _
      rw [loadManaged_eq_inline, Option.map_map, Option.map_map]
      rfl

theorem wholeText_isSome (gr : Grammar S G) (f : Files) (h : fs.realpaths.length ≤ depth) (managed : List Path) :
    (wholeText gr fs depth managed f).isSome := by
  have hmain : (inlineMain gr fs depth f).isSome := inlineMain_isSome h
  obtain ⟨o, ho⟩ := Option.isSome_iff_exists.mp hmain
  unfold wholeText
  rw [ho]
  cases o with
  | error e => rfl
  | ok r =>
    show ((inlineManaged gr fs depth managed r.1).map _).isSome
    rw [Option.isSome_map]
    exact inlineManaged_isSome h managed

theorem wholeText_depth {f : Files} (h : fs.realpaths.length ≤ depth) (managed : List Path) :
    wholeText gr fs depth managed f = wholeText gr fs fs.realpaths.length managed f := by
  have hfile : ∀ f path, inlineFile gr fs depth f path = inlineFile gr fs fs.realpaths.length f path :=
    fun f path => (inlineFile_depth gr fs path (unseen_le fs f) h).symm
  unfold wholeText inlineMain inlineManaged
  simp only [hfile]

end

/-- The main file is loaded under its own path, or not at all. -/
def MainHeld (fs : FileSystem) (main : Path) : Prop :=
  fs.exists? main = false ∨ fs.isFile main = true ∨ main.fileName = none

section

variable {gr : Grammar S G} {fs fs' : FileSystem} {main : Path} {K : FlatLine → Prop} {M : Path → Prop}
  {E : Files → Path → Prop} {depth : ℕ}

theorem MainHeld.same (h : MainHeld fs main) (hat : SameAt fs fs' main) : MainHeld fs' main := by
  unfold MainHeld
  rw [hat.exists?, hat.isFile]
  exact h

theorem MainHeld.resolveFilepath (h : MainHeld fs main) (habs : main.isAbsolute = true)
    (hexists : fs.exists? main = true) (f : Files) : f.resolveFilepath fs main = main := by
  rcases h with hnone | hfile | hname
  · rw [hnone] at hexists
    cases hexists
  · exact Files.resolveFilepath_of_isFile hfile
  · exact Files.resolveFilepath_of_fileName habs hname

/-- How the second ends when the first ends so. -/
def SameEnd (gr : Grammar S G) (main : Path) (K : FlatLine → Prop) (M : Path → Prop) (E : Files → Path → Prop) :
    Except BuildError Inlined → Except BuildError Inlined → Prop
  | .error e, o' => o' = .error e
  | .ok r, o' => ∃ r', o' = .ok r' ∧ ((∀ l ∈ r.2, K l) → (∀ p ∈ r'.1.loadedFiles, M p) →
      r' = r ∧ r.1.confFile = some main ∧ ∀ l ∈ r.2, l.Asks gr E)

theorem grows_managed {f : Files} {file : Path} {r : Inlined}
    (hr : (inlineFile gr fs depth f file).map (·.1) = some r) : Grows f r.1 := by
  obtain ⟨r₁, hr₁, rfl⟩ := Option.map_eq_some_iff.mp hr
  exact grows_inlineFile gr fs hr₁

theorem grows_inlineManaged {managed : List Path} {f : Files} {r : Inlined}
    (hr : inlineManaged gr fs depth managed f = some r) : f.loadedFiles ⊆ r.1.loadedFiles := by
  have hgrows : Grows f r.1 := gather_rule (P := fun f r => Grows f r.1) Grows.refl (fun _ _ _ h h' => h.trans h')
    (fun f file r hr => grows_managed hr) managed f r hr
  exact hgrows.1

/-- Whether a path could be read is the same in both. -/
theorem inlineResolved_read_same {inline inline' : Files → Path → Option (Inlined × Bool)} {f : Files} {path : Path}
    (hat : SameAt fs fs' path) {r r' : Inlined × Bool} (hr : inlineResolved gr fs inline f path = some r)
    (hr' : inlineResolved gr fs' inline' f path = some r') : r'.2 = r.2 := by
  unfold inlineResolved at hr hr'
  rw [hat.key, hat.exists?, hat.openFile] at hr'
  by_cases hkey : fs.key path ∈ f.loadedFiles
  · rw [if_pos hkey] at hr hr'
    cases hr
    cases hr'
    rfl
  · rw [if_neg hkey] at hr hr'
    by_cases hexists : fs.exists? path = true
    · simp only [if_pos hexists] at hr hr'
      cases hopen : fs.openFile path with
      | none =>
        simp only [hopen] at hr hr'
        cases hr
        cases hr'
        rfl
      | some content =>
        simp only [hopen] at hr hr'
        obtain ⟨t, -, rfl⟩ := Option.map_eq_some_iff.mp hr
        obtain ⟨t', -, rfl⟩ := Option.map_eq_some_iff.mp hr'
        rfl
    · simp only [if_neg hexists] at hr hr'
      cases hr
      cases hr'
      rfl

namespace Follows

variable (h : Follows gr fs fs' main K M E)

include h

theorem inlineMain_same (habs : main.isAbsolute = true) (hheld : MainHeld fs main) (hat : SameAt fs fs' main)
    {o o' : Except BuildError Inlined} (ho : inlineMain gr fs depth { confFile := some main } = some o)
    (ho' : inlineMain gr fs' depth { confFile := some main } = some o') : SameEnd gr main K M E o o' := by
  unfold inlineMain at ho ho'
  simp only [List.not_mem_nil, if_false] at ho ho'
  rw [hat.exists?] at ho'
  cases hexists : fs.exists? main with
  | false =>
    rw [if_pos hexists] at ho ho'
    cases ho
    cases ho'
    rfl
  | true =>
    have hne : ¬ fs.exists? main = false := by simp [hexists]
    rw [if_neg hne] at ho ho'
    obtain ⟨r, hr, rfl⟩ := Option.map_eq_some_iff.mp ho
    obtain ⟨r', hr', rfl⟩ := Option.map_eq_some_iff.mp ho'
    have hexists' : fs'.exists? main = true := hat.exists?.trans hexists
    unfold inlineFile at hr hr'
    rw [hheld.resolveFilepath habs hexists] at hr
    rw [(hheld.same hat).resolveFilepath habs hexists'] at hr'
    rw [inlineResolved_read_same hat hr hr']
    by_cases hread : r.2 = true
    · rw [if_pos hread, if_pos hread]
      refine ⟨r'.1, rfl, fun hK hM => ?_⟩
      exact h.inlineResolved_same (isLoader_inlineConfFile gr fs' depth) (h.inlineConfFile depth) hat rfl r.1 r'.1
        (by rw [hr]; rfl) (by rw [hr']; rfl) hK hM
    · rw [if_neg hread, if_neg hread]
      rfl

theorem inlineManaged_same {managed : List Path}
    (hmanaged : ∀ file ∈ managed, SameAt fs fs' file ∧ fs.isFile file = true) (f : Files) :
    Same gr main K M E f (inlineManaged gr fs depth managed f) (inlineManaged gr fs' depth managed f) := by
  unfold inlineManaged
  apply gather_same
  · exact fun f file r hr => grows_managed hr
  · intro file hfile f
    obtain ⟨hat, hisFile⟩ := hmanaged file hfile
    have hisFile' : fs'.isFile file = true := hat.isFile.trans hisFile
    unfold inlineFile
    rw [Files.resolveFilepath_of_isFile hisFile, Files.resolveFilepath_of_isFile hisFile']
    exact h.inlineResolved_same (isLoader_inlineConfFile gr fs' depth) (h.inlineConfFile depth) hat

theorem wholeText_same (habs : main.isAbsolute = true) (hheld : MainHeld fs main) (hat : SameAt fs fs' main)
    {managed : List Path} (hmanaged : ∀ file ∈ managed, SameAt fs fs' file ∧ fs.isFile file = true)
    {o o' : Except BuildError Inlined} (ho : wholeText gr fs depth managed { confFile := some main } = some o)
    (ho' : wholeText gr fs' depth managed { confFile := some main } = some o') : SameEnd gr main K M E o o' := by
  obtain ⟨o₁, h₁, ho⟩ := Option.bind_eq_some_iff.mp ho
  obtain ⟨o₁', h₁', ho'⟩ := Option.bind_eq_some_iff.mp ho'
  have hfirst := h.inlineMain_same habs hheld hat h₁ h₁'
  cases o₁ with
  | error e =>
    rw [show o₁' = .error e from hfirst] at ho'
    cases ho
    cases ho'
    rfl
  | ok r₁ =>
    obtain ⟨r₁', rfl, hsame⟩ := hfirst
    obtain ⟨r₂, h₂, rfl⟩ := Option.map_eq_some_iff.mp ho
    obtain ⟨r₂', h₂', rfl⟩ := Option.map_eq_some_iff.mp ho'
    have hrest : r₁'.1.loadedFiles ⊆ r₂'.1.loadedFiles := grows_inlineManaged h₂'
    refine ⟨_, rfl, fun hK hM => ?_⟩
    obtain ⟨rfl, hmain, hE⟩ := hsame (fun l hl => hK l (List.mem_append_left _ hl)) fun p hp => hM p (hrest hp)
    obtain ⟨rfl, hmain, hE'⟩ := h.inlineManaged_same hmanaged r₁'.1 hmain r₂ r₂' h₂ h₂'
      (fun l hl => hK l (List.mem_append_right _ hl)) hM
    refine ⟨rfl, hmain, fun l hl => ?_⟩
    rcases List.mem_append.mp hl with hl | hl
    · exact hE l hl
    · exact hE' l hl

end Follows

end

/-! ### The managed files -/

def managedDir (main : Path) : Option Path :=
  (RuntimeConfigBuilder.deriveConfDir main).map fun dir => dir.join [.normal [109, 97, 110, 97, 103, 101, 100]]

section

variable {fs fs' : FileSystem} {main dir : Path} (hdir : dir.isAbsolute = true) (hparent : main.parent = some dir)

include hdir hparent

theorem managedDir_eq : managedDir main = some (dir.join [.normal [109, 97, 110, 97, 103, 101, 100]]) := by
  have hne : dir ≠ [] := by
    rintro rfl
    cases hdir
  unfold managedDir RuntimeConfigBuilder.deriveConfDir
  simp [hparent, hne]

theorem under_of_mem_managedFiles {file : Path} (h : file ∈ managedFiles fs (managedDir main)) :
    dir <+: file ∧ fs.isFile file = true := by
  have hmanaged := Path.under_join hdir (Path.isAbsolute_bare [109, 97, 110, 97, 103, 101, 100])
  rw [managedDir_eq hdir hparent] at h
  unfold managedFiles at h
  simp only at h
  split at h
  · have hmem := List.mem_filter.mp (List.mem_insertionSort _ |>.mp h)
    obtain ⟨name, -, rfl⟩ := List.mem_map.mp hmem.1
    refine ⟨hmanaged.trans (Path.under_join (Path.isAbsolute_of_under hdir hmanaged) rfl), ?_⟩
    exact (Bool.and_eq_true_iff.mp hmem.2).1
  · cases h

theorem managedFiles_same (hbeside : ∀ p, dir <+: p → SameAt fs fs' p) :
    managedFiles fs' (managedDir main) = managedFiles fs (managedDir main) := by
  have hmanaged := Path.under_join hdir (Path.isAbsolute_bare [109, 97, 110, 97, 103, 101, 100])
  have hat := hbeside _ hmanaged
  have hisDir : fs'.isDir (dir.join [.normal [109, 97, 110, 97, 103, 101, 100]]) =
      fs.isDir (dir.join [.normal [109, 97, 110, 97, 103, 101, 100]]) := by
    unfold FileSystem.isDir
    rw [hat.node?]
  have hreadDir : fs'.readDir (dir.join [.normal [109, 97, 110, 97, 103, 101, 100]]) =
      fs.readDir (dir.join [.normal [109, 97, 110, 97, 103, 101, 100]]) := by
    unfold FileSystem.readDir
    rw [hat.node?]
  rw [managedDir_eq hdir hparent]
  unfold managedFiles
  simp only [hisDir, hreadDir]
  split
  · congr 1
    apply List.filter_congr
    intro p hp
    obtain ⟨name, -, rfl⟩ := List.mem_map.mp hp
    rw [(hbeside _ (hmanaged.trans (Path.under_join (Path.isAbsolute_of_under hdir hmanaged) rfl))).isFile]
  · rfl

end

end Config
end SmartDns
