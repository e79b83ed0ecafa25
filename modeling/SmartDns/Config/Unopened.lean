/-
# Files that cannot be opened

A file that is there and cannot be opened is complained of and passed over: all other lines
are read as if it were empty (`build_emptied`). With that, what loading the main file comes
to (`single_text_of_build`). The text alone, without the marks around the lines of files
that go into a group, does not say it (`lines_alone_lose_groups`).

Key definition: `FileSystem.emptied`.
Key theorem: `single_text_of_build`.
-/
import SmartDns.Config.Includes

namespace SmartDns
namespace Config

variable {S G : Type}

/-! ### A file that cannot be opened -/

/-- The file system with an empty file there. -/
def FileSystem.emptied (fs : FileSystem) (real : Path) : FileSystem :=
  { fs with nodes := fun p => if p = real then { fs.nodes p with content := some {} } else fs.nodes p }

section

variable {gr : Grammar S G} {fs : FileSystem} {real : Path}

theorem node?_emptied {α : Type} (g : Node → α) (hg : ∀ n : Node, g { n with content := some {} } = g n) (p : Path) :
    ((fs.emptied real).node? p).map g = (fs.node? p).map g := by
  unfold FileSystem.node?
  rw [Option.map_map, Option.map_map]
  show (fs.realpath p).map _ = _
  congr 1
  funext r
  show g (if r = real then _ else _) = _
  by_cases h : r = real
  · rw [if_pos h]
    exact hg _
  · rw [if_neg h]
    rfl

theorem key_emptied : (fs.emptied real).key = fs.key := rfl

theorem exists?_emptied : (fs.emptied real).exists? = fs.exists? := rfl

@[simp] theorem isFile_emptied : (fs.emptied real).isFile = fs.isFile := by
  funext p
  unfold FileSystem.isFile
  rw [node?_emptied _ fun _ => rfl]

theorem openFile_emptied_of_ne {p : Path} (h : fs.realpath p ≠ some real) :
    (fs.emptied real).openFile p = fs.openFile p := by
  unfold FileSystem.openFile FileSystem.node?
  show ((fs.realpath p).map _).bind _ = _
  cases hreal : fs.realpath p with
  | none => rfl
  | some r =>
    have hne : r ≠ real := fun heq => h (by rw [hreal, heq])
    show (if r = real then _ else _ : Node).content = _
    rw [if_neg hne]
    rfl

theorem openFile_emptied_of_eq {p : Path} (h : fs.realpath p = some real) :
    (fs.emptied real).openFile p = some {} := by
  unfold FileSystem.openFile FileSystem.node?
  show ((fs.realpath p).map _).bind _ = _
  rw [h]
  show (if real = real then _ else _ : Node).content = _
  rw [if_pos rfl]

theorem resolveFilepath_emptied : resolveFilepath (fs.emptied real) = resolveFilepath fs := by
  have hfind : findFile (fs.emptied real) = findFile fs := by
    unfold findFile
    simp only [isFile_emptied]
    rfl
  unfold resolveFilepath
  simp only [hfind, isFile_emptied]

theorem findInDirs_emptied (f : Files) : f.findInDirs (fs.emptied real) = f.findInDirs fs := by
  unfold Files.findInDirs
  simp only [isFile_emptied]
  rfl

theorem files_resolveFilepath_emptied (f : Files) : f.resolveFilepath (fs.emptied real) = f.resolveFilepath fs := by
  unfold Files.resolveFilepath
  simp only [resolveFilepath_emptied, findInDirs_emptied]
  rfl

theorem resolveConfFilepath_emptied (f : Files) :
    f.resolveConfFilepath (fs.emptied real) = f.resolveConfFilepath fs := by
  unfold Files.resolveConfFilepath
  simp only [resolveFilepath_emptied, findInDirs_emptied, isFile_emptied]

theorem expandConfFiles_emptied (f : Files) : f.expandConfFiles (fs.emptied real) = f.expandConfFiles fs := by
  unfold Files.expandConfFiles Files.expandConfPattern
  simp only [isFile_emptied]
  rfl

theorem inlineLines_emptied (inline : Files → Path → Option (Inlined × Bool)) :
    inlineLines gr (fs.emptied real) inline = inlineLines gr fs inline := by
  unfold inlineLines inlineAt
  simp only [expandConfFiles_emptied]

theorem readText_emptied (d : Draft G) (t : List FlatLine) :
    readText gr (fs.emptied real) d t = readText gr fs d t := by
  have happly : FlatLine.apply gr (fs.emptied real) = FlatLine.apply gr fs := by
    funext d l
    cases l with
    | read line lineno base files =>
      show d.configLine gr (files.resolveFilepath (fs.emptied real)) line lineno = _
      rw [files_resolveFilepath_emptied]
      rfl
    | _ => rfl
  unfold readText
  rw [happly]

theorem managedFiles_emptied (dir : Option Path) : managedFiles (fs.emptied real) dir = managedFiles fs dir := by
  have hdir : (fs.emptied real).isDir = fs.isDir := by
    funext p
    unfold FileSystem.isDir
    rw [node?_emptied _ fun _ => rfl]
  have hnames : (fs.emptied real).readDir = fs.readDir := by
    funext p
    unfold FileSystem.readDir
    rw [node?_emptied _ fun _ => rfl]
  unfold managedFiles
  simp only [hdir, hnames, isFile_emptied]

variable {inline inline' : Files → Path → Option (Inlined × Bool)}

/-- The text of another file is the same, and so is whether it could be read. -/
theorem inlineResolved_emptied_of_ne (grows : ∀ f p r, inline' f p = some r → Grows f r.1.1)
    (h : ∀ f p, f.confFile.isSome → (inline' f p).map (·.1) = (inline f p).map (·.1)) {f : Files} {path : Path}
    (hf : f.confFile.isSome) (hne : fs.realpath path ≠ some real) :
    inlineResolved gr (fs.emptied real) inline' f path = inlineResolved gr fs inline f path := by
  have hlines (content : Content) : inlineLines gr fs inline' path (entered fs f path) (content.lines.zipIdx 1) =
      inlineLines gr fs inline path (entered fs f path) (content.lines.zipIdx 1) := by
    apply inlineLines_congr (P := fun f => f.confFile.isSome) ?_ grows h
    · exact (grows_entered f path).2 hf
    · exact fun f f' hg => hg.2
  unfold entered at hlines
  unfold inlineResolved
  rw [openFile_emptied_of_ne hne, inlineLines_emptied, key_emptied, exists?_emptied]
  simp only [hlines]

/-- The file itself has no lines either way. -/
theorem inlineResolved_emptied (grows : ∀ f p r, inline' f p = some r → Grows f r.1.1)
    (h : ∀ f p, f.confFile.isSome → (inline' f p).map (·.1) = (inline f p).map (·.1))
    (hclosed : (fs.nodes real).content = none) {f : Files} {path : Path} (hf : f.confFile.isSome) :
    (inlineResolved gr (fs.emptied real) inline' f path).map (·.1) = (inlineResolved gr fs inline f path).map (·.1) := by
  by_cases hreal : fs.realpath path = some real
  · obtain ⟨main, hmain⟩ := Option.isSome_iff_exists.mp hf
    have hopen : fs.openFile path = none := by
      unfold FileSystem.openFile FileSystem.node?
      rw [hreal]
      exact hclosed
    unfold inlineResolved
    rw [openFile_emptied_of_eq hreal, hopen, hmain]
    show Option.map _ (if fs.key path ∈ f.loadedFiles then _ else if fs.exists? path then _ else _) = _
    split
    · rfl
    · split <;> rfl
  · rw [inlineResolved_emptied_of_ne grows h hf hreal]

variable (gr)

theorem inlineConfFile_emptied (hclosed : (fs.nodes real).content = none) : ∀ (depth : ℕ) (f : Files) (path : Path),
    f.confFile.isSome → (inlineConfFile gr (fs.emptied real) depth f path).map (·.1) =
      (inlineConfFile gr fs depth f path).map (·.1)
  | 0, _, _, _ => rfl
  | depth + 1, f, path, hf => by
    unfold inlineConfFile
    rw [resolveConfFilepath_emptied]
    exact inlineResolved_emptied (grows_inlineConfFile gr _ depth) (inlineConfFile_emptied hclosed depth) hclosed hf

theorem inlineFile_emptied (hclosed : (fs.nodes real).content = none) {depth : ℕ} {f : Files} {path : Path}
    (hf : f.confFile.isSome) :
    (inlineFile gr (fs.emptied real) depth f path).map (·.1) = (inlineFile gr fs depth f path).map (·.1) := by
  unfold inlineFile
  rw [files_resolveFilepath_emptied]
  exact inlineResolved_emptied (grows_inlineConfFile gr _ depth) (inlineConfFile_emptied gr hclosed depth) hclosed hf

/-- The main file is another one. -/
theorem inlineMain_emptied (hclosed : (fs.nodes real).content = none) {depth : ℕ} {f : Files} {main : Path}
    (hmain : f.confFile = some main) (hne : fs.realpath (f.resolveFilepath fs main) ≠ some real) :
    inlineMain gr (fs.emptied real) depth f = inlineMain gr fs depth f := by
  have hfile : inlineFile gr (fs.emptied real) depth f main = inlineFile gr fs depth f main := by
    unfold inlineFile
    rw [files_resolveFilepath_emptied]
    exact inlineResolved_emptied_of_ne (grows_inlineConfFile gr _ depth) (inlineConfFile_emptied gr hclosed depth)
      (by rw [hmain]; rfl) hne
  unfold inlineMain
  rw [hmain]
  simp only [hfile]
  rfl

theorem inlineManaged_emptied (hclosed : (fs.nodes real).content = none) {depth : ℕ} {f : Files}
    (hf : f.confFile.isSome) (managed : List Path) :
    inlineManaged gr (fs.emptied real) depth managed f = inlineManaged gr fs depth managed f := by
  apply gather_congr (P := fun f => f.confFile.isSome) ?_ ?_ managed f hf
  · exact fun f file hf => inlineFile_emptied gr hclosed hf
  · intro f file r hf hr
    obtain ⟨r', hr', rfl⟩ := Option.map_eq_some_iff.mp hr
    exact (grows_inlineFile gr _ hr').2 hf

theorem grows_inlineMain {depth : ℕ} {f : Files} {r : Inlined} (h : inlineMain gr fs depth f = some (.ok r)) :
    Grows f r.1 := (fresh_inlineMain h).grows

theorem singleText_emptied (hclosed : (fs.nodes real).content = none) (depth : ℕ) {f : Files} {main : Path}
    (hmain : f.confFile = some main) (hne : fs.realpath (f.resolveFilepath fs main) ≠ some real) (managed : List Path) :
    singleText gr (fs.emptied real) depth managed f = singleText gr fs depth managed f := by
  unfold singleText
  rw [inlineMain_emptied gr hclosed hmain hne]
  apply Option.bind_congr
  intro r hr
  cases r with
  | error e => rfl
  | ok r =>
    have hf : r.1.confFile.isSome := (grows_inlineMain gr hr).2 (by rw [hmain]; rfl)
    exact congrArg (Option.map _) (inlineManaged_emptied gr hclosed hf managed)

/-- **A file that cannot be opened changes nothing of the rest.** -/
theorem build_emptied (hclosed : (fs.nodes real).content = none) (depth : ℕ) {b : RuntimeConfigBuilder G} {main : Path}
    (hmain : b.files.confFile = some main) (hne : fs.realpath (b.files.resolveFilepath fs main) ≠ some real) :
    build gr (fs.emptied real) depth b = build gr fs depth b := by
  rw [build_eq_singleText, build_eq_singleText, managedFiles_emptied, singleText_emptied gr hclosed depth hmain hne]
  simp only [readText_emptied]

end

/-! ### Building is reading the single text -/

section

variable (gr : Grammar S G) (fs : FileSystem)

/-- **Loading the main file ends, with what reading its single text gives**, in which no line of
a file stands twice; and a file that cannot be opened is as good as an empty one. -/
theorem single_text_of_build (b : RuntimeConfigBuilder G) (main : Path) :
    ∃ text : Except BuildError (List FlatLine),
      (∀ depth, fs.realpaths.length ≤ depth →
        singleText gr fs depth (managedFiles fs (b.withConfFile main).resolvedManagedDir) (b.withConfFile main).files =
          some text ∧
        build gr fs depth (b.withConfFile main) = some (text.bind fun t => finish (readText gr fs b.draft t))) ∧
      (∀ t, text = .ok t → (places fs t).Nodup) ∧
      ∀ real, (fs.nodes real).content = none →
        fs.realpath ((b.withConfFile main).files.resolveFilepath fs main) ≠ some real →
        ∀ depth, build gr (fs.emptied real) depth (b.withConfFile main) = build gr fs depth (b.withConfFile main) := by
  have hends : (singleText gr fs fs.realpaths.length (managedFiles fs (b.withConfFile main).resolvedManagedDir)
      (b.withConfFile main).files).isSome := singleText_isSome (Nat.le_refl _) _
  obtain ⟨text, htext⟩ := Option.isSome_iff_exists.mp hends
  refine ⟨text, fun depth hdepth => ?_, fun t ht => ?_, fun real hclosed hne depth => ?_⟩
  · have hany : singleText gr fs depth (managedFiles fs (b.withConfFile main).resolvedManagedDir)
        (b.withConfFile main).files = some text := (singleText_depth hdepth _).trans htext
    refine ⟨hany, ?_⟩
    rw [build_eq_singleText, hany]
    rfl
  · rw [ht] at htext
    exact nodup_singleText htext
  · exact build_emptied gr hclosed depth rfl hne

end

/-- The lines of the text, without the marks. -/
def linesAlone (t : List FlatLine) : List FlatLine :=
  t.filter fun
    | .read .. => true
    | _ => false

/-- The number of address rules of the group `office`. -/
def officeRules : Option (Except BuildError (Draft Unit)) → Option ℕ
  | some (.ok d) => (d.ruleGroups.get? "office").map (·.addressRules.length)
  | _ => none

/-- The text of the two files. -/
def officeText : List FlatLine :=
  [.read [99] (some 1) (some mainPath) { confFile := some mainPath, loadedFiles := [mainPath] }, .enters "office",
    .read [97] (some 1) (some includedPath) { confFile := some mainPath, loadedFiles := [includedPath, mainPath] },
    .leaves]

/-- **The lines alone do not say which group they are of**: the rule of a file that goes into a
group is the default group's if the file's lines just stand in the place of the include. -/
theorem lines_alone_lose_groups :
    ¬ ∀ t, singleText letters (twoFiles [99] [97]) 2 [] { confFile := some mainPath } = some (.ok t) →
      build letters (twoFiles [99] [97]) 2 (({ draft := { settings := () } } : RuntimeConfigBuilder Unit).withConfFile
        mainPath) = some (finish (readText letters (twoFiles [99] [97]) { settings := () } (linesAlone t))) := by
  intro h
  have hrules : (some 1 : Option ℕ) = none :=
    calc some 1 = officeRules (build letters (twoFiles [99] [97]) 2
          (({ draft := { settings := () } } : RuntimeConfigBuilder Unit).withConfFile mainPath)) := rfl
      _ = officeRules (some (finish (readText letters (twoFiles [99] [97]) { settings := () }
          (linesAlone officeText)))) := congrArg officeRules (h officeText rfl)
      _ = none := rfl
  cases hrules

end Config
end SmartDns
