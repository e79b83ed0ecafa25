/-
# The single text of a configuration

The text one gets from the main configuration file by putting the lines of a file in the
place of the first `conf-file` line that names it and dropping what later lines name it
for. Where the line has a group, marks say where that group is entered and left. Each line
knows where it comes from and what is known of files where it stands.

Loading the files is reading that text (`build_eq_singleText`): what is open, the rules and
the parameters do not bear on which files are read.

Key definitions: `FlatLine`, `inlineConfFile`, `singleText`.
Key theorems: `loadConfFile_eq_inline`, `build_eq_singleText`.
-/
import SmartDns.Config.Load

namespace SmartDns
namespace Config

variable {S G : Type}

/-! ### The text -/

/-- A line of the text, or the marks around the lines of a file that goes into a group. -/
inductive FlatLine
  | read (line : List UInt8) (lineno : Option ℕ) (base : Option Path) (files : Files)
  | enters (group : String)
  | leaves

/-- What is known of files behind a piece of text, and the piece. -/
abbrev Inlined := Files × List FlatLine

/-- Pieces of text one after another. -/
def gather {α : Type} (piece : Files → α → Option Inlined) : Files → List α → Option Inlined
  | f, [] => some (f, [])
  | f, a :: as => (piece f a).bind fun r => (gather piece r.1 as).map fun r' => (r'.1, r.2 ++ r'.2)

def inGroup (group : Option String) (t : List FlatLine) : List FlatLine :=
  match group with
  | some name => .enters name :: (t ++ [.leaves])
  | none => t

section

variable (gr : Grammar S G) (fs : FileSystem) (inline : Files → Path → Option (Inlined × Bool))

def inlineInclude (group : Option String) (f : Files) (file : Path) : Option Inlined :=
  (inline f file).map fun r => (r.1.1.addDir file, inGroup group r.1.2)

/-- The line itself stays, and does nothing more. -/
def inlineAt (line : List UInt8) (lineno : Option ℕ) (base : Option Path) (f : Files) : Option Inlined :=
  match gr.parseConfig line with
  | some (.confFile v) =>
    (gather (inlineInclude inline v.group) f (f.expandConfFiles fs v.path base)).map fun r =>
      (r.1, .read line lineno base f :: r.2)
  | _ => some (f, [.read line lineno base f])

def inlineLines (path : Path) : Files → List (List UInt8 × ℕ) → Option Inlined :=
  gather fun f l => inlineAt gr fs inline l.1 (some l.2) (some path) f

def inlineResolved (f : Files) (path : Path) : Option (Inlined × Bool) :=
  if fs.key path ∈ f.loadedFiles then some ((f, []), true)
  else
    let f := { f with loadedFiles := fs.key path :: f.loadedFiles }
    if fs.exists? path then
      match fs.openFile path with
      | none => some ((f, []), false)
      | some content =>
        let f := { f with confFile := f.confFile.or (some path) }
        (inlineLines gr fs inline path f (content.lines.zipIdx 1)).map fun r => (r, !content.broken)
    else some ((f, []), true)

end

def inlineConfFile (gr : Grammar S G) (fs : FileSystem) : ℕ → Files → Path → Option (Inlined × Bool)
  | 0, _, _ => none
  | depth + 1, f, path => inlineResolved gr fs (inlineConfFile gr fs depth) f (f.resolveConfFilepath fs path)

def inlineFile (gr : Grammar S G) (fs : FileSystem) (depth : ℕ) (f : Files) (path : Path) : Option (Inlined × Bool) :=
  inlineResolved gr fs (inlineConfFile gr fs depth) f (f.resolveFilepath fs path)

section

variable (gr : Grammar S G) (fs : FileSystem) (depth : ℕ)

def inlineMain (f : Files) : Option (Except BuildError Inlined) :=
  match f.confFile with
  | none => some (.ok (f, []))
  | some confFile =>
    if fs.exists? confFile = false then some (.error (.noConfFile confFile))
    else if confFile ∈ f.loadedFiles then some (.ok (f, []))
    else (inlineFile gr fs depth f confFile).map fun r => if r.2 then .ok r.1 else .error (.unreadable confFile)

def inlineManaged (managed : List Path) (f : Files) : Option Inlined :=
  gather (fun f file => (inlineFile gr fs depth f file).map (·.1)) f managed

/-- The text of the main file and of the managed files. -/
def singleText (managed : List Path) (f : Files) : Option (Except BuildError (List FlatLine)) :=
  (inlineMain gr fs depth f).bind fun
    | .error e => some (.error e)
    | .ok r => (inlineManaged gr fs depth managed r.1).map fun r' => .ok (r.2 ++ r'.2)

end

/-! ### Reading it -/

section

variable (gr : Grammar S G) (fs : FileSystem)

def FlatLine.apply (d : Draft G) : FlatLine → Draft G
  | .read line lineno _ files => d.configLine gr (files.resolveFilepath fs) line lineno
  | .enters group => d.pushGroup group {}
  | .leaves => d.popGroup

def readText (d : Draft G) (t : List FlatLine) : Draft G := t.foldl (FlatLine.apply gr fs) d

@[simp] theorem readText_nil (d : Draft G) : readText gr fs d [] = d := rfl

@[simp] theorem readText_cons (d : Draft G) (l : FlatLine) (t : List FlatLine) :
    readText gr fs d (l :: t) = readText gr fs (l.apply gr fs d) t := rfl

theorem readText_append (d : Draft G) (t t' : List FlatLine) :
    readText gr fs d (t ++ t') = readText gr fs (readText gr fs d t) t' := List.foldl_append

/-- The builder once the piece of text is read. -/
def RuntimeConfigBuilder.read (b : RuntimeConfigBuilder G) (r : Inlined) : RuntimeConfigBuilder G :=
  { b with draft := readText gr fs b.draft r.2, files := r.1 }

variable {gr fs}

@[simp] theorem files_read (b : RuntimeConfigBuilder G) (r : Inlined) : (b.read gr fs r).files = r.1 := rfl

theorem read_read (b : RuntimeConfigBuilder G) (r r' : Inlined) :
    (b.read gr fs r).read gr fs r' = b.read gr fs (r'.1, r.2 ++ r'.2) := by
  unfold RuntimeConfigBuilder.read
  rw [readText_append]

/-- Loading one thing after another is reading piece after piece. -/
theorem foldlM_eq_gather {α : Type} {act : RuntimeConfigBuilder G → α → Option (RuntimeConfigBuilder G)}
    {piece : Files → α → Option Inlined} (h : ∀ b a, act b a = (piece b.files a).map (b.read gr fs)) (as : List α) :
    ∀ b : RuntimeConfigBuilder G, as.foldlM act b = (gather piece b.files as).map (b.read gr fs) := by
  induction as with
  | nil => intro b; rfl
  | cons a as ih =>
    intro b
    rw [List.foldlM_cons, h, gather]
    cases piece b.files a with
    | none => rfl
    | some r =>
      have hrest := ih (b.read gr fs r)
      rw [files_read] at hrest
      show as.foldlM act (b.read gr fs r) = ((gather piece r.1 as).map fun r' => (r'.1, r.2 ++ r'.2)).map (b.read gr fs)
      rw [hrest, Option.map_map]
      exact congrArg (fun g => (gather piece r.1 as).map g) (funext fun r' => read_read b r r')

/-- A loader reads what a text gives. -/
def Reads (gr : Grammar S G) (fs : FileSystem) (load : RuntimeConfigBuilder G → Path → Option (Loaded G))
    (inline : Files → Path → Option (Inlined × Bool)) : Prop :=
  ∀ b path, load b path = (inline b.files path).map fun r => (b.read gr fs r.1, r.2)

variable {load : RuntimeConfigBuilder G → Path → Option (Loaded G)}
  {inline : Files → Path → Option (Inlined × Bool)}

theorem includeFile_eq_inline (h : Reads gr fs load inline) (group : Option String) (b : RuntimeConfigBuilder G)
    (file : Path) : includeFile load group b file = (inlineInclude inline group b.files file).map (b.read gr fs) := by
  unfold includeFile inlineInclude
  rw [Option.map_map]
  cases group with
  | none =>
    simp only
    rw [h, Option.map_map]
    rfl
  | some name =>
    simp only
    rw [h, Option.map_map]
    congr 1
    funext r
    simp only [Function.comp_apply, Option.isSome_some, if_true, RuntimeConfigBuilder.read, inGroup, readText_cons,
      readText_append]
    rfl

theorem configAt_eq_inline (h : Reads gr fs load inline) (b : RuntimeConfigBuilder G) (line : List UInt8)
    (lineno : Option ℕ) (base : Option Path) :
    configAt gr fs load b line lineno base =
      (inlineAt gr fs inline line lineno base b.files).map (b.read gr fs) := by
  unfold configAt inlineAt
  cases hitem : gr.parseConfig line with
  | none => rfl
  | some item =>
    cases item with
    | confFile v =>
      simp only
      rw [foldlM_eq_gather fun b a => includeFile_eq_inline h v.group b a, Option.map_map]
      rfl
    | _ => rfl

theorem configLines_eq_inline (h : Reads gr fs load inline) (path : Path) (b : RuntimeConfigBuilder G)
    (lines : List (List UInt8 × ℕ)) :
    configLines gr fs load path b lines = (inlineLines gr fs inline path b.files lines).map (b.read gr fs) := by
  unfold configLines inlineLines
  apply foldlM_eq_gather
  intro b l
  exact configAt_eq_inline h b l.1 (some l.2) (some path)

theorem loadResolvedFile_eq_inline (h : Reads gr fs load inline) :
    Reads gr fs (loadResolvedFile gr fs load) (inlineResolved gr fs inline) := by
  intro b path
  unfold loadResolvedFile inlineResolved
  by_cases hkey : fs.key path ∈ b.files.loadedFiles
  · rw [if_pos hkey, if_pos hkey]
    rfl
  · rw [if_neg hkey, if_neg hkey]
    by_cases hexists : fs.exists? path = true
    · simp only [if_pos hexists]
      cases fs.openFile path with
      | none => rfl
      | some content =>
        simp only
        rw [configLines_eq_inline h, Option.map_map, Option.map_map]
        rfl
    · simp only [if_neg hexists]
      rfl

/-- **Loading a file is reading its text.** -/
theorem loadConfFile_eq_inline (depth : ℕ) : Reads gr fs (loadConfFile gr fs depth) (inlineConfFile gr fs depth) := by
  induction depth with
  | zero => intro b path; rfl
  | succ depth ih =>
    intro b path
    exact loadResolvedFile_eq_inline ih b (b.files.resolveConfFilepath fs path)

theorem loadFile_eq_inline (depth : ℕ) : Reads gr fs (loadFile gr fs depth) (inlineFile gr fs depth) :=
  fun b path => loadResolvedFile_eq_inline (loadConfFile_eq_inline depth) b (b.files.resolveFilepath fs path)

theorem loadMain_eq_inline (depth : ℕ) (b : RuntimeConfigBuilder G) :
    loadMain gr fs depth b = (inlineMain gr fs depth b.files).map fun r => r.map (b.read gr fs) := by
  unfold loadMain inlineMain
  cases b.files.confFile with
  | none => rfl
  | some confFile =>
    simp only
    by_cases hexists : fs.exists? confFile = false
    · rw [if_pos hexists, if_pos hexists]
      rfl
    · rw [if_neg hexists, if_neg hexists]
      by_cases hloaded : confFile ∈ b.files.loadedFiles
      · rw [if_pos hloaded, if_pos hloaded]
        rfl
      · rw [if_neg hloaded, if_neg hloaded, loadFile_eq_inline, Option.map_map, Option.map_map]
        congr 1
        funext r
        by_cases hok : r.2 = true <;> simp [hok, Except.map]

theorem loadManaged_eq_inline (depth : ℕ) (b : RuntimeConfigBuilder G) :
    loadManaged gr fs depth b =
      (inlineManaged gr fs depth (managedFiles fs b.resolvedManagedDir) b.files).map (b.read gr fs) := by
  unfold loadManaged inlineManaged
  apply foldlM_eq_gather
  intro b file
  rw [loadFile_eq_inline, Option.map_map, Option.map_map]
  rfl

/-- **Building the configuration is reading its single text.** -/
theorem build_eq_singleText (depth : ℕ) (b : RuntimeConfigBuilder G) :
    build gr fs depth b =
      (singleText gr fs depth (managedFiles fs b.resolvedManagedDir) b.files).map fun r =>
        r.bind fun t => finish (readText gr fs b.draft t) := by
  unfold build singleText
  rw [loadMain_eq_inline]
  cases inlineMain gr fs depth b.files with
  | none => rfl
  | some r =>
    cases r with
    | error e => rfl
    | ok r =>
      show (loadManaged gr fs depth (b.read gr fs r)).map _ = ((inlineManaged gr fs depth _ r.1).map _).map _
      rw [loadManaged_eq_inline, Option.map_map, Option.map_map]
      congr 1
      funext r'
      simp only [Function.comp_apply, read_read]
      rfl

end

/-! ### A configuration of two files -/

def mainPath : Path := [.rootDir, .normal [109]]

def includedPath : Path := [.rootDir, .normal [105]]

/-- The main file `/m` and a file `/i`. -/
def twoFiles (main included : List UInt8) : FileSystem where
  realpath p := if p = mainPath ∨ p = includedPath then some p else none
  nodes p := { isFile := true, content := some { bytes := if p = mainPath then main else included } }
  realpaths := [mainPath, includedPath]
  realpath_mem := by
    intro p r h
    split at h
    · cases h
      simpa using ‹p = mainPath ∨ p = includedPath›
    · cases h
  glob _ := []
  hashOrder ds := ds
  hashOrder_perm _ := List.Perm.refl _
  currentDir := none
  exeDir := none

/-- Lines of one letter: `conf-file /i -g office`, an address rule, `group-begin home` and `group-end`. -/
def letters : Grammar Unit Unit where
  parseConfig line :=
    if line = [99] then some (.confFile ⟨includedPath, some "office"⟩)
    else if line = [97] then some (.rule (.address ⟨.set "printers", .soa⟩))
    else if line = [98] then some (.groupBegin { name := "home" })
    else if line = [101] then some .groupEnd
    else none
  detectBrokenProxyCredential _ := none
  assign _ _ g := g

end Config
end SmartDns
