/-
# Loading the configuration

`RuntimeConfigBuilder::build` and what it calls to read files: the main configuration
file, the files that its `conf-file` lines name, theirs in turn, and the files of the
`managed` directory. A file is entered in `loaded_files` under its real path before its
lines are read, and one that is there is not read again. A `conf-file` line with a group
opens the group for each of its files and closes the innermost group behind it.

Loading counts its depth down; at zero it has no result.

Key definitions: `RuntimeConfigBuilder`, `configAt`, `loadResolvedFile`, `loadConfFile`,
`build`.
-/
import SmartDns.Config.Draft

namespace SmartDns
namespace Config

open Lib

variable {S G : Type}

structure RuntimeConfigBuilder (G : Type) where
  draft : Draft G
  files : Files := {}
  confDir : Option Path := none

namespace RuntimeConfigBuilder

variable (b : RuntimeConfigBuilder G)

def pushGroup (name : String) : RuntimeConfigBuilder G := { b with draft := b.draft.pushGroup name {} }

def popGroup : RuntimeConfigBuilder G := { b with draft := b.draft.popGroup }

/-- `derive_conf_dir_from_conf_file`. -/
def deriveConfDir (confFile : Path) : Option Path :=
  confFile.parent.bind fun dir => if dir = [] then none else some dir

def withConfFile (path : Path) : RuntimeConfigBuilder G :=
  { b with files := { b.files with confFile := some path }, confDir := b.confDir.or (deriveConfDir path) }

def resolvedManagedDir : Option Path := b.confDir.map fun dir => dir.join [.normal [109, 97, 110, 97, 103, 101, 100]]

end RuntimeConfigBuilder

/-- A builder, and whether the call went well. -/
abbrev Loaded (G : Type) := RuntimeConfigBuilder G × Bool

section

variable (gr : Grammar S G) (fs : FileSystem) (load : RuntimeConfigBuilder G → Path → Option (Loaded G))

/-- One of the files of a `conf-file` line. What goes wrong with it is only logged. -/
def includeFile (group : Option String) (b : RuntimeConfigBuilder G) (file : Path) : Option (RuntimeConfigBuilder G) :=
  let b :=
    match group with
    | some name => b.pushGroup name
    | none => b
  (load b file).map fun r =>
    let b := if group.isSome then r.1.popGroup else r.1
    { b with files := b.files.addDir file }

/-- `config_at`; `base` is the file that has the line. -/
def configAt (b : RuntimeConfigBuilder G) (line : List UInt8) (lineno : Option ℕ) (base : Option Path) :
    Option (RuntimeConfigBuilder G) :=
  let b := { b with draft := b.draft.configLine gr (b.files.resolveFilepath fs) line lineno }
  match gr.parseConfig line with
  | some (.confFile v) => (b.files.expandConfFiles fs v.path base).foldlM (includeFile load v.group) b
  | _ => some b

/-- The lines of a file, from one on. -/
def configLines (path : Path) (b : RuntimeConfigBuilder G) (lines : List (List UInt8 × ℕ)) :
    Option (RuntimeConfigBuilder G) :=
  lines.foldlM (fun b l => configAt gr fs load b l.1 (some l.2) (some path)) b

def loadResolvedFile (b : RuntimeConfigBuilder G) (path : Path) : Option (Loaded G) :=
  if fs.key path ∈ b.files.loadedFiles then some (b, true)
  else
    let b := { b with files := { b.files with loadedFiles := fs.key path :: b.files.loadedFiles } }
    if fs.exists? path then
      match fs.openFile path with
      | none => some (b, false)
      | some content =>
        let b := { b with files := { b.files with confFile := b.files.confFile.or (some path) } }
        (configLines gr fs load path b (content.lines.zipIdx 1)).map fun b => (b, !content.broken)
    else some (b, true)

end

/-- `load_conf_file`, down to a depth. -/
def loadConfFile (gr : Grammar S G) (fs : FileSystem) : ℕ → RuntimeConfigBuilder G → Path → Option (Loaded G)
  | 0, _, _ => none
  | depth + 1, b, path => loadResolvedFile gr fs (loadConfFile gr fs depth) b (b.files.resolveConfFilepath fs path)

/-- `load_file`, of the main file and the managed ones. -/
def loadFile (gr : Grammar S G) (fs : FileSystem) (depth : ℕ) (b : RuntimeConfigBuilder G) (path : Path) :
    Option (Loaded G) :=
  loadResolvedFile gr fs (loadConfFile gr fs depth) b (b.files.resolveFilepath fs path)

/-! ### The whole configuration -/

inductive BuildError
  | noConfFile (path : Path)
  | unreadable (path : Path)
  | fatal (errors : List String)

/-- The managed files, in order. -/
def managedFiles (fs : FileSystem) (dir : Option Path) : List Path :=
  match dir with
  | none => []
  | some dir =>
    if fs.isDir dir then
      ((fs.readDir dir).filter fun p =>
        fs.isFile p && (p.extension.map (List.map fun b => if 65 ≤ b ∧ b ≤ 90 then b + 32 else b)) ==
          some [99, 111, 110, 102]).insertionSort fun p q => (compare p q).isLE
    else []

section

variable (gr : Grammar S G) (fs : FileSystem) (depth : ℕ) (b : RuntimeConfigBuilder G)

def loadMain : Option (Except BuildError (RuntimeConfigBuilder G)) :=
  match b.files.confFile with
  | none => some (.ok b)
  | some confFile =>
    if fs.exists? confFile = false then some (.error (.noConfFile confFile))
    else if confFile ∈ b.files.loadedFiles then some (.ok b)
    else (loadFile gr fs depth b confFile).map fun r => if r.2 then .ok r.1 else .error (.unreadable confFile)

/-- A managed file that cannot be read is passed over. -/
def loadManaged : Option (RuntimeConfigBuilder G) :=
  (managedFiles fs b.resolvedManagedDir).foldlM (fun b file => (loadFile gr fs depth b file).map (·.1)) b

/-- Groups that were left open are closed from the outermost on. -/
def closeGroups (d : Draft G) : Draft G :=
  d.ruleGroupStack.reverse.foldl (fun d g => d.mergeGroup g.1 g.2) { d with ruleGroupStack := [] }

def finish (d : Draft G) : Except BuildError (Draft G) :=
  if d.fatalErrors = [] then .ok (closeGroups d) else .error (.fatal d.fatalErrors)

/-- `build`, as far as the groups and their rules go. -/
def build : Option (Except BuildError (Draft G)) :=
  (loadMain gr fs depth b).bind fun
    | .error e => some (.error e)
    | .ok b => (loadManaged gr fs depth b).map fun b => finish b.draft

end

end Config
end SmartDns
