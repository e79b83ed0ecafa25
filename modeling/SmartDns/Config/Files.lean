/-
# Configuration files

Paths by their components, as `std::path` compares them, the file system the configuration
is read from, and how `dns_conf.rs` finds the file that a `conf-file` line means: in the
directory of the main configuration file, in `smartdns.d` beside it, and by the bare file
name in the directories of files that were included before. A relative path is not looked
for in the working directory there (`RelativePathFallback.configDirOnly`).

Key definitions: `Path`, `FileSystem`, `Files`, `resolveFilepath`, `Files.resolveConfFilepath`,
`Files.expandConfFiles`.
-/
import Mathlib.Data.List.Sort

namespace SmartDns
namespace Config

/-! ### Paths -/

inductive Component
  | rootDir
  | curDir
  | parentDir
  | normal (name : List UInt8)
deriving DecidableEq, Ord

abbrev Path := List Component

instance instLawfulBEqPath : LawfulBEq Path := inferInstance

namespace Path

def isAbsolute (p : Path) : Bool := p.head? == some .rootDir

def parent (p : Path) : Option Path :=
  match p.getLast? with
  | none => none
  | some .rootDir => none
  | some _ => some p.dropLast

def fileName (p : Path) : Option (List UInt8) :=
  match p.getLast? with
  | some (.normal name) => some name
  | _ => none

/-- An absolute path stands for itself; a `.` goes where something is before it. -/
def join (p q : Path) : Path :=
  if q.isAbsolute then q
  else
    match q with
    | .curDir :: q' => if p = [] then q else p ++ q'
    | _ => p ++ q

/-- `extension`: what follows the last dot of a name that does not begin with it. -/
def extension (p : Path) : Option (List UInt8) :=
  p.fileName.bind fun name =>
    let ext := (name.reverse.takeWhile (· ≠ 46)).reverse
    if ext.length + 1 < name.length then some ext else none

/-- `/`, `\`, `*`, `?` and `[`. -/
def separator : UInt8 := 47

def backslash : UInt8 := 92

def wildcards : List UInt8 := [42, 63, 91]

def componentText : Component → List UInt8
  | .rootDir => []
  | .curDir => [46]
  | .parentDir => [46, 46]
  | .normal name => name

def text (p : Path) : List UInt8 :=
  if p = [.rootDir] then [separator] else [separator].intercalate (p.map componentText)

end Path

/-! ### The file system -/

/-- What can be read of a file before it ends or an error ends it. -/
structure Content where
  bytes : List UInt8 := []
  broken : Bool := false
deriving DecidableEq

/-- `read_until(b'\n')` until it finds nothing. -/
def readUntil : List UInt8 → List (List UInt8)
  | [] => []
  | b :: bs =>
    if b = 10 then [10] :: readUntil bs
    else
      match readUntil bs with
      | [] => [[b]]
      | l :: ls => (b :: l) :: ls

/-- `trim_end_matches(['\r', '\n'])`. -/
def trimEnd (line : List UInt8) : List UInt8 := (line.reverse.dropWhile fun b => b = 13 || b = 10).reverse

/-- The lines that are handed on: one that an error cuts short is not. -/
def Content.lines (c : Content) : List (List UInt8) :=
  ((readUntil c.bytes).filter fun l => !c.broken || l.getLast? == some 10).map trimEnd

/-- A file, a directory or anything else that has a path. -/
structure Node where
  isFile : Bool
  isDir : Bool := false
  /-- None if it cannot be opened. -/
  content : Option Content
  /-- The names in a directory. -/
  names : List (List UInt8) := []

structure FileSystem where
  /-- `canonicalize`: the path's real one, if there is something under it. -/
  realpath : Path → Option Path
  nodes : Path → Node
  realpaths : List Path
  realpath_mem : ∀ {p r : Path}, realpath p = some r → r ∈ realpaths
  /-- What `glob::glob` finds for a pattern. -/
  glob : List UInt8 → List Path
  /-- The order in which a hash set gives its members. -/
  hashOrder : List Path → List Path
  hashOrder_perm : ∀ ds : List Path, (hashOrder ds).Perm ds
  currentDir : Option Path
  exeDir : Option Path

namespace FileSystem

variable (fs : FileSystem)

def exists? (p : Path) : Bool := (fs.realpath p).isSome

def node? (p : Path) : Option Node := (fs.realpath p).map fs.nodes

def isFile (p : Path) : Bool := ((fs.node? p).map (·.isFile)).getD false

def isDir (p : Path) : Bool := ((fs.node? p).map (·.isDir)).getD false

/-- `File::open`. -/
def openFile (p : Path) : Option Content := (fs.node? p).bind (·.content)

/-- The file identity that `load_resolved_file` goes by. -/
def key (p : Path) : Path := (fs.realpath p).getD p

def readDir (p : Path) : List Path := (((fs.node? p).map (·.names)).getD []).map fun name => p.join [.normal name]

end FileSystem

/-! ### How a path is looked for -/

inductive RelativePathFallback
  | full
  | configDirOnly
deriving DecidableEq

/-- `smartdns.conf` and `smartdns.d`. -/
def mainFileName : List UInt8 := [115, 109, 97, 114, 116, 100, 110, 115, 46, 99, 111, 110, 102]

def mainDirName : List UInt8 := [115, 109, 97, 114, 116, 100, 110, 115, 46, 100]

section

variable (fs : FileSystem) (baseFile : Option Path) (fallback : RelativePathFallback)

/-- Where a relative path is looked for, beside the main file in `dir`. -/
def candidates (base dir filepath : Path) : List Path :=
  [dir.join filepath] ++
  (if base.fileName = some mainFileName then [(dir.join [.normal mainDirName]).join filepath] else []) ++
  (if fallback = .full then
    (fs.currentDir.map fun d => Path.join d filepath).toList ++ (fs.exeDir.map fun d => Path.join d filepath).toList
  else [])

def findFile (filepath : Path) : Option Path :=
  let skipCwdProbe := fallback = .configDirOnly ∧ filepath.isAbsolute = false
  if ¬ skipCwdProbe ∧ fs.isFile filepath = true then some filepath
  else if filepath.isAbsolute then none
  else
    match baseFile with
    | none => none
    | some base =>
      match base.parent with
      | none => none
      | some dir => (candidates fs fallback base dir filepath).find? fs.isFile

/-- A relative path that was not found is not left for the working directory to find. -/
def notFound (filepath : Path) : Path :=
  if fallback = .configDirOnly ∧ filepath.isAbsolute = false then
    match baseFile.bind Path.parent with
    | some dir => dir.join filepath
    | none => filepath
  else filepath

/-- `resolve_filepath`: once more with the bare file name, if that is another path. -/
def resolveFilepath (filepath : Path) : Path :=
  match findFile fs baseFile fallback filepath with
  | some p => p
  | none =>
    match filepath.fileName with
    | none => notFound baseFile fallback filepath
    | some name =>
      let bare : Path := [.normal name]
      let found := (findFile fs baseFile fallback bare).getD (notFound baseFile fallback bare)
      if bare ≠ filepath ∧ fs.isFile found = true then found else notFound baseFile fallback filepath

end

/-- What a builder knows of files. -/
structure Files where
  confFile : Option Path := none
  loadedFiles : List Path := []
  dirs : List Path := []

namespace Files

variable (fs : FileSystem) (f : Files)

/-- The bare name in the directories of included files. -/
def findInDirs (path : Path) : Option Path :=
  path.fileName.bind fun name => ((fs.hashOrder f.dirs).map (Path.join · [.normal name])).find? fs.isFile

/-- The method `resolve_filepath`, of settings that name a file. -/
def resolveFilepath (filepath : Path) : Path :=
  let path := Config.resolveFilepath fs f.confFile .full filepath
  if fs.exists? path then path
  else if (path.parent.getD []) ≠ [] then path
  else (f.findInDirs fs path).getD path

/-- `resolve_conf_filepath`, of `conf-file` lines. -/
def resolveConfFilepath (filepath : Path) : Path :=
  let path := Config.resolveFilepath fs f.confFile .configDirOnly filepath
  if path.isAbsolute ∧ fs.isFile path = true then path else (f.findInDirs fs path).getD path

/-- `expand_conf_pattern`. -/
def expandConfPattern (pattern : Path) (baseFile : Option Path) : List Path :=
  if (pattern.flatMap Path.componentText).any (Path.wildcards.contains ·) then
    let pattern :=
      if pattern.isAbsolute then pattern
      else
        match baseFile.bind Path.parent with
        | some dir => dir.join pattern
        | none => pattern
    let text := pattern.text.map fun b => if b = Path.backslash then Path.separator else b
    ((fs.glob text).filter fs.isFile).insertionSort fun p q => (compare p q).isLE
  else [pattern]

def expandConfFiles (path : Path) (base : Option Path) : List Path :=
  expandConfPattern fs path (base.or f.confFile)

def addDir (file : Path) : Files :=
  match file.parent with
  | some dir => { f with dirs := if dir ∈ f.dirs then f.dirs else dir :: f.dirs }
  | none => f

end Files
end Config
end SmartDns
