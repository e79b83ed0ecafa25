/-
# A log file that rotates

`MappedFile` of `infra/mapped_file.rs`, on a directory of files. Before a write that
finds the file full, the file is renamed to `<stem>-<date>-<time>.<extension>`, and of
the files that `is_own_file_name` takes for archives the last ones in the order of names
stay. Nobody else touches the directory, and no call of the system fails.

A file name is its characters; a clock reading is the text that `DATE_FMT` makes of it.

Key definitions: `isOwnFileName`, `Disk`, `MappedFile`, `World.write`.
Key theorems: `Disk.file?_rename`, `isArchive_iff`, `isOwnFileName_of_isArchive`.
-/
import Mathlib.Data.Char
import Mathlib.Data.List.Lex
import Mathlib.Data.List.Sort
import SmartDns.Lib.KeyMap
import SmartDns.Lib.Text

namespace SmartDns
namespace Log

open Lib

/-! ### File names -/

abbrev FileName : Type := List Char

/-- `rsplit_once`. -/
def rsplitOnce (c : Char) : FileName → Option (FileName × FileName)
  | [] => none
  | x :: xs =>
    match rsplitOnce c xs with
    | some (before, after) => some (x :: before, after)
    | none => if x = c then some ([], xs) else none

theorem rsplitOnce_eq_none_iff {c : Char} : ∀ {l : FileName}, rsplitOnce c l = none ↔ c ∉ l
  | [] => by simp [rsplitOnce]
  | x :: xs => by
    have ih := @rsplitOnce_eq_none_iff c xs
    unfold rsplitOnce
    cases h : rsplitOnce c xs with
    | some p =>
      have : c ∈ xs := by_contra fun hc => by simp [ih.mpr hc] at h
      simp [this]
    | none =>
      by_cases hx : x = c
      · simp [hx]
      · simp [hx, ih.mp h, Ne.symm hx]

theorem rsplitOnce_eq_some {c : Char} : ∀ {l before after : FileName}, rsplitOnce c l = some (before, after) →
    l = before ++ c :: after ∧ c ∉ after
  | [], _, _, h => by simp [rsplitOnce] at h
  | x :: xs, before, after, h => by
    unfold rsplitOnce at h
    cases hxs : rsplitOnce c xs with
    | some p =>
      obtain ⟨b, a⟩ := p
      rw [hxs] at h
      obtain ⟨rfl, rfl⟩ := Prod.mk.inj (Option.some.inj h)
      obtain ⟨hcat, hlast⟩ := rsplitOnce_eq_some hxs
      exact ⟨by rw [hcat, List.cons_append], hlast⟩
    | none =>
      rw [hxs] at h
      dsimp only at h
      by_cases hx : x = c
      · rw [if_pos hx] at h
        obtain ⟨rfl, rfl⟩ := Prod.mk.inj (Option.some.inj h)
        exact ⟨by rw [hx, List.nil_append], rsplitOnce_eq_none_iff.mp hxs⟩
      · rw [if_neg hx] at h
        cases h

theorem rsplitOnce_append {c : Char} {before after : FileName} (h : c ∉ after) :
    rsplitOnce c (before ++ c :: after) = some (before, after) := by
  cases hcut : rsplitOnce c (before ++ c :: after) with
  | none => exact absurd (rsplitOnce_eq_none_iff.mp hcut) (by simp)
  | some p =>
    obtain ⟨hcat, hlast⟩ := rsplitOnce_eq_some hcut
    obtain ⟨hb, ha⟩ := append_sep_inj_last h hlast hcat
    rw [hb, ha]

/-- `Path::file_stem`: `..` and a name whose only dot comes first have no extension. -/
def fileStem (name : FileName) : FileName :=
  if name = ['.', '.'] then name
  else
    match rsplitOnce '.' name with
    | some (before, _) => if before = [] then name else before
    | none => name

/-- `Path::extension`. -/
def extension (name : FileName) : Option FileName :=
  if name = ['.', '.'] then none
  else
    match rsplitOnce '.' name with
    | some (before, after) => if before = [] then none else some after
    | none => none

/-- `Path::with_extension`. -/
def withExtension (name ext : FileName) : FileName := fileStem name ++ if ext = [] then [] else '.' :: ext

theorem fileStem_append_extension (name : FileName) :
    name = fileStem name ++ ((extension name).map fun e => '.' :: e).getD [] := by
  unfold fileStem extension
  by_cases hdots : name = ['.', '.']
  · simp [hdots]
  · rw [if_neg hdots, if_neg hdots]
    cases h : rsplitOnce '.' name with
    | none => simp
    | some p =>
      obtain ⟨before, after⟩ := p
      dsimp only
      by_cases hb : before = []
      · simp [hb]
      · rw [if_neg hb, if_neg hb]
        exact (rsplitOnce_eq_some h).1

theorem dot_not_mem_extension {name ext : FileName} (h : extension name = some ext) : '.' ∉ ext := by
  unfold extension at h
  by_cases hdots : name = ['.', '.']
  · rw [if_pos hdots] at h
    cases h
  · rw [if_neg hdots] at h
    cases hcut : rsplitOnce '.' name with
    | none =>
      rw [hcut] at h
      cases h
    | some p =>
      obtain ⟨before, after⟩ := p
      rw [hcut] at h
      dsimp only at h
      by_cases hb : before = []
      · rw [if_pos hb] at h
        cases h
      · rw [if_neg hb] at h
        obtain rfl := Option.some.inj h
        exact (rsplitOnce_eq_some hcut).2

/-- `strip_prefix`. -/
def stripPrefix : FileName → FileName → Option FileName
  | [], name => some name
  | _ :: _, [] => none
  | c :: cs, x :: xs => if c = x then stripPrefix cs xs else none

theorem stripPrefix_eq_some_iff : ∀ {start name rest : FileName},
    stripPrefix start name = some rest ↔ name = start ++ rest
  | [], name, rest => by simp [stripPrefix]
  | c :: cs, [], rest => by simp [stripPrefix]
  | c :: cs, x :: xs, rest => by
    unfold stripPrefix
    by_cases h : c = x
    · rw [if_pos h, stripPrefix_eq_some_iff, h, List.cons_append, List.cons.injEq, and_iff_right rfl]
    · rw [if_neg h]
      simp [Ne.symm h]

/-! ### Archive names -/

/-- What stands between the stem and the extension: two numbers with a hyphen between them. -/
def isStamp (text : List Char) : Bool :=
  match text.splitOn '-' with
  | [date, time] => !date.isEmpty && !time.isEmpty && date.all Char.isDigit && time.all Char.isDigit
  | _ => false

/-- The name that `backup_files` gives the full file. -/
def archiveName (path stamp : FileName) : FileName :=
  let newName := fileStem path ++ '-' :: stamp
  match extension path with
  | some ext => withExtension newName ext
  | none => newName

/-- The rest of a name without what follows the last dot, if there is one. -/
def dropExtension (rest : FileName) : FileName :=
  match rsplitOnce '.' rest with
  | some (stem, _) => stem
  | none => rest

/-- `is_own_file_name`: whatever follows the last dot is not looked at. -/
def isOwnFileName (base active fileName : FileName) : Bool :=
  if fileName = active then true
  else
    match stripPrefix base fileName with
    | none => false
    | some rest =>
      match stripPrefix ['-'] rest with
      | none => false
      | some rest => isStamp (dropExtension rest)

def isOwnFile (path fileName : FileName) : Bool := isOwnFileName (fileStem path) path fileName

/-- The end of this file's archive names. -/
def archiveEnd (path : FileName) : FileName :=
  match extension path with
  | none => []
  | some [] => []
  | some (c :: cs) => '.' :: c :: cs

theorem archiveEnd_cases (path : FileName) :
    archiveEnd path = [] ∨ ∃ ext, archiveEnd path = '.' :: ext ∧ '.' ∉ ext := by
  unfold archiveEnd
  cases hext : extension path with
  | none => exact .inl rfl
  | some ext =>
    rcases ext with _ | ⟨c, cs⟩
    · exact .inl rfl
    · exact .inr ⟨c :: cs, rfl, dot_not_mem_extension hext⟩

theorem dropExtension_archive {path stamp : FileName} (h : '.' ∉ stamp) :
    dropExtension (stamp ++ archiveEnd path) = stamp := by
  unfold dropExtension
  rcases archiveEnd_cases path with hend | ⟨ext, hend, hdot⟩
  · rw [hend, List.append_nil, rsplitOnce_eq_none_iff.mpr h]
  · rw [hend, rsplitOnce_append hdot]

/-- The names of this file's archives. -/
def isArchive (path fileName : FileName) : Bool :=
  match stripPrefix (fileStem path ++ ['-']) fileName with
  | none => false
  | some rest =>
    (archiveEnd path).isSuffixOf rest && isStamp (rest.take (rest.length - (archiveEnd path).length))

theorem isArchive_iff {path fileName : FileName} :
    isArchive path fileName = true ↔
      ∃ stamp, isStamp stamp = true ∧ fileName = fileStem path ++ '-' :: (stamp ++ archiveEnd path) := by
  unfold isArchive
  constructor
  · intro h
    cases hcut : stripPrefix (fileStem path ++ ['-']) fileName with
    | none =>
      rw [hcut] at h
      cases h
    | some rest =>
      rw [hcut] at h
      obtain ⟨hend, hstamp⟩ := Bool.and_eq_true_iff.mp h
      obtain ⟨stamp, rfl⟩ := List.isSuffixOf_iff_suffix.mp hend
      have htake : (stamp ++ archiveEnd path).take ((stamp ++ archiveEnd path).length - (archiveEnd path).length) =
          stamp := by simp
      rw [htake] at hstamp
      refine ⟨stamp, hstamp, ?_⟩
      rw [stripPrefix_eq_some_iff.mp hcut, List.append_assoc, List.singleton_append]
  · rintro ⟨stamp, hstamp, rfl⟩
    have hcut : stripPrefix (fileStem path ++ ['-']) (fileStem path ++ '-' :: (stamp ++ archiveEnd path)) =
        some (stamp ++ archiveEnd path) := by
      rw [stripPrefix_eq_some_iff, List.append_assoc, List.singleton_append]
    rw [hcut]
    dsimp only
    rw [Bool.and_eq_true_iff]
    refine ⟨List.isSuffixOf_iff_suffix.mpr ⟨stamp, rfl⟩, ?_⟩
    simpa using hstamp

theorem dot_not_mem_of_isStamp {stamp : List Char} (h : isStamp stamp = true) : '.' ∉ stamp := by
  unfold isStamp at h
  have hjoin : ['-'].intercalate (stamp.splitOn '-') = stamp := List.intercalate_splitOn '-'
  revert h
  generalize stamp.splitOn '-' = parts at hjoin
  subst hjoin
  rcases parts with _ | ⟨date, _ | ⟨time, _ | ⟨_, _⟩⟩⟩
  · nofun
  · nofun
  · intro h
    simp only [Bool.and_eq_true, List.all_eq_true] at h
    obtain ⟨⟨-, hdate⟩, htime⟩ := h
    have hd : '.' ∉ date := fun hm => absurd (hdate _ hm) (by decide)
    have ht : '.' ∉ time := fun hm => absurd (htime _ hm) (by decide)
    simp [List.intercalate, hd, ht]
  · nofun

/-- **The code finds this file's archives.** -/
theorem isOwnFile_of_isArchive {path fileName : FileName} (h : isArchive path fileName = true) :
    isOwnFile path fileName = true := by
  obtain ⟨stamp, hstamp, rfl⟩ := isArchive_iff.mp h
  unfold isOwnFile isOwnFileName
  by_cases hactive : fileStem path ++ '-' :: (stamp ++ archiveEnd path) = path
  · rw [if_pos hactive]
  · rw [if_neg hactive, stripPrefix_eq_some_iff.mpr rfl]
    dsimp only
    rw [stripPrefix_eq_some_iff.mpr (List.singleton_append ..).symm]
    dsimp only
    rw [dropExtension_archive (dot_not_mem_of_isStamp hstamp), hstamp]

/-- The file itself has no archive's name. -/
theorem isArchive_self (path : FileName) : isArchive path path = false := by
  rw [Bool.eq_false_iff]
  intro h
  obtain ⟨stamp, -, hname⟩ := isArchive_iff.mp h
  have hself := fileStem_append_extension path
  have htail : ((extension path).map fun e => '.' :: e).getD [] = '-' :: (stamp ++ archiveEnd path) :=
    List.append_cancel_left (hself.symm.trans hname)
  cases hext : extension path with
  | none =>
    rw [hext] at htail
    cases htail
  | some ext =>
    rw [hext] at htail
    exact absurd (List.cons.inj htail).1 (by decide)

/-! ### The directory -/

/-- A directory of files: what is in them is found under their inode numbers. -/
structure Disk where
  names : KeyMap FileName ℕ
  data : ℕ → List UInt8
  /-- The next new file's number. -/
  nextIno : ℕ
  ino_lt : ∀ name ino, names.get? name = some ino → ino < nextIno
  /-- No file has two names. -/
  name_unique : ∀ a b ino, names.get? a = some ino → names.get? b = some ino → a = b

namespace Disk

def empty : Disk where
  names := KeyMap.empty
  data _ := []
  nextIno := 0
  ino_lt := nofun
  name_unique := nofun

variable (d : Disk)

def file? (name : FileName) : Option (List UInt8) := (d.names.get? name).map d.data

def contents (name : FileName) : List UInt8 := (d.file? name).getD []

/-- A new file; one that has the name loses it. -/
def create (name : FileName) : Disk where
  names := d.names.insert name d.nextIno
  data i := if i = d.nextIno then [] else d.data i
  nextIno := d.nextIno + 1
  ino_lt a ino h := by
    rw [KeyMap.get?_insert] at h
    by_cases ha : (name == a) = true
    · rw [if_pos ha] at h
      obtain rfl := Option.some.inj h
      exact Nat.lt_succ_self _
    · rw [if_neg ha] at h
      exact Nat.lt_succ_of_lt (d.ino_lt a ino h)
  name_unique a b ino ha hb := by
    rw [KeyMap.get?_insert] at ha hb
    by_cases hna : (name == a) = true <;> by_cases hnb : (name == b) = true
    · exact (eq_of_beq hna).symm.trans (eq_of_beq hnb)
    · rw [if_pos hna] at ha
      rw [if_neg hnb] at hb
      obtain rfl := Option.some.inj ha
      exact absurd (d.ino_lt b _ hb) (Nat.lt_irrefl _)
    · rw [if_neg hna] at ha
      rw [if_pos hnb] at hb
      obtain rfl := Option.some.inj hb
      exact absurd (d.ino_lt a _ ha) (Nat.lt_irrefl _)
    · rw [if_neg hna] at ha
      rw [if_neg hnb] at hb
      exact d.name_unique a b ino ha hb

/-- Bytes at the end of an open file. -/
def append (ino : ℕ) (bytes : List UInt8) : Disk :=
  { d with data := fun i => if i = ino then d.data i ++ bytes else d.data i }

/-- `opt.truncate(true)`. -/
def truncate (ino : ℕ) : Disk := { d with data := fun i => if i = ino then [] else d.data i }

def renamed (old new : FileName) : KeyMap FileName ℕ :=
  match d.names.get? old with
  | some ino => (d.names.erase old).insert new ino
  | none => d.names

theorem get?_renamed {old : FileName} {ino : ℕ} (h : d.names.get? old = some ino) (new name : FileName) :
    (d.renamed old new).get? name =
      if new = name then some ino else if old = name then none else d.names.get? name := by
  unfold renamed
  rw [h]
  dsimp only
  rw [KeyMap.get?_insert, KeyMap.get?_erase]
  simp only [beq_iff_eq]

/-- `fs::rename`: a file that has the new name is replaced. -/
def rename (old new : FileName) : Disk where
  names := d.renamed old new
  data := d.data
  nextIno := d.nextIno
  ino_lt a i h := by
    cases hold : d.names.get? old with
    | none =>
      rw [renamed, hold] at h
      exact d.ino_lt a i h
    | some ino =>
      rw [d.get?_renamed hold] at h
      by_cases hnew : new = a
      · rw [if_pos hnew] at h
        exact Option.some.inj h ▸ d.ino_lt old ino hold
      · rw [if_neg hnew] at h
        by_cases ha : old = a
        · rw [if_pos ha] at h
          cases h
        · rw [if_neg ha] at h
          exact d.ino_lt a i h
  name_unique a b i ha hb := by
    cases hold : d.names.get? old with
    | none =>
      rw [renamed, hold] at ha hb
      exact d.name_unique a b i ha hb
    | some ino =>
      have hkept : ∀ c, new ≠ c → (d.renamed old new).get? c = some i → d.names.get? c = some i ∧ old ≠ c := by
        intro c hnew hc
        rw [d.get?_renamed hold, if_neg hnew] at hc
        by_cases hc' : old = c
        · rw [if_pos hc'] at hc
          cases hc
        · rw [if_neg hc'] at hc
          exact ⟨hc, hc'⟩
      have hmoved : (d.renamed old new).get? new = some ino := by
        rw [d.get?_renamed hold, if_pos rfl]
      by_cases hna : new = a <;> by_cases hnb : new = b
      · exact hna.symm.trans hnb
      · obtain ⟨hb, hne⟩ := hkept b hnb hb
        rw [← hna, hmoved] at ha
        exact absurd (d.name_unique old b i (hold.trans ha) hb) hne
      · obtain ⟨ha, hne⟩ := hkept a hna ha
        rw [← hnb, hmoved] at hb
        exact absurd (d.name_unique old a i (hold.trans hb) ha) hne
      · exact d.name_unique a b i (hkept a hna ha).1 (hkept b hnb hb).1

/-- `fs::remove_file`. -/
def unlink (name : FileName) : Disk where
  names := d.names.erase name
  data := d.data
  nextIno := d.nextIno
  ino_lt a i h := by
    rw [KeyMap.get?_erase] at h
    by_cases ha : (name == a) = true
    · rw [if_pos ha] at h
      cases h
    · rw [if_neg ha] at h
      exact d.ino_lt a i h
  name_unique a b i ha hb := by
    rw [KeyMap.get?_erase] at ha hb
    by_cases hna : (name == a) = true
    · rw [if_pos hna] at ha
      cases ha
    · by_cases hnb : (name == b) = true
      · rw [if_pos hnb] at hb
        cases hb
      · rw [if_neg hna] at ha
        rw [if_neg hnb] at hb
        exact d.name_unique a b i ha hb

/-! What each call does to the files. -/

theorem file?_create (name a : FileName) :
    (d.create name).file? a = if name = a then some [] else d.file? a := by
  unfold file? create
  dsimp only
  rw [KeyMap.get?_insert]
  by_cases ha : name = a
  · simp [ha]
  · rw [if_neg (by simpa using ha), if_neg ha]
    cases hino : d.names.get? a with
    | none => rfl
    | some ino => simp [Nat.ne_of_lt (d.ino_lt a ino hino)]

theorem file?_append {name : FileName} {ino : ℕ} (h : d.names.get? name = some ino) (bytes : List UInt8)
    (a : FileName) : (d.append ino bytes).file? a =
      if name = a then some (d.contents name ++ bytes) else d.file? a := by
  unfold contents file? append
  dsimp only
  by_cases ha : name = a
  · rw [if_pos ha, ← ha, h]
    simp
  · rw [if_neg ha]
    cases hino : d.names.get? a with
    | none => rfl
    | some i =>
      have hne : i ≠ ino := fun hi => ha (d.name_unique name a ino h (hi ▸ hino))
      simp [hne]

theorem file?_rename {old : FileName} {ino : ℕ} (h : d.names.get? old = some ino) (new a : FileName) :
    (d.rename old new).file? a =
      if new = a then d.file? old else if old = a then none else d.file? a := by
  unfold file? rename
  dsimp only
  rw [d.get?_renamed h, h]
  by_cases hnew : new = a
  · rw [if_pos hnew, if_pos hnew]
  · rw [if_neg hnew, if_neg hnew]
    by_cases hold : old = a
    · rw [if_pos hold, if_pos hold]
      rfl
    · rw [if_neg hold, if_neg hold]

theorem file?_unlink (name a : FileName) : (d.unlink name).file? a = if name = a then none else d.file? a := by
  unfold file? unlink
  dsimp only
  rw [KeyMap.get?_erase]
  by_cases ha : name = a
  · simp [ha]
  · rw [if_neg (by simpa using ha), if_neg ha]

/-- `read_dir`, in some order. -/
def list : List FileName := d.names.keys

theorem mem_list_iff {name : FileName} : name ∈ d.list ↔ (d.file? name).isSome := by
  have hany := d.names.contains_eq_any name
  unfold list file?
  rw [Option.isSome_map]
  constructor
  · intro h
    exact hany.trans (List.any_eq_true.mpr ⟨name, h, beq_self_eq_true name⟩)
  · intro h
    obtain ⟨k, hk, hbeq⟩ := List.any_eq_true.mp (hany.symm.trans h)
    exact eq_of_beq hbeq ▸ hk

theorem nodup_list : d.list.Nodup :=
  List.pairwise_map.mpr (d.names.distinct.imp fun h => by simpa using h)

end Disk

/-! ### The log file -/

/-- The identity of a file on disk. The device is the same all the time. -/
structure DiskProbe where
  ino : ℕ
  len : ℕ
deriving DecidableEq

structure MappedFile where
  num : Option ℕ
  size : ℕ
  path : FileName
  /-- The open file. -/
  file : Option ℕ := none
  len : ℕ := 0
  preambleBytes : Option (List UInt8) := none
  diskProbe : Option DiskProbe := none

def defaultSize : ℕ := 128 * 1024

def guardSize (size : ℕ) : ℕ := if size = 0 then defaultSize else size

/-- `open`, and `set_peamble`. -/
def MappedFile.new (path : FileName) (size : ℕ) (num : Option ℕ) (preamble : Option (List UInt8)) : MappedFile where
  num := num
  size := guardSize size
  path := path
  preambleBytes := preamble

/-- The archives to keep, if `num` is set. -/
def MappedFile.keep? (f : MappedFile) : Option ℕ :=
  match f.num with
  | some 0 => some 1
  | some n => some n
  | none => none

/-- What goes into a file of this length when it is opened. -/
def MappedFile.preambleFor (f : MappedFile) (len : ℕ) : List UInt8 :=
  if len = 0 then f.preambleBytes.getD [] else []

/-- `mapped_files`: later names first. -/
def mappedFiles (path : FileName) (disk : Disk) : List FileName :=
  (disk.list.filter (isOwnFile path)).insertionSort fun a b => b ≤ a

/-- The end of `backup_files`: of the listed files all but the first `keep` go. -/
def removeOld (path : FileName) (keep : ℕ) (disk : Disk) : Disk :=
  ((mappedFiles path disk).drop keep).foldl (fun d f => if f = path then d else d.unlink f) disk

/-- The directory and the log file, with the bytes that its callers have written so far, and
those that went to the system, preambles among them. -/
structure World where
  disk : Disk
  log : MappedFile
  submitted : List UInt8 := []
  written : List UInt8 := []

namespace World

variable (w : World)

def probeDisk : Option DiskProbe :=
  (w.disk.names.get? w.log.path).map fun ino => ⟨ino, (w.disk.data ino).length⟩

def diskChanged : Bool :=
  if w.log.file.isNone then false
  else
    match w.log.diskProbe, w.probeDisk with
    | some _, none => true
    | some old, some new => old != new
    | none, _ => false

/-- `len()`. -/
def len : ℕ :=
  if w.diskChanged then (w.probeDisk.map (·.len)).getD 0
  else if 0 < w.log.len ∨ w.log.file.isSome then w.log.len
  else (w.probeDisk.map (·.len)).getD 0

def isFull : Bool := w.log.size ≤ w.len

def reopen : World := { w with log := { w.log with file := none, len := 0, diskProbe := none } }

def backupFiles (stamp : List Char) : World :=
  if (w.disk.names.get? w.log.path).isNone then
    { w with log := { w.log with file := none, len := 0, diskProbe := none } }
  else
    let disk := w.disk.rename w.log.path (archiveName w.log.path stamp)
    { w with
      log := { w.log with file := none }
      disk :=
        match w.log.keep? with
        | some keep => removeOld w.log.path keep disk
        | none => disk }

/-- `file.write`: the bytes go to the end of the open file. -/
def writeTo (ino : ℕ) (bytes : List UInt8) : World :=
  { w with disk := w.disk.append ino bytes, written := w.written ++ bytes }

/-- The file is open: its length is read, and an empty file gets the preamble. -/
def opened (ino : ℕ) : World :=
  let len := (w.disk.data ino).length
  let bytes := w.log.preambleFor len
  let w := w.writeTo ino bytes
  { w with log := { w.log with file := some ino, len := len + bytes.length, diskProbe := w.probeDisk } }

/-- The branch of `get_active_file` without an open file. -/
def openFile : World :=
  match w.disk.names.get? w.log.path with
  | some ino => if w.isFull then opened { w with disk := w.disk.truncate ino } ino else w.opened ino
  | none => opened { w with disk := w.disk.create w.log.path } w.disk.nextIno

/-- The world with the file open, if the clock reads `stamp`. -/
def getActiveFile (stamp : List Char) : World :=
  let w := if w.diskChanged then w.reopen else w
  let w := if w.isFull then w.backupFiles stamp else w
  if w.log.file.isSome then w else w.openFile

def flush : World :=
  match w.log.file with
  | none => w
  | some ino =>
    let closed := { w with log := { w.log with file := none } }
    if closed.isFull then closed else { closed with log := { closed.log with file := some ino } }

/-- `write`; the system takes the first `taken` bytes. Without a path nothing is written. -/
def write (buf : List UInt8) (taken : ℕ) (stamp : List Char) : World :=
  if w.log.path.isEmpty then w
  else
    let w := w.getActiveFile stamp
    match w.log.file with
    | none => w
    | some ino =>
      let bytes := buf.take taken
      let w := w.writeTo ino bytes
      let w := { w with log := { w.log with len := w.log.len + bytes.length }, submitted := w.submitted ++ bytes }
      let w :=
        match w.log.diskProbe with
        | some probe => { w with log := { w.log with diskProbe := some { probe with len := probe.len + bytes.length } } }
        | none => { w with log := { w.log with diskProbe := w.probeDisk } }
      if w.isFull then w.flush else w

end World

end Log
end SmartDns
