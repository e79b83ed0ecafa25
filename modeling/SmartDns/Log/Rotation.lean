/-
# What rotation keeps

The archives of a log file in the order of their names, and then the file itself, hold
what was there at the start and what was written since, but for the first archives, which
retention has removed (`Kept`). This holds along every run in which each rotation gives
the file a name of its archives' form that comes after those of all archives there, and
in which retention, where it is on, finds no other files of that form (`SafeRotation`).

Each of the three goes wrong. `fs::rename` replaces the archive of a rotation at the
same clock reading; `with_extension` takes what follows a dot in the stem for the
extension; and `is_own_file_name` looks at no extension, so the archives of
`smartdns.audit` are counted, and removed, as those of `smartdns.log`.

Key definitions: `archives`, `Kept`, `SafeRotation`.
Key theorems: `submitted_run`, `kept_of_safe_rotations`.
-/
import SmartDns.Lib.Runs
import SmartDns.Log.MappedFile

namespace SmartDns
namespace Log

open Lib

section

variable (path : FileName)

/-- This file's archives, oldest first. -/
def archives (d : Disk) : List FileName := (d.list.filter (isArchive path)).insertionSort fun a b => a ≤ b

/-- What the archives and the file hold. -/
def stream (d : Disk) : List UInt8 := (archives path d).flatMap d.contents ++ d.contents path

variable {path}

theorem mem_archives {d : Disk} {name : FileName} :
    name ∈ archives path d ↔ (d.file? name).isSome ∧ isArchive path name = true := by
  unfold archives
  rw [List.mem_insertionSort, List.mem_filter, Disk.mem_list_iff]

theorem archives_sorted (d : Disk) : (archives path d).Pairwise (· < ·) := by
  have hle : (archives path d).Pairwise (· ≤ ·) := List.pairwise_insertionSort _ _
  have hnodup : (archives path d).Nodup := by
    unfold archives
    exact (List.perm_insertionSort _ _).nodup_iff.mpr (d.nodup_list.filter _)
  exact (hle.and hnodup).imp fun h => lt_of_le_of_ne h.1 h.2

/-- The archives are known by which they are. -/
theorem archives_eq {d : Disk} {m : List FileName} (hsorted : m.Pairwise (· < ·))
    (hmem : ∀ name, name ∈ m ↔ (d.file? name).isSome ∧ isArchive path name = true) : archives path d = m := by
  apply List.SortedLT.eq_of_mem_iff (archives_sorted d).sortedLT hsorted.sortedLT
  intro name
  rw [mem_archives, hmem]

theorem ne_path_of_mem_archives {d : Disk} {name : FileName} (h : name ∈ archives path d) : name ≠ path := by
  rintro rfl
  have := (mem_archives.mp h).2
  rw [isArchive_self] at this
  cases this

end

/-- **All that was there at the start and was written since is in the archives, oldest first, and
then in the file**, but for the oldest archives where retention is on: then as many as it keeps
are there. All other files are as they were. -/
structure KeptFiles (path : FileName) (keep : Option ℕ) (d₀ d : Disk) (written : List UInt8) : Prop where
  inOrder : ∃ gone : List (FileName × List UInt8),
    (gone.map (·.1) ++ archives path d).Pairwise (· < ·) ∧
    gone.flatMap (·.2) ++ stream path d = stream path d₀ ++ written ∧
    (gone ≠ [] → keep = some (archives path d).length)
  others : ∀ name, name ≠ path → isArchive path name = false → d.file? name = d₀.file? name

/-- And the file is there, once it was, and no byte of a caller is left out. -/
structure Kept (d₀ : Disk) (w : World) : Prop where
  files : KeptFiles w.log.path w.log.keep? d₀ w.disk w.written
  active : (d₀.file? w.log.path).isSome ∨ w.written ≠ [] → (w.disk.file? w.log.path).isSome
  submitted : w.submitted.Sublist w.written
  noPreamble : w.log.preambleBytes = none → w.submitted = w.written

section

variable {path : FileName} {keep : Option ℕ} {d₀ d : Disk} {written : List UInt8}

theorem keptFiles_start (d₀ : Disk) : KeptFiles path keep d₀ d₀ [] where
  inOrder := ⟨[], archives_sorted d₀, by simp, fun h => absurd rfl h⟩
  others _ _ _ := rfl

theorem contents_of_file? {d d' : Disk} {name : FileName} (h : d'.file? name = d.file? name) :
    d'.contents name = d.contents name := congrArg (·.getD []) h

/-- Nothing but the file itself is touched. -/
theorem archives_congr {d' : Disk} (h : ∀ name, name ≠ path → d'.file? name = d.file? name) :
    archives path d' = archives path d ∧ (archives path d).flatMap d'.contents = (archives path d).flatMap d.contents := by
  constructor
  · apply archives_eq (archives_sorted d)
    intro name
    rw [mem_archives]
    by_cases hname : name = path
    · simp [hname, isArchive_self]
    · rw [h name hname]
  · apply List.flatMap_congr
    intro name hmem
    exact contents_of_file? (h name (ne_path_of_mem_archives hmem))

theorem KeptFiles.create (h : KeptFiles path keep d₀ d written) (hnone : d.file? path = none) :
    KeptFiles path keep d₀ (d.create path) written := by
  have hothers : ∀ name, name ≠ path → (d.create path).file? name = d.file? name := by
    intro name hname
    rw [Disk.file?_create, if_neg (Ne.symm hname)]
  have hself : (d.create path).file? path = some [] := by rw [Disk.file?_create, if_pos rfl]
  obtain ⟨harchives, hcontents⟩ := archives_congr hothers
  have hstream : stream path (d.create path) = stream path d := by
    unfold stream
    rw [harchives, hcontents, Disk.contents, Disk.contents, hself, hnone]
    rfl
  obtain ⟨gone, hsorted, hbytes, hkeep⟩ := h.inOrder
  exact ⟨⟨gone, harchives ▸ hsorted, hstream ▸ hbytes, harchives ▸ hkeep⟩,
    fun name hname hown => (hothers name hname).trans (h.others name hname hown)⟩

theorem KeptFiles.append (h : KeptFiles path keep d₀ d written) {ino : ℕ} (hino : d.names.get? path = some ino)
    (bytes : List UInt8) : KeptFiles path keep d₀ (d.append ino bytes) (written ++ bytes) := by
  have hothers : ∀ name, name ≠ path → (d.append ino bytes).file? name = d.file? name := by
    intro name hname
    rw [d.file?_append hino, if_neg (Ne.symm hname)]
  have hself : (d.append ino bytes).file? path = some (d.contents path ++ bytes) := by
    rw [d.file?_append hino, if_pos rfl]
  obtain ⟨harchives, hcontents⟩ := archives_congr hothers
  have hstream : stream path (d.append ino bytes) = stream path d ++ bytes := by
    unfold stream
    rw [harchives, hcontents, Disk.contents, hself, List.append_assoc]
    rfl
  obtain ⟨gone, hsorted, hbytes, hkeep⟩ := h.inOrder
  refine ⟨⟨gone, harchives ▸ hsorted, ?_, harchives ▸ hkeep⟩,
    fun name hname hown => (hothers name hname).trans (h.others name hname hown)⟩
  rw [hstream, ← List.append_assoc, hbytes, List.append_assoc]

/-! ### One rotation -/

section

variable {ino : ℕ} {stamp : List Char}

theorem archives_rename (hino : d.names.get? path = some ino)
    (hown : isArchive path (archiveName path stamp) = true)
    (hlatest : ∀ name ∈ archives path d, name < archiveName path stamp) :
    archives path (d.rename path (archiveName path stamp)) = archives path d ++ [archiveName path stamp] := by
  have hself : (d.file? path).isSome := by rw [Disk.file?, hino]; rfl
  apply archives_eq
  · refine List.pairwise_append.mpr ⟨archives_sorted d, List.pairwise_singleton _ _, fun name hname new hnew => ?_⟩
    obtain rfl := List.mem_singleton.mp hnew
    exact hlatest name hname
  · intro name
    rw [List.mem_append, List.mem_singleton, mem_archives, d.file?_rename hino]
    by_cases hnew : archiveName path stamp = name
    · rw [if_pos hnew, ← hnew]
      simp [hself, hown]
    · rw [if_neg hnew]
      by_cases hpath : path = name
      · rw [if_pos hpath, ← hpath]
        simp [isArchive_self, show path ≠ archiveName path stamp from fun h => hnew (h.symm.trans hpath)]
      · rw [if_neg hpath]
        simp [Ne.symm hnew]

/-- The full file is the last archive. -/
theorem stream_rename (hino : d.names.get? path = some ino)
    (hown : isArchive path (archiveName path stamp) = true)
    (hlatest : ∀ name ∈ archives path d, name < archiveName path stamp) :
    stream path (d.rename path (archiveName path stamp)) = stream path d := by
  have hne : archiveName path stamp ≠ path := by
    intro h
    rw [h, isArchive_self] at hown
    cases hown
  have hold : ∀ name ∈ archives path d,
      (d.rename path (archiveName path stamp)).contents name = d.contents name := by
    intro name hname
    apply contents_of_file?
    rw [d.file?_rename hino, if_neg (hlatest name hname).ne', if_neg (ne_path_of_mem_archives hname).symm]
  have hnew : (d.rename path (archiveName path stamp)).contents (archiveName path stamp) = d.contents path := by
    rw [Disk.contents, d.file?_rename hino, if_pos rfl, Disk.contents]
  have hself : (d.rename path (archiveName path stamp)).contents path = [] := by
    rw [Disk.contents, d.file?_rename hino, if_neg hne, if_pos rfl]
    rfl
  unfold stream
  rw [archives_rename hino hown hlatest, List.flatMap_append, List.flatMap_congr hold, hself]
  simp [hnew]

/-- The files that the code lists are the archives, newest first. -/
theorem mappedFiles_eq (hown : ∀ name ∈ d.list, isOwnFile path name = true → isArchive path name = true) :
    mappedFiles path d = (archives path d).reverse := by
  have hge : (mappedFiles path d).Pairwise fun a b => b ≤ a := List.pairwise_insertionSort _ _
  have hnodup : (mappedFiles path d).Nodup := by
    unfold mappedFiles
    exact (List.perm_insertionSort _ _).nodup_iff.mpr (d.nodup_list.filter _)
  have hgt : (mappedFiles path d).Pairwise fun a b => b < a :=
    (hge.and hnodup).imp fun h => lt_of_le_of_ne h.1 (Ne.symm h.2)
  apply List.SortedGT.eq_of_mem_iff hgt.sortedGT (List.pairwise_reverse.mpr (archives_sorted d)).sortedGT
  intro name
  rw [List.mem_reverse, mem_archives, mappedFiles, List.mem_insertionSort, List.mem_filter, ← Disk.mem_list_iff]
  constructor
  · rintro ⟨hmem, h⟩
    exact ⟨hmem, hown name hmem h⟩
  · rintro ⟨hmem, h⟩
    exact ⟨hmem, isOwnFile_of_isArchive h⟩

theorem file?_foldl_unlink (a : FileName) : ∀ (victims : List FileName) (d : Disk), path ∉ victims →
    (victims.foldl (fun d f => if f = path then d else d.unlink f) d).file? a =
      if a ∈ victims then none else d.file? a
  | [], d, _ => by simp
  | f :: victims, d, h => by
    have hf : f ≠ path := fun hf => h (hf ▸ List.mem_cons_self)
    rw [List.foldl_cons, if_neg hf, file?_foldl_unlink a victims _ fun hm => h (List.mem_cons_of_mem f hm),
      Disk.file?_unlink]
    by_cases ha : f = a
    · simp [ha]
    · simp [ha, Ne.symm ha]

/-- The active file stays, whatever is listed. -/
theorem file?_path_removeOld (k : ℕ) (d : Disk) : (removeOld path k d).file? path = d.file? path := by
  unfold removeOld
  induction (mappedFiles path d).drop k generalizing d with
  | nil => rfl
  | cons f victims ih =>
    rw [List.foldl_cons, ih]
    by_cases hf : f = path
    · rw [if_pos hf]
    · rw [if_neg hf, Disk.file?_unlink, if_neg hf]

/-- **Retention removes the oldest archives**, as many as are too many. -/
theorem file?_removeOld (hown : ∀ name ∈ d.list, isOwnFile path name = true → isArchive path name = true)
    (k : ℕ) (a : FileName) : (removeOld path k d).file? a =
      if a ∈ (archives path d).take ((archives path d).length - k) then none else d.file? a := by
  have hvictims : (mappedFiles path d).drop k = ((archives path d).take ((archives path d).length - k)).reverse := by
    rw [mappedFiles_eq hown, List.drop_reverse]
  unfold removeOld
  rw [hvictims, file?_foldl_unlink]
  · simp only [List.mem_reverse]
  · intro hmem
    exact ne_path_of_mem_archives (List.mem_of_mem_take (List.mem_reverse.mp hmem)) rfl

theorem archives_removeOld (hown : ∀ name ∈ d.list, isOwnFile path name = true → isArchive path name = true)
    (k : ℕ) : archives path (removeOld path k d) = (archives path d).drop ((archives path d).length - k) := by
  have hcut := List.take_append_drop ((archives path d).length - k) (archives path d)
  have hsorted : (archives path d).Pairwise (· < ·) := archives_sorted d
  rw [← hcut, List.pairwise_append] at hsorted
  apply archives_eq hsorted.2.1
  intro name
  rw [file?_removeOld hown]
  constructor
  · intro hmem
    have hold : name ∉ (archives path d).take ((archives path d).length - k) := fun h =>
      lt_irrefl name (hsorted.2.2 name h name hmem)
    rw [if_neg hold]
    exact mem_archives.mp (List.mem_of_mem_drop hmem)
  · rintro ⟨hsome, harchive⟩
    by_cases hold : name ∈ (archives path d).take ((archives path d).length - k)
    · rw [if_pos hold] at hsome
      cases hsome
    · rw [if_neg hold] at hsome
      have hmem := mem_archives.mpr ⟨hsome, harchive⟩
      rw [← hcut, List.mem_append] at hmem
      exact hmem.resolve_left hold

theorem KeptFiles.rename (h : KeptFiles path none d₀ d written) (hino : d.names.get? path = some ino)
    (hown : isArchive path (archiveName path stamp) = true)
    (hlatest : ∀ name ∈ archives path d, name < archiveName path stamp) :
    KeptFiles path none d₀ (d.rename path (archiveName path stamp)) written := by
  obtain ⟨gone, -, hbytes, hkeep⟩ := h.inOrder
  obtain rfl : gone = [] := by_contra fun hne => nomatch hkeep hne
  refine ⟨⟨[], archives_sorted _, ?_, fun h => absurd rfl h⟩, fun name hname harchive => ?_⟩
  · rw [stream_rename hino hown hlatest, hbytes]
  · have hnew : archiveName path stamp ≠ name := fun h => by simp [← h, hown] at harchive
    rw [d.file?_rename hino, if_neg hnew, if_neg (Ne.symm hname), h.others name hname harchive]

/-- With retention on, what the rotation makes too many goes, and it is the oldest. -/
theorem KeptFiles.rotate {k : ℕ} (h : KeptFiles path (some k) d₀ d written) (hk : 0 < k)
    (hino : d.names.get? path = some ino) (hown : isArchive path (archiveName path stamp) = true)
    (hlatest : ∀ name ∈ archives path d, name < archiveName path stamp)
    (hothers : ∀ name ∈ d.list, isOwnFile path name = true → name = path ∨ isArchive path name = true) :
    KeptFiles path (some k) d₀ (removeOld path k (d.rename path (archiveName path stamp))) written := by
  have hlisted : ∀ name ∈ (d.rename path (archiveName path stamp)).list, isOwnFile path name = true →
      isArchive path name = true := by
    intro name hmem hlist
    rw [Disk.mem_list_iff, d.file?_rename hino] at hmem
    by_cases hnew : archiveName path stamp = name
    · exact hnew ▸ hown
    · rw [if_neg hnew] at hmem
      by_cases hpath : path = name
      · rw [if_pos hpath] at hmem
        cases hmem
      · rw [if_neg hpath] at hmem
        exact (hothers name (Disk.mem_list_iff d |>.mpr hmem) hlist).resolve_left (Ne.symm hpath)
  have hrenamed := archives_rename hino hown hlatest
  have hstream := stream_rename hino hown hlatest
  generalize hd : d.rename path (archiveName path stamp) = d' at hlisted hrenamed hstream ⊢
  obtain ⟨gone, hsorted, hbytes, hkeep⟩ := h.inOrder
  have hfile := file?_removeOld hlisted k
  have harchives := archives_removeOld hlisted k
  generalize removeOld path k d' = d'' at hfile harchives ⊢
  have hcut := List.take_append_drop ((archives path d').length - k) (archives path d')
  have hsorted' : (archives path d').Pairwise (· < ·) := archives_sorted d'
  rw [← hcut, List.pairwise_append] at hsorted'
  have hself : path ∉ (archives path d').take ((archives path d').length - k) := fun h =>
    ne_path_of_mem_archives (List.mem_of_mem_take h) rfl
  -- What goes, with what was in it.
  refine ⟨⟨gone ++ ((archives path d').take ((archives path d').length - k)).map fun name => (name, d'.contents name),
    ?_, ?_, ?_⟩, fun name hname harchive => ?_⟩
  · have hnames : (gone ++ ((archives path d').take ((archives path d').length - k)).map
        fun name => (name, d'.contents name)).map (·.1) ++ archives path d'' =
        gone.map (·.1) ++ archives path d ++ [archiveName path stamp] := by
      rw [List.map_append, List.map_map, harchives, List.append_assoc]
      show gone.map (·.1) ++ (List.map id _ ++ _) = _
      rw [List.map_id, hcut, hrenamed, List.append_assoc]
    rw [hnames]
    refine List.pairwise_append.mpr ⟨hsorted, List.pairwise_singleton _ _, fun name hname new hnew => ?_⟩
    obtain rfl := List.mem_singleton.mp hnew
    rcases List.mem_append.mp hname with hgone | harchive
    · -- Archives that went were older than one that stayed.
      have hne : gone ≠ [] := fun h => by simp [h] at hgone
      have hstay : 0 < (archives path d).length := (Option.some.inj (hkeep hne)) ▸ hk
      have hfirst : (archives path d)[0] ∈ archives path d := List.getElem_mem hstay
      exact ((List.pairwise_append.mp hsorted).2.2 name hgone _ hfirst).trans (hlatest _ hfirst)
    · exact hlatest name harchive
  · have hkept : stream path d'' = ((archives path d').drop ((archives path d').length - k)).flatMap d'.contents ++
        d'.contents path := by
      unfold stream
      rw [harchives, contents_of_file? ((hfile path).trans (if_neg hself))]
      congr 1
      apply List.flatMap_congr
      intro name hmem
      apply contents_of_file?
      rw [hfile, if_neg fun h => lt_irrefl name (hsorted'.2.2 name h name hmem)]
    have hall : ((archives path d').take ((archives path d').length - k)).flatMap d'.contents ++ stream path d'' =
        stream path d' := by
      rw [hkept, ← List.append_assoc, ← List.flatMap_append, hcut]
      rfl
    rw [List.flatMap_append, List.flatMap_map, List.append_assoc, hall, hstream, hbytes]
  · intro hne
    have hlength : (archives path d'').length = (archives path d').length - ((archives path d').length - k) := by
      rw [harchives, List.length_drop]
    have hmore : k ≤ (archives path d').length := by
      by_contra hlt
      have htake : (archives path d').length - k = 0 := by omega
      rw [htake, List.take_zero, List.map_nil, List.append_nil] at hne
      have := Option.some.inj (hkeep hne)
      rw [hrenamed, List.length_append] at hlt
      omega
    rw [hlength]
    congr 1
    omega
  · have hnew : archiveName path stamp ≠ name := fun h => by simp [← h, hown] at harchive
    have hgone : name ∉ (archives path d').take ((archives path d').length - k) := fun h => by
      simp [(mem_archives.mp (List.mem_of_mem_take h)).2] at harchive
    rw [hfile, if_neg hgone, ← hd, d.file?_rename hino, if_neg hnew, if_neg (Ne.symm hname),
      h.others name hname harchive]

end

end

/-! ### The file on disk -/

/-- The length and the identity that the log file remembers are those of the file on disk. -/
structure Aligned (w : World) : Prop where
  size : 0 < w.log.size
  isOpen : ∀ ino, w.log.file = some ino → w.disk.names.get? w.log.path = some ino ∧
    w.log.len = (w.disk.data ino).length ∧ w.log.diskProbe = some ⟨ino, (w.disk.data ino).length⟩
  isClosed : w.log.file = none → 0 < w.log.len →
    ∃ ino, w.disk.names.get? w.log.path = some ino ∧ w.log.len = (w.disk.data ino).length

section

variable {w : World}

theorem Aligned.diskChanged (h : Aligned w) : w.diskChanged = false := by
  unfold World.diskChanged
  cases hfile : w.log.file with
  | none => rfl
  | some ino =>
    obtain ⟨hino, -, hprobe⟩ := h.isOpen ino hfile
    rw [if_neg (by simp), hprobe, World.probeDisk, hino]
    simp

/-- The length that is remembered does not drift from the file. -/
theorem Aligned.len_eq (h : Aligned w) : w.len = (w.disk.contents w.log.path).length := by
  have hlen : ∀ ino, w.disk.names.get? w.log.path = some ino →
      (w.disk.contents w.log.path).length = (w.disk.data ino).length := by
    intro ino hino
    rw [Disk.contents, Disk.file?, hino]
    rfl
  have hprobe : (w.probeDisk.map (·.len)).getD 0 = (w.disk.contents w.log.path).length := by
    unfold World.probeDisk Disk.contents Disk.file?
    cases w.disk.names.get? w.log.path <;> rfl
  unfold World.len
  rw [h.diskChanged, if_neg Bool.false_ne_true]
  cases hfile : w.log.file with
  | some ino =>
    obtain ⟨hino, hlog, -⟩ := h.isOpen ino hfile
    rw [if_pos (.inr rfl), hlog, hlen ino hino]
  | none =>
    by_cases hpos : 0 < w.log.len
    · obtain ⟨ino, hino, hlog⟩ := h.isClosed hfile hpos
      rw [if_pos (.inl hpos), hlog, hlen ino hino]
    · rw [if_neg (by simpa using hpos), hprobe]

/-- A full file is there. -/
theorem Aligned.exists_of_isFull (h : Aligned w) (hfull : w.isFull = true) :
    ∃ ino, w.disk.names.get? w.log.path = some ino := by
  have hsize : w.log.size ≤ (w.disk.contents w.log.path).length := h.len_eq ▸ of_decide_eq_true hfull
  have hpos := h.size
  cases hino : w.disk.names.get? w.log.path with
  | some ino => exact ⟨ino, rfl⟩
  | none =>
    rw [Disk.contents, Disk.file?, hino] at hsize
    exact absurd hsize (by simp; omega)

theorem Aligned.flush (h : Aligned w) : Aligned w.flush := by
  unfold World.flush
  cases hfile : w.log.file with
  | none => exact h
  | some ino =>
    obtain ⟨hino, hlen, hprobe⟩ := h.isOpen ino hfile
    dsimp only
    split
    · exact ⟨h.size, nofun, fun _ _ => ⟨ino, hino, hlen⟩⟩
    · refine ⟨h.size, fun i hi => ?_, nofun⟩
      obtain rfl := Option.some.inj hi
      exact ⟨hino, hlen, hprobe⟩

end

/-- What a rotation at this clock reading may do: the archive gets one of this file's archive
names, the last one, and retention takes nothing else for an archive. -/
structure SafeRotation (w : World) (stamp : List Char) : Prop where
  isArchive : isArchive w.log.path (archiveName w.log.path stamp) = true
  latest : ∀ name ∈ archives w.log.path w.disk, name < archiveName w.log.path stamp
  others : w.log.num.isSome → ∀ name ∈ w.disk.list, isOwnFile w.log.path name = true →
    name = w.log.path ∨ Log.isArchive w.log.path name = true

section

variable {w : World} {d₀ : Disk}

abbrev World.KeptFiles (d₀ : Disk) (w : World) : Prop := Log.KeptFiles w.log.path w.log.keep? d₀ w.disk w.written

theorem keep?_pos {f : MappedFile} {k : ℕ} (h : f.keep? = some k) : 0 < k := by
  unfold MappedFile.keep? at h
  rcases hn : f.num with _ | _ | n
  · rw [hn] at h
    cases h
  · rw [hn] at h
    exact Option.some.inj h ▸ Nat.one_pos
  · rw [hn] at h
    exact Option.some.inj h ▸ Nat.succ_pos n

/-- **A safe rotation loses nothing**, and then there is no active file. -/
theorem kept_backupFiles (h : w.KeptFiles d₀) {ino : ℕ} (hino : w.disk.names.get? w.log.path = some ino)
    {stamp : List Char} (hsafe : SafeRotation w stamp) :
    (w.backupFiles stamp).KeptFiles d₀ ∧ (w.backupFiles stamp).disk.file? w.log.path = none := by
  have hne : archiveName w.log.path stamp ≠ w.log.path := by
    intro heq
    have := hsafe.isArchive
    rw [heq, isArchive_self] at this
    cases this
  have hgone : (w.disk.rename w.log.path (archiveName w.log.path stamp)).file? w.log.path = none := by
    rw [w.disk.file?_rename hino, if_neg hne, if_pos rfl]
  unfold World.backupFiles World.KeptFiles at *
  rw [if_neg (by simp [hino])]
  cases hkeep : w.log.keep? with
  | none =>
    rw [hkeep] at h
    refine ⟨?_, hgone⟩
    show Log.KeptFiles w.log.path w.log.keep? d₀ _ _
    rw [hkeep]
    exact h.rename hino hsafe.isArchive hsafe.latest
  | some k =>
    rw [hkeep] at h
    have hnum : w.log.num.isSome = true := by
      unfold MappedFile.keep? at hkeep
      cases hn : w.log.num with
      | none =>
        rw [hn] at hkeep
        cases hkeep
      | some n => rfl
    refine ⟨?_, ?_⟩
    · show Log.KeptFiles w.log.path w.log.keep? d₀ _ _
      rw [hkeep]
      exact h.rotate (keep?_pos hkeep) hino hsafe.isArchive hsafe.latest (hsafe.others hnum)
    · exact (file?_path_removeOld k _).trans hgone

/-! ### Opening and writing -/

theorem keptFiles_opened (h : w.KeptFiles d₀) {ino : ℕ} (hino : w.disk.names.get? w.log.path = some ino) :
    (w.opened ino).KeptFiles d₀ :=
  h.append hino _

theorem aligned_opened (hsize : 0 < w.log.size) {ino : ℕ} (hino : w.disk.names.get? w.log.path = some ino) :
    Aligned (w.opened ino) := by
  have hlength : (w.opened ino).log.len = ((w.opened ino).disk.data ino).length := by
    simp [World.opened, World.writeTo, Disk.append]
  refine ⟨hsize, fun i hi => ?_, nofun⟩
  obtain rfl := Option.some.inj hi
  refine ⟨hino, hlength, ?_⟩
  show World.probeDisk _ = _
  unfold World.probeDisk
  show (w.disk.names.get? w.log.path).map _ = _
  rw [hino]
  rfl

/-- Where nothing is open and the file is not full or not there, it is opened as it is, or made. -/
theorem openFile_spec (h : w.KeptFiles d₀) (hsize : 0 < w.log.size)
    (hroom : w.disk.file? w.log.path = none ∨ w.isFull = false) :
    ∃ ino preamble, w.openFile.log.file = some ino ∧ w.openFile.KeptFiles d₀ ∧ Aligned w.openFile ∧
      w.openFile.written = w.written ++ preamble ∧ (w.log.preambleBytes = none → preamble = []) ∧
      w.openFile.submitted = w.submitted ∧ w.openFile.log.path = w.log.path ∧
      w.openFile.log.preambleBytes = w.log.preambleBytes := by
  have hpre : ∀ len, w.log.preambleBytes = none → w.log.preambleFor len = [] := by
    intro len hnone
    unfold MappedFile.preambleFor
    rw [hnone]
    split <;> rfl
  unfold World.openFile
  cases hino : w.disk.names.get? w.log.path with
  | some ino =>
    have hfull : w.isFull = false := by
      apply hroom.resolve_left
      rw [Disk.file?, hino]
      exact nofun
    rw [hfull]
    exact ⟨ino, _, rfl, keptFiles_opened h hino, aligned_opened hsize hino, rfl, hpre _, rfl, rfl, rfl⟩
  | none =>
    have hnone : w.disk.file? w.log.path = none := by
      rw [Disk.file?, hino]
      rfl
    have hnew : (w.disk.create w.log.path).names.get? w.log.path = some w.disk.nextIno := by
      unfold Disk.create
      rw [KeyMap.get?_insert, if_pos (beq_self_eq_true _)]
    refine ⟨w.disk.nextIno, _, rfl, ?_, ?_, rfl, hpre _, rfl, rfl, rfl⟩
    · exact keptFiles_opened (w := { w with disk := w.disk.create w.log.path }) (h.create hnone) hnew
    · exact aligned_opened (w := { w with disk := w.disk.create w.log.path }) hsize hnew

theorem backupFiles_log (stamp : List Char) :
    (w.backupFiles stamp).log.file = none ∧ (w.backupFiles stamp).log.size = w.log.size ∧
    (w.backupFiles stamp).log.path = w.log.path ∧ (w.backupFiles stamp).log.preambleBytes = w.log.preambleBytes ∧
    (w.backupFiles stamp).written = w.written ∧ (w.backupFiles stamp).submitted = w.submitted := by
  unfold World.backupFiles
  split
  · exact ⟨rfl, rfl, rfl, rfl, rfl, rfl⟩
  · exact ⟨rfl, rfl, rfl, rfl, rfl, rfl⟩

/-- After `get_active_file` the file is open, and all is kept. -/
theorem getActiveFile_spec (h : w.KeptFiles d₀) (ha : Aligned w) {stamp : List Char}
    (hsafe : w.isFull = true → SafeRotation w stamp) :
    ∃ ino preamble, (w.getActiveFile stamp).log.file = some ino ∧ (w.getActiveFile stamp).KeptFiles d₀ ∧
      Aligned (w.getActiveFile stamp) ∧ (w.getActiveFile stamp).written = w.written ++ preamble ∧
      (w.log.preambleBytes = none → preamble = []) ∧ (w.getActiveFile stamp).submitted = w.submitted ∧
      (w.getActiveFile stamp).log.path = w.log.path ∧
      (w.getActiveFile stamp).log.preambleBytes = w.log.preambleBytes := by
  unfold World.getActiveFile
  dsimp only
  rw [ha.diskChanged, if_neg Bool.false_ne_true]
  cases hfull : w.isFull with
  | true =>
    rw [if_pos rfl]
    obtain ⟨ino, hino⟩ := ha.exists_of_isFull hfull
    obtain ⟨hkept, hgone⟩ := kept_backupFiles h hino (hsafe hfull)
    obtain ⟨hfile, hsize, hpath, hpre, hwritten, hsubmitted⟩ := @backupFiles_log w stamp
    rw [hfile, if_neg (by simp), ← hwritten, ← hsubmitted, ← hpath, ← hpre]
    exact openFile_spec hkept (hsize ▸ ha.size) (.inl (hpath.symm ▸ hgone))
  | false =>
    rw [if_neg Bool.false_ne_true]
    cases hfile : w.log.file with
    | some ino =>
      rw [Option.isSome_some, if_pos rfl]
      exact ⟨ino, [], hfile, h, ha, (List.append_nil _).symm, fun _ => rfl, rfl, rfl, rfl⟩
    | none =>
      rw [Option.isSome_none, if_neg Bool.false_ne_true]
      exact openFile_spec h ha.size (.inr hfull)

/-- The counters after a write to the open file. -/
theorem aligned_writeTo (ha : Aligned w) {ino : ℕ} (hfile : w.log.file = some ino) (bytes : List UInt8) :
    Aligned { w.writeTo ino bytes with
      log := { w.log with
        len := w.log.len + bytes.length
        diskProbe := some ⟨ino, (w.disk.data ino).length + bytes.length⟩ }
      submitted := w.submitted ++ bytes } := by
  obtain ⟨hino, hlen, -⟩ := ha.isOpen ino hfile
  have hdata : ((w.disk.append ino bytes).data ino).length = (w.disk.data ino).length + bytes.length := by
    simp [Disk.append]
  refine ⟨ha.size, fun i hi => ?_, fun hnone => ?_⟩
  · obtain rfl := Option.some.inj (hfile.symm.trans hi)
    refine ⟨hino, ?_, ?_⟩
    · show w.log.len + bytes.length = _
      rw [hlen, ← hdata]
      rfl
    · show some _ = _
      rw [← hdata]
      rfl
  · exact absurd (hfile.symm.trans hnone) nofun

theorem flush_frame : w.flush.disk = w.disk ∧ w.flush.written = w.written ∧ w.flush.submitted = w.submitted ∧
    w.flush.log.path = w.log.path ∧ w.flush.log.keep? = w.log.keep? ∧
    w.flush.log.preambleBytes = w.log.preambleBytes := by
  unfold World.flush
  cases w.log.file with
  | none => exact ⟨rfl, rfl, rfl, rfl, rfl, rfl⟩
  | some ino =>
    dsimp only
    split
    · exact ⟨rfl, rfl, rfl, rfl, rfl, rfl⟩
    · exact ⟨rfl, rfl, rfl, rfl, rfl, rfl⟩

theorem Kept.flush (h : Kept d₀ w) : Kept d₀ w.flush := by
  obtain ⟨hdisk, hwritten, hsubmitted, hpath, hkeep, hpre⟩ := @flush_frame w
  refine ⟨?_, ?_, ?_, ?_⟩
  · rw [hdisk, hwritten, hpath, hkeep]
    exact h.files
  · rw [hdisk, hwritten, hpath]
    exact h.active
  · rw [hsubmitted, hwritten]
    exact h.submitted
  · rw [hsubmitted, hwritten, hpre]
    exact h.noPreamble

/-- **A write keeps everything**, if the rotation before it is safe where there is one. -/
theorem Kept.write (h : Kept d₀ w) (ha : Aligned w) {buf : List UInt8} {taken : ℕ} {stamp : List Char}
    (hsafe : w.log.path ≠ [] → w.isFull = true → SafeRotation w stamp) :
    Kept d₀ (w.write buf taken stamp) ∧ Aligned (w.write buf taken stamp) := by
  unfold World.write
  by_cases hnoPath : w.log.path.isEmpty = true
  · rw [if_pos hnoPath]
    exact ⟨h, ha⟩
  rw [if_neg hnoPath]
  dsimp only
  obtain ⟨ino, preamble, hfile, hkept, haligned, hwritten, hempty, hsubmitted, hpath, hpre⟩ :=
    getActiveFile_spec h.files ha (hsafe (mt List.isEmpty_iff.mpr hnoPath))
  have hsub : (w.getActiveFile stamp).submitted.Sublist (w.getActiveFile stamp).written := by
    rw [hwritten, hsubmitted]
    exact h.submitted.trans (List.sublist_append_left _ _)
  have hplain : (w.getActiveFile stamp).log.preambleBytes = none →
      (w.getActiveFile stamp).submitted = (w.getActiveFile stamp).written := by
    intro hnone
    have hnone' := hpre ▸ hnone
    rw [hwritten, hsubmitted, h.noPreamble hnone', hempty hnone', List.append_nil]
  generalize w.getActiveFile stamp = v at *
  obtain ⟨hino, -, hprobe⟩ := haligned.isOpen ino hfile
  rw [hfile]
  dsimp only
  have hprobe' : (v.writeTo ino (buf.take taken)).log.diskProbe = some ⟨ino, (v.disk.data ino).length⟩ := hprobe
  rw [hprobe']
  dsimp only
  have haligned' := aligned_writeTo haligned hfile (buf.take taken)
  have hkept' : Kept d₀ { v.writeTo ino (buf.take taken) with
      log := { v.log with
        len := v.log.len + (buf.take taken).length
        diskProbe := some ⟨ino, (v.disk.data ino).length + (buf.take taken).length⟩ }
      submitted := v.submitted ++ buf.take taken } := by
    refine ⟨hkept.append hino _, fun _ => ?_, hsub.append (List.Sublist.refl _), fun hnone => ?_⟩
    · show ((v.disk.append ino _).file? v.log.path).isSome
      rw [v.disk.file?_append hino, if_pos rfl]
      rfl
    · exact congrArg (· ++ buf.take taken) (hplain hnone)
  split
  · exact ⟨hkept'.flush, haligned'.flush⟩
  · exact ⟨hkept', haligned'⟩

end

/-! ### Runs -/

/-- The calls on a log file; a write comes with the bytes that the system takes and with the clock's text. -/
inductive Action
  | write (buf : List UInt8) (taken : ℕ) (stamp : List Char)
  | flush

def step (w : World) (_now : ℤ) : Action → World
  | .write buf taken stamp => w.write buf taken stamp
  | .flush => w.flush

def start (path : FileName) (size : ℕ) (num : Option ℕ) (preamble : Option (List UInt8)) (d₀ : Disk) : World where
  disk := d₀
  log := .new path size num preamble

/-- Where a write comes to a full file, the rotation is safe. -/
def Safe (w : World) (_now : ℤ) : Action → Prop
  | .write _ _ stamp => w.log.path ≠ [] → w.isFull = true → SafeRotation w stamp
  | .flush => True

/-- The bytes of a caller that the system takes. -/
def Action.bytes : Action → List UInt8
  | .write buf taken _ => buf.take taken
  | .flush => []

section

variable {w : World}

theorem openFile_frame : w.openFile.submitted = w.submitted ∧ w.openFile.log.path = w.log.path ∧
    w.openFile.log.file.isSome = true := by
  unfold World.openFile
  split
  · split_ifs
    · exact ⟨rfl, rfl, rfl⟩
    · exact ⟨rfl, rfl, rfl⟩
  · exact ⟨rfl, rfl, rfl⟩

theorem getActiveFile_frame (stamp : List Char) : (w.getActiveFile stamp).submitted = w.submitted ∧
    (w.getActiveFile stamp).log.path = w.log.path ∧ (w.getActiveFile stamp).log.file.isSome = true := by
  have hreopen : (if w.diskChanged then w.reopen else w).submitted = w.submitted ∧
      (if w.diskChanged then w.reopen else w).log.path = w.log.path := by
    split_ifs
    · exact ⟨rfl, rfl⟩
    · exact ⟨rfl, rfl⟩
  unfold World.getActiveFile
  dsimp only
  generalize (if w.diskChanged then w.reopen else w) = w₁ at *
  have hbackup : (if w₁.isFull then w₁.backupFiles stamp else w₁).submitted = w.submitted ∧
      (if w₁.isFull then w₁.backupFiles stamp else w₁).log.path = w.log.path := by
    obtain ⟨-, -, hpath, -, -, hsubmitted⟩ := @backupFiles_log w₁ stamp
    split_ifs
    · exact ⟨hsubmitted.trans hreopen.1, hpath.trans hreopen.2⟩
    · exact hreopen
  generalize (if w₁.isFull then w₁.backupFiles stamp else w₁) = w₂ at *
  split_ifs with hfile
  · exact ⟨hbackup.1, hbackup.2, hfile⟩
  · obtain ⟨hsubmitted, hpath, hopen⟩ := @openFile_frame w₂
    exact ⟨hsubmitted.trans hbackup.1, hpath.trans hbackup.2, hopen⟩

theorem submitted_step (hpath : w.log.path ≠ []) (now : ℤ) (a : Action) :
    (step w now a).submitted = w.submitted ++ a.bytes ∧ (step w now a).log.path = w.log.path := by
  cases a with
  | flush =>
    obtain ⟨-, -, hsubmitted, hsame, -⟩ := @flush_frame w
    exact ⟨hsubmitted.trans (List.append_nil _).symm, hsame⟩
  | write buf taken stamp =>
    obtain ⟨hsubmitted, hsame, hopen⟩ := @getActiveFile_frame w stamp
    obtain ⟨ino, hino⟩ := Option.isSome_iff_exists.mp hopen
    show (w.write buf taken stamp).submitted = w.submitted ++ buf.take taken ∧ (w.write buf taken stamp).log.path = _
    unfold World.write
    rw [if_neg (by simpa using hpath)]
    dsimp only
    rw [hino, ← hsubmitted, ← hsame]
    dsimp only
    generalize w.getActiveFile stamp = v
    -- the probe is no part of either
    have hprobe (v' : World) (hv : v'.submitted = v.submitted ++ buf.take taken ∧ v'.log.path = v.log.path) :
        (if v'.isFull then v'.flush else v').submitted = v.submitted ++ buf.take taken ∧
          (if v'.isFull then v'.flush else v').log.path = v.log.path := by
      obtain ⟨-, -, hsubmitted', hsame', -⟩ := @flush_frame v'
      split_ifs
      · exact ⟨hsubmitted'.trans hv.1, hsame'.trans hv.2⟩
      · exact hv
    apply hprobe
    split
    · exact ⟨rfl, rfl⟩
    · exact ⟨rfl, rfl⟩

/-- **What was submitted is the bytes of the writes**, in their order, in every run of a log with a path. -/
theorem submitted_run : ∀ (acts : List (ℤ × Action)) (w : World), w.log.path ≠ [] →
    (run step w acts).submitted = w.submitted ++ acts.flatMap fun e => e.2.bytes
  | [], w, _ => (List.append_nil _).symm
  | e :: acts, w, hpath => by
    obtain ⟨hsubmitted, hsame⟩ := submitted_step hpath e.1 e.2
    rw [run_cons, submitted_run acts _ (hsame ▸ hpath), hsubmitted, List.flatMap_cons, List.append_assoc]

end

theorem guardSize_pos (size : ℕ) : 0 < guardSize size := by
  unfold guardSize
  split
  · decide
  · omega

/-- **Rotation loses nothing before retention, and retention takes the oldest**, along every run
whose rotations are safe. -/
theorem kept_of_safe_rotations (path : FileName) (size : ℕ) (num : Option ℕ) (preamble : Option (List UInt8))
    (d₀ : Disk) (acts : List (ℤ × Action)) (h : Meets step Safe (start path size num preamble d₀) acts) :
    Throughout step (Kept d₀) (start path size num preamble d₀) acts := by
  refine throughout_of_meets step (I := fun w => Kept d₀ w ∧ Aligned w) (fun _ h => h.1) ?_ acts _ ?_ h
  · rintro w now (⟨buf, taken, stamp⟩ | _) ⟨hkept, haligned⟩ hsafe
    · exact hkept.write haligned hsafe
    · exact ⟨hkept.flush, haligned.flush⟩
  · refine ⟨⟨keptFiles_start d₀, fun h => h.resolve_right fun h => h rfl, List.Sublist.refl _, fun _ => rfl⟩, ?_⟩
    exact ⟨guardSize_pos size, nofun, fun _ h => absurd h (Nat.lt_irrefl 0)⟩

def noon : List Char := "20260922-120000000000000".toList

def later : List Char := "20260922-120001000000000".toList

/-- Three lines of one byte, each the size of a file, with two rotations. -/
def threeLines (first second : List Char) : List (ℤ × Action) :=
  [(0, .write [1] 1 noon), (0, .write [2] 1 first), (0, .write [3] 1 second)]

/-- At two readings, one after the other, all is kept; of the two archives the first is removed. -/
theorem kept_threeLines :
    Meets step Safe (start "dns.log".toList 1 (some 1) none .empty) (threeLines noon later) ∧
    Throughout step (Kept .empty) (start "dns.log".toList 1 (some 1) none .empty) (threeLines noon later) := by
  have hsafe : Meets step Safe (start "dns.log".toList 1 (some 1) none .empty) (threeLines noon later) :=
    ⟨fun _ hfull => absurd hfull (by decide), fun _ _ => ⟨by decide, by decide, fun _ => by decide⟩,
      fun _ _ => ⟨by decide, by decide, fun _ => by decide⟩, trivial⟩
  exact ⟨hsafe, kept_of_safe_rotations "dns.log".toList 1 (some 1) none .empty _ hsafe⟩

/-- An archive of the audit file `dns.audit`. -/
def auditArchive : FileName := "dns-20260101-000000000000000.audit".toList

/-- **What rotation destroys**: the archive of the same clock reading, the main log next to a log
with a dotted name, and the archives of a log with another extension. -/
theorem rotation_destroys :
    ¬ Throughout step (Kept .empty) (start "dns.log".toList 1 none none .empty) (threeLines noon noon) ∧
    ¬ Throughout step (Kept (Disk.empty.create "dns.log".toList))
      (start "dns.debug.log".toList 1 none none (Disk.empty.create "dns.log".toList)) (threeLines noon later) ∧
    ¬ Throughout step (Kept (Disk.empty.create auditArchive))
      (start "dns.log".toList 1 (some 1) none (Disk.empty.create auditArchive)) (threeLines noon later) := by
  refine ⟨fun h => ?_, fun h => ?_, fun h => ?_⟩
  · obtain ⟨gone, -, hbytes, hkeep⟩ := h.2.2.2.files.inOrder
    obtain rfl : gone = [] := by_contra fun hne => nomatch hkeep hne
    revert hbytes
    decide
  · have hmain := h.2.2.2.files.others "dns.log".toList (by decide) (by decide)
    revert hmain
    decide
  · have haudit := h.2.2.2.files.others auditArchive (by decide) (by decide)
    revert haudit
    decide

end Log
end SmartDns
