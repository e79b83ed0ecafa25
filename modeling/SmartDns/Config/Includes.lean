/-
# Included files

Files that include each other, themselves, or the same file under several paths. Each
file that is entered is one of finitely many real paths and is not entered again, so that
loading ends (`inlineConfFile_isSome`) with the same text however deep it may go
(`inlineConfFile_depth`). No line of a file stands in the text twice (`Fresh`).

Key definitions: `Grows`, `unseen`, `places`, `Fresh`.
Key theorems: `singleText_isSome`, `singleText_depth`, `nodup_singleText`.
-/
import SmartDns.Config.SingleText

namespace SmartDns
namespace Config

variable {S G : Type}

/-! ### Pieces of text -/

section

variable {α : Type} {piece piece' : Files → α → Option Inlined}

/-- What each piece has and pieces behind one another have, has their whole. -/
theorem gather_rule {P : Files → Inlined → Prop} (nil : ∀ f, P f (f, []))
    (append : ∀ f r r', P f r → P r.1 r' → P f (r'.1, r.2 ++ r'.2)) (each : ∀ f a r, piece f a = some r → P f r)
    (as : List α) : ∀ f r, gather piece f as = some r → P f r := by
  induction as with
  | nil =>
    intro f r h
    cases h
    exact nil f
  | cons a as ih =>
    intro f r h
    obtain ⟨r₁, h₁, h⟩ := Option.bind_eq_some_iff.mp h
    obtain ⟨r₂, h₂, rfl⟩ := Option.map_eq_some_iff.mp h
    exact append f r₁ r₂ (each f a r₁ h₁) (ih r₁.1 r₂ h₂)

/-- Pieces that are there as long as `P` lasts. -/
theorem gather_isSome {P : Files → Prop} (each : ∀ f a, P f → (piece f a).isSome)
    (keeps : ∀ f a r, P f → piece f a = some r → P r.1) (as : List α) :
    ∀ f, P f → (gather piece f as).isSome := by
  induction as with
  | nil => exact fun _ _ => rfl
  | cons a as ih =>
    intro f hf
    obtain ⟨r, hr⟩ := Option.isSome_iff_exists.mp (each f a hf)
    obtain ⟨r', hr'⟩ := Option.isSome_iff_exists.mp (ih r.1 (keeps f a r hf hr))
    simp [gather, hr, hr']

/-- Pieces that are the same as long as `P` lasts. -/
theorem gather_congr {P : Files → Prop} (each : ∀ f a, P f → piece f a = piece' f a)
    (keeps : ∀ f a r, P f → piece f a = some r → P r.1) (as : List α) :
    ∀ f, P f → gather piece f as = gather piece' f as := by
  induction as with
  | nil => exact fun _ _ => rfl
  | cons a as ih =>
    intro f hf
    rw [gather, gather, ← each f a hf]
    cases hr : piece f a with
    | none => rfl
    | some r => simp only [Option.bind_some, ih r.1 (keeps f a r hf hr)]

end

/-! ### What the loader knows only grows -/

/-- `loaded_files` grows, and a main file stays. -/
def Grows (f f' : Files) : Prop := f.loadedFiles ⊆ f'.loadedFiles ∧ (f.confFile.isSome → f'.confFile.isSome)

theorem Grows.refl (f : Files) : Grows f f := ⟨List.Subset.refl _, id⟩

theorem Grows.trans {f f' f'' : Files} (h : Grows f f') (h' : Grows f' f'') : Grows f f'' :=
  ⟨List.Subset.trans h.1 h'.1, h'.2 ∘ h.2⟩

@[simp] theorem loadedFiles_addDir (f : Files) (file : Path) : (f.addDir file).loadedFiles = f.loadedFiles := by
  unfold Files.addDir
  cases file.parent <;> rfl

@[simp] theorem confFile_addDir (f : Files) (file : Path) : (f.addDir file).confFile = f.confFile := by
  unfold Files.addDir
  cases file.parent <;> rfl

/-- The loader's files as a file's lines are read. -/
def entered (fs : FileSystem) (f : Files) (path : Path) : Files :=
  { f with loadedFiles := fs.key path :: f.loadedFiles, confFile := f.confFile.or (some path) }

section

variable {gr : Grammar S G} {fs : FileSystem} {inline : Files → Path → Option (Inlined × Bool)}

theorem grows_entered (f : Files) (path : Path) : Grows f (entered fs f path) := by
  refine ⟨List.subset_cons_self _ _, fun h => ?_⟩
  obtain ⟨main, hmain⟩ := Option.isSome_iff_exists.mp h
  simp [entered, hmain]

/-- How a call ends: nothing to read, or the lines of a file that was not entered before. -/
theorem inlineResolved_cases {f : Files} {path : Path} {r : Inlined × Bool}
    (h : inlineResolved gr fs inline f path = some r) :
    (r.1.2 = [] ∧ Grows f r.1.1) ∨
    ∃ content, fs.key path ∉ f.loadedFiles ∧ fs.openFile path = some content ∧
      inlineLines gr fs inline path (entered fs f path) (content.lines.zipIdx 1) = some r.1 := by
  unfold inlineResolved at h
  by_cases hkey : fs.key path ∈ f.loadedFiles
  · rw [if_pos hkey] at h
    cases h
    exact .inl ⟨rfl, Grows.refl f⟩
  · rw [if_neg hkey] at h
    by_cases hexists : fs.exists? path = true
    · simp only [if_pos hexists] at h
      cases hopen : fs.openFile path with
      | none =>
        simp only [hopen] at h
        cases h
        exact .inl ⟨rfl, List.subset_cons_self _ _, id⟩
      | some content =>
        simp only [hopen] at h
        obtain ⟨t, ht, rfl⟩ := Option.map_eq_some_iff.mp h
        exact .inr ⟨content, hkey, rfl, ht⟩
    · simp only [if_neg hexists] at h
      cases h
      exact .inl ⟨rfl, List.subset_cons_self _ _, id⟩

theorem grows_inlineInclude (h : ∀ f p r, inline f p = some r → Grows f r.1.1) {group : Option String} {f : Files}
    {file : Path} {r : Inlined} (hr : inlineInclude inline group f file = some r) : Grows f r.1 := by
  obtain ⟨r₁, hr₁, rfl⟩ := Option.map_eq_some_iff.mp hr
  have hg := h f file r₁ hr₁
  exact ⟨by simpa using hg.1, by simpa using hg.2⟩

theorem grows_inlineAt (h : ∀ f p r, inline f p = some r → Grows f r.1.1) {line : List UInt8} {lineno : Option ℕ}
    {base : Option Path} {f : Files} {r : Inlined} (hr : inlineAt gr fs inline line lineno base f = some r) :
    Grows f r.1 := by
  unfold inlineAt at hr
  split at hr
  · obtain ⟨r₁, hr₁, rfl⟩ := Option.map_eq_some_iff.mp hr
    exact gather_rule (P := fun f r => Grows f r.1) Grows.refl (fun _ _ _ h h' => h.trans h')
      (fun f file r hr => grows_inlineInclude h hr) _ f r₁ hr₁
  · cases hr
    exact Grows.refl f

theorem grows_inlineLines (h : ∀ f p r, inline f p = some r → Grows f r.1.1) {path : Path}
    {lines : List (List UInt8 × ℕ)} {f : Files} {r : Inlined} (hr : inlineLines gr fs inline path f lines = some r) :
    Grows f r.1 :=
  gather_rule (P := fun f r => Grows f r.1) Grows.refl (fun _ _ _ h h' => h.trans h')
    (fun _ _ _ hr => grows_inlineAt h hr) lines f r hr

theorem grows_inlineResolved (h : ∀ f p r, inline f p = some r → Grows f r.1.1) {f : Files} {path : Path}
    {r : Inlined × Bool} (hr : inlineResolved gr fs inline f path = some r) : Grows f r.1.1 := by
  rcases inlineResolved_cases hr with ⟨_, hg⟩ | ⟨content, _, _, hlines⟩
  · exact hg
  · exact (grows_entered f path).trans (grows_inlineLines h hlines)

end

theorem grows_inlineConfFile (gr : Grammar S G) (fs : FileSystem) : ∀ (depth : ℕ) (f : Files) (path : Path)
    (r : Inlined × Bool), inlineConfFile gr fs depth f path = some r → Grows f r.1.1
  | 0, _, _, _, h => by cases h
  | depth + 1, _, _, _, h => grows_inlineResolved (grows_inlineConfFile gr fs depth) h

/-! ### Loading ends -/

/-- The real paths that were not entered yet. -/
def unseen (fs : FileSystem) (f : Files) : ℕ := (fs.realpaths.filter fun p => p ∉ f.loadedFiles).length

theorem unseen_mono (fs : FileSystem) {f f' : Files} (h : Grows f f') : unseen fs f' ≤ unseen fs f := by
  apply List.Sublist.length_le
  apply List.monotone_filter_right
  intro p hp
  have hnew : p ∉ f'.loadedFiles := by simpa using hp
  simpa using fun hmem => hnew (h.1 hmem)

theorem unseen_le (fs : FileSystem) (f : Files) : unseen fs f ≤ fs.realpaths.length := List.length_filter_le _ _

/-- A file that is entered was not seen before. -/
theorem unseen_entered_lt {fs : FileSystem} {f : Files} {path : Path} {content : Content}
    (hopen : fs.openFile path = some content) (hkey : fs.key path ∉ f.loadedFiles) :
    unseen fs (entered fs f path) < unseen fs f := by
  unfold FileSystem.openFile FileSystem.node? at hopen
  obtain ⟨node, hnode, _⟩ := Option.bind_eq_some_iff.mp hopen
  obtain ⟨real, hreal, _⟩ := Option.map_eq_some_iff.mp hnode
  have hkeyreal : fs.key path = real := by
    unfold FileSystem.key
    rw [hreal]
    rfl
  have hmem : fs.key path ∈ fs.realpaths.filter fun p => p ∉ f.loadedFiles := by
    apply List.mem_filter.mpr
    exact ⟨hkeyreal ▸ fs.realpath_mem hreal, by simpa using hkey⟩
  have hfilter : (fs.realpaths.filter fun p => p ∉ (entered fs f path).loadedFiles) =
      (fs.realpaths.filter fun p => p ∉ f.loadedFiles).filter fun p => p ≠ fs.key path := by
    rw [List.filter_filter]
    apply List.filter_congr
    intro p _
    simp [entered, not_or]
  unfold unseen
  rw [hfilter]
  exact List.length_filter_lt_length_iff_exists.mpr ⟨_, hmem, by simp⟩

section

variable {gr : Grammar S G} {fs : FileSystem} {inline inline' : Files → Path → Option (Inlined × Bool)}
  {P : Files → Prop}

theorem inlineAt_isSome (mono : ∀ f f', Grows f f' → P f → P f') (grows : ∀ f p r, inline f p = some r → Grows f r.1.1)
    (h : ∀ f p, P f → (inline f p).isSome) {line : List UInt8} {lineno : Option ℕ} {base : Option Path} {f : Files}
    (hf : P f) : (inlineAt gr fs inline line lineno base f).isSome := by
  unfold inlineAt
  split
  · rw [Option.isSome_map]
    apply gather_isSome (P := P) ?_ ?_ _ f hf
    · intro f file hf
      rw [inlineInclude, Option.isSome_map]
      exact h f file hf
    · exact fun f file r hf hr => mono f r.1 (grows_inlineInclude grows hr) hf
  · rfl

theorem inlineLines_isSome (mono : ∀ f f', Grows f f' → P f → P f')
    (grows : ∀ f p r, inline f p = some r → Grows f r.1.1) (h : ∀ f p, P f → (inline f p).isSome) {path : Path}
    {lines : List (List UInt8 × ℕ)} {f : Files} (hf : P f) : (inlineLines gr fs inline path f lines).isSome := by
  unfold inlineLines
  apply gather_isSome (P := P) ?_ ?_ lines f hf
  · exact fun _ _ hf => inlineAt_isSome mono grows h hf
  · exact fun f _ r hf hr => mono f r.1 (grows_inlineAt grows hr) hf

theorem inlineAt_congr (mono : ∀ f f', Grows f f' → P f → P f') (grows : ∀ f p r, inline f p = some r → Grows f r.1.1)
    (h : ∀ f p, P f → (inline f p).map (·.1) = (inline' f p).map (·.1)) {line : List UInt8} {lineno : Option ℕ}
    {base : Option Path} {f : Files} (hf : P f) :
    inlineAt gr fs inline line lineno base f = inlineAt gr fs inline' line lineno base f := by
  unfold inlineAt
  split
  · rename_i v hv
    congr 1
    apply gather_congr (P := P) ?_ ?_ _ f hf
    · intro f file hf
      have hpiece : ∀ g : Files → Path → Option (Inlined × Bool), inlineInclude g v.group f file =
          ((g f file).map (·.1)).map fun r => (r.1.addDir file, inGroup v.group r.2) := by
        intro g
        rw [Option.map_map]
        rfl
      rw [hpiece, hpiece, h f file hf]
    · exact fun f file r hf hr => mono f r.1 (grows_inlineInclude grows hr) hf
  · rfl

theorem inlineLines_congr (mono : ∀ f f', Grows f f' → P f → P f')
    (grows : ∀ f p r, inline f p = some r → Grows f r.1.1)
    (h : ∀ f p, P f → (inline f p).map (·.1) = (inline' f p).map (·.1)) {path : Path}
    {lines : List (List UInt8 × ℕ)} {f : Files} (hf : P f) :
    inlineLines gr fs inline path f lines = inlineLines gr fs inline' path f lines := by
  unfold inlineLines
  apply gather_congr (P := P) ?_ ?_ lines f hf
  · exact fun _ _ hf => inlineAt_congr mono grows h hf
  · exact fun f _ r hf hr => mono f r.1 (grows_inlineAt grows hr) hf

/-- A file has a text if those have one that are entered when it is. -/
theorem inlineResolved_isSome {depth : ℕ} (grows : ∀ f p r, inline f p = some r → Grows f r.1.1)
    (h : ∀ f p, unseen fs f < depth → (inline f p).isSome) {f : Files} {path : Path} (hf : unseen fs f ≤ depth) :
    (inlineResolved gr fs inline f path).isSome := by
  unfold inlineResolved
  by_cases hkey : fs.key path ∈ f.loadedFiles
  · rw [if_pos hkey]
    rfl
  · rw [if_neg hkey]
    by_cases hexists : fs.exists? path = true
    · simp only [if_pos hexists]
      cases hopen : fs.openFile path with
      | none => rfl
      | some content =>
        simp only [Option.isSome_map]
        apply inlineLines_isSome (P := fun f => unseen fs f < depth) ?_ grows h
        · exact Nat.lt_of_lt_of_le (unseen_entered_lt hopen hkey) hf
        · exact fun f f' hg hf => Nat.lt_of_le_of_lt (unseen_mono fs hg) hf
    · simp only [if_neg hexists]
      rfl

/-- And the same text if those have the same. -/
theorem inlineResolved_congr {depth : ℕ} (grows : ∀ f p r, inline f p = some r → Grows f r.1.1)
    (h : ∀ f p, unseen fs f < depth → inline f p = inline' f p) {f : Files} {path : Path} (hf : unseen fs f ≤ depth) :
    inlineResolved gr fs inline f path = inlineResolved gr fs inline' f path := by
  unfold inlineResolved
  by_cases hkey : fs.key path ∈ f.loadedFiles
  · rw [if_pos hkey, if_pos hkey]
  · rw [if_neg hkey, if_neg hkey]
    by_cases hexists : fs.exists? path = true
    · simp only [if_pos hexists]
      cases hopen : fs.openFile path with
      | none => rfl
      | some content =>
        simp only
        congr 1
        apply inlineLines_congr (P := fun f => unseen fs f < depth) ?_ grows fun f p hf => by rw [h f p hf]
        · exact Nat.lt_of_lt_of_le (unseen_entered_lt hopen hkey) hf
        · exact fun f f' hg hf => Nat.lt_of_le_of_lt (unseen_mono fs hg) hf
    · simp only [if_neg hexists]

end

section

variable (gr : Grammar S G) (fs : FileSystem)

/-- **Loading ends**: what goes down at every file is the number of files not seen yet. -/
theorem inlineConfFile_isSome : ∀ (depth : ℕ) (f : Files) (path : Path), unseen fs f < depth →
    (inlineConfFile gr fs depth f path).isSome
  | 0, _, _, h => by omega
  | depth + 1, _, _, h =>
    inlineResolved_isSome (grows_inlineConfFile gr fs depth) (inlineConfFile_isSome depth) (Nat.le_of_lt_succ h)

/-- **And a greater depth gives the same text.** -/
theorem inlineConfFile_depth : ∀ (depth depth' : ℕ) (f : Files) (path : Path), unseen fs f < depth →
    depth ≤ depth' → inlineConfFile gr fs depth f path = inlineConfFile gr fs depth' f path
  | 0, _, _, _, h, _ => by omega
  | depth + 1, 0, _, _, _, h' => by omega
  | depth + 1, depth' + 1, _, _, h, h' =>
    inlineResolved_congr (grows_inlineConfFile gr fs depth)
      (fun f p hf => inlineConfFile_depth depth depth' f p hf (Nat.le_of_succ_le_succ h')) (Nat.le_of_lt_succ h)

theorem inlineFile_isSome {depth : ℕ} {f : Files} (path : Path) (h : unseen fs f ≤ depth) :
    (inlineFile gr fs depth f path).isSome :=
  inlineResolved_isSome (grows_inlineConfFile gr fs depth) (inlineConfFile_isSome gr fs depth) h

theorem inlineFile_depth {depth depth' : ℕ} {f : Files} (path : Path) (h : unseen fs f ≤ depth) (h' : depth ≤ depth') :
    inlineFile gr fs depth f path = inlineFile gr fs depth' f path :=
  inlineResolved_congr (grows_inlineConfFile gr fs depth)
    (fun f p hf => inlineConfFile_depth gr fs depth depth' f p hf h') h

theorem grows_inlineFile {depth : ℕ} {f : Files} {path : Path} {r : Inlined × Bool}
    (h : inlineFile gr fs depth f path = some r) : Grows f r.1.1 :=
  grows_inlineResolved (grows_inlineConfFile gr fs depth) h

end

/-! ### Each line once -/

/-- The real file and the number of a line. -/
def FlatLine.place (fs : FileSystem) : FlatLine → Option (Path × ℕ)
  | .read _ (some lineno) (some base) _ => some (fs.key base, lineno)
  | _ => none

def places (fs : FileSystem) (t : List FlatLine) : List (Path × ℕ) := t.filterMap (FlatLine.place fs)

/-- All lines are of files that were entered for this piece of text, and none stands there twice. -/
structure Fresh (fs : FileSystem) (f : Files) (r : Inlined) : Prop where
  grows : Grows f r.1
  entered : ∀ pl ∈ places fs r.2, pl.1 ∉ f.loadedFiles ∧ pl.1 ∈ r.1.loadedFiles
  nodup : (places fs r.2).Nodup

/-- The same, but for the lines from `lineno` on of the file `key` that is being read. -/
structure FreshLines (fs : FileSystem) (key : Path) (lineno : ℕ) (f : Files) (r : Inlined) : Prop where
  grows : Grows f r.1
  entered : ∀ pl ∈ places fs r.2, (pl.1 = key ∧ lineno ≤ pl.2) ∨ (pl.1 ∉ f.loadedFiles ∧ pl.1 ∈ r.1.loadedFiles)
  nodup : (places fs r.2).Nodup

section

variable {gr : Grammar S G} {fs : FileSystem} {inline : Files → Path → Option (Inlined × Bool)}

theorem places_append (t t' : List FlatLine) : places fs (t ++ t') = places fs t ++ places fs t' :=
  List.filterMap_append

theorem places_inGroup (group : Option String) (t : List FlatLine) : places fs (inGroup group t) = places fs t := by
  cases group with
  | none => rfl
  | some name =>
    show places fs (t ++ [FlatLine.leaves]) = places fs t
    rw [places_append]
    exact List.append_nil _

theorem Fresh.nil (f : Files) : Fresh fs f (f, []) := ⟨Grows.refl f, by simp [places], List.nodup_nil⟩

theorem Fresh.append {f : Files} {r r' : Inlined} (h : Fresh fs f r) (h' : Fresh fs r.1 r') :
    Fresh fs f (r'.1, r.2 ++ r'.2) := by
  refine ⟨h.grows.trans h'.grows, fun pl hpl => ?_, ?_⟩
  · rw [places_append, List.mem_append] at hpl
    rcases hpl with hpl | hpl
    · exact ⟨(h.entered pl hpl).1, h'.grows.1 (h.entered pl hpl).2⟩
    · exact ⟨fun hmem => (h'.entered pl hpl).1 (h.grows.1 hmem), (h'.entered pl hpl).2⟩
  · rw [places_append]
    apply h.nodup.append h'.nodup
    intro pl hpl hpl'
    exact (h'.entered pl hpl').1 (h.entered pl hpl).2

theorem Fresh.inGroup {f : Files} {r : Inlined} (h : Fresh fs f r) (group : Option String) (file : Path) :
    Fresh fs f (r.1.addDir file, inGroup group r.2) := by
  refine ⟨⟨by simpa using h.grows.1, by simpa using h.grows.2⟩, fun pl hpl => ?_, ?_⟩
  · rw [places_inGroup] at hpl
    simpa using h.entered pl hpl
  · rw [places_inGroup]
    exact h.nodup

/-- A line and what it includes. -/
theorem freshLines_inlineAt (h : ∀ f p r, inline f p = some r → Fresh fs f r.1) {line : List UInt8} {lineno : ℕ}
    {path : Path} {f : Files} {r : Inlined} (hr : inlineAt gr fs inline line (some lineno) (some path) f = some r) :
    ∃ r₁, Fresh fs f (r.1, r₁) ∧ places fs r.2 = (fs.key path, lineno) :: places fs r₁ := by
  unfold inlineAt at hr
  split at hr
  · obtain ⟨r₁, hr₁, rfl⟩ := Option.map_eq_some_iff.mp hr
    refine ⟨r₁.2, ?_, rfl⟩
    apply gather_rule (P := Fresh fs) Fresh.nil (fun _ _ _ h h' => h.append h') ?_ _ f r₁ hr₁
    intro f file r hr
    obtain ⟨r', hr', rfl⟩ := Option.map_eq_some_iff.mp hr
    exact (h f file r' hr').inGroup _ file
  · cases hr
    exact ⟨[], Fresh.nil f, rfl⟩

/-- The lines of a file, with what they include. -/
theorem freshLines_inlineLines (h : ∀ f p r, inline f p = some r → Fresh fs f r.1) {path : Path} :
    ∀ (lines : List (List UInt8)) (lineno : ℕ) (f : Files) (r : Inlined), fs.key path ∈ f.loadedFiles →
      inlineLines gr fs inline path f (lines.zipIdx lineno) = some r → FreshLines fs (fs.key path) lineno f r
  | [], lineno, f, r, _, hr => by
    cases hr
    exact ⟨Grows.refl f, by simp [places], List.nodup_nil⟩
  | line :: lines, lineno, f, r, hkey, hr => by
    rw [List.zipIdx_cons] at hr
    obtain ⟨r₁, hr₁, hr⟩ := Option.bind_eq_some_iff.mp hr
    obtain ⟨r₂, hr₂, rfl⟩ := Option.map_eq_some_iff.mp hr
    obtain ⟨t, hfresh, hplaces⟩ := freshLines_inlineAt h hr₁
    have hrest := freshLines_inlineLines h lines (lineno + 1) r₁.1 r₂ (hfresh.grows.1 hkey) hr₂
    refine ⟨hfresh.grows.trans hrest.grows, fun pl hpl => ?_, ?_⟩
    · rw [places_append, hplaces, List.mem_append, List.mem_cons] at hpl
      rcases hpl with (rfl | hpl) | hpl
      · exact .inl ⟨rfl, Nat.le_refl _⟩
      · exact .inr ⟨(hfresh.entered pl hpl).1, hrest.grows.1 (hfresh.entered pl hpl).2⟩
      · rcases hrest.entered pl hpl with ⟨hpath, hle⟩ | ⟨hnew, hold⟩
        · exact .inl ⟨hpath, Nat.le_of_succ_le hle⟩
        · exact .inr ⟨fun hmem => hnew (hfresh.grows.1 hmem), hold⟩
    · rw [places_append, hplaces]
      -- The line's own place is of this file; those it includes are of files not entered before.
      have hown : (fs.key path, lineno) ∉ places fs t := fun hmem => (hfresh.entered _ hmem).1 hkey
      apply (List.nodup_cons.mpr ⟨hown, hfresh.nodup⟩).append hrest.nodup
      intro pl hpl hpl'
      rcases List.mem_cons.mp hpl with rfl | hpl
      · rcases hrest.entered _ hpl' with ⟨_, hle⟩ | ⟨hnew, _⟩
        · exact absurd hle (Nat.not_succ_le_self lineno)
        · exact hnew (hfresh.grows.1 hkey)
      · rcases hrest.entered pl hpl' with ⟨hpath, _⟩ | ⟨hnew, _⟩
        · exact (hfresh.entered pl hpl).1 (hpath ▸ hkey)
        · exact hnew (hfresh.entered pl hpl).2

theorem fresh_inlineResolved (h : ∀ f p r, inline f p = some r → Fresh fs f r.1) {f : Files} {path : Path}
    {r : Inlined × Bool} (hr : inlineResolved gr fs inline f path = some r) : Fresh fs f r.1 := by
  rcases inlineResolved_cases hr with ⟨hnil, hg⟩ | ⟨content, hkey, _, hlines⟩
  · exact ⟨hg, by simp [hnil, places], by simp [hnil, places]⟩
  · have hmem : fs.key path ∈ (entered fs f path).loadedFiles := List.mem_cons_self
    have hread := freshLines_inlineLines h content.lines 1 (entered fs f path) r.1 hmem hlines
    refine ⟨(grows_entered f path).trans hread.grows, fun pl hpl => ?_, hread.nodup⟩
    rcases hread.entered pl hpl with ⟨hpath, _⟩ | ⟨hnew, hold⟩
    · rw [hpath]
      exact ⟨hkey, hread.grows.1 hmem⟩
    · exact ⟨fun h => hnew ((grows_entered f path).1 h), hold⟩

end

theorem fresh_inlineConfFile (gr : Grammar S G) (fs : FileSystem) : ∀ (depth : ℕ) (f : Files) (path : Path)
    (r : Inlined × Bool), inlineConfFile gr fs depth f path = some r → Fresh fs f r.1
  | 0, _, _, _, h => by cases h
  | depth + 1, _, _, _, h => fresh_inlineResolved (fresh_inlineConfFile gr fs depth) h

theorem fresh_inlineFile {gr : Grammar S G} {fs : FileSystem} {depth : ℕ} {f : Files} {path : Path}
    {r : Inlined × Bool} (h : inlineFile gr fs depth f path = some r) : Fresh fs f r.1 :=
  fresh_inlineResolved (fresh_inlineConfFile gr fs depth) h

/-! ### The whole text -/

section

variable {gr : Grammar S G} {fs : FileSystem} {depth : ℕ} {f : Files}

theorem inlineMain_isSome (h : fs.realpaths.length ≤ depth) : (inlineMain gr fs depth f).isSome := by
  unfold inlineMain
  cases f.confFile with
  | none => rfl
  | some main =>
    simp only
    by_cases hexists : fs.exists? main = false
    · rw [if_pos hexists]
      rfl
    · rw [if_neg hexists]
      by_cases hloaded : main ∈ f.loadedFiles
      · rw [if_pos hloaded]
        rfl
      · rw [if_neg hloaded, Option.isSome_map]
        exact inlineFile_isSome gr fs main (Nat.le_trans (unseen_le fs f) h)

theorem inlineManaged_isSome (h : fs.realpaths.length ≤ depth) (managed : List Path) :
    (inlineManaged gr fs depth managed f).isSome := by
  apply gather_isSome (P := fun _ => True) ?_ (fun _ _ _ _ _ => trivial) managed f trivial
  intro f file _
  rw [Option.isSome_map]
  exact inlineFile_isSome gr fs file (Nat.le_trans (unseen_le fs f) h)

theorem singleText_isSome (h : fs.realpaths.length ≤ depth) (managed : List Path) :
    (singleText gr fs depth managed f).isSome := by
  have hmain : (inlineMain gr fs depth f).isSome := inlineMain_isSome h
  obtain ⟨r, hr⟩ := Option.isSome_iff_exists.mp hmain
  unfold singleText
  rw [hr]
  cases r with
  | error e => rfl
  | ok r =>
    show ((inlineManaged gr fs depth managed r.1).map _).isSome
    rw [Option.isSome_map]
    exact inlineManaged_isSome h managed

theorem singleText_depth (h : fs.realpaths.length ≤ depth) (managed : List Path) :
    singleText gr fs depth managed f = singleText gr fs fs.realpaths.length managed f := by
  have hfile : ∀ f path, inlineFile gr fs depth f path = inlineFile gr fs fs.realpaths.length f path :=
    fun f path => (inlineFile_depth gr fs path (unseen_le fs f) h).symm
  unfold singleText inlineMain inlineManaged
  simp only [hfile]

theorem fresh_inlineMain {r : Inlined} (h : inlineMain gr fs depth f = some (.ok r)) : Fresh fs f r := by
  unfold inlineMain at h
  cases hmain : f.confFile with
  | none =>
    simp only [hmain] at h
    cases h
    exact Fresh.nil f
  | some main =>
    simp only [hmain] at h
    by_cases hexists : fs.exists? main = false
    · rw [if_pos hexists] at h
      cases h
    · rw [if_neg hexists] at h
      by_cases hloaded : main ∈ f.loadedFiles
      · rw [if_pos hloaded] at h
        cases h
        exact Fresh.nil f
      · rw [if_neg hloaded] at h
        obtain ⟨r', hr', hok⟩ := Option.map_eq_some_iff.mp h
        by_cases hr : r'.2 = true
        · rw [if_pos hr] at hok
          cases hok
          exact fresh_inlineFile hr'
        · rw [if_neg hr] at hok
          cases hok

/-- **No line stands in the text twice.** -/
theorem nodup_singleText {managed : List Path} {t : List FlatLine}
    (h : singleText gr fs depth managed f = some (.ok t)) : (places fs t).Nodup := by
  obtain ⟨r, hr, h⟩ := Option.bind_eq_some_iff.mp h
  cases r with
  | error e => cases h
  | ok r =>
    obtain ⟨r', hr', ht⟩ := Option.map_eq_some_iff.mp h
    cases ht
    have hmanaged : Fresh fs r.1 r' := by
      apply gather_rule (P := Fresh fs) Fresh.nil (fun _ _ _ h h' => h.append h') ?_ managed r.1 r' hr'
      intro f file r hr
      obtain ⟨r'', hr'', rfl⟩ := Option.map_eq_some_iff.mp hr
      exact fresh_inlineFile hr''
    exact ((fresh_inlineMain hr).append hmanaged).nodup

end

end Config
end SmartDns
