/-
# Two file systems

What is read of a configuration in two file systems that agree wherever the first is asked.
`SameAt` is agreement on a path; a search asks its paths one after another up to the first
file (`asked`), and gives the same in both if they agree there (`find?_eq_of_asked`).

`Follows` says of two file systems that they agree on what each `conf-file` line asks: then the
text of a file is the same in both (`Follows.inlineConfFile`). The lines that are read are
those of a text `K`, and the second file system is only followed as long as it gives no file
but those of `M`.

Key definitions: `SameAt`, `asked`, `Files.searched`, `Follows`.
Key theorems: `find?_eq_of_asked`, `Follows.inlineConfFile`.
-/
import SmartDns.Config.Includes

namespace SmartDns
namespace Config

variable {S G : Type}

/-! ### Agreement on a path -/

/-- There is the same under the path. -/
structure SameAt (fs fs' : FileSystem) (p : Path) : Prop where
  realpath : fs'.realpath p = fs.realpath p
  nodes : ∀ r, fs.realpath p = some r → fs'.nodes r = fs.nodes r

namespace SameAt

variable {fs fs' fs'' : FileSystem} {p : Path}

theorem refl (fs : FileSystem) (p : Path) : SameAt fs fs p := ⟨rfl, fun _ _ => rfl⟩

theorem symm (h : SameAt fs fs' p) : SameAt fs' fs p where
  realpath := h.realpath.symm
  nodes r hr := (h.nodes r (h.realpath ▸ hr)).symm

theorem trans (h : SameAt fs fs' p) (h' : SameAt fs' fs'' p) : SameAt fs fs'' p where
  realpath := h'.realpath.trans h.realpath
  nodes r hr := (h'.nodes r (h.realpath ▸ hr)).trans (h.nodes r hr)

theorem node? (h : SameAt fs fs' p) : fs'.node? p = fs.node? p := by
  unfold FileSystem.node?
  rw [h.realpath]
  cases hr : fs.realpath p with
  | none => rfl
  | some r => exact congrArg some (h.nodes r hr)

theorem isFile (h : SameAt fs fs' p) : fs'.isFile p = fs.isFile p := by
  unfold FileSystem.isFile
  rw [h.node?]

theorem openFile (h : SameAt fs fs' p) : fs'.openFile p = fs.openFile p := by
  unfold FileSystem.openFile
  rw [h.node?]

theorem key (h : SameAt fs fs' p) : fs'.key p = fs.key p := by
  unfold FileSystem.key
  rw [h.realpath]

theorem exists? (h : SameAt fs fs' p) : fs'.exists? p = fs.exists? p := by
  unfold FileSystem.exists?
  rw [h.realpath]

end SameAt

/-! ### What a search asks -/

/-- The paths up to the first that is a file. -/
def asked (fs : FileSystem) : List Path → List Path
  | [] => []
  | p :: ps => p :: if fs.isFile p then [] else asked fs ps

theorem find?_eq_of_asked {fs fs' : FileSystem} : ∀ {ps : List Path},
    (∀ p ∈ asked fs ps, fs'.isFile p = fs.isFile p) → ps.find? fs'.isFile = ps.find? fs.isFile
  | [], _ => rfl
  | p :: ps, h => by
    have hp := h p List.mem_cons_self
    rw [List.find?_cons, List.find?_cons, hp]
    cases hfile : fs.isFile p with
    | true => rfl
    | false =>
      apply find?_eq_of_asked
      intro q hq
      apply h q
      rw [asked, hfile]
      exact List.mem_cons_of_mem p hq

theorem mem_asked_of_find? {fs : FileSystem} : ∀ {ps : List Path} {p : Path},
    ps.find? fs.isFile = some p → p ∈ asked fs ps
  | [], _, h => by cases h
  | q :: ps, p, h => by
    rw [List.find?_cons] at h
    cases hq : fs.isFile q with
    | true =>
      rw [hq] at h
      cases h
      exact List.mem_cons_self
    | false =>
      rw [hq] at h
      rw [asked, hq]
      exact List.mem_cons_of_mem q (mem_asked_of_find? h)

/-- What is asked and is a file in another file system only, is found there. -/
theorem find?_of_mem_asked {fs fs' : FileSystem} {p : Path} (hp : fs'.isFile p = true)
    (h : ∀ q, q ≠ p → fs'.isFile q = fs.isFile q) : ∀ {ps : List Path}, p ∈ asked fs ps → ps.find? fs'.isFile = some p
  | [], hmem => by cases hmem
  | q :: ps, hmem => by
    by_cases hq : q = p
    · rw [hq, List.find?_cons, hp]
    · have hrest : fs.isFile q = false ∧ p ∈ asked fs ps := by
        rcases List.mem_cons.mp hmem with heq | hmem
        · exact absurd heq.symm hq
        · cases hfile : fs.isFile q with
          | true =>
            rw [hfile] at hmem
            cases hmem
          | false =>
            rw [hfile] at hmem
            exact ⟨rfl, hmem⟩
      rw [List.find?_cons, h q hq, hrest.1]
      exact find?_of_mem_asked hp h hrest.2

namespace Path

/-- The path has a wildcard. -/
def isPattern (p : Path) : Bool := (p.flatMap componentText).any (wildcards.contains ·)

/-- The text that `glob` is given for a pattern in a line of `baseFile`. -/
def patternText (pattern : Path) (baseFile : Option Path) : List UInt8 :=
  (if pattern.isAbsolute then pattern
    else
      match baseFile.bind Path.parent with
      | some dir => dir.join pattern
      | none => pattern).text.map fun b => if b = backslash then separator else b

end Path

namespace Files

variable (fs : FileSystem) (f : Files)

/-- The bare name in the directories of included files, in order. -/
def inDirs (path : Path) : List Path :=
  (path.fileName.map fun name => (fs.hashOrder f.dirs).map (Path.join · [.normal name])).getD []

/-- What a `conf-file` line asks in these directories. -/
def searched (path : Path) : List Path :=
  let path := Config.resolveFilepath fs f.confFile .configDirOnly path
  if path.isAbsolute ∧ fs.isFile path = true then [] else asked fs (f.inDirs fs path)

theorem findInDirs_eq (path : Path) : f.findInDirs fs path = (f.inDirs fs path).find? fs.isFile := by
  unfold findInDirs inDirs
  cases path.fileName <;> rfl

theorem expandConfFiles_of_pattern {path : Path} (h : path.isPattern = true) (base : Option Path) :
    f.expandConfFiles fs path base =
      ((fs.glob (path.patternText (base.or f.confFile))).filter fs.isFile).insertionSort
        fun p q => (compare p q).isLE := by
  have htext : ((path.flatMap Path.componentText).any (Path.wildcards.contains ·)) = true := h
  unfold expandConfFiles expandConfPattern
  rw [if_pos htext]
  rfl

theorem expandConfFiles_of_plain {path : Path} (h : path.isPattern = false) (base : Option Path) :
    f.expandConfFiles fs path base = [path] := by
  have htext : ¬ ((path.flatMap Path.componentText).any (Path.wildcards.contains ·)) = true := by
    rw [← Path.isPattern, h]
    exact Bool.false_ne_true
  unfold expandConfFiles expandConfPattern
  rw [if_neg htext]

end Files

/-! ### One text in both -/

section

variable (gr : Grammar S G) (fs fs' : FileSystem) (main : Path) (K : FlatLine → Prop) (M : Path → Prop)
variable (E : Files → Path → Prop)

/-- What is said of the plain `conf-file` lines of a text. -/
def FlatLine.Asks (gr : Grammar S G) (E : Files → Path → Prop) : FlatLine → Prop
  | .read line _ _ f =>
    match gr.parseConfig line with
    | some (.confFile v) => v.path.isPattern = false → E f v.path
    | _ => True
  | _ => True

/-- The second piece of text is the first, as long as the lines of the one are of `K` and the second
gives files of `M` only. -/
def Same (f : Files) (o o' : Option Inlined) : Prop :=
  f.confFile = some main → ∀ r r', o = some r → o' = some r' → (∀ l ∈ r.2, K l) → (∀ p ∈ r'.1.loadedFiles, M p) →
    r' = r ∧ r.1.confFile = some main ∧ ∀ l ∈ r.2, l.Asks gr E

/-- A file of a `conf-file` line is the same one in both. -/
def LoadsSame (f : Files) (file : Path) : Prop :=
  M (fs'.key (f.resolveConfFilepath fs' file)) →
    f.resolveConfFilepath fs' file = f.resolveConfFilepath fs file ∧ SameAt fs fs' (f.resolveConfFilepath fs file)

/-- The two agree on what the lines of `K` ask. -/
structure Follows : Prop where
  plain : ∀ {line lineno base f v}, gr.parseConfig line = some (.confFile v) → v.path.isPattern = false →
    f.confFile = some main → K (.read line lineno (some base) f) →
    LoadsSame fs fs' M f v.path ∧ (M (fs'.key (f.resolveConfFilepath fs' v.path)) → E f v.path)
  pattern : ∀ {line lineno base f v content}, gr.parseConfig line = some (.confFile v) → v.path.isPattern = true →
    f.confFile = some main → K (.read line lineno (some base) f) → fs.openFile base = some content →
    content.lines ≠ [] →
    f.expandConfFiles fs' v.path (some base) = f.expandConfFiles fs v.path (some base) ∧
    ∀ file ∈ f.expandConfFiles fs v.path (some base), ∀ f' : Files, f'.confFile = some main → LoadsSame fs fs' M f' file

variable {gr fs fs' main K M E}

theorem Same.nil (f : Files) : Same gr main K M E f (some (f, [])) (some (f, [])) := by
  rintro hf r r' ⟨⟩ ⟨⟩ - -
  exact ⟨rfl, hf, by simp⟩

theorem gather_same {α : Type} {piece piece' : Files → α → Option Inlined}
    (grows : ∀ f a r, piece' f a = some r → Grows f r.1) : ∀ {as : List α} (f : Files),
    (∀ a ∈ as, ∀ f, Same gr main K M E f (piece f a) (piece' f a)) →
    Same gr main K M E f (gather piece f as) (gather piece' f as)
  | [], f, _ => Same.nil f
  | a :: as, f, each => by
    intro hf r r' hr hr' hK hM
    obtain ⟨r₁, h₁, hr⟩ := Option.bind_eq_some_iff.mp hr
    obtain ⟨r₂, h₂, rfl⟩ := Option.map_eq_some_iff.mp hr
    obtain ⟨r₁', h₁', hr'⟩ := Option.bind_eq_some_iff.mp hr'
    obtain ⟨r₂', h₂', rfl⟩ := Option.map_eq_some_iff.mp hr'
    have hrest : Grows r₁'.1 r₂'.1 :=
      gather_rule (P := fun f r => Grows f r.1) Grows.refl (fun _ _ _ h h' => h.trans h') grows as _ _ h₂'
    obtain ⟨rfl, hmain, hE⟩ := each a List.mem_cons_self f hf r₁ r₁' h₁ h₁'
      (fun l hl => hK l (List.mem_append_left _ hl)) (fun p hp => hM p (hrest.1 hp))
    obtain ⟨rfl, hmain, hE'⟩ := gather_same grows r₁'.1 (fun b hb => each b (List.mem_cons_of_mem a hb)) hmain r₂ r₂'
      h₂ h₂' (fun l hl => hK l (List.mem_append_right _ hl)) hM
    refine ⟨rfl, hmain, fun l hl => ?_⟩
    rcases List.mem_append.mp hl with hl | hl
    · exact hE l hl
    · exact hE' l hl

variable {inline inline' : Files → Path → Option (Inlined × Bool)}

theorem inlineInclude_same (group : Option String) {f : Files} {file : Path}
    (h : Same gr main K M E f ((inline f file).map (·.1)) ((inline' f file).map (·.1))) :
    Same gr main K M E f (inlineInclude inline group f file) (inlineInclude inline' group f file) := by
  intro hf r r' hr hr' hK hM
  obtain ⟨r₁, h₁, rfl⟩ := Option.map_eq_some_iff.mp hr
  obtain ⟨r₁', h₁', rfl⟩ := Option.map_eq_some_iff.mp hr'
  have hlines : ∀ l, l ∈ inGroup group r₁.1.2 ↔
      l ∈ r₁.1.2 ∨ ∃ name, group = some name ∧ (l = .enters name ∨ l = .leaves) := by
    intro l
    cases group <;> simp [inGroup, or_left_comm]
  obtain ⟨heq, hmain, hE⟩ := h hf r₁.1 r₁'.1 (by rw [h₁]; rfl) (by rw [h₁']; rfl)
    (fun l hl => hK l ((hlines l).mpr (.inl hl))) (by simpa using hM)
  rw [heq]
  refine ⟨rfl, by simpa using hmain, fun l hl => ?_⟩
  rcases (hlines l).mp hl with hl | ⟨name, -, rfl | rfl⟩
  · exact hE l hl
  · trivial
  · trivial

/-- The loader of an included file: what it gives only grows, and has the file. -/
structure IsLoader (fs : FileSystem) (inline : Files → Path → Option (Inlined × Bool)) : Prop where
  grows : ∀ f p r, inline f p = some r → Grows f r.1.1
  key_mem : ∀ f p r, inline f p = some r → fs.key (f.resolveConfFilepath fs p) ∈ r.1.1.loadedFiles

theorem key_mem_inlineResolved (grows : ∀ f p r, inline f p = some r → Grows f r.1.1) {f : Files} {path : Path}
    {r : Inlined × Bool} (h : inlineResolved gr fs inline f path = some r) : fs.key path ∈ r.1.1.loadedFiles := by
  have hentered : fs.key path ∈ (entered fs f path).loadedFiles := List.mem_cons_self
  unfold inlineResolved at h
  by_cases hkey : fs.key path ∈ f.loadedFiles
  · rw [if_pos hkey] at h
    cases h
    exact hkey
  · rw [if_neg hkey] at h
    by_cases hexists : fs.exists? path = true
    · simp only [if_pos hexists] at h
      cases hopen : fs.openFile path with
      | none =>
        simp only [hopen] at h
        cases h
        exact hentered
      | some content =>
        simp only [hopen] at h
        obtain ⟨t, ht, rfl⟩ := Option.map_eq_some_iff.mp h
        exact (grows_inlineLines grows ht).1 hentered
    · simp only [if_neg hexists] at h
      cases h
      exact hentered

theorem isLoader_inlineConfFile (gr : Grammar S G) (fs : FileSystem) (depth : ℕ) :
    IsLoader fs (inlineConfFile gr fs depth) where
  grows := grows_inlineConfFile gr fs depth
  key_mem f p r h := by
    cases depth with
    | zero => cases h
    | succ depth => exact key_mem_inlineResolved (grows_inlineConfFile gr fs depth) h

namespace Follows

variable (h : Follows gr fs fs' main K M E) (hload : IsLoader fs' inline')
variable (each : ∀ f file, LoadsSame fs fs' M f file →
  Same gr main K M E f ((inline f file).map (·.1)) ((inline' f file).map (·.1)))

include h hload each

theorem inlineAt_same {path : Path} {content : Content} (hopen : fs.openFile path = some content)
    (hlines : content.lines ≠ []) (line : List UInt8) (lineno : Option ℕ) (f : Files) :
    Same gr main K M E f (inlineAt gr fs inline line lineno (some path) f)
      (inlineAt gr fs' inline' line lineno (some path) f) := by
  intro hf r r' hr hr' hK hM
  unfold inlineAt at hr hr'
  cases hitem : gr.parseConfig line with
  | none =>
    rw [hitem] at hr hr'
    cases hr
    cases hr'
    refine ⟨rfl, hf, fun l hl => ?_⟩
    rw [List.mem_singleton.mp hl, FlatLine.Asks, hitem]
    trivial
  | some item =>
    rw [hitem] at hr hr'
    cases item with
    | confFile v =>
      obtain ⟨r₁, h₁, rfl⟩ := Option.map_eq_some_iff.mp hr
      obtain ⟨r₁', h₁', rfl⟩ := Option.map_eq_some_iff.mp hr'
      have hline : K (.read line lineno (some path) f) := hK _ List.mem_cons_self
      have hrest : ∀ l ∈ r₁.2, K l := fun l hl => hK l (List.mem_cons_of_mem _ hl)
      have hgrows : ∀ f file r, inlineInclude inline' v.group f file = some r → Grows f r.1 :=
        fun _ _ _ hr => grows_inlineInclude hload.grows hr
      cases hpattern : v.path.isPattern with
      | true =>
        obtain ⟨hexpand, hsame⟩ := h.pattern hitem hpattern hf hline hopen hlines
        rw [hexpand] at h₁'
        obtain ⟨rfl, hmain, hE⟩ := gather_same hgrows f
          (fun file hfile f' hf' => inlineInclude_same v.group (each f' file (hsame file hfile f' hf')) hf')
          hf r₁ r₁' h₁ h₁' hrest hM
        refine ⟨rfl, hmain, fun l hl => ?_⟩
        rcases List.mem_cons.mp hl with rfl | hl
        · rw [FlatLine.Asks, hitem]
          intro hplain
          rw [hpattern] at hplain
          cases hplain
        · exact hE l hl
      | false =>
        obtain ⟨hsame, hE⟩ := h.plain hitem hpattern hf hline
        rw [Files.expandConfFiles_of_plain _ _ hpattern] at h₁ h₁'
        obtain ⟨r₂, h₂, h₁⟩ := Option.bind_eq_some_iff.mp h₁
        obtain ⟨r₂', h₂', h₁'⟩ := Option.bind_eq_some_iff.mp h₁'
        cases h₁
        cases h₁'
        simp only [List.append_nil] at hrest hM ⊢
        obtain ⟨rfl, hmain, hE'⟩ := inlineInclude_same v.group (each f v.path hsame) hf r₂ r₂' h₂ h₂' hrest hM
        refine ⟨rfl, hmain, fun l hl => ?_⟩
        rcases List.mem_cons.mp hl with rfl | hl
        · rw [FlatLine.Asks, hitem]
          intro _
          obtain ⟨r₃, h₃, rfl⟩ := Option.map_eq_some_iff.mp h₂'
          exact hE (hM _ (by simpa using hload.key_mem f v.path r₃ h₃))
        · exact hE' l hl
    | _ =>
      cases hr
      cases hr'
      refine ⟨rfl, hf, fun l hl => ?_⟩
      rw [List.mem_singleton.mp hl, FlatLine.Asks, hitem]
      trivial

theorem inlineLines_same {path : Path} {content : Content} (hopen : fs.openFile path = some content) (f : Files) :
    Same gr main K M E f (inlineLines gr fs inline path f (content.lines.zipIdx 1))
      (inlineLines gr fs' inline' path f (content.lines.zipIdx 1)) := by
  unfold inlineLines
  apply gather_same fun _ _ _ hr => grows_inlineAt hload.grows hr
  intro l hl f
  have hlines : content.lines ≠ [] := by
    intro hnil
    rw [hnil] at hl
    cases hl
  exact h.inlineAt_same hload each hopen hlines l.1 (some l.2) f

/-- What is loaded of a path that is the same in both. -/
theorem inlineResolved_same {f : Files} {path : Path} (hat : SameAt fs fs' path) :
    Same gr main K M E f ((inlineResolved gr fs inline f path).map (·.1))
      ((inlineResolved gr fs' inline' f path).map (·.1)) := by
  intro hf r r' hr hr' hK hM
  unfold inlineResolved at hr hr'
  rw [hat.key, hat.exists?, hat.openFile] at hr'
  by_cases hkey : fs.key path ∈ f.loadedFiles
  · rw [if_pos hkey] at hr hr'
    cases hr
    cases hr'
    exact ⟨rfl, hf, by simp⟩
  · rw [if_neg hkey] at hr hr'
    by_cases hexists : fs.exists? path = true
    · simp only [if_pos hexists] at hr hr'
      cases hopen : fs.openFile path with
      | none =>
        simp only [hopen] at hr hr'
        cases hr
        cases hr'
        exact ⟨rfl, hf, by simp⟩
      | some content =>
        simp only [hopen, Option.map_map] at hr hr'
        have hread := h.inlineLines_same hload each hopen
          { f with loadedFiles := fs.key path :: f.loadedFiles, confFile := f.confFile.or (some path) }
        have hmain : (f.confFile.or (some path)) = some main := by rw [hf]; rfl
        obtain ⟨t, ht, rfl⟩ := Option.map_eq_some_iff.mp hr
        obtain ⟨t', ht', rfl⟩ := Option.map_eq_some_iff.mp hr'
        exact hread hmain t t' ht ht' hK hM
    · simp only [if_neg hexists] at hr hr'
      cases hr
      cases hr'
      exact ⟨rfl, hf, by simp⟩

end Follows

/-- **An included file has the same text in both.** -/
theorem Follows.inlineConfFile (h : Follows gr fs fs' main K M E) : ∀ (depth : ℕ) (f : Files) (file : Path),
    LoadsSame fs fs' M f file → Same gr main K M E f ((inlineConfFile gr fs depth f file).map (·.1))
      ((inlineConfFile gr fs' depth f file).map (·.1))
  | 0, _, _, _ => by
    rintro - r r' ⟨⟩
  | depth + 1, f, file, hsame => by
    intro hf r r' hr hr' hK hM
    obtain ⟨r₁', h₁', rfl⟩ := Option.map_eq_some_iff.mp hr'
    obtain ⟨hresolve, hat⟩ := hsame (hM _ ((isLoader_inlineConfFile gr fs' (depth + 1)).key_mem f file r₁' h₁'))
    unfold Config.inlineConfFile at hr h₁'
    rw [hresolve] at h₁'
    exact h.inlineResolved_same (isLoader_inlineConfFile gr fs' depth) (h.inlineConfFile depth) hat hf r r₁'.1 hr
      (by rw [h₁']; rfl) hK hM

end

end Config
end SmartDns
