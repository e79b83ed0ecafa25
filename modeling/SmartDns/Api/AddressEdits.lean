/-
# Requests edit the rules of their domain

A line of the managed file is a rule for a domain when the loader reads an address rule
from it whose domain differs from the given one in case and in the root dot at most
(`isRuleFor`). `EditsOnly` is what the requests for a rule promise about the file: they
find exactly these lines, leave every other line as it is and in its place, put lines
there that the loader reads as the rule, and undo each other; a listing goes by the same
lines.

The promise stands exactly where the text of the two files is legible for the rule
(`Legible`, `edits_only_iff`): the recogniser the requests go by misses no line of the
domain and takes none wrongly, and the rule itself is one that survives printing, on one
line. On the way stands what the requests do by the recogniser, whatever it takes
(`Agrees`).

Key definitions: `readsAs`, `EditsOnly`, `Legible`, `Agrees`.
Key theorems: `editsOnly_iff_agrees`, `legible_iff_agrees`, `edits_only_iff`,
`keyword_case_is_missed`.
-/
import SmartDns.Api.AddressLines
import Mathlib.Data.List.Forall2

namespace SmartDns
namespace Api

open Dns Rule
open Lib (splitLines closed IsLine Terminated Separate)

variable (conv : TextConversions) (readConfigFile : List Char → List AddressRule)

/-! ### What the loader makes of a line -/

def readsAs (line : List Char) (rule : AddressRule) : Bool :=
  (loadedRule conv line).any fun r => r.domain == rule.domain && decide (r.config = rule.config)

def linesOf (file : Option (List Char)) : List (List Char) := splitLines '\n' (file.getD [])

def hasRule (file : Option (List Char)) (domain : Domain) : Bool := (linesOf file).any (isRuleFor conv · domain)

/-! ### What the requests promise -/

/-- What an update for `rule` may leave in the place of `line`. -/
def Replaces (rule : AddressRule) (line line' : List Char) : Prop :=
  if isRuleFor conv line rule.domain then readsAs conv line' rule = true else line' = line

/-- The requests for a rule, with a main configuration file and a managed one, edit the rules of
its domain only. -/
structure EditsOnly (main file : Option (List Char)) (rule : AddressRule) : Prop where
  create_refused : create conv file rule = .error (alreadyExists conv rule.domain) ↔ hasRule conv file rule.domain = true
  /-- The file is kept, and closed; the line behind it is the only rule for the domain. -/
  created : ∀ {text}, create conv file rule = .ok text → ∃ line,
    splitLines '\n' text = splitLines '\n' (closed '\n' (file.getD [])) ++ [line] ∧ readsAs conv line rule = true ∧
      ∀ l ∈ splitLines '\n' (closed '\n' (file.getD [])), isRuleFor conv l rule.domain = false
  update_refused : update conv main file rule = .error (readOnlyHere conv rule.domain) ↔
    hasRule conv main rule.domain = true
  update_found : update conv main file rule = .error (domainNotFound conv rule.domain) ↔
    hasRule conv main rule.domain = false ∧ hasRule conv file rule.domain = false
  updated : ∀ {text}, update conv main file rule = .ok text →
    List.Forall₂ (Replaces conv rule) (linesOf file) (splitLines '\n' text)
  delete_refused : delete conv main file rule.domain = .error (readOnlyHere conv rule.domain) ↔
    hasRule conv main rule.domain = true
  delete_found : delete conv main file rule.domain = .error (domainNotFound conv rule.domain) ↔
    hasRule conv main rule.domain = false ∧ hasRule conv file rule.domain = false
  deleted : ∀ {text}, delete conv main file rule.domain = .ok text →
    splitLines '\n' text = (linesOf file).filter fun line => !isRuleFor conv line rule.domain
  restored : ∀ {text}, hasRule conv main rule.domain = false → create conv file rule = .ok text →
    delete conv main (some text) rule.domain = .ok (closed '\n' (file.getD []))
  listed_managed : (∃ r ∈ list conv readConfigFile main file, r.source = .managed ∧
    r.rule.domain.sameRule rule.domain = true) ↔ hasRule conv file rule.domain = true
  listed_main : ∀ r ∈ (main.map readConfigFile).getD [], r.domain.sameRule rule.domain = true →
    (⟨r, .main⟩ ∈ list conv readConfigFile main file ↔ hasRule conv file rule.domain = false)

/-- Another line of the file makes up for a line that is missed, and for one that is taken wrongly. -/
structure MadeUp (lines : List (List Char)) (domain : Domain) : Prop where
  missed : ∀ line ∈ lines, Missed conv domain line → ∃ line' ∈ lines, Recognised conv domain line'
  mistaken : ∀ line ∈ lines, Mistaken conv domain line → ∃ line' ∈ lines, Stands conv domain line'

/-- The rule's domain can be made out in both files, and the rule be written. -/
structure Legible (main file : Option (List Char)) (rule : AddressRule) : Prop where
  inMain : MadeUp conv (linesOf main) rule.domain
  inFile : MadeUp conv (linesOf file) rule.domain
  /-- Where the main file leaves the domain to the managed one. -/
  lines : (∀ line ∈ linesOf main, ¬ Stands conv rule.domain line) →
    ∀ line ∈ linesOf file, ¬ Missed conv rule.domain line ∧ ¬ Mistaken conv rule.domain line
  /-- Where something can be written. -/
  text : (∀ line ∈ linesOf main, ¬ Stands conv rule.domain line) ∨
      (∀ line ∈ linesOf file, ¬ Stands conv rule.domain line) →
    '\n' ∉ addressRuleText conv rule ∧ ¬ Starred rule ∧ Readable conv rule.domain ∧ ¬ Swallowed rule
  shown : (∃ line ∈ linesOf file, ∃ r, Shows conv line r ∧ r.domain.sameRule rule.domain = true) ↔
    ∃ line ∈ linesOf file, Stands conv rule.domain line
  /-- A rule of the main file is hidden by one whose name has the same dot. -/
  hidden : (∃ line ∈ linesOf file, Stands conv rule.domain line) →
    ∀ r ∈ (main.map readConfigFile).getD [], r.domain.sameRule rule.domain = true →
      ∃ line ∈ linesOf file, ∃ r', Shows conv line r' ∧ (r'.domain == r.domain) = true

/-- The recogniser and the loader agree on the rules of the domain, and the rule's text is read back. -/
structure Agrees (main file : Option (List Char)) (rule : AddressRule) : Prop where
  onMain : (linesOf main).any (lineIsAddressFor conv · rule.domain) = hasRule conv main rule.domain
  found : (linesOf file).any (lineIsAddressFor conv · rule.domain) = hasRule conv file rule.domain
  lines : hasRule conv main rule.domain = false →
    ∀ line ∈ linesOf file, lineIsAddressFor conv line rule.domain = isRuleFor conv line rule.domain
  /-- Where something can be written. -/
  written : hasRule conv main rule.domain = false ∨ hasRule conv file rule.domain = false →
    '\n' ∉ addressRuleText conv rule ∧ readsAs conv (addressLine conv rule) rule = true
  taken : hasRule conv main rule.domain = false → hasRule conv file rule.domain = false →
    lineIsAddressFor conv (addressLine conv rule) rule.domain = true
  listed : ((linesOf file).any fun line => (listedRule conv line).any (·.domain.sameRule rule.domain)) =
    hasRule conv file rule.domain
  hidden : hasRule conv file rule.domain = true →
    ∀ r ∈ (main.map readConfigFile).getD [], r.domain.sameRule rule.domain = true →
      ∃ line ∈ linesOf file, (listedRule conv line).any (·.domain == r.domain) = true

/-! ### What the requests do -/

theorem mainConfigHasAddress_eq (main : Option (List Char)) (domain : Domain) :
    mainConfigHasAddress conv main domain = (linesOf main).any (lineIsAddressFor conv · domain) := by
  cases main <;> rfl

theorem create_eq (file : Option (List Char)) (rule : AddressRule) :
    create conv file rule =
      if (linesOf file).any (lineIsAddressFor conv · rule.domain) then .error (alreadyExists conv rule.domain)
      else .ok (closed '\n' (file.getD []) ++ (addressLine conv rule ++ ['\n'])) := by
  cases file with
  | none => rfl
  | some text =>
    have hclosed : (if !text.isEmpty && text.getLast? != some '\n' then text ++ ['\n'] else text) = closed '\n' text := by
      unfold closed
      cases hlast : text.getLast? with
      | none =>
        have htext : text = [] := List.getLast?_eq_none_iff.mp hlast
        simp [htext, Terminated]
      | some c =>
        have hne : text ≠ [] := by
          rintro rfl
          cases hlast
        by_cases hc : c = '\n' <;> simp [hne, hlast, Terminated, hc]
    rw [create, hclosed]
    simp only [List.append_assoc]
    rfl

theorem readOnlyHere_ne_domainNotFound (domain : Domain) : readOnlyHere conv domain ≠ domainNotFound conv domain := by
  intro h
  cases h

/-- A request that first asks the main file for the domain, and then the managed one. -/
theorem refused_iff {domain : Domain} {onMain found : Bool} {text : List Char} :
    (if onMain then .error (readOnlyHere conv domain)
      else if found then .ok text else .error (domainNotFound conv domain) : Except ApiError (List Char)) =
      .error (readOnlyHere conv domain) ↔ onMain = true := by
  have hne := readOnlyHere_ne_domainNotFound conv domain
  cases onMain <;> cases found <;> simp [hne.symm]

theorem notFound_iff {domain : Domain} {onMain found : Bool} {text : List Char} :
    (if onMain then .error (readOnlyHere conv domain)
      else if found then .ok text else .error (domainNotFound conv domain) : Except ApiError (List Char)) =
      .error (domainNotFound conv domain) ↔ onMain = false ∧ found = false := by
  have hne := readOnlyHere_ne_domainNotFound conv domain
  cases onMain <;> cases found <;> simp [hne]

/-- The line an update leaves in the place of `line`. -/
def replaced (rule : AddressRule) (line : List Char) : List Char :=
  if lineIsAddressFor conv line rule.domain then addressLine conv rule ++ lineEndingOf line else line

/-- Nothing found is an error. -/
theorem ite_countP {A B : Type} (p : A → Bool) (l : List A) (x y : B) :
    (if l.countP p = 0 then x else y) = if l.any p then y else x := by
  cases h : l.any p with
  | false =>
    have : l.countP p = 0 := List.countP_eq_zero.mpr (List.any_eq_false.mp h)
    rw [if_pos this, if_neg Bool.false_ne_true]
  | true =>
    have : l.countP p ≠ 0 := fun hc => by simp [List.any_eq_false.mpr (List.countP_eq_zero.mp hc)] at h
    rw [if_neg this, if_pos rfl]

theorem update_eq (main file : Option (List Char)) (rule : AddressRule) :
    update conv main file rule =
      if (linesOf main).any (lineIsAddressFor conv · rule.domain) then .error (readOnlyHere conv rule.domain)
      else if (linesOf file).any (lineIsAddressFor conv · rule.domain) then
        .ok ((linesOf file).map (replaced conv rule)).flatten
      else .error (domainNotFound conv rule.domain) := by
  unfold update
  rw [mainConfigHasAddress_eq]
  cases file with
  | none => rfl
  | some text =>
    simp only [ite_countP]
    rfl

theorem delete_eq (main file : Option (List Char)) (domain : Domain) :
    delete conv main file domain =
      if (linesOf main).any (lineIsAddressFor conv · domain) then .error (readOnlyHere conv domain)
      else if (linesOf file).any (lineIsAddressFor conv · domain) then
        .ok ((linesOf file).filter fun line => !lineIsAddressFor conv line domain).flatten
      else .error (domainNotFound conv domain) := by
  unfold delete
  rw [mainConfigHasAddress_eq]
  cases file with
  | none => rfl
  | some text =>
    simp only [ite_countP]
    rfl

/-! ### The lines that are written -/

theorem lineEndingOf_cases (line : List Char) :
    lineEndingOf line = [] ∨ lineEndingOf line = ['\n'] ∨ lineEndingOf line = ['\r', '\n'] := by
  unfold lineEndingOf
  split_ifs <;> simp

theorem terminated_lineEndingOf {line : List Char} (hne : line ≠ []) (h : Terminated '\n' line) :
    lineEndingOf line ≠ [] ∧ Terminated '\n' (lineEndingOf line) := by
  have hsuffix : ['\n'].isSuffixOf line = true := by
    have hlast : line.getLast hne = '\n' := h _ (List.getLast?_eq_some_getLast hne)
    rw [List.isSuffixOf_iff_suffix]
    exact ⟨line.dropLast, by rw [← hlast, List.dropLast_append_getLast]⟩
  unfold lineEndingOf
  split_ifs <;> simp [Terminated]

theorem loadedRule_lineEndingOf (line line' : List Char) :
    loadedRule conv (line ++ lineEndingOf line') = loadedRule conv line := by
  rcases lineEndingOf_cases line' with h | h | h
  · rw [h, List.append_nil]
  · rw [h, loadedRule_newline]
  · rw [h, loadedRule_return]

theorem readsAs_newline (line : List Char) (rule : AddressRule) :
    readsAs conv (line ++ ['\n']) rule = readsAs conv line rule := by
  rw [readsAs, readsAs, loadedRule_newline]

theorem newline_not_mem_addressLine {rule : AddressRule} :
    '\n' ∉ addressLine conv rule ↔ '\n' ∉ addressRuleText conv rule := by
  have hkeyword : '\n' ∉ "address ".toList := by decide +kernel
  rw [addressLine_eq, List.mem_append, not_or]
  exact and_iff_right hkeyword

theorem isLine_addressLine {rule : AddressRule} (h : '\n' ∉ addressRuleText conv rule) (line : List Char) :
    IsLine '\n' (addressLine conv rule ++ lineEndingOf line) := by
  have hline := (newline_not_mem_addressLine conv).mpr h
  have hne : addressLine conv rule ≠ [] := by simp [addressLine_eq]
  refine ⟨by simp [hne], ?_⟩
  rcases lineEndingOf_cases line with h | h | h
  · rw [h, List.append_nil]
    exact fun hm => hline (List.dropLast_subset _ hm)
  · rw [h, List.dropLast_concat]
    exact hline
  · rw [h, List.dropLast_append_of_ne_nil (by simp)]
    simp [hline]

/-- A rule whose text breaks is not put in the place of one line. -/
theorem newline_not_mem_of_isLine {rule : AddressRule} {line : List Char}
    (h : IsLine '\n' (addressLine conv rule ++ lineEndingOf line)) : '\n' ∉ addressRuleText conv rule := by
  apply newline_not_mem_of_dropLast
  intro hm
  have hline : '\n' ∈ (addressLine conv rule).dropLast := by
    have hne : addressRuleText conv rule ≠ [] := by simp [addressRuleText]
    rw [addressLine_eq, List.dropLast_append_of_ne_nil hne]
    exact List.mem_append_right _ hm
  apply h.2
  rcases lineEndingOf_cases line with h | h | h
  · rw [h, List.append_nil]
    exact hline
  · rw [h, List.dropLast_concat]
    exact List.dropLast_subset _ hline
  · rw [h, List.dropLast_append_of_ne_nil (by simp)]
    exact List.mem_append_left _ (List.dropLast_subset _ hline)

theorem replaced_ne_nil (rule : AddressRule) {line : List Char} (h : line ≠ []) : replaced conv rule line ≠ [] := by
  unfold replaced
  split_ifs
  · simp [addressLine_eq]
  · exact h

theorem ne_nil_of_mem_linesOf {file : Option (List Char)} {line : List Char} (h : line ∈ linesOf file) : line ≠ [] :=
  (Lib.isLine_of_mem_splitLines '\n' h).1

theorem splitLines_replaced (file : Option (List Char)) (rule : AddressRule) :
    splitLines '\n' ((linesOf file).map (replaced conv rule)).flatten =
      ((linesOf file).map (replaced conv rule)).flatMap (splitLines '\n') := by
  apply Lib.splitLines_flatten
  apply Separate.map
  · intro line hline hterm
    obtain ⟨hne, hend⟩ := terminated_lineEndingOf (ne_nil_of_mem_linesOf hline) hterm
    unfold replaced
    split_ifs
    · exact Lib.terminated_append _ hend hne
    · exact hterm
  · exact Lib.separate_splitLines _ _

theorem splitLines_written {rule : AddressRule} (h : '\n' ∉ addressRuleText conv rule) (file : Option (List Char)) :
    splitLines '\n' (closed '\n' (file.getD []) ++ (addressLine conv rule ++ ['\n'])) =
      splitLines '\n' (closed '\n' (file.getD [])) ++ [addressLine conv rule ++ ['\n']] := by
  have hline : IsLine '\n' (addressLine conv rule ++ ['\n']) := isLine_addressLine conv h ['\n']
  rw [Lib.splitLines_append '\n' (Lib.terminated_closed _ _),
    Lib.splitLines_of_isLine '\n' hline]

/-- Closing the file changes no reading of its lines. -/
theorem all_closed {p : List Char → Bool} (hp : ∀ line, line ≠ [] → '\n' ∉ line → p (line ++ ['\n']) = p line)
    {file : Option (List Char)} (h : (linesOf file).any p = false) :
    ∀ line ∈ splitLines '\n' (closed '\n' (file.getD [])), p line = false := by
  have hmap := Lib.map_splitLines_closed '\n' hp (file.getD [])
  intro line hline
  have hmem : p line ∈ (linesOf file).map p := by
    rw [linesOf, ← hmap]
    exact List.mem_map_of_mem hline
  obtain ⟨line', hline', he⟩ := List.mem_map.mp hmem
  rw [← he]
  simpa using List.any_eq_false.mp h line' hline'

/-- Where the recogniser takes no line of the file, it takes none of the closed file. -/
theorem not_taken_closed {file : Option (List Char)} {domain : Domain}
    (h : (linesOf file).any (lineIsAddressFor conv · domain) = false) :
    ∀ line ∈ splitLines '\n' (closed '\n' (file.getD [])), lineIsAddressFor conv line domain = false := by
  apply all_closed
  · intro line _ _
    exact lineIsAddressFor_newline conv line domain
  · exact h

/-! ### What a listing shows -/

theorem exists_managed_iff (main file : Option (List Char)) (domain : Domain) :
    (∃ r ∈ list conv readConfigFile main file, r.source = .managed ∧ r.rule.domain.sameRule domain = true) ↔
      ((linesOf file).any fun line => (listedRule conv line).any (·.domain.sameRule domain)) = true := by
  rw [List.any_eq_true]
  constructor
  · rintro ⟨r, hr, hsource, hsame⟩
    rcases List.mem_append.mp hr with hr | hr
    · obtain ⟨rule, hrule, rfl⟩ := List.mem_map.mp hr
      obtain ⟨line, hline, hlisted⟩ := List.mem_filterMap.mp hrule
      exact ⟨line, hline, by simpa [hlisted] using hsame⟩
    · obtain ⟨rule, -, rfl⟩ := List.mem_map.mp hr
      cases hsource
  · rintro ⟨line, hline, hany⟩
    cases hlisted : listedRule conv line with
    | none => simp [hlisted] at hany
    | some rule =>
      have hmem : rule ∈ (splitLinesKeepEndings (file.getD [])).filterMap (listedRule conv) :=
        List.mem_filterMap.mpr ⟨line, hline, hlisted⟩
      refine ⟨⟨rule, .managed⟩, ?_, rfl, by simpa [hlisted] using hany⟩
      exact List.mem_append_left _ (List.mem_map_of_mem hmem)

theorem mem_list_main_iff (main file : Option (List Char)) (rule : AddressRule) :
    (⟨rule, .main⟩ : SourcedAddressRule) ∈ list conv readConfigFile main file ↔
      rule ∈ (main.map readConfigFile).getD [] ∧
        ¬ ∃ line ∈ linesOf file, (listedRule conv line).any (·.domain == rule.domain) = true := by
  have hany : (((splitLinesKeepEndings (file.getD [])).filterMap (listedRule conv)).any fun r => r.domain == rule.domain)
      = true ↔ ∃ line ∈ linesOf file, (listedRule conv line).any (·.domain == rule.domain) = true := by
    rw [List.any_filterMap, List.any_eq_true]
    constructor
    · rintro ⟨line, hline, h⟩
      refine ⟨line, hline, ?_⟩
      cases hlisted : listedRule conv line <;> simp_all
    · rintro ⟨line, hline, h⟩
      refine ⟨line, hline, ?_⟩
      cases hlisted : listedRule conv line <;> simp_all
  rw [← hany]
  unfold list
  simp [List.mem_append, List.mem_map, List.mem_filter]

/-! ### Agreement is enough -/

section

variable {conv readConfigFile} {main file : Option (List Char)} {rule : AddressRule}

namespace Agrees

variable (h : Agrees conv readConfigFile main file rule)

include h

theorem created {text : List Char} (hok : create conv file rule = .ok text) :
    hasRule conv file rule.domain = false ∧
      text = closed '\n' (file.getD []) ++ (addressLine conv rule ++ ['\n']) := by
  rw [create_eq, h.found] at hok
  split_ifs at hok with hfile
  cases hok
  exact ⟨Bool.eq_false_iff.mpr hfile, rfl⟩

theorem updated {text : List Char} (hok : update conv main file rule = .ok text) :
    List.Forall₂ (Replaces conv rule) (linesOf file) (splitLines '\n' text) := by
  rw [update_eq, h.onMain] at hok
  split_ifs at hok with hmain hfile
  cases hok
  have hmain : hasRule conv main rule.domain = false := Bool.eq_false_iff.mpr hmain
  obtain ⟨htext, hreads⟩ := h.written (.inl hmain)
  have hline : ∀ line ∈ (linesOf file).map (replaced conv rule), IsLine '\n' line := by
    intro line hline
    obtain ⟨line, hmem, rfl⟩ := List.mem_map.mp hline
    unfold replaced
    split_ifs
    · exact isLine_addressLine conv htext line
    · exact Lib.isLine_of_mem_splitLines '\n' hmem
  rw [splitLines_replaced, Lib.flatMap_splitLines '\n' hline, List.forall₂_map_right_iff, List.forall₂_same]
  intro line hmem
  unfold Replaces replaced
  rw [h.lines hmain line hmem]
  split_ifs
  · rw [readsAs, loadedRule_lineEndingOf]
    exact hreads
  · rfl

theorem deleted {text : List Char} (hok : delete conv main file rule.domain = .ok text) :
    splitLines '\n' text = (linesOf file).filter fun line => !isRuleFor conv line rule.domain := by
  rw [delete_eq, h.onMain] at hok
  split_ifs at hok with hmain hfile
  cases hok
  have hmain : hasRule conv main rule.domain = false := Bool.eq_false_iff.mpr hmain
  rw [linesOf, Lib.splitLines_filter]
  apply List.filter_congr
  intro line hline
  rw [h.lines hmain line hline]

theorem restored {text : List Char} (hmain : hasRule conv main rule.domain = false)
    (hok : create conv file rule = .ok text) :
    delete conv main (some text) rule.domain = .ok (closed '\n' (file.getD [])) := by
  obtain ⟨hfile, rfl⟩ := h.created hok
  obtain ⟨htext, -⟩ := h.written (.inl hmain)
  have htaken : lineIsAddressFor conv (addressLine conv rule ++ ['\n']) rule.domain = true := by
    rw [lineIsAddressFor_newline, h.taken hmain hfile]
  have hold := not_taken_closed conv (h.found.trans hfile)
  have hlines := splitLines_written conv htext file
  rw [delete_eq, h.onMain, if_neg (by simp [hmain]), linesOf, Option.getD_some, hlines, if_pos (by simp [htaken])]
  rw [List.filter_append, List.filter_eq_self.mpr fun line hl => by simp [hold line hl]]
  simp [htaken, Lib.flatten_splitLines]

theorem listed_main {r : AddressRule} (hr : r ∈ (main.map readConfigFile).getD [])
    (hsame : r.domain.sameRule rule.domain = true) :
    (⟨r, .main⟩ : SourcedAddressRule) ∈ list conv readConfigFile main file ↔
      hasRule conv file rule.domain = false := by
  rw [mem_list_main_iff, and_iff_right hr]
  constructor
  · intro hnot
    by_contra hfile
    exact hnot (h.hidden (Bool.not_eq_false _ ▸ hfile) r hr hsame)
  · rintro hfile ⟨line, hline, hany⟩
    have hnone := h.listed.trans hfile
    rw [List.any_eq_false] at hnone
    apply hnone line hline
    cases hlisted : listedRule conv line with
    | none => simp [hlisted] at hany
    | some r' =>
      rw [hlisted, Option.any_some] at hany
      rw [Option.any_some, Domain.sameRule_iff]
      exact ((Domain.sameRule_iff _ _).mp (Domain.sameRule_of_beq hany)).trans ((Domain.sameRule_iff _ _).mp hsame)

theorem editsOnly : EditsOnly conv readConfigFile main file rule where
  create_refused := by
    rw [create_eq, h.found]
    cases hasRule conv file rule.domain <;> simp
  created hok := by
    obtain ⟨hfile, rfl⟩ := h.created hok
    obtain ⟨htext, hreads⟩ := h.written (.inr hfile)
    refine ⟨_, splitLines_written conv htext file, ?_, ?_⟩
    · rw [readsAs_newline, hreads]
    · apply all_closed
      · intro line _ _
        rw [isRuleFor, isRuleFor, loadedRule_newline]
      · exact hfile
  update_refused := by rw [update_eq, refused_iff, h.onMain]
  update_found := by rw [update_eq, notFound_iff, h.onMain, h.found]
  updated := h.updated
  delete_refused := by rw [delete_eq, refused_iff, h.onMain]
  delete_found := by rw [delete_eq, notFound_iff, h.onMain, h.found]
  deleted := h.deleted
  restored := h.restored
  listed_managed := by rw [exists_managed_iff, h.listed]
  listed_main _ := h.listed_main

end Agrees

/-! ### Agreement is needed -/

namespace EditsOnly

variable (h : EditsOnly conv readConfigFile main file rule)

include h

theorem onMain : (linesOf main).any (lineIsAddressFor conv · rule.domain) = hasRule conv main rule.domain := by
  rw [Bool.eq_iff_iff, ← h.update_refused, update_eq, refused_iff]

theorem found : (linesOf file).any (lineIsAddressFor conv · rule.domain) = hasRule conv file rule.domain := by
  rw [Bool.eq_iff_iff, ← h.create_refused, create_eq]
  cases (linesOf file).any (lineIsAddressFor conv · rule.domain) <;> simp

theorem create_ok (hfile : hasRule conv file rule.domain = false) :
    create conv file rule = .ok (closed '\n' (file.getD []) ++ (addressLine conv rule ++ ['\n'])) := by
  rw [create_eq, h.found, if_neg (by simp [hfile])]

/-- What a delete drops is what is a rule for the domain. -/
theorem lines (hmain : hasRule conv main rule.domain = false) :
    ∀ line ∈ linesOf file, lineIsAddressFor conv line rule.domain = isRuleFor conv line rule.domain := by
  intro line hline
  cases hfile : hasRule conv file rule.domain with
  | true =>
    have hok : delete conv main file rule.domain =
        .ok ((linesOf file).filter fun line => !lineIsAddressFor conv line rule.domain).flatten := by
      rw [delete_eq, h.onMain, if_neg (by simp [hmain]), h.found, if_pos hfile]
    have hkept := h.deleted hok
    rw [linesOf, Lib.splitLines_filter] at hkept
    have hiff : line ∈ (linesOf file).filter (fun line => !lineIsAddressFor conv line rule.domain) ↔
        line ∈ (linesOf file).filter fun line => !isRuleFor conv line rule.domain := by
      rw [linesOf, hkept]
    rw [List.mem_filter, List.mem_filter, and_iff_right hline, and_iff_right hline] at hiff
    exact Bool.not_inj (Bool.eq_iff_iff.mpr hiff)
  | false =>
    have hnone := List.any_eq_false.mp (h.found.trans hfile) line hline
    have hnone' := List.any_eq_false.mp hfile line hline
    simp only [Bool.not_eq_true] at hnone hnone'
    rw [hnone, hnone']

theorem written_create (hfile : hasRule conv file rule.domain = false) :
    '\n' ∉ addressRuleText conv rule ∧ readsAs conv (addressLine conv rule) rule = true := by
  obtain ⟨line, hsplit, hreads, -⟩ := h.created (h.create_ok hfile)
  rw [Lib.splitLines_append '\n' (Lib.terminated_closed _ _)] at hsplit
  have hline : splitLines '\n' (addressLine conv rule ++ ['\n']) = [line] := List.append_cancel_left hsplit
  have htext : addressLine conv rule ++ ['\n'] = line := by
    simpa [hline] using (Lib.flatten_splitLines '\n' (addressLine conv rule ++ ['\n'])).symm
  subst htext
  have hone : IsLine '\n' (addressLine conv rule ++ lineEndingOf ['\n']) :=
    (Lib.splitLines_eq_singleton_iff '\n').mp hline
  exact ⟨newline_not_mem_of_isLine conv hone, by rwa [readsAs_newline] at hreads⟩

theorem written_update (hmain : hasRule conv main rule.domain = false) (hfile : hasRule conv file rule.domain = true) :
    '\n' ∉ addressRuleText conv rule ∧ readsAs conv (addressLine conv rule) rule = true := by
  have hok : update conv main file rule = .ok ((linesOf file).map (replaced conv rule)).flatten := by
    rw [update_eq, h.onMain, if_neg (by simp [hmain]), h.found, if_pos hfile]
  have hedit := h.updated hok
  rw [splitLines_replaced] at hedit
  -- as many lines as before, so each piece put there is one line
  have hne : ∀ line ∈ (linesOf file).map (replaced conv rule), line ≠ [] := by
    intro line hline
    obtain ⟨line, hmem, rfl⟩ := List.mem_map.mp hline
    exact replaced_ne_nil conv rule (ne_nil_of_mem_linesOf hmem)
  have hlen := hedit.length_eq
  have hle : (((linesOf file).map (replaced conv rule)).flatMap (splitLines '\n')).length ≤
      ((linesOf file).map (replaced conv rule)).length := by
    rw [List.length_map]
    exact Nat.le_of_eq hlen.symm
  have hlines := Lib.isLine_of_length_flatMap '\n' hne hle
  rw [Lib.flatMap_splitLines '\n' hlines, List.forall₂_map_right_iff, List.forall₂_same] at hedit
  obtain ⟨line, hmem, hrule⟩ := List.any_eq_true.mp hfile
  have htaken : lineIsAddressFor conv line rule.domain = true := (h.lines hmain line hmem).trans hrule
  have hput : replaced conv rule line = addressLine conv rule ++ lineEndingOf line := if_pos htaken
  constructor
  · exact newline_not_mem_of_isLine conv (hput ▸ hlines _ (List.mem_map_of_mem hmem))
  · have hreads := hedit line hmem
    rw [Replaces, if_pos hrule, hput, readsAs, loadedRule_lineEndingOf] at hreads
    exact hreads

theorem taken (hmain : hasRule conv main rule.domain = false) (hfile : hasRule conv file rule.domain = false) :
    lineIsAddressFor conv (addressLine conv rule) rule.domain = true := by
  obtain ⟨htext, -⟩ := h.written_create hfile
  have hok := h.restored hmain (h.create_ok hfile)
  have hold := not_taken_closed conv (h.found.trans hfile)
  rw [delete_eq, h.onMain, if_neg (by simp [hmain]), linesOf, Option.getD_some, splitLines_written conv htext] at hok
  rw [← lineIsAddressFor_newline]
  by_contra hnot
  have hnone : (splitLines '\n' (closed '\n' (file.getD [])) ++ [addressLine conv rule ++ ['\n']]).any
      (lineIsAddressFor conv · rule.domain) = false := by
    rw [List.any_append, List.any_eq_false.mpr fun line hl => by simp [hold line hl]]
    simpa using hnot
  rw [hnone, if_neg Bool.false_ne_true] at hok
  cases hok

theorem agrees : Agrees conv readConfigFile main file rule where
  onMain := h.onMain
  found := h.found
  lines := h.lines
  written hor := by
    cases hfile : hasRule conv file rule.domain with
    | false => exact h.written_create hfile
    | true =>
      rcases hor with hmain | hnot
      · exact h.written_update hmain hfile
      · exact absurd (hfile.symm.trans hnot) (by decide)
  taken := h.taken
  listed := by
    rw [Bool.eq_iff_iff, ← exists_managed_iff conv readConfigFile main, h.listed_managed]
  hidden hfile r hr hsame := by
    have hnot : ¬ (⟨r, .main⟩ : SourcedAddressRule) ∈ list conv readConfigFile main file := by
      rw [h.listed_main r hr hsame, hfile]
      simp
    rw [mem_list_main_iff, not_and, not_not] at hnot
    exact hnot hr

end EditsOnly

end

/-- The requests do what they promise exactly where the recogniser and the loader agree. -/
theorem editsOnly_iff_agrees (main file : Option (List Char)) (rule : AddressRule) :
    EditsOnly conv readConfigFile main file rule ↔ Agrees conv readConfigFile main file rule :=
  ⟨EditsOnly.agrees, Agrees.editsOnly⟩

/-! ### Agreement in the text of the lines -/

section

variable {conv readConfigFile}

theorem hasRule_iff {file : Option (List Char)} {domain : Domain} :
    hasRule conv file domain = true ↔ ∃ line ∈ linesOf file, Stands conv domain line := by
  simp only [hasRule, List.any_eq_true, isRuleFor_iff]

theorem not_hasRule_iff {file : Option (List Char)} {domain : Domain} :
    hasRule conv file domain = false ↔ ∀ line ∈ linesOf file, ¬ Stands conv domain line := by
  rw [Bool.eq_false_iff, ne_eq, hasRule_iff]
  exact not_exists.trans (forall_congr' fun line => not_and)

/-- With every odd line made up for, one of the readers finds a line exactly where the other does. -/
theorem madeUp_iff {file : Option (List Char)} {domain : Domain} : MadeUp conv (linesOf file) domain ↔
    (linesOf file).any (lineIsAddressFor conv · domain) = hasRule conv file domain := by
  rw [Bool.eq_iff_iff, hasRule_iff]
  simp only [List.any_eq_true, lineIsAddressFor_iff]
  constructor
  · intro h
    constructor
    · rintro ⟨line, hline, hrecognised⟩
      by_cases hstands : Stands conv domain line
      · exact ⟨line, hline, hstands⟩
      · exact h.mistaken line hline (mistaken_iff.mpr ⟨hrecognised, hstands⟩)
    · rintro ⟨line, hline, hstands⟩
      by_cases hrecognised : Recognised conv domain line
      · exact ⟨line, hline, hrecognised⟩
      · exact h.missed line hline (missed_iff.mpr ⟨hstands, hrecognised⟩)
  · intro h
    constructor
    · intro line hline hmissed
      exact h.mpr ⟨line, hline, (missed_iff.mp hmissed).1⟩
    · intro line hline hmistaken
      exact h.mp ⟨line, hline, (mistaken_iff.mp hmistaken).1⟩

theorem listed_any_iff {file : Option (List Char)} {p : Domain → Bool} :
    (∃ line ∈ linesOf file, (listedRule conv line).any (fun r => p r.domain) = true) ↔
      ∃ line ∈ linesOf file, ∃ r, Shows conv line r ∧ p r.domain = true := by
  apply exists_congr
  intro line
  apply and_congr_right
  intro hline
  rw [Option.any_eq_true]
  apply exists_congr
  intro r
  rw [listedRule_iff (newline_not_mem_trim (Lib.isLine_of_mem_splitLines '\n' hline))]

/-- The text of a rule is read back exactly where the rule is none of those that do not survive printing. -/
theorem readsAs_addressLine_iff (hdoc : conv.Documented) {rule : AddressRule} (h : Producible conv rule) :
    readsAs conv (addressLine conv rule) rule = true ↔
      ¬ Starred rule ∧ Readable conv rule.domain ∧ ¬ Swallowed rule := by
  unfold readsAs
  rw [Option.any_eq_true]
  constructor
  · rintro ⟨r, hloaded, hsame⟩
    obtain ⟨rest, hrun⟩ := (loadedRule_addressLine (value_ne_nil h)).mp hloaded
    rw [Bool.and_eq_true] at hsame
    exact conditions_of_parse hdoc h hrun hsame.1
  · intro hread
    have hrun := parseAddressRule_text hdoc h hread
    refine ⟨rule, (loadedRule_addressLine (value_ne_nil h)).mpr ⟨[], hrun⟩, ?_⟩
    simp [rule.domain.beq_self]

theorem legible_iff_agrees (hdoc : conv.Documented) (main file : Option (List Char)) {rule : AddressRule}
    (hrule : Producible conv rule) :
    Legible conv readConfigFile main file rule ↔ Agrees conv readConfigFile main file rule := by
  have hlisted : ((linesOf file).any fun line => (listedRule conv line).any (·.domain.sameRule rule.domain)) = true ↔
      ∃ line ∈ linesOf file, ∃ r, Shows conv line r ∧ r.domain.sameRule rule.domain = true := by
    rw [List.any_eq_true]
    exact listed_any_iff (p := (·.sameRule rule.domain))
  have hhidden (r : AddressRule) : (∃ line ∈ linesOf file, (listedRule conv line).any (·.domain == r.domain) = true) ↔
      ∃ line ∈ linesOf file, ∃ r', Shows conv line r' ∧ (r'.domain == r.domain) = true :=
    listed_any_iff (p := (· == r.domain))
  constructor
  · intro h
    have hwritten (hor : hasRule conv main rule.domain = false ∨ hasRule conv file rule.domain = false) :=
      h.text (hor.imp not_hasRule_iff.mp not_hasRule_iff.mp)
    exact
      { onMain := madeUp_iff.mp h.inMain
        found := madeUp_iff.mp h.inFile
        lines := fun hmain line hline => readAlike_iff.mpr (h.lines (not_hasRule_iff.mp hmain) line hline)
        written := fun hor => ⟨(hwritten hor).1, (readsAs_addressLine_iff hdoc hrule).mpr (hwritten hor).2⟩
        taken := fun hmain _ => lineIsAddressFor_iff.mpr
          (recognised_addressLine (parseAddressRule_text hdoc hrule (hwritten (.inl hmain)).2))
        listed := by rw [Bool.eq_iff_iff, hlisted, hasRule_iff, h.shown]
        hidden := fun hfile r hr hsame => (hhidden r).mpr (h.hidden (hasRule_iff.mp hfile) r hr hsame) }
  · intro h
    exact
      { inMain := madeUp_iff.mpr h.onMain
        inFile := madeUp_iff.mpr h.found
        lines := fun hmain line hline => readAlike_iff.mp (h.lines (not_hasRule_iff.mpr hmain) line hline)
        text := fun hor => by
          obtain ⟨hline, hreads⟩ := h.written (hor.imp not_hasRule_iff.mpr not_hasRule_iff.mpr)
          exact ⟨hline, (readsAs_addressLine_iff hdoc hrule).mp hreads⟩
        shown := by rw [← hlisted, h.listed, hasRule_iff]
        hidden := fun hfile r hr hsame => (hhidden r).mp (h.hidden (hasRule_iff.mpr hfile) r hr hsame) }

end

/-- **The requests for a rule edit the rules of its domain only** exactly where the domain can be made out in both
files and the rule be written. -/
theorem edits_only_iff (hdoc : conv.Documented) (main file : Option (List Char)) {rule : AddressRule}
    (hrule : Producible conv rule) :
    EditsOnly conv readConfigFile main file rule ↔ Legible conv readConfigFile main file rule := by
  rw [legible_iff_agrees hdoc main file hrule]
  exact editsOnly_iff_agrees conv readConfigFile main file rule

/-! ### Two files -/

/-- The rule `/a/#`. -/
def soaForA : AddressRule := ⟨.name (.default ⟨false, [⟨[97], by simp, by simp⟩]⟩), .soa⟩

theorem producible_soaForA : Producible asciiConversions soaForA := by
  have hparse : parseAddressRule asciiConversions "/a/#".toList = some (soaForA, []) := rfl
  exact producible_of_parse hparse

/-- A file with a comment, a rule in front of another, and a line that is no rule. -/
def officeFile : List Char := "# office\r\n\taddress  /A/1.2.3.4 # old\r\nserver 1.1.1.1".toList

theorem edits_only_office : EditsOnly asciiConversions (fun _ => []) none (some officeFile) soaForA := by
  apply (edits_only_iff asciiConversions (fun _ => []) documented_asciiConversions none (some officeFile)
    producible_soaForA).mpr
  apply (legible_iff_agrees documented_asciiConversions none (some officeFile) producible_soaForA).mpr
  exact
    { onMain := by decide +kernel
      found := by decide +kernel
      lines := fun _ => by decide +kernel
      written := fun _ => by decide +kernel
      taken := fun _ _ => by decide +kernel
      listed := by decide +kernel
      hidden := fun _ r hr => by cases hr }

/-- The loader reads `ADDRESS /a/#` as the rule; a create for the same domain does not see it, and
the file has two. -/
theorem keyword_case_is_missed :
    ¬ EditsOnly asciiConversions (fun _ => []) none (some "ADDRESS /a/#\n".toList) soaForA := by
  intro h
  have hrule : hasRule asciiConversions (some "ADDRESS /a/#\n".toList) soaForA.domain = true := by decide +kernel
  have hunseen : (linesOf (some "ADDRESS /a/#\n".toList)).any (lineIsAddressFor asciiConversions · soaForA.domain) =
      false := by decide +kernel
  exact Bool.false_ne_true (hunseen.symm.trans (h.found.trans hrule))

end Api
end SmartDns
