/-
# The managed address file

`api/address.rs`: the requests that list, create, update and delete the address rules of
`managed/address.conf`. A request edits the text line by line, with a recogniser of its
own for the lines that are rules of a domain (`lineIsAddressFor`); what such a line means
is decided by the loader of the configuration (`loadedRule`), and what a listing shows by
a third reader (`listedRule`).

`main` is the text of the main configuration file, where there is one that can be read,
and `file` the text of the managed file, where it is there. What `ConfigFile::parse` reads
from the main file takes the parsers of all settings and is the parameter
`readConfigFile`. Writing and reloading succeed.

Key definitions: `lineIsAddressFor`, `loadedRule`, `listedRule`, `create`, `update`, `delete`,
`list`.
Key theorems: `lineIsAddressFor_newline`, `loadedRule_newline`.
-/
import SmartDns.Lib.Lines
import SmartDns.Rule.AddressText

namespace SmartDns
namespace Api

open Dns Rule
open Lib (splitLines closed)
open Lib.Parse

/-! ### Lines -/

def trimStart (s : List Char) : List Char := s.dropWhile isWhitespace

def trimEnd (s : List Char) : List Char := (s.reverse.dropWhile isWhitespace).reverse

/-- `str::trim`. -/
def trim (s : List Char) : List Char := trimEnd (trimStart s)

/-- A text that neither begins nor ends with white space. -/
theorem trim_of_ends {s : List Char} (hhead : ∀ c, s.head? = some c → isWhitespace c = false)
    (hlast : ∀ c, s.getLast? = some c → isWhitespace c = false) : trim s = s := by
  have hdrop : ∀ t : List Char, (∀ c, t.head? = some c → isWhitespace c = false) → t.dropWhile isWhitespace = t := by
    intro t ht
    cases t with
    | nil => rfl
    | cons c t => rw [List.dropWhile_cons_of_neg (by simp [ht c rfl])]
  unfold trim trimEnd trimStart
  rw [hdrop s hhead, hdrop s.reverse fun c hc => hlast c (List.head?_reverse ▸ hc), List.reverse_reverse]

theorem trim_of_graphic {s : List Char} (h : ∀ c ∈ s, isWhitespace c = false) : trim s = s :=
  trim_of_ends (fun c hc => h c (List.mem_of_head? hc)) fun c hc => h c (List.mem_of_getLast? hc)

def splitLinesKeepEndings (text : List Char) : List (List Char) := splitLines '\n' text

def lineEndingOf (line : List Char) : List Char :=
  if ['\r', '\n'].isSuffixOf line then ['\r', '\n']
  else if ['\n'].isSuffixOf line then ['\n']
  else []

/-- What stands behind a rule on its line: a blank and a comment, or blanks. -/
def lineComment : TextParser Unit :=
  let notLineEnding : TextParser Unit := fun s =>
    match s.dropWhile fun c => c != '\r' && c != '\n' with
    | [] => some ((), [])
    | '\n' :: rest => some ((), '\n' :: rest)
    | '\r' :: '\n' :: rest => some ((), '\r' :: '\n' :: rest)
    | _ :: _ => none
  (do
    let _ ← space1
    char '#'
    notLineEnding) <|>
  (do
    let _ ← space0
    pure ())

section

variable (conv : TextConversions)

/-- The first of the settings `parse_config` tries, and the only one that is an address rule. -/
def addressSetting : TextParser AddressRule := do
  let _ ← space0
  tagNoCase "address"
  let _ ← space1
  let rule ← parseAddressRule conv
  lineComment
  pure rule

/-- The address rule the loader reads from a line. What is left of the line is warned about. -/
def loadedRule (line : List Char) : Option AddressRule :=
  (addressSetting conv (line.reverse.dropWhile fun c => c == '\r' || c == '\n').reverse).map (·.1)

/-- The address rule a listing shows for a line. -/
def listedRule (line : List Char) : Option AddressRule :=
  let trimmed := trim line
  if trimmed.isEmpty || trimmed.head? == some '#' then none
  else
    match addressSetting conv trimmed with
    | some (rule, leftover) => if (trim leftover).isEmpty then some rule else none
    | none => none

def lineIsAddressFor (line : List Char) (domain : Domain) : Bool :=
  match "address".toList.isPrefixOf? (trimStart line) with
  | none => false
  | some rest =>
    if !rest.head?.any isWhitespace then false
    else
      match parseAddressRule conv (trimStart rest) with
      | some (rule, leftover) =>
        let tail := trim leftover
        (tail.isEmpty || tail.head? == some '#') && rule.domain == domain
      | none => false

/-! ### The requests -/

inductive ApiError
  | internal
  | badRequest (message : List Char)
  | conflict (message : List Char)
  | notFound (message : List Char)
deriving DecidableEq

/-- `main_config_has_address`. -/
def mainConfigHasAddress (main : Option (List Char)) (domain : Domain) : Bool :=
  match main with
  | none => false
  | some text => (splitLinesKeepEndings text).any (lineIsAddressFor conv · domain)

def alreadyExists (domain : Domain) : ApiError :=
  .conflict ("domain ".toList ++ domainText conv domain ++ " already exists".toList)

def readOnlyHere (domain : Domain) : ApiError :=
  .conflict ("address rule for domain ".toList ++ domainText conv domain ++
    (" is defined in the main configuration file and is read-only here; " ++
      "edit the configuration file instead").toList)

def domainNotFound (domain : Domain) : ApiError :=
  .notFound ("Domain ".toList ++ domainText conv domain ++ " not found".toList)

/-- `address {rule}`. -/
def addressLine (rule : AddressRule) : List Char := "address ".toList ++ addressRuleText conv rule

def create (file : Option (List Char)) (rule : AddressRule) : Except ApiError (List Char) :=
  match file with
  | some text =>
    if (splitLinesKeepEndings text).any (lineIsAddressFor conv · rule.domain) then
      .error (alreadyExists conv rule.domain)
    else
      let newText := if !text.isEmpty && text.getLast? != some '\n' then text ++ ['\n'] else text
      .ok (newText ++ addressLine conv rule ++ ['\n'])
  | none => .ok (addressLine conv rule ++ ['\n'])

def update (main file : Option (List Char)) (rule : AddressRule) : Except ApiError (List Char) :=
  if mainConfigHasAddress conv main rule.domain then .error (readOnlyHere conv rule.domain)
  else
    match file with
    | none => .error (domainNotFound conv rule.domain)
    | some text =>
      let lines := splitLinesKeepEndings text
      let replaced := lines.countP (lineIsAddressFor conv · rule.domain)
      if replaced = 0 then .error (domainNotFound conv rule.domain)
      else
        .ok (lines.flatMap fun line =>
          if lineIsAddressFor conv line rule.domain then addressLine conv rule ++ lineEndingOf line else line)

def delete (main file : Option (List Char)) (domain : Domain) : Except ApiError (List Char) :=
  if mainConfigHasAddress conv main domain then .error (readOnlyHere conv domain)
  else
    match file with
    | none => .error (domainNotFound conv domain)
    | some text =>
      let lines := splitLinesKeepEndings text
      let removed := lines.countP (lineIsAddressFor conv · domain)
      if removed = 0 then .error (domainNotFound conv domain)
      else .ok (lines.filter fun line => !lineIsAddressFor conv line domain).flatten

inductive AddressRuleSource
  | managed
  | main
deriving DecidableEq

structure SourcedAddressRule where
  rule : AddressRule
  source : AddressRuleSource

def list (readConfigFile : List Char → List AddressRule) (main file : Option (List Char)) : List SourcedAddressRule :=
  let managed := (splitLinesKeepEndings (file.getD [])).filterMap (listedRule conv)
  let shown := ((main.map readConfigFile).getD []).filter fun rule => !managed.any fun r => r.domain == rule.domain
  managed.map (⟨·, .managed⟩) ++ shown.map (⟨·, .main⟩)

end

theorem addressLine_eq (conv : TextConversions) (rule : AddressRule) :
    addressLine conv rule = "address ".toList ++ addressRuleText conv rule := rfl

/-! ### A line break behind a line -/

theorem trimStart_newline (s : List Char) :
    trimStart (s ++ ['\n']) = if trimStart s = [] then [] else trimStart s ++ ['\n'] := by
  induction s with
  | nil => rfl
  | cons c s ih =>
    by_cases hc : isWhitespace c = true
    · simp only [trimStart, List.cons_append, List.dropWhile_cons, hc, ↓reduceIte]
      exact ih
    · simp [trimStart, hc]

/-- Blanks behind a text are trimmed with it. -/
theorem trimEnd_append {t : List Char} (ht : ∀ c ∈ t, isWhitespace c = true) (s : List Char) :
    trimEnd (s ++ t) = trimEnd s := by
  unfold trimEnd
  rw [List.reverse_append, List.dropWhile_append_of_pos fun c hc => ht c (List.mem_reverse.mp hc)]

theorem trim_append {t : List Char} (ht : ∀ c ∈ t, isWhitespace c = true) (s : List Char) :
    trim (s ++ t) = trim s := by
  have hdrop : t.dropWhile isWhitespace = [] := by
    rw [← List.append_nil t, List.dropWhile_append_of_pos ht]
    rfl
  unfold trim trimStart
  rw [List.dropWhile_append]
  split_ifs with h
  · rw [List.isEmpty_iff.mp h, hdrop]
  · exact trimEnd_append ht _

theorem trim_newline (s : List Char) : trim (s ++ ['\n']) = trim s :=
  trim_append (List.forall_mem_singleton.mpr (by decide)) s

variable (conv : TextConversions)

/-- The loader takes a line without its end. -/
theorem loadedRule_newline (line : List Char) : loadedRule conv (line ++ ['\n']) = loadedRule conv line := by
  simp [loadedRule]

theorem loadedRule_return (line : List Char) : loadedRule conv (line ++ ['\r', '\n']) = loadedRule conv line := by
  simp [loadedRule]

theorem isPrefixOf?_newline : ∀ {t s : List Char}, '\n' ∉ t →
    t.isPrefixOf? (s ++ ['\n']) = (t.isPrefixOf? s).map (· ++ ['\n'])
  | [], s, _ => by simp [List.isPrefixOf?]
  | x :: t, [], h => by
    have hx : (x == '\n') = false := by
      rw [beq_eq_false_iff_ne]
      rintro rfl
      exact h (by simp)
    simp [List.isPrefixOf?, hx]
  | x :: t, c :: s, h => by
    by_cases hx : x == c
    · simp only [List.cons_append, List.isPrefixOf?, hx, ↓reduceIte]
      exact isPrefixOf?_newline fun hm => h (by simp [hm])
    · simp [List.isPrefixOf?, hx]

theorem isPrefixOf?_eq_some : ∀ {t s rest : List Char}, t.isPrefixOf? s = some rest → t ++ rest = s
  | [], s, rest, h => by simpa [List.isPrefixOf?] using h.symm
  | x :: t, [], rest, h => by simp [List.isPrefixOf?] at h
  | x :: t, c :: s, rest, h => by
    by_cases hx : x == c
    · simp only [List.isPrefixOf?, hx, ↓reduceIte] at h
      rw [List.cons_append, isPrefixOf?_eq_some h, beq_iff_eq.mp hx]
    · simp [List.isPrefixOf?, hx] at h

/-- What the recogniser makes of what stands behind the keyword. -/
def restIsFor (rest : List Char) (domain : Domain) : Bool :=
  match parseAddressRule conv (trimStart rest) with
  | some (rule, leftover) =>
    let tail := trim leftover
    (tail.isEmpty || tail.head? == some '#') && rule.domain == domain
  | none => false

theorem restIsFor_newline (rest : List Char) (domain : Domain) :
    restIsFor conv (rest ++ ['\n']) domain = restIsFor conv rest domain := by
  unfold restIsFor
  rw [trimStart_newline]
  by_cases hblank : trimStart rest = []
  · rw [if_pos hblank, hblank]
  · rw [if_neg hblank, (blind_parseAddressRule conv).behind]
    cases parseAddressRule conv (trimStart rest) with
    | none => rfl
    | some x =>
      dsimp only [Option.map_some]
      rw [trim_newline]

theorem restIsFor_nil (domain : Domain) : restIsFor conv [] domain = false := rfl

theorem lineIsAddressFor_eq (line : List Char) (domain : Domain) :
    lineIsAddressFor conv line domain =
      match "address".toList.isPrefixOf? (trimStart line) with
      | none => false
      | some rest => rest.head?.any isWhitespace && restIsFor conv rest domain := by
  unfold lineIsAddressFor restIsFor
  cases "address".toList.isPrefixOf? (trimStart line) with
  | none => rfl
  | some rest => cases h : rest.head?.any isWhitespace <;> simp [h]

/-- The recogniser takes a line with its end as it takes it without. -/
theorem lineIsAddressFor_newline (line : List Char) (domain : Domain) :
    lineIsAddressFor conv (line ++ ['\n']) domain = lineIsAddressFor conv line domain := by
  have hkeyword : '\n' ∉ "address".toList := by decide +kernel
  rw [lineIsAddressFor_eq, lineIsAddressFor_eq, trimStart_newline]
  by_cases hblank : trimStart line = []
  · rw [if_pos hblank, hblank]
  · rw [if_neg hblank, isPrefixOf?_newline hkeyword]
    cases "address".toList.isPrefixOf? (trimStart line) with
    | none => rfl
    | some rest =>
      dsimp only [Option.map_some]
      rw [restIsFor_newline]
      cases rest with
      | nil => rw [restIsFor_nil, Bool.and_false, Bool.and_false]
      | cons c rest => rfl

end Api
end SmartDns
