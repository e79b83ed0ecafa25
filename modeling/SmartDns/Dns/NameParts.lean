/-
# The parts of a name's text

`Name::from_str` reads a text label by label, between dots: what it reads has parts that are labels
(`exists_nameParts`), and parts that are labels are read (`NameParts.fromEncodedStr_eq`).

Key definition: `NameParts`.
Key theorems: `joined_inj`, `exists_nameParts`, `NameParts.fromEncodedStr_eq`.
-/
import Mathlib.Data.List.Forall2
import SmartDns.Dns.NameParse
import SmartDns.Lib.Groups

namespace SmartDns
namespace Dns

open Lib.Parse (joined joined_append joined_eq_intercalate)

/-! ### Labels between dots -/

theorem joined_append_singleton {B : Type} (c : B) (g : List B) : ∀ gs : List (List B),
    joined c (gs ++ [g]) = gs.flatMap (· ++ [c]) ++ g
  | [] => by simp [joined]
  | [g'] => by simp [joined]
  | g' :: g'' :: gs => by
    have ih := joined_append_singleton c g (g'' :: gs)
    rw [List.flatMap_cons, List.append_assoc, ← ih]
    simp [joined]

theorem count_joined {B : Type} [DecidableEq B] (c : B) : ∀ gs : List (List B), gs ≠ [] →
    (joined c gs).count c + 1 = gs.length + gs.flatten.count c
  | [], h => absurd rfl h
  | [g], _ => by
    simp [joined]
    omega
  | g :: g' :: gs, _ => by
    have ih := count_joined c (g' :: gs) (by simp)
    have hcons : joined c (g :: g' :: gs) = g ++ c :: joined c (g' :: gs) := by simp [joined]
    rw [hcons, List.count_append, List.count_cons_self, List.length_cons, List.flatten_cons, List.count_append]
    omega

/-- Parts without the mark are told by their text, with or without a mark behind them. -/
theorem joined_inj {B : Type} [BEq B] [LawfulBEq B] {c : B} {gs gs' : List (List B)} {f f' : Bool} (hne : gs ≠ [])
    (hne' : gs' ≠ []) (h : ∀ g ∈ gs, g ≠ [] ∧ c ∉ g) (h' : ∀ g ∈ gs', g ≠ [] ∧ c ∉ g)
    (heq : joined c gs ++ (if f then [c] else []) = joined c gs' ++ if f' then [c] else []) : gs = gs' ∧ f = f' := by
  have hsplit {gs : List (List B)} (f : Bool) (hne : gs ≠ []) (h : ∀ g ∈ gs, g ≠ [] ∧ c ∉ g) :
      (joined c gs ++ if f then [c] else []).splitOn c = gs ++ if f then [[]] else [] := by
    have hjoined : (joined c gs ++ if f then [c] else []) = joined c (gs ++ if f then [[]] else []) := by
      cases f with
      | true => exact (joined_append hne [[]]).symm ▸ rfl
      | false => simp
    rw [hjoined, joined_eq_intercalate]
    apply List.splitOn_intercalate
    · intro g hg
      rcases List.mem_append.mp hg with hg | hg
      · exact (h g hg).2
      · cases f with
        | true =>
          obtain rfl := List.mem_singleton.mp hg
          exact List.not_mem_nil
        | false => cases hg
    · simp [hne]
  have hlists : (gs ++ if f then [[]] else []) = gs' ++ if f' then [[]] else [] := by
    rw [← hsplit f hne h, ← hsplit f' hne' h', heq]
  have hnil {gs gs' : List (List B)} (h : ∀ g ∈ gs, g ≠ [] ∧ c ∉ g) (heq : gs = gs' ++ [[]]) : False :=
    (h [] (heq ▸ List.mem_append_right _ List.mem_cons_self)).1 rfl
  cases f with
  | true =>
    cases f' with
    | true => exact ⟨List.append_cancel_right hlists, rfl⟩
    | false => exact (hnil h' (by simpa using hlists.symm)).elim
  | false =>
    cases f' with
    | true => exact (hnil h (by simpa using hlists)).elim
    | false => exact ⟨by simpa using hlists, rfl⟩

/-- A character of a label. -/
def plainChar (c : Char) : Bool := c ≠ '.' && !(c = '\\' || isControl c || isWhitespace c)

/-- The text is labels between dots, and perhaps a dot behind the last. -/
structure NameParts (toLabel : List Char → Option Label) (parts : List (List Char)) (n : Name)
    (text : List Char) : Prop where
  text_eq : text = joined '.' parts ++ if n.isFqdn then ['.'] else []
  ne_nil : parts ≠ []
  plain : ∀ p ∈ parts, p.all plainChar = true
  labels : List.Forall₂ (fun p l => toLabel p = some l) parts n.labels
  short : Name.encodedLen n.labels ≤ Name.MAX_LENGTH

section

variable {toLabel : List Char → Option Label}

theorem readLabels_plain (labels : List Label) (text : List Char) : ∀ {p label : List Char}, p.all plainChar = true →
    Name.readLabels toLabel labels label (p ++ text) = Name.readLabels toLabel labels (label ++ p) text
  | [], label, _ => by rw [List.nil_append, List.append_nil]
  | c :: p, label, h => by
    rw [List.all_cons, Bool.and_eq_true] at h
    obtain ⟨hc, hp⟩ := h
    simp only [plainChar, Bool.and_eq_true, decide_eq_true_eq, Bool.not_eq_true'] at hc
    rw [List.cons_append, Name.readLabels, if_neg hc.1, if_neg (by rw [hc.2]; exact Bool.false_ne_true),
      readLabels_plain labels text hp, List.append_assoc]
    rfl

theorem readLabels_flatMap {parts : List (List Char)} {ls : List Label}
    (h : List.Forall₂ (fun p l => toLabel p = some l) parts ls) (hplain : ∀ p ∈ parts, p.all plainChar = true)
    (text : List Char) (labels : List Label) :
    Name.readLabels toLabel labels [] (parts.flatMap (· ++ ['.']) ++ text) =
      Name.readLabels toLabel (labels ++ ls) [] text := by
  induction h generalizing labels with
  | nil => rw [List.append_nil, List.flatMap_nil, List.nil_append]
  | @cons p l parts ls hl _ ih =>
    have hcons : (p :: parts).flatMap (· ++ ['.']) ++ text = p ++ ('.' :: (parts.flatMap (· ++ ['.']) ++ text)) := by simp
    rw [hcons, readLabels_plain labels _ (hplain p List.mem_cons_self), List.nil_append, Name.readLabels, if_pos rfl, hl,
      Option.bind_some, ih (fun p hp => hplain p (List.mem_cons_of_mem _ hp)), List.append_assoc]
    rfl

/-- What the loop has read. -/
theorem readLabels_cases : ∀ {text label : List Char} {labels : List Label} {x : List Label × List Char},
    label.all plainChar = true → Name.readLabels toLabel labels label text = some x →
      ∃ parts ls, List.Forall₂ (fun p l => toLabel p = some l) parts ls ∧ x.1 = labels ++ ls ∧
        label ++ text = parts.flatMap (· ++ ['.']) ++ x.2 ∧ (∀ p ∈ parts, p.all plainChar = true) ∧
          x.2.all plainChar = true
  | [], label, labels, x, hlabel, h => by
    cases h
    exact ⟨[], [], .nil, (List.append_nil _).symm, List.append_nil _, fun _ hp => (List.not_mem_nil hp).elim, hlabel⟩
  | ch :: text, label, labels, x, hlabel, h => by
    rw [Name.readLabels] at h
    by_cases hdot : ch = '.'
    · rw [if_pos hdot] at h
      obtain ⟨l, hl, h⟩ := Option.bind_eq_some_iff.mp h
      obtain ⟨parts, ls, hparts, hx, htext, hplain, hlast⟩ := readLabels_cases rfl h
      refine ⟨label :: parts, l :: ls, .cons hl hparts, by rw [hx, List.append_assoc]; rfl, ?_, ?_, hlast⟩
      · rw [List.nil_append] at htext
        rw [hdot, htext]
        simp
      · exact List.forall_mem_cons.mpr ⟨hlabel, hplain⟩
    · rw [if_neg hdot] at h
      by_cases hbad : (ch = '\\' || isControl ch || isWhitespace ch) = true
      · rw [if_pos hbad] at h
        cases h
      · rw [if_neg hbad] at h
        have hch : plainChar ch = true := by simp [plainChar, hdot, Bool.not_eq_true _ ▸ hbad]
        have hall : (label ++ [ch]).all plainChar = true := by simp [hlabel, hch]
        obtain ⟨parts, ls, hparts, hx, htext, hplain, hlast⟩ := readLabels_cases hall h
        exact ⟨parts, ls, hparts, hx, by rw [← htext, List.append_assoc]; rfl, hplain, hlast⟩

theorem not_dot_of_plain {p : List Char} (h : p.all plainChar = true) : '.' ∉ p := by
  intro hp
  exact absurd (List.all_eq_true.mp h '.' hp) (by decide)

theorem exists_label_of_mem {parts : List (List Char)} {ls : List Label}
    (h : List.Forall₂ (fun p l => toLabel p = some l) parts ls) {p : List Char} (hp : p ∈ parts) :
    ∃ l ∈ ls, toLabel p = some l := by
  induction h with
  | nil => cases hp
  | cons hl _ ih =>
    rcases List.mem_cons.mp hp with rfl | hp
    · exact ⟨_, List.mem_cons_self, hl⟩
    · obtain ⟨l, hmem, hl⟩ := ih hp
      exact ⟨l, List.mem_cons_of_mem _ hmem, hl⟩

theorem exists_part_of_mem {parts : List (List Char)} {ls : List Label}
    (h : List.Forall₂ (fun p l => toLabel p = some l) parts ls) {l : Label} (hl : l ∈ ls) :
    ∃ p ∈ parts, toLabel p = some l := by
  induction h with
  | nil => cases hl
  | cons hp _ ih =>
    rcases List.mem_cons.mp hl with rfl | hl
    · exact ⟨_, List.mem_cons_self, hp⟩
    · obtain ⟨p, hmem, hp⟩ := ih hl
      exact ⟨p, List.mem_cons_of_mem _ hmem, hp⟩

theorem NameParts.part {parts : List (List Char)} {n : Name} {text : List Char} (h : NameParts toLabel parts n text)
    (hnil : toLabel [] = none) {p : List Char} (hp : p ∈ parts) : p ≠ [] ∧ '.' ∉ p := by
  refine ⟨?_, not_dot_of_plain (h.plain p hp)⟩
  rintro rfl
  obtain ⟨l, -, hl⟩ := exists_label_of_mem h.labels hp
  rw [hnil] at hl
  cases hl

theorem exists_last_label {parts : List (List Char)} {last : List Char} {labels : List Label}
    (h : List.Forall₂ (fun p l => toLabel p = some l) (parts ++ [last]) labels) :
    ∃ ls l, labels = ls ++ [l] ∧ List.Forall₂ (fun p l => toLabel p = some l) parts ls ∧ toLabel last = some l := by
  induction parts generalizing labels with
  | nil =>
    obtain ⟨l, ls, hl, hls, rfl⟩ := List.forall₂_cons_left_iff.mp h
    obtain rfl := List.forall₂_nil_left_iff.mp hls
    exact ⟨[], l, rfl, .nil, hl⟩
  | cons p parts ih =>
    obtain ⟨l, labels, hl, hrest, rfl⟩ := List.forall₂_cons_left_iff.mp h
    obtain ⟨ls, l', rfl, hls, hlast⟩ := ih hrest
    exact ⟨l :: ls, l', rfl, .cons hl hls, hlast⟩

/-- Parts that are labels are read. -/
theorem NameParts.fromEncodedStr_eq {parts : List (List Char)} {n : Name} {text : List Char}
    (h : NameParts toLabel parts n text) (hnil : toLabel [] = none) : Name.fromEncodedStr toLabel text = some n := by
  obtain ⟨init, last, rfl⟩ : ∃ init last, parts = init ++ [last] :=
    ⟨_, _, (List.dropLast_append_getLast h.ne_nil).symm⟩
  obtain ⟨hne, hdot⟩ := h.part hnil (List.mem_append_right _ List.mem_cons_self)
  obtain ⟨ls, l, hlabels, hinit, hl⟩ := exists_last_label h.labels
  have hread : Name.readLabels toLabel [] [] (joined '.' (init ++ [last])) = some (ls, last) := by
    have hplain : Name.readLabels toLabel ls [] (last ++ []) = Name.readLabels toLabel ls ([] ++ last) [] :=
      readLabels_plain ls [] (h.plain last (List.mem_append_right _ List.mem_cons_self))
    rw [List.append_nil, List.nil_append] at hplain
    rw [joined_append_singleton,
      readLabels_flatMap hinit fun p hp => h.plain p (List.mem_append_left _ hp), List.nil_append, hplain]
    rfl
  have hjoined : joined '.' (init ++ [last]) ≠ [] ∧ (joined '.' (init ++ [last])).getLast? ≠ some '.' := by
    rw [joined_append_singleton]
    refine ⟨by simp [hne], ?_⟩
    rw [List.getLast?_append_of_ne_nil _ hne]
    exact fun hlast => hdot (List.mem_of_getLast? hlast)
  have hshort : ¬ Name.MAX_LENGTH < Name.encodedLen (ls ++ [l]) := by
    rw [← hlabels]
    exact Nat.not_lt.mpr h.short
  have hplain : Name.fromEncodedStr toLabel (joined '.' (init ++ [last])) = some ⟨false, n.labels⟩ := by
    have hroot : joined '.' (init ++ [last]) ≠ ['.'] := by
      intro hroot
      rw [hroot] at hjoined
      exact hjoined.2 rfl
    have hlast : last.isEmpty = false := by simpa using hne
    unfold Name.fromEncodedStr
    rw [if_neg hroot, hread, Option.bind_some]
    simp only [hlast, Bool.false_eq_true, if_false, hl, Option.map_some, Option.bind_some, if_neg hshort,
      Bool.false_and, hlabels]
  rw [h.text_eq]
  obtain ⟨f, labels⟩ := n
  cases f with
  | true =>
    show Name.fromEncodedStr toLabel (joined '.' (init ++ [last]) ++ ['.']) = _
    rw [Name.fromEncodedStr_dot toLabel hjoined.1 hjoined.2, hplain]
    rfl
  | false =>
    show Name.fromEncodedStr toLabel (joined '.' (init ++ [last]) ++ []) = _
    rw [List.append_nil, hplain]

/-- What is read is the root or has parts that are labels. -/
theorem exists_nameParts {n : Name} {text : List Char} (htext : text ≠ [])
    (h : Name.fromEncodedStr toLabel text = some n) :
    text = ['.'] ∧ n = Name.root ∨ ∃ parts, NameParts toLabel parts n text := by
  unfold Name.fromEncodedStr at h
  by_cases hroot : text = ['.']
  · rw [if_pos hroot] at h
    exact .inl ⟨hroot, (Option.some.inj h).symm⟩
  right
  rw [if_neg hroot] at h
  obtain ⟨⟨labels, last⟩, hread, h⟩ := Option.bind_eq_some_iff.mp h
  obtain ⟨parts, ls, hparts, hls, hjoined, hplain, hlast⟩ := readLabels_cases rfl hread
  dsimp only at h hls hjoined hlast
  rw [List.nil_append] at hls hjoined
  subst hls
  obtain ⟨labels', hlabels', h⟩ := Option.bind_eq_some_iff.mp h
  by_cases hlong : Name.MAX_LENGTH < Name.encodedLen labels'
  · rw [if_pos hlong] at h
    cases h
  rw [if_neg hlong] at h
  obtain rfl := Option.some.inj h
  by_cases hnil : last = []
  · subst hnil
    obtain rfl := Option.some.inj hlabels'
    have hne : parts ≠ [] := by
      rintro rfl
      exact htext hjoined
    refine ⟨parts, ?_, hne, hplain, hparts, Nat.not_lt.mp hlong⟩
    have hfqdn : (([] : List Char).isEmpty && !text.isEmpty) = true := by simpa using htext
    dsimp only
    rw [hfqdn, if_pos rfl, hjoined, ← joined_append_singleton, joined_append hne]
    rfl
  · have hempty : last.isEmpty = false := by simpa using hnil
    rw [if_neg (by simp [hempty])] at hlabels'
    obtain ⟨l, hl, rfl⟩ := Option.map_eq_some_iff.mp hlabels'
    refine ⟨parts ++ [last], ?_, by simp, ?_, List.rel_append hparts (.cons hl .nil), Nat.not_lt.mp hlong⟩
    · rw [hempty, joined_append_singleton, hjoined]
      exact (List.append_nil _).symm
    · intro p hp
      rcases List.mem_append.mp hp with hp | hp
      · exact hplain p hp
      · obtain rfl := List.mem_singleton.mp hp
        exact hlast

theorem encodedLen_cons (l : Label) (ls : List Label) :
    Name.encodedLen (l :: ls) = Name.encodedLen ls + l.bytes.length + 1 := by
  simp only [Name.encodedLen, List.length_cons, List.flatMap_cons, List.length_append]
  omega

/-- Behind the first label is a name. -/
theorem NameParts.tail {p p' : List Char} {ps : List (List Char)} {n : Name} {text : List Char}
    (h : NameParts toLabel (p :: p' :: ps) n text) :
    ∃ rest, text = p ++ '.' :: rest ∧ NameParts toLabel (p' :: ps) ⟨n.isFqdn, n.labels.tail⟩ rest := by
  obtain ⟨l, ls, -, hls, hlabels⟩ := List.forall₂_cons_left_iff.mp h.labels
  have hshort := h.short
  rw [hlabels, encodedLen_cons] at hshort
  refine ⟨joined '.' (p' :: ps) ++ (if n.isFqdn then ['.'] else []), ?_, rfl, by simp, ?_, ?_, ?_⟩
  · rw [h.text_eq]
    simp [joined]
  · exact fun q hq => h.plain q (List.mem_cons_of_mem _ hq)
  · rw [hlabels]
    exact hls
  · rw [hlabels]
    exact (Nat.le_add_right _ _).trans ((Nat.le_add_right _ 1).trans hshort)

end

end Dns
end SmartDns
