/-
# DNS URLs that survive printing

A `DnsUrl` that is parsed and changed by the setters is read back from its text exactly if it is printable,
as far as no question mark is in its host (`reached_iff`). With `https://dns.google/` a parameter that is
set afterwards changes the path: the slash of the text decides whether the path is `/`, and it no longer
ends the text.

`plainUrls` is a URL parser for hosts that are plain domains and paths of letters and hyphens, with the
serializer of form-urlencoded text; it does what the development relies on (`plainUrls_documented`).

Key definitions: `plainUrls`.
Key theorems: `plainUrls_documented`, `reached_iff`.
-/
import SmartDns.Upstream.UrlText

namespace SmartDns
namespace Upstream

open Dns Lib Rule
open Lib.Form (cut cut_of_not_mem cut_append)

/-! ### Plain URLs -/

def plainHostChar (c : Char) : Bool := c.isLower || c.isDigit || c == '-' || c == '.'

def plainPathChar (c : Char) : Bool := c.isAlphanum || c == '-' || c == '/'

/-- The port behind the colon; the default of `https` is none. -/
def plainPort (scheme : List Char) : Option (List Char) → Option (Option UInt16)
  | none => some none
  | some digits =>
    if digits.all Char.isDigit && numeral 10 digits < 65536 then
      some (if scheme = "https".toList ∧ numeral 10 digits = 443 then none
        else some (UInt16.ofNat (numeral 10 digits)))
    else none

/-- A URL from its scheme, its authority in two parts, its path, query and fragment. -/
def plainUrl (scheme host : List Char) (port : Option (List Char)) (path : List Char)
    (query fragment : Option (List Char)) : Option Url := do
  let port ← plainPort scheme port
  if UrlCrate.schemes.contains scheme && !host.isEmpty && host.all plainHostChar && path.all plainPathChar then
    some { scheme, host := some (.domain host), port, path, query, fragment }
  else none

/-- What stands behind the scheme and its two slashes: the authority and the path. -/
def plainAuthority (scheme rest : List Char) (query fragment : Option (List Char)) : Option Url :=
  let authority := (cut '/' rest).1
  plainUrl scheme (cut ':' authority).1 (cut ':' authority).2 ((cut '/' rest).2.elim [] ('/' :: ·)) query fragment

def plainParse (s : List Char) : Option Url :=
  let front := (cut '#' s).1
  let hier := (cut '?' front).1
  ((cut ':' hier).2.bind ("//".toList.isPrefixOf? ·)).bind fun rest =>
    plainAuthority (cut ':' hier).1 rest (cut '?' front).2 (cut '#' s).2

def plainUrls : UrlCrate where
  parse s := (plainParse s).elim (.error "invalid".toList) .ok
  hostText
    | .domain d => d
    | .ipv4 bits => IpAddr.v4Text bits
    | .ipv6 bits => '[' :: (IpAddr.v6Text bits ++ [']'])
  formParse := Form.parse
  formText := Form.text

/-- What a plain URL is made of. -/
structure PlainParts (url : Url) (host : List Char) (path : Option (List Char)) : Prop where
  hostIs : url.host = some (.domain host)
  pathIs : url.path = path.elim [] ('/' :: ·)
  ne_nil : host ≠ []
  hostChars : ∀ c ∈ host, plainHostChar c = true
  pathChars : ∀ c ∈ url.path, plainPathChar c = true

theorem plainUrl_eq_some {scheme host path : List Char} {port query fragment : Option (List Char)} {url : Url}
    (h : plainUrl scheme host port path query fragment = some url) :
    (∃ port', url = { scheme, host := some (.domain host), port := port', path, query, fragment }) ∧ host ≠ [] ∧
      (∀ c ∈ host, plainHostChar c = true) ∧ ∀ c ∈ path, plainPathChar c = true := by
  unfold plainUrl at h
  cases hport : plainPort scheme port with
  | none =>
    rw [hport] at h
    cases h
  | some port' =>
    rw [hport] at h
    change (if _ then some _ else none) = _ at h
    split at h
    · rename_i hall
      simp only [Bool.and_eq_true, List.all_eq_true, Bool.not_eq_true', List.isEmpty_eq_false_iff] at hall
      obtain ⟨⟨⟨-, hne⟩, hhost⟩, hpath⟩ := hall
      exact ⟨⟨port', (Option.some.inj h).symm⟩, hne, hhost, hpath⟩
    · cases h

theorem plainUrl_of_parts {scheme host path : List Char} {port : Option UInt16}
    {digits query fragment : Option (List Char)} (hscheme : scheme ∈ UrlCrate.schemes)
    (hport : plainPort scheme digits = some port) (hne : host ≠ [])
    (hhost : ∀ c ∈ host, plainHostChar c = true) (hpath : ∀ c ∈ path, plainPathChar c = true) :
    plainUrl scheme host digits path query fragment =
      some { scheme, host := some (.domain host), port, path, query, fragment } := by
  have hall : (UrlCrate.schemes.contains scheme && !host.isEmpty && host.all plainHostChar &&
      path.all plainPathChar) = true := by
    simp only [Bool.and_eq_true, List.all_eq_true, Bool.not_eq_true', List.isEmpty_eq_false_iff,
      List.contains_iff_mem]
    exact ⟨⟨⟨hscheme, hne⟩, hhost⟩, hpath⟩
  unfold plainUrl
  rw [hport]
  exact if_pos hall

theorem plainParse_eq_some {s : List Char} {url : Url} (h : plainParse s = some url) :
    (∃ host path, PlainParts url host path) ∧ url.query = (cut '?' (cut '#' s).1).2 := by
  obtain ⟨rest, -, hrest⟩ := Option.bind_eq_some_iff.mp h
  obtain ⟨⟨port', rfl⟩, hne, hhost, hpath⟩ := plainUrl_eq_some hrest
  exact ⟨⟨_, _, rfl, rfl, hne, hhost, hpath⟩, rfl⟩

theorem plainUrls_parse {s : List Char} {url : Url} (h : plainUrls.parse s = .ok url) : plainParse s = some url := by
  change (plainParse s).elim _ _ = _ at h
  cases hparse : plainParse s with
  | none =>
    rw [hparse] at h
    cases h
  | some url' =>
    rw [hparse] at h
    exact congrArg some (Except.ok.inj h)

theorem plainUrls_parse_of_some {s : List Char} {url : Url} (h : plainParse s = some url) :
    plainUrls.parse s = .ok url := by
  show (plainParse s).elim _ _ = _
  rw [h]
  rfl

theorem formChar_of_host {c : Char} (h : plainHostChar c = true) : formChar c = true := by
  simp only [plainHostChar, Bool.or_eq_true, beq_iff_eq] at h
  rcases h with ((h | h) | rfl) | rfl
  · exact formChar_of_alphanum (Bool.or_eq_true_iff.mpr (.inl (Bool.or_eq_true_iff.mpr (.inr h))))
  · exact formChar_of_alphanum (isAlphanum_of_isDigit h)
  · decide
  · decide

theorem plainPath_spec {c : Char} (h : plainPathChar c = true) : isWhitespace c = false ∧ c ≠ '?' ∧ c ≠ '#' := by
  simp only [plainPathChar, Bool.or_eq_true, beq_iff_eq] at h
  rcases h with (h | rfl) | rfl
  · have hform : formChar c = true := by simp [formChar, Form.encodedChar, h]
    obtain ⟨hspace, -, hmark, hhash⟩ := formChar_spec hform
    exact ⟨hspace, hmark, hhash⟩
  · decide
  · decide

theorem cut_elim {c : Char} {s : List Char} (h : c ∉ s) (t : Option (List Char)) :
    cut c (s ++ t.elim [] (c :: ·)) = (s, t) := by
  cases t with
  | none =>
    rw [Option.elim_none, List.append_nil]
    exact cut_of_not_mem h
  | some t => exact cut_append h t

theorem plainPort_decimal {scheme : List Char} {port : Option UInt16}
    (h : scheme = "https".toList → port ≠ some 443) :
    plainPort scheme (port.map fun p => IpAddr.decimal p.toNat) = some port := by
  cases port with
  | none => rfl
  | some p =>
    have hvalue : numeral 10 (IpAddr.decimal p.toNat) = p.toNat := numeral_toDigits (by decide) (by decide) _
    have hdigits : (IpAddr.decimal p.toNat).all Char.isDigit = true := by
      refine List.all_eq_true.mpr fun c hc => ?_
      obtain ⟨d, hd, rfl⟩ := mem_toDigits (by decide) _ hc
      exact isDigit_digitChar hd
    have hlt : p.toNat < 65536 := p.toNat_lt
    have hother : ¬ (scheme = "https".toList ∧ p.toNat = 443) := by
      rintro ⟨hscheme, hp⟩
      exact h hscheme (congrArg some (UInt16.toNat_inj.mp hp))
    show (if _ then some (if _ then none else _) else none) = _
    rw [hvalue, hdigits, if_pos (by simpa using hlt), if_neg hother, UInt16.ofNat_toNat]

theorem schemes_spec {scheme : List Char} (h : scheme ∈ UrlCrate.schemes) :
    ∀ c ∈ scheme, formChar c = true ∧ c ≠ ':' := by
  have hall : (UrlCrate.schemes.all fun s => s.all fun c => formChar c && c != ':') = true := by decide
  intro c hc
  have hchar := List.all_eq_true.mp (List.all_eq_true.mp hall scheme h) c hc
  simpa using hchar

theorem plainAuthority_of_parts {scheme host : List Char} {port : Option UInt16}
    {path query fragment : Option (List Char)} (hscheme : scheme ∈ UrlCrate.schemes)
    (hport : scheme = "https".toList → port ≠ some 443) (hne : host ≠ [])
    (hhost : ∀ c ∈ host, plainHostChar c = true) (hpath : ∀ c ∈ path.elim [] ('/' :: ·), plainPathChar c = true) :
    plainAuthority scheme (host ++ (port.elim [] (fun p => ':' :: IpAddr.decimal p.toNat) ++ path.elim [] ('/' :: ·)))
      query fragment =
      some { scheme, host := some (.domain host), port, path := path.elim [] ('/' :: ·), query, fragment } := by
  have hdigits : port.elim [] (fun p => ':' :: IpAddr.decimal p.toNat) =
      (port.map fun p => IpAddr.decimal p.toNat).elim [] (':' :: ·) := by cases port <;> rfl
  have hcolon : ':' ∉ host := fun h => absurd (hhost _ h) (by decide)
  have hslash : '/' ∉ host ++ (port.map fun p => IpAddr.decimal p.toNat).elim [] (':' :: ·) := by
    intro h
    rcases List.mem_append.mp h with h | h
    · exact absurd (hhost _ h) (by decide)
    · cases port with
      | none => cases h
      | some p =>
        rcases List.mem_cons.mp h with h | h
        · exact absurd h (by decide)
        · obtain ⟨d, hd, h⟩ := mem_toDigits (by decide) _ h
          exact absurd (h.symm ▸ isDigit_digitChar hd) (by decide)
  unfold plainAuthority
  dsimp only
  rw [hdigits, ← List.append_assoc, cut_elim hslash, cut_elim hcolon]
  exact plainUrl_of_parts hscheme (plainPort_decimal hport) hne hhost hpath

/-- **A plain URL is parsed into its parts.** -/
theorem plainParse_urlText {scheme host : List Char} {port : Option UInt16} {path query fragment : Option (List Char)}
    (hscheme : scheme ∈ UrlCrate.schemes) (hport : scheme = "https".toList → port ≠ some 443) (hne : host ≠ [])
    (hhost : ∀ c ∈ host, plainHostChar c = true) (hpath : ∀ c ∈ path.elim [] ('/' :: ·), plainPathChar c = true)
    (hquery : ∀ q ∈ query, ∀ c ∈ q, formChar c = true) :
    plainParse (urlText scheme host port (path.elim [] ('/' :: ·)) query fragment) =
      some { scheme, host := some (.domain host), port, path := path.elim [] ('/' :: ·), query, fragment } := by
  have hfront : ∀ c ∈ urlFront scheme host port (path.elim [] ('/' :: ·)), c ≠ '?' ∧ c ≠ '#' := by
    intro c hc
    rcases mem_urlFront hc with hc | hc | hc | hc | hc
    · exact (formChar_spec (schemes_spec hscheme c hc).1).2.2
    · exact (formChar_spec (formChar_of_host (hhost c hc))).2.2
    · exact (plainPath_spec (hpath c hc)).2
    · have hall : ("://".toList.all fun c => c != '?' && c != '#') = true := by decide
      simpa using List.all_eq_true.mp hall c hc
    · exact (formChar_spec (formChar_of_alphanum (isAlphanum_of_isDigit hc))).2.2
  have hmark : '?' ∉ urlFront scheme host port (path.elim [] ('/' :: ·)) := fun h => (hfront _ h).1 rfl
  have hhash : '#' ∉ urlFront scheme host port (path.elim [] ('/' :: ·)) ++ query.elim [] ('?' :: ·) := by
    intro h
    rcases List.mem_append.mp h with h | h
    · exact (hfront _ h).2 rfl
    · cases query with
      | none => cases h
      | some q =>
        rcases List.mem_cons.mp h with h | h
        · exact absurd h (by decide)
        · exact absurd (hquery q rfl _ h) (by decide)
  have hcolon : ':' ∉ scheme := fun h => (schemes_spec hscheme _ h).2 rfl
  have htext : urlFront scheme host port (path.elim [] ('/' :: ·)) =
      scheme ++ ':' :: ("//".toList ++ (host ++ (port.elim [] (fun p => ':' :: IpAddr.decimal p.toNat) ++
        path.elim [] ('/' :: ·)))) := rfl
  unfold plainParse
  dsimp only
  rw [urlText_eq, urlTail, ← List.append_assoc, cut_elim hhash, cut_elim hmark, htext, cut_append hcolon]
  exact plainAuthority_of_parts hscheme hport hne hhost hpath

/-- **The plain URLs do what the code relies on.** -/
theorem plainUrls_documented : plainUrls.Documented where
  domainText _ := rfl
  ipv4Text _ := rfl
  hostChars := by
    rintro scheme host ⟨s, url, hparse, -, hhost⟩ c hc
    obtain ⟨⟨d, path, hparts⟩, -⟩ := plainParse_eq_some (plainUrls_parse hparse)
    obtain rfl := Option.some.inj (hparts.hostIs.symm.trans hhost)
    exact (formChar_spec (formChar_of_host (hparts.hostChars c hc))).1
  domainChars := by
    rintro scheme d ⟨s, url, hparse, -, hhost⟩ hc
    obtain ⟨⟨d', path, hparts⟩, -⟩ := plainParse_eq_some (plainUrls_parse hparse)
    injection Option.some.inj (hparts.hostIs.symm.trans hhost) with hd
    exact absurd (hparts.hostChars _ (hd ▸ hc)) (by decide)
  pathChars := by
    rintro scheme path ⟨s, url, hparse, -, -, rfl⟩ c hc
    obtain ⟨⟨d, path, hparts⟩, -⟩ := plainParse_eq_some (plainUrls_parse hparse)
    exact plainPath_spec (hparts.pathChars c hc)
  formChars := by
    intro ps c hc
    rcases Form.mem_text hc with h | rfl | rfl
    · simp [formChar, h]
    · decide
    · decide
  formNil := rfl
  form := Form.parse_text
  rebuilt := by
    intro scheme host port path query fragment hscheme hgives hwrites hport hquery hfragment
    obtain ⟨s, url, hparse, -, hhost⟩ := hgives
    obtain ⟨⟨d, _, hparts⟩, -⟩ := plainParse_eq_some (plainUrls_parse hparse)
    obtain rfl := Option.some.inj (hparts.hostIs.symm.trans hhost)
    obtain ⟨path, rfl, hpath⟩ : ∃ p : Option (List Char), path = p.elim [] ('/' :: ·) ∧
        ∀ c ∈ p.elim [] ('/' :: ·), plainPathChar c = true := by
      rcases hwrites with rfl | rfl | ⟨s', url', hparse', -, -, rfl⟩
      · exact ⟨none, rfl, fun c hc => absurd hc List.not_mem_nil⟩
      · refine ⟨some "dns-query".toList, rfl, ?_⟩
        have hall : (('/' :: "dns-query".toList).all plainPathChar) = true := by decide
        exact fun c hc => List.all_eq_true.mp hall c hc
      · obtain ⟨⟨d', path, hparts'⟩, -⟩ := plainParse_eq_some (plainUrls_parse hparse')
        exact ⟨path, hparts'.pathIs, fun c hc => hparts'.pathChars c (hparts'.pathIs ▸ hc)⟩
    exact ⟨_, plainUrls_parse_of_some (plainParse_urlText hscheme hport hparts.ne_nil hparts.hostChars hpath hquery),
      rfl, rfl, rfl, fun _ => rfl, rfl, rfl⟩
  queryNone := by
    intro s url hparse hmark
    obtain ⟨-, hquery⟩ := plainParse_eq_some (plainUrls_parse hparse)
    rw [← Form.cut_fst] at hmark
    rw [hquery, cut_of_not_mem hmark]
  querySome := by
    intro front q back url hparse hmark hhash hq hback
    obtain ⟨-, hquery⟩ := plainParse_eq_some (plainUrls_parse hparse)
    have hfree : '#' ∉ front ++ '?' :: q := by
      intro h
      rcases List.mem_append.mp h with h | h
      · exact hhash h
      · rcases List.mem_cons.mp h with h | h
        · exact absurd h (by decide)
        · exact absurd (hq _ h) (by decide)
    have hcut : (cut '#' (front ++ '?' :: (q ++ back))).1 = front ++ '?' :: q := by
      rw [← List.cons_append, ← List.append_assoc]
      cases back with
      | nil => rw [List.append_nil, cut_of_not_mem hfree]
      | cons c back =>
        obtain rfl := hback c rfl
        rw [cut_append hfree]
    rw [hquery, hcut, cut_append hmark]

/-! ### Values that are parsed and set -/

/-- **What is parsed and set is read back if it can be written, and, without a question mark in its host, only
then.** -/
theorem reached_roundTrips {crate : UrlCrate} (hdoc : crate.Documented) {v : DnsUrl} (hv : Reached crate v) :
    (v.Printable crate → v.RoundTrips crate) ∧
      ('?' ∉ crate.hostText v.host → v.RoundTrips crate → v.Printable crate) :=
  ⟨roundTrips_of_printable hdoc (kept_of_reached hv), printable_of_roundTrips hdoc (kept_of_reached hv)⟩

theorem exists_of_any {A E : Type} {r : Except E A} {p : A → Bool} (h : (r.toOption.any p) = true) :
    ∃ a, r = .ok a ∧ p a = true := by
  cases r with
  | error e => cases h
  | ok a => exact ⟨a, rfl, h⟩

/-- `https://8.8.8.8:8443/dns-query#h3` with a host that pins the address, and without verification. -/
theorem reached_google : ∃ v, fromStr plainUrls "https://8.8.8.8:8443/dns-query#h3".toList = .ok v ∧
    ((v.setHost "dns.google".toList).setSslVerify false).RoundTrips plainUrls := by
  have hparse : ((fromStr plainUrls "https://8.8.8.8:8443/dns-query#h3".toList).toOption.any fun v =>
      v.proto == .https DEFAULT_DNS_QUERY_PATH .h3 && v.host == .ipv4 0x08080808#32 && v.params.isEmpty) = true := by
    decide +kernel
  have hhosts : ∀ d ∈ ["8.8.8.8".toList, "dns.google".toList],
      ((plainUrls.parse ("https://".toList ++ d)).toOption.any fun url =>
        url.scheme == "https".toList && url.host == some (.domain d)) = true := by
    decide +kernel
  have hgives : ∀ d ∈ ["8.8.8.8".toList, "dns.google".toList], plainUrls.GivesHost "https".toList (.domain d) := by
    intro d hd
    obtain ⟨url, hurl, hgiven⟩ := exists_of_any (hhosts d hd)
    simp only [Bool.and_eq_true, beq_iff_eq] at hgiven
    exact ⟨_, url, hurl, hgiven.1, hgiven.2⟩
  obtain ⟨v, hv, hfacts⟩ := exists_of_any hparse
  simp only [Bool.and_eq_true, beq_iff_eq] at hfacts
  obtain ⟨⟨hproto, hhost⟩, hparams⟩ := hfacts
  have hread : (Host.domain "8.8.8.8".toList).read = .ipv4 0x08080808#32 := by decide +kernel
  have hname : ipFromStr "dns.google".toList = none := by decide +kernel
  have hpath : v.proto.path ≠ some ['/'] := by
    rw [hproto]
    decide
  have hstr : v.proto.toStr = "https".toList := congrArg ProtocolConfig.toStr hproto
  have hprintable : v.PrintableUrl plainUrls :=
    { host := ⟨_, hstr.symm ▸ hgives _ List.mem_cons_self, hread.trans hhost.symm⟩
      key := by
        rw [(isEmpty_iff v.params).mp hparams]
        exact nofun
      path := fun hroot => absurd hroot hpath }
  have hset := hprintable.setHost hpath (hstr.symm ▸ hgives _ (by decide)) hname
  have hproto' : (v.setHost "dns.google".toList).proto = .https DEFAULT_DNS_QUERY_PATH .h3 :=
    v.pinHost_proto.trans hproto
  have hpath' : (v.setHost "dns.google".toList).proto.path ≠ some ['/'] := by
    rw [hproto']
    decide
  have hverify : ((v.setHost "dns.google".toList).setSslVerify false).PrintableUrl plainUrls :=
    hset.setParam hpath' (show "ssl_verify" ≠ "" by decide) _
  have hhttps : ((v.setHost "dns.google".toList).setSslVerify false).proto.toProtocol = some .https :=
    congrArg ProtocolConfig.toProtocol hproto'
  refine ⟨v, hv, (reached_roundTrips plainUrls_documented (.set (.set (.parsed hv) (.setHost "dns.google".toList))
    (.setSslVerify false))).1 ?_⟩
  exact (DnsUrl.printable_iff_url hhttps).mpr hverify

/-- `https://dns.google/` is read back with another path after a parameter is set. -/
theorem not_reached_roundTrips : ¬ ∀ (crate : UrlCrate), crate.Documented → ∀ v, Reached crate v →
    v.RoundTrips crate := by
  intro hall
  have hparse : ((fromStr plainUrls "https://dns.google/".toList).toOption.any fun v =>
      v.proto == .https ['/'] .auto && v.host == .domain "dns.google".toList) = true := by
    decide +kernel
  obtain ⟨v, hv, hfacts⟩ := exists_of_any hparse
  simp only [Bool.and_eq_true, beq_iff_eq] at hfacts
  obtain ⟨hproto, hhost⟩ := hfacts
  have hreached : Reached plainUrls (v.setSslVerify false) := .set (.parsed hv) (.setSslVerify false)
  have hmark : '?' ∉ plainUrls.hostText (v.setSslVerify false).host := by
    show '?' ∉ plainUrls.hostText v.host
    rw [hhost]
    decide
  have hprintable := printable_of_roundTrips plainUrls_documented (kept_of_reached hreached) hmark
    (hall plainUrls plainUrls_documented _ hreached)
  have hurl := (DnsUrl.printable_iff_url (v := v.setSslVerify false) (congrArg ProtocolConfig.toProtocol hproto)).mp
    hprintable
  have hempty := (hurl.path (congrArg ProtocolConfig.path hproto)).1
  have hget : (v.setSslVerify false).params.get? "ssl_verify".toList = some "false".toList :=
    KeyMap.get?_insert_of_beq _ BEq.rfl _
  rw [(isEmpty_iff _).mp hempty] at hget
  cases hget

end Upstream
end SmartDns
