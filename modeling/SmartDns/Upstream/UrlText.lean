/-
# The text of a DNS URL

What `Display` writes is parsed again: the scheme, the host, the port, the path, the parameters and the
options are the parts of the URL that it makes (`UrlCrate.Documented.rebuilt`), so the value that is
parsed is the one that was written, if the host is one the URL parser gives for the scheme, no parameter
is an empty key with an empty value, and the path is `/` only where nothing stands behind it
(`roundTrips_of_printable`). The words `system` and `dhcp` have to be the host and have no parameters.

Where these conditions fail another value is parsed (`printable_of_roundTrips`), unless the host has a
question mark in it.

Key definitions: `UrlCrate.Documented`, `DnsUrl.Same`, `DnsUrl.RoundTrips`, `DnsUrl.Printable`.
Key theorems: `get?_shownParams`, `roundTrips_of_printable`, `printable_of_roundTrips`.
-/
import SmartDns.Dns.NameRead
import SmartDns.Lib.Text
import SmartDns.Upstream.DnsUrl

namespace SmartDns
namespace Upstream

open Dns Lib Rule
open Api (trim)

/-- The characters of form-urlencoded text. -/
def formChar (c : Char) : Bool := Form.encodedChar c || c == '&' || c == '='

namespace UrlCrate

variable (crate : UrlCrate)

/-- The schemes whose URLs are written. -/
def schemes : List (List Char) := "dhcp".toList :: Protocol.all.map Protocol.scheme

/-- A path that is written: none, the default, or one that came with a URL. -/
def WritesPath (scheme path : List Char) : Prop :=
  path = [] ∨ path = DEFAULT_DNS_QUERY_PATH ∨ crate.GivesPath scheme path

/-- What the code relies on of the `url` crate, which implements the URL standard. -/
structure Documented : Prop where
  domainText : ∀ d, crate.hostText (.domain d) = d
  ipv4Text : ∀ bits, crate.hostText (.ipv4 bits) = IpAddr.v4Text bits
  hostChars : ∀ {scheme host}, crate.GivesHost scheme host → ∀ c ∈ crate.hostText host, isWhitespace c = false
  domainChars : ∀ {scheme d}, crate.GivesHost scheme (.domain d) → ':' ∉ d
  pathChars : ∀ {scheme path}, crate.GivesPath scheme path → ∀ c ∈ path, isWhitespace c = false ∧ c ≠ '?' ∧ c ≠ '#'
  formChars : ∀ ps, ∀ c ∈ crate.formText ps, formChar c = true
  formNil : crate.formParse [] = []
  /-- The serializer writes what the parser reads. -/
  form : ∀ ps, crate.formParse (crate.formText ps) = ps.filterMap Form.kept
  /-- A URL made of parts that were parsed has these parts; the port of `https` is not its default. -/
  rebuilt : ∀ {scheme host port path query fragment}, scheme ∈ schemes → crate.GivesHost scheme host →
    crate.WritesPath scheme path → (scheme = "https".toList → port ≠ some 443) →
    (∀ q ∈ query, ∀ c ∈ q, formChar c = true) → (∀ f ∈ fragment, ∀ c ∈ f, formChar c = true) →
    ∃ url, crate.parse (urlText scheme (crate.hostText host) port path query fragment) = .ok url ∧
      url.scheme = scheme ∧ url.host = some host ∧ url.port = port ∧ (path ≠ [] → url.path = path) ∧
      url.query = query ∧ url.fragment = fragment
  /-- The query begins at the first question mark in front of the fragment. -/
  queryNone : ∀ {s url}, crate.parse s = .ok url → '?' ∉ s.takeWhile (· != '#') → url.query = none
  querySome : ∀ {front q back url}, crate.parse (front ++ '?' :: (q ++ back)) = .ok url → '?' ∉ front → '#' ∉ front →
    (∀ c ∈ q, formChar c = true) → (∀ c, back.head? = some c → c = '#') → url.query = some q

end UrlCrate

theorem formChar_spec {c : Char} (h : formChar c = true) : isWhitespace c = false ∧ c ≠ '/' ∧ c ≠ '?' ∧ c ≠ '#' := by
  have hlt : c.toNat < 128 := by
    simp only [formChar, Form.encodedChar, Bool.or_eq_true, List.contains_eq_mem, decide_eq_true_eq, beq_iff_eq] at h
    rcases h with ((h | h) | rfl) | rfl
    · exact toNat_lt_of_isAlphanum h
    · have hall : ∀ c ∈ ['*', '-', '.', '_', '+', '%'], c.toNat < 128 := by simp
      exact hall c h
    · decide
    · decide
  have hall : ∀ n < 128, formChar (Char.ofNat n) = true → isWhitespace (Char.ofNat n) = false ∧
      Char.ofNat n ≠ '/' ∧ Char.ofNat n ≠ '?' ∧ Char.ofNat n ≠ '#' := by decide +kernel
  have hc := hall c.toNat hlt
  rw [Char.ofNat_toNat] at hc
  exact hc h

theorem formChar_of_alphanum {c : Char} (h : c.isAlphanum = true) : formChar c = true := by
  simp [formChar, Form.encodedChar, h]

theorem isAlphanum_of_isDigit {c : Char} (h : c.isDigit = true) : c.isAlphanum = true :=
  Bool.or_eq_true_iff.mpr (.inr h)

/-! ### Hosts -/

section

variable {crate : UrlCrate}

theorem colon_of_ipFromStr {d : List Char} {bits : BitVec 128} (h : ipFromStr d = some (.v6 bits)) : ':' ∈ d := by
  obtain ⟨v, w, rfl, -⟩ := ((ipFromStr_eq_some_iff d _).mp h).colon
  exact List.mem_append_right _ List.mem_cons_self

/-- A host that is read as an address is still written as it stood. -/
theorem hostText_read (hdoc : crate.Documented) {scheme : List Char} {host : Host} (h : crate.GivesHost scheme host) :
    crate.hostText host.read = crate.hostText host := by
  cases host with
  | ipv4 bits => rfl
  | ipv6 bits => rfl
  | domain d =>
    show crate.hostText ((ipFromStr d).elim (.domain d) Host.ofIp) = _
    cases hip : ipFromStr d with
    | none => rfl
    | some ip =>
      cases ip with
      | v4 bits =>
        calc crate.hostText (.ipv4 bits) = IpAddr.v4Text bits := hdoc.ipv4Text bits
          _ = d := v4Text_of_ipFromStr hip
          _ = crate.hostText (.domain d) := (hdoc.domainText d).symm
      | v6 bits => exact absurd (colon_of_ipFromStr hip) (hdoc.domainChars h)

/-! ### Parameters -/

/-- An entry is written unless it is empty altogether. -/
def isWritten (e : List Char × List Char) : Bool := !(e.1.isEmpty && e.2.isEmpty)

theorem kept_piece : Form.kept ∘ piece = Option.guard isWritten := by
  funext e
  obtain ⟨k, v⟩ := e
  unfold Form.kept piece Option.guard isWritten
  cases k <;> cases v <;> simp

/-- **What is read of written parameters is the parameters, without an empty key that has no value.** -/
theorem get?_paramsText (hdoc : crate.Documented) (params : Params) (k v : List Char) :
    (crate.params (crate.paramsText params)).get? k = some v ↔ params.get? k = some v ∧ ¬ (k = [] ∧ v = []) := by
  have hmem : ∀ e, params.get? e.1 = some e.2 ↔ e ∈ params.entries := by
    intro e
    rw [KeyMap.get?_eq_some_iff]
    constructor
    · rintro ⟨k', hk, he⟩
      rwa [eq_of_beq hk] at he
    · exact fun he => ⟨e.1, BEq.rfl, he⟩
  by_cases hempty : params.isEmpty = true
  · have hnil : params.entries = [] := List.isEmpty_iff.mp hempty
    have hget : params.get? k = none := by
      unfold KeyMap.get?
      rw [hnil]
      rfl
    have hparams : crate.params (crate.paramsText params) = KeyMap.empty := by
      unfold UrlCrate.params UrlCrate.paramsText
      rw [if_pos hempty, hdoc.formNil]
      rfl
    rw [hparams, hget]
    simp
  · generalize hes : params.entries.insertionSort (fun e e' => keyLe e.1 e'.1 = true) = es
    have hperm : es.Perm params.entries := hes ▸ List.perm_insertionSort _ _
    have hparams : crate.params (crate.paramsText params) =
        KeyMap.ofInserts (es.filter isWritten) := by
      unfold UrlCrate.params UrlCrate.paramsText
      rw [if_neg hempty, hes, hdoc.form, List.filterMap_map, kept_piece, List.filterMap_eq_filter]
    have hnodup : ((es.filter isWritten).map (·.1)).Nodup :=
      ((hperm.map _).nodup_iff.mpr params.nodup_keys).sublist (List.filter_sublist.map _)
    rw [hparams, KeyMap.get?_ofInserts_eq_some_iff hnodup, List.mem_filter, hperm.mem_iff, ← hmem]
    refine and_congr_right fun _ => ?_
    simp only [isWritten, Bool.not_eq_true', Bool.and_eq_false_iff, List.isEmpty_eq_false_iff, not_and_or]

theorem getD_shownParams (params : Params) : (shownParams crate params).getD [] = crate.paramsText params := by
  unfold shownParams UrlCrate.paramsText
  split <;> rfl

theorem get?_paramsText_of_ne (hdoc : crate.Documented) (params : Params) {k : List Char} (hk : k ≠ []) :
    (crate.params (crate.paramsText params)).get? k = params.get? k := by
  refine Option.ext fun v => (get?_paramsText hdoc params k v).trans ?_
  simp [hk]

theorem get?_paramsText_of_written (hdoc : crate.Documented) {params : Params} (h : params.get? [] ≠ some [])
    (k : List Char) : (crate.params (crate.paramsText params)).get? k = params.get? k := by
  refine Option.ext fun v => (get?_paramsText hdoc params k v).trans ?_
  constructor
  · exact And.left
  · rintro hv
    refine ⟨hv, ?_⟩
    rintro ⟨rfl, rfl⟩
    exact h hv

/-- The options an HTTP URL looks at are read as they are written. -/
theorem protocolConfig_paramsText (hdoc : crate.Documented) (proto : Protocol) (path : Option (List Char))
    (options : Params) :
    protocolConfig proto path (crate.params (crate.paramsText options)) = protocolConfig proto path options := by
  have hcontains : ∀ {k : List Char}, k ≠ [] →
      (crate.params (crate.paramsText options)).contains k = options.contains k := fun hk =>
    congrArg Option.isSome (get?_paramsText_of_ne hdoc options hk)
  have hprefer : httpsPrefer (crate.params (crate.paramsText options)) = httpsPrefer options := by
    unfold httpsPrefer
    rw [hcontains (by decide), hcontains (by decide)]
  cases proto with
  | https => exact congrArg (ProtocolConfig.https _) hprefer
  | h3 => exact congrArg (ProtocolConfig.h3 _) (hcontains (by decide))
  | _ => rfl

theorem formChar_of_shown (hdoc : crate.Documented) (params : Params) :
    ∀ q ∈ shownParams crate params, ∀ c ∈ q, formChar c = true := by
  intro q hq
  unfold shownParams at hq
  split at hq
  · cases hq
  · rename_i hempty
    obtain rfl := Option.some.inj hq
    unfold UrlCrate.paramsText
    rw [if_neg hempty]
    exact hdoc.formChars _

/-! ### The parts of the text -/

/-- What stands behind the path. -/
def urlTail (query fragment : Option (List Char)) : List Char :=
  query.elim [] ('?' :: ·) ++ fragment.elim [] ('#' :: ·)

/-- What stands in front of it. -/
def urlFront (scheme host : List Char) (port : Option UInt16) (path : List Char) : List Char :=
  scheme ++ ("://".toList ++ (host ++ (port.elim [] (fun p => ':' :: IpAddr.decimal p.toNat) ++ path)))

theorem urlText_eq (scheme host : List Char) (port : Option UInt16) (path : List Char)
    (query fragment : Option (List Char)) :
    urlText scheme host port path query fragment = urlFront scheme host port path ++ urlTail query fragment := by
  simp only [urlText, urlFront, urlTail, List.append_assoc]

/-- The characters that are written by themselves. -/
theorem mem_urlFront {scheme host : List Char} {port : Option UInt16} {path : List Char} {c : Char}
    (h : c ∈ urlFront scheme host port path) :
    c ∈ scheme ∨ c ∈ host ∨ c ∈ path ∨ c ∈ "://".toList ∨ c.isDigit = true := by
  rcases List.mem_append.mp h with h | h
  · exact .inl h
  · rcases List.mem_append.mp h with h | h
    · exact .inr (.inr (.inr (.inl h)))
    · rcases List.mem_append.mp h with h | h
      · exact .inr (.inl h)
      · rcases List.mem_append.mp h with h | h
        · cases port with
          | none => cases h
          | some p =>
            rcases List.mem_cons.mp h with rfl | h
            · exact .inr (.inr (.inr (.inl List.mem_cons_self)))
            · obtain ⟨d, hd, rfl⟩ := mem_toDigits (by decide) _ h
              exact .inr (.inr (.inr (.inr (isDigit_digitChar hd))))
        · exact .inr (.inr (.inl h))

theorem digit_spec {c : Char} (h : c.isDigit = true) : isWhitespace c = false ∧ c ≠ '?' ∧ c ≠ '#' := by
  have hform : formChar c = true := formChar_of_alphanum (isAlphanum_of_isDigit h)
  obtain ⟨hspace, -, hmark, hhash⟩ := formChar_spec hform
  exact ⟨hspace, hmark, hhash⟩

theorem scheme_spec (proto : Protocol) : ∀ c ∈ proto.scheme, isWhitespace c = false ∧ c ≠ '?' ∧ c ≠ '#' := by
  have hall : (proto.scheme.all fun c => decide (isWhitespace c = false ∧ c ≠ '?' ∧ c ≠ '#')) = true := by
    cases proto <;> decide
  exact fun c hc => of_decide_eq_true (List.all_eq_true.mp hall c hc)

theorem mem_urlTail {query fragment : Option (List Char)} (hquery : ∀ q ∈ query, ∀ c ∈ q, formChar c = true)
    (hfragment : ∀ f ∈ fragment, ∀ c ∈ f, formChar c = true) {c : Char} (h : c ∈ urlTail query fragment) :
    isWhitespace c = false ∧ c ≠ '/' := by
  have hpart : ∀ (part : Option (List Char)) (m : Char), (∀ q ∈ part, ∀ c ∈ q, formChar c = true) →
      isWhitespace m = false ∧ m ≠ '/' → c ∈ part.elim [] (m :: ·) → isWhitespace c = false ∧ c ≠ '/' := by
    intro part m hform hm hc
    cases part with
    | none => cases hc
    | some q =>
      rcases List.mem_cons.mp hc with rfl | hc
      · exact hm
      · obtain ⟨hspace, hslash, -⟩ := formChar_spec (hform q rfl c hc)
        exact ⟨hspace, hslash⟩
  rcases List.mem_append.mp h with h | h
  · exact hpart query '?' hquery (by decide) h
  · exact hpart fragment '#' hfragment (by decide) h

theorem endsWithSlash_root (scheme host : List Char) (port : Option UInt16) :
    endsWithSlash (urlFront scheme host port ['/'] ++ urlTail none none) = true := by
  have htext : urlFront scheme host port ['/'] ++ urlTail none none =
      (scheme ++ ("://".toList ++ (host ++ port.elim [] fun p => ':' :: IpAddr.decimal p.toNat))) ++ ['/'] := by
    simp only [urlFront, urlTail, Option.elim_none, List.append_assoc, List.append_nil]
  unfold endsWithSlash
  rw [htext, List.getLast?_concat]
  rfl

/-- Behind parameters or options there is no slash. -/
theorem endsWithSlash_urlTail {query fragment : Option (List Char)} (hquery : ∀ q ∈ query, ∀ c ∈ q, formChar c = true)
    (hfragment : ∀ f ∈ fragment, ∀ c ∈ f, formChar c = true) (hne : urlTail query fragment ≠ []) (front : List Char) :
    endsWithSlash (front ++ urlTail query fragment) = false := by
  obtain ⟨c, hc⟩ := Option.isSome_iff_exists.mp (List.getLast?_isSome.mpr hne)
  have hslash := (mem_urlTail hquery hfragment (List.mem_of_getLast? hc)).2
  unfold endsWithSlash
  rw [List.getLast?_append_of_ne_nil _ hne, hc]
  simpa using hslash

end

/-! ### Reading back -/

namespace DnsUrl

/-- The values agree in all that is compared: the protocol with its path and preferences, the host, the
port, the pinned address and the parameters. -/
structure Same (w v : DnsUrl) : Prop where
  proto : w.proto = v.proto
  host : w.host = v.host
  port : w.getPort = v.getPort
  ip : w.ip = v.ip
  params : ∀ k, w.params.get? k = v.params.get? k

theorem Same.of {w v : DnsUrl} (proto : w.proto = v.proto) (host : w.host = v.host) (port : w.getPort = v.getPort)
    (params : ∀ k, w.params.get? k = v.params.get? k) : Same w v where
  proto := proto
  host := host
  port := port
  ip := by rw [DnsUrl.ip, DnsUrl.ip, host, params]
  params := params

variable (crate : UrlCrate) (v : DnsUrl)

/-- The text that is written is parsed to the value. -/
def RoundTrips : Prop := ∃ w, fromStr crate (v.text crate) = .ok w ∧ Same w v

/-- The URL parser gives the host for the scheme. -/
def HasUrlHost : Prop := ∃ host : Host, crate.GivesHost v.proto.toStr host ∧ host.read = v.host

/-- What `Display` can write of a URL: a host of the scheme, no empty key that has no value, and the path `/` only
where it ends the text. -/
structure PrintableUrl : Prop where
  host : v.HasUrlHost crate
  key : v.params.get? [] ≠ some []
  path : v.proto.path = some ['/'] → v.params.isEmpty = true ∧ v.options.isEmpty = true

/-- What it can write of `system` and `dhcp`: the word for the host, and no parameters. -/
structure PrintableWord : Prop where
  host : v.host = .domain v.proto.toStr
  params : v.params.isEmpty = true

def Printable : Prop := if v.proto.toProtocol.isSome then v.PrintableUrl crate else v.PrintableWord

section

variable {crate : UrlCrate} {v : DnsUrl} {proto : Protocol}

theorem printable_iff_url (h : v.proto.toProtocol = some proto) : v.Printable crate ↔ v.PrintableUrl crate := by
  unfold Printable
  rw [h, if_pos (show (some proto).isSome = true from rfl)]

theorem printable_iff_word (h : v.proto.toProtocol = none) : v.Printable crate ↔ v.PrintableWord := by
  unfold Printable
  rw [h, if_neg (by decide)]

/-- Setting a parameter leaves a value printable, unless its path is `/`. -/
theorem PrintableUrl.setParam (h : v.PrintableUrl crate) (hpath : v.proto.path ≠ some ['/']) {name : String}
    (hname : name ≠ "") (value : List Char) : (v.setParam name value).PrintableUrl crate where
  host := h.host
  key := by
    have hne : ¬ (name.toList == []) = true := fun heq => hname (String.toList_eq_nil_iff.mp (eq_of_beq heq))
    show (v.params.insert _ _).get? [] ≠ _
    rw [KeyMap.get?_insert_of_not_beq _ hne]
    exact h.key
  path hroot := absurd hroot hpath

/-- So does a host that the URL parser gives as it stands. -/
theorem PrintableUrl.setHost (h : v.PrintableUrl crate) (hpath : v.proto.path ≠ some ['/']) {d : List Char}
    (hd : crate.GivesHost v.proto.toStr (.domain d)) (hread : ipFromStr d = none) :
    (v.setHost d).PrintableUrl crate := by
  have hpin : v.pinHost.PrintableUrl crate := by
    unfold pinHost
    cases v.host.ip with
    | none => exact h
    | some ip => exact h.setParam hpath (by decide) _
  have hproto : (v.setHost d).proto = v.proto := v.pinHost_proto
  refine ⟨⟨.domain d, hproto.symm ▸ hd, ?_⟩, hpin.key, fun hroot => absurd (hproto ▸ hroot) hpath⟩
  show (ipFromStr d).elim (.domain d) Host.ofIp = .domain d
  rw [hread]
  rfl

end

end DnsUrl

section

variable {crate : UrlCrate} {v : DnsUrl} {proto : Protocol}

variable (crate) in
theorem text_of_toProtocol (h : v.proto.toProtocol = some proto) :
    v.text crate = urlText proto.scheme (crate.hostText v.host) v.shownPort (v.proto.path.getD [])
      (shownParams crate v.params) (shownParams crate v.options) := by
  rw [← ProtocolConfig.toStr_of_toProtocol h]
  obtain ⟨name, config, host, port, params, options⟩ := v
  cases config <;> first | rfl | cases h

theorem getD_shownPort (v : DnsUrl) : v.shownPort.getD v.proto.defaultPort = v.getPort := by
  unfold DnsUrl.shownPort DnsUrl.getPort
  cases v.port with
  | none => rfl
  | some p =>
    by_cases hp : p = v.proto.defaultPort
    · simp [Option.filter, hp]
    · simp [Option.filter, hp]

theorem shownPort_https (h : v.proto.toProtocol = some proto) (hscheme : proto.scheme = "https".toList) :
    v.shownPort ≠ some 443 := by
  have hproto : proto = .https := by
    cases proto <;> first | rfl | exact absurd hscheme (by decide)
  have hdefault : v.proto.defaultPort = 443 := by
    unfold ProtocolConfig.defaultPort
    rw [h, hproto]
    rfl
  intro hport
  have hne := (Option.filter_eq_some_iff.mp hport).2
  rw [hdefault] at hne
  exact absurd hne (by decide)

theorem path_protocolConfig (proto : Protocol) (path : Option (List Char)) (options : Params) {q : List Char}
    (h : (protocolConfig proto path options).path = some q) : path.getD DEFAULT_DNS_QUERY_PATH = q := by
  cases proto with
  | https => exact Option.some.inj h
  | h3 => exact Option.some.inj h
  | _ => cases h

theorem protocolConfig_congr {path path' : Option (List Char)} {options : Params}
    (h : ∀ q, (protocolConfig proto path options).path = some q → path'.getD DEFAULT_DNS_QUERY_PATH = q) :
    protocolConfig proto path' options = protocolConfig proto path options := by
  cases proto with
  | https => exact congrArg (ProtocolConfig.https · _) (h _ rfl)
  | h3 => exact congrArg (ProtocolConfig.h3 · _) (h _ rfl)
  | _ => rfl

theorem DnsUrl.Kept.path (hv : v.Kept crate) (h : v.proto.toProtocol = some proto) {q : List Char}
    (hq : v.proto.path = some q) : q ≠ [] ∧ crate.WritesPath proto.scheme q := by
  obtain ⟨path, hproto, hgiven⟩ := hv.proto proto h
  rw [hproto] at hq
  have hpath := path_protocolConfig proto path v.options hq
  cases path with
  | none =>
    rw [← hpath]
    exact ⟨by decide, .inr (.inl rfl)⟩
  | some p =>
    obtain ⟨hne, hgives⟩ := hgiven p rfl
    obtain rfl : p = q := hpath
    exact ⟨hne, .inr (.inr hgives)⟩

theorem DnsUrl.Kept.writesPath (hv : v.Kept crate) (h : v.proto.toProtocol = some proto) :
    crate.WritesPath proto.scheme (v.proto.path.getD []) := by
  cases hq : v.proto.path with
  | none => exact .inl rfl
  | some q => exact (hv.path h hq).2

theorem mem_schemes (proto : Protocol) : proto.scheme ∈ UrlCrate.schemes := by
  cases proto <;> decide

/-- Nothing of a written path is white space or begins a query or a fragment. -/
theorem writesPath_spec (hdoc : crate.Documented) {scheme path : List Char} (h : crate.WritesPath scheme path) :
    ∀ c ∈ path, isWhitespace c = false ∧ c ≠ '?' ∧ c ≠ '#' := by
  rcases h with rfl | rfl | h
  · exact fun c hc => absurd hc List.not_mem_nil
  · have hall : (DEFAULT_DNS_QUERY_PATH.all fun c => decide (isWhitespace c = false ∧ c ≠ '?' ∧ c ≠ '#')) = true := by
      decide
    exact fun c hc => of_decide_eq_true (List.all_eq_true.mp hall c hc)
  · exact hdoc.pathChars h

/-- With a host of the scheme the text is parsed as it stands, into the parts that were written. -/
theorem exists_url_of_host (hdoc : crate.Documented) (hv : v.Kept crate) (h : v.proto.toProtocol = some proto)
    {host : Host} (hgives : crate.GivesHost proto.scheme host) (hread : host.read = v.host) :
    ∃ url, url.path = v.proto.path.getD url.path ∧
      fromStr crate (v.text crate) = .ok (ofParts crate proto v.host (endsWithSlash (v.text crate)) url) ∧
      url.port = v.shownPort ∧ url.query = shownParams crate v.params ∧
      url.fragment = shownParams crate v.options := by
  have hhost : crate.hostText v.host = crate.hostText host := by rw [← hread, hostText_read hdoc hgives]
  obtain ⟨url, hparse, hscheme, hurlHost, hport, hpath, hquery, hfragment⟩ := hdoc.rebuilt (mem_schemes proto) hgives
    (hv.writesPath h) (shownPort_https h) (formChar_of_shown hdoc v.params) (formChar_of_shown hdoc v.options)
  have htext := text_of_toProtocol crate h
  rw [hhost] at htext
  have htrim : trim (v.text crate) = v.text crate := by
    refine Api.trim_of_graphic fun c hc => ?_
    rw [htext, urlText_eq] at hc
    rcases List.mem_append.mp hc with hc | hc
    · rcases mem_urlFront hc with hc | hc | hc | hc | hc
      · exact (scheme_spec proto c hc).1
      · exact hdoc.hostChars hgives c hc
      · exact (writesPath_spec hdoc (hv.writesPath h) c hc).1
      · have hall : ("://".toList.all fun c => !isWhitespace c) = true := by decide
        simpa using List.all_eq_true.mp hall c hc
      · exact (digit_spec hc).1
    · exact (mem_urlTail (formChar_of_shown hdoc v.params) (formChar_of_shown hdoc v.options) hc).1
  refine ⟨url, ?_, ?_, hport, hquery, hfragment⟩
  · cases hq : v.proto.path with
    | none => rfl
    | some q =>
      rw [hq] at hpath
      exact hpath (hv.path h hq).1
  · rw [htext] at htrim ⊢
    unfold urlText at htrim hparse ⊢
    rw [fromStr_of_marked htrim hparse, fromUrl_of_proto hscheme hurlHost, hread]

/-- Words are read back. -/
theorem fromStr_system : fromStr crate "system".toList =
    .ok { name := "system".toList, proto := .system, host := .domain "system".toList } := by
  have htrim : trim "system".toList = "system".toList := by decide
  have hlower : "system".toList.map Char.toLower = "system".toList := by decide
  unfold fromStr
  dsimp only
  rw [htrim, hlower]
  exact if_pos rfl

theorem fromStr_dhcp : fromStr crate "dhcp".toList =
    .ok { name := "dhcp".toList, proto := .dhcp none, host := .domain "dhcp".toList } := by
  have htrim : trim "dhcp".toList = "dhcp".toList := by decide
  have hlower : "dhcp".toList.map Char.toLower = "dhcp".toList := by decide
  have hne : "dhcp".toList ≠ "system".toList := by decide
  unfold fromStr
  dsimp only
  rw [htrim, hlower, if_neg hne]
  exact if_pos rfl

theorem fromStr_interface (hdoc : crate.Documented) {host : Host} (h : crate.GivesHost "dhcp".toList host) :
    fromStr crate ("dhcp".toList ++ ("://".toList ++ crate.hostText host.read)) = .ok
      { name := "dhcp".toList
        proto := .dhcp (some (crate.hostText host.read))
        host := .domain "dhcp".toList } := by
  have hother : "dhcp".toList = "https".toList → (none : Option UInt16) ≠ some 443 := fun _ => nofun
  obtain ⟨url, hparse, hscheme, hhost, -⟩ := @UrlCrate.Documented.rebuilt crate hdoc "dhcp".toList host none [] none
    none List.mem_cons_self h (.inl rfl) hother (fun _ h => by cases h) (fun _ h => by cases h)
  have htext : urlText "dhcp".toList (crate.hostText host) none [] none none =
      "dhcp".toList ++ ("://".toList ++ crate.hostText host.read) := by
    rw [hostText_read hdoc h]
    simp [urlText]
  rw [htext] at hparse
  have htrim : trim ("dhcp".toList ++ ("://".toList ++ crate.hostText host.read)) =
      "dhcp".toList ++ ("://".toList ++ crate.hostText host.read) := by
    have hall : (("dhcp".toList ++ "://".toList).all fun c => !isWhitespace c) = true := by decide
    refine Api.trim_of_graphic fun c hc => ?_
    rw [← List.append_assoc] at hc
    rcases List.mem_append.mp hc with hc | hc
    · simpa using List.all_eq_true.mp hall c hc
    · rw [hostText_read hdoc h] at hc
      exact hdoc.hostChars h c hc
  rw [fromStr_of_marked htrim hparse]
  unfold fromUrl
  rw [hscheme, hhost]
  exact if_pos rfl

theorem isEmpty_iff (params : Params) : params.isEmpty = true ↔ ∀ k, params.get? k = none := by
  constructor
  · intro h k
    unfold KeyMap.get?
    rw [List.isEmpty_iff.mp h]
    rfl
  · intro h
    rw [KeyMap.eq_empty_of_get? h]
    rfl

/-- **What can be written is read back.** -/
theorem roundTrips_of_printable (hdoc : crate.Documented) (hv : v.Kept crate) (h : v.Printable crate) :
    v.RoundTrips crate := by
  cases hproto : v.proto.toProtocol with
  | none =>
    replace h := (DnsUrl.printable_iff_word hproto).mp h
    have hparams := (isEmpty_iff _).mp h.params
    have hport := hv.noPort hproto
    have hinterface := hv.interface
    have hhost := h.host
    obtain ⟨name, config, host, port, params, options⟩ := v
    obtain rfl : port = none := hport
    cases config with
    | system => exact ⟨_, fromStr_system, .of rfl hhost.symm rfl fun k => (hparams k).symm⟩
    | dhcp interface =>
      cases interface with
      | none => exact ⟨_, fromStr_dhcp, .of rfl hhost.symm rfl fun k => (hparams k).symm⟩
      | some i =>
        obtain ⟨g, hgives, rfl⟩ := hinterface i rfl
        exact ⟨_, fromStr_interface hdoc hgives, .of rfl hhost.symm rfl fun k => (hparams k).symm⟩
    | _ => cases hproto
  | some proto =>
    replace h := (DnsUrl.printable_iff_url hproto).mp h
    obtain ⟨host, hgives, hread⟩ := h.host
    rw [ProtocolConfig.toStr_of_toProtocol hproto] at hgives
    obtain ⟨url, hpath, hfrom, hport, hquery, hfragment⟩ := exists_url_of_host hdoc hv hproto hgives hread
    obtain ⟨path, hconfig, -⟩ := hv.proto proto hproto
    have hwritten := get?_paramsText_of_written hdoc h.key
    have hhost : (crate.params (url.query.getD [])).get? "host".toList = none := by
      rw [hquery, getD_shownParams, hwritten]
      exact hv.noHost
    obtain ⟨hsame, hparams⟩ := @ofParts_of_none crate proto v.host (endsWithSlash (v.text crate)) url hhost
    have hprotocol : (ofParts crate proto v.host (endsWithSlash (v.text crate)) url).proto = v.proto := by
      rw [ofParts_proto, hfragment, getD_shownParams, protocolConfig_paramsText hdoc, hconfig]
      refine protocolConfig_congr fun q hq => ?_
      rw [← hconfig] at hq
      have hslash : ¬ (q = [] ∨ (q = ['/'] ∧ endsWithSlash (v.text crate) = false)) := by
        rintro (hnil | ⟨hroot, hslash⟩)
        · exact (hv.path hproto hq).1 hnil
        · obtain ⟨hnoParams, hnoOptions⟩ := h.path (hroot ▸ hq)
          rw [text_of_toProtocol crate hproto, hq, hroot, urlText_eq, shownParams, shownParams, if_pos hnoParams,
            if_pos hnoOptions, Option.getD_some, endsWithSlash_root] at hslash
          cases hslash
      rw [hq] at hpath
      have hurl : url.path = q := hpath
      unfold urlPath
      rw [hurl, if_neg hslash]
      rfl
    refine ⟨_, hfrom, .of hprotocol hsame ?_ fun k => ?_⟩
    · rw [DnsUrl.getPort, hprotocol, ofParts_port, hport, getD_shownPort]
    · rw [hparams, hquery, getD_shownParams, hwritten]

/-! ### What cannot be written -/

theorem mem_of_mem_trim {s : List Char} {c : Char} (h : c ∈ trim s) : c ∈ s := by
  have hstart := List.mem_reverse.mp ((List.dropWhile_sublist _).subset (List.mem_reverse.mp h))
  exact (List.dropWhile_sublist _).subset hstart

theorem mem_of_mem_withScheme {s : List Char} {c : Char} (h : c ∈ withScheme s) : c ∈ "udp://".toList ∨ c ∈ s := by
  unfold withScheme at h
  split at h
  · exact .inr h
  · exact List.mem_append.mp h

/-- A URL that is parsed from the text has the written parameters or none, so `host` is not among them. -/
theorem noHost_of_parse (hdoc : crate.Documented) (hv : v.Kept crate) (h : v.proto.toProtocol = some proto)
    (hmark : '?' ∉ crate.hostText v.host) {url : Url}
    (hparse : crate.parse (withScheme (trim (v.text crate))) = .ok url) :
    (crate.params (url.query.getD [])).get? "host".toList = none := by
  have hnone : url.query = none → (crate.params (url.query.getD [])).get? "host".toList = none := by
    intro hquery
    unfold UrlCrate.params
    rw [hquery, Option.getD_none, hdoc.formNil]
    rfl
  have htext := text_of_toProtocol crate h
  rw [urlText_eq] at htext
  generalize hfront : urlFront proto.scheme (crate.hostText v.host) v.shownPort (v.proto.path.getD []) = front
    at htext
  have hfrontMark : '?' ∉ front := by
    intro hc
    rw [← hfront] at hc
    rcases mem_urlFront hc with hc | hc | hc | hc | hc
    · exact (scheme_spec proto _ hc).2.1 rfl
    · exact hmark hc
    · exact (writesPath_spec hdoc (hv.writesPath h) _ hc).2.1 rfl
    · exact absurd hc (by decide)
    · exact (digit_spec hc).2.1 rfl
  by_cases htail : urlTail (shownParams crate v.params) (shownParams crate v.options) = []
  · rw [htail, List.append_nil] at htext
    refine hnone (hdoc.queryNone hparse fun hc => ?_)
    rcases mem_of_mem_withScheme ((List.takeWhile_sublist _).subset hc) with hc | hc
    · exact absurd hc (by decide)
    · exact hfrontMark (htext ▸ mem_of_mem_trim hc)
  · have htrim : trim (v.text crate) = v.text crate := by
      refine Api.trim_of_ends (fun c hc => ?_) fun c hc => ?_
      · have hscheme : proto.scheme ≠ [] := by cases proto <;> decide
        have hhead : c ∈ proto.scheme := by
          rw [htext, ← hfront, urlFront, List.append_assoc, List.head?_append_of_ne_nil _ hscheme] at hc
          exact List.mem_of_head? hc
        exact (scheme_spec proto c hhead).1
      · rw [htext, List.getLast?_append_of_ne_nil _ htail] at hc
        exact (mem_urlTail (formChar_of_shown hdoc v.params) (formChar_of_shown hdoc v.options)
          (List.mem_of_getLast? hc)).1
    have hscheme : withScheme (v.text crate) = v.text crate := by
      have hmarked : marked (v.text crate) = true := by
        rw [htext, ← hfront, urlFront, List.append_assoc, List.append_assoc]
        exact marked_append _ _
      exact if_pos hmarked
    rw [htrim, hscheme, htext] at hparse
    by_cases hhash : '#' ∈ front
    · refine hnone (hdoc.queryNone hparse fun hc => ?_)
      rw [(Parse.takeWhile_append_of_mem (by decide) hhash _).1] at hc
      exact hfrontMark ((List.takeWhile_sublist _).subset hc)
    · cases hquery : shownParams crate v.params with
      | none =>
        rw [hquery] at hparse
        refine hnone (hdoc.queryNone hparse fun hc => ?_)
        have hall : ∀ c ∈ front, (c != '#') = true := by
          intro c hc
          simpa using fun heq : c = '#' => hhash (heq ▸ hc)
        rw [List.takeWhile_append_of_pos hall] at hc
        rcases List.mem_append.mp hc with hc | hc
        · exact hfrontMark hc
        · cases hfragment : shownParams crate v.options with
          | none =>
            rw [hfragment] at hc
            cases hc
          | some f =>
            rw [hfragment] at hc
            cases hc
      | some q =>
        rw [hquery] at hparse
        have hback : ∀ c, ((shownParams crate v.options).elim [] ('#' :: ·)).head? = some c → c = '#' := by
          intro c hc
          cases hfragment : shownParams crate v.options with
          | none =>
            rw [hfragment] at hc
            cases hc
          | some f =>
            rw [hfragment] at hc
            exact (Option.some.inj hc).symm
        have hq := hdoc.querySome hparse hfrontMark hhash (formChar_of_shown hdoc v.params q hquery) hback
        rw [hq, ← hquery, getD_shownParams, get?_paramsText_of_ne hdoc _ (by decide)]
        exact hv.noHost

/-- **What is read back could be written.** -/
theorem printable_of_roundTrips (hdoc : crate.Documented) (hv : v.Kept crate) (hmark : '?' ∉ crate.hostText v.host)
    (h : v.RoundTrips crate) : v.Printable crate := by
  obtain ⟨w, hw, hsame⟩ := h
  cases hproto : v.proto.toProtocol with
  | none =>
    apply (DnsUrl.printable_iff_word hproto).mpr
    have hnone : w.proto.toProtocol = none := by rw [hsame.proto, hproto]
    have hword : w.host = .domain w.proto.toStr ∧ w.params = KeyMap.empty := by
      rcases fromStr_eq_ok hw with rfl | rfl | ⟨url, -, hurl⟩
      · exact ⟨rfl, rfl⟩
      · exact ⟨rfl, rfl⟩
      · rcases fromUrl_eq_ok hurl with ⟨hdhcp, rfl⟩ | ⟨p, host, -, -, rfl⟩
        · exact ⟨congrArg Host.domain hdhcp, rfl⟩
        · rw [toProtocol_ofParts] at hnone
          cases hnone
    refine ⟨by rw [← hsame.host, ← hsame.proto, hword.1], (isEmpty_iff _).mpr fun k => ?_⟩
    rw [← hsame.params, hword.2]
    rfl
  | some proto =>
    apply (DnsUrl.printable_iff_url hproto).mpr
    have hsome : w.proto.toProtocol = some proto := by rw [hsame.proto, hproto]
    obtain ⟨url, hparse, hurl⟩ : ∃ url, crate.parse (withScheme (trim (v.text crate))) = .ok url ∧
        fromUrl crate (endsWithSlash (withScheme (trim (v.text crate)))) url = .ok w := by
      rcases fromStr_eq_ok hw with rfl | rfl | h
      · cases hsome
      · cases hsome
      · exact h
    obtain ⟨p, g, hscheme, hhost, hparts⟩ : ∃ p : Protocol, ∃ g, url.scheme = p.scheme ∧ url.host = some g ∧
        w = ofParts crate p g.read (endsWithSlash (withScheme (trim (v.text crate)))) url := by
      rcases fromUrl_eq_ok hurl with ⟨-, rfl⟩ | h
      · cases hsome
      · exact h
    obtain rfl : p = proto := by
      rw [hparts, toProtocol_ofParts] at hsome
      exact Option.some.inj hsome
    have hread : g.read = v.host := by
      rw [← hsame.host, hparts, (ofParts_of_none (noHost_of_parse hdoc hv hproto hmark hparse)).1]
    have hgives : crate.GivesHost p.scheme g := ⟨_, url, hparse, hscheme, hhost⟩
    obtain ⟨url', -, hfrom, -, hquery, -⟩ := exists_url_of_host hdoc hv hproto hgives hread
    obtain rfl : w = _ := Except.ok.inj (hw.symm.trans hfrom)
    have hwritten : ∀ k, (crate.params (crate.paramsText v.params)).get? k = v.params.get? k := by
      have hnoHost : (crate.params (url'.query.getD [])).get? "host".toList = none := by
        rw [hquery, getD_shownParams, get?_paramsText_of_ne hdoc _ (by decide)]
        exact hv.noHost
      intro k
      rw [← hsame.params, (ofParts_of_none hnoHost).2, hquery, getD_shownParams]
    refine ⟨⟨g, (ProtocolConfig.toStr_of_toProtocol hproto).symm ▸ hgives, hread⟩, fun hkey => ?_, fun hroot => ?_⟩
    · have := (get?_paramsText hdoc v.params [] []).mp ((hwritten []).trans hkey)
      exact this.2 ⟨rfl, rfl⟩
    · rw [← hsame.proto, ofParts_proto] at hroot
      have hpath := path_protocolConfig _ _ _ hroot
      have hslash : endsWithSlash (v.text crate) = true := by
        by_contra hslash
        rw [Bool.not_eq_true] at hslash
        rw [hslash] at hpath
        unfold urlPath at hpath
        by_cases hnone : url'.path = [] ∨ (url'.path = ['/'] ∧ false = false)
        · rw [if_pos hnone] at hpath
          exact absurd hpath (by decide)
        · rw [if_neg hnone] at hpath
          exact hnone (.inr ⟨hpath, rfl⟩)
      by_cases htail : urlTail (shownParams crate v.params) (shownParams crate v.options) = []
      · have hempty : ∀ (params : Params) (c : Char), (shownParams crate params).elim [] (c :: ·) = [] →
            params.isEmpty = true := by
          intro params c helim
          by_contra hne
          rw [shownParams, if_neg hne] at helim
          cases helim
        exact ⟨hempty _ _ (List.append_eq_nil_iff.mp htail).1, hempty _ _ (List.append_eq_nil_iff.mp htail).2⟩
      · rw [text_of_toProtocol crate hproto, urlText_eq, endsWithSlash_urlTail (formChar_of_shown hdoc v.params)
          (formChar_of_shown hdoc v.options) htail] at hslash
        cases hslash

end

end Upstream
end SmartDns
