/-
# DNS over HTTPS

`process` of `serve_dns.rs`: a request to `/dns-query` asks in one of three ways. A GET has a wire
message in `dns` (base64url), or a name and a type in parameters of its own; a POST has a wire message
for a body. The message goes to the resolver with the client that a trusted proxy names, and the reply
is a wire message or JSON, as the `Accept` header says.

A GET with `dns` gets its own message for a reply and nothing is asked. Without `dns`, an `Accept` header
that takes wire messages makes the body of a GET the question. In all other requests what is asked is
what the client sent (`handed_eq_iff`).

The `base64` crate and the `idna` crate are parameters, and the query is given by its decoded pairs.

Key definitions: `acceptsDnsMessage`, `decodeDnsParam`, `question`, `process`, `wanted`, `Asked`.
Key theorems: `decodeDnsParam_encode`, `handed_eq_iff`, `asks_iff`.
-/
import SmartDns.Api.TrustedProxy
import SmartDns.Dns.NameParse
import SmartDns.Dns.Serial
import SmartDns.Lib.Base64

namespace SmartDns

namespace Dns
namespace RecordType

/-- The texts of `from_str`, in upper case. -/
def texts : List (String × RecordType) :=
  [("A", A), ("AAAA", AAAA), ("ANAME", ANAME), ("AXFR", AXFR), ("CAA", CAA), ("CDNSKEY", CDNSKEY), ("CERT", CERT),
    ("CDS", CDS), ("CNAME", CNAME), ("CSYNC", CSYNC), ("DNSKEY", DNSKEY), ("DS", DS), ("HINFO", HINFO),
    ("HTTPS", HTTPS), ("KEY", KEY), ("MX", MX), ("NAPTR", NAPTR), ("NSEC", NSEC), ("NSEC3", NSEC3),
    ("NSEC3PARAM", NSEC3PARAM), ("NS", NS), ("NULL", NULL), ("OPENPGPKEY", OPENPGPKEY), ("PTR", PTR),
    ("RRSIG", RRSIG), ("SIG", SIG), ("SOA", SOA), ("SRV", SRV), ("SSHFP", SSHFP), ("SVCB", SVCB), ("TLSA", TLSA),
    ("TXT", TXT), ("TSIG", TSIG), ("ANY", ANY), ("*", ANY)]

/-- `RecordType::from_str`. -/
def fromStr (str : List Char) : Option RecordType :=
  (texts.find? fun t => t.1.toList == str.map Char.toUpper).map (·.2)

end RecordType
end Dns

namespace Api

open Dns Lib

/-! ### The parameters of a GET -/

structure QueryParam where
  name : Option (List Char)
  queryType : List Char
  dnssec : Bool
  checkingDisabled : Bool
  dns : Option (List Char)

namespace QueryParam

def defaultQueryType : List Char := ['A']

/-- A parameter may be given once. -/
def field (pairs : List (List Char × List Char)) (key : String) : Option (Option (List Char)) :=
  match pairs.filter fun p => p.1 == key.toList with
  | [] => some none
  | [p] => some (some p.2)
  | _ => none

/-- `de_bool_flexible`. -/
def deBoolFlexible (raw : Option (List Char)) : Option Bool :=
  match raw.map trim with
  | none | some [] => some false
  | some v =>
    let v := String.ofList (v.map Char.toLower)
    if ["1", "true", "yes", "on"].contains v then some true
    else if ["0", "false", "no", "off"].contains v then some false
    else none

/-- The parameters, if the extractor takes them. -/
def fromQuery (pairs : List (List Char × List Char)) : Option QueryParam := do
  let name ← field pairs "name"
  let queryType ← field pairs "type"
  let dnssec ← deBoolFlexible (← field pairs "do")
  let checkingDisabled ← deBoolFlexible (← field pairs "cd")
  let dns ← field pairs "dns"
  return { name, queryType := queryType.getD defaultQueryType, dnssec, checkingDisabled, dns }

end QueryParam

/-! ### The header and the wire parameter -/

/-- A media range of the list is that of DNS messages or takes everything. -/
def acceptsDnsMessage (accept : List Char) : Bool :=
  (accept.splitOn ',').any fun part =>
    let media := (trim ((part.splitOn ';').headD [])).map Char.toLower
    media == "application/dns-message".toList || media == "*/*".toList

def MAX_DNS_MESSAGE : ℕ := 65536

/-- `str::len`. -/
def utf8Len (s : List Char) : ℕ := s.foldr (fun c n => c.utf8Size + n) 0

def trimEndMatches (c : Char) (s : List Char) : List Char := (s.reverse.dropWhile (· == c)).reverse

/-- The parameter as it is decoded: what has become a space was a plus sign. -/
def normalized (encoded : List Char) : List Char := (trim encoded).map fun c => if c = ' ' then '+' else c

def dnsTooLarge (estimated : ℕ) : List Char :=
  "the `dns` parameter is too large: about ".toList ++ IpAddr.decimal estimated ++
    " bytes after decoding, the limit is ".toList ++ IpAddr.decimal MAX_DNS_MESSAGE ++ " bytes".toList

def invalidDns (err : List Char) : List Char :=
  "invalid `dns` parameter: it must be base64url-encoded DNS wire data (".toList ++ err ++ ")".toList

def dnsDecodesTo (length : ℕ) : List Char :=
  "the `dns` parameter decodes to ".toList ++ IpAddr.decimal length ++ " bytes; the limit is ".toList ++
    IpAddr.decimal MAX_DNS_MESSAGE ++ " bytes".toList

/-- `decode_dns_param`; `decodeConfig` is `decode_config` with `URL_SAFE_NO_PAD`. -/
def decodeDnsParam (decodeConfig : List Char → Except (List Char) (List UInt8)) (encoded : List Char) :
    Except (List Char) (List UInt8) :=
  let text := normalized encoded
  let estimated := utf8Len text / 4 * 3
  if MAX_DNS_MESSAGE < estimated then .error (dnsTooLarge estimated)
  else
    match decodeConfig (trimEndMatches '=' text) with
    | .error err => .error (invalidDns err)
    | .ok decoded =>
      if MAX_DNS_MESSAGE < decoded.length then .error (dnsDecodesTo decoded.length) else .ok decoded

/-! ### Processing -/

structure Request where
  addr : SocketAddr
  /-- The header, if it is text. -/
  accept : Option (List Char) := none
  xForwardedFor : Option (List Char) := none
  body : List UInt8 := []

/-- A call of `serve_dns_get`, with the pairs of the query, or of `serve_dns`. -/
inductive Call
  | get (query : List (List Char × List Char)) (req : Request)
  | post (req : Request)

inductive Reply
  | dnsMessage (message : SerialMessage)
  | json (message : OpMessage) (clientCd : Bool)

/-- The message handed to the resolver, and the reply. -/
structure Exchange where
  handed : Option SerialMessage := none
  reply : Except ApiError Reply

/-- `finish`. -/
def finish (resMsg : SerialMessage) (acceptsDnsMessage clientCd : Bool) : Except ApiError Reply :=
  if acceptsDnsMessage then .ok (.dnsMessage resMsg)
  else
    match resMsg with
    | .raw message _ _ _ => .ok (.json message clientCd)
    | .bytes _ _ _ _ => .error .internal

def clientCd : SerialMessage → Bool
  | .raw message _ _ _ => message.header.checkingDisabled
  | .bytes bytes _ _ _ => bytes[3]?.any fun b => b &&& 0x10 != 0

/-- The client that a trusted proxy names, if it is not the peer. -/
def forwardedAddr (trusted : TrustedProxies) (req : Request) : Option SocketAddr :=
  let groupingIp := (resolveClientIp req.addr.ip req.xForwardedFor trusted).1
  if groupingIp ≠ req.addr.ip then some ⟨groupingIp, req.addr.port⟩ else none

def attach (forwarded : Option SocketAddr) (message : SerialMessage) : SerialMessage :=
  forwarded.elim message message.withGroupingAddr

def missingName : List Char :=
  "missing `name` parameter (this endpoint needs either `name`, or the RFC 8484 form `?dns=<base64url>`)".toList

def invalidName (name : List Char) : List Char := "invalid `name` parameter: ".toList ++ name

def invalidType (queryType : List Char) : List Char := "invalid `type` parameter: ".toList ++ queryType

section

variable (toAscii : List Char → Option (List Char)) (drawn : UInt16)

/-- The message of the parameters; `drawn` is the id of a new message. -/
def question (p : QueryParam) : Except ApiError OpMessage := do
  let text ← p.name.elim (.error (.badRequest missingName)) .ok
  let name ← (Name.fromStr toAscii text).elim (.error (.badRequest (invalidName text))) .ok
  let queryType ← (RecordType.fromStr p.queryType).elim (.error (.badRequest (invalidType p.queryType))) .ok
  let message := ((OpMessage.query drawn).addQuery { name, queryType, queryClass := .IN }).setCheckingDisabled
    p.checkingDisabled
  return if p.dnssec then message.setEdns { dnssecOk := true } else message

/-- `to_bytes` with the limit. -/
def readBody (req : Request) : Except ApiError (List UInt8) :=
  if req.body.length ≤ MAX_DNS_MESSAGE then .ok req.body else .error .internal

/-- The message of a request without `dns`. -/
def requestMessage (accepts : Bool) (query : Option QueryParam) (req : Request) : Except ApiError SerialMessage :=
  match query, accepts with
  | some p, false => (question toAscii drawn p).map fun message => .raw message req.addr .https
  | _, _ => (readBody req).map fun bytes => .binary bytes req.addr .https

variable (decodeConfig : List Char → Except (List Char) (List UInt8)) (trusted : TrustedProxies)
  (send : SerialMessage → SerialMessage)

def process (req : Request) (query : Option QueryParam) : Exchange :=
  let forwarded := forwardedAddr trusted req
  let accepts := acceptsDnsMessage (req.accept.getD [])
  match query.bind (·.dns) with
  | some encoded =>
    match decodeDnsParam decodeConfig encoded with
    | .error err => { reply := .error (.badRequest err) }
    | .ok raw => { reply := finish (attach forwarded (.binary raw req.addr .https)) true false }
  | none =>
    match requestMessage toAscii drawn accepts query req with
    | .error err => { reply := .error err }
    | .ok message =>
      let reqMsg := attach forwarded message
      { handed := some reqMsg, reply := finish (send reqMsg) accepts (clientCd reqMsg) }

/-- The two handlers; a query that the extractor does not take is not processed. -/
def serve : Call → Option Exchange
  | .get query req =>
    (QueryParam.fromQuery query).map fun p => process toAscii drawn decodeConfig trusted send req (some p)
  | .post req => some (process toAscii drawn decodeConfig trusted send req none)

/-- What the resolver is asked. -/
def handed (call : Call) : Option SerialMessage :=
  (serve toAscii drawn decodeConfig trusted send call).bind (·.handed)

/-! ### The question of the client -/

/-- The name and the type, if both are valid. -/
def nameAndType (p : QueryParam) : Option (Name × RecordType) := do
  let name ← p.name.bind (Name.fromStr toAscii)
  let queryType ← RecordType.fromStr p.queryType
  return (name, queryType)

/-- The question for a name and a type, with the bits as they are given. -/
def asksFor (p : QueryParam) (x : Name × RecordType) : OpMessage where
  header := { id := drawn, checkingDisabled := p.checkingDisabled }
  queries := [{ name := x.1, queryType := x.2, queryClass := .IN }]
  edns := if p.dnssec then some { dnssecOk := true } else none

/-- The message of a GET: that of `dns`, else the question of its parameters. -/
def sent (p : QueryParam) (req : Request) : Option SerialMessage :=
  match p.dns with
  | some encoded => (decodeDnsParam decodeConfig encoded).toOption.map fun raw => .binary raw req.addr .https
  | none => (nameAndType toAscii p).map fun x => .raw (asksFor drawn p x) req.addr .https

/-- The question that the client sent, with the client that a proxy names: nothing, where the request is
refused for its parameters or for a body that is longer than a message. -/
def wanted : Call → Option SerialMessage
  | .get query req =>
    ((QueryParam.fromQuery query).bind fun p => sent toAscii drawn decodeConfig p req).map
      (attach (forwardedAddr trusted req))
  | .post req =>
    ((readBody req).toOption.map fun bytes => SerialMessage.binary bytes req.addr .https).map
      (attach (forwardedAddr trusted req))

/-- The requests that are asked as the client sent them. -/
inductive Asked : Call → Prop
  | post (req : Request) : Asked (.post req)
  | rejected {query : List (List Char × List Char)} {req : Request} (h : QueryParam.fromQuery query = none) :
    Asked (.get query req)
  | invalidDns {query : List (List Char × List Char)} {req : Request} {p : QueryParam} {encoded err : List Char}
    (h : QueryParam.fromQuery query = some p) (hdns : p.dns = some encoded)
    (herr : decodeDnsParam decodeConfig encoded = .error err) : Asked (.get query req)
  | json {query : List (List Char × List Char)} {req : Request} {p : QueryParam}
    (h : QueryParam.fromQuery query = some p) (hdns : p.dns = none)
    (haccept : acceptsDnsMessage (req.accept.getD []) = false) : Asked (.get query req)
  /-- The body is refused, and the parameters would be. -/
  | neither {query : List (List Char × List Char)} {req : Request} {p : QueryParam}
    (h : QueryParam.fromQuery query = some p) (hdns : p.dns = none) (hinvalid : nameAndType toAscii p = none)
    (hbody : MAX_DNS_MESSAGE < req.body.length) : Asked (.get query req)

end

/-! ### Decoding -/

/-- What the texts of wire messages are made of. -/
structure Plain (s : List Char) : Prop where
  graphic : ∀ c ∈ s, isWhitespace c = false
  ascii : utf8Len s = s.length

theorem Plain.normalized {s : List Char} (h : Plain s) : normalized s = s := by
  unfold Api.normalized
  rw [trim_of_graphic h.graphic]
  refine (List.map_congr_left fun c hc => ?_).trans (List.map_id s)
  have hne : c ≠ ' ' := by
    rintro rfl
    exact absurd (h.graphic _ hc) (by decide)
  exact if_neg hne

theorem utf8Len_append (s t : List Char) : utf8Len (s ++ t) = utf8Len s + utf8Len t := by
  induction s with
  | nil => exact (Nat.zero_add _).symm
  | cons c s ih =>
    show c.utf8Size + utf8Len (s ++ t) = c.utf8Size + utf8Len s + utf8Len t
    rw [ih, Nat.add_assoc]

theorem utf8Len_of_ascii {s : List Char} (h : ∀ c ∈ s, c.utf8Size = 1) : utf8Len s = s.length := by
  induction s with
  | nil => rfl
  | cons c s ih =>
    have hs := ih fun d hd => h d (List.mem_cons_of_mem _ hd)
    show c.utf8Size + utf8Len s = s.length + 1
    rw [h c List.mem_cons_self, hs, Nat.add_comm]

theorem Plain.append {s t : List Char} (hs : Plain s) (ht : Plain t) : Plain (s ++ t) where
  graphic c hc := (List.mem_append.mp hc).elim (hs.graphic c) (ht.graphic c)
  ascii := by rw [utf8Len_append, hs.ascii, ht.ascii, List.length_append]

/-- The characters of base64url. -/
theorem plain_encode (m : List UInt8) : Plain (Base64.encode m) ∧ '=' ∉ Base64.encode m := by
  have hchar : ∀ n < 64, isWhitespace (Base64.sextetChar n) = false ∧ (Base64.sextetChar n).utf8Size = 1 ∧
      Base64.sextetChar n ≠ '=' := by decide +kernel
  refine ⟨⟨fun c hc => ?_, utf8Len_of_ascii fun c hc => ?_⟩, fun hc => ?_⟩
  · obtain ⟨n, hn, rfl⟩ := Base64.mem_encode hc
    exact (hchar n hn).1
  · obtain ⟨n, hn, rfl⟩ := Base64.mem_encode hc
    exact (hchar n hn).2.1
  · obtain ⟨n, hn, heq⟩ := Base64.mem_encode hc
    exact (hchar n hn).2.2 heq.symm

theorem plain_padding (k : ℕ) : Plain (List.replicate k '=') where
  graphic c hc := by
    rw [List.eq_of_mem_replicate hc]
    decide
  ascii := utf8Len_of_ascii fun c hc => by
    rw [List.eq_of_mem_replicate hc]
    decide

theorem trimEndMatches_padding {s : List Char} {c : Char} (h : c ∉ s) (k : ℕ) :
    trimEndMatches c (s ++ List.replicate k c) = s := by
  unfold trimEndMatches
  rw [List.reverse_append, List.reverse_replicate, List.dropWhile_append_of_pos fun d hd => by
    rw [List.eq_of_mem_replicate hd]
    exact beq_self_eq_true c]
  cases hrev : s.reverse with
  | nil => simpa using hrev.symm
  | cons d t =>
    have hd : d ∈ s := List.mem_reverse.mp (hrev ▸ List.mem_cons_self)
    have hne : ¬ (d == c) = true := fun heq => h (beq_iff_eq.mp heq ▸ hd)
    have hdrop : (d :: t).dropWhile (fun x => x == c) = d :: t := List.dropWhile_cons_of_neg hne
    rw [hdrop, ← hrev, List.reverse_reverse]

section

variable {decodeConfig : List Char → Except (List Char) (List UInt8)}
  (hdecode : ∀ m, decodeConfig (Base64.encode m) = .ok m)
include hdecode

/-- **A wire message is decoded from its base64url text**, with as much padding as fits. -/
theorem decodeDnsParam_padding {m : List UInt8} {k : ℕ} (hm : m.length ≤ 65535)
    (hk : (Base64.encode m).length + k ≤ 4 * ((m.length + 2) / 3)) :
    decodeDnsParam decodeConfig (Base64.encode m ++ List.replicate k '=') = .ok m := by
  obtain ⟨hplain, hpad⟩ := plain_encode m
  have htext := hplain.append (plain_padding k)
  have hlen : utf8Len (Base64.encode m ++ List.replicate k '=') = (Base64.encode m).length + k := by
    rw [htext.ascii, List.length_append, List.length_replicate]
  unfold decodeDnsParam
  dsimp only
  rw [htext.normalized, hlen, trimEndMatches_padding hpad, hdecode, if_neg (by unfold MAX_DNS_MESSAGE; omega)]
  exact if_neg (by unfold MAX_DNS_MESSAGE; omega)

theorem decodeDnsParam_encode {m : List UInt8} (hm : m.length ≤ 65535) :
    decodeDnsParam decodeConfig (Base64.encode m) = .ok m ∧
      decodeDnsParam decodeConfig (Base64.encodePadded m) = .ok m := by
  have hlen := Base64.length_encode m
  constructor
  · have := decodeDnsParam_padding hdecode hm (k := 0) (by omega)
    rwa [List.replicate_zero, List.append_nil] at this
  · exact decodeDnsParam_padding hdecode hm (Nat.le_of_eq hlen)

end

/-! ### Asking -/

section

variable (toAscii : List Char → Option (List Char)) (drawn : UInt16)
  (decodeConfig : List Char → Except (List Char) (List UInt8)) (trusted : TrustedProxies)
  (send : SerialMessage → SerialMessage)

/-- **The message of the parameters is the question for their name and type**, if these are valid. -/
theorem toOption_question (p : QueryParam) :
    (question toAscii drawn p).toOption = (nameAndType toAscii p).map (asksFor drawn p) := by
  unfold question nameAndType
  cases p.name with
  | none => rfl
  | some text =>
    show (Except.bind ((Name.fromStr toAscii text).elim _ _) _).toOption =
      Option.map _ ((Name.fromStr toAscii text).bind _)
    cases Name.fromStr toAscii text with
    | none => rfl
    | some name =>
      show (Except.bind ((RecordType.fromStr p.queryType).elim _ _) _).toOption =
        Option.map _ ((RecordType.fromStr p.queryType).bind _)
      cases RecordType.fromStr p.queryType with
      | none => rfl
      | some queryType =>
        show some _ = some _
        unfold asksFor
        by_cases hdnssec : p.dnssec = true
        · rw [if_pos hdnssec, if_pos hdnssec]
          rfl
        · rw [if_neg hdnssec, if_neg hdnssec]
          rfl

theorem handed_process_dns {req : Request} {p : QueryParam} {encoded : List Char} (hdns : p.dns = some encoded) :
    (process toAscii drawn decodeConfig trusted send req (some p)).handed = none := by
  unfold process
  rw [Option.bind_some, hdns]
  cases hdecode : decodeDnsParam decodeConfig encoded with
  | error err => simp only [hdecode]
  | ok raw => simp only [hdecode]

/-- Without `dns`, the message of the request is handed on. -/
theorem handed_process {req : Request} {query : Option QueryParam} (hdns : query.bind (·.dns) = none) :
    (process toAscii drawn decodeConfig trusted send req query).handed =
      (requestMessage toAscii drawn (acceptsDnsMessage (req.accept.getD [])) query req).toOption.map
        (attach (forwardedAddr trusted req)) := by
  unfold process
  rw [hdns]
  cases hmsg : requestMessage toAscii drawn (acceptsDnsMessage (req.accept.getD [])) query req with
  | error err =>
    simp only [hmsg]
    rfl
  | ok message =>
    simp only [hmsg]
    rfl

theorem handed_get {query : List (List Char × List Char)} {req : Request} {p : QueryParam}
    (h : QueryParam.fromQuery query = some p) : handed toAscii drawn decodeConfig trusted send (.get query req) =
      (process toAscii drawn decodeConfig trusted send req (some p)).handed := by
  show ((QueryParam.fromQuery query).map _).bind _ = _
  rw [h]
  rfl

theorem wanted_get {query : List (List Char × List Char)} {req : Request} {p : QueryParam}
    (h : QueryParam.fromQuery query = some p) : wanted toAscii drawn decodeConfig trusted (.get query req) =
      (sent toAscii drawn decodeConfig p req).map (attach (forwardedAddr trusted req)) := by
  show ((QueryParam.fromQuery query).bind _).map _ = _
  rw [h]
  rfl

theorem handed_post (req : Request) : handed toAscii drawn decodeConfig trusted send (.post req) =
    wanted toAscii drawn decodeConfig trusted (.post req) := by
  show (process toAscii drawn decodeConfig trusted send req none).handed = Option.map _ (Option.map _ _)
  rw [handed_process _ _ _ _ _ rfl]
  show ((readBody req).map fun bytes => SerialMessage.binary bytes req.addr .https).toOption.map _ = _
  cases readBody req <;> rfl

/-- A GET with a message in `dns` asks what it says only if that cannot be decoded. -/
theorem handed_dns_iff {query : List (List Char × List Char)} {req : Request} {p : QueryParam} {encoded : List Char}
    (h : QueryParam.fromQuery query = some p) (hdns : p.dns = some encoded) :
    handed toAscii drawn decodeConfig trusted send (.get query req) =
        wanted toAscii drawn decodeConfig trusted (.get query req) ↔
      ∃ err, decodeDnsParam decodeConfig encoded = .error err := by
  rw [handed_get _ _ _ _ _ h, wanted_get _ _ _ _ h, handed_process_dns _ _ _ _ _ hdns]
  unfold sent
  rw [hdns]
  cases hdecode : decodeDnsParam decodeConfig encoded with
  | error err =>
    simp only [hdecode]
    exact ⟨fun _ => ⟨err, rfl⟩, fun _ => rfl⟩
  | ok raw =>
    simp only [hdecode]
    constructor
    · intro heq
      cases heq
    · rintro ⟨err, herr⟩
      cases herr

theorem attach_bytes_ne_raw (forwarded : Option SocketAddr) (bytes : List UInt8) (message : OpMessage)
    (addr : SocketAddr) (protocol : Protocol) :
    attach forwarded (.binary bytes addr protocol) ≠ attach forwarded (.raw message addr protocol) := by
  cases forwarded <;> exact fun h => nomatch h

/-- A GET without `dns` asks for its parameters if its `Accept` header takes no wire messages, and asks for
its body otherwise. -/
theorem handed_params_iff {query : List (List Char × List Char)} {req : Request} {p : QueryParam}
    (h : QueryParam.fromQuery query = some p) (hdns : p.dns = none) :
    handed toAscii drawn decodeConfig trusted send (.get query req) =
        wanted toAscii drawn decodeConfig trusted (.get query req) ↔
      acceptsDnsMessage (req.accept.getD []) = false ∨
        nameAndType toAscii p = none ∧ MAX_DNS_MESSAGE < req.body.length := by
  rw [handed_get _ _ _ _ _ h, wanted_get _ _ _ _ h, handed_process _ _ _ _ _ (by rw [Option.bind_some, hdns])]
  unfold sent
  rw [hdns]
  cases haccept : acceptsDnsMessage (req.accept.getD []) with
  | false =>
    let raw (message : OpMessage) : SerialMessage := .raw message req.addr .https
    have hquestion : ((question toAscii drawn p).map raw).toOption =
        (nameAndType toAscii p).map fun x => raw (asksFor drawn p x) := by
      calc ((question toAscii drawn p).map raw).toOption
          = (question toAscii drawn p).toOption.map raw := by cases question toAscii drawn p <;> rfl
        _ = _ := by rw [toOption_question, Option.map_map]; rfl
    exact iff_of_true (congrArg (Option.map (attach (forwardedAddr trusted req))) hquestion) (.inl rfl)
  | true =>
    show ((readBody req).map fun bytes => SerialMessage.binary bytes req.addr .https).toOption.map _ = _ ↔ _
    unfold readBody
    by_cases hbody : req.body.length ≤ MAX_DNS_MESSAGE
    · rw [if_pos hbody]
      refine iff_of_false ?_ ?_
      · cases nameAndType toAscii p with
        | none => exact fun heq => nomatch heq
        | some x => exact fun heq => attach_bytes_ne_raw _ _ _ _ _ (Option.some.inj heq)
      · rintro (hfalse | ⟨-, hlong⟩)
        · cases hfalse
        · omega
    · rw [if_neg hbody]
      cases nameAndType toAscii p with
      | none => exact iff_of_true rfl (.inr ⟨rfl, Nat.lt_of_not_le hbody⟩)
      | some x =>
        refine iff_of_false (fun heq => nomatch heq) ?_
        rintro (hfalse | ⟨hnone, -⟩)
        · cases hfalse
        · cases hnone

/-- **What is asked is what the client sent, in exactly these requests.** -/
theorem handed_eq_iff (call : Call) : handed toAscii drawn decodeConfig trusted send call =
    wanted toAscii drawn decodeConfig trusted call ↔ Asked toAscii decodeConfig call := by
  cases call with
  | post req => exact iff_of_true (handed_post _ _ _ _ _ req) (.post req)
  | get query req =>
    cases hquery : QueryParam.fromQuery query with
    | none =>
      refine iff_of_true ?_ (.rejected hquery)
      show ((QueryParam.fromQuery query).map _).bind _ = ((QueryParam.fromQuery query).bind _).map _
      rw [hquery]
      rfl
    | some p =>
      cases hdns : p.dns with
      | some encoded =>
        rw [handed_dns_iff _ _ _ _ _ hquery hdns]
        constructor
        · rintro ⟨err, herr⟩
          exact .invalidDns hquery hdns herr
        · intro h
          cases h with
          | rejected hnone => exact absurd (hnone.symm.trans hquery) (by simp)
          | invalidDns hsome hdns' herr =>
            obtain rfl := Option.some.inj (hsome.symm.trans hquery)
            obtain rfl := Option.some.inj (hdns'.symm.trans hdns)
            exact ⟨_, herr⟩
          | json hsome hnone =>
            obtain rfl := Option.some.inj (hsome.symm.trans hquery)
            exact absurd (hnone.symm.trans hdns) (by simp)
          | neither hsome hnone =>
            obtain rfl := Option.some.inj (hsome.symm.trans hquery)
            exact absurd (hnone.symm.trans hdns) (by simp)
      | none =>
        rw [handed_params_iff _ _ _ _ _ hquery hdns]
        constructor
        · rintro (haccept | ⟨hinvalid, hbody⟩)
          · exact .json hquery hdns haccept
          · exact .neither hquery hdns hinvalid hbody
        · intro h
          cases h with
          | rejected hnone => exact absurd (hnone.symm.trans hquery) (by simp)
          | invalidDns hsome hdns' _ =>
            obtain rfl := Option.some.inj (hsome.symm.trans hquery)
            exact absurd (hdns'.symm.trans hdns) (by simp)
          | json _ _ haccept => exact .inl haccept
          | neither hsome _ hinvalid hbody =>
            obtain rfl := Option.some.inj (hsome.symm.trans hquery)
            exact .inr ⟨hinvalid, hbody⟩

end

/-- **A request to `/dns-query` asks the question the client sent** in exactly these requests, and a wire
message is decoded from its base64url text with padding and without. -/
theorem asks_iff (decodeConfig : List Char → Except (List Char) (List UInt8))
    (hdecode : ∀ m, decodeConfig (Base64.encode m) = .ok m) (toAscii : List Char → Option (List Char))
    (drawn : UInt16) (trusted : TrustedProxies) (send : SerialMessage → SerialMessage) :
    (∀ m : List UInt8, m.length ≤ 65535 → decodeDnsParam decodeConfig (Base64.encode m) = .ok m ∧
      decodeDnsParam decodeConfig (Base64.encodePadded m) = .ok m) ∧
    ∀ call : Call, handed toAscii drawn decodeConfig trusted send call =
      wanted toAscii drawn decodeConfig trusted call ↔ Asked toAscii decodeConfig call :=
  ⟨fun _ hm => decodeDnsParam_encode hdecode hm, handed_eq_iff toAscii drawn decodeConfig trusted send⟩

/-- The decoder of base64url. -/
def urlSafeNoPad (text : List Char) : Except (List Char) (List UInt8) :=
  (Base64.decode text).elim (.error "Invalid byte".toList) .ok

theorem urlSafeNoPad_encode (m : List UInt8) : urlSafeNoPad (Base64.encode m) = .ok m := by
  unfold urlSafeNoPad
  rw [Base64.decode_encode]
  rfl

/-- `GET /dns-query?name=example.com`. -/
def nameCall (accept : String) : Call :=
  .get [("name".toList, "example.com".toList)] { addr := ⟨.v4 0xc0a80102#32, 4000⟩, accept := some accept.toList }

/-- `GET /dns-query?dns=...`. -/
def dnsCall (m : List UInt8) : Call :=
  .get [("dns".toList, Base64.encode m)] { addr := ⟨.v4 0xc0a80102#32, 4000⟩ }

theorem fromQuery_name : QueryParam.fromQuery [("name".toList, "example.com".toList)] =
    some ⟨some "example.com".toList, ['A'], false, false, none⟩ := by
  rfl

theorem fromQuery_dns (text : List Char) : QueryParam.fromQuery [("dns".toList, text)] =
    some ⟨none, ['A'], false, false, some text⟩ := by
  rfl

/-- JSON is asked for. -/
theorem asks_json : decodeDnsParam urlSafeNoPad (Base64.encodePadded [0xab, 0xcd]) = .ok [0xab, 0xcd] ∧
    handed some 0 urlSafeNoPad [] id (nameCall "application/json") =
      wanted some 0 urlSafeNoPad [] (nameCall "application/json") := by
  have h := asks_iff urlSafeNoPad urlSafeNoPad_encode some 0 [] id
  refine ⟨(h.1 [0xab, 0xcd] (by decide)).2, (h.2 _).mpr (.json fromQuery_name rfl ?_)⟩
  decide +kernel

/-- With `*/*` for an `Accept` header a name is not asked for, and what stands in `dns` is asked by nobody. -/
theorem not_asks :
    handed some 0 urlSafeNoPad [] id (nameCall "*/*") ≠ wanted some 0 urlSafeNoPad [] (nameCall "*/*") ∧
      handed some 0 urlSafeNoPad [] id (dnsCall [0xab, 0xcd]) ≠
        wanted some 0 urlSafeNoPad [] (dnsCall [0xab, 0xcd]) := by
  constructor
  · intro heq
    have htakes : acceptsDnsMessage "*/*".toList = true := by decide +kernel
    rcases (handed_params_iff _ _ _ _ _ fromQuery_name rfl).mp heq with hfalse | ⟨-, hlong⟩
    · exact absurd (htakes.symm.trans hfalse) (by decide)
    · exact absurd hlong (by decide)
  · intro heq
    obtain ⟨err, herr⟩ := (handed_dns_iff _ _ _ _ _ (fromQuery_dns _) rfl).mp heq
    have hdecoded := (decodeDnsParam_encode urlSafeNoPad_encode (m := [0xab, 0xcd]) (by decide)).1
    rw [hdecoded] at herr
    cases herr

end Api
end SmartDns
