/-
# Messages that are handed on

What can be read can be written again, and then reads the same: every part of a message that was read is well
formed and comes back as it is (`yields_readMessage`). So a message that is handed on, read off one buffer and
written to another, reaches the next reader as it was, unless there is no room for it (`handed_on`).

The formats that are a parameter are held to the same (`MoreData.Accepts`).

Key definitions: `MoreData.Accepts`, `RData.Settled`.
Key theorems: `yields_readMessage`, `handed_on`.
-/
import SmartDns.Wire.Message

namespace SmartDns

open Dns Lib

namespace Wire

/-! ### Names, classes and questions -/

theorem yields_readName : Yields readName fun name => name.encodedSize ≤ 255 ∧ name.setFqdn true = name where
  yields {d i name j} h := by
    obtain ⟨hfqdn, -, hlen⟩ := readInner_eq_ok_iff.mp h
    refine ⟨hlen, ?_⟩
    obtain ⟨isFqdn, labels⟩ := name
    exact congrArg (fun b => Name.mk b labels) (Eq.symm hfqdn)

theorem plain_classOf (value : UInt16) : Plain (classOf value).1 := by
  have hlow := Nat.and_two_pow_sub_one_eq_mod value.toNat 15
  unfold classOf
  split_ifs with hflag
  · refine ⟨DNSClass.canonical_ofCode _, ?_⟩
    rw [DNSClass.toCode_ofCode, UInt16.toNat_and]
    show value.toNat &&& 2 ^ 15 - 1 < 32768
    rw [hlow]
    exact Nat.mod_lt _ (by decide)
  · refine ⟨DNSClass.canonical_ofCode _, ?_⟩
    rw [DNSClass.toCode_ofCode]
    by_contra hge
    have hlt := value.toNat_lt
    have hbit : 32768 ||| value.toNat = value.toNat := by
      rw [Edns.or_bit hlt]
      omega
    apply hflag
    rw [gt_iff_lt, UInt16.lt_iff_toNat_lt, UInt16.toNat_and]
    show 0 < value.toNat &&& 32768
    calc 0 < 32768 ||| (value.toNat &&& 32768) := Nat.lt_of_lt_of_le (by decide) Nat.left_le_or
      _ = (32768 ||| value.toNat) &&& 32768 := by rw [Nat.and_or_distrib_right, Nat.and_self]
      _ = value.toNat &&& 32768 := by rw [hbit]

theorem yields_readClass : Yields readClass fun p => Plain p.1 := .next fun value => .pure (plain_classOf value)

theorem yields_readQuery : Yields Query.read fun q => Query.WellFormed q ∧ Query.received q = q := by
  refine yields_readName.bind fun name hname => .next fun code => yields_readClass.bind fun p hp => .pure ⟨?_, ?_⟩
  · exact ⟨hname.1, RecordType.canonical_ofCode code, hp⟩
  · exact congrArg (fun name => Query.mk name _ _ _) hname.2

/-! ### Client subnets and options -/

namespace Subnet

theorem octets_v4Of {bytes : List UInt8} (h : bytes.length = 4) : octets (v4Of bytes) = bytes := by
  have hlt : ofBe bytes < 2 ^ 32 := by
    have := ofBe_lt bytes
    rw [h] at this
    exact this
  show toBe 4 (BitVec.ofNat 32 (ofBe bytes)).toNat = bytes
  rw [BitVec.toNat_ofNat, Nat.mod_eq_of_lt hlt, toBe_ofBe h]

theorem octets_v6Of {bytes : List UInt8} (h : bytes.length = 16) : octets (v6Of bytes) = bytes := by
  have hlt : ofBe bytes < 2 ^ 128 := by
    have := ofBe_lt bytes
    rw [h] at this
    exact this
  show toBe 16 (BitVec.ofNat 128 (ofBe bytes)).toNat = bytes
  rw [BitVec.toNat_ofNat, Nat.mod_eq_of_lt hlt, toBe_ofBe h]

/-- The octets in front of the zeros are all of the prefix. -/
theorem settled_front {front : List UInt8} {n width : ℕ} (hfront : front.length = n) :
    (front ++ List.replicate (width - n) 0).take n ++ List.replicate (width - n) (0 : UInt8) =
      front ++ List.replicate (width - n) 0 := by
  rw [List.take_append_of_le_length (le_of_eq hfront.symm), List.take_of_length_le (le_of_eq hfront)]

theorem trimmed_v4 (bytes : List UInt8) (sourcePrefix scopePrefix : UInt8) :
    trimmed ⟨v4Of bytes, sourcePrefix, scopePrefix⟩ =
      ⟨v4Of ((octets (v4Of bytes)).take (addrLen sourcePrefix) ++ List.replicate (4 - addrLen sourcePrefix) 0),
        sourcePrefix, scopePrefix⟩ := rfl

theorem trimmed_v6 (bytes : List UInt8) (sourcePrefix scopePrefix : UInt8) :
    trimmed ⟨v6Of bytes, sourcePrefix, scopePrefix⟩ =
      ⟨v6Of ((octets (v6Of bytes)).take (addrLen sourcePrefix) ++ List.replicate (16 - addrLen sourcePrefix) 0),
        sourcePrefix, scopePrefix⟩ := rfl

theorem yields_readAddress {width : ℕ} {make : List UInt8 → IpAddr} {P : ClientSubnet → Prop}
    (h : ∀ front (sourcePrefix scopePrefix : UInt8), front.length = addrLen sourcePrefix → front.length ≤ width →
      P ⟨make (front ++ List.replicate (width - addrLen sourcePrefix) 0), sourcePrefix, scopePrefix⟩) :
    Yields (readAddress width make) P := by
  refine .next fun sourcePrefix => .next fun scopePrefix => .ite (fun _ => .throw _ _) fun hwidth => ?_
  exact ((Yields.any pop).many _).bind fun front hfront => .pure (h _ _ _ hfront.1 (by omega))

theorem yields_read : Yields read fun s => Fits s ∧ trimmed s = s := by
  have hlen {front : List UInt8} {n width : ℕ} (hfront : front.length = n) (hwidth : front.length ≤ width) :
      (front ++ List.replicate (width - n) (0 : UInt8)).length = width := by
    rw [List.length_append, List.length_replicate]
    omega
  refine .next fun family => .ite (fun _ => yields_readAddress ?_) fun _ =>
    .ite (fun _ => yields_readAddress ?_) fun _ => .throw _ _
  · intro front sourcePrefix scopePrefix hfront hwidth
    have hoctets := octets_v4Of (hlen hfront hwidth)
    refine ⟨?_, ?_⟩
    · unfold Fits
      rw [hoctets, hlen hfront hwidth, ← hfront]
      exact hwidth
    · rw [trimmed_v4, hoctets, settled_front hfront]
  · intro front sourcePrefix scopePrefix hfront hwidth
    have hoctets := octets_v6Of (hlen hfront hwidth)
    refine ⟨?_, ?_⟩
    · unfold Fits
      rw [hoctets, hlen hfront hwidth, ← hfront]
      exact hwidth
    · rw [trimmed_v6, hoctets, settled_front hfront]

end Subnet

theorem yields_tryFrom {code : EdnsCode} (hcode : EdnsCode.ofCode code.toCode = code) {data : List UInt8}
    {o : EdnsOption} (h : EdnsOption.tryFrom code data = .ok o) : OPT.WellFormed (code, o) ∧ o.received = o := by
  by_cases hsubnet : code = .subnet
  · subst hsubnet
    have h : ((Subnet.read data 0).map (·.1)).map EdnsOption.subnet = .ok o := h
    cases hread : Subnet.read data 0 with
    | error e =>
      rw [hread] at h
      cases h
    | ok p =>
      rw [hread] at h
      obtain rfl : EdnsOption.subnet p.1 = o := Except.ok.inj h
      obtain ⟨hfits, hsame⟩ := Subnet.yields_read.yields hread
      exact ⟨⟨rfl, fun s hs => EdnsOption.subnet.inj hs ▸ hfits, fun _ _ hs => (by cases hs)⟩, congrArg _ hsame⟩
  by_cases hnsid : code = .NSID
  · subst hnsid
    unfold EdnsOption.tryFrom at h
    dsimp only at h
    split_ifs at h
    cases h
    exact ⟨⟨rfl, fun _ hs => (by cases hs), fun _ _ hs => (by cases hs)⟩, rfl⟩
  have hunknown : EdnsOption.tryFrom code data = .ok (.unknown code.toCode data) := by
    cases code <;> first | rfl | exact absurd rfl hsubnet | exact absurd rfl hnsid
  obtain rfl : o = .unknown code.toCode data := Except.ok.inj (h.symm.trans hunknown)
  refine ⟨⟨hcode.symm, fun s h => (by cases h), ?_⟩, rfl⟩
  rintro _ _ ⟨⟩
  rw [hcode]
  exact ⟨hsubnet, hnsid⟩

theorem yields_lift {A : Type} {r : Except ProtoErrorKind A} {P : A → Prop} (h : ∀ a, r = .ok a → P a) :
    Yields (OPT.lift r) P where
  yields {d i a j} hr := by
    cases r with
    | error e => cases hr
    | ok a =>
      cases hr
      exact h a rfl

/-- An option that is written and comes back as it is. -/
def SettledOption (option : EdnsCode × EdnsOption) : Prop := OPT.WellFormed option ∧ option.2.received = option.2

/-- What every round of the reader of options keeps: a code that was read is the code it stands for. -/
structure Reading (st : OPT.Locals) : Prop where
  options : ∀ option ∈ st.2, SettledOption option
  code : ∀ code, st.1 = .code code → EdnsCode.ofCode code.toCode = code
  data : ∀ code length collected, st.1 = .data code length collected → EdnsCode.ofCode code.toCode = code

theorem Reading.push {options : List (EdnsCode × EdnsOption)} (h : ∀ option ∈ options, SettledOption option)
    {code : EdnsCode} {o : EdnsOption} (ho : SettledOption (code, o)) :
    Reading (.readCode, options ++ [(code, o)]) where
  options option hoption := by
    rcases List.mem_append.mp hoption with hoption | hoption
    · exact h option hoption
    · rwa [List.mem_singleton.mp hoption]
  code _ h := by cases h
  data _ _ _ h := by cases h

theorem yields_readStep (n : ℕ) (st : OPT.Locals) (h : Reading st) : Yields (OPT.readStep n st) Reading := by
  obtain ⟨state, options⟩ := st
  cases state with
  | readCode =>
    refine .next fun code => .pure ⟨h.options, ?_, fun _ _ _ h => (by cases h)⟩
    rintro _ ⟨⟩
    exact congrArg EdnsCode.ofCode (EdnsCode.toCode_ofCode code)
  | code code =>
    have hcode := h.code code rfl
    refine .next fun length => .ite (fun _ => .throw _ _) fun _ => .ite (fun _ => ?_) fun _ => .pure ?_
    · exact (yields_lift fun o ho => yields_tryFrom hcode ho).bind fun o ho => .pure (.push h.options ho)
    · refine ⟨h.options, fun _ h => (by cases h), ?_⟩
      rintro _ _ _ ⟨⟩
      exact hcode
  | data code length collected =>
    have hcode := h.data code length collected rfl
    refine .next fun byte => .ite (fun _ => ?_) fun _ => .pure ?_
    · exact (yields_lift fun o ho => yields_tryFrom hcode ho).bind fun o ho => .pure (.push h.options ho)
    · refine ⟨h.options, fun _ h => (by cases h), ?_⟩
      rintro _ _ _ ⟨⟩
      exact hcode

theorem yields_readOptions (n : ℕ) : Yields (OPT.readData n) fun options => ∀ o ∈ options, SettledOption o := by
  have hnone : ∀ o ∈ ([] : List (EdnsCode × EdnsOption)), SettledOption o := fun _ ho => absurd ho List.not_mem_nil
  have hstart : Reading (.readCode, []) := ⟨hnone, fun _ h => (by cases h), fun _ _ _ h => (by cases h)⟩
  refine .next fun start => (Yields.loop (yields_readStep n) _ _ _ hstart).bind fun st hst => ?_
  exact .ite (fun _ => .pure hnone) fun _ => .pure hst.options

/-! ### Service bindings -/

theorem SvcParamKey.canonical_ofCode (code : UInt16) : (SvcParamKey.ofCode code).Canonical := by
  have hcode : (SvcParamKey.ofCode code).toCode = code := by
    unfold SvcParamKey.ofCode
    split <;> first | rfl | (rename_i h; exact UInt16.toNat_inj.mp h.symm) | (split_ifs <;> rfl)
  exact congrArg SvcParamKey.ofCode hcode

theorem yields_readKey : Yields SvcParamValue.readKey SvcParamKey.Canonical :=
  .next fun code => .pure (SvcParamKey.canonical_ofCode code)

theorem yields_readContent (key : SvcParamKey) (len : ℕ) :
    Yields (SvcParamValue.readContent key len) fun value => value.Fits key := by
  cases key with
  | mandatory =>
    refine (yields_readKey.all _ _).bind fun keys hkeys => .ite (fun _ => .throw _ _) fun _ => .pure ⟨rfl, hkeys⟩
  | alpn => exact .next fun protocols => .ite (fun _ => .throw _ _) fun _ => .pure rfl
  | noDefaultAlpn => exact .ite (fun _ => .throw _ _) fun _ => .pure rfl
  | _ => exact .next fun _ => .pure rfl

theorem yields_readValue (key : SvcParamKey) : Yields (SvcParamValue.read key) fun value => value.Fits key := by
  refine .next fun len => .next fun _ => .next fun data => ⟨fun {d i value j} h => ?_⟩
  cases hread : SvcParamValue.readContent key len data 0 with
  | error e =>
    rw [hread] at h
    cases h
  | ok p =>
    rw [hread] at h
    cases h
    exact (yields_readContent key len).yields hread

theorem yields_readSvcb (n : ℕ) : Yields (SVCB.readData n) fun svcb => svcb.WellFormed ∧ svcb.received = svcb := by
  refine .next fun start => .next fun priority => yields_readName.bind fun target htarget => .next fun index => ?_
  refine .ite (fun _ => .throw _ _) fun _ => ?_
  have hstep (last : ℕ) (params : List (SvcParamKey × SvcParamValue))
      (hparams : ∀ param ∈ params, param.1.Canonical ∧ param.2.Fits param.1) :
      Yields (SVCB.readParam start last params) fun params =>
        ∀ param ∈ params, param.1.Canonical ∧ param.2.Fits param.1 := by
    refine yields_readKey.bind fun key hkey => (yields_readValue key).bind fun value hvalue => ?_
    refine .ite (fun _ => .throw _ _) fun _ => .next fun _ => .ite (fun _ => .throw _ _) fun _ => .pure ?_
    intro param hparam
    rcases List.mem_append.mp hparam with hparam | hparam
    · exact hparams param hparam
    · rw [List.mem_singleton.mp hparam]
      exact ⟨hkey, hvalue⟩
  refine (Yields.loop (hstep _) _ _ _ fun _ h => absurd h List.not_mem_nil).bind fun params hparams => .pure ⟨?_, ?_⟩
  · exact ⟨htarget.1, fun param h => (hparams param h).1, fun param h => (hparams param h).2⟩
  · exact congrArg (fun name => SVCB.mk priority name params) htarget.2

/-! ### Record data -/

variable {D : Type} {formats : MoreData D}

/-- The formats read what they write again. -/
def MoreData.Accepts (formats : MoreData D) : Prop :=
  ∀ recordType n, isMore recordType = true →
    Yields (formats.readData recordType n) fun data => formats.Lawful data ∧ formats.recordType data = recordType

/-- Data that is written and comes back as it is. -/
structure RData.Settled (formats : MoreData D) (recordType : RecordType) (rdata : RData D) : Prop where
  type_eq : rdata.recordType formats = recordType
  wellFormed : rdata.WellFormed formats
  same : rdata.received = rdata

theorem settled_name {make : Name → RData D} {recordType : RecordType}
    (h : ∀ name, name.encodedSize ≤ 255 ∧ name.setFqdn true = name → (make name).Settled formats recordType) :
    Yields (readName >>= fun name => pure (make name)) fun rdata => rdata.Settled formats recordType :=
  yields_readName.bind fun name hname => .pure (h name hname)

theorem orUpdate_of_ne_nil {A : Type} {recordType : RecordType} {items : List A} {rdata : RData D} (h : items ≠ []) :
    RData.orUpdate recordType items rdata = rdata :=
  if_neg fun hempty => h (List.isEmpty_iff.mp hempty)

theorem yields_readSlice {n : ℕ} (hn : n ≠ 0) : Yields (readSlice n) fun bytes => bytes ≠ [] where
  yields h := by
    obtain ⟨hlen, -, -⟩ := readSlice_eq_ok_iff.mp h
    rintro rfl
    exact hn hlen.symm

theorem yields_readTxt {n : ℕ} (hn : n ≠ 0) : Yields (readTxt n) fun txtData => txtData ≠ [] where
  yields {d i txtData j} h := by
    obtain ⟨start, k, hstart, h⟩ := Scan.bind_eq_ok_iff.mp h
    cases hstart
    exact scanAll_ne_nil (by omega) hn h

theorem yields_readFlags : Yields readFlags fun flags => verifyFlags flags = true :=
  .next fun _ => .ite (fun h => .pure h) fun _ => .throw _ _

theorem yields_readKind (hformats : formats.Accepts) {recordType : RecordType} (hopt : recordType ≠ .OPT)
    (hzero : recordType ≠ .ZERO) {n : ℕ} (hn : n ≠ 0) :
    Yields (readKind formats recordType n) fun rdata => rdata.Settled formats recordType := by
  by_cases hmore : isMore recordType = true
  · rw [readKind_of_isMore hmore]
    exact (hformats recordType n hmore).bind fun data h => .pure ⟨h.2, h.1, rfl⟩
  by_cases hother : isOther recordType = true
  · rw [readKind_of_isOther hother]
    exact (yields_readSlice hn).bind fun bytes h => .pure ⟨rfl, hother, orUpdate_of_ne_nil h⟩
  cases recordType with
  | A => exact .next fun _ => .pure ⟨rfl, trivial, rfl⟩
  | AAAA => exact .next fun _ => .pure ⟨rfl, trivial, rfl⟩
  | ANAME => exact settled_name fun name h => ⟨rfl, h.1, congrArg RData.ANAME h.2⟩
  | CNAME => exact settled_name fun name h => ⟨rfl, h.1, congrArg RData.CNAME h.2⟩
  | NS => exact settled_name fun name h => ⟨rfl, h.1, congrArg RData.NS h.2⟩
  | PTR => exact settled_name fun name h => ⟨rfl, h.1, congrArg RData.PTR h.2⟩
  | HINFO => exact .next fun _ => .next fun _ => .pure ⟨rfl, trivial, rfl⟩
  | HTTPS => exact (yields_readSvcb n).bind fun svcb h => .pure ⟨rfl, h.1, congrArg RData.HTTPS h.2⟩
  | SVCB => exact (yields_readSvcb n).bind fun svcb h => .pure ⟨rfl, h.1, congrArg RData.SVCB h.2⟩
  | MX =>
    refine .next fun preference => yields_readName.bind fun name h => .pure ?_
    exact ⟨rfl, h.1, congrArg (RData.MX preference) h.2⟩
  | NAPTR =>
    refine .next fun order => .next fun preference => yields_readFlags.bind fun flags hflags => ?_
    refine .next fun services => .next fun regexp => yields_readName.bind fun name h => .pure ⟨rfl, ⟨hflags, h.1⟩, ?_⟩
    exact congrArg (RData.NAPTR order preference flags services regexp) h.2
  | SOA =>
    refine yields_readName.bind fun mname hm => yields_readName.bind fun rname hr => .next fun serial => ?_
    refine .next fun refresh => .next fun retry => .next fun expire => .next fun minimum => .pure ?_
    refine ⟨rfl, ⟨hm.1, hr.1⟩, ?_⟩
    exact congrArg₂ (fun mname rname => RData.SOA mname rname serial refresh retry expire minimum) hm.2 hr.2
  | SRV =>
    refine .next fun priority => .next fun weight => .next fun port => yields_readName.bind fun name h => .pure ?_
    exact ⟨rfl, h.1, congrArg (RData.SRV priority weight port) h.2⟩
  | NULL => exact (yields_readSlice hn).bind fun bytes h => .pure ⟨rfl, trivial, orUpdate_of_ne_nil h⟩
  | OPENPGPKEY => exact (yields_readSlice hn).bind fun bytes h => .pure ⟨rfl, trivial, orUpdate_of_ne_nil h⟩
  | TXT => exact (yields_readTxt hn).bind fun txtData h => .pure ⟨rfl, trivial, orUpdate_of_ne_nil h⟩
  | ANY => exact .throw _ _
  | AXFR => exact .throw _ _
  | IXFR => exact .throw _ _
  | OPT => exact absurd rfl hopt
  | ZERO => exact absurd rfl hzero
  | _ => first | exact absurd rfl hmore | exact absurd rfl hother

/-- Nothing is read under the type `ZERO`, so its data is never as long as it says. -/
theorem yields_readSized (hformats : formats.Accepts) {recordType : RecordType} (hopt : recordType ≠ .OPT) (n : ℕ) :
    Yields (readSized formats recordType n) fun rdata => rdata.Settled formats recordType := by
  refine .ite (fun _ => .pure ⟨rfl, trivial, rfl⟩) fun hn => ⟨fun {d i rdata j} h => ?_⟩
  unfold readRData at h
  cases hread : readKind formats recordType n d i with
  | error e =>
    rw [hread] at h
    cases h
  | ok p =>
    rw [hread] at h
    dsimp only at h
    split_ifs at h with hlen
    cases h
    by_cases hzero : recordType = .ZERO
    · subst hzero
      cases hread
      exact absurd hlen.symm (by rwa [Nat.sub_self])
    · exact (yields_readKind hformats hopt hzero hn).yields hread

/-- The options of a record of EDNS. -/
theorem yields_readSized_opt (n : ℕ) : Yields (readSized formats .OPT n) fun rdata =>
    rdata.recordType formats = .OPT ∧ ∀ option ∈ Edns.optionsOf rdata, SettledOption option := by
  refine .ite (fun _ => .pure ⟨rfl, fun _ h => absurd h List.not_mem_nil⟩) fun hn => ⟨fun {d i rdata j} h => ?_⟩
  unfold readRData at h
  cases hread : readKind formats .OPT n d i with
  | error e =>
    rw [hread] at h
    cases h
  | ok p =>
    obtain ⟨kind, k'⟩ := p
    rw [hread] at h
    dsimp only at h
    split_ifs at h
    cases h
    obtain ⟨options, k, hoptions, hread⟩ := Scan.bind_eq_ok_iff.mp hread
    cases hread
    exact ⟨rfl, (yields_readOptions n).yields hoptions⟩

/-! ### Records and messages -/

/-- EDNS that is written and comes back as it is. -/
structure SettledEdns (e : Edns) : Prop where
  options : ∀ option ∈ e.options, SettledOption option
  same : e.received = e

/-- The flags have no bit but their own, and the payload is no less than every host can take. -/
theorem settled_ofRecord {r : Record D} {maxPayload : UInt16} (hclass : r.dnsClass = .forOpt maxPayload)
    (h : ∀ option ∈ Edns.optionsOf r.rdata, SettledOption option) : SettledEdns (Edns.ofRecord r) := by
  refine ⟨h, ?_⟩
  have hz : Edns.flagsOf r.ttl &&& 0x7FFF &&& 0x7FFF = Edns.flagsOf r.ttl &&& 0x7FFF := by
    rw [UInt16.and_assoc, UInt16.and_self]
  have hpayload : DNSClass.atLeast512 r.dnsClass.toCode = r.dnsClass.toCode := by
    rw [hclass]
    exact DNSClass.atLeast512_atLeast512 _
  have hoptions : OPT.received (Edns.optionsOf r.rdata) = Edns.optionsOf r.rdata := by
    unfold OPT.received
    conv_rhs => rw [← List.map_id (Edns.optionsOf r.rdata)]
    exact List.map_congr_left fun option ho => Prod.ext rfl (h option ho).2
  unfold Edns.received Edns.ofRecord
  simp only [hz, hpayload, hoptions]

theorem yields_readRecord (hformats : formats.Accepts) : Yields (Record.read formats) fun r =>
    (r.recordType formats = .OPT → SettledEdns (Edns.ofRecord r)) ∧
      (r.recordType formats ≠ .OPT → r.WellFormed formats ∧ r.received = r) := by
  refine yields_readName.bind fun name hname => .next fun code => ?_
  by_cases hopt : RecordType.ofCode code = .OPT
  · rw [hopt]
    have hclass : Yields (Record.readDnsClass .OPT name) fun p => ∃ maxPayload, p.1 = .forOpt maxPayload := by
      unfold Record.readDnsClass
      rw [if_pos rfl]
      exact .ite (fun _ => .next fun value => .pure ⟨value, rfl⟩) fun _ => .throw _ _
    refine hclass.bind fun p ⟨maxPayload, hp⟩ => .next fun ttl => .next fun length => .next fun _ => ?_
    refine (yields_readSized_opt length).bind fun rdata h => .pure ⟨fun _ => settled_ofRecord hp h.2, fun hne => ?_⟩
    exact absurd h.1 hne
  · have hclass : Yields (Record.readDnsClass (.ofCode code) name) fun p => Plain p.1 := by
      unfold Record.readDnsClass
      rw [if_neg hopt]
      exact yields_readClass
    refine hclass.bind fun p hp => .next fun ttl => .next fun length => .next fun _ => ?_
    refine (yields_readSized hformats hopt length).bind fun rdata h => .pure ⟨fun heq => ?_, fun _ => ⟨?_, ?_⟩⟩
    · exact absurd (h.type_eq.symm.trans heq) hopt
    · have htype : Record.recordType formats ⟨name, p.1, ttl, rdata, p.2⟩ = .ofCode code := h.type_eq
      refine ⟨hname.1, ?_, ?_, hp, h.wellFormed⟩
      · rw [htype]
        exact RecordType.canonical_ofCode code
      · rw [htype]
        exact hopt
    · exact congrArg₂ (fun name rdata => Record.mk name p.1 ttl rdata p.2) hname.2 h.same

/-- The records of a section that was read, and the EDNS of it. -/
structure SettledSection (formats : MoreData D) (isAdditional : Bool) (count : ℕ)
    (p : List (Record D) × Option Edns) : Prop where
  records : ∀ r ∈ p.1, r.WellFormed formats ∧ r.received = r ∧
    (isAdditional = false → additionalOnly (r.recordType formats) = false)
  edns : ∀ edns, p.2 = some edns → SettledEdns edns
  count_eq : p.1.length + p.2.isSome.toNat = count
  none_of : isAdditional = false → p.2 = none

theorem yields_readRecords (hformats : formats.Accepts) (isAdditional : Bool) : ∀ {n count : ℕ}
    {records : List (Record D)} {edns : Option Edns}, SettledSection formats isAdditional count (records, edns) →
      Yields (readRecords formats isAdditional n records edns) (SettledSection formats isAdditional (count + n))
  | 0, _, _, _, h => .pure h
  | n + 1, count, records, edns, h => by
    have hcount : count + (n + 1) = count + 1 + n := by omega
    have hpush (r : Record D) (hr : r.WellFormed formats ∧ r.received = r ∧
        (isAdditional = false → additionalOnly (r.recordType formats) = false)) :
        SettledSection formats isAdditional (count + 1) (records ++ [r], edns) := by
      refine ⟨fun r' hr' => ?_, h.edns, ?_, h.none_of⟩
      · rcases List.mem_append.mp hr' with hr' | hr'
        · exact h.records r' hr'
        · rwa [List.mem_singleton.mp hr']
      · have hcount : records.length + edns.isSome.toNat = count := h.count_eq
        show (records ++ [r]).length + edns.isSome.toNat = count + 1
        rw [List.length_append, List.length_singleton]
        omega
    rw [hcount]
    refine (yields_readRecord hformats).bind fun r hr => .ite (fun _ => .throw _ _) fun honly => ?_
    cases isAdditional with
    | false =>
      have honly : additionalOnly (r.recordType formats) = false := by simpa using honly
      have hopt : r.recordType formats ≠ .OPT := fun hopt => by
        rw [hopt] at honly
        cases honly
      obtain ⟨hwf, hsame⟩ := hr.2 hopt
      refine .ite (fun _ => ?_) fun h => absurd rfl h
      exact yields_readRecords hformats false (hpush r ⟨hwf, hsame, fun _ => honly⟩)
    | true =>
      refine .ite (fun h => absurd h Bool.false_ne_true) fun _ => .ite (fun hopt => ?_) fun hopt => ?_
      · refine .ite (fun _ => .throw _ _) fun hnone => yields_readRecords hformats true ⟨h.records, ?_, ?_, ?_⟩
        · rintro _ ⟨⟩
          exact hr.1 hopt
        · have hcount : records.length + edns.isSome.toNat = count := h.count_eq
          rw [Bool.eq_false_iff.mpr hnone] at hcount
          exact congrArg Nat.succ hcount
        · exact fun h => (by cases h)
      · obtain ⟨hwf, hsame⟩ := hr.2 hopt
        exact yields_readRecords hformats true (hpush r ⟨hwf, hsame, fun h => (by cases h)⟩)

theorem settledSection_nil (isAdditional : Bool) : SettledSection formats isAdditional 0 ([], none) where
  records _ h := absurd h List.not_mem_nil
  edns _ h := by cases h
  count_eq := rfl
  none_of _ := rfl

/-- The four bits of an operation are the code of what they are read as. -/
theorem canonical_fromU8 {value : UInt8} (h : value < 16) : (OpCode.fromU8 value).Canonical := by
  have hcode : (OpCode.fromU8 value).toCode = value := by
    unfold OpCode.fromU8
    split_ifs <;> simp_all [OpCode.toCode]
  unfold OpCode.Canonical
  rw [hcode]
  exact ⟨h, rfl⟩

theorem settled_header {d rest : List UInt8} {header : Header} (h : Header.read d = .ok (header, rest)) :
    header.opCode.Canonical ∧ header.responseCode.masked 0x000F = header.responseCode := by
  obtain ⟨id, d₁, -, h⟩ := Lib.bind_eq_ok_iff.mp h
  obtain ⟨qOpcdATR, d₂, -, h⟩ := Lib.bind_eq_ok_iff.mp h
  obtain ⟨rZAdCdRcod, d₃, -, h⟩ := Lib.bind_eq_ok_iff.mp h
  obtain ⟨queryCount, d₄, -, h⟩ := Lib.bind_eq_ok_iff.mp h
  obtain ⟨answerCount, d₅, -, h⟩ := Lib.bind_eq_ok_iff.mp h
  obtain ⟨authorityCount, d₆, -, h⟩ := Lib.bind_eq_ok_iff.mp h
  obtain ⟨additionalCount, d₇, -, h⟩ := Lib.bind_eq_ok_iff.mp h
  cases h
  refine ⟨canonical_fromU8 ?_, ?_⟩
  · have hand : 0b01111000 &&& qOpcdATR.toNat ≤ 0b01111000 := Nat.and_le_left
    rw [UInt8.lt_iff_toNat_lt, UInt8.toNat_shiftRight, UInt8.toNat_and]
    show (0b01111000 &&& qOpcdATR.toNat) >>> 3 < 16
    rw [Nat.shiftRight_eq_div_pow]
    omega
  · unfold ResponseCode.fromLow ResponseCode.masked
    rw [ResponseCode.toCode_ofCode, UInt16.and_assoc, UInt16.and_self]

theorem yields_readHeader : Yields readHeader fun header =>
    header.opCode.Canonical ∧ header.responseCode.masked 0x000F = header.responseCode where
  yields {d i header j} h := by
    unfold readHeader ofReader at h
    cases hread : Header.read (d.drop i) with
    | error e =>
      simp only [hread] at h
      cases h
    | ok p =>
      simp only [hread] at h
      cases h
      exact settled_header hread

/-- A message that is written and comes back as it is. -/
structure Message.Settled (formats : MoreData D) (m : Message D) : Prop where
  wellFormed : m.WellFormed formats
  same : m.received m.whole = m

/-- The sections of a message behind a header that has their counts. -/
structure Message.SettledParts (formats : MoreData D) (header : Header) (m : Message D) : Prop where
  queries : ∀ q ∈ m.queries, Query.WellFormed q ∧ Query.received q = q
  answers : SettledSection formats false header.answerCount (m.answers, none)
  authorities : SettledSection formats false header.authorityCount (m.authorities, none)
  additionals : SettledSection formats true header.additionalCount (m.additionals, m.edns)
  queryCount : m.queries.length = header.queryCount
  header : m.header = mergeEdns header m.edns

theorem yields_readSections (hformats : formats.Accepts) (header : Header) :
    Yields (Message.readSections formats header) (Message.SettledParts formats header) := by
  have hsection (isAdditional : Bool) (n : ℕ) : Yields (readRecords formats isAdditional n [] none)
      (SettledSection formats isAdditional n) := by
    have := yields_readRecords (n := n) hformats isAdditional (settledSection_nil isAdditional)
    rwa [Nat.zero_add] at this
  have hplain {n : ℕ} {p : List (Record D) × Option Edns} (h : SettledSection formats false n p) :
      SettledSection formats false n (p.1, none) := by
    rw [← h.none_of rfl]
    exact h
  refine (yields_readQuery.many _).bind fun queries hq => (hsection false _).bind fun answers ha => ?_
  refine (hsection false _).bind fun authorities hn => (hsection true _).bind fun additionals hd => .pure ?_
  exact ⟨hq.2, hplain ha, hplain hn, hd, hq.1, rfl⟩

theorem map_received_eq {A : Type} {f : A → A} {xs : List A} (h : ∀ x ∈ xs, f x = x) : xs.map f = xs := by
  conv_rhs => rw [← List.map_id xs]
  exact List.map_congr_left h

/-- A header with the counts it has and a code that goes over the wire. -/
theorem updateHeaderCounts_self {header : Header} {counts : HeaderCounts} {mask : UInt16}
    (hcounts : counts = ⟨header.queryCount, header.answerCount, header.authorityCount, header.additionalCount⟩)
    (hcode : header.responseCode.masked mask = header.responseCode) :
    { updateHeaderCounts header header.truncation counts with responseCode := header.responseCode.masked mask } =
      header := by
  rw [hcounts, hcode]
  rfl

namespace Message

theorem cut_whole (m : Message D) : m.cut m.whole = false := by
  simp [cut, whole]

/-- What the parts have, the message has. -/
theorem SettledParts.wellFormed {header : Header} {m : Message D} (h : m.SettledParts formats header)
    (hopCode : header.opCode.Canonical) : m.WellFormed formats where
  opCode := by
    rw [h.header]
    cases m.edns <;> exact hopCode
  queries q hq := (h.queries q hq).1
  answers r hr := ⟨(h.answers.records r hr).1, (h.answers.records r hr).2.2 rfl⟩
  authorities r hr := ⟨(h.authorities.records r hr).1, (h.authorities.records r hr).2.2 rfl⟩
  additionals r hr := (h.additionals.records r hr).1
  options edns hedns option ho := ((h.additionals.edns edns hedns).options option ho).1

theorem SettledParts.received_whole {header : Header} {m : Message D} (h : m.SettledParts formats header)
    (hcode : header.responseCode.masked 0x000F = header.responseCode) : m.received m.whole = m := by
  have hqueries := map_received_eq fun q hq => (h.queries q hq).2
  have hanswers := map_received_eq fun r hr => (h.answers.records r hr).2.1
  have hauthorities := map_received_eq fun r hr => (h.authorities.records r hr).2.1
  have hadditionals := map_received_eq fun r hr => (h.additionals.records r hr).2.1
  have hqcount := h.queryCount
  have hacount : m.answers.length = header.answerCount := h.answers.count_eq
  have hncount : m.authorities.length = header.authorityCount := h.authorities.count_eq
  have hdcount : m.additionals.length + m.edns.isSome.toNat = header.additionalCount := h.additionals.count_eq
  have hedns := h.additionals.edns
  have hheader := h.header
  have hcounts : m.counts m.whole =
      ⟨m.header.queryCount, m.header.answerCount, m.header.authorityCount, m.header.additionalCount⟩ := by
    unfold counts whole
    rw [hqcount, hacount, hncount, hdcount, hheader]
    cases m.edns <;> rfl
  have hmasked : m.header.responseCode.masked (if m.edns.isSome then 0x0FFF else 0x000F) = m.header.responseCode := by
    rw [hheader]
    cases m.edns with
    | none => exact hcode
    | some edns => exact ResponseCode.masked_fromParts _ _
  have hednsReceived : m.ednsReceived m.whole = m.edns := by
    unfold ednsReceived whole
    rw [hheader]
    cases h : m.edns with
    | none => rfl
    | some edns =>
      have hsame := (hedns edns h).same
      have hhigh := ResponseCode.high_fromParts edns.rcodeHigh header.responseCode.low
      show some { edns with rcodeHigh := (ResponseCode.fromParts edns.rcodeHigh _).high }.received = some edns
      rw [hhigh]
      exact congrArg some hsame
  unfold received receivedUnder
  rw [cut_whole, Bool.or_false, hednsReceived, hqueries]
  show Message.mk { updateHeaderCounts m.header m.header.truncation (m.counts m.whole) with
    responseCode := m.header.responseCode.masked (if m.edns.isSome then 0x0FFF else 0x000F) } _
      ((m.answers.take m.answers.length).map _) ((m.authorities.take m.authorities.length).map _)
        ((m.additionals.take m.additionals.length).map _) _ = m
  rw [updateHeaderCounts_self hcounts hmasked, List.take_length, List.take_length, List.take_length, hanswers,
    hauthorities, hadditionals]

end Message

/-- **Every message that is read is well formed, and comes back as it is.** -/
theorem yields_readMessage (hformats : formats.Accepts) : Yields (Message.read formats) (Message.Settled formats) :=
  yields_readHeader.bind fun header hheader => (yields_readSections hformats header).mono fun _ h =>
    ⟨h.wellFormed hheader.1, h.received_whole hheader.2⟩

theorem fromVec_eq_ok {m : Message D} {bytes : List UInt8} (h : fromVec formats bytes = .ok m) :
    ∃ j, Message.read formats bytes 0 = .ok (m, j) := by
  unfold fromVec at h
  cases hread : Message.read formats bytes 0 with
  | error e =>
    rw [hread] at h
    cases h
  | ok p =>
    rw [hread] at h
    cases h
    exact ⟨p.2, rfl⟩

/-- **A message that is handed on arrives as it was**, or with less records and the truncation flag. -/
theorem handed_on (hformats : formats.Accepts) {m : Message D} {bytes bytes' : List UInt8} {maxSize : ℕ}
    (hread : fromVec formats bytes = .ok m) (hmax : maxSize ≤ 65535) (hwrite : toVec formats maxSize m = .ok bytes') :
    ∃ w, m.Holds w ∧ fromVec formats bytes' = .ok (m.received w) ∧
      (m.received w = m ∨ (m.received w).header.truncation = true) := by
  obtain ⟨j, hread⟩ := fromVec_eq_ok hread
  have hsettled := (yields_readMessage hformats).yields hread
  obtain ⟨s, hemit, rfl⟩ := toVec_eq_ok hwrite
  obtain ⟨w, hholds, -, -, -, hreads⟩ := Message.emit_reads hsettled.wellFormed (coherent_new hmax) hemit
  refine ⟨w, hholds, fromVec_of_reads (hreads (Agrees.refl _ _ _)), ?_⟩
  cases hcut : m.cut w with
  | false =>
    rw [hholds.eq_of_cut hcut]
    exact .inl hsettled.same
  | true =>
    refine .inr ?_
    show (m.header.truncation || m.cut w) = true
    rw [hcut, Bool.or_true]

theorem handed_on_cut : ∃ m bytes', fromVec noMore cutBytes = .ok m ∧ toVec noMore 40 m = .ok bytes' ∧
    ∃ w, m.Holds w ∧ fromVec noMore bytes' = .ok (m.received w) ∧
      (m.received w = m ∨ (m.received w).header.truncation = true) := by
  obtain ⟨m, hread⟩ : ∃ m, fromVec noMore cutBytes = .ok m := exists_of_isSome (by decide +kernel)
  have hwrite : ((fromVec noMore cutBytes).toOption.bind fun m => (toVec noMore 40 m).toOption).isSome = true := by
    decide +kernel
  rw [hread] at hwrite
  obtain ⟨bytes', hwrite⟩ := exists_of_isSome hwrite
  exact ⟨m, bytes', hread, hwrite, handed_on (fun _ _ _ => .throw _ _) hread (by decide) hwrite⟩

end Wire
end SmartDns
