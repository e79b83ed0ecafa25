/-
# The options of an EDNS record

`OPT` of `proto/src/rr/rdata/opt.rs`: codes with values, one behind the other, each value with its length in
front. They are read byte by byte: the loop waits for a code, then for a length, then collects as many bytes
as the length says; options that end in the middle are all thrown away.

A client subnet has the octets of its address that its prefix needs, and no more; what is read back has
zeros behind them (`ClientSubnet.trimmed`).

Key definitions: `OPT.emit`, `OPT.readData`, `ClientSubnet.emit`, `ClientSubnet.tryFrom`.
Key theorem: `takes_readData`.
-/
import SmartDns.Wire.Encoder
import SmartDns.Dns.Ip

namespace SmartDns

open Dns Lib

namespace Wire

open BinEncoder

inductive EdnsCode
  | zero
  | LLQ
  | UL
  | NSID
  | DAU
  | DHU
  | N3U
  | subnet
  | expire
  | cookie
  | keepalive
  | padding
  | chain
  | unknown (code : UInt16)
deriving DecidableEq

namespace EdnsCode

/-- `From<u16>`. -/
def ofCode (value : UInt16) : EdnsCode :=
  match value.toNat with
  | 0 => zero
  | 1 => LLQ
  | 2 => UL
  | 3 => NSID
  | 5 => DAU
  | 6 => DHU
  | 7 => N3U
  | 8 => subnet
  | 9 => expire
  | 10 => cookie
  | 11 => keepalive
  | 12 => padding
  | 13 => chain
  | _ => unknown value

/-- `From<EdnsCode> for u16`. -/
def toCode : EdnsCode → UInt16
  | zero => 0
  | LLQ => 1
  | UL => 2
  | NSID => 3
  | DAU => 5
  | DHU => 6
  | N3U => 7
  | subnet => 8
  | expire => 9
  | cookie => 10
  | keepalive => 11
  | padding => 12
  | chain => 13
  | unknown value => value

theorem toCode_ofCode (value : UInt16) : (ofCode value).toCode = value := by
  unfold ofCode
  split <;> first | rfl | (rename_i h; exact UInt16.toNat_inj.mp h.symm)

end EdnsCode

inductive EdnsOption
  | subnet (subnet : ClientSubnet)
  | NSID (payload : List UInt8)
  | unknown (code : UInt16) (data : List UInt8)
deriving DecidableEq

/-! ### Client subnets -/

namespace Subnet

/-- The octets of an address. -/
def octets : IpAddr → List UInt8
  | .v4 bits => toBe 4 bits.toNat
  | .v6 bits => toBe 16 bits.toNat

def v4Of (octets : List UInt8) : IpAddr := .v4 (BitVec.ofNat 32 (ofBe octets))

def v6Of (octets : List UInt8) : IpAddr := .v6 (BitVec.ofNat 128 (ofBe octets))

def family : IpAddr → UInt16
  | .v4 _ => 1
  | .v6 _ => 2

/-- The octets that a prefix needs. -/
def addrLen (sourcePrefix : UInt8) : ℕ := sourcePrefix.toNat / 8 + if sourcePrefix.toNat % 8 > 0 then 1 else 0

def emit (s : ClientSubnet) : Emit Unit := do
  emitU16 (family s.address)
  emitU8 s.sourcePrefix
  emitU8 s.scopePrefix
  if addrLen s.sourcePrefix ≤ (octets s.address).length then
    emitVec ((octets s.address).take (addrLen s.sourcePrefix))
  else throw (.message "Invalid addr length for encode EcsOption")

/-- What comes behind the family, for addresses of `width` octets. -/
def readAddress (width : ℕ) (make : List UInt8 → IpAddr) : Decode ClientSubnet := do
  let sourcePrefix ← pop
  let scopePrefix ← pop
  if addrLen sourcePrefix > width then throw (.message "Invalid address length")
  else do
    let front ← scanMany pop (addrLen sourcePrefix)
    return ⟨make (front ++ List.replicate (width - addrLen sourcePrefix) 0), sourcePrefix, scopePrefix⟩

def read : Decode ClientSubnet := do
  let family ← readUInt16
  if family = 1 then readAddress 4 v4Of
  else if family = 2 then readAddress 16 v6Of
  else throw (.message "Invalid family type.")

/-- `TryFrom<&[u8]>`: bytes behind the address are not looked at. -/
def tryFrom (bytes : List UInt8) : Except ProtoErrorKind ClientSubnet := (read bytes 0).map (·.1)

/-- The bytes of a subnet. -/
def bytes (s : ClientSubnet) : List UInt8 :=
  toBe 2 (family s.address).toNat ++ ([s.sourcePrefix] ++ ([s.scopePrefix] ++
    (octets s.address).take (addrLen s.sourcePrefix)))

/-- With zeros behind the octets that the prefix needs. -/
def trimmed (s : ClientSubnet) : ClientSubnet :=
  let n := addrLen s.sourcePrefix
  { s with address :=
      match s.address with
      | .v4 bits => v4Of ((toBe 4 bits.toNat).take n ++ List.replicate (4 - n) 0)
      | .v6 bits => v6Of ((toBe 16 bits.toNat).take n ++ List.replicate (16 - n) 0) }

/-- The octets cover the prefix. -/
def Fits (s : ClientSubnet) : Prop := addrLen s.sourcePrefix ≤ (octets s.address).length

theorem puts_emit (s : ClientSubnet) : Puts medium (emit s) (bytes s) := by
  refine (puts_emitU16 _).bind fun _ => (puts_emitU8 _).bind fun _ => (puts_emitU8 _).bind fun _ => ?_
  split_ifs
  · exact puts_emitVec _
  · exact .throw _ _

theorem flatMap_singleton (bs : List UInt8) : bs.flatMap (fun b => [b]) = bs := by
  induction bs with
  | nil => rfl
  | cons b bs ih => rw [List.flatMap_cons, ih, List.singleton_append]

theorem takes_scanMany_pop (bs : List UInt8) : Takes (scanMany pop bs.length) bs bs := by
  have := takes_scanMany (g := id) bs fun b _ => takes_byte b
  rwa [flatMap_singleton, List.map_id] at this

theorem takes_readAddress {sourcePrefix scopePrefix : UInt8} {all : List UInt8} {width : ℕ}
    (hwidth : all.length = width) (hfits : addrLen sourcePrefix ≤ width) (make : List UInt8 → IpAddr) :
    Takes (readAddress width make) ([sourcePrefix] ++ ([scopePrefix] ++ all.take (addrLen sourcePrefix)))
      ⟨make (all.take (addrLen sourcePrefix) ++ List.replicate (width - addrLen sourcePrefix) 0), sourcePrefix,
        scopePrefix⟩ := by
  refine (takes_byte _).bind ((takes_byte _).bind ?_)
  rw [if_neg (Nat.not_lt.mpr hfits)]
  have := takes_scanMany_pop (all.take (addrLen sourcePrefix))
  rw [List.length_take, hwidth, Nat.min_eq_left hfits] at this
  exact this.map _

/-- A subnet is read back up to what its prefix does not need. -/
theorem takes_read {s : ClientSubnet} (h : Fits s) : Takes read (bytes s) (trimmed s) := by
  obtain ⟨address, sourcePrefix, scopePrefix⟩ := s
  unfold Fits at h
  cases address with
  | v4 bits =>
    refine (takes_readUInt16 1).bind ?_
    rw [if_pos rfl]
    exact takes_readAddress (toBe_length 4 _) (by simpa [octets] using h) v4Of
  | v6 bits =>
    refine (takes_readUInt16 2).bind ?_
    rw [if_neg (by decide), if_pos rfl]
    exact takes_readAddress (toBe_length 16 _) (by simpa [octets] using h) v6Of

theorem tryFrom_bytes {s : ClientSubnet} (h : Fits s) : tryFrom (bytes s) = .ok (trimmed s) := by
  unfold tryFrom
  rw [(takes_read h).takes (stands_self _)]
  rfl

end Subnet

/-! ### Options -/

namespace EdnsOption

def code : EdnsOption → EdnsCode
  | subnet _ => .subnet
  | NSID _ => .NSID
  | unknown code _ => .ofCode code

def data : EdnsOption → List UInt8
  | subnet s => Subnet.bytes s
  | NSID payload => payload
  | unknown _ data => data

/-- `EdnsOption::len`, a `u16`. -/
def len : EdnsOption → UInt16
  | subnet s => 4 + UInt16.ofNat (Subnet.addrLen s.sourcePrefix)
  | NSID payload => UInt16.ofNat payload.length
  | unknown _ data => UInt16.ofNat data.length

def emit : EdnsOption → Emit Unit
  | subnet s => Subnet.emit s
  | NSID payload => emitVec payload
  | unknown _ data => emitVec data

/-- `TryFrom<(EdnsCode, &[u8])>`. -/
def tryFrom (code : EdnsCode) (data : List UInt8) : Except ProtoErrorKind EdnsOption :=
  match code with
  | .subnet => (Subnet.tryFrom data).map subnet
  | .NSID => if data.length > 65535 then .error (.message "NSID EDNS payload too large") else .ok (NSID data)
  | code => .ok (unknown code.toCode data)

/-- What comes of an option on its way. -/
def received : EdnsOption → EdnsOption
  | subnet s => subnet (Subnet.trimmed s)
  | o => o

end EdnsOption

/-- What is expected next. -/
inductive OptReadState
  | readCode
  | code (code : EdnsCode)
  | data (code : EdnsCode) (length : ℕ) (collected : List UInt8)
deriving DecidableEq

namespace OPT

def emitOption (option : EdnsCode × EdnsOption) : Emit Unit := do
  emitU16 option.1.toCode
  emitU16 option.2.len
  option.2.emit

def emit (options : List (EdnsCode × EdnsOption)) : Emit Unit :=
  withRdataBehavior .other (options.forM emitOption)

/-- The locals of the loop: the state and the options so far. -/
abbrev Locals := OptReadState × List (EdnsCode × EdnsOption)

/-- What is fallible outside of the decoder. -/
def lift {A : Type} (r : Except ProtoErrorKind A) : Decode A := fun _ i => r.map fun a => (a, i)

/-- One round of the loop. -/
def readStep (rdataLength : ℕ) : Locals → Decode Locals
  | (.readCode, options) => do
    let code ← readUInt16
    return (.code (.ofCode code), options)
  | (.code code, options) => do
    let length ← readUInt16
    if length.toNat > rdataLength then throw (.message "OPT value length exceeds rdata length")
    else if length = 0 then do
      let option ← lift (EdnsOption.tryFrom code [])
      return (.readCode, options ++ [(code, option)])
    else return (.data code length.toNat [], options)
  | (.data code length collected, options) => do
    let byte ← pop
    let collected := collected ++ [byte]
    if length = collected.length then do
      let option ← lift (EdnsOption.tryFrom code collected)
      return (.readCode, options ++ [(code, option)])
    else return (.data code length collected, options)

/-- `read_data`; a round takes a byte at least, so there are no more of them than bytes. -/
def readData (rdataLength : ℕ) : Decode (List (EdnsCode × EdnsOption)) := do
  let start ← get
  let (state, options) ← scanUntil (readStep rdataLength) (start + rdataLength) rdataLength (.readCode, [])
  if state ≠ .readCode then return [] else return options

/-! ### Options are read back -/

/-- An option that is written under its own code, with a length that two bytes can say. -/
structure WellFormed (option : EdnsCode × EdnsOption) : Prop where
  code_eq : option.1 = option.2.code
  fits : ∀ s, option.2 = .subnet s → Subnet.Fits s
  /-- No option without a form of its own has the code of one that has. -/
  unknown : ∀ code data, option.2 = .unknown code data →
    EdnsCode.ofCode code ≠ .subnet ∧ EdnsCode.ofCode code ≠ .NSID

/-- The bytes of an option. -/
def optionBytes (option : EdnsCode × EdnsOption) : List UInt8 :=
  toBe 2 option.1.toCode.toNat ++ (toBe 2 option.2.len.toNat ++ option.2.data)

def bytes (options : List (EdnsCode × EdnsOption)) : List UInt8 := options.flatMap optionBytes

/-- What comes of the options on their way. -/
def received (options : List (EdnsCode × EdnsOption)) : List (EdnsCode × EdnsOption) :=
  options.map fun option => (option.1, option.2.received)

theorem puts_option (o : EdnsOption) : Puts medium o.emit o.data := by
  cases o with
  | subnet s => exact Subnet.puts_emit s
  | NSID payload => exact puts_emitVec payload
  | unknown code data => exact puts_emitVec data

theorem ofCode_toCode {option : EdnsCode × EdnsOption} (h : WellFormed option) :
    EdnsCode.ofCode option.1.toCode = option.1 := by
  rw [h.code_eq]
  cases option.2 with
  | subnet s => rfl
  | NSID payload => rfl
  | unknown code data => exact congrArg EdnsCode.ofCode (EdnsCode.toCode_ofCode code)

theorem len_eq {option : EdnsCode × EdnsOption} (h : WellFormed option) (hlen : option.2.data.length ≤ 65535) :
    option.2.len.toNat = option.2.data.length := by
  obtain ⟨code, o⟩ := option
  cases o with
  | subnet s =>
    have hfits : Subnet.addrLen s.sourcePrefix ≤ (Subnet.octets s.address).length := h.fits s rfl
    have hdata : (Subnet.bytes s).length = 4 + Subnet.addrLen s.sourcePrefix := by
      unfold Subnet.bytes
      simp only [List.length_append, toBe_length, List.length_singleton, List.length_take, Nat.min_eq_left hfits]
      omega
    have hshort : Subnet.addrLen s.sourcePrefix ≤ 65531 := by
      have : (Subnet.bytes s).length ≤ 65535 := hlen
      omega
    show (4 + UInt16.ofNat (Subnet.addrLen s.sourcePrefix)).toNat = (Subnet.bytes s).length
    rw [hdata, UInt16.toNat_add, UInt16.toNat_ofNat']
    show (4 + Subnet.addrLen s.sourcePrefix % 2 ^ 16) % 2 ^ 16 = _
    omega
  | NSID payload =>
    show (UInt16.ofNat payload.length).toNat = payload.length
    rw [UInt16.toNat_ofNat']
    exact Nat.mod_eq_of_lt (Nat.lt_succ_of_le hlen)
  | unknown code data =>
    show (UInt16.ofNat data.length).toNat = data.length
    rw [UInt16.toNat_ofNat']
    exact Nat.mod_eq_of_lt (Nat.lt_succ_of_le hlen)

theorem tryFrom_data {option : EdnsCode × EdnsOption} (h : WellFormed option)
    (hlen : option.2.data.length ≤ 65535) :
    EdnsOption.tryFrom option.1 option.2.data = .ok option.2.received := by
  rw [h.code_eq]
  obtain ⟨code, o⟩ := option
  cases o with
  | subnet s =>
    show (Subnet.tryFrom (Subnet.bytes s)).map EdnsOption.subnet = _
    rw [Subnet.tryFrom_bytes (h.fits s rfl)]
    rfl
  | NSID payload => exact if_neg (Nat.not_lt.mpr hlen)
  | unknown c data =>
    obtain ⟨hsubnet, hnsid⟩ := h.unknown c data rfl
    have hcode := EdnsCode.toCode_ofCode c
    show EdnsOption.tryFrom (.ofCode c) data = .ok (.unknown c data)
    unfold EdnsOption.tryFrom
    cases hc : EdnsCode.ofCode c with
    | subnet => exact absurd hc hsubnet
    | NSID => exact absurd hc hnsid
    | _ => rw [hc] at hcode; exact congrArg (fun c => Except.ok (EdnsOption.unknown c data)) hcode

section

variable {rdataLength last rounds : ℕ} {d : List UInt8}

/-- The bytes of a value are collected until there are as many as the length says. -/
theorem scanUntil_data {code : EdnsCode} {length : ℕ} {o : EdnsOption} : ∀ (b : UInt8) (bs collected : List UInt8)
    (options : List (EdnsCode × EdnsOption)) (i : ℕ), Stands d i (b :: bs) →
    length = collected.length + (b :: bs).length → EdnsOption.tryFrom code (collected ++ b :: bs) = .ok o →
    i + (b :: bs).length ≤ last →
    scanUntil (readStep rdataLength) last (rounds + (b :: bs).length) (.data code length collected, options) d i =
      scanUntil (readStep rdataLength) last rounds (.readCode, options ++ [(code, o)]) d (i + (b :: bs).length)
  | b, [], collected, options, i, hd, hlength, ho, hlast => by
    refine scanUntil_of_lt (by simp at hlast; omega) ?_
    refine Scan.bind_ok ((takes_byte b).takes hd) ?_
    rw [if_pos (by simp [hlength])]
    refine Scan.bind_ok (j := i + 1) (a := o) ?_ rfl
    unfold lift
    rw [ho]
    rfl
  | b, b' :: bs, collected, options, i, hd, hlength, ho, hlast => by
    have hsplit : Stands d i [b] ∧ Stands d (i + 1) (b' :: bs) := stands_append.mp hd
    have hmore : length = (collected ++ [b]).length + (b' :: bs).length := by
      simp at hlength ⊢
      omega
    have ih := scanUntil_data b' bs (collected ++ [b]) options (i + 1) hsplit.2 hmore (by simpa using ho)
      (by simp at hlast ⊢; omega)
    have hfirst : scanUntil (readStep rdataLength) last (rounds + (b :: b' :: bs).length)
        (.data code length collected, options) d i =
        scanUntil (readStep rdataLength) last (rounds + (b' :: bs).length)
          (.data code length (collected ++ [b]), options) d (i + 1) := by
      refine scanUntil_of_lt (by simp at hlast; omega) ?_
      refine Scan.bind_ok ((takes_byte b).takes hsplit.1) ?_
      rw [if_neg (by simp [hlength])]
      rfl
    rw [hfirst, ih]
    congr 1
    simp
    omega

/-- One option after the other. -/
theorem scanUntil_option {option : EdnsCode × EdnsOption} (h : WellFormed option)
    (hlen : option.2.data.length ≤ rdataLength) (hmax : rdataLength ≤ 65535)
    (options : List (EdnsCode × EdnsOption)) {i : ℕ} (hd : Stands d i (optionBytes option))
    (hlast : i + (optionBytes option).length ≤ last) :
    scanUntil (readStep rdataLength) last (rounds + option.2.data.length + 2) (.readCode, options) d i =
      scanUntil (readStep rdataLength) last rounds (.readCode, options ++ [(option.1, option.2.received)]) d
        (i + (optionBytes option).length) := by
  obtain ⟨hcode, hd⟩ := stands_append.mp hd
  obtain ⟨hlength, hdata⟩ := stands_append.mp hd
  rw [toBe_length] at hlength hdata
  have hlenEq := len_eq h (by omega)
  have htry := tryFrom_data h (by omega)
  have hbytes : (optionBytes option).length = 4 + option.2.data.length := by
    simp [optionBytes]
    omega
  rw [hbytes] at hlast ⊢
  have hfirst : scanUntil (readStep rdataLength) last (rounds + option.2.data.length + 2) (.readCode, options) d i =
      scanUntil (readStep rdataLength) last (rounds + option.2.data.length + 1) (.code option.1, options) d
        (i + 2) := by
    refine scanUntil_of_lt (by omega) ?_
    refine Scan.bind_ok ((takes_readUInt16 _).takes hcode) ?_
    rw [ofCode_toCode h]
    rfl
  rw [hfirst]
  cases hvalue : option.2.data with
  | nil =>
    rw [hvalue, List.length_nil] at hlenEq hlast
    rw [hvalue] at htry
    refine scanUntil_of_lt (by omega) ?_
    refine Scan.bind_ok ((takes_readUInt16 _).takes hlength) ?_
    rw [if_neg (by omega), if_pos (UInt16.toNat_inj.mp hlenEq)]
    refine Scan.bind_ok (j := i + 4) (a := option.2.received) ?_ rfl
    unfold lift
    rw [htry]
    rfl
  | cons b bs =>
    rw [hvalue] at hlenEq htry hdata hlast
    have hsecond : scanUntil (readStep rdataLength) last (rounds + (b :: bs).length + 1) (.code option.1, options) d
        (i + 2) = scanUntil (readStep rdataLength) last (rounds + (b :: bs).length)
          (.data option.1 (b :: bs).length [], options) d (i + 4) := by
      refine scanUntil_of_lt (by omega) ?_
      refine Scan.bind_ok ((takes_readUInt16 _).takes hlength) ?_
      rw [if_neg (by rw [hvalue] at hlen; omega), if_neg, hlenEq]
      · rfl
      · intro hzero
        rw [hzero] at hlenEq
        simp at hlenEq
    rw [hsecond,
      scanUntil_data b bs [] options (i + 4) (by simpa [toBe_length] using hdata) (by simp) htry (by omega)]
    congr 1
    omega

theorem length_optionBytes (option : EdnsCode × EdnsOption) :
    (optionBytes option).length = 4 + option.2.data.length := by
  simp [optionBytes]
  omega

/-- The loop reads the options that stand there, to their end. -/
theorem scanUntil_options (hmax : rdataLength ≤ 65535) : ∀ (opts acc : List (EdnsCode × EdnsOption)) {i rounds : ℕ},
    (∀ o ∈ opts, WellFormed o) → Stands d i (bytes opts) → (bytes opts).length ≤ rdataLength →
    (bytes opts).length ≤ rounds → last = i + (bytes opts).length →
    scanUntil (readStep rdataLength) last rounds (.readCode, acc) d i = .ok ((.readCode, acc ++ received opts), last)
  | [], acc, i, rounds, _, _, _, _, hlast => by
    rw [hlast]
    have hnil : acc ++ received [] = acc := List.append_nil _
    rw [hnil]
    exact scanUntil_of_le _ _ (le_refl _)
  | o :: opts, acc, i, rounds, hopts, hd, hle, hrounds, hlast => by
    have ho := hopts o List.mem_cons_self
    have hbytes : bytes (o :: opts) = optionBytes o ++ bytes opts := List.flatMap_cons
    have hlen := length_optionBytes o
    rw [hbytes, List.length_append] at hle hrounds hlast
    rw [hbytes] at hd
    obtain ⟨hfirst, hrest⟩ := stands_append.mp hd
    obtain ⟨more, rfl⟩ : ∃ more, rounds = more + o.2.data.length + 2 :=
      ⟨rounds - o.2.data.length - 2, by omega⟩
    rw [scanUntil_option ho (by omega) hmax acc hfirst (by omega),
      scanUntil_options hmax opts _ (fun x h => hopts x (List.mem_cons_of_mem _ h)) hrest (by omega) (by omega)
        (by omega)]
    congr 3
    show _ = acc ++ ([(o.1, o.2.received)] ++ received opts)
    rw [List.append_assoc]

end

/-- **The options are read back**, each value up to what its own form leaves out. -/
theorem takes_readData {options : List (EdnsCode × EdnsOption)} (h : ∀ o ∈ options, WellFormed o)
    (hlen : (bytes options).length ≤ 65535) :
    Takes (readData (bytes options).length) (bytes options) (received options) where
  takes {_ i} hd :=
    have hloop := scanUntil_options hlen options [] h hd (le_refl _) (le_refl _) rfl
    Scan.bind_ok (j := i) (a := i) rfl (Scan.bind_ok hloop rfl)

theorem puts_emitOption (option : EdnsCode × EdnsOption) : Puts medium (emitOption option) (optionBytes option) :=
  (puts_emitU16 _).bind fun _ => (puts_emitU16 _).bind fun _ => puts_option option.2

end OPT

end Wire
end SmartDns
