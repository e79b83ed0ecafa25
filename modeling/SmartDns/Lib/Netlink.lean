/-
# Attributes

A packet is one message behind the other, and a message is a header and attributes: each is a length, a
type and a content, behind which the buffer is padded to four bytes. A nested attribute holds
attributes, and its length is written when they are. A builder that writes an attribute behind an
aligned buffer appends its text (`pushAttr_eq`, `closeNested_eq`), and a text of attributes is read back
if every length fits its sixteen bits (`readAttrs_attrBytes`, `readMessage_headerBytes`). What is read is
never longer than that (`length_lt_of_readAttrs`, `length_lt_of_readMessage`).

Numbers are written in the machine's order, which is a parameter.

Key definitions: `walk`, `toNe`, `align`, `pushAttr`, `closeNested`, `attrBytes`, `readAttrs`, `readMessage`.
Key theorems: `pushAttr_eq`, `closeNested_eq`, `readAttrs_attrBytes`, `readMessage_headerBytes`.
-/
import SmartDns.Lib.Reader

namespace SmartDns
namespace Lib
namespace Netlink

/-! ### Walks -/

section

variable {A B : Type}

/-- Every step leaves a shorter text. -/
def Shrinks (step : List B → Option (A × List B)) : Prop :=
  ∀ ⦃s : List B⦄ ⦃a : A⦄ ⦃rest : List B⦄, step s = some (a, rest) → rest.length < s.length

def walkFrom (step : List B → Option (A × List B)) : ℕ → List B → Option (List A)
  | _, [] => some []
  | 0, _ :: _ => none
  | n + 1, b :: s => (step (b :: s)).bind fun r => (walkFrom step n r.2).map fun as => r.1 :: as

/-- Step after step, up to the very end. -/
def walk (step : List B → Option (A × List B)) (s : List B) : Option (List A) := walkFrom step s.length s

variable {step : List B → Option (A × List B)}

/-- More rounds than elements change nothing. -/
theorem walkFrom_of_le (hstep : Shrinks step) : ∀ {n m : ℕ} {s : List B}, s.length ≤ n → s.length ≤ m →
    walkFrom step n s = walkFrom step m s
  | n, m, [], _, _ => by cases n <;> cases m <;> rfl
  | n + 1, m + 1, b :: s, hn, hm => by
    simp only [walkFrom]
    cases h : step (b :: s) with
    | none => rfl
    | some r =>
      have hlt := hstep h
      rw [List.length_cons] at hn hm hlt
      show (walkFrom step n r.2).map _ = (walkFrom step m r.2).map _
      rw [walkFrom_of_le hstep (n := n) (m := m) (by omega) (by omega)]

theorem walk_of_some (hstep : Shrinks step) {s rest : List B} {a : A} (h : step s = some (a, rest)) :
    walk step s = (walk step rest).map fun as => a :: as := by
  have hlt := hstep h
  obtain ⟨b, s, rfl⟩ : ∃ b t, s = b :: t := by
    apply List.exists_cons_of_ne_nil
    rw [← List.length_pos_iff]
    omega
  rw [List.length_cons] at hlt
  show (step (b :: s)).bind (fun r => (walkFrom step s.length r.2).map fun as => r.1 :: as) = _
  rw [h]
  show (walkFrom step s.length rest).map _ = _
  rw [walkFrom_of_le hstep (n := s.length) (m := rest.length) (by omega) (Nat.le_refl _)]
  rfl

/-- What a walk collects, a step gave. -/
theorem exists_of_mem_walkFrom : ∀ {n : ℕ} {s : List B} {as : List A}, walkFrom step n s = some as →
    ∀ a ∈ as, ∃ t rest, step t = some (a, rest)
  | n, [], as, h, a, ha => by
    have hnil : walkFrom step n [] = some [] := by cases n <;> rfl
    rw [hnil] at h
    obtain rfl := Option.some.inj h
    cases ha
  | 0, _ :: _, _, h, _, _ => by cases h
  | n + 1, b :: s, as, h, a, ha => by
    obtain ⟨r, hr, hrest⟩ := Option.bind_eq_some_iff.mp h
    obtain ⟨as', has, rfl⟩ := Option.map_eq_some_iff.mp hrest
    rcases List.mem_cons.mp ha with rfl | ha
    · exact ⟨b :: s, r.2, hr⟩
    · exact exists_of_mem_walkFrom has a ha

theorem exists_of_mem_walk {s : List B} {as : List A} (h : walk step s = some as) :
    ∀ a ∈ as, ∃ t rest, step t = some (a, rest) :=
  exists_of_mem_walkFrom h

/-- What a step reads is read further. -/
def readFurther {A' : Type} (step : List B → Option (A × List B)) (f : A → Option A') (s : List B) :
    Option (A' × List B) :=
  (step s).bind fun r => (f r.1).map fun a => (a, r.2)

theorem readFurther_eq_some_iff {A' : Type} {f : A → Option A'} {s rest : List B} {a : A'} :
    readFurther step f s = some (a, rest) ↔ ∃ r, step s = some (r, rest) ∧ f r = some a := by
  unfold readFurther
  constructor
  · intro h
    obtain ⟨r, hr, hf⟩ := Option.bind_eq_some_iff.mp h
    obtain ⟨a', ha, heq⟩ := Option.map_eq_some_iff.mp hf
    obtain ⟨h₁, h₂⟩ := Prod.mk.inj heq
    exact ⟨r.1, h₂ ▸ hr, h₁ ▸ ha⟩
  · rintro ⟨r, hr, hf⟩
    rw [hr]
    show (f r).map _ = _
    rw [hf]
    rfl

theorem Shrinks.readFurther {A' : Type} (hstep : Shrinks step) (f : A → Option A') :
    Shrinks (readFurther step f) := by
  intro s a rest h
  obtain ⟨r, hr, -⟩ := readFurther_eq_some_iff.mp h
  exact hstep hr

end

section

variable (big : Bool)

/-- `to_ne_bytes` of a number of `n` bytes. -/
def toNe (n v : ℕ) : List UInt8 := if big then toBe n v else (toBe n v).reverse

def ofNe (bs : List UInt8) : ℕ := if big then ofBe bs else ofBe bs.reverse

theorem ofNe_toNe (n v : ℕ) : ofNe big (toNe big n v) = v % 256 ^ n := by
  cases big with
  | true => exact ofBe_toBe n v
  | false =>
    show ofBe (toBe n v).reverse.reverse = _
    rw [List.reverse_reverse, ofBe_toBe]

theorem ofNe_toNe_of_lt {n v : ℕ} (h : v < 256 ^ n) : ofNe big (toNe big n v) = v := by
  rw [ofNe_toNe, Nat.mod_eq_of_lt h]

@[simp] theorem toNe_length (n v : ℕ) : (toNe big n v).length = n := by
  cases big <;> simp [toNe]

theorem ofNe_lt (bs : List UInt8) : ofNe big bs < 256 ^ bs.length := by
  cases big with
  | true => exact ofBe_lt bs
  | false =>
    have h := ofBe_lt bs.reverse
    rwa [List.length_reverse] at h

/-- The next multiple of four. -/
def align (len : ℕ) : ℕ := (len + 3) / 4 * 4

theorem align_of_dvd {n : ℕ} (h : 4 ∣ n) : align n = n := by
  unfold align
  omega

theorem dvd_align (n : ℕ) : 4 ∣ align n := ⟨(n + 3) / 4, Nat.mul_comm _ _⟩

theorem le_align (n : ℕ) : n ≤ align n := by
  unfold align
  omega

theorem dvd_length_append {as bs : List UInt8} (ha : 4 ∣ as.length) (hb : 4 ∣ bs.length) :
    4 ∣ (as ++ bs).length := by
  rw [List.length_append]
  exact Nat.dvd_add ha hb

def zeros (n : ℕ) : List UInt8 := List.replicate n 0

@[simp] theorem zeros_length (n : ℕ) : (zeros n).length = n := List.length_replicate

def padToAlign (buf : List UInt8) : List UInt8 := buf ++ zeros (align buf.length - buf.length)

theorem padToAlign_of_dvd {buf : List UInt8} (h : 4 ∣ buf.length) : padToAlign buf = buf := by
  unfold padToAlign
  rw [align_of_dvd h, Nat.sub_self]
  exact List.append_nil buf

/-- Bytes over those from `start` on. -/
def patch (buf : List UInt8) (start : ℕ) (bytes : List UInt8) : List UInt8 :=
  buf.take start ++ bytes ++ buf.drop (start + bytes.length)

theorem patch_append (buf : List UInt8) {old bytes : List UInt8} (h : old.length = bytes.length) (rest : List UInt8) :
    patch (buf ++ (old ++ rest)) buf.length bytes = buf ++ (bytes ++ rest) := by
  unfold patch
  rw [List.take_left, ← h, ← List.drop_drop, List.drop_left, List.drop_left, List.append_assoc]

/-- The length is that of the header and the content, without the padding. -/
def pushAttr (buf : List UInt8) (ty : ℕ) (content : List UInt8) : List UInt8 :=
  let start := buf.length
  let buf := buf ++ (toNe big 2 0 ++ (toNe big 2 ty ++ content))
  padToAlign (patch buf start (toNe big 2 (buf.length - start)))

/-- An attribute to be closed later. -/
def openNested (buf : List UInt8) (ty : ℕ) : List UInt8 := pushAttr big buf ty []

/-- The length is that up to the aligned end. -/
def closeNested (buf : List UInt8) (start : ℕ) : List UInt8 :=
  let buf := padToAlign buf
  patch buf start (toNe big 2 (buf.length - start))

/-- The text of an attribute. -/
def attrBytes (ty : ℕ) (content : List UInt8) : List UInt8 :=
  toNe big 2 (content.length + 4) ++ (toNe big 2 ty ++ (content ++ zeros (align content.length - content.length)))

theorem attrBytes_length (ty : ℕ) (content : List UInt8) :
    (attrBytes big ty content).length = align (content.length + 4) := by
  unfold attrBytes align
  simp only [List.length_append, toNe_length, zeros_length]
  omega

theorem attrBytes_length_le (ty : ℕ) (content : List UInt8) :
    (attrBytes big ty content).length ≤ content.length + 7 := by
  rw [attrBytes_length]
  unfold align
  omega

theorem dvd_attrBytes_length (ty : ℕ) (content : List UInt8) : 4 ∣ (attrBytes big ty content).length := by
  rw [attrBytes_length]
  exact dvd_align _

/-- An attribute is appended. -/
theorem pushAttr_eq {buf : List UInt8} (h : 4 ∣ buf.length) (ty : ℕ) (content : List UInt8) :
    pushAttr big buf ty content = buf ++ attrBytes big ty content := by
  have hlen : (buf ++ (toNe big 2 0 ++ (toNe big 2 ty ++ content))).length - buf.length = content.length + 4 := by
    simp only [List.length_append, toNe_length]
    omega
  have hpad : align (buf ++ (toNe big 2 (content.length + 4) ++ (toNe big 2 ty ++ content))).length -
      (buf ++ (toNe big 2 (content.length + 4) ++ (toNe big 2 ty ++ content))).length =
        align content.length - content.length := by
    simp only [List.length_append, toNe_length]
    unfold align
    omega
  show padToAlign (patch _ buf.length _) = _
  rw [hlen, patch_append buf (by rw [toNe_length, toNe_length]), padToAlign, hpad]
  simp [attrBytes]

/-- A nested attribute is closed around its content, whatever length was written first. -/
theorem closeNested_eq {buf content old : List UInt8} (h : 4 ∣ buf.length) (hc : 4 ∣ content.length)
    (hold : old.length = 2) (ty : ℕ) :
    closeNested big (buf ++ (old ++ (toNe big 2 ty ++ content))) buf.length = buf ++ attrBytes big ty content := by
  have hdvd : 4 ∣ (buf ++ (old ++ (toNe big 2 ty ++ content))).length := by
    simp only [List.length_append, toNe_length, hold]
    omega
  have hlen : (buf ++ (old ++ (toNe big 2 ty ++ content))).length - buf.length = content.length + 4 := by
    simp only [List.length_append, toNe_length, hold]
    omega
  show patch (padToAlign _) buf.length _ = _
  rw [padToAlign_of_dvd hdvd, hlen, patch_append buf (by rw [hold, toNe_length])]
  unfold attrBytes
  rw [align_of_dvd hc, Nat.sub_self]
  simp [zeros]

theorem closeNested_openNested {buf content : List UInt8} (h : 4 ∣ buf.length) (hc : 4 ∣ content.length)
    (ty : ℕ) :
    closeNested big (openNested big buf ty ++ content) buf.length = buf ++ attrBytes big ty content := by
  have hopen : openNested big buf ty ++ content = buf ++ (toNe big 2 4 ++ (toNe big 2 ty ++ content)) := by
    unfold openNested
    rw [pushAttr_eq big h]
    simp [attrBytes, align, zeros]
  rw [hopen, closeNested_eq big h hc (toNe_length big 2 4)]

theorem dvd_openNested_length {buf : List UInt8} (h : 4 ∣ buf.length) (ty : ℕ) :
    4 ∣ (openNested big buf ty).length := by
  unfold openNested
  rw [pushAttr_eq big h]
  exact dvd_length_append h (dvd_attrBytes_length big ty [])

/-! ### Reading -/

/-- The attribute at the start of a text, and the text behind its padding. -/
def readAttr (s : List UInt8) : Option ((ℕ × List UInt8) × List UInt8) :=
  let len := ofNe big (s.take 2)
  let ty := ofNe big ((s.drop 2).take 2)
  if s.length < 4 ∨ len < 4 ∨ s.length < align len then none
  else some ((ty, (s.drop 4).take (len - 4)), s.drop (align len))

/-- The walk over a text: every attribute, up to the very end. -/
def readAttrs (s : List UInt8) : Option (List (ℕ × List UInt8)) := walk (readAttr big) s

@[simp] theorem readAttrs_nil : readAttrs big [] = some [] := rfl

theorem shrinks_readAttr : Shrinks (readAttr big) := by
  intro s a rest h
  simp only [readAttr] at h
  split_ifs at h with hbad
  have hbig := le_align (ofNe big (s.take 2))
  obtain ⟨-, rfl⟩ := Prod.mk.inj (Option.some.inj h)
  rw [List.length_drop]
  omega

/-- An attribute whose length fits is read. -/
theorem readAttr_attrBytes {ty : ℕ} (hty : ty < 65536) {content : List UInt8} (h : content.length + 4 < 65536)
    (rest : List UInt8) : readAttr big (attrBytes big ty content ++ rest) = some ((ty, content), rest) := by
  have hlen : ofNe big ((attrBytes big ty content ++ rest).take 2) = content.length + 4 := by
    unfold attrBytes
    rw [List.append_assoc, List.take_left' (toNe_length big 2 _), ofNe_toNe_of_lt big h]
  have hty' : ofNe big (((attrBytes big ty content ++ rest).drop 2).take 2) = ty := by
    unfold attrBytes
    rw [List.append_assoc, List.drop_left' (toNe_length big 2 _), List.append_assoc,
      List.take_left' (toNe_length big 2 _), ofNe_toNe_of_lt big hty]
  have hcontent : ((attrBytes big ty content ++ rest).drop 4).take content.length = content := by
    have hdrop : (attrBytes big ty content ++ rest).drop 4 =
        content ++ (zeros (align content.length - content.length) ++ rest) := by
      unfold attrBytes
      rw [show (4 : ℕ) = 2 + 2 from rfl, ← List.drop_drop, List.append_assoc,
        List.drop_left' (toNe_length big 2 _), List.append_assoc, List.drop_left' (toNe_length big 2 _),
        List.append_assoc]
    rw [hdrop, List.take_left]
  have hsize := attrBytes_length big ty content
  have hbig := le_align (content.length + 4)
  have hrest : (attrBytes big ty content ++ rest).drop (align (content.length + 4)) = rest := by
    rw [← hsize, List.drop_left]
  have htotal : (attrBytes big ty content ++ rest).length = align (content.length + 4) + rest.length := by
    rw [List.length_append, hsize]
  simp only [readAttr]
  rw [hlen, hty', if_neg (by omega), hrest, Nat.add_sub_cancel, hcontent]

theorem readAttrs_attrBytes {ty : ℕ} (hty : ty < 65536) {content : List UInt8} (h : content.length + 4 < 65536)
    (rest : List UInt8) :
    readAttrs big (attrBytes big ty content ++ rest) = (readAttrs big rest).map fun attrs => (ty, content) :: attrs :=
  walk_of_some (shrinks_readAttr big) (readAttr_attrBytes big hty h rest)

theorem readAttrs_of_one {ty : ℕ} (hty : ty < 65536) {content : List UInt8} (h : content.length + 4 < 65536) :
    readAttrs big (attrBytes big ty content) = some [(ty, content)] := by
  rw [← List.append_nil (attrBytes big ty content), readAttrs_attrBytes big hty h]
  rfl

/-- Whatever is read has a length that fits. -/
theorem length_lt_of_readAttrs {s : List UInt8} {attrs : List (ℕ × List UInt8)} (h : readAttrs big s = some attrs) :
    ∀ a ∈ attrs, a.2.length + 4 < 65536 := by
  intro a ha
  obtain ⟨t, rest, hread⟩ := exists_of_mem_walk h a ha
  simp only [readAttr] at hread
  split_ifs at hread with hbad
  obtain ⟨rfl, -⟩ := Prod.mk.inj (Option.some.inj hread)
  have hlt := ofNe_lt big (t.take 2)
  have htwo : (t.take 2).length = 2 := by
    rw [List.length_take]
    omega
  rw [htwo] at hlt
  have htake := List.length_take_le (ofNe big (t.take 2) - 4) (t.drop 4)
  show ((t.drop 4).take (ofNe big (t.take 2) - 4)).length + 4 < 65536
  omega

/-! ### Messages -/

/-- What the header of a message says beside its length. -/
structure Header where
  msgType : UInt16
  flags : UInt16
  seq : UInt32
  family : UInt8
deriving DecidableEq

structure Message where
  header : Header
  attrs : List (ℕ × List UInt8)
deriving DecidableEq

/-- The header of a message of `len` bytes: sixteen bytes for every family, four for this one. -/
def headerBytes (len : ℕ) (header : Header) (resId : List UInt8) : List UInt8 :=
  toNe big 4 len ++ (toNe big 2 header.msgType.toNat ++ (toNe big 2 header.flags.toNat ++
    (toNe big 4 header.seq.toNat ++ (toNe big 4 0 ++ ([header.family, 0] ++ resId)))))

@[simp] theorem headerBytes_length (len : ℕ) (header : Header) {resId : List UInt8} (h : resId.length = 2) :
    (headerBytes big len header resId).length = 20 := by
  simp [headerBytes, h]

/-- The length of a message is written over the first one. -/
theorem patch_headerBytes (buf : List UInt8) (len len' : ℕ) (header : Header) (resId body : List UInt8) :
    patch (buf ++ (headerBytes big len header resId ++ body)) buf.length (toNe big 4 len') =
      buf ++ (headerBytes big len' header resId ++ body) := by
  unfold headerBytes
  rw [List.append_assoc, List.append_assoc (toNe big 4 len'), patch_append buf (by rw [toNe_length, toNe_length])]

def readHeader (s : List UInt8) : Header where
  msgType := UInt16.ofNat (ofNe big ((s.drop 4).take 2))
  flags := UInt16.ofNat (ofNe big ((s.drop 6).take 2))
  seq := UInt32.ofNat (ofNe big ((s.drop 8).take 4))
  family := (s.drop 16).headD 0

theorem readHeader_headerBytes (len : ℕ) (header : Header) (resId rest : List UInt8) :
    readHeader big (headerBytes big len header resId ++ rest) = header := by
  have h2 := toNe_length big 2
  have h4 := toNe_length big 4
  have htype : UInt16.ofNat (ofNe big (toNe big 2 header.msgType.toNat)) = header.msgType := by
    rw [ofNe_toNe_of_lt big header.msgType.toNat_lt, UInt16.ofNat_toNat]
  have hflags : UInt16.ofNat (ofNe big (toNe big 2 header.flags.toNat)) = header.flags := by
    rw [ofNe_toNe_of_lt big header.flags.toNat_lt, UInt16.ofNat_toNat]
  have hseq : UInt32.ofNat (ofNe big (toNe big 4 header.seq.toNat)) = header.seq := by
    rw [ofNe_toNe_of_lt big header.seq.toNat_lt, UInt32.ofNat_toNat]
  have hrest : headerBytes big len header resId ++ rest =
      toNe big 4 len ++ (toNe big 2 header.msgType.toNat ++ (toNe big 2 header.flags.toNat ++
        (toNe big 4 header.seq.toNat ++ (toNe big 4 0 ++ (header.family :: 0 :: (resId ++ rest)))))) := by
    simp [headerBytes]
  have h6 : (6 : ℕ) = 4 + 2 := rfl
  have h8 : (8 : ℕ) = 4 + 2 + 2 := rfl
  have h16 : (16 : ℕ) = 4 + 2 + 2 + 4 + 4 := rfl
  unfold readHeader
  rw [hrest, h16, h8, h6]
  simp only [← List.drop_drop, List.drop_left' (h2 _), List.drop_left' (h4 _), List.take_left' (h2 _),
    List.take_left' (h4 _), htype, hflags, hseq, List.headD_cons]

/-- The message at the start of a packet, whose attributes fill it. -/
def readMessage (s : List UInt8) : Option (Message × List UInt8) :=
  let len := ofNe big (s.take 4)
  if len < 20 ∨ s.length < align len then none
  else (readAttrs big ((s.take len).drop 20)).map fun attrs =>
    (⟨readHeader big s, attrs⟩, s.drop (align len))

/-- A message is read with the attributes of its body. -/
theorem readMessage_headerBytes (header : Header) {resId body : List UInt8} (hres : resId.length = 2)
    (h4 : 4 ∣ body.length) (hlen : 20 + body.length < 2 ^ 32) (rest : List UInt8) :
    readMessage big (headerBytes big (20 + body.length) header resId ++ body ++ rest) =
      (readAttrs big body).map fun attrs => (⟨header, attrs⟩, rest) := by
  have hhead := headerBytes_length big (20 + body.length) header hres
  have hmsg : (headerBytes big (20 + body.length) header resId ++ body).length = 20 + body.length := by
    rw [List.length_append, hhead]
  have hread : ofNe big ((headerBytes big (20 + body.length) header resId ++ body ++ rest).take 4) =
      20 + body.length := by
    unfold headerBytes
    rw [List.append_assoc, List.append_assoc, List.take_left' (toNe_length big 4 _), ofNe_toNe_of_lt big hlen]
  have halign : align (20 + body.length) = 20 + body.length := align_of_dvd (by omega)
  have hheader : readHeader big (headerBytes big (20 + body.length) header resId ++ body ++ rest) = header := by
    rw [List.append_assoc]
    exact readHeader_headerBytes big _ header resId _
  have htotal : ¬ (20 + body.length < 20 ∨
      (headerBytes big (20 + body.length) header resId ++ body ++ rest).length < 20 + body.length) := by
    rw [List.length_append, hmsg]
    omega
  simp only [readMessage]
  rw [hread, halign, if_neg htotal, hheader, List.take_left' hmsg, List.drop_left' hmsg, List.drop_left' hhead]

/-- The attributes of whatever message is read have lengths that fit. -/
theorem length_lt_of_readMessage {s rest : List UInt8} {m : Message} (h : readMessage big s = some (m, rest)) :
    ∀ a ∈ m.attrs, a.2.length + 4 < 65536 := by
  simp only [readMessage] at h
  split_ifs at h
  obtain ⟨attrs, hattrs, heq⟩ := Option.map_eq_some_iff.mp h
  obtain ⟨rfl, -⟩ := Prod.mk.inj heq
  exact length_lt_of_readAttrs big hattrs

theorem shrinks_readMessage : Shrinks (readMessage big) := by
  intro s m rest h
  simp only [readMessage] at h
  split_ifs at h with hbad
  have hbig := le_align (ofNe big (s.take 4))
  obtain ⟨attrs, -, heq⟩ := Option.map_eq_some_iff.mp h
  obtain ⟨-, rfl⟩ := Prod.mk.inj heq
  rw [List.length_drop]
  omega

end

/-! ### Strings -/

/-- The text of a string attribute: up to the zero, which must be there. -/
def cString (content : List UInt8) : Option (List UInt8) :=
  if 0 ∈ content then some (content.takeWhile (· ≠ 0)) else none

theorem cString_append {name : List UInt8} (h : 0 ∉ name) : cString (name ++ [0]) = some name := by
  unfold cString
  rw [if_pos (List.mem_append_right _ List.mem_cons_self), List.takeWhile_append_of_pos]
  · simp
  · intro b hb
    simpa using fun h0 : b = 0 => h (h0 ▸ hb)

theorem of_cString {content name : List UInt8} (h : cString content = some name) :
    0 ∉ name ∧ name.length < content.length := by
  unfold cString at h
  split_ifs at h with hzero
  obtain rfl := Option.some.inj h
  have hnot : 0 ∉ content.takeWhile (· ≠ 0) := by
    intro hmem
    have hne := List.all_eq_true.mp List.all_takeWhile 0 hmem
    simp at hne
  refine ⟨hnot, ?_⟩
  have hle := (List.takeWhile_prefix (· ≠ (0 : UInt8)) (l := content)).length_le
  rcases Nat.lt_or_eq_of_le hle with hlt | heq
  · exact hlt
  · have hall := (List.takeWhile_prefix (· ≠ (0 : UInt8)) (l := content)).eq_of_length heq
    rw [hall] at hnot
    exact absurd hzero hnot

end Netlink
end Lib
end SmartDns
