/-
# Dialogues

One side of a dialogue sends and receives by turns. A dialogue that comes to an end is described by what it has to
hear and what it says for each result (`Talks`), and this composes along its steps (`Talks.bind`), as what a reader
takes does (`Hears.bind`).

Key definitions: `Dialogue`, `Talk`, `Hears`, `Talks`, `Says`.
Key theorems: `Hears.bind`, `Talks.bind`.
-/
import SmartDns.Lib.Backpatch
import SmartDns.Lib.Reader

namespace SmartDns
namespace Lib

/-- What is still to come from the other side, and what was sent to it. -/
structure Dialogue (B : Type) where
  incoming : List B
  sent : List B := []

abbrev Talk (B E A : Type) := EStateM E (Dialogue B) A

variable {B E A A' : Type}

def recv (r : Reader B E A) : Talk B E A := fun s =>
  match r s.incoming with
  | .ok (a, rest) => .ok a { s with incoming := rest }
  | .error e => .error e s

def send (bytes : List B) : Talk B E Unit := fun s => .ok () { s with sent := s.sent ++ bytes }

/-- What is done next only has to agree on what comes out. -/
theorem bind_congr_ok {S : Type} {w : EStateM E S A} {f g : A → EStateM E S A'} {s : S}
    (h : ∀ a s', w s = .ok a s' → f a s' = g a s') : (w >>= f) s = (w >>= g) s := by
  show EStateM.bind w f s = EStateM.bind w g s
  unfold EStateM.bind
  cases hw : w s with
  | ok a s' => exact h a s' hw
  | error e s' => rfl

/-! ### Dialogues that come to an end -/

/-- `t` ends with `a` where it hears `c` and says `w` that go with `a`, and nowhere else. -/
structure Talks (t : Talk B E A) (R : A → List B → List B → Prop) : Prop where
  ok_iff : ∀ {s s' : Dialogue B} {a : A},
    t s = .ok a s' ↔ ∃ c w, R a c w ∧ s.incoming = c ++ s'.incoming ∧ s'.sent = s.sent ++ w

/-- A reader takes what goes with its result, and nothing else. -/
structure Hears (r : Reader B E A) (P : A → List B → Prop) : Prop where
  ok_iff : ∀ {d rest : List B} {a : A}, r d = .ok (a, rest) ↔ ∃ c, P a c ∧ d = c ++ rest

theorem Hears.bind {r : Reader B E A} {f : A → Reader B E A'} {P : A → List B → Prop} {Q : A → A' → List B → Prop}
    (h : Hears r P) (h' : ∀ a, Hears (f a) (Q a)) :
    Hears (r >>= f) fun a' c => ∃ a c₁ c₂, P a c₁ ∧ Q a a' c₂ ∧ c = c₁ ++ c₂ where
  ok_iff {d rest a'} := by
    rw [Lib.bind_eq_ok_iff]
    constructor
    · rintro ⟨a, d', hr, hf⟩
      obtain ⟨c₁, hP, rfl⟩ := h.ok_iff.mp hr
      obtain ⟨c₂, hQ, rfl⟩ := (h' a).ok_iff.mp hf
      exact ⟨c₁ ++ c₂, ⟨a, c₁, c₂, hP, hQ, rfl⟩, (List.append_assoc _ _ _).symm⟩
    · rintro ⟨_, ⟨a, c₁, c₂, hP, hQ, rfl⟩, rfl⟩
      exact ⟨a, c₂ ++ rest, h.ok_iff.mpr ⟨c₁, hP, List.append_assoc _ _ _⟩, (h' a).ok_iff.mpr ⟨c₂, hQ, rfl⟩⟩

theorem Hears.congr {r : Reader B E A} {P Q : A → List B → Prop} (h : Hears r P) (heq : ∀ a c, P a c ↔ Q a c) :
    Hears r Q where
  ok_iff := h.ok_iff.trans (exists_congr fun c => and_congr_left fun _ => heq _ c)

/-- A reader that takes an element and decides by it. -/
theorem Hears.decide {r : Reader B E B} (hr : Hears r fun b c => c = [b]) {f : B → Reader B E A} {P : B → A → Prop}
    (h : ∀ b a d rest, f b d = .ok (a, rest) ↔ P b a ∧ rest = d) :
    Hears (r >>= f) fun a c => ∃ b, P b a ∧ c = [b] := by
  have hf (b : B) : Hears (f b) fun a c => P b a ∧ c = [] := by
    constructor
    intro d rest a
    rw [h]
    constructor
    · rintro ⟨hP, rfl⟩
      exact ⟨[], ⟨hP, rfl⟩, rfl⟩
    · rintro ⟨_, ⟨hP, rfl⟩, rfl⟩
      exact ⟨hP, rfl⟩
  refine (hr.bind hf).congr fun a c => ?_
  constructor
  · rintro ⟨b, _, _, rfl, ⟨hP, rfl⟩, rfl⟩
    exact ⟨b, hP, rfl⟩
  · rintro ⟨b, hP, rfl⟩
    exact ⟨b, [b], [], rfl, ⟨hP, rfl⟩, rfl⟩

theorem Talks.recv {r : Reader B E A} {P : A → List B → Prop} (h : Hears r P) :
    Talks (recv r) fun a c w => P a c ∧ w = [] where
  ok_iff {s s' a} := by
    obtain ⟨incoming', sent'⟩ := s'
    unfold Lib.recv
    constructor
    · intro hrun
      cases hr : r s.incoming with
      | error e =>
        rw [hr] at hrun
        cases hrun
      | ok p =>
        rw [hr] at hrun
        cases hrun
        obtain ⟨c, hP, hc⟩ := h.ok_iff.mp hr
        exact ⟨c, [], ⟨hP, rfl⟩, hc, (List.append_nil _).symm⟩
    · rintro ⟨c, w, ⟨hP, rfl⟩, hc, hw⟩
      rw [h.ok_iff.mpr ⟨c, hP, hc⟩]
      obtain rfl : sent' = s.sent := hw.trans (List.append_nil _)
      rfl

theorem Talks.send (bytes : List B) : Talks (send bytes : Talk B E Unit) fun _ c w => c = [] ∧ w = bytes where
  ok_iff {s s' a} := by
    obtain ⟨incoming', sent'⟩ := s'
    constructor
    · intro hrun
      cases hrun
      exact ⟨[], bytes, ⟨rfl, rfl⟩, rfl, rfl⟩
    · rintro ⟨c, w, ⟨rfl, rfl⟩, hc, hw⟩
      obtain rfl : s.incoming = incoming' := hc
      obtain rfl : sent' = s.sent ++ w := hw
      rfl

theorem Talks.pure (x : A) : Talks (Pure.pure x : Talk B E A) fun a c w => a = x ∧ c = [] ∧ w = [] where
  ok_iff {s s' a} := by
    obtain ⟨incoming', sent'⟩ := s'
    constructor
    · intro hrun
      cases hrun
      exact ⟨[], [], ⟨rfl, rfl, rfl⟩, rfl, (List.append_nil _).symm⟩
    · rintro ⟨c, w, ⟨rfl, rfl, rfl⟩, hc, hw⟩
      obtain rfl : s.incoming = incoming' := hc
      obtain rfl : sent' = s.sent := hw.trans (List.append_nil _)
      rfl

theorem Talks.throw (e : E) : Talks (throw e : Talk B E A) fun _ _ _ => False where
  ok_iff := ⟨fun h => (by cases h), fun ⟨_, _, h, _⟩ => h.elim⟩

theorem Talks.bind {t : Talk B E A} {f : A → Talk B E A'} {R : A → List B → List B → Prop}
    {Q : A → A' → List B → List B → Prop} (h : Talks t R) (h' : ∀ a, Talks (f a) (Q a)) :
    Talks (t >>= f) fun a' c w => ∃ a c₁ w₁ c₂ w₂, R a c₁ w₁ ∧ Q a a' c₂ w₂ ∧ c = c₁ ++ c₂ ∧ w = w₁ ++ w₂ where
  ok_iff {s s' a'} := by
    rw [write_bind_eq_ok_iff]
    constructor
    · rintro ⟨a, s₁, ht, hf⟩
      obtain ⟨c₁, w₁, hR, hc₁, hw₁⟩ := h.ok_iff.mp ht
      obtain ⟨c₂, w₂, hQ, hc₂, hw₂⟩ := (h' a).ok_iff.mp hf
      refine ⟨c₁ ++ c₂, w₁ ++ w₂, ⟨a, c₁, w₁, c₂, w₂, hR, hQ, rfl, rfl⟩, ?_, ?_⟩
      · rw [hc₁, hc₂, List.append_assoc]
      · rw [hw₂, hw₁, List.append_assoc]
    · rintro ⟨_, _, ⟨a, c₁, w₁, c₂, w₂, hR, hQ, rfl, rfl⟩, hc, hw⟩
      refine ⟨a, ⟨c₂ ++ s'.incoming, s.sent ++ w₁⟩, h.ok_iff.mpr ⟨c₁, w₁, hR, ?_, rfl⟩,
        (h' a).ok_iff.mpr ⟨c₂, w₂, hQ, rfl, ?_⟩⟩
      · rw [hc, List.append_assoc]
      · rw [hw, List.append_assoc]

theorem Talks.congr {t : Talk B E A} {R Q : A → List B → List B → Prop} (h : Talks t R)
    (heq : ∀ a c w, R a c w ↔ Q a c w) : Talks t Q where
  ok_iff := h.ok_iff.trans (exists_congr fun c => exists_congr fun w => and_congr_left fun _ => heq _ c w)

/-- Hears, and goes on as what is heard says. -/
theorem Talks.recv_bind {r : Reader B E A} {f : A → Talk B E A'} {P : A → List B → Prop}
    {Q : A → A' → List B → List B → Prop} (h : Hears r P) (h' : ∀ a c, P a c → Talks (f a) (Q a)) :
    Talks (Lib.recv r >>= f) fun a' c w => ∃ a c₁ c₂, P a c₁ ∧ Q a a' c₂ w ∧ c = c₁ ++ c₂ where
  ok_iff {s s' a'} := by
    rw [write_bind_eq_ok_iff]
    constructor
    · rintro ⟨a, s₁, hr, hf⟩
      obtain ⟨c₁, w₁, ⟨hP, rfl⟩, hc₁, hw₁⟩ := (Talks.recv h).ok_iff.mp hr
      obtain ⟨c₂, w₂, hQ, hc₂, hw₂⟩ := (h' a c₁ hP).ok_iff.mp hf
      refine ⟨c₁ ++ c₂, w₂, ⟨a, c₁, c₂, hP, hQ, rfl⟩, ?_, ?_⟩
      · rw [hc₁, hc₂, List.append_assoc]
      · rw [hw₂, hw₁, List.append_nil]
    · rintro ⟨_, w, ⟨a, c₁, c₂, hP, hQ, rfl⟩, hc, hw⟩
      refine ⟨a, ⟨c₂ ++ s'.incoming, s.sent⟩, (Talks.recv h).ok_iff.mpr ⟨c₁, [], ⟨hP, rfl⟩, ?_, ?_⟩,
        (h' a c₁ hP).ok_iff.mpr ⟨c₂, w, hQ, rfl, hw⟩⟩
      · rw [hc, List.append_assoc]
      · exact (List.append_nil _).symm

/-! ### Messages of one's own -/

/-- `t` says `bytes` where `ok` holds, and breaks off elsewhere. -/
structure Says (t : Talk B E Unit) (ok : Prop) (bytes : List B) : Prop where
  talks : Talks t fun _ c w => ok ∧ c = [] ∧ w = bytes

theorem Says.send (bytes : List B) : Says (send bytes : Talk B E Unit) True bytes where
  talks := (Talks.send bytes).congr fun _ _ _ => ⟨fun h => ⟨trivial, h⟩, fun h => h.2⟩

theorem Says.throw (e : E) {ok : Prop} (bytes : List B) (h : ¬ ok) : Says (throw e : Talk B E Unit) ok bytes where
  talks := (Talks.throw e).congr fun _ _ _ => ⟨False.elim, fun h' => h h'.1⟩

theorem Says.bind {t t' : Talk B E Unit} {ok ok' : Prop} {bytes bytes' : List B} (h : Says t ok bytes)
    (h' : Says t' ok' bytes') : Says (t >>= fun _ => t') (ok ∧ ok') (bytes ++ bytes') where
  talks := by
    refine (h.talks.bind fun _ => h'.talks).congr fun _ c w => ?_
    constructor
    · rintro ⟨_, _, _, _, _, ⟨hok, rfl, rfl⟩, ⟨hok', rfl, rfl⟩, rfl, rfl⟩
      exact ⟨⟨hok, hok'⟩, rfl, rfl⟩
    · rintro ⟨⟨hok, hok'⟩, rfl, rfl⟩
      exact ⟨(), [], bytes, [], bytes', ⟨hok, rfl, rfl⟩, ⟨hok', rfl, rfl⟩, rfl, rfl⟩

/-- Says `bytes`, and goes on. -/
theorem Says.followed {t : Talk B E Unit} {t' : Talk B E A} {ok : Prop} {bytes : List B}
    {R : A → List B → List B → Prop} (h : Says t ok bytes) (h' : Talks t' R) :
    Talks (t >>= fun _ => t') fun a c w => ok ∧ ∃ w', R a c w' ∧ w = bytes ++ w' := by
  refine (h.talks.bind fun _ => h').congr fun a c w => ?_
  constructor
  · rintro ⟨_, _, _, _, w', ⟨hok, rfl, rfl⟩, hR, rfl, rfl⟩
    exact ⟨hok, w', hR, rfl⟩
  · rintro ⟨hok, w', hR, rfl⟩
    exact ⟨(), [], bytes, c, w', ⟨hok, rfl, rfl⟩, hR, rfl, rfl⟩

theorem Says.congr {t : Talk B E Unit} {ok ok' : Prop} {bytes bytes' : List B} (h : Says t ok bytes)
    (hok : ok ↔ ok') (hbytes : bytes = bytes') : Says t ok' bytes' := by
  obtain rfl := propext hok
  exact hbytes ▸ h

end Lib
end SmartDns
