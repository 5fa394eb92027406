import NoiseLink.Proofs.Encoding
import NoiseLink.Sender

/-! Sealing and opening are inverse steps of one cipher: a unit opens to a text, and leaves a cipher
behind, exactly when sealing the text gives that unit and that cipher. A list of payloads therefore
has one encoding as frames under a cipher, whatever changes of key lie in between. -/
namespace NoiseLink

namespace CipherState

theorem decrypt_ok_iff {c next : CipherState} {sealed text : Bytes} :
    c.decrypt sealed = (.ok text, next) ↔ c.encrypt text = (.ok sealed, next) := by
  have inverse : Aead.decrypt? c.key (nonceBytes c.nonce) [] sealed = some text ↔
      Aead.encrypt? c.key (nonceBytes c.nonce) [] text = some sealed := Aead.decrypt?_eq_some_iff
  constructor
  · intro h
    rw [decrypt] at h
    split at h
    · rename_i found opened
      simp only [Prod.mk.injEq, Except.ok.injEq] at h
      obtain ⟨rfl, rfl⟩ := h
      rw [encrypt, inverse.1 opened]
    · simp at h
  · intro h
    rw [encrypt] at h
    split at h
    · rename_i found closed
      simp only [Prod.mk.injEq, Except.ok.injEq] at h
      obtain ⟨rfl, rfl⟩ := h
      rw [decrypt, inverse.2 closed]
    · simp at h

theorem error_of_decrypt {c next : CipherState} {sealed : Bytes} {error : Error}
    (h : c.decrypt sealed = (.error error, next)) : error = .decryptionFailed := by
  rw [decrypt] at h
  split at h
  · simp at h
  · cases h
    rfl

theorem length_of_encrypt {c next : CipherState} {text sealed : Bytes}
    (h : c.encrypt text = (.ok sealed, next)) : sealed.length = text.length + Aead.tagLength := by
  rw [encrypt] at h
  split at h
  · rename_i found closed
    simp only [Prod.mk.injEq, Except.ok.injEq] at h
    obtain ⟨rfl, -⟩ := h
    exact Aead.length_encrypt closed
  · simp at h

theorem encrypt_of_length (c : CipherState) {text : Bytes} (inLimit : text.length < Aead.textLimit) :
    ∃ sealed, c.encrypt text = (.ok sealed, c.count.rotateWhenDue) := by
  simp [encrypt, Aead.encrypt?, inLimit]

theorem frame_ok_iff {c last : CipherState} {payload wire : Bytes} :
    c.frame payload = (.ok wire, last) ↔
      ∃ header middle body, c.encrypt (Bytes.bigEndian lengthPrefixLength payload.length) =
        (.ok header, middle) ∧ middle.encrypt payload = (.ok body, last) ∧ wire = header ++ body := by
  rw [frame]
  split
  · rename_i error middle refused
    simp [refused]
  · rename_i header middle first
    split
    · rename_i error after refused
      simp [first, refused]
    · rename_i body after second
      constructor
      · intro h
        simp only [Prod.mk.injEq, Except.ok.injEq] at h
        obtain ⟨rfl, rfl⟩ := h
        exact ⟨header, middle, body, first, second, rfl⟩
      · rintro ⟨header', middle', body', first', second', rfl⟩
        rw [first] at first'
        cases first'
        rw [second] at second'
        cases second'
        rfl

theorem length_of_frame {c last : CipherState} {payload wire : Bytes}
    (h : c.frame payload = (.ok wire, last)) :
    wire.length = headerLength + (payload.length + Aead.tagLength) := by
  obtain ⟨header, middle, body, first, second, rfl⟩ := frame_ok_iff.1 h
  rw [List.length_append, length_of_encrypt first, length_of_encrypt second, Bytes.length_bigEndian]
  rfl

theorem frame_of_length (c : CipherState) {payload : Bytes} (fits : payload.length ≤ maxPayloadLength) :
    ∃ wire last, c.frame payload = (.ok wire, last) := by
  have small : payload.length < Aead.textLimit := by
    simp only [maxPayloadLength, Aead.textLimit] at fits ⊢; omega
  have short : (Bytes.bigEndian lengthPrefixLength payload.length).length < Aead.textLimit := by
    rw [Bytes.length_bigEndian]; decide
  obtain ⟨header, first⟩ := c.encrypt_of_length short
  obtain ⟨body, second⟩ := c.count.rotateWhenDue.encrypt_of_length small
  exact ⟨_, _, frame_ok_iff.2 ⟨header, _, body, first, second, rfl⟩⟩

/-- A list of payloads, their frames one after the other, and the ciphers before and after them. -/
inductive Frames : CipherState → List Bytes → Bytes → CipherState → Prop where
  | nil {c} : Frames c [] [] c
  | cons {c next last payload payloads wire rest} : c.frame payload = (.ok wire, next) →
      Frames next payloads rest last → Frames c (payload :: payloads) (wire ++ rest) last

def wireLength (payloads : List Bytes) : Nat :=
  (payloads.map fun payload => headerLength + (payload.length + Aead.tagLength)).sum

theorem wireLength_eq (payloads : List Bytes) :
    wireLength payloads = (payloads.map fun payload => 34 + payload.length).sum := by
  refine congrArg List.sum (List.map_congr_left fun payload _ => ?_)
  simp only [headerLength, lengthPrefixLength, Aead.tagLength]
  omega

namespace Frames

theorem append {c middle last : CipherState} {first second : List Bytes} {wire rest : Bytes}
    (before : Frames c first wire middle) (after : Frames middle second rest last) :
    Frames c (first ++ second) (wire ++ rest) last := by
  induction before with
  | nil => exact after
  | cons head _ ih =>
    rw [List.append_assoc]
    exact .cons head (ih after)

theorem length_eq {c last : CipherState} {payloads : List Bytes} {wire : Bytes}
    (frames : Frames c payloads wire last) : wire.length = wireLength payloads := by
  induction frames with
  | nil => rfl
  | cons head _ ih =>
    rw [List.length_append, ih, length_of_frame head]
    simp [wireLength]

theorem of_append {c last : CipherState} {first second : List Bytes} {wire : Bytes}
    (frames : Frames c (first ++ second) wire last) :
    ∃ before middle after, Frames c first before middle ∧ Frames middle second after last ∧
      wire = before ++ after := by
  induction first generalizing c wire with
  | nil => exact ⟨[], c, wire, .nil, frames, rfl⟩
  | cons payload first ih =>
    cases frames with
    | cons head tail =>
      obtain ⟨before, middle, after, one, two, rfl⟩ := ih tail
      exact ⟨_, middle, after, .cons head one, two, (List.append_assoc ..).symm⟩

/-- A list of payloads has one encoding. -/
theorem unique {c last other : CipherState} {payloads : List Bytes} {wire encoding : Bytes}
    (one : Frames c payloads wire last) (two : Frames c payloads encoding other) :
    wire = encoding ∧ last = other := by
  induction one generalizing encoding with
  | nil => cases two; exact ⟨rfl, rfl⟩
  | cons head _ ih =>
    cases two with
    | cons head' tail' =>
      rw [head] at head'
      cases head'
      obtain ⟨rfl, rfl⟩ := ih tail'
      exact ⟨rfl, rfl⟩

theorem of_lengths (c : CipherState) {payloads : List Bytes}
    (fit : ∀ payload ∈ payloads, payload.length ≤ maxPayloadLength) :
    ∃ wire last, Frames c payloads wire last := by
  induction payloads generalizing c with
  | nil => exact ⟨[], c, .nil⟩
  | cons payload payloads ih =>
    obtain ⟨head, next, first⟩ := c.frame_of_length (fit payload List.mem_cons_self)
    obtain ⟨rest, last, others⟩ := ih next fun p member => fit p (List.mem_cons_of_mem _ member)
    exact ⟨head ++ rest, last, .cons first others⟩

end Frames
end CipherState

namespace Bytes

theorem bigEndian_ofBigEndian_two (high low : UInt8) :
    bigEndian lengthPrefixLength (ofBigEndian [high, low]) = [high, low] :=
  bigEndian_ofBigEndian [high, low]

theorem ofBigEndian_two_le (high low : UInt8) : ofBigEndian [high, low] ≤ maxPayloadLength := by
  have bounded : ofBigEndian [high, low] < 256 ^ 2 := ofBigEndian_lt [high, low]
  simp only [maxPayloadLength]
  omega

end Bytes
end NoiseLink
