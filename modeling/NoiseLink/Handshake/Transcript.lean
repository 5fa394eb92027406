import NoiseLink.CipherState

/-! What both parties to a handshake keep in step: a hash of all that was said, a chaining key fed
by the shared secrets, and a key for sealing parts of the acts. The hash goes into every sealing
as associated data, and every sealing goes into the hash. -/
namespace NoiseLink

structure Transcript where
  chainingKey : Octets 32
  hash : Octets 32
  temporaryKey : Octets 32
  nonce : Nat
deriving DecidableEq

namespace Transcript

def mixHash (t : Transcript) (data : Bytes) : Transcript :=
  { t with hash := Sha256.digest (t.hash.bytes ++ data) }

def mixKey (t : Transcript) (material : Bytes) : Transcript :=
  let derived := hkdf t.chainingKey material
  { t with chainingKey := derived.1, temporaryKey := derived.2, nonce := 0 }

def start (protocolName prologue : Bytes) : Transcript :=
  let hash := Sha256.digest protocolName
  (Transcript.mk hash hash (Octets.zero 32) 0).mixHash prologue

def count (t : Transcript) : Transcript := { t with nonce := t.nonce + 1 }

/-- Seals a text against all that was said, and adds the sealing to it. -/
def sealText (t : Transcript) (text : Bytes) : Except Error Bytes × Transcript :=
  match Aead.encrypt? t.temporaryKey (nonceBytes t.nonce) t.hash.bytes text with
  | some sealed => (.ok sealed, t.count.mixHash sealed)
  | none => (.error .encryptionFailed, t.count)

/-- Opens a text that was sealed against all that was said. A text that does not open costs its
nonce and changes nothing else. -/
def openText (t : Transcript) (sealed : Bytes) : Except Error Bytes × Transcript :=
  match Aead.decrypt? t.temporaryKey (nonceBytes t.nonce) t.hash.bytes sealed with
  | some text => (.ok text, t.count.mixHash sealed)
  | none => (.error .handshakeAuthentication, t.count)

theorem sealText_ok_iff {t next : Transcript} {text sealed : Bytes} :
    t.sealText text = (.ok sealed, next) ↔
      Aead.encrypt? t.temporaryKey (nonceBytes t.nonce) t.hash.bytes text = some sealed ∧
        next = t.count.mixHash sealed := by
  rw [sealText]
  split
  · rename_i found same
    simp only [same, Prod.mk.injEq, Except.ok.injEq, Option.some.injEq]
    constructor
    · rintro ⟨rfl, rfl⟩
      exact ⟨rfl, rfl⟩
    · rintro ⟨rfl, rfl⟩
      exact ⟨rfl, rfl⟩
  · rename_i refused
    simp [refused]

/-- A text opens to what it was sealed from, and to nothing else. -/
theorem openText_ok_iff {t next : Transcript} {text sealed : Bytes} :
    t.openText sealed = (.ok text, next) ↔ t.sealText text = (.ok sealed, next) := by
  rw [sealText_ok_iff, ← Aead.decrypt?_eq_some_iff, openText]
  split
  · rename_i found same
    simp only [same, Prod.mk.injEq, Except.ok.injEq, Option.some.injEq, @eq_comm _ next]
  · rename_i refused
    simp [refused]

theorem length_of_sealText {t next : Transcript} {text sealed : Bytes}
    (h : t.sealText text = (.ok sealed, next)) : sealed.length = text.length + 16 :=
  Aead.length_encrypt (sealText_ok_iff.1 h).1

/-- Seals a text of known length. -/
def encrypt (t : Transcript) (text : Octets n) : Except Error (Octets (n + 16)) × Transcript :=
  match h : t.sealText text.bytes with
  | (.ok sealed, next) => (.ok ⟨sealed, by simp [length_of_sealText h]⟩, next)
  | (.error error, next) => (.error error, next)

/-- Opens a sealed text of known length. -/
def decrypt (t : Transcript) (sealed : Octets (n + 16)) : Except Error (Octets n) × Transcript :=
  match h : t.openText sealed.bytes with
  | (.ok text, next) =>
    (.ok ⟨text, by have := length_of_sealText (openText_ok_iff.1 h); simp at this; omega⟩, next)
  | (.error error, next) => (.error error, next)

def split (t : Transcript) : CipherState × CipherState :=
  let derived := hkdf t.chainingKey []
  (CipherState.start derived.1 t.chainingKey, CipherState.start derived.2 t.chainingKey)

end Transcript
end NoiseLink
