import NoiseLink.Crypto.ChaCha
import NoiseLink.Crypto.Poly1305

/-! ChaCha20-Poly1305. A sealed text is the text under the key stream followed by a tag over it
and its associated data. A text opens exactly when it is the sealing of what it opens to. -/
namespace NoiseLink.Aead

def tagLength : Nat := 16

/-- A text of this many bytes or more would run through the 32-bit block counter. -/
def textLimit : Nat := 64 * ((1 <<< 32) - 1)

/-- Adds the key stream; block zero is kept for the authenticator. -/
def crypt (key : Octets 32) (nonce : Octets 12) (text : Bytes) : Bytes :=
  Bytes.xor text (ChaCha.keyStream key nonce 1 text.length)

/-- The tag over associated data, text and the lengths of both. -/
def authenticate (key : Octets 32) (nonce : Octets 12) (ad body : Bytes) : Octets 16 :=
  let once : Octets 32 := ⟨(ChaCha.block20 key nonce 0).take 32, by simp⟩
  Poly1305.tag once
    [ad, body, Bytes.littleEndian 8 ad.length ++ Bytes.littleEndian 8 body.length]

/-- Seals a text, unless it is too long for the block counter. -/
def encrypt? (key : Octets 32) (nonce : Octets 12) (ad text : Bytes) : Option Bytes :=
  if text.length < textLimit then
    let body := crypt key nonce text
    some (body ++ (authenticate key nonce ad body).bytes)
  else none

/-- Opens a sealed text, unless it is too short, too long or carries another tag. -/
def decrypt? (key : Octets 32) (nonce : Octets 12) (ad sealed : Bytes) : Option Bytes :=
  if sealed.length < tagLength then none
  else
    let body := sealed.take (sealed.length - tagLength)
    let tag := sealed.drop (sealed.length - tagLength)
    if body.length < textLimit ∧ tag = (authenticate key nonce ad body).bytes then
      some (crypt key nonce body)
    else none

@[simp] theorem length_crypt (key : Octets 32) (nonce : Octets 12) (text : Bytes) :
    (crypt key nonce text).length = text.length := by
  simp [crypt]

@[simp] theorem crypt_crypt (key : Octets 32) (nonce : Octets 12) (text : Bytes) :
    crypt key nonce (crypt key nonce text) = text := by
  rw [crypt, length_crypt, crypt, Bytes.xor_xor]
  simp

theorem length_encrypt {key : Octets 32} {nonce : Octets 12} {ad text sealed : Bytes}
    (h : encrypt? key nonce ad text = some sealed) : sealed.length = text.length + tagLength := by
  simp only [encrypt?] at h
  split at h <;> simp_all
  subst h; simp [tagLength]

/-- A text opens to another exactly when it is the sealing of that other. -/
theorem decrypt?_eq_some_iff {key : Octets 32} {nonce : Octets 12} {ad text sealed : Bytes} :
    decrypt? key nonce ad sealed = some text ↔ encrypt? key nonce ad text = some sealed := by
  constructor
  · intro h
    simp only [decrypt?] at h
    split at h
    · simp at h
    · rename_i long
      split at h
      · rename_i genuine
        obtain ⟨inLimit, sameTag⟩ := genuine
        simp only [Option.some.injEq] at h
        subst h
        have inLimit' : (crypt key nonce (sealed.take (sealed.length - tagLength))).length
            < textLimit := by simpa using inLimit
        simp only [encrypt?, inLimit', if_true, crypt_crypt]
        rw [← sameTag, List.take_append_drop]
      · simp at h
  · intro h
    simp only [encrypt?] at h
    split at h
    · rename_i inLimit
      simp only [Option.some.injEq] at h
      subst h
      simp [decrypt?, tagLength, inLimit]
    · simp at h

end NoiseLink.Aead
