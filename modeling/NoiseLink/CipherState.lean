import NoiseLink.Crypto.Aead
import NoiseLink.Crypto.Hkdf
import NoiseLink.Error

/-! The cipher of one direction of a connection. Every text is sealed or opened under a nonce that
counts up from zero, and after 1000 of them a new key is derived and the count starts again; the
two ends stay in step because a text that does not open is counted like one that does. -/
namespace NoiseLink

def rekeyInterval : Nat := 1000

/-- Four zero bytes and a little-endian counter. -/
def nonceBytes (counter : Nat) : Octets 12 :=
  Octets.zero 4 ++ Octets.littleEndian 8 counter

structure CipherState where
  key : Octets 32
  chainingKey : Octets 32
  nonce : Nat
  /-- How many keys came before this one. -/
  generation : Nat
deriving DecidableEq

/-- A change of key, by the generations before and after it. -/
structure Rotation where
  before : Nat
  after : Nat
deriving DecidableEq

namespace CipherState

def start (key chainingKey : Octets 32) : CipherState := ⟨key, chainingKey, 0, 0⟩

def rotate (c : CipherState) : CipherState :=
  let derived := hkdf c.chainingKey c.key.bytes
  ⟨derived.2, derived.1, 0, c.generation + 1⟩

def rotateWhenDue (c : CipherState) : CipherState :=
  if c.nonce = rekeyInterval then c.rotate else c

def count (c : CipherState) : CipherState := { c with nonce := c.nonce + 1 }

def encrypt (c : CipherState) (text : Bytes) : Except Error Bytes × CipherState :=
  match Aead.encrypt? c.key (nonceBytes c.nonce) [] text with
  | some sealed => (.ok sealed, c.count.rotateWhenDue)
  | none => (.error .encryptionFailed, c.count)

def decrypt (c : CipherState) (sealed : Bytes) : Except Error Bytes × CipherState :=
  match Aead.decrypt? c.key (nonceBytes c.nonce) [] sealed with
  | some text => (.ok text, c.count.rotateWhenDue)
  | none => (.error .decryptionFailed, c.count.rotateWhenDue)

/-- A unit is counted whether it opens or not. -/
theorem decrypt_snd (c : CipherState) (sealed : Bytes) :
    (c.decrypt sealed).2 = c.count.rotateWhenDue := by
  rw [decrypt]
  split <;> rfl

/-- The changes of key that lie between two states of one cipher. -/
def rotationsSince (before after : CipherState) : List Rotation :=
  (List.range (after.generation - before.generation)).map fun i =>
    ⟨before.generation + i, before.generation + i + 1⟩

/-- The state as logs show it, without its keys. -/
def describe (c : CipherState) : String :=
  "CipherState \x7b nonce: " ++ toString c.nonce ++ ", generation: " ++ toString c.generation
    ++ ", .. \x7d"

end CipherState
end NoiseLink
