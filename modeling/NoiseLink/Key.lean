import NoiseLink.Crypto.Hkdf
import NoiseLink.Crypto.Secp256k1
import NoiseLink.Error
import NoiseLink.Hex
import NoiseLink.Random

/-! Static and ephemeral keys. A public key is a point of the curve in compressed form, and the
form is canonical: a key reads back from its own bytes, and two keys are equal when their bytes
are. -/
namespace NoiseLink

def publicKeyLength : Nat := 33

/-- A factor of the generator, from 1 to the order less one. -/
structure PrivateKey where
  scalar : Nat
  positive : 0 < scalar
  inOrder : scalar < Secp256k1.order
deriving DecidableEq

structure PublicKey where
  point : Secp256k1.Point
deriving DecidableEq

namespace PublicKey

def encode (key : PublicKey) : Octets 33 := key.point.compressed

def bytes (key : PublicKey) : Bytes := key.encode.bytes

def ofBytes (bytes : Bytes) : Except Error PublicKey :=
  match (Octets.ofBytes? 33 bytes).bind Secp256k1.Point.ofCompressed? with
  | some point => .ok ⟨point⟩
  | none => .error .invalidPublicKey

/-- Keys are ordered as their bytes are, first difference first. -/
instance : Ord PublicKey := ⟨fun a b => compare a.bytes b.bytes⟩

def text (key : PublicKey) : String := Hex.encode key.bytes

end PublicKey

namespace PrivateKey

def ofScalar? (scalar : Nat) : Option PrivateKey :=
  if h : 0 < scalar ∧ scalar < Secp256k1.order then some ⟨scalar, h.1, h.2⟩ else none

def ofBytes (bytes : Bytes) : Except Error PrivateKey :=
  match (Octets.ofBytes? 32 bytes).bind fun octets => ofScalar? (Bytes.ofBigEndian octets.bytes) with
  | some key => .ok key
  | none => .error .invalidPrivateKey

def bytes (key : PrivateKey) : Bytes := Bytes.bigEndian 32 key.scalar

/-- The multiple of the generator. No scalar below the order leads to the point at infinity. -/
def publicKey (key : PrivateKey) : PublicKey :=
  ⟨(Secp256k1.Point.generator.multiple? key.scalar).getD Secp256k1.Point.generator⟩

/-- Draws 32 bytes at a time until they are a valid scalar. -/
def draw? : Nat → Generator → Option (PrivateKey × Generator)
  | 0, _ => none
  | attempts + 1, generator => do
    let (bytes, generator) ← generator.fill? 32
    match ofScalar? (Bytes.ofBigEndian bytes) with
    | some key => return (key, generator)
    | none => draw? attempts generator

/-- How often a draw is worth repeating: a script holds so many, and of a key stream one draw in
2^128 is invalid. -/
def drawLimit : Generator → Nat
  | .keyed .. => 64
  | .scripted rest => rest.length / 32 + 1

/-- A fresh key, unless the generator runs out. -/
def generate? (generator : Generator) : Option (PrivateKey × Generator) :=
  draw? (drawLimit generator) generator

/-- The key that a short seed stands for. -/
def ofSeed (seed : UInt64) : PrivateKey :=
  match generate? (Generator.ofSeed seed) with
  | some (key, _) => key
  | none => ⟨1, by decide, by decide⟩

/-- The key as logs show it, which is its public half. -/
def describe (key : PrivateKey) : String :=
  "PrivateKey \x7b public_key: " ++ key.publicKey.text ++ ", .. \x7d"

end PrivateKey

/-- What the holders of two keys both can compute, and nobody else: the hash of the product. -/
def sharedSecret (mine : PrivateKey) (theirs : PublicKey) : Except Error (Octets 32) :=
  match theirs.point.multiple? mine.scalar with
  | some point => .ok (Sha256.digest point.compressed.bytes)
  | none => .error .invalidPublicKey

end NoiseLink
