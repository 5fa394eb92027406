import NoiseLink.Bytes

/-! The Poly1305 one-time authenticator: a polynomial in the first half of the key, evaluated
modulo 2^130 - 5 at the 16-byte pieces of a message, plus the second half of the key. -/
namespace NoiseLink.Poly1305

def modulus : Nat := (1 <<< 130) - 5

/-- The bits of the first half that the polynomial uses. -/
def clampMask : Nat := 0x0ffffffc0ffffffc0ffffffc0fffffff

@[inline] def word (a b c d e f g h : UInt8) : UInt64 :=
  a.toUInt64 ||| b.toUInt64 <<< 8 ||| c.toUInt64 <<< 16 ||| d.toUInt64 <<< 24 |||
    e.toUInt64 <<< 32 ||| f.toUInt64 <<< 40 ||| g.toUInt64 <<< 48 ||| h.toUInt64 <<< 56

/-- Adds a piece, with a one bit set behind its 16 bytes, and multiplies. -/
def absorb (r value piece : Nat) : Nat := (value + piece + (1 <<< 128)) * r % modulus

/-- Evaluates on at the pieces of a byte string, whose last one is filled up with zeros. -/
def extend (r : Nat) : Nat → Bytes → Nat
  | value, a :: b :: c :: d :: e :: f :: g :: h :: i :: j :: k :: l :: m :: n :: o :: p :: rest =>
    let low := word a b c d e f g h
    let high := word i j k l m n o p
    extend r (absorb r value (low.toNat + (high.toNat <<< 64))) rest
  | value, [] => value
  | value, short => absorb r value (Bytes.ofLittleEndian short)

/-- The tag of a message that is given in parts, each filled up with zeros to a multiple of 16. -/
def tag (key : Octets 32) (parts : List Bytes) : Octets 16 :=
  let r := Bytes.ofLittleEndian (key.bytes.take 16) &&& clampMask
  let s := Bytes.ofLittleEndian (key.bytes.drop 16)
  Octets.littleEndian 16 (parts.foldl (extend r) 0 + s)

end NoiseLink.Poly1305
