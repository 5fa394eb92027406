import NoiseLink.Bytes

/-! The curve secp256k1, `y² = x³ + 7` over the integers modulo a prime. Points are multiplied in
Jacobian coordinates, where `(x, y, z)` stands for `(x / z², y / z³)` and `z = 0` for the point
at infinity, so that one multiplication needs a single division. -/
namespace NoiseLink.Secp256k1

def prime : Nat := 0xfffffffffffffffffffffffffffffffffffffffffffffffffffffffefffffc2f

/-- The number of multiples of the generator. -/
def order : Nat := 0xfffffffffffffffffffffffffffffffebaaedce6af48a03bbfd25e8cd0364141

instance : @NeZero Nat Zero.ofOfNat0 prime := ⟨by decide⟩

abbrev Coordinate := Fin prime

namespace Coordinate

/-- Raises to a power by squaring. -/
def power (base : Coordinate) (exponent : Nat) : Coordinate :=
  if exponent = 0 then 1
  else
    let half := power base (exponent / 2)
    if exponent % 2 = 0 then half * half else half * half * base
termination_by exponent

/-- The inverse of a number that is not zero, and zero for zero. -/
def inverse (a : Coordinate) : Coordinate := power a (prime - 2)

/-- A square root of a number that is a square: the prime leaves 3 when divided by 4. -/
def squareRoot (a : Coordinate) : Coordinate := power a ((prime + 1) / 4)

def isEven (a : Coordinate) : Bool := a.val % 2 = 0

end Coordinate

structure Point where
  (x y : Coordinate)
deriving DecidableEq

namespace Point

def generator : Point :=
  ⟨0x79be667ef9dcbbac55a06295ce870b07029bfcdb2dce28d959f2815b16f81798,
   0x483ada7726a3c4655da4fbfc0e1108a8fd17b448a68554199c47d08ffb10d4b8⟩

/-- The right-hand side of the curve's equation. -/
def cubic (x : Coordinate) : Coordinate := x * x * x + 7

def OnCurve (p : Point) : Prop := p.y * p.y = cubic p.x

instance (p : Point) : Decidable p.OnCurve := by unfold OnCurve; infer_instance

/-- The point with a given `x` and a `y` of given parity, if the curve has one. -/
def lift? (x : Coordinate) (even : Bool) : Option Point :=
  let root := (cubic x).squareRoot
  if root * root = cubic x then some ⟨x, if root.isEven = even then root else -root⟩ else none

/-- SEC 1 compressed form: the parity of `y`, then `x` with its highest byte first. -/
def compressed (p : Point) : Octets 33 :=
  ⟨(if p.y.isEven then 0x02 else 0x03) :: Bytes.bigEndian 32 p.x.val, by simp⟩

/-- Reads the compressed form; any other encoding, and any `x` off the curve, is refused. -/
def ofCompressed? (octets : Octets 33) : Option Point :=
  match octets.bytes with
  | [] => none
  | parity :: rest =>
    if parity = 0x02 ∨ parity = 0x03 then
      let value := Bytes.ofBigEndian rest
      if inField : value < prime then lift? ⟨value, inField⟩ (parity = 0x02) else none
    else none

end Point

structure Jacobian where
  (x y z : Coordinate)

namespace Jacobian

def infinity : Jacobian := ⟨1, 1, 0⟩

def ofPoint (p : Point) : Jacobian := ⟨p.x, p.y, 1⟩

def double (p : Jacobian) : Jacobian :=
  let a := p.x * p.x
  let b := p.y * p.y
  let c := b * b
  let sum := p.x + b
  let d := (sum * sum - a - c) + (sum * sum - a - c)
  let e := a + a + a
  let x := e * e - d - d
  let c2 := c + c
  let c4 := c2 + c2
  let yz := p.y * p.z
  ⟨x, e * (d - x) - (c4 + c4), yz + yz⟩

def add (p : Jacobian) (q : Point) : Jacobian :=
  if p.z = 0 then ofPoint q
  else
    let zz := p.z * p.z
    let h := q.x * zz - p.x
    let r := q.y * (zz * p.z) - p.y
    if h = 0 then if r = 0 then p.double else infinity
    else
      let hh := h * h
      let hhh := hh * h
      let v := p.x * hh
      let x := r * r - hhh - v - v
      ⟨x, r * (v - x) - p.y * hhh, p.z * h⟩

/-- The multiple of a point, by doubling and adding along the bits of the factor. -/
def multiple (p : Point) (factor : Nat) : Jacobian :=
  if factor = 0 then infinity
  else
    let even := (multiple p (factor / 2)).double
    if factor % 2 = 0 then even else even.add p
termination_by factor

def toPoint? (p : Jacobian) : Option Point :=
  if p.z = 0 then none
  else
    let inverse := p.z.inverse
    let square := inverse * inverse
    some ⟨p.x * square, p.y * (square * inverse)⟩

end Jacobian

/-- The multiple of a point, or nothing for the point at infinity. -/
def Point.multiple? (p : Point) (factor : Nat) : Option Point := (Jacobian.multiple p factor).toPoint?

end NoiseLink.Secp256k1
