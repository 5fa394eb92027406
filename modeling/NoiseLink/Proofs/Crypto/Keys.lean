import NoiseLink.Key
import NoiseLink.Proofs.Crypto.Multiples
import NoiseLink.Proofs.Encoding

/-! What the handshake relies on: a public key is a point of the curve and reads back from its own
bytes, and two holders of private keys come to the same secret from the public keys. -/
namespace NoiseLink

namespace Secp256k1

/-- The prime is odd, so a number and its opposite differ in parity. -/
theorem Coordinate.isEven_neg {a : Coordinate} (nonzero : a ≠ 0) : (-a).isEven = !a.isEven := by
  have positive : 0 < a.val := Nat.pos_of_ne_zero (fun zero => nonzero (Fin.ext zero))
  have bounded := a.isLt
  have odd : prime % 2 = 1 := by decide
  have opposite : (-a).val = prime - a.val := by
    rw [Fin.val_neg', Nat.mod_eq_of_lt (by omega)]
  rw [isEven, isEven, opposite]
  by_cases even : a.val % 2 = 0
  · simp only [even, decide_true, Bool.not_true, decide_eq_false_iff_not]
    omega
  · simp only [even, decide_false, Bool.not_false, decide_eq_true_eq]
    omega

namespace Point

theorem lift?_isEven {p : Point} (on : p.OnCurve) : lift? p.x p.y.isEven = some p := by
  have square := Coordinate.residue_squareRoot on.symm
  have roots : (cubic p.x).squareRoot = p.y ∨ (cubic p.x).squareRoot = -p.y := by
    rw [← Coordinate.residue_inj, ← Coordinate.residue_inj, Coordinate.residue_neg,
      ← mul_self_eq_mul_self_iff, ← Coordinate.residue_mul, ← Coordinate.residue_mul,
      Coordinate.residue_inj, square]
    exact on.symm
  rw [lift?]
  simp only [square, if_true]
  rcases roots with same | opposite
  · rw [same, if_pos rfl]
  · rw [opposite]
    by_cases zero : p.y = 0
    · obtain ⟨x, y⟩ := p
      simp only at zero
      subst zero
      simp
    · rw [Coordinate.isEven_neg zero, if_neg (Bool.not_ne_self _), neg_neg]

theorem ofCompressed?_compressed {p : Point} (on : p.OnCurve) :
    ofCompressed? p.compressed = some p := by
  have wide : p.x.val < 256 ^ 32 := Nat.lt_trans p.x.isLt (by decide)
  have parity : ((if p.y.isEven then (0x02 : UInt8) else 0x03) = 0x02) ↔ p.y.isEven := by
    by_cases even : p.y.isEven <;> simp [even]
  have known : p.y.isEven ∨ (if p.y.isEven then (0x02 : UInt8) else 0x03) = 0x03 := by
    by_cases even : p.y.isEven <;> simp [even]
  rw [ofCompressed?, compressed]
  simp only [Bytes.ofBigEndian_bigEndian wide, dif_pos p.x.isLt, parity, Bool.decide_eq_true]
  rw [if_pos known]
  exact lift?_isEven on

end Point
end Secp256k1

open Secp256k1 Point

namespace PublicKey

theorem ofBytes_bytes {key : PublicKey} (on : key.point.OnCurve) : ofBytes key.bytes = .ok key := by
  rw [ofBytes, bytes, Octets.ofBytes?_bytes, Option.bind_some, encode,
    Point.ofCompressed?_compressed on]

end PublicKey

namespace PrivateKey

/-- A factor below the order does not lead to the point at infinity. -/
theorem publicKey_point (key : PrivateKey) : ∃ on : key.publicKey.point.OnCurve,
    key.publicKey.point.element on = key.scalar • generator.element generator_onCurve := by
  have finite : ¬ key.scalar • generator.element generator_onCurve = 0 := by
    rw [nsmul_generator_eq_zero_iff]
    exact Nat.not_dvd_of_pos_of_lt key.positive key.inOrder
  rw [← multiple?_eq_none_iff] at finite
  obtain ⟨q, found⟩ := Option.ne_none_iff_exists'.1 finite
  rw [publicKey, found]
  exact multiple?_eq_some generator_onCurve found

theorem publicKey_onCurve (key : PrivateKey) : key.publicKey.point.OnCurve :=
  key.publicKey_point.1

theorem ofBytes_publicKey (key : PrivateKey) :
    PublicKey.ofBytes key.publicKey.bytes = .ok key.publicKey :=
  PublicKey.ofBytes_bytes key.publicKey_onCurve

/-- Two keys below the order do not lead to the same point. -/
theorem publicKey_injective : Function.Injective publicKey := by
  intro mine theirs same
  obtain ⟨on, point⟩ := mine.publicKey_point
  obtain ⟨on', point'⟩ := theirs.publicKey_point
  have equal : mine.publicKey.point.element on = theirs.publicKey.point.element on' := by
    congr 1
    rw [same]
  rw [point, point'] at equal
  have scalars := nsmul_injOn_Iio_addOrderOf (addOrderOf_generator ▸ mine.inOrder)
    (addOrderOf_generator ▸ theirs.inOrder) equal
  cases mine
  cases theirs
  cases scalars
  rfl

/-- The product of two keys is a point, since the order is prime. -/
theorem publicKey_multiple? (mine theirs : PrivateKey) : ∃ product,
    theirs.publicKey.point.multiple? mine.scalar = some product ∧ ∃ on, product.element on =
      (mine.scalar * theirs.scalar) • generator.element generator_onCurve := by
  obtain ⟨on, point⟩ := theirs.publicKey_point
  have finite : ¬ mine.scalar • theirs.publicKey.point.element on = 0 := by
    rw [point, ← mul_nsmul', nsmul_generator_eq_zero_iff, order_is_prime.dvd_mul]
    rintro (divides | divides)
    · exact Nat.not_dvd_of_pos_of_lt mine.positive mine.inOrder divides
    · exact Nat.not_dvd_of_pos_of_lt theirs.positive theirs.inOrder divides
  rw [← multiple?_eq_none_iff] at finite
  obtain ⟨product, found⟩ := Option.ne_none_iff_exists'.1 finite
  obtain ⟨onProduct, same⟩ := multiple?_eq_some on found
  exact ⟨product, found, onProduct, by rw [same, point, ← mul_nsmul']⟩

end PrivateKey

/-- Either side computes the same secret, and neither fails. -/
theorem sharedSecret_publicKey (mine theirs : PrivateKey) : ∃ secret,
    sharedSecret mine theirs.publicKey = .ok secret ∧
      sharedSecret theirs mine.publicKey = .ok secret := by
  obtain ⟨product, found, on, same⟩ := mine.publicKey_multiple? theirs
  obtain ⟨product', found', on', same'⟩ := theirs.publicKey_multiple? mine
  rw [Nat.mul_comm, ← same] at same'
  have equal := element_injective same'
  subst equal
  refine ⟨Sha256.digest product'.compressed.bytes, ?_, ?_⟩
  · rw [sharedSecret, found]
  · rw [sharedSecret, found']

end NoiseLink
