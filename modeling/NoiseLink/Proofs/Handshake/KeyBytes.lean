import NoiseLink.Proofs.Crypto.Compressed
import NoiseLink.Proofs.Handshake.Steps

/-! Public keys on the wire. Each key has one encoding, so keys are compared by their bytes, and it makes
no difference whether a party hashes the key that it read or the bytes that it was sent. -/
namespace NoiseLink

open Secp256k1

namespace Secp256k1

theorem Point.residue_cubic (x : Coordinate) : (cubic x).residue = x.residue ^ 3 + 7 := by
  rw [cubic, Coordinate.residue_add, Coordinate.residue_mul, Coordinate.residue_mul,
    Coordinate.residue_seven, pow_succ, pow_two]

/-- There is a point above a number exactly when the curve's equation gives it a square. -/
theorem Point.exists_lift?_iff {x : Coordinate} {even : Bool} :
    (∃ p, lift? x even = some p) ↔ IsSquare (x.residue ^ 3 + 7) := by
  constructor
  · rintro ⟨p, found⟩
    obtain ⟨on, rfl, -⟩ := of_lift? found
    refine ⟨p.y.residue, ?_⟩
    rw [← residue_cubic, ← on, Coordinate.residue_mul]
  · rintro ⟨root, square⟩
    have same : cubic x = ⟨root.val, root.val_lt⟩ * ⟨root.val, root.val_lt⟩ := by
      apply Coordinate.residue_injective
      have whole : Coordinate.residue ⟨root.val, root.val_lt⟩ = root := ZMod.natCast_zmod_val root
      rw [residue_cubic, square, Coordinate.residue_mul, whole]
    have rooted := Coordinate.residue_squareRoot same
    exact ⟨_, if_pos rooted⟩

end Secp256k1

namespace PublicKey

/-- Bytes of the form of a key: the parity of `y`, and an `x` of the field for which `x³ + 7` is a
square. -/
structure WellFormed (bytes : Bytes) : Prop where
  length : bytes.length = 33
  parity : bytes.head? = some 0x02 ∨ bytes.head? = some 0x03
  inField : Bytes.ofBigEndian bytes.tail < prime
  square : IsSquare ((Bytes.ofBigEndian bytes.tail : ZMod prime) ^ 3 + 7)

theorem exists_ofBytes_iff {bytes : Bytes} : (∃ key, ofBytes bytes = .ok key) ↔ WellFormed bytes := by
  constructor
  · rintro ⟨key, read⟩
    obtain ⟨on, rfl⟩ := ofBytes_ok_iff.1 read
    have number : Bytes.ofBigEndian key.bytes.tail = key.point.x.val :=
      Bytes.ofBigEndian_bigEndian (Nat.lt_trans key.point.x.isLt (by decide))
    refine ⟨key.encode.length_bytes, ?_, ?_, ?_⟩
    · change some _ = some _ ∨ some _ = some _
      cases key.point.y.isEven
      · exact .inr rfl
      · exact .inl rfl
    · rw [number]
      exact key.point.x.isLt
    · rw [number]
      exact Point.exists_lift?_iff.1 ⟨_, Point.lift?_isEven on⟩
  · rintro ⟨length, parity, inField, square⟩
    cases bytes with
    | nil => cases length
    | cons first rest =>
      have known : first = 0x02 ∨ first = 0x03 := by simpa using parity
      have inside : Bytes.ofBigEndian rest < prime := inField
      obtain ⟨p, found⟩ := (@Point.exists_lift?_iff ⟨_, inside⟩ (first = 0x02)).2 square
      have read : Point.ofCompressed? ⟨first :: rest, length⟩ = some p := by
        rw [Point.ofCompressed?]
        simp only [if_pos known]
        rw [dif_pos inside]
        exact found
      refine ⟨⟨p⟩, ?_⟩
      rw [ofBytes, Octets.ofBytes?, dif_pos length, Option.bind_some, read]

end PublicKey

/-- Takes an act that brings a key, as `Handshake.accept` does, but hashes the bytes that it was sent and
not those of the key that it read from them. -/
def Handshake.acceptReceived (t : Transcript) (mine : PrivateKey) (act : Octets 50) :
    Except Error (PublicKey × Transcript) := do
  checkVersion act
  let received := act.window 1 33 (Nat.le_add_right 34 16)
  let theirs ← PublicKey.ofBytes received.bytes
  let t ← mixShared (t.mixHash received.bytes) mine theirs
  let t ← checkTag t (act.window 34 16 (Nat.le_refl 50))
  return (theirs, t)

theorem Handshake.accept_eq_acceptReceived (t : Transcript) (mine : PrivateKey) (act : Octets 50) :
    accept t mine act = acceptReceived t mine act := by
  rw [accept, acceptReceived]
  cases checkVersion act with
  | error error => simp only [bind, Except.bind]
  | ok _ =>
    cases read : PublicKey.ofBytes (act.window 1 33 (Nat.le_add_right 34 16)).bytes with
    | error error =>
      simp only [read, bind, Except.bind]
    | ok theirs =>
      simp only [read, bind, Except.bind, (PublicKey.ofBytes_ok_iff.1 read).2]

namespace PublicKey

/-- A key reads from its own bytes and from no others, so keys are equal and ordered as their bytes are,
and the party that takes a key hashes the bytes that it was sent. The bytes that are read are those of
the two signs and of an `x` with a point above it, and among them are those of every private key's
public key; all others are refused as an invalid key. -/
theorem canonical_on_the_wire :
    (∀ bytes key, ofBytes bytes = .ok key → key.bytes = bytes) ∧
    (∀ bytes other key, ofBytes bytes = .ok key → ofBytes other = .ok key → bytes = other) ∧
    (∀ bytes bytes' key key', ofBytes bytes = .ok key → ofBytes bytes' = .ok key' →
      (key = key' ↔ bytes = bytes') ∧ compare key key' = compare bytes bytes' ∧
        (compare key key' = .eq ↔ key = key')) ∧
    (∀ t mine act, Handshake.accept t mine act = Handshake.acceptReceived t mine act) ∧
    (∀ bytes, (∃ key, ofBytes bytes = .ok key) ↔ WellFormed bytes) ∧
    (∀ bytes, ofBytes bytes = .error .invalidPublicKey ↔ ¬ WellFormed bytes) ∧
    ∀ mine : PrivateKey, ofBytes mine.publicKey.bytes = .ok mine.publicKey := by
  have whole (bytes : Bytes) (key : PublicKey) (read : ofBytes bytes = .ok key) : key.bytes = bytes :=
    (ofBytes_ok_iff.1 read).2
  refine ⟨whole, ?_, ?_, Handshake.accept_eq_acceptReceived, fun bytes => exists_ofBytes_iff, ?_,
    PrivateKey.ofBytes_publicKey⟩
  · intro bytes other key read again
    rw [← whole bytes key read, whole other key again]
  · intro bytes bytes' key key' read read'
    have same : key = key' ↔ bytes = bytes' := by
      constructor
      · rintro rfl
        rw [← whole bytes key read, whole bytes' key read']
      · rintro rfl
        rw [read] at read'
        exact Except.ok.inj read'
    have order : compare key key' = compare bytes bytes' := by
      change compare key.bytes key'.bytes = compare bytes bytes'
      rw [whole bytes key read, whole bytes' key' read']
    refine ⟨same, order, ?_⟩
    rw [order, same]
    exact Std.compare_eq_iff_eq
  · intro bytes
    rw [← exists_ofBytes_iff]
    cases answer : ofBytes bytes with
    | ok key => simp
    | error error => simp [(ofBytes_error_iff.1 answer).1]

end PublicKey
end NoiseLink
