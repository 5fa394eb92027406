import Mathlib.Algebra.Ring.Nat
import Mathlib.Tactic.Ring
import NoiseLink.Bytes

/-! Numbers read back from their bytes and bytes from the number that they stand for, and a whole
byte string gives back the pieces that it was put together from. -/
namespace NoiseLink

namespace Bytes

theorem ofLittleEndian_cons (byte : UInt8) (bytes : Bytes) :
    ofLittleEndian (byte :: bytes) = byte.toNat + 256 * ofLittleEndian bytes := by
  rfl

theorem ofLittleEndian_append (low high : Bytes) :
    ofLittleEndian (low ++ high) = ofLittleEndian low + 256 ^ low.length * ofLittleEndian high := by
  induction low with
  | nil => simp [ofLittleEndian]
  | cons byte rest ih =>
    rw [List.cons_append, ofLittleEndian_cons, ofLittleEndian_cons, ih, List.length_cons, pow_succ]
    ring

theorem ofLittleEndian_littleEndian {width value : Nat} (small : value < 256 ^ width) :
    ofLittleEndian (littleEndian width value) = value := by
  induction width generalizing value with
  | zero =>
    have zero : value = 0 := by omega
    simp [littleEndian, ofLittleEndian, zero]
  | succ width ih =>
    have rest := @ih (value / 256) (by rw [pow_succ] at small; omega)
    rw [littleEndian, ofLittleEndian_cons, rest, UInt8.toNat_ofNat']
    omega

theorem littleEndian_ofLittleEndian (bytes : Bytes) :
    littleEndian bytes.length (ofLittleEndian bytes) = bytes := by
  induction bytes with
  | nil => rfl
  | cons byte rest ih =>
    have bounded := byte.toNat_lt
    have quotient : (byte.toNat + 256 * ofLittleEndian rest) / 256 = ofLittleEndian rest := by omega
    rw [List.length_cons, littleEndian, ofLittleEndian_cons, quotient, ih]
    congr 1
    apply UInt8.toNat.inj
    rw [UInt8.toNat_ofNat']
    omega

theorem ofLittleEndian_lt (bytes : Bytes) : ofLittleEndian bytes < 256 ^ bytes.length := by
  induction bytes with
  | nil => simp [ofLittleEndian]
  | cons byte rest ih =>
    have bounded := byte.toNat_lt
    rw [ofLittleEndian_cons, List.length_cons, pow_succ]
    omega

theorem ofBigEndian_reverse (bytes : Bytes) : ofBigEndian bytes.reverse = ofLittleEndian bytes := by
  simp [ofBigEndian, ofLittleEndian, Nat.add_comm]

theorem ofBigEndian_bigEndian {width value : Nat} (small : value < 256 ^ width) :
    ofBigEndian (bigEndian width value) = value := by
  rw [bigEndian, ofBigEndian_reverse, ofLittleEndian_littleEndian small]

theorem bigEndian_ofBigEndian (bytes : Bytes) :
    bigEndian bytes.length (ofBigEndian bytes) = bytes := by
  have whole := littleEndian_ofLittleEndian bytes.reverse
  rw [← ofBigEndian_reverse, List.reverse_reverse, List.length_reverse] at whole
  rw [bigEndian, whole, List.reverse_reverse]

theorem ofBigEndian_lt (bytes : Bytes) : ofBigEndian bytes < 256 ^ bytes.length := by
  have bounded := ofLittleEndian_lt bytes.reverse
  rwa [← ofBigEndian_reverse, List.reverse_reverse, List.length_reverse] at bounded

end Bytes

namespace Octets

@[simp] theorem ofBytes?_bytes (octets : Octets n) : ofBytes? n octets.bytes = some octets := by
  rw [ofBytes?, dif_pos octets.length_bytes]

theorem window_append_middle (a : Octets k) (b : Octets m) (c : Octets n)
    (inside : k + m ≤ k + m + n) : (a ++ b ++ c).window k m inside = b := by
  apply Octets.ext
  change ((a.bytes ++ b.bytes ++ c.bytes).drop k).take m = b.bytes
  rw [List.append_assoc, List.drop_left' a.length_bytes, List.take_left' b.length_bytes]

theorem window_append_last (a : Octets k) (b : Octets m) (c : Octets n)
    (inside : k + m + n ≤ k + m + n) : (a ++ b ++ c).window (k + m) n inside = c := by
  apply Octets.ext
  change ((a.bytes ++ b.bytes ++ c.bytes).drop (k + m)).take n = c.bytes
  rw [List.drop_left' (by simp), List.take_of_length_le (by simp)]

end Octets
end NoiseLink
