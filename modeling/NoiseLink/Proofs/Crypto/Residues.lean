import Mathlib.FieldTheory.Finite.Basic
import NoiseLink.Proofs.Crypto.Primes

/-! Coordinates as elements of the field of numbers modulo the prime. The powers that stand for an
inverse and for a square root are what they are called. -/
namespace NoiseLink.Secp256k1

instance : Fact prime.Prime := ⟨prime_is_prime⟩

/-- The field of the coordinates. -/
abbrev Residue := ZMod prime

namespace Coordinate

def residue (a : Coordinate) : Residue := (a.val : Residue)

theorem residue_injective {a b : Coordinate} (same : a.residue = b.residue) : a = b := by
  have equal := (ZMod.natCast_eq_natCast_iff' a.val b.val prime).1 same
  rw [Nat.mod_eq_of_lt a.isLt, Nat.mod_eq_of_lt b.isLt] at equal
  exact Fin.ext equal

theorem residue_inj {a b : Coordinate} : a.residue = b.residue ↔ a = b :=
  ⟨residue_injective, congrArg residue⟩

@[simp] theorem residue_zero : residue 0 = 0 := by
  simp [residue]

@[simp] theorem residue_one : residue 1 = 1 := by
  simp [residue]

@[simp] theorem residue_seven : residue 7 = 7 := by
  simp [residue]

@[simp] theorem residue_add (a b : Coordinate) : residue (a + b) = a.residue + b.residue := by
  simp [residue, Fin.val_add]

@[simp] theorem residue_mul (a b : Coordinate) : residue (a * b) = a.residue * b.residue := by
  simp [residue, Fin.val_mul]

@[simp] theorem residue_sub (a b : Coordinate) : residue (a - b) = a.residue - b.residue := by
  simp only [residue, Fin.val_sub, ZMod.natCast_mod, Nat.cast_add, Nat.cast_sub b.isLt.le,
    CharP.cast_eq_zero]
  ring

@[simp] theorem residue_neg (a : Coordinate) : residue (-a) = -a.residue := by
  have sum : residue (0 - a) = -a.residue := by rw [residue_sub, residue_zero, zero_sub]
  have same : -a = 0 - a := by
    apply Fin.ext
    simp [Fin.val_neg']
  rw [same, sum]

theorem residue_eq_zero_iff {a : Coordinate} : a.residue = 0 ↔ a = 0 := by
  rw [← residue_zero, residue_inj]

/-- Squaring and multiplying along the exponent makes the power. -/
theorem residue_power (a : Coordinate) (exponent : Nat) :
    (power a exponent).residue = a.residue ^ exponent := by
  fun_induction power a exponent with
  | case1 => simp
  | case2 exponent positive half even ih =>
    have twice : exponent / 2 + exponent / 2 = exponent := by omega
    rw [residue_mul, ih, ← pow_add, twice]
  | case3 exponent positive half odd ih =>
    have twice : exponent / 2 + exponent / 2 + 1 = exponent := by omega
    rw [residue_mul, residue_mul, ih, ← pow_add, ← pow_succ, twice]

@[simp] theorem residue_inverse (a : Coordinate) : (inverse a).residue = a.residue⁻¹ := by
  rw [inverse, residue_power]
  by_cases zero : a.residue = 0
  · rw [zero, inv_zero, zero_pow (by decide)]
  · have cycle := ZMod.pow_card_sub_one_eq_one zero
    have split : prime - 1 = prime - 2 + 1 := by decide
    rw [split, pow_succ] at cycle
    exact eq_inv_of_mul_eq_one_left cycle

theorem residue_squareRoot {a b : Coordinate} (square : a = b * b) :
    a.squareRoot * a.squareRoot = a := by
  apply residue_injective
  rw [squareRoot, residue_mul, residue_power, square, residue_mul]
  by_cases zero : b.residue = 0
  · rw [zero, zero_mul, zero_pow (by decide), zero_mul]
  · have cycle := ZMod.pow_card_sub_one_eq_one zero
    have split : (prime + 1) / 4 + (prime + 1) / 4 + ((prime + 1) / 4 + (prime + 1) / 4) =
        prime - 1 + 1 + 1 := by decide
    calc (b.residue * b.residue) ^ ((prime + 1) / 4) * (b.residue * b.residue) ^ ((prime + 1) / 4)
        = b.residue ^ (prime - 1 + 1 + 1) := by rw [← split]; ring
      _ = b.residue * b.residue := by rw [pow_succ, pow_succ, cycle, one_mul]

end Coordinate
end NoiseLink.Secp256k1
