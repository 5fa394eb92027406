import Mathlib.GroupTheory.Perm.Cycle.Type
import NoiseLink.Proofs.Crypto.Keys

/-! The curve has no points but the multiples of its generator, so every public key has a private key.
There are at most two points above a number, so the order of the generator goes into the number of points
once or twice. It does not go twice: the curve would have a point of order two, whose `y` is zero, and
the opposite of 7 is not a cube. -/
namespace NoiseLink.Secp256k1

open WeierstrassCurve

/-- A cube has a third power of the predecessor of the prime that is one, and the opposite of 7 has
not. -/
theorem cube_ne_neg_seven (x : Residue) : x ^ 3 + 7 ≠ 0 := by
  intro zero
  have third : prime - 1 = 3 * ((prime - 1) / 3) := by decide
  have cube : x ^ 3 = ((prime - 7 : Nat) : Residue) := by
    rw [Nat.cast_sub (by decide), CharP.cast_eq_zero]
    push_cast
    linear_combination zero
  have nonzero : x ≠ 0 := by
    rintro rfl
    have seven : ((prime - 7 : Nat) : Residue) = 0 := by rw [← cube, zero_pow (by decide)]
    rw [ZMod.natCast_eq_zero_iff] at seven
    exact Nat.not_dvd_of_pos_of_lt (by decide) (by decide) seven
  have one : ((prime - 7 : Nat) : Residue) ^ ((prime - 1) / 3) = 1 := by
    rw [← cube, ← pow_mul, ← third, ZMod.pow_card_sub_one_eq_one nonzero]
  rw [natCast_pow_eq_one_iff 256 (by decide) (by decide)] at one
  exact absurd one (by decide +kernel)

theorem ordinate_ne_zero {x y : Residue} (on : curve.Nonsingular x y) : y ≠ 0 := by
  rintro rfl
  rw [nonsingular_iff, zero_pow (by decide)] at on
  exact cube_ne_neg_seven x on.symm

namespace Point

theorem y_ne_zero {p : Point} (on : p.OnCurve) : p.y ≠ 0 := by
  rw [Ne, ← Coordinate.residue_eq_zero_iff]
  exact ordinate_ne_zero (onCurve_iff.1 on)

/-- Every element of the group but zero is a point. -/
theorem exists_element {P : curve.Point} (finite : P ≠ 0) : ∃ p on, element p on = P := by
  cases P with
  | zero => exact absurd rfl finite
  | some x y on =>
    have residue_val (a : Residue) : Coordinate.residue ⟨a.val, a.val_lt⟩ = a :=
      ZMod.natCast_zmod_val a
    have there : Point.OnCurve ⟨⟨x.val, x.val_lt⟩, ⟨y.val, y.val_lt⟩⟩ := by
      rw [onCurve_iff, residue_val, residue_val]
      exact on
    exact ⟨_, there, by simp only [element, residue_val]⟩

end Point

def pointAbove : Option (Coordinate × Bool) → curve.Point
  | none => 0
  | some (x, even) =>
    match Point.lift? x even with
    | none => 0
    | some p => if on : p.OnCurve then p.element on else 0

theorem pointAbove_surjective : Function.Surjective pointAbove := by
  intro P
  by_cases zero : P = 0
  · exact ⟨none, zero.symm⟩
  · obtain ⟨p, on, rfl⟩ := Point.exists_element zero
    refine ⟨some (p.x, p.y.isEven), ?_⟩
    simp only [pointAbove, Point.lift?_isEven on, dif_pos on]

instance : Finite curve.Point := Finite.of_surjective pointAbove pointAbove_surjective

theorem card_le : Nat.card curve.Point ≤ 2 * prime + 1 := by
  have count : Nat.card (Option (Coordinate × Bool)) = 2 * prime + 1 := by
    rw [Finite.card_option, Nat.card_prod, Nat.card_fin, Nat.card_eq_fintype_card, Fintype.card_bool,
      Nat.mul_comm]
  exact (Nat.card_le_card_of_surjective pointAbove pointAbove_surjective).trans_eq count

theorem addOrderOf_ne_two (P : curve.Point) : addOrderOf P ≠ 2 := by
  intro two
  rw [addOrderOf_eq_prime_iff, two_nsmul] at two
  obtain ⟨doubled, finite⟩ := two
  cases P with
  | zero => exact finite rfl
  | some x y on =>
    obtain ⟨u, v, sum, same, -⟩ := add_self on (ordinate_ne_zero on)
    rw [same] at doubled
    exact Affine.Point.some_ne_zero _ doubled

theorem card_eq_order : Nat.card curve.Point = order := by
  have divides := addOrderOf_dvd_natCard (Point.generator.element Point.generator_onCurve)
  rw [Point.addOrderOf_generator] at divides
  obtain ⟨times, card⟩ := divides
  have positive : 0 < Nat.card curve.Point := Nat.card_pos
  have few : times < 3 := by
    by_contra many
    have more : order * 3 ≤ order * times := Nat.mul_le_mul_left _ (Nat.not_lt.1 many)
    have large : 2 * prime + 1 < order * 3 := by decide
    have bound := card_le
    omega
  interval_cases times
  · omega
  · rw [card, mul_one]
  · obtain ⟨P, two⟩ := exists_prime_addOrderOf_dvd_card' 2 (Dvd.intro_left _ card.symm)
    exact absurd two (addOrderOf_ne_two P)

end Secp256k1

open Secp256k1 Point

/-- Every public key is that of a private key. -/
theorem PublicKey.exists_privateKey {key : PublicKey} (on : key.point.OnCurve) :
    ∃ mine : PrivateKey, mine.publicKey = key := by
  have member : key.point.element on ∈ AddSubmonoid.multiples (generator.element generator_onCurve) :=
    mem_multiples_of_prime_card card_eq_order (element_ne_zero generator_onCurve)
  obtain ⟨factor, same⟩ := member
  have reduced := mod_addOrderOf_nsmul (generator.element generator_onCurve) factor
  rw [addOrderOf_generator] at reduced
  have nonzero : 0 < factor % order := by
    refine Nat.pos_of_ne_zero fun zero => ?_
    rw [zero, zero_nsmul] at reduced
    exact element_ne_zero on (same.symm.trans reduced.symm)
  let mine : PrivateKey := ⟨factor % order, nonzero, Nat.mod_lt _ (by decide)⟩
  obtain ⟨on', point⟩ := mine.publicKey_point
  have equal : mine.publicKey.point = key.point :=
    element_injective (point.trans (reduced.trans same))
  refine ⟨mine, ?_⟩
  cases key
  exact congrArg PublicKey.mk equal

end NoiseLink
