import Mathlib.GroupTheory.OrderOfElement
import NoiseLink.Proofs.Crypto.Curve

/-! Multiplying a point is multiplying the element it stands for, and the generator has the order it
is said to have: none of its multiples below the order is the point at infinity. -/
namespace NoiseLink.Secp256k1

namespace Jacobian

theorem represents_infinity : infinity.Represents 0 := by
  change infinity.z.residue = 0
  simp [infinity]

theorem represents_multiple {p : Point} (on : p.OnCurve) (factor : Nat) :
    (multiple p factor).Represents (factor • p.element on) := by
  fun_induction multiple p factor with
  | case1 => simpa using represents_infinity
  | case2 factor positive even low ih =>
    have twice : factor / 2 + factor / 2 = factor := by omega
    have doubled := ih.double
    rwa [← add_nsmul, twice] at doubled
  | case3 factor positive even odd ih =>
    have twice : factor / 2 + factor / 2 + 1 = factor := by omega
    have added := ih.double.add on
    rwa [← add_nsmul, ← succ_nsmul, twice] at added

theorem Represents.toPoint? {j : Jacobian} {P : curve.Point} (h : j.Represents P) :
    match j.toPoint? with
    | none => P = 0
    | some q => ∃ on, q.element on = P := by
  cases P with
  | zero =>
    have infinite : j.z = 0 := Coordinate.residue_eq_zero_iff.1 h
    rw [Jacobian.toPoint?, if_pos infinite]
    rfl
  | some x y on =>
    obtain ⟨finite, first, second⟩ := h
    have nonzero : ¬ j.z = 0 := fun zero => finite (Coordinate.residue_eq_zero_iff.2 zero)
    rw [Jacobian.toPoint?, if_neg nonzero]
    have abscissa : (j.x * (j.z.inverse * j.z.inverse)).residue = x := by
      simp only [Coordinate.residue_mul, Coordinate.residue_inverse, first]
      field_simp
    have ordinate : (j.y * (j.z.inverse * j.z.inverse * j.z.inverse)).residue = y := by
      simp only [Coordinate.residue_mul, Coordinate.residue_inverse, second]
      field_simp
    have same : Point.OnCurve ⟨j.x * (j.z.inverse * j.z.inverse),
        j.y * (j.z.inverse * j.z.inverse * j.z.inverse)⟩ := by
      rw [Point.onCurve_iff, abscissa, ordinate]
      exact on
    refine ⟨same, ?_⟩
    simp only [Point.element, abscissa, ordinate]

end Jacobian

namespace Point

/-- A multiple is missing exactly where it is the point at infinity. -/
theorem multiple?_eq_none_iff {p : Point} (on : p.OnCurve) {factor : Nat} :
    p.multiple? factor = none ↔ factor • p.element on = 0 := by
  have found := (Jacobian.represents_multiple on factor).toPoint?
  rw [multiple?]
  cases value : (Jacobian.multiple p factor).toPoint? with
  | none =>
    rw [value] at found
    simpa using found
  | some q =>
    rw [value] at found
    obtain ⟨onq, same⟩ := found
    simpa [← same] using element_ne_zero onq

theorem multiple?_eq_some {p : Point} (on : p.OnCurve) {factor : Nat} {q : Point}
    (found : p.multiple? factor = some q) : ∃ onq, q.element onq = factor • p.element on := by
  have spec := (Jacobian.represents_multiple on factor).toPoint?
  rw [multiple?] at found
  rw [found] at spec
  exact spec

theorem generator_onCurve : generator.OnCurve := by
  decide +kernel

end Point

namespace Jacobian

/-- The multiple by the low `bits` bits of the factor, which evaluates bit by bit. -/
def byBits (p : Point) : Nat → Nat → Jacobian
  | 0, _ => infinity
  | bits + 1, factor =>
    if factor % 2 = 0 then (byBits p bits (factor / 2)).double
    else (byBits p bits (factor / 2)).double.add p

theorem double_infinity : infinity.double = infinity := by
  rfl

theorem byBits_eq_multiple (p : Point) {bits factor : Nat} (small : factor < 2 ^ bits) :
    byBits p bits factor = multiple p factor := by
  induction bits generalizing factor with
  | zero =>
    have zero : factor = 0 := by omega
    rw [byBits, multiple, if_pos zero]
  | succ bits ih =>
    have half : factor / 2 < 2 ^ bits := by omega
    rw [byBits, ih half]
    by_cases zero : factor = 0
    · subst zero
      rw [multiple, if_pos rfl]
      exact double_infinity
    · conv_rhs => rw [multiple, if_neg zero]

end Jacobian

namespace Point

theorem order_nsmul_generator : order • generator.element generator_onCurve = 0 := by
  have infinite : (Jacobian.byBits generator 256 order).z = 0 := by decide +kernel
  rw [Jacobian.byBits_eq_multiple generator (by decide)] at infinite
  rw [← multiple?_eq_none_iff, multiple?, Jacobian.toPoint?, if_pos infinite]

instance : Fact order.Prime := ⟨order_is_prime⟩

theorem addOrderOf_generator : addOrderOf (generator.element generator_onCurve) = order :=
  addOrderOf_eq_prime order_nsmul_generator (element_ne_zero _)

theorem nsmul_generator_eq_zero_iff {factor : Nat} :
    factor • generator.element generator_onCurve = 0 ↔ order ∣ factor := by
  rw [← addOrderOf_generator, addOrderOf_dvd_iff_nsmul_eq_zero]

end Point
end NoiseLink.Secp256k1
