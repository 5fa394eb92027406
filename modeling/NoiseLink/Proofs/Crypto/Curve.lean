import Mathlib.AlgebraicGeometry.EllipticCurve.Affine.Point
import NoiseLink.Proofs.Crypto.Residues

/-! Points in Jacobian coordinates stand for elements of the group of the curve, and doubling, adding
and multiplying them does what the group does. -/
namespace NoiseLink.Secp256k1

open WeierstrassCurve

def curve : WeierstrassCurve.Affine Residue := ⟨0, 0, 0, 0, 7⟩

theorem curve_discriminant : curve.Δ ≠ 0 := by
  have value : curve.Δ = -((21168 : Nat) : Residue) := by
    simp only [WeierstrassCurve.Δ, WeierstrassCurve.b₂, WeierstrassCurve.b₄, WeierstrassCurve.b₆,
      WeierstrassCurve.b₈, curve]
    norm_num
  rw [value, neg_ne_zero, Ne, ZMod.natCast_eq_zero_iff]
  exact Nat.not_dvd_of_pos_of_lt (by decide) (by decide)

theorem two_ne_zero : (2 : Residue) ≠ 0 := by
  have cast : ((2 : Nat) : Residue) ≠ 0 := by
    rw [Ne, ZMod.natCast_eq_zero_iff]
    exact Nat.not_dvd_of_pos_of_lt (by decide) (by decide)
  exact_mod_cast cast

theorem nonsingular_iff {x y : Residue} : curve.Nonsingular x y ↔ y ^ 2 = x ^ 3 + 7 := by
  rw [← Affine.equation_iff_nonsingular_of_Δ_ne_zero curve_discriminant,
    Affine.equation_iff]
  simp [curve]

/-- The tangent at a point whose `y` is not zero. -/
theorem add_self {x y : Residue} (h : curve.Nonsingular x y) (slanted : y ≠ 0) :
    ∃ u v, ∃ sum : curve.Nonsingular u v,
      Affine.Point.some x y h + Affine.Point.some x y h = .some u v sum ∧
      u = (3 * x ^ 2 / (2 * y)) ^ 2 - 2 * x ∧ v = 3 * x ^ 2 / (2 * y) * (x - u) - y := by
  have distinct : y ≠ curve.negY x y := by
    intro same
    have twice : 2 * y = 0 := by
      simp only [Affine.negY, curve] at same
      linear_combination same
    exact slanted ((mul_eq_zero.1 twice).resolve_left two_ne_zero)
  refine ⟨_, _, _, Affine.Point.add_self_of_Y_ne distinct, ?_, ?_⟩
  · rw [Affine.slope_of_Y_ne rfl distinct]
    simp only [Affine.addX, Affine.negY, curve]
    ring
  · rw [Affine.slope_of_Y_ne rfl distinct]
    simp only [Affine.addY, Affine.negAddY,
      Affine.addX, Affine.negY, curve]
    ring

/-- The chord through two points with different `x`. -/
theorem add_other {x y x' y' : Residue} (h : curve.Nonsingular x y) (h' : curve.Nonsingular x' y')
    (distinct : x ≠ x') :
    ∃ u v, ∃ sum : curve.Nonsingular u v,
      Affine.Point.some x y h + Affine.Point.some x' y' h' = .some u v sum ∧
      u = ((y - y') / (x - x')) ^ 2 - x - x' ∧ v = (y - y') / (x - x') * (x - u) - y := by
  refine ⟨_, _, _, Affine.Point.add_of_X_ne distinct, ?_, ?_⟩
  · rw [Affine.slope_of_X_ne distinct]
    simp only [Affine.addX, curve]
    ring
  · rw [Affine.slope_of_X_ne distinct]
    simp only [Affine.addY, Affine.negAddY,
      Affine.addX, Affine.negY, curve]
    ring

theorem add_opposite {x y y' : Residue} (h : curve.Nonsingular x y) (h' : curve.Nonsingular x y')
    (distinct : y ≠ y') : Affine.Point.some x y h + Affine.Point.some x y' h' = 0 := by
  have squares := (nonsingular_iff.1 h).trans (nonsingular_iff.1 h').symm
  have product : (y - y') * (y + y') = 0 := by linear_combination squares
  have sum := (mul_eq_zero.1 product).resolve_left (sub_ne_zero.2 distinct)
  refine Affine.Point.add_of_Y_eq rfl ?_
  simp only [Affine.negY, curve]
  linear_combination sum

theorem add_self_of_zero {x y : Residue} (h : curve.Nonsingular x y) (flat : y = 0) :
    Affine.Point.some x y h + Affine.Point.some x y h = 0 := by
  refine Affine.Point.add_self_of_Y_eq ?_
  simp only [Affine.negY, curve]
  linear_combination 2 * flat

/-- The element of the group that Jacobian coordinates stand for. -/
def Jacobian.Represents (j : Jacobian) : curve.Point → Prop
  | .zero => j.z.residue = 0
  | .some x y _ => j.z.residue ≠ 0 ∧ j.x.residue = x * j.z.residue ^ 2 ∧
      j.y.residue = y * j.z.residue ^ 3

namespace Jacobian

theorem Represents.double {j : Jacobian} {P : curve.Point} (h : j.Represents P) :
    j.double.Represents (P + P) := by
  cases P with
  | zero =>
    change j.z.residue = 0 at h
    change j.double.z.residue = 0
    simp [Jacobian.double, h]
  | some x y on =>
    obtain ⟨finite, first, second⟩ := h
    by_cases flat : y = 0
    · rw [add_self_of_zero on flat]
      change j.double.z.residue = 0
      simp [Jacobian.double, second, flat]
    · obtain ⟨u, v, sum, doubled, rfl, rfl⟩ := add_self on flat
      rw [doubled]
      have two := two_ne_zero
      have slope : 2 * y ≠ 0 := mul_ne_zero two flat
      have third : j.double.z.residue = 2 * y * j.z.residue ^ 4 := by
        simp only [Jacobian.double, Coordinate.residue_add, Coordinate.residue_mul, second]
        ring
      refine ⟨?_, ?_, ?_⟩
      · rw [third]
        exact mul_ne_zero slope (pow_ne_zero 4 finite)
      · rw [third]
        simp only [Jacobian.double, Coordinate.residue_add, Coordinate.residue_mul,
          Coordinate.residue_sub, first, second]
        field_simp
        ring
      · rw [third]
        simp only [Jacobian.double, Coordinate.residue_add, Coordinate.residue_mul,
          Coordinate.residue_sub, first, second]
        field_simp
        ring

end Jacobian

namespace Point

theorem onCurve_iff {p : Point} : p.OnCurve ↔ curve.Nonsingular p.x.residue p.y.residue := by
  rw [nonsingular_iff, OnCurve, ← Coordinate.residue_inj]
  simp only [cubic, Coordinate.residue_add, Coordinate.residue_mul, Coordinate.residue_seven]
  constructor
  · intro h
    linear_combination h
  · intro h
    linear_combination h

def element (p : Point) (on : p.OnCurve) : curve.Point := .some _ _ (onCurve_iff.1 on)

theorem element_ne_zero {p : Point} (on : p.OnCurve) : p.element on ≠ 0 :=
  Affine.Point.some_ne_zero _

theorem element_injective {p q : Point} {on : p.OnCurve} {on' : q.OnCurve}
    (same : p.element on = q.element on') : p = q := by
  simp only [element, Affine.Point.some.injEq] at same
  obtain ⟨x, y⟩ := p
  rw [Point.mk.injEq]
  exact ⟨Coordinate.residue_injective same.1, Coordinate.residue_injective same.2⟩

end Point

/-- Without a division: whether a coordinate is that of a scaled one. -/
theorem Coordinate.mul_sub_eq_zero_iff {a b scale : Coordinate} {x : Residue}
    (finite : scale.residue ≠ 0) (scaled : b.residue = x * scale.residue) :
    a * scale - b = 0 ↔ a.residue = x := by
  rw [← residue_eq_zero_iff, residue_sub, residue_mul, scaled, sub_eq_zero, mul_left_inj' finite]

namespace Jacobian

theorem represents_ofPoint {q : Point} (on : q.OnCurve) : (ofPoint q).Represents (q.element on) := by
  refine ⟨?_, ?_, ?_⟩
  · simp [ofPoint]
  · simp [ofPoint]
  · simp [ofPoint]

theorem Represents.add {j : Jacobian} {P : curve.Point} (h : j.Represents P) {q : Point}
    (on : q.OnCurve) : (j.add q).Represents (P + q.element on) := by
  cases P with
  | zero =>
    have infinite : j.z = 0 := Coordinate.residue_eq_zero_iff.1 h
    rw [Jacobian.add, if_pos infinite]
    change (ofPoint q).Represents (0 + q.element on)
    rw [zero_add]
    exact represents_ofPoint on
  | some x y onP =>
    have whole := h
    obtain ⟨finite, first, second⟩ := h
    have nonzero : ¬ j.z = 0 := fun zero => finite (Coordinate.residue_eq_zero_iff.2 zero)
    have beside : q.x * (j.z * j.z) - j.x = 0 ↔ q.x.residue = x :=
      Coordinate.mul_sub_eq_zero_iff (by simp [finite])
        (by rw [first, Coordinate.residue_mul, pow_two])
    have level : q.y * (j.z * j.z * j.z) - j.y = 0 ↔ q.y.residue = y :=
      Coordinate.mul_sub_eq_zero_iff (by simp [finite])
        (by rw [second, Coordinate.residue_mul, Coordinate.residue_mul, pow_succ, pow_two])
    rw [Jacobian.add, if_neg nonzero]
    simp only [beside, level]
    split
    · rename_i above
      subst above
      split
      · rename_i same
        subst same
        exact whole.double
      · rename_i opposite
        rw [Point.element, add_opposite onP _ (Ne.symm opposite)]
        change infinity.z.residue = 0
        simp [infinity]
    · rename_i apart
      obtain ⟨u, v, sum, added, rfl, rfl⟩ := add_other onP (Point.onCurve_iff.1 on) (Ne.symm apart)
      rw [Point.element, added]
      have run : x - q.x.residue ≠ 0 := sub_ne_zero.2 (Ne.symm apart)
      have third : (q.x.residue - x) * j.z.residue ^ 3 ≠ 0 :=
        mul_ne_zero (sub_ne_zero.2 apart) (pow_ne_zero 3 finite)
      refine ⟨?_, ?_, ?_⟩
      · simp only [Coordinate.residue_mul, Coordinate.residue_sub, first]
        intro zero
        exact third (by linear_combination zero)
      · simp only [Coordinate.residue_mul, Coordinate.residue_sub, first, second]
        field_simp
        ring
      · simp only [Coordinate.residue_mul, Coordinate.residue_sub, first, second]
        field_simp
        ring

end Jacobian
end NoiseLink.Secp256k1
