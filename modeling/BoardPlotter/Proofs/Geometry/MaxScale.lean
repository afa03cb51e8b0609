import BoardPlotter.Proofs.Geometry.Eigen
import BoardPlotter.Proofs.Geometry.Flattening
import BoardPlotter.Svg.Drawing

/-!
# How far a map stretches

The square of the length that a displacement has under an affine map is a quadratic form
(`Affine.apply_sub_sq`), and the square of the largest stretch is its greater eigenvalue
(`Affine.maxScale_eq`). So no length grows by more than the largest stretch, and one
grows by that (`Affine.length_apply_sub_le`, `Affine.exists_length_apply_sub`).

`Affine.maxScale_stretches`: with that the tolerance for what is drawn under a map keeps
within the tolerance of the drawing, for whatever map.
-/

namespace BoardPlotter

open Scalar Point

namespace Affine

/-- The matrix of the products of the columns of the linear part. -/
noncomputable def gram (t : Affine ℝ) : SymmetricMatrix ℝ :=
  ⟨t.a ^ 2 + t.b ^ 2, t.a * t.c + t.b * t.d, t.c ^ 2 + t.d ^ 2⟩

theorem maxScale_eq (t : Affine ℝ) : t.maxScale = √t.gram.eigenvalues.2 := by
  have discriminant : (t.a * t.a + t.b * t.b + t.c * t.c + t.d * t.d) *
        (t.a * t.a + t.b * t.b + t.c * t.c + t.d * t.d) -
      4 * (t.a * t.d - t.b * t.c) * (t.a * t.d - t.b * t.c) =
        (t.gram.a - t.gram.c) ^ 2 + 4 * t.gram.b ^ 2 := by
    simp only [gram]
    ring
  have nonneg : 0 ≤ (t.gram.a - t.gram.c) ^ 2 + 4 * t.gram.b ^ 2 := by positivity
  have trace : t.a * t.a + t.b * t.b + t.c * t.c + t.d * t.d = t.gram.a + t.gram.c := by
    simp only [gram]
    ring
  unfold maxScale
  simp only [Exact.larger_eq]
  rw [discriminant, max_eq_left nonneg, trace, SymmetricMatrix.greater_eq, ← add_div]
  rfl

theorem maxScale_nonneg (t : Affine ℝ) : 0 ≤ t.maxScale := by
  rw [maxScale_eq]
  exact Real.sqrt_nonneg _

theorem maxScale_sq (t : Affine ℝ) : t.maxScale ^ 2 = t.gram.eigenvalues.2 := by
  have diagonal : 0 ≤ t.gram.a := by
    unfold gram
    positivity
  rw [maxScale_eq, Real.sq_sqrt (diagonal.trans t.gram.greater_spec.1)]

/-- The image of a displacement, squared. -/
theorem apply_sub_sq (t : Affine ℝ) (p q : Point ℝ) :
    (t.apply p - t.apply q).x ^ 2 + (t.apply p - t.apply q).y ^ 2 = t.gram.form (p - q) := by
  simp only [apply, gram, SymmetricMatrix.form, sub_x, sub_y]
  ring

theorem length_apply_sub_le (t : Affine ℝ) (p q : Point ℝ) :
    (t.apply p - t.apply q).length ≤ t.maxScale * (p - q).length := by
  have nonneg : 0 ≤ t.maxScale * (p - q).length :=
    mul_nonneg t.maxScale_nonneg (length_nonneg _)
  rw [length_le_iff nonneg, apply_sub_sq, mul_pow, maxScale_sq, length_sq]
  exact t.gram.form_le (p - q)

theorem exists_length_apply_sub (t : Affine ℝ) :
    ∃ p q, p ≠ q ∧ (t.apply p - t.apply q).length = t.maxScale * (p - q).length := by
  obtain ⟨v, nonzero, attains⟩ := t.gram.exists_form_eq
  have displacement : v - .origin = v := by
    ext
    · exact sub_zero v.x
    · exact sub_zero v.y
  refine ⟨v, .origin, nonzero, ?_⟩
  have nonneg : 0 ≤ t.maxScale * (v - .origin).length :=
    mul_nonneg t.maxScale_nonneg (length_nonneg _)
  apply (sq_eq_sq₀ (length_nonneg _) nonneg).mp
  rw [mul_pow, length_sq, length_sq, apply_sub_sq, maxScale_sq, displacement]
  exact attains

/-- The tolerance under a map, which stays as it is where the map is all but constant. -/
theorem tolerance_under (f : Flattening ℝ) (t : Affine ℝ) :
    (f.under t).tolerance =
      if t.maxScale ≤ 1 / 10 ^ 9 then f.tolerance else f.tolerance / t.maxScale := by
  rw [← Exact.epsilon_eq, Flattening.under]
  split <;> rfl

/-- **The largest stretch is the operator norm**, and the tolerance under a map is safe. No
length grows by more than the largest stretch and some length grows by just that, so points
within the tolerance of each other, as it is taken under the map, have images within the
tolerance of the drawing. -/
theorem maxScale_stretches (t : Affine ℝ) :
    (∀ p q, (t.apply p - t.apply q).length ≤ t.maxScale * (p - q).length) ∧
      (∃ p q, p ≠ q ∧ (t.apply p - t.apply q).length = t.maxScale * (p - q).length) ∧
      ∀ f : Flattening ℝ, 0 < f.tolerance → ∀ p q, (p - q).length ≤ (f.under t).tolerance →
        (t.apply p - t.apply q).length ≤ f.tolerance := by
  refine ⟨t.length_apply_sub_le, t.exists_length_apply_sub, ?_⟩
  intro f positive p q near
  apply (t.length_apply_sub_le p q).trans
  rw [tolerance_under] at near
  by_cases tiny : t.maxScale ≤ 1 / 10 ^ 9
  · rw [if_pos tiny] at near
    have small : t.maxScale ≤ 1 := tiny.trans (by norm_num)
    exact (mul_le_of_le_one_left (length_nonneg _) small).trans near
  · rw [if_neg tiny] at near
    have scale : 0 < t.maxScale := lt_trans (by norm_num) (not_le.mp tiny)
    calc t.maxScale * (p - q).length
        ≤ t.maxScale * (f.tolerance / t.maxScale) := mul_le_mul_of_nonneg_left near scale.le
      _ = f.tolerance := mul_div_cancel₀ _ scale.ne'

/-- Flattened onto a line, and drawn out fivefold along it. -/
theorem maxScale_stretches_flattened :
    let t : Affine ℝ := ⟨3, 4, 0, 0, 7, 0⟩
    let f : Flattening ℝ := ⟨1 / 10, none, 16⟩
    t.maxScale = 5 ∧ (⟨1 / 50, 9⟩ - ⟨0, 9⟩ : Point ℝ).length ≤ (f.under t).tolerance ∧
      (t.apply ⟨1 / 50, 9⟩ - t.apply ⟨0, 9⟩).length ≤ 1 / 10 := by
  intro t f
  have five : t.maxScale = 5 := by
    have square : t.maxScale ^ 2 = 5 ^ 2 := by
      rw [t.maxScale_sq, SymmetricMatrix.greater_eq]
      have gram : t.gram = ⟨25, 0, 0⟩ := by
        unfold gram
        norm_num [t]
      have root : √((25 - 0) ^ 2 + 4 * 0 ^ 2 : ℝ) = 25 := by
        rw [Real.sqrt_eq_iff_mul_self_eq] <;> norm_num
      rw [gram, root]
      norm_num
    exact (sq_eq_sq₀ t.maxScale_nonneg (by norm_num)).mp square
  have tolerance : (f.under t).tolerance = 1 / 50 := by
    rw [tolerance_under, five]
    norm_num [f]
  have near : (⟨1 / 50, 9⟩ - ⟨0, 9⟩ : Point ℝ).length ≤ (f.under t).tolerance := by
    rw [tolerance, length_le_iff (by norm_num)]
    norm_num
  exact ⟨five, near, t.maxScale_stretches.2.2 f (by norm_num [f]) _ _ near⟩

end Affine

end BoardPlotter
