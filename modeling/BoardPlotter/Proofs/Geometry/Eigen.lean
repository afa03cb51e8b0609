import BoardPlotter.Geometry.Eigen
import BoardPlotter.Proofs.Geometry.Segment

/-!
# The greater eigenvalue

The greater eigenvalue of a symmetric matrix exceeds both entries of the diagonal, and
what it exceeds them by has the square of the third entry as product
(`SymmetricMatrix.greater_spec`). So it is the greatest value of the quadratic form on
unit vectors (`SymmetricMatrix.form_le`, `SymmetricMatrix.exists_form_eq`).
-/

namespace BoardPlotter

namespace SymmetricMatrix

/-- The quadratic form of the matrix. -/
noncomputable def form (m : SymmetricMatrix ℝ) (v : Point ℝ) : ℝ :=
  m.a * v.x ^ 2 + 2 * m.b * (v.x * v.y) + m.c * v.y ^ 2

theorem greater_eq (m : SymmetricMatrix ℝ) :
    m.eigenvalues.2 = (m.a + m.c) / 2 + √((m.a - m.c) ^ 2 + 4 * m.b ^ 2) / 2 := by
  have inner : (m.a - m.c) * (m.a - m.c) + 4 * m.b * m.b = (m.a - m.c) ^ 2 + 4 * m.b ^ 2 := by
    ring
  rw [← inner]
  rfl

/-- What characterises the greater eigenvalue. -/
theorem greater_spec (m : SymmetricMatrix ℝ) :
    m.a ≤ m.eigenvalues.2 ∧ m.c ≤ m.eigenvalues.2 ∧
      (m.eigenvalues.2 - m.a) * (m.eigenvalues.2 - m.c) = m.b ^ 2 := by
  have inner : 0 ≤ (m.a - m.c) ^ 2 + 4 * m.b ^ 2 := by positivity
  have root := Real.sq_sqrt inner
  have apart : |m.a - m.c| ≤ √((m.a - m.c) ^ 2 + 4 * m.b ^ 2) := by
    apply Real.le_sqrt_of_sq_le
    rw [sq_abs]
    linarith [sq_nonneg m.b]
  obtain ⟨low, high⟩ := abs_le.mp apart
  rw [greater_eq]
  refine ⟨by linarith, by linarith, ?_⟩
  linear_combination root / 4

/-- The form falls short of the greater eigenvalue by two squares. -/
theorem form_gap (m : SymmetricMatrix ℝ) (v : Point ℝ) :
    (m.eigenvalues.2 - m.a + (m.eigenvalues.2 - m.c)) *
        (m.eigenvalues.2 * (v.x ^ 2 + v.y ^ 2) - m.form v) =
      ((m.eigenvalues.2 - m.a) * v.x - m.b * v.y) ^ 2 +
        (m.b * v.x - (m.eigenvalues.2 - m.c) * v.y) ^ 2 := by
  obtain ⟨-, -, product⟩ := m.greater_spec
  rw [form]
  linear_combination (v.x ^ 2 + v.y ^ 2) * product

theorem form_le (m : SymmetricMatrix ℝ) (v : Point ℝ) :
    m.form v ≤ m.eigenvalues.2 * (v.x ^ 2 + v.y ^ 2) := by
  obtain ⟨ha, hc, product⟩ := m.greater_spec
  rcases (add_nonneg (sub_nonneg.mpr ha) (sub_nonneg.mpr hc)).eq_or_lt with zero | positive
  · -- A multiple of the unit matrix.
    have hb : m.b = 0 := by
      have : m.eigenvalues.2 - m.a = 0 := by linarith
      rw [this, zero_mul] at product
      exact pow_eq_zero_iff two_ne_zero |>.mp product.symm
    rw [form, hb]
    nlinarith [sq_nonneg v.x, sq_nonneg v.y]
  · have nonneg := nonneg_of_mul_nonneg_right
      ((m.form_gap v).symm ▸ add_nonneg (sq_nonneg _) (sq_nonneg _)) positive
    linarith

/-- An eigenvector attains it. -/
theorem exists_form_eq (m : SymmetricMatrix ℝ) :
    ∃ v : Point ℝ, v ≠ .origin ∧ m.form v = m.eigenvalues.2 * (v.x ^ 2 + v.y ^ 2) := by
  obtain ⟨-, -, product⟩ := m.greater_spec
  by_cases vanish : m.eigenvalues.2 - m.a = 0 ∧ m.b = 0
  · obtain ⟨ha, hb⟩ := vanish
    refine ⟨⟨1, 0⟩, fun zero => one_ne_zero (congrArg Point.x zero), ?_⟩
    rw [form, hb]
    linear_combination -ha
  · refine ⟨⟨m.b, m.eigenvalues.2 - m.a⟩, fun zero => vanish ?_, ?_⟩
    · exact ⟨congrArg Point.y zero, congrArg Point.x zero⟩
    · rw [form]
      linear_combination -(m.eigenvalues.2 - m.a) * product

end SymmetricMatrix

end BoardPlotter
