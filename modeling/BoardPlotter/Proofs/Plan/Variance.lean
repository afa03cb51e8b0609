import BoardPlotter.Proofs.Geometry.Eigen
import BoardPlotter.Proofs.Plan.Axes

/-!
# The axis of greatest variance

The variance of points along a direction is the quadratic form of their covariance matrix
(`Axes.varianceAlong_eq`), whatever the points. For the axis that is found, the matrix has
its greater eigenvalue, so along no other direction do the points vary as much
(`Axes.principal_greatest`).
-/

namespace BoardPlotter

namespace Point

theorem dot_self (p : Point ℝ) : p.dot p = p.x ^ 2 + p.y ^ 2 := by
  rw [dot]
  ring

/-- Unit vectors on one line are the same or opposite. -/
theorem eq_or_eq_neg_of_cross {p q : Point ℝ} (hp : p.dot p = 1) (hq : q.dot q = 1)
    (line : p.cross q = 0) : p = q ∨ p = -q := by
  simp only [dot, cross] at hp hq line
  have square : (p.x * q.x + p.y * q.y - 1) * (p.x * q.x + p.y * q.y + 1) = 0 := by
    linear_combination (q.x * q.x + q.y * q.y) * hp + hq - (p.x * q.y - p.y * q.x) * line
  rcases mul_eq_zero.mp square with same | opposite
  · left
    ext
    · linear_combination -p.x * hq + q.x * same + q.y * line
    · linear_combination -p.y * hq + q.y * same - q.x * line
  · right
    ext
    · change p.x = -q.x
      linear_combination -p.x * hq + q.x * opposite + q.y * line
    · change p.y = -q.y
      linear_combination -p.y * hq + q.y * opposite - q.x * line

end Point

namespace SymmetricMatrix

variable {m : SymmetricMatrix ℝ} {lam : ℝ} {v d : Point ℝ}

/-- The matrix takes the vector to its multiple by `lam`. -/
structure IsEigenvector (m : SymmetricMatrix ℝ) (lam : ℝ) (v : Point ℝ) : Prop where
  first : m.a * v.x + m.b * v.y = lam * v.x
  second : m.b * v.x + m.c * v.y = lam * v.y

theorem IsEigenvector.form_eq (h : m.IsEigenvector lam v) :
    m.form v = lam * (v.x ^ 2 + v.y ^ 2) := by
  rw [form]
  linear_combination v.x * h.first + v.y * h.second

theorem form_neg (m : SymmetricMatrix ℝ) (v : Point ℝ) : m.form (-v) = m.form v := by
  have opposite : -v = ⟨-v.x, -v.y⟩ := rfl
  rw [opposite, form, form]
  ring

/-- No eigenvalue is greater than the greater one. -/
theorem IsEigenvector.le_greater (h : m.IsEigenvector lam v) (nonzero : v ≠ .origin) :
    lam ≤ m.eigenvalues.2 := by
  have most := m.form_le v
  rw [h.form_eq] at most
  refine le_of_mul_le_mul_right most ?_
  by_contra none
  apply nonzero
  ext
  · change v.x = 0
    nlinarith [sq_nonneg v.x, sq_nonneg v.y]
  · change v.y = 0
    nlinarith [sq_nonneg v.x, sq_nonneg v.y]

/-- A unit vector found from the first row is one for the greater eigenvalue. -/
theorem isEigenvector_of_row (tilted : m.b ≠ 0)
    (row : (m.eigenvalues.2 - m.a) * v.x = m.b * v.y) :
    m.IsEigenvector m.eigenvalues.2 v := by
  obtain ⟨-, -, product⟩ := m.greater_spec
  refine ⟨by linear_combination -row, ?_⟩
  apply mul_left_cancel₀ tilted
  linear_combination (m.eigenvalues.2 - m.c) * row - v.x * product

/-- Only along an eigenvector does the form come up to the greater eigenvalue. -/
theorem row_of_form_eq (attained : m.form v = m.eigenvalues.2 * (v.x ^ 2 + v.y ^ 2)) :
    (m.eigenvalues.2 - m.a) * v.x = m.b * v.y := by
  have gap := m.form_gap v
  rw [attained, sub_self, mul_zero] at gap
  have square : ((m.eigenvalues.2 - m.a) * v.x - m.b * v.y) ^ 2 = 0 := by
    nlinarith [sq_nonneg ((m.eigenvalues.2 - m.a) * v.x - m.b * v.y),
      sq_nonneg (m.b * v.x - (m.eigenvalues.2 - m.c) * v.y)]
  exact sub_eq_zero.mp (pow_eq_zero_iff two_ne_zero |>.mp square)

end SymmetricMatrix

namespace Axes

/-! ### Variance -/

/-- The population variance. -/
noncomputable def variance (xs : List ℝ) : ℝ := mean (xs.map fun x => (x - mean xs) ^ 2)

/-- The population variance of points along a direction. -/
noncomputable def varianceAlong (ps : List (Point ℝ)) (d : Point ℝ) : ℝ :=
  variance (ps.map fun p => p.dot d)

theorem mean_eq (xs : List ℝ) : mean xs = xs.sum / xs.length := by
  rw [mean, sum_eq, Exact.ofNat_eq]

/-- Means are linear. -/
theorem mean_combination {β : Type} (xs : List β) (f g : β → ℝ) (r s : ℝ) :
    mean (xs.map fun x => f x * r + g x * s) = mean (xs.map f) * r + mean (xs.map g) * s := by
  simp only [mean_eq, List.length_map, List.sum_map_add, List.sum_map_mul_right]
  ring

/-- The covariance matrix holds the means of the products of deviations. -/
theorem covariance_eq (ps : List (Point ℝ)) :
    let mx := mean (ps.map Point.x)
    let my := mean (ps.map Point.y)
    covariance ps =
      ⟨mean (ps.map fun p => (p.x - mx) * (p.x - mx)),
        mean (ps.map fun p => (p.x - mx) * (p.y - my)),
        mean (ps.map fun p => (p.y - my) * (p.y - my))⟩ := by
  intro mx my
  have average (f : Point ℝ → ℝ) :
      sum ((ps.map fun p => Point.mk (p.x - mx) (p.y - my)).map f) *
          (1 / Scalar.ofNat ps.length) =
        mean (ps.map fun p => f ⟨p.x - mx, p.y - my⟩) := by
    rw [mean, List.map_map, List.length_map, mul_one_div]
    rfl
  exact (SymmetricMatrix.mk.injEq _ _ _ _ _ _).mpr
    ⟨average fun d => d.x * d.x, average fun d => d.x * d.y, average fun d => d.y * d.y⟩

/-- **The variance along a direction** is the form of the covariance matrix. -/
theorem varianceAlong_eq (ps : List (Point ℝ)) (d : Point ℝ) :
    varianceAlong ps d = (covariance ps).form d := by
  let mx := mean (ps.map Point.x)
  let my := mean (ps.map Point.y)
  have middle : mean (ps.map fun p => p.dot d) = mx * d.x + my * d.y :=
    mean_combination ps Point.x Point.y d.x d.y
  have square (p : Point ℝ) : (p.dot d - (mx * d.x + my * d.y)) ^ 2 =
      ((p.x - mx) * (p.x - mx) * d.x ^ 2 + (p.x - mx) * (p.y - my) * (2 * (d.x * d.y))) * 1 +
        (p.y - my) * (p.y - my) * d.y ^ 2 := by
    rw [Point.dot]
    ring
  rw [varianceAlong, variance, middle, List.map_map, covariance_eq, SymmetricMatrix.form]
  change mean (ps.map fun p => (p.dot d - (mx * d.x + my * d.y)) ^ 2) = _
  simp only [square]
  rw [mean_combination, mean_combination]
  ring

/-! ### The axis -/

/-- **The axis of greatest variance.** For points that vary together by more than the
tolerance, perpendicular unit directions are found. The first is an eigenvector of the
covariance matrix for its greatest eigenvalue, and the points vary along it more than along
any direction but the opposite one. -/
theorem principal_greatest (ps : List (Point ℝ)) {eps : ℝ} (many : 2 ≤ ps.length)
    (nonneg : 0 ≤ eps) (tilted : eps < |(covariance ps).b|) :
    ∃ axes, principal ps eps = .ok axes ∧ axes.Orthonormal ∧
      (∃ lam, (covariance ps).IsEigenvector lam axes.along ∧
        ∀ lam' v, v ≠ .origin → (covariance ps).IsEigenvector lam' v → lam' ≤ lam) ∧
      ∀ d : Point ℝ, d.dot d = 1 →
        varianceAlong ps d ≤ varianceAlong ps axes.along ∧
        (varianceAlong ps d = varianceAlong ps axes.along ↔ d = axes.along ∨ d = -axes.along) := by
  have together : (covariance ps).b ≠ 0 := abs_pos.mp (nonneg.trans_lt tilted)
  obtain ⟨v, found, row, unit⟩ := (covariance ps).exists_eigenvector (covariance ps).eigenvalues.2
  have unit := unit.resolve_right fun zero => together zero.2
  have eigen := SymmetricMatrix.isEigenvector_of_row together row
  refine ⟨⟨v, v.perp⟩, ?_, orthonormal_perp unit, ?_, ?_⟩
  · rw [principal_of_lt many tilted, found]
    rfl
  · exact ⟨_, eigen, fun lam v nonzero h => h.le_greater nonzero⟩
  · intro d unit'
    have most : varianceAlong ps v = (covariance ps).eigenvalues.2 := by
      rw [varianceAlong_eq, eigen.form_eq, ← Point.dot_self, unit, mul_one]
    have less := (covariance ps).form_le d
    rw [← varianceAlong_eq, ← Point.dot_self, unit', mul_one] at less
    rw [most]
    refine ⟨less, fun attained => ?_, ?_⟩
    · rw [varianceAlong_eq, ← mul_one (covariance ps).eigenvalues.2, ← unit', Point.dot_self]
        at attained
      have row' := SymmetricMatrix.row_of_form_eq attained
      refine Point.eq_or_eq_neg_of_cross unit' unit (mul_left_cancel₀ together ?_)
      rw [Point.cross]
      linear_combination v.x * row' - d.x * row
    · rintro (rfl | rfl)
      · exact most
      · rw [varianceAlong_eq, SymmetricMatrix.form_neg, ← varianceAlong_eq, most]

/-- Three points that lie about a slanted line. -/
theorem principal_greatest_slanted :
    let ps : List (Point ℝ) := [⟨0, 0⟩, ⟨3, 1⟩, ⟨0, 1⟩]
    2 ≤ ps.length ∧ (0 : ℝ) ≤ Scalar.epsilon ∧ Scalar.epsilon < |(covariance ps).b| ∧
      ∃ axes, principal ps Scalar.epsilon = .ok axes ∧ axes.Orthonormal ∧
        varianceAlong ps ⟨1, 0⟩ ≤ varianceAlong ps axes.along ∧
        varianceAlong ps ⟨0, 1⟩ ≤ varianceAlong ps axes.along := by
  intro ps
  have together : (covariance ps).b = 1 / 3 := by
    rw [covariance_eq]
    norm_num [ps, mean_eq]
  have nonneg : (0 : ℝ) ≤ Scalar.epsilon := by
    rw [Exact.epsilon_eq]
    positivity
  have tilted : Scalar.epsilon < |(covariance ps).b| := by
    rw [together, Exact.epsilon_eq]
    norm_num
  obtain ⟨axes, found, frame, -, greatest⟩ := principal_greatest ps (by simp [ps]) nonneg tilted
  exact ⟨by simp [ps], nonneg, tilted, axes, found, frame,
    (greatest ⟨1, 0⟩ (by norm_num [Point.dot])).1, (greatest ⟨0, 1⟩ (by norm_num [Point.dot])).1⟩

end Axes

end BoardPlotter
