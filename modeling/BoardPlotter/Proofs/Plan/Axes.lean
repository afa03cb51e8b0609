import BoardPlotter.Plan.Axes
import BoardPlotter.Proofs.Geometry.Segment

/-!
# The frame of scan lines

`Axes.principal` always finds axes, and they are perpendicular unit directions
(`Axes.exists_principal`). A point is determined by its two coordinates in such a
frame (`Axes.Orthonormal.ext`), so on one scan line by its coordinate along it.
-/

namespace BoardPlotter

namespace Point

theorem dot_along (a b d : Point ℝ) (t : ℝ) :
    (along a b t).dot d = a.dot d + (b.dot d - a.dot d) * t := by
  simp only [dot, along_x, along_y]
  ring

theorem sub_dot (p q d : Point ℝ) : (p - q).dot d = p.dot d - q.dot d := by
  simp only [dot, sub_x, sub_y]
  ring

/-- A vector that is not zero is scaled to unit length. -/
theorem normalize_dot_self {p : Point ℝ} (h : p.x ≠ 0 ∨ p.y ≠ 0) :
    p.normalize.dot p.normalize = 1 := by
  have positive : 0 < p.x ^ 2 + p.y ^ 2 := by
    rcases h with h | h <;> positivity
  have root : p.length * p.length = p.x ^ 2 + p.y ^ 2 := Real.mul_self_sqrt positive.le
  have nonzero : p.length ≠ 0 := by
    intro zero
    rw [zero] at root
    linarith
  have scaled : p.normalize = ⟨p.x / p.length, p.y / p.length⟩ := by
    simp [normalize, nonzero]
  rw [scaled, dot]
  field_simp
  linarith

/-- What holds of the direction of a vector holds of it at unit length. -/
theorem normalize_row {p : Point ℝ} {r s : ℝ} (row : r * p.x = s * p.y) :
    r * p.normalize.x = s * p.normalize.y := by
  by_cases zero : p.length = 0
  · have kept : p.normalize = p := by simp [normalize, zero]
    rw [kept, row]
  · have scaled : p.normalize = ⟨p.x / p.length, p.y / p.length⟩ := by simp [normalize, zero]
    rw [scaled]
    simp only
    rw [← mul_div_assoc, ← mul_div_assoc, row]

end Point

theorem Scalar.div?_of_ne {a b : ℝ} (h : b ≠ 0) : div? a b = .ok (a / b) := by
  simp [div?, h]

/-- The direction for an eigenvalue is found from the first row of the matrix, as a unit
vector unless that row vanishes. -/
theorem SymmetricMatrix.exists_eigenvector (m : SymmetricMatrix ℝ) (lam : ℝ) :
    ∃ v, m.eigenvector? lam = .ok v ∧ (lam - m.a) * v.x = m.b * v.y ∧
      (v.dot v = 1 ∨ v = .origin ∧ m.b = 0) := by
  by_cases vanish : lam - m.a = 0 ∧ m.b = 0
  · refine ⟨.origin, by simp [eigenvector?, vanish.1, vanish.2], ?_, .inr ⟨rfl, vanish.2⟩⟩
    rw [vanish.1, vanish.2, zero_mul, zero_mul]
  by_cases steep : |m.b| < |lam - m.a|
  · have nonzero : lam - m.a ≠ 0 := by
      intro zero
      rw [zero, abs_zero] at steep
      exact absurd steep (not_lt.mpr (abs_nonneg _))
    refine ⟨(Point.mk (m.b / (lam - m.a)) 1).normalize, ?_, ?_,
      .inl (Point.normalize_dot_self (.inr one_ne_zero))⟩
    · simp [eigenvector?, nonzero, steep, Scalar.div?_of_ne, pure, Except.pure, bind, Except.bind]
    · apply Point.normalize_row
      rw [mul_one, mul_div_cancel₀ _ nonzero]
  · have nonzero : m.b ≠ 0 := by
      intro zero
      rw [zero, abs_zero, not_lt] at steep
      exact vanish ⟨abs_eq_zero.mp (le_antisymm steep (abs_nonneg _)), zero⟩
    refine ⟨(Point.mk 1 ((lam - m.a) / m.b)).normalize, ?_, ?_,
      .inl (Point.normalize_dot_self (.inl one_ne_zero))⟩
    · simp [eigenvector?, nonzero, steep, Scalar.div?_of_ne, pure, Except.pure, bind, Except.bind]
    · apply Point.normalize_row
      rw [mul_one, mul_div_cancel₀ _ nonzero]

namespace Axes

theorem sum_eq (xs : List ℝ) : sum xs = xs.sum := List.sum_eq_foldl.symm

/-- Perpendicular unit directions, of either orientation. -/
structure Orthonormal (axes : Axes ℝ) : Prop where
  along : axes.along.dot axes.along = 1
  across : axes.across.dot axes.across = 1
  right : axes.along.dot axes.across = 0

theorem horizontal_orthonormal : (horizontal : Axes ℝ).Orthonormal := by
  constructor <;> simp [horizontal, Point.dot]

theorem vertical_orthonormal : (vertical : Axes ℝ).Orthonormal := by
  constructor <;> simp [vertical, Point.dot]

/-- Points that vary together have a direction found for the greater eigenvalue. -/
theorem principal_of_lt {ps : List (Point ℝ)} {eps : ℝ} (many : 2 ≤ ps.length)
    (tilted : eps < |(covariance ps).b|) :
    principal ps eps =
      (covariance ps).eigenvector? (covariance ps).eigenvalues.2 >>= fun v => pure ⟨v, v.perp⟩ := by
  rw [principal, if_neg (by omega)]
  exact if_neg (not_le.mpr tilted)

/-- A unit direction and the one across it. -/
theorem orthonormal_perp {v : Point ℝ} (unit : v.dot v = 1) : (Axes.mk v v.perp).Orthonormal := by
  simp only [Point.dot] at unit
  constructor <;> simp only [Point.dot, Point.perp] <;> linarith

/-- **Axes are always found.** They are perpendicular unit directions, or there is
no direction across: that takes a negative tolerance. -/
theorem exists_principal (ps : List (Point ℝ)) (eps : ℝ) :
    ∃ axes, principal ps eps = .ok axes ∧ (axes.Orthonormal ∨ axes.across = .origin) := by
  by_cases few : ps.length < 2
  · exact ⟨horizontal, by simp [principal, few], .inl horizontal_orthonormal⟩
  by_cases flat : |(covariance ps).b| ≤ eps
  · by_cases wide : (covariance ps).c ≤ (covariance ps).a
    · exact ⟨horizontal, by simp [principal, few, flat, wide], .inl horizontal_orthonormal⟩
    · exact ⟨vertical, by simp [principal, few, flat, wide], .inl vertical_orthonormal⟩
  · obtain ⟨v, found, -, unit⟩ := (covariance ps).exists_eigenvector (covariance ps).eigenvalues.2
    refine ⟨⟨v, v.perp⟩, ?_, ?_⟩
    · rw [principal_of_lt (not_lt.mp few) (not_le.mp flat), found]
      rfl
    · rcases unit with unit | ⟨rfl, -⟩
      · exact .inl (orthonormal_perp unit)
      · right
        simp [Point.perp, Point.origin]

namespace Orthonormal

variable {axes : Axes ℝ} (frame : axes.Orthonormal)
include frame

/-- The direction across is that along after a quarter turn, either way. -/
theorem across_eq :
    axes.across.x = -(axes.along.cross axes.across * axes.along.y) ∧
      axes.across.y = axes.along.cross axes.across * axes.along.x := by
  obtain ⟨unit, -, right⟩ := frame
  simp only [Point.dot, Point.cross] at unit right ⊢
  constructor
  · linear_combination -axes.across.x * unit + axes.along.x * right
  · linear_combination -axes.across.y * unit + axes.along.y * right

/-- The orientation of the axes: one or minus one. -/
theorem turn_mul_self : axes.along.cross axes.across * axes.along.cross axes.across = 1 := by
  have hx := frame.across_eq.1
  have hy := frame.across_eq.2
  obtain ⟨unit, across, -⟩ := frame
  simp only [Point.dot] at unit across
  rw [hx, hy] at across
  linear_combination across - (axes.along.cross axes.across) ^ 2 * unit

/-- A point is the sum of its parts across and along. -/
theorem decompose (p : Point ℝ) :
    p = axes.across.scale (p.dot axes.across) + axes.along.scale (p.dot axes.along) := by
  obtain ⟨hx, hy⟩ := frame.across_eq
  have turn := frame.turn_mul_self
  have unit := frame.along
  simp only [Point.dot] at unit
  ext
  · simp only [Point.add_x, Point.scale_x, Point.dot]
    rw [hx, hy]
    linear_combination
      (p.y * axes.along.x * axes.along.y - p.x * axes.along.y ^ 2) * turn - p.x * unit
  · simp only [Point.add_y, Point.scale_y, Point.dot]
    rw [hx, hy]
    linear_combination
      (p.x * axes.along.x * axes.along.y - p.y * axes.along.x ^ 2) * turn - p.y * unit

/-- Two coordinates determine a point. -/
theorem ext {p q : Point ℝ} (across : p.dot axes.across = q.dot axes.across)
    (along : p.dot axes.along = q.dot axes.along) : p = q := by
  rw [frame.decompose p, frame.decompose q, across, along]

/-- Lines along the axes are crossed by whatever changes height. -/
theorem det_along (r : Point ℝ) :
    r.det axes.along = -(axes.along.cross axes.across * r.dot axes.across) := by
  obtain ⟨hx, hy⟩ := frame.across_eq
  have turn := frame.turn_mul_self
  simp only [Point.det, Point.dot]
  rw [hx, hy]
  linear_combination (r.y * axes.along.x - r.x * axes.along.y) * turn

end Orthonormal

end Axes

end BoardPlotter
