import BoardPlotter.Proofs.Geometry.Deviation

/-!
# Quarters of an ellipse

The short arc in the positive direction, between the ends of two radii across each other.
Half its chord reaches over half the square of the ellipse (`EndpointArc.reach_quarter`), so
the bulge is one, the spokes are the two directions, and the middle of the ellipse is found
again (`EndpointArc.center_quarter`).

`EndpointArc.flatten_quarter`: whatever the tolerance and the depth, the samples are
between the two radii and on the ellipse.
-/

namespace BoardPlotter

open Scalar

namespace EndpointArc

section Round

variable {e : EndpointArc ℝ} (hrx : e.rx ≠ 0) (hry : e.ry ≠ 0)
include hrx hry

/-- All samples are on the arc. -/
theorem exists_of_mem_samples (apart : e.p₁ ≠ e.p₂) {tolerance : ℝ} {depth : ℕ} {v : Point ℝ}
    (mem : v ∈ e.samples tolerance depth) : ∃ t ∈ Set.Icc (0 : ℝ) 1, v = e.center.point t := by
  obtain ⟨ks, samples, -, chain⟩ :=
    e.samples_eq tolerance depth (Exact.param_halves (depth + 1)) (Exact.param_zero _)
      (Exact.param_half depth) (Exact.param_one _)
  rw [samples] at mem
  obtain ⟨u, hu, rfl⟩ := List.mem_map.mp mem
  exact ⟨_, Exact.param_mem (e.le_of_mem_numbered chain hu),
    eq_point_of_mem_numbered hrx hry apart hu⟩

end Round

/-- The arc about a centre from the radius in a direction to the one across it. -/
noncomputable def quarter (c : Point ℝ) (rx ry : ℝ) (d : Point ℝ) : EndpointArc ℝ :=
  ⟨⟨c.x + rx * d.x, c.y + ry * d.y⟩, ⟨c.x - rx * d.y, c.y + ry * d.x⟩, rx, ry, 0, false, true⟩

theorem half_quarter (c : Point ℝ) (rx ry : ℝ) (d : Point ℝ) :
    (quarter c rx ry d).half = ⟨rx * ((d.x + d.y) / 2), ry * ((d.y - d.x) / 2)⟩ := by
  have turned : (quarter c rx ry d).half =
      ⟨Real.cos (radians 0) * ((c.x + rx * d.x - (c.x - rx * d.y)) / 2) +
          Real.sin (radians 0) * ((c.y + ry * d.y - (c.y + ry * d.x)) / 2),
        -Real.sin (radians 0) * ((c.x + rx * d.x - (c.x - rx * d.y)) / 2) +
          Real.cos (radians 0) * ((c.y + ry * d.y - (c.y + ry * d.x)) / 2)⟩ := rfl
  rw [turned, radians_zero, Real.cos_zero, Real.sin_zero]
  ext
  · simp only
    ring
  · simp only
    ring

variable {rx ry : ℝ} (hrx : 0 < rx) (hry : 0 < ry) {d : Point ℝ} (unit : d.dot d = 1)
  (c : Point ℝ)
include hrx hry unit

theorem reach_quarter : (quarter c rx ry d).reach = 1 / 2 := by
  rw [Point.dot] at unit
  rw [reach_eq, half_quarter]
  change (rx * ((d.x + d.y) / 2) / rx) ^ 2 + (ry * ((d.y - d.x) / 2) / ry) ^ 2 = 1 / 2
  rw [mul_div_cancel_left₀ _ hrx.ne', mul_div_cancel_left₀ _ hry.ne']
  linear_combination unit / 2

theorem grown_quarter (radius : ℝ) : (quarter c rx ry d).grown radius = |radius| := by
  have short : max 1 (1 / 2 : ℝ) = 1 := max_eq_left (by norm_num)
  rw [grown_eq, reach_quarter hrx hry unit, short, Real.sqrt_one, mul_one]

theorem unitHalf_quarter :
    (quarter c rx ry d).unitHalf = ⟨(d.x + d.y) / 2, (d.y - d.x) / 2⟩ := by
  rw [unitHalf, half_quarter, grown_quarter hrx hry unit, grown_quarter hrx hry unit]
  change (⟨rx * ((d.x + d.y) / 2) / |rx|, ry * ((d.y - d.x) / 2) / |ry|⟩ : Point ℝ) = _
  rw [abs_of_pos hrx, abs_of_pos hry, mul_div_cancel_left₀ _ hrx.ne',
    mul_div_cancel_left₀ _ hry.ne']

theorem apart_quarter : (quarter c rx ry d).p₁ ≠ (quarter c rx ry d).p₂ := by
  intro same
  have x : c.x + rx * d.x = c.x - rx * d.y := congrArg Point.x same
  have y : c.y + ry * d.y = c.y + ry * d.x := congrArg Point.y same
  have x' : d.x = -d.y := mul_left_cancel₀ hrx.ne' (by linear_combination x)
  have y' : d.y = d.x := mul_left_cancel₀ hry.ne' (by linear_combination y)
  have zero : d.x = 0 := by linarith
  rw [Point.dot, y', zero] at unit
  norm_num at unit

theorem bulge_quarter : (quarter c rx ry d).bulge = 1 := by
  have short : min 1 (1 / 2 : ℝ) = 1 / 2 := min_eq_right (by norm_num)
  have one : (1 - 1 / 2) / (1 / 2) = (1 : ℝ) := by norm_num
  rw [bulge_eq (e := quarter c rx ry d) hrx.ne' hry.ne' (apart_quarter hrx hry unit c),
    reach_quarter hrx hry unit, short, one, Real.sqrt_one, mul_one]
  exact if_neg Bool.false_ne_true

/-- The spokes are the two directions. -/
theorem spokes_quarter :
    (quarter c rx ry d).spoke (quarter c rx ry d).half = d ∧
      (quarter c rx ry d).spoke (-(quarter c rx ry d).half) = d.perp := by
  rw [spoke_half (e := quarter c rx ry d) hrx.ne' hry.ne',
    spoke_neg_half (e := quarter c rx ry d) hrx.ne' hry.ne', bulge_quarter hrx hry unit,
    unitHalf_quarter hrx hry unit]
  constructor
  · ext
    · simp only
      ring
    · simp only
      ring
  · ext
    · simp only [Point.perp]
      ring
    · simp only [Point.perp]
      ring

/-- The middle of the ellipse is found again. -/
theorem center_quarter : (quarter c rx ry d).center.center = c := by
  have middle : (quarter c rx ry d).middle =
      ⟨1 * |rx| * (ry * ((d.y - d.x) / 2)) / |ry|,
        -1 * |ry| * (rx * ((d.x + d.y) / 2)) / |rx|⟩ := by
    rw [middle, bulge_quarter hrx hry unit, half_quarter]
    change (⟨1 * (quarter c rx ry d).grown rx * _ / (quarter c rx ry d).grown ry,
      -1 * (quarter c rx ry d).grown ry * _ / (quarter c rx ry d).grown rx⟩ : Point ℝ) = _
    rw [grown_quarter hrx hry unit, grown_quarter hrx hry unit]
  have center : (quarter c rx ry d).center.center =
      ⟨Real.cos (radians 0) * (quarter c rx ry d).middle.x -
          Real.sin (radians 0) * (quarter c rx ry d).middle.y +
            (c.x + rx * d.x + (c.x - rx * d.y)) / 2,
        Real.sin (radians 0) * (quarter c rx ry d).middle.x +
          Real.cos (radians 0) * (quarter c rx ry d).middle.y +
            (c.y + ry * d.y + (c.y + ry * d.x)) / 2⟩ := rfl
  rw [center, middle, radians_zero, Real.cos_zero, Real.sin_zero, abs_of_pos hrx, abs_of_pos hry]
  ext
  · simp only
    field_simp
    ring
  · simp only
    field_simp
    ring

theorem delta_quarter : (quarter c rx ry d).center.delta = Real.pi / 2 := by
  obtain ⟨first, second⟩ := spokes_quarter hrx hry unit c
  have right : angleBetween d d.perp = Real.pi / 2 := by
    have dot : d.dot d.perp = 0 := by
      simp only [Point.dot, Point.perp]
      ring
    have cross : d.cross d.perp = 1 := by
      rw [← unit]
      simp only [Point.dot, Point.cross, Point.perp]
      ring
    change Complex.arg ⟨d.dot d.perp, d.cross d.perp⟩ = _
    rw [dot, cross]
    exact Complex.arg_I
  have ahead : ¬ Real.pi / 2 < 0 := by
    have := Real.pi_pos
    linarith
  change directed true (angleBetween _ _) = _
  rw [first, second, right, directed_eq, if_pos rfl, if_neg ahead]

/-- The point at a parameter, by the cosine and sine of its part of a quarter turn. -/
theorem point_quarter (t : ℝ) :
    (quarter c rx ry d).center.point t =
      ⟨c.x + rx * (Real.cos (t * (Real.pi / 2)) * d.x - Real.sin (t * (Real.pi / 2)) * d.y),
        c.y + ry * (Real.cos (t * (Real.pi / 2)) * d.y + Real.sin (t * (Real.pi / 2)) * d.x)⟩ := by
  obtain ⟨⟨cosine, sine⟩, -⟩ := cos_sin_ends (e := quarter c rx ry d) hrx.ne' hry.ne'
    (apart_quarter hrx hry unit c)
  rw [(spokes_quarter hrx hry unit c).1] at cosine sine
  have point : (quarter c rx ry d).center.point t =
      ⟨(quarter c rx ry d).center.center.x + Real.cos (radians 0) *
          ((quarter c rx ry d).grown rx * Real.cos ((quarter c rx ry d).center.theta +
            t * (quarter c rx ry d).center.delta)) -
          Real.sin (radians 0) * ((quarter c rx ry d).grown ry *
            Real.sin ((quarter c rx ry d).center.theta + t * (quarter c rx ry d).center.delta)),
        (quarter c rx ry d).center.center.y + Real.sin (radians 0) *
          ((quarter c rx ry d).grown rx * Real.cos ((quarter c rx ry d).center.theta +
            t * (quarter c rx ry d).center.delta)) +
          Real.cos (radians 0) * ((quarter c rx ry d).grown ry *
            Real.sin ((quarter c rx ry d).center.theta +
              t * (quarter c rx ry d).center.delta))⟩ := rfl
  rw [point, center_quarter hrx hry unit, grown_quarter hrx hry unit, grown_quarter hrx hry unit,
    delta_quarter hrx hry unit, radians_zero, Real.cos_zero, Real.sin_zero, abs_of_pos hrx,
    abs_of_pos hry, Real.cos_add, Real.sin_add, cosine, sine]
  ext
  · simp only
    ring
  · simp only
    ring

/-- **The samples of a quarter** are between its two radii and on the ellipse. -/
theorem flatten_quarter {tolerance : ℝ} (positive : 0 < tolerance) (depth : ℤ) :
    ∃ points, (quarter c rx ry d).flatten tolerance depth = .ok points ∧
      ∀ v ∈ points, ∃ a b : ℝ, 0 ≤ a ∧ 0 ≤ b ∧ a ^ 2 + b ^ 2 = 1 ∧
        v = ⟨c.x + rx * (a * d.x - b * d.y), c.y + ry * (a * d.y + b * d.x)⟩ := by
  have apart := apart_quarter hrx hry unit c
  refine ⟨_, flatten_eq_ok (e := quarter c rx ry d) hrx.ne' hry.ne' apart positive depth, ?_⟩
  intro v mem
  obtain ⟨t, ⟨low, high⟩, rfl⟩ :=
    exists_of_mem_samples (e := quarter c rx ry d) hrx.ne' hry.ne' apart mem
  have pi := Real.pi_pos
  have within : 0 ≤ t * (Real.pi / 2) ∧ t * (Real.pi / 2) ≤ Real.pi / 2 :=
    ⟨by positivity, mul_le_of_le_one_left (by positivity) high⟩
  refine ⟨Real.cos (t * (Real.pi / 2)), Real.sin (t * (Real.pi / 2)), ?_, ?_, ?_, ?_⟩
  · exact Real.cos_nonneg_of_neg_pi_div_two_le_of_le (by linarith) within.2
  · exact Real.sin_nonneg_of_nonneg_of_le_pi within.1 (by linarith)
  · exact Real.cos_sq_add_sin_sq _
  · exact point_quarter hrx hry unit c t

end EndpointArc

end BoardPlotter
