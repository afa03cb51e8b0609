import BoardPlotter.Proofs.Geometry.Joining

/-!
# The long way round

An arc of more than half a turn around the origin, given by its ends. Half its chord is told
by half its extent, of which the sine is positive and the cosine negative
(`EndpointArc.half_longWay`), so the bulge is their quotient and the middle of the ellipse is
the origin (`EndpointArc.center_longWay`).

`EndpointArc.point_longWay`: the arc through the centre runs through the angles in between.
-/

namespace BoardPlotter

open Scalar

/-- The point of an ellipse about the origin at an angle. -/
noncomputable def polar (rx ry angle : ℝ) : Point ℝ :=
  ⟨|rx| * Real.cos angle, |ry| * Real.sin angle⟩

theorem polar_injective {rx ry a b : ℝ} (hrx : rx ≠ 0) (hry : ry ≠ 0)
    (same : polar rx ry a = polar rx ry b) : Real.cos a = Real.cos b ∧ Real.sin a = Real.sin b :=
  ⟨mul_left_cancel₀ (abs_ne_zero.mpr hrx) (congrArg Point.x same),
    mul_left_cancel₀ (abs_ne_zero.mpr hry) (congrArg Point.y same)⟩

namespace EndpointArc

/-- The arc to both sides of an angle, the long way in the positive direction. -/
noncomputable def longWay (rx ry mid half : ℝ) : EndpointArc ℝ :=
  ⟨polar rx ry (mid - half), polar rx ry (mid + half), rx, ry, 0, true, true⟩

theorem radians_zero : radians (0 : ℝ) = 0 := zero_mul _

variable {rx ry half : ℝ}

theorem half_longWay (rx ry mid half : ℝ) :
    (longWay rx ry mid half).half =
      ⟨|rx| * (Real.sin mid * Real.sin half), -(|ry| * (Real.cos mid * Real.sin half))⟩ := by
  have turned : (longWay rx ry mid half).half =
      ⟨Real.cos (radians 0) * ((|rx| * Real.cos (mid - half) - |rx| * Real.cos (mid + half)) / 2) +
          Real.sin (radians 0) *
            ((|ry| * Real.sin (mid - half) - |ry| * Real.sin (mid + half)) / 2),
        -Real.sin (radians 0) *
            ((|rx| * Real.cos (mid - half) - |rx| * Real.cos (mid + half)) / 2) +
          Real.cos (radians 0) *
            ((|ry| * Real.sin (mid - half) - |ry| * Real.sin (mid + half)) / 2)⟩ := rfl
  rw [turned, radians_zero, Real.cos_zero, Real.sin_zero]
  simp only [Real.cos_add, Real.cos_sub, Real.sin_add, Real.sin_sub]
  ext
  · simp only
    ring
  · simp only
    ring

section Round

variable (hrx : rx ≠ 0) (hry : ry ≠ 0)
include hrx hry

theorem reach_longWay (mid half : ℝ) : (longWay rx ry mid half).reach = Real.sin half ^ 2 := by
  have hx := abs_ne_zero.mpr hrx
  have hy := abs_ne_zero.mpr hry
  have circle := Real.cos_sq_add_sin_sq mid
  rw [reach, half_longWay]
  change |rx| * (Real.sin mid * Real.sin half) / |rx| *
      (|rx| * (Real.sin mid * Real.sin half) / |rx|) +
    -(|ry| * (Real.cos mid * Real.sin half)) / |ry| *
      (-(|ry| * (Real.cos mid * Real.sin half)) / |ry|) = Real.sin half ^ 2
  rw [neg_div, mul_div_cancel_left₀ _ hx, mul_div_cancel_left₀ _ hy]
  linear_combination Real.sin half ^ 2 * circle

variable (low : Real.pi / 2 < half) (high : half < Real.pi) (mid : ℝ)
include low high

omit hrx hry in
/-- More than a quarter turn and less than a half. -/
theorem sin_cos_half : 0 < Real.sin half ∧ Real.cos half < 0 := by
  have positive := Real.pi_pos
  exact ⟨Real.sin_pos_of_pos_of_lt_pi (by linarith) high,
    Real.cos_neg_of_pi_div_two_lt_of_lt low (by linarith)⟩

theorem apart_longWay : (longWay rx ry mid half).p₁ ≠ (longWay rx ry mid half).p₂ := by
  intro same
  obtain ⟨sine, -⟩ := sin_cos_half low high
  obtain ⟨x, y⟩ := polar_injective hrx hry same
  rw [Real.cos_add, Real.cos_sub] at x
  rw [Real.sin_add, Real.sin_sub] at y
  have circle := Real.cos_sq_add_sin_sq mid
  have square : Real.sin half ^ 2 = 0 := by
    linear_combination -Real.sin half ^ 2 * circle + Real.sin half * Real.sin mid / 2 * x -
      Real.sin half * Real.cos mid / 2 * y
  exact sine.ne' (pow_eq_zero_iff two_ne_zero |>.mp square)

theorem bulge_longWay :
    (longWay rx ry mid half).bulge = Real.cos half / Real.sin half := by
  obtain ⟨sine, cosine⟩ := sin_cos_half low high
  have circle := Real.cos_sq_add_sin_sq half
  have short : Real.sin half ^ 2 ≤ 1 := by nlinarith
  have quotient : (1 - Real.sin half ^ 2) / Real.sin half ^ 2 =
      (Real.cos half / Real.sin half) ^ 2 := by
    rw [div_pow, ← circle, add_sub_cancel_right]
  rw [bulge_eq (e := longWay rx ry mid half) hrx hry (apart_longWay hrx hry low high mid),
    reach_longWay hrx hry, min_eq_right short, quotient, Real.sqrt_sq_eq_abs,
    abs_of_neg (div_neg_of_neg_of_pos cosine sine)]
  change -1 * _ = _
  ring

omit low high in
/-- The radii reach, so they are as they are given. -/
theorem grown_longWay (radius : ℝ) : (longWay rx ry mid half).grown radius = |radius| := by
  have short : Real.sin half ^ 2 ≤ 1 := by
    nlinarith [Real.cos_sq_add_sin_sq half]
  rw [grown_eq, reach_longWay hrx hry, max_eq_left short, Real.sqrt_one, mul_one]

/-- The middle of the ellipse is the origin. -/
theorem center_longWay : (longWay rx ry mid half).center.center = ⟨0, 0⟩ := by
  obtain ⟨sine, -⟩ := sin_cos_half low high
  have hx := abs_ne_zero.mpr hrx
  have hy := abs_ne_zero.mpr hry
  have middle : (longWay rx ry mid half).middle =
      ⟨-(|rx| * (Real.cos mid * Real.cos half)), -(|ry| * (Real.sin mid * Real.cos half))⟩ := by
    have parts : (longWay rx ry mid half).middle =
        ⟨(longWay rx ry mid half).bulge * (longWay rx ry mid half).grown rx *
            (longWay rx ry mid half).half.y / (longWay rx ry mid half).grown ry,
          -(longWay rx ry mid half).bulge * (longWay rx ry mid half).grown ry *
            (longWay rx ry mid half).half.x / (longWay rx ry mid half).grown rx⟩ := rfl
    rw [parts, bulge_longWay hrx hry low high mid, grown_longWay hrx hry,
      grown_longWay hrx hry, half_longWay]
    ext
    · simp only
      field_simp
    · simp only
      field_simp
  have center : (longWay rx ry mid half).center.center =
      ⟨Real.cos (radians 0) * (longWay rx ry mid half).middle.x -
          Real.sin (radians 0) * (longWay rx ry mid half).middle.y +
            (|rx| * Real.cos (mid - half) + |rx| * Real.cos (mid + half)) / 2,
        Real.sin (radians 0) * (longWay rx ry mid half).middle.x +
          Real.cos (radians 0) * (longWay rx ry mid half).middle.y +
            (|ry| * Real.sin (mid - half) + |ry| * Real.sin (mid + half)) / 2⟩ := rfl
  rw [center, middle, radians_zero, Real.cos_zero, Real.sin_zero, Real.cos_add, Real.cos_sub,
    Real.sin_add, Real.sin_sub]
  ext
  · simp only
    ring
  · simp only
    ring

theorem point_center_longWay (t : ℝ) :
    (longWay rx ry mid half).center.point t =
      polar rx ry ((longWay rx ry mid half).center.angle t) := by
  have point : (longWay rx ry mid half).center.point t =
      ⟨(longWay rx ry mid half).center.center.x + Real.cos (radians 0) *
          ((longWay rx ry mid half).grown rx *
            Real.cos ((longWay rx ry mid half).center.angle t)) -
          Real.sin (radians 0) * ((longWay rx ry mid half).grown ry *
            Real.sin ((longWay rx ry mid half).center.angle t)),
        (longWay rx ry mid half).center.center.y + Real.sin (radians 0) *
          ((longWay rx ry mid half).grown rx *
            Real.cos ((longWay rx ry mid half).center.angle t)) +
          Real.cos (radians 0) * ((longWay rx ry mid half).grown ry *
            Real.sin ((longWay rx ry mid half).center.angle t))⟩ := rfl
  rw [point, center_longWay hrx hry low high mid, grown_longWay hrx hry, grown_longWay hrx hry,
    radians_zero, Real.cos_zero, Real.sin_zero, polar]
  ext
  · simp only
    ring
  · simp only
    ring

/-- It starts and ends at the angles of the ends. -/
theorem angle_longWay :
    let arc := (longWay rx ry mid half).center
    (Real.cos (arc.angle 0) = Real.cos (mid - half) ∧
        Real.sin (arc.angle 0) = Real.sin (mid - half)) ∧
      Real.cos (arc.angle 1) = Real.cos (mid + half) ∧
      Real.sin (arc.angle 1) = Real.sin (mid + half) := by
  intro arc
  have ends := point_center (e := longWay rx ry mid half) hrx hry
    (apart_longWay hrx hry low high mid)
  rw [point_center_longWay hrx hry low high mid, point_center_longWay hrx hry low high mid] at ends
  exact ⟨polar_injective hrx hry ends.1, polar_injective hrx hry ends.2⟩

theorem delta_longWay_mem :
    Real.pi < (longWay rx ry mid half).center.delta ∧
      (longWay rx ry mid half).center.delta < 2 * Real.pi := by
  have reaches : (longWay rx ry mid half).reach < 1 := by
    obtain ⟨sine, cosine⟩ := sin_cos_half low high
    rw [reach_longWay hrx hry]
    nlinarith [Real.cos_sq_add_sin_sq half]
  let δ := angleBetween ((longWay rx ry mid half).spoke (longWay rx ry mid half).half)
    ((longWay rx ry mid half).spoke (-(longWay rx ry mid half).half))
  obtain ⟨-, short, -⟩ := angleBetween_spokes (e := longWay rx ry mid half) hrx hry
    (apart_longWay hrx hry low high mid)
  have back : δ < 0 := (short reaches).2.mpr rfl
  have above : -Real.pi < δ := (angleBetween_mem _ _).1
  have delta : (longWay rx ry mid half).center.delta = δ + 2 * Real.pi := by
    change directed true δ = _
    rw [directed_eq, if_pos rfl, if_pos back]
  rw [delta]
  constructor <;> linarith

/-- The extent is found again: it is more than half a turn and has the same cosine. -/
theorem delta_longWay : (longWay rx ry mid half).center.delta = 2 * half := by
  obtain ⟨⟨c₀, s₀⟩, c₁, s₁⟩ := angle_longWay hrx hry low high mid
  obtain ⟨long, less⟩ := delta_longWay_mem hrx hry low high mid
  have same : Real.cos (longWay rx ry mid half).center.delta = Real.cos (2 * half) := by
    have turn : (longWay rx ry mid half).center.delta =
        (longWay rx ry mid half).center.angle 1 - (longWay rx ry mid half).center.angle 0 := by
      unfold Arc.angle
      ring
    have double : 2 * half = mid + half - (mid - half) := by ring
    rw [turn, double, Real.cos_sub, Real.cos_sub (mid + half), c₀, s₀, c₁, s₁]
  have found : 2 * Real.pi - (longWay rx ry mid half).center.delta ∈ Set.Icc 0 Real.pi :=
    ⟨by linarith, by linarith⟩
  have given : 2 * Real.pi - 2 * half ∈ Set.Icc 0 Real.pi := ⟨by linarith, by linarith⟩
  have rest := Real.injOn_cos found given (by rw [Real.cos_two_pi_sub, Real.cos_two_pi_sub, same])
  linarith

/-- **The long way.** At each parameter the arc is at the angle in that proportion. -/
theorem point_longWay (t : ℝ) :
    (longWay rx ry mid half).center.point t = polar rx ry (mid + (2 * t - 1) * half) := by
  obtain ⟨⟨c₀, s₀⟩, -⟩ := angle_longWay hrx hry low high mid
  have here : (longWay rx ry mid half).center.angle t =
      (longWay rx ry mid half).center.angle 0 + t * (2 * half) := by
    rw [← delta_longWay hrx hry low high mid]
    unfold Arc.angle
    ring
  have there : mid + (2 * t - 1) * half = mid - half + t * (2 * half) := by ring
  rw [point_center_longWay hrx hry low high mid, here, there, polar, polar, Real.cos_add,
    Real.sin_add, c₀, s₀, ← Real.cos_add, ← Real.sin_add]

end Round

end EndpointArc

end BoardPlotter
