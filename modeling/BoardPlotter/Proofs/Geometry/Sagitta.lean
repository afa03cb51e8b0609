import Mathlib.Analysis.SpecialFunctions.Trigonometric.Basic
import BoardPlotter.Geometry.Arc
import BoardPlotter.Proofs.Geometry.Flattening

/-!
# Arcs and their chords

A point of an arc is the image of a point of the unit circle, which grows by the greater
radius at most and by the smaller one at least (`Arc.length_spread_le`,
`Arc.le_length_spread`). On the circle a stretch of up to half a turn is as far from its
chord as one less the cosine of half the stretch, and the chord is twice the sine.

`Arc.point_mem_around`: so far is an arc from its chord. `Arc.le_length_chord`: so long is
the chord.
-/

namespace BoardPlotter

open Scalar Point

namespace Arc

/-- The greater radius. -/
noncomputable def wide (arc : Arc ℝ) : ℝ := max |arc.rx| |arc.ry|

/-- The smaller radius. -/
noncomputable def narrow (arc : Arc ℝ) : ℝ := min |arc.rx| |arc.ry|

/-- What becomes of a displacement of the unit circle. -/
noncomputable def spread (arc : Arc ℝ) (d : Point ℝ) : Point ℝ :=
  let c := Real.cos arc.phi
  let s := Real.sin arc.phi
  ⟨c * (arc.rx * d.x) - s * (arc.ry * d.y), s * (arc.rx * d.x) + c * (arc.ry * d.y)⟩

variable (arc : Arc ℝ)

theorem wide_nonneg : 0 ≤ arc.wide := (abs_nonneg arc.rx).trans (le_max_left _ _)

theorem narrow_nonneg : 0 ≤ arc.narrow := le_min (abs_nonneg arc.rx) (abs_nonneg arc.ry)

theorem point_eq (t : ℝ) :
    arc.point t =
      arc.center + arc.spread ⟨Real.cos (arc.angle t), Real.sin (arc.angle t)⟩ := by
  have point : arc.point t =
      ⟨arc.center.x + Real.cos arc.phi * (arc.rx * Real.cos (arc.angle t)) -
          Real.sin arc.phi * (arc.ry * Real.sin (arc.angle t)),
        arc.center.y + Real.sin arc.phi * (arc.rx * Real.cos (arc.angle t)) +
          Real.cos arc.phi * (arc.ry * Real.sin (arc.angle t))⟩ := rfl
  rw [point]
  ext
  · simp only [spread, add_x]
    ring
  · simp only [spread, add_y]
    ring

theorem length_sq_spread (d : Point ℝ) :
    (arc.spread d).length ^ 2 = (|arc.rx| * d.x) ^ 2 + (|arc.ry| * d.y) ^ 2 := by
  have circle := Real.cos_sq_add_sin_sq arc.phi
  rw [length_sq, mul_pow, mul_pow, sq_abs, sq_abs]
  simp only [spread]
  linear_combination ((arc.rx * d.x) ^ 2 + (arc.ry * d.y) ^ 2) * circle

theorem length_spread_le (d : Point ℝ) : (arc.spread d).length ≤ arc.wide * d.length := by
  have nonneg : 0 ≤ arc.wide * d.length := mul_nonneg arc.wide_nonneg d.length_nonneg
  apply abs_le_of_sq_le_sq' _ nonneg |>.2
  rw [length_sq_spread, mul_pow, mul_pow, mul_pow, length_sq, mul_add]
  have x := pow_le_pow_left₀ (abs_nonneg arc.rx) (le_max_left _ |arc.ry|) 2
  have y := pow_le_pow_left₀ (abs_nonneg arc.ry) (le_max_right |arc.rx| _) 2
  exact add_le_add (mul_le_mul_of_nonneg_right x (sq_nonneg _))
    (mul_le_mul_of_nonneg_right y (sq_nonneg _))

theorem le_length_spread (d : Point ℝ) : arc.narrow * d.length ≤ (arc.spread d).length := by
  apply abs_le_of_sq_le_sq' _ (length_nonneg _) |>.2
  rw [length_sq_spread, mul_pow, mul_pow, mul_pow, length_sq, mul_add]
  have x := pow_le_pow_left₀ arc.narrow_nonneg (min_le_left |arc.rx| |arc.ry|) 2
  have y := pow_le_pow_left₀ arc.narrow_nonneg (min_le_right |arc.rx| |arc.ry|) 2
  exact add_le_add (mul_le_mul_of_nonneg_right x (sq_nonneg _))
    (mul_le_mul_of_nonneg_right y (sq_nonneg _))

/-! ### A stretch of an arc -/

/-- Half the angle between two parameters. -/
noncomputable def halfTurn (t₀ t₁ : ℝ) : ℝ := arc.delta * ((t₁ - t₀) / 2)

theorem abs_halfTurn {t₀ t₁ : ℝ} (order : t₀ ≤ t₁) :
    |arc.halfTurn t₀ t₁| = |arc.delta| * ((t₁ - t₀) / 2) := by
  rw [halfTurn, abs_mul, abs_of_nonneg (by linarith : 0 ≤ (t₁ - t₀) / 2)]

/-- The angles of a stretch, told from its middle. -/
theorem angle_eq (t₀ t₁ t : ℝ) :
    arc.angle t₀ = arc.angle ((t₀ + t₁) / 2) - arc.halfTurn t₀ t₁ ∧
      arc.angle t₁ = arc.angle ((t₀ + t₁) / 2) + arc.halfTurn t₀ t₁ ∧
      arc.angle t = arc.angle ((t₀ + t₁) / 2) + arc.delta * (t - (t₀ + t₁) / 2) := by
  unfold angle halfTurn
  refine ⟨?_, ?_, ?_⟩ <;> ring

/-- A chord of the circle that is shorter by an angle ends within the longer one. -/
theorem exists_sin_eq {ψ h : ℝ} (within : |ψ| ≤ |h|) (quarter : |h| ≤ Real.pi / 2) :
    ∃ s ∈ Set.Icc (0 : ℝ) 1, Real.sin ψ = (2 * s - 1) * Real.sin h := by
  have positive := Real.pi_pos
  have le : |Real.sin ψ| ≤ |Real.sin h| := by
    rw [Real.abs_sin_eq_sin_abs_of_abs_le_pi (by linarith),
      Real.abs_sin_eq_sin_abs_of_abs_le_pi (by linarith)]
    exact Real.sin_le_sin_of_le_of_le_pi_div_two (by linarith [abs_nonneg ψ]) quarter within
  by_cases zero : Real.sin h = 0
  · refine ⟨0, ⟨le_rfl, zero_le_one⟩, ?_⟩
    rw [zero, abs_zero] at le
    rw [zero, mul_zero, abs_nonpos_iff.mp le]
  · have ratio : |Real.sin ψ / Real.sin h| ≤ 1 := by
      rw [abs_div]
      exact div_le_one_of_le₀ le (abs_nonneg _)
    obtain ⟨low, high⟩ := abs_le.mp ratio
    refine ⟨(1 + Real.sin ψ / Real.sin h) / 2, ⟨by linarith, by linarith⟩, ?_⟩
    field_simp
    ring

variable {arc} {t₀ t₁ t : ℝ}

/-- Off the chord an arc is displaced from the middle outwards. -/
theorem point_sub_along {s : ℝ} (mid : Real.sin (arc.delta * (t - (t₀ + t₁) / 2)) =
    (2 * s - 1) * Real.sin (arc.halfTurn t₀ t₁)) :
    arc.point t - along (arc.point t₀) (arc.point t₁) s =
      arc.spread (Point.scale
        ⟨Real.cos (arc.angle ((t₀ + t₁) / 2)), Real.sin (arc.angle ((t₀ + t₁) / 2))⟩
        (Real.cos (arc.delta * (t - (t₀ + t₁) / 2)) - Real.cos (arc.halfTurn t₀ t₁))) := by
  obtain ⟨first, last, here⟩ := arc.angle_eq t₀ t₁ t
  rw [point_eq, point_eq, point_eq, first, last, here]
  simp only [Real.cos_add, Real.cos_sub, Real.sin_add, Real.sin_sub, mid]
  ext
  · simp only [spread, sub_x, add_x, along_x, scale_x, scale_y]
    ring
  · simp only [spread, sub_y, add_y, along_y, scale_x, scale_y]
    ring

theorem point_mem_around (mem : t ∈ Set.Icc t₀ t₁) (turn : |arc.delta| * (t₁ - t₀) ≤ Real.pi) :
    arc.point t ∈ around (arc.point t₀) (arc.point t₁)
      (arc.wide * (1 - Real.cos (arc.halfTurn t₀ t₁))) := by
  obtain ⟨low, high⟩ := mem
  have half := arc.abs_halfTurn (low.trans high)
  have quarter : |arc.halfTurn t₀ t₁| ≤ Real.pi / 2 := by
    rw [half]
    linarith
  have within : |arc.delta * (t - (t₀ + t₁) / 2)| ≤ |arc.halfTurn t₀ t₁| := by
    rw [half, abs_mul]
    apply mul_le_mul_of_nonneg_left _ (abs_nonneg _)
    rw [abs_le]
    constructor <;> linarith
  obtain ⟨s, unit, mid⟩ := exists_sin_eq within quarter
  refine ⟨_, ⟨s, unit, rfl⟩, ?_⟩
  rw [point_sub_along mid]
  apply (arc.length_spread_le _).trans
  apply mul_le_mul_of_nonneg_left _ arc.wide_nonneg
  have cosine : Real.cos (arc.halfTurn t₀ t₁) ≤ Real.cos (arc.delta * (t - (t₀ + t₁) / 2)) := by
    rw [← Real.cos_abs (arc.halfTurn t₀ t₁), ← Real.cos_abs (arc.delta * _)]
    exact Real.cos_le_cos_of_nonneg_of_le_pi (abs_nonneg _) (by linarith [Real.pi_pos]) within
  rw [length_scale, length_polar, mul_one, abs_of_nonneg (sub_nonneg.mpr cosine)]
  linarith [Real.cos_le_one (arc.delta * (t - (t₀ + t₁) / 2))]

theorem le_length_chord (arc : Arc ℝ) (t₀ t₁ : ℝ) :
    arc.narrow * (2 * |Real.sin (arc.halfTurn t₀ t₁)|) ≤
      (arc.point t₁ - arc.point t₀).length := by
  obtain ⟨first, last, -⟩ := arc.angle_eq t₀ t₁ t₀
  have chord : arc.point t₁ - arc.point t₀ =
      arc.spread (Point.scale
        ⟨Real.cos (arc.angle ((t₀ + t₁) / 2) + Real.pi / 2),
          Real.sin (arc.angle ((t₀ + t₁) / 2) + Real.pi / 2)⟩
        (2 * Real.sin (arc.halfTurn t₀ t₁))) := by
    rw [point_eq, point_eq, first, last, Real.cos_add_pi_div_two, Real.sin_add_pi_div_two]
    simp only [Real.cos_add, Real.cos_sub, Real.sin_add, Real.sin_sub]
    ext
    · simp only [spread, sub_x, add_x, scale_x, scale_y]
      ring
    · simp only [spread, sub_y, add_y, scale_x, scale_y]
      ring
  have length : (2 : ℝ) * |Real.sin (arc.halfTurn t₀ t₁)| =
      (Point.scale
        ⟨Real.cos (arc.angle ((t₀ + t₁) / 2) + Real.pi / 2),
          Real.sin (arc.angle ((t₀ + t₁) / 2) + Real.pi / 2)⟩
        (2 * Real.sin (arc.halfTurn t₀ t₁))).length := by
    rw [length_scale, length_polar, mul_one, abs_mul, abs_two]
  rw [chord, length]
  exact arc.le_length_spread _

/-- A chord of the circle up to a diameter is longer than twice its distance from the arc. -/
theorem one_sub_cos_le {h : ℝ} (quarter : |h| ≤ Real.pi / 2) :
    1 - Real.cos h ≤ |Real.sin h| := by
  have cosine : 0 ≤ Real.cos h := by
    rw [← Real.cos_abs]
    exact Real.cos_nonneg_of_neg_pi_div_two_le_of_le (by linarith [abs_nonneg h]) quarter
  have circle := Real.cos_sq_add_sin_sq h
  rw [← sq_abs (Real.sin h)] at circle
  have short := Real.abs_sin_le_one h
  nlinarith [Real.cos_le_one h, abs_nonneg (Real.sin h)]

/-- **Arc and chord.** The one radius is no more than twice the other, up to a factor: then
up to the same factor an arc of up to half a turn is no further from its chord than the chord
is long. -/
theorem point_mem_around_of_chord {k tolerance : ℝ} (nonneg : 0 ≤ k)
    (shape : arc.wide ≤ 2 * k * arc.narrow) (mem : t ∈ Set.Icc t₀ t₁)
    (turn : |arc.delta| * (t₁ - t₀) ≤ Real.pi)
    (fits : (arc.point t₁ - arc.point t₀).length ≤ tolerance) :
    arc.point t ∈ around (arc.point t₀) (arc.point t₁) (k * tolerance) := by
  have quarter : |arc.halfTurn t₀ t₁| ≤ Real.pi / 2 := by
    rw [arc.abs_halfTurn (mem.1.trans mem.2)]
    linarith
  refine around_mono ?_ (point_mem_around mem turn)
  have sagitta : 0 ≤ 1 - Real.cos (arc.halfTurn t₀ t₁) := by
    linarith [Real.cos_le_one (arc.halfTurn t₀ t₁)]
  calc arc.wide * (1 - Real.cos (arc.halfTurn t₀ t₁))
      ≤ 2 * k * arc.narrow * (1 - Real.cos (arc.halfTurn t₀ t₁)) :=
        mul_le_mul_of_nonneg_right shape sagitta
    _ ≤ 2 * k * arc.narrow * |Real.sin (arc.halfTurn t₀ t₁)| := by
        apply mul_le_mul_of_nonneg_left (one_sub_cos_le quarter)
        exact mul_nonneg (mul_nonneg zero_le_two nonneg) arc.narrow_nonneg
    _ = k * (arc.narrow * (2 * |Real.sin (arc.halfTurn t₀ t₁)|)) := by ring
    _ ≤ k * tolerance :=
        mul_le_mul_of_nonneg_left ((arc.le_length_chord t₀ t₁).trans fits) nonneg

end Arc

end BoardPlotter
