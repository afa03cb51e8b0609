import Mathlib.Analysis.SpecialFunctions.Trigonometric.Basic
import BoardPlotter.Proofs.Geometry.Center

/-!
# Arcs join their ends

Where the ellipse is the unit circle, the ends of an arc lie along two unit vectors, the
spokes. Half the chord and the bulge are the sides of a right triangle with a spoke
(`EndpointArc.bulge_eq`), so the bulge says which way the angle from the first spoke to
the second leads (`EndpointArc.angleBetween_spokes`). What is added to it for the
direction is a full turn (`EndpointArc.cos_sin_directed`).

`EndpointArc.center?_joins`: the arc through its centre leads from the one end to the
other, in the direction and the way round that the flags ask for.
-/

namespace BoardPlotter

open Scalar

namespace EndpointArc

/-! ### Angles -/

/-- The angle of a unit vector has its coordinates as cosine and sine. -/
theorem cos_sin_arg {x y : ℝ} (unit : x ^ 2 + y ^ 2 = 1) :
    Real.cos (Complex.arg ⟨x, y⟩) = x ∧ Real.sin (Complex.arg ⟨x, y⟩) = y := by
  have norm : ‖(⟨x, y⟩ : ℂ)‖ = 1 := by
    rw [Complex.norm_eq_sqrt_sq_add_sq, unit, Real.sqrt_one]
  have nonzero : (⟨x, y⟩ : ℂ) ≠ 0 := by
    rw [← norm_ne_zero_iff, norm]
    exact one_ne_zero
  rw [Complex.cos_arg nonzero, Complex.sin_arg, norm, div_one, div_one]
  exact ⟨rfl, rfl⟩

theorem angleBetween_mem (u v : Point ℝ) :
    -Real.pi < angleBetween u v ∧ angleBetween u v ≤ Real.pi :=
  ⟨Complex.neg_pi_lt_arg _, Complex.arg_le_pi _⟩

theorem cos_sin_angleBetween {u v : Point ℝ} (hu : u.dot u = 1) (hv : v.dot v = 1) :
    Real.cos (angleBetween u v) = u.dot v ∧ Real.sin (angleBetween u v) = u.cross v := by
  refine cos_sin_arg ?_
  simp only [Point.dot, Point.cross] at hu hv ⊢
  linear_combination (v.x * v.x + v.y * v.y) * hu + hv

/-- Turned by the angle between them, the one unit vector is the other. -/
theorem cos_sin_add {u v : Point ℝ} (hu : u.dot u = 1) {θ δ : ℝ}
    (hθ : Real.cos θ = u.x ∧ Real.sin θ = u.y)
    (hδ : Real.cos δ = u.dot v ∧ Real.sin δ = u.cross v) :
    Real.cos (θ + δ) = v.x ∧ Real.sin (θ + δ) = v.y := by
  rw [Real.cos_add, Real.sin_add, hθ.1, hθ.2, hδ.1, hδ.2]
  simp only [Point.dot, Point.cross] at hu ⊢
  constructor
  · linear_combination v.x * hu
  · linear_combination v.y * hu

theorem directed_eq (sweep : Bool) (δ : ℝ) :
    directed sweep δ =
      if sweep then if δ < 0 then δ + 2 * Real.pi else δ
      else if 0 < δ then δ - 2 * Real.pi else δ := by
  cases sweep <;> simp [directed] <;> rfl

/-- The direction of an extent is a matter of full turns. -/
theorem cos_sin_directed (sweep : Bool) (δ : ℝ) :
    Real.cos (directed sweep δ) = Real.cos δ ∧ Real.sin (directed sweep δ) = Real.sin δ := by
  rw [directed_eq]
  split_ifs <;> simp


variable {sweep : Bool} {δ : ℝ}

/-- The extent goes in the direction of the flag, by less than a full turn. -/
theorem directed_mem (low : -Real.pi < δ) (high : δ ≤ Real.pi) (turns : δ ≠ 0) :
    if sweep then 0 < directed sweep δ ∧ directed sweep δ < 2 * Real.pi
    else -(2 * Real.pi) < directed sweep δ ∧ directed sweep δ < 0 := by
  have := Real.pi_pos
  rw [directed_eq]
  cases sweep
  · simp only [Bool.false_eq_true, if_false]
    split
    · constructor <;> linarith
    · exact ⟨by linarith, lt_of_le_of_ne (not_lt.mp ‹_›) turns⟩
  · simp only [if_true]
    split
    · constructor <;> linarith
    · exact ⟨lt_of_le_of_ne (not_lt.mp ‹_›) turns.symm, by linarith⟩

/-- It is more than half a turn if the angle leads the other way. -/
theorem pi_lt_abs_directed_iff (low : -Real.pi < δ) (high : δ < Real.pi) (turns : δ ≠ 0) :
    Real.pi < |directed sweep δ| ↔ (sweep = true ↔ δ < 0) := by
  rw [directed_eq]
  rcases lt_or_gt_of_ne turns with back | ahead
  · have positive : 0 < δ + 2 * Real.pi := by linarith
    cases sweep
    · refine iff_of_false ?_ (by simp [back])
      rw [if_neg Bool.false_ne_true, if_neg back.not_gt, abs_of_neg back]
      linarith
    · refine iff_of_true ?_ (by simp [back])
      rw [if_pos rfl, if_pos back, abs_of_pos positive]
      linarith
  · have negative : δ - 2 * Real.pi < 0 := by linarith
    cases sweep
    · refine iff_of_true ?_ (by simp [ahead.le])
      rw [if_neg Bool.false_ne_true, if_pos ahead, abs_of_neg negative]
      linarith
    · refine iff_of_false ?_ (by simp [ahead.le])
      rw [if_pos rfl, if_neg ahead.not_gt, abs_of_pos ahead]
      linarith

theorem abs_directed_pi : |directed sweep Real.pi| = Real.pi := by
  have positive := Real.pi_pos
  have back : Real.pi - 2 * Real.pi = -Real.pi := by ring
  rw [directed_eq, if_neg positive.not_gt, if_pos positive, back]
  cases sweep
  · rw [if_neg Bool.false_ne_true, abs_neg, abs_of_pos positive]
  · rw [if_pos rfl, abs_of_pos positive]

section Radii

variable {e : EndpointArc ℝ}

/-! ### The circle of the ellipse -/

theorem grown_eq (e : EndpointArc ℝ) (radius : ℝ) :
    e.grown radius = |radius| * √(max 1 e.reach) := by
  rw [grown]
  by_cases short : 1 < e.reach
  · rw [if_pos (by simpa using short), max_eq_right short.le]
    rfl
  · rw [if_neg (by simpa using short), max_eq_left (not_lt.mp short), Real.sqrt_one, mul_one]
    rfl

theorem grown_pos (e : EndpointArc ℝ) {radius : ℝ} (round : radius ≠ 0) : 0 < e.grown radius := by
  rw [grown_eq]
  exact mul_pos (abs_pos.mpr round) (Real.sqrt_pos.mpr (lt_max_of_lt_left one_pos))

/-- Half the chord where the ellipse is the unit circle. -/
noncomputable def unitHalf (e : EndpointArc ℝ) : Point ℝ :=
  ⟨e.half.x / e.grown e.rx, e.half.y / e.grown e.ry⟩

theorem reach_eq (e : EndpointArc ℝ) :
    e.reach = (e.half.x / e.rx) ^ 2 + (e.half.y / e.ry) ^ 2 := by
  rw [reach, Exact.abs_eq, Exact.abs_eq]
  simp only [← sq, div_pow, sq_abs]

/-- Half the chord is no longer than the grown radii reach. -/
theorem unitHalf_dot_self (e : EndpointArc ℝ) : e.unitHalf.dot e.unitHalf = min 1 e.reach := by
  have grown (h radius : ℝ) :
      h / e.grown radius * (h / e.grown radius) = (h / radius) ^ 2 / max 1 e.reach := by
    rw [grown_eq, ← sq, div_pow, mul_pow, sq_abs,
      Real.sq_sqrt (zero_le_one.trans (le_max_left _ _)), ← div_div, div_pow]
  have positive : (0 : ℝ) < max 1 e.reach := lt_max_of_lt_left one_pos
  rw [Point.dot, unitHalf, grown, grown, ← add_div, ← reach_eq, div_eq_iff positive.ne',
    min_mul_max, one_mul]

/-- Turned back, half the chord is half the way between the ends. -/
theorem half_turned_back (e : EndpointArc ℝ) :
    Real.cos (radians e.rotation) * e.half.x - Real.sin (radians e.rotation) * e.half.y =
        (e.p₁.x - e.p₂.x) / 2 ∧
      Real.sin (radians e.rotation) * e.half.x + Real.cos (radians e.rotation) * e.half.y =
        (e.p₁.y - e.p₂.y) / 2 := by
  have circle := Real.cos_sq_add_sin_sq (radians e.rotation)
  have half : e.half = ⟨Real.cos (radians e.rotation) * ((e.p₁.x - e.p₂.x) / 2) +
      Real.sin (radians e.rotation) * ((e.p₁.y - e.p₂.y) / 2),
      -Real.sin (radians e.rotation) * ((e.p₁.x - e.p₂.x) / 2) +
      Real.cos (radians e.rotation) * ((e.p₁.y - e.p₂.y) / 2)⟩ := rfl
  rw [half]
  constructor
  · linear_combination (e.p₁.x - e.p₂.x) / 2 * circle
  · linear_combination (e.p₁.y - e.p₂.y) / 2 * circle

section Round

variable (hrx : e.rx ≠ 0) (hry : e.ry ≠ 0)
include hrx hry

/-- The ends of the chord are not the same, so it has a length. -/
theorem reach_pos (apart : e.p₁ ≠ e.p₂) : 0 < e.reach := by
  rw [reach_eq]
  by_contra none
  have both : e.half.x / e.rx = 0 ∧ e.half.y / e.ry = 0 := by
    constructor <;> nlinarith [sq_nonneg (e.half.x / e.rx), sq_nonneg (e.half.y / e.ry)]
  obtain ⟨x, y⟩ := e.half_turned_back
  rw [(div_eq_zero_iff.mp both.1).resolve_right hrx,
    (div_eq_zero_iff.mp both.2).resolve_right hry] at x y
  apply apart
  ext <;> linarith

/-- **The bulge.** It is what the chord lacks of a diameter, to the side of the flags. -/
theorem bulge_eq (apart : e.p₁ ≠ e.p₂) :
    e.bulge = (if e.large == e.sweep then -1 else 1) *
      √((1 - min 1 e.reach) / min 1 e.reach) := by
  have hx := grown_pos e hrx
  have hy := grown_pos e hry
  have short : 0 < min 1 e.reach := lt_min one_pos (reach_pos hrx hry apart)
  have area : 0 < (e.grown e.rx * e.grown e.ry) ^ 2 := by positivity
  have den : e.grown e.rx * e.half.y * (e.grown e.rx * e.half.y) +
      e.grown e.ry * e.half.x * (e.grown e.ry * e.half.x) =
        (e.grown e.rx * e.grown e.ry) ^ 2 * min 1 e.reach := by
    rw [← unitHalf_dot_self, Point.dot, unitHalf]
    field_simp
    ring
  have num : e.grown e.rx * e.grown e.ry * (e.grown e.rx * e.grown e.ry) -
      e.grown e.rx * e.half.y * (e.grown e.rx * e.half.y) -
      e.grown e.ry * e.half.x * (e.grown e.ry * e.half.x) =
        (e.grown e.rx * e.grown e.ry) ^ 2 * (1 - min 1 e.reach) := by
    linear_combination -den
  have ratio : 0 ≤ (1 - min 1 e.reach) / min 1 e.reach :=
    div_nonneg (sub_nonneg.mpr (min_le_left _ _)) short.le
  have size : √(max 0 ((1 - min 1 e.reach) / min 1 e.reach)) =
      √((1 - min 1 e.reach) / min 1 e.reach) := by rw [max_eq_right ratio]
  simp only [bulge, den, num, mul_div_mul_left _ _ area.ne', Exact.larger_eq]
  rw [if_pos (mul_pos area short)]
  split
  · rw [neg_one_mul]
    exact congrArg Neg.neg size
  · rw [one_mul]
    exact size

/-! ### The spokes -/

theorem spoke_half : e.spoke e.half =
    ⟨e.unitHalf.x - e.bulge * e.unitHalf.y, e.unitHalf.y + e.bulge * e.unitHalf.x⟩ := by
  have hx := (grown_pos e hrx).ne'
  have hy := (grown_pos e hry).ne'
  ext
  · simp only [spoke, middle, unitHalf]
    field_simp
  · simp only [spoke, middle, unitHalf]
    field_simp
    ring

theorem spoke_neg_half : e.spoke (-e.half) =
    ⟨-e.unitHalf.x - e.bulge * e.unitHalf.y, -e.unitHalf.y + e.bulge * e.unitHalf.x⟩ := by
  have hx := (grown_pos e hrx).ne'
  have hy := (grown_pos e hry).ne'
  have back : -e.half = ⟨-e.half.x, -e.half.y⟩ := rfl
  rw [back]
  ext
  · simp only [spoke, middle, unitHalf]
    field_simp
  · simp only [spoke, middle, unitHalf]
    field_simp
    ring

/-- Spokes are unit vectors, and turn by an angle of this cosine and sine. -/
theorem spokes_turn (apart : e.p₁ ≠ e.p₂) :
    (e.spoke e.half).dot (e.spoke e.half) = 1 ∧
      (e.spoke (-e.half)).dot (e.spoke (-e.half)) = 1 ∧
      (e.spoke e.half).dot (e.spoke (-e.half)) = 1 - 2 * min 1 e.reach ∧
      (e.spoke e.half).cross (e.spoke (-e.half)) = 2 * e.bulge * min 1 e.reach := by
  have short : 0 < min 1 e.reach := lt_min one_pos (reach_pos hrx hry apart)
  have bulge : e.bulge ^ 2 * min 1 e.reach = 1 - min 1 e.reach := by
    have ratio : 0 ≤ (1 - min 1 e.reach) / min 1 e.reach :=
      div_nonneg (sub_nonneg.mpr (min_le_left _ _)) short.le
    have sign : (if e.large == e.sweep then (-1 : ℝ) else 1) ^ 2 = 1 := by split <;> norm_num
    rw [bulge_eq hrx hry apart, mul_pow, sign, one_mul, Real.sq_sqrt ratio,
      div_mul_cancel₀ _ short.ne']
  have long := e.unitHalf_dot_self
  simp only [Point.dot] at long
  rw [spoke_half hrx hry, spoke_neg_half hrx hry]
  simp only [Point.dot, Point.cross]
  refine ⟨?_, ?_, ?_, ?_⟩
  · linear_combination (1 + e.bulge ^ 2) * long + bulge
  · linear_combination (1 + e.bulge ^ 2) * long + bulge
  · linear_combination (e.bulge ^ 2 - 1) * long + bulge
  · linear_combination 2 * e.bulge * long

/-- The bulge says which way the angle between the spokes leads. Where the radii do not
reach beyond the chord it is half a turn. -/
theorem angleBetween_spokes (apart : e.p₁ ≠ e.p₂) :
    let δ := angleBetween (e.spoke e.half) (e.spoke (-e.half))
    δ ≠ 0 ∧ (e.reach < 1 → δ < Real.pi ∧ (δ < 0 ↔ e.large = e.sweep)) ∧
      (1 ≤ e.reach → δ = Real.pi) := by
  intro δ
  have positive := reach_pos hrx hry apart
  have bulge := bulge_eq hrx hry apart
  obtain ⟨-, -, dot, cross⟩ := spokes_turn hrx hry apart
  have angle : δ = Complex.arg ⟨1 - 2 * min 1 e.reach, 2 * e.bulge * min 1 e.reach⟩ := by
    rw [← dot, ← cross]
    rfl
  rcases lt_or_ge e.reach 1 with short | long
  · -- The bulge is not zero, and neither is the sine.
    rw [min_eq_right short.le] at angle bulge
    have size : 0 < 2 * √((1 - e.reach) / e.reach) * e.reach :=
      mul_pos (mul_pos two_pos (Real.sqrt_pos.mpr (div_pos (sub_pos.mpr short) positive))) positive
    have sine : 2 * e.bulge * e.reach ≠ 0 ∧ (2 * e.bulge * e.reach < 0 ↔ e.large = e.sweep) := by
      rw [bulge]
      by_cases same : e.large = e.sweep
      · rw [if_pos (beq_iff_eq.mpr same)]
        exact ⟨by linarith, iff_of_true (by linarith) same⟩
      · rw [if_neg (beq_iff_eq.not.mpr same), one_mul]
        exact ⟨size.ne', iff_of_false size.not_gt same⟩
    refine ⟨?_, fun _ => ⟨?_, ?_⟩, fun long => absurd short long.not_gt⟩
    · rw [angle, Ne, Complex.arg_eq_zero_iff]
      exact fun zero => sine.1 zero.2
    · refine lt_of_le_of_ne (Complex.arg_le_pi _) ?_
      rw [angle, Ne, Complex.arg_eq_pi_iff]
      exact fun half => sine.1 half.2
    · rw [angle, Complex.arg_neg_iff]
      exact sine.2
  · rw [min_eq_left long] at angle bulge
    have half : δ = Real.pi := by
      rw [angle, Complex.arg_eq_pi_iff, bulge]
      norm_num
    refine ⟨?_, fun short => absurd short long.not_gt, fun _ => half⟩
    rw [half]
    exact Real.pi_ne_zero

/-! ### The two ends -/

/-- The point at the end of a spoke: half the chord turned back, from the middle of the
chord. -/
theorem point_eq_of_spoke {t : ℝ} {h : Point ℝ}
    (angle : Real.cos (e.center.angle t) = (e.spoke h).x ∧
      Real.sin (e.center.angle t) = (e.spoke h).y) :
    e.center.point t =
      ⟨Real.cos (radians e.rotation) * h.x - Real.sin (radians e.rotation) * h.y +
          (e.p₁.x + e.p₂.x) / 2,
        Real.sin (radians e.rotation) * h.x + Real.cos (radians e.rotation) * h.y +
          (e.p₁.y + e.p₂.y) / 2⟩ := by
  have x : e.grown e.rx * Real.cos (e.center.angle t) = h.x - e.middle.x := by
    rw [angle.1]
    exact mul_div_cancel₀ _ (grown_pos e hrx).ne'
  have y : e.grown e.ry * Real.sin (e.center.angle t) = h.y - e.middle.y := by
    rw [angle.2]
    exact mul_div_cancel₀ _ (grown_pos e hry).ne'
  have middle : e.center.center =
      ⟨Real.cos (radians e.rotation) * e.middle.x - Real.sin (radians e.rotation) * e.middle.y +
          (e.p₁.x + e.p₂.x) / 2,
        Real.sin (radians e.rotation) * e.middle.x + Real.cos (radians e.rotation) * e.middle.y +
          (e.p₁.y + e.p₂.y) / 2⟩ := rfl
  have point : e.center.point t =
      ⟨e.center.center.x +
          Real.cos (radians e.rotation) * (e.grown e.rx * Real.cos (e.center.angle t)) -
          Real.sin (radians e.rotation) * (e.grown e.ry * Real.sin (e.center.angle t)),
        e.center.center.y +
          Real.sin (radians e.rotation) * (e.grown e.rx * Real.cos (e.center.angle t)) +
          Real.cos (radians e.rotation) * (e.grown e.ry * Real.sin (e.center.angle t))⟩ := rfl
  rw [point, x, y, middle]
  ext
  · simp only
    ring
  · simp only
    ring

/-- The angles at zero and at one lead along the two spokes. -/
theorem cos_sin_ends (apart : e.p₁ ≠ e.p₂) :
    (Real.cos e.center.theta = (e.spoke e.half).x ∧
      Real.sin e.center.theta = (e.spoke e.half).y) ∧
      Real.cos (e.center.theta + e.center.delta) = (e.spoke (-e.half)).x ∧
      Real.sin (e.center.theta + e.center.delta) = (e.spoke (-e.half)).y := by
  obtain ⟨first, second, -, -⟩ := spokes_turn hrx hry apart
  have start : Real.cos e.center.theta = (e.spoke e.half).x ∧
      Real.sin e.center.theta = (e.spoke e.half).y := by
    have unit : (⟨1, 0⟩ : Point ℝ).dot ⟨1, 0⟩ = 1 := by norm_num [Point.dot]
    have angle := cos_sin_angleBetween unit first
    simp only [Point.dot, Point.cross, one_mul, zero_mul, add_zero, sub_zero] at angle
    exact angle
  have extent : Real.cos e.center.delta = (e.spoke e.half).dot (e.spoke (-e.half)) ∧
      Real.sin e.center.delta = (e.spoke e.half).cross (e.spoke (-e.half)) := by
    have angle := cos_sin_angleBetween first second
    have full := cos_sin_directed e.sweep (angleBetween (e.spoke e.half) (e.spoke (-e.half)))
    exact ⟨full.1.trans angle.1, full.2.trans angle.2⟩
  exact ⟨start, cos_sin_add first start extent⟩

/-- **Both ends.** The angles at the ends lead along the spokes, and half the chord turned
back leads from the middle of the chord to its ends. -/
theorem point_center (apart : e.p₁ ≠ e.p₂) :
    e.center.point 0 = e.p₁ ∧ e.center.point 1 = e.p₂ := by
  obtain ⟨start, finish⟩ := cos_sin_ends hrx hry apart
  have at_zero : e.center.angle 0 = e.center.theta := by rw [Arc.angle, zero_mul, add_zero]
  have at_one : e.center.angle 1 = e.center.theta + e.center.delta := by rw [Arc.angle, one_mul]
  rw [← at_zero] at start
  rw [← at_one] at finish
  obtain ⟨x, y⟩ := e.half_turned_back
  rw [point_eq_of_spoke hrx hry start, point_eq_of_spoke hrx hry finish]
  have back : -e.half = ⟨-e.half.x, -e.half.y⟩ := rfl
  rw [back]
  constructor
  · ext
    · simp only
      linarith
    · simp only
      linarith
  · ext
    · simp only
      linarith
    · simp only
      linarith

end Round

end Radii

/-- **The arc through its centre.** Between ends that are apart, with radii other than
zero, there is one. It leads from the first end to the second, in the direction of the
flag and by less than a full turn. Radii that reach beyond the chord are kept, and the
arc is the long one if that is asked for; others are scaled up until they just reach, and
the arc is half a turn. -/
theorem center?_joins (e : EndpointArc ℝ) (apart : e.p₁ ≠ e.p₂) (hrx : e.rx ≠ 0)
    (hry : e.ry ≠ 0) :
    ∃ arc, e.center? = .ok arc ∧ arc.phi = radians e.rotation ∧
      arc.point 0 = e.p₁ ∧ arc.point 1 = e.p₂ ∧
      (if e.sweep then 0 < arc.delta ∧ arc.delta < 2 * Real.pi
        else -(2 * Real.pi) < arc.delta ∧ arc.delta < 0) ∧
      let lam := (e.half.x / e.rx) ^ 2 + (e.half.y / e.ry) ^ 2
      (lam < 1 → arc.rx = |e.rx| ∧ arc.ry = |e.ry| ∧ (Real.pi < |arc.delta| ↔ e.large = true)) ∧
      (1 ≤ lam → arc.rx = |e.rx| * √lam ∧ arc.ry = |e.ry| * √lam ∧ |arc.delta| = Real.pi) := by
  have found : e.center? = .ok e.center := by
    rw [center?_eq, Exact.fault?_eq, if_neg (by simp [hrx, hry])]
  obtain ⟨start, finish⟩ := point_center hrx hry apart
  obtain ⟨low, high⟩ := angleBetween_mem (e.spoke e.half) (e.spoke (-e.half))
  obtain ⟨turns, short, long⟩ := angleBetween_spokes hrx hry apart
  refine ⟨e.center, found, rfl, start, finish, directed_mem low high turns, ?_⟩
  rw [← reach_eq]
  refine ⟨fun reaches => ?_, fun strains => ?_⟩
  · have kept (radius : ℝ) : e.grown radius = |radius| := by
      rw [grown_eq, max_eq_left reaches.le, Real.sqrt_one, mul_one]
    obtain ⟨less, back⟩ := short reaches
    refine ⟨kept e.rx, kept e.ry, (pi_lt_abs_directed_iff low less turns).trans ?_⟩
    rw [back]
    cases e.large <;> cases e.sweep <;> decide
  · have scaled (radius : ℝ) : e.grown radius = |radius| * √e.reach := by
      rw [grown_eq, max_eq_right strains]
    have half : e.center.delta = directed e.sweep Real.pi :=
      congrArg (directed e.sweep) (long strains)
    rw [half]
    exact ⟨scaled e.rx, scaled e.ry, abs_directed_pi⟩

/-- The long way round an ellipse that stands upright, against the direction. -/
theorem center?_joins_upright :
    let e : EndpointArc ℝ := ⟨⟨0, 0⟩, ⟨2, 0⟩, -3, 2, 90, true, false⟩
    e.p₁ ≠ e.p₂ ∧ e.rx ≠ 0 ∧ e.ry ≠ 0 ∧
      ∃ arc, e.center? = .ok arc ∧ arc.point 0 = ⟨0, 0⟩ ∧ arc.point 1 = ⟨2, 0⟩ ∧
        arc.rx = 3 ∧ arc.ry = 2 ∧ arc.delta < 0 ∧ Real.pi < |arc.delta| := by
  intro e
  have apart : e.p₁ ≠ e.p₂ := by simp [e]
  have hrx : e.rx ≠ 0 := by norm_num [e]
  have hry : e.ry ≠ 0 := by norm_num [e]
  obtain ⟨arc, found, -, start, finish, direction, reaches, -⟩ := e.center?_joins apart hrx hry
  have quarter : radians e.rotation = Real.pi / 2 := by
    change (90 : ℝ) * (Real.pi / 180) = _
    ring
  have lam : (e.half.x / e.rx) ^ 2 + (e.half.y / e.ry) ^ 2 < 1 := by
    have half : e.half = ⟨Real.cos (radians e.rotation) * ((0 - 2) / 2) +
        Real.sin (radians e.rotation) * ((0 - 0) / 2),
        -Real.sin (radians e.rotation) * ((0 - 2) / 2) +
        Real.cos (radians e.rotation) * ((0 - 0) / 2)⟩ := rfl
    rw [half, quarter, Real.cos_pi_div_two, Real.sin_pi_div_two]
    norm_num [e]
  obtain ⟨rx, ry, large⟩ := reaches lam
  refine ⟨apart, hrx, hry, arc, found, start, finish, ?_, ?_, direction.2, large.mpr rfl⟩
  · rw [rx]
    norm_num [e]
  · rw [ry]
    norm_num [e]

end EndpointArc

end BoardPlotter
