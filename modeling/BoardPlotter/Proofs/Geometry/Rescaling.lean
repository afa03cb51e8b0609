import Mathlib.Tactic.Ring
import BoardPlotter.Proofs.Geometry.Affinity
import BoardPlotter.Proofs.Geometry.Center

/-!
# The unit and origin of the plane

A `Rescaling` measures positions from another origin and in another unit; displacements
and lengths only change their unit. One lemma per operation says that it commutes with
this: interpolation, distances to a segment, the rows of a control polygon, the centre
of an arc. So every comparison made while a curve is flattened comes out the same, and
the samples are the same points (`Rescaling.bezier_flatten`, `Rescaling.arc_flatten`).
-/

namespace BoardPlotter

open Scalar

/-- Another unit and origin for the plane. -/
structure Rescaling where
  unit : ℝ
  origin : Point ℝ
  unit_pos : 0 < unit

namespace Rescaling

variable (r : Rescaling)

/-- The position of a point. -/
noncomputable def point (p : Point ℝ) : Point ℝ :=
  ⟨(p.x - r.origin.x) / r.unit, (p.y - r.origin.y) / r.unit⟩

/-- The measure of a displacement. -/
noncomputable def offset (d : Point ℝ) : Point ℝ := ⟨d.x / r.unit, d.y / r.unit⟩

/-- From positions back to points: by the unit, then to the origin. -/
noncomputable def toPoint : Affine ℝ :=
  (Affine.translate r.origin.x r.origin.y).comp (Affine.scale r.unit r.unit)

theorem unit_ne : r.unit ≠ 0 := r.unit_pos.ne'

@[simp] theorem point_x (p : Point ℝ) : (r.point p).x = (p.x - r.origin.x) / r.unit := rfl
@[simp] theorem point_y (p : Point ℝ) : (r.point p).y = (p.y - r.origin.y) / r.unit := rfl
@[simp] theorem offset_x (d : Point ℝ) : (r.offset d).x = d.x / r.unit := rfl
@[simp] theorem offset_y (d : Point ℝ) : (r.offset d).y = d.y / r.unit := rfl

theorem toPoint_apply (p : Point ℝ) : r.toPoint.apply (r.point p) = p := by
  have back (x o : ℝ) : r.unit * ((x - o) / r.unit) + o = x := by
    rw [mul_div_cancel₀ _ r.unit_ne, sub_add_cancel]
  ext
  · simp [toPoint, Affine.comp, Affine.translate, Affine.scale, Affine.apply, back]
  · simp [toPoint, Affine.comp, Affine.translate, Affine.scale, Affine.apply, back]

theorem point_injective : Function.Injective r.point := fun p q h => by
  rw [← r.toPoint_apply p, h, r.toPoint_apply]

/-! ### Displacements and lengths -/

@[simp] theorem point_sub (p q : Point ℝ) : r.point p - r.point q = r.offset (p - q) := by
  ext
  · simp [← sub_div]
  · simp [← sub_div]

@[simp] theorem point_add_offset (p d : Point ℝ) : r.point p + r.offset d = r.point (p + d) := by
  ext
  · simp only [Point.add_x, point_x, offset_x]
    ring
  · simp only [Point.add_y, point_y, offset_y]
    ring

theorem point_lerp (p q : Point ℝ) (t : ℝ) :
    (r.point p).lerp (r.point q) t = r.point (p.lerp q t) := by
  ext
  · simp only [Point.lerp_x, point_x]
    ring
  · simp only [Point.lerp_y, point_y]
    ring

/-- Measuring again is an affinity, so what sampling looks at stays. -/
noncomputable def affinity : Affinity := ⟨r.point, r.point_injective, r.point_lerp⟩

theorem point_beq (p q : Point ℝ) : (r.point p == r.point q) = (p == q) :=
  r.affinity.point_beq p q

theorem offset_scale (d : Point ℝ) (t : ℝ) : (r.offset d).scale t = r.offset (d.scale t) := by
  ext
  · exact div_mul_eq_mul_div _ _ _
  · exact div_mul_eq_mul_div _ _ _

theorem dot_offset (d e : Point ℝ) : (r.offset d).dot (r.offset e) = d.dot e / r.unit ^ 2 := by
  simp only [Point.dot, offset_x, offset_y]
  ring

theorem lengthSquared_offset (d : Point ℝ) :
    (r.offset d).lengthSquared = d.lengthSquared / r.unit ^ 2 := r.dot_offset d d

theorem lengthSquared_beq_zero (d : Point ℝ) :
    ((r.offset d).lengthSquared == 0) = (d.lengthSquared == 0) := by
  rw [Bool.eq_iff_iff, beq_iff_eq, beq_iff_eq, lengthSquared_offset, div_eq_zero_iff]
  simp [r.unit_ne]

theorem length_offset (d : Point ℝ) : (r.offset d).length = d.length / r.unit := by
  change √((d.x / r.unit) ^ 2 + (d.y / r.unit) ^ 2) = √(d.x ^ 2 + d.y ^ 2) / r.unit
  rw [div_pow, div_pow, ← add_div, Real.sqrt_div' _ (sq_nonneg _), Real.sqrt_sq r.unit_pos.le]

theorem div_unit_le_div_unit {a b : ℝ} : a / r.unit ≤ b / r.unit ↔ a ≤ b :=
  div_le_div_iff_of_pos_right r.unit_pos

theorem div_unit_beq_zero (x : ℝ) : (x / r.unit == 0) = (x == 0) := by
  rw [Bool.eq_iff_iff, beq_iff_eq, beq_iff_eq, div_eq_zero_iff, or_iff_left r.unit_ne]

theorem distanceToSegment (p a b : Point ℝ) :
    (r.point p).distanceToSegment (r.point a) (r.point b) = p.distanceToSegment a b / r.unit := by
  have same : (r.offset (p - a)).dot (r.offset (b - a)) / (r.offset (b - a)).lengthSquared =
      (p - a).dot (b - a) / (b - a).lengthSquared := by
    rw [dot_offset, lengthSquared_offset]
    exact div_div_div_cancel_right₀ (pow_ne_zero 2 r.unit_ne) _ _
  simp only [Point.distanceToSegment, point_sub, same, lengthSquared_beq_zero, offset_scale,
    point_add_offset, length_offset]
  split <;> rfl

/-! ### Curves -/

/-- The polygon at its positions. -/
noncomputable def polygon (c : ControlPolygon ℝ) : ControlPolygon ℝ :=
  ⟨r.point c.first, c.rest.map r.point⟩

theorem last_polygon (c : ControlPolygon ℝ) : (r.polygon c).last = r.point c.last :=
  r.affinity.last_polygon c

theorem rows_polygon (t : ℝ) (n : ℕ) (c : ControlPolygon ℝ) :
    ControlPolygon.rows t n (r.polygon c) = (ControlPolygon.rows t n c).map r.polygon :=
  r.affinity.rows_polygon t n c

theorem degree_polygon (c : ControlPolygon ℝ) : (r.polygon c).degree = c.degree :=
  r.affinity.degree_polygon c

theorem reverse_polygon (c : ControlPolygon ℝ) :
    (r.polygon c).reverse = r.polygon c.reverse := by
  have main (ps : List (Point ℝ)) (d : ControlPolygon ℝ) :
      (ps.map r.point).foldl (fun d p => ⟨p, d.first :: d.rest⟩) (r.polygon d) =
        r.polygon (ps.foldl (fun d p => ⟨p, d.first :: d.rest⟩) d) := by
    induction ps generalizing d with
    | nil => rfl
    | cons p ps ih => exact ih ⟨p, d.first :: d.rest⟩
  exact main c.rest ⟨c.first, []⟩

theorem split_polygon (c : ControlPolygon ℝ) (t : ℝ) :
    (r.polygon c).split t = (r.polygon (c.split t).1, r.polygon (c.split t).2) := by
  have firsts (n : ℕ) : (ControlPolygon.rows t n (r.polygon c)).map ControlPolygon.first =
      ((ControlPolygon.rows t n c).map ControlPolygon.first).map r.point := by
    rw [rows_polygon, List.map_map, List.map_map]
    rfl
  have lasts (n : ℕ) : (ControlPolygon.rows t n (r.polygon c)).map ControlPolygon.last =
      ((ControlPolygon.rows t n c).map ControlPolygon.last).map r.point := by
    rw [rows_polygon, List.map_map, List.map_map]
    exact List.map_congr_left fun d _ => r.last_polygon d
  simp only [ControlPolygon.split, degree_polygon, firsts, lasts, last_polygon]
  rw [← reverse_polygon]
  rfl

theorem isFlat_polygon (c : ControlPolygon ℝ) (tolerance : ℝ) :
    (r.polygon c).isFlat (tolerance / r.unit) = c.isFlat tolerance := by
  rw [ControlPolygon.isFlat, last_polygon, polygon, ← List.map_dropLast, List.all_map,
    ControlPolygon.isFlat]
  refine congrArg (List.all _) (funext fun p => ?_)
  simp only [Function.comp_apply, distanceToSegment, div_unit_le_div_unit]

theorem flattenFrom_polygon (tolerance : ℝ) (depth : ℕ) (c : ControlPolygon ℝ) :
    (r.polygon c).flattenFrom (tolerance / r.unit) depth =
      (c.flattenFrom tolerance depth).map r.point := by
  induction depth generalizing c with
  | zero => exact congrArg ([·]) (r.last_polygon c)
  | succ depth ih =>
    simp only [ControlPolygon.flattenFrom, isFlat_polygon, split_polygon, last_polygon, ih]
    split
    · rfl
    · rw [List.map_append]

/-- A curve is flattened into the same points if the tolerance is given in the unit. -/
theorem bezier_flatten (control : List (Point ℝ)) {tolerance : ℝ} (pos : 0 < tolerance)
    (depth : ℤ) :
    Bezier.flatten (control.map r.point) (tolerance / r.unit) depth =
      (Bezier.flatten control tolerance depth).map (List.map r.point) := by
  have checked : checkTolerance tolerance = .ok () := if_pos pos
  have checked' : checkTolerance (tolerance / r.unit) = .ok () := if_pos (div_pos pos r.unit_pos)
  rw [Bezier.flatten, Bezier.flatten, checked, checked']
  cases control with
  | nil => rfl
  | cons p ps =>
    change ControlPolygon.flatten (r.polygon ⟨p, ps⟩) _ depth =
      (ControlPolygon.flatten ⟨p, ps⟩ _ depth).map _
    rw [ControlPolygon.flatten, ControlPolygon.flatten, checked, checked', flattenFrom_polygon]
    rfl

/-! ### Arcs -/

/-- The arc at its positions. -/
noncomputable def arc (a : Arc ℝ) : Arc ℝ :=
  { a with center := r.point a.center, rx := a.rx / r.unit, ry := a.ry / r.unit }

/-- The arc between the positions of its ends. -/
noncomputable def endpointArc (e : EndpointArc ℝ) : EndpointArc ℝ :=
  { e with p₁ := r.point e.p₁, p₂ := r.point e.p₂, rx := e.rx / r.unit, ry := e.ry / r.unit }

@[simp] theorem endpointArc_rx (e : EndpointArc ℝ) : (r.endpointArc e).rx = e.rx / r.unit := rfl
@[simp] theorem endpointArc_ry (e : EndpointArc ℝ) : (r.endpointArc e).ry = e.ry / r.unit := rfl

theorem abs_div_unit (x : ℝ) : Scalar.abs (x / r.unit) = Scalar.abs x / r.unit := by
  rw [Exact.abs_eq, abs_div, abs_of_pos r.unit_pos, Exact.abs_eq]

theorem half_endpointArc (e : EndpointArc ℝ) : (r.endpointArc e).half = r.offset e.half := by
  ext
  · simp only [EndpointArc.half, endpointArc, point_x, point_y, offset_x]
    ring
  · simp only [EndpointArc.half, endpointArc, point_x, point_y, offset_y]
    ring

theorem reach_endpointArc (e : EndpointArc ℝ) : (r.endpointArc e).reach = e.reach := by
  simp only [EndpointArc.reach, half_endpointArc, endpointArc_rx, endpointArc_ry, abs_div_unit,
    offset_x, offset_y, div_div_div_cancel_right₀ r.unit_ne]

theorem grown_endpointArc (e : EndpointArc ℝ) (radius : ℝ) :
    (r.endpointArc e).grown (radius / r.unit) = e.grown radius / r.unit := by
  rw [EndpointArc.grown, reach_endpointArc, abs_div_unit, EndpointArc.grown]
  split
  · exact div_mul_eq_mul_div _ _ _
  · rfl

theorem square_div_div (a b : ℝ) :
    a / r.unit * (b / r.unit) * (a / r.unit * (b / r.unit)) = a * b * (a * b) / r.unit ^ 4 := by
  ring

theorem bulge_endpointArc (e : EndpointArc ℝ) : (r.endpointArc e).bulge = e.bulge := by
  have scale : 0 < r.unit ^ 4 := pow_pos r.unit_pos 4
  have sign (x : ℝ) : 0 < x / r.unit ^ 4 ↔ 0 < x := by rw [lt_div_iff₀ scale, zero_mul]
  simp only [EndpointArc.bulge, endpointArc_rx, endpointArc_ry, grown_endpointArc,
    half_endpointArc, offset_x, offset_y, square_div_div, ← sub_div, ← add_div,
    div_div_div_cancel_right₀ scale.ne', sign]
  rfl

theorem mul_mul_div_div (k a b c : ℝ) :
    k * (a / r.unit) * (b / r.unit) / (c / r.unit) = k * a * b / c / r.unit := by
  have twice : k * (a / r.unit) * (b / r.unit) = k * a * b / r.unit / r.unit := by ring
  rw [twice, div_div_div_cancel_right₀ r.unit_ne, div_right_comm]

theorem middle_endpointArc (e : EndpointArc ℝ) : (r.endpointArc e).middle = r.offset e.middle := by
  ext
  · simp only [EndpointArc.middle, bulge_endpointArc, endpointArc_rx, endpointArc_ry,
      grown_endpointArc, half_endpointArc, offset_x, offset_y, mul_mul_div_div]
  · simp only [EndpointArc.middle, bulge_endpointArc, endpointArc_rx, endpointArc_ry,
      grown_endpointArc, half_endpointArc, offset_x, offset_y, mul_mul_div_div]

theorem spoke_endpointArc (e : EndpointArc ℝ) (d : Point ℝ) :
    (r.endpointArc e).spoke (r.offset d) = e.spoke d := by
  ext
  · simp only [EndpointArc.spoke, middle_endpointArc, endpointArc_rx, grown_endpointArc, offset_x,
      ← sub_div, div_div_div_cancel_right₀ r.unit_ne]
  · simp only [EndpointArc.spoke, middle_endpointArc, endpointArc_ry, grown_endpointArc, offset_y,
      ← sub_div, div_div_div_cancel_right₀ r.unit_ne]

theorem center_endpointArc (e : EndpointArc ℝ) : (r.endpointArc e).center = r.arc e.center := by
  have back : -r.offset e.half = r.offset (-e.half) := by
    ext
    · exact (neg_div _ _).symm
    · exact (neg_div _ _).symm
  have moved (c s : ℝ) (m : Point ℝ) :
      (⟨c * (r.offset m).x - s * (r.offset m).y + ((r.point e.p₁).x + (r.point e.p₂).x) / 2,
        s * (r.offset m).x + c * (r.offset m).y + ((r.point e.p₁).y + (r.point e.p₂).y) / 2⟩ :
          Point ℝ) =
      r.point ⟨c * m.x - s * m.y + (e.p₁.x + e.p₂.x) / 2,
        s * m.x + c * m.y + (e.p₁.y + e.p₂.y) / 2⟩ := by
    ext
    · simp only [point_x, offset_x, offset_y]
      ring
    · simp only [point_y, offset_x, offset_y]
      ring
  simp only [EndpointArc.center, middle_endpointArc, endpointArc_rx, endpointArc_ry,
    grown_endpointArc, half_endpointArc, back, spoke_endpointArc]
  simp only [endpointArc, moved]
  rfl

theorem point_arc (a : Arc ℝ) (t : ℝ) : (r.arc a).point t = r.point (a.point t) := by
  ext
  · simp only [Arc.point, Arc.angle, arc, point_x]
    ring
  · simp only [Arc.point, Arc.angle, arc, point_y]
    ring

theorem bisect_arc (a : Arc ℝ) (tolerance : ℝ) (depth : ℕ) (t₀ t₁ : ℝ) (p q : Point ℝ) :
    (r.arc a).bisect (tolerance / r.unit) depth t₀ (r.point p) t₁ (r.point q) =
      (a.bisect tolerance depth t₀ p t₁ q).map r.point := by
  induction depth generalizing t₀ t₁ p q with
  | zero => rfl
  | succ depth ih =>
    simp only [Arc.bisect, point_sub, length_offset, div_unit_le_div_unit, point_arc, ih]
    split
    · rfl
    · rw [List.map_append, List.map_cons]

theorem samples_endpointArc (e : EndpointArc ℝ) (tolerance : ℝ) (depth : ℕ) :
    (r.endpointArc e).samples (tolerance / r.unit) depth =
      (e.samples tolerance depth).map r.point := by
  simp only [EndpointArc.samples, center_endpointArc, point_arc, List.map_append, List.map_cons,
    ← bisect_arc]
  rfl

/-- An arc is sampled in the same points if the tolerance is given in the unit. -/
theorem arc_flatten (e : EndpointArc ℝ) {tolerance : ℝ} (pos : 0 < tolerance) (depth : ℤ) :
    (r.endpointArc e).flatten (tolerance / r.unit) depth =
      (e.flatten tolerance depth).map (List.map r.point) := by
  have ends : ((r.endpointArc e).p₁ == (r.endpointArc e).p₂) = (e.p₁ == e.p₂) :=
    r.point_beq e.p₁ e.p₂
  rw [Exact.flatten_eq e pos, Exact.flatten_eq _ (div_pos pos r.unit_pos),
    samples_endpointArc, ends, endpointArc_rx, endpointArc_ry, div_unit_beq_zero, div_unit_beq_zero]
  refine congrArg Except.ok ?_
  split
  · rfl
  · split <;> rfl

end Rescaling

end BoardPlotter
