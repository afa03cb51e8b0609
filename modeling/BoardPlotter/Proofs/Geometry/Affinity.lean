import Mathlib.Tactic.LinearCombination
import BoardPlotter.Geometry.Bezier
import BoardPlotter.Geometry.Polyline
import BoardPlotter.Proofs.Geometry.Segment

/-!
# Affinities of the plane

An `Affinity` keeps the points of a line in their proportions and distinct points
distinct. That is all sampling looks at: the rows of a control polygon, the points of
its curve and whether it is a point are carried along, one lemma per operation
(`Affinity.bezier_sample`, `Affinity.bezier_isDegenerate`).

An affine map whose linear part has a determinant is one (`Affine.affinity`). Over the
reals `Affine.isIdentity` is no special case (`Polyline.transform_eq`).
-/

namespace BoardPlotter

open Scalar

/-- A map of the plane under which lines and the proportions on them stay. -/
structure Affinity where
  point : Point ℝ → Point ℝ
  injective : Function.Injective point
  lerp (p q : Point ℝ) (t : ℝ) : (point p).lerp (point q) t = point (p.lerp q t)

namespace Affinity

variable (a : Affinity)

theorem point_beq (p q : Point ℝ) : (a.point p == a.point q) = (p == q) := by
  rw [Bool.eq_iff_iff, Point.beq_iff, Point.beq_iff, a.injective.eq_iff]

/-- The reflection is on the line through both points, as far again. -/
theorem point_reflect (p q : Point ℝ) :
    (a.point p).scale 2 - a.point q = a.point (p.scale 2 - q) := by
  have across (p q : Point ℝ) : p.scale 2 - q = q.lerp p 2 := by
    ext
    · simp only [Point.sub_x, Point.scale_x, Point.lerp_x]
      ring
    · simp only [Point.sub_y, Point.scale_y, Point.lerp_y]
      ring
  rw [across, a.lerp, across]

theorem sub_lengthSquared_beq (p q : Point ℝ) :
    ((a.point p - a.point q).lengthSquared == 0) = ((p - q).lengthSquared == 0) := by
  rw [Bool.eq_iff_iff, beq_iff_eq, beq_iff_eq, Point.sub_lengthSquared_eq_zero_iff,
    Point.sub_lengthSquared_eq_zero_iff, a.injective.eq_iff]

/-! ### Curves -/

/-- The image of a polygon. -/
def polygon (c : ControlPolygon ℝ) : ControlPolygon ℝ := ⟨a.point c.first, c.rest.map a.point⟩

theorem last_polygon (c : ControlPolygon ℝ) : (a.polygon c).last = a.point c.last := by
  rw [ControlPolygon.last, polygon, List.getLast?_map, Option.getD_map, ControlPolygon.last]

theorem narrow_polygon (c : ControlPolygon ℝ) (t : ℝ) :
    (a.polygon c).narrow t = a.polygon (c.narrow t) := by
  obtain ⟨p, _ | ⟨q, qs⟩⟩ := c
  · rfl
  · have tail : List.zipWith (fun a b => a.lerp b t) ((q :: qs).map a.point) (qs.map a.point) =
        (List.zipWith (fun a b => a.lerp b t) (q :: qs) qs).map a.point := by
      rw [List.zipWith_map, List.map_zipWith]
      simp only [a.lerp]
    exact congrArg₂ ControlPolygon.mk (a.lerp p q t) tail

theorem rows_polygon (t : ℝ) (n : ℕ) (c : ControlPolygon ℝ) :
    ControlPolygon.rows t n (a.polygon c) = (ControlPolygon.rows t n c).map a.polygon := by
  induction n generalizing c with
  | zero => rfl
  | succ n ih => rw [ControlPolygon.rows, narrow_polygon, ih, ControlPolygon.rows, List.map_cons]

theorem apex_polygon (t : ℝ) (n : ℕ) (c : ControlPolygon ℝ) :
    ControlPolygon.apex t n (a.polygon c) = a.point (ControlPolygon.apex t n c) := by
  induction n generalizing c with
  | zero => rfl
  | succ n ih => rw [ControlPolygon.apex, narrow_polygon, ih, ControlPolygon.apex]

theorem degree_polygon (c : ControlPolygon ℝ) : (a.polygon c).degree = c.degree :=
  List.length_map _

theorem evaluate_polygon (c : ControlPolygon ℝ) (t : ℝ) :
    (a.polygon c).evaluate t = a.point (c.evaluate t) := by
  rw [ControlPolygon.evaluate, apex_polygon, degree_polygon, ControlPolygon.evaluate]

theorem sample_polygon (c : ControlPolygon ℝ) (n : ℕ) :
    (a.polygon c).sample n = (c.sample n).map a.point := by
  simp only [ControlPolygon.sample, evaluate_polygon, last_polygon, List.map_append, List.map_cons,
    List.map_map, List.map_nil]
  rfl

theorem isDegenerate_polygon (c : ControlPolygon ℝ) :
    (a.polygon c).isDegenerate = c.isDegenerate := by
  have neighbours : (a.polygon c).toList.zip (a.polygon c).rest =
      (c.toList.zip c.rest).map (Prod.map a.point a.point) := by
    rw [← List.zip_map]
    rfl
  rw [ControlPolygon.isDegenerate, neighbours, List.all_map, ControlPolygon.isDegenerate]
  refine congrArg (List.all _) (funext fun s => ?_)
  simp only [Function.comp_apply, Prod.map_fst, Prod.map_snd, sub_lengthSquared_beq]

theorem bezier_isDegenerate (control : List (Point ℝ)) :
    Bezier.isDegenerate (control.map a.point) = Bezier.isDegenerate control := by
  cases control with
  | nil => rfl
  | cons p ps => exact a.isDegenerate_polygon ⟨p, ps⟩

/-- The image of a curve is sampled at the images of its samples. -/
theorem bezier_sample (control : List (Point ℝ)) (n : ℤ) :
    Bezier.sample (control.map a.point) n =
      (Bezier.sample control n).map (List.map a.point) := by
  rw [Bezier.sample, Bezier.sample]
  split
  · rfl
  · cases control with
    | nil => rfl
    | cons p ps => exact congrArg Except.ok (a.sample_polygon ⟨p, ps⟩ n.toNat)

end Affinity

/-! ### Affine maps -/

namespace Affine

theorem identity_apply : (identity : Affine ℝ).apply = id := by
  funext p
  ext
  · simp [identity, apply]
  · simp [identity, apply]

theorem isIdentity_iff (t : Affine ℝ) : t.isIdentity = true ↔ t = .identity := by
  obtain ⟨a, b, c, d, e, f⟩ := t
  change (a == 1 && (b == 0 && (c == 0 && (d == 1 && (e == 0 && f == 0))))) = true ↔ _
  simp [identity]

theorem apply_injective {t : Affine ℝ} (invertible : t.a * t.d - t.b * t.c ≠ 0) :
    Function.Injective t.apply := fun p q h => by
  obtain ⟨x, y⟩ := Point.ext_iff.mp h
  have x : t.a * p.x + t.c * p.y + t.e = t.a * q.x + t.c * q.y + t.e := x
  have y : t.b * p.x + t.d * p.y + t.f = t.b * q.x + t.d * q.y + t.f := y
  -- Cramer's rule for `p - q`.
  ext
  · exact mul_left_cancel₀ invertible (by linear_combination t.d * x - t.c * y)
  · exact mul_left_cancel₀ invertible (by linear_combination t.a * y - t.b * x)

theorem apply_lerp (t : Affine ℝ) (p q : Point ℝ) (s : ℝ) :
    (t.apply p).lerp (t.apply q) s = t.apply (p.lerp q s) := by
  ext
  · simp only [apply, Point.lerp_x, Point.lerp_y]
    ring
  · simp only [apply, Point.lerp_x, Point.lerp_y]
    ring

/-- An invertible map is an affinity. -/
noncomputable def affinity (t : Affine ℝ) (invertible : t.a * t.d - t.b * t.c ≠ 0) : Affinity where
  point := t.apply
  injective := apply_injective invertible
  lerp := t.apply_lerp

end Affine

/-- Over the reals, leaving the points of a polyline alone is no special case. -/
theorem Polyline.transform_eq (l : Polyline ℝ) (t : Affine ℝ) :
    l.transform t = ⟨t.apply l.start, l.rest.map t.apply, l.fill⟩ := by
  rw [transform]
  split
  · rw [(Affine.isIdentity_iff t).mp ‹_›]
    simp [Affine.identity_apply]
  · rfl

end BoardPlotter
