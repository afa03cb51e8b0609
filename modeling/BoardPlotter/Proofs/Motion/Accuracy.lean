import Mathlib.Tactic.FieldSimp
import BoardPlotter.Proofs.Geometry.Flattening
import BoardPlotter.Proofs.Motion.Board
import BoardPlotter.Proofs.Motion.Reach

/-!
# Accuracy on the board

A displacement becomes the third side of a triangle: its parts along the edges have the
lengths of its coordinates by the scales of the axes (`Board.offset_lengthSquared`). The
tolerance in the viewport is the accuracy by the greater scale (`Board.inViewport_eq`),
so along an axis the tolerance keeps within the accuracy. In other directions the angle
between the edges has its part (`Board.length_offset_le`, `Board.exists_longer`), of which
the tolerance takes no account: on a slanted board the accuracy that was asked for is not
kept (`Placement.accuracy_exceeded`).
-/

namespace BoardPlotter

open Point

/-! ### Lengths -/

namespace Vec3

theorem length_nonneg (v : Vec3 ℝ) : 0 ≤ v.length := Real.sqrt_nonneg _

theorem length_sq (v : Vec3 ℝ) : v.length ^ 2 = v.lengthSquared :=
  Real.sq_sqrt (add_nonneg (add_nonneg (mul_self_nonneg v.x) (mul_self_nonneg v.y))
    (mul_self_nonneg v.z))

theorem x_le_length (v : Vec3 ℝ) : v.x ≤ v.length := by
  refine Real.le_sqrt_of_sq_le ?_
  rw [lengthSquared, dot]
  nlinarith [mul_self_nonneg v.y, mul_self_nonneg v.z]

theorem length_le_iff {v : Vec3 ℝ} {r : ℝ} (hr : 0 ≤ r) :
    v.length ≤ r ↔ v.lengthSquared ≤ r ^ 2 := Real.sqrt_le_left hr

theorem lengthSquared_pos {v : Vec3 ℝ} (h : v ≠ ⟨0, 0, 0⟩) : 0 < v.lengthSquared := by
  obtain ⟨unit, k, positive, scaled⟩ := normalize_spec h
  have squares : v.lengthSquared = k ^ 2 * v.normalize.dot v.normalize := by
    nth_rewrite 1 [scaled]
    simp only [lengthSquared, dot, scale]
    ring
  rw [squares, unit]
  positivity

theorem length_scale (v : Vec3 ℝ) (k : ℝ) : (v.scale k).length = |k| * v.length := by
  have squares : (v.scale k).lengthSquared = k ^ 2 * v.lengthSquared := by
    simp only [lengthSquared, dot, scale]
    ring
  change √_ = |k| * √_
  rw [squares, Real.sqrt_mul (sq_nonneg k), Real.sqrt_sq_eq_abs]

/-- The part of two lengths that the product leaves is the cross product. -/
theorem cross_lengthSquared (p q : Vec3 ℝ) :
    (p.cross q).lengthSquared = p.lengthSquared * q.lengthSquared - p.dot q ^ 2 := by
  simp only [lengthSquared, dot, cross]
  ring

/-- The segment between two places. -/
def segment (p q : Vec3 ℝ) : Set (Vec3 ℝ) := (fun t => p + (q - p).scale t) '' Set.Icc 0 1

end Vec3

namespace Board

/-- The cosine of the angle between the edges. -/
noncomputable def cosine (b : Board ℝ) : ℝ :=
  b.edgeX.dot b.edgeY / (b.edgeX.length * b.edgeY.length)

/-- The greater scale of the two axes. -/
noncomputable def scaleMax (b : Board ℝ) : ℝ := max b.scaleX b.scaleY

/-- By this factor of the greater scale a length may grow on the board. -/
noncomputable def stretch (b : Board ℝ) : ℝ := √(1 + |b.cosine|)

theorem offset_scale (b : Board ℝ) (d : Point ℝ) (k : ℝ) :
    b.offset (d.scale k) = (b.offset d).scale k := by
  have part (i j : ℝ) : i * (d.x * k / b.width) + j * (d.y * k / b.height) =
      (i * (d.x / b.width) + j * (d.y / b.height)) * k := by ring
  exact Vec3.mk.injEq .. ▸ ⟨part _ _, part _ _, part _ _⟩

theorem place_sub (b : Board ℝ) (p q : Point ℝ) : b.place p - b.place q = b.offset (p - q) := by
  have part (o i j : ℝ) : o + (i * (p.x / b.width) + j * (p.y / b.height)) -
      (o + (i * (q.x / b.width) + j * (q.y / b.height))) =
        i * ((p.x - q.x) / b.width) + j * ((p.y - q.y) / b.height) := by ring
  exact Vec3.mk.injEq .. ▸ ⟨part _ _ _, part _ _ _, part _ _ _⟩

/-- A segment is placed as the segment between the places of its ends. -/
theorem place_segment (b : Board ℝ) (p q : Point ℝ) :
    b.place '' Point.segment p q = Vec3.segment (b.place p) (b.place q) := by
  rw [Point.segment, Vec3.segment, Set.image_image]
  refine Set.image_congr fun t _ => ?_
  have moved : b.place (along p q t) = b.place p + b.offset ((q - p).scale t) := by
    have part (o i j : ℝ) : o + (i * ((p.x + (q.x - p.x) * t) / b.width) +
        j * ((p.y + (q.y - p.y) * t) / b.height)) =
          o + (i * (p.x / b.width) + j * (p.y / b.height)) +
            (i * ((q.x - p.x) * t / b.width) + j * ((q.y - p.y) * t / b.height)) := by ring
    exact Vec3.mk.injEq .. ▸ ⟨part _ _ _, part _ _ _, part _ _ _⟩
  rw [moved, offset_scale, place_sub]

/-- Displacements grow in proportion, so one of any length grows as one does. -/
theorem exists_of_length (b : Board ℝ) {d : Point ℝ} (long : 0 < d.length) {r : ℝ}
    (positive : 0 < r) : ∃ d' : Point ℝ, d'.length = r ∧
      (b.offset d').length = r / d.length * (b.offset d).length := by
  have reach : 0 < r / d.length := div_pos positive long
  refine ⟨d.scale (r / d.length), ?_, ?_⟩
  · rw [length_scale, abs_of_pos reach, div_mul_cancel₀ _ long.ne']
  · rw [offset_scale, Vec3.length_scale, abs_of_pos reach]

variable {b : Board ℝ} (skew : b.edgeX.cross b.edgeY ≠ ⟨0, 0, 0⟩)

include skew

theorem edges_pos : 0 < b.edgeX.length ∧ 0 < b.edgeY.length := by
  have left : b.edgeX ≠ ⟨0, 0, 0⟩ := fun zero => skew (by rw [zero]; simp [Vec3.cross])
  have right : b.edgeY ≠ ⟨0, 0, 0⟩ := fun zero => skew (by rw [zero]; simp [Vec3.cross])
  exact ⟨Real.sqrt_pos.mpr (Vec3.lengthSquared_pos left),
    Real.sqrt_pos.mpr (Vec3.lengthSquared_pos right)⟩

/-- Edges that are not parallel make an angle with a cosine below one. -/
theorem stretch_lt : b.stretch < √2 := by
  obtain ⟨left, right⟩ := edges_pos skew
  have area := Vec3.lengthSquared_pos skew
  rw [Vec3.cross_lengthSquared, ← Vec3.length_sq, ← Vec3.length_sq, ← mul_pow, sub_pos,
    sq_lt_sq, abs_of_pos (mul_pos left right)] at area
  have cosine_lt : |b.cosine| < 1 := by
    rwa [cosine, abs_div, abs_of_pos (mul_pos left right), div_lt_one (mul_pos left right)]
  exact Real.sqrt_lt_sqrt (by positivity) (by linarith)

theorem cosine_eq_zero_iff : b.cosine = 0 ↔ b.edgeX.dot b.edgeY = 0 := by
  obtain ⟨left, right⟩ := edges_pos skew
  rw [cosine, div_eq_zero_iff, or_iff_left (mul_pos left right).ne']

theorem scales_pos : 0 < b.scaleX ∧ 0 < b.scaleY := by
  obtain ⟨left, right⟩ := edges_pos skew
  exact ⟨div_pos left b.width_pos, div_pos right b.height_pos⟩

theorem scaleMax_pos : 0 < b.scaleMax := lt_max_of_lt_left (scales_pos skew).1

/-- **A length on the board is divided by the greater scale.** -/
theorem inViewport_eq (length : ℝ) : b.inViewport length = .ok (length / b.scaleMax) := by
  obtain ⟨left, right⟩ := edges_pos skew
  obtain ⟨fine, coarse⟩ := scales_pos skew
  have x : b.width / b.edgeX.length = 1 / b.scaleX := (one_div_div _ _).symm
  have y : b.height / b.edgeY.length = 1 / b.scaleY := (one_div_div _ _).symm
  have smaller : min (1 / b.scaleX) (1 / b.scaleY) = 1 / b.scaleMax := by
    rw [scaleMax]
    rcases le_total b.scaleX b.scaleY with le | le
    · rw [max_eq_right le, min_eq_right (one_div_le_one_div_of_le fine le)]
    · rw [max_eq_left le, min_eq_left (one_div_le_one_div_of_le coarse le)]
  simp only [inViewport, Scalar.div?, beq_iff_eq, left.ne', right.ne', if_false]
  change Except.ok _ = _
  rw [Exact.smaller_eq, x, y, smaller, mul_one_div]

/-- **The law of cosines on the board.** -/
theorem offset_lengthSquared (d : Point ℝ) : (b.offset d).lengthSquared =
    (b.scaleX * d.x) ^ 2 + (b.scaleY * d.y) ^ 2 +
      2 * b.cosine * ((b.scaleX * d.x) * (b.scaleY * d.y)) := by
  obtain ⟨left, right⟩ := edges_pos skew
  have expanded : (b.offset d).lengthSquared = b.edgeX.lengthSquared * (d.x / b.width) ^ 2 +
      b.edgeY.lengthSquared * (d.y / b.height) ^ 2 +
        2 * b.edgeX.dot b.edgeY * ((d.x / b.width) * (d.y / b.height)) := by
    change Vec3.lengthSquared ⟨_, _, _⟩ = _
    simp only [Vec3.lengthSquared, Vec3.dot, Vec3.scale]
    ring
  have width := b.width_pos
  have height := b.height_pos
  rw [expanded, ← Vec3.length_sq, ← Vec3.length_sq, cosine, scaleX, scaleY]
  field_simp

/-- Without their angle, the parts along the edges are bounded by the greater scale. -/
theorem parts_le (d : Point ℝ) :
    (b.scaleX * d.x) ^ 2 + (b.scaleY * d.y) ^ 2 ≤ (b.scaleMax * d.length) ^ 2 := by
  obtain ⟨fine, coarse⟩ := scales_pos skew
  have x : b.scaleX ^ 2 ≤ b.scaleMax ^ 2 := pow_le_pow_left₀ fine.le (le_max_left _ _) 2
  have y : b.scaleY ^ 2 ≤ b.scaleMax ^ 2 := pow_le_pow_left₀ coarse.le (le_max_right _ _) 2
  have hd : d.length ^ 2 = d.x ^ 2 + d.y ^ 2 := Real.sq_sqrt (by positivity)
  rw [mul_pow, mul_pow, mul_pow, hd, mul_add]
  exact add_le_add (mul_le_mul_of_nonneg_right x (sq_nonneg _))
    (mul_le_mul_of_nonneg_right y (sq_nonneg _))

theorem length_offset_le_of_axis {d : Point ℝ} (axis : d.x = 0 ∨ d.y = 0) :
    (b.offset d).length ≤ b.scaleMax * d.length := by
  have nonneg : 0 ≤ b.scaleMax * d.length :=
    mul_nonneg (scaleMax_pos skew).le (Real.sqrt_nonneg _)
  have apart : (b.scaleX * d.x) * (b.scaleY * d.y) = 0 := by
    rcases axis with zero | zero <;> rw [zero] <;> ring
  rw [Vec3.length_le_iff nonneg, offset_lengthSquared skew, apart, mul_zero, add_zero]
  exact parts_le skew d

/-- **What a displacement grows to at most.** -/
theorem length_offset_le (d : Point ℝ) :
    (b.offset d).length ≤ b.scaleMax * d.length * b.stretch := by
  have nonneg : 0 ≤ b.scaleMax * d.length :=
    mul_nonneg (scaleMax_pos skew).le (Real.sqrt_nonneg _)
  have factor : 0 ≤ 1 + |b.cosine| := by positivity
  have stretches : 0 ≤ b.stretch := Real.sqrt_nonneg _
  have parts := parts_le skew d
  rw [Vec3.length_le_iff (mul_nonneg nonneg stretches),
    offset_lengthSquared skew, mul_pow _ b.stretch, stretch, Real.sq_sqrt factor]
  have angle : 2 * b.cosine * ((b.scaleX * d.x) * (b.scaleY * d.y)) ≤
      |b.cosine| * ((b.scaleX * d.x) ^ 2 + (b.scaleY * d.y) ^ 2) := by
    have mean : |2 * ((b.scaleX * d.x) * (b.scaleY * d.y))| ≤
        (b.scaleX * d.x) ^ 2 + (b.scaleY * d.y) ^ 2 :=
      abs_le.mpr ⟨by nlinarith [sq_nonneg (b.scaleX * d.x + b.scaleY * d.y)],
        by nlinarith [sq_nonneg (b.scaleX * d.x - b.scaleY * d.y)]⟩
    calc 2 * b.cosine * ((b.scaleX * d.x) * (b.scaleY * d.y))
        = b.cosine * (2 * ((b.scaleX * d.x) * (b.scaleY * d.y))) := by ring
      _ ≤ |b.cosine * (2 * ((b.scaleX * d.x) * (b.scaleY * d.y)))| := le_abs_self _
      _ = |b.cosine| * |2 * ((b.scaleX * d.x) * (b.scaleY * d.y))| := abs_mul _ _
      _ ≤ _ := mul_le_mul_of_nonneg_left mean (abs_nonneg _)
  have whole := mul_le_mul_of_nonneg_right parts factor
  linarith

/-- With equal scales, a displacement half way between the axes grows as much. -/
theorem exists_stretched (even : b.scaleX = b.scaleY) {r : ℝ} (positive : 0 < r) :
    ∃ d : Point ℝ, d.length = r ∧ (b.offset d).length = b.scaleMax * r * b.stretch := by
  have fine := (scales_pos skew).1
  obtain ⟨s, unit, turned⟩ : ∃ s : ℝ, s ^ 2 = 1 ∧ s * b.cosine = |b.cosine| := by
    rcases le_total 0 b.cosine with sharp | blunt
    · exact ⟨1, one_pow 2, by rw [abs_of_nonneg sharp, one_mul]⟩
    · exact ⟨-1, by norm_num, by rw [abs_of_nonpos blunt, neg_one_mul]⟩
  have between : (⟨1, s⟩ : Point ℝ).length = √2 := by
    rw [length_eq, unit]
    norm_num
  have long : 0 < (⟨1, s⟩ : Point ℝ).length := between ▸ Real.sqrt_pos.mpr two_pos
  have grown : (b.offset ⟨1, s⟩).length = b.scaleMax * √2 * b.stretch := by
    have factor : 0 ≤ 1 + |b.cosine| := by positivity
    have squares : (b.offset ⟨1, s⟩).lengthSquared = (b.scaleMax * √2 * b.stretch) ^ 2 := by
      rw [offset_lengthSquared skew, scaleMax, ← even, max_self, mul_pow _ b.stretch,
        mul_pow _ √2, Real.sq_sqrt zero_le_two, stretch, Real.sq_sqrt factor]
      linear_combination b.scaleX ^ 2 * unit + 2 * b.scaleX ^ 2 * turned
    have nonneg : 0 ≤ b.scaleMax * √2 * b.stretch :=
      mul_nonneg (mul_nonneg (scaleMax_pos skew).le (Real.sqrt_nonneg 2))
        (Real.sqrt_nonneg _)
    change √_ = _
    rw [squares, Real.sqrt_sq nonneg]
  obtain ⟨d, within, same⟩ := b.exists_of_length long positive
  refine ⟨d, within, ?_⟩
  rw [same, grown, between]
  have root : √(2 : ℝ) ≠ 0 := (Real.sqrt_pos.mpr two_pos).ne'
  field_simp

/-- **Unless the edges are perpendicular, some displacement grows more** than the greater
scale says: the one that turns from its axis as far as the other edge does. -/
theorem exists_longer (slanted : b.edgeX.dot b.edgeY ≠ 0) :
    ∃ d, 0 < d.length ∧ b.scaleMax * d.length < (b.offset d).length := by
  obtain ⟨fine, coarse⟩ := scales_pos skew
  have turn : 0 < b.cosine ^ 2 := by
    have := mt (cosine_eq_zero_iff skew).mp slanted
    positivity
  have grows {d : Point ℝ} (long : 0 < d.x ^ 2 + d.y ^ 2)
      (more : b.scaleMax ^ 2 * (d.x ^ 2 + d.y ^ 2) < (b.offset d).lengthSquared) :
      ∃ d : Point ℝ, 0 < d.length ∧ b.scaleMax * d.length < (b.offset d).length := by
    refine ⟨d, Real.sqrt_pos.mpr long, lt_of_pow_lt_pow_left₀ 2 (Vec3.length_nonneg _) ?_⟩
    rwa [Vec3.length_sq, mul_pow, length_eq, Real.sq_sqrt long.le]
  rcases le_total b.scaleX b.scaleY with le | le
  · refine grows (d := ⟨b.scaleX * b.cosine, b.scaleY⟩) (by positivity) ?_
    rw [offset_lengthSquared skew, scaleMax, max_eq_right le, ← sub_pos]
    have excess : 0 < b.cosine ^ 2 * b.scaleX ^ 2 * (b.scaleX ^ 2 + b.scaleY ^ 2) := by positivity
    linarith
  · refine grows (d := ⟨b.scaleX, b.scaleY * b.cosine⟩) (by positivity) ?_
    rw [offset_lengthSquared skew, scaleMax, max_eq_left le, ← sub_pos]
    have excess : 0 < b.cosine ^ 2 * b.scaleY ^ 2 * (b.scaleX ^ 2 + b.scaleY ^ 2) := by positivity
    linarith

/-- The tolerance for an accuracy keeps it in every direction precisely on boards with
perpendicular edges. -/
theorem accuracy_kept_iff {accuracy : ℝ} (positive : 0 < accuracy) :
    (∀ d : Point ℝ, d.length ≤ accuracy / b.scaleMax → (b.offset d).length ≤ accuracy) ↔
      b.edgeX.dot b.edgeY = 0 := by
  have scaled := scaleMax_pos skew
  constructor
  · intro kept
    by_contra slanted
    obtain ⟨d, long, longer⟩ := exists_longer skew slanted
    obtain ⟨d', within, same⟩ := b.exists_of_length long (div_pos positive scaled)
    have bound := kept d' within.le
    have beyond := mul_lt_mul_of_pos_left longer (div_pos (div_pos positive scaled) long)
    have whole : accuracy / b.scaleMax / d.length * (b.scaleMax * d.length) = accuracy := by
      field_simp
    linarith
  · intro perpendicular d within
    have bound := length_offset_le skew d
    rw [stretch, (cosine_eq_zero_iff skew).mpr perpendicular, abs_zero, add_zero, Real.sqrt_one,
      mul_one] at bound
    rw [le_div_iff₀' scaled] at within
    exact bound.trans within

end Board

namespace Placement

/-- **What the tolerance of a placement keeps on the board.** A viewport is placed on every
board with edges that span a plane, and its tolerance is the accuracy in units of the
viewport. What is within the tolerance is on the board within the accuracy by the factor
`Board.stretch`, which is less than the root of two and is reached where both axes have one
scale; along an axis it is within the accuracy. It is so in all directions precisely if the
edges are perpendicular. A drawing that keeps the tolerance to another keeps the same bound
to it on the board, where segments are placed as segments. -/
theorem deviation_on_board (c : Config ℝ) (v : Viewport ℝ) (wide : 0 < v.width)
    (high : 0 < v.height) (skew : c.corners.edgeX.cross c.corners.edgeY ≠ ⟨0, 0, 0⟩)
    (positive : 0 < c.accuracy) :
    ∃ p, ofViewport c v = .ok p ∧
      Board.ofCorners v.width v.height c.corners.origin c.corners.endX c.corners.endY =
        .ok p.board ∧
      p.board.inViewport c.accuracy = .ok p.tolerance ∧ 0 < p.tolerance ∧
      (∀ d : Point ℝ, d.length ≤ p.tolerance →
        (p.board.offset d).length ≤ c.accuracy * p.board.stretch) ∧
      p.board.stretch < √2 ∧
      (p.board.scaleX = p.board.scaleY → ∃ d : Point ℝ, d.length = p.tolerance ∧
        (p.board.offset d).length = c.accuracy * p.board.stretch) ∧
      (∀ d : Point ℝ, d.length ≤ p.tolerance → d.x = 0 ∨ d.y = 0 →
        (p.board.offset d).length ≤ c.accuracy) ∧
      ((∀ d : Point ℝ, d.length ≤ p.tolerance → (p.board.offset d).length ≤ c.accuracy) ↔
        p.board.edgeX.dot p.board.edgeY = 0) ∧
      (∀ a b, p.board.place '' Point.segment a b =
        Vec3.segment (p.board.place a) (p.board.place b)) ∧
      ∀ drawing other : Set (Point ℝ),
        (∀ a ∈ drawing, ∃ b ∈ other, (a - b).length ≤ p.tolerance) →
        ∀ q ∈ p.board.place '' drawing, ∃ r ∈ p.board.place '' other,
          (q - r).length ≤ c.accuracy * p.board.stretch := by
  have made : Board.ofCorners v.width v.height c.corners.origin c.corners.endX c.corners.endY =
      .ok ⟨v.width, v.height, c.corners.origin, c.corners.edgeX, c.corners.edgeY, wide.not_ge,
        high.not_ge⟩ := dif_neg (not_or.mpr ⟨wide.not_ge, high.not_ge⟩)
  generalize hb : Board.mk v.width v.height c.corners.origin c.corners.edgeX
    c.corners.edgeY wide.not_ge high.not_ge = b at made
  replace skew : b.edgeX.cross b.edgeY ≠ ⟨0, 0, 0⟩ := by rwa [← hb]
  have scaled := Board.scaleMax_pos skew
  have inViewport (r : ℝ) := Board.inViewport_eq skew r
  have bound (d : Point ℝ) (within : d.length ≤ c.accuracy / b.scaleMax) :
      (b.offset d).length ≤ c.accuracy * b.stretch := by
    rw [le_div_iff₀' scaled] at within
    exact (Board.length_offset_le skew d).trans
      (mul_le_mul_of_nonneg_right within (Real.sqrt_nonneg _))
  refine ⟨⟨v, b, c.accuracy / b.scaleMax, c.fillSpacing / b.scaleMax⟩, ?_, made, inViewport _,
    div_pos positive scaled, bound, Board.stretch_lt skew, fun even => ?_,
    fun d within axis => ?_,
    Board.accuracy_kept_iff skew positive, b.place_segment, ?_⟩
  · rw [ofViewport, made]
    change (do
      let tolerance ← (b.inViewport c.accuracy).mapError ConversionError.fault
      let fillStep ← (b.inViewport c.fillSpacing).mapError ConversionError.fault
      return (⟨v, b, tolerance, fillStep⟩ : Placement ℝ)) = _
    rw [inViewport, inViewport]
    rfl
  · have reached := Board.exists_stretched skew even (div_pos positive scaled)
    rwa [mul_div_cancel₀ _ scaled.ne'] at reached
  · rw [le_div_iff₀' scaled] at within
    exact (Board.length_offset_le_of_axis skew axis).trans within
  · rintro drawing other keeps _ ⟨a, ha, rfl⟩
    obtain ⟨q, hq, near⟩ := keeps a ha
    refine ⟨_, ⟨q, hq, rfl⟩, ?_⟩
    rw [Board.place_sub]
    exact bound _ near

/-- A square viewport on a rhombus whose edges are near each other. -/
theorem deviation_on_board_rhombus :
    let c : Config ℝ :=
      ⟨7, 7, ⟨5, 40, 120⟩, ⟨⟨0, 0, 0⟩, ⟨25, 0, 0⟩, ⟨24, 7, 0⟩⟩, 100, 100, 16, none⟩
    ∃ p, ofViewport c ⟨25, 25, .identity⟩ = .ok p ∧ p.board.inViewport 7 = .ok p.tolerance ∧
      ∀ d : Point ℝ, d.length ≤ p.tolerance → (p.board.offset d).length ≤ 7 * p.board.stretch := by
  intro c
  have skew : c.corners.edgeX.cross c.corners.edgeY ≠ ⟨0, 0, 0⟩ := by
    intro flat
    have z : (25 - 0) * (7 - 0) - (0 - 0) * (24 - 0) = (0 : ℝ) := congrArg Vec3.z flat
    norm_num at z
  obtain ⟨p, placed, -, tolerance, -, bound, -⟩ := deviation_on_board c ⟨25, 25, .identity⟩
    (by norm_num) (by norm_num) skew (by norm_num [c])
  exact ⟨p, placed, tolerance, bound⟩

/-- There the tolerance for an accuracy of seven is seven, and a displacement of this
length becomes one of more than nine. -/
theorem accuracy_exceeded :
    ∃ board : Board ℝ, Board.ofCorners 25 25 ⟨0, 0, 0⟩ ⟨25, 0, 0⟩ ⟨24, 7, 0⟩ = .ok board ∧
      board.edgeX.cross board.edgeY ≠ ⟨0, 0, 0⟩ ∧ board.inViewport 7 = .ok 7 ∧
      (⟨42 / 10, 56 / 10⟩ : Point ℝ).length = 7 ∧
      9 < (board.offset ⟨42 / 10, 56 / 10⟩).length := by
  let rhombus : Board ℝ :=
    ⟨25, 25, ⟨0, 0, 0⟩, ⟨25, 0, 0⟩, ⟨24, 7, 0⟩, by norm_num, by norm_num⟩
  have made : Board.ofCorners 25 25 ⟨0, 0, 0⟩ ⟨25, 0, 0⟩ ⟨24, 7, 0⟩ = .ok rhombus := by
    rw [Board.ofCorners, dif_neg (by norm_num)]
    change Except.ok (Board.mk 25 25 _ ⟨25 - 0, 0 - 0, 0 - 0⟩ ⟨24 - 0, 7 - 0, 0 - 0⟩ _ _) = _
    simp only [sub_zero, rhombus]
  have skew : rhombus.edgeX.cross rhombus.edgeY ≠ ⟨0, 0, 0⟩ := by
    norm_num [rhombus, Vec3.cross]
  have root {x : ℝ} (r : ℝ) (positive : 0 ≤ r) (square : x = r ^ 2) : √x = r := by
    rw [square, Real.sqrt_sq positive]
  have right : rhombus.edgeX.length = 25 := root 25 (by norm_num) (by
    norm_num [rhombus, Vec3.lengthSquared, Vec3.dot])
  have up : rhombus.edgeY.length = 25 := root 25 (by norm_num) (by
    norm_num [rhombus, Vec3.lengthSquared, Vec3.dot])
  have scale : rhombus.scaleMax = 1 := by
    rw [Board.scaleMax, Board.scaleX, Board.scaleY, right, up]
    norm_num [rhombus]
  refine ⟨rhombus, made, skew, ?_, root 7 (by norm_num) (by norm_num), ?_⟩
  · rw [Board.inViewport_eq skew, scale, div_one]
  · have x : (rhombus.offset ⟨42 / 10, 56 / 10⟩).x =
        25 * (42 / 10 / 25) + 24 * (56 / 10 / 25) := rfl
    refine lt_of_lt_of_le ?_ (Vec3.x_le_length _)
    rw [x]
    norm_num

end Placement

end BoardPlotter
