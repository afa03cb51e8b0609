import Mathlib.Tactic.Linarith
import BoardPlotter.Proofs.Plan.EvenOdd

/-!
# The direction of the rays

The even-odd rule counts the sides that the ray of a point meets. Which ray is
taken makes no difference off the outline (`Axes.odd_precedes_iff`).

Take two rays with less than half a turn from the one to the other. Of a side
that keeps off their origin, just one of the rays is met if just one end lies in
the sector between them (`Ray.crossed_differ`, on the coordinates that say to
which side of either ray a point lies). So the numbers of sides met differ by the
changes in and out of the sector, which round a closed outline are even.
-/

namespace BoardPlotter

open Point

/-! ### A segment and two rays from the origin -/

namespace Ray

/-- Which numbers count as negative: zero counts or not. -/
def Below (zero : Prop) (x : ℝ) : Prop := x < 0 ∨ zero ∧ x = 0

/-- The segment from `(pa, qa)` to `(pb, qb)` keeps off the origin. -/
def Apart (pa qa pb qb : ℝ) : Prop := ¬ (pa * qb = qa * pb ∧ pa * pb ≤ 0 ∧ qa * qb ≤ 0)

/-- A segment that turns by `k` about the origin meets the ray: it changes from the
one side of its line, `P`, to the other, and in the sense that leads over the ray. -/
def Crossed (P P' : Prop) (k : ℝ) : Prop := (P ∧ ¬ P' ∧ k < 0) ∨ (¬ P ∧ P' ∧ 0 < k)

theorem crossed_scale {P P' : Prop} {d k : ℝ} (hd : 0 < d) :
    Crossed P P' (d * k) ↔ Crossed P P' k := by
  have falls : d * k < 0 ↔ k < 0 := by
    rw [← neg_pos, ← mul_neg, mul_pos_iff_of_pos_left hd, neg_pos]
  rw [Crossed, Crossed, falls, mul_pos_iff_of_pos_left hd]

variable {z z' : Prop} {x y pa qa pb qb : ℝ}

theorem Below.nonpos (h : Below z x) : x ≤ 0 := by
  rcases h with h | ⟨-, h⟩
  · exact h.le
  · exact h.le

theorem nonneg_of_not_below (h : ¬ Below z x) : 0 ≤ x := not_lt.mp fun negative => h (.inl negative)

theorem Below.lt (hx : Below z x) (hy : ¬ Below z y) : x < y := by
  refine lt_of_le_of_ne (hx.nonpos.trans (nonneg_of_not_below hy)) ?_
  rintro rfl
  exact hy hx

theorem Apart.swap (apart : Apart pa qa pb qb) : Apart pb qb pa qa :=
  fun h => apart ⟨by linarith [h.1], by linarith [h.2.1], by linarith [h.2.2]⟩

/-- From the first half of a turn round the sector into it, and out of it onwards,
leads to the left. -/
theorem turn_pos (apart : Apart pa qa pb qb) (hqa : ¬ Below z' qa) (hpb : Below z pb)
    (same : Below z pa ↔ Below z' qb) : 0 < pa * qb - qa * pb := by
  have h₂ := mul_nonpos_of_nonneg_of_nonpos (nonneg_of_not_below hqa) hpb.nonpos
  by_contra h
  by_cases hpa : Below z pa
  · have hqb := same.mp hpa
    have h₁ := mul_nonneg_of_nonpos_of_nonpos hpa.nonpos hqb.nonpos
    have h₃ := mul_nonpos_of_nonneg_of_nonpos (nonneg_of_not_below hqa) hqb.nonpos
    refine apart ⟨by linarith, ?_, h₃⟩
    rcases mul_eq_zero.mp (show pa * qb = 0 by linarith) with zero | zero
    · rw [zero, zero_mul]
    · have nonzero : qa ≠ 0 := by linarith [hqb.lt hqa]
      rw [(mul_eq_zero.mp (show qa * pb = 0 by linarith)).resolve_left nonzero, mul_zero]
  · have hqb : ¬ Below z' qb := fun h => hpa (same.mpr h)
    have h₁ := mul_nonneg (nonneg_of_not_below hpa) (nonneg_of_not_below hqb)
    have h₃ := mul_nonpos_of_nonneg_of_nonpos (nonneg_of_not_below hpa) hpb.nonpos
    refine apart ⟨by linarith, h₃, ?_⟩
    rcases mul_eq_zero.mp (show qa * pb = 0 by linarith) with zero | zero
    · rw [zero, zero_mul]
    · have nonzero : pa ≠ 0 := by linarith [hpb.lt hpa]
      rw [(mul_eq_zero.mp (show pa * qb = 0 by linarith)).resolve_left nonzero, mul_zero]

/-- On the far side of the origin it does not lead to the right. -/
theorem turn_nonneg (hqa : Below z' qa) (hpb : ¬ Below z pb)
    (same : Below z pa ↔ Below z' qb) : 0 ≤ pa * qb - qa * pb := by
  have h₂ := mul_nonpos_of_nonpos_of_nonneg hqa.nonpos (nonneg_of_not_below hpb)
  by_cases hpa : Below z pa
  · linarith [mul_nonneg_of_nonpos_of_nonpos hpa.nonpos (same.mp hpa).nonpos]
  · linarith [mul_nonneg (nonneg_of_not_below hpa)
      (nonneg_of_not_below fun h => hpa (same.mpr h))]

/-- A segment that changes sides of both lines passes the origin on one side. -/
theorem turn_ne (apart : Apart pa qa pb qb) (hp : Below z pa ↔ ¬ Below z pb)
    (hq : Below z' qa ↔ ¬ Below z' qb) : pa * qb - qa * pb ≠ 0 := by
  have opposite {w : Prop} {x y : ℝ} (h : Below w x ↔ ¬ Below w y) : x * y ≤ 0 := by
    by_cases hx : Below w x
    · exact mul_nonpos_of_nonpos_of_nonneg hx.nonpos (nonneg_of_not_below (h.mp hx))
    · have hy : Below w y := not_not.mp fun hy => hx (h.mpr hy)
      exact mul_nonpos_of_nonneg_of_nonpos (nonneg_of_not_below hx) hy.nonpos
  exact fun zero => apart ⟨sub_eq_zero.mp zero, opposite hp, opposite hq⟩

/-- **Just one of two rays is met if just one end lies in the sector between.** -/
theorem crossed_differ (apart : Apart pa qa pb qb) :
    ¬ (Below z pa ∧ ¬ Below z' qa ↔ Below z pb ∧ ¬ Below z' qb) ↔
      ¬ (Crossed (Below z pa) (Below z pb) (pa * qb - qa * pb) ↔
        Crossed (Below z' qa) (Below z' qb) (pa * qb - qa * pb)) := by
  have back : pb * qa - qb * pa = -(pa * qb - qa * pb) := by ring
  have pos : ¬ Below z' qa → Below z pb → (Below z pa ↔ Below z' qb) → 0 < pa * qb - qa * pb :=
    turn_pos apart
  have neg : ¬ Below z' qb → Below z pa → (Below z pb ↔ Below z' qa) → 0 < pb * qa - qb * pa :=
    turn_pos apart.swap
  have nonneg : Below z' qa → ¬ Below z pb → (Below z pa ↔ Below z' qb) →
    0 ≤ pa * qb - qa * pb := turn_nonneg
  have nonpos : Below z' qb → ¬ Below z pa → (Below z pb ↔ Below z' qa) →
    0 ≤ pb * qa - qb * pa := turn_nonneg
  have ne : (Below z pa ↔ ¬ Below z pb) → (Below z' qa ↔ ¬ Below z' qb) →
    pa * qb - qa * pb ≠ 0 := turn_ne apart
  rw [back] at neg nonpos
  unfold Crossed
  generalize pa * qb - qa * pb = k at *
  -- What is left is a case for each pair of the four sectors about the origin.
  grind

/-- A segment that does not keep off the origin passes through it. -/
theorem exists_zero_of_not_apart (h : ¬ Apart pa qa pb qb) :
    ∃ t ∈ Set.Icc (0 : ℝ) 1, pa + (pb - pa) * t = 0 ∧ qa + (qb - qa) * t = 0 := by
  obtain ⟨same, hp, hq⟩ := not_not.mp h
  have between {x y : ℝ} (hxy : x * y ≤ 0) (ne : x - y ≠ 0) :
      x / (x - y) ∈ Set.Icc (0 : ℝ) 1 := by
    have positive : 0 < (x - y) * (x - y) := mul_self_pos.mpr ne
    have ratio : x / (x - y) = x * (x - y) / ((x - y) * (x - y)) := by field_simp
    rw [ratio]
    refine ⟨div_nonneg ?_ positive.le, (div_le_one positive).mpr ?_⟩
    · linarith [mul_self_nonneg x]
    · linarith [mul_self_nonneg y]
  have both_zero {x y : ℝ} (hxy : x * y ≤ 0) (eq : x - y = 0) : x = 0 ∧ y = 0 := by
    obtain rfl := sub_eq_zero.mp eq
    exact and_self_iff.mpr (mul_self_eq_zero.mp (le_antisymm hxy (mul_self_nonneg x)))
  by_cases steep : pa - pb = 0
  · obtain ⟨rfl, rfl⟩ := both_zero hp steep
    by_cases level : qa - qb = 0
    · obtain ⟨rfl, rfl⟩ := both_zero hq level
      exact ⟨0, by simp, by simp, by simp⟩
    · refine ⟨qa / (qa - qb), between hq level, by simp, ?_⟩
      field_simp
      ring
  · refine ⟨pa / (pa - pb), between hp steep, ?_, ?_⟩
    · field_simp
      ring
    · field_simp
      linarith

end Ray

open Ray

/-! ### The ray of a point -/

namespace Axes

/-- How far a point lies to the left of another, seen along the lines. -/
noncomputable def left (axes : Axes ℝ) (q p : Point ℝ) : ℝ := axes.along.cross (p - q)

/-- To the right of a point, seen along the lines. The points of its own line count
as the orientation of the axes says. -/
def OnRight (axes : Axes ℝ) (q p : Point ℝ) : Prop :=
  Below (0 < axes.along.cross axes.across) (axes.left q p)

namespace Orthonormal

variable {axes : Axes ℝ} (frame : axes.Orthonormal)
include frame

theorem turn_eq : axes.along.cross axes.across = 1 ∨ axes.along.cross axes.across = -1 :=
  mul_self_eq_one_iff.mp frame.turn_mul_self

theorem height_eq (q p : Point ℝ) :
    p.dot axes.across - q.dot axes.across =
      axes.along.cross axes.across * axes.left q p := by
  obtain ⟨hx, hy⟩ := frame.across_eq
  simp only [dot, left]
  rw [hx, hy]
  simp only [cross, sub_x, sub_y]
  ring

theorem cross_eq (p r : Point ℝ) :
    p.cross r = axes.along.cross axes.across *
      (p.dot axes.along * r.dot axes.across - p.dot axes.across * r.dot axes.along) := by
  obtain ⟨hx, hy⟩ := frame.across_eq
  have turn := frame.turn_mul_self
  have unit := frame.along
  simp only [dot] at unit ⊢
  rw [hx, hy]
  simp only [cross] at turn ⊢
  linear_combination (p.y * r.x - p.x * r.y) * (turn * (axes.along.x ^ 2 + axes.along.y ^ 2) + unit)

theorem onRight_iff (q p : Point ℝ) :
    axes.OnRight q p ↔
      (p.dot axes.across ≤ q.dot axes.across ↔ 0 < axes.along.cross axes.across) := by
  have height := frame.height_eq q p
  rw [OnRight, Below]
  rcases frame.turn_eq with turn | turn
  · rw [turn, one_mul] at height
    rw [turn, ← height]
    simp [le_iff_lt_or_eq, sub_eq_zero]
  · rw [turn] at height
    have depth : axes.left q p = q.dot axes.across - p.dot axes.across := by linarith
    rw [turn, depth]
    norm_num

/-- A side precedes a point if it meets the ray that leads back from it. -/
theorem precedes_iff (q : Point ℝ) (s : Point ℝ × Point ℝ) :
    axes.Precedes q s ↔
      Crossed (axes.OnRight q s.1) (axes.OnRight q s.2) ((s.1 - q).cross (s.2 - q)) := by
  have before (spans : axes.Spans (q.dot axes.across) s) :
      (axes.meet (q.dot axes.across) s).dot axes.along < q.dot axes.along ↔
        axes.along.cross axes.across * (s.1 - q).cross (s.2 - q) /
          (s.2.dot axes.across - s.1.dot axes.across) < 0 := by
    have nonzero := spans.ne
    rw [← sub_neg, meet, dot_along, frame.cross_eq (s.1 - q) (s.2 - q), ← mul_assoc,
      frame.turn_mul_self]
    simp only [sub_dot]
    apply iff_of_eq
    congr 1
    field_simp
    ring
  rw [Precedes, and_congr_right before, spans_iff, Crossed, frame.onRight_iff, frame.onRight_iff,
    div_neg_iff]
  generalize (s.1 - q).cross (s.2 - q) = k
  rcases frame.turn_eq with turn | turn <;> rw [turn]
  · simp only [one_mul, zero_lt_one, iff_true]
    grind
  · have none : ¬ (0 : ℝ) < -1 := by norm_num
    simp only [neg_mul, one_mul, none, iff_false, Left.neg_pos_iff, Left.neg_neg_iff]
    grind

end Orthonormal

theorem left_along (axes : Axes ℝ) (q a b : Point ℝ) (t : ℝ) :
    axes.left q (Point.along a b t) =
      axes.left q a + (axes.left q b - axes.left q a) * t := by
  simp only [left, cross, sub_x, sub_y, along_x, along_y]
  ring

variable {A B : Axes ℝ} {q : Point ℝ}

/-- Only the point itself is neither to the left nor to the right in two
directions. -/
theorem eq_of_left_eq_zero (skew : A.along.cross B.along ≠ 0) {p : Point ℝ}
    (hA : A.left q p = 0) (hB : B.left q p = 0) : p = q := by
  simp only [left, cross, sub_x, sub_y] at skew hA hB
  ext
  · apply sub_eq_zero.mp
    apply (mul_eq_zero.mp _).resolve_left skew
    linear_combination B.along.x * hA - A.along.x * hB
  · apply sub_eq_zero.mp
    apply (mul_eq_zero.mp _).resolve_left skew
    linear_combination B.along.y * hA - A.along.y * hB

/-- In the sector between the rays of two directions. -/
def Sector (A B : Axes ℝ) (q p : Point ℝ) : Prop := A.OnRight q p ∧ ¬ B.OnRight q p

theorem precedes_differ (hA : A.Orthonormal) (hB : B.Orthonormal)
    (turn : 0 < A.along.cross B.along) {s : Point ℝ × Point ℝ} (off : q ∉ segment s.1 s.2) :
    ¬ (Sector A B q s.1 ↔ Sector A B q s.2) ↔ ¬ (A.Precedes q s ↔ B.Precedes q s) := by
  have apart : Apart (A.left q s.1) (B.left q s.1) (A.left q s.2) (B.left q s.2) := by
    by_contra h
    obtain ⟨t, ht, zero, zero'⟩ := exists_zero_of_not_apart h
    rw [← left_along] at zero zero'
    exact off ⟨t, ht, eq_of_left_eq_zero turn.ne' zero zero'⟩
  have scaled : A.left q s.1 * B.left q s.2 - B.left q s.1 * A.left q s.2 =
      A.along.cross B.along * (s.1 - q).cross (s.2 - q) := by
    simp only [left, cross, sub_x, sub_y]
    ring
  have met := hA.precedes_iff q s
  have met' := hB.precedes_iff q s
  rw [← crossed_scale turn, ← scaled] at met met'
  rw [met, met']
  exact crossed_differ apart

theorem odd_precedes_of_turn (hA : A.Orthonormal) (hB : B.Orthonormal)
    (turn : 0 < A.along.cross B.along) {ps : List (Point ℝ)}
    (off : ∀ s ∈ sides ps, q ∉ segment s.1 s.2) :
    Odd ((sides ps).countP (A.Precedes q ·)) ↔ Odd ((sides ps).countP (B.Precedes q ·)) := by
  classical
  have changes := even_countP_changes (Sector A B q) ps
  have count := odd_countP_iff_of_differ (sides ps) fun s hs =>
    precedes_differ hA hB turn (off s hs)
  by_contra h
  exact Nat.not_odd_iff_even.mpr changes (count.mpr h)

/-- **The even-odd rule does not depend on the direction of its rays.** -/
theorem odd_precedes_iff (hA : A.Orthonormal) (hB : B.Orthonormal) {ps : List (Point ℝ)}
    (off : ∀ s ∈ sides ps, q ∉ segment s.1 s.2) :
    Odd ((sides ps).countP (A.Precedes q ·)) ↔ Odd ((sides ps).countP (B.Precedes q ·)) := by
  have of_skew {A B : Axes ℝ} (hA : A.Orthonormal) (hB : B.Orthonormal)
      (skew : A.along.cross B.along ≠ 0) :
      Odd ((sides ps).countP (A.Precedes q ·)) ↔ Odd ((sides ps).countP (B.Precedes q ·)) := by
    rcases lt_or_gt_of_ne skew with right | left
    · refine (odd_precedes_of_turn hB hA ?_ off).symm
      simp only [cross] at right ⊢
      linarith
    · exact odd_precedes_of_turn hA hB left off
  by_cases parallel : A.along.cross B.along = 0
  -- Parallel rays are both compared with one across.
  · have unit := hA.along
    have unit' := hB.along
    simp only [dot] at unit unit'
    simp only [cross] at parallel
    have across : (⟨A.along.perp, A.along.perp.perp⟩ : Axes ℝ).Orthonormal := by
      constructor <;> simp only [dot, perp] <;> linarith
    refine (of_skew hA across ?_).trans (of_skew hB across ?_).symm
    · simp only [cross, perp]
      linarith
    · simp only [cross, perp]
      intro zero
      apply one_ne_zero (α := ℝ)
      linear_combination (A.along.x * B.along.y - A.along.y * B.along.x) * parallel +
        (A.along.x * B.along.x + A.along.y * B.along.y) * zero -
        (B.along.x * B.along.x + B.along.y * B.along.y) * unit - unit'
  · exact of_skew hA hB parallel

end Axes

end BoardPlotter
