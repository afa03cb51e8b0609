import Mathlib.Order.Bounds.Basic
import BoardPlotter.Geometry.Ellipse
import BoardPlotter.Proofs.Geometry.Joining
import BoardPlotter.Proofs.Geometry.Sagitta
import BoardPlotter.Proofs.Plan.EvenOdd

/-!
# How far an ellipse is from its samples

The points are doubled until the chord at the end of the major axis is within the tolerance.
The count is the least power of two that stops (`Ellipse.count_isLeast`, by the doublings):
the loop is left by its condition and never for want of fuel.

That chord is the shortest. But it leads as far towards the centre as the greater radius
falls short over a whole step, and between two samples the ellipse is no further from the
chord than over half a step (`Ellipse.point_mem_around`).

`Ellipse.sample_within`: the points, and how near the ellipse is to the polygon through them.
-/

namespace BoardPlotter

open Scalar Point

namespace Ellipse

variable (e : Ellipse ℝ)

/-- From the end of the major axis to the next of so many points. -/
noncomputable def apexChord (n : ℕ) : ℝ :=
  (e.point (e.apex.2 + 2 * Real.pi / n) - e.point e.apex.2).length

theorem point_apex : e.point e.apex.2 = e.center + e.apex.1 := by
  unfold apex
  split
  · change Point.mk (e.center.x + e.rx * Real.cos 0) (e.center.y + e.ry * Real.sin 0) = _
    rw [Real.cos_zero, Real.sin_zero, mul_one, mul_zero]
    rfl
  · change Point.mk (e.center.x + e.rx * Real.cos (Real.pi / 2))
      (e.center.y + e.ry * Real.sin (Real.pi / 2)) = _
    rw [Real.cos_pi_div_two, Real.sin_pi_div_two, mul_one, mul_zero]
    rfl

theorem chordFits_iff {tolerance : ℝ} (nonneg : 0 ≤ tolerance) (n : ℕ) :
    e.chordFits tolerance (2 * Real.pi / n) ↔ e.apexChord n ≤ tolerance := by
  have place : e.point (e.apex.2 + 2 * Real.pi / n) - e.point e.apex.2 =
      Point.mk (e.rx * Real.cos (e.apex.2 + 2 * Real.pi / n))
        (e.ry * Real.sin (e.apex.2 + 2 * Real.pi / n)) - e.apex.1 := by
    rw [point_apex]
    ext
    · exact add_sub_add_left_eq_sub _ _ _
    · exact add_sub_add_left_eq_sub _ _ _
  unfold apexChord
  rw [place, length_le_iff nonneg, sq, sq, sq]
  exact decide_eq_true_iff

/-! ### The number of points -/

/-- So many points are not doubled. -/
def Stops (tolerance : ℝ) (limit n : ℕ) : Prop := e.apexChord n ≤ tolerance ∨ limit ≤ n

/-- Where doubling from `2 ^ (k + 1)` points may stop. -/
def stopsFrom (tolerance : ℝ) (limit k : ℕ) : Set ℕ :=
  {n | (∃ j ≥ k, n = 2 ^ (j + 1)) ∧ e.Stops tolerance limit n}

variable {e} {tolerance : ℝ} {limit : ℕ}

theorem isLeast_of_stops {k : ℕ} (stops : e.Stops tolerance limit (2 ^ (k + 1))) :
    IsLeast (e.stopsFrom tolerance limit k) (2 ^ (k + 1)) := by
  refine ⟨⟨⟨k, le_rfl, rfl⟩, stops⟩, ?_⟩
  rintro n ⟨⟨j, le, rfl⟩, -⟩
  exact Nat.pow_le_pow_right two_pos (by omega)

theorem stopsFrom_succ {k : ℕ} (goes : ¬ e.Stops tolerance limit (2 ^ (k + 1))) :
    e.stopsFrom tolerance limit k = e.stopsFrom tolerance limit (k + 1) := by
  ext n
  constructor
  · rintro ⟨⟨j, le, rfl⟩, stops⟩
    have other : j ≠ k := by
      rintro rfl
      exact goes stops
    exact ⟨⟨j, by omega, rfl⟩, stops⟩
  · rintro ⟨⟨j, le, rfl⟩, stops⟩
    exact ⟨⟨j, by omega, rfl⟩, stops⟩

/-- A count that doubles grows by one at least, so the fuel lasts. -/
theorem countFrom_isLeast (nonneg : 0 ≤ tolerance) {fuel k : ℕ}
    (enough : limit ≤ 2 ^ (k + 1) + fuel) :
    IsLeast (e.stopsFrom tolerance limit k)
      (e.countFrom tolerance limit fuel (2 * Real.pi / (2 ^ (k + 1) : ℕ)) (2 ^ (k + 1))) := by
  induction fuel generalizing k with
  | zero => exact isLeast_of_stops (.inr enough)
  | succ fuel ih =>
    have positive := Nat.two_pow_pos (k + 1)
    unfold countFrom
    by_cases below : 2 ^ (k + 1) < limit
    · rw [if_pos below]
      by_cases fits : e.apexChord (2 ^ (k + 1)) ≤ tolerance
      · rw [if_pos ((chordFits_iff e nonneg _).mpr fits)]
        exact isLeast_of_stops (.inl fits)
      · have goes : ¬ e.Stops tolerance limit (2 ^ (k + 1)) :=
          not_or.mpr ⟨fits, below.not_ge⟩
        have half : 2 * Real.pi / (2 ^ (k + 1) : ℕ) / 2 = 2 * Real.pi / (2 ^ (k + 1 + 1) : ℕ) := by
          push_cast
          rw [pow_succ _ (k + 1), div_div]
        rw [if_neg ((chordFits_iff e nonneg _).not.mpr fits), stopsFrom_succ goes, half,
          ← pow_succ]
        apply ih
        rw [pow_succ]
        omega
    · rw [if_neg below]
      exact isLeast_of_stops (.inr (not_lt.mp below))

theorem count_isLeast (nonneg : 0 ≤ tolerance) (limit : ℕ) :
    IsLeast (e.stopsFrom tolerance limit 0) (e.count tolerance limit) := by
  have start : (Real.pi : ℝ) = 2 * Real.pi / (2 ^ (0 + 1) : ℕ) := by
    push_cast
    ring
  have least := countFrom_isLeast (e := e) (k := 0) nonneg (Nat.le_add_left limit (2 ^ (0 + 1)))
  rw [← start] at least
  exact least

/-! ### Between the points -/

variable (e) in
/-- The ellipse as an arc of a full turn. -/
noncomputable def turn : Arc ℝ := ⟨e.center, e.rx, e.ry, 0, 0, 2 * Real.pi⟩

theorem point_turn (t : ℝ) : e.turn.point t = e.point (2 * Real.pi * t) := by
  have angle : e.turn.angle t = 2 * Real.pi * t := by
    change 0 + t * (2 * Real.pi) = 2 * Real.pi * t
    ring
  have point : e.turn.point t =
      ⟨e.center.x + Real.cos 0 * (e.rx * Real.cos (e.turn.angle t)) -
          Real.sin 0 * (e.ry * Real.sin (e.turn.angle t)),
        e.center.y + Real.sin 0 * (e.rx * Real.cos (e.turn.angle t)) +
          Real.cos 0 * (e.ry * Real.sin (e.turn.angle t))⟩ := rfl
  rw [point, angle, Real.cos_zero, Real.sin_zero, one_mul, zero_mul, sub_zero, zero_mul, add_zero,
    one_mul]
  rfl

theorem point_add_turn (angle : ℝ) : e.point (angle + 2 * Real.pi) = e.point angle := by
  change Point.mk (e.center.x + e.rx * Real.cos (angle + 2 * Real.pi))
    (e.center.y + e.ry * Real.sin (angle + 2 * Real.pi)) = _
  rw [Real.cos_add_two_pi, Real.sin_add_two_pi]
  rfl

/-- The apex chord leads so far towards the centre. -/
theorem le_apexChord (hrx : 0 < e.rx) (hry : 0 < e.ry) (n : ℕ) :
    e.turn.wide * (1 - Real.cos (2 * Real.pi / n)) ≤ e.apexChord n := by
  unfold apexChord apex Arc.wide
  change max |e.rx| |e.ry| * _ ≤ _
  rw [abs_of_pos hrx, abs_of_pos hry]
  split
  case isTrue broad =>
    refine le_trans (le_of_eq ?_) (neg_x_le_length _)
    rw [max_eq_left broad.le, sub_x]
    change e.rx * _ = -(e.center.x + e.rx * Real.cos (0 + _) - (e.center.x + e.rx * Real.cos 0))
    rw [zero_add, Real.cos_zero]
    ring
  case isFalse tall =>
    refine le_trans (le_of_eq ?_) (neg_y_le_length _)
    rw [max_eq_right (not_lt.mp tall), sub_y]
    change e.ry * _ = -(e.center.y + e.ry * Real.sin (Real.pi / 2 + _) -
      (e.center.y + e.ry * Real.sin (Real.pi / 2)))
    rw [add_comm (Real.pi / 2), Real.sin_add_pi_div_two, Real.sin_pi_div_two]
    ring

/-- Between two neighbours of so many points the ellipse is near their chord. -/
theorem point_mem_around (hrx : 0 < e.rx) (hry : 0 < e.ry) {n i : ℕ} (two : 2 ≤ n)
    (fits : e.apexChord n ≤ tolerance) {t : ℝ} (mem : t ∈ Set.Icc ((i : ℝ) / n) ((i + 1) / n)) :
    e.point (2 * Real.pi * t) ∈
      around (e.point (2 * Real.pi * i / n)) (e.point (2 * Real.pi * (i + 1) / n)) tolerance := by
  have turn := Real.pi_pos
  have many : (2 : ℝ) ≤ n := by exact_mod_cast two
  have step : ((i : ℝ) + 1) / n - i / n = 1 / n := by ring
  have whole : 2 * Real.pi / n ≤ Real.pi := by
    rw [div_le_iff₀ (by linarith)]
    nlinarith
  have less : |e.turn.delta| * (((i : ℝ) + 1) / n - i / n) ≤ Real.pi := by
    change |2 * Real.pi| * _ ≤ _
    rw [step, abs_of_pos (by linarith), mul_one_div]
    exact whole
  have near := Arc.point_mem_around mem less
  rw [point_turn, point_turn, point_turn, ← mul_div_assoc, ← mul_div_assoc] at near
  refine around_mono (le_trans ?_ ((le_apexChord hrx hry n).trans fits)) near
  apply mul_le_mul_of_nonneg_left _ e.turn.wide_nonneg
  have half : e.turn.halfTurn ((i : ℝ) / n) ((i + 1) / n) = 2 * Real.pi / n / 2 := by
    change 2 * Real.pi * _ = _
    rw [step]
    ring
  have step_nonneg : 0 ≤ 2 * Real.pi / n := by positivity
  have cosine : Real.cos (2 * Real.pi / n) ≤ Real.cos (2 * Real.pi / n / 2) :=
    Real.cos_le_cos_of_nonneg_of_le_pi (by linarith) whole (by linarith)
  rw [half]
  linarith

/-- A point of the ellipse is at a part of the full turn. -/
theorem exists_turn {p : Point ℝ} (hrx : e.rx ≠ 0) (hry : e.ry ≠ 0)
    (on : ((p.x - e.center.x) / e.rx) ^ 2 + ((p.y - e.center.y) / e.ry) ^ 2 = 1) :
    ∃ t, 0 ≤ t ∧ t < 1 ∧ p = e.point (2 * Real.pi * t) := by
  obtain ⟨cosine, sine⟩ := EndpointArc.cos_sin_arg on
  let angle := Complex.arg ⟨(p.x - e.center.x) / e.rx, (p.y - e.center.y) / e.ry⟩
  let t := angle / (2 * Real.pi)
  have turns : 2 * Real.pi * Int.fract t = angle - ⌊t⌋ * (2 * Real.pi) := by
    unfold Int.fract
    rw [mul_sub, mul_div_cancel₀ _ Real.two_pi_pos.ne', mul_comm (⌊t⌋ : ℝ)]
  refine ⟨Int.fract t, Int.fract_nonneg t, Int.fract_lt_one t, ?_⟩
  change p = ⟨e.center.x + e.rx * Real.cos (2 * Real.pi * Int.fract t),
    e.center.y + e.ry * Real.sin (2 * Real.pi * Int.fract t)⟩
  rw [turns, Real.cos_sub_int_mul_two_pi, Real.sin_sub_int_mul_two_pi, cosine, sine]
  ext
  · change p.x = e.center.x + e.rx * ((p.x - e.center.x) / e.rx)
    rw [mul_div_cancel₀ _ hrx]
    ring
  · change p.y = e.center.y + e.ry * ((p.y - e.center.y) / e.ry)
    rw [mul_div_cancel₀ _ hry]
    ring

/-- The points, as many as are counted. -/
theorem sample_eq (hrx : 0 < e.rx) (hry : 0 < e.ry) (positive : 0 < tolerance) (limit : ℕ) :
    e.sample tolerance limit = .ok ((List.range (e.count tolerance limit)).map fun i : ℕ =>
      e.point (2 * Real.pi * i / e.count tolerance limit)) := by
  have radii : ¬ (e.rx ≤ 0 ∨ e.ry ≤ 0) := not_or.mpr ⟨hrx.not_ge, hry.not_ge⟩
  have checked : checkTolerance tolerance = .ok () := if_pos positive
  unfold sample
  rw [if_neg radii, checked]
  simp only [← Exact.ofNat_eq]
  rfl

/-- Every point of the ellipse is between two neighbours. -/
theorem exists_side (hrx : 0 < e.rx) (hry : 0 < e.ry) {n : ℕ} (two : 2 ≤ n)
    (fits : e.apexChord n ≤ tolerance) {p : Point ℝ}
    (on : ((p.x - e.center.x) / e.rx) ^ 2 + ((p.y - e.center.y) / e.ry) ^ 2 = 1) :
    ∃ side ∈ sides ((List.range n).map fun i : ℕ => e.point (2 * Real.pi * i / n)),
      p ∈ around side.1 side.2 tolerance := by
  obtain ⟨t, nonneg, less, rfl⟩ := exists_turn hrx.ne' hry.ne' on
  have many : (0 : ℝ) < n := by exact_mod_cast two_pos.trans_le two
  have before : (⌊t * n⌋₊ : ℝ) ≤ t * n := Nat.floor_le (by positivity)
  have behind : t * n < ⌊t * n⌋₊ + 1 := Nat.lt_floor_add_one _
  have lt : ⌊t * n⌋₊ < n := (Nat.floor_lt (by positivity)).mpr (by nlinarith)
  have back : e.point (2 * Real.pi * n / n) = e.point (2 * Real.pi * (0 : ℕ) / n) := by
    rw [mul_div_cancel_right₀ _ many.ne', Nat.cast_zero, mul_zero, zero_div, ← point_add_turn 0,
      zero_add]
  refine ⟨_, mem_sides_range (f := fun i : ℕ => e.point (2 * Real.pi * i / n)) lt back, ?_⟩
  dsimp only
  rw [Nat.cast_add_one]
  apply point_mem_around hrx hry two fits
  rw [Set.mem_Icc, div_le_iff₀ many, le_div_iff₀ many]
  exact ⟨before, behind.le⟩

/-- **An ellipse keeps its tolerance.** The points are as many as the least power of two for
which the apex chord is within the tolerance or the limit is reached, at equal angles. If the
chord is, every point of the ellipse is within the tolerance of a side of the closed outline
through them. -/
theorem sample_within (e : Ellipse ℝ) {tolerance : ℝ} (hrx : 0 < e.rx) (hry : 0 < e.ry)
    (positive : 0 < tolerance) (limit : ℤ) :
    ∃ n : ℕ,
      IsLeast {n : ℕ | (∃ k, n = 2 ^ (k + 1)) ∧ (e.apexChord n ≤ tolerance ∨ limit ≤ n)} n ∧
      let points := (List.range n).map fun i : ℕ => e.point (2 * Real.pi * i / n)
      e.sample tolerance limit.toNat = .ok points ∧
        (e.apexChord n ≤ tolerance → ∀ p : Point ℝ,
          ((p.x - e.center.x) / e.rx) ^ 2 + ((p.y - e.center.y) / e.ry) ^ 2 = 1 →
            ∃ side ∈ sides points, p ∈ around side.1 side.2 tolerance) := by
  have least := count_isLeast (e := e) positive.le limit.toNat
  have same : e.stopsFrom tolerance limit.toNat 0 =
      {n : ℕ | (∃ k, n = 2 ^ (k + 1)) ∧ (e.apexChord n ≤ tolerance ∨ limit ≤ n)} := by
    ext n
    simp [stopsFrom, Stops, Int.toNat_le]
  rw [same] at least
  refine ⟨_, least, sample_eq hrx hry positive _, ?_⟩
  intro fits p on
  obtain ⟨⟨k, power⟩, -⟩ := least.1
  have two : 2 ≤ e.count tolerance limit.toNat := by
    rw [power]
    exact Nat.le_self_pow (Nat.succ_ne_zero k) 2
  exact exists_side hrx hry two fits on

/-- The chord of two points of a circle is the diameter. -/
theorem sample_within_diameter :
    let e : Ellipse ℝ := ⟨⟨5, 7⟩, 1, 1⟩
    ((0 : ℝ) < e.rx ∧ (0 : ℝ) < e.ry ∧ (0 : ℝ) < 2) ∧
      e.sample 2 (65536 : ℤ).toNat = .ok [⟨6, 7⟩, ⟨4, 7⟩] ∧
      ∀ p : Point ℝ, (p.x - 5) ^ 2 + (p.y - 7) ^ 2 = 1 →
        ∃ side ∈ [((⟨6, 7⟩, ⟨4, 7⟩) : Point ℝ × Point ℝ), (⟨4, 7⟩, ⟨6, 7⟩)],
          p ∈ around side.1 side.2 2 := by
  intro e
  have positive : (0 : ℝ) < 2 := two_pos
  have point (r : ℝ) : e.point r = ⟨5 + 1 * Real.cos r, 7 + 1 * Real.sin r⟩ := rfl
  have half : 2 * Real.pi / (2 : ℕ) = Real.pi := by
    push_cast
    ring
  have fits : e.apexChord 2 ≤ 2 := by
    have angle : e.apex.2 = Real.pi / 2 := congrArg Prod.snd (if_neg (lt_irrefl (1 : ℝ)))
    unfold apexChord
    rw [half, angle, point, point, Real.cos_add_pi, Real.sin_add_pi, Real.cos_pi_div_two,
      Real.sin_pi_div_two, length_le_iff zero_le_two]
    norm_num
  obtain ⟨n, ⟨⟨⟨k, power⟩, -⟩, least⟩, drawn, near⟩ :=
    sample_within e one_pos one_pos positive 65536
  have two : n = 2 := by
    apply le_antisymm (least ⟨⟨0, rfl⟩, .inl fits⟩)
    rw [power]
    exact Nat.le_self_pow (Nat.succ_ne_zero k) 2
  subst two
  have points : (List.range 2).map (fun i : ℕ => e.point (2 * Real.pi * i / (2 : ℕ))) =
      [⟨6, 7⟩, ⟨4, 7⟩] := by
    change [e.point (2 * Real.pi * (0 : ℕ) / (2 : ℕ)),
      e.point (2 * Real.pi * (1 : ℕ) / (2 : ℕ))] = _
    rw [Nat.cast_zero, mul_zero, zero_div, Nat.cast_one, mul_one, half, point, point,
      Real.cos_zero, Real.sin_zero, Real.cos_pi, Real.sin_pi]
    norm_num
  rw [points] at drawn near
  refine ⟨⟨one_pos, one_pos, positive⟩, drawn, ?_⟩
  intro p on
  exact near fits p (by simpa [e] using on)

end Ellipse

end BoardPlotter
