import Mathlib.Topology.Order.LeftRightNhds
import BoardPlotter.Proofs.Geometry.LongWay
import BoardPlotter.Proofs.Geometry.Sagitta
import BoardPlotter.Proofs.Geometry.Sampling

/-!
# How far an arc is from its samples

An arc is halved until neighbouring samples are within the tolerance of each other, which
says how long the chords are and not how far the arc is from them. Where neighbours are more
than the least step apart they are also less than half a turn apart, so the chord bounds the
distance if the ellipse is not too thin (`EndpointArc.keepsWithin_of_shape`). On a thinner
one an arc can start across the ellipse from its middle, near it and nearly half a turn away
(`EndpointArc.longWay_exceeds_broad`, `EndpointArc.longWay_exceeds_tall`).

`EndpointArc.keepsWithin_iff`: the arcs of an ellipse keep within a multiple of the tolerance
if and only if the greater radius is at most twice that multiple of the smaller one.
-/

namespace BoardPlotter

open Scalar Point

/-- Neighbours of a mapped list come from neighbours. -/
theorem exists_neighbours {β γ : Type} {R : β → β → Prop} {l : List β} {f : β → γ}
    {a b : γ} (chain : l.IsChain R) (neighbours : [a, b] <:+: l.map f) :
    ∃ u ∈ l, ∃ v ∈ l, R u v ∧ f u = a ∧ f v = b := by
  obtain ⟨before, behind, whole⟩ := neighbours
  obtain ⟨l₁, l₂, rfl, front, -⟩ := List.map_eq_append_iff.mp whole.symm
  obtain ⟨l₃, l₄, rfl, -, pair⟩ := List.map_eq_append_iff.mp front
  obtain ⟨u, l₅, rfl, hu, single⟩ := List.map_eq_cons_iff.mp pair
  obtain ⟨v, l₆, rfl, hv, -⟩ := List.map_eq_cons_iff.mp single
  have related : R u v := List.isChain_iff_forall_rel_of_append_cons_cons.mp chain
    (show l₃ ++ u :: v :: l₆ ++ l₂ = l₃ ++ u :: v :: (l₆ ++ l₂) by simp)
  exact ⟨u, by simp, v, by simp, related, hu, hv⟩

/-- By less than a full turn an arc comes to no point twice. -/
theorem Arc.eq_of_point_eq {arc : Arc ℝ} (round : 0 < arc.narrow) (turns : arc.delta ≠ 0)
    (less : |arc.delta| < 2 * Real.pi) {t u : ℝ} (ht : t ∈ Set.Icc (0 : ℝ) 1)
    (hu : u ∈ Set.Icc (0 : ℝ) 1) (same : arc.point t = arc.point u) : t = u := by
  have flat := arc.le_length_chord t u
  have none : (arc.point u - arc.point t).length = 0 := by
    rw [same, length_eq]
    simp
  rw [none] at flat
  have sine : Real.sin (arc.halfTurn t u) = 0 := by
    apply abs_nonpos_iff.mp
    nlinarith
  have close : |(u - t) / 2| ≤ 1 / 2 := by
    rw [abs_le]
    constructor <;> linarith [ht.1, ht.2, hu.1, hu.2]
  have small : |arc.halfTurn t u| < Real.pi := by
    rw [Arc.halfTurn, abs_mul]
    nlinarith [abs_nonneg arc.delta, abs_nonneg ((u - t) / 2)]
  obtain ⟨low, high⟩ := abs_lt.mp small
  have zero := (Real.sin_eq_zero_iff_of_lt_of_lt low high).mp sine
  rw [Arc.halfTurn] at zero
  linarith [(mul_eq_zero.mp zero).resolve_left turns]

namespace EndpointArc

/-- Where neighbouring samples are more than the least step apart, the arc between them is
within a distance of their chord. -/
def KeepsWithin (e : EndpointArc ℝ) (tolerance : ℝ) (depth : ℤ) (distance : ℝ) : Prop :=
  ∃ arc points, e.center? = .ok arc ∧ e.flatten tolerance depth = .ok points ∧
    ∀ t₀ ∈ Set.Icc (0 : ℝ) 1, ∀ t₁ ∈ Set.Icc (0 : ℝ) 1,
      [arc.point t₀, arc.point t₁] <:+: points → 2 ^ (-depth) < t₁ - t₀ →
        ∀ t ∈ Set.Icc t₀ t₁, arc.point t ∈ around (arc.point t₀) (arc.point t₁) distance

section Round

variable {e : EndpointArc ℝ} (hrx : e.rx ≠ 0) (hry : e.ry ≠ 0)
include hrx hry

theorem center?_eq_ok : e.center? = .ok e.center := by
  rw [center?_eq, Exact.fault?_eq, if_neg (by simp [hrx, hry])]

theorem flatten_eq_ok (apart : e.p₁ ≠ e.p₂) {tolerance : ℝ} (positive : 0 < tolerance)
    (depth : ℤ) : e.flatten tolerance depth = .ok (e.samples tolerance (depth - 1).toNat) := by
  rw [Exact.flatten_eq e positive, if_neg ((Point.beq_iff _ _).not.mpr apart),
    if_neg (by simp [hrx, hry])]

/-- The radii are grown in proportion. -/
theorem wide_le_iff (k : ℝ) :
    e.center.wide ≤ k * e.center.narrow ↔ max |e.rx| |e.ry| ≤ k * min |e.rx| |e.ry| := by
  have factor : 0 < √(max 1 e.reach) := Real.sqrt_pos.mpr (lt_max_of_lt_left one_pos)
  have rx : |e.center.rx| = |e.rx| * √(max 1 e.reach) := by
    rw [← grown_eq, ← abs_of_pos (e.grown_pos hrx)]
    rfl
  have ry : |e.center.ry| = |e.ry| * √(max 1 e.reach) := by
    rw [← grown_eq, ← abs_of_pos (e.grown_pos hry)]
    rfl
  rw [Arc.wide, Arc.narrow, rx, ry, ← max_mul_of_nonneg _ _ factor.le,
    ← min_mul_of_nonneg _ _ factor.le, ← mul_assoc, mul_le_mul_iff_left₀ factor]

theorem narrow_pos : 0 < e.center.narrow :=
  lt_min (abs_pos.mpr (e.grown_pos hrx).ne') (abs_pos.mpr (e.grown_pos hry).ne')

theorem delta_mem (apart : e.p₁ ≠ e.p₂) :
    e.center.delta ≠ 0 ∧ |e.center.delta| < 2 * Real.pi := by
  obtain ⟨low, high⟩ := angleBetween_mem (e.spoke e.half) (e.spoke (-e.half))
  have direction : if e.sweep then 0 < e.center.delta ∧ e.center.delta < 2 * Real.pi
      else -(2 * Real.pi) < e.center.delta ∧ e.center.delta < 0 :=
    directed_mem low high (angleBetween_spokes hrx hry apart).1
  have turn := Real.pi_pos
  split at direction
  · exact ⟨direction.1.ne', abs_lt.mpr ⟨by linarith, direction.2⟩⟩
  · exact ⟨direction.2.ne, abs_lt.mpr ⟨direction.1, by linarith⟩⟩

/-- Each sample is the arc at its number of steps. -/
theorem eq_point_of_mem_numbered (apart : e.p₁ ≠ e.p₂) {m : ℕ} {ks : List ℕ} {u : ℕ × Point ℝ}
    (mem : u ∈ e.numbered (Exact.param m) (2 ^ m) ks) :
    u.2 = e.center.point (Exact.param m u.1) := by
  obtain ⟨start, finish⟩ := point_center hrx hry apart
  unfold numbered at mem
  rcases List.mem_cons.mp mem with rfl | mem
  · rw [Exact.param_zero, start]
  rcases List.mem_append.mp mem with mem | mem
  · obtain ⟨k, -, rfl⟩ := List.mem_map.mp mem
    rfl
  · obtain rfl := List.mem_singleton.mp mem
    rw [Exact.param_one, finish]

/-- **Within a multiple of the tolerance.** Neighbours more than the least step apart are
near each other and less than half a turn apart. -/
theorem keepsWithin_of_shape (apart : e.p₁ ≠ e.p₂) {k tolerance : ℝ} (nonneg : 0 ≤ k)
    (shape : max |e.rx| |e.ry| ≤ 2 * k * min |e.rx| |e.ry|) (positive : 0 < tolerance)
    (depth : ℤ) : e.KeepsWithin tolerance depth (k * tolerance) := by
  obtain ⟨d, less⟩ : ∃ d, (depth - 1).toNat = d := ⟨_, rfl⟩
  obtain ⟨ks, samples, -, chain⟩ :=
    e.samples_eq tolerance d (Exact.param_halves (d + 1)) (Exact.param_zero _)
      (Exact.param_half d) (Exact.param_one _)
  have drawn := flatten_eq_ok hrx hry apart positive depth
  rw [less, samples] at drawn
  refine ⟨e.center, _, center?_eq_ok hrx hry, drawn, ?_⟩
  intro t₀ h₀ t₁ h₁ neighbours coarse t mem
  obtain ⟨u, hu, v, hv, adjacent, first, last⟩ := exists_neighbours chain neighbours
  obtain ⟨turns, full⟩ := delta_mem hrx hry apart
  have param {s : ℝ} (hs : s ∈ Set.Icc (0 : ℝ) 1) {w : ℕ × Point ℝ}
      (mem : w ∈ e.numbered (Exact.param (d + 1)) (2 ^ (d + 1)) ks)
      (same : w.2 = e.center.point s) : s = Exact.param (d + 1) w.1 := by
    rw [eq_point_of_mem_numbered hrx hry apart mem] at same
    have unit := Exact.param_mem (e.le_of_mem_numbered chain mem)
    exact Arc.eq_of_point_eq (narrow_pos hrx hry) turns full hs unit same.symm
  have gap : t₁ - t₀ = ((v.1 : ℝ) - u.1) / 2 ^ (d + 1) := by
    rw [param h₀ hu first, param h₁ hv last, Exact.param_sub]
  rcases adjacent.near with near | next
  · rw [first, last] at near
    have half : t₁ - t₀ ≤ 1 / 2 := by
      have within : (v.1 : ℝ) ≤ u.1 + 2 ^ d := by exact_mod_cast adjacent.within
      rw [gap, div_le_iff₀ (by positivity), pow_succ]
      linarith
    have turn : |e.center.delta| * (t₁ - t₀) ≤ Real.pi := by
      nlinarith [abs_nonneg e.center.delta]
    exact Arc.point_mem_around_of_chord nonneg ((wide_le_iff hrx hry _).mpr shape) mem turn near
  · -- Neighbours one step apart are no further apart than the least step.
    have fine : (2 : ℝ) ^ (-((d + 1 : ℕ) : ℤ)) ≤ 2 ^ (-depth) :=
      zpow_le_zpow_right₀ one_le_two (by omega)
    rw [zpow_neg, zpow_natCast] at fine
    rw [gap, next] at coarse
    push_cast at coarse
    rw [add_sub_cancel_left, one_div] at coarse
    exact absurd coarse fine.not_gt

/-- A first half with near ends is taken as it is, however far it goes in between. -/
theorem not_keepsWithin_of_far (apart : e.p₁ ≠ e.p₂) {tolerance distance : ℝ}
    (positive : 0 < tolerance) {depth : ℤ} (deep : 2 ≤ depth)
    (fits : (e.center.point (1 / 2) - e.p₁).length ≤ tolerance) {t : ℝ}
    (mem : t ∈ Set.Icc (0 : ℝ) (1 / 2))
    (far : ∀ q ∈ segment e.p₁ (e.center.point (1 / 2)), distance < (e.center.point t - q).length) :
    ¬ e.KeepsWithin tolerance depth distance := by
  rintro ⟨arc, points, found, drawn, keeps⟩
  obtain rfl := Except.ok.inj ((center?_eq_ok hrx hry).symm.trans found)
  obtain ⟨d, less⟩ : ∃ d, (depth - 1).toNat = d + 1 := ⟨(depth - 2).toNat, by omega⟩
  rw [flatten_eq_ok hrx hry apart positive, less] at drawn
  obtain rfl := Except.ok.inj drawn
  obtain ⟨start, -⟩ := point_center hrx hry apart
  have neighbours :
      [e.center.point 0, e.center.point (1 / 2)] <:+: e.samples tolerance (d + 1) := by
    have none : e.center.bisect tolerance (d + 1) 0 e.p₁ (1 / 2) (e.center.point (1 / 2)) = [] :=
      if_pos fits
    unfold samples
    dsimp only
    rw [start, none]
    exact ⟨[], _, rfl⟩
  have coarse : (2 : ℝ) ^ (-depth) < 1 / 2 - 0 := by
    have le : (2 : ℝ) ^ (-depth) ≤ 2 ^ (-2 : ℤ) := zpow_le_zpow_right₀ one_le_two (by omega)
    norm_num at le ⊢
    linarith
  obtain ⟨q, on, near⟩ := keeps 0 (by norm_num) (1 / 2) (by norm_num) neighbours coarse t mem
  rw [start] at on
  exact (far q on).not_ge near

end Round

/-! ### Ellipses out of shape -/

/-- Around the bottom, the ends on either side of the top. -/
theorem ends_longWay_broad (rx ry β : ℝ) :
    let e := longWay rx ry (-(Real.pi / 2)) (Real.pi - β)
    e.p₁ = ⟨-(|rx| * Real.sin β), |ry| * Real.cos β⟩ ∧
      e.p₂ = ⟨|rx| * Real.sin β, |ry| * Real.cos β⟩ := by
  intro e
  have first : -(Real.pi / 2) - (Real.pi - β) = β - Real.pi - Real.pi / 2 := by ring
  have last : -(Real.pi / 2) + (Real.pi - β) = Real.pi / 2 - β := by ring
  constructor
  · change polar rx ry _ = _
    rw [polar, first, Real.cos_sub_pi_div_two, Real.sin_sub_pi_div_two, Real.sin_sub_pi,
      Real.cos_sub_pi, neg_neg, mul_neg]
  · change polar rx ry _ = _
    rw [polar, last, Real.cos_pi_div_two_sub, Real.sin_pi_div_two_sub]

section Thin

variable {rx ry β : ℝ} (hrx : rx ≠ 0) (hry : ry ≠ 0) (positive : 0 < β) (acute : β < Real.pi / 2)
include positive acute

theorem turn_mem : Real.pi / 2 < Real.pi - β ∧ Real.pi - β < Real.pi := by
  constructor <;> linarith

/-- From the start to the middle the chord comes closer to the axis. -/
theorem mul_sin_mul_le {r s : ℝ} (hr : 0 ≤ r) (s₀ : 0 ≤ s) :
    r * Real.sin β * (1 - s) ≤ r * Real.sin β := by
  have sine : 0 ≤ Real.sin β :=
    Real.sin_nonneg_of_nonneg_of_le_pi positive.le (by linarith [Real.pi_pos])
  exact mul_le_of_le_one_right (mul_nonneg hr sine) (by linarith)

include hrx hry

theorem middle_longWay_broad :
    (longWay rx ry (-(Real.pi / 2)) (Real.pi - β)).center.point (1 / 2) = ⟨0, -|ry|⟩ := by
  obtain ⟨low, high⟩ := turn_mem positive acute
  have angle : -(Real.pi / 2) + (2 * (1 / 2) - 1) * (Real.pi - β) = -(Real.pi / 2) := by ring
  rw [point_longWay hrx hry low high, polar, angle, Real.cos_neg, Real.sin_neg,
    Real.cos_pi_div_two, Real.sin_pi_div_two, mul_zero, mul_neg, mul_one]

variable {tolerance distance : ℝ} (allowed : 0 < tolerance) {depth : ℤ} (deep : 2 ≤ depth)
include allowed deep

/-- From near the top of a broad ellipse round its left end to its bottom. -/
theorem longWay_exceeds_broad
    (fits : (|rx| * Real.sin β) ^ 2 + (|ry| * (1 + Real.cos β)) ^ 2 ≤ tolerance ^ 2)
    (far : distance < |rx| * (Real.cos (β / 2) - Real.sin β)) :
    ¬ (longWay rx ry (-(Real.pi / 2)) (Real.pi - β)).KeepsWithin tolerance depth distance := by
  obtain ⟨low, high⟩ := turn_mem positive acute
  have point := point_longWay hrx hry low high (-(Real.pi / 2))
  have start := (ends_longWay_broad rx ry β).1
  have middle := middle_longWay_broad hrx hry positive acute
  have quarter : (longWay rx ry (-(Real.pi / 2)) (Real.pi - β)).center.point (1 / 4) =
      ⟨-(|rx| * Real.cos (β / 2)), -(|ry| * Real.sin (β / 2))⟩ := by
    have angle : -(Real.pi / 2) + (2 * (1 / 4) - 1) * (Real.pi - β) = β / 2 - Real.pi := by ring
    rw [point, polar, angle, Real.cos_sub_pi, Real.sin_sub_pi, mul_neg, mul_neg]
  apply not_keepsWithin_of_far (t := 1 / 4) hrx hry (apart_longWay hrx hry low high _) allowed deep
  · rw [middle, start, length_le_iff allowed.le]
    simp only [sub_x, sub_y]
    linarith
  · norm_num
  · rw [start, middle, quarter]
    rintro _ ⟨s, ⟨s₀, s₁⟩, rfl⟩
    apply far.trans_le
    refine le_trans ?_ (neg_x_le_length _)
    have shorter := mul_sin_mul_le positive acute (abs_nonneg rx) s₀
    simp only [sub_x, along_x]
    linarith

/-- From near the left of a tall ellipse round its lower end to its right. -/
theorem longWay_exceeds_tall
    (fits : (|ry| * Real.sin β) ^ 2 + (|rx| * (1 + Real.cos β)) ^ 2 ≤ tolerance ^ 2)
    (far : distance < |ry| * (Real.cos (β / 2) - Real.sin β)) :
    ¬ (longWay rx ry 0 (Real.pi - β)).KeepsWithin tolerance depth distance := by
  obtain ⟨low, high⟩ := turn_mem positive acute
  have point := point_longWay hrx hry low high 0
  have start : (longWay rx ry 0 (Real.pi - β)).p₁ =
      ⟨-(|rx| * Real.cos β), -(|ry| * Real.sin β)⟩ := by
    have angle : 0 - (Real.pi - β) = β - Real.pi := by ring
    change polar rx ry _ = _
    rw [polar, angle, Real.sin_sub_pi, Real.cos_sub_pi, mul_neg, mul_neg]
  have middle : (longWay rx ry 0 (Real.pi - β)).center.point (1 / 2) = ⟨|rx|, 0⟩ := by
    have angle : 0 + (2 * (1 / 2) - 1) * (Real.pi - β) = 0 := by ring
    rw [point, polar, angle, Real.cos_zero, Real.sin_zero, mul_zero, mul_one]
  have quarter : (longWay rx ry 0 (Real.pi - β)).center.point (1 / 4) =
      ⟨|rx| * Real.sin (β / 2), -(|ry| * Real.cos (β / 2))⟩ := by
    have angle : 0 + (2 * (1 / 4) - 1) * (Real.pi - β) = β / 2 - Real.pi / 2 := by ring
    rw [point, polar, angle, Real.cos_sub_pi_div_two, Real.sin_sub_pi_div_two, mul_neg]
  apply not_keepsWithin_of_far (t := 1 / 4) hrx hry (apart_longWay hrx hry low high _) allowed deep
  · rw [middle, start, length_le_iff allowed.le]
    simp only [sub_x, sub_y]
    linarith
  · norm_num
  · rw [start, middle, quarter]
    rintro _ ⟨s, ⟨s₀, s₁⟩, rfl⟩
    apply far.trans_le
    refine le_trans ?_ (neg_y_le_length _)
    have shorter := mul_sin_mul_le positive acute (abs_nonneg ry) s₀
    simp only [sub_y, along_y]
    linarith

end Thin

/-- Little less than half a turn is about as far out as the greater radius, with a chord of
about twice the smaller one. -/
theorem exists_near_ends {wide narrow k : ℝ} (round : 0 < narrow) (thin : k * (2 * narrow) < wide) :
    ∃ β, 0 < β ∧ β < Real.pi / 2 ∧ ∃ tolerance, 0 < tolerance ∧
      (wide * Real.sin β) ^ 2 + (narrow * (1 + Real.cos β)) ^ 2 ≤ tolerance ^ 2 ∧
      k * tolerance < wide * (Real.cos (β / 2) - Real.sin β) := by
  let chord (β : ℝ) : ℝ := √((wide * Real.sin β) ^ 2 + (narrow * (1 + Real.cos β)) ^ 2)
  let excess (β : ℝ) : ℝ := wide * (Real.cos (β / 2) - Real.sin β) - k * chord β
  have smooth : Continuous excess := by
    unfold excess chord
    fun_prop
  have flat : chord 0 = 2 * narrow := by
    have square : (wide * Real.sin 0) ^ 2 + (narrow * (1 + Real.cos 0)) ^ 2 = (2 * narrow) ^ 2 := by
      rw [Real.sin_zero, Real.cos_zero]
      ring
    unfold chord
    rw [square, Real.sqrt_sq (by linarith)]
  have exceeds : 0 < excess 0 := by
    unfold excess
    rw [flat, zero_div, Real.cos_zero, Real.sin_zero]
    linarith
  have near := (smooth.tendsto 0).eventually_const_lt exceeds
  have right : Set.Ioo (0 : ℝ) (Real.pi / 2) ∈ nhdsWithin 0 (Set.Ioi 0) :=
    Ioo_mem_nhdsGT (by linarith [Real.pi_pos])
  obtain ⟨β, out, positive, acute⟩ := ((near.filter_mono nhdsWithin_le_nhds).and right).exists
  have sum : 0 < (wide * Real.sin β) ^ 2 + (narrow * (1 + Real.cos β)) ^ 2 := by
    have cosine : 0 < Real.cos β := Real.cos_pos_of_mem_Ioo ⟨by linarith, acute⟩
    have across : 0 < narrow * (1 + Real.cos β) := mul_pos round (by linarith)
    exact add_pos_of_nonneg_of_pos (sq_nonneg _) (pow_pos across 2)
  refine ⟨β, positive, acute, chord β, Real.sqrt_pos.mpr sum, (Real.sq_sqrt sum.le).ge, ?_⟩
  unfold excess at out
  linarith

/-- **Deviation of the arcs of an ellipse.** All of them keep within the tolerance times half
the quotient of the greater radius by the smaller one, and within no smaller multiple of it.
So they keep within the tolerance itself if neither radius is more than twice the other. -/
theorem keepsWithin_iff {rx ry : ℝ} (hrx : rx ≠ 0) (hry : ry ≠ 0) (k : ℝ) :
    (∀ e : EndpointArc ℝ, e.rx = rx → e.ry = ry → e.p₁ ≠ e.p₂ → ∀ tolerance > 0, ∀ depth,
        e.KeepsWithin tolerance depth (k * tolerance)) ↔
      max |rx| |ry| ≤ 2 * k * min |rx| |ry| := by
  have round : 0 < min |rx| |ry| := lt_min (abs_pos.mpr hrx) (abs_pos.mpr hry)
  constructor
  · intro keeps
    by_contra! thin
    have double : k * (2 * min |rx| |ry|) < max |rx| |ry| := by linarith
    obtain ⟨β, positive, acute, tolerance, allowed, fits, far⟩ := exists_near_ends round double
    obtain ⟨low, high⟩ := turn_mem positive acute
    have within (mid : ℝ) := keeps (longWay rx ry mid (Real.pi - β)) rfl rfl
      (apart_longWay hrx hry low high mid) tolerance allowed 2
    rcases le_total |rx| |ry| with tall | broad
    · rw [max_eq_right tall] at fits far
      rw [min_eq_left tall] at fits
      exact longWay_exceeds_tall hrx hry positive acute allowed le_rfl fits far (within _)
    · rw [max_eq_left broad] at fits far
      rw [min_eq_right broad] at fits
      exact longWay_exceeds_broad hrx hry positive acute allowed le_rfl fits far (within _)
  · rintro shape e rfl rfl apart tolerance positive depth
    have wide : 0 < max |e.rx| |e.ry| := lt_max_of_lt_left (abs_pos.mpr hrx)
    have factor : 0 < 2 * k := (mul_pos_iff_of_pos_right round).mp (wide.trans_le shape)
    exact keepsWithin_of_shape hrx hry apart (by linarith) shape positive depth

/-- Three to two, turned, the long way. -/
theorem keepsWithin_threeToTwo :
    let e : EndpointArc ℝ := ⟨⟨0, 0⟩, ⟨2, 1⟩, 3, -2, 30, true, false⟩
    (e.rx ≠ 0 ∧ e.ry ≠ 0) ∧ e.KeepsWithin (1 / 10) 16 (1 / 10) := by
  intro e
  have hrx : e.rx ≠ 0 := by norm_num [e]
  have hry : e.ry ≠ 0 := by norm_num [e]
  have apart : e.p₁ ≠ e.p₂ := by simp [e]
  have shape : max |e.rx| |e.ry| ≤ 2 * 1 * min |e.rx| |e.ry| := by norm_num [e]
  have keeps := (keepsWithin_iff hrx hry 1).mpr shape e rfl rfl apart (1 / 10) (by norm_num) 16
  rw [one_mul] at keeps
  exact ⟨⟨hrx, hry⟩, keeps⟩

/-- Eight to one, from near the top by the left end: the ends and the middle are less than ten
apart and all the samples there are, with most of the arc more than ten from the chords. -/
theorem thinArc_exceeds :
    let e : EndpointArc ℝ := ⟨⟨-7, 3⟩, ⟨7, 3⟩, 25, 25 / 8, 0, true, true⟩
    (e.p₁ ≠ e.p₂ ∧ e.rx ≠ 0 ∧ e.ry ≠ 0) ∧
      e.flatten 10 2 = .ok [⟨-7, 3⟩, ⟨0, -(25 / 8)⟩, ⟨7, 3⟩] ∧ ¬ e.KeepsWithin 10 2 10 := by
  intro e
  have hrx : e.rx ≠ 0 := by norm_num [e]
  have hry : e.ry ≠ 0 := by norm_num [e]
  have apart : e.p₁ ≠ e.p₂ := by
    intro same
    have x := congrArg Point.x same
    norm_num [e] at x
  let β := Real.arcsin (7 / 25)
  have positive : 0 < β := Real.arcsin_pos.mpr (by norm_num)
  have acute : β < Real.pi / 2 := Real.arcsin_lt_pi_div_two.mpr (by norm_num)
  have sine : Real.sin β = 7 / 25 := Real.sin_arcsin (by norm_num) (by norm_num)
  have cosine : Real.cos β = 24 / 25 := by
    have square : (1 : ℝ) - (7 / 25) ^ 2 = (24 / 25) ^ 2 := by norm_num
    rw [Real.cos_arcsin, square, Real.sqrt_sq (by norm_num)]
  have same : e = longWay 25 (25 / 8) (-(Real.pi / 2)) (Real.pi - β) := by
    obtain ⟨first, last⟩ := ends_longWay_broad 25 (25 / 8) β
    let long := longWay 25 (25 / 8) (-(Real.pi / 2)) (Real.pi - β)
    have parts : long = ⟨long.p₁, long.p₂, 25, 25 / 8, 0, true, true⟩ := rfl
    change e = long
    rw [parts, first, last, sine, cosine]
    norm_num [e]
  have middle : e.center.point (1 / 2) = ⟨0, -(25 / 8)⟩ := by
    rw [same, middle_longWay_broad (by norm_num) (by norm_num) positive acute]
    norm_num
  refine ⟨⟨apart, hrx, hry⟩, ?_, ?_⟩
  · rw [flatten_eq_ok hrx hry apart (by norm_num)]
    have left : (e.center.point (1 / 2) - e.p₁).length ≤ 10 := by
      rw [middle, length_le_iff (by norm_num)]
      norm_num [e]
    have right : (e.p₂ - e.center.point (1 / 2)).length ≤ 10 := by
      rw [middle, length_le_iff (by norm_num)]
      norm_num [e]
    have none : e.center.bisect 10 1 0 e.p₁ (1 / 2) (e.center.point (1 / 2)) = [] := if_pos left
    have none' : e.center.bisect 10 1 (1 / 2) (e.center.point (1 / 2)) 1 e.p₂ = [] := if_pos right
    change Except.ok (e.samples 10 1) = _
    unfold samples
    dsimp only
    rw [none, none', middle]
    rfl
  · have wider : Real.cos β ≤ Real.cos (β / 2) :=
      Real.cos_le_cos_of_nonneg_of_le_pi (by linarith) (by linarith [Real.pi_pos]) (by linarith)
    rw [same]
    apply longWay_exceeds_broad (by norm_num) (by norm_num) positive acute (by norm_num) le_rfl
    · rw [sine, cosine]
      norm_num
    · rw [sine, abs_of_pos (by norm_num)]
      linarith

end EndpointArc

end BoardPlotter
