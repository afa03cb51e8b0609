import BoardPlotter.Proofs.Geometry.Flattening
import BoardPlotter.Proofs.Geometry.Joining

/-!
# Curves drawn from the other end

Read from its end, a control polygon has the same rows the other way round, so its halves
are those of the polygon swapped and reversed (`ControlPolygon.split_reverse`), and each is
as near its chord.

An arc with its ends and its direction swapped has the same ellipse: half the chord and the
bulge both change their sign, and the middle is made of their product. It starts along the
spoke that the other one ends along and turns back by the same extent, so it is the other
one with the parameter run backwards (`EndpointArc.point_reverse`).

`flatten_other_way`: flattening does not depend on the direction.
-/

namespace BoardPlotter

open Scalar

namespace Point

theorem neg_x (p : Point ℝ) : (-p).x = -p.x := rfl

theorem neg_y (p : Point ℝ) : (-p).y = -p.y := rfl

theorem length_sub_comm (p q : Point ℝ) : (p - q).length = (q - p).length := by
  rw [length_eq, length_eq]
  congr 1
  simp only [sub_x, sub_y]
  ring

theorem clampUnit_one_sub (t : ℝ) : clampUnit (1 - t) = 1 - clampUnit t := by
  rw [Exact.clampUnit_eq, Exact.clampUnit_eq]
  rcases le_total t 0 with low | low
  · rw [max_eq_right low, max_eq_left (by linarith), min_eq_right (by linarith),
      min_eq_left zero_le_one, sub_zero]
  · rcases le_total t 1 with high | high
    · rw [max_eq_left low, max_eq_left (by linarith), min_eq_left (by linarith),
        min_eq_left high]
    · rw [max_eq_left low, max_eq_right (by linarith), min_eq_left zero_le_one,
        min_eq_right high, sub_self]

/-- A segment is as near whichever end is named first. -/
theorem distanceToSegment_comm (p a b : Point ℝ) :
    p.distanceToSegment a b = p.distanceToSegment b a := by
  by_cases same : b = a
  · rw [same]
  · have apart : (b - a).lengthSquared ≠ 0 := mt sub_lengthSquared_eq_zero_iff.mp same
    have sizes : (a - b).lengthSquared = (b - a).lengthSquared := by
      simp only [lengthSquared, sub_x, sub_y]
      ring
    have nearest : (p - b).dot (a - b) / (b - a).lengthSquared =
        1 - (p - a).dot (b - a) / (b - a).lengthSquared := by
      rw [eq_sub_iff_add_eq, ← add_div, div_eq_one_iff_eq apart]
      simp only [dot, lengthSquared, sub_x, sub_y]
      ring
    have long : ¬ ((b - a).lengthSquared == 0) = true := by simpa using apart
    rw [distanceToSegment, distanceToSegment, if_neg long, sizes, if_neg long, nearest,
      clampUnit_one_sub]
    exact congrArg (fun q => (p - q).length) (along_swap a b _).symm

/-- The rows in the middle of a sequence read backwards are its rows read backwards. -/
theorem iterate_row_reverse {p q : ℕ → Point ℝ} {d : ℕ} (back : ∀ i ≤ d, q i = p (d - i))
    {n i : ℕ} (h : n + i ≤ d) : (row (1 / 2))^[n] q i = (row (1 / 2))^[n] p (d - n - i) := by
  induction n generalizing i with
  | zero => exact back i (by omega)
  | succ n ih =>
    obtain ⟨m, rfl⟩ : ∃ m, d = n + i + m + 1 := ⟨d - (n + i + 1), by omega⟩
    have here : n + i + m + 1 - n - i = m + 1 := by omega
    have next : n + i + m + 1 - n - (i + 1) = m := by omega
    have left : n + i + m + 1 - (n + 1) - i = m := by omega
    rw [Function.iterate_succ_apply', Function.iterate_succ_apply', row, row, ih (by omega),
      ih (by omega), here, next, left]
    ext
    · simp only [lerp_x]
      ring
    · simp only [lerp_y]
      ring

end Point

open Point

/-! ### Bézier curves -/

namespace ControlPolygon

theorem ext_vertex {c d : ControlPolygon ℝ} (size : c.degree = d.degree)
    (points : ∀ i ≤ c.degree, c.vertex i = d.vertex i) : c = d := by
  have lists : c.toList = d.toList := by
    apply List.ext_getElem?
    intro i
    by_cases h : i ≤ c.degree
    · rw [getElem?_toList h, getElem?_toList (size ▸ h), points i h]
    · have short : c.toList.length ≤ i := Nat.lt_of_not_le h
      rw [size] at h
      have short' : d.toList.length ≤ i := Nat.lt_of_not_le h
      rw [List.getElem?_eq_none short, List.getElem?_eq_none short']
  obtain ⟨first, rest⟩ := List.cons.inj lists
  cases c
  cases d
  cases first
  cases rest
  rfl

theorem first_reverse (c : ControlPolygon ℝ) : c.reverse.first = c.last := by
  have first := congrArg List.head? (toList_reverse c)
  rw [List.head?_reverse, getLast?_toList] at first
  exact Option.some.inj first

theorem degree_reverse (c : ControlPolygon ℝ) : c.reverse.degree = c.degree := by
  have size := congrArg List.length (toList_reverse c)
  simpa [toList, degree] using size

theorem vertex_reverse {c : ControlPolygon ℝ} {i : ℕ} (h : i ≤ c.degree) :
    c.reverse.vertex i = c.vertex (c.degree - i) := by
  have long : c.toList.length = c.degree + 1 := rfl
  apply vertex_eq
  rw [toList_reverse, List.getElem?_reverse (by omega), long, Nat.add_sub_cancel,
    getElem?_toList (by omega)]

theorem reverse_reverse (c : ControlPolygon ℝ) : c.reverse.reverse = c := by
  apply ext_vertex
  · rw [degree_reverse, degree_reverse]
  · intro i h
    rw [degree_reverse, degree_reverse] at h
    rw [vertex_reverse (by rwa [degree_reverse]), degree_reverse, vertex_reverse (by omega),
      Nat.sub_sub_self h]

theorem isFlat_reverse (c : ControlPolygon ℝ) (tolerance : ℝ) :
    c.reverse.isFlat tolerance = c.isFlat tolerance := by
  have inner : c.reverse.rest.dropLast = c.rest.dropLast.reverse := by
    have rest := congrArg (List.dropLast ∘ List.tail) (toList_reverse c)
    simp only [Function.comp_apply, List.tail_reverse, List.dropLast_reverse,
      List.tail_dropLast] at rest
    exact rest
  rw [isFlat, isFlat, inner, List.all_reverse, first_reverse, last_reverse]
  simp only [distanceToSegment_comm _ c.last]

theorem split_reverse_left (c : ControlPolygon ℝ) :
    (c.reverse.split (1 / 2)).1 = (c.split (1 / 2)).2.reverse := by
  apply ext_vertex
  · rw [degree_split_left, degree_reverse, degree_reverse, degree_split_right]
  · intro k h
    rw [degree_split_left, degree_reverse] at h
    have back : ∀ i ≤ c.degree, c.reverse.vertex i = c.vertex (c.degree - i) :=
      fun i hi => vertex_reverse hi
    rw [vertex_split_left (by rwa [degree_reverse]), vertex_reverse (by rwa [degree_split_right]),
      degree_split_right, vertex_split_right (by omega), iterate_row_reverse back (by omega),
      Nat.sub_sub_self h, Nat.sub_zero]

/-- **Halves the other way round.** The first half of the reversed polygon is the second
half reversed, and the second the first. -/
theorem split_reverse (c : ControlPolygon ℝ) :
    c.reverse.split (1 / 2) = ((c.split (1 / 2)).2.reverse, (c.split (1 / 2)).1.reverse) := by
  refine Prod.ext c.split_reverse_left ?_
  have back := c.reverse.split_reverse_left
  rw [reverse_reverse] at back
  rw [back, reverse_reverse]

/-- What is drawn of the reversed polygon is what is drawn of the polygon, backwards. -/
theorem flattenFrom_reverse (tolerance : ℝ) (depth : ℕ) (c : ControlPolygon ℝ) :
    c.last :: c.reverse.flattenFrom tolerance depth =
      (c.first :: c.flattenFrom tolerance depth).reverse := by
  induction depth generalizing c with
  | zero =>
    rw [flattenFrom, flattenFrom, last_reverse]
    rfl
  | succ depth ih =>
    rw [flattenFrom, flattenFrom, isFlat_reverse, split_reverse]
    by_cases flat : c.isFlat tolerance = true
    · rw [if_pos flat, if_pos flat, last_reverse]
      rfl
    · rw [if_neg flat, if_neg flat]
      dsimp only
      -- Each half ends where the other starts, so one point joins them either way.
      have left := ih (c.split (1 / 2)).1
      have right := ih (c.split (1 / 2)).2
      rw [last_split_left, ← first_split_right, List.reverse_cons] at left
      rw [last_split_right, List.reverse_cons] at right
      rw [← List.cons_append, right, List.append_assoc, List.singleton_append, left,
        ← List.append_assoc, ← List.reverse_append, ← List.reverse_cons]
      rfl

end ControlPolygon

/-! ### Arcs -/

theorem Arc.point_congr {arc arc' : Arc ℝ} {t t' : ℝ} (center : arc.center = arc'.center)
    (rx : arc.rx = arc'.rx) (ry : arc.ry = arc'.ry) (phi : arc.phi = arc'.phi)
    (cosine : cos (arc.angle t) = cos (arc'.angle t'))
    (sine : sin (arc.angle t) = sin (arc'.angle t')) : arc.point t = arc'.point t' := by
  rw [point, point, center, rx, ry, phi, cosine, sine]

/-- An arc that is another one with the parameter run backwards is sampled backwards. -/
theorem Arc.bisect_reverse {arc back : Arc ℝ} (runs : ∀ t, back.point t = arc.point (1 - t))
    (tolerance : ℝ) (depth : ℕ) (t₀ : ℝ) (a : Point ℝ) (t₁ : ℝ) (b : Point ℝ) :
    back.bisect tolerance depth (1 - t₁) b (1 - t₀) a =
      (arc.bisect tolerance depth t₀ a t₁ b).reverse := by
  induction depth generalizing t₀ a t₁ b with
  | zero => rfl
  | succ depth ih =>
    rw [bisect, bisect, length_sub_comm a b]
    by_cases near : (b - a).length ≤ tolerance
    · rw [if_pos near, if_pos near]
      rfl
    · have middle : (1 - t₁ + (1 - t₀)) / 2 = 1 - (t₀ + t₁) / 2 := by ring
      rw [if_neg near, if_neg near, middle]
      dsimp only
      rw [runs, sub_sub_cancel, ih, ih, List.reverse_append, List.reverse_cons, List.append_assoc,
        List.singleton_append]

namespace EndpointArc

/-- The same arc, drawn from its other end. -/
def reverse (e : EndpointArc ℝ) : EndpointArc ℝ :=
  ⟨e.p₂, e.p₁, e.rx, e.ry, e.rotation, e.large, !e.sweep⟩

@[simp] theorem rx_reverse (e : EndpointArc ℝ) : e.reverse.rx = e.rx := rfl

@[simp] theorem ry_reverse (e : EndpointArc ℝ) : e.reverse.ry = e.ry := rfl

theorem angleBetween_comm (u v : Point ℝ) : angleBetween v u =
    if angleBetween u v = Real.pi then Real.pi else -angleBetween u v := by
  have conj : (⟨v.dot u, v.cross u⟩ : ℂ) = (starRingEnd ℂ) ⟨u.dot v, u.cross v⟩ := by
    apply Complex.ext
    · simp only [Point.dot, Complex.conj_re]
      ring
    · simp only [Point.cross, Complex.conj_im]
      ring
  have turned := Complex.arg_conj ⟨u.dot v, u.cross v⟩
  rw [← conj] at turned
  exact turned

/-- In the other direction the extent is the opposite one, half a turn included. -/
theorem directed_reverse (sweep : Bool) (δ : ℝ) :
    directed (!sweep) (if δ = Real.pi then Real.pi else -δ) = -directed sweep δ := by
  have positive := Real.pi_pos
  rw [directed_eq, directed_eq]
  cases sweep <;> simp only [Bool.not_false, Bool.not_true, Bool.false_eq_true, if_true, if_false]
    <;> split_ifs <;> linarith

theorem half_reverse (e : EndpointArc ℝ) : e.reverse.half = -e.half := by
  have half (e : EndpointArc ℝ) : e.half =
      ⟨Real.cos (radians e.rotation) * ((e.p₁.x - e.p₂.x) / 2) +
        Real.sin (radians e.rotation) * ((e.p₁.y - e.p₂.y) / 2),
      -Real.sin (radians e.rotation) * ((e.p₁.x - e.p₂.x) / 2) +
        Real.cos (radians e.rotation) * ((e.p₁.y - e.p₂.y) / 2)⟩ := rfl
  rw [half, half]
  ext
  · rw [neg_x]
    simp only [reverse]
    ring
  · rw [neg_y]
    simp only [reverse]
    ring

theorem reach_reverse (e : EndpointArc ℝ) : e.reverse.reach = e.reach := by
  rw [reach_eq, reach_eq, half_reverse, neg_x, neg_y, neg_div, neg_div, neg_sq, neg_sq]
  rfl

theorem grown_reverse (e : EndpointArc ℝ) (radius : ℝ) :
    e.reverse.grown radius = e.grown radius := by
  rw [grown_eq, grown_eq, reach_reverse]

/-- The flags that the bulge goes by differ for the one arc if they agree for the other. -/
theorem bulge_reverse (e : EndpointArc ℝ) : e.reverse.bulge = -e.bulge := by
  have flags : (e.reverse.large == e.reverse.sweep) = !(e.large == e.sweep) := by
    change (e.large == !e.sweep) = !(e.large == e.sweep)
    cases e.large <;> cases e.sweep <;> rfl
  rw [bulge, bulge, flags, half_reverse]
  simp only [grown_reverse, neg_x, neg_y, rx_reverse, ry_reverse, mul_neg, neg_mul, neg_neg]
  cases e.large == e.sweep <;> simp

theorem middle_reverse (e : EndpointArc ℝ) : e.reverse.middle = e.middle := by
  rw [middle, middle, half_reverse, bulge_reverse]
  simp only [grown_reverse, neg_x, neg_y, rx_reverse, ry_reverse, mul_neg, neg_mul, neg_neg]

/-- Both arcs belong to one ellipse. -/
theorem center_reverse (e : EndpointArc ℝ) : e.reverse.center.center = e.center.center := by
  have center (e : EndpointArc ℝ) : e.center.center =
      ⟨Real.cos (radians e.rotation) * e.middle.x - Real.sin (radians e.rotation) * e.middle.y +
          (e.p₁.x + e.p₂.x) / 2,
        Real.sin (radians e.rotation) * e.middle.x + Real.cos (radians e.rotation) * e.middle.y +
          (e.p₁.y + e.p₂.y) / 2⟩ := rfl
  rw [center, center, middle_reverse]
  simp only [reverse, add_comm e.p₁.x, add_comm e.p₁.y]

theorem spoke_reverse (e : EndpointArc ℝ) (h : Point ℝ) : e.reverse.spoke h = e.spoke h := by
  rw [spoke, spoke, middle_reverse, rx_reverse, ry_reverse, grown_reverse, grown_reverse]

theorem delta_reverse (e : EndpointArc ℝ) : e.reverse.center.delta = -e.center.delta := by
  have back : -(-e.half) = e.half := by
    ext
    · rw [neg_x, neg_x, neg_neg]
    · rw [neg_y, neg_y, neg_neg]
  have delta (e : EndpointArc ℝ) : e.center.delta =
      directed e.sweep (angleBetween (e.spoke e.half) (e.spoke (-e.half))) := rfl
  rw [delta, delta, spoke_reverse, spoke_reverse, half_reverse, back, angleBetween_comm]
  exact directed_reverse _ _

/-- **The reversed arc** is the arc with the parameter run backwards: it starts along the
spoke that the other one ends along. -/
theorem point_reverse {e : EndpointArc ℝ} (hrx : e.rx ≠ 0) (hry : e.ry ≠ 0) (apart : e.p₁ ≠ e.p₂)
    (t : ℝ) : e.reverse.center.point t = e.center.point (1 - t) := by
  obtain ⟨-, cosEnd, sinEnd⟩ := cos_sin_ends hrx hry apart
  obtain ⟨⟨cosStart, sinStart⟩, -⟩ :=
    cos_sin_ends (e := e.reverse) (by simpa using hrx) (by simpa using hry) apart.symm
  rw [spoke_reverse, half_reverse] at cosStart sinStart
  have angle : e.reverse.center.angle t = e.reverse.center.theta - t * e.center.delta := by
    rw [Arc.angle, delta_reverse, mul_neg, sub_eq_add_neg]
  have angle' : e.center.angle (1 - t) =
      e.center.theta + e.center.delta - t * e.center.delta := by
    rw [Arc.angle]
    ring
  have cosine : Real.cos (e.reverse.center.angle t) = Real.cos (e.center.angle (1 - t)) := by
    rw [angle, angle', Real.cos_sub, Real.cos_sub, cosStart, sinStart, cosEnd, sinEnd]
  have sine : Real.sin (e.reverse.center.angle t) = Real.sin (e.center.angle (1 - t)) := by
    rw [angle, angle', Real.sin_sub, Real.sin_sub, cosStart, sinStart, cosEnd, sinEnd]
  have wide : e.reverse.center.rx = e.center.rx := grown_reverse e e.rx
  have high : e.reverse.center.ry = e.center.ry := grown_reverse e e.ry
  exact Arc.point_congr e.center_reverse wide high rfl cosine sine

theorem samples_reverse (e : EndpointArc ℝ) (hrx : e.rx ≠ 0) (hry : e.ry ≠ 0)
    (apart : e.p₁ ≠ e.p₂) (tolerance : ℝ) (depth : ℕ) :
    e.reverse.samples tolerance depth = (e.samples tolerance depth).reverse := by
  have runs := point_reverse hrx hry apart
  have half : (1 : ℝ) - 1 / 2 = 1 / 2 := by norm_num
  have middle : e.reverse.center.point (1 / 2) = e.center.point (1 / 2) := by rw [runs, half]
  have first := Arc.bisect_reverse runs tolerance depth 0 e.p₁ (1 / 2) (e.center.point (1 / 2))
  have second := Arc.bisect_reverse runs tolerance depth (1 / 2) (e.center.point (1 / 2)) 1 e.p₂
  rw [half, sub_zero] at first
  rw [half, sub_self] at second
  have start : e.reverse.p₁ = e.p₂ := rfl
  have finish : e.reverse.p₂ = e.p₁ := rfl
  rw [samples, samples, start, finish, middle, first, second]
  simp

end EndpointArc

/-- **Flattening does not depend on the direction.** The control polygon read backwards is
flattened to the same vertices backwards, and so is an arc from its other end in the other
direction. -/
theorem flatten_other_way {tolerance : ℝ} (positive : 0 < tolerance) (depth : ℤ) :
    (∀ c : ControlPolygon ℝ, ∃ ps, Bezier.flatten c.toList tolerance depth = .ok ps ∧
      Bezier.flatten c.toList.reverse tolerance depth = .ok ps.reverse) ∧
    ∀ (p₁ p₂ : Point ℝ) (rx ry rotation : ℝ) (large sweep : Bool), ∃ ps,
      (EndpointArc.mk p₁ p₂ rx ry rotation large sweep).flatten tolerance depth = .ok ps ∧
      (EndpointArc.mk p₂ p₁ rx ry rotation large !sweep).flatten tolerance depth =
        .ok ps.reverse := by
  constructor
  · intro c
    refine ⟨_, c.flatten_toList positive depth, ?_⟩
    rw [← ControlPolygon.toList_reverse, ControlPolygon.flatten_toList _ positive,
      ControlPolygon.first_reverse, ControlPolygon.flattenFrom_reverse]
  · intro p₁ p₂ rx ry rotation large sweep
    refine ⟨_, Exact.flatten_eq _ positive depth, ?_⟩
    rw [Exact.flatten_eq _ positive]
    by_cases closed : p₁ = p₂
    · simp [closed, beq_iff]
    · have apart : ¬ (p₁ == p₂) = true := (beq_iff p₁ p₂).not.mpr closed
      have apart' : ¬ (p₂ == p₁) = true := (beq_iff p₂ p₁).not.mpr fun same => closed same.symm
      rw [if_neg apart, if_neg apart']
      by_cases straight : (rx == 0 || ry == 0) = true
      · rw [if_pos straight, if_pos straight]
        rfl
      · obtain ⟨hrx, hry⟩ : rx ≠ 0 ∧ ry ≠ 0 := by simpa using straight
        rw [if_neg straight, if_neg straight]
        let e : EndpointArc ℝ := ⟨p₁, p₂, rx, ry, rotation, large, sweep⟩
        exact congrArg _ (e.samples_reverse hrx hry closed tolerance _)

/-- A cusp, and half a turn, which is half a turn either way. -/
theorem flatten_other_way_half_turn :
    (0 : ℝ) < 1 / 10 ∧
      (∃ ps : List (Point ℝ),
        Bezier.flatten [⟨0, 0⟩, ⟨4, 4⟩, ⟨-4, 4⟩, ⟨1, 0⟩] (1 / 10) 5 = .ok ps ∧
        Bezier.flatten [⟨1, 0⟩, ⟨-4, 4⟩, ⟨4, 4⟩, ⟨0, 0⟩] (1 / 10) 5 = .ok ps.reverse) ∧
      ∃ ps : List (Point ℝ),
        (EndpointArc.mk ⟨0, 0⟩ ⟨2, 0⟩ 1 1 0 false true).flatten (1 / 10) 5 = .ok ps ∧
        (EndpointArc.mk ⟨2, 0⟩ ⟨0, 0⟩ 1 1 0 false false).flatten (1 / 10) 5 =
          .ok ps.reverse := by
  have positive : (0 : ℝ) < 1 / 10 := by norm_num
  obtain ⟨curves, arcs⟩ := flatten_other_way positive 5
  exact ⟨positive, curves ⟨⟨0, 0⟩, [⟨4, 4⟩, ⟨-4, 4⟩, ⟨1, 0⟩]⟩, arcs _ _ 1 1 0 false true⟩

end BoardPlotter
