import Mathlib.Algebra.Order.Field.Basic
import Mathlib.Tactic.FieldSimp
import BoardPlotter.Proofs.Plan.Thinning

/-!
# Crossings with the boundary of a window

The closed rectangle of a window is the common part of the inner sides of its
four edges (`Window.mem_rect_iff_side`), and the side a moving point is on
changes linearly (`side_along`).

So a point that leaves some half planes of a list touches the edge of one of
them while it is still in all of them (`exists_touch`). On a rectangle that
touch is a reported crossing: edges parallel to the walk are never the one left,
and a corner is reported by the other edge there
(`Window.exists_crossing_leaving`, `Window.exists_crossing_entering`).
-/

namespace BoardPlotter

open Point

/-! ### Two lines -/

namespace Crossing

/-- The parameters solve the two linear equations of the meeting point. -/
theorem along_eq_along {a b c d : Point ℝ} {t u : ℝ} (skew : (b - a).det (d - c) ≠ 0) :
    along a b t = along c d u ↔
      (c - a).det (d - c) = t * (b - a).det (d - c) ∧
        (c - a).det (b - a) = u * (b - a).det (d - c) := by
  simp only [Point.ext_iff, along_x, along_y, det, sub_x, sub_y] at skew ⊢
  constructor
  · rintro ⟨hx, hy⟩
    exact ⟨by linear_combination (d.x - c.x) * hy - (d.y - c.y) * hx,
      by linear_combination (b.x - a.x) * hy - (b.y - a.y) * hx⟩
  · rintro ⟨ht, hu⟩
    constructor
    · apply mul_left_cancel₀ skew
      linear_combination (d.x - c.x) * hu - (b.x - a.x) * ht
    · apply mul_left_cancel₀ skew
      linear_combination (d.y - c.y) * hu - (b.y - a.y) * ht

theorem ofLines?_eq_some {a b c d : Point ℝ} {h : Crossing ℝ} :
    ofLines? a b c d = some h ↔
      (b - a).det (d - c) ≠ 0 ∧ along a b h.t = along c d h.u ∧ h.point = along a b h.t := by
  by_cases parallel : (b - a).det (d - c) = 0
  · simp [ofLines?, parallel]
  have value : ofLines? a b c d =
      some ⟨along a b ((c - a).det (d - c) / (b - a).det (d - c)),
        (c - a).det (d - c) / (b - a).det (d - c), (c - a).det (b - a) / (b - a).det (d - c)⟩ := by
    simp [ofLines?, parallel, along]
  rw [value, Option.some.injEq, along_eq_along parallel]
  constructor
  · rintro rfl
    exact ⟨parallel, ⟨(div_mul_cancel₀ _ parallel).symm, (div_mul_cancel₀ _ parallel).symm⟩, rfl⟩
  · rintro ⟨-, ⟨ht, hu⟩, at_t⟩
    obtain ⟨point, t, u⟩ := h
    rw [ht, hu, mul_div_cancel_right₀ _ parallel, mul_div_cancel_right₀ _ parallel, ← at_t]

theorem within_zero (t : ℝ) : within 0 t = true ↔ t ∈ Set.Icc (0 : ℝ) 1 := by
  simp [within]

theorem ofSegments?_eq_some {a b c d : Point ℝ} {h : Crossing ℝ} :
    ofSegments? 0 a b c d = some h ↔
      (b - a).det (d - c) ≠ 0 ∧ h.t ∈ Set.Icc (0 : ℝ) 1 ∧ h.u ∈ Set.Icc (0 : ℝ) 1 ∧
        along a b h.t = along c d h.u ∧ h.point = along a b h.t := by
  have same {g : Crossing ℝ} (ht : g.t ∈ Set.Icc (0 : ℝ) 1) (hu : g.u ∈ Set.Icc (0 : ℝ) 1)
      (hp : g.point = along a b g.t) :
      (⟨a + (b - a).scale (Scalar.clampUnit g.t), Scalar.clampUnit g.t, Scalar.clampUnit g.u⟩ :
        Crossing ℝ) = g := by
    rw [Exact.clampUnit_of_mem ht.1 ht.2, Exact.clampUnit_of_mem hu.1 hu.2]
    exact congrArg (Crossing.mk · g.t g.u) hp.symm
  simp only [ofSegments?, Option.bind_eq_bind, Option.bind_eq_some_iff,
    Option.ite_none_right_eq_some, Bool.and_eq_true, within_zero, Option.some.injEq]
  constructor
  · rintro ⟨g, hg, ⟨ht, hu⟩, hgh⟩
    obtain ⟨skew, meet, hp⟩ := ofLines?_eq_some.mp hg
    obtain rfl := (same ht hu hp).symm.trans hgh
    exact ⟨skew, ht, hu, meet, hp⟩
  · rintro ⟨skew, ht, hu, meet, hp⟩
    exact ⟨h, ofLines?_eq_some.mpr ⟨skew, meet, hp⟩, ⟨ht, hu⟩, same ht hu hp⟩

end Crossing

/-! ### Half planes -/

/-- On which side of a directed edge a point is: positive to its left, zero on
its line. -/
noncomputable def side (e : Point ℝ × Point ℝ) (p : Point ℝ) : ℝ := (e.2 - e.1).cross (p - e.1)

/-- A point moving on a line changes its side at a constant rate. -/
theorem side_along (e : Point ℝ × Point ℝ) (a b : Point ℝ) (t : ℝ) :
    side e (along a b t) = side e a - (b - a).det (e.2 - e.1) * t := by
  simp only [side, cross, det, sub_x, sub_y, along_x, along_y]
  ring

@[simp] theorem side_along_self (e : Point ℝ × Point ℝ) (u : ℝ) :
    side e (along e.1 e.2 u) = 0 := by
  simp only [side, cross, sub_x, sub_y, along_x, along_y]
  ring

/-- Half planes are convex. -/
theorem side_nonneg_between {e : Point ℝ × Point ℝ} {a b : Point ℝ} {s r t : ℝ} (hsr : s ≤ r)
    (hrt : r ≤ t) (hs : 0 ≤ side e (along a b s)) (ht : 0 ≤ side e (along a b t)) :
    0 ≤ side e (along a b r) := by
  rw [side_along] at hs ht ⊢
  by_cases h : 0 ≤ (b - a).det (e.2 - e.1)
  · have := mul_le_mul_of_nonneg_left hrt h
    linarith
  · have := mul_le_mul_of_nonpos_left hsr (not_le.mp h).le
    linarith

/-- A point that crosses an edge outwards is on the edge in between. -/
theorem exists_side_eq_zero {e : Point ℝ × Point ℝ} {a b : Point ℝ} {s t : ℝ} (hst : s ≤ t)
    (hs : 0 ≤ side e (along a b s)) (ht : side e (along a b t) < 0) :
    ∃ r, s ≤ r ∧ r < t ∧ side e (along a b r) = 0 := by
  rw [side_along] at hs ht
  set k := (b - a).det (e.2 - e.1)
  have slope : 0 < k := by
    by_contra h
    have := mul_le_mul_of_nonpos_left hst (not_lt.mp h)
    linarith
  refine ⟨side e a / k, ?_, ?_, ?_⟩
  · rw [le_div_iff₀ slope]
    linarith
  · rw [div_lt_iff₀ slope]
    linarith
  · rw [side_along, mul_div_cancel₀ _ slope.ne']
    ring

/-- **A point that is in every half plane at `s` is still so at `t`, or on its
way it reaches, inside all of them, an edge that it will have crossed at `t`.** -/
theorem exists_touch (es : List (Point ℝ × Point ℝ)) {a b : Point ℝ} {s t : ℝ} (hst : s ≤ t)
    (inside : ∀ e ∈ es, 0 ≤ side e (along a b s)) :
    (∀ e ∈ es, 0 ≤ side e (along a b t)) ∨
      ∃ r, s ≤ r ∧ r < t ∧ (∀ e ∈ es, 0 ≤ side e (along a b r)) ∧
        ∃ e ∈ es, side e (along a b r) = 0 ∧ side e (along a b t) < 0 := by
  induction es with
  | nil => exact .inl (by simp)
  | cons e es ih =>
    obtain ⟨first, others⟩ := List.forall_mem_cons.mp inside
    have between {r t : ℝ} (hsr : s ≤ r) (hrt : r ≤ t)
        (ht : ∀ e ∈ es, 0 ≤ side e (along a b t)) : ∀ e ∈ es, 0 ≤ side e (along a b r) :=
      fun e he => side_nonneg_between hsr hrt (others e he) (ht e he)
    rcases ih others with stays | ⟨r, hsr, hrt, inner, d, hd, touch, left⟩
    · by_cases h : 0 ≤ side e (along a b t)
      · exact .inl (List.forall_mem_cons.mpr ⟨h, stays⟩)
      · obtain ⟨r, hsr, hrt, zero⟩ := exists_side_eq_zero hst first (not_le.mp h)
        exact .inr ⟨r, hsr, hrt,
          List.forall_mem_cons.mpr ⟨zero.ge, between hsr hrt.le stays⟩,
          e, List.mem_cons_self, zero, not_le.mp h⟩
    · by_cases h : 0 ≤ side e (along a b r)
      · exact .inr ⟨r, hsr, hrt, List.forall_mem_cons.mpr ⟨h, inner⟩,
          d, List.mem_cons_of_mem e hd, touch, left⟩
      -- `e` is crossed before the first of the others.
      · obtain ⟨r', hsr', hrt', zero⟩ := exists_side_eq_zero hsr first (not_le.mp h)
        have beyond : side e (along a b t) < 0 := by
          by_contra back
          exact h (side_nonneg_between hrt'.le hrt.le zero.ge (not_lt.mp back))
        exact .inr ⟨r', hsr', hrt'.trans hrt,
          List.forall_mem_cons.mpr ⟨zero.ge, between hsr' hrt'.le inner⟩,
          e, List.mem_cons_self, zero, beyond⟩

/-! ### The rectangle -/

namespace Window

/-- The closed rectangle from the origin. -/
def rect (w : Window ℝ) : Set (Point ℝ) :=
  {p | (0 ≤ p.x ∧ p.x ≤ w.width) ∧ 0 ≤ p.y ∧ p.y ≤ w.height}

/-- A window of some extent, with no tolerance. -/
structure IsExact (w : Window ℝ) : Prop where
  eps : w.eps = 0
  width : 0 < w.width
  height : 0 < w.height

variable {w : Window ℝ} {a b : Point ℝ}

theorem contains_iff (exact : w.IsExact) (p : Point ℝ) : w.contains p = true ↔ p ∈ w.rect := by
  simp [contains, rect, exact.eps]

theorem contains_eq_false (exact : w.IsExact) (p : Point ℝ) :
    w.contains p = false ↔ p ∉ w.rect := by
  rw [← contains_iff exact, Bool.not_eq_true]

theorem boundary_eq (w : Window ℝ) : w.boundary =
    [(⟨0, 0⟩, ⟨w.width, 0⟩), (⟨w.width, 0⟩, ⟨w.width, w.height⟩),
      (⟨w.width, w.height⟩, ⟨0, w.height⟩), (⟨0, w.height⟩, ⟨0, 0⟩)] := by
  simp [boundary]

/-- The sides of the four edges are the four bounds of the rectangle, scaled. -/
theorem forall_side_boundary (w : Window ℝ) (p : Point ℝ) (P : ℝ → Prop) :
    (∀ e ∈ w.boundary, P (side e p)) ↔
      P (w.width * p.y) ∧ P (w.height * (w.width - p.x)) ∧
        P (w.width * (w.height - p.y)) ∧ P (w.height * p.x) := by
  have bottom : side (⟨0, 0⟩, ⟨w.width, 0⟩) p = w.width * p.y := by
    simp [side, cross]
  have right : side (⟨w.width, 0⟩, ⟨w.width, w.height⟩) p = w.height * (w.width - p.x) := by
    simp only [side, cross, sub_x, sub_y]
    ring
  have top : side (⟨w.width, w.height⟩, ⟨0, w.height⟩) p = w.width * (w.height - p.y) := by
    simp only [side, cross, sub_x, sub_y]
    ring
  have left : side (⟨0, w.height⟩, ⟨0, 0⟩) p = w.height * p.x := by
    simp [side, cross]
  simp only [boundary_eq, List.forall_mem_cons, bottom, right, top, left]
  simp

theorem mem_rect_iff_side (exact : w.IsExact) (p : Point ℝ) :
    p ∈ w.rect ↔ ∀ e ∈ w.boundary, 0 ≤ side e p := by
  rw [forall_side_boundary w p (0 ≤ ·), mul_nonneg_iff_of_pos_left exact.width,
    mul_nonneg_iff_of_pos_left exact.width, mul_nonneg_iff_of_pos_left exact.height,
    mul_nonneg_iff_of_pos_left exact.height, sub_nonneg, sub_nonneg]
  constructor
  · rintro ⟨⟨left, right⟩, bottom, top⟩
    exact ⟨bottom, right, top, left⟩
  · rintro ⟨bottom, right, top, left⟩
    exact ⟨⟨left, right⟩, bottom, top⟩

/-- The rectangle is convex. -/
theorem along_mem_rect (exact : w.IsExact) {s r t : ℝ} (hs : along a b s ∈ w.rect)
    (ht : along a b t ∈ w.rect) (hsr : s ≤ r) (hrt : r ≤ t) : along a b r ∈ w.rect := by
  rw [mem_rect_iff_side exact] at hs ht ⊢
  exact fun e he => side_nonneg_between hsr hrt (hs e he) (ht e he)

/-- A point of the rectangle on the line of an edge is on the edge. -/
theorem exists_along_edge (exact : w.IsExact) {p : Point ℝ} (hp : p ∈ w.rect)
    {e : Point ℝ × Point ℝ} (he : e ∈ w.boundary) (touch : side e p = 0) :
    ∃ u ∈ Set.Icc (0 : ℝ) 1, p = along e.1 e.2 u := by
  have hw := exact.width
  have hh := exact.height
  obtain ⟨⟨x₀, x₁⟩, y₀, y₁⟩ := hp
  have ratio {n d : ℝ} (hd : 0 < d) (h₀ : 0 ≤ n) (h₁ : n ≤ d) : n / d ∈ Set.Icc (0 : ℝ) 1 :=
    ⟨div_nonneg h₀ hd.le, (div_le_one hd).mpr h₁⟩
  rw [boundary_eq] at he
  simp only [List.mem_cons, List.not_mem_nil, or_false] at he
  rcases he with rfl | rfl | rfl | rfl
  · have hy : p.y = 0 := by simpa [side, cross, hw.ne'] using touch
    refine ⟨p.x / w.width, ratio hw x₀ x₁, ?_⟩
    ext <;> simp [hy]
    field_simp
  · have hx : p.x = w.width := by
      simpa [side, cross, hh.ne', sub_eq_zero] using touch
    refine ⟨p.y / w.height, ratio hh y₀ y₁, ?_⟩
    ext <;> simp [hx]
    field_simp
  · have hy : p.y = w.height := by
      simpa [side, cross, hw.ne', sub_eq_zero] using touch
    refine ⟨(w.width - p.x) / w.width, ratio hw (by linarith) (by linarith), ?_⟩
    ext <;> simp [hy]
    field_simp
    ring
  · have hx : p.x = 0 := by simpa [side, cross, hh.ne'] using touch
    refine ⟨(w.height - p.y) / w.height, ratio hh (by linarith) (by linarith), ?_⟩
    ext <;> simp [hx]
    field_simp
    ring

/-- The edges belong to the rectangle. -/
theorem along_edge_mem_rect (exact : w.IsExact) {e : Point ℝ × Point ℝ} (he : e ∈ w.boundary)
    {u : ℝ} (hu : u ∈ Set.Icc (0 : ℝ) 1) : along e.1 e.2 u ∈ w.rect := by
  have ends : e.1 ∈ w.rect ∧ e.2 ∈ w.rect := by
    have hw := exact.width.le
    have hh := exact.height.le
    rw [boundary_eq] at he
    simp only [List.mem_cons, List.not_mem_nil, or_false] at he
    rcases he with rfl | rfl | rfl | rfl <;> simp [rect, hw, hh]
  apply along_mem_rect exact (s := 0) (t := 1) _ _ hu.1 hu.2
  · rw [along_zero]
    exact ends.1
  · rw [along_one]
    exact ends.2

/-! ### Reported crossings -/

/-- On the boundary of the rectangle. -/
def onEdge (w : Window ℝ) (p : Point ℝ) : Prop := ∃ e ∈ w.boundary, side e p = 0

/-- The crossings with the edges, sorted along the walk. -/
noncomputable def hits (w : Window ℝ) (a b : Point ℝ) : List (Crossing ℝ) :=
  (w.boundary.filterMap fun edge => Crossing.ofSegments? w.eps a b edge.1 edge.2).mergeSort
    fun g h => g.t ≤ h.t

theorem crossings_eq (exact : w.IsExact) : w.crossings a b = mergeNear 0 (w.hits a b) := by
  rw [crossings, hits, exact.eps]

theorem mem_hits (exact : w.IsExact) {h : Crossing ℝ} :
    h ∈ w.hits a b ↔ ∃ e ∈ w.boundary, Crossing.ofSegments? 0 a b e.1 e.2 = some h := by
  rw [hits, List.mem_mergeSort, List.mem_filterMap, exact.eps]

theorem hits_sorted (w : Window ℝ) (a b : Point ℝ) :
    (w.hits a b).Pairwise fun g h => g.t ≤ h.t := by
  have sorted : (w.hits a b).Pairwise fun g h => decide (g.t ≤ h.t) = true := by
    apply List.pairwise_mergeSort
    · intro f g h hfg hgh
      rw [decide_eq_true_eq] at hfg hgh ⊢
      exact hfg.trans hgh
    · intro g h
      simpa using le_total g.t h.t
  exact sorted.imp of_decide_eq_true

theorem crossings_sorted (exact : w.IsExact) :
    (w.crossings a b).Pairwise fun g h => g.t < h.t := by
  rw [crossings_eq exact]
  exact mergeNear_sorted le_rfl (w.hits_sorted a b)

/-- A reported crossing is a point of the segment on the boundary. -/
theorem mem_crossings (exact : w.IsExact) {h : Crossing ℝ} (hh : h ∈ w.crossings a b) :
    h.t ∈ Set.Icc (0 : ℝ) 1 ∧ h.point = along a b h.t ∧ h.point ∈ w.rect ∧ w.onEdge h.point := by
  rw [crossings_eq exact] at hh
  obtain ⟨e, he, hit⟩ := (mem_hits exact).mp ((mergeNear_sublist 0 _).subset hh)
  obtain ⟨-, ht, hu, meet, hp⟩ := Crossing.ofSegments?_eq_some.mp hit
  refine ⟨ht, hp, ?_, e, he, ?_⟩
  · rw [hp, meet]
    exact along_edge_mem_rect exact he hu
  · rw [hp, meet, side_along_self]

/-- Where a segment meets the line of an edge it is not parallel to, while it is
in the rectangle, a crossing is reported. -/
theorem exists_crossing (exact : w.IsExact) {e : Point ℝ × Point ℝ} (he : e ∈ w.boundary) {t : ℝ}
    (ht : t ∈ Set.Icc (0 : ℝ) 1) (skew : (b - a).det (e.2 - e.1) ≠ 0)
    (inside : along a b t ∈ w.rect) (touch : side e (along a b t) = 0) :
    ∃ h ∈ w.crossings a b, h.t = t := by
  obtain ⟨u, hu, meet⟩ := exists_along_edge exact inside he touch
  have hit : (⟨along a b t, t, u⟩ : Crossing ℝ) ∈ w.hits a b :=
    (mem_hits exact).mpr ⟨e, he, Crossing.ofSegments?_eq_some.mpr ⟨skew, ht, hu, meet, rfl⟩⟩
  rw [crossings_eq exact]
  exact exists_mem_mergeNear (w.hits_sorted a b) hit

/-- **A segment that is inside at `s` and ends outside crosses the boundary at
`s` or after it.** -/
theorem exists_crossing_leaving (exact : w.IsExact) (hb : b ∉ w.rect) {s : ℝ} (h₀ : 0 ≤ s)
    (h₁ : s ≤ 1) (inside : along a b s ∈ w.rect) : ∃ h ∈ w.crossings a b, s ≤ h.t := by
  have sides := (mem_rect_iff_side exact _).mp inside
  rcases exists_touch w.boundary h₁ sides with stays | ⟨r, hsr, hr, inner, e, he, zero, left⟩
  · rw [along_one] at stays
    exact absurd ((mem_rect_iff_side exact b).mpr stays) hb
  · have skew : (b - a).det (e.2 - e.1) ≠ 0 := by
      intro parallel
      rw [side_along, parallel, zero_mul] at zero left
      linarith
    obtain ⟨h, hh, rfl⟩ := exists_crossing exact he ⟨h₀.trans hsr, hr.le⟩ skew
      ((mem_rect_iff_side exact _).mpr inner) zero
    exact ⟨h, hh, hsr⟩

/-- **A segment that starts outside and is inside at `t` crosses the boundary at
`t` or before it.** The walk back leaves. -/
theorem exists_crossing_entering (exact : w.IsExact) (ha : a ∉ w.rect) {t : ℝ} (h₀ : 0 ≤ t)
    (h₁ : t ≤ 1) (inside : along a b t ∈ w.rect) : ∃ h ∈ w.crossings a b, h.t ≤ t := by
  rw [← along_swap a b] at inside
  have sides := (mem_rect_iff_side exact _).mp inside
  rcases exists_touch w.boundary (sub_le_self 1 h₀) sides with
    stays | ⟨r, htr, hr, inner, e, he, zero, left⟩
  · rw [along_one] at stays
    exact absurd ((mem_rect_iff_side exact a).mpr stays) ha
  · have back : along b a r = along a b (1 - r) := by
      rw [← along_swap a b, sub_sub_cancel]
    have skew : (b - a).det (e.2 - e.1) ≠ 0 := by
      intro parallel
      have flat : (a - b).det (e.2 - e.1) = 0 := by
        simp only [det, sub_x, sub_y] at parallel ⊢
        linarith
      rw [side_along, flat, zero_mul] at zero left
      linarith
    have inner := (mem_rect_iff_side exact _).mpr inner
    rw [back] at inner zero
    obtain ⟨h, hh, same⟩ := exists_crossing exact he ⟨by linarith, by linarith⟩ skew inner zero
    exact ⟨h, hh, by linarith⟩

end Window

end BoardPlotter
