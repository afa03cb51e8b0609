import Mathlib.Data.List.Chain
import Mathlib.Tactic.FieldSimp
import Mathlib.Tactic.Linarith
import BoardPlotter.Proofs.Geometry.Subdivision

/-!
# Flattened Bézier curves

Flattening halves a curve until its inner control points are near the chord. The
points within a distance of a segment are closed under interpolation
(`Point.lerp_mem_around`), so with the control points the curve is near the chord.

A flattened curve is the curve at increasing multiples of the least step
`1 / 2 ^ depth`; two that are further apart than one step have the curve between them
near their chord (`ControlPolygon.flattenFrom_eq`, by the halves).
-/

namespace BoardPlotter

namespace Point

/-- The points within a distance of a segment. -/
def around (a b : Point ℝ) (tolerance : ℝ) : Set (Point ℝ) :=
  {p | ∃ q ∈ segment a b, (p - q).length ≤ tolerance}

theorem length_eq (p : Point ℝ) : p.length = √(p.x ^ 2 + p.y ^ 2) := rfl

theorem length_nonneg (p : Point ℝ) : 0 ≤ p.length := Real.sqrt_nonneg _

theorem length_sq (p : Point ℝ) : p.length ^ 2 = p.x ^ 2 + p.y ^ 2 :=
  Real.sq_sqrt (add_nonneg (sq_nonneg p.x) (sq_nonneg p.y))

theorem neg_x_le_length (p : Point ℝ) : -p.x ≤ p.length := by
  rw [length_eq]
  apply Real.le_sqrt_of_sq_le
  linarith [neg_sq p.x, sq_nonneg p.y]

theorem neg_y_le_length (p : Point ℝ) : -p.y ≤ p.length := by
  rw [length_eq]
  apply Real.le_sqrt_of_sq_le
  linarith [neg_sq p.y, sq_nonneg p.x]

theorem length_scale (p : Point ℝ) (k : ℝ) : (p.scale k).length = |k| * p.length := by
  rw [length_eq, length_eq, scale_x, scale_y, ← Real.sqrt_sq_eq_abs, ← Real.sqrt_mul (sq_nonneg k)]
  congr 1
  ring

theorem length_polar (r : ℝ) : (⟨Real.cos r, Real.sin r⟩ : Point ℝ).length = 1 := by
  rw [length_eq, Real.cos_sq_add_sin_sq, Real.sqrt_one]

theorem length_le_iff {p : Point ℝ} {r : ℝ} (hr : 0 ≤ r) :
    p.length ≤ r ↔ p.x ^ 2 + p.y ^ 2 ≤ r ^ 2 := by
  rw [length_eq, Real.sqrt_le_left hr]

/-- Distances are convex: they do not grow between two points. -/
theorem lerp_mem_around {a b p q : Point ℝ} {tolerance t : ℝ} (ht : t ∈ Set.Icc 0 1)
    (hr : 0 ≤ tolerance) (hp : p ∈ around a b tolerance) (hq : q ∈ around a b tolerance) :
    p.lerp q t ∈ around a b tolerance := by
  obtain ⟨h₀, h₁⟩ := ht
  obtain ⟨_, ⟨s, ⟨s₀, s₁⟩, rfl⟩, hp⟩ := hp
  obtain ⟨_, ⟨r, ⟨r₀, r₁⟩, rfl⟩, hq⟩ := hq
  rw [length_le_iff hr] at hp hq
  refine ⟨along a b (s * (1 - t) + r * t), ⟨_, ⟨by nlinarith, by nlinarith⟩, rfl⟩, ?_⟩
  rw [length_le_iff hr]
  set u := p - along a b s with hu
  set v := q - along a b r with hv
  have x : (p.lerp q t - along a b (s * (1 - t) + r * t)).x = u.x * (1 - t) + v.x * t := by
    simp [hu, hv]
    ring
  have y : (p.lerp q t - along a b (s * (1 - t) + r * t)).y = u.y * (1 - t) + v.y * t := by
    simp [hu, hv]
    ring
  rw [x, y]
  nlinarith [mul_nonneg h₀ (sub_nonneg.mpr h₁), sq_nonneg (u.x - v.x), sq_nonneg (u.y - v.y)]

/-- The nearest parameter of the segment shows a distance. -/
theorem mem_around_of_distance {p a b : Point ℝ} {tolerance : ℝ}
    (h : p.distanceToSegment a b ≤ tolerance) : p ∈ around a b tolerance := by
  rw [distanceToSegment] at h
  split at h
  · exact ⟨a, left_mem_segment a b, h⟩
  · refine ⟨_, ⟨_, ?_, rfl⟩, h⟩
    rw [Exact.clampUnit_eq]
    exact ⟨le_min (le_max_right _ _) zero_le_one, min_le_right _ _⟩

theorem around_mono {a b : Point ℝ} {r r' : ℝ} (le : r ≤ r') : around a b r ⊆ around a b r' := by
  rintro p ⟨q, on, near⟩
  exact ⟨q, on, near.trans le⟩

theorem segment_subset_around {a b : Point ℝ} {tolerance : ℝ} (h : 0 ≤ tolerance) :
    segment a b ⊆ around a b tolerance := by
  intro p hp
  refine ⟨p, hp, (length_le_iff h).mpr ?_⟩
  simpa using sq_nonneg tolerance

end Point

open Point

namespace ControlPolygon

theorem mem_toList {c : ControlPolygon ℝ} {p : Point ℝ} (h : p ∈ c.toList) :
    p = c.first ∨ p ∈ c.rest.dropLast ∨ p = c.last := by
  rcases List.mem_cons.mp h with rfl | h
  · exact .inl rfl
  · have nonempty := List.ne_nil_of_mem h
    rw [← List.dropLast_append_getLast nonempty, List.mem_append, List.mem_singleton] at h
    rw [last, List.getLast?_eq_getLast_of_ne_nil nonempty, Option.getD_some]
    exact .inr h

/-- A flat polygon has its curve around the chord. -/
theorem evaluate_mem_around {c : ControlPolygon ℝ} {tolerance t : ℝ} (hr : 0 ≤ tolerance)
    (flat : c.isFlat tolerance = true) (ht : t ∈ Set.Icc 0 1) :
    c.evaluate t ∈ around c.first c.last tolerance := by
  refine evaluate_mem (fun p hp q hq => lerp_mem_around ht hr hp hq) fun p hp => ?_
  have ends := segment_subset_around (a := c.first) (b := c.last) hr
  rcases mem_toList hp with rfl | inner | rfl
  · exact ends (left_mem_segment _ _)
  · have near := List.all_eq_true.mp flat p inner
    exact mem_around_of_distance (of_decide_eq_true near)
  · exact ends (right_mem_segment _ _)

/-- Two of the equal steps on the way through a curve: they come in order, and unless
they are neighbours the curve between them is around their chord. -/
def Piece (c : ControlPolygon ℝ) (tolerance steps : ℝ) (i j : ℕ) : Prop :=
  i < j ∧ (i + 1 < j → ∀ t ∈ Set.Icc (i / steps) (j / steps),
    c.evaluate t ∈ around (c.evaluate (i / steps)) (c.evaluate (j / steps)) tolerance)

/-- The steps through a half are steps through the whole. -/
theorem evaluate_of_half {c half : ControlPolygon ℝ} {depth o : ℕ}
    (runs : ∀ s, half.evaluate s = c.evaluate ((o + 2 ^ depth * s) / 2 ^ (depth + 1))) (k : ℕ) :
    half.evaluate (k / 2 ^ depth) = c.evaluate (((o + k : ℕ) : ℝ) / 2 ^ (depth + 1)) := by
  rw [runs]
  congr 1
  field_simp
  push_cast
  ring

/-- A piece of a half is a piece of the whole. -/
theorem Piece.of_half {c half : ControlPolygon ℝ} {tolerance : ℝ} {depth o : ℕ}
    (runs : ∀ s, half.evaluate s = c.evaluate ((o + 2 ^ depth * s) / 2 ^ (depth + 1))) {i j : ℕ}
    (piece : half.Piece tolerance (2 ^ depth) i j) :
    c.Piece tolerance (2 ^ (depth + 1)) (o + i) (o + j) := by
  obtain ⟨order, near⟩ := piece
  refine ⟨by omega, fun apart t ⟨h₀, h₁⟩ => ?_⟩
  have pos : (0 : ℝ) < 2 ^ depth := by positivity
  have here : half.evaluate ((t * 2 ^ (depth + 1) - o) / 2 ^ depth) = c.evaluate t := by
    rw [runs]
    congr 1
    field_simp
    ring
  rw [← here, ← evaluate_of_half runs, ← evaluate_of_half runs]
  refine near (by omega) _ ⟨?_, ?_⟩
  · rw [div_le_iff₀ (by positivity)] at h₀
    rw [div_le_div_iff_of_pos_right pos]
    push_cast at h₀
    linarith
  · rw [le_div_iff₀ (by positivity)] at h₁
    rw [div_le_div_iff_of_pos_right pos]
    push_cast at h₁
    linarith

/-- The left half runs through the steps up to the middle. -/
theorem evaluate_left (c : ControlPolygon ℝ) (depth : ℕ) (s : ℝ) :
    (c.split (1 / 2)).1.evaluate s =
      c.evaluate (((0 : ℕ) + 2 ^ depth * s) / 2 ^ (depth + 1)) := by
  rw [evaluate_split_left]
  congr 1
  field_simp
  push_cast
  ring

/-- The right half runs through the steps from the middle on. -/
theorem evaluate_right (c : ControlPolygon ℝ) (depth : ℕ) (s : ℝ) :
    (c.split (1 / 2)).2.evaluate s =
      c.evaluate (((2 ^ depth : ℕ) + 2 ^ depth * s) / 2 ^ (depth + 1)) := by
  rw [evaluate_split_right]
  congr 1
  field_simp
  push_cast
  ring

/-- **What flattening goes through.** The curve at steps that are pieces, from the
first to the last. -/
theorem flattenFrom_eq {tolerance : ℝ} (hr : 0 ≤ tolerance) (depth : ℕ) (c : ControlPolygon ℝ) :
    ∃ steps : List ℕ,
      flattenFrom tolerance depth c = steps.map (fun k : ℕ => c.evaluate (k / 2 ^ depth)) ∧
      (0 :: steps).getLast? = some (2 ^ depth) ∧
      (0 :: steps).IsChain (c.Piece tolerance (2 ^ depth)) := by
  induction depth generalizing c with
  | zero =>
    refine ⟨[1], by simp [flattenFrom], rfl, List.isChain_pair.mpr ⟨by omega, by omega⟩⟩
  | succ depth ih =>
    rw [flattenFrom]
    by_cases flat : c.isFlat tolerance = true
    · refine ⟨[2 ^ (depth + 1)], by simp [flat], rfl, List.isChain_pair.mpr ⟨by positivity, ?_⟩⟩
      intro _ t ht
      have curve := evaluate_mem_around hr flat (t := t) (by simpa using ht)
      simpa using curve
    · obtain ⟨lefts, drawnLeft, lastLeft, chainLeft⟩ := ih (c.split (1 / 2)).1
      obtain ⟨rights, drawnRight, lastRight, chainRight⟩ := ih (c.split (1 / 2)).2
      have before : (0 :: lefts).IsChain (c.Piece tolerance (2 ^ (depth + 1))) :=
        chainLeft.imp fun i j piece => by simpa using piece.of_half (evaluate_left c depth)
      have behind :
          ((0 :: rights).map (2 ^ depth + ·)).IsChain (c.Piece tolerance (2 ^ (depth + 1))) :=
        (List.isChain_map _).mpr
          (chainRight.imp fun i j piece => piece.of_half (evaluate_right c depth))
      rw [List.map_cons, List.isChain_cons] at behind
      refine ⟨lefts ++ rights.map (2 ^ depth + ·), ?_, ?_, ?_⟩
      · rw [if_neg flat]
        simp only [drawnLeft, drawnRight, evaluate_of_half (evaluate_left c depth),
          evaluate_of_half (evaluate_right c depth), List.map_append, List.map_map, Nat.zero_add]
        rfl
      · have last : (rights.map (2 ^ depth + ·)).getLast? = some (2 ^ (depth + 1)) := by
          cases rights with
          | nil =>
            have none : 0 = 2 ^ depth := Option.some.inj lastRight
            have := Nat.two_pow_pos depth
            omega
          | cons k rights =>
            rw [List.getLast?_cons_cons] at lastRight
            rw [List.getLast?_map, lastRight, Option.map_some, pow_succ, mul_two]
        rw [← List.cons_append, List.getLast?_append, last, Option.some_or]
      · rw [← List.cons_append, List.isChain_append]
        refine ⟨before, behind.2, fun i hi j hj => ?_⟩
        obtain rfl := Option.some.inj (lastLeft.symm.trans hi)
        exact behind.1 j hj

/-- There is no room for more steps than the numbers up to the last. -/
theorem length_le_of_chain {i last : ℕ} {steps : List ℕ} (h : (i :: steps).IsChain (· < ·))
    (ends : (i :: steps).getLast? = some last) : i + steps.length ≤ last := by
  induction steps generalizing i with
  | nil =>
    obtain rfl : i = last := by simpa using ends
    exact le_rfl
  | cons j steps ih =>
    obtain ⟨order, rest⟩ := List.isChain_cons_cons.mp h
    rw [List.getLast?_cons_cons] at ends
    have room := ih rest ends
    rw [List.length_cons]
    omega

/-- **Adaptive flattening keeps its tolerance.** Every control polygon is flattened, into
the curve at multiples of `1 / 2 ^ depth` that increase from zero to one, so its ends are
the end control points. Between two that are not neighbouring multiples the whole curve is
within the tolerance of the chord. -/
theorem flatten_dyadic (c : ControlPolygon ℝ) {tolerance : ℝ} (positive : 0 < tolerance)
    (depth : Int) :
    let step (k : ℕ) : ℝ := k / 2 ^ depth.toNat
    ∃ steps : List ℕ,
      Bezier.flatten c.toList tolerance depth = .ok (steps.map fun k => c.evaluate (step k)) ∧
      (steps.head? = some 0 ∧ steps.getLast? = some (2 ^ depth.toNat) ∧
        steps.length ≤ 2 ^ depth.toNat + 1) ∧
      (c.evaluate (step 0) = c.first ∧ c.evaluate (step (2 ^ depth.toNat)) = c.last) ∧
      steps.IsChain fun i j => step i < step j ∧
        (1 / 2 ^ depth.toNat < step j - step i → ∀ t ∈ Set.Icc (step i) (step j),
          ∃ q ∈ segment (c.evaluate (step i)) (c.evaluate (step j)),
            (c.evaluate t - q).length ≤ tolerance) := by
  intro step
  obtain ⟨steps, drawn, last, chain⟩ := flattenFrom_eq positive.le depth.toNat c
  have order : (0 :: steps).IsChain (· < ·) := chain.imp fun i j piece => piece.1
  refine ⟨0 :: steps, ?_, ⟨rfl, last, by simpa using length_le_of_chain order last⟩,
    ⟨by simp [step], by simp [step]⟩, chain.imp fun i j ⟨before, near⟩ => ?_⟩
  · have flatten : Bezier.flatten c.toList tolerance depth = .ok (c.first ::
        flattenFrom tolerance depth.toNat c) := by
      simp [Bezier.flatten, flatten, checkTolerance, positive, toList, ofList?]
      rfl
    rw [flatten, drawn, List.map_cons]
    simp [step]
  · have pos : (0 : ℝ) < 2 ^ depth.toNat := by positivity
    refine ⟨(div_lt_div_iff_of_pos_right pos).mpr (Nat.cast_lt.mpr before), fun apart => ?_⟩
    rw [← sub_div, div_lt_div_iff_of_pos_right pos, lt_sub_iff_add_lt'] at apart
    exact near (by exact_mod_cast apart)

/-- A cusp: the tangent vanishes in the middle, and the first chord has no length. -/
theorem flatten_dyadic_cusp :
    let c : ControlPolygon ℝ := ⟨⟨0, 0⟩, [⟨4, 4⟩, ⟨-4, 4⟩, ⟨0, 0⟩]⟩
    ∃ points, Bezier.flatten c.toList (1 / 10) 5 = .ok points ∧ points.length ≤ 33 ∧
      points.head? = some ⟨0, 0⟩ ∧ points.getLast? = some ⟨0, 0⟩ := by
  intro c
  obtain ⟨steps, drawn, ⟨first, final, size⟩, ⟨start, stop⟩, -⟩ :=
    flatten_dyadic c (by norm_num : (0 : ℝ) < 1 / 10) 5
  refine ⟨_, drawn, by simpa using size, ?_, ?_⟩
  · rw [List.head?_map, first]
    exact congrArg some start
  · rw [List.getLast?_map, final]
    exact congrArg some stop

end ControlPolygon

end BoardPlotter
