import Mathlib.Data.Set.Subsingleton
import Mathlib.Tactic.Linarith
import Mathlib.Tactic.LinearCombination
import BoardPlotter.Geometry.Polyline
import BoardPlotter.Proofs.Scalar.Real

/-!
# Segments and the points a polyline draws

`Point.along a b` runs through the line from `a` at zero to `b` at one, and
`Point.segment a b` is its stretch over the unit interval. A polyline draws the
segments between its consecutive vertices (`Polyline.trace`).

Two vertices that coincide draw no line. `strokes` leaves such pairs out: it is
the part of a vertex list that thinning, reversing and cutting the list at a
vertex all preserve (`strokes_reverse`, `strokes_append`).
-/

namespace BoardPlotter

attribute [ext] Point

namespace Point

@[simp] theorem add_x (p q : Point ℝ) : (p + q).x = p.x + q.x := rfl
@[simp] theorem add_y (p q : Point ℝ) : (p + q).y = p.y + q.y := rfl
@[simp] theorem sub_x (p q : Point ℝ) : (p - q).x = p.x - q.x := rfl
@[simp] theorem sub_y (p q : Point ℝ) : (p - q).y = p.y - q.y := rfl
@[simp] theorem scale_x (p : Point ℝ) (k : ℝ) : (p.scale k).x = p.x * k := rfl
@[simp] theorem scale_y (p : Point ℝ) (k : ℝ) : (p.scale k).y = p.y * k := rfl
@[simp] theorem lerp_x (p q : Point ℝ) (t : ℝ) : (p.lerp q t).x = p.x * (1 - t) + q.x * t := rfl
@[simp] theorem lerp_y (p q : Point ℝ) (t : ℝ) : (p.lerp q t).y = p.y * (1 - t) + q.y * t := rfl

theorem mk_add_mk (a b c d : ℝ) : (⟨a, b⟩ : Point ℝ) + ⟨c, d⟩ = ⟨a + c, b + d⟩ := rfl
theorem mk_sub_mk (a b c d : ℝ) : (⟨a, b⟩ : Point ℝ) - ⟨c, d⟩ = ⟨a - c, b - d⟩ := rfl
theorem scale_mk (a b k : ℝ) : (⟨a, b⟩ : Point ℝ).scale k = ⟨a * k, b * k⟩ := rfl

theorem beq_iff (p q : Point ℝ) : (p == q) = true ↔ p = q := by
  rw [Point.ext_iff]
  change (p.x == q.x && p.y == q.y) = true ↔ _
  simp

theorem sub_lengthSquared_eq_zero_iff {p q : Point ℝ} : (p - q).lengthSquared = 0 ↔ p = q := by
  constructor
  · intro zero
    obtain ⟨x, y⟩ := mul_self_add_mul_self_eq_zero.mp zero
    exact Point.ext (sub_eq_zero.mp x) (sub_eq_zero.mp y)
  · rintro rfl
    exact mul_self_add_mul_self_eq_zero.mpr ⟨sub_self p.x, sub_self p.y⟩

/-- Without tolerance, close points are equal. -/
@[simp] theorem closeTo_zero (p q : Point ℝ) : p.closeTo q 0 = true ↔ p = q := by
  simp [closeTo, Point.ext_iff, sub_eq_zero]

/-- The point at parameter `t` of the line from `a` to `b`. -/
noncomputable def along (a b : Point ℝ) (t : ℝ) : Point ℝ := a + (b - a).scale t

@[simp] theorem along_x (a b : Point ℝ) (t : ℝ) : (along a b t).x = a.x + (b.x - a.x) * t := rfl

@[simp] theorem along_y (a b : Point ℝ) (t : ℝ) : (along a b t).y = a.y + (b.y - a.y) * t := rfl

@[simp] theorem along_zero (a b : Point ℝ) : along a b 0 = a := by ext <;> simp

@[simp] theorem along_one (a b : Point ℝ) : along a b 1 = b := by ext <;> simp

/-- Walking back reads the parameters from the other end. -/
theorem along_swap (a b : Point ℝ) (t : ℝ) : along b a (1 - t) = along a b t := by
  ext
  · rw [along_x, along_x]
    ring
  · rw [along_y, along_y]
    ring

theorem along_along (a b : Point ℝ) (s t r : ℝ) :
    along (along a b s) (along a b t) r = along a b (s + (t - s) * r) := by
  ext
  · simp only [along_x]
    ring
  · simp only [along_y]
    ring

/-- The closed segment from `a` to `b`. -/
def segment (a b : Point ℝ) : Set (Point ℝ) := along a b '' Set.Icc 0 1

theorem mem_segment_iff {a b q : Point ℝ} : q ∈ segment a b ↔
    ∃ t ∈ Set.Icc (0 : ℝ) 1, a.x + (b.x - a.x) * t = q.x ∧ a.y + (b.y - a.y) * t = q.y := by
  simp only [segment, Set.mem_image, Point.ext_iff, along_x, along_y]

theorem left_mem_segment (a b : Point ℝ) : a ∈ segment a b :=
  ⟨0, ⟨le_rfl, zero_le_one⟩, along_zero a b⟩

theorem right_mem_segment (a b : Point ℝ) : b ∈ segment a b :=
  ⟨1, ⟨zero_le_one, le_rfl⟩, along_one a b⟩

theorem segment_symm (a b : Point ℝ) : segment a b = segment b a := by
  have sub (a b : Point ℝ) : segment a b ⊆ segment b a := by
    rintro _ ⟨t, ⟨h₀, h₁⟩, rfl⟩
    exact ⟨1 - t, ⟨by linarith, by linarith⟩, along_swap a b t⟩
  exact Set.Subset.antisymm (sub a b) (sub b a)

/-- A stretch of a line is the segment between its ends. -/
theorem segment_along (a b : Point ℝ) {s t : ℝ} (hst : s ≤ t) :
    segment (along a b s) (along a b t) = along a b '' Set.Icc s t := by
  ext q
  constructor
  · rintro ⟨r, ⟨h₀, h₁⟩, rfl⟩
    refine ⟨s + (t - s) * r, ⟨?_, ?_⟩, (along_along a b s t r).symm⟩
    · nlinarith
    · nlinarith
  · rintro ⟨r, ⟨h₀, h₁⟩, rfl⟩
    by_cases h : s = t
    · subst h
      have hr : r = s := le_antisymm h₁ h₀
      subst hr
      exact left_mem_segment _ _
    · have hpos : 0 < t - s := sub_pos.mpr (lt_of_le_of_ne hst h)
      refine ⟨(r - s) / (t - s), ⟨?_, ?_⟩, ?_⟩
      · exact div_nonneg (by linarith) hpos.le
      · rw [div_le_one hpos]
        linarith
      · rw [along_along, mul_div_cancel₀ _ hpos.ne']
        congr 1
        ring

/-- A segment is more than a point when its ends differ. -/
theorem segment_nontrivial {a b : Point ℝ} : (segment a b).Nontrivial ↔ a ≠ b := by
  constructor
  · rintro ⟨_, ⟨s, _, rfl⟩, _, ⟨t, _, rfl⟩, hne⟩ rfl
    apply hne
    ext <;> simp
  · intro hab
    exact ⟨a, left_mem_segment a b, b, right_mem_segment a b, hab⟩

end Point

open Point

/-- The line drawn between two vertices, none if they coincide. -/
def stroke (p q : Point ℝ) : Set (Point ℝ) := {x | p ≠ q ∧ x ∈ segment p q}

@[simp] theorem stroke_self (p : Point ℝ) : stroke p p = ∅ := by
  ext x
  simp [stroke]

theorem stroke_symm (p q : Point ℝ) : stroke p q = stroke q p := by
  ext x
  simp only [stroke, Set.mem_ofPred_eq, segment_symm p q, ne_comm]

theorem stroke_of_ne {p q : Point ℝ} (h : p ≠ q) : stroke p q = segment p q := by
  ext x
  simp [stroke, h]

/-- The lines drawn through a list of vertices. -/
def strokes : List (Point ℝ) → Set (Point ℝ)
  | [] => ∅
  | [_] => ∅
  | p :: q :: ps => stroke p q ∪ strokes (q :: ps)

@[simp] theorem strokes_nil : strokes [] = ∅ := rfl

@[simp] theorem strokes_singleton (p : Point ℝ) : strokes [p] = ∅ := rfl

@[simp] theorem strokes_cons_cons (p q : Point ℝ) (ps : List (Point ℝ)) :
    strokes (p :: q :: ps) = stroke p q ∪ strokes (q :: ps) := rfl

/-- Cutting a list of vertices between two of them takes their line out. -/
theorem strokes_append (ps : List (Point ℝ)) (p q : Point ℝ) (qs : List (Point ℝ)) :
    strokes ((ps ++ [p]) ++ q :: qs) = strokes (ps ++ [p]) ∪ (stroke p q ∪ strokes (q :: qs)) := by
  induction ps with
  | nil => simp
  | cons r ps ih =>
    cases ps with
    | nil => simp
    | cons s ps =>
      simp only [List.cons_append, strokes_cons_cons] at ih ⊢
      rw [ih, Set.union_assoc]

@[simp] theorem strokes_reverse (ps : List (Point ℝ)) : strokes ps.reverse = strokes ps := by
  induction ps with
  | nil => rfl
  | cons p ps ih =>
    cases ps with
    | nil => rfl
    | cons q ps =>
      rw [List.reverse_cons] at ih
      rw [List.reverse_cons, List.reverse_cons, strokes_append, ih, strokes_singleton,
        Set.union_empty, strokes_cons_cons, stroke_symm p q, Set.union_comm]

/-- The points a polyline draws: those of the segments between its vertices. -/
def Polyline.trace (l : Polyline ℝ) : Set (Point ℝ) :=
  {q | ∃ s ∈ l.segments, q ∈ segment s.1 s.2}

/-- No two consecutive vertices coincide: every one of them draws. -/
theorem Polyline.trace_eq_strokes (l : Polyline ℝ) (h : l.vertices.IsChain (· ≠ ·)) :
    l.trace = strokes l.vertices := by
  obtain ⟨p, ps, fill⟩ := l
  have main (p : Point ℝ) (ps : List (Point ℝ)) (h : (p :: ps).IsChain (· ≠ ·)) :
      {q | ∃ s ∈ (p :: ps).zip ps, q ∈ segment s.1 s.2} = strokes (p :: ps) := by
    induction ps generalizing p with
    | nil => simp
    | cons r ps ih =>
      obtain ⟨hne, hrest⟩ := List.isChain_cons_cons.mp h
      rw [strokes_cons_cons, ← ih r hrest, stroke_of_ne hne]
      ext q
      simp [List.zip_cons_cons]
  exact main p ps h

end BoardPlotter
