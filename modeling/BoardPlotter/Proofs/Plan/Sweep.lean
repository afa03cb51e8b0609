import Mathlib.Data.List.Sort
import BoardPlotter.Plan.Hatch
import BoardPlotter.Proofs.Plan.Crossings
import BoardPlotter.Proofs.Plan.EvenOdd

/-!
# The sweep over the scan lines

A plan visits the lines half a step apart from the lowest vertex on, and no
others (`Hatch.exists_heights`). Edges are taken in and dropped as the lines go up.
That leaves under way, on each line, just the edges that lie across it
(`Hatch.swept_edges`), and so the crossings found there are those of all sides of
the outline with the line (`Hatch.lineHits_perm`), in the order in which the line
is run (`Hatch.inOrder_sorted`).

`HatchPlan.ofPolyline_eq` puts this together for any outline and positive step.
-/

namespace BoardPlotter

open Point

namespace Hatch

/-! ### The lines -/

theorem extreme_cons (pick : ℝ → ℝ → ℝ) (x : ℝ) (xs : List ℝ) :
    extreme pick (x :: xs) = xs.foldl pick x := by
  simp [extreme]

theorem extreme_isLeast {xs : List ℝ} (some : xs ≠ []) :
    IsLeast {x | x ∈ xs} (extreme Scalar.smaller xs) := by
  obtain ⟨x, xs, rfl⟩ := List.exists_cons_of_ne_nil some
  have least : (x :: xs).min? = .some (extreme Scalar.smaller (x :: xs)) := by
    rw [extreme_cons, List.min?_cons', funext₂ Exact.smaller_eq]
  exact List.min?_eq_some_iff.mp least

theorem extreme_isGreatest {xs : List ℝ} (some : xs ≠ []) :
    IsGreatest {x | x ∈ xs} (extreme Scalar.larger xs) := by
  obtain ⟨x, xs, rfl⟩ := List.exists_cons_of_ne_nil some
  have greatest : (x :: xs).max? = .some (extreme Scalar.larger (x :: xs)) := by
    rw [extreme_cons, List.max?_cons', funext₂ Exact.larger_eq]
  exact List.max?_eq_some_iff.mp greatest

theorem height_eq (low step : ℝ) (k : ℕ) : height low step k = low + (k + 1 / 2) * step := by
  rw [height, Exact.ofNat_eq]

theorem height_strictMono {step : ℝ} (hstep : 0 < step) (low : ℝ) :
    StrictMono (height low step) := by
  intro j k hjk
  have later : (j : ℝ) < k := Nat.cast_lt.mpr hjk
  rw [height_eq, height_eq]
  linarith [mul_lt_mul_of_pos_right later hstep]

/-- What holds of the numbers below some bound only is taken from them in front. -/
theorem exists_takeWhile_range (p : ℕ → Bool) (down : ∀ j k, j ≤ k → p k = true → p j = true)
    (bound : ℕ) (stops : p bound = false) :
    ∃ n, (List.range bound).takeWhile p = List.range n ∧ ∀ k, k < n ↔ p k = true := by
  have ends : ∃ k, p k = false := ⟨bound, stops⟩
  classical
  obtain ⟨m, hm⟩ := Nat.exists_eq_add_of_le (Nat.find_min' ends stops)
  have before (k : ℕ) (hk : k < Nat.find ends) : p k = true := by
    simpa using Nat.find_min ends hk
  refine ⟨Nat.find ends, ?_, fun k => ⟨before k, fun hk => ?_⟩⟩
  · have all : ∀ k ∈ List.range (Nat.find ends), p k = true :=
      fun k hk => before k (List.mem_range.mp hk)
    rw [hm, List.range_add, List.takeWhile_append_of_pos all]
    cases m with
    | zero => simp
    | succ m => simp [List.range_succ_eq_map, Nat.find_spec ends]
  · by_contra h
    have := down _ _ (not_lt.mp h) hk
    rw [Nat.find_spec ends] at this
    exact absurd this Bool.false_ne_true

/-- **The lines are those half a step apart below the top**, all of them. -/
theorem exists_heights (low high : ℝ) {step : ℝ} (hstep : 0 < step) :
    ∃ n, heights low high step = (List.range n).map (height low step) ∧
      ∀ k, k < n ↔ height low step k < high := by
  have stops : ¬ height low step (⌊(high - low) / step⌋₊ + 2) < high := by
    have reach := Nat.lt_floor_add_one ((high - low) / step)
    rw [div_lt_iff₀ hstep] at reach
    rw [height_eq, not_lt]
    push_cast
    linarith
  obtain ⟨n, taken, below⟩ := exists_takeWhile_range (fun k => decide (height low step k < high))
    (fun j k hjk hk => by
      rw [decide_eq_true_eq] at hk ⊢
      exact ((height_strictMono hstep low).monotone hjk).trans_lt hk)
    (⌊(high - low) / step⌋₊ + 2) (decide_eq_false stops)
  refine ⟨n, ?_, fun k => (below k).trans decide_eq_true_iff⟩
  rw [heights, List.takeWhile_map]
  exact congrArg (List.map (height low step)) taken

/-! ### The edges under way -/

section Swept

variable {α : Type} [Scalar α]

/-- The edges under way, and those still waiting, behind the lines `f 0` to
`f (k - 1)`. -/
def swept (es : List (SweepEdge α)) (f : ℕ → α) : ℕ → List (SweepEdge α) × List (SweepEdge α)
  | 0 => ([], es)
  | k + 1 => advance (f k) (swept es f k).1 (swept es f k).2

/-- The crossings used on the line `f k`, in the order in which they are paired. -/
def lineHits (axes : Axes α) (es : List (SweepEdge α)) (f : ℕ → α) (k : ℕ) : List (Point α) :=
  inOrder axes (k % 2 == 1) (hits axes (f k) (swept es f (k + 1)).1)

/-- A sweep goes line by line. -/
theorem sweep_eq (axes : Axes α) (es : List (SweepEdge α)) (f : ℕ → α) (n : ℕ) :
    sweep axes false [] es ((List.range n).map f) =
      (List.range n).flatMap fun k => pairs (lineHits axes es f k) := by
  have later (k : ℕ) : sweep axes (k % 2 == 1) (swept es f k).1 (swept es f k).2
      ((List.range' k n).map f) =
        (List.range' k n).flatMap fun k => pairs (lineHits axes es f k) := by
    induction n generalizing k with
    | zero => rfl
    | succ n ih =>
      have turned : (!(k % 2 == 1)) = ((k + 1) % 2 == 1) := by grind
      rw [List.range'_succ, List.map_cons, List.flatMap_cons, sweep, turned]
      exact congrArg (pairs (lineHits axes es f k) ++ ·) (ih (k + 1))
  rw [List.range_eq_range']
  exact later 0

end Swept

theorem takeWhile_append_takeWhile {α : Type} {p q : α → Bool} (h : ∀ x, p x = true → q x = true)
    (xs : List α) :
    xs.takeWhile p ++ (xs.dropWhile p).takeWhile q = xs.takeWhile q ∧
      (xs.dropWhile p).dropWhile q = xs.dropWhile q := by
  induction xs with
  | nil => exact ⟨rfl, rfl⟩
  | cons x xs ih =>
    by_cases hp : p x = true
    · simp only [List.takeWhile_cons, List.dropWhile_cons, hp, h x hp, if_true, List.cons_append,
        ih.1, ih.2, and_self]
    · simp [List.takeWhile_cons, List.dropWhile_cons, hp]

/-- **The edges under way on a line are those in front of the waiting ones that do
not end below it.** -/
theorem swept_succ (es : List (SweepEdge ℝ)) {f : ℕ → ℝ} (mono : Monotone f) (k : ℕ) :
    swept es f (k + 1) =
      ((es.takeWhile (·.lo ≤ f k)).filter (f k < ·.hi), es.dropWhile (·.lo ≤ f k)) := by
  induction k with
  | zero => rfl
  | succ k ih =>
    have up := mono (Nat.le_succ k)
    obtain ⟨taken, dropped⟩ := takeWhile_append_takeWhile
      (p := fun e : SweepEdge ℝ => decide (e.lo ≤ f k))
      (q := fun e => decide (e.lo ≤ f (k + 1)))
      (fun e he => decide_eq_true ((of_decide_eq_true he).trans up)) es
    rw [swept, ih, advance, dropped, ← taken, List.filter_append, List.filter_append,
      List.filter_filter]
    congr 2
    apply List.filter_congr
    intro e _
    have later : f (k + 1) < e.hi → f k < e.hi := up.trans_lt
    simpa using later

theorem takeWhile_eq_filter {es : List (SweepEdge ℝ)} (sorted : es.Pairwise fun d e => d.lo ≤ e.lo)
    (h : ℝ) : es.takeWhile (·.lo ≤ h) = es.filter (·.lo ≤ h) := by
  induction es with
  | nil => rfl
  | cons e es ih =>
    obtain ⟨first, sorted⟩ := List.pairwise_cons.mp sorted
    by_cases low : e.lo ≤ h
    · simp [low, ih sorted]
    · have none : es.filter (fun d => decide (d.lo ≤ h)) = [] := by
        rw [List.filter_eq_nil_iff]
        intro d hd
        simpa using (not_le.mp low).trans_le (first d hd)
      simp [low, none]

/-! ### The crossings of a line -/

theorem edge?_eq (across : Point ℝ) (s : Point ℝ × Point ℝ) :
    edge? across s = if s.1.dot across = s.2.dot across then none
      else some ⟨s.1, s.2, min (s.1.dot across) (s.2.dot across),
        max (s.1.dot across) (s.2.dot across)⟩ := by
  simp [edge?]

theorem edges_sorted (l : Polyline ℝ) (closed : Bool) (across : Point ℝ) :
    (edges l closed across).Pairwise fun d e => d.lo ≤ e.lo := by
  have sorted : (edges l closed across).Pairwise fun d e => decide (d.lo ≤ e.lo) = true := by
    apply List.pairwise_mergeSort
    · intro d e f hde hef
      rw [decide_eq_true_eq] at hde hef ⊢
      exact hde.trans hef
    · intro d e
      simpa using le_total d.lo e.lo
  exact sorted.imp of_decide_eq_true

theorem edges_perm (l : Polyline ℝ) (closed : Bool) (across : Point ℝ) :
    (edges l closed across).Perm
      ((if closed then l.segments else l.segments ++ [(l.last, l.start)]).filterMap
        (edge? across)) :=
  List.mergeSort_perm _ _

/-- How far along a line a point is, in the direction in which the line is run. -/
def reach {α : Type} [Scalar α] (axes : Axes α) (backwards : Bool) (p : Point α) : α :=
  if backwards then -(p.dot axes.along) else p.dot axes.along

theorem inOrder_perm {α : Type} [Scalar α] (axes : Axes α) (backwards : Bool)
    (ps : List (Point α)) : (inOrder axes backwards ps).Perm ps := by
  cases backwards
  · exact List.mergeSort_perm _ _
  · exact List.mergeSort_perm _ _

theorem inOrder_sorted (axes : Axes ℝ) (backwards : Bool) (ps : List (Point ℝ)) :
    (inOrder axes backwards ps).Pairwise fun p q =>
      reach axes backwards p ≤ reach axes backwards q := by
  have sorted : (inOrder axes backwards ps).Pairwise fun p q =>
      decide (reach axes backwards p ≤ reach axes backwards q) = true := by
    have ordered : inOrder axes backwards ps =
        ps.mergeSort fun p q => reach axes backwards p ≤ reach axes backwards q := by
      cases backwards <;> simp [inOrder, reach]
    rw [ordered]
    apply List.pairwise_mergeSort
    · intro p q r hpq hqr
      rw [decide_eq_true_eq] at hpq hqr ⊢
      exact hpq.trans hqr
    · intro p q
      simpa using le_total (reach axes backwards p) (reach axes backwards q)
  exact sorted.imp of_decide_eq_true

/-- **The edges under way on a line are all those that lie across it.** -/
theorem swept_edges (l : Polyline ℝ) (closed : Bool) (across : Point ℝ) {f : ℕ → ℝ}
    (mono : Monotone f) (k : ℕ) :
    (swept (edges l closed across) f (k + 1)).1 =
      (edges l closed across).filter fun e => e.lo ≤ f k && f k < e.hi := by
  rw [swept_succ _ mono, takeWhile_eq_filter (edges_sorted l closed across), List.filter_filter]
  exact List.filter_congr fun e _ => Bool.and_comm _ _

section Frame

variable {axes : Axes ℝ} (frame : axes.Orthonormal)
include frame

/-- A line and a side that is not along it have their crossing where they meet. -/
theorem ofLines?_line (h : ℝ) {s : Point ℝ × Point ℝ}
    (skew : s.2.dot axes.across - s.1.dot axes.across ≠ 0) :
    (Crossing.ofLines? s.1 s.2 (axes.across.scale h) (axes.across.scale h + axes.along)).map
      Crossing.point = some (axes.meet h s) := by
  have span : axes.across.scale h + axes.along - axes.across.scale h = axes.along := by
    ext <;> simp
  have across : (axes.meet h s).dot axes.across = h := by
    rw [Axes.meet, dot_along, mul_div_cancel₀ _ skew]
    ring
  have meets : Crossing.ofLines? s.1 s.2 (axes.across.scale h) (axes.across.scale h + axes.along) =
      some ⟨axes.meet h s, (h - s.1.dot axes.across) / (s.2.dot axes.across - s.1.dot axes.across),
        (axes.meet h s).dot axes.along⟩ := by
    refine Crossing.ofLines?_eq_some.mpr ⟨?_, ?_, rfl⟩
    · rw [span, frame.det_along, sub_dot, neg_ne_zero]
      refine mul_ne_zero (fun zero => ?_) skew
      have turn := frame.turn_mul_self
      rw [zero, zero_mul] at turn
      exact zero_ne_one turn
    · refine (frame.decompose (axes.meet h s)).trans ?_
      rw [across, along, span]
  rw [meets, Option.map_some]

/-- **The edges across a line are crossed where their sides meet it.** -/
theorem hits_filterMap (h : ℝ) (ss : List (Point ℝ × Point ℝ)) :
    hits axes h ((ss.filterMap (edge? axes.across)).filter fun e => e.lo ≤ h && h < e.hi) =
      axes.crossings h ss := by
  induction ss with
  | nil => rfl
  | cons s ss ih =>
    rw [Axes.crossings] at ih ⊢
    rw [List.filterMap_cons, edge?_eq]
    by_cases level : s.1.dot axes.across = s.2.dot axes.across
    · have beside : ¬ axes.Spans h s := fun spans => spans.ne (sub_eq_zero.mpr level.symm)
      simp only [if_pos level, List.filter_cons, beside, decide_false, Bool.false_eq_true, if_false]
      exact ih
    · have skew : s.2.dot axes.across - s.1.dot axes.across ≠ 0 :=
        sub_ne_zero.mpr fun same => level same.symm
      have across : (decide (min (s.1.dot axes.across) (s.2.dot axes.across) ≤ h) &&
          decide (h < max (s.1.dot axes.across) (s.2.dot axes.across))) =
            decide (axes.Spans h s) := by
        rw [← Bool.decide_and]
        rfl
      by_cases spans : axes.Spans h s
      · simp only [if_neg level, List.filter_cons, across, spans, decide_true, if_true,
          List.map_cons]
        rw [← ih, hits, List.filterMap_cons]
        simp only [ofLines?_line frame h skew]
        rfl
      · simp only [if_neg level, List.filter_cons, across, spans, decide_false, Bool.false_eq_true,
          if_false]
        exact ih

/-- **The crossings used on a line are those of all sides with it.** -/
theorem lineHits_perm (l : Polyline ℝ) (closed : Bool) {f : ℕ → ℝ} (mono : Monotone f) (k : ℕ) :
    (lineHits axes (edges l closed axes.across) f k).Perm
      (axes.crossings (f k)
        (if closed then l.segments else l.segments ++ [(l.last, l.start)])) := by
  rw [lineHits, swept_edges l closed axes.across mono, ← hits_filterMap frame]
  refine (inOrder_perm axes _ _).trans ?_
  exact ((edges_perm l closed axes.across).filter _).filterMap _

end Frame

end Hatch

/-! ### The plan -/

namespace HatchPlan

/-- **What is planned for an outline with three distinct vertices.** Every line
gives the passes between its crossings, taken in pairs. -/
theorem ofPolyline_eq {l : Polyline ℝ} (area : hasArea l = true) {step : ℝ} (hstep : 0 < step)
    (eps : ℝ) :
    ∃ axes low high n,
      Axes.principal (if l.isClosed eps then l.rest else l.vertices) eps = .ok axes ∧
      IsLeast {x | x ∈ l.vertices.map (·.dot axes.across)} low ∧
      IsGreatest {x | x ∈ l.vertices.map (·.dot axes.across)} high ∧
      (∀ k, k < n ↔ Hatch.height low step k < high) ∧ (0 < n → axes.Orthonormal) ∧
      ofPolyline l step eps = .ok
        ⟨(List.range n).flatMap fun k => Hatch.pairs (Hatch.lineHits axes
          (Hatch.edges l (l.isClosed eps) axes.across) (Hatch.height low step) k), some n⟩ := by
  obtain ⟨axes, found, unit⟩ :=
    Axes.exists_principal (if l.isClosed eps then l.rest else l.vertices) eps
  have some : l.vertices.map (·.dot axes.across) ≠ [] := by simp [Polyline.vertices]
  have least := Hatch.extreme_isLeast some
  have greatest := Hatch.extreme_isGreatest some
  obtain ⟨n, lines, below⟩ := Hatch.exists_heights
    (Hatch.extreme Scalar.smaller (l.vertices.map (·.dot axes.across)))
    (Hatch.extreme Scalar.larger (l.vertices.map (·.dot axes.across))) hstep
  refine ⟨axes, _, _, n, found, least, greatest, below, fun lined => ?_, ?_⟩
  · refine unit.resolve_right fun flat => ?_
    -- Without a direction across all heights are zero, and no line is below the top.
    have zero {x : ℝ} (hx : x ∈ l.vertices.map (·.dot axes.across)) : x = 0 := by
      obtain ⟨p, -, rfl⟩ := List.mem_map.mp hx
      simp [flat, dot, Point.origin]
    have first := (below 0).mp lined
    rw [Hatch.height_eq, zero least.1, zero greatest.1] at first
    norm_num at first
    linarith
  · rw [ofPolyline, if_neg (not_le.mpr hstep), area]
    simp only [Bool.not_true, Bool.false_eq_true, if_false, found]
    change Except.ok (HatchPlan.mk (Hatch.sweep _ _ _ _ (Hatch.heights _ _ _)) _) = _
    rw [lines, Hatch.sweep_eq, List.length_map, List.length_range]

/-- An outline without three distinct vertices is not hatched. -/
theorem ofPolyline_of_not_hasArea {l : Polyline ℝ} (area : hasArea l = false) {step : ℝ}
    (hstep : 0 < step) (eps : ℝ) : ofPolyline l step eps = .ok ⟨[], none⟩ := by
  rw [ofPolyline, if_neg (not_le.mpr hstep), area]
  rfl

end HatchPlan

end BoardPlotter
