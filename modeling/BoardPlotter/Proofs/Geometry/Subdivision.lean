import Mathlib.Logic.Function.Iterate
import Mathlib.Tactic.Ring
import BoardPlotter.Geometry.Bezier
import BoardPlotter.Proofs.Geometry.Segment

/-!
# Parts of a Bézier curve

The rows above a control polygon interpolate it again and again at one parameter.
As an operation on sequences of points, `Point.row`, rows at any parameters commute,
and a row between two rows is a row again. From this the two parts that a polygon
splits into run through the curve over the parameters below and above the cut
(`ControlPolygon.evaluate_split_left`, `ControlPolygon.evaluate_split_right`), and they meet
there (`Bezier.split_runs_through`, for any list of control points).

Whatever holds of the control points and is kept by interpolation holds of the whole
curve (`ControlPolygon.evaluate_mem`).
-/

namespace BoardPlotter

namespace Point

/-- The points at `t` between neighbours of a sequence. -/
noncomputable def row (t : ℝ) (p : ℕ → Point ℝ) : ℕ → Point ℝ := fun i => (p i).lerp (p (i + 1)) t

theorem lerp_lerp_left (p q : Point ℝ) (s t : ℝ) : p.lerp (p.lerp q t) s = p.lerp q (t * s) := by
  ext
  · simp only [lerp_x]
    ring
  · simp only [lerp_y]
    ring

theorem lerp_lerp_right (p q : Point ℝ) (s t : ℝ) :
    (p.lerp q t).lerp q s = p.lerp q (t + (1 - t) * s) := by
  ext
  · simp only [lerp_x]
    ring
  · simp only [lerp_y]
    ring

theorem row_commute (s t : ℝ) : Function.Commute (row s) (row t) := by
  intro p
  funext i
  ext
  · simp only [row, lerp_x]
    ring
  · simp only [row, lerp_y]
    ring

theorem iterate_row_row (s t : ℝ) (n : ℕ) (p : ℕ → Point ℝ) :
    (row t)^[n] (row s p) = row s ((row t)^[n] p) :=
  (row_commute s t).symm.iterate_left n p

/-- A row only looks at the points it is between. -/
theorem iterate_row_congr (t : ℝ) (n k : ℕ) {p q : ℕ → Point ℝ} (h : ∀ i ≤ k + n, p i = q i) :
    (row t)^[n] p k = (row t)^[n] q k := by
  induction n generalizing p q with
  | zero => exact h k le_rfl
  | succ n ih =>
    rw [Function.iterate_succ_apply, Function.iterate_succ_apply]
    refine ih fun i hi => ?_
    rw [row, row, h i (by omega), h (i + 1) (by omega)]

theorem iterate_row_mem {K : Set (Point ℝ)} {t : ℝ} (between : ∀ p ∈ K, ∀ q ∈ K, p.lerp q t ∈ K)
    (n k : ℕ) {p : ℕ → Point ℝ} (h : ∀ i ≤ k + n, p i ∈ K) : (row t)^[n] p k ∈ K := by
  induction n generalizing p with
  | zero => exact h k le_rfl
  | succ n ih =>
    rw [Function.iterate_succ_apply]
    exact ih fun i hi => between _ (h i (by omega)) _ (h (i + 1) (by omega))

theorem iterate_row_zero (n k : ℕ) (p : ℕ → Point ℝ) : (row 0)^[n] p k = p k := by
  have same (p : ℕ → Point ℝ) : row 0 p = p := by
    funext i
    ext <;> simp [row]
  rw [Function.iterate_fixed (same p)]

theorem iterate_row_one (n k : ℕ) (p : ℕ → Point ℝ) : (row 1)^[n] p k = p (k + n) := by
  induction n generalizing p with
  | zero => rfl
  | succ n ih =>
    rw [Function.iterate_succ_apply, ih]
    ext <;> simp [row, Nat.add_assoc]

/-- Interpolating the first points of all rows at `t`: the rows at `s` of the part
before `t` are those at `t * s` of the whole. -/
theorem iterate_row_first (s t : ℝ) (n k : ℕ) (p : ℕ → Point ℝ) :
    (row s)^[n] (fun k => (row t)^[k] p 0) k = (row t)^[k] ((row (t * s))^[n] p) 0 := by
  induction n generalizing p with
  | zero => rfl
  | succ n ih =>
    have next : row s (fun k => (row t)^[k] p 0) = fun k => (row t)^[k] (row (t * s) p) 0 := by
      funext k
      rw [row, Function.iterate_succ_apply', iterate_row_row]
      exact lerp_lerp_left _ _ s t
    rw [Function.iterate_succ_apply, next, ih, ← Function.iterate_succ_apply]

/-- Interpolating the last points of all rows at `t`: the rows at `s` of the part
behind `t` are those at `t + (1 - t) * s` of the whole. -/
theorem iterate_row_last (s t : ℝ) (d : ℕ) (p : ℕ → Point ℝ) {n k : ℕ} (h : n + k ≤ d) :
    (row s)^[n] (fun k => (row t)^[d - k] p k) k =
      (row t)^[d - n - k] ((row (t + (1 - t) * s))^[n] p) k := by
  induction n generalizing k with
  | zero => rfl
  | succ n ih =>
    obtain ⟨m, rfl⟩ : ∃ m, d = n + k + m + 1 := ⟨d - (n + k + 1), by omega⟩
    have here : n + k + m + 1 - n - k = m + 1 := by omega
    have next : n + k + m + 1 - n - (k + 1) = m := by omega
    have left : n + k + m + 1 - (n + 1) - k = m := by omega
    rw [Function.iterate_succ_apply', Function.iterate_succ_apply', row, ih (by omega),
      ih (by omega), here, next, left, Function.iterate_succ_apply', iterate_row_row]
    exact lerp_lerp_right _ _ s t

end Point

open Point

namespace ControlPolygon

/-- The control points by number. -/
def vertex (c : ControlPolygon ℝ) (i : ℕ) : Point ℝ := c.toList.getD i c.first

theorem getElem?_toList {c : ControlPolygon ℝ} {i : ℕ} (h : i ≤ c.degree) :
    c.toList[i]? = some (c.vertex i) := by
  have bound : i < c.toList.length := Nat.lt_succ_of_le h
  rw [vertex, List.getD_eq_getElem?_getD, List.getElem?_eq_getElem bound, Option.getD_some]

theorem vertex_eq {c : ControlPolygon ℝ} {i : ℕ} {p : Point ℝ} (h : c.toList[i]? = some p) :
    c.vertex i = p := by
  rw [vertex, List.getD_eq_getElem?_getD, h, Option.getD_some]

@[simp] theorem vertex_zero (c : ControlPolygon ℝ) : c.vertex 0 = c.first := rfl

theorem getLast?_toList {α : Type} [Scalar α] (c : ControlPolygon α) :
    c.toList.getLast? = some c.last :=
  List.getLast?_cons

@[simp] theorem vertex_degree (c : ControlPolygon ℝ) : c.vertex c.degree = c.last := by
  have last := getLast?_toList c
  rw [List.getLast?_eq_getElem?] at last
  exact vertex_eq last

/-! ### Rows of a polygon -/

theorem toList_narrow (c : ControlPolygon ℝ) (t : ℝ) (h : c.degree ≠ 0) :
    (c.narrow t).toList = List.zipWith (fun a b => a.lerp b t) c.toList c.rest := by
  obtain ⟨p, _ | ⟨q, qs⟩⟩ := c
  · exact absurd rfl h
  · rfl

theorem degree_narrow (c : ControlPolygon ℝ) (t : ℝ) : (c.narrow t).degree = c.degree - 1 := by
  obtain ⟨p, _ | ⟨q, qs⟩⟩ := c
  · rfl
  · simp [narrow, degree]

theorem degree_iterate_narrow (c : ControlPolygon ℝ) (t : ℝ) (n : ℕ) :
    ((narrow · t)^[n] c).degree = c.degree - n := by
  induction n generalizing c with
  | zero => rfl
  | succ n ih => rw [Function.iterate_succ_apply, ih, degree_narrow, Nat.sub_sub, Nat.add_comm]

theorem vertex_narrow {c : ControlPolygon ℝ} {i : ℕ} (h : i < c.degree) (t : ℝ) :
    (c.narrow t).vertex i = row t c.vertex i := by
  have next : c.rest[i]? = some (c.vertex (i + 1)) := getElem?_toList h
  apply vertex_eq
  rw [toList_narrow c t (by omega), List.getElem?_zipWith, getElem?_toList h.le, next]
  rfl

theorem vertex_iterate_narrow {c : ControlPolygon ℝ} {n i : ℕ} (h : i + n ≤ c.degree) (t : ℝ) :
    ((narrow · t)^[n] c).vertex i = (row t)^[n] c.vertex i := by
  induction n generalizing c with
  | zero => rfl
  | succ n ih =>
    have shorter : i + n ≤ (c.narrow t).degree := by
      rw [degree_narrow]
      omega
    rw [Function.iterate_succ_apply, Function.iterate_succ_apply, ih shorter]
    exact iterate_row_congr t n i fun j hj => vertex_narrow (by omega) t

theorem apex_eq (t : ℝ) (n : ℕ) (c : ControlPolygon ℝ) :
    apex t n c = ((narrow · t)^[n] c).first := by
  induction n generalizing c with
  | zero => rfl
  | succ n ih => exact ih (c.narrow t)

/-- The curve as a row of its control points. -/
theorem evaluate_eq (c : ControlPolygon ℝ) (t : ℝ) :
    c.evaluate t = (row t)^[c.degree] c.vertex 0 := by
  rw [evaluate, apex_eq, ← vertex_zero, vertex_iterate_narrow (by omega)]

@[simp] theorem evaluate_zero (c : ControlPolygon ℝ) : c.evaluate 0 = c.first := by
  rw [evaluate_eq, iterate_row_zero, vertex_zero]

@[simp] theorem evaluate_one (c : ControlPolygon ℝ) : c.evaluate 1 = c.last := by
  rw [evaluate_eq, iterate_row_one, Nat.zero_add, vertex_degree]

/-! ### The two parts -/

theorem rows_eq (t : ℝ) (n : ℕ) (c : ControlPolygon ℝ) :
    rows t n c = (List.range n).map fun k => (narrow · t)^[k + 1] c := by
  induction n generalizing c with
  | zero => rfl
  | succ n ih =>
    rw [rows, ih, List.range_succ_eq_map, List.map_cons, List.map_map]
    rfl

theorem toList_reverse {α : Type} [Scalar α] (c : ControlPolygon α) :
    c.reverse.toList = c.toList.reverse := by
  have main (ps : List (Point α)) (r : ControlPolygon α) :
      (ps.foldl (fun (r : ControlPolygon α) p => ⟨p, r.first :: r.rest⟩) r).toList =
        ps.reverse ++ r.toList := by
    induction ps generalizing r with
    | nil => rfl
    | cons p ps ih =>
      rw [List.foldl_cons, ih, List.reverse_cons, List.append_assoc]
      rfl
  rw [reverse, main]
  exact List.reverse_cons.symm

theorem last_reverse {α : Type} [Scalar α] (c : ControlPolygon α) : c.reverse.last = c.first := by
  have last := getLast?_toList c.reverse
  rw [toList_reverse, List.getLast?_reverse] at last
  exact (Option.some.inj last).symm

theorem last_split_right {α : Type} [Scalar α] (c : ControlPolygon α) (t : α) :
    (c.split t).2.last = c.last :=
  last_reverse _

/-- Flattening ends at the last control point. -/
theorem getLast?_flattenFrom {α : Type} [Scalar α] (tolerance : α) (depth : ℕ)
    (c : ControlPolygon α) : (c.flattenFrom tolerance depth).getLast? = some c.last := by
  induction depth generalizing c with
  | zero => rfl
  | succ depth ih =>
    rw [flattenFrom]
    split
    · rfl
    · rw [List.getLast?_append, ih, last_split_right, Option.some_or]

theorem flatten_toList {α : Type} [Scalar α] (c : ControlPolygon α) {tolerance : α}
    (positive : 0 < tolerance) (depth : ℤ) : Bezier.flatten c.toList tolerance depth =
      .ok (c.first :: c.flattenFrom tolerance depth.toNat) := by
  simp [Bezier.flatten, flatten, checkTolerance, positive, toList, ofList?]
  rfl

theorem toList_split_left (c : ControlPolygon ℝ) (t : ℝ) :
    (c.split t).1.toList =
      (List.range (c.degree + 1)).map fun k => ((narrow · t)^[k] c).first := by
  rw [List.range_succ_eq_map, List.map_cons, List.map_map]
  change c.first :: (rows t c.degree c).map first = _
  rw [rows_eq, List.map_map]
  rfl

theorem toList_split_right (c : ControlPolygon ℝ) (t : ℝ) :
    (c.split t).2.toList =
      ((List.range (c.degree + 1)).map fun k => ((narrow · t)^[k] c).last).reverse := by
  rw [List.range_succ_eq_map, List.map_cons, List.map_map]
  change (reverse ⟨c.last, (rows t c.degree c).map last⟩).toList = _
  rw [toList_reverse, toList, rows_eq, List.map_map]
  rfl

theorem degree_split_left (c : ControlPolygon ℝ) (t : ℝ) : (c.split t).1.degree = c.degree := by
  have size := congrArg List.length (toList_split_left c t)
  simpa [toList, degree] using size

theorem degree_split_right (c : ControlPolygon ℝ) (t : ℝ) : (c.split t).2.degree = c.degree := by
  have size := congrArg List.length (toList_split_right c t)
  simpa [toList, degree] using size

theorem vertex_split_left {c : ControlPolygon ℝ} {k : ℕ} (h : k ≤ c.degree) (t : ℝ) :
    (c.split t).1.vertex k = (row t)^[k] c.vertex 0 := by
  rw [← vertex_iterate_narrow (by omega), vertex_zero]
  apply vertex_eq
  rw [toList_split_left]
  simp [Nat.lt_succ_of_le h]

theorem vertex_split_right {c : ControlPolygon ℝ} {k : ℕ} (h : k ≤ c.degree) (t : ℝ) :
    (c.split t).2.vertex k = (row t)^[c.degree - k] c.vertex k := by
  have size : ((narrow · t)^[c.degree - k] c).degree = k := by
    rw [degree_iterate_narrow]
    omega
  have last : ((narrow · t)^[c.degree - k] c).vertex k = ((narrow · t)^[c.degree - k] c).last := by
    rw [← vertex_degree, size]
  rw [← vertex_iterate_narrow (by omega), last]
  apply vertex_eq
  rw [toList_split_right, List.getElem?_reverse (by simp; omega)]
  simp

/-- The left part runs through the curve up to the cut. -/
theorem evaluate_split_left (c : ControlPolygon ℝ) (t s : ℝ) :
    (c.split t).1.evaluate s = c.evaluate (t * s) := by
  have points : ∀ i ≤ 0 + c.degree, (c.split t).1.vertex i = (row t)^[i] c.vertex 0 :=
    fun i hi => vertex_split_left (by omega) t
  rw [evaluate_eq, evaluate_eq, degree_split_left, iterate_row_congr s _ _ points,
    iterate_row_first]
  rfl

/-- The right part runs through the curve from the cut on. -/
theorem evaluate_split_right (c : ControlPolygon ℝ) (t s : ℝ) :
    (c.split t).2.evaluate s = c.evaluate (t + (1 - t) * s) := by
  have points : ∀ i ≤ 0 + c.degree,
      (c.split t).2.vertex i = (row t)^[c.degree - i] c.vertex i :=
    fun i hi => vertex_split_right (by omega) t
  rw [evaluate_eq, evaluate_eq, degree_split_right, iterate_row_congr s _ _ points,
    iterate_row_last s t c.degree c.vertex le_rfl, Nat.sub_self]
  rfl

/-- Both parts have the curve's point at the cut. -/
theorem last_split_left (c : ControlPolygon ℝ) (t : ℝ) : (c.split t).1.last = c.evaluate t := by
  rw [← evaluate_one, evaluate_split_left, mul_one]

theorem first_split_right (c : ControlPolygon ℝ) (t : ℝ) : (c.split t).2.first = c.evaluate t := by
  rw [← evaluate_zero, evaluate_split_right, mul_zero, add_zero]

/-! ### The hull -/

/-- What holds of all control points, and of the points between two of which it holds,
holds of the curve. -/
theorem evaluate_mem {K : Set (Point ℝ)} {t : ℝ}
    (between : ∀ p ∈ K, ∀ q ∈ K, p.lerp q t ∈ K) {c : ControlPolygon ℝ}
    (points : ∀ p ∈ c.toList, p ∈ K) : c.evaluate t ∈ K := by
  rw [evaluate_eq]
  exact iterate_row_mem between _ _ fun i hi =>
    points _ (List.mem_of_getElem? (getElem?_toList (by omega)))

end ControlPolygon

/-! ### Curves given by lists -/

namespace Bezier

theorem evaluate_toList {α : Type} [Scalar α] (c : ControlPolygon α) (t : α) :
    evaluate c.toList t = .ok (c.evaluate t) := rfl

theorem split_toList {α : Type} [Scalar α] (c : ControlPolygon α) (t : α) :
    split c.toList t = .ok ((c.split t).1.toList, (c.split t).2.toList) := rfl

/-- **A split curve.** Any control points, unless there are none, are split at any parameter
into two lists that are as long. The first ends where the second starts, at the curve's point
at the cut; it runs through the curve from the start to there, and the second from there to
the end. -/
theorem split_runs_through {control : List (Point ℝ)} (some_point : control ≠ []) (t : ℝ) :
    ∃ left right cut, split control t = .ok (left, right) ∧
      left.length = control.length ∧ right.length = control.length ∧
      left.getLast? = some cut ∧ right.head? = some cut ∧ evaluate control t = .ok cut ∧
      ∀ s, (∃ p, evaluate left s = .ok p ∧ evaluate control (t * s) = .ok p) ∧
        ∃ q, evaluate right s = .ok q ∧ evaluate control (t + (1 - t) * s) = .ok q := by
  obtain ⟨first, rest, rfl⟩ := List.exists_cons_of_ne_nil some_point
  let c : ControlPolygon ℝ := ⟨first, rest⟩
  have long (d : ControlPolygon ℝ) : d.toList.length = d.degree + 1 := rfl
  refine ⟨(c.split t).1.toList, (c.split t).2.toList, c.evaluate t, split_toList c t,
    ?_, ?_, ?_, ?_, evaluate_toList c t, fun s => ⟨?_, ?_⟩⟩
  · rw [long, c.degree_split_left]
    rfl
  · rw [long, c.degree_split_right]
    rfl
  · rw [ControlPolygon.getLast?_toList, c.last_split_left]
  · exact congrArg some (c.first_split_right t)
  · refine ⟨_, evaluate_toList _ s, ?_⟩
    rw [c.evaluate_split_left]
    exact evaluate_toList c _
  · refine ⟨_, evaluate_toList _ s, ?_⟩
    rw [c.evaluate_split_right]
    exact evaluate_toList c _

/-- A cubic with a loop, cut at a third. -/
theorem split_runs_through_loop :
    let loop : List (Point ℝ) := [⟨0, 0⟩, ⟨6, 3⟩, ⟨-3, 3⟩, ⟨3, 0⟩]
    loop ≠ [] ∧ ∃ left right cut, split loop (1 / 3) = .ok (left, right) ∧
      left.length = 4 ∧ right.length = 4 ∧
      left.getLast? = some cut ∧ right.head? = some cut ∧ evaluate loop (1 / 3) = .ok cut ∧
      ∀ s, (∃ p, evaluate left s = .ok p ∧ evaluate loop (1 / 3 * s) = .ok p) ∧
        ∃ q, evaluate right s = .ok q ∧ evaluate loop (1 / 3 + (1 - 1 / 3) * s) = .ok q := by
  intro loop
  have some_point : loop ≠ [] := List.cons_ne_nil _ _
  exact ⟨some_point, split_runs_through some_point (1 / 3)⟩

end Bezier

end BoardPlotter
