import BoardPlotter.Proofs.Plan.Redrawing

/-!
# Listings of a closed outline

The vertices of a closed outline can be listed from any of them on, in either direction,
and with the first one again at the end or not (`Polyline.Lists`). The vertices that
count for the axes are then the same up to their order, and so are the sides up to theirs
and to their direction. Means and covariances do not see the order
(`Axes.principal_perm`), and crossings of one line are put in order anyhow
(`Hatch.eq_of_perm`).

`HatchPlan.ofPolyline_lists`: the plan is the same for all listings.
-/

namespace BoardPlotter

open Point

/-! ### Axes -/

namespace Axes

theorem sum_perm {xs ys : List ℝ} (perm : xs.Perm ys) : sum xs = sum ys := by
  rw [sum_eq, sum_eq, perm.sum_eq]

theorem mean_perm {xs ys : List ℝ} (perm : xs.Perm ys) : mean xs = mean ys := by
  rw [mean, mean, sum_perm perm, perm.length_eq]

variable {ps qs : List (Point ℝ)}

theorem covariance_perm (perm : ps.Perm qs) : covariance ps = covariance qs := by
  rw [covariance, covariance, mean_perm (perm.map Point.x), mean_perm (perm.map Point.y),
    perm.length_eq]
  have average (f : Point ℝ → ℝ) {g : Point ℝ → Point ℝ} :
      sum ((ps.map g).map f) = sum ((qs.map g).map f) := sum_perm ((perm.map g).map f)
  simp only [average]

/-- The axes do not depend on the order of the points. -/
theorem principal_perm (perm : ps.Perm qs) (eps : ℝ) : principal ps eps = principal qs eps := by
  rw [principal, principal, perm.length_eq, covariance_perm perm]

end Axes

/-! ### Sides -/

/-- A walk taken back. -/
theorem legs_reverse (ps : List (Point ℝ)) :
    legs ps.reverse = ((legs ps).map Prod.swap).reverse := by
  induction ps with
  | nil => rfl
  | cons p ps ih =>
    cases ps with
    | nil => rfl
    | cons q ps =>
      rw [List.reverse_cons, List.reverse_cons, List.append_assoc, List.singleton_append,
        legs_append, ← List.reverse_cons, ih, legs_cons_cons p q ps, List.map_cons,
        List.reverse_cons]
      rfl

theorem sides_reverse_perm (ps : List (Point ℝ)) :
    (sides ps.reverse).Perm ((sides ps).map Prod.swap) := by
  cases ps with
  | nil => rfl
  | cons p ps =>
    have turned : (p :: ps).reverse.IsRotated (p :: ps.reverse) := by
      rw [List.reverse_cons]
      exact List.isRotated_append
    have back : sides (p :: ps.reverse) = ((sides (p :: ps)).map Prod.swap).reverse := by
      rw [sides, sides, ← legs_reverse]
      simp
    refine (sides_perm turned).trans ?_
    rw [back]
    exact List.reverse_perm _

/-- A side is crossed where it is crossed in the other direction. -/
theorem Axes.crossings_swap (axes : Axes ℝ) (h : ℝ) (ss : List (Point ℝ × Point ℝ)) :
    axes.crossings h (ss.map Prod.swap) = axes.crossings h ss := by
  rw [crossings, crossings, List.filter_map, List.map_map]
  have across : (fun s => decide (axes.Spans h s)) ∘ Prod.swap =
      fun s => decide (axes.Spans h s) := by
    funext s
    exact decide_eq_decide.mpr spans_swap
  rw [across]
  refine List.map_congr_left fun s hs => ?_
  have spans : axes.Spans h s := of_decide_eq_true (List.mem_filter.mp hs).2
  exact (spans_swap.mpr spans).meet_eq_meet spans (right_mem_segment _ _) (left_mem_segment _ _)

/-! ### Listings -/

/-- The vertices of a closed outline begun elsewhere, or listed the other way round. -/
def Turned (ps qs : List (Point ℝ)) : Prop := ps.IsRotated qs ∨ ps.IsRotated qs.reverse

namespace Turned

variable {ps qs : List (Point ℝ)}

theorem perm (turned : Turned ps qs) : ps.Perm qs := by
  rcases turned with turned | turned
  · exact turned.perm
  · exact turned.perm.trans (List.reverse_perm qs)

/-- The lines cross the sides in the same points. -/
theorem crossings_perm (turned : Turned ps qs) (axes : Axes ℝ) (h : ℝ) :
    (axes.crossings h (sides ps)).Perm (axes.crossings h (sides qs)) := by
  rcases turned with turned | turned
  · exact ((sides_perm turned).filter _).map _
  · rw [← axes.crossings_swap h (sides qs)]
    exact (((sides_perm turned).trans (sides_reverse_perm qs)).filter _).map _

end Turned

/-- A polyline lists the vertices of a closed outline: from any of them on, in either
direction. The first one comes again at the end, or it does not and the ends are apart. -/
def Polyline.Lists (eps : ℝ) (cycle : List (Point ℝ)) (l : Polyline ℝ) : Prop :=
  ∃ ps, Turned ps cycle ∧
    (l.vertices = ps ++ ps.take 1 ∨ l.vertices = ps ∧ l.isClosed eps = false)

namespace Polyline

/-- What the plan of a listing is made of: some order of the vertices, and the sides
between them. -/
theorem Lists.exists_turned {eps : ℝ} (heps : 0 ≤ eps) {cycle : List (Point ℝ)} {l : Polyline ℝ}
    (listed : l.Lists eps cycle) :
    ∃ ps, Turned ps cycle ∧ (∀ p, p ∈ l.vertices ↔ p ∈ ps) ∧
      (if l.isClosed eps then l.rest else l.vertices).Perm ps ∧
      (if l.isClosed eps then l.segments else l.segments ++ [(l.last, l.start)]) = sides ps := by
  obtain ⟨ps, turned, vertices⟩ := listed
  refine ⟨ps, turned, ?_⟩
  rcases vertices with repeated | ⟨rfl, open_⟩
  · cases ps with
    | nil => cases repeated
    | cons p ps =>
      obtain ⟨start, rest, fill⟩ := l
      have vertices : start :: rest = p :: (ps ++ [p]) := repeated
      obtain ⟨rfl, rfl⟩ := List.cons.inj vertices
      have closed : (Polyline.mk start (ps ++ [start]) fill).isClosed eps = true := by
        simp [isClosed, isEmpty, last, closeTo, heps]
      rw [closed]
      refine ⟨fun q => ?_, List.perm_append_singleton start ps, rfl⟩
      simp only [Polyline.vertices, List.mem_cons, List.mem_append, List.not_mem_nil, or_false]
      tauto
  · rw [open_]
    exact ⟨fun p => Iff.rfl, .refl _, (l.sides_vertices).symm⟩

end Polyline

/-! ### The plan -/

namespace Hatch

/-- Points of one line that are in order along it are determined up to their order. -/
theorem eq_of_perm {axes : Axes ℝ} (frame : axes.Orthonormal) {h : ℝ} {backwards : Bool}
    {cs ds : List (Point ℝ)} (perm : cs.Perm ds) (on : ∀ c ∈ cs, c.dot axes.across = h)
    (sorted : cs.Pairwise fun p q => reach axes backwards p ≤ reach axes backwards q)
    (sorted' : ds.Pairwise fun p q => reach axes backwards p ≤ reach axes backwards q) :
    cs = ds := by
  refine perm.eq_of_pairwise (fun p q hp hq le ge => ?_) sorted sorted'
  have same : reach axes backwards p = reach axes backwards q := le_antisymm le ge
  refine frame.ext ((on p hp).trans (on q (perm.mem_iff.mpr hq)).symm) ?_
  cases backwards <;> simpa [reach] using same

/-- All listings use the same crossings on a line, in the same order. -/
theorem lineHits_lists {axes : Axes ℝ} (frame : axes.Orthonormal) {l l' : Polyline ℝ} {eps : ℝ}
    (heps : 0 ≤ eps) {cycle : List (Point ℝ)} (listed : l.Lists eps cycle)
    (listed' : l'.Lists eps cycle) {f : ℕ → ℝ} (mono : Monotone f) (k : ℕ) :
    lineHits axes (edges l (l.isClosed eps) axes.across) f k =
      lineHits axes (edges l' (l'.isClosed eps) axes.across) f k := by
  have perm {l : Polyline ℝ} (listed : l.Lists eps cycle) :
      (lineHits axes (edges l (l.isClosed eps) axes.across) f k).Perm
        (axes.crossings (f k) (sides cycle)) := by
    obtain ⟨ps, turned, -, -, around⟩ := listed.exists_turned heps
    have hits := lineHits_perm frame l (l.isClosed eps) mono k
    rw [around] at hits
    exact hits.trans (turned.crossings_perm axes (f k))
  refine eq_of_perm frame ((perm listed).trans (perm listed').symm) (h := f k) (fun c hc => ?_)
    (inOrder_sorted axes (k % 2 == 1) _) (inOrder_sorted axes (k % 2 == 1) _)
  exact (mem_crossings ((perm listed).mem_iff.mp hc)).1

end Hatch

namespace HatchPlan

open Hatch

/-- **The plan is that of the outline.** Whatever vertex it is listed from, in whichever
direction, and whether the first vertex comes again at the end or is left out there, a
closed outline has one and the same plan. -/
theorem ofPolyline_lists {cycle : List (Point ℝ)} {l l' : Polyline ℝ} {step eps : ℝ}
    (hstep : 0 < step) (heps : 0 ≤ eps) (listed : l.Lists eps cycle)
    (listed' : l'.Lists eps cycle) :
    ∃ plan, ofPolyline l step eps = .ok plan ∧ ofPolyline l' step eps = .ok plan := by
  obtain ⟨ps, turned, members, counted, -⟩ := listed.exists_turned heps
  obtain ⟨ps', turned', members', counted', -⟩ := listed'.exists_turned heps
  have vertices (p : Point ℝ) : p ∈ l.vertices ↔ p ∈ l'.vertices := by
    rw [members, members', turned.perm.mem_iff, turned'.perm.mem_iff]
  have area : hasArea l = hasArea l' := by
    have same : l.vertices.toFinset = l'.vertices.toFinset := by
      ext p
      simp only [List.mem_toFinset, vertices]
    rw [Bool.eq_iff_iff, hasArea_iff, hasArea_iff, same]
  by_cases large : hasArea l = true
  · obtain ⟨axes, low, high, n, found, least, greatest, below, unit, plan⟩ :=
      ofPolyline_eq large hstep eps
    obtain ⟨axes', low', high', n', found', least', greatest', below', -, plan'⟩ :=
      ofPolyline_eq (area ▸ large) hstep eps
    have axes_eq : axes' = axes := by
      have perm := (counted.trans turned.perm).trans (counted'.trans turned'.perm).symm
      rw [Axes.principal_perm perm, found'] at found
      exact Except.ok.inj found
    subst axes_eq
    have heights : {x | x ∈ l'.vertices.map (·.dot axes'.across)} =
        {x | x ∈ l.vertices.map (·.dot axes'.across)} := by
      ext x
      simp only [Set.mem_ofPred_eq, List.mem_map, vertices]
    rw [heights] at least' greatest'
    obtain rfl := least.unique least'
    obtain rfl := greatest.unique greatest'
    obtain rfl : n = n' := by
      have same (k : ℕ) : k < n ↔ k < n' := (below k).trans (below' k).symm
      exact le_antisymm (not_lt.mp fun h => lt_irrefl _ ((same _).mp h))
        (not_lt.mp fun h => lt_irrefl _ ((same _).mpr h))
    have mono := (height_strictMono hstep low).monotone
    have lines : ((List.range n).flatMap fun k => pairs (lineHits axes'
          (edges l' (l'.isClosed eps) axes'.across) (height low step) k)) =
        (List.range n).flatMap fun k => pairs (lineHits axes'
          (edges l (l.isClosed eps) axes'.across) (height low step) k) := by
      refine List.flatMap_congr fun k hk => ?_
      have frame := unit (Nat.zero_lt_of_lt (List.mem_range.mp hk))
      rw [lineHits_lists frame heps listed' listed mono]
    exact ⟨_, plan, by rw [plan', lines]⟩
  · have small : hasArea l = false := by simpa using large
    exact ⟨_, ofPolyline_of_not_hasArea small hstep eps,
      ofPolyline_of_not_hasArea (area ▸ small) hstep eps⟩

/-- A rectangle that comes back to its corner, and one that is left open, taken the other
way round from the opposite corner. -/
theorem ofPolyline_lists_rectangle :
    let cycle : List (Point ℝ) := [⟨0, 0⟩, ⟨4, 0⟩, ⟨4, 3⟩, ⟨0, 3⟩]
    let back : Polyline ℝ := ⟨⟨0, 0⟩, [⟨4, 0⟩, ⟨4, 3⟩, ⟨0, 3⟩, ⟨0, 0⟩], true⟩
    let open_ : Polyline ℝ := ⟨⟨4, 3⟩, [⟨4, 0⟩, ⟨0, 0⟩, ⟨0, 3⟩], false⟩
    (0 : ℝ) < 1 / 2 ∧ (0 : ℝ) ≤ Scalar.epsilon ∧ back.Lists Scalar.epsilon cycle ∧
      open_.Lists Scalar.epsilon cycle ∧
      ∃ plan, ofPolyline back (1 / 2) Scalar.epsilon = .ok plan ∧
        ofPolyline open_ (1 / 2) Scalar.epsilon = .ok plan := by
  intro cycle back open_
  have small : (0 : ℝ) ≤ Scalar.epsilon := by
    rw [Exact.epsilon_eq]
    positivity
  have listed : back.Lists Scalar.epsilon cycle := ⟨cycle, .inl ⟨0, rfl⟩, .inl rfl⟩
  have apart : open_.isClosed Scalar.epsilon = false := by
    rw [Exact.epsilon_eq]
    norm_num [open_, Polyline.isClosed, Polyline.isEmpty, Polyline.last, closeTo]
  have listed' : open_.Lists Scalar.epsilon cycle :=
    ⟨_, .inr ⟨3, rfl⟩, .inr ⟨rfl, apart⟩⟩
  have step : (0 : ℝ) < 1 / 2 := by norm_num
  exact ⟨step, small, listed, listed', ofPolyline_lists step small listed listed'⟩

end HatchPlan

end BoardPlotter
