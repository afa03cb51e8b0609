import BoardPlotter.Proofs.Plan.Stretch

/-!
# What filling a clipped outline covers

Each piece of a clipped outline is filled as a region of its own, closed by the
chord between its ends. So the passes stay inside that region
(`HatchPlan.exists_plan_inside`), but that region need not be part of the outline's:
between the chord and the piece may lie what the outline has outside. By the parity
of the two parts into which the chord cuts the outline, this happens exactly where
the rest of the outline, closed by the chord, covers the region too
(`Window.fill_inside`). An outline that does not leave the window is filled inside.
-/

namespace BoardPlotter

open Point

/-- **Passes stay inside the outline they are planned for**, by the rays along their
own lines. -/
theorem HatchPlan.exists_plan_inside {l : Polyline ℝ} {step : ℝ} (hstep : 0 < step) {eps : ℝ}
    (closed : l.last = l.start ∨ l.isClosed eps = false) :
    ∃ plan, ∃ axes : Axes ℝ, ofPolyline l step eps = .ok plan ∧
      ∀ pass ∈ plan.passes, axes.Orthonormal ∧ ∀ q ∈ segment pass.entry pass.exit,
        q ≠ pass.entry → q ≠ pass.exit → axes.Inside l.vertices q := by
  cases area : hasArea l
  · exact ⟨_, .horizontal, ofPolyline_of_not_hasArea area hstep eps, by simp⟩
  obtain ⟨axes, low, high, n, -, -, -, -, unit, plan⟩ := ofPolyline_eq area hstep eps
  refine ⟨_, axes, plan, fun pass hpass => ?_⟩
  obtain ⟨k, hk, hpass⟩ := List.mem_flatMap.mp hpass
  have frame := unit (Nat.zero_lt_of_lt (List.mem_range.mp hk))
  have line := Hatch.lineExact_lineHits frame closed (Hatch.height_strictMono hstep low).monotone k
  exact ⟨frame, fun q hq ne ne' => line.odd_precedes frame hpass hq ne ne'⟩

namespace Window

variable {w : Window ℝ}

/-- An outline that stays in the window is one piece, the outline without repeated
vertices. -/
theorem redraws_of_contains {l : Polyline ℝ} (resolved : w.Resolves l)
    (stays : ∀ p ∈ l.vertices, w.contains p = true) {piece : Polyline ℝ}
    (hpiece : piece ∈ w.split l) : Redraws l.vertices piece.vertices := by
  have walks : w.walked l = [l.vertices] := runsFrom_of_contains l.rest [l.start] stays
  have member : piece.vertices ∈ w.runs l := by
    have hr := vertices_mem_pieces hpiece
    rw [pieces, rejoin_runs_of_walked walks, ite_self] at hr
    exact hr
  rw [runs, List.mem_filter, List.mem_map] at member
  obtain ⟨⟨walk, hwalk, thinned⟩, -⟩ := member
  change walk ∈ w.walked l at hwalk
  have whole : walk = l.vertices := List.mem_singleton.mp (walks ▸ hwalk)
  rw [← thinned, resolved.apart walk hwalk, whole]
  simpa using redraws_dropClose [] l.vertices []

/-- **What filling the pieces of a closed outline covers.** If the tolerance resolves
the outline, every piece is planned, and is a stretch of it. The points of the passes,
their ends apart, are inside the piece closed by its chord; off the outline such a
point is inside the outline if and only if it is not inside the rest of it closed by
the same chord. If the outline stays in the window, all of them are inside it. -/
theorem fill_inside (proper : w.IsProper) {l : Polyline ℝ} (closed : l.last = l.start) {step : ℝ}
    (hstep : 0 < step) :
    (w.IsExact → ¬ w.onEdge l.start → w.Resolves l) ∧
      (w.Resolves l → ∀ piece ∈ w.split l, ∃ plan rest, ∃ axes : Axes ℝ,
        HatchPlan.ofPolyline piece step w.eps = .ok plan ∧
        Redraws l.vertices (piece.vertices ++ rest) ∧
        ∀ pass ∈ plan.passes, ∀ q ∈ segment pass.entry pass.exit,
          q ≠ pass.entry → q ≠ pass.exit →
            axes.Orthonormal ∧ axes.Inside piece.vertices q ∧
            (q ∉ outline l.vertices →
              (Encloses l.vertices q ↔
                ¬ axes.Inside (piece.last :: (rest ++ [piece.start])) q) ∧
              ((∀ p ∈ l.vertices, w.contains p = true) → Encloses l.vertices q))) := by
  refine ⟨fun exact off => exact.resolves closed off, fun resolved piece hpiece => ?_⟩
  have ends : piece.last = piece.start ∨ piece.isClosed w.eps = false := by
    cases back : piece.isClosed w.eps
    · exact .inr rfl
    · exact .inl (resolved.ends piece hpiece back)
  obtain ⟨plan, axes, planned, within⟩ := HatchPlan.exists_plan_inside hstep ends
  obtain ⟨rest, whole⟩ := proper.exists_rest resolved closed hpiece
  refine ⟨plan, rest, axes, planned, whole, fun pass hpass q hq ne ne' => ?_⟩
  obtain ⟨frame, inside⟩ := within pass hpass
  have here := inside q hq ne ne'
  refine ⟨frame, here, fun off => ⟨?_, fun stays => ?_⟩⟩
  · rw [encloses_iff off frame, whole.inside_iff, axes.inside_cut piece rest q]
    exact not_congr (iff_true_left here)
  · rw [encloses_iff off frame, (redraws_of_contains resolved stays hpiece).inside_iff]
    exact here

/-! ### A tip at the edge

A wedge that reaches into the window leaves two sides there, and so does a region round the
window with a notch of the same shape.
-/

theorem split_wedge :
    (⟨10, 10, 0⟩ : Window ℝ).split ⟨⟨-2, -1⟩, [⟨4, 5⟩, ⟨-2, 11⟩, ⟨-2, -1⟩], true⟩ =
      [⟨⟨0, 1⟩, [⟨4, 5⟩, ⟨0, 9⟩], true⟩] := by
  norm_num [split, pieces, runs, runsFrom, contains, crossings, boundary_eq, List.filterMap_cons,
    Crossing.ofSegments?, Crossing.ofLines?, Crossing.within, det, mk_add_mk, mk_sub_mk, scale_mk,
    Exact.clampUnit_eq, List.mergeSort, List.merge, mergeNear_nil, mergeNear_cons, dropClose_cons,
    thin, closeTo, Polyline.ofVertices?]

theorem split_notched :
    (⟨10, 10, Scalar.epsilon⟩ : Window ℝ).split
      ⟨⟨-1, 0⟩, [⟨4, 5⟩, ⟨-1, 10⟩, ⟨-1, 20⟩, ⟨20, 20⟩, ⟨20, -10⟩, ⟨-1, -10⟩, ⟨-1, 0⟩], true⟩ =
        [⟨⟨0, 1⟩, [⟨4, 5⟩, ⟨0, 9⟩], true⟩] := by
  norm_num [split, pieces, runs, runsFrom, contains, crossings, boundary_eq, List.filterMap_cons,
    Exact.epsilon_eq, Crossing.ofSegments?, Crossing.ofLines?, Crossing.within, det, mk_add_mk,
    mk_sub_mk, scale_mk, Exact.clampUnit_eq, List.mergeSort, List.merge, mergeNear_nil,
    mergeNear_cons, dropClose_cons, thin, closeTo, Polyline.ofVertices?]

/-- These sides are filled on one line, from one to the other. -/
theorem exists_pass_tip {eps : ℝ} (exact : 0 ≤ eps) (small : eps < 8) :
    let tip : Polyline ℝ := ⟨⟨0, 1⟩, [⟨4, 5⟩, ⟨0, 9⟩], true⟩
    ∃ plan, HatchPlan.ofPolyline tip 4 eps = .ok plan ∧
      ∃ pass ∈ plan.passes, (⟨2, 5⟩ : Point ℝ) ∈ segment pass.entry pass.exit ∧
        (⟨2, 5⟩ : Point ℝ) ≠ pass.entry ∧ (⟨2, 5⟩ : Point ℝ) ≠ pass.exit := by
  intro tip
  have back : tip.isClosed eps = false := by
    norm_num [tip, Polyline.isClosed, Polyline.isEmpty, Polyline.last, closeTo, small]
  have axes_eq : Axes.principal tip.vertices eps = .ok .vertical := by
    norm_num [Axes.principal, Axes.covariance, Axes.mean, Axes.sum, Exact.ofNat_eq, tip,
      Polyline.vertices, exact]
  have area : HatchPlan.hasArea tip = true := by
    norm_num [HatchPlan.hasArea, tip, List.filter_cons, HatchPlan.bne_iff]
  obtain ⟨axes, low, high, n, found, least, greatest, below, -, plan⟩ :=
    HatchPlan.ofPolyline_eq area (show (0 : ℝ) < 4 by norm_num) eps
  rw [back, if_neg Bool.false_ne_true, axes_eq] at found
  obtain rfl := Except.ok.inj found
  have heights : {x | x ∈ tip.vertices.map (·.dot (Axes.vertical : Axes ℝ).across)} =
      {0, 4} := by
    ext x
    have twice : (x = 0 ∨ x = 4 ∨ x = 0) ↔ (x = 0 ∨ x = 4) := by tauto
    simpa [tip, Polyline.vertices, Axes.vertical, dot, eq_comm] using twice
  rw [heights] at least greatest
  obtain rfl : low = 0 := least.unique ⟨by simp, by simp⟩
  obtain rfl : high = 4 := greatest.unique ⟨by simp, by simp⟩
  have first : 0 < n := (below 0).mpr (by norm_num [Hatch.height_eq])
  have line := Hatch.lineExact_lineHits Axes.vertical_orthonormal (.inr back)
    (Hatch.height_strictMono (show (0 : ℝ) < 4 by norm_num) 0).monotone 0
  have height : Hatch.height (0 : ℝ) 4 0 = 2 := by norm_num [Hatch.height_eq]
  have crossings : Axes.vertical.crossings (Hatch.height 0 4 0) (sides tip.vertices) =
      [⟨2, 3⟩, ⟨2, 7⟩] := by
    rw [height]
    norm_num [Axes.crossings, sides, legs, tip, Polyline.vertices, Axes.Spans, Axes.meet,
      Axes.vertical, dot, List.filter_cons, Point.along, mk_add_mk, mk_sub_mk, scale_mk]
  have used := line.crossings
  rw [crossings] at used
  have off (c : Point ℝ) (hc : c ∈ Hatch.lineHits Axes.vertical
      (Hatch.edges tip (tip.isClosed eps) Axes.vertical.across)
      (Hatch.height 0 4) 0) : (⟨2, 5⟩ : Point ℝ) ≠ c := by
    have hc := used.mem_iff.mp hc
    simp only [List.mem_cons, List.not_mem_nil, or_false] at hc
    rcases hc with rfl | rfl <;> norm_num
  have odd := used.countP_eq fun c =>
    decide (c.dot Axes.vertical.along < (⟨2, 5⟩ : Point ℝ).dot Axes.vertical.along)
  obtain ⟨pass, hpass, within⟩ := (line.covers ⟨2, 5⟩ (by norm_num [height, Axes.vertical, dot])
    fun hc => off _ hc rfl).mpr (by rw [odd]; norm_num [Axes.vertical, dot, List.countP_cons])
  obtain ⟨hin, hout⟩ := Hatch.mem_of_mem_pairs hpass
  exact ⟨_, plan, pass, List.mem_flatMap.mpr ⟨0, List.mem_range.mpr first, hpass⟩, within,
    off _ hin, off _ hout⟩

theorem off_wedge : (⟨2, 5⟩ : Point ℝ) ∉ outline [⟨-2, -1⟩, ⟨4, 5⟩, ⟨-2, 11⟩, ⟨-2, -1⟩] := by
  rintro ⟨s, hs, on⟩
  obtain ⟨t, ⟨h₀, h₁⟩, hx, hy⟩ := mem_segment_iff.mp on
  simp only [sides, legs, List.cons_append, List.nil_append, List.tail_cons, List.zip_cons_cons,
    List.zip_nil_right, List.mem_cons, List.not_mem_nil, or_false] at hs
  rcases hs with rfl | rfl | rfl | rfl <;> linarith

theorem encloses_wedge : Encloses [⟨-2, -1⟩, ⟨4, 5⟩, ⟨-2, 11⟩, ⟨-2, -1⟩] ⟨2, 5⟩ := by
  refine (encloses_iff off_wedge Axes.horizontal_orthonormal).mpr ?_
  norm_num [Axes.Inside, sides, legs, List.countP_cons, Axes.Precedes, Axes.Spans, Axes.meet,
    Axes.horizontal, dot, Point.along, mk_add_mk, mk_sub_mk, scale_mk]

/-- A wedge that reaches into the window is filled there, between its sides; the rest of it is
beyond the chord. -/
theorem fill_inside_wedge :
    let w : Window ℝ := ⟨10, 10, 0⟩
    let wedge : Polyline ℝ := ⟨⟨-2, -1⟩, [⟨4, 5⟩, ⟨-2, 11⟩, ⟨-2, -1⟩], true⟩
    let tip : Polyline ℝ := ⟨⟨0, 1⟩, [⟨4, 5⟩, ⟨0, 9⟩], true⟩
    let q : Point ℝ := ⟨2, 5⟩
    w.split wedge = [tip] ∧ ∃ plan rest, ∃ axes : Axes ℝ,
      HatchPlan.ofPolyline tip 4 0 = .ok plan ∧ Redraws wedge.vertices (tip.vertices ++ rest) ∧
      (∃ pass ∈ plan.passes, q ∈ segment pass.entry pass.exit) ∧ axes.Inside tip.vertices q ∧
      Encloses wedge.vertices q ∧ ¬ axes.Inside (tip.last :: (rest ++ [tip.start])) q := by
  intro w wedge tip q
  have exact : w.IsExact := ⟨rfl, by norm_num [w], by norm_num [w]⟩
  have proper : w.IsProper := ⟨exact.eps.ge, exact.width, exact.height⟩
  have off : ¬ w.onEdge wedge.start := by
    rintro ⟨e, he, on⟩
    exact (forall_side_boundary w wedge.start (· ≠ 0)).mpr (by norm_num [w, wedge]) e he on
  have closed : wedge.last = wedge.start := by simp [wedge, Polyline.last]
  obtain ⟨resolves, filled⟩ := fill_inside proper closed (show (0 : ℝ) < 4 by norm_num)
  have member : tip ∈ w.split wedge := by
    rw [split_wedge]
    exact List.mem_cons_self
  obtain ⟨plan, rest, axes, planned, whole, covers⟩ := filled (resolves exact off) tip member
  obtain ⟨plan', planned', pass, hpass, hq, ne, ne'⟩ := exists_pass_tip le_rfl (by norm_num)
  obtain rfl : plan' = plan := Except.ok.inj (planned'.symm.trans planned)
  obtain ⟨-, here, there⟩ := covers pass hpass q hq ne ne'
  exact ⟨split_wedge, plan', rest, axes, planned, whole, ⟨pass, hpass, hq⟩, here,
    encloses_wedge, (there off_wedge).1.mp encloses_wedge⟩

/-- **A notch at the edge of the window is filled although it is outside the region.** -/
theorem notch_filled :
    let w : Window ℝ := ⟨10, 10, Scalar.epsilon⟩
    let notched : Polyline ℝ :=
      ⟨⟨-1, 0⟩, [⟨4, 5⟩, ⟨-1, 10⟩, ⟨-1, 20⟩, ⟨20, 20⟩, ⟨20, -10⟩, ⟨-1, -10⟩, ⟨-1, 0⟩], true⟩
    notched.last = notched.start ∧ ∃ piece ∈ w.split notched, ∃ plan,
      HatchPlan.ofPolyline piece 4 Scalar.epsilon = .ok plan ∧ ∃ pass ∈ plan.passes,
        ∃ q ∈ segment pass.entry pass.exit, q ≠ pass.entry ∧ q ≠ pass.exit ∧
          q ∉ outline notched.vertices ∧ ¬ Encloses notched.vertices q := by
  intro w notched
  have eps : (0 : ℝ) ≤ Scalar.epsilon ∧ (Scalar.epsilon : ℝ) < 8 := by
    norm_num [Exact.epsilon_eq]
  obtain ⟨plan, planned, pass, hpass, within, ne, ne'⟩ := exists_pass_tip eps.1 eps.2
  refine ⟨by simp [notched, Polyline.last], _, ?_, plan, planned, pass, hpass, ⟨2, 5⟩, within, ne,
    ne', ?_, fun encloses => ?_⟩
  · rw [split_notched]
    exact List.mem_cons_self
  · rintro ⟨s, hs, on⟩
    obtain ⟨t, ⟨h₀, h₁⟩, hx, hy⟩ := mem_segment_iff.mp on
    simp only [sides, legs, notched, Polyline.vertices, List.cons_append, List.nil_append,
      List.tail_cons, List.zip_cons_cons, List.zip_nil_right, List.mem_cons, List.not_mem_nil,
      or_false] at hs
    rcases hs with rfl | rfl | rfl | rfl | rfl | rfl | rfl | rfl <;> linarith
  · have inside := encloses .horizontal Axes.horizontal_orthonormal
    norm_num [Axes.Inside, sides, legs, notched, Polyline.vertices, List.countP_cons,
      Axes.Precedes, Axes.Spans, Axes.meet, Axes.horizontal, dot, Point.along, mk_add_mk,
      mk_sub_mk, scale_mk] at inside

end Window

end BoardPlotter
