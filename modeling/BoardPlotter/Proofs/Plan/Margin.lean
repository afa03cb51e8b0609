import BoardPlotter.Conversion
import BoardPlotter.Proofs.Plan.Coverage
import BoardPlotter.Proofs.Plan.Hatching
import BoardPlotter.Proofs.Plan.Pieces

/-!
# How far out of the window pieces and passes lie

Membership in the window is tested with a tolerance, and a crossing with its
boundary is accepted with some slack on the segment and on the edge. What is kept
of a segment is nevertheless within `Window.margin` of the window.

A crossing that is accepted too far along an edge is within the margin for that
reason. Where the parameter along the segment has to be moved back into the unit
interval, the point moves towards an end of the segment that is itself inside, or
towards the crossing at the other end of a chord (`Window.Slack.mem_near`), and
the points within the margin are convex (`Window.near_convex`).

So all vertices of pieces are near (`Window.mem_near_of_mem_split`), and all ends
of passes, which lie on lines between such vertices (`HatchPlan.exists_plan`).
-/

namespace BoardPlotter

open Point

namespace Window

/-- A window of some extent. -/
structure IsProper (w : Window ℝ) : Prop where
  eps : 0 ≤ w.eps
  width : 0 < w.width
  height : 0 < w.height

/-- How far out of a window its tolerance reaches. -/
noncomputable def margin (w : Window ℝ) : ℝ := w.eps * max 1 (max w.width w.height)

/-- The points of a window and those within its margin. -/
def near (w : Window ℝ) : Set (Point ℝ) :=
  {p | (-w.margin ≤ p.x ∧ p.x ≤ w.width + w.margin) ∧
    -w.margin ≤ p.y ∧ p.y ≤ w.height + w.margin}

variable {w : Window ℝ} {a b : Point ℝ}

/-- Every point between two near points of a line is near. -/
theorem near_convex {r s t : ℝ} (hr : along a b r ∈ w.near) (ht : along a b t ∈ w.near)
    (hs : s ∈ Set.uIcc r t) : along a b s ∈ w.near := by
  wlog order : r ≤ t generalizing r t
  · exact this ht hr (Set.uIcc_comm r t ▸ hs) (le_of_not_ge order)
  rw [Set.uIcc_of_le order] at hs
  obtain ⟨hrs, hst⟩ := hs
  have between {c k low high : ℝ} (hr : low ≤ c + k * r ∧ c + k * r ≤ high)
      (ht : low ≤ c + k * t ∧ c + k * t ≤ high) : low ≤ c + k * s ∧ c + k * s ≤ high := by
    rcases le_total 0 k with hk | hk
    · have h₁ := mul_le_mul_of_nonneg_left hrs hk
      have h₂ := mul_le_mul_of_nonneg_left hst hk
      constructor <;> linarith
    · have h₁ := mul_le_mul_of_nonpos_left hrs hk
      have h₂ := mul_le_mul_of_nonpos_left hst hk
      constructor <;> linarith
  exact ⟨between hr.1 ht.1, between hr.2 ht.2⟩

theorem segment_subset_near (ha : a ∈ w.near) (hb : b ∈ w.near) : segment a b ⊆ w.near := by
  rintro _ ⟨t, ⟨h₀, h₁⟩, rfl⟩
  exact near_convex (by rwa [along_zero]) (by rwa [along_one])
    (Set.mem_uIcc.mpr (.inl ⟨h₀, h₁⟩))

theorem IsProper.eps_le_margin (proper : w.IsProper) : w.eps ≤ w.margin :=
  le_mul_of_one_le_right proper.eps (le_max_left 1 _)

theorem IsProper.near_of_contains (proper : w.IsProper) (h : w.contains a = true) :
    a ∈ w.near := by
  have slack := proper.eps_le_margin
  simp only [contains, Bool.and_eq_true, decide_eq_true_eq] at h
  obtain ⟨⟨x₀, x₁⟩, y₀, y₁⟩ := h
  exact ⟨⟨by linarith, by linarith⟩, by linarith, by linarith⟩

/-- The points of an edge, and those beyond its ends by the tolerance, are near. -/
theorem IsProper.along_edge_near (proper : w.IsProper) {e : Point ℝ × Point ℝ}
    (he : e ∈ w.boundary) {u : ℝ} (hu : Crossing.within w.eps u = true) :
    along e.1 e.2 u ∈ w.near := by
  have hw := proper.width.le
  have hh := proper.height.le
  have wide : w.eps * w.width ≤ w.margin := mul_le_mul_of_nonneg_left
    ((le_max_left _ _).trans (le_max_right _ _)) proper.eps
  have high : w.eps * w.height ≤ w.margin := mul_le_mul_of_nonneg_left
    ((le_max_right _ _).trans (le_max_right _ _)) proper.eps
  have positive : 0 ≤ w.margin := proper.eps.trans proper.eps_le_margin
  simp only [Crossing.within, Bool.and_eq_true, decide_eq_true_eq] at hu
  have w₀ := mul_le_mul_of_nonneg_left hu.1 hw
  have w₁ := mul_le_mul_of_nonneg_left hu.2 hw
  have h₀ := mul_le_mul_of_nonneg_left hu.1 hh
  have h₁ := mul_le_mul_of_nonneg_left hu.2 hh
  rw [boundary_eq] at he
  simp only [List.mem_cons, List.not_mem_nil, or_false] at he
  rcases he with rfl | rfl | rfl | rfl <;>
    refine ⟨⟨?_, ?_⟩, ?_, ?_⟩ <;> simp only [along_x, along_y] <;> linarith

/-! ### Crossings -/

/-- A crossing is where the point of some near parameter comes to lie when that
parameter is moved into the unit interval. -/
def Slack (w : Window ℝ) (a b : Point ℝ) (h : Crossing ℝ) : Prop :=
  ∃ t, along a b t ∈ w.near ∧ h.t = Scalar.clampUnit t ∧ h.point = along a b h.t

theorem IsProper.slack_of_mem_crossings (proper : w.IsProper) {h : Crossing ℝ}
    (hh : h ∈ w.crossings a b) : w.Slack a b h := by
  have hit := List.mem_mergeSort.mp ((mergeNear_sublist w.eps _).subset hh)
  obtain ⟨e, he, hit⟩ := List.mem_filterMap.mp hit
  simp only [Crossing.ofSegments?, Option.bind_eq_bind, Option.bind_eq_some_iff,
    Option.ite_none_right_eq_some, Bool.and_eq_true, Option.some.injEq] at hit
  obtain ⟨g, meets, ⟨-, hu⟩, rfl⟩ := hit
  obtain ⟨-, meet, -⟩ := Crossing.ofLines?_eq_some.mp meets
  exact ⟨g.t, meet ▸ proper.along_edge_near he hu, rfl, rfl⟩

theorem clampUnit_mem_uIcc_zero (t : ℝ) : Scalar.clampUnit t ∈ Set.uIcc 0 t := by
  rw [Exact.clampUnit_eq]
  refine ⟨le_min ?_ ?_, ?_⟩
  · exact inf_le_right.trans (le_max_left _ _)
  · exact inf_le_left.trans zero_le_one
  · exact (min_le_left _ _).trans (max_comm t 0).le

theorem clampUnit_mem_uIcc_one (t : ℝ) : Scalar.clampUnit t ∈ Set.uIcc t 1 := by
  rw [Exact.clampUnit_eq]
  refine ⟨le_min ?_ ?_, ?_⟩
  · exact inf_le_left.trans (le_max_left _ _)
  · exact inf_le_right
  · rcases le_total t 0 with h | h
    · exact (min_le_right _ _).trans le_sup_right
    · rw [max_eq_left h]
      exact (min_le_left _ _).trans le_sup_left

/-- Two parameters that stay apart when they are moved into the unit interval are
not moved beyond one another. -/
theorem clampUnit_mem_uIcc {s t : ℝ} (apart : Scalar.clampUnit s < Scalar.clampUnit t) :
    Scalar.clampUnit s ∈ Set.uIcc s t ∧ Scalar.clampUnit t ∈ Set.uIcc s t := by
  rw [Exact.clampUnit_eq, Exact.clampUnit_eq] at apart ⊢
  have positive : 0 < t := by
    by_contra h
    rw [max_eq_right (not_lt.mp h), min_eq_left zero_le_one] at apart
    exact absurd apart (not_lt.mpr (le_min (le_max_right _ _) zero_le_one))
  have low : s < 1 := by
    by_contra h
    rw [min_eq_right ((not_lt.mp h).trans (le_max_left _ _))] at apart
    exact absurd apart (not_lt.mpr (min_le_right _ _))
  have below : max s 0 < 1 := max_lt low one_pos
  rw [min_eq_left below.le, max_eq_left positive.le, max_lt_iff, lt_min_iff, lt_min_iff] at apart
  rw [min_eq_left below.le, max_eq_left positive.le, Set.uIcc_of_le apart.1.1.le]
  exact ⟨⟨le_max_left _ _, max_le apart.1.1.le positive.le⟩,
    le_min apart.1.1.le low.le, min_le_left _ _⟩

theorem Slack.mem_near_of_start {h : Crossing ℝ} (slack : w.Slack a b h) (ha : a ∈ w.near) :
    h.point ∈ w.near := by
  obtain ⟨t, at_t, moved, point⟩ := slack
  rw [point, moved]
  exact near_convex (by rwa [along_zero]) at_t (clampUnit_mem_uIcc_zero t)

theorem Slack.mem_near_of_end {h : Crossing ℝ} (slack : w.Slack a b h) (hb : b ∈ w.near) :
    h.point ∈ w.near := by
  obtain ⟨t, at_t, moved, point⟩ := slack
  rw [point, moved]
  exact near_convex at_t (by rwa [along_one]) (clampUnit_mem_uIcc_one t)

theorem Slack.mem_near {g h : Crossing ℝ} (first : w.Slack a b g) (last : w.Slack a b h)
    (apart : g.t < h.t) : g.point ∈ w.near ∧ h.point ∈ w.near := by
  obtain ⟨s, at_s, moved, point⟩ := first
  obtain ⟨t, at_t, moved', point'⟩ := last
  rw [moved, moved'] at apart
  obtain ⟨hs, ht⟩ := clampUnit_mem_uIcc apart
  rw [point, point', moved, moved']
  exact ⟨near_convex at_s at_t hs, near_convex at_s at_t ht⟩

/-! ### The walk -/

theorem IsProper.exit_near (proper : w.IsProper) (ha : a ∈ w.near) : w.exit a b ∈ w.near := by
  rw [exit]
  rcases last : (w.crossings a b).getLast? with _ | h
  · exact ha
  · exact (proper.slack_of_mem_crossings (List.mem_of_getLast? last)).mem_near_of_start ha

theorem IsProper.entry_near (proper : w.IsProper) (hb : b ∈ w.near) : w.entry a b ∈ w.near := by
  rw [entry]
  rcases first : (w.crossings a b).head? with _ | h
  · exact hb
  · exact (proper.slack_of_mem_crossings (List.mem_of_head? first)).mem_near_of_end hb

/-- A chord leads from one crossing to a later one. -/
theorem IsProper.exists_of_mem_chord (proper : w.IsProper) {r : List (Point ℝ)}
    (hr : r ∈ w.chord a b) :
    ∃ first ∈ w.crossings a b, ∃ last ∈ w.crossings a b, first.t < last.t ∧
      r = [first.point, last.point] := by
  have sorted : (w.crossings a b).Pairwise fun g h => g.t < h.t :=
    mergeNear_sorted proper.eps (w.hits_sorted a b)
  rw [chord] at hr
  rcases found : w.crossings a b with _ | ⟨first, _ | ⟨second, more⟩⟩ <;> rw [found] at hr
  · exact absurd hr List.not_mem_nil
  · exact absurd hr List.not_mem_nil
  · rw [found] at sorted
    have member := getLast?_getD_mem second more
    exact ⟨first, List.mem_cons_self, _, List.mem_cons_of_mem first member,
      (List.pairwise_cons.mp sorted).1 _ member, List.mem_singleton.mp hr⟩

theorem IsProper.chord_near (proper : w.IsProper) (a b : Point ℝ) :
    ∀ r ∈ w.chord a b, ∀ p ∈ r, p ∈ w.near := by
  intro r hr
  obtain ⟨first, hf, last, hl, apart, rfl⟩ := proper.exists_of_mem_chord hr
  have ends := (proper.slack_of_mem_crossings hf).mem_near (proper.slack_of_mem_crossings hl) apart
  simpa using ends

/-- A step keeps near what it ends and what goes on. -/
theorem IsProper.step_near (proper : w.IsProper) {run : List (Point ℝ)}
    (hrun : w.contains a = true → ∀ p ∈ run, p ∈ w.near) :
    (∀ r ∈ (w.step a run b).1, ∀ p ∈ r, p ∈ w.near) ∧
      (w.contains b = true → ∀ p ∈ (w.step a run b).2, p ∈ w.near) := by
  rw [step]
  cases ha : w.contains a <;> cases hb : w.contains b
  · exact ⟨proper.chord_near a b, by simp⟩
  · have near := proper.near_of_contains hb
    simpa using ⟨near, proper.entry_near near⟩
  · have near := proper.near_of_contains ha
    refine ⟨fun r hr p hp => ?_, by simp⟩
    obtain rfl := List.mem_singleton.mp hr
    rcases List.mem_cons.mp (List.mem_reverse.mp hp) with rfl | hp
    · exact proper.exit_near near
    · exact hrun ha p hp
  · simpa [proper.near_of_contains hb] using hrun ha

theorem IsProper.runsFrom_near (proper : w.IsProper) (rest : List (Point ℝ))
    {run : List (Point ℝ)} (hrun : w.contains a = true → ∀ p ∈ run, p ∈ w.near) :
    ∀ r ∈ w.runsFrom a run rest, ∀ p ∈ r, p ∈ w.near := by
  induction rest generalizing a run with
  | nil =>
    rw [runsFrom]
    cases ha : w.contains a
    · simp
    · simpa using hrun ha
  | cons b rest ih =>
    obtain ⟨ended, goes_on⟩ := proper.step_near (b := b) hrun
    rw [runsFrom_cons]
    intro r hr
    rcases List.mem_append.mp hr with hr | hr
    · exact ended r hr
    · exact ih goes_on r hr

theorem IsProper.runs_near (proper : w.IsProper) (l : Polyline ℝ) :
    ∀ r ∈ w.runs l, ∀ p ∈ r, p ∈ w.near := by
  intro r hr p hp
  rw [runs, List.mem_filter, List.mem_map] at hr
  obtain ⟨⟨walked, hwalked, rfl⟩, -⟩ := hr
  refine proper.runsFrom_near l.rest (fun inside => ?_) walked hwalked p
    ((dropClose_sublist w.eps walked).subset hp)
  simpa using proper.near_of_contains inside

/-- **All vertices of the pieces of a polyline are in the window or within its
margin.** -/
theorem IsProper.mem_near_of_mem_split (proper : w.IsProper) {l piece : Polyline ℝ}
    (hpiece : piece ∈ w.split l) : ∀ p ∈ piece.vertices, p ∈ w.near := by
  intro p hp
  have hr := vertices_mem_pieces hpiece
  rw [pieces] at hr
  split at hr
  · obtain ⟨s, hs, hp⟩ := mem_of_mem_rejoin hr hp
    exact proper.runs_near l s hs p hp
  · exact proper.runs_near l _ hr p hp

end Window

/-- **A plan is made for every outline**, and its passes begin and end on lines
between vertices. -/
theorem HatchPlan.exists_plan (l : Polyline ℝ) {step : ℝ} (hstep : 0 < step) (eps : ℝ) :
    ∃ plan, ofPolyline l step eps = .ok plan ∧ ∀ pass ∈ plan.passes,
      ∀ c ∈ [pass.entry, pass.exit], ∃ p ∈ l.vertices, ∃ q ∈ l.vertices, c ∈ segment p q := by
  cases area : hasArea l
  · exact ⟨_, ofPolyline_of_not_hasArea area hstep eps, by simp⟩
  obtain ⟨axes, low, high, n, -, -, -, -, unit, plan⟩ := ofPolyline_eq area hstep eps
  refine ⟨_, plan, fun pass hpass c hc => ?_⟩
  obtain ⟨k, hk, hpass⟩ := List.mem_flatMap.mp hpass
  have frame := unit (Nat.zero_lt_of_lt (List.mem_range.mp hk))
  have used : c ∈ Hatch.lineHits axes (Hatch.edges l (l.isClosed eps) axes.across)
      (Hatch.height low step) k := by
    obtain ⟨hin, hout⟩ := Hatch.mem_of_mem_pairs hpass
    simp only [List.mem_cons, List.not_mem_nil, or_false] at hc
    rcases hc with rfl | rfl
    · exact hin
    · exact hout
  have perm := Hatch.lineHits_perm frame l (l.isClosed eps)
    (Hatch.height_strictMono hstep low).monotone k
  obtain ⟨-, s, hs, -, on⟩ := Hatch.mem_crossings (perm.mem_iff.mp used)
  have side : s ∈ sides l.vertices := by
    rw [l.sides_vertices, List.mem_append]
    split at hs
    · exact .inl hs
    · exact List.mem_append.mp hs
  obtain ⟨hp, hq⟩ := mem_of_mem_sides side
  exact ⟨s.1, hp, s.2, hq, on⟩

/-- All regions with vertices near the window are planned, with passes that stay near
it. -/
theorem Placement.exists_plans {p : Placement ℝ} (hstep : 0 < p.fillStep)
    {regions : List (Polyline ℝ)} (near : ∀ l ∈ regions, ∀ q ∈ l.vertices, q ∈ p.window.near) :
    ∃ plans, regions.mapM p.hatch = .ok plans ∧ ∀ plan ∈ plans, ∀ pass ∈ plan.passes,
      pass.entry ∈ p.window.near ∧ pass.exit ∈ p.window.near := by
  induction regions with
  | nil => exact ⟨[], rfl, by simp⟩
  | cons l regions ih =>
    obtain ⟨first, near⟩ := List.forall_mem_cons.mp near
    obtain ⟨plan, made, ends⟩ := HatchPlan.exists_plan l hstep Scalar.epsilon
    obtain ⟨plans, later, rest⟩ := ih near
    have inside (pass : Pass ℝ) (hpass : pass ∈ plan.passes) (c : Point ℝ)
        (hc : c ∈ [pass.entry, pass.exit]) : c ∈ p.window.near := by
      obtain ⟨a, ha, b, hb, on⟩ := ends pass hpass c hc
      exact Window.segment_subset_near (first a ha) (first b hb) on
    refine ⟨plan :: plans, ?_, List.forall_mem_cons.mpr ⟨fun pass hpass => ?_, rest⟩⟩
    · rw [List.mapM_cons, Placement.hatch, made, later]
      rfl
    · exact ⟨inside pass hpass _ (by simp), inside pass hpass _ (by simp)⟩

/-- **Every placement with a positive step is filled**, with passes that stay near
its window. -/
theorem Placement.exists_fill {p : Placement ℝ} (proper : p.window.IsProper)
    (hstep : 0 < p.fillStep) (ls : List (Polyline ℝ)) :
    ∃ passes, p.fill (p.window.splitAll ls) = .ok passes ∧
      ∀ pass ∈ passes, pass.entry ∈ p.window.near ∧ pass.exit ∈ p.window.near := by
  have near (piece : Polyline ℝ) (hpiece : piece ∈ p.window.splitAll ls) :
      ∀ q ∈ piece.vertices, q ∈ p.window.near := by
    obtain ⟨l, -, hpiece⟩ := List.mem_flatMap.mp hpiece
    exact proper.mem_near_of_mem_split hpiece
  obtain ⟨plans, made, within⟩ := Placement.exists_plans hstep
    fun l (hl : l ∈ (p.window.splitAll ls).filter (·.fill)) => near l (List.mem_of_mem_filter hl)
  refine ⟨plans.flatMap (·.passes), by rw [Placement.fill, made]; rfl, fun pass hpass => ?_⟩
  obtain ⟨plan, hplan, hpass⟩ := List.mem_flatMap.mp hpass
  exact within plan hplan pass hpass

end BoardPlotter
