import BoardPlotter.Proofs.Plan.Crossings

/-!
# What clipping draws

In exact arithmetic the pieces of a polyline draw precisely what its segments
draw in the rectangle: `Window.split_trace`, for any vertices.

The walk is taken one vertex at a time (`Window.step`). By the kind of the
segment walked, the part of it in the rectangle is the whole, the part up to
the last crossing, the part from the first one or the chord between both
(`inner_of_mem`, `inner_leaving`, `inner_entering`, `inked_chord`). So a step
adds that part to the runs (`inked_step`), unless it is a single point, and by
induction the walk draws all of them (`inked_runsFrom`).
-/

namespace BoardPlotter.Window

open Point

/-! ### One vertex at a time -/

section Step

variable {α : Type} [Scalar α]

/-- Where a segment that ends outside leaves the rectangle. -/
def exit (w : Window α) (a b : Point α) : Point α :=
  ((w.crossings a b).getLast?.map Crossing.point).getD a

/-- Where a segment that starts outside enters the rectangle. -/
def entry (w : Window α) (a b : Point α) : Point α :=
  ((w.crossings a b).head?.map Crossing.point).getD b

/-- The run of a segment with both ends outside, if it passes through. -/
def chord (w : Window α) (a b : Point α) : List (List (Point α)) :=
  match w.crossings a b with
  | first :: second :: more =>
    [[first.point, (((second :: more).getLast?).getD second).point]]
  | _ => []

/-- The runs that end between `a` and `b`, and the run up to `b` in reverse. -/
def step (w : Window α) (a : Point α) (run : List (Point α)) (b : Point α) :
    List (List (Point α)) × List (Point α) :=
  match w.contains a, w.contains b with
  | true, true => ([], b :: run)
  | true, false => ([(w.exit a b :: run).reverse], [])
  | false, true => ([], [b, w.entry a b])
  | false, false => (w.chord a b, [])

theorem runsFrom_cons (w : Window α) (a : Point α) (run : List (Point α)) (b : Point α)
    (rest : List (Point α)) :
    w.runsFrom a run (b :: rest) =
      (w.step a run b).1 ++ w.runsFrom b (w.step a run b).2 rest := by
  rw [runsFrom, step]
  cases w.contains a <;> cases w.contains b
  · simp only [chord]
    rcases w.crossings a b with _ | ⟨_, _ | ⟨_, _⟩⟩ <;> rfl
  · rfl
  · rfl
  · rfl

end Step

/-! ### The inner part of a segment -/

variable {w : Window ℝ} {a b : Point ℝ}

/-- The part of a segment that lies in the rectangle. -/
def inner (w : Window ℝ) (a b : Point ℝ) : Set (Point ℝ) := segment a b ∩ w.rect

/-- The inner part of a segment, where it is more than a single point. -/
def drawn (w : Window ℝ) (a b : Point ℝ) : Set (Point ℝ) :=
  {q | q ∈ w.inner a b ∧ (w.inner a b).Nontrivial}

theorem drawn_eq_stroke {c d : Point ℝ} (h : w.inner a b = segment c d) :
    w.drawn a b = stroke c d := by
  ext q
  simp only [drawn, stroke, h, segment_nontrivial, Set.mem_ofPred_eq, and_comm]

theorem drawn_eq_empty (h : (w.inner a b).Subsingleton) : w.drawn a b = ∅ := by
  ext q
  simp [drawn, Set.not_nontrivial_iff.mpr h]

/-- Two parameters inside with no other beyond them bound the inner part. -/
theorem inner_eq (exact : w.IsExact) {s t : ℝ} (hs : 0 ≤ s) (hst : s ≤ t) (ht : t ≤ 1)
    (at_s : along a b s ∈ w.rect) (at_t : along a b t ∈ w.rect)
    (only : ∀ r, 0 ≤ r → r ≤ 1 → along a b r ∈ w.rect → s ≤ r ∧ r ≤ t) :
    w.inner a b = segment (along a b s) (along a b t) := by
  rw [segment_along a b hst]
  ext q
  constructor
  · rintro ⟨⟨r, ⟨h₀, h₁⟩, rfl⟩, inside⟩
    exact ⟨r, only r h₀ h₁ inside, rfl⟩
  · rintro ⟨r, ⟨hsr, hrt⟩, rfl⟩
    exact ⟨⟨r, ⟨hs.trans hsr, hrt.trans ht⟩, rfl⟩, along_mem_rect exact at_s at_t hsr hrt⟩

theorem inner_of_mem (exact : w.IsExact) (ha : a ∈ w.rect) (hb : b ∈ w.rect) :
    w.inner a b = segment a b := by
  have whole := inner_eq (a := a) (b := b) exact le_rfl zero_le_one le_rfl
    (by rwa [along_zero]) (by rwa [along_one]) fun r h₀ h₁ _ => ⟨h₀, h₁⟩
  rwa [along_zero, along_one] at whole

/-- No crossing is after the last one. -/
theorem le_getLast {hs : List (Crossing ℝ)} (sorted : hs.Pairwise fun g h => g.t < h.t)
    {last h : Crossing ℝ} (hl : hs.getLast? = some last) (hh : h ∈ hs) : h.t ≤ last.t := by
  obtain ⟨before, rfl⟩ := List.getLast?_eq_some_iff.mp hl
  rcases List.mem_append.mp hh with hh | hh
  · exact ((List.pairwise_append.mp sorted).2.2 h hh last List.mem_cons_self).le
  · rw [List.mem_singleton.mp hh]

/-- No crossing is before the first one. -/
theorem head_le {hs : List (Crossing ℝ)} (sorted : hs.Pairwise fun g h => g.t < h.t)
    {first h : Crossing ℝ} (hf : hs.head? = some first) (hh : h ∈ hs) : first.t ≤ h.t := by
  obtain ⟨after, rfl⟩ := List.head?_eq_some_iff.mp hf
  rcases List.mem_cons.mp hh with rfl | hh
  · exact le_rfl
  · exact ((List.pairwise_cons.mp sorted).1 h hh).le

/-- A segment that leaves is inside up to its last crossing. -/
theorem inner_leaving (exact : w.IsExact) (ha : a ∈ w.rect) (hb : b ∉ w.rect) :
    w.inner a b = segment a (w.exit a b) ∧ w.onEdge (w.exit a b) := by
  have start : along a b 0 ∈ w.rect := by rwa [along_zero]
  obtain ⟨g, hg, -⟩ := exists_crossing_leaving exact hb le_rfl zero_le_one start
  obtain ⟨last, hl⟩ := Option.isSome_iff_exists.mp
    (List.getLast?_isSome.mpr (List.ne_nil_of_mem hg))
  obtain ⟨⟨h₀, h₁⟩, hp, inside, edge⟩ := mem_crossings exact (List.mem_of_getLast? hl)
  have hexit : w.exit a b = along a b last.t := by
    rw [exit, hl, Option.map_some, Option.getD_some, hp]
  rw [hp] at inside edge
  refine ⟨?_, by rwa [hexit]⟩
  rw [hexit, inner_eq exact le_rfl h₀ h₁ start inside, along_zero]
  intro r hr₀ hr₁ hr
  obtain ⟨h, hh, hrh⟩ := exists_crossing_leaving exact hb hr₀ hr₁ hr
  exact ⟨hr₀, hrh.trans (le_getLast (crossings_sorted exact) hl hh)⟩

/-- A segment that enters is inside from its first crossing on. -/
theorem inner_entering (exact : w.IsExact) (ha : a ∉ w.rect) (hb : b ∈ w.rect) :
    w.inner a b = segment (w.entry a b) b ∧ w.onEdge (w.entry a b) := by
  have goal : along a b 1 ∈ w.rect := by rwa [along_one]
  obtain ⟨g, hg, -⟩ := exists_crossing_entering exact ha zero_le_one le_rfl goal
  obtain ⟨first, hf⟩ := Option.isSome_iff_exists.mp
    (List.isSome_head?.mpr (List.ne_nil_of_mem hg))
  obtain ⟨⟨h₀, h₁⟩, hp, inside, edge⟩ := mem_crossings exact (List.mem_of_head? hf)
  have hentry : w.entry a b = along a b first.t := by
    rw [entry, hf, Option.map_some, Option.getD_some, hp]
  rw [hp] at inside edge
  refine ⟨?_, by rwa [hentry]⟩
  rw [hentry, inner_eq exact h₀ h₁ le_rfl inside goal, along_one]
  intro r hr₀ hr₁ hr
  obtain ⟨h, hh, hhr⟩ := exists_crossing_entering exact ha hr₀ hr₁ hr
  exact ⟨(head_le (crossings_sorted exact) hf hh).trans hhr, hr₁⟩

/-- A segment with both ends outside is inside between its outer crossings. -/
theorem inner_passing (exact : w.IsExact) (ha : a ∉ w.rect) (hb : b ∉ w.rect)
    {first last : Crossing ℝ} (hf : (w.crossings a b).head? = some first)
    (hl : (w.crossings a b).getLast? = some last) :
    w.inner a b = segment first.point last.point := by
  have sorted := crossings_sorted (a := a) (b := b) exact
  obtain ⟨⟨f₀, -⟩, hfp, f_in, -⟩ := mem_crossings exact (List.mem_of_head? hf)
  obtain ⟨⟨-, l₁⟩, hlp, l_in, -⟩ := mem_crossings exact (List.mem_of_getLast? hl)
  rw [hfp] at f_in ⊢
  rw [hlp] at l_in ⊢
  apply inner_eq exact f₀ (head_le sorted hf (List.mem_of_getLast? hl)) l₁ f_in l_in
  intro r h₀ h₁ inside
  obtain ⟨g, hg, hgr⟩ := exists_crossing_entering exact ha h₀ h₁ inside
  obtain ⟨h, hh, hrh⟩ := exists_crossing_leaving exact hb h₀ h₁ inside
  exact ⟨(head_le sorted hf hg).trans hgr, hrh.trans (le_getLast sorted hl hh)⟩

/-- The lines drawn by the runs of a list. -/
def inked (runs : List (List (Point ℝ))) : Set (Point ℝ) := {q | ∃ r ∈ runs, q ∈ strokes r}

@[simp] theorem inked_nil : inked [] = ∅ := by
  ext q
  simp [inked]

@[simp] theorem inked_cons (r : List (Point ℝ)) (rs : List (List (Point ℝ))) :
    inked (r :: rs) = strokes r ∪ inked rs := by
  ext q
  simp [inked]

@[simp] theorem inked_append (rs ss : List (List (Point ℝ))) :
    inked (rs ++ ss) = inked rs ∪ inked ss := by
  ext q
  simp only [inked, List.mem_append, or_and_right, exists_or, Set.mem_ofPred_eq, Set.mem_union]

theorem inked_chord (exact : w.IsExact) (ha : a ∉ w.rect) (hb : b ∉ w.rect) :
    inked (w.chord a b) = w.drawn a b := by
  rw [chord]
  rcases hc : w.crossings a b with _ | ⟨first, _ | ⟨second, more⟩⟩
  · have nowhere : (w.inner a b).Subsingleton := by
      rintro _ ⟨⟨r, ⟨h₀, h₁⟩, rfl⟩, inside⟩
      obtain ⟨h, hh, -⟩ := exists_crossing_entering exact ha h₀ h₁ inside
      rw [hc] at hh
      exact absurd hh List.not_mem_nil
    rw [drawn_eq_empty nowhere, inked_nil]
  · have touch : w.inner a b = segment first.point first.point :=
      inner_passing exact ha hb (by rw [hc]; rfl) (by rw [hc]; rfl)
    rw [drawn_eq_stroke touch, stroke_self, inked_nil]
  · have last : (w.crossings a b).getLast? = some ((second :: more).getLast?.getD second) := by
      rw [hc, List.getLast?_cons_cons, List.getLast?_cons, Option.getD_some]
    have through := inner_passing exact ha hb (by rw [hc]; rfl) last
    rw [drawn_eq_stroke through, inked_cons, inked_nil, Set.union_empty, strokes_cons_cons,
      strokes_singleton, Set.union_empty]

/-! ### The walk -/

theorem step_staying (exact : w.IsExact) (ha : a ∈ w.rect) (hb : b ∈ w.rect)
    (run : List (Point ℝ)) : w.step a run b = ([], b :: run) := by
  rw [step, (contains_iff exact a).mpr ha, (contains_iff exact b).mpr hb]

theorem step_leaving (exact : w.IsExact) (ha : a ∈ w.rect) (hb : b ∉ w.rect)
    (run : List (Point ℝ)) : w.step a run b = ([(w.exit a b :: run).reverse], []) := by
  rw [step, (contains_iff exact a).mpr ha, (contains_eq_false exact b).mpr hb]

theorem step_entering (exact : w.IsExact) (ha : a ∉ w.rect) (hb : b ∈ w.rect)
    (run : List (Point ℝ)) : w.step a run b = ([], [b, w.entry a b]) := by
  rw [step, (contains_eq_false exact a).mpr ha, (contains_iff exact b).mpr hb]

theorem step_outside (exact : w.IsExact) (ha : a ∉ w.rect) (hb : b ∉ w.rect)
    (run : List (Point ℝ)) : w.step a run b = (w.chord a b, []) := by
  rw [step, (contains_eq_false exact a).mpr ha, (contains_eq_false exact b).mpr hb]

/-- The lines of the run up to `a`, which counts only if `a` is inside. -/
def pending (w : Window ℝ) (a : Point ℝ) (run : List (Point ℝ)) : Set (Point ℝ) :=
  {q | a ∈ w.rect ∧ q ∈ strokes run}

theorem pending_of_mem (ha : a ∈ w.rect) (run : List (Point ℝ)) :
    w.pending a run = strokes run := by
  ext q
  simp [pending, ha]

theorem pending_of_not_mem (ha : a ∉ w.rect) (run : List (Point ℝ)) : w.pending a run = ∅ := by
  ext q
  simp [pending, ha]

/-- The run up to a vertex inside ends there. -/
def Reaches (w : Window ℝ) (a : Point ℝ) (run : List (Point ℝ)) : Prop :=
  a ∈ w.rect → run.head? = some a

theorem reaches_step (exact : w.IsExact) (a b : Point ℝ) (run : List (Point ℝ)) :
    w.Reaches b (w.step a run b).2 := by
  intro hb
  by_cases ha : a ∈ w.rect
  · rw [step_staying exact ha hb]
    rfl
  · rw [step_entering exact ha hb]
    rfl

/-- **A step adds what the segment draws in the rectangle.** -/
theorem inked_step (exact : w.IsExact) {run : List (Point ℝ)} (reaches : w.Reaches a run) :
    inked (w.step a run b).1 ∪ w.pending b (w.step a run b).2 =
      w.pending a run ∪ w.drawn a b := by
  by_cases ha : a ∈ w.rect
  · obtain ⟨before, rfl⟩ := List.head?_eq_some_iff.mp (reaches ha)
    rw [pending_of_mem ha]
    by_cases hb : b ∈ w.rect
    · rw [step_staying exact ha hb, drawn_eq_stroke (inner_of_mem exact ha hb)]
      simp only [inked_nil, Set.empty_union, pending_of_mem hb, strokes_cons_cons]
      rw [stroke_symm, Set.union_comm]
    · rw [step_leaving exact ha hb, drawn_eq_stroke (inner_leaving exact ha hb).1]
      simp only [pending_of_not_mem hb, inked_cons, inked_nil, Set.union_empty, strokes_reverse,
        strokes_cons_cons]
      rw [stroke_symm, Set.union_comm]
  · rw [pending_of_not_mem ha]
    by_cases hb : b ∈ w.rect
    · rw [step_entering exact ha hb, drawn_eq_stroke (inner_entering exact ha hb).1]
      simp only [inked_nil, Set.empty_union, pending_of_mem hb, strokes_cons_cons,
        strokes_singleton, Set.union_empty]
      exact stroke_symm b (w.entry a b)
    · rw [step_outside exact ha hb]
      simp only [pending_of_not_mem hb, inked_chord exact ha hb, Set.union_empty, Set.empty_union]

/-- What the segments through a list of vertices draw in the rectangle. -/
def drawnThrough (w : Window ℝ) (vertices : List (Point ℝ)) : Set (Point ℝ) :=
  {q | ∃ s ∈ vertices.zip vertices.tail, q ∈ w.drawn s.1 s.2}

theorem drawnThrough_cons_cons (w : Window ℝ) (a b : Point ℝ) (rest : List (Point ℝ)) :
    w.drawnThrough (a :: b :: rest) = w.drawn a b ∪ w.drawnThrough (b :: rest) := by
  ext q
  simp [drawnThrough]

/-- **The runs of a walk draw the run so far and what each further segment draws
in the rectangle.** -/
theorem inked_runsFrom (exact : w.IsExact) {run : List (Point ℝ)} (rest : List (Point ℝ))
    (reaches : w.Reaches a run) :
    inked (w.runsFrom a run rest) = w.pending a run ∪ w.drawnThrough (a :: rest) := by
  induction rest generalizing a run with
  | nil =>
    have nothing : w.drawnThrough [a] = ∅ := by
      ext q
      simp [drawnThrough]
    rw [runsFrom, nothing, Set.union_empty]
    by_cases ha : a ∈ w.rect
    · rw [if_pos ((contains_iff exact a).mpr ha), pending_of_mem ha]
      simp
    · rw [(contains_eq_false exact a).mpr ha, pending_of_not_mem ha]
      exact inked_nil
  | cons b rest ih =>
    rw [runsFrom_cons, inked_append, ih (reaches_step exact a b run), ← Set.union_assoc,
      inked_step exact reaches, drawnThrough_cons_cons, Set.union_assoc]

/-! ### Pieces -/

/-- Thinning the runs and dropping what is left of single points draws the same. -/
theorem inked_thinned (rs : List (List (Point ℝ))) :
    inked ((rs.map (dropClose 0)).filter fun run => 2 ≤ run.length) = inked rs := by
  induction rs with
  | nil => rfl
  | cons r rs ih =>
    rw [List.map_cons, List.filter_cons, inked_cons, ← ih, ← strokes_dropClose r]
    by_cases long : 2 ≤ (dropClose 0 r).length
    · rw [if_pos (decide_eq_true long), inked_cons]
    · have short : strokes (dropClose 0 r) = ∅ := by
        rcases h : dropClose 0 r with _ | ⟨p, _ | ⟨q, ps⟩⟩
        · rfl
        · rfl
        · exact absurd (by rw [h]; simp) long
      rw [if_neg (by simpa using long), short, Set.empty_union]

theorem inked_runs (exact : w.IsExact) (l : Polyline ℝ) :
    inked (w.runs l) = w.drawnThrough l.vertices := by
  have reaches : w.Reaches l.start [l.start] := fun _ => rfl
  rw [runs, exact.eps, inked_thinned, inked_runsFrom exact l.rest reaches, pending,
    Polyline.vertices]
  simp

/-- At least two vertices, none of them equal to the next. -/
def Distinct (vertices : List (Point ℝ)) : Prop :=
  vertices.IsChain (· ≠ ·) ∧ 2 ≤ vertices.length

theorem distinct_of_mem_runs (exact : w.IsExact) (l : Polyline ℝ) {r : List (Point ℝ)}
    (hr : r ∈ w.runs l) : Distinct r := by
  rw [runs, exact.eps, List.mem_filter, List.mem_map] at hr
  obtain ⟨⟨walked, -, rfl⟩, long⟩ := hr
  exact ⟨dropClose_isChain walked, of_decide_eq_true long⟩

/-- The points the pieces of a polyline draw. -/
def splitTrace (w : Window ℝ) (l : Polyline ℝ) : Set (Point ℝ) :=
  {q | ∃ piece ∈ w.split l, q ∈ piece.trace}

theorem splitTrace_eq (l : Polyline ℝ) (distinct : ∀ r ∈ w.pieces l, Distinct r) :
    w.splitTrace l = inked (w.pieces l) := by
  have made {r : List (Point ℝ)} (hr : r ∈ w.pieces l) :
      ∃ piece, Polyline.ofVertices? r l.fill = some piece ∧ piece.trace = strokes r := by
    obtain ⟨chain, long⟩ := distinct r hr
    cases r with
    | nil => simp at long
    | cons p ps => exact ⟨⟨p, ps, l.fill⟩, rfl, Polyline.trace_eq_strokes _ chain⟩
  ext q
  constructor
  · rintro ⟨piece, hpiece, hq⟩
    obtain ⟨r, hr, hp⟩ := List.mem_filterMap.mp hpiece
    obtain ⟨piece', hp', trace⟩ := made hr
    obtain rfl := Option.some.inj (hp.symm.trans hp')
    exact ⟨r, hr, trace ▸ hq⟩
  · rintro ⟨r, hr, hq⟩
    obtain ⟨piece, hp, trace⟩ := made hr
    exact ⟨piece, List.mem_filterMap.mpr ⟨r, hr, hp⟩, trace ▸ hq⟩

/-- **The pieces of a polyline that is not filled draw a point if and only if it
lies in the rectangle, on some segment of the polyline that has more than one
point there.** -/
theorem split_trace (exact : w.IsExact) (l : Polyline ℝ) (unfilled : l.fill = false)
    (q : Point ℝ) :
    (∃ piece ∈ w.split l, q ∈ piece.trace) ↔
      q ∈ w.rect ∧ ∃ s ∈ l.segments, q ∈ segment s.1 s.2 ∧
        (segment s.1 s.2 ∩ w.rect).Nontrivial := by
  have plain : w.pieces l = w.runs l := by
    rw [pieces, unfilled]
    rfl
  have drawing : w.splitTrace l = w.drawnThrough l.vertices := by
    rw [splitTrace_eq l, plain, inked_runs exact l]
    rw [plain]
    exact fun r hr => distinct_of_mem_runs exact l hr
  change q ∈ w.splitTrace l ↔ _
  rw [drawing]
  constructor
  · rintro ⟨s, hs, ⟨on, inside⟩, many⟩
    exact ⟨inside, s, hs, on, many⟩
  · rintro ⟨inside, s, hs, on, many⟩
    exact ⟨s, hs, ⟨on, inside⟩, many⟩

/-- A line across the window is drawn there, although no vertex is inside. -/
theorem split_trace_across :
    ∃ piece ∈ (⟨10, 10, 0⟩ : Window ℝ).split ⟨⟨-5, 5⟩, [⟨15, 5⟩], false⟩,
      (⟨3, 5⟩ : Point ℝ) ∈ piece.trace := by
  have exact : (⟨10, 10, 0⟩ : Window ℝ).IsExact := ⟨rfl, by norm_num, by norm_num⟩
  have at_three : (⟨3, 5⟩ : Point ℝ) ∈ segment ⟨-5, 5⟩ ⟨15, 5⟩ :=
    ⟨2 / 5, by norm_num, by ext <;> norm_num⟩
  have at_four : (⟨4, 5⟩ : Point ℝ) ∈ segment ⟨-5, 5⟩ ⟨15, 5⟩ :=
    ⟨9 / 20, by norm_num, by ext <;> norm_num⟩
  refine (split_trace exact _ rfl _).mpr
    ⟨by norm_num [rect], (⟨-5, 5⟩, ⟨15, 5⟩), List.mem_singleton.mpr rfl, at_three,
      ⟨3, 5⟩, ⟨at_three, by norm_num [rect]⟩, ⟨4, 5⟩, ⟨at_four, by norm_num [rect]⟩, ?_⟩
  norm_num

end BoardPlotter.Window
