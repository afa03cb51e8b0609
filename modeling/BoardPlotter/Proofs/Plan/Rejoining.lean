import BoardPlotter.Proofs.Plan.Coverage
import BoardPlotter.Proofs.Plan.Pieces

/-!
# What joining a filled outline draws

The walk cuts a filled outline open at its start, and `Window.rejoin` appends
the first run to the last one. It takes them to meet at the start vertex, and
draws the line from the one to the other where they do not (`seam`,
`inked_rejoin`).

They meet at any start off the boundary: the first run holds the start and
reaches the boundary, the last one comes from the boundary and ends at the start,
so neither is thinned to a point (`runsFrom_first`, `runsFrom_last`). On the
boundary an outline can leave its start at once or come back to it from outside.
Its run there is then a single point and is dropped, and whatever runs are left
first and last are joined. `Window.splitTrace_filled` says what is drawn.
-/

namespace BoardPlotter.Window

open Point

variable {w : Window ℝ}

/-! ### The joining line -/

/-- The line from the end of the last run to the start of the first, none where
they meet. -/
def seam : List (List (Point ℝ)) → Set (Point ℝ)
  | first :: second :: more =>
    {q | ∃ p ∈ (((second :: more).getLast?).getD second).getLast?, ∃ r ∈ first.head?,
      q ∈ stroke p r}
  | _ => ∅

theorem seam_concat (first last : List (Point ℝ)) (mid : List (List (Point ℝ))) :
    seam (first :: (mid ++ [last])) =
      {q | ∃ p ∈ last.getLast?, ∃ r ∈ first.head?, q ∈ stroke p r} := by
  cases mid with
  | nil => rfl
  | cons m ms =>
    rw [List.cons_append, seam, ← List.cons_append, List.getLast?_concat, Option.getD_some]

/-- Appending one run to another adds the line between them, if there is one. -/
theorem strokes_join {ls fs : List (Point ℝ)} {p q : Point ℝ} (last : Distinct (ls ++ [p]))
    (first : Distinct (q :: fs)) :
    strokes ((ls ++ [p]) ++ if p.closeTo q 0 then fs else q :: fs) =
        strokes (ls ++ [p]) ∪ (stroke p q ∪ strokes (q :: fs)) ∧
      Distinct ((ls ++ [p]) ++ if p.closeTo q 0 then fs else q :: fs) := by
  have long : 2 ≤ (ls ++ [p]).length := last.2
  by_cases meet : p = q
  · subst meet
    rw [if_pos ((closeTo_zero p p).mpr rfl), stroke_self, Set.empty_union]
    obtain ⟨f, fs, rfl⟩ := List.exists_cons_of_ne_nil (l := fs) (by
      rintro rfl
      exact absurd first.2 (by simp))
    refine ⟨by rw [strokes_append, strokes_cons_cons], ?_, by rw [List.length_append]; omega⟩
    obtain ⟨ne, chain⟩ := List.isChain_cons_cons.mp first.1
    exact List.isChain_append.mpr ⟨last.1, chain, by simpa using ne⟩
  · rw [if_neg fun close => meet ((closeTo_zero p q).mp close)]
    refine ⟨strokes_append ls p q fs, ?_, by rw [List.length_append]; omega⟩
    exact List.isChain_append.mpr ⟨last.1, first.1, by simpa using meet⟩

/-- **Joining the first run to the last one draws what the runs do, and the line
between the two.** -/
theorem inked_rejoin (exact : w.IsExact) {rs : List (List (Point ℝ))}
    (distinct : ∀ r ∈ rs, Distinct r) :
    inked (w.rejoin rs) = inked rs ∪ seam rs ∧ ∀ r ∈ w.rejoin rs, Distinct r := by
  rcases rs with _ | ⟨first, others⟩
  · exact ⟨(Set.union_empty _).symm, distinct⟩
  rcases List.eq_nil_or_concat others with rfl | ⟨mid, last, rfl⟩
  · exact ⟨(Set.union_empty _).symm, distinct⟩
  have hfirst : Distinct first := distinct first (by simp)
  have hlast : Distinct last := distinct last (by simp)
  obtain ⟨q, fs, rfl⟩ := List.exists_cons_of_ne_nil (l := first) (by
    rintro rfl
    exact absurd hfirst.2 (by simp))
  rcases List.eq_nil_or_concat last with rfl | ⟨ls, p, rfl⟩
  · exact absurd hlast.2 (by simp)
  simp only [List.concat_eq_append] at hlast distinct ⊢
  obtain ⟨drawn, joined⟩ := strokes_join hlast hfirst
  rw [rejoin_concat, seam_concat, exact.eps, List.getLast?_concat, List.head?_cons]
  constructor
  · rw [inked_cons, drawn, inked_cons, inked_append, inked_cons, inked_nil, Set.union_empty]
    ext x
    simp only [Set.mem_union, Set.mem_ofPred_eq, Option.mem_def, Option.some.injEq,
      exists_eq_left']
    tauto
  · intro r hr
    rcases List.mem_cons.mp hr with rfl | hr
    · exact joined
    · exact distinct r (by simp [hr])

/-! ### The runs at the start vertex -/

/-- From inside, the run so far begins the first run, which ends on the boundary
unless it is the only one. -/
theorem runsFrom_first (exact : w.IsExact) {a : Point ℝ} (ha : a ∈ w.rect)
    (run rest : List (Point ℝ)) :
    ∃ tail more, w.runsFrom a run rest = (run.reverse ++ tail) :: more ∧
      (more ≠ [] → ∃ p, (run.reverse ++ tail).getLast? = some p ∧ w.onEdge p) := by
  induction rest generalizing a run with
  | nil =>
    refine ⟨[], [], ?_, fun h => absurd rfl h⟩
    rw [runsFrom, if_pos ((contains_iff exact a).mpr ha), List.append_nil]
  | cons b rest ih =>
    rw [runsFrom_cons]
    by_cases hb : b ∈ w.rect
    · rw [step_staying exact ha hb]
      obtain ⟨tail, more, eq, edge⟩ := ih hb (b :: run)
      refine ⟨b :: tail, more, ?_, ?_⟩
      · simpa using eq
      · simpa using edge
    · rw [step_leaving exact ha hb]
      refine ⟨[w.exit a b], w.runsFrom b [] rest, ?_, fun _ => ⟨w.exit a b, ?_, ?_⟩⟩
      · simp
      · exact List.getLast?_concat
      · exact (inner_leaving exact ha hb).2

/-- A walk that ends inside ends its last run there. That run begins on the
boundary if it is not the only one or the walk starts outside. -/
theorem runsFrom_last (exact : w.IsExact) {a z : Point ℝ} {run rest : List (Point ℝ)}
    (reaches : w.Reaches a run) (hz : (a :: rest).getLast? = some z) (inside : z ∈ w.rect) :
    ∃ more r, w.runsFrom a run rest = more ++ [r] ∧ r.getLast? = some z ∧
      (more ≠ [] ∨ a ∉ w.rect → ∃ p, r.head? = some p ∧ w.onEdge p) := by
  induction rest generalizing a run with
  | nil =>
    obtain rfl : a = z := by simpa using hz
    obtain ⟨before, rfl⟩ := List.head?_eq_some_iff.mp (reaches inside)
    refine ⟨[], (a :: before).reverse, ?_, by simp, ?_⟩
    · rw [runsFrom, if_pos ((contains_iff exact a).mpr inside), List.nil_append]
    · rintro (h | h)
      · exact absurd rfl h
      · exact absurd inside h
  | cons b rest ih =>
    rw [List.getLast?_cons_cons] at hz
    obtain ⟨more, r, eq, ends, edge⟩ := ih (reaches_step exact a b run) hz
    refine ⟨(w.step a run b).1 ++ more, r, ?_, ends, fun cut => ?_⟩
    · rw [runsFrom_cons, eq, List.append_assoc]
    by_cases hb : b ∈ w.rect
    · by_cases ha : a ∈ w.rect
      · apply edge
        rcases cut with cut | out
        · rw [step_staying exact ha hb] at cut
          exact .inl cut
        · exact absurd ha out
      · by_cases hmore : more = []
        -- The only run left is the one that enters here.
        · subst hmore
          rw [step_entering exact ha hb] at eq
          obtain ⟨tail, others, first, -⟩ := runsFrom_first exact hb [b, w.entry a b] rest
          have hr : r = [b, w.entry a b].reverse ++ tail :=
            (List.cons.inj (eq.symm.trans first)).1
          exact ⟨w.entry a b, by rw [hr]; rfl, (inner_entering exact ha hb).2⟩
        · exact edge (.inl hmore)
    · exact edge (.inr hb)

/-- A run with different ends is not thinned to a point. -/
theorem two_le_length_dropClose {r : List (Point ℝ)} {p q : Point ℝ} (hp : r.head? = some p)
    (hq : r.getLast? = some q) (ne : p ≠ q) : 2 ≤ (dropClose 0 r).length := by
  rw [← head?_dropClose] at hp
  rw [← getLast?_dropClose] at hq
  rcases h : dropClose 0 r with _ | ⟨x, _ | ⟨y, ys⟩⟩
  · rw [h] at hp
    exact absurd hp (by simp)
  · rw [h] at hp hq
    exact absurd ((Option.some.inj hp).symm.trans (Option.some.inj hq)) ne
  · simp

/-- **The first and the last run of a closed outline meet, unless its start is on
the boundary.** -/
theorem seam_runs_eq_empty (exact : w.IsExact) {l : Polyline ℝ} (closed : l.last = l.start)
    (inside : l.start ∈ w.rect) (off : ¬ w.onEdge l.start) : seam (w.runs l) = ∅ := by
  have reaches : w.Reaches l.start [l.start] := fun _ => rfl
  have last : (l.start :: l.rest).getLast? = some l.start := by
    rw [List.getLast?_cons]
    exact congrArg some closed
  obtain ⟨tail, more, front, leaves⟩ := runsFrom_first exact inside [l.start] l.rest
  obtain ⟨before, r, back, ends, enters⟩ := runsFrom_last exact reaches last inside
  rw [runs, exact.eps]
  cases before with
  | nil =>
    rw [back, List.nil_append, List.map_singleton, List.filter_singleton]
    cases decide (2 ≤ (dropClose 0 r).length) <;> rfl
  | cons f before =>
    rw [List.cons_append] at back
    obtain ⟨hf, hmore⟩ := List.cons.inj (back.symm.trans front)
    obtain ⟨p, hp, p_edge⟩ := leaves (by rw [← hmore]; simp)
    obtain ⟨q, hq, q_edge⟩ := enters (.inl (by simp))
    have f_head : f.head? = some l.start := by
      rw [hf]
      rfl
    rw [← hf] at hp
    have f_long := two_le_length_dropClose f_head hp fun same => off (same ▸ p_edge)
    have r_long := two_le_length_dropClose hq ends fun same => off (same ▸ q_edge)
    rw [back, List.map_cons, List.map_append, List.map_singleton, List.filter_cons,
      if_pos (decide_eq_true f_long), List.filter_append, List.filter_cons,
      if_pos (decide_eq_true r_long), List.filter_nil, seam_concat, head?_dropClose,
      getLast?_dropClose, f_head, ends]
    ext x
    simp

/-! ### Filled outlines -/

/-- **What the pieces of a closed outline draw when it is filled.** It is what
they draw when it is not, and, of an outline that starts inside, the line from
the end of its last run to the start of its first one. So nothing is added
precisely if that line is drawn anyhow, as it is for every start off the
boundary of the rectangle. -/
theorem splitTrace_filled (exact : w.IsExact) (l : Polyline ℝ) (closed : l.last = l.start) :
    w.splitTrace { l with fill := true } =
        w.splitTrace { l with fill := false } ∪ {q | l.start ∈ w.rect ∧ q ∈ seam (w.runs l)} ∧
      (w.splitTrace { l with fill := true } = w.splitTrace { l with fill := false } ↔
        (l.start ∈ w.rect → seam (w.runs l) ⊆ w.splitTrace { l with fill := false })) ∧
      (¬ w.onEdge l.start →
        w.splitTrace { l with fill := true } = w.splitTrace { l with fill := false }) := by
  have distinct (r : List (Point ℝ)) (hr : r ∈ w.runs l) : Distinct r :=
    distinct_of_mem_runs exact l hr
  have plain : w.splitTrace { l with fill := false } = inked (w.runs l) :=
    splitTrace_eq { l with fill := false } distinct
  have filled : w.splitTrace { l with fill := true } =
      inked (w.runs l) ∪ {q | l.start ∈ w.rect ∧ q ∈ seam (w.runs l)} := by
    have hpieces : w.pieces { l with fill := true } =
        if w.contains l.start then w.rejoin (w.runs l) else w.runs l := by
      change (if true && w.contains l.start && w.contains l.last then _ else _) = _
      rw [closed, Bool.true_and, Bool.and_self]
      rfl
    by_cases inside : l.start ∈ w.rect
    · rw [if_pos ((contains_iff exact _).mpr inside)] at hpieces
      obtain ⟨drawn, joined⟩ := inked_rejoin exact distinct
      rw [splitTrace_eq _ (by rwa [hpieces]), hpieces, drawn]
      ext q
      simp [inside]
    · rw [(contains_eq_false exact _).mpr inside, if_neg Bool.false_ne_true] at hpieces
      rw [splitTrace_eq _ (by rwa [hpieces]), hpieces]
      ext q
      simp [inside]
  refine ⟨by rw [filled, plain], ?_, fun off => ?_⟩
  · rw [filled, plain, Set.union_eq_left]
    exact ⟨fun sub inside q hq => sub ⟨inside, hq⟩, fun sub q hq => sub hq.1 hq.2⟩
  · rw [filled, plain, Set.union_eq_left]
    rintro q ⟨inside, hq⟩
    rw [seam_runs_eq_empty exact closed inside off] at hq
    exact absurd hq (Set.notMem_empty q)

/-- A square that starts inside and leaves on the right is filled along what it
draws. -/
theorem splitTrace_filled_square :
    let w : Window ℝ := ⟨10, 10, 0⟩
    let square : Polyline ℝ := ⟨⟨5, 5⟩, [⟨15, 5⟩, ⟨15, 8⟩, ⟨5, 8⟩, ⟨5, 5⟩], true⟩
    w.splitTrace { square with fill := true } = w.splitTrace { square with fill := false } := by
  have exact : (⟨10, 10, 0⟩ : Window ℝ).IsExact := ⟨rfl, by norm_num, by norm_num⟩
  refine (splitTrace_filled exact _ ?_).2.2 ?_
  · simp [Polyline.last]
  · rintro ⟨e, he, on⟩
    exact (forall_side_boundary _ _ (· ≠ 0)).mpr (by norm_num) e he on

/-- An outline that crosses the window twice. Its start is on the left edge, which
it leaves at once and comes back to from outside. -/
noncomputable def astride : Polyline ℝ :=
  ⟨⟨0, 5⟩, [⟨-1, 8⟩, ⟨11, 8⟩, ⟨11, 2⟩, ⟨-1, 2⟩, ⟨0, 5⟩], true⟩

theorem runs_astride : (⟨10, 10, 0⟩ : Window ℝ).runs astride =
    [[⟨0, 8⟩, ⟨10, 8⟩], [⟨10, 2⟩, ⟨0, 2⟩]] := by
  norm_num [runs, astride, runsFrom, contains, crossings, boundary_eq, List.filterMap_cons,
    Crossing.ofSegments?, Crossing.ofLines?, Crossing.within, det, mk_add_mk, mk_sub_mk, scale_mk,
    Scalar.clampUnit, Scalar.larger, Scalar.smaller, List.mergeSort, List.merge, mergeNear_nil,
    mergeNear_cons, dropClose_cons, thin]

/-- Filled, it gains the line on the left edge between its two crossings. -/
theorem astride_gains_line :
    let w : Window ℝ := ⟨10, 10, 0⟩
    astride.last = astride.start ∧
      (⟨0, 5⟩ : Point ℝ) ∈ w.splitTrace { astride with fill := true } ∧
      (⟨0, 5⟩ : Point ℝ) ∉ w.splitTrace { astride with fill := false } := by
  have start : (⟨10, 10, 0⟩ : Window ℝ).contains astride.start = true := by
    norm_num [contains, astride]
  have closed : astride.last = astride.start := by
    simp [Polyline.last, astride]
  have filled : (⟨10, 10, 0⟩ : Window ℝ).split { astride with fill := true } =
      [⟨⟨10, 2⟩, [⟨0, 2⟩, ⟨0, 8⟩, ⟨10, 8⟩], true⟩] := by
    have inside : (⟨10, 10, 0⟩ : Window ℝ).pieces { astride with fill := true } =
        (⟨10, 10, 0⟩ : Window ℝ).rejoin ((⟨10, 10, 0⟩ : Window ℝ).runs astride) := by
      change (if true && contains _ astride.start && contains _ astride.last then _ else _) = _
      rw [closed, start]
      rfl
    have joined : (⟨10, 10, 0⟩ : Window ℝ).rejoin [[⟨0, 8⟩, ⟨10, 8⟩], [⟨10, 2⟩, ⟨0, 2⟩]] =
        [[⟨10, 2⟩, ⟨0, 2⟩, ⟨0, 8⟩, ⟨10, 8⟩]] := by
      norm_num [rejoin]
    rw [split, inside, runs_astride, joined]
    rfl
  have plain : (⟨10, 10, 0⟩ : Window ℝ).split { astride with fill := false } =
      [⟨⟨0, 8⟩, [⟨10, 8⟩], false⟩, ⟨⟨10, 2⟩, [⟨0, 2⟩], false⟩] := by
    change List.filterMap _ ((⟨10, 10, 0⟩ : Window ℝ).runs astride) = _
    rw [runs_astride]
    rfl
  refine ⟨closed, ?_, ?_⟩
  · rw [splitTrace, filled]
    refine ⟨_, List.mem_singleton.mpr rfl, (⟨0, 2⟩, ⟨0, 8⟩), ?_, ?_⟩
    · simp [Polyline.segments, Polyline.vertices]
    · exact ⟨1 / 2, by norm_num, by ext <;> norm_num⟩
  · rw [splitTrace, plain]
    rintro ⟨piece, hpiece, s, hs, t, -, at_t⟩
    have level := congrArg Point.y at_t
    simp only [List.mem_cons, List.not_mem_nil, or_false] at hpiece
    rcases hpiece with rfl | rfl
    · obtain rfl := List.mem_singleton.mp hs
      norm_num at level
    · obtain rfl := List.mem_singleton.mp hs
      norm_num at level

end BoardPlotter.Window
