import BoardPlotter.Proofs.Plan.Margin
import BoardPlotter.Proofs.Plan.Redrawing
import BoardPlotter.Proofs.Plan.Rejoining

/-!
# Pieces as stretches of an outline

A run of the walk is a stretch of the outline: with the way that is left, from its
end round to its start, it redraws the outline (`Window.IsProper.exists_stretch`).
Of an outline that starts inside, the first run and the last one are stretches at
once, and the start joins them (`Window.IsProper.exists_first_last`).

Pieces are such runs, thinned, if the tolerance does not bring together what is
apart (`Window.Resolves`). Then each piece is a stretch of the outline
(`Window.IsProper.exists_rest`).
-/

namespace BoardPlotter

open Point

namespace Window

variable {w : Window ℝ} {a b : Point ℝ}

/-! ### Crossings on a segment -/

theorem clampUnit_mem_Icc (t : ℝ) : Scalar.clampUnit t ∈ Set.Icc (0 : ℝ) 1 := by
  rw [Exact.clampUnit_eq]
  exact ⟨le_min (le_max_right _ _) zero_le_one, min_le_right _ _⟩

theorem IsProper.crossing_on (proper : w.IsProper) {h : Crossing ℝ} (hh : h ∈ w.crossings a b) :
    h.t ∈ Set.Icc (0 : ℝ) 1 ∧ h.point = along a b h.t := by
  obtain ⟨t, -, moved, point⟩ := proper.slack_of_mem_crossings hh
  exact ⟨moved ▸ clampUnit_mem_Icc t, point⟩

theorem IsProper.exit_mem_segment (proper : w.IsProper) (a b : Point ℝ) :
    w.exit a b ∈ segment a b := by
  rw [exit]
  rcases last : (w.crossings a b).getLast? with _ | h
  · exact left_mem_segment a b
  · obtain ⟨ht, point⟩ := proper.crossing_on (List.mem_of_getLast? last)
    exact ⟨h.t, ht, point.symm⟩

theorem IsProper.entry_mem_segment (proper : w.IsProper) (a b : Point ℝ) :
    w.entry a b ∈ segment a b := by
  rw [entry]
  rcases first : (w.crossings a b).head? with _ | h
  · exact right_mem_segment a b
  · obtain ⟨ht, point⟩ := proper.crossing_on (List.mem_of_head? first)
    exact ⟨h.t, ht, point.symm⟩

/-- A chord leads on along its segment. -/
theorem IsProper.chord_mem_segment (proper : w.IsProper) {r : List (Point ℝ)}
    (hr : r ∈ w.chord a b) : ∃ p q, r = [p, q] ∧ p ∈ segment a b ∧ q ∈ segment p b := by
  obtain ⟨first, hf, last, hl, later, rfl⟩ := proper.exists_of_mem_chord hr
  obtain ⟨hs, first_eq⟩ := proper.crossing_on hf
  obtain ⟨ht, last_eq⟩ := proper.crossing_on hl
  have onward := segment_along a b hs.2
  rw [along_one] at onward
  refine ⟨_, _, rfl, ⟨first.t, hs, first_eq.symm⟩, ?_⟩
  rw [first_eq, onward]
  exact ⟨last.t, ⟨later.le, ht.2⟩, last_eq.symm⟩

/-! ### The walk -/

/-- **Every run is a stretch of the way.** -/
theorem IsProper.exists_stretch (proper : w.IsProper) (rest : List (Point ℝ)) {a : Point ℝ}
    {run : List (Point ℝ)} (front : List (Point ℝ))
    (goes_on : w.contains a = true → ∃ before, front ++ [a] = before ++ run.reverse) :
    ∀ r ∈ w.runsFrom a run rest, ∃ before after,
      Redraws (front ++ a :: rest) (before ++ r ++ after) := by
  induction rest generalizing a run front with
  | nil =>
    rw [runsFrom]
    cases ha : w.contains a
    · simp
    · obtain ⟨before, same⟩ := goes_on ha
      intro r hr
      obtain rfl := List.mem_singleton.mp hr
      refine ⟨before, [], ?_⟩
      rw [List.append_nil, ← same]
      exact .refl _
  | cons b rest ih =>
    have passed : front ++ a :: b :: rest = (front ++ [a]) ++ b :: rest := by simp
    rw [runsFrom_cons, step]
    intro r hr
    cases ha : w.contains a <;> cases hb : w.contains b <;> rw [ha, hb] at hr
    · rcases List.mem_append.mp hr with hr | hr
      · obtain ⟨p, q, rfl, hp, hq⟩ := proper.chord_mem_segment hr
        refine ⟨front ++ [a], b :: rest, ?_⟩
        have second := Redraws.insert (front ++ [a]) rest hq
        rw [List.append_assoc, List.append_assoc] at second
        simpa using (Redraws.insert front rest hp).trans second
      · rw [passed]
        exact ih (front ++ [a]) (by simp [hb]) r hr
    · have goes_on : w.contains b = true →
          ∃ before, (front ++ [a, w.entry a b]) ++ [b] = before ++ [b, w.entry a b].reverse :=
        fun _ => ⟨front ++ [a], by simp⟩
      obtain ⟨before, after, same⟩ := ih _ goes_on r hr
      refine ⟨before, after, (Redraws.insert front rest (proper.entry_mem_segment a b)).trans ?_⟩
      simpa using same
    · rcases List.mem_append.mp hr with hr | hr
      · obtain ⟨before, same⟩ := goes_on ha
        obtain rfl := List.mem_singleton.mp hr
        refine ⟨before, b :: rest, ?_⟩
        have left := Redraws.insert front rest (proper.exit_mem_segment a b)
        have cut : front ++ a :: w.exit a b :: b :: rest =
            before ++ (w.exit a b :: run).reverse ++ b :: rest := by
          rw [List.reverse_cons, ← List.append_assoc, ← same]
          simp
        rwa [cut] at left
      · rw [passed]
        exact ih (front ++ [a]) (by simp [hb]) r hr
    · rw [passed]
      refine ih (front ++ [a]) (fun _ => ?_) r (by simpa using hr)
      obtain ⟨before, same⟩ := goes_on ha
      exact ⟨before, by rw [same]; simp⟩

/-- **A walk that ends inside ends with a run to its end.** Either that is the run it
is on, or the run comes later on the way. -/
theorem IsProper.exists_last (proper : w.IsProper) (rest : List (Point ℝ)) {a z : Point ℝ}
    (run front : List (Point ℝ))
    (reaches : w.contains a = true → run.head? = some a) (ends : (a :: rest).getLast? = some z)
    (inside : w.contains z = true) :
    ∃ init r, w.runsFrom a run rest = init ++ [r] ∧ r.getLast? = some z ∧
      ((w.contains a = true ∧ init = [] ∧ r = run.reverse ++ rest) ∨
        ∃ mid, Redraws (front ++ a :: rest) (front ++ a :: (mid ++ r))) := by
  induction rest generalizing a run front with
  | nil =>
    obtain rfl : a = z := by simpa using ends
    rw [runsFrom, if_pos inside]
    exact ⟨[], run.reverse, rfl, by rw [List.getLast?_reverse, reaches inside],
      .inl ⟨inside, rfl, by simp⟩⟩
  | cons b rest ih =>
    rw [List.getLast?_cons_cons] at ends
    have passed : front ++ a :: b :: rest = (front ++ [a]) ++ b :: rest := by simp
    rw [runsFrom_cons, step]
    cases ha : w.contains a <;> cases hb : w.contains b
    · obtain ⟨init, r, runs, last, ⟨h, -⟩ | ⟨mid, same⟩⟩ :=
        ih [] (front ++ [a]) (by simp [hb]) ends
      · exact absurd (hb.symm.trans h) Bool.false_ne_true
      · exact ⟨w.chord a b ++ init, r, by rw [runs, List.append_assoc], last,
          .inr ⟨b :: mid, by simpa using same⟩⟩
    · obtain ⟨init, r, runs, last, later⟩ :=
        ih [b, w.entry a b] (front ++ [a, w.entry a b]) (fun _ => rfl) ends
      have entered := Redraws.insert front rest (proper.entry_mem_segment a b)
      refine ⟨init, r, runs, last, .inr ?_⟩
      rcases later with ⟨-, -, rfl⟩ | ⟨mid, same⟩
      · exact ⟨[], entered⟩
      · exact ⟨w.entry a b :: b :: mid, entered.trans (by simpa using same)⟩
    · obtain ⟨init, r, runs, last, ⟨h, -⟩ | ⟨mid, same⟩⟩ :=
        ih [] (front ++ [a]) (by simp [hb]) ends
      · exact absurd (hb.symm.trans h) Bool.false_ne_true
      · exact ⟨(w.exit a b :: run).reverse :: init, r, by rw [runs]; rfl, last,
          .inr ⟨b :: mid, by simpa using same⟩⟩
    · obtain ⟨init, r, runs, last, later⟩ := ih (b :: run) (front ++ [a]) (fun _ => rfl) ends
      refine ⟨init, r, runs, last, ?_⟩
      rcases later with ⟨-, first, only⟩ | ⟨mid, same⟩
      · exact .inl ⟨rfl, first, by rw [only]; simp⟩
      · exact .inr ⟨b :: mid, by simpa using same⟩

/-- **A walk from inside to inside** never leaves, or its first run and its last one
are stretches of the way at once. -/
theorem IsProper.exists_first_last (proper : w.IsProper) (rest : List (Point ℝ)) {a z : Point ℝ}
    (ha : w.contains a = true) (before : List (Point ℝ)) (ends : (a :: rest).getLast? = some z)
    (inside : w.contains z = true) :
    w.runsFrom a (a :: before) rest = [(a :: before).reverse ++ rest] ∨
      ∃ tail init r mid, w.runsFrom a (a :: before) rest =
          ((a :: before).reverse ++ tail) :: (init ++ [r]) ∧ r.getLast? = some z ∧
        Redraws ((a :: before).reverse ++ rest) ((a :: before).reverse ++ tail ++ mid ++ r) := by
  induction rest generalizing a before with
  | nil => exact .inl (by rw [runsFrom, if_pos ha, List.append_nil])
  | cons b rest ih =>
    rw [List.getLast?_cons_cons] at ends
    rw [runsFrom_cons, step, ha]
    cases hb : w.contains b
    · obtain ⟨init, r, runs, last, ⟨h, -⟩ | ⟨mid, same⟩⟩ :=
        proper.exists_last rest [] (before.reverse ++ [a, w.exit a b]) (by simp [hb])
          ends inside
      · exact absurd (hb.symm.trans h) Bool.false_ne_true
      · have left := Redraws.insert before.reverse rest (proper.exit_mem_segment a b)
        refine .inr ⟨[w.exit a b], init, r, b :: mid, by rw [runs]; simp, last, ?_⟩
        simpa using left.trans (by simpa using same)
    · rcases ih hb (a :: before) ends with only | ⟨tail, init, r, mid, runs, last, same⟩
      · left
        rw [List.nil_append, only]
        simp
      · refine .inr ⟨b :: tail, init, r, mid, ?_, last, by simpa using same⟩
        rw [List.nil_append, runs]
        simp

/-- A walk that stays inside is one run. -/
theorem runsFrom_of_contains (rest : List (Point ℝ)) {a : Point ℝ} (run : List (Point ℝ))
    (stays : ∀ p ∈ a :: rest, w.contains p = true) :
    w.runsFrom a run rest = [run.reverse ++ rest] := by
  induction rest generalizing a run with
  | nil => rw [runsFrom, if_pos (stays a List.mem_cons_self), List.append_nil]
  | cons b rest ih =>
    obtain ⟨ha, later⟩ := List.forall_mem_cons.mp stays
    rw [runsFrom_cons, step, ha, later b List.mem_cons_self, ih (b :: run) later]
    simp

/-! ### Pieces -/

/-- Leaving out repeated vertices redraws the outline. -/
theorem redraws_dropClose (before ps after : List (Point ℝ)) :
    Redraws (before ++ ps ++ after) (before ++ dropClose 0 ps ++ after) := by
  revert before
  apply dropClose_induction (motive := fun ps kept => ∀ before,
    Redraws (before ++ ps ++ after) (before ++ kept ++ after))
  · exact fun before => .refl _
  · exact fun p before => .refl _
  · intro p ps kept ih before
    have twice := Redraws.double before p (ps ++ after)
    refine .trans (.symm ?_) (ih before)
    simpa using twice
  · intro p q ps kept _ ih before
    have later := ih (before ++ [p])
    simpa using later

/-- The tolerance of a window does not bring together what is apart in an outline:
thinning takes out repeated vertices only, the first run and the last one are not
thinned to a point, and pieces that end close to their start end there. -/
structure Resolves (w : Window ℝ) (l : Polyline ℝ) : Prop where
  apart : ∀ r ∈ w.walked l, dropClose w.eps r = dropClose 0 r
  seam : w.contains l.start = true → 2 ≤ (w.walked l).length → ∀ r,
    r ∈ (w.walked l).head? ∨ r ∈ (w.walked l).getLast? → 2 ≤ (dropClose w.eps r).length
  ends : ∀ piece ∈ w.split l, piece.isClosed w.eps = true → piece.last = piece.start

/-- Without tolerance, the vertices of an outline that starts off the boundary are
resolved. -/
theorem IsExact.resolves (exact : w.IsExact) {l : Polyline ℝ} (closed : l.last = l.start)
    (off : ¬ w.onEdge l.start) : w.Resolves l := by
  refine ⟨fun r _ => by rw [exact.eps], fun inside several r hr => ?_, fun piece _ back => ?_⟩
  · rw [exact.eps]
    have within := (contains_iff exact l.start).mp inside
    have last : (l.start :: l.rest).getLast? = some l.start := by
      rw [List.getLast?_cons]
      exact congrArg some closed
    obtain ⟨tail, more, front, leaves⟩ := runsFrom_first exact within [l.start] l.rest
    have reaches : w.Reaches l.start [l.start] := fun _ => rfl
    obtain ⟨before, z, back, ends, enters⟩ := runsFrom_last exact reaches last within
    rcases hr with hr | hr
    · rw [walked, front, List.length_cons] at several
      rw [walked, front] at hr
      obtain rfl := Option.some.inj hr
      obtain ⟨p, hp, edge⟩ := leaves (by rintro rfl; simp at several)
      exact two_le_length_dropClose rfl hp fun same => off (same ▸ edge)
    · rw [walked, back, List.length_append] at several
      rw [walked, back, List.getLast?_concat] at hr
      obtain rfl := Option.some.inj hr
      obtain ⟨p, hp, edge⟩ := enters (.inl (by rintro rfl; simp at several))
      exact two_le_length_dropClose hp ends fun same => off (same ▸ edge)
  · rw [exact.eps, Polyline.isClosed, Bool.and_eq_true] at back
    exact (closeTo_zero _ _).mp back.2

variable {l : Polyline ℝ}

theorem IsProper.exists_rest_of_mem_runs (proper : w.IsProper) (resolved : w.Resolves l)
    {r : List (Point ℝ)} (hr : r ∈ w.runs l) : ∃ rest, Redraws l.vertices (r ++ rest) := by
  rw [runs, List.mem_filter, List.mem_map] at hr
  obtain ⟨⟨walk, hwalk, rfl⟩, -⟩ := hr
  obtain ⟨before, after, same⟩ :=
    proper.exists_stretch l.rest [] (fun _ => ⟨[], rfl⟩) walk hwalk
  refine ⟨after ++ before, same.trans ((redraws_dropClose before walk after).trans ?_)⟩
  rw [resolved.apart walk hwalk, List.append_assoc, ← List.append_assoc _ after before]
  exact .append_comm before _

/-- A single run is not joined to another. -/
theorem rejoin_runs_of_walked {walk : List (Point ℝ)} (only : w.walked l = [walk]) :
    w.rejoin (w.runs l) = w.runs l := by
  change w.rejoin (((w.walked l).map (dropClose w.eps)).filter fun run => 2 ≤ run.length) =
    ((w.walked l).map (dropClose w.eps)).filter fun run => 2 ≤ run.length
  rw [only, List.map_singleton, List.filter_singleton]
  cases decide (2 ≤ (dropClose w.eps walk).length) <;> rfl

/-- Of an outline that starts inside, the first run and the last one meet at the
start and are a stretch together. -/
theorem IsProper.exists_rest_of_mem_rejoin (proper : w.IsProper) (resolved : w.Resolves l)
    (closed : l.last = l.start) (inside : w.contains l.start = true) {r : List (Point ℝ)}
    (hr : r ∈ w.rejoin (w.runs l)) : ∃ rest, Redraws l.vertices (r ++ rest) := by
  have last : (l.start :: l.rest).getLast? = some l.start := by
    rw [List.getLast?_cons]
    exact congrArg some closed
  rcases proper.exists_first_last l.rest inside [] last inside with
    only | ⟨tail, init, z, mid, runs_eq, z_last, same⟩
  · rw [rejoin_runs_of_walked only] at hr
    exact proper.exists_rest_of_mem_runs resolved hr
  have walks : w.walked l = ([l.start] ++ tail) :: (init ++ [z]) := runs_eq
  have several : 2 ≤ (w.walked l).length := by simp [walks]
  have first_long := resolved.seam inside several ([l.start] ++ tail) (.inl (by simp [walks]))
  have last_long := resolved.seam inside several z
    (.inr (by rw [walks, ← List.cons_append, List.getLast?_concat]; rfl))
  have first_eq := resolved.apart ([l.start] ++ tail) (by simp [walks])
  have last_eq := resolved.apart z (by simp [walks])
  obtain ⟨fs, hfs⟩ := List.head?_eq_some_iff.mp
    ((head?_dropClose ([l.start] ++ tail)).trans (List.head?_cons))
  obtain ⟨ls, hls⟩ := List.getLast?_eq_some_iff.mp ((getLast?_dropClose z).trans z_last)
  rw [hfs] at first_eq
  rw [hls] at last_eq
  have runs_l : w.runs l = (l.start :: fs) ::
      ((init.map (dropClose w.eps)).filter (2 ≤ ·.length) ++ [ls ++ [l.start]]) := by
    change List.filter _ ((w.walked l).map (dropClose w.eps)) = _
    rw [first_eq] at first_long
    rw [last_eq] at last_long
    rw [walks, List.map_cons, List.map_append, List.map_singleton, first_eq, last_eq,
      List.filter_cons, if_pos (decide_eq_true first_long), List.filter_append,
      List.filter_singleton, decide_eq_true last_long]
    rfl
  have meet : l.start.closeTo l.start w.eps = true := by
    simp [closeTo, proper.eps]
  rw [runs_l, rejoin_concat, if_pos meet] at hr
  rcases List.mem_cons.mp hr with rfl | hr
  · refine ⟨mid, same.trans ?_⟩
    have thinned := redraws_dropClose [] ([l.start] ++ tail) (mid ++ z)
    have thinned' := redraws_dropClose (l.start :: fs ++ mid) z []
    rw [hfs] at thinned
    rw [hls] at thinned'
    have met := Redraws.double ls l.start (fs ++ mid)
    have turned := Redraws.append_comm (l.start :: fs ++ mid) (ls ++ [l.start])
    simp only [List.nil_append, List.append_nil, List.append_assoc, List.cons_append,
      List.reverse_singleton] at thinned thinned' met turned ⊢
    exact (thinned.trans thinned').trans (turned.trans met.symm)
  · exact proper.exists_rest_of_mem_runs resolved (by simp [runs_l, hr])

/-- **Every piece is a stretch of the outline.** -/
theorem IsProper.exists_rest (proper : w.IsProper) (resolved : w.Resolves l)
    (closed : l.last = l.start) {piece : Polyline ℝ} (hpiece : piece ∈ w.split l) :
    ∃ rest, Redraws l.vertices (piece.vertices ++ rest) := by
  have hr := vertices_mem_pieces hpiece
  rw [pieces] at hr
  split at hr
  · rename_i inside
    rw [Bool.and_eq_true, Bool.and_eq_true] at inside
    exact proper.exists_rest_of_mem_rejoin resolved closed inside.1.2 hr
  · exact proper.exists_rest_of_mem_runs resolved hr

end Window

end BoardPlotter
