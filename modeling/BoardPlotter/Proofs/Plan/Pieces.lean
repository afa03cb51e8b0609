import BoardPlotter.Proofs.Plan.Thinning

/-!
# What pieces are made of

The pieces of a polyline are the runs of a walk, thinned, but for the first run and the last
one of a filled outline, which may be joined (`Window.Joins`). All of this is about lists, so
it holds of any numbers, and whatever these compare as.
-/

namespace BoardPlotter.Window

theorem getLast?_getD_mem {α : Type} (x : α) (xs : List α) :
    (x :: xs).getLast?.getD x ∈ x :: xs := by
  rw [List.getLast?_eq_some_getLast (List.cons_ne_nil x xs), Option.getD_some]
  exact List.getLast_mem _

variable {α : Type} [Scalar α] {w : Window α} {l piece : Polyline α}

/-! ### Runs -/

/-- The runs as they are walked, before they are thinned. -/
def walked {α : Type} [Scalar α] (w : Window α) (l : Polyline α) : List (List (Point α)) :=
  w.runsFrom l.start [l.start] l.rest

/-- No two neighbours of a thinned list are close. -/
theorem dropClose_spaced (eps : α) (ps : List (Point α)) :
    (dropClose eps ps).IsChain fun p q => p.closeTo q eps = false := by
  cases ps with
  | nil => exact List.IsChain.nil
  | cons p ps =>
    rw [dropClose_cons]
    induction ps generalizing p with
    | nil => exact List.IsChain.singleton p
    | cons q ps ih =>
      cases close : p.closeTo q eps
      · rw [thin, if_neg (by simp [close])]
        exact List.isChain_cons_cons.mpr ⟨close, ih q⟩
      · rw [thin, if_pos close]
        exact ih p

theorem mem_runs_iff {r : List (Point α)} :
    r ∈ w.runs l ↔ ∃ walk ∈ w.walked l, dropClose w.eps walk = r ∧ 2 ≤ r.length := by
  rw [runs, List.mem_filter, List.mem_map, decide_eq_true_eq]
  constructor
  · rintro ⟨⟨walk, hwalk, rfl⟩, two⟩
    exact ⟨walk, hwalk, rfl, two⟩
  · rintro ⟨walk, hwalk, rfl, two⟩
    exact ⟨⟨walk, hwalk, rfl⟩, two⟩

/-! ### Joining -/

theorem rejoin_concat (w : Window α) (q p : Point α) (fs ls : List (Point α))
    (mid : List (List (Point α))) :
    w.rejoin ((q :: fs) :: (mid ++ [ls ++ [p]])) =
      ((ls ++ [p]) ++ if p.closeTo q w.eps then fs else q :: fs) :: mid := by
  cases mid with
  | nil => simp [rejoin]
  | cons m ms =>
    rw [List.cons_append, rejoin, ← List.cons_append, List.getLast?_concat, Option.getD_some,
      List.dropLast_concat]
    simp

/-- Joining takes no points but those of the runs. -/
theorem mem_of_mem_rejoin {rs : List (List (Point α))} {r : List (Point α)}
    (hr : r ∈ w.rejoin rs) {p : Point α} (hp : p ∈ r) : ∃ s ∈ rs, p ∈ s := by
  rcases rs with _ | ⟨first, _ | ⟨second, more⟩⟩
  · exact ⟨r, hr, hp⟩
  · exact ⟨r, hr, hp⟩
  rw [rejoin] at hr
  rcases List.mem_cons.mp hr with rfl | hr
  · rcases List.mem_append.mp hp with hp | hp
    · exact ⟨_, List.mem_cons_of_mem first (getLast?_getD_mem second more), hp⟩
    · have sub (meets : Bool) : (if meets then first.drop 1 else first) ⊆ first := by
        cases meets
        · exact List.Subset.refl first
        · exact List.drop_subset 1 first
      exact ⟨first, List.mem_cons_self, sub _ hp⟩
  · exact ⟨r, List.mem_cons_of_mem first (List.dropLast_subset _ hr), hp⟩

/-- The outlines whose first run and last one are joined. -/
structure Joins (w : Window α) (l : Polyline α) : Prop where
  fill : l.fill = true
  start : w.contains l.start = true
  last : w.contains l.last = true
  several : 2 ≤ (w.runs l).length

theorem pieces_of_not_joins (apart : ¬ w.Joins l) : w.pieces l = w.runs l := by
  rw [pieces]
  split
  · rename_i inside
    rw [Bool.and_eq_true, Bool.and_eq_true] at inside
    have few : ¬ 2 ≤ (w.runs l).length := fun several =>
      apart ⟨inside.1.1, inside.1.2, inside.2, several⟩
    rcases runs_eq : w.runs l with _ | ⟨first, _ | ⟨second, more⟩⟩
    · rfl
    · rfl
    · simp [runs_eq] at few
  · rfl

/-! ### Pieces -/

theorem two_le_length_of_mem_pieces {r : List (Point α)} (hr : r ∈ w.pieces l) :
    2 ≤ r.length := by
  have long (r : List (Point α)) (hr : r ∈ w.runs l) : 2 ≤ r.length := by
    obtain ⟨-, -, -, two⟩ := mem_runs_iff.mp hr
    exact two
  have joined (rs : List (List (Point α))) (long : ∀ r ∈ rs, 2 ≤ r.length) :
      ∀ r ∈ w.rejoin rs, 2 ≤ r.length := by
    rcases rs with _ | ⟨first, _ | ⟨second, more⟩⟩
    · exact long
    · exact long
    · rw [rejoin]
      refine List.forall_mem_cons.mpr ⟨?_, fun r hr => ?_⟩
      · have last := long _ (List.mem_cons_of_mem first (getLast?_getD_mem second more))
        rw [List.length_append]
        omega
      · exact long r (List.mem_cons_of_mem first (List.dropLast_subset _ hr))
  rw [pieces] at hr
  split at hr
  · exact joined _ long r hr
  · exact long r hr

theorem vertices_mem_pieces (hpiece : piece ∈ w.split l) : piece.vertices ∈ w.pieces l := by
  obtain ⟨r, hr, made⟩ := List.mem_filterMap.mp hpiece
  cases r with
  | nil => exact absurd made (by simp [Polyline.ofVertices?])
  | cons q r =>
    obtain rfl := Option.some.inj made
    exact hr

theorem fill_of_mem_split (hpiece : piece ∈ w.split l) : piece.fill = l.fill := by
  obtain ⟨r, -, made⟩ := List.mem_filterMap.mp hpiece
  cases r with
  | nil => cases made
  | cons p ps =>
    obtain rfl := Option.some.inj made
    rfl

/-- The vertices of a piece are apart if nothing is joined. -/
theorem spaced_of_mem_split (apart : ¬ w.Joins l) (hpiece : piece ∈ w.split l) :
    piece.vertices.IsChain fun p q => p.closeTo q w.eps = false := by
  have run := vertices_mem_pieces hpiece
  rw [pieces_of_not_joins apart] at run
  obtain ⟨walk, -, thinned, -⟩ := mem_runs_iff.mp run
  exact thinned ▸ dropClose_spaced w.eps walk

end BoardPlotter.Window
