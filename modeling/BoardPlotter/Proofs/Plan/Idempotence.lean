import BoardPlotter.Proofs.Plan.Steady

/-!
# Clipping twice

Clipping what is already clipped changes nothing precisely if it keeps each of the pieces
(`Window.splitAll_splitAll_iff`). Pieces that are not filled are kept if they lie inside;
of a filled outline, the vertices must also be apart where its first run and its last one
are joined. A window without tolerance always keeps its pieces.

Its tolerance undoes this. A vertex is inside by a distance and on an edge by a part of its
length, so a piece can end outside a window of some size and not be found again. And two
runs are thinned before they are joined, so that vertices are close at the seam.
-/

namespace BoardPlotter.Window

open Point

/-! ### Lists -/

/-- A list is not made again from a part of it if each element is made by itself only. -/
theorem flatMap_ne_append {β : Type} {f : β → List β} (alone : ∀ x, x ∈ f x → f x = [x])
    (owed : List β) (some_owed : owed ≠ []) (xs : List β) : xs.flatMap f ≠ owed ++ xs := by
  induction xs generalizing owed with
  | nil => simpa using some_owed.symm
  | cons x xs ih =>
    intro same
    rw [List.flatMap_cons] at same
    rcases List.append_eq_append_iff.mp same with ⟨rest, rfl, later⟩ | ⟨made, own, later⟩
    · refine ih (rest ++ [x]) (by simp) ?_
      simpa using later
    · rcases made with _ | ⟨y, made⟩
      · refine ih [x] (by simp) ?_
        simpa using later.symm
      · obtain ⟨rfl, -⟩ := List.cons.inj later
        have only := alone x (by rw [own]; simp)
        rw [own] at only
        have length := congrArg List.length only
        have positive := List.length_pos_iff.mpr some_owed
        simp at length
        omega

/-- **A list is made again precisely if each of its elements is.** -/
theorem flatMap_eq_self_iff {β : Type} {f : β → List β} (alone : ∀ x, x ∈ f x → f x = [x])
    {xs : List β} : xs.flatMap f = xs ↔ ∀ x ∈ xs, f x = [x] := by
  constructor
  · intro same
    induction xs with
    | nil => simp
    | cons x xs ih =>
      rw [List.flatMap_cons] at same
      cases made : f x with
      | nil =>
        rw [made, List.nil_append] at same
        exact absurd same (flatMap_ne_append alone [x] (by simp) xs)
      | cons y ys =>
        rw [made, List.cons_append] at same
        obtain ⟨rfl, later⟩ := List.cons.inj same
        have only := alone y (by rw [made]; exact List.mem_cons_self)
        rw [made] at only
        obtain ⟨-, rfl⟩ := List.cons.inj only
        exact List.forall_mem_cons.mpr ⟨made, ih later⟩
  · intro each
    induction xs with
    | nil => rfl
    | cons x xs ih =>
      obtain ⟨first, later⟩ := List.forall_mem_cons.mp each
      rw [List.flatMap_cons, first, ih later, List.singleton_append]

variable {w : Window ℝ} {l q : Polyline ℝ}

/-! ### The pieces of a polyline -/

/-- The vertices of a piece are apart if nothing is joined. -/
theorem apart_of_mem_split (hq : q ∈ w.split l) (plain : q.fill = false) :
    Apart w.eps q.vertices := by
  refine spaced_of_mem_split (fun joins => ?_) hq
  rw [fill_of_mem_split hq, joins.fill] at plain
  cases plain

/-- Vertices that are inside and apart make a polyline steady. -/
theorem Steady.of_contains (long : q.rest ≠ []) (apart : Apart w.eps q.vertices)
    (inside : ∀ p ∈ q.vertices, w.contains p = true) : w.Steady q := by
  have ends {s : Point ℝ × Point ℝ} (hs : s ∈ q.segments) :
      w.contains s.1 = true ∧ w.contains s.2 = true := by
    obtain ⟨first, second⟩ := List.of_mem_zip hs
    exact ⟨inside _ first, inside _ (List.mem_cons_of_mem _ second)⟩
  refine ⟨long, apart, ⟨fun p hp => ?_, fun s hs => .inl ?_⟩, fun s hs => .inl ?_, ?_⟩
  · exact inside p (List.mem_cons_of_mem _ (List.dropLast_subset _ hp))
  · exact (ends (List.mem_of_getLast? hs)).2
  · exact (ends (List.mem_of_head? hs)).1
  · intro s only out
    rw [(ends (only ▸ List.mem_singleton_self s)).1] at out
    cases out

theorem long_of_mem_split (hq : q ∈ w.split l) : q.rest ≠ [] := by
  have two := two_le_length_of_mem_pieces (vertices_mem_pieces hq)
  rw [Polyline.vertices, List.length_cons] at two
  exact List.length_pos_iff.mp (by omega)

/-- Where the tolerance is the margin, no vertex of a piece is outside. -/
theorem IsProper.contains_of_mem_split (proper : w.IsProper) (slack : w.margin ≤ w.eps)
    (hq : q ∈ w.split l) : ∀ p ∈ q.vertices, w.contains p = true := by
  intro p hp
  obtain ⟨⟨x₀, x₁⟩, y₀, y₁⟩ := proper.mem_near_of_mem_split hq p hp
  simp only [contains, Bool.and_eq_true, decide_eq_true_eq]
  exact ⟨⟨by linarith, by linarith⟩, by linarith, by linarith⟩

theorem IsExact.apart_of_mem_split (exact : w.IsExact) (hq : q ∈ w.split l) :
    Apart w.eps q.vertices := by
  have distinct (r : List (Point ℝ)) (hr : r ∈ w.runs l) : Distinct r :=
    distinct_of_mem_runs exact l hr
  have piece := vertices_mem_pieces hq
  have chain : q.vertices.IsChain (· ≠ ·) := by
    rw [pieces] at piece
    split at piece
    · exact ((inked_rejoin exact distinct).2 _ piece).1
    · exact (distinct _ piece).1
  refine chain.imp fun a b ne => ?_
  rw [exact.eps, ← Bool.not_eq_true, closeTo_zero]
  exact ne

/-! ### Clipping twice -/

/-- **When clipping twice is clipping once.** The pieces of any polylines are clipped to
themselves, in order and with their vertices and fill flags, precisely if each of them is
steady. Pieces that lie inside are, the filled ones if their vertices are apart. So for
polylines that are not filled it is always so in a window of at most one unit each way, and
for all polylines in a window without tolerance. -/
theorem splitAll_splitAll_iff (proper : w.IsProper) (ls : List (Polyline ℝ)) :
    (w.splitAll (w.splitAll ls) = w.splitAll ls ↔ ∀ q ∈ w.splitAll ls, w.Steady q) ∧
      (∀ q ∈ w.splitAll ls, (∀ p ∈ q.vertices, w.contains p = true) →
        (q.fill = true → Apart w.eps q.vertices) → w.Steady q) ∧
      (w.width ≤ 1 → w.height ≤ 1 → (∀ l ∈ ls, l.fill = false) →
        w.splitAll (w.splitAll ls) = w.splitAll ls) ∧
      (w.eps = 0 → w.splitAll (w.splitAll ls) = w.splitAll ls) := by
  have settled : w.splitAll (w.splitAll ls) = w.splitAll ls ↔ ∀ q ∈ w.splitAll ls, w.Steady q := by
    rw [splitAll, flatMap_eq_self_iff fun q mem => (steady_of_mem_split mem).split_eq]
    exact forall₂_congr fun q _ => split_eq_singleton_iff
  have steady (q : Polyline ℝ) (hq : q ∈ w.splitAll ls)
      (inside : ∀ p ∈ q.vertices, w.contains p = true)
      (apart : q.fill = true → Apart w.eps q.vertices) : w.Steady q := by
    obtain ⟨l, -, hq⟩ := List.mem_flatMap.mp hq
    refine .of_contains (long_of_mem_split hq) ?_ inside
    cases plain : q.fill
    · exact apart_of_mem_split hq plain
    · exact apart plain
  refine ⟨settled, steady, fun narrow low plain => ?_, fun none => ?_⟩
  · have slack : w.margin ≤ w.eps := by
      rw [margin, max_eq_left (max_le narrow low), mul_one]
    refine settled.mpr fun q hq => ?_
    obtain ⟨l, hl, piece⟩ := List.mem_flatMap.mp hq
    refine steady q hq (proper.contains_of_mem_split slack piece) fun filled => ?_
    rw [fill_of_mem_split piece, plain l hl] at filled
    cases filled
  · have slack : w.margin ≤ w.eps := by rw [margin, none, zero_mul]
    refine settled.mpr fun q hq => ?_
    obtain ⟨l, -, piece⟩ := List.mem_flatMap.mp hq
    have exact : w.IsExact := ⟨none, proper.width, proper.height⟩
    exact steady q hq (proper.contains_of_mem_split slack piece)
      fun _ => exact.apart_of_mem_split piece

/-- A line across a window is clipped to what clipping keeps. -/
theorem splitAll_splitAll_across :
    let w : Window ℝ := ⟨10, 10, Scalar.epsilon⟩
    let across : List (Polyline ℝ) := [⟨⟨-5, 5⟩, [⟨15, 5⟩], false⟩]
    w.splitAll across = [⟨⟨0, 5⟩, [⟨10, 5⟩], false⟩] ∧
      w.splitAll (w.splitAll across) = w.splitAll across := by
  intro w across
  have proper : w.IsProper :=
    ⟨by norm_num [w, Exact.epsilon_eq], by norm_num [w], by norm_num [w]⟩
  have runs_eq : w.runs ⟨⟨-5, 5⟩, [⟨15, 5⟩], false⟩ = [[⟨0, 5⟩, ⟨10, 5⟩]] := by
    norm_num [w, Exact.epsilon_eq, runs, runsFrom, contains, crossings, boundary_eq,
      List.filterMap_cons, Crossing.ofSegments?, Crossing.ofLines?, Crossing.within, det,
      mk_add_mk, mk_sub_mk, scale_mk, Scalar.clampUnit, Scalar.larger, Scalar.smaller,
      List.mergeSort, List.merge, mergeNear_nil, mergeNear_cons, dropClose_cons, thin, closeTo]
  have once : w.splitAll across = [⟨⟨0, 5⟩, [⟨10, 5⟩], false⟩] := by
    change List.filterMap _ (w.runs ⟨⟨-5, 5⟩, [⟨15, 5⟩], false⟩) ++ [] = _
    rw [runs_eq]
    rfl
  obtain ⟨settled, steady, -⟩ := splitAll_splitAll_iff proper across
  refine ⟨once, settled.mpr fun q hq => steady q hq ?_ ?_⟩
  · rw [once] at hq
    rw [List.mem_singleton.mp hq]
    norm_num [w, contains, Polyline.vertices, Exact.epsilon_eq]
  · rw [once] at hq
    rw [List.mem_singleton.mp hq]
    intro filled
    cases filled

/-- An outline that leaves a window and comes back close to where it left, with its start
on the way, close to its end but not to its second vertex. Its two runs are joined without
the start, and the second vertex is then close to the one before. -/
theorem splitAll_spike_unsteady :
    let w : Window ℝ := ⟨10, 10, Scalar.epsilon⟩
    let spike : Polyline ℝ := ⟨⟨7 / 5 * Scalar.epsilon, 5⟩,
      [⟨0, 5⟩, ⟨0, 15⟩, ⟨Scalar.epsilon / 2, 15⟩, ⟨Scalar.epsilon / 2, 5⟩], true⟩
    w.splitAll [spike] = [⟨⟨Scalar.epsilon / 2, 10⟩,
        [⟨Scalar.epsilon / 2, 5⟩, ⟨0, 5⟩, ⟨0, 10⟩], true⟩] ∧
      w.splitAll (w.splitAll [spike]) ≠ w.splitAll [spike] := by
  intro w spike
  have runs_eq : w.runs spike = [[⟨7 / 5 * Scalar.epsilon, 5⟩, ⟨0, 5⟩, ⟨0, 10⟩],
      [⟨Scalar.epsilon / 2, 10⟩, ⟨Scalar.epsilon / 2, 5⟩]] := by
    norm_num [w, spike, Exact.epsilon_eq, runs, runsFrom, contains, crossings, boundary_eq,
      List.filterMap_cons, Crossing.ofSegments?, Crossing.ofLines?, Crossing.within, det,
      mk_add_mk, mk_sub_mk, scale_mk, Scalar.clampUnit, Scalar.larger, Scalar.smaller,
      List.mergeSort, List.merge, mergeNear_nil, mergeNear_cons, dropClose_cons, thin, closeTo]
  have ends_in : (w.contains spike.start && w.contains spike.last) = true := by
    norm_num [w, contains, spike, Polyline.last, Exact.epsilon_eq]
  have joined : w.pieces spike = [[⟨Scalar.epsilon / 2, 10⟩, ⟨Scalar.epsilon / 2, 5⟩, ⟨0, 5⟩,
      ⟨0, 10⟩]] := by
    have filled : (spike.fill && w.contains spike.start && w.contains spike.last) = true := by
      rw [Bool.and_assoc, ends_in]
      rfl
    rw [pieces, if_pos filled, runs_eq]
    norm_num [w, rejoin, closeTo, Exact.epsilon_eq]
  have once : w.splitAll [spike] = [⟨⟨Scalar.epsilon / 2, 10⟩,
      [⟨Scalar.epsilon / 2, 5⟩, ⟨0, 5⟩, ⟨0, 10⟩], true⟩] := by
    change List.filterMap _ (w.pieces spike) ++ [] = _
    rw [joined]
    rfl
  refine ⟨once, fun twice => ?_⟩
  rw [once] at twice
  have steady := split_eq_singleton_iff.mp ((List.append_nil _).symm.trans twice)
  have apart := (List.isChain_cons_cons.mp (List.isChain_cons_cons.mp steady.apart).2).1
  norm_num [w, closeTo, Exact.epsilon_eq] at apart

end BoardPlotter.Window
