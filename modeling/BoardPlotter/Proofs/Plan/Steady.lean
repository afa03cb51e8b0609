import BoardPlotter.Proofs.Plan.Stretch

/-!
# Polylines that clipping keeps

A polyline is walked as one run with all of its vertices if they are inside. An end may be
outside if the walk finds it again as the point where it enters or leaves
(`Window.walked_eq_iff`). With vertices that are apart, it is then kept as it is.

Conversely, the runs of a walk hold no more pairs of points than it has segments
(`Window.sum_runsFrom_le`), so a run that is the polyline is the only one. Runs that are
joined cannot give the polyline again: its vertices outside would have to be where they are
joined, but the first run begins at its start, and the last one ends at its end
(`Window.Detour.seam_inside`). So a polyline that is among its own pieces is kept
(`Window.split_eq_singleton_iff`).
-/

namespace BoardPlotter.Window

open Point

/-! ### Thinned lists -/

variable {eps : ℝ}

/-- Points next to each other are apart. -/
def Apart (eps : ℝ) (ps : List (Point ℝ)) : Prop := ps.IsChain fun p q => p.closeTo q eps = false

theorem dropClose_apart (ps : List (Point ℝ)) : Apart eps (dropClose eps ps) :=
  dropClose_spaced eps ps

theorem dropClose_of_apart {ps : List (Point ℝ)} (apart : Apart eps ps) :
    dropClose eps ps = ps := by
  cases ps with
  | nil => rfl
  | cons p ps =>
    rw [dropClose_cons]
    induction ps generalizing p with
    | nil => rfl
    | cons q ps ih =>
      obtain ⟨now, later⟩ := List.isChain_cons_cons.mp apart
      rw [thin, if_neg (by simp [now])]
      exact congrArg (p :: ·) (ih q later)

/-! ### Walks -/

/-- Of positive numbers, one that is not less than the sum is all of them. -/
theorem eq_singleton_of_sum_le {β : Type} {f : β → ℕ} {xs : List β} {x : β} (mem : x ∈ xs)
    (positive : ∀ y ∈ xs, 0 < f y) (all : (xs.map f).sum ≤ f x) : xs = [x] := by
  obtain ⟨before, after, rfl⟩ := List.append_of_mem mem
  have none_left (ys : List β) (hys : ∀ y ∈ ys, 0 < f y) (zero : (ys.map f).sum = 0) : ys = [] := by
    cases ys with
    | nil => rfl
    | cons y ys =>
      have := hys y List.mem_cons_self
      rw [List.map_cons, List.sum_cons] at zero
      omega
  rw [List.map_append, List.map_cons, List.sum_append, List.sum_cons] at all
  rw [none_left before (fun y hy => positive y (by simp [hy])) (by omega),
    none_left after (fun y hy => positive y (by simp [hy])) (by omega), List.nil_append]

variable {w : Window ℝ} {a : Point ℝ} {run : List (Point ℝ)}

theorem chord_eq (w : Window ℝ) (a b : Point ℝ) :
    w.chord a b = [] ∨ ∃ p q, w.chord a b = [[p, q]] := by
  rw [chord]
  rcases w.crossings a b with _ | ⟨_, _ | ⟨_, _⟩⟩
  · exact .inl rfl
  · exact .inl rfl
  · exact .inr ⟨_, _, rfl⟩

/-- **The runs of a walk hold no more pairs of points than it has segments.** -/
theorem sum_runsFrom_le (run rest : List (Point ℝ)) (started : w.contains a = true → run ≠ []) :
    ((w.runsFrom a run rest).map (·.length - 1)).sum ≤ run.length - 1 + rest.length := by
  induction rest generalizing a run with
  | nil =>
    rw [runsFrom]
    cases w.contains a <;> simp
  | cons b rest ih =>
    rw [runsFrom_cons, step, List.map_append, List.sum_append]
    cases ha : w.contains a <;> cases hb : w.contains b
    · have later := ih (a := b) [] (by simp [hb])
      have passed : ((w.chord a b).map (·.length - 1)).sum ≤ 1 := by
        rcases w.chord_eq a b with none | ⟨p, q, one⟩
        · simp [none]
        · simp [one]
      simp only [List.length_nil, List.length_cons] at later ⊢
      omega
    · have later := ih (a := b) [b, w.entry a b] (by simp)
      simp only [List.map_nil, List.sum_nil, List.length_cons, List.length_nil] at later ⊢
      omega
    · have later := ih (a := b) [] (by simp [hb])
      have positive := List.length_pos_iff.mpr (started ha)
      simp only [List.map_cons, List.map_nil, List.sum_cons, List.sum_nil, List.length_reverse,
        List.length_nil, List.length_cons] at later ⊢
      omega
    · have later := ih (a := b) (b :: run) (by simp)
      have positive := List.length_pos_iff.mpr (started ha)
      simp only [List.map_nil, List.sum_nil, List.length_cons] at later ⊢
      omega

/-- No run of a walk with a segment is a single point. -/
theorem two_le_length_runsFrom (run rest : List (Point ℝ)) (started : w.contains a = true → run ≠ [])
    (long : w.contains a = true → 2 ≤ run.length + rest.length) :
    ∀ r ∈ w.runsFrom a run rest, 2 ≤ r.length := by
  induction rest generalizing a run with
  | nil =>
    rw [runsFrom]
    cases ha : w.contains a
    · simp
    · simpa using long ha
  | cons b rest ih =>
    rw [runsFrom_cons, step, List.forall_mem_append]
    cases ha : w.contains a <;> cases hb : w.contains b
    · refine ⟨?_, ih [] (by simp [hb]) (by simp [hb])⟩
      rcases w.chord_eq a b with none | ⟨p, q, one⟩
      · simp [none]
      · simp [one]
    · exact ⟨by simp, ih [b, w.entry a b] (by simp) (by simp)⟩
    · have positive := List.length_pos_iff.mpr (started ha)
      exact ⟨by simp; omega, ih [] (by simp [hb]) (by simp [hb])⟩
    · have positive := List.length_pos_iff.mpr (started ha)
      exact ⟨by simp, ih (b :: run) (by simp) (by simp; omega)⟩

theorem sum_walked_le (w : Window ℝ) (l : Polyline ℝ) :
    ((w.walked l).map (·.length - 1)).sum ≤ l.rest.length := by
  have counted := sum_runsFrom_le (w := w) (a := l.start) [l.start] l.rest (by simp)
  rwa [List.length_singleton, Nat.sub_self, Nat.zero_add] at counted

/-- A run that is not shorter than the way is all of the walk. -/
theorem walked_eq_singleton {l : Polyline ℝ} (long : l.rest ≠ []) {r : List (Point ℝ)}
    (hr : r ∈ w.walked l) (whole : l.size ≤ r.length) : w.walked l = [r] := by
  have positive := List.length_pos_iff.mpr long
  have each := two_le_length_runsFrom (w := w) (a := l.start) [l.start] l.rest (by simp)
    (by simp; omega)
  refine eq_singleton_of_sum_le (f := (·.length - 1)) hr (fun r hr => ?_) ?_
  · have := each r hr
    omega
  · rw [Polyline.size] at whole
    exact (w.sum_walked_le l).trans (by omega)

/-! ### Walks of one run -/

/-- Behind `a` all vertices are inside, but the last one need not be if it is where the
way there leaves. -/
def StaysFrom (w : Window ℝ) (a : Point ℝ) (rest : List (Point ℝ)) : Prop :=
  (∀ p ∈ rest.dropLast, w.contains p = true) ∧
    ∀ s ∈ ((a :: rest).zip rest).getLast?, w.contains s.2 = true ∨ w.exit s.1 s.2 = s.2

theorem staysFrom_nil (w : Window ℝ) (a : Point ℝ) : w.StaysFrom a [] := ⟨by simp, by simp⟩

theorem staysFrom_cons {b : Point ℝ} (hb : w.contains b = true) {rest : List (Point ℝ)} :
    w.StaysFrom a (b :: rest) ↔ w.StaysFrom b rest := by
  cases rest with
  | nil => simp [StaysFrom, hb]
  | cons c rest =>
    rw [StaysFrom, StaysFrom, List.dropLast_cons_cons, List.forall_mem_cons, List.zip_cons_cons,
      List.zip_cons_cons, List.getLast?_cons_cons, hb]
    simp only [true_and]

theorem staysFrom_cons_outside {b : Point ℝ} (hb : w.contains b = false)
    {rest : List (Point ℝ)} : w.StaysFrom a (b :: rest) ↔ rest = [] ∧ w.exit a b = b := by
  cases rest with
  | nil => simp [StaysFrom, hb]
  | cons c rest => simp [StaysFrom, hb]

/-- The run up to `a` begins the first run of a walk from inside. -/
theorem runsFrom_starts (run rest : List (Point ℝ)) (ha : w.contains a = true) :
    ∃ tail more, w.runsFrom a run rest = (run.reverse ++ tail) :: more := by
  induction rest generalizing a run with
  | nil => exact ⟨[], [], by rw [runsFrom, if_pos ha, List.append_nil]⟩
  | cons b rest ih =>
    rw [runsFrom_cons, step, ha]
    cases hb : w.contains b
    · exact ⟨[w.exit a b], w.runsFrom b [] rest, by simp⟩
    · obtain ⟨tail, more, starts⟩ := ih (b :: run) hb
      exact ⟨b :: tail, more, by simp [starts]⟩

/-- **From inside, a way is one run with its vertices precisely if it stays inside up to
its end.** -/
theorem runsFrom_eq_singleton_iff (run rest : List (Point ℝ)) (ha : w.contains a = true) :
    w.runsFrom a run rest = [run.reverse ++ rest] ↔ w.StaysFrom a rest := by
  induction rest generalizing a run with
  | nil => simp [runsFrom, ha, staysFrom_nil]
  | cons b rest ih =>
    rw [runsFrom_cons, step, ha]
    cases hb : w.contains b
    · rw [staysFrom_cons_outside hb, List.singleton_append, List.cons_eq_cons, List.reverse_cons,
        List.append_cancel_left_eq, List.cons_eq_cons]
      constructor
      · rintro ⟨⟨at_exit, last⟩, -⟩
        exact ⟨last.symm, at_exit⟩
      · rintro ⟨rfl, at_exit⟩
        exact ⟨⟨at_exit, rfl⟩, by rw [runsFrom, hb]; rfl⟩
    · have onward := ih (b :: run) hb
      rw [List.reverse_cons, List.append_assoc, List.singleton_append] at onward
      rw [List.nil_append, onward, staysFrom_cons hb]

/-- A chord that is its own segment. -/
theorem chord_eq_singleton_iff {b : Point ℝ} : w.chord a b = [[a, b]] ↔
    2 ≤ (w.crossings a b).length ∧ w.entry a b = a ∧ w.exit a b = b := by
  rw [chord, entry, exit]
  rcases w.crossings a b with _ | ⟨first, _ | ⟨second, more⟩⟩
  · simp
  · simp
  · simp [List.getLast?_cons]

/-- A polyline that clipping does not change. Its vertices are apart and inside, but an
end may be outside if the walk finds it again as the point where it enters or leaves. -/
structure Steady (w : Window ℝ) (l : Polyline ℝ) : Prop where
  long : l.rest ≠ []
  apart : Apart w.eps l.vertices
  stays : w.StaysFrom l.start l.rest
  enters : ∀ s ∈ l.segments.head?, w.contains s.1 = true ∨ w.entry s.1 s.2 = s.1
  through : ∀ s, l.segments = [s] → w.contains s.1 = false → w.contains s.2 = false →
    2 ≤ (w.crossings s.1 s.2).length

/-- From outside, a way is one run with its vertices if it enters at its start and stays
inside, or is a single chord. -/
theorem runsFrom_eq_singleton_outside_iff (ha : w.contains a = false) (b : Point ℝ)
    (rest : List (Point ℝ)) : w.runsFrom a run (b :: rest) = [a :: b :: rest] ↔
      w.entry a b = a ∧ w.StaysFrom a (b :: rest) ∧
        (rest = [] → w.contains b = false → 2 ≤ (w.crossings a b).length) := by
  rw [runsFrom_cons, step, ha]
  cases hb : w.contains b
  · rw [staysFrom_cons_outside hb]
    constructor
    · intro one
      have counted := sum_runsFrom_le (w := w) (a := b) [] rest (by simp [hb])
      rcases w.chord_eq a b with none | ⟨p, q, chord⟩
      · rw [none, List.nil_append] at one
        simp [one] at counted
      · rw [chord, List.singleton_append, List.cons_eq_cons] at one
        obtain ⟨rfl, rfl, rfl⟩ : p = a ∧ q = b ∧ [] = rest := by simpa using one.1
        obtain ⟨crossed, into, out⟩ := chord_eq_singleton_iff.mp chord
        exact ⟨into, ⟨rfl, out⟩, fun _ _ => crossed⟩
    · rintro ⟨into, ⟨rfl, out⟩, crossed⟩
      rw [chord_eq_singleton_iff.mpr ⟨crossed rfl rfl, into, out⟩, runsFrom, hb]
      rfl
  · have onward := runsFrom_eq_singleton_iff [b, w.entry a b] rest hb
    rw [staysFrom_cons hb, List.nil_append]
    constructor
    · intro one
      obtain ⟨tail, more, starts⟩ := runsFrom_starts [b, w.entry a b] rest hb
      obtain ⟨into, -⟩ : w.entry a b = a ∧ b :: tail = b :: rest := by
        simpa using (List.cons.inj (starts.symm.trans one)).1
      refine ⟨into, onward.mp ?_, by simp⟩
      rw [one, into]
      rfl
    · rintro ⟨into, stays, -⟩
      rw [onward.mpr stays, into]
      rfl

/-- **A polyline of two vertices at least is walked as it is precisely if its inner
vertices are inside and its ends stay where they are.** -/
theorem walked_eq_iff {l : Polyline ℝ} (long : l.rest ≠ []) : w.walked l = [l.vertices] ↔
    w.StaysFrom l.start l.rest ∧
      (∀ s ∈ l.segments.head?, w.contains s.1 = true ∨ w.entry s.1 s.2 = s.1) ∧
      ∀ s, l.segments = [s] → w.contains s.1 = false → w.contains s.2 = false →
        2 ≤ (w.crossings s.1 s.2).length := by
  obtain ⟨a, _ | ⟨b, rest⟩, fill⟩ := l
  · exact absurd rfl long
  change w.runsFrom a [a] (b :: rest) = [a :: b :: rest] ↔ w.StaysFrom a (b :: rest) ∧
    (∀ s ∈ some (a, b), w.contains s.1 = true ∨ w.entry s.1 s.2 = s.1) ∧
    ∀ s, (a, b) :: (b :: rest).zip rest = [s] → w.contains s.1 = false → w.contains s.2 = false →
      2 ≤ (w.crossings s.1 s.2).length
  cases ha : w.contains a
  · rw [runsFrom_eq_singleton_outside_iff ha]
    cases rest with
    | nil => simp [ha, and_left_comm]
    | cons c rest => simp [ha, and_comm]
  · have inside := runsFrom_eq_singleton_iff [a] (b :: rest) ha
    rw [List.reverse_singleton, List.singleton_append] at inside
    rw [inside]
    simp +contextual [ha]

/-! ### Pieces -/

/-- Between the ends of a run all is inside. -/
def Inner (w : Window ℝ) (r : List (Point ℝ)) : Prop :=
  ∀ p ∈ r.tail.dropLast, w.contains p = true

theorem inner_runsFrom (rest : List (Point ℝ))
    (so_far : w.contains a = true → ∀ p ∈ run.dropLast, w.contains p = true) :
    ∀ r ∈ w.runsFrom a run rest, w.Inner r := by
  induction rest generalizing a run with
  | nil =>
    rw [runsFrom]
    cases ha : w.contains a
    · simp
    · intro r hr p hp
      obtain rfl := List.mem_singleton.mp hr
      rw [List.tail_reverse] at hp
      exact so_far ha p (List.mem_reverse.mp (List.dropLast_subset _ hp))
  | cons b rest ih =>
    rw [runsFrom_cons, step, List.forall_mem_append]
    cases ha : w.contains a <;> cases hb : w.contains b
    · refine ⟨?_, ih (by simp [hb])⟩
      rcases w.chord_eq a b with none | ⟨p, q, one⟩
      · simp [none]
      · simp [one, Inner]
    · exact ⟨by simp, ih (by simp [hb])⟩
    · refine ⟨fun r hr p hp => ?_, ih (by simp [hb])⟩
      rw [List.mem_singleton.mp hr, List.tail_reverse, List.dropLast_reverse, List.mem_reverse,
        List.tail_dropLast, List.tail_cons] at hp
      exact so_far ha p hp
    · refine ⟨by simp, ih fun _ p hp => ?_⟩
      cases run with
      | nil => simp at hp
      | cons q run =>
        rw [List.dropLast_cons_cons] at hp
        rcases List.mem_cons.mp hp with rfl | hp
        · exact hb
        · exact so_far ha p hp

theorem Inner.thinned {r : List (Point ℝ)} (inner : w.Inner r) (eps : ℝ) :
    w.Inner (dropClose eps r) := by
  have ends := (List.reverse_sublist.mpr (dropClose_sublist eps r).tail).tail
  rw [List.tail_reverse, List.tail_reverse, List.reverse_sublist] at ends
  exact fun p hp => inner p (ends.subset hp)

variable {l : Polyline ℝ}

/-- A run with as many points as the polyline is the polyline. -/
theorem steady_of_mem_runs (mem : l.vertices ∈ w.runs l) : w.Steady l := by
  obtain ⟨walk, hwalk, thinned, two⟩ := mem_runs_iff.mp mem
  have long : l.rest ≠ [] := by
    intro single
    rw [Polyline.vertices, single] at two
    simp at two
  have kept := thinned ▸ dropClose_sublist w.eps walk
  have only := walked_eq_singleton long hwalk kept.length_le
  have counted := w.sum_walked_le l
  rw [only, List.map_singleton, List.sum_singleton] at counted
  have whole : l.vertices = walk := kept.eq_of_length_le (by
    rw [Polyline.vertices, List.length_cons]
    omega)
  rw [← whole] at only
  obtain ⟨stays, enters, through⟩ := (walked_eq_iff long).mp only
  exact ⟨long, thinned ▸ dropClose_apart walk, stays, enters, through⟩

/-- A way from inside is a run up to the first vertex outside. -/
theorem runsFrom_leaving {b : Point ℝ} (hb : w.contains b = false) (run rest : List (Point ℝ))
    (ha : w.contains a = true) (cs : List (Point ℝ)) (inside : ∀ p ∈ cs, w.contains p = true) :
    ∃ e, w.runsFrom a run (cs ++ b :: rest) =
      (run.reverse ++ cs ++ [e]) :: w.runsFrom b [] rest := by
  induction cs generalizing a run with
  | nil => exact ⟨w.exit a b, by rw [List.nil_append, runsFrom_cons, step, ha, hb]; simp⟩
  | cons c cs ih =>
    obtain ⟨hc, later⟩ := List.forall_mem_cons.mp inside
    obtain ⟨e, leaves⟩ := ih (c :: run) hc later
    exact ⟨e, by rw [List.cons_append, runsFrom_cons, step, ha, hc, leaves]; simp⟩

/-- A way that enters and stays is one run. -/
theorem runsFrom_entering (ha : w.contains a = false) {b : Point ℝ} {cs : List (Point ℝ)}
    (inside : ∀ p ∈ b :: cs, w.contains p = true) :
    w.runsFrom a run (b :: cs) = [w.entry a b :: b :: cs] := by
  rw [runsFrom_cons, step, ha, inside b List.mem_cons_self, runsFrom_of_contains cs _ inside]
  rfl

/-- A polyline from inside to inside that goes outside once, for a vertex or two. -/
structure Detour (w : Window ℝ) (l : Polyline ℝ) (before out after : List (Point ℝ)) : Prop where
  way : l.vertices = before ++ out ++ after
  from_in : before ≠ [] ∧ ∀ p ∈ before, w.contains p = true
  outside : ∀ p ∈ out, w.contains p = false
  few : out.length = 1 ∨ out.length = 2
  to_in : after ≠ [] ∧ ∀ p ∈ after, w.contains p = true

/-- Its walk is a run up to there, a run from there on and, for two vertices, at most one
between them. -/
theorem Detour.walked_eq {before out after : List (Point ℝ)}
    (detour : w.Detour l before out after) :
    ∃ e c d, w.walked l = (before ++ [e]) :: (c ++ [d :: after]) ∧ c.length + 1 ≤ out.length := by
  obtain ⟨way, ⟨begins, first_in⟩, outside, few, ⟨goes_on, last_in⟩⟩ := detour
  obtain ⟨a, before, rfl⟩ := List.exists_cons_of_ne_nil begins
  obtain ⟨b, after, rfl⟩ := List.exists_cons_of_ne_nil goes_on
  obtain ⟨ha, first_in⟩ := List.forall_mem_cons.mp first_in
  rw [List.append_assoc, List.cons_append] at way
  obtain ⟨start, rest⟩ := List.cons.inj way
  rw [walked, start, rest]
  rcases out with _ | ⟨p, _ | ⟨q, _ | ⟨r, out⟩⟩⟩
  · simp at few
  · have hp := outside p List.mem_cons_self
    obtain ⟨e, leaves⟩ := runsFrom_leaving hp [a] (b :: after) ha before first_in
    refine ⟨e, [], w.entry p b, ?_, by simp⟩
    rw [List.singleton_append, leaves, runsFrom_entering hp last_in]
    simp
  · have hp := outside p List.mem_cons_self
    have hq := outside q (by simp)
    obtain ⟨e, leaves⟩ := runsFrom_leaving hp [a] (q :: b :: after) ha before first_in
    refine ⟨e, w.chord p q, w.entry q b, ?_, ?_⟩
    · rw [List.cons_append, List.singleton_append, leaves, runsFrom_cons, step, hp, hq,
        runsFrom_entering hq last_in]
      simp
    · rcases w.chord_eq p q with none | ⟨_, _, one⟩
      · simp [none]
      · simp [one]
  · simp at few

/-- The runs that thinning leaves two points of. -/
noncomputable def kept (w : Window ℝ) (rs : List (List (Point ℝ))) : List (List (Point ℝ)) :=
  (rs.map (dropClose w.eps)).filter fun run => 2 ≤ run.length

theorem kept_append (w : Window ℝ) (rs ss : List (List (Point ℝ))) :
    w.kept (rs ++ ss) = w.kept rs ++ w.kept ss := by
  rw [kept, List.map_append, List.filter_append]
  rfl

theorem kept_singleton (w : Window ℝ) (r : List (Point ℝ)) :
    w.kept [r] = [] ∨ w.kept [r] = [dropClose w.eps r] := by
  rw [kept, List.map_singleton, List.filter_singleton]
  cases decide (2 ≤ (dropClose w.eps r).length)
  · exact .inl rfl
  · exact .inr rfl

theorem length_kept_le (w : Window ℝ) (rs : List (List (Point ℝ))) :
    (w.kept rs).length ≤ rs.length := by
  rw [kept]
  exact (List.length_filter_le _ _).trans_eq (List.length_map _)

/-- Of runs with at most one between the first and the last, two that are left are the
first or the last, and both if there is none between. -/
theorem ends_of_kept {r₁ r₂ first last : List (Point ℝ)} {c mid : List (List (Point ℝ))}
    (left : w.kept (r₁ :: (c ++ [r₂])) = first :: (mid ++ [last])) (few : c.length ≤ 1) :
    (first = dropClose w.eps r₁ ∨ last = dropClose w.eps r₂) ∧
      (c = [] → first = dropClose w.eps r₁ ∧ last = dropClose w.eps r₂) := by
  rw [← List.singleton_append, kept_append, kept_append] at left
  have counted := congrArg List.length left
  have between := w.length_kept_le c
  have is_last (rs : List (List (Point ℝ))) {r : List (Point ℝ)}
      (ends : rs ++ [r] = first :: (mid ++ [last])) : last = r := by
    rw [← List.cons_append] at ends
    exact (List.cons.inj (List.append_inj_right' ends rfl)).1.symm
  rcases w.kept_singleton r₁ with h₁ | h₁ <;> rcases w.kept_singleton r₂ with h₂ | h₂ <;>
    rw [h₁, h₂] at left counted <;> simp only [List.length_append, List.length_cons,
      List.length_nil] at counted
  · omega
  · refine ⟨.inr (is_last _ left), ?_⟩
    rintro rfl
    rw [List.length_nil] at between
    omega
  · refine ⟨.inl (List.cons.inj left).1.symm, ?_⟩
    rintro rfl
    rw [List.length_nil] at between
    omega
  · have front := (List.cons.inj left).1.symm
    have back := is_last ([dropClose w.eps r₁] ++ w.kept c) (by simpa using left)
    exact ⟨.inl front, fun _ => ⟨front, back⟩⟩

/-- If several runs are left of it, the first begins inside or the last ends inside; with
one vertex outside both. -/
theorem Detour.seam_inside {before out after ls fs : List (Point ℝ)} {p f : Point ℝ}
    {mid : List (List (Point ℝ))} (detour : w.Detour l before out after)
    (left : w.runs l = (f :: fs) :: (mid ++ [ls ++ [p]])) (several : ls ≠ []) :
    (w.contains f = true ∨ w.contains p = true) ∧
      (out.length = 1 → w.contains f = true ∧ w.contains p = true) := by
  obtain ⟨e, c, d, walks, between⟩ := detour.walked_eq
  have few := detour.few
  rw [show w.runs l = w.kept (w.walked l) from rfl, walks] at left
  obtain ⟨one, both⟩ := ends_of_kept left (by omega)
  have begins (front : f :: fs = dropClose w.eps (before ++ [e])) :
      w.contains f = true := by
    obtain ⟨a, before, rfl⟩ := List.exists_cons_of_ne_nil detour.from_in.1
    rw [List.cons_append, dropClose_cons] at front
    rw [(List.cons.inj front).1]
    exact detour.from_in.2 a List.mem_cons_self
  have ends (back : ls ++ [p] = dropClose w.eps (d :: after)) : w.contains p = true := by
    obtain ⟨x, ls, rfl⟩ := List.exists_cons_of_ne_nil several
    rw [dropClose_cons, List.cons_append] at back
    have mem : p ∈ thin id (fun p q => p.closeTo q w.eps = true) d after := by
      rw [← (List.cons.inj back).2]
      simp
    exact detour.to_in.2 p ((thin_sublist _ _ _ _).subset mem)
  refine ⟨one.imp begins ends, fun single => ?_⟩
  obtain ⟨front, back⟩ := both (List.length_eq_zero_iff.mp (by omega))
  exact ⟨begins front, ends back⟩

/-- A polyline of several runs has a vertex outside. -/
theorem exists_outside (several : 2 ≤ (w.runs l).length) :
    ∃ q ∈ l.vertices, w.contains q = false := by
  by_contra! stays
  have counted : (w.runs l).length ≤ (w.walked l).length := w.length_kept_le _
  rw [walked, runsFrom_of_contains l.rest [l.start] fun q hq =>
    Bool.eq_true_of_not_eq_false (stays q hq), List.length_singleton] at counted
  omega

/-- A polyline that is outside at most where its last run is joined to its first one does
not have several. -/
theorem not_joined {ls fs joint : List (Point ℝ)} {p f : Point ℝ} {mid : List (List (Point ℝ))}
    (left : w.runs l = (f :: fs) :: (mid ++ [ls ++ [p]]))
    (way : l.vertices = ls ++ joint ++ fs) (meet : joint = [p] ∨ joint = [p, f])
    (from_in : ls ≠ [] ∧ ∀ q ∈ ls, w.contains q = true)
    (to_in : fs ≠ [] ∧ ∀ q ∈ fs, w.contains q = true) : False := by
  have leaves : ∃ q ∈ joint, w.contains q = false := by
    obtain ⟨q, hq, out⟩ := exists_outside (w := w) (l := l) (by simp [left])
    rw [way, List.mem_append, List.mem_append] at hq
    rcases hq with (hq | hq) | hq
    · simp [from_in.2 q hq] at out
    · exact ⟨q, hq, out⟩
    · simp [to_in.2 q hq] at out
  rcases meet with rfl | rfl
  · obtain ⟨q, hq, hp⟩ := leaves
    obtain rfl := List.mem_singleton.mp hq
    have detour : w.Detour l ls [q] fs := ⟨way, from_in, by simpa using hp, .inl rfl, to_in⟩
    have ends := (detour.seam_inside left from_in.1).2 rfl
    simp [hp] at ends
  · cases hp : w.contains p <;> cases hf : w.contains f
    · have detour : w.Detour l ls [p, f] fs :=
        ⟨way, from_in, by simp [hp, hf], .inr rfl, to_in⟩
      have ends := (detour.seam_inside left from_in.1).1
      simp [hp, hf] at ends
    · have detour : w.Detour l ls [p] (f :: fs) := ⟨by simp [way], from_in, by simpa using hp,
        .inl rfl, List.cons_ne_nil f fs, List.forall_mem_cons.mpr ⟨hf, to_in.2⟩⟩
      have ends := (detour.seam_inside left from_in.1).2 rfl
      simp [hp] at ends
    · have detour : w.Detour l (ls ++ [p]) [f] fs := ⟨by simp [way], ⟨by simp,
        List.forall_mem_append.mpr ⟨from_in.2, List.forall_mem_singleton.mpr hp⟩⟩,
        by simpa using hf, .inl rfl, to_in⟩
      have ends := (detour.seam_inside left from_in.1).2 rfl
      simp [hf] at ends
    · simp [hp, hf] at leaves

/-- A run has two ends, and between them all is inside. -/
theorem exists_ends_of_mem_runs {r : List (Point ℝ)} (hr : r ∈ w.runs l) :
    ∃ x inner y, r = x :: (inner ++ [y]) ∧ ∀ p ∈ inner, w.contains p = true := by
  obtain ⟨walk, hwalk, rfl, two⟩ := mem_runs_iff.mp hr
  have inside := (inner_runsFrom l.rest (by simp) walk hwalk).thinned w.eps
  rcases thinned : dropClose w.eps walk with _ | ⟨x, r⟩
  · simp [thinned] at two
  rcases List.eq_nil_or_concat r with rfl | ⟨inner, y, rfl⟩
  · simp [thinned] at two
  rw [List.concat_eq_append] at thinned ⊢
  refine ⟨x, inner, y, rfl, fun p hp => inside p ?_⟩
  rw [thinned, List.tail_cons, List.dropLast_concat]
  exact hp

/-- **A polyline that is made by joining its runs has only one.** -/
theorem mem_runs_of_mem_rejoin (start_in : w.contains l.start = true)
    (last_in : w.contains l.last = true) (mem : l.vertices ∈ w.rejoin (w.runs l)) :
    l.vertices ∈ w.runs l := by
  rcases runs_eq : w.runs l with _ | ⟨first, others⟩
  · rwa [runs_eq] at mem
  rcases List.eq_nil_or_concat others with rfl | ⟨mid, last, rfl⟩
  · rwa [runs_eq] at mem
  rw [List.concat_eq_append] at runs_eq ⊢
  obtain ⟨f, fs, z, rfl, fs_in⟩ :=
    exists_ends_of_mem_runs (w := w) (l := l) (r := first) (by simp [runs_eq])
  obtain ⟨s, ls, p, rfl, ls_in⟩ :=
    exists_ends_of_mem_runs (w := w) (l := l) (r := last) (by simp [runs_eq])
  change w.runs l = (f :: (fs ++ [z])) :: (mid ++ [(s :: ls) ++ [p]]) at runs_eq
  rw [runs_eq, rejoin_concat] at mem
  rcases List.mem_cons.mp mem with way | mem
  · exfalso
    obtain ⟨joint, way, meet⟩ : ∃ joint, l.vertices = (s :: ls) ++ joint ++ (fs ++ [z]) ∧
        (joint = [p] ∨ joint = [p, f]) := by
      split at way
      · exact ⟨[p], way, .inl rfl⟩
      · exact ⟨[p, f], by simpa using way, .inr rfl⟩
    -- The joined run starts and ends as the polyline does.
    have start_eq : l.start = s := (List.cons.inj way).1
    have last_eq : l.last = z := by
      have ends : l.vertices.getLast? = some l.last := List.getLast?_cons
      rw [way, ← List.append_assoc, List.getLast?_concat] at ends
      exact (Option.some.inj ends).symm
    refine not_joined runs_eq way meet ⟨by simp, ?_⟩ ⟨by simp, ?_⟩
    · exact List.forall_mem_cons.mpr ⟨start_eq ▸ start_in, ls_in⟩
    · exact List.forall_mem_append.mpr
        ⟨fs_in, List.forall_mem_singleton.mpr (last_eq ▸ last_in)⟩
  · simp [mem]

theorem Steady.split_eq (steady : w.Steady l) : w.split l = [l] := by
  have only := (walked_eq_iff steady.long).mpr ⟨steady.stays, steady.enters, steady.through⟩
  have two : 2 ≤ l.vertices.length := by
    have := List.length_pos_iff.mpr steady.long
    rw [Polyline.vertices, List.length_cons]
    omega
  have runs_eq : w.runs l = [l.vertices] := by
    change ((w.walked l).map (dropClose w.eps)).filter _ = _
    rw [only, List.map_singleton, dropClose_of_apart steady.apart, List.filter_singleton,
      decide_eq_true two, cond_true]
  have pieces_eq : w.pieces l = [l.vertices] := by
    rw [pieces, rejoin_runs_of_walked only, ite_self, runs_eq]
  rw [split, pieces_eq]
  rfl

/-- A polyline that is among its own pieces does not change. -/
theorem steady_of_mem_split (mem : l ∈ w.split l) : w.Steady l := by
  have piece := vertices_mem_pieces mem
  rw [pieces] at piece
  split at piece
  · rename_i inside
    rw [Bool.and_eq_true, Bool.and_eq_true] at inside
    exact steady_of_mem_runs (mem_runs_of_mem_rejoin inside.1.2 inside.2 piece)
  · exact steady_of_mem_runs piece

/-- **Clipping keeps a polyline precisely if it is steady.** -/
theorem split_eq_singleton_iff : w.split l = [l] ↔ w.Steady l :=
  ⟨fun same => steady_of_mem_split (by rw [same]; exact List.mem_singleton_self l),
    Steady.split_eq⟩

end BoardPlotter.Window
