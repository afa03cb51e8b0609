import Mathlib.Data.Finset.Card
import Mathlib.Data.List.Induction
import BoardPlotter.Proofs.Plan.Sweep

/-!
# Hatching under the even-odd rule

The passes of a line cover what the even-odd rule calls inside, and nothing else:
its crossings are even in number, and taking them in pairs puts a point into a pass
if an odd number of them is behind it (`Hatch.pairs_covers`). On a line that is run
backwards the crossings behind a point are those before it on the others, and as
all together are even in number, the one count is odd when the other is
(`Hatch.LineExact`).

`HatchPlan.ofPolyline_lineExact` says so of every line of the plan of an outline.
-/

namespace BoardPlotter

open Point

/-! ### The sides of an outline -/

theorem legs_concat (p : Point ℝ) (ps : List (Point ℝ)) (z : Point ℝ) :
    legs (p :: ps ++ [z]) = (p :: ps).zip ps ++ [(ps.getLast?.getD p, z)] := by
  induction ps generalizing p with
  | nil => rfl
  | cons q ps ih =>
    rw [List.cons_append, List.cons_append, legs_cons_cons, ← List.cons_append, ih q,
      List.zip_cons_cons, List.getLast?_cons, Option.getD_some, List.cons_append]

/-- The sides of a polyline are its segments and the line back to its start. -/
theorem Polyline.sides_vertices (l : Polyline ℝ) :
    sides l.vertices = l.segments ++ [(l.last, l.start)] :=
  legs_concat l.start l.rest l.start

/-- A side from a point to itself is not across any line. -/
theorem Axes.crossings_append_self (axes : Axes ℝ) (h : ℝ) (ss : List (Point ℝ × Point ℝ))
    (p : Point ℝ) : axes.crossings h (ss ++ [(p, p)]) = axes.crossings h ss := by
  have none : ¬ axes.Spans h (p, p) := fun spans => spans.ne (sub_self _)
  rw [crossings, List.filter_append, List.filter_singleton, decide_eq_false none]
  simp [crossings]

/-- Closed or not, the edges taken are across the same lines as the sides. -/
theorem Polyline.crossings_edges (axes : Axes ℝ) (h : ℝ) {l : Polyline ℝ} {eps : ℝ}
    (closed : l.last = l.start ∨ l.isClosed eps = false) :
    axes.crossings h
        (if l.isClosed eps then l.segments else l.segments ++ [(l.last, l.start)]) =
      axes.crossings h (sides l.vertices) := by
  rw [l.sides_vertices]
  cases back : l.isClosed eps
  · rfl
  · have ends : l.last = l.start := closed.resolve_right (by simp [back])
    rw [ends, Axes.crossings_append_self]
    rfl

namespace Hatch

/-! ### Crossings in pairs -/

/-- **Sorted and even in number, the crossings taken in pairs cover what has an odd
number of them behind it.** -/
theorem pairs_covers (key : Point ℝ → ℝ) {cs : List (Point ℝ)}
    (sorted : cs.Pairwise fun p q => key p ≤ key q) (even : Even cs.length) {x : ℝ}
    (off : ∀ c ∈ cs, key c ≠ x) :
    (∃ pass ∈ pairs cs, key pass.entry < x ∧ x < key pass.exit) ↔
      Odd (cs.countP (key · < x)) := by
  induction cs using List.twoStepInduction with
  | nil => simp [pairs]
  | singleton p => simp at even
  | cons_cons p q rest ih _ =>
    obtain ⟨first, sorted⟩ := List.pairwise_cons.mp sorted
    obtain ⟨second, sorted⟩ := List.pairwise_cons.mp sorted
    have later := ih sorted (by simpa [Nat.even_add_one] using even)
      fun c hc => off c (by simp [hc])
    have hp : key p ≠ x := off p (by simp)
    have hq : key q ≠ x := off q (by simp)
    have none (ahead : x < key q) : rest.countP (key · < x) = 0 := by
      rw [List.countP_eq_zero]
      intro c hc
      simpa using (ahead.trans_le (second c hc)).le
    simp only [pairs, List.exists_mem_cons_iff, List.countP_cons, decide_eq_true_eq, later]
    rcases lt_or_gt_of_ne hq with before | ahead
    · have both := (first q (by simp)).trans_lt before
      simp [before, both, before.le, Nat.odd_add_one]
    · rw [none ahead]
      by_cases behind : key p < x <;> simp [behind, ahead, not_lt.mpr ahead.le]

theorem mem_of_mem_pairs {cs : List (Point ℝ)} {pass : Pass ℝ} (h : pass ∈ pairs cs) :
    pass.entry ∈ cs ∧ pass.exit ∈ cs := by
  induction cs using List.twoStepInduction with
  | nil | singleton p => exact absurd h List.not_mem_nil
  | cons_cons p q rest ih _ =>
    rcases List.mem_cons.mp h with rfl | h
    · simp
    · simp [ih h]

/-- Sorted crossings give passes that lead on, one behind the other. -/
theorem pairs_sorted (key : Point ℝ → ℝ) {cs : List (Point ℝ)}
    (sorted : cs.Pairwise fun p q => key p ≤ key q) :
    (∀ pass ∈ pairs cs, key pass.entry ≤ key pass.exit) ∧
      (pairs cs).Pairwise fun a b => key a.exit ≤ key b.entry := by
  induction cs using List.twoStepInduction with
  | nil | singleton p => simp [pairs]
  | cons_cons p q rest ih _ =>
    obtain ⟨first, sorted⟩ := List.pairwise_cons.mp sorted
    obtain ⟨second, sorted⟩ := List.pairwise_cons.mp sorted
    obtain ⟨leads, apart⟩ := ih sorted
    refine ⟨List.forall_mem_cons.mpr ⟨first q List.mem_cons_self, leads⟩,
      List.pairwise_cons.mpr ⟨fun pass later => second _ (mem_of_mem_pairs later).1, apart⟩⟩

/-- No crossing is within a pass, between its ends. -/
theorem pairs_gap (key : Point ℝ → ℝ) {cs : List (Point ℝ)}
    (sorted : cs.Pairwise fun p q => key p ≤ key q) {pass : Pass ℝ} (hpass : pass ∈ pairs cs) :
    ∀ c ∈ cs, key c ≤ key pass.entry ∨ key pass.exit ≤ key c := by
  induction cs using List.twoStepInduction with
  | nil | singleton p => exact absurd hpass List.not_mem_nil
  | cons_cons p q rest ih _ =>
    obtain ⟨first, sorted⟩ := List.pairwise_cons.mp sorted
    obtain ⟨second, sorted⟩ := List.pairwise_cons.mp sorted
    rcases List.mem_cons.mp hpass with rfl | later
    · refine List.forall_mem_cons.mpr ⟨.inl le_rfl, List.forall_mem_cons.mpr ⟨.inr le_rfl, ?_⟩⟩
      exact fun c hc => .inr (second c hc)
    · have entry := (mem_of_mem_pairs later).1
      exact List.forall_mem_cons.mpr ⟨.inl (first _ (List.mem_cons_of_mem q entry)),
        List.forall_mem_cons.mpr ⟨.inl (second _ entry), ih sorted later⟩⟩

/-! ### One line -/

section Line

variable {axes : Axes ℝ} {h : ℝ} {backwards : Bool}

/-- Of crossings even in number, as many are behind a point on a line run backwards
as before it on one that is not, up to an even number. -/
theorem odd_countP_reach (backwards : Bool) {cs : List (Point ℝ)} (even : Even cs.length)
    {q : Point ℝ} (off : ∀ c ∈ cs, c.dot axes.along ≠ q.dot axes.along) :
    Odd (cs.countP fun c => reach axes backwards c < reach axes backwards q) ↔
      Odd (cs.countP fun c => c.dot axes.along < q.dot axes.along) := by
  cases backwards
  · rfl
  · have split : cs.length = (cs.countP fun c => c.dot axes.along < q.dot axes.along) +
        cs.countP fun c => reach axes true c < reach axes true q := by
      rw [List.length_eq_countP_add_countP fun c => decide (c.dot axes.along < q.dot axes.along)]
      congr 1
      apply List.countP_congr
      intro c hc
      have ahead := (off c hc).symm.le_iff_lt
      simp [reach, ahead]
    rw [split] at even
    simp only [← Nat.not_even_iff_odd, Nat.even_add.mp even]

/-- On one line, the points of a segment are those between its ends. -/
theorem mem_segment_iff (frame : axes.Orthonormal) {p q r : Point ℝ}
    (hp : p.dot axes.across = h) (hq : q.dot axes.across = h) (hr : r.dot axes.across = h)
    (le : reach axes backwards p ≤ reach axes backwards r) :
    q ∈ segment p r ↔
      reach axes backwards p ≤ reach axes backwards q ∧
        reach axes backwards q ≤ reach axes backwards r := by
  have between {p r : Point ℝ} (hp : p.dot axes.across = h) (hr : r.dot axes.across = h)
      (le : p.dot axes.along ≤ r.dot axes.along) :
      q ∈ segment p r ↔
        p.dot axes.along ≤ q.dot axes.along ∧ q.dot axes.along ≤ r.dot axes.along := by
    constructor
    · rintro ⟨t, ⟨h₀, h₁⟩, rfl⟩
      rw [dot_along]
      constructor <;> nlinarith
    · rintro ⟨after, before⟩
      by_cases same : r.dot axes.along - p.dot axes.along = 0
      · obtain rfl : p = q := frame.ext (hp.trans hq.symm) (by linarith)
        exact left_mem_segment p r
      · have positive : 0 < r.dot axes.along - p.dot axes.along :=
          lt_of_le_of_ne (sub_nonneg.mpr le) (Ne.symm same)
        refine ⟨(q.dot axes.along - p.dot axes.along) / (r.dot axes.along - p.dot axes.along),
          ⟨div_nonneg (by linarith) positive.le, (div_le_one positive).mpr (by linarith)⟩,
          frame.ext ?_ ?_⟩
        · rw [dot_along, hp, hq, hr, sub_self, zero_mul, add_zero]
        · rw [dot_along, mul_div_cancel₀ _ same]
          ring
  cases backwards
  · exact between hp hr le
  · simp only [reach, if_true, neg_le_neg_iff] at le ⊢
    rw [Point.segment_symm, between hr hp le, and_comm]

/-- Some crossings of the line at a height are all crossings of the sides of an
outline with it, in the order in which the line is run, and the passes between them
cover what the even-odd rule calls inside. -/
structure LineExact (axes : Axes ℝ) (outline : List (Point ℝ)) (h : ℝ) (backwards : Bool)
    (cs : List (Point ℝ)) : Prop where
  crossings : cs.Perm (axes.crossings h (sides outline))
  even : Even cs.length
  on_side : ∀ c ∈ cs, c.dot axes.across = h ∧
    ∃ s ∈ sides outline, axes.Spans h s ∧ c ∈ segment s.1 s.2
  order : cs.Pairwise fun p q =>
    if backwards then q.dot axes.along ≤ p.dot axes.along
    else p.dot axes.along ≤ q.dot axes.along
  leads_on : (pairs cs).Pairwise fun a b =>
    if backwards then b.entry.dot axes.along ≤ a.exit.dot axes.along
    else a.exit.dot axes.along ≤ b.entry.dot axes.along
  covers : ∀ q, q.dot axes.across = h → q ∉ cs →
    ((∃ pass ∈ pairs cs, q ∈ segment pass.entry pass.exit) ↔
      Odd (cs.countP fun c => c.dot axes.along < q.dot axes.along))

theorem mem_crossings {ss : List (Point ℝ × Point ℝ)} {c : Point ℝ}
    (hc : c ∈ axes.crossings h ss) :
    c.dot axes.across = h ∧ ∃ s ∈ ss, axes.Spans h s ∧ c ∈ segment s.1 s.2 := by
  obtain ⟨s, hs, rfl⟩ := List.mem_map.mp hc
  obtain ⟨hs, spans⟩ := List.mem_filter.mp hs
  rw [decide_eq_true_eq] at spans
  exact ⟨spans.meet_dot_across, s, hs, spans, spans.meet_mem_segment⟩

/-- **All crossings of a line, in order, give exact passes.** -/
theorem lineExact_of_perm (frame : axes.Orthonormal) {outline cs : List (Point ℝ)}
    (perm : cs.Perm (axes.crossings h (sides outline)))
    (sorted : cs.Pairwise fun p q => reach axes backwards p ≤ reach axes backwards q) :
    LineExact axes outline h backwards cs := by
  have even : Even cs.length := by
    rw [perm.length_eq, Axes.crossings, List.length_map, ← List.countP_eq_length_filter]
    exact Axes.even_countP_spans axes h outline
  have on (c : Point ℝ) (hc : c ∈ cs) := mem_crossings (perm.mem_iff.mp hc)
  obtain ⟨leads, apart⟩ := pairs_sorted (reach axes backwards) sorted
  refine ⟨perm, even, on, ?_, ?_, fun q hq hqc => ?_⟩
  · cases backwards <;> simpa [reach] using sorted
  · cases backwards <;> simpa [reach] using apart
  · have off (c : Point ℝ) (hc : c ∈ cs) : c.dot axes.along ≠ q.dot axes.along := by
      intro same
      obtain rfl : c = q := frame.ext ((on c hc).1.trans hq.symm) same
      exact hqc hc
    have off' (c : Point ℝ) (hc : c ∈ cs) : reach axes backwards c ≠ reach axes backwards q := by
      have := off c hc
      cases backwards <;> simpa [reach] using this
    rw [← odd_countP_reach backwards even off,
      ← pairs_covers (reach axes backwards) sorted even off']
    apply exists_congr
    intro pass
    apply and_congr_right
    intro hpass
    obtain ⟨hin, hout⟩ := mem_of_mem_pairs hpass
    rw [mem_segment_iff frame (on _ hin).1 hq (on _ hout).1 (leads pass hpass),
      (off' _ hin).le_iff_lt, (off' _ hout).symm.le_iff_lt]

/-- The points of a pass between its ends have an odd number of sides before them. -/
theorem LineExact.odd_precedes (frame : axes.Orthonormal) {outline cs : List (Point ℝ)}
    (line : LineExact axes outline h backwards cs) {pass : Pass ℝ} (hpass : pass ∈ pairs cs)
    {q : Point ℝ} (hq : q ∈ segment pass.entry pass.exit) (ne : q ≠ pass.entry)
    (ne' : q ≠ pass.exit) : Odd ((sides outline).countP (axes.Precedes q ·)) := by
  have sorted : cs.Pairwise fun p q => reach axes backwards p ≤ reach axes backwards q := by
    have order := line.order
    cases backwards <;> simpa [reach] using order
  obtain ⟨hin, hout⟩ := mem_of_mem_pairs hpass
  have entry := (line.on_side _ hin).1
  have exit := (line.on_side _ hout).1
  have height : q.dot axes.across = h := by
    obtain ⟨t, -, rfl⟩ := hq
    rw [dot_along, entry, exit, sub_self, zero_mul, add_zero]
  obtain ⟨after, before⟩ := (mem_segment_iff frame entry height exit
    ((pairs_sorted _ sorted).1 pass hpass)).mp hq
  have same {c : Point ℝ} (hc : c.dot axes.across = h)
      (equal : reach axes backwards q = reach axes backwards c) : q = c := by
    refine frame.ext (height.trans hc.symm) ?_
    cases backwards <;> simpa [reach] using equal
  have off : q ∉ cs := by
    intro hc
    rcases pairs_gap _ sorted hpass q hc with low | high
    · exact ne (same entry (le_antisymm low after))
    · exact ne' (same exit (le_antisymm before high))
  have count : (sides outline).countP (axes.Precedes q ·) =
      cs.countP fun c => c.dot axes.along < q.dot axes.along := by
    rw [line.crossings.countP_eq, Axes.crossings, List.countP_map, List.countP_filter]
    apply List.countP_congr
    intro s _
    simp only [Function.comp_apply, Axes.Precedes, height, Bool.and_eq_true, decide_eq_true_eq]
    exact and_comm
  rw [count]
  exact (line.covers q height off).mp ⟨pass, hpass, hq⟩

/-- **Every line of the sweep is exact** for an outline that comes back to its start,
or does not come near it. -/
theorem lineExact_lineHits (frame : axes.Orthonormal) {l : Polyline ℝ} {eps : ℝ}
    (closed : l.last = l.start ∨ l.isClosed eps = false) {f : ℕ → ℝ} (mono : Monotone f) (k : ℕ) :
    LineExact axes l.vertices (f k) (k % 2 == 1)
      (lineHits axes (edges l (l.isClosed eps) axes.across) f k) := by
  have perm := lineHits_perm frame l (l.isClosed eps) mono k
  rw [Polyline.crossings_edges axes (f k) closed] at perm
  exact lineExact_of_perm frame perm (inOrder_sorted axes (k % 2 == 1) _)

end Line

end Hatch

/-! ### The plan -/

namespace HatchPlan

open Hatch

theorem bne_iff (p q : Point ℝ) : (p != q) = true ↔ p ≠ q := by
  rw [bne, Bool.not_eq_true', ← Bool.not_eq_true, Point.beq_iff]

/-- There is an area if three vertices are distinct. -/
theorem hasArea_iff (l : Polyline ℝ) : hasArea l = true ↔ 3 ≤ l.vertices.toFinset.card := by
  have others (p : Point ℝ) (hp : p ∈ l.rest.filter (· != l.start)) : p ∈ l.rest ∧ p ≠ l.start := by
    simpa only [List.mem_filter, bne_iff] using hp
  change _ ↔ 2 < _
  rw [Finset.two_lt_card_iff]
  simp only [List.mem_toFinset, Polyline.vertices]
  rw [hasArea]
  constructor
  · intro area
    rcases found : l.rest.filter (· != l.start) with _ | ⟨q, ps⟩
    · rw [found] at area
      exact absurd area Bool.false_ne_true
    · rw [found] at area
      obtain ⟨r, hr, ne⟩ := List.any_eq_true.mp area
      obtain ⟨hq, q_ne⟩ := others q (by simp [found])
      obtain ⟨hr, r_ne⟩ := others r (by simp [found, hr])
      exact ⟨l.start, q, r, by simp, by simp [hq], by simp [hr], q_ne.symm, r_ne.symm,
        ((bne_iff r q).mp ne).symm⟩
  · rintro ⟨a, b, c, ha, hb, hc, hab, hac, hbc⟩
    rcases found : l.rest.filter (· != l.start) with _ | ⟨q, ps⟩
    · have only (p : Point ℝ) (hp : p ∈ l.start :: l.rest) : p = l.start := by
        rcases List.mem_cons.mp hp with rfl | hp
        · rfl
        · have := List.filter_eq_nil_iff.mp found p hp
          rwa [bne_iff, not_not] at this
      exact absurd ((only a ha).trans (only b hb).symm) hab
    · rw [List.any_eq_true]
      by_contra none
      have two (p : Point ℝ) (hp : p ∈ l.start :: l.rest) : p = l.start ∨ p = q := by
        by_cases first : p = l.start
        · exact .inl first
        · right
          have kept : p ∈ q :: ps := by
            rw [← found, List.mem_filter, bne_iff]
            exact ⟨(List.mem_cons.mp hp).resolve_left first, first⟩
          rcases List.mem_cons.mp kept with rfl | hp
          · rfl
          · by_contra ne
            exact none ⟨p, hp, (bne_iff p q).mpr ne⟩
      grind

/-- **Filling is exact under the even-odd rule.** An outline with three distinct
vertices that comes back to its start, or does not come near it, is planned on all
lines half a step apart below its top. The edges under way on a line are those of
the outline across it, and the passes between its crossings are exact. -/
theorem ofPolyline_lineExact {l : Polyline ℝ} (area : 3 ≤ l.vertices.toFinset.card) {step : ℝ}
    (hstep : 0 < step) {eps : ℝ} (closed : l.last = l.start ∨ l.isClosed eps = false) :
    ∃ axes low high n,
      Axes.principal (if l.isClosed eps then l.rest else l.vertices) eps = .ok axes ∧
      IsLeast {x | ∃ p ∈ l.vertices, p.dot axes.across = x} low ∧
      IsGreatest {x | ∃ p ∈ l.vertices, p.dot axes.across = x} high ∧
      let height (k : ℕ) : ℝ := low + (k + 1 / 2) * step
      let es := edges l (l.isClosed eps) axes.across
      ofPolyline l step eps = .ok
        ⟨(List.range n).flatMap fun k => pairs (lineHits axes es height k), some n⟩ ∧
      (∀ k, k < n ↔ height k < high) ∧
      ∀ k < n, axes.Orthonormal ∧
        (swept es height (k + 1)).1 = es.filter (fun e => e.lo ≤ height k && height k < e.hi) ∧
        LineExact axes l.vertices (height k) (k % 2 == 1) (lineHits axes es height k) := by
  obtain ⟨axes, low, high, n, found, least, greatest, below, unit, plan⟩ :=
    ofPolyline_eq ((hasArea_iff l).mpr area) hstep eps
  have values : {x | x ∈ l.vertices.map (·.dot axes.across)} =
      {x | ∃ p ∈ l.vertices, p.dot axes.across = x} := by
    ext x
    exact List.mem_map
  have lines : height low step = fun k : ℕ => low + ((k : ℝ) + 1 / 2) * step :=
    funext (height_eq low step)
  have mono := (height_strictMono hstep low).monotone
  rw [values] at least greatest
  refine ⟨axes, low, high, n, found, least, greatest, ?_⟩
  intro line es
  change height low step = line at lines
  rw [lines] at below plan mono
  refine ⟨plan, below, fun k hk => ?_⟩
  have frame := unit (Nat.zero_lt_of_lt hk)
  exact ⟨frame, swept_edges l _ axes.across mono k, lineExact_lineHits frame closed mono k⟩

/-- A square of side four is filled on four lines, each of them exactly. -/
theorem square_lineExact :
    let square : Polyline ℝ := ⟨⟨0, 0⟩, [⟨4, 0⟩, ⟨4, 4⟩, ⟨0, 4⟩, ⟨0, 0⟩], true⟩
    ∃ line : ℕ → List (Point ℝ),
      ofPolyline square 1 0 = .ok ⟨(List.range 4).flatMap fun k => pairs (line k), some 4⟩ ∧
      ∀ k : ℕ, k < 4 →
        LineExact .horizontal square.vertices ((k : ℝ) + 1 / 2) (k % 2 == 1) (line k) := by
  intro square
  have back : square.isClosed 0 = true := by
    simp [square, Polyline.isClosed, Polyline.isEmpty, Polyline.last]
  have area : 3 ≤ square.vertices.toFinset.card := by
    have three := Finset.card_le_card (s := {⟨0, 0⟩, ⟨4, 0⟩, ⟨4, 4⟩})
      (t := square.vertices.toFinset) (by simp [Finset.subset_iff, square, Polyline.vertices])
    rwa [Finset.card_eq_three.mpr ⟨_, _, _, by simp, by simp, by simp, rfl⟩] at three
  have axes_eq : Axes.principal square.rest 0 = .ok .horizontal := by
    norm_num [Axes.principal, Axes.covariance, Axes.mean, Axes.sum, Exact.ofNat_eq, square]
  obtain ⟨axes, low, high, n, found, least, greatest, plan, below, lines⟩ :=
    ofPolyline_lineExact area one_pos (.inl (by simp [square, Polyline.last]))
  rw [back, if_pos rfl, axes_eq] at found
  obtain rfl := Except.ok.inj found
  have heights : {x | ∃ p ∈ square.vertices, p.dot (Axes.horizontal : Axes ℝ).across = x} =
      {0, 4} := by
    ext x
    have twice : (x = 0 ∨ x = 4 ∨ x = 0) ↔ (x = 0 ∨ x = 4) := by tauto
    simpa [square, Polyline.vertices, Axes.horizontal, dot, eq_comm] using twice
  rw [heights] at least greatest
  obtain rfl : low = 0 := least.unique ⟨by simp, by simp⟩
  obtain rfl : high = 4 := greatest.unique ⟨by simp, by simp⟩
  have count : n = 4 := by
    have third := (below 3).mpr (by norm_num)
    have fourth := (below 4).not.mpr (by norm_num)
    omega
  subst count
  refine ⟨_, plan, fun k hk => ?_⟩
  have height : (0 : ℝ) + ((k : ℝ) + 1 / 2) * 1 = k + 1 / 2 := by ring
  rw [← height]
  exact (lines k hk).2.2

end HatchPlan

end BoardPlotter
