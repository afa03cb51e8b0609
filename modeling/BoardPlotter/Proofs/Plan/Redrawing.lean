import Mathlib.Data.List.Rotate
import BoardPlotter.Proofs.Plan.Direction
import BoardPlotter.Proofs.Plan.Hatching

/-!
# Redrawing a closed outline

A closed outline stays the same when its drawing begins elsewhere, and when points
of its sides are made vertices or such vertices are left out (`Redraws`). It keeps
its points and what it has inside (`Redraws.outline_eq`, `Redraws.inside_iff`).

An outline cut in two by a chord has inside what just one of its two parts has,
each of them closed by the chord (`Axes.inside_cut`).
-/

namespace BoardPlotter

open Point

/-- The points on the sides of a closed outline. -/
def outline (ps : List (Point ℝ)) : Set (Point ℝ) := {q | ∃ s ∈ sides ps, q ∈ segment s.1 s.2}

/-- Inside a closed outline under the even-odd rule, by the ray that leads back
along the lines of these axes. -/
def Axes.Inside (axes : Axes ℝ) (ps : List (Point ℝ)) (q : Point ℝ) : Prop :=
  Odd ((sides ps).countP (axes.Precedes q ·))

/-- Inside a closed outline under the even-odd rule, whatever ray is taken. -/
def Encloses (ps : List (Point ℝ)) (q : Point ℝ) : Prop :=
  ∀ axes : Axes ℝ, axes.Orthonormal → axes.Inside ps q

/-- Off the outline one ray decides. -/
theorem encloses_iff {ps : List (Point ℝ)} {q : Point ℝ} (off : q ∉ outline ps) {axes : Axes ℝ}
    (frame : axes.Orthonormal) : Encloses ps q ↔ axes.Inside ps q := by
  have apart : ∀ s ∈ sides ps, q ∉ segment s.1 s.2 := fun s hs on => off ⟨s, hs, on⟩
  exact ⟨fun all => all axes frame,
    fun inside _ frame' => (Axes.odd_precedes_iff frame frame' apart).mp inside⟩

/-! ### Sides met by a ray -/

/-- The height of a point on a side is between those of its ends. -/
theorem dot_mem_uIcc {a b r : Point ℝ} (hr : r ∈ segment a b) (d : Point ℝ) :
    r.dot d ∈ Set.uIcc (a.dot d) (b.dot d) := by
  obtain ⟨t, ⟨h₀, h₁⟩, rfl⟩ := hr
  rw [dot_along, Set.mem_uIcc]
  rcases le_total (a.dot d) (b.dot d) with rises | falls
  · left
    constructor <;> nlinarith
  · right
    constructor <;> nlinarith

/-- On a side across a line the height determines the parameter. -/
theorem eq_of_dot_along_eq {a b d : Point ℝ} {s t : ℝ} (slope : b.dot d - a.dot d ≠ 0)
    (same : (along a b s).dot d = (along a b t).dot d) : s = t := by
  rw [dot_along, dot_along, add_right_inj] at same
  exact mul_left_cancel₀ slope same

namespace Axes

variable {axes : Axes ℝ} {h : ℝ} {a b r q : Point ℝ}

theorem spans_swap : axes.Spans h (b, a) ↔ axes.Spans h (a, b) := by
  rw [spans_iff, spans_iff]
  exact not_congr Iff.comm

/-- Where a line meets a side does not depend on which part of the side is taken. -/
theorem Spans.meet_eq_meet {c d : Point ℝ} (part : axes.Spans h (c, d))
    (whole : axes.Spans h (a, b)) (hc : c ∈ segment a b) (hd : d ∈ segment a b) :
    axes.meet h (c, d) = axes.meet h (a, b) := by
  have at_height := part.meet_dot_across
  have at_height' := whole.meet_dot_across
  obtain ⟨s, -, rfl⟩ := hc
  obtain ⟨t, -, rfl⟩ := hd
  rw [meet, along_along] at at_height ⊢
  rw [meet] at at_height' ⊢
  exact congrArg (Point.along a b) (eq_of_dot_along_eq whole.ne (at_height.trans at_height'.symm))

theorem precedes_of_part {c d : Point ℝ} (part : axes.Spans (q.dot axes.across) (c, d))
    (whole : axes.Spans (q.dot axes.across) (a, b)) (hc : c ∈ segment a b)
    (hd : d ∈ segment a b) : axes.Precedes q (c, d) ↔ axes.Precedes q (a, b) := by
  rw [Precedes, Precedes, part.meet_eq_meet whole hc hd]
  exact and_congr_left fun _ => iff_of_true part whole

theorem precedes_swap : axes.Precedes q (b, a) ↔ axes.Precedes q (a, b) := by
  by_cases spans : axes.Spans (q.dot axes.across) (a, b)
  · exact precedes_of_part (spans_swap.mpr spans) spans (right_mem_segment a b)
      (left_mem_segment a b)
  · exact iff_of_false (fun h => spans (spans_swap.mp h.1)) fun h => spans h.1

/-- Of the two parts of a side a ray meets just one if it meets the side, and none if
it does not. -/
theorem countP_precedes_via (axes : Axes ℝ) (q : Point ℝ) (hr : r ∈ segment a b) :
    [(a, r), (r, b)].countP (axes.Precedes q ·) = [(a, b)].countP (axes.Precedes q ·) := by
  -- A point on the side is as high as one of its ends, as far as the line can tell.
  have between : (r.dot axes.across ≤ q.dot axes.across ↔ a.dot axes.across ≤ q.dot axes.across) ∨
      (r.dot axes.across ≤ q.dot axes.across ↔ b.dot axes.across ≤ q.dot axes.across) := by
    by_cases low : r.dot axes.across ≤ q.dot axes.across
    · rcases Set.mem_uIcc.mp (dot_mem_uIcc hr axes.across) with ⟨h, -⟩ | ⟨h, -⟩
      · exact .inl (iff_of_true low (h.trans low))
      · exact .inr (iff_of_true low (h.trans low))
    · rcases Set.mem_uIcc.mp (dot_mem_uIcc hr axes.across) with ⟨-, h⟩ | ⟨-, h⟩
      · exact .inr (iff_of_false low fun hb => low (h.trans hb))
      · exact .inl (iff_of_false low fun ha => low (h.trans ha))
  have first : axes.Precedes q (a, r) → axes.Spans (q.dot axes.across) (a, r) := And.left
  have second : axes.Precedes q (r, b) → axes.Spans (q.dot axes.across) (r, b) := And.left
  have whole : axes.Precedes q (a, b) → axes.Spans (q.dot axes.across) (a, b) := And.left
  have same (spans : axes.Spans (q.dot axes.across) (a, r))
      (spans' : axes.Spans (q.dot axes.across) (a, b)) :=
    precedes_of_part spans spans' (left_mem_segment a b) hr
  have same' (spans : axes.Spans (q.dot axes.across) (r, b))
      (spans' : axes.Spans (q.dot axes.across) (a, b)) :=
    precedes_of_part spans spans' hr (right_mem_segment a b)
  simp only [spans_iff] at first second whole same same'
  by_cases h₁ : axes.Precedes q (a, r) <;> by_cases h₂ : axes.Precedes q (r, b) <;>
    by_cases h₃ : axes.Precedes q (a, b) <;> simp [h₁, h₂, h₃] <;> grind

end Axes

/-! ### Redrawing -/

/-- The same closed outline: begun elsewhere, or with a point on the side behind its
first vertex made a vertex. -/
inductive Redraws : List (Point ℝ) → List (Point ℝ) → Prop
  | turn {ps qs : List (Point ℝ)} : ps.IsRotated qs → Redraws ps qs
  | via {p r : Point ℝ} (ps : List (Point ℝ)) :
      r ∈ segment p (ps.headD p) → Redraws (p :: ps) (p :: r :: ps)
  | symm {ps qs : List (Point ℝ)} : Redraws ps qs → Redraws qs ps
  | trans {ps qs rs : List (Point ℝ)} : Redraws ps qs → Redraws qs rs → Redraws ps rs

theorem legs_cons_concat (p z : Point ℝ) (ps : List (Point ℝ)) :
    legs (p :: (ps ++ [z])) = (p, ps.headD z) :: legs (ps ++ [z]) := by
  cases ps <;> rfl

theorem sides_cons (p : Point ℝ) (ps : List (Point ℝ)) :
    sides (p :: ps) = (p, ps.headD p) :: legs (ps ++ [p]) :=
  legs_cons_concat p p ps

/-- A point of a segment cuts it in two. -/
theorem segment_eq_union {a b r : Point ℝ} (hr : r ∈ segment a b) :
    segment a b = segment a r ∪ segment r b := by
  obtain ⟨t, ⟨h₀, h₁⟩, rfl⟩ := hr
  have first := segment_along a b h₀
  have second := segment_along a b h₁
  rw [along_zero] at first
  rw [along_one] at second
  rw [first, second, ← Set.image_union, Set.Icc_union_Icc_eq_Icc h₀ h₁, Point.segment]

/-- Begun elsewhere, an outline has the same sides. -/
theorem sides_perm {ps qs : List (Point ℝ)} (turned : ps.IsRotated qs) :
    (sides ps).Perm (sides qs) := by
  have once (p : Point ℝ) (ps : List (Point ℝ)) :
      (sides (p :: ps)).Perm (sides (ps ++ [p])) := by
    rcases ps with _ | ⟨q, ps⟩
    · rfl
    · have behind : legs (q :: (ps ++ [p]) ++ [q]) = legs (q :: ps ++ [p]) ++ [(p, q)] := by
        rw [List.cons_append, List.append_assoc, List.singleton_append, ← List.cons_append,
          legs_append]
        rfl
      rw [List.cons_append, sides, sides, behind]
      exact (List.perm_append_singleton (p, q) _).symm
  obtain ⟨n, rfl⟩ := turned
  induction n generalizing ps with
  | zero => rw [List.rotate_zero]
  | succ n ih =>
    cases ps with
    | nil => simp
    | cons p ps =>
      rw [List.rotate_cons_succ]
      exact (once p ps).trans ih

namespace Redraws

variable {ps qs : List (Point ℝ)}

/-- **Redrawing keeps the points of an outline.** -/
theorem outline_eq (same : Redraws ps qs) : outline ps = outline qs := by
  induction same with
  | turn turned =>
    ext q
    simp only [outline, Set.mem_ofPred_eq, (sides_perm turned).mem_iff]
  | @via p r ps hr =>
    ext q
    rw [outline, outline, sides_cons, sides_cons, List.headD_cons, List.cons_append,
      legs_cons_concat]
    simp only [List.exists_mem_cons_iff, segment_eq_union hr, Set.mem_union, or_assoc,
      Set.mem_ofPred_eq]
  | symm _ ih => exact ih.symm
  | trans _ _ ih₁ ih₂ => exact ih₁.trans ih₂

/-- **Redrawing keeps how many sides each ray meets.** -/
theorem countP_precedes (same : Redraws ps qs) (axes : Axes ℝ) (q : Point ℝ) :
    (sides ps).countP (axes.Precedes q ·) = (sides qs).countP (axes.Precedes q ·) := by
  induction same with
  | turn turned => exact (sides_perm turned).countP_eq _
  | @via p r ps hr =>
    rw [sides_cons, sides_cons, List.headD_cons, List.cons_append, legs_cons_concat]
    have parts := axes.countP_precedes_via q hr
    simp only [List.countP_cons, List.countP_nil] at parts ⊢
    omega
  | symm _ ih => exact ih.symm
  | trans _ _ ih₁ ih₂ => exact ih₁.trans ih₂

/-- **Redrawing keeps what an outline has inside.** -/
theorem inside_iff (same : Redraws ps qs) (axes : Axes ℝ) (q : Point ℝ) :
    axes.Inside ps q ↔ axes.Inside qs q := by
  rw [Axes.Inside, Axes.Inside, same.countP_precedes]

theorem refl (ps : List (Point ℝ)) : Redraws ps ps := turn (List.IsRotated.refl ps)

theorem append_comm (ps qs : List (Point ℝ)) : Redraws (ps ++ qs) (qs ++ ps) :=
  turn List.isRotated_append

/-- A point on a side becomes a vertex. -/
theorem insert (before : List (Point ℝ)) {a b r : Point ℝ} (after : List (Point ℝ))
    (hr : r ∈ segment a b) :
    Redraws (before ++ a :: b :: after) (before ++ a :: r :: b :: after) :=
  (append_comm before _).trans <| (via (b :: (after ++ before)) hr).trans <|
    append_comm (a :: r :: b :: after) before

/-- A vertex is passed twice. -/
theorem double (before : List (Point ℝ)) (p : Point ℝ) (after : List (Point ℝ)) :
    Redraws (before ++ p :: after) (before ++ p :: p :: after) :=
  (append_comm before _).trans <|
    (via (after ++ before) (left_mem_segment p _)).trans <|
      append_comm (p :: p :: after) before

end Redraws

theorem Polyline.exists_vertices_eq (l : Polyline ℝ) : ∃ front, l.vertices = front ++ [l.last] := by
  obtain ⟨start, rest, fill⟩ := l
  rcases List.eq_nil_or_concat rest with rfl | ⟨front, z, rfl⟩
  · exact ⟨[], rfl⟩
  · exact ⟨start :: front, by simp [Polyline.vertices, Polyline.last]⟩

/-- **A chord cuts an outline in two.** Inside is what just one of the two parts has
inside when the chord closes it. -/
theorem Axes.inside_cut (axes : Axes ℝ) (l : Polyline ℝ) (rest : List (Point ℝ)) (q : Point ℝ) :
    axes.Inside (l.vertices ++ rest) q ↔
      ¬ (axes.Inside l.vertices q ↔ axes.Inside (l.last :: (rest ++ [l.start])) q) := by
  have whole : sides (l.vertices ++ rest) =
      l.segments ++ legs (l.last :: (rest ++ [l.start])) := by
    obtain ⟨front, ends⟩ := l.exists_vertices_eq
    have round : sides (l.vertices ++ rest) = legs (l.vertices ++ (rest ++ [l.start])) :=
      congrArg legs (List.append_assoc l.vertices rest [l.start])
    rw [round, ends, List.append_assoc, List.singleton_append, legs_append, ← ends]
    rfl
  have back : sides (l.last :: (rest ++ [l.start])) =
      legs (l.last :: (rest ++ [l.start])) ++ [(l.start, l.last)] := by
    have turn := legs_append (l.last :: rest) l.start [l.last]
    rw [List.cons_append, List.cons_append] at turn
    rw [sides, List.cons_append, List.append_assoc]
    exact turn
  rw [Axes.Inside, Axes.Inside, Axes.Inside, whole, back, l.sides_vertices]
  simp only [List.countP_append, List.countP_singleton, precedes_swap]
  grind

end BoardPlotter
