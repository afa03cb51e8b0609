import BoardPlotter.Proofs.Geometry.Affinity
import BoardPlotter.Proofs.Svg.Isolation
import BoardPlotter.Proofs.Svg.Transforms

/-!
# Regions are closed before they are moved

An outline to be filled is closed up to the tolerance of coincidence where it was drawn, and
moved afterwards. So it is closed where it ends up unless its ends were taken for one and the
map takes them apart (`Polyline.finalize_isClosed_iff`). A map takes no ends apart precisely
if no row of it adds up to more than one (`Affine.forall_keepsClose_iff`): the corner of the square
of the tolerance that the signs of a row choose is moved furthest (`exists_abs_le_mul_eq`).

What a document draws are such outlines (`Outcome.polylines_ofElement`), so that is also what
is known of them (`Drawing.closed_region_iff`).
-/

namespace BoardPlotter

open Scalar

/-! ### Rows of a map -/

theorem exists_abs_le_mul_eq (a : ℝ) {r : ℝ} (nonneg : 0 ≤ r) :
    ∃ x, |x| ≤ r ∧ a * x = |a| * r := by
  rcases le_total 0 a with positive | negative
  · exact ⟨r, (abs_of_nonneg nonneg).le, by rw [abs_of_nonneg positive]⟩
  · refine ⟨-r, ?_, ?_⟩
    · rw [abs_neg, abs_of_nonneg nonneg]
    · rw [abs_of_nonpos negative, mul_neg, neg_mul]

/-- A row keeps a square within its size precisely if it adds up to one at most. -/
theorem row_le_one_iff {a c r : ℝ} (positive : 0 < r) :
    (∀ x y, |x| ≤ r → |y| ≤ r → |a * x + c * y| ≤ r) ↔ |a| + |c| ≤ 1 := by
  constructor
  · intro within
    obtain ⟨x, hx, furthest⟩ := exists_abs_le_mul_eq a positive.le
    obtain ⟨y, hy, furthest'⟩ := exists_abs_le_mul_eq c positive.le
    have corner := (le_abs_self _).trans (within x y hx hy)
    rw [furthest, furthest', ← add_mul] at corner
    exact le_of_mul_le_mul_right (by rwa [one_mul]) positive
  · intro small x y hx hy
    calc |a * x + c * y| ≤ |a * x| + |c * y| := abs_add_le _ _
      _ = |a| * |x| + |c| * |y| := by rw [abs_mul, abs_mul]
      _ ≤ |a| * r + |c| * r := by gcongr
      _ = (|a| + |c|) * r := by ring
      _ ≤ r := mul_le_of_le_one_left positive.le small

/-! ### Outlines -/

namespace Point

theorem closeTo_iff {p q : Point ℝ} {eps : ℝ} :
    p.closeTo q eps = true ↔ |p.x - q.x| ≤ eps ∧ |p.y - q.y| ≤ eps := by
  simp [closeTo]

theorem closeTo_self (p : Point ℝ) {eps : ℝ} (nonneg : 0 ≤ eps) : p.closeTo p eps = true := by
  rw [closeTo_iff, sub_self, sub_self, abs_zero]
  exact ⟨nonneg, nonneg⟩

end Point

theorem Exact.epsilon_pos : (0 : ℝ) < epsilon := by
  rw [Exact.epsilon_eq]
  positivity

namespace Affine

/-- If two points are close, so are their images. -/
def KeepsClose (t : Affine ℝ) (p q : Point ℝ) : Prop :=
  p.closeTo q epsilon = true → (t.apply p).closeTo (t.apply q) epsilon = true

theorem apply_closeTo_iff (t : Affine ℝ) (p q : Point ℝ) (eps : ℝ) :
    (t.apply p).closeTo (t.apply q) eps = true ↔
      |t.a * (p.x - q.x) + t.c * (p.y - q.y)| ≤ eps ∧
        |t.b * (p.x - q.x) + t.d * (p.y - q.y)| ≤ eps := by
  have x : (t.apply p).x - (t.apply q).x = t.a * (p.x - q.x) + t.c * (p.y - q.y) := by
    simp only [apply]
    ring
  have y : (t.apply p).y - (t.apply q).y = t.b * (p.x - q.x) + t.d * (p.y - q.y) := by
    simp only [apply]
    ring
  rw [Point.closeTo_iff, x, y]

/-- A map keeps all close points close precisely if its rows add up to one at most. -/
theorem forall_keepsClose_iff (t : Affine ℝ) :
    (∀ p q, t.KeepsClose p q) ↔ |t.a| + |t.c| ≤ 1 ∧ |t.b| + |t.d| ≤ 1 := by
  have tolerance := Exact.epsilon_pos
  rw [← row_le_one_iff tolerance, ← row_le_one_iff tolerance]
  constructor
  · intro keeps
    have moved (x y : ℝ) (hx : |x| ≤ epsilon) (hy : |y| ≤ epsilon) :
        |t.a * x + t.c * y| ≤ epsilon ∧ |t.b * x + t.d * y| ≤ epsilon := by
      have kept := keeps ⟨x, y⟩ ⟨0, 0⟩ (Point.closeTo_iff.mpr (by simpa using ⟨hx, hy⟩))
      rw [apply_closeTo_iff] at kept
      simpa using kept
    exact ⟨fun x y hx hy => (moved x y hx hy).1, fun x y hx hy => (moved x y hx hy).2⟩
  · rintro ⟨first, second⟩ p q close
    obtain ⟨hx, hy⟩ := Point.closeTo_iff.mp close
    exact (t.apply_closeTo_iff p q epsilon).mpr ⟨first _ _ hx hy, second _ _ hx hy⟩

end Affine

namespace Polyline

theorem isClosed_iff {α : Type} [Scalar α] {l : Polyline α} (drawn : l.isEmpty = false) (eps : α) :
    l.isClosed eps = true ↔ l.last.closeTo l.start eps = true := by
  rw [isClosed, drawn, Bool.not_false, Bool.true_and]

theorem last_map (t : Affine ℝ) (l : Polyline ℝ) :
    (l.transform t).last = t.apply l.last := by
  rw [transform_eq, last, last, List.getLast?_map]
  cases l.rest.getLast? <;> rfl

theorem isEmpty_transform (t : Affine ℝ) (l : Polyline ℝ) :
    (l.transform t).isEmpty = l.isEmpty := by
  rw [transform_eq, isEmpty, isEmpty, List.isEmpty_map]

/-- A region is given its flag, then closed unless it is, then moved. -/
theorem finalize_region (l : Polyline ℝ) (t : Affine ℝ) (drawn : l.isEmpty = false) :
    l.finalize t true =
      if l.isClosed epsilon then ({ l with fill := true } : Polyline ℝ).transform t
      else ({ l with fill := true, rest := l.rest ++ [l.start] } : Polyline ℝ).transform t := by
  have opened : (!l.isEmpty && !l.last.closeTo l.start epsilon) = !l.isClosed epsilon := by
    rw [isClosed, drawn]
    rfl
  change Polyline.transform
    (if (!l.isEmpty && !l.last.closeTo l.start epsilon) = true then _ else _) t = _
  rw [opened]
  cases l.isClosed epsilon <;> rfl

theorem fill_finalize (l : Polyline ℝ) (t : Affine ℝ) (fill : Bool) :
    (l.finalize t fill).fill = fill := by
  cases fill
  · exact congrArg Polyline.fill (transform_eq _ t)
  · refine (congrArg Polyline.fill (transform_eq _ t)).trans ?_
    rw [if_pos rfl, close]
    split <;> rfl

/-- **A region is closed where it ends up** unless its ends were taken for one and the map
takes them apart. -/
theorem finalize_isClosed_iff (l : Polyline ℝ) (t : Affine ℝ) (drawn : l.isEmpty = false) :
    (l.finalize t true).isClosed epsilon = true ↔ t.KeepsClose l.last l.start := by
  have closed (k : Polyline ℝ) (drawn : k.isEmpty = false) :
      (k.transform t).isClosed epsilon = true ↔
        (t.apply k.last).closeTo (t.apply k.start) epsilon = true := by
    rw [isClosed_iff (by rw [isEmpty_transform, drawn]), last_map, transform_eq]
  rw [finalize_region l t drawn, Affine.KeepsClose, ← isClosed_iff drawn]
  cases already : l.isClosed epsilon with
  | true =>
    rw [if_pos rfl, closed { l with fill := true } drawn]
    exact ⟨fun h _ => h, fun h => h rfl⟩
  | false =>
    refine iff_of_true ?_ (fun h => absurd h Bool.false_ne_true)
    rw [if_neg Bool.false_ne_true, closed _ (by simp [isEmpty])]
    have last : ({ l with fill := true, rest := l.rest ++ [l.start] } : Polyline ℝ).last =
        l.start := by
      rw [Polyline.last, List.getLast?_concat, Option.getD_some]
    rw [last]
    exact Point.closeTo_self _ Exact.epsilon_pos.le

/-- A map leaves every region closed precisely if it keeps all close points close. -/
theorem forall_finalize_isClosed_iff (t : Affine ℝ) :
    (∀ l : Polyline ℝ, l.isEmpty = false → (l.finalize t true).isClosed epsilon = true) ↔
      ∀ p q, t.KeepsClose p q := by
  constructor
  · intro closed p q
    exact (finalize_isClosed_iff ⟨q, [p], false⟩ t rfl).mp (closed _ rfl)
  · intro keeps l drawn
    exact (finalize_isClosed_iff l t drawn).mpr (keeps _ _)

end Polyline

/-! ### Documents -/

section Outlines

variable {α : Type} [Scalar α]

/-- The outlines of an element with a vertex after their start, neither closed nor moved. -/
def Element.outlines (f : Flattening α) (e : Element) : List (Polyline α) :=
  if e.name == "path" then
    match Pen.initial.trace f e.steps with
    | .ok events => (PenEvent.outlines events).2.filter fun l => !l.isEmpty
    | .error _ => []
  else
    match (Shape.draw e.name e.attributes f.tolerance f.depth).2 with
    | .ok (some l) => [l].filter fun l => !l.isEmpty
    | _ => []

/-- A shape element has the outline of the shape that its attributes give. -/
theorem Element.outlines_of_shape {f : Flattening α} {e : Element} {tag : ShapeTag} {s : Shape α}
    {l : Polyline α} (name : ShapeTag.ofName? e.name = some tag)
    (read : (Shape.ofAttributes tag e.attributes).2 = .ok (some s))
    (drawn : s.outline f.tolerance f.depth = .ok l) :
    e.outlines f = [l].filter fun l => !l.isEmpty := by
  have shape : ¬ (e.name == "path") = true := by
    intro path
    rw [beq_iff_eq.mp path] at name
    cases name
  have outline : (Shape.draw e.name e.attributes f.tolerance f.depth).2 = .ok (some l) := by
    rw [Shape.draw, name]
    simp only [read, Except.mapError, bind, Except.bind, drawn]
    rfl
  rw [outlines, if_neg shape, outline]

theorem Element.drawn_of_mem_outlines {f : Flattening α} {e : Element} {l : Polyline α}
    (h : l ∈ e.outlines f) : l.isEmpty = false := by
  rw [outlines] at h
  split at h
  · split at h
    · simpa using (List.mem_filter.mp h).2
    · cases h
  · split at h
    · simpa using (List.mem_filter.mp h).2
    · cases h

/-- An element adds its outlines, finished. -/
theorem Outcome.polylines_ofElement (f : Flattening α) (t : Affine α) (e : Element) :
    (Outcome.ofElement f t e).polylines =
      (e.outlines (f.under t)).map fun l => l.finalize t e.isFilled := by
  rw [Outcome.ofElement, Element.outlines]
  cases e.name == "path" with
  | true =>
    simp only [if_true]
    obtain ⟨state, error, drawing⟩ : ∃ state error,
        PathDrawing.ofString (f.under t) ⟨t, e.isFilled⟩ ((e.get? "d").getD "") =
          PathDrawing.polylinesOf (f.under t) ⟨t, e.isFilled⟩ e.steps >>=
            fun ls => pure ⟨ls, state, error⟩ := ⟨_, _, rfl⟩
    rw [Outcome.ofPath, drawing, PathDrawing.polylinesOf]
    cases Pen.initial.trace (f.under t) e.steps with
    | error err => exact polylines_ofError [] (.curve err)
    | ok events => rfl
  | false =>
    have depth : (f.under t).depth = f.depth := by
      rw [Flattening.under]
      split <;> rfl
    rw [Outcome.ofShape, depth]
    obtain ⟨notices, result⟩ := Shape.draw e.name e.attributes (f.under t).tolerance f.depth
    cases result with
    | error err => exact polylines_ofError notices err
    | ok l =>
      cases l with
      | none => rfl
      | some l => cases empty : l.isEmpty <;> simp [Outcome.polylines, empty]

end Outlines

namespace Drawing

/-- Every polyline of a drawing is an outline of an element, finished under the map of its
site. -/
theorem exists_outline_of_mem_polylines {f : Flattening ℝ} {defaultWidth defaultHeight : ℝ}
    {given : Option (Viewport ℝ)} {doc : Document} {d : Drawing ℝ}
    (drawn : ofDocument f defaultWidth defaultHeight given doc = .ok d) {l : Polyline ℝ}
    (h : l ∈ d.polylines) :
    ∃ p ∈ doc.root.sites,
      let t := d.viewport.transform.inGroups (p.inForce ++ [p.element])
      ∃ o ∈ p.element.outlines (f.under t), l = o.finalize t p.element.isFilled := by
  obtain ⟨r, hr, hl⟩ := List.mem_flatMap.mp h
  have reports : d.reports = within f d.viewport doc := by
    unfold ofDocument at drawn
    split at drawn
    · cases drawn
    · cases drawn
      rfl
  rw [reports] at hr
  rcases outcome_of_mem_within hr with nothing | ⟨p, hp, same, -, outcome⟩
  · rw [nothing] at hl
    cases hl
  · rw [outcome, Outcome.polylines_ofElement, ← same] at hl
    obtain ⟨o, ho, rfl⟩ := List.mem_map.mp hl
    exact ⟨p, hp, o, ho, rfl⟩

/-- **Where regions are closed.** An outline is closed before it is moved, so a region is
closed where it ends up unless its ends were close and its map takes them apart. The maps
that leave every region closed are those with no row that adds up to more than one. The
regions of a document are the outlines of its elements, each under the map of its site. -/
theorem closed_region_iff (t : Affine ℝ) (f : Flattening ℝ) (defaultWidth defaultHeight : ℝ)
    (given : Option (Viewport ℝ)) (doc : Document) :
    (∀ l : Polyline ℝ, l.isEmpty = false →
      ((l.finalize t true).isClosed epsilon = true ↔ t.KeepsClose l.last l.start)) ∧
    ((∀ l : Polyline ℝ, l.isEmpty = false → (l.finalize t true).isClosed epsilon = true) ↔
      |t.a| + |t.c| ≤ 1 ∧ |t.b| + |t.d| ≤ 1) ∧
    ∀ d : Drawing ℝ, ofDocument f defaultWidth defaultHeight given doc = .ok d →
      ∀ l ∈ d.polylines, l.fill = true →
        ∃ p ∈ doc.root.sites,
          let t := d.viewport.transform.inGroups (p.inForce ++ [p.element])
          ∃ o ∈ p.element.outlines (f.under t), o.isEmpty = false ∧ l = o.finalize t true ∧
            (l.isClosed epsilon = true ↔ t.KeepsClose o.last o.start) := by
  refine ⟨fun l => Polyline.finalize_isClosed_iff l t, ?_, ?_⟩
  · rw [Polyline.forall_finalize_isClosed_iff, t.forall_keepsClose_iff]
  · intro d drawn l hl filled
    obtain ⟨p, hp, o, ho, rfl⟩ := exists_outline_of_mem_polylines drawn hl
    have region : p.element.isFilled = true := by rwa [Polyline.fill_finalize] at filled
    have long := Element.drawn_of_mem_outlines ho
    rw [region]
    exact ⟨p, hp, o, ho, long, rfl, Polyline.finalize_isClosed_iff o _ long⟩

/-- A filled triangle that comes back to its start but for half the tolerance. -/
def nearTriangle : Document where
  root := .mk "svg" [] [.mk "polygon" [("points", "0 0 1 0 0 5e-10"), ("fill", "black")] []]
  source := "near triangle"

theorem dropRepeats_singleton (p : Point ℝ) : dropRepeats [p] = [p] := by
  rw [dropRepeats]
  simp

/-- It is left as it is, since its ends are close. -/
theorem outlines_nearTriangle (f : Flattening ℝ) (fill : String) :
    (Element.mk "polygon" [("points", "0 0 1 0 0 5e-10"), ("fill", fill)] []).outlines f =
      [⟨⟨0, 0⟩, [⟨1, 0⟩, ⟨0, 5 / 10 ^ 10⟩], false⟩] := by
  have numerals : Numeral.findAll "0 0 1 0 0 5e-10".toList =
      [⟨false, 0, 0⟩, ⟨false, 0, 0⟩, ⟨false, 1, 0⟩, ⟨false, 0, 0⟩, ⟨false, 0, 0⟩,
        ⟨false, 5, -10⟩] := by
    decide +kernel
  have points : pointList (α := ℝ) "0 0 1 0 0 5e-10" =
      ([⟨0, 0⟩, ⟨1, 0⟩, ⟨0, 5 / 10 ^ 10⟩], false) := by
    rw [pointList, numerals]
    simp only [List.map_cons, List.map_nil, Exact.value_eq, pairUp]
    norm_num [dropRepeats, dropRepeats_singleton, Point.beq_iff]
  have read : (Shape.ofAttributes (α := ℝ) .polygon
      [("points", "0 0 1 0 0 5e-10"), ("fill", fill)]).2 =
        .ok (some (.points ⟨0, 0⟩ [⟨1, 0⟩, ⟨0, 5 / 10 ^ 10⟩] true)) := by
    rw [Shape.ofAttributes, Shape.pointsOf]
    simp [points]
  have closed : (⟨⟨0, 0⟩, [⟨1, 0⟩, ⟨0, 5 / 10 ^ 10⟩], false⟩ : Polyline ℝ).close epsilon =
      ⟨⟨0, 0⟩, [⟨1, 0⟩, ⟨0, 5 / 10 ^ 10⟩], false⟩ := by
    norm_num [Polyline.close, Polyline.isEmpty, Polyline.last, Point.closeTo, Exact.epsilon_eq]
  have drawn : (Shape.points (⟨0, 0⟩ : Point ℝ) [⟨1, 0⟩, ⟨0, 5 / 10 ^ 10⟩] true).outline
      f.tolerance f.depth = .ok ⟨⟨0, 0⟩, [⟨1, 0⟩, ⟨0, 5 / 10 ^ 10⟩], false⟩ :=
    congrArg Except.ok closed
  exact Element.outlines_of_shape
    (e := .mk "polygon" [("points", "0 0 1 0 0 5e-10"), ("fill", fill)] []) rfl read drawn

/-- Four times as large, it is open. -/
theorem polylines_nearTriangle (f : Flattening ℝ) :
    (within f ⟨100, 100, ⟨4, 0, 0, 4, 0, 0⟩⟩ nearTriangle).flatMap (·.outcome.polylines) =
      [⟨⟨0, 0⟩, [⟨4, 0⟩, ⟨0, 2 / 10 ^ 9⟩], true⟩] := by
  let t : Affine ℝ := ⟨4, 0, 0, 4, 0, 0⟩
  let polygon := Element.mk "polygon" [("points", "0 0 1 0 0 5e-10"), ("fill", "black")] []
  have reports : within f ⟨100, 100, t⟩ nearTriangle =
      [⟨nearTriangle.root, none, .group⟩,
        ⟨polygon, none, .ofElement f ((t.comp .identity).comp .identity) polygon⟩] := by
    rw [within_eq]
    change Report.untilFault [⟨nearTriangle.root, none, .group⟩,
        ⟨polygon, none, .ofElement f ((t.comp .identity).comp .identity) polygon⟩] = _
    rw [Report.untilFault, Report.untilFault]
    cases Outcome.ofElement f ((t.comp .identity).comp .identity) polygon <;> rfl
  have region : polygon.isFilled = true := by decide +kernel
  rw [reports, Affine.comp_identity, Affine.comp_identity, List.flatMap_cons, List.flatMap_cons,
    Outcome.polylines_ofElement, outlines_nearTriangle, region]
  norm_num [t, Outcome.polylines, Polyline.finalize_region, Polyline.isEmpty, Polyline.isClosed,
    Polyline.last, Point.closeTo, Exact.epsilon_eq, Polyline.transform_eq, Affine.apply]

/-- The ends of the triangle are taken apart, and the region is open. -/
theorem closed_region_iff_nearTriangle :
    let t : Affine ℝ := ⟨4, 0, 0, 4, 0, 0⟩
    let f : Flattening ℝ := ⟨1 / 10, none, 16⟩
    let region : Polyline ℝ := ⟨⟨0, 0⟩, [⟨4, 0⟩, ⟨0, 2 / 10 ^ 9⟩], true⟩
    ∃ d, ofDocument f 100 100 (some ⟨100, 100, t⟩) nearTriangle = .ok d ∧
      region ∈ d.polylines ∧ region.fill = true ∧
      (∃ p ∈ nearTriangle.root.sites,
        ∃ o ∈ p.element.outlines
            (f.under (d.viewport.transform.inGroups (p.inForce ++ [p.element]))),
          o.isEmpty = false ∧
          region = o.finalize
            (d.viewport.transform.inGroups (p.inForce ++ [p.element])) true) ∧
      let outline : Polyline ℝ := ⟨⟨0, 0⟩, [⟨1, 0⟩, ⟨0, 5 / 10 ^ 10⟩], false⟩
      outline.isEmpty = false ∧ (outline.finalize t true).isClosed epsilon = false := by
  intro t f region
  have drawn : ofDocument f 100 100 (some ⟨100, 100, t⟩) nearTriangle =
      .ok ⟨⟨100, 100, t⟩, [], within f ⟨100, 100, t⟩ nearTriangle⟩ :=
    if_neg (by norm_num [f])
  have member : region ∈ (within f ⟨100, 100, t⟩ nearTriangle).flatMap (·.outcome.polylines) := by
    rw [polylines_nearTriangle]
    exact List.mem_singleton_self region
  obtain ⟨opened, -, regions⟩ := closed_region_iff t f 100 100 (some ⟨100, 100, t⟩) nearTriangle
  obtain ⟨p, hp, o, ho, long, made, -⟩ := regions _ drawn region member rfl
  refine ⟨_, drawn, member, rfl, ⟨p, hp, o, ho, long, made⟩, rfl, ?_⟩
  rw [← Bool.not_eq_true, opened _ rfl]
  norm_num [Affine.KeepsClose, Polyline.last, Point.closeTo, Affine.apply, t, Exact.epsilon_eq]

/-- A region of a document can be open. -/
theorem nearTriangle_open :
    ∃ d, ofDocument (⟨1 / 10, none, 16⟩ : Flattening ℝ) 100 100
        (some ⟨100, 100, ⟨4, 0, 0, 4, 0, 0⟩⟩) nearTriangle = .ok d ∧
      d.polylines = [⟨⟨0, 0⟩, [⟨4, 0⟩, ⟨0, 2 / 10 ^ 9⟩], true⟩] ∧
      ∀ l ∈ d.polylines, l.fill = true ∧ l.isClosed epsilon = false := by
  refine ⟨_, if_neg (by norm_num), polylines_nearTriangle _, ?_⟩
  change ∀ l ∈ (within _ _ _).flatMap _, _
  rw [polylines_nearTriangle]
  intro l hl
  obtain rfl := List.mem_singleton.mp hl
  norm_num [Polyline.isClosed, Polyline.isEmpty, Polyline.last, Point.closeTo, Exact.epsilon_eq]

end Drawing

end BoardPlotter
