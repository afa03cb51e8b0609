import BoardPlotter.Proofs.Except
import BoardPlotter.Proofs.Geometry.Quarter
import BoardPlotter.Proofs.PathData.Outline
import BoardPlotter.Svg.Shape

/-!
# Rounded rectangles

The outline of a rounded rectangle consists of the samples of four quarters of an ellipse,
one at each corner (`Shape.flatten_edges`). What the samples of all arcs have in common, the
vertices have (`Shape.exists_roundedFrom`). A quarter takes no more than half of a side, so its
points are in the rectangle (`Shape.OnSide.mem`), and none is near another corner than its own
(`Shape.OnSide.eq_of_near`).

`Shape.rounded_in_rectangle`: what follows for rectangles as they are given by attributes.
-/

namespace BoardPlotter

open Scalar

/-- The first end of an arc is among its samples. -/
theorem EndpointArc.first_mem_flatten {e : EndpointArc ℝ} {tolerance : ℝ} {depth : ℤ}
    {points : List (Point ℝ)} (h : e.flatten tolerance depth = .ok points) : e.p₁ ∈ points := by
  have pos : 0 < tolerance := by
    by_contra notPos
    rw [flatten_eq, if_neg notPos] at h
    cases h
  rw [Exact.flatten_eq e pos] at h
  obtain rfl := Except.ok.inj h
  split
  · exact List.mem_cons_self
  · split <;> exact List.mem_cons_self

namespace Shape

/-! ### Sides -/

/-- One of the two ends of a side. -/
def sideEnd (x w : ℝ) (far : Bool) : ℝ := if far then x + w else x

theorem sideEnd_mem (x : ℝ) {w : ℝ} (hw : 0 ≤ w) (far : Bool) :
    x ≤ sideEnd x w far ∧ sideEnd x w far ≤ x + w := by
  cases far
  · change x ≤ x ∧ x ≤ x + w
    constructor <;> linarith
  · change x ≤ x + w ∧ x + w ≤ x + w
    constructor <;> linarith

/-- What is a radius inward from an end of a side. -/
noncomputable def inset (x w r : ℝ) (far : Bool) : ℝ := if far then x + w - r else x + r

/-- A part of the way from the inset to the end of a side. -/
structure OnSide (x w r : ℝ) (far : Bool) (s v : ℝ) : Prop where
  nonneg : 0 ≤ s
  le_one : s ≤ 1
  place : v = inset x w r far + s * (sideEnd x w far - inset x w r far)

section Side

variable {x w r s v : ℝ} {far : Bool} (hr : 0 ≤ r) (half : r ≤ w / 2)

theorem sideEnd_sub_inset (x w r : ℝ) (far : Bool) :
    sideEnd x w far - inset x w r far = if far then r else -r := by
  cases far
  · change x - (x + r) = -r
    ring
  · change x + w - (x + w - r) = r
    ring

include hr half

theorem OnSide.mem (on : OnSide x w r far s v) : x ≤ v ∧ v ≤ x + w := by
  obtain ⟨nonneg, le_one, rfl⟩ := on
  have less : s * r ≤ r := mul_le_of_le_one_left hr le_one
  have more : 0 ≤ s * r := mul_nonneg nonneg hr
  rw [sideEnd_sub_inset]
  cases far
  · change x ≤ x + r + s * -r ∧ x + r + s * -r ≤ x + w
    constructor <;> linarith
  · change x ≤ x + w - r + s * r ∧ x + w - r + s * r ≤ x + w
    constructor <;> linarith

/-- It is no nearer than the radius to the other end. -/
theorem OnSide.eq_of_near (on : OnSide x w r far s v) {other : Bool}
    (near : |v - sideEnd x w other| < r) : other = far := by
  obtain ⟨nonneg, le_one, rfl⟩ := on
  have less : s * r ≤ r := mul_le_of_le_one_left hr le_one
  have more : 0 ≤ s * r := mul_nonneg nonneg hr
  rw [sideEnd_sub_inset] at near
  obtain ⟨low, high⟩ := abs_lt.mp near
  cases far <;> cases other
  · rfl
  · change -r < x + r + s * -r - (x + w) at low
    linarith
  · change x + w - r + s * r - x < r at high
    linarith
  · rfl

end Side

theorem OnSide.sq_div {x w r s v : ℝ} {far : Bool} (hr : 0 < r) (on : OnSide x w r far s v) :
    ((v - inset x w r far) / r) ^ 2 = s ^ 2 := by
  have signed : (sideEnd x w far - inset x w r far) ^ 2 = r ^ 2 := by
    rw [sideEnd_sub_inset]
    cases far
    · exact neg_sq r
    · rfl
  rw [on.place, add_sub_cancel_left, div_pow, mul_pow, signed]
  exact mul_div_cancel_right₀ _ (pow_ne_zero 2 hr.ne')

/-! ### Corners -/

/-- A point of the quarter of the ellipse at a corner. -/
def OnCorner (corner : Point ℝ) (w h rx ry : ℝ) (right bottom : Bool) (v : Point ℝ) : Prop :=
  ∃ s t : ℝ, s ^ 2 + t ^ 2 = 1 ∧
    OnSide corner.x w rx right s v.x ∧ OnSide corner.y h ry bottom t v.y

variable {corner : Point ℝ} {w h rx ry : ℝ}

theorem onCorner_of {right bottom : Bool} {s t : ℝ} {v : Point ℝ} (hs : 0 ≤ s) (ht : 0 ≤ t)
    (circle : s ^ 2 + t ^ 2 = 1)
    (x : v.x = inset corner.x w rx right + s * (if right then rx else -rx))
    (y : v.y = inset corner.y h ry bottom + t * (if bottom then ry else -ry)) :
    OnCorner corner w h rx ry right bottom v := by
  rw [← sideEnd_sub_inset] at x y
  exact ⟨s, t, circle, ⟨hs, by nlinarith, x⟩, ⟨ht, by nlinarith, y⟩⟩

/-- Where the edge before a corner ends, in the direction from the middle of the ellipse. -/
def edgeDirection : Bool → Bool → Point ℝ
  | true, false => ⟨0, -1⟩
  | true, true => ⟨1, 0⟩
  | false, true => ⟨0, 1⟩
  | false, false => ⟨-1, 0⟩

/-- The arc of a corner. -/
noncomputable def cornerArc (corner : Point ℝ) (w h rx ry : ℝ) (right bottom : Bool) :
    EndpointArc ℝ :=
  .quarter ⟨inset corner.x w rx right, inset corner.y h ry bottom⟩ rx ry
    (edgeDirection right bottom)

/-- The arcs of an outline are those of the corners, clockwise from the top right one. -/
theorem map_edges (corner : Point ℝ) (w h rx ry : ℝ) :
    (edges corner w h rx ry).map (fun s => EndpointArc.mk s.1 s.2 rx ry 0 false true) =
      [(true, false), (true, true), (false, true), (false, false)].map
        fun k => cornerArc corner w h rx ry k.1 k.2 := by
  simp only [edges, List.map_cons, List.map_nil, cornerArc, EndpointArc.quarter, edgeDirection,
    inset, if_true, Bool.false_eq_true, if_false, List.cons.injEq, EndpointArc.mk.injEq,
    Point.mk.injEq, and_true]
  refine ⟨⟨⟨?_, ?_⟩, ?_, ?_⟩, ⟨⟨?_, ?_⟩, ?_, ?_⟩, ⟨⟨?_, ?_⟩, ?_, ?_⟩, ⟨?_, ?_⟩, ?_, ?_⟩ <;> ring

section Round

variable (hrx : 0 < rx) (hry : 0 < ry) {tolerance : ℝ} (positive : 0 < tolerance) (depth : ℤ)
include hrx hry positive

/-- The samples of a corner are on it. -/
theorem flatten_cornerArc (right bottom : Bool) :
    ∃ points, (cornerArc corner w h rx ry right bottom).flatten tolerance depth = .ok points ∧
      ∀ v ∈ points, OnCorner corner w h rx ry right bottom v := by
  have unit : (edgeDirection right bottom).dot (edgeDirection right bottom) = 1 := by
    cases right <;> cases bottom <;> norm_num [edgeDirection, Point.dot]
  obtain ⟨points, drawn, on⟩ := EndpointArc.flatten_quarter hrx hry unit
    ⟨inset corner.x w rx right, inset corner.y h ry bottom⟩ positive depth
  refine ⟨points, drawn, fun v mem => ?_⟩
  obtain ⟨a, b, ha, hb, circle, rfl⟩ := on v mem
  have circle' := (add_comm (b ^ 2) (a ^ 2)).trans circle
  -- The quarter begins at the edge before, so at every other corner the axes are exchanged.
  cases right <;> cases bottom
  · exact onCorner_of ha hb circle (by simp [edgeDirection]; ring) (by simp [edgeDirection]; ring)
  · exact onCorner_of hb ha circle' (by simp [edgeDirection]; ring) (by simp [edgeDirection]; ring)
  · exact onCorner_of hb ha circle' (by simp [edgeDirection]; ring) (by simp [edgeDirection]; ring)
  · exact onCorner_of ha hb circle (by simp [edgeDirection]; ring) (by simp [edgeDirection]; ring)

theorem flatten_edges (corner : Point ℝ) (w h : ℝ) : ∀ s ∈ edges corner w h rx ry,
    ∃ points, (EndpointArc.mk s.1 s.2 rx ry 0 false true).flatten tolerance depth = .ok points ∧
      ∀ v ∈ points, ∃ right bottom, OnCorner corner w h rx ry right bottom v := by
  intro s hs
  have arc := List.mem_map_of_mem (f := fun s => EndpointArc.mk s.1 s.2 rx ry 0 false true) hs
  rw [map_edges] at arc
  obtain ⟨⟨right, bottom⟩, -, same⟩ := List.mem_map.mp arc
  obtain ⟨points, drawn, on⟩ := flatten_cornerArc hrx hry positive depth right bottom
  refine ⟨points, ?_, fun v mem => ⟨right, bottom, on v mem⟩⟩
  rw [← drawn]
  exact congrArg (·.flatten tolerance depth) same.symm

end Round

/-! ### Outlines -/

/-- What the samples of all arcs have in common, the vertices have; the last one is the end of
the last corner. -/
theorem exists_roundedFrom {P : Point ℝ → Prop} {rx ry tolerance : ℝ} {depth : ℤ}
    {ends : List (Point ℝ × Point ℝ)}
    (arcs : ∀ s ∈ ends, ∃ points,
      (EndpointArc.mk s.1 s.2 rx ry 0 false true).flatten tolerance depth = .ok points ∧
        ∀ v ∈ points, P v) (last : Point ℝ) :
    ∃ vs, roundedFrom rx ry tolerance depth last ends = .ok vs ∧ (∀ v ∈ vs, P v) ∧
      vs.getLast?.getD last = (ends.map Prod.snd).getLast?.getD last := by
  induction ends generalizing last with
  | nil => exact ⟨[], rfl, nofun, rfl⟩
  | cons s rest ih =>
    obtain ⟨edge, corner⟩ := s
    obtain ⟨points, drawn, on⟩ := arcs _ List.mem_cons_self
    have first : edge ∈ points := EndpointArc.first_mem_flatten drawn
    have reached : (points.drop 1).getLast?.getD edge = corner :=
      EndpointArc.getLast?_flatten drawn
    let piece := (if edge == last then [] else [edge]) ++ points.drop 1
    have onPiece : ∀ v ∈ piece, P v := by
      intro v mem
      obtain mem | mem := List.mem_append.mp mem
      · split at mem
        · cases mem
        · rw [List.mem_singleton.mp mem]
          exact on edge first
      · exact on v (List.mem_of_mem_drop mem)
    have ends : piece.getLast?.getD last = corner := by
      rw [List.getLast?_append, Option.getD_or, ← reached]
      split
      · rename_i same
        rw [(Point.beq_iff _ _).mp same]
        rfl
      · rfl
    obtain ⟨vs, later, onLater, endsLater⟩ :=
      ih (fun s hs => arcs s (List.mem_cons_of_mem _ hs)) corner
    refine ⟨piece ++ vs, ?_, ?_, ?_⟩
    · rw [roundedFrom, drawn]
      change (do return piece ++ (← roundedFrom rx ry tolerance depth (piece.getLast?.getD last)
        rest)) = _
      rw [ends, later]
      rfl
    · intro v mem
      exact (List.mem_append.mp mem).elim (onPiece v) (onLater v)
    · rw [List.getLast?_append, Option.getD_or, ends, endsLater, List.map_cons,
        List.getLast?_cons]
      rfl

/-- The four corners come round to the start of the top edge. -/
theorem exists_outline_round (corner : Point ℝ) (w h : ℝ) (hrx : 0 < rx) (hry : 0 < ry)
    {tolerance : ℝ} (positive : 0 < tolerance) (depth : ℤ) :
    ∃ l : Polyline ℝ, outline tolerance depth (.rect corner w h rx ry) = .ok l ∧
      l.last = l.start ∧
        ∀ v ∈ l.vertices, ∃ right bottom, OnCorner corner w h rx ry right bottom v := by
  let start : Point ℝ := ⟨corner.x + rx, corner.y⟩
  obtain ⟨vs, drawn, on, last⟩ := exists_roundedFrom
    (flatten_edges hrx hry positive depth corner w h) start
  have round : ¬(rx == 0 || ry == 0) = true := by
    simp [hrx.ne', hry.ne']
  refine ⟨⟨start, vs, false⟩, ?_, last, ?_⟩
  · rw [outline, if_neg round]
    simp only [start] at drawn ⊢
    rw [drawn]
    rfl
  · intro v mem
    obtain rfl | mem := List.mem_cons.mp mem
    · refine ⟨false, false, onCorner_of (le_refl 0) zero_le_one (by norm_num) ?_ ?_⟩
      · simp [start, inset]
      · simp [start, inset]
    · exact on v mem

/-- What is said of a vertex: it is in the rectangle, and near a corner on the ellipse there. -/
structure Fits (corner : Point ℝ) (w h rx ry : ℝ) (v : Point ℝ) : Prop where
  horizontal : corner.x ≤ v.x ∧ v.x ≤ corner.x + w
  vertical : corner.y ≤ v.y ∧ v.y ≤ corner.y + h
  round : ∀ right bottom, |v.x - sideEnd corner.x w right| < rx →
    |v.y - sideEnd corner.y h bottom| < ry →
      ((v.x - inset corner.x w rx right) / rx) ^ 2 +
        ((v.y - inset corner.y h ry bottom) / ry) ^ 2 = 1

theorem OnCorner.fits (hrx : 0 < rx) (hry : 0 < ry) (halfx : rx ≤ w / 2) (halfy : ry ≤ h / 2)
    {right bottom : Bool} {v : Point ℝ} (on : OnCorner corner w h rx ry right bottom v) :
    Fits corner w h rx ry v := by
  obtain ⟨s, t, circle, x, y⟩ := on
  refine ⟨x.mem hrx.le halfx, y.mem hry.le halfy, ?_⟩
  intro right' bottom' nearx neary
  rw [x.eq_of_near hrx.le halfx nearx, y.eq_of_near hry.le halfy neary, x.sq_div hrx,
    y.sq_div hry]
  exact circle

/-- The outline with sharp corners. -/
def sharpRect (corner : Point ℝ) (w h : ℝ) : Polyline ℝ :=
  ⟨corner, [⟨corner.x + w, corner.y⟩, ⟨corner.x + w, corner.y + h⟩, ⟨corner.x, corner.y + h⟩,
    corner], false⟩

theorem eq_of_mem_sharp {v : Point ℝ} (mem : v ∈ (sharpRect corner w h).vertices) :
    ∃ right bottom, v = ⟨sideEnd corner.x w right, sideEnd corner.y h bottom⟩ := by
  simp only [Polyline.vertices, sharpRect, List.mem_cons, List.not_mem_nil, or_false] at mem
  obtain rfl | rfl | rfl | rfl | rfl := mem
  · exact ⟨false, false, rfl⟩
  · exact ⟨true, false, rfl⟩
  · exact ⟨true, true, rfl⟩
  · exact ⟨false, true, rfl⟩
  · exact ⟨false, false, rfl⟩

theorem exists_outline_rect (corner : Point ℝ) (hrx : 0 ≤ rx) (hry : 0 ≤ ry)
    (halfx : rx ≤ w / 2) (halfy : ry ≤ h / 2) {tolerance : ℝ} (positive : 0 < tolerance)
    (depth : ℤ) :
    ∃ l : Polyline ℝ, outline tolerance depth (.rect corner w h rx ry) = .ok l ∧
      l.last = l.start ∧ ∀ v ∈ l.vertices, Fits corner w h rx ry v := by
  by_cases sharp : rx = 0 ∨ ry = 0
  · -- The corners themselves; nothing is nearer than zero to one.
    have flat : (rx == 0 || ry == 0) = true := by
      simpa using sharp
    refine ⟨sharpRect corner w h, ?_, rfl, ?_⟩
    · rw [outline, if_pos flat]
      rfl
    · intro v mem
      obtain ⟨right, bottom, rfl⟩ := eq_of_mem_sharp mem
      refine ⟨sideEnd_mem corner.x (by linarith) right, sideEnd_mem corner.y (by linarith) bottom,
        ?_⟩
      intro right' bottom' nearx neary
      have posx := (abs_nonneg _).trans_lt nearx
      have posy := (abs_nonneg _).trans_lt neary
      exact absurd sharp (not_or.mpr ⟨posx.ne', posy.ne'⟩)
  · obtain ⟨notx, noty⟩ := not_or.mp sharp
    have posx : 0 < rx := hrx.lt_of_ne' notx
    have posy : 0 < ry := hry.lt_of_ne' noty
    obtain ⟨l, drawn, closed, on⟩ := exists_outline_round corner w h posx posy positive depth
    refine ⟨l, drawn, closed, ?_⟩
    intro v mem
    obtain ⟨right, bottom, on⟩ := on v mem
    exact on.fits posx posy halfx halfy

end Shape

/-! ### Rectangles by attributes -/

namespace Attributes

/-- Attributes that give a rectangle and its corner radii. -/
structure GivesRectangle (attrs : Attributes) (corner : Point ℝ) (w h : ℝ) (rx ry : Option ℝ) :
    Prop where
  x : attrs.lengthOf "x" (some 0) = .ok corner.x
  y : attrs.lengthOf "y" (some 0) = .ok corner.y
  width : attrs.lengthOf "width" none = .ok w
  height : attrs.lengthOf "height" none = .ok h
  radii : attrs.lengthOf? "rx" = .ok rx ∧ attrs.lengthOf? "ry" = .ok ry
  positive : 0 < w ∧ 0 < h
  nonneg : (∀ r ∈ rx, 0 ≤ r) ∧ ∀ r ∈ ry, 0 ≤ r

/-- A radius as it is used: the other one stands for one that is not given, and none is longer
than half of its side. -/
noncomputable def clampedRadius (given other : Option ℝ) (side : ℝ) : ℝ :=
  min (given.getD (other.getD 0)) (side / 2)

theorem clampedRadius_nonneg {given other : Option ℝ} {side : ℝ} (positive : 0 < side)
    (hgiven : ∀ r ∈ given, 0 ≤ r) (hother : ∀ r ∈ other, 0 ≤ r) :
    0 ≤ clampedRadius given other side := by
  refine le_min ?_ (by linarith)
  cases given with
  | some r => exact hgiven r rfl
  | none =>
    cases other with
    | some r => exact hother r rfl
    | none => exact le_refl 0

theorem checkRadius_eq_ok {name : String} {radius : Option ℝ} (h : ∀ r ∈ radius, 0 ≤ r) :
    checkRadius name radius = .ok () := by
  cases radius with
  | none => rfl
  | some r => exact if_neg (not_lt.mpr (h r rfl))

theorem sizeOf_eq_ok {attrs : Attributes} {name : String} {x : ℝ}
    (h : attrs.lengthOf name none = .ok x) (nonneg : 0 ≤ x) : attrs.sizeOf name = .ok x := by
  rw [sizeOf, h]
  change (if x < 0 then .error (.negative name x) else .ok x : Except (ShapeError ℝ) ℝ) = _
  exact if_neg (not_lt.mpr nonneg)

variable {attrs : Attributes} {corner : Point ℝ} {w h : ℝ} {rx ry : Option ℝ}

theorem GivesRectangle.cornerRadii_eq (given : attrs.GivesRectangle corner w h rx ry) :
    attrs.cornerRadii w h = .ok (clampedRadius rx ry w, clampedRadius ry rx h) := by
  rw [cornerRadii, given.radii.1, given.radii.2]
  change (do
    checkRadius "rx" rx
    checkRadius "ry" ry
    return (smaller (rx.getD (ry.getD 0)) (w / 2),
      smaller (ry.getD (rx.getD (ry.getD 0))) (h / 2))) = _
  rw [checkRadius_eq_ok given.nonneg.1, checkRadius_eq_ok given.nonneg.2, Exact.smaller_eq,
    Exact.smaller_eq]
  cases ry with
  | none => rfl
  | some r => rfl

theorem GivesRectangle.rectOf_eq (given : attrs.GivesRectangle corner w h rx ry) :
    Shape.rectOf attrs =
      .ok (some (.rect corner w h (clampedRadius rx ry w) (clampedRadius ry rx h))) := by
  have solid : (w == 0 || h == 0) = false := by
    simp [given.positive.1.ne', given.positive.2.ne']
  rw [Shape.rectOf, given.x, given.y, sizeOf_eq_ok given.width given.positive.1.le,
    sizeOf_eq_ok given.height given.positive.2.le]
  simp only [bind, Except.bind, solid, Bool.false_eq_true, if_false, given.cornerRadii_eq]
  rfl

end Attributes

/-- **Rounded rectangles stay in their rectangle.** -/
theorem Shape.rounded_in_rectangle {attrs : Attributes} {corner : Point ℝ} {w h : ℝ}
    {rx ry : Option ℝ} (given : attrs.GivesRectangle corner w h rx ry) {tolerance : ℝ}
    (positive : 0 < tolerance) (depth : ℤ) :
    ∃ l, draw "rect" attrs tolerance depth = ([], .ok (some l)) ∧ l.last = l.start ∧
      ∀ v ∈ l.vertices, Fits corner w h (Attributes.clampedRadius rx ry w)
        (Attributes.clampedRadius ry rx h) v := by
  obtain ⟨l, drawn, closed, fits⟩ := exists_outline_rect corner
    (Attributes.clampedRadius_nonneg given.positive.1 given.nonneg.1 given.nonneg.2)
    (Attributes.clampedRadius_nonneg given.positive.2 given.nonneg.2 given.nonneg.1)
    (min_le_right _ _) (min_le_right _ _) positive depth
  refine ⟨l, ?_, closed, fits⟩
  rw [draw]
  simp only [ShapeTag.ofName?, ofAttributes, given.rectOf_eq, Except.mapError, bind, Except.bind,
    drawn]
  rfl

/-- A rectangle with one radius, longer than half of either side. -/
def Attributes.pill : Attributes := [("width", "40"), ("height", "20"), ("rx", "30")]

theorem Attributes.pill_givesRectangle : pill.GivesRectangle ⟨0, 0⟩ 40 20 (some 30) none := by
  -- A numeral alone is in user units.
  have length {value : String} {m : ℕ}
      (scanned : Numeral.scan? (Text.trimLeft value.toList) = some (⟨false, m, 0⟩, [])) :
      (length? value : Option ℝ) = some m := by
    have unit : LengthUnit.ofName? (String.ofList (Text.trim [])) = some .user := rfl
    rw [length?, scanned]
    simp only [bind, Option.bind, unit, Exact.value_eq, zpow_zero, mul_one, pure]
    exact congrArg some (mul_one _)
  have given {name value : String} {x : ℝ} (found : pill.lookup name = some value)
      (read : length? value = some x) : pill.lengthOf name none = .ok x := by
    rw [lengthOf, found]
    simp only [read]
  have w : pill.lengthOf "width" none = .ok (40 : ℝ) := given rfl (length (by decide +kernel))
  have h : pill.lengthOf "height" none = .ok (20 : ℝ) := given rfl (length (by decide +kernel))
  have r : pill.lengthOf "rx" none = .ok (30 : ℝ) := given rfl (length (by decide +kernel))
  refine ⟨rfl, rfl, w, h, ⟨?_, rfl⟩, by norm_num, by simp⟩
  have present : (pill.lookup "rx").isSome = true := rfl
  rw [lengthOf?, if_pos present, r]
  rfl

/-- Its corners take half of each side, so all edges have no length. -/
theorem Shape.rounded_in_rectangle_pill :
    Attributes.pill.GivesRectangle ⟨0, 0⟩ 40 20 (some 30) none ∧ (0 : ℝ) < 1 / 10 ∧
      ∃ l, draw "rect" Attributes.pill (1 / 10 : ℝ) 16 = ([], .ok (some l)) ∧
        l.last = l.start ∧ ∀ v ∈ l.vertices, Fits ⟨0, 0⟩ 40 20 20 10 v := by
  have rx : Attributes.clampedRadius (some 30) none 40 = 20 := by
    norm_num [Attributes.clampedRadius]
  have ry : Attributes.clampedRadius none (some 30) 20 = 10 := by
    norm_num [Attributes.clampedRadius]
  have positive : (0 : ℝ) < 1 / 10 := by norm_num
  have result := rounded_in_rectangle Attributes.pill_givesRectangle positive 16
  rw [rx, ry] at result
  exact ⟨Attributes.pill_givesRectangle, positive, result⟩

end BoardPlotter
