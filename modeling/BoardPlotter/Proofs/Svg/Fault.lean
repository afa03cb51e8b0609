import BoardPlotter.Proofs.PathData.Arcs
import BoardPlotter.Proofs.Svg.Ancestry

/-!
# What ends the drawing of a document

Errors of an element are its own: it is skipped, or keeps what was drawn before its
first path error. Only faults of the numbers end the drawing, and they have two sources:
a turn or skew by an infinite angle, met before the first malformed function of a
transform, and an arc without a centre, met before the first curve that is not sampled.
`Element.fault?` looks for these alone. The first element with one ends the drawing, and
without one the drawing is complete (`Drawing.fault?_within`).
-/

namespace BoardPlotter

open Scalar

variable {α : Type} [Scalar α]

/-! ### Arcs of a shape -/

/-- The arcs met one after another, up to the first one that is not sampled. -/
def EndpointArc.met (tolerance : α) (depth : Int) : List (EndpointArc α) → List (EndpointArc α)
  | [] => []
  | e :: es =>
    e ::
      match e.flatten tolerance depth with
      | .ok _ => met tolerance depth es
      | .error _ => []

namespace Shape

/-- The arcs of a shape; only a rounded rectangle has some. -/
def arcs (tolerance : α) (depth : Int) : Shape α → List (EndpointArc α)
  | .rect corner w h rx ry =>
    if rx == 0 || ry == 0 then []
    else
      EndpointArc.met tolerance depth
        ((edges corner w h rx ry).map fun s => ⟨s.1, s.2, rx, ry, 0, false, true⟩)
  | _ => []

theorem roundedFrom_eq_fault_iff (rx ry tolerance : α) (depth : Int) (last : Point α)
    (ends : List (Point α × Point α)) (x : Fault) :
    roundedFrom rx ry tolerance depth last ends = .error (.fault x) ↔
      (EndpointArc.met tolerance depth
        (ends.map fun s => ⟨s.1, s.2, rx, ry, 0, false, true⟩)).findSome?
          (·.faultAt? tolerance) = some x := by
  induction ends generalizing last with
  | nil => simp [roundedFrom, EndpointArc.met]
  | cons s rest ih =>
    obtain ⟨edge, corner⟩ := s
    have first (x : Fault) :=
      EndpointArc.flatten_eq_fault_iff ⟨edge, corner, rx, ry, 0, false, true⟩ tolerance depth x
    rw [roundedFrom, List.map_cons, EndpointArc.met, List.findSome?_cons]
    cases drawn : (EndpointArc.mk edge corner rx ry 0 false true).flatten tolerance depth with
    | error e =>
      have failed := first x
      rw [drawn] at failed
      simp only [bind, Except.bind, Except.error.injEq] at failed ⊢
      rw [failed]
      cases (EndpointArc.mk edge corner rx ry 0 false true).faultAt? tolerance <;> simp
    | ok arc =>
      rw [drawn] at first
      have clear := eq_none_of_iff first fun y hy => by cases hy
      rw [clear, ← ih]
      exact return_eq_error_iff _ _ _

theorem outline_eq_fault_iff (tolerance : α) (depth : Int) (s : Shape α) (x : Fault) :
    s.outline tolerance depth = .error (.fault x) ↔
      (s.arcs tolerance depth).findSome? (·.faultAt? tolerance) = some x := by
  cases s with
  | rect corner w h rx ry =>
    rw [outline, arcs]
    by_cases square : (rx == 0 || ry == 0) = true
    · simp [square]
    · simp only [square, Bool.false_eq_true, if_false]
      rw [← roundedFrom_eq_fault_iff]
      exact return_eq_error_iff _ _ _
  | ellipse e =>
    refine iff_of_false (fun h => ?_) (fun h => by cases h)
    rw [outline, return_eq_error_iff, Ellipse.sample, checkTolerance] at h
    split at h
    · cases h
    · split at h <;> cases h
  | line | points => exact iff_of_false (fun h => by cases h) (fun h => by cases h)

end Shape

/-! ### Elements -/

namespace Element

/-- The steps of a path element before its first path error. -/
def steps (e : Element) : List (PathStep α) :=
  (PathStep.untilError (PathStep.ofReading (PathReading.ofString ((e.get? "d").getD "")))).1

/-- The arcs met while an element is drawn. -/
def arcs (f : Flattening α) (e : Element) : List (EndpointArc α) :=
  if e.name == "path" then Pen.initial.arcs f e.steps
  else
    match ShapeTag.ofName? e.name with
    | none => []
    | some tag =>
      match (Shape.ofAttributes tag e.attributes).2 with
      | .ok (some s) => s.arcs f.tolerance f.depth
      | _ => []

/-- The functions of a transform attribute before its first malformed one. -/
def functions (e : Element) : List TransformFunction :=
  match e.get? "transform" with
  | none => []
  | some value => (TransformList.ofString value).1

end Element

namespace Outcome

omit [Scalar α] in
theorem ofError_eq_fault_iff (notices : List Notice) (e : DrawError α) (x : Fault) :
    ofError notices e = .fault x ↔ e = .curve (.fault x) := by
  cases e with
  | shape e => exact iff_of_false (fun h => by cases h) (fun h => by cases h)
  | curve e => cases e <;> simp [ofError]

theorem ofPath_eq_fault_iff (f : Flattening α) (t : Affine α) (e : Element) (x : Fault) :
    ofPath f t e = .fault x ↔
      (Pen.initial.arcs (f.under t) e.steps).findSome? (·.faultAt? (f.under t).tolerance) =
        some x := by
  have drawing : PathDrawing.ofString (f.under t) ⟨t, e.isFilled⟩ ((e.get? "d").getD "") =
      .error (.fault x) ↔ Pen.initial.trace (f.under t) e.steps = .error (.fault x) :=
    (return_eq_error_iff _ _ _).trans (return_eq_error_iff _ _ _)
  rw [← Pen.trace_eq_fault_iff, ← drawing, ofPath]
  cases PathDrawing.ofString (f.under t) ⟨t, e.isFilled⟩ ((e.get? "d").getD "") with
  | ok d => exact iff_of_false (fun h => by cases h) (fun h => by cases h)
  | error err => simp only [ofError_eq_fault_iff, DrawError.curve.injEq, Except.error.injEq]

theorem ofShape_eq_fault_iff (f : Flattening α) (t : Affine α) {e : Element}
    (h : (e.name == "path") = false) (x : Fault) :
    ofShape f t e = .fault x ↔
      (e.arcs (f.under t)).findSome? (·.faultAt? (f.under t).tolerance) = some x := by
  have drawing (tolerance : α) : (Shape.draw e.name e.attributes tolerance f.depth).2 =
      .error (.curve (.fault x)) ↔
        (e.arcs { f with tolerance }).findSome? (·.faultAt? tolerance) = some x := by
    rw [Shape.draw, Element.arcs, h]
    cases ShapeTag.ofName? e.name with
    | none => exact iff_of_false (fun h => by cases h) (fun h => by cases h)
    | some tag =>
      simp only [Bool.false_eq_true, if_false]
      obtain ⟨notices, shape⟩ := Shape.ofAttributes tag e.attributes (α := α)
      cases shape with
      | error err => exact iff_of_false (fun h => by cases h) (fun h => by cases h)
      | ok s =>
        cases s with
        | none => exact iff_of_false (fun h => by cases h) (fun h => by cases h)
        | some s =>
          dsimp only
          rw [← Shape.outline_eq_fault_iff]
          change Except.map some ((s.outline tolerance f.depth).mapError DrawError.curve) = _ ↔ _
          cases s.outline tolerance f.depth with
          | ok l => exact iff_of_false (fun h => by cases h) (fun h => by cases h)
          | error err => simp [Except.map, Except.mapError]
  have under : { f with tolerance := (f.under t).tolerance } = f.under t := by
    rw [Flattening.under]
    split <;> rfl
  rw [← under, ← drawing, ofShape]
  obtain ⟨notices, result⟩ := Shape.draw e.name e.attributes (f.under t).tolerance f.depth
  dsimp only
  cases result with
  | error err => simp only [ofError_eq_fault_iff, Except.error.injEq]
  | ok l => cases l <;> exact iff_of_false (fun h => by cases h) (fun h => by cases h)

/-- An element is a fault precisely if an arc of it has one. -/
theorem ofElement_eq_fault_iff (f : Flattening α) (t : Affine α) (e : Element) (x : Fault) :
    ofElement f t e = .fault x ↔
      (e.arcs (f.under t)).findSome? (·.faultAt? (f.under t).tolerance) = some x := by
  rw [ofElement]
  cases path : e.name == "path" with
  | true =>
    rw [Element.arcs, path]
    exact ofPath_eq_fault_iff f t e x
  | false => exact ofShape_eq_fault_iff f t path x

end Outcome

/-! ### Transforms -/

namespace TransformFunction

/-- The angle that a function turns or skews by. -/
def angle? : TransformFunction → Option Numeral
  | rotate angle _ | skewX angle | skewY angle => some angle
  | matrix .. | translate .. | scale .. => none

variable (α) in
/-- A function only fails by an infinite angle. -/
def fault? (g : TransformFunction) : Option Fault :=
  g.angle?.bind fun angle => if isInfinite (radians (angle.value : α)) then some .domain else none

theorem toAffine?_eq_error_iff (g : TransformFunction) (x : Fault) :
    (g.toAffine? : Except Fault (Affine α)) = .error x ↔ g.fault? α = some x := by
  cases g with
  | matrix | translate | scale => exact iff_of_false (fun h => by cases h) (fun h => by cases h)
  | skewX angle | skewY angle =>
    refine (return_eq_error_iff _ _ _).trans ?_
    rw [tan?, angle?_eq, fault?, TransformFunction.angle?, Option.bind_some]
    split <;> simp
  | rotate angle center =>
    have turn (cx cy : α) : Affine.rotate? angle.value cx cy = .error x ↔
        (rotate angle center).fault? α = some x := by
      rw [Affine.rotate?, cos?, sin?, angle?_eq, fault?, TransformFunction.angle?, Option.bind_some]
      by_cases infinite : isInfinite (radians (angle.value : α)) = true
      · simp [infinite, bind, Except.bind]
      · simp only [infinite, Bool.false_eq_true, if_false]
        refine iff_of_false (fun h => ?_) (fun h => by cases h)
        change (if (cx == 0 && cy == 0) = true then Except.ok _ else Except.ok _) = _ at h
        split at h <;> cases h
    cases center with
    | none => exact turn 0 0
    | some center => exact turn _ _

end TransformFunction

theorem TransformList.compose_eq_error_iff (gs : List TransformFunction) (x : Fault) :
    (compose gs : Except Fault (Affine α)) = .error x ↔ gs.findSome? (·.fault? α) = some x := by
  have main (t : Affine α) :
      gs.foldlM (fun t g => return t.comp (← g.toAffine?)) t = .error x ↔
        gs.findSome? (·.fault? α) = some x := by
    induction gs generalizing t with
    | nil => exact iff_of_false (fun h => by cases h) (fun h => by cases h)
    | cons g gs ih =>
      have first (x : Fault) := g.toAffine?_eq_error_iff (α := α) x
      rw [List.foldlM_cons, List.findSome?_cons]
      cases map : (g.toAffine? : Except Fault (Affine α)) with
      | error e =>
        rw [map] at first
        have failed := (first e).mp rfl
        rw [failed]
        simp [bind, Except.bind]
      | ok u =>
        rw [map] at first
        have clear := eq_none_of_iff first fun y hy => by cases hy
        rw [clear]
        exact ih _
  exact main .identity

/-- A function before the first malformed one may fail a value, and nothing else does. -/
theorem TransformList.read_eq_error_iff (value : String) (x : Fault) :
    (read value : Except Fault (Affine α × Option TransformError)) = .error x ↔
      (ofString value).1.findSome? (·.fault? α) = some x := by
  rw [← compose_eq_error_iff, read]
  obtain ⟨gs, malformed⟩ := ofString value
  dsimp only
  cases (compose gs : Except Fault (Affine α)) with
  | error e => simp [bind, Except.bind]
  | ok t =>
    refine iff_of_false (fun h => ?_) (fun h => by cases h)
    cases malformed <;> cases h

theorem Element.transform_eq_error_iff (e : Element) (x : Fault) :
    (e.transform : Except Fault (Affine α × Option TransformError)) = .error x ↔
      e.functions.findSome? (·.fault? α) = some x := by
  rw [transform, functions]
  cases e.get? "transform" with
  | none => exact iff_of_false (fun h => by cases h) (fun h => by cases h)
  | some value => exact TransformList.read_eq_error_iff value x

/-! ### Documents -/

namespace Element

theorem isGroup_of_isDrawn {e : Element} (h : e.isDrawn = true) : isGroup e.name = false := by
  by_contra group
  have name : e.name ∈ ["svg", "g", "a", "switch"] :=
    List.contains_iff_mem.mp (Bool.not_eq_false _ ▸ group)
  simp only [List.mem_cons, List.not_mem_nil, or_false] at name
  rw [isDrawn] at h
  rcases name with eq | eq | eq | eq <;> rw [eq] at h <;> exact absurd h (by decide)

/-- The fault of an element in groups: one of its own transform, or of the arcs met when
it is drawn under their composition. -/
def fault? (f : Flattening α) (base : Affine α) (groups : List Element) (e : Element) :
    Option Fault :=
  (e.functions.findSome? (·.fault? α)).or <|
    if e.isDrawn then
      let f := f.under (base.inGroups (groups ++ [e]))
      (e.arcs f).findSome? (·.faultAt? f.tolerance)
    else none

end Element

theorem Affine.inGroups_concat (base : Affine α) (groups : List Element) {e : Element}
    {own : Affine α} (h : e.ownMap? = some own) :
    base.inGroups (groups ++ [e]) = (base.inGroups groups).comp own := by
  simp [inGroups, h]

namespace Report

theorem outcome_under_eq_fault_iff (f : Flattening α) (base : Affine α) (groups : List Element)
    (e : Element) (x : Fault) :
    (under f base groups e).outcome = .fault x ↔ e.fault? f base groups = some x := by
  have first (x : Fault) := e.transform_eq_error_iff (α := α) x
  rw [under, Element.fault?]
  cases read : (e.transform : Except Fault (Affine α × Option TransformError)) with
  | error y =>
    rw [read] at first
    rw [(first y).mp rfl]
    simp
  | ok read' =>
    obtain ⟨own, ignored⟩ := read'
    rw [read] at first
    have clear := eq_none_of_iff first fun y hy => by cases hy
    have map : e.ownMap? = some own := by
      rw [Element.ownMap?, read]
      rfl
    rw [clear, Option.none_or]
    by_cases drawn : e.isDrawn = true
    · simp only [drawn, if_true, Element.isGroup_of_isDrawn drawn, Bool.false_eq_true, if_false]
      rw [Outcome.ofElement_eq_fault_iff, Affine.inGroups_concat base groups map]
    · simp only [drawn, Bool.false_eq_true, if_false]
      split <;> simp

end Report

/-- The fault that an outcome is. -/
def Outcome.fault? : Outcome α → Option Fault
  | .fault x => some x
  | _ => none

omit [Scalar α] in
/-- Cutting reports off behind the first fault keeps it. -/
theorem Report.findSome?_untilFault (reports : List (Report α)) :
    (untilFault reports).findSome? (·.outcome.fault?) = reports.findSome? (·.outcome.fault?) := by
  induction reports with
  | nil => rfl
  | cons r rs ih =>
    rw [untilFault]
    cases h : r.outcome with
    | fault x => simp [h, Outcome.fault?]
    | group | unsupported | drawn | skipped => rw [List.findSome?_cons, List.findSome?_cons, ih]

theorem Drawing.within_eq (f : Flattening α) (viewport : Viewport α) (doc : Document) :
    within f viewport doc =
      Report.untilFault
        (doc.root.sites.map fun p => Report.under f viewport.transform p.inForce p.element) := by
  have run := Report.survey_sites f viewport.transform
    (Element.chained_sitesIn [] [] doc.root) (fun _ hv => by cases hv)
  rw [Element.map_visit_sitesIn] at run
  exact run

/-- The fault that ends a drawing is the first one of an element. -/
theorem Drawing.fault?_within (f : Flattening α) (viewport : Viewport α) (found : List Notice)
    (doc : Document) :
    (Drawing.mk viewport found (within f viewport doc)).fault? =
      doc.root.sites.findSome? fun p => p.element.fault? f viewport.transform p.inForce := by
  have outcomes (d : Drawing α) : d.fault? = d.reports.findSome? (·.outcome.fault?) := rfl
  rw [outcomes, within_eq, Report.findSome?_untilFault, List.findSome?_map]
  congr 1
  funext p
  apply Option.ext
  intro x
  rw [← Report.outcome_under_eq_fault_iff]
  cases h : (Report.under f viewport.transform p.inForce p.element).outcome <;>
    simp [Outcome.fault?, h]

end BoardPlotter
