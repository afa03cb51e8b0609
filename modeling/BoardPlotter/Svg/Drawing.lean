import BoardPlotter.Svg.Nesting
import BoardPlotter.Svg.PathData.Pen
import BoardPlotter.Svg.Shape
import BoardPlotter.Svg.TransformList
import BoardPlotter.Svg.Viewport

/-!
# Drawing a document

The elements of a document, in order, each answered by a report: a group was
entered, an element is not supported, it was drawn, or it was skipped for an
error of its own. Only a fault of the numbers ends the drawing early.
-/

namespace BoardPlotter

open Scalar Text

/-- What became of an element. -/
inductive Outcome (α : Type) where
  | group
  | unsupported
  | drawn (polylines : List (Polyline α)) (notices : List Notice) (error : Option (PathError α))
  | skipped (notices : List Notice) (error : DrawError α)
  | fault (f : Fault)
  deriving Repr

/-- An element, the error for which its transform was ignored, and what became
of it. -/
structure Report (α : Type) where
  element : Element
  ignored : Option TransformError
  outcome : Outcome α

variable {α : Type} [Scalar α]

/-- The tolerance in the units of an element that is drawn under `t`. -/
def Flattening.under (f : Flattening α) (t : Affine α) : Flattening α :=
  let scale := t.maxScale
  if scale ≤ epsilon then f else { f with tolerance := f.tolerance / scale }

namespace Outcome

def ofError (notices : List Notice) : DrawError α → Outcome α
  | .curve (.fault f) => fault f
  | e => skipped notices e

/-- Draws a path element. -/
def ofPath (f : Flattening α) (t : Affine α) (e : Element) : Outcome α :=
  match PathDrawing.ofString (f.under t) ⟨t, e.isFilled⟩ ((e.get? "d").getD "") with
  | .ok d => drawn d.polylines [] d.error
  | .error err => ofError [] (.curve err)

/-- Draws a shape element. -/
def ofShape (f : Flattening α) (t : Affine α) (e : Element) : Outcome α :=
  let (notices, result) := Shape.draw e.name e.attributes (f.under t).tolerance f.depth
  match result with
  | .ok (some l) =>
    drawn (if l.isEmpty then [] else [l.finalize t e.isFilled]) notices none
  | .ok none => drawn [] notices none
  | .error err => ofError notices err

def polylines : Outcome α → List (Polyline α)
  | drawn ls _ _ => ls
  | _ => []

end Outcome

/-- Is the element drawn by itself? -/
def Element.isDrawn (e : Element) : Bool := e.name == "path" || (ShapeTag.ofName? e.name).isSome

/-- The map of an element's own transform attribute. -/
def Element.transform (e : Element) : Except Fault (Affine α × Option TransformError) :=
  match e.get? "transform" with
  | none => .ok (.identity, none)
  | some value => TransformList.read value

/-- The outcome of an element that is no group, drawn under `t`. -/
def Outcome.ofElement (f : Flattening α) (t : Affine α) (e : Element) : Outcome α :=
  if e.name == "path" then ofPath f t e else ofShape f t e

/-- What becomes of one visited element, and the groups around the next one. -/
def Report.visit (f : Flattening α) (n : Nesting α) (e : Element) (depth : Nat) :
    Nesting α × Report α :=
  match (e.transform : Except Fault (Affine α × Option TransformError)) with
  | .error fault => (n, ⟨e, none, .fault fault⟩)
  | .ok (own, ignored) =>
    if Element.isGroup e.name then (n.enter depth own, ⟨e, ignored, .group⟩)
    else if e.isDrawn then
      let (n, t) := n.leaf depth own
      (n, ⟨e, ignored, .ofElement f t e⟩)
    else (n, ⟨e, ignored, .unsupported⟩)

/-- The reports of visited elements, up to a fault. -/
def Report.survey (f : Flattening α) : Nesting α → List (Element × Nat) → List (Report α)
  | _, [] => []
  | n, (e, depth) :: rest =>
    let (n, r) := Report.visit f n e depth
    match r.outcome with
    | .fault _ => [r]
    | _ => r :: survey f n rest

/-- A drawn document: its viewport, what was said when that was found, and the
reports. -/
structure Drawing (α : Type) where
  viewport : Viewport α
  found : List Notice
  reports : List (Report α)

namespace Drawing

/-- Draws a document in a given viewport. -/
def within (f : Flattening α) (viewport : Viewport α) (doc : Document) : List (Report α) :=
  Report.survey f (.root viewport.transform) (doc.root.visits 0)

/-- Draws a document in a given viewport, or in its own. The tolerance may not
be zero or negative. -/
def ofDocument (f : Flattening α) (defaultWidth defaultHeight : α) (given : Option (Viewport α))
    (doc : Document) : Except (CurveError α) (Drawing α) :=
  if f.tolerance ≤ 0 then .error (.tolerance f.tolerance)
  else
    let (viewport, found) :=
      match given with
      | some v => (v, [])
      | none => Viewport.resolve doc.root defaultWidth defaultHeight
    .ok ⟨viewport, found, within f viewport doc⟩

def polylines (d : Drawing α) : List (Polyline α) := d.reports.flatMap (·.outcome.polylines)

def skipped (d : Drawing α) : Nat :=
  d.reports.countP fun r => match r.outcome with | .skipped .. => true | _ => false

def fault? (d : Drawing α) : Option Fault :=
  d.reports.findSome? fun r => match r.outcome with | .fault f => some f | _ => none

end Drawing

/-- An element as it is named in messages. -/
def Element.describe (e : Element) : String :=
  match e.get? "id" with
  | none | some "" => s!"<{e.name}>"
  | some id => s!"<{e.name} id={quoted id}>"

def DrawError.message : DrawError Float → String
  | shape e => e.message
  | curve e => e.message

namespace Report

def notices (r : Report Float) : List Notice :=
  let ignored := match r.ignored with
    | some e => [e.notice ((r.element.get? "transform").getD "")]
    | none => []
  let name := r.element.describe
  ignored ++ match r.outcome with
    | .group | .fault _ => []
    | .unsupported => [.debug s!"Ignoring unsupported element {name}"]
    | .skipped ns e => ns ++ [.warning s!"Skipping {name}: {e.message}"]
    | .drawn ls ns error =>
      let kept := ls.length
      let problem := error.toList.map fun e =>
        Notice.warning s!"Path data error in {name}: {e.message} (kept {kept} primitive(s))"
      ns ++ problem ++ [.debug s!"{name} -> {kept} primitive(s)"]

end Report

/-- What is said while a document is drawn; a fault leaves the end unsaid. -/
def Drawing.notices (d : Drawing Float) (source : String) : List Notice :=
  let w := Double.fixed 3 d.viewport.width
  let h := Double.fixed 3 d.viewport.height
  d.found ++ .debug s!"Viewport {w} x {h} for {source}" :: d.reports.flatMap Report.notices ++
    if d.fault?.isSome then []
    else [.info s!"Translated {source}: {d.polylines.length} primitives, {d.skipped} elements skipped"]

end BoardPlotter
