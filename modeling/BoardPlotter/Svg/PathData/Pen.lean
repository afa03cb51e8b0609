import BoardPlotter.Geometry.Arc
import BoardPlotter.Geometry.Polyline
import BoardPlotter.Svg.PathData.Step

/-!
# The pen of a path

A pen at its current point carries out steps: it answers each with the vertices
drawn, curves being flattened. Smooth curves continue the curve before them, so
the pen remembers the last control point of a cubic or a quadratic.
-/

namespace BoardPlotter

open Scalar

/-- The control point to be reflected by a smooth curve of the same family. -/
inductive CurveMemory (α : Type) where
  | blank
  | cubic (control : Point α)
  | quadratic (control : Point α)
  deriving DecidableEq, Repr

structure Pen (α : Type) where
  current : Point α
  subpathStart : Point α
  memory : CurveMemory α
  deriving DecidableEq, Repr

/-- How curves are flattened: adaptively, or in a fixed number of segments. -/
structure Flattening (α : Type) where
  tolerance : α
  segments : Option Int
  depth : Int
  deriving DecidableEq, Repr

/-- What a step does to the outline: begin a new one, or go on with vertices. -/
inductive PenEvent (α : Type) where
  | lifted (start : Point α)
  | drew (points : List (Point α))
  deriving DecidableEq, Repr

variable {α : Type} [Scalar α]

/-- The polyline of a curve. -/
def Flattening.bezier (f : Flattening α) (control : List (Point α)) :
    Except (CurveError α) (List (Point α)) :=
  match f.segments with
  | some n => Bezier.sample control n
  | none => Bezier.flatten control f.tolerance f.depth

namespace Pen

def initial : Pen α := ⟨.origin, .origin, .blank⟩

/-- A given point, absolute or relative to the current one. -/
def target (pen : Pen α) (relative : Bool) (p : Point α) : Point α :=
  if relative then pen.current + p else p

def advance (pen : Pen α) (p : Point α) (memory : CurveMemory α) : Pen α :=
  { pen with current := p, memory }

/-- A straight line; one of no length draws nothing. -/
def line (pen : Pen α) (p : Point α) : Pen α × PenEvent α :=
  (pen.advance p .blank, .drew (if (p - pen.current).lengthSquared == 0 then [] else [p]))

/-- A curve from the current point. -/
def curve (pen : Pen α) (f : Flattening α) (control : List (Point α)) (p : Point α)
    (memory : CurveMemory α) : Except (CurveError α) (Pen α × PenEvent α) := do
  let polygon := pen.current :: control ++ [p]
  let drawn ← if Bezier.isDegenerate polygon then pure [] else f.bezier polygon
  return (pen.advance p memory, .drew (drawn.drop 1))

/-- The control point reflected through the current point. -/
def reflect (pen : Pen α) (control : Point α) : Point α := pen.current.scale 2 - control

/-- The first control point of a smooth cubic. -/
def smoothCubic (pen : Pen α) : Point α :=
  match pen.memory with
  | .cubic c => pen.reflect c
  | _ => pen.current

/-- The control point of a smooth quadratic. -/
def smoothQuadratic (pen : Pen α) : Point α :=
  match pen.memory with
  | .quadratic c => pen.reflect c
  | _ => pen.current

/-- An arc; a radius of zero makes it a line. -/
def arc (pen : Pen α) (f : Flattening α) (rx ry rotation : α) (large sweep : Bool) (p : Point α) :
    Except (CurveError α) (Pen α × PenEvent α) := do
  if abs rx == 0 || abs ry == 0 then return pen.line p
  let e : EndpointArc α := ⟨pen.current, p, abs rx, abs ry, rotation, large, sweep⟩
  let drawn ← e.flatten f.tolerance f.depth
  return (pen.advance p .blank, .drew (drawn.drop 1))

def step (f : Flattening α) (pen : Pen α) (s : PathStep α) :
    Except (CurveError α) (Pen α × PenEvent α) :=
  let at_ := pen.target s.relative
  match s.motion with
  | .moveTo p => .ok (⟨at_ p, at_ p, .blank⟩, .lifted (at_ p))
  | .lineTo p => .ok (pen.line (at_ p))
  | .horizontalTo x =>
    .ok (pen.line ⟨if s.relative then pen.current.x + x else x, pen.current.y⟩)
  | .verticalTo y =>
    .ok (pen.line ⟨pen.current.x, if s.relative then pen.current.y + y else y⟩)
  | .closePath => .ok (pen.line pen.subpathStart)
  | .cubicTo c₁ c₂ p => pen.curve f [at_ c₁, at_ c₂] (at_ p) (.cubic (at_ c₂))
  | .smoothCubicTo c₂ p => pen.curve f [pen.smoothCubic, at_ c₂] (at_ p) (.cubic (at_ c₂))
  | .quadraticTo c p => pen.curve f [at_ c] (at_ p) (.quadratic (at_ c))
  | .smoothQuadraticTo p =>
    pen.curve f [pen.smoothQuadratic] (at_ p) (.quadratic pen.smoothQuadratic)
  | .arcTo rx ry rotation large sweep p => pen.arc f rx ry rotation large sweep (at_ p)

/-- The events of steps in order. -/
def trace (f : Flattening α) : Pen α → List (PathStep α) → Except (CurveError α) (List (PenEvent α))
  | _, [] => .ok []
  | pen, s :: ss => do
    let (pen, event) ← pen.step f s
    return event :: (← trace f pen ss)

end Pen

namespace PenEvent

/-- The vertices before the first moveto, and one outline per moveto. -/
def outlines : List (PenEvent α) → List (Point α) × List (Polyline α)
  | [] => ([], [])
  | .drew ps :: es => let (qs, ls) := outlines es; (ps ++ qs, ls)
  | .lifted p :: es => let (qs, ls) := outlines es; ([], ⟨p, qs, false⟩ :: ls)

end PenEvent

/-- How the outlines of an element are finished. -/
structure Finish (α : Type) where
  transform : Affine α
  fill : Bool
  deriving DecidableEq, Repr

/-- The polylines of a path, the state its reader ended in, and the first error. -/
structure PathDrawing (α : Type) where
  polylines : List (Polyline α)
  state : ReaderState
  error : Option (PathError α)
  deriving DecidableEq, Repr

namespace PathDrawing

/-- The polylines of steps: outlines with a vertex after their start, closed if
filled, then moved. -/
def polylinesOf (f : Flattening α) (finish : Finish α) (steps : List (PathStep α)) :
    Except (CurveError α) (List (Polyline α)) := do
  let events ← Pen.initial.trace f steps
  let outlines := (PenEvent.outlines events).2.filter fun l => !l.isEmpty
  return outlines.map fun l => l.finalize finish.transform finish.fill

/-- Draws path data up to its first error. -/
def ofString (f : Flattening α) (finish : Finish α) (data : String) :
    Except (CurveError α) (PathDrawing α) := do
  let reading := PathReading.ofString data
  let (steps, error) := PathStep.untilError (PathStep.ofReading reading)
  let polylines ← polylinesOf f finish steps
  return ⟨polylines, if error.isSome then .error else reading.state, error⟩

end PathDrawing

end BoardPlotter
