import BoardPlotter.Config
import BoardPlotter.Plan.Clip
import BoardPlotter.Plan.Hatch
import BoardPlotter.Svg.Drawing

/-!
# Conversions

A document is placed on the board, drawn, clipped to its viewport, and the
regions to be filled are hatched. Outlines are drawn before hatching passes.
-/

namespace BoardPlotter

open Scalar

/-- Where a document goes, and the lengths of the configuration in units of its
viewport. -/
structure Placement (α : Type) [Scalar α] where
  viewport : Viewport α
  board : Board α
  tolerance : α
  fillStep : α
  deriving Repr

/-- A converted document: clipped polylines, and the passes that fill them. -/
structure Conversion (α : Type) [Scalar α] where
  placement : Placement α
  polylines : List (Polyline α)
  passes : List (Pass α)
  deriving Repr

/-- Why a document is not converted. -/
inductive ConversionError (α : Type) where
  | board (e : BoardError α)
  | curve (e : CurveError α)
  | hatch (e : HatchError α)
  | fault (f : Fault)
  deriving Repr

namespace Placement

variable {α : Type} [Scalar α]

/-- Places a viewport on the board. -/
def ofViewport (c : Config α) (v : Viewport α) : Except (ConversionError α) (Placement α) := do
  let board ← (Board.ofCorners v.width v.height c.corners.origin c.corners.endX
    c.corners.endY).mapError .board
  let tolerance ← (board.inViewport c.accuracy).mapError .fault
  let fillStep ← (board.inViewport c.fillSpacing).mapError .fault
  return ⟨v, board, tolerance, fillStep⟩

/-- The window that is drawn in. -/
def window (p : Placement α) : Window α := ⟨p.viewport.width, p.viewport.height, epsilon⟩

/-- Draws a document where it is placed. -/
def draw (p : Placement α) (c : Config α) (doc : Document) :
    Except (ConversionError α) (Drawing α) :=
  (Drawing.ofDocument ⟨p.tolerance, c.segments, c.depth⟩ c.defaultWidth c.defaultHeight
    (some p.viewport) doc).mapError .curve

/-- The plan of one region. -/
def hatch (p : Placement α) (l : Polyline α) : Except (HatchError α) (HatchPlan α) :=
  HatchPlan.ofPolyline l p.fillStep epsilon

/-- The passes of the regions among clipped polylines, in order. -/
def fill (p : Placement α) (ls : List (Polyline α)) : Except (HatchError α) (List (Pass α)) := do
  let plans ← (ls.filter (·.fill)).mapM p.hatch
  return plans.flatMap (·.passes)

end Placement

namespace Conversion

variable {α : Type} [Scalar α]

/-- The viewport of a document, and what is said when it is found. -/
def viewportOf (c : Config α) (doc : Document) : Viewport α × List Notice :=
  Viewport.resolve doc.root c.defaultWidth c.defaultHeight

def ofDocument (c : Config α) (doc : Document) : Except (ConversionError α) (Conversion α) := do
  let p ← Placement.ofViewport c (viewportOf c doc).1
  let drawing ← p.draw c doc
  match drawing.fault? with
  | some f => throw (.fault f)
  | none =>
    let polylines := p.window.splitAll drawing.polylines
    let passes ← (p.fill polylines).mapError .hatch
    return ⟨p, polylines, passes⟩

/-- Outlines first, then passes. -/
def operations (r : Conversion α) : List (Operation α) :=
  Operation.ofPolylines r.polylines none ++ Operation.ofPasses r.passes none

/-- The robot that carries the conversion out. -/
def plotter (r : Conversion α) (tool : ToolSettings α) : Plotter α := ⟨r.placement.board, tool⟩

end Conversion

/-- What is said while regions are hatched, and how many passes there are; an
error leaves the end unsaid. -/
def Placement.fillNotices (p : Placement Float) (passes : Nat) :
    List (Polyline Float) → List Notice
  | [] => [.info s!"Planned {passes} fill pass(es)"]
  | l :: ls =>
    if l.fill then
      match p.hatch l with
      | .error _ => []
      | .ok plan => plan.notices p.fillStep ++ p.fillNotices (passes + plan.passes.length) ls
    else p.fillNotices passes ls

/-- What is said of a placement. -/
def Placement.notice (p : Placement Float) : Notice :=
  .info (s!"Viewport {Double.fixed 3 p.viewport.width} x {Double.fixed 3 p.viewport.height}, " ++
    s!"tolerance {Double.general 4 p.tolerance}, fill step {Double.general 4 p.fillStep} " ++
    "(viewport units)")

/-- What is said while a document is converted. -/
def Conversion.notices (c : Config Float) (doc : Document) : List Notice :=
  let (viewport, found) := viewportOf c doc
  found ++ match Placement.ofViewport c viewport with
    | .error _ => []
    | .ok p => p.notice :: match p.draw c doc with
      | .error _ => []
      | .ok drawing => drawing.notices doc.source ++ match drawing.fault? with
        | some _ => []
        | none =>
          let ls := drawing.polylines
          p.window.splitAllNotices ls ++ p.fillNotices 0 (p.window.splitAll ls)

/-- The program of a conversion. -/
def Conversion.program (r : Conversion Float) (tool : ToolSettings Float) :
    Except (ToolError Float) String :=
  Program.text (r.plotter tool) r.operations

/-- What is said while the program is made. -/
def Conversion.programNotices (r : Conversion Float) (tool : ToolSettings Float) : List Notice :=
  Program.notices (r.plotter tool) r.operations

end BoardPlotter
