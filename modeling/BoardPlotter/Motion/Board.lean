import BoardPlotter.Decimal.Layout
import BoardPlotter.Geometry.Point
import BoardPlotter.Geometry.Vec3

/-!
# The board

The viewport is mapped linearly onto a board in space, given by the corner of
the origin and the two edges from it. The tool departs along the normal.
-/

namespace BoardPlotter

open Scalar

/-- A board carries what `Board.ofCorners` makes sure of: neither side of the viewport is zero
or less. So whatever is divided by a side has a quotient (`Board.div?_width`,
`Board.div?_height`). -/
structure Board (α : Type) [Scalar α] where
  width : α
  height : α
  origin : Vec3 α
  edgeX : Vec3 α
  edgeY : Vec3 α
  wide : ¬ width ≤ 0
  high : ¬ height ≤ 0
  deriving DecidableEq, Repr

/-- A viewport that is no rectangle. -/
inductive BoardError (α : Type) where
  | viewport (width height : α)
  deriving Repr

def BoardError.message : BoardError Float → String
  | viewport w h => s!"viewport must be positive, got {Double.text w} x {Double.text h}"

namespace Board

variable {α : Type} [Scalar α]

def ofCorners (width height : α) (origin cornerX cornerY : Vec3 α) :
    Except (BoardError α) (Board α) :=
  if h : width ≤ 0 ∨ height ≤ 0 then .error (.viewport width height)
  else .ok ⟨width, height, origin, cornerX - origin, cornerY - origin, (not_or.mp h).1,
    (not_or.mp h).2⟩

/-- The unit normal. -/
def normal (b : Board α) : Vec3 α := (b.edgeX.cross b.edgeY).normalize

/-- Length on the board per unit of the viewport. -/
def scaleX (b : Board α) : α := b.edgeX.length / b.width

def scaleY (b : Board α) : α := b.edgeY.length / b.height

/-- A length on the board in units of the viewport, by the finer scale. -/
def inViewport (b : Board α) (length : α) : Except Fault α := do
  let x ← div? b.width b.edgeX.length
  let y ← div? b.height b.edgeY.length
  return length * smaller x y

/-- The displacement on the board that a displacement in the viewport becomes. -/
def offset (b : Board α) (p : Point α) : Vec3 α :=
  b.edgeX.scale (p.x / b.width) + b.edgeY.scale (p.y / b.height)

/-- The place on the board of a point. -/
def place (b : Board α) (p : Point α) : Vec3 α := b.origin + b.offset p

/-- The place above a point at a distance along the normal. -/
def above (b : Board α) (p : Point α) (distance : α) : Vec3 α := b.place p + b.normal.scale distance

end Board

end BoardPlotter
