import BoardPlotter.Geometry.Arc
import BoardPlotter.Geometry.Ellipse
import BoardPlotter.Geometry.Polyline
import BoardPlotter.Log.Notice
import BoardPlotter.Markup.Element
import BoardPlotter.Svg.Length
import BoardPlotter.Text.Quoted

/-!
# Basic shapes

A shape is read from the attributes of its element and drawn as one outline.
A shape of no size is none. Closed shapes end on their start.
-/

namespace BoardPlotter

open Scalar Text

/-- What is said of a coordinate that was left over. -/
def oddNotice (odd : Bool) : List Notice :=
  if odd then [.warning "Odd coordinate count in points list, dropping last value"] else []

inductive ShapeTag where
  | rect
  | circle
  | ellipse
  | line
  | polyline
  | polygon
  deriving DecidableEq, Repr

def ShapeTag.ofName? : String → Option ShapeTag
  | "rect" => some rect
  | "circle" => some circle
  | "ellipse" => some ellipse
  | "line" => some line
  | "polyline" => some polyline
  | "polygon" => some polygon
  | _ => none

/-- Why attributes give no shape. -/
inductive ShapeError (α : Type) where
  | invalidLength (raw : String)
  | missing (name : String)
  | badLength (name raw : String)
  | negative (name : String) (value : α)
  | unsupported (tag : String)
  deriving DecidableEq, Repr

def ShapeError.message : ShapeError Float → String
  | invalidLength raw => s!"invalid length {quoted raw}"
  | missing name => s!"missing required attribute '{name}'"
  | badLength name raw => s!"attribute '{name}': invalid length {quoted raw}"
  | negative name x => s!"attribute '{name}' must be >= 0, got {Double.text x}"
  | unsupported tag => s!"unsupported shape element <{tag}>"

inductive Shape (α : Type) where
  | rect (corner : Point α) (width height rx ry : α)
  | ellipse (e : Ellipse α)
  | line (p q : Point α)
  | points (first : Point α) (rest : List (Point α)) (closed : Bool)
  deriving Repr

variable {α : Type} [Scalar α]

namespace Attributes

def lengthOf (attrs : Attributes) (name : String) (default : Option α) :
    Except (ShapeError α) α :=
  match attrs.lookup name with
  | some raw =>
    match length? raw with
    | some x => .ok x
    | none => .error (.badLength name raw)
  | none =>
    match default with
    | some x => .ok x
    | none => .error (.missing name)

/-- An attribute that must be there and not be negative. -/
def sizeOf (attrs : Attributes) (name : String) : Except (ShapeError α) α := do
  let x ← attrs.lengthOf name none
  if x < 0 then throw (.negative name x)
  return x

/-- An attribute that may be missing. -/
def lengthOf? (attrs : Attributes) (name : String) : Except (ShapeError α) (Option α) :=
  if (attrs.lookup name).isSome then some <$> attrs.lengthOf name none else .ok none

def checkRadius (name : String) : Option α → Except (ShapeError α) Unit
  | some r => if r < 0 then .error (.negative name r) else .ok ()
  | none => .ok ()

/-- The corner radii, at most half the sides. One given radius stands for both. -/
def cornerRadii (attrs : Attributes) (width height : α) : Except (ShapeError α) (α × α) := do
  let rx ← attrs.lengthOf? "rx"
  let ry ← attrs.lengthOf? "ry"
  checkRadius "rx" rx
  checkRadius "ry" ry
  let rx' := rx.getD (ry.getD 0)
  let ry' := ry.getD rx'
  return (smaller rx' (width / 2), smaller ry' (height / 2))

end Attributes

namespace Shape

def rectOf (attrs : Attributes) : Except (ShapeError α) (Option (Shape α)) := do
  let x ← attrs.lengthOf "x" (some 0)
  let y ← attrs.lengthOf "y" (some 0)
  let w ← attrs.sizeOf "width"
  let h ← attrs.sizeOf "height"
  if w == 0 || h == 0 then return none
  let (rx, ry) ← attrs.cornerRadii w h
  return some (.rect ⟨x, y⟩ w h rx ry)

def circleOf (attrs : Attributes) : Except (ShapeError α) (Option (Shape α)) := do
  let x ← attrs.lengthOf "cx" (some 0)
  let y ← attrs.lengthOf "cy" (some 0)
  let r ← attrs.sizeOf "r"
  if r == 0 then return none
  return some (.ellipse ⟨⟨x, y⟩, r, r⟩)

def ellipseOf (attrs : Attributes) : Except (ShapeError α) (Option (Shape α)) := do
  let x ← attrs.lengthOf "cx" (some 0)
  let y ← attrs.lengthOf "cy" (some 0)
  let rx ← attrs.sizeOf "rx"
  let ry ← attrs.sizeOf "ry"
  if rx == 0 || ry == 0 then return none
  return some (.ellipse ⟨⟨x, y⟩, rx, ry⟩)

def lineOf (attrs : Attributes) : Except (ShapeError α) (Option (Shape α)) := do
  let x₁ ← attrs.lengthOf "x1" (some 0)
  let y₁ ← attrs.lengthOf "y1" (some 0)
  let x₂ ← attrs.lengthOf "x2" (some 0)
  let y₂ ← attrs.lengthOf "y2" (some 0)
  if (⟨x₁, y₁⟩ : Point α) == ⟨x₂, y₂⟩ then return none
  return some (.line ⟨x₁, y₁⟩ ⟨x₂, y₂⟩)

/-- The points of an element, with a notice where a coordinate is dropped. -/
def pointsOf (attrs : Attributes) (closed : Bool) :
    List Notice × Except (ShapeError α) (Option (Shape α)) :=
  match attrs.lookup "points" with
  | none => ([], .error (.missing "points"))
  | some raw =>
    let (ps, odd) := pointList raw
    (oddNotice odd,
      match ps with
      | p :: q :: rest => .ok (some (.points p (q :: rest) closed))
      | _ => .ok none)

def ofAttributes (tag : ShapeTag) (attrs : Attributes) :
    List Notice × Except (ShapeError α) (Option (Shape α)) :=
  match tag with
  | .rect => ([], rectOf attrs)
  | .circle => ([], circleOf attrs)
  | .ellipse => ([], ellipseOf attrs)
  | .line => ([], lineOf attrs)
  | .polyline => pointsOf attrs false
  | .polygon => pointsOf attrs true

/-- The ends of the four edges of a rectangle, clockwise from the top one, each
with the end of the corner behind it. -/
def edges (corner : Point α) (w h rx ry : α) : List (Point α × Point α) :=
  let x := corner.x
  let y := corner.y
  [(⟨x + w - rx, y⟩, ⟨x + w, y + ry⟩), (⟨x + w, y + h - ry⟩, ⟨x + w - rx, y + h⟩),
    (⟨x + rx, y + h⟩, ⟨x, y + h - ry⟩), (⟨x, y + ry⟩, ⟨x + rx, y⟩)]

/-- The vertices after `last` along edges and their corners. An edge of no
length is left out. -/
def roundedFrom (rx ry tolerance : α) (depth : Int) :
    Point α → List (Point α × Point α) → Except (CurveError α) (List (Point α))
  | _, [] => .ok []
  | last, (edge, corner) :: rest => do
    let arc ← (EndpointArc.mk edge corner rx ry 0 false true).flatten tolerance depth
    let drawn := (if edge == last then [] else [edge]) ++ arc.drop 1
    return drawn ++ (← roundedFrom rx ry tolerance depth (drawn.getLast?.getD last) rest)

/-- The outline of a shape, neither filled nor moved. -/
def outline (tolerance : α) (depth : Int) : Shape α → Except (CurveError α) (Polyline α)
  | .rect corner w h rx ry =>
    let x := corner.x
    let y := corner.y
    if rx == 0 || ry == 0 then
      .ok ⟨corner, [⟨x + w, y⟩, ⟨x + w, y + h⟩, ⟨x, y + h⟩, corner], false⟩
    else do
      let start : Point α := ⟨x + rx, y⟩
      return ⟨start, ← roundedFrom rx ry tolerance depth start (edges corner w h rx ry), false⟩
  | .ellipse e => do
    let ps ← e.sample tolerance Ellipse.maxPoints
    return ((Polyline.ofVertices? ps false).getD ⟨e.center, [], false⟩).close epsilon
  | .line p q => .ok ⟨p, [q], false⟩
  | .points p rest closed =>
    let l : Polyline α := ⟨p, rest, false⟩
    .ok (if closed then l.close epsilon else l)

end Shape

/-- Why an element is not drawn. -/
inductive DrawError (α : Type) where
  | shape (e : ShapeError α)
  | curve (e : CurveError α)
  deriving Repr

/-- The outline of a shape element, none for one of no size. -/
def Shape.draw (tag : String) (attrs : Attributes) (tolerance : α) (depth : Int) :
    List Notice × Except (DrawError α) (Option (Polyline α)) :=
  match ShapeTag.ofName? tag with
  | none => ([], .error (.shape (.unsupported tag)))
  | some tag =>
    let (notices, shape) := Shape.ofAttributes tag attrs
    (notices, do
      match ← shape.mapError .shape with
      | none => return none
      | some s => some <$> (s.outline tolerance depth).mapError .curve)

end BoardPlotter
