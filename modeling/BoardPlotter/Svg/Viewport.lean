import BoardPlotter.Geometry.Affine
import BoardPlotter.Log.Notice
import BoardPlotter.Svg.Document
import BoardPlotter.Svg.Length
import BoardPlotter.Text.Quoted

/-!
# Viewports

The rectangle that is drawn in, and the map of document units into it. Its size
is the one of the root element, or of its view box, or a default.
-/

namespace BoardPlotter

open Text

structure Viewport (α : Type) where
  width : α
  height : α
  transform : Affine α
  deriving DecidableEq, Repr

/-- The rectangle of user space that is shown. -/
structure ViewBox (α : Type) where
  x : α
  y : α
  width : α
  height : α
  deriving DecidableEq, Repr

variable {α : Type} [Scalar α]

/-- Four numbers, the last two positive. -/
def ViewBox.ofString? (value : String) : Option (ViewBox α) :=
  match (Numeral.findAll value.toList).map Numeral.value with
  | [x, y, w, h] => if w ≤ 0 ∨ h ≤ 0 then none else some ⟨x, y, w, h⟩
  | _ => none

namespace Viewport

/-- The view box of the root element, with a notice where it is ignored. -/
def boxOf (root : Element) : Option (ViewBox α) × List Notice :=
  match root.get? "viewBox" with
  | none => (none, [])
  | some value =>
    match ViewBox.ofString? value with
    | some box => (some box, [])
    | none => (none, [.warning s!"Ignoring invalid viewBox {quoted value}"])

/-- A positive length of the root element, with a notice where it is ignored. -/
def sideOf (root : Element) (name : String) : Option α × List Notice :=
  match root.get? name with
  | none => (none, [])
  | some raw =>
    match length? raw with
    | some x => (if 0 < x then some x else none, [])
    | none => (none, [.warning s!"Ignoring root {name}={quoted raw}"])

/-- The map of a view box onto a rectangle, each axis scaled on its own. -/
def fit (box : ViewBox α) (width height : α) : Affine α :=
  (Affine.scale (width / box.width) (height / box.height)).comp
    (.translate (-box.x) (-box.y))

/-- The sides of the viewport. One that is missing follows from the other by the
proportions of the view box. -/
def sides (box : ViewBox α) : Option α → Option α → α × α
  | none, none => (box.width, box.height)
  | none, some h => (h * box.width / box.height, h)
  | some w, none => (w, w * box.height / box.width)
  | some w, some h => (w, h)

def resolve (root : Element) (defaultWidth defaultHeight : α) : Viewport α × List Notice :=
  let (box, n₁) := boxOf root
  let (width, n₂) := sideOf root "width"
  let (height, n₃) := sideOf root "height"
  let viewport :=
    match box with
    | none => ⟨width.getD defaultWidth, height.getD defaultHeight, .identity⟩
    | some box =>
      let (w, h) := sides box width height
      ⟨w, h, fit box w h⟩
  (viewport, n₁ ++ n₂ ++ n₃)

end Viewport

end BoardPlotter
