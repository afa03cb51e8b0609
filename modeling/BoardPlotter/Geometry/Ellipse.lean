import BoardPlotter.Geometry.Bezier

/-!
# Whole ellipses

An ellipse is sampled uniformly in angle, at the least power of two of points
for which the chord at the apex of the major axis is within the tolerance.
-/

namespace BoardPlotter

open Scalar

structure Ellipse (α : Type) where
  center : Point α
  rx : α
  ry : α
  deriving DecidableEq, Repr

namespace Ellipse

variable {α : Type} [Scalar α]

/-- The ceiling of the point count. -/
def maxPoints : Nat := 65536

/-- The end of the major axis and its angle. -/
def apex (e : Ellipse α) : Point α × α :=
  if e.ry < e.rx then (⟨e.rx, 0⟩, 0) else (⟨0, e.ry⟩, pi / 2)

/-- Is the chord from the apex over an angle within the tolerance? -/
def chordFits (e : Ellipse α) (tolerance step : α) : Bool :=
  let angle := e.apex.2 + step
  (Point.mk (e.rx * cos angle) (e.ry * sin angle) - e.apex.1).lengthSquared
    ≤ tolerance * tolerance

/-- Doubles the count until the chord fits or the limit is reached. -/
def countFrom (e : Ellipse α) (tolerance : α) (limit : Nat) : Nat → α → Nat → Nat
  | 0, _, count => count
  | fuel + 1, step, count =>
    if count < limit then
      if e.chordFits tolerance step then count
      else countFrom e tolerance limit fuel (step / 2) (count * 2)
    else count

/-- The number of points; a count that doubles passes the limit in fewer steps
than the limit. -/
def count (e : Ellipse α) (tolerance : α) (limit : Nat) : Nat :=
  e.countFrom tolerance limit limit pi 2

/-- The point at an angle. -/
def point (e : Ellipse α) (angle : α) : Point α :=
  ⟨e.center.x + e.rx * cos angle, e.center.y + e.ry * sin angle⟩

/-- The points in order of angle from zero; the first is not repeated. -/
def sample (e : Ellipse α) (tolerance : α) (limit : Nat) :
    Except (CurveError α) (List (Point α)) := do
  if e.rx ≤ 0 ∨ e.ry ≤ 0 then throw (.ellipseRadii e.rx e.ry)
  checkTolerance tolerance
  let n := e.count tolerance limit
  return (List.range n).map fun i => e.point (2 * pi * ofNat i / ofNat n)

end Ellipse

end BoardPlotter
