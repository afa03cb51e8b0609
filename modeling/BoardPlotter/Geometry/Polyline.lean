import BoardPlotter.Geometry.Affine

/-!
# Polylines

One continuous pen path: a start, the vertices after it, and whether it bounds
a region to be filled.
-/

namespace BoardPlotter

open Scalar

structure Polyline (α : Type) where
  start : Point α
  rest : List (Point α)
  fill : Bool
  deriving DecidableEq, Repr

namespace Polyline

variable {α : Type} [Scalar α]

def ofVertices? (vertices : List (Point α)) (fill : Bool) : Option (Polyline α) :=
  match vertices with
  | [] => none
  | p :: ps => some ⟨p, ps, fill⟩

/-- What a list of no vertices is refused with. -/
def noVertices : String := "Primitive requires at least one vertex"

def vertices (l : Polyline α) : List (Point α) := l.start :: l.rest

def last (l : Polyline α) : Point α := l.rest.getLast?.getD l.start

def size (l : Polyline α) : Nat := l.rest.length + 1

/-- No vertex follows the start. -/
def isEmpty (l : Polyline α) : Bool := l.rest.isEmpty

/-- It comes back to its start, up to `eps` in each coordinate. -/
def isClosed (l : Polyline α) (eps : α) : Bool := !l.isEmpty && l.last.closeTo l.start eps

/-- Consecutive vertices. -/
def segments (l : Polyline α) : List (Point α × Point α) := l.vertices.zip l.rest

def append (l : Polyline α) (ps : List (Point α)) : Polyline α := { l with rest := l.rest ++ ps }

/-- Returns to the start unless it already ends there. -/
def close (l : Polyline α) (eps : α) : Polyline α :=
  if !l.isEmpty && !l.last.closeTo l.start eps then l.append [l.start] else l

def transform (l : Polyline α) (t : Affine α) : Polyline α :=
  if t.isIdentity then l else { l with start := t.apply l.start, rest := l.rest.map t.apply }

/-- Sets the fill flag, closes a region, then moves it by `t`. -/
def finalize (l : Polyline α) (t : Affine α) (fill : Bool) : Polyline α :=
  let l := { l with fill }
  (if fill then l.close epsilon else l).transform t

end Polyline

end BoardPlotter
