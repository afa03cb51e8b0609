import BoardPlotter.Geometry.Eigen

/-!
# Principal axes

The direction in which points vary most, and the one across it.
-/

namespace BoardPlotter

open Scalar

/-- Two perpendicular unit directions: along the scan lines, and from each to
the next. -/
structure Axes (α : Type) where
  along : Point α
  across : Point α
  deriving DecidableEq, Repr

namespace Axes

variable {α : Type} [Scalar α]

def horizontal : Axes α := ⟨⟨1, 0⟩, ⟨0, 1⟩⟩

def vertical : Axes α := ⟨⟨0, 1⟩, ⟨1, 0⟩⟩

def sum (xs : List α) : α := xs.foldl (· + ·) 0

def mean (xs : List α) : α := sum xs / ofNat xs.length

/-- The population covariance of points. -/
def covariance (ps : List (Point α)) : SymmetricMatrix α :=
  let mx := mean (ps.map Point.x)
  let my := mean (ps.map Point.y)
  let ds := ps.map fun p => Point.mk (p.x - mx) (p.y - my)
  let k := 1 / ofNat ps.length
  let average (f : Point α → α) := sum (ds.map f) * k
  ⟨average fun d => d.x * d.x, average fun d => d.x * d.y, average fun d => d.y * d.y⟩

/-- The axes of greatest and least variance. Without covariance they are the
coordinate axes. -/
def principal (ps : List (Point α)) (eps : α) : Except Fault (Axes α) :=
  if ps.length < 2 then .ok horizontal
  else
    let m := covariance ps
    if abs m.b ≤ eps then .ok (if m.c ≤ m.a then horizontal else vertical)
    else do
      let along ← m.eigenvector? m.eigenvalues.2
      return ⟨along, along.perp⟩

end Axes

end BoardPlotter
