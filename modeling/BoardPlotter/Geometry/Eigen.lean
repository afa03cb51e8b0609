import BoardPlotter.Geometry.Point

/-!
# Symmetric two by two matrices

Eigenvalues and eigenvectors of the matrix with rows `a b` and `b c`.
-/

namespace BoardPlotter

open Scalar

structure SymmetricMatrix (α : Type) where
  a : α
  b : α
  c : α
  deriving DecidableEq, Repr

namespace SymmetricMatrix

variable {α : Type} [Scalar α]

/-- The two eigenvalues, the smaller first. -/
def eigenvalues (m : SymmetricMatrix α) : α × α :=
  let mid := (m.a + m.c) / 2
  let delta := sqrt ((m.a - m.c) * (m.a - m.c) + 4 * m.b * m.b) / 2
  (mid - delta, mid + delta)

/-- A unit eigenvector for `lam`, from the first row and its better conditioned
unknown. Zero where that row vanishes. -/
def eigenvector? (m : SymmetricMatrix α) (lam : α) : Except Fault (Point α) :=
  let d := lam - m.a
  if d == 0 && m.b == 0 then .ok .origin
  else if abs m.b < abs d then return (Point.mk (← div? m.b d) 1).normalize
  else return (Point.mk 1 (← div? d m.b)).normalize

end SymmetricMatrix

end BoardPlotter
