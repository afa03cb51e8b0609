import BoardPlotter.Geometry.Point

/-!
# Affine maps of the plane

The coefficients are named as in `matrix(a, b, c, d, e, f)`: a point goes to
`(a x + c y + e, b x + d y + f)`. A composition applies its right map first.
-/

namespace BoardPlotter

open Scalar

structure Affine (α : Type) where
  a : α
  b : α
  c : α
  d : α
  e : α
  f : α
  deriving DecidableEq, BEq, Repr

namespace Affine

variable {α : Type} [Scalar α]

def identity : Affine α := ⟨1, 0, 0, 1, 0, 0⟩

def translate (tx ty : α) : Affine α := ⟨1, 0, 0, 1, tx, ty⟩

def scale (sx sy : α) : Affine α := ⟨sx, 0, 0, sy, 0, 0⟩

/-- `s.comp t` applies `t` first. -/
def comp (s t : Affine α) : Affine α where
  a := s.a * t.a + s.c * t.b
  b := s.b * t.a + s.d * t.b
  c := s.a * t.c + s.c * t.d
  d := s.b * t.c + s.d * t.d
  e := s.a * t.e + s.c * t.f + s.e
  f := s.b * t.e + s.d * t.f + s.f

/-- The rotation by an angle in degrees about a centre. -/
def rotate? (degrees cx cy : α) : Except Fault (Affine α) := do
  let rad := radians degrees
  let cos ← cos? rad
  let sin ← sin? rad
  let rot : Affine α := ⟨cos, sin, -sin, cos, 0, 0⟩
  if cx == 0 && cy == 0 then return rot
  return ((translate cx cy).comp rot).comp (translate (-cx) (-cy))

def skewX? (degrees : α) : Except Fault (Affine α) := do
  return ⟨1, 0, ← tan? (radians degrees), 1, 0, 0⟩

def skewY? (degrees : α) : Except Fault (Affine α) := do
  return ⟨1, ← tan? (radians degrees), 0, 1, 0, 0⟩

def isIdentity (t : Affine α) : Bool := t == identity

/-- The largest factor by which a length is stretched: the top singular value
of the linear part. -/
def maxScale (t : Affine α) : α :=
  let s := t.a * t.a + t.b * t.b + t.c * t.c + t.d * t.d
  let det := t.a * t.d - t.b * t.c
  sqrt ((s + sqrt (larger (s * s - 4 * det * det) 0)) / 2)

/-- The two rows of the matrix. -/
def rows (t : Affine α) : (α × α × α) × (α × α × α) := ((t.a, t.c, t.e), (t.b, t.d, t.f))

def apply (t : Affine α) (p : Point α) : Point α :=
  ⟨t.a * p.x + t.c * p.y + t.e, t.b * p.x + t.d * p.y + t.f⟩

/-- The images of the points. The identity leaves every number as it is. -/
def applyAll (t : Affine α) (ps : List (Point α)) : List (Point α) :=
  if t.isIdentity then ps else ps.map t.apply

end Affine

end BoardPlotter
