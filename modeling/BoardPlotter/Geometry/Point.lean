import BoardPlotter.Scalar

/-!
# Points of the plane

Positions and displacements share one type, so curves interpolate points
directly.
-/

namespace BoardPlotter

open Scalar

structure Point (α : Type) where
  x : α
  y : α
  deriving DecidableEq, BEq, Repr

namespace Point

variable {α : Type} [Scalar α]

instance : Add (Point α) := ⟨fun p q => ⟨p.x + q.x, p.y + q.y⟩⟩
instance : Sub (Point α) := ⟨fun p q => ⟨p.x - q.x, p.y - q.y⟩⟩
instance : Neg (Point α) := ⟨fun p => ⟨-p.x, -p.y⟩⟩
instance : Inhabited (Point α) := ⟨⟨0, 0⟩⟩

def origin : Point α := ⟨0, 0⟩

def scale (p : Point α) (k : α) : Point α := ⟨p.x * k, p.y * k⟩

def div? (p : Point α) (k : α) : Except Fault (Point α) := do
  return ⟨← Scalar.div? p.x k, ← Scalar.div? p.y k⟩

def dot (p q : Point α) : α := p.x * q.x + p.y * q.y

/-- The signed area of the parallelogram on two displacements. -/
def cross (p q : Point α) : α := p.x * q.y - p.y * q.x

/-- The determinant with columns `p` and `q`. -/
def det (p q : Point α) : α := p.x * q.y - q.x * p.y

def lengthSquared (p : Point α) : α := p.x * p.x + p.y * p.y

def length (p : Point α) : α := hypot p.x p.y

/-- The unit vector of the same direction; the zero vector stays. -/
def normalize (p : Point α) : Point α :=
  let n := p.length
  if n == 0 then p else ⟨p.x / n, p.y / n⟩

/-- A quarter turn from the x axis to the y axis. -/
def perp (p : Point α) : Point α := ⟨-p.y, p.x⟩

/-- The point at parameter `t` on the way from `p` to `q`. -/
def lerp (p q : Point α) (t : α) : Point α :=
  ⟨p.x * (1 - t) + q.x * t, p.y * (1 - t) + q.y * t⟩

/-- Both coordinates differ by `eps` at most. -/
def closeTo (p q : Point α) (eps : α) : Bool := abs (p.x - q.x) ≤ eps && abs (p.y - q.y) ≤ eps

/-- The distance to the closed segment from `a` to `b`. -/
def distanceToSegment (p a b : Point α) : α :=
  let ab := b - a
  let n := ab.lengthSquared
  if n == 0 then (p - a).length
  else (p - (a + ab.scale (clampUnit ((p - a).dot ab / n)))).length

end Point

end BoardPlotter
