import BoardPlotter.Scalar

/-!
# Vectors of space

Positions and directions of the board in the robot's frame.
-/

namespace BoardPlotter

open Scalar

structure Vec3 (α : Type) where
  x : α
  y : α
  z : α
  deriving DecidableEq, BEq, Repr

namespace Vec3

variable {α : Type} [Scalar α]

instance : Add (Vec3 α) := ⟨fun p q => ⟨p.x + q.x, p.y + q.y, p.z + q.z⟩⟩
instance : Sub (Vec3 α) := ⟨fun p q => ⟨p.x - q.x, p.y - q.y, p.z - q.z⟩⟩
instance : Neg (Vec3 α) := ⟨fun p => ⟨-p.x, -p.y, -p.z⟩⟩

def scale (p : Vec3 α) (k : α) : Vec3 α := ⟨p.x * k, p.y * k, p.z * k⟩

def div? (p : Vec3 α) (k : α) : Except Fault (Vec3 α) := do
  return ⟨← Scalar.div? p.x k, ← Scalar.div? p.y k, ← Scalar.div? p.z k⟩

def dot (p q : Vec3 α) : α := p.x * q.x + p.y * q.y + p.z * q.z

def cross (p q : Vec3 α) : Vec3 α :=
  ⟨p.y * q.z - p.z * q.y, p.z * q.x - p.x * q.z, p.x * q.y - p.y * q.x⟩

def lengthSquared (p : Vec3 α) : α := p.dot p

def length (p : Vec3 α) : α := sqrt p.lengthSquared

/-- The unit vector of the same direction; the zero vector stays. -/
def normalize (p : Vec3 α) : Vec3 α :=
  let n := p.length
  if n == 0 then p else ⟨p.x / n, p.y / n, p.z / n⟩

end Vec3

end BoardPlotter
