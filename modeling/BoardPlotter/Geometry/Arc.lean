import BoardPlotter.Geometry.Bezier

/-!
# Elliptical arcs

An arc given by its two ends, the radii and turn of its ellipse and two flags
is brought to its centre, start angle and extent, and sampled by halving the
parameter until neighbours are near each other.
-/

namespace BoardPlotter

open Scalar

/-- An arc of the ellipse with radii `rx`, `ry` turned by `phi`, from angle
`theta` over `delta`. -/
structure Arc (α : Type) where
  center : Point α
  rx : α
  ry : α
  phi : α
  theta : α
  delta : α
  deriving DecidableEq, Repr

/-- An arc as path data gives it; the rotation is in degrees. -/
structure EndpointArc (α : Type) where
  p₁ : Point α
  p₂ : Point α
  rx : α
  ry : α
  rotation : α
  large : Bool
  sweep : Bool
  deriving DecidableEq, Repr

namespace Arc

variable {α : Type} [Scalar α]

/-- The angle at parameter `t`. -/
def angle (arc : Arc α) (t : α) : α := arc.theta + t * arc.delta

/-- The point at parameter `t`. -/
def point (arc : Arc α) (t : α) : Point α :=
  let x := arc.rx * cos (arc.angle t)
  let y := arc.ry * sin (arc.angle t)
  let c := cos arc.phi
  let s := sin arc.phi
  ⟨arc.center.x + c * x - s * y, arc.center.y + s * x + c * y⟩

/-- The point at any parameter, refused where the angle is infinite. Inside the
unit interval it never is. -/
def point? (arc : Arc α) (t : α) : Except Fault (Point α) := do
  let _ ← angle? (arc.angle t)
  let _ ← angle? arc.phi
  return arc.point t

/-- The samples strictly between `t₀` and `t₁`, whose points are `a` and `b`. -/
def bisect (arc : Arc α) (tolerance : α) : Nat → α → Point α → α → Point α → List (Point α)
  | 0, _, _, _, _ => []
  | depth + 1, t₀, a, t₁, b =>
    if (b - a).length ≤ tolerance then []
    else
      let t := (t₀ + t₁) / 2
      let m := arc.point t
      bisect arc tolerance depth t₀ a t m ++ m :: bisect arc tolerance depth t m t₁ b

end Arc

namespace EndpointArc

variable {α : Type} [Scalar α]

/-- The angle from `u` to `v`. -/
def angleBetween (u v : Point α) : α := atan2 (u.cross v) (u.dot v)

/-- The extent in the direction that the flag asks for. -/
def directed (sweep : Bool) (delta : α) : α :=
  if !sweep && decide (0 < delta) then delta - 2 * pi
  else if sweep && decide (delta < 0) then delta + 2 * pi
  else delta

/-- The arc through its centre. Radii too small to join the ends are scaled up
until they do. -/
def center? (e : EndpointArc α) : Except (CurveError α) (Arc α) := do
  let rx := abs e.rx
  let ry := abs e.ry
  if rx == 0 || ry == 0 then throw .zeroRadius
  let phi := radians e.rotation
  let c ← (cos? phi).mapError .fault
  let s ← (sin? phi).mapError .fault
  let hx := (e.p₁.x - e.p₂.x) / 2
  let hy := (e.p₁.y - e.p₂.y) / 2
  let x₁ := c * hx + s * hy
  let y₁ := -s * hx + c * hy
  let lam := (← (square? (x₁ / rx)).mapError .fault) + (← (square? (y₁ / ry)).mapError .fault)
  let grow := decide (1 < lam)
  let rx := if grow then rx * sqrt lam else rx
  let ry := if grow then ry * sqrt lam else ry
  let area ← (square? (rx * ry)).mapError .fault
  let dx ← (square? (rx * y₁)).mapError .fault
  let dy ← (square? (ry * x₁)).mapError .fault
  let num := area - dx - dy
  let den := dx + dy
  let coef := if 0 < den then sqrt (larger 0 (num / den)) else 0
  let coef := if e.large == e.sweep then -coef else coef
  let cx := coef * rx * y₁ / ry
  let cy := -coef * ry * x₁ / rx
  let center : Point α :=
    ⟨c * cx - s * cy + (e.p₁.x + e.p₂.x) / 2, s * cx + c * cy + (e.p₁.y + e.p₂.y) / 2⟩
  let u : Point α := ⟨(x₁ - cx) / rx, (y₁ - cy) / ry⟩
  let v : Point α := ⟨(-x₁ - cx) / rx, (-y₁ - cy) / ry⟩
  return ⟨center, rx, ry, phi, angleBetween ⟨1, 0⟩ u, directed e.sweep (angleBetween u v)⟩

/-- Samples from one end to the other, neighbours within `tolerance` unless the
depth runs out. Coincident ends give one point, a zero radius the chord. -/
def flatten (e : EndpointArc α) (tolerance : α) (depth : Int) :
    Except (CurveError α) (List (Point α)) := do
  checkTolerance tolerance
  if e.p₁ == e.p₂ then return [e.p₁]
  if e.rx == 0 || e.ry == 0 then return [e.p₁, e.p₂]
  let arc ← e.center?
  let mid := arc.point (1 / 2)
  let depth := (depth - 1).toNat
  return e.p₁ :: arc.bisect tolerance depth 0 e.p₁ (1 / 2) mid ++
    mid :: arc.bisect tolerance depth (1 / 2) mid 1 e.p₂ ++ [e.p₂]

end EndpointArc

end BoardPlotter
