import BoardPlotter.Decimal.Layout
import BoardPlotter.Geometry.Point

/-!
# Bézier curves

A curve is its control polygon. Interpolating neighbours again and again gives
the triangle of its rows: the apex is the point of the curve, the two sides are
the control polygons of the halves. Flattening halves the polygon until every
inner control point is near the chord.
-/

namespace BoardPlotter

open Scalar

/-- Why a curve was not sampled. -/
inductive CurveError (α : Type) where
  | tolerance (value : α)
  | noControlPoint
  | emptyPolygon
  | segmentCount (n : Int)
  | zeroRadius
  | ellipseRadii (rx ry : α)
  | fault (f : Fault)
  deriving Repr

/-- The text of an error; faults and empty polygons are told by their kind. -/
def CurveError.message : CurveError Float → String
  | tolerance x => s!"tolerance must be > 0, got {Double.text x}"
  | noControlPoint => "Bézier curve needs at least one point"
  | emptyPolygon => ""
  | segmentCount n => s!"segment count must be >= 1, got {n}"
  | zeroRadius => "arc radii must be non-zero"
  | ellipseRadii rx ry =>
    s!"ellipse radii must be > 0, got rx={Double.text rx}, ry={Double.text ry}"
  | fault _ => ""

/-- A tolerance is positive. -/
def checkTolerance {α : Type} [Scalar α] (tolerance : α) : Except (CurveError α) Unit :=
  if 0 < tolerance then .ok () else .error (.tolerance tolerance)

/-- A control polygon has a first point. -/
structure ControlPolygon (α : Type) where
  first : Point α
  rest : List (Point α)
  deriving DecidableEq, Repr

namespace ControlPolygon

variable {α : Type} [Scalar α]

def ofList? : List (Point α) → Option (ControlPolygon α)
  | [] => none
  | p :: ps => some ⟨p, ps⟩

def toList (c : ControlPolygon α) : List (Point α) := c.first :: c.rest

def degree (c : ControlPolygon α) : Nat := c.rest.length

def last (c : ControlPolygon α) : Point α := c.rest.getLast?.getD c.first

def reverse (c : ControlPolygon α) : ControlPolygon α :=
  c.rest.foldl (fun r p => ⟨p, r.first :: r.rest⟩) ⟨c.first, []⟩

/-- All control points coincide. -/
def isDegenerate (c : ControlPolygon α) : Bool :=
  (c.toList.zip c.rest).all fun s => (s.2 - s.1).lengthSquared == 0

/-- The points at `t` between neighbours; a single point stays. -/
def narrow (c : ControlPolygon α) (t : α) : ControlPolygon α :=
  match c.rest with
  | [] => c
  | q :: qs => ⟨c.first.lerp q t, (q :: qs).zipWith (fun a b => a.lerp b t) qs⟩

/-- The polygon and the next `n` rows of its triangle. -/
def rows (t : α) : Nat → ControlPolygon α → List (ControlPolygon α)
  | 0, _ => []
  | n + 1, c => c.narrow t :: rows t n (c.narrow t)

/-- The apex, `n` rows above. -/
def apex (t : α) : Nat → ControlPolygon α → Point α
  | 0, c => c.first
  | n + 1, c => apex t n (c.narrow t)

/-- The point of the curve at parameter `t`. -/
def evaluate (c : ControlPolygon α) (t : α) : Point α := apex t c.degree c

/-- The control polygons of the two parts at `t`. -/
def split (c : ControlPolygon α) (t : α) : ControlPolygon α × ControlPolygon α :=
  let above := rows t c.degree c
  (⟨c.first, above.map first⟩, reverse ⟨c.last, above.map last⟩)

/-- Every inner control point is within `tolerance` of the chord. The curve
lies in the hull of the polygon, so it is too. -/
def isFlat (c : ControlPolygon α) (tolerance : α) : Bool :=
  c.rest.dropLast.all fun p => p.distanceToSegment c.first c.last ≤ tolerance

/-- The vertices after the first, in at most `2 ^ depth` pieces. -/
def flattenFrom (tolerance : α) : Nat → ControlPolygon α → List (Point α)
  | 0, c => [c.last]
  | depth + 1, c =>
    if c.isFlat tolerance then [c.last]
    else
      let (left, right) := c.split (1 / 2)
      flattenFrom tolerance depth left ++ flattenFrom tolerance depth right

/-- A polyline within `tolerance` of the curve unless the depth runs out. -/
def flatten (c : ControlPolygon α) (tolerance : α) (depth : Int) :
    Except (CurveError α) (List (Point α)) := do
  checkTolerance tolerance
  return c.first :: flattenFrom tolerance depth.toNat c

/-- `n` pieces of equal parameter length. -/
def sample (c : ControlPolygon α) (n : Nat) : List (Point α) :=
  c.first ::
    (List.range (n - 1)).map (fun i => c.evaluate (ofNat (i + 1) / ofNat n)) ++ [c.last]

end ControlPolygon

/-! Curves given by any list of control points. -/

namespace Bezier

variable {α : Type} [Scalar α]

def isDegenerate (control : List (Point α)) : Bool :=
  (ControlPolygon.ofList? control).all (·.isDegenerate)

def evaluate (control : List (Point α)) (t : α) : Except (CurveError α) (Point α) :=
  match ControlPolygon.ofList? control with
  | none => .error .noControlPoint
  | some c => .ok (c.evaluate t)

def sample (control : List (Point α)) (n : Int) : Except (CurveError α) (List (Point α)) :=
  if n < 1 then .error (.segmentCount n)
  else match ControlPolygon.ofList? control with
    | none => .error .noControlPoint
    | some c => .ok (c.sample n.toNat)

def split (control : List (Point α)) (t : α) :
    Except (CurveError α) (List (Point α) × List (Point α)) :=
  match ControlPolygon.ofList? control with
  | none => .error .emptyPolygon
  | some c => .ok ((c.split t).1.toList, (c.split t).2.toList)

def flatten (control : List (Point α)) (tolerance : α) (depth : Int) :
    Except (CurveError α) (List (Point α)) := do
  checkTolerance tolerance
  match ControlPolygon.ofList? control with
  | none => throw .emptyPolygon
  | some c => c.flatten tolerance depth

end Bezier

end BoardPlotter
