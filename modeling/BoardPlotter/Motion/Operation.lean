import BoardPlotter.Geometry.Polyline
import BoardPlotter.Plan.Hatch

/-!
# Job operations

What the tool has to do, in viewport coordinates. A stroke travels to its start,
lowers the tool, draws and lifts it again: one for each outline and one for each
hatching pass.
-/

namespace BoardPlotter

inductive Operation (α : Type) where
  | travel (p : Point α)
  | line (p : Point α) (feed : Option α)
  | polyline (first second : Point α) (rest : List (Point α)) (feed : Option α)
  | lift
  | lower
  | other
  deriving DecidableEq, Repr

/-- Points that are too few. -/
inductive StrokeError where
  | polyline (got : Nat)
  | stroke
  deriving DecidableEq, Repr

def StrokeError.message : StrokeError → String
  | polyline got => s!"DrawPolyline requires >= 2 points, got {got}"
  | stroke => "Stroke requires at least 2 points"

namespace Operation

variable {α : Type}

/-- The name of an operation in messages. -/
def name : Operation α → String
  | travel _ => "RapidXY"
  | line .. => "LinearMove"
  | polyline .. => "DrawPolyline"
  | lift => "ToolUp"
  | lower => "ToolDown"
  | other => "Operation"

/-- Two points or more. -/
def ofPoints (points : List (Point α)) (feed : Option α) : Except StrokeError (Operation α) :=
  match points with
  | p :: q :: rest => .ok (polyline p q rest feed)
  | ps => .error (.polyline ps.length)

/-- The stroke along at least two points. -/
def stroke (points : List (Point α)) (feed : Option α) :
    Except StrokeError (List (Operation α)) :=
  match points with
  | p :: q :: rest => .ok [travel p, lower, polyline p q rest feed, lift]
  | _ => .error .stroke

/-- The strokes of outlines. A single vertex has none. -/
def ofPolylines (ls : List (Polyline α)) (feed : Option α) : List (Operation α) :=
  ls.flatMap fun l => (stroke (l.start :: l.rest) feed).toOption.getD []

/-- The strokes of passes. A pass of no length has none. -/
def ofPasses [BEq (Point α)] (passes : List (Pass α)) (feed : Option α) : List (Operation α) :=
  passes.flatMap fun s =>
    if s.entry == s.exit then [] else [travel s.entry, lower, line s.exit feed, lift]

/-- Splits behind every lift; the last stroke may lack one. -/
def strokes : List (Operation α) → List (List (Operation α))
  | [] => []
  | .lift :: ops => [.lift] :: strokes ops
  | op :: ops =>
    match strokes ops with
    | s :: ss => (op :: s) :: ss
    | [] => [[op]]

end Operation

end BoardPlotter
