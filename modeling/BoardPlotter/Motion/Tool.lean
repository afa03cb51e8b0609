import BoardPlotter.Decimal.Layout
import BoardPlotter.Log.Notice
import BoardPlotter.Motion.Operation

/-!
# The tool

The tool has no position yet, or it is above a point, or on it. Operations move
it: every motion ends lifted above a point or on the surface at one. What was
done before an error stays done.
-/

namespace BoardPlotter

open Scalar

inductive Tool (α : Type) where
  | idle
  | up (p : Point α)
  | down (p : Point α)
  deriving DecidableEq, Repr

/-- Where a motion ends; on the surface, at which feed. -/
inductive Motion (α : Type) where
  | lifted (p : Point α)
  | surface (p : Point α) (feed : α)
  deriving DecidableEq, Repr

/-- Why an operation is refused. -/
inductive ToolError (α : Type) where
  | noPosition
  | travelDown (p : Point α)
  | drawUp (name : String)
  | notFinite (p : Point α)
  deriving DecidableEq, Repr

def ToolError.message : ToolError Float → String
  | noPosition => "ToolDown before any position was set"
  | travelDown p => s!"RapidXY to ({Double.fixed 3 p.x}, {Double.fixed 3 p.y}) with the tool down"
  | drawUp name => s!"{name} issued with the tool up (missing ToolDown)"
  | notFinite p => s!"Non-finite coordinate ({Double.text p.x}, {Double.text p.y})"

/-- What became of operations: the tool, its motions, and the error that ended
them early. -/
structure ToolRun (α : Type) where
  tool : Tool α
  motions : List (Motion α)
  error : Option (ToolError α)
  deriving Repr

namespace Tool

variable {α : Type} [Scalar α]

def isUp : Tool α → Bool
  | down _ => false
  | _ => true

def position? : Tool α → Option (Point α)
  | idle => none
  | up p | down p => some p

def isFinitePoint (p : Point α) : Bool := isFinite p.x && isFinite p.y

def refuse (t : Tool α) (e : ToolError α) : ToolRun α := ⟨t, [], some e⟩

/-- Draws from the surface through points, up to one that is not finite. -/
def draw (feed : α) (t : Tool α) : List (Point α) → ToolRun α
  | [] => ⟨t, [], none⟩
  | p :: ps =>
    if isFinitePoint p then
      let later := draw feed (.down p) ps
      { later with motions := .surface p feed :: later.motions }
    else t.refuse (.notFinite p)

def lift : Tool α → ToolRun α
  | down p => ⟨.up p, [.lifted p], none⟩
  | t => ⟨t, [], none⟩

/-- Carries out one operation. `feed` is the feed where none is given. -/
def step (feed : α) (t : Tool α) (op : Operation α) : ToolRun α :=
  match op, t with
  | .lift, t => t.lift
  | .lower, .idle => t.refuse .noPosition
  | .lower, .up p => ⟨.down p, [.surface p feed], none⟩
  | .lower, .down p => ⟨.down p, [], none⟩
  | .travel p, .down _ => t.refuse (.travelDown p)
  | .travel p, t => if isFinitePoint p then ⟨.up p, [.lifted p], none⟩ else t.refuse (.notFinite p)
  | .line p own, .down q => draw (own.getD feed) (.down q) [p]
  | .polyline p q rest own, .down r => draw (own.getD feed) (.down r) (p :: q :: rest)
  | .line .., t | .polyline .., t => t.refuse (.drawUp op.name)
  | .other, t => ⟨t, [], none⟩

/-- Carries out operations up to the first error. -/
def run (feed : α) (t : Tool α) : List (Operation α) → ToolRun α
  | [] => ⟨t, [], none⟩
  | op :: ops =>
    let now := t.step feed op
    match now.error with
    | some _ => now
    | none =>
      let later := run feed now.tool ops
      { later with motions := now.motions ++ later.motions }

/-- What is said of operations that mean nothing to the tool, up to an error. -/
def notices (feed : α) (t : Tool α) : List (Operation α) → List Notice
  | [] => []
  | op :: ops =>
    let now := t.step feed op
    let own := match op with
      | .other => [Notice.warning s!"Unsupported operation: {op.name}"]
      | _ => []
    if now.error.isSome then own else own ++ notices feed now.tool ops

end Tool

end BoardPlotter
