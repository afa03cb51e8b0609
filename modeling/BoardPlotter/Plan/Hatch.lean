import BoardPlotter.Geometry.Bezier
import BoardPlotter.Geometry.Crossing
import BoardPlotter.Geometry.Polyline
import BoardPlotter.Log.Notice
import BoardPlotter.Plan.Axes

/-!
# Hatching

A closed region is covered by passes on parallel lines, a fixed step apart, half
a step from its edge on. The crossings of a line with the outline, in order,
are taken in pairs: a pass leads from the first of a pair to the second. Every
other line is run backwards.
-/

namespace BoardPlotter

open Scalar

/-- One pass with the tool down. -/
structure Pass (α : Type) where
  entry : Point α
  exit : Point α
  deriving DecidableEq, Repr

/-- An edge of the outline and the heights between which it lies. -/
structure SweepEdge (α : Type) where
  p : Point α
  q : Point α
  lo : α
  hi : α
  deriving DecidableEq, Repr

/-- Why a region is not hatched. -/
inductive HatchError (α : Type) where
  | step (value : α)
  | fault (f : Fault)
  deriving Repr

def HatchError.message : HatchError Float → String
  | step x => s!"fill step must be > 0, got {Double.text x}"
  | fault _ => ""

namespace Hatch

variable {α : Type} [Scalar α]

/-- Edges along the lines are never crossed and left out. -/
def edge? (across : Point α) (s : Point α × Point α) : Option (SweepEdge α) :=
  let hp := s.1.dot across
  let hq := s.2.dot across
  if hp == hq then none else some ⟨s.1, s.2, smaller hp hq, larger hp hq⟩

/-- The edges of the closed outline by their lower ends. -/
def edges (l : Polyline α) (closed : Bool) (across : Point α) : List (SweepEdge α) :=
  let segments := if closed then l.segments else l.segments ++ [(l.last, l.start)]
  (segments.filterMap (edge? across)).mergeSort fun a b => a.lo ≤ b.lo

/-- The least or greatest number; one that is no number decides. -/
def extreme (pick : α → α → α) : List α → α
  | [] => 0
  | x :: xs => xs.foldl (fun m y => if m == m then (if y == y then pick m y else y) else m) x

/-- The height of a line. -/
def height (low step : α) (k : Nat) : α := low + (ofNat k + 1 / 2) * step

/-- The heights of all lines below the top. There are no more than steps from
the bottom to the top, and two for rounding. -/
def heights (low high step : α) : List α :=
  ((List.range (floor ((high - low) / step) + 2)).map (height low step)).takeWhile (· < high)

/-- Takes the edges that begin at or below a height into those under way, and
drops those that end there. -/
def advance (h : α) (active waiting : List (SweepEdge α)) :
    List (SweepEdge α) × List (SweepEdge α) :=
  ((active ++ waiting.takeWhile (·.lo ≤ h)).filter (h < ·.hi), waiting.dropWhile (·.lo ≤ h))

/-- The crossings of edges with the line at a height. -/
def hits (axes : Axes α) (h : α) (active : List (SweepEdge α)) : List (Point α) :=
  let base := axes.across.scale h
  active.filterMap fun e => (Crossing.ofLines? e.p e.q base (base + axes.along)).map Crossing.point

/-- Crossings along the line, or against it. -/
def inOrder (axes : Axes α) (backwards : Bool) (ps : List (Point α)) : List (Point α) :=
  if backwards then ps.mergeSort fun p q => q.dot axes.along ≤ p.dot axes.along
  else ps.mergeSort fun p q => p.dot axes.along ≤ q.dot axes.along

/-- Passes between crossings, in pairs. -/
def pairs : List (Point α) → List (Pass α)
  | p :: q :: rest => ⟨p, q⟩ :: pairs rest
  | _ => []

/-- The passes of the lines at some heights, the first of them run backwards or
not. -/
def sweep (axes : Axes α) :
    Bool → List (SweepEdge α) → List (SweepEdge α) → List α → List (Pass α)
  | _, _, _, [] => []
  | backwards, active, waiting, h :: hs =>
    let (active, waiting) := advance h active waiting
    pairs (inOrder axes backwards (hits axes h active)) ++
      sweep axes (!backwards) active waiting hs

end Hatch

/-- The passes of a region, and the number of lines if it was large enough for
any. -/
structure HatchPlan (α : Type) where
  passes : List (Pass α)
  lines : Option Nat
  deriving Repr

namespace HatchPlan

variable {α : Type} [Scalar α]

/-- Are there three distinct vertices? -/
def hasArea (l : Polyline α) : Bool :=
  match l.rest.filter (· != l.start) with
  | [] => false
  | q :: ps => ps.any (· != q)

def ofPolyline (l : Polyline α) (step eps : α) : Except (HatchError α) (HatchPlan α) :=
  if step ≤ 0 then .error (.step step)
  else if !hasArea l then .ok ⟨[], none⟩
  else do
    let closed := l.isClosed eps
    let axes ← (Axes.principal (if closed then l.rest else l.vertices) eps).mapError .fault
    let hs := l.vertices.map (·.dot axes.across)
    let lines :=
      Hatch.heights (Hatch.extreme smaller hs) (Hatch.extreme larger hs) step
    return ⟨Hatch.sweep axes false [] (Hatch.edges l closed axes.across) lines, some lines.length⟩

/-- What is said of a plan. -/
def notices (plan : HatchPlan Float) (step : Float) : List Notice :=
  match plan.lines with
  | none => []
  | some n =>
    [.debug s!"Fill plan: {n} scan line(s), {plan.passes.length} pass(es), step {Double.general 4 step}"]

end HatchPlan

end BoardPlotter
