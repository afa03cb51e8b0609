import BoardPlotter.Motion.Board
import BoardPlotter.Motion.Tool
import BoardPlotter.Scalar.Double

/-!
# Motion programs

A program is text: a head, one line per motion, and a tail that lifts the tool.
Positions are those of the robot, feeds are per minute.
-/

namespace BoardPlotter

/-- How far the tool departs, and its feeds in length per second. -/
structure ToolSettings (α : Type) where
  departure : α
  drawFeed : α
  travelFeed : α
  deriving DecidableEq, Repr

/-- A board and a tool over it. -/
structure Plotter (α : Type) [Scalar α] where
  board : Board α
  settings : ToolSettings α
  deriving Repr

namespace Plotter

variable {α : Type} [Scalar α]

/-- Where the robot goes in a motion. -/
def target (m : Plotter α) : Motion α → Vec3 α
  | .lifted p => m.board.above p m.settings.departure
  | .surface p _ => m.board.place p

/-- The feed of a motion. -/
def feed (m : Plotter α) : Motion α → α
  | .lifted _ => m.settings.travelFeed
  | .surface _ feed => feed

/-- Carries out operations with the feed of the settings. -/
def run (m : Plotter α) (t : Tool α) (ops : List (Operation α)) : ToolRun α :=
  t.run m.settings.drawFeed ops

/-- The motions of a whole job: its operations from no position on, and the lift
at the end. -/
def motions (m : Plotter α) (ops : List (Operation α)) : Except (ToolError α) (List (Motion α)) :=
  let r := m.run .idle ops
  match r.error with
  | some e => .error e
  | none => .ok (r.motions ++ r.tool.lift.motions)

end Plotter

namespace Program

def word : Motion Float → String
  | .lifted _ => "G0"
  | .surface .. => "G1"

def line (m : Plotter Float) (move : Motion Float) : String :=
  let v := m.target move
  s!"{word move} X{Double.fixed 3 v.x} Y{Double.fixed 3 v.y} Z{Double.fixed 3 v.z}" ++
    s!" F{Double.fixed 1 (m.feed move * 60.0)}\n"

def lines (m : Plotter Float) (moves : List (Motion Float)) : String :=
  String.join (moves.map (line m))

def head (b : Board Float) : String :=
  "; Generated by svg_motion G-code generator\n" ++
    s!"; Viewport {Double.fixed 3 b.width} x {Double.fixed 3 b.height}, " ++
    s!"scale {Double.fixed 4 b.scaleX} x {Double.fixed 4 b.scaleY} mm/unit\n" ++
    "G21 ; mm mode\nG90 ; absolute positioning\n\n"

def tail (m : Plotter Float) (moves : List (Motion Float)) : String :=
  "\n; --- End of job ---\n" ++ lines m moves ++ "M400 ; wait for motion complete\n"

/-- The program of a job. -/
def text (m : Plotter Float) (ops : List (Operation Float)) : Except (ToolError Float) String :=
  let r := m.run .idle ops
  match r.error with
  | some e => .error e
  | none => .ok (head m.board ++ lines m r.motions ++ tail m r.tool.lift.motions)

/-- What is said while a program is made. -/
def notices (m : Plotter Float) (ops : List (Operation Float)) : List Notice :=
  Tool.notices m.settings.drawFeed .idle ops ++
    match text m ops with
    | .error _ => []
    | .ok _ => [.info s!"Generated G-code for {ops.length} operation(s)"]

/-- The lines of one stroke for a tool that keeps its state, and that state. -/
def stroke (m : Plotter Float) (t : Tool Float) (ops : List (Operation Float)) :
    Tool Float × Except (ToolError Float) String :=
  let r := m.run t ops
  (r.tool, match r.error with
    | some e => .error e
    | none => .ok (lines m r.motions ++ "M400\n"))

end Program

end BoardPlotter
