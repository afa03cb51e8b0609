import BoardPlotter.Motion.Program
import BoardPlotter.Value

/-!
# Configuration

What a conversion is told beforehand: how accurate the robot is, how far apart
hatching lines lie, how the tool moves, where the board is, and which limits
hold for curves. Lengths are those of the robot.
-/

namespace BoardPlotter

open Scalar

/-- The corners of the board: the origin and the ends of its two edges. -/
structure Corners (α : Type) where
  origin : Vec3 α
  endX : Vec3 α
  endY : Vec3 α
  deriving DecidableEq, Repr

structure Config (α : Type) where
  accuracy : α
  fillSpacing : α
  tool : ToolSettings α
  corners : Corners α
  defaultWidth : α
  defaultHeight : α
  depth : Int
  segments : Option Int
  deriving Repr

/-- What a value was asked for that it cannot give. -/
inductive Demand where
  | field
  | number
  | whole
  deriving DecidableEq, Repr

/-- Why a configuration is refused. -/
inductive ConfigError (α : Type) where
  | empty (path : String)
  | missing (key : String)
  | unfit (demand : Demand) (got : Value)
  | malformed (reason : String)
  | point (name : String) (got : Value)
  | notPositive (name : String) (got : α)
  | negative (name : String) (got : α)
  | tooSmall (name : String) (got : Int)
  | coincident
  | parallel

/-- Why there is no configuration: it is refused, or a number of it is out of
reach, or the limits of curves are no map. -/
inductive ConfigFailure (α : Type) where
  | refused (e : ConfigError α)
  | fault (f : Fault)
  | unmapped

namespace Config

variable {α : Type} [Scalar α]

def positive (name : String) (x : α) : Except (ConfigError α) Unit :=
  if !isFinite x || x ≤ 0 then .error (.notPositive name x) else .ok ()

def atLeastOne (name : String) (n : Int) : Except (ConfigError α) Unit :=
  if n < 1 then .error (.tooSmall name n) else .ok ()

/-- The numbers of the robot: all positive but the departure, which may be zero. -/
def checkRobot (c : Config α) : Except (ConfigError α) Unit := do
  positive "robot.accuracy_mm" c.accuracy
  positive "robot.pouring_step_mm" c.fillSpacing
  positive "robot.draw_feed_mm_s" c.tool.drawFeed
  positive "robot.travel_feed_mm_s" c.tool.travelFeed
  let lift := c.tool.departure
  if !isFinite lift || lift < 0 then throw (.negative "robot.departure_mm" lift)

def checkLimits (c : Config α) : Except (ConfigError α) Unit := do
  positive "viewport.default_width" c.defaultWidth
  positive "viewport.default_height" c.defaultHeight
  atLeastOne "flatten.max_depth" c.depth
  match c.segments with
  | some n => atLeastOne "flatten.segments" n
  | none => pure ()

end Config

namespace Corners

variable {α : Type} [Scalar α]

def edgeX (c : Corners α) : Vec3 α := c.endX - c.origin

def edgeY (c : Corners α) : Vec3 α := c.endY - c.origin

/-- The least sine of the angle between the edges. -/
def leastSine : α := ofDecimal 1 (-6)

/-- The edges have a length and span a plane. -/
def check (c : Corners α) : Except (ConfigFailure α) Unit :=
  let x := c.edgeX
  let y := c.edgeY
  if x.length == 0 || y.length == 0 then .error (.refused .coincident)
  else
    match div? (x.cross y).length (x.length * y.length) with
    | .error f => .error (.fault f)
    | .ok sine => if sine < leastSine then .error (.refused .parallel) else .ok ()

end Corners

namespace Config

variable {α : Type} [Scalar α]

def check (c : Config α) : Except (ConfigFailure α) Unit := do
  (c.checkRobot).mapError .refused
  (c.checkLimits).mapError .refused
  c.corners.check

/-- What is said of a configuration whose robot is in order. -/
def notices (c : Config Float) : List Notice :=
  match c.checkRobot with
  | .error _ => []
  | .ok _ =>
    if c.fillSpacing < c.accuracy then
      [.warning (s!"Pouring step {Double.fixed 3 c.fillSpacing} mm is finer than robot accuracy " ++
        s!"{Double.fixed 3 c.accuracy} mm")]
    else []

/-- The configuration where none is given: a sheet that lies flat. -/
def standard : Config Float where
  accuracy := 0.1
  fillSpacing := 1.0
  tool := ⟨5.0, 40.0, 120.0⟩
  corners := ⟨⟨0.0, 0.0, 0.0⟩, ⟨297.0, 0.0, 0.0⟩, ⟨0.0, 210.0, 0.0⟩⟩
  defaultWidth := 297.0
  defaultHeight := 210.0
  depth := 16
  segments := none

end Config

namespace ConfigError

/-- What is said of a value that cannot give what it was asked for. -/
def unfitText (demand : Demand) (got : Value) : String :=
  let kind := got.kind
  match demand, got with
  | .field, .text _ => "string indices must be integers, not 'str'"
  | .field, .list _ => "list indices must be integers or slices, not str"
  | .field, _ => s!"'{kind}' object is not subscriptable"
  | .number, _ => s!"float() argument must be a string or a real number, not '{kind}'"
  | .whole, _ =>
    s!"int() argument must be a string, a bytes-like object or a real number, not '{kind}'"

def message : ConfigError Float → String
  | empty path => s!"Empty configuration file: {path}"
  | missing key => s!"Missing required configuration key: {Text.quoted key}"
  | unfit demand got => s!"Invalid configuration value: {unfitText demand got}"
  | malformed reason => s!"Invalid configuration value: {reason}"
  | point name got => s!"board.{name} must be a list of 3 numbers, got {got.shown}"
  | notPositive name got => s!"{name} must be > 0, got {Double.text got}"
  | negative name got => s!"{name} must be >= 0, got {Double.text got}"
  | tooSmall name got => s!"{name} must be >= 1, got {got}"
  | coincident => "Board corners must differ from the origin"
  | parallel => "Board edges are parallel; corners must span a plane"

end ConfigError

end BoardPlotter
