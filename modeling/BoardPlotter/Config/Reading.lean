import BoardPlotter.Config
import BoardPlotter.Scalar.Whole
import BoardPlotter.Text.Reading

/-!
# Reading a configuration

A configuration is read from a value, field by field, and then checked. Numbers
may be given as text, truth values count as one and zero.
-/

namespace BoardPlotter

namespace Value

abbrev Extract (β : Type) := Except (ConfigFailure Float) β

def refuse {β : Type} (e : ConfigError Float) : Extract β := .error (.refused e)

/-- A field that has to be there. -/
def field (v : Value) (key : String) : Extract Value :=
  match v with
  | map fields =>
    match fields.lookup key with
    | some x => .ok x
    | none => refuse (.missing key)
  | v => refuse (.unfit .field v)

def toNumber : Value → Extract Float
  | bool b => .ok (if b then 1.0 else 0.0)
  | int n => (Double.ofInt? n).mapError .fault
  | float x => .ok x
  | text s =>
    match Text.toFloat? s with
    | some x => .ok x
    | none => refuse (.malformed s!"could not convert string to float: {Text.quoted s}")
  | v => refuse (.unfit .number v)

/-- The most digits a whole number may be written with. -/
def mostDigits : Nat := 4300

def toWhole : Value → Extract Int
  | bool b => .ok (if b then 1 else 0)
  | int n => .ok n
  | float x =>
    if x.isNaN then refuse (.malformed "cannot convert float NaN to integer")
    else if x.isInf then .error (.fault .overflow)
    else .ok (Double.truncate x)
  | text s =>
    let digits := s.toList.countP Text.isDigit
    match Text.toInt? s with
    | some n =>
      if digits ≤ mostDigits then .ok n
      else refuse (.malformed (s!"Exceeds the limit ({mostDigits} digits) for integer string " ++
        s!"conversion: value has {digits} digits; use sys.set_int_max_str_digits() to increase " ++
        "the limit"))
    | none =>
      let got := ((Text.quoted s).take 200).toString
      refuse (.malformed s!"invalid literal for int() with base 10: {got}")
  | v => refuse (.unfit .whole v)

/-- A number in a field. -/
def number (v : Value) (key : String) : Extract Float := do (← v.field key).toNumber

/-- A place in space: three numbers. -/
def place (v : Value) (name : String) : Extract (Vec3 Float) := do
  match ← v.field name with
  | list [x, y, z] => return ⟨← x.toNumber, ← y.toNumber, ← z.toNumber⟩
  | got => refuse (.point name got)

/-- The depth and the number of segments of curves, each with a default. -/
def curveLimits (v : Value) : Extract (Int × Option Int) :=
  if !v.isPresent then .ok (16, none)
  else
    match v with
    | map fields => do
      let depth ← match fields.lookup "max_depth" with
        | some d => d.toWhole
        | none => .ok 16
      match fields.lookup "segments" with
      | none | some null => return (depth, none)
      | some n => return (depth, some (← n.toWhole))
    | _ => .error .unmapped

end Value

namespace Config

open Value

/-- The configuration that a value describes, not yet checked. -/
def describedBy (v : Value) : Extract (Config Float) := do
  let robot ← v.field "robot"
  let accuracy ← robot.number "accuracy_mm"
  let departure ← robot.number "departure_mm"
  let fillSpacing ← robot.number "pouring_step_mm"
  let drawFeed ← robot.number "draw_feed_mm_s"
  let travelFeed ← robot.number "travel_feed_mm_s"
  let board ← v.field "board"
  let origin ← board.place "origin"
  let endX ← board.place "corner_x"
  let endY ← board.place "corner_y"
  let viewport ← v.field "viewport"
  let defaultWidth ← viewport.number "default_width"
  let defaultHeight ← viewport.number "default_height"
  let limits := match v with
    | .map fields => (fields.lookup "flatten").getD .null
    | _ => .null
  let (depth, segments) ← curveLimits limits
  return {
    accuracy, fillSpacing, defaultWidth, defaultHeight, depth, segments
    tool := ⟨departure, drawFeed, travelFeed⟩
    corners := ⟨origin, endX, endY⟩ }

/-- The configuration that the content of a file gives. -/
def ofValue (path : String) (v : Value) : Extract (Config Float) :=
  match v with
  | .null => refuse (.empty path)
  | v => do
    let c ← describedBy v
    c.check
    return c

/-- What is said while the content of a file is read. -/
def readingNotices (path : String) (v : Value) : List Notice :=
  let said := match describedBy v with
    | .ok c => c.notices
    | .error _ => []
  let done := match ofValue path v with
    | .ok _ => [Notice.info "Configuration loaded successfully"]
    | .error _ => []
  .info s!"Loading configuration from {path}" :: said ++ done

end Config

end BoardPlotter
