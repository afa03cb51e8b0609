import BoardPlotter.Log.Clock
import BoardPlotter.Log.Context
import BoardPlotter.Log.Notice
import BoardPlotter.Log.Template

/-!
# Log lines

A record becomes one line, for people to read or in JSON. An error that goes
with it follows behind.
-/

namespace BoardPlotter

inductive LineFormat where
  | human
  | json
  deriving DecidableEq, Repr

namespace LineFormat

def name : LineFormat → String
  | human => "human"
  | json => "json"

def ofName? (s : String) : Option LineFormat := [human, json].find? (·.name == s)

/-- What is said of a name that no format has. -/
def unknown (s : String) : String := s!"Unknown log format: {s}. Use 'human' or 'json'."

end LineFormat

/-- A record: `seconds` is its time, and `trace` the text of an error. -/
structure Record where
  seconds : Float
  level : Int
  name : String
  template : String
  arguments : List Value
  trace : Option String

/-- Why a record has no line. -/
inductive LineError where
  | clock (e : ClockError)
  | template (e : TemplateError)
  deriving DecidableEq, Repr

namespace Record

/-- The name of a level; one between the severities is told by its number. -/
def levelName (level : Int) : String :=
  if level = 0 then "NOTSET"
  else
    match Severity.all.find? (·.level == level) with
    | some s => s.text
    | none => s!"Level {level}"

/-- Fields with their values, one behind the other. -/
def contextText (c : Context) : String := " ".intercalate (c.map fun f => s!"{f.1}={f.2.plain}")

def humanLine (r : Record) (t : Instant) (c : Context) (message : String) : String :=
  let level := levelName r.level
  let padded := level ++ String.ofList (List.replicate (8 - level.length) ' ')
  let parts := [t.text, padded] ++ (if c.isEmpty then [] else [contextText c]) ++ [message]
  " | ".intercalate parts ++ match r.trace with
    | some e => "\n" ++ e
    | none => ""

/-- The fields of the context take the places of fields with the same names. -/
def entry (r : Record) (t : Instant) (c : Context) (message : String) : Fields :=
  let base : Fields :=
    [("t", .text t.offsetText), ("lvl", .text (levelName r.level)), ("name", .text r.name)]
  let full := (base.merge c).set "msg" (.text message)
  match r.trace with
  | some e => full.set "exc" (.text e)
  | none => full

/-- The line of a record in some context. -/
def line (f : LineFormat) (c : Context) (r : Record) : Except LineError String := do
  let t ← (Instant.ofSeconds r.seconds).mapError .clock
  let message ← (fillTemplate r.template r.arguments).mapError .template
  return match f with
    | .human => r.humanLine t c message
    | .json => (Value.map (r.entry t c message)).write .json

end Record

end BoardPlotter
