import BoardPlotter.Log.Setup
import BoardPlotter.Text.Digit

/-!
# Arguments

The words behind the name of the command: a drawing, perhaps a file for the
program, and switches. A long switch may be cut short as long as no other one
begins that way, and its value may stand behind an equals sign. Both files stand
together: one that comes after a further switch is one too many.
-/

namespace BoardPlotter

structure Arguments where
  svg : String
  out : Option String
  config : Option String
  level : Severity
  logFile : Option String
  json : Bool
  dryRun : Bool
  deriving DecidableEq, Repr

inductive Switch where
  | help
  | config
  | logLevel
  | logFile
  | jsonLogs
  | dryRun
  deriving DecidableEq, Repr

/-- A word by its form. -/
inductive Word where
  | plain (s : String)
  | separator
  | switch (s : Switch) (attached : Option String)
  | unknown
  | ambiguous
  deriving DecidableEq, Repr

/-- What the words ask for. -/
inductive Request where
  | convert (a : Arguments)
  | help
  | refused
  deriving DecidableEq, Repr

namespace Switch

def names : List (String × Switch) :=
  [("-h", help), ("--help", help), ("--config", config), ("-c", config), ("--log-level", logLevel),
    ("--log-file", logFile), ("--json-logs", jsonLogs), ("--dry-run", dryRun)]

end Switch

namespace Word

/-- Splits at the first equals sign. -/
def splitEquals (s : String) : String × Option String :=
  let head := s.toList.takeWhile (· != '=')
  match s.toList.drop head.length with
  | [] => (s, none)
  | _ :: rest => (String.ofList head, some (String.ofList rest))

/-- The switches that a word may stand for: by its beginning, or one letter with a
value behind it. -/
def candidates (s : String) : List (Switch × Option String) :=
  if s.startsWith "--" then
    let (head, attached) := splitEquals s
    (Switch.names.filter fun n => n.1.startsWith head).map fun n => (n.2, attached)
  else
    let letter := (s.take 2).toString
    (Switch.names.filter fun n => n.1 == letter).map fun n => (n.2, some (s.drop 2).toString)

/-- A number below zero is no switch. -/
def isNegativeNumber (s : String) : Bool :=
  match s.toList with
  | '-' :: cs =>
    let tail := cs.dropWhile Text.isDigit
    match tail with
    | [] => !cs.isEmpty
    | '.' :: ds => !ds.isEmpty && ds.all Text.isDigit
    | _ => false
  | _ => false

/-- The letter of help needs no value, and what stands behind it is not looked at. -/
def ofString (s : String) : Word :=
  let (head, attached) := splitEquals s
  if !s.startsWith "-" || s == "-" then plain s
  else if s.startsWith "-h" then switch .help none
  else
    match Switch.names.lookup s, attached.bind fun a => (Switch.names.lookup head).map (·, a) with
    | some k, _ => switch k none
    | none, some (k, a) => switch k (some a)
    | none, none =>
      match candidates s with
      | [(k, a)] => switch k a
      | _ :: _ => ambiguous
      | [] => if isNegativeNumber s || s.contains ' ' then plain s else unknown

/-- All words. Behind two dashes there are no more switches. -/
def ofStrings : List String → List Word
  | [] => []
  | "--" :: rest => separator :: rest.map plain
  | s :: rest => ofString s :: ofStrings rest

def isPlain : Word → Bool
  | plain _ | separator => true
  | _ => false

/-- The plain words among some. -/
def plains (ws : List Word) : List String :=
  ws.filterMap fun w => match w with | plain s => some s | _ => none

end Word

namespace Arguments

/-- What was given so far; `svg` is empty until the files were met, and `excess`
tells of words that have no place. -/
structure Draft where
  svg : Option String := none
  out : Option String := none
  config : Option String := none
  level : Severity := .info
  logFile : Option String := none
  json : Bool := false
  dryRun : Bool := false
  excess : Bool := false

namespace Draft

/-- The levels that may be asked for. -/
def levels : List Severity := [.debug, .info, .warning, .error]

def finish (d : Draft) : Request :=
  match d.svg, d.excess with
  | some svg, false => .convert ⟨svg, d.out, d.config, d.level, d.logFile, d.json, d.dryRun⟩
  | _, _ => .refused

/-- Takes the value of a switch. -/
def give (d : Draft) (k : Switch) (v : String) : Option Draft :=
  match k with
  | .config => some { d with config := some v }
  | .logFile => some { d with logFile := some v }
  | .logLevel => (levels.find? (·.text == v)).map fun level => { d with level }
  | _ => none

/-- Sets a switch that has no value. -/
def turnOn (d : Draft) (k : Switch) : Option Draft :=
  match k with
  | .jsonLogs => some { d with json := true }
  | .dryRun => some { d with dryRun := true }
  | _ => none

/-- Takes words that stand together as the files. Two dashes are no name for the
program. -/
def place (d : Draft) (run : List Word) : Draft :=
  match d.svg, Word.plains run with
  | none, [svg] => { d with svg := some svg }
  | none, [svg, out] => { d with svg := some svg, out := if out == "--" then none else some out }
  | none, svg :: _ => { d with svg := some svg, excess := true }
  | _, _ => { d with excess := true }

/-- The files are words that stand together: those before the next switch. -/
def read (d : Draft) (run : List Word) : List Word → Request
  | [] => (if run.isEmpty then d else d.place run).finish
  | w :: ws =>
    if w.isPlain then d.read (run ++ [w]) ws
    else
      let d := if run.isEmpty then d else d.place run
      match w, ws with
      | .switch .help none, _ => .help
      | .switch k (some v), ws =>
        match d.give k v with
        | some d => d.read [] ws
        | none => .refused
      | .switch k none, .plain v :: ws =>
        match d.turnOn k, d.give k v with
        | some d, _ => d.read [.plain v] ws
        | none, some d => d.read [] ws
        | none, none => .refused
      | .switch k none, ws =>
        match d.turnOn k with
        | some d => d.read [] ws
        | none => .refused
      | _, ws => ({ d with excess := true } : Draft).read [] ws

end Draft

def parse (argv : List String) : Request :=
  let words := Word.ofStrings argv
  if words.contains .ambiguous then .refused else Draft.read {} [] words

/-- How the log is set up. -/
def logRequest (a : Arguments) : LogRequest :=
  { level := a.level.text, file := a.logFile, json := a.json }

end Arguments

end BoardPlotter
